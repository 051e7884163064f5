/-
Ownpace/Dav/Href.lean

What a server's href says of a resource: `dav-multistatus.ts`.

An href is read in two ways.  One that is an absolute path is decoded and
compared with the base; one that is an absolute URL is decoded and then parsed,
which encodes it again.  The base is compared as the URL parser writes it, with
its escapes.  `Href.path_iff` and `Href.url_iff` say when each way answers the
path below the base.
-/
import Ownpace.Uri.Exact

namespace Ownpace.Dav

open Uri

/-! ### The functions -/

inductive DavError where
  | undecodable (href : Text)
  | notAddressable (href baseUrl : Text)
  /-- A PROPFIND the server did not answer with a listing. -/
  | refused (dir : Text) (status : Nat) (body : Text)
  /-- The folder everything is put below is gone. -/
  | targetFolderMissing (folder : Text) (serverSaid : DavError)
  /-- A walk that was given too few steps. -/
  | unfinished
  deriving DecidableEq

def DavError.message : DavError → Text
  | undecodable href => "Cannot decode DAV href: ".toList ++ href
  | notAddressable href baseUrl =>
    "DAV href ".toList ++ href ++ " is not addressable under ".toList ++ baseUrl ++
      "; refusing to key an item by it.".toList
  | refused dir status body =>
    "PROPFIND on ".toList ++ (if dir.isEmpty then ['/'] else dir) ++ " failed with status ".toList ++
      (toString status).toList ++ ": ".toList ++ body
  | targetFolderMissing folder serverSaid =>
    "The folder ".toList ++ folder ++ " does not exist on the target (".toList ++
      serverSaid.message ++ ")".toList
  | unfinished => []

/-- `replace(/\/+$/, '')` -/
def stripTrailing (s : Text) : Text := s.rdropWhile (· = '/')

/-- `replace(/^\/+/, '')` -/
def stripLeading (s : Text) : Text := s.dropWhile (· = '/')

def decodeHref (href : Text) : Except DavError Text :=
  match decodeURIComponent href with
  | some decoded => .ok decoded
  | none => .error (.undecodable href)

/-- `startsWith('http://') || startsWith('https://')` -/
def isAbsoluteUrl (s : Text) : Bool :=
  "http://".toList.isPrefixOf s || "https://".toList.isPrefixOf s

/-- The path of a base, as it is compared. -/
def basePathOf (baseUrl : Text) : Text := stripTrailing (urlPathname baseUrl)

/-- A path relative to a base's: `none` when it does not live under the base at
all. -/
def relativeTo (normalizedHref basePath : Text) : Option Text :=
  if basePath = [] then some (stripLeading normalizedHref)
  else if normalizedHref = basePath then some []
  else if !(basePath ++ ['/']).isPrefixOf normalizedHref then none
  else some (normalizedHref.drop (basePath.length + 1))

/-- The path of what an href is decoded as. -/
def pathOfDecoded (decoded : Text) : Text :=
  if isAbsoluteUrl decoded then urlPathname decoded else decoded

/-- Make an href relative to a base URL's path. -/
def hrefRelativeTo (href baseUrl : Text) : Except DavError (Option Text) :=
  match decodeHref href with
  | .error e => .error e
  | .ok decoded => .ok (relativeTo (stripTrailing (pathOfDecoded decoded)) (basePathOf baseUrl))

/-- A server href as a `targetId`. -/
def targetIdRelativeTo (href baseUrl : Text) : Except DavError Text :=
  match hrefRelativeTo href baseUrl with
  | .error e => .error e
  | .ok none => .error (.notAddressable href baseUrl)
  | .ok (some relative) =>
    if relative = [] then .error (.notAddressable href baseUrl) else .ok ('/' :: relative)

/-! ### How a server may write an href -/

/-- What may stand in a path as it is. -/
def MayStand (c : Char) : Prop :=
  ('A' ≤ c ∧ c ≤ 'Z') ∨ ('a' ≤ c ∧ c ≤ 'z') ∨ ('0' ≤ c ∧ c ≤ '9') ∨
    c ∈ ['-', '.', '_', '~', '!', '$', '&', '\'', '(', ')', '*', '+', ',', ';', '=', ':', '@', '/']

instance : DecidablePred MayStand := fun _ => inferInstanceAs (Decidable (_ ∨ _))

/-- The text of an element: a `&` is written as a reference, which the readers
here do not undo. -/
def xmlText (s : Text) : Text := s.flatMap fun c => if c = '&' then "&amp;".toList else [c]

/-- An href as a server writes it: a path, or one behind an origin, with the
escapes it chose. -/
structure Href where
  origin : Text
  spelled : Text
  /-- A collection's may end in a slash. -/
  slash : Bool

namespace Href

def text (h : Href) : Text := xmlText (h.origin ++ h.spelled)

def tail (h : Href) : Text := if h.slash then ['/'] else []

/-- It is of the resource at a path. -/
structure Names (h : Href) (path : Text) : Prop where
  origin : h.origin = [] ∨
    IsOrigin h.origin ∧ '%' ∉ h.origin ∧ '&' ∉ h.origin ∧ isAbsoluteUrl h.origin = true
  spelled : Spells MayStand h.spelled (path ++ h.tail)

/-- It is read as what it names: nothing in it is a reference, and neither the
decoding nor the parsing changes what the base and the names are compared by. -/
structure Plain (h : Href) (basePath decodedBase : Text) (names : List Text) : Prop where
  amp : '&' ∉ h.spelled
  path : h.origin = [] → '%' ∉ basePath
  url : h.origin ≠ [] → LeftAlone basePath decodedBase names h.tail

end Href

/-! ### Slashes at the ends -/

variable {s t u : Text} {href baseUrl base rel tail : Text} {c : Char}

theorem stripTrailing_initial (s : Text) : stripTrailing s <+: s := List.rdropWhile_prefix _ _

theorem stripTrailing_of_last (h : ∀ c ∈ s.getLast?, c ≠ '/') : stripTrailing s = s := by
  unfold stripTrailing
  rw [List.rdropWhile_eq_self_iff]
  intro hne
  rw [decide_eq_true_iff]
  exact h _ (List.getLast_mem_getLast? hne)

theorem stripLeading_of_head (h : ∀ c ∈ s.head?, c ≠ '/') : stripLeading s = s :=
  dropWhile_eq_self fun c hc => decide_eq_false (h c hc)

theorem stripLeading_slash (h : ∀ c ∈ s.head?, c ≠ '/') : stripLeading ('/' :: s) = s := by
  unfold stripLeading
  rw [List.dropWhile_cons_of_pos (by decide)]
  exact stripLeading_of_head h

theorem count_stripTrailing (hc : c ≠ '/') (s : Text) : (stripTrailing s).count c = s.count c := by
  unfold stripTrailing
  induction s using List.reverseRecOn with
  | nil => rfl
  | append_singleton s d ih =>
      by_cases hd : d = '/'
      · subst hd
        rw [List.rdropWhile_concat_pos _ _ _ (by decide), ih]
        simp [Ne.symm hc]
      · rw [List.rdropWhile_concat_neg _ _ _ (by simpa using hd)]

theorem count_stripLeading (hc : c ≠ '/') (s : Text) : (stripLeading s).count c = s.count c := by
  unfold stripLeading
  induction s with
  | nil => rfl
  | cons d s ih =>
      by_cases hd : d = '/'
      · subst hd
        rw [List.dropWhile_cons_of_pos (by decide), ih]
        simp [Ne.symm hc]
      · rw [List.dropWhile_cons_of_neg (by simpa using hd)]

/-! ### An absolute path -/

theorem hexValue_amp : hexValue '&' = none := by decide

/-- No digit of an escape is a `&`. -/
theorem amp_not_mem_escapes {bs : List UInt8} {e : Text} (h : Escapes bs e) : '&' ∉ e := by
  induction h with
  | nil => exact List.not_mem_nil
  | @cons a b x bs t hb _ ih =>
      simp only [List.mem_cons, not_or]
      refine ⟨by decide, ?_, ?_, ih⟩
      · rintro rfl
        simp [hexByte, hexValue_amp] at hb
      · rintro rfl
        rw [hexByte, hexValue_amp] at hb
        split at hb
        · next h => cases h
        · cases hb

theorem xmlText_append (s t : Text) : xmlText (s ++ t) = xmlText s ++ xmlText t := List.flatMap_append

theorem xmlText_of_no_amp (h : '&' ∉ s) : xmlText s = s := by
  induction s with
  | nil => rfl
  | cons c s ih =>
      rw [List.mem_cons, not_or] at h
      rw [xmlText, List.flatMap_cons, if_neg (Ne.symm h.1)]
      exact congrArg (c :: ·) (ih h.2)

/-- What is read of an href: the path, with a reference where a `&` was written
as it is. -/
theorem decode_xmlText (h : Spells MayStand u s) :
    ∃ t, decodeURIComponent (xmlText u) = some t ∧ t.head? = s.head? ∧
      t.count ';' = s.count ';' + u.count '&' ∧ ('&' ∉ u → t = s) := by
  induction h with
  | nil => exact ⟨[], rfl, rfl, rfl, fun _ => rfl⟩
  | @plain c u s _ hc _ ih =>
      obtain ⟨t, ht, -, hcount, hsame⟩ := ih
      by_cases hamp : c = '&'
      · subst hamp
        refine ⟨"&amp;".toList ++ t, ?_, rfl, ?_, fun hnot => absurd List.mem_cons_self hnot⟩
        · show decodeURIComponent ("&amp;".toList ++ xmlText u) = _
          rw [decode_append_plain (by decide), ht]
          rfl
        · rw [List.count_append, hcount, List.count_cons, List.count_cons]
          rw [show "&amp;".toList.count ';' = 1 by decide]
          simp
          omega
      · refine ⟨c :: t, ?_, rfl, ?_, fun hnot => ?_⟩
        · rw [xmlText, List.flatMap_cons, if_neg hamp]
          show decodeURIComponent (c :: xmlText u) = _
          rw [decode_cons hc, ht]
          rfl
        · rw [List.count_cons, List.count_cons, List.count_cons, hcount]
          simp [hamp]
          omega
        · rw [hsame fun hmem => hnot (List.mem_cons_of_mem _ hmem)]
  | @escaped c e u s he _ ih =>
      obtain ⟨t, ht, -, hcount, hsame⟩ := ih
      have hnone := amp_not_mem_escapes he
      refine ⟨c :: t, ?_, rfl, ?_, fun hnot => ?_⟩
      · rw [xmlText_append, xmlText_of_no_amp hnone, decode_escapes he, ht]
        rfl
      · rw [List.count_append, List.count_eq_zero.mpr hnone, List.count_cons, List.count_cons, hcount]
        omega
      · rw [hsame fun hmem => hnot (List.mem_append_right _ hmem)]

theorem not_absolute_of_head (h : s.head? = some '/') : isAbsoluteUrl s = false := by
  obtain ⟨rest, rfl⟩ : ∃ rest, s = '/' :: rest := by
    cases s with
    | nil => cases h
    | cons c rest =>
        cases h
        exact ⟨rest, rfl⟩
  rfl

theorem head_stripTrailing (h : s.head? = some '/' ∨ s = []) :
    stripTrailing s = [] ∨ (stripTrailing s).head? = some '/' := by
  obtain ⟨r, hr⟩ : stripTrailing s <+: s := List.rdropWhile_prefix _ _
  cases hs : stripTrailing s with
  | nil => exact .inl rfl
  | cons c rest =>
      rw [hs] at hr
      rcases h with h | h
      · rw [← hr] at h
        exact .inr h
      · rw [h] at hr
        cases hr

theorem head_pathText (segs : List Text) : (pathText segs).head? = some '/' ∨ pathText segs = [] := by
  cases segs with
  | nil => exact .inr rfl
  | cons seg segs => exact .inl rfl

/-- A base's path is nothing, or begins with a slash. -/
theorem head_basePathOf : basePathOf baseUrl = [] ∨ (basePathOf baseUrl).head? = some '/' :=
  head_stripTrailing (head_pathText _)

theorem head_of_decode (h : decodeURIComponent s = some t) (hs : s = [] ∨ s.head? = some '/') :
    t = [] ∨ t.head? = some '/' := by
  cases s with
  | nil =>
      cases h
      exact .inl rfl
  | cons c s =>
      obtain rfl : c = '/' := by simpa using hs
      rw [decode_cons (by decide)] at h
      obtain ⟨r, -, rfl⟩ := Option.map_eq_some_iff.mp h
      exact .inr rfl

/-- What is answered of a path, once it is read. -/
theorem hrefRelativeTo_of_decoded (h : decodeURIComponent href = some t) :
    hrefRelativeTo href baseUrl =
      .ok (relativeTo (stripTrailing (pathOfDecoded t)) (basePathOf baseUrl)) := by
  unfold hrefRelativeTo decodeHref
  rw [h]

/-! ### What is answered -/

variable {names : List Text} {D : Text} {h : Href}

theorem stripTrailing_append_tail (htail : tail = [] ∨ tail = ['/']) (s : Text) :
    stripTrailing (s ++ tail) = stripTrailing s := by
  rcases htail with rfl | rfl
  · rw [List.append_nil]
  · exact List.rdropWhile_concat_pos _ _ _ (by decide)

theorem Href.tail_cases (h : Href) : h.tail = [] ∨ h.tail = ['/'] := by
  unfold Href.tail
  split
  · exact .inr rfl
  · exact .inl rfl

theorem last_stripTrailing (s : Text) : ∀ c ∈ (stripTrailing s).getLast?, c ≠ '/' := by
  intro c hc
  have hne : stripTrailing s ≠ [] := by
    intro hnil
    rw [hnil] at hc
    cases hc
  have hlast := List.rdropWhile_last_not (· = '/') s hne
  rw [List.getLast?_eq_getLast_of_ne_nil hne] at hc
  cases hc
  exact of_decide_eq_false (Bool.not_eq_true _ ▸ hlast)

theorem stripTrailing_basePathOf : stripTrailing (basePathOf baseUrl) = basePathOf baseUrl :=
  stripTrailing_of_last (last_stripTrailing _)

theorem stripTrailing_names (hnames : ∀ n ∈ names, IsName n) (hne : names ≠ []) (s : Text) :
    stripTrailing (s ++ pathText names) = s ++ pathText names := by
  refine stripTrailing_of_last fun c hc => ?_
  rw [List.getLast?_append_of_ne_nil _ (pathText_ne_nil hne)] at hc
  exact last_pathText hnames hne c hc

theorem pathText_nil : pathText [] = [] := rfl

theorem joinSlash_nil : joinSlash [] = [] := rfl

theorem joinSlash_eq_nil (hnames : ∀ n ∈ names, IsName n) (h : joinSlash names = []) : names = [] := by
  cases names with
  | nil => rfl
  | cons n names =>
      have hn := (hnames n List.mem_cons_self).ne_nil
      cases names with
      | nil =>
          rw [show joinSlash [n] = n by simp [joinSlash]] at h
          exact absurd h hn
      | cons m names =>
          rw [joinSlash_cons_cons] at h
          exact absurd (List.append_eq_nil_iff.mp h).1 hn

/-- A path is answered as the names below the base exactly where it is the
base's with the names behind it. -/
theorem relativeTo_iff {path : Text} (hnames : ∀ n ∈ names, IsName n)
    (hpath : ∀ c ∈ path.getLast?, c ≠ '/') :
    relativeTo path base = some (joinSlash names) ↔
      if base = [] then stripLeading path = joinSlash names else path = base ++ pathText names := by
  unfold relativeTo
  by_cases hbase : base = []
  · rw [if_pos hbase, if_pos hbase, Option.some.injEq]
  rw [if_neg hbase, if_neg hbase]
  by_cases hself : path = base
  · subst hself
    rw [if_pos rfl, Option.some.injEq]
    constructor
    · intro hnil
      rw [joinSlash_eq_nil hnames hnil.symm]
      exact (List.append_nil path).symm
    · intro happ
      rw [List.self_eq_append_right] at happ
      cases names with
      | nil => rfl
      | cons n names => cases happ
  rw [if_neg hself]
  by_cases hbelow : (base ++ ['/']).isPrefixOf path = true
  · rw [hbelow, if_neg (by decide)]
    obtain ⟨rest, rfl⟩ := List.isPrefixOf_iff_prefix.mp hbelow
    have hdrop : (base ++ ['/'] ++ rest).drop (base.length + 1) = rest := by
      simp
    rw [hdrop, Option.some.injEq, List.append_assoc, List.append_cancel_left_eq]
    by_cases hnil : names = []
    · subst hnil
      constructor
      · rintro rfl
        rw [joinSlash_nil] at hpath
        exact absurd rfl (hpath '/' (by simp))
      · intro h
        cases h
    · rw [pathText_eq_joinSlash hnil, List.singleton_append, List.cons.injEq]
      exact (and_iff_right rfl).symm
  · rw [Bool.not_eq_true] at hbelow
    rw [hbelow, Bool.not_false, if_pos rfl]
    refine ⟨nofun, fun happ => ?_⟩
    by_cases hnil : names = []
    · subst hnil
      exact absurd (happ.trans (List.append_nil base)) hself
    · rw [pathText_eq_joinSlash hnil] at happ
      have hprefix : base ++ ['/'] <+: path := ⟨joinSlash names, by rw [happ, List.append_assoc]; rfl⟩
      rw [← List.isPrefixOf_iff_prefix, hbelow] at hprefix
      cases hprefix

/-! ### What an href is read as -/

theorem count_joinSlash (hc : c ≠ '/') (names : List Text) :
    (joinSlash names).count c = (pathText names).count c := by
  by_cases hnil : names = []
  · subst hnil
    rfl
  · rw [pathText_eq_joinSlash hnil, List.count_cons_of_ne (Ne.symm hc)]

theorem stripTrailing_base_names (hnames : ∀ n ∈ names, IsName n) :
    stripTrailing (basePathOf baseUrl ++ pathText names) = basePathOf baseUrl ++ pathText names := by
  by_cases hnil : names = []
  · rw [hnil, pathText_nil, List.append_nil, stripTrailing_basePathOf]
  · exact stripTrailing_names hnames hnil _

theorem stripLeading_pathText (hnames : ∀ n ∈ names, IsName n) :
    stripLeading (pathText names) = joinSlash names := by
  by_cases hnil : names = []
  · rw [hnil]
    rfl
  · rw [pathText_eq_joinSlash hnil, stripLeading_slash (head_joinSlash hnames)]

/-- **An href that is an absolute path** is read as the path below the base
exactly where its text holds no reference and the base's path no escape. -/
theorem Href.path_iff (hb : decodeURIComponent (basePathOf baseUrl) = some D)
    (hnames : ∀ n ∈ names, IsName n) (hh : h.Names (D ++ pathText names)) (horigin : h.origin = []) :
    hrefRelativeTo h.text baseUrl = .ok (some (joinSlash names)) ↔
      '&' ∉ h.spelled ∧ '%' ∉ basePathOf baseUrl := by
  obtain ⟨t, ht, hhead, hcount, hsame⟩ := decode_xmlText hh.spelled
  have hD := head_of_decode hb head_basePathOf
  have htext : decodeURIComponent h.text = some t := by
    rw [Href.text, horigin, List.nil_append, ht]
  have habsolute : isAbsoluteUrl t = false := by
    rcases head_decoded hD names h.tail_cases with hnil | hslash
    · rw [hnil] at hhead
      rw [List.head?_eq_none_iff.mp hhead]
      rfl
    · exact not_absolute_of_head (hhead.trans hslash)
  have hstrip : '&' ∉ h.spelled → stripTrailing t = stripTrailing (D ++ pathText names) := fun hamp => by
    rw [hsame hamp, stripTrailing_append_tail h.tail_cases]
  rw [hrefRelativeTo_of_decoded htext, pathOfDecoded, habsolute, Except.ok.injEq,
    if_neg Bool.false_ne_true, relativeTo_iff hnames (last_stripTrailing t)]
  constructor
  · intro heq
    -- A reference would leave one `;` too many.
    have htails : h.tail.count ';' = 0 := by
      rcases h.tail_cases with htail | htail <;> rw [htail] <;> rfl
    have hwritten : (stripTrailing t).count ';' =
        D.count ';' + (pathText names).count ';' + h.spelled.count '&' := by
      rw [count_stripTrailing (by decide), hcount, List.count_append, List.count_append, htails]
      rfl
    have hkept := decode_count (c := ';') (by decide) (by decide) hb
    have hnone : h.spelled.count '&' = 0 := by
      split at heq
      · rw [← count_stripLeading (c := ';') (by decide), heq, count_joinSlash (by decide)] at hwritten
        omega
      · rw [heq, List.count_append] at hwritten
        omega
    have hamp := List.count_eq_zero.mp hnone
    refine ⟨hamp, ?_⟩
    rw [hstrip hamp] at heq
    split at heq
    · next hnil =>
        rw [hnil]
        exact List.not_mem_nil
    · intro hmem
      have hshort := (decode_length hb).2 hmem
      have hle := (List.rdropWhile_prefix (· = '/') (D ++ pathText names)).length_le
      rw [show (D ++ pathText names).rdropWhile (· = '/') = _ from heq, List.length_append,
        List.length_append] at hle
      omega
  · intro hplain
    have hsame : D = basePathOf baseUrl := by
      rw [decode_plain hplain.2] at hb
      exact (Option.some.inj hb).symm
    rw [hstrip hplain.1, hsame, stripTrailing_base_names hnames]
    generalize basePathOf baseUrl = b
    by_cases hbase : b = []
    · rw [if_pos hbase, hbase, List.nil_append]
      exact stripLeading_pathText hnames
    · rw [if_neg hbase]

/-- Nothing in a base's path is encoded again. -/
theorem basePathOf_kept : ∀ c ∈ basePathOf baseUrl, inPathSet c = false := by
  intro c hc
  have hmem : c ∈ urlPathname baseUrl := (stripTrailing_initial _).subset hc
  rcases mem_urlPathname hmem with hslash | hkept
  · rw [hslash]
    rfl
  · exact hkept.1

theorem isAbsoluteUrl_append (h : isAbsoluteUrl s = true) : isAbsoluteUrl (s ++ t) = true := by
  unfold isAbsoluteUrl at h ⊢
  rw [Bool.or_eq_true, List.isPrefixOf_iff_prefix, List.isPrefixOf_iff_prefix] at h ⊢
  exact h.imp (·.trans (List.prefix_append _ _)) (·.trans (List.prefix_append _ _))

/-- **An href that is an absolute URL**, and holds no reference, is read as the
path below the base exactly where the parser leaves the decoded path alone. -/
theorem Href.url_iff (hb : decodeURIComponent (basePathOf baseUrl) = some D)
    (hnames : ∀ n ∈ names, IsName n) (hh : h.Names (D ++ pathText names)) (horigin : h.origin ≠ [])
    (hamp : '&' ∉ h.spelled) :
    hrefRelativeTo h.text baseUrl = .ok (some (joinSlash names)) ↔
      LeftAlone (basePathOf baseUrl) D names h.tail := by
  obtain ⟨ho, hescapes, hreference, habsolute⟩ := hh.origin.resolve_left horigin
  have hD := head_of_decode hb head_basePathOf
  have htext : decodeURIComponent h.text = some (h.origin ++ (D ++ pathText names ++ h.tail)) := by
    obtain ⟨t, ht, -, -, hsame⟩ := decode_xmlText hh.spelled
    rw [hsame hamp] at ht
    rw [Href.text, xmlText_append, xmlText_of_no_amp hreference, decode_append_plain hescapes, ht]
    rfl
  rw [hrefRelativeTo_of_decoded htext, pathOfDecoded, isAbsoluteUrl_append habsolute, if_pos rfl, Except.ok.injEq,
    relativeTo_iff hnames (last_stripTrailing _)]
  by_cases hbase : basePathOf baseUrl = []
  · rw [if_pos hbase, hbase]
    rw [hbase] at hb
    cases hb
    exact urlPathname_root_iff ho hnames h.tail_cases
  · rw [if_neg hbase]
    exact urlPathname_decoded_iff ho hb basePathOf_kept hD hnames h.tail_cases

/-- An href that is plain is read as the path below the base; and only such a
one, of those that are a path or hold no reference. -/
theorem Href.plain_of (hb : decodeURIComponent (basePathOf baseUrl) = some D)
    (hnames : ∀ n ∈ names, IsName n) (hh : h.Names (D ++ pathText names))
    (hp : h.Plain (basePathOf baseUrl) D names) :
    hrefRelativeTo h.text baseUrl = .ok (some (joinSlash names)) := by
  by_cases horigin : h.origin = []
  · exact (Href.path_iff hb hnames hh horigin).mpr ⟨hp.amp, hp.path horigin⟩
  · exact (Href.url_iff hb hnames hh horigin hp.amp).mpr (hp.url horigin)

theorem Href.plain_of_read (hb : decodeURIComponent (basePathOf baseUrl) = some D)
    (hnames : ∀ n ∈ names, IsName n) (hh : h.Names (D ++ pathText names))
    (hform : h.origin = [] ∨ '&' ∉ h.spelled)
    (hread : hrefRelativeTo h.text baseUrl = .ok (some (joinSlash names))) :
    h.Plain (basePathOf baseUrl) D names := by
  by_cases horigin : h.origin = []
  · obtain ⟨hamp, hescapes⟩ := (Href.path_iff hb hnames hh horigin).mp hread
    exact ⟨hamp, fun _ => hescapes, fun hne => absurd horigin hne⟩
  · have hamp := hform.resolve_left horigin
    exact ⟨hamp, fun hnil => absurd hnil horigin,
      fun _ => (Href.url_iff hb hnames hh horigin hamp).mp hread⟩

end Ownpace.Dav
