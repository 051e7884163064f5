/-
Ownpace/Uri/Path.lean

The path of an `http` or `https` URL, as a URL parser leaves it.

Tabs and line breaks are taken out, the path ends at `?` or `#`, `\` separates
as `/` does, dot segments are resolved, and what may not stand in a path is
percent-encoded.  Escapes are left as they are: a server decodes them, once.
`urlPathname_base_segments` says what becomes of segments put behind a URL.
-/
import Mathlib.Data.List.TakeWhile
import Ownpace.Uri.Percent

namespace Ownpace.Uri

/-! ### The parser -/

def isTabOrNewline (c : Char) : Bool := c ∈ ['\t', '\n', '\r']

def isC0OrSpace (c : Char) : Bool := c.toNat ≤ 0x20

def isSlash (c : Char) : Bool := c = '/' || c = '\\'

def endsPath (c : Char) : Bool := c = '?' || c = '#'

/-- The path percent-encode set. -/
def inPathSet (c : Char) : Bool :=
  c.toNat ≤ 0x1f || 0x7e < c.toNat ||
    c ∈ [' ', '\x22', '#', '<', '>', '?', '^', '\x60', '\x7b', '\x7d']

def encodeSegment (seg : Text) : Text :=
  seg.flatMap fun c => if inPathSet c then percentEncode c else [c]

/-- Its dots, each of which may be written `%2e`. -/
def dots : Text → Option Nat
  | [] => some 0
  | '.' :: rest => (dots rest).map (· + 1)
  | '%' :: '2' :: 'e' :: rest => (dots rest).map (· + 1)
  | '%' :: '2' :: 'E' :: rest => (dots rest).map (· + 1)
  | _ => none

def isSingleDot (seg : Text) : Bool := dots seg = some 1

def isDoubleDot (seg : Text) : Bool := dots seg = some 2

/-- Cut at every `/` and every `\`. -/
def splitSlashes : Text → List Text
  | [] => [[]]
  | c :: rest =>
    if isSlash c then [] :: splitSlashes rest
    else (splitSlashes rest).modifyHead (c :: ·)

/-- Resolve segments behind those a path has so far, the last of them first. -/
def resolve : List Text → List Text → List Text
  | path, [] => path.reverse
  | path, seg :: segs =>
    if isDoubleDot seg then
      if segs.isEmpty then ([] :: path.tail).reverse else resolve path.tail segs
    else if isSingleDot seg then
      if segs.isEmpty then ([] :: path).reverse else resolve path segs
    else resolve (encodeSegment seg :: path) segs

/-- A path serialized. -/
def pathText (segs : List Text) : Text := segs.flatMap ('/' :: ·)

/-- What the parser takes out, and what it leaves off. -/
def cleaned (url : Text) : Text :=
  ((url.dropWhile isC0OrSpace).reverse.dropWhile isC0OrSpace).reverse.filter (!isTabOrNewline ·)

/-- What follows the authority. -/
def afterAuthority (url : Text) : Text :=
  ((url.dropWhile (· ≠ ':')).drop 1).dropWhile isSlash |>.dropWhile fun c =>
    !isSlash c && !endsPath c

/-- The path of what follows the authority. -/
def pathOf (rest : Text) : Text :=
  pathText (resolve [] (splitSlashes ((rest.takeWhile (!endsPath ·)).drop 1)))

/-- `new URL(url).pathname` -/
def urlPathname (url : Text) : Text := pathOf (afterAuthority (cleaned url))

/-! ### Segments -/

variable {o p s t : Text} {seg : Text} {segs path : List Text} {c : Char}

/-- Segments with a `/` between them. -/
def joinSlash (segs : List Text) : Text := List.intercalate ['/'] segs

theorem splitSlashes_ne_nil (s : Text) : splitSlashes s ≠ [] := by
  induction s with
  | nil => exact List.cons_ne_nil _ _
  | cons c s ih =>
      unfold splitSlashes
      split
      · exact List.cons_ne_nil _ _
      · intro h
        exact ih (List.modifyHead_eq_nil_iff.mp h)

theorem splitSlashes_cons (c : Char) (s : Text) :
    splitSlashes (c :: s) =
      if isSlash c then [] :: splitSlashes s else (splitSlashes s).modifyHead (c :: ·) := rfl

theorem splitSlashes_append_slash (s t : Text) :
    splitSlashes (s ++ '/' :: t) = splitSlashes s ++ splitSlashes t := by
  induction s with
  | nil => rfl
  | cons c s ih =>
      rw [List.cons_append, splitSlashes_cons, splitSlashes_cons, ih]
      split
      · rfl
      · obtain ⟨head, rest, hs⟩ := List.exists_cons_of_ne_nil (splitSlashes_ne_nil s)
        rw [hs]
        rfl

theorem splitSlashes_of_segment (h : ∀ c ∈ seg, isSlash c = false) : splitSlashes seg = [seg] := by
  induction seg with
  | nil => rfl
  | cons c seg ih =>
      have hc := h c List.mem_cons_self
      rw [splitSlashes, hc, ih fun d hd => h d (List.mem_cons_of_mem _ hd)]
      rfl

theorem joinSlash_cons_cons (a b : Text) (segs : List Text) :
    joinSlash (a :: b :: segs) = a ++ '/' :: joinSlash (b :: segs) := by
  simp [joinSlash, List.intercalate]

theorem splitSlashes_joinSlash (hne : segs ≠ []) (h : ∀ seg ∈ segs, ∀ c ∈ seg, isSlash c = false) :
    splitSlashes (joinSlash segs) = segs := by
  induction segs with
  | nil => exact absurd rfl hne
  | cons a segs ih =>
      have ha := splitSlashes_of_segment (h a List.mem_cons_self)
      cases segs with
      | nil => simpa [joinSlash] using ha
      | cons b segs =>
          rw [joinSlash_cons_cons, splitSlashes_append_slash, ha,
            ih (List.cons_ne_nil _ _) fun seg hseg => h seg (List.mem_cons_of_mem _ hseg)]
          rfl

theorem mem_joinSlash (hc : c ∈ joinSlash segs) : c = '/' ∨ ∃ seg ∈ segs, c ∈ seg := by
  induction segs with
  | nil => cases hc
  | cons a segs ih =>
      cases segs with
      | nil =>
          rw [show joinSlash [a] = a by simp [joinSlash]] at hc
          exact .inr ⟨a, List.mem_cons_self, hc⟩
      | cons b segs =>
          rw [joinSlash_cons_cons, List.mem_append, List.mem_cons] at hc
          rcases hc with hc | rfl | hc
          · exact .inr ⟨a, List.mem_cons_self, hc⟩
          · exact .inl rfl
          · rcases ih hc with rfl | ⟨seg, hseg, hc⟩
            · exact .inl rfl
            · exact .inr ⟨seg, List.mem_cons_of_mem _ hseg, hc⟩

theorem pathText_eq_joinSlash (hne : segs ≠ []) : pathText segs = '/' :: joinSlash segs := by
  induction segs with
  | nil => exact absurd rfl hne
  | cons a segs ih =>
      cases segs with
      | nil => simp [pathText, joinSlash]
      | cons b segs =>
          rw [joinSlash_cons_cons, ← ih (List.cons_ne_nil _ _)]
          rfl

theorem pathText_append (a b : List Text) : pathText (a ++ b) = pathText a ++ pathText b :=
  List.flatMap_append

/-! ### Resolving -/

/-- A segment that is not the last. -/
def resolveStep (path : List Text) (seg : Text) : List Text :=
  if isDoubleDot seg then path.tail
  else if isSingleDot seg then path
  else encodeSegment seg :: path

theorem resolve_append (path segs : List Text) {rest : List Text} (hrest : rest ≠ []) :
    resolve path (segs ++ rest) = resolve (segs.foldl resolveStep path) rest := by
  induction segs generalizing path with
  | nil => rfl
  | cons seg segs ih =>
      have hmore : (segs ++ rest).isEmpty = false := by
        simp [hrest]
      rw [List.cons_append, resolve, hmore, List.foldl_cons, ← ih, resolveStep]
      simp only [Bool.false_eq_true, if_false]
      split
      · rfl
      · split <;> rfl

/-- No dot segment. -/
def NoDots (seg : Text) : Prop := isSingleDot seg = false ∧ isDoubleDot seg = false

/-- Segments that are no dots stay. -/
theorem resolve_noDots (path : List Text) (h : ∀ seg ∈ segs, NoDots seg) :
    resolve path segs = path.reverse ++ segs.map encodeSegment := by
  induction segs generalizing path with
  | nil => simp [resolve]
  | cons seg segs ih =>
      obtain ⟨hs, hd⟩ := h seg List.mem_cons_self
      rw [resolve, hd, hs, if_neg Bool.false_ne_true, if_neg Bool.false_ne_true,
        ih _ fun seg hseg => h seg (List.mem_cons_of_mem _ hseg)]
      simp

/-- What the parser writes as it is. -/
theorem encodeSegment_of_kept (h : ∀ c ∈ seg, inPathSet c = false) : encodeSegment seg = seg := by
  induction seg with
  | nil => rfl
  | cons c seg ih =>
      rw [encodeSegment, List.flatMap_cons, h c List.mem_cons_self]
      exact congrArg (c :: ·) (ih fun d hd => h d (List.mem_cons_of_mem _ hd))

/-! ### A base, and what is put behind it -/

/-- A scheme and an authority. -/
def IsOrigin (o : Text) : Prop :=
  ∃ scheme host, o = scheme ++ ':' :: '/' :: '/' :: host ∧ scheme ≠ [] ∧ host ≠ [] ∧
    (∀ c ∈ scheme, c ≠ ':' ∧ isC0OrSpace c = false) ∧
    ∀ c ∈ host, isSlash c = false ∧ endsPath c = false ∧ isC0OrSpace c = false

/-- Nothing the parser takes out, and no end of a path. -/
def Clean (p : Text) : Prop := ∀ c ∈ p, isTabOrNewline c = false ∧ endsPath c = false

/-- The path of a base URL: none, or one that begins with a slash. -/
structure BasePath (p : Text) : Prop where
  clean : Clean p
  head : ∀ c ∈ p.head?, c = '/'

theorem isTabOrNewline_of_not_c0 (h : isC0OrSpace c = false) : isTabOrNewline c = false := by
  unfold isTabOrNewline
  unfold isC0OrSpace at h
  rw [decide_eq_false_iff_not] at h ⊢
  intro hmem
  simp only [List.mem_cons, List.not_mem_nil, or_false] at hmem
  rcases hmem with rfl | rfl | rfl <;> exact h (by decide)

theorem IsOrigin.clean_chars (ho : IsOrigin o) : ∀ c ∈ o, isC0OrSpace c = false := by
  obtain ⟨scheme, host, rfl, -, -, hscheme, hhost⟩ := ho
  intro c hc
  simp only [List.mem_append, List.mem_cons] at hc
  rcases hc with hc | rfl | rfl | rfl | hc
  · exact (hscheme c hc).2
  · rfl
  · rfl
  · rfl
  · exact (hhost c hc).2.2

theorem dropWhile_eq_self {q : Char → Bool} (h : ∀ c ∈ s.head?, q c = false) :
    s.dropWhile q = s := by
  cases s with
  | nil => rfl
  | cons c s =>
      rw [List.dropWhile_cons_of_neg]
      rw [h c rfl]
      exact Bool.false_ne_true

theorem IsOrigin.afterAuthority_append (ho : IsOrigin o)
    (hp : ∀ c ∈ p.head?, isSlash c = true ∨ endsPath c = true) : afterAuthority (o ++ p) = p := by
  obtain ⟨scheme, host, rfl, -, hne, hscheme, hhost⟩ := ho
  have hcolon : (scheme ++ ':' :: '/' :: '/' :: host ++ p).dropWhile (· ≠ ':') =
      ':' :: '/' :: '/' :: (host ++ p) := by
    rw [List.append_assoc, List.dropWhile_append_of_pos fun c hc => decide_eq_true (hscheme c hc).1]
    rfl
  have hslashes : ('/' :: '/' :: (host ++ p)).dropWhile isSlash = host ++ p := by
    obtain ⟨c, rest, rfl⟩ := List.exists_cons_of_ne_nil hne
    refine dropWhile_eq_self (s := c :: rest ++ p) fun d hd => ?_
    cases hd
    exact (hhost c List.mem_cons_self).1
  unfold afterAuthority
  rw [hcolon, List.drop_one, List.tail_cons, hslashes,
    List.dropWhile_append_of_pos fun c hc => by simp [hhost c hc]]
  refine dropWhile_eq_self fun c hc => ?_
  rcases hp c hc with hslash | hend
  · rw [hslash]
    rfl
  · rw [hend, Bool.not_true, Bool.and_false]

/-- A URL that is an origin and a path is cleaned to itself. -/
theorem IsOrigin.cleaned_append (ho : IsOrigin o) (hp : Clean p)
    (hlast : ∀ c ∈ p.getLast?, isC0OrSpace c = false) : cleaned (o ++ p) = o ++ p := by
  have hchars := ho.clean_chars
  have hne : o ≠ [] := by
    obtain ⟨scheme, host, rfl, -⟩ := ho
    simp
  have hhead : (o ++ p).dropWhile isC0OrSpace = o ++ p := by
    obtain ⟨c, rest, rfl⟩ := List.exists_cons_of_ne_nil hne
    refine dropWhile_eq_self (s := c :: rest ++ p) fun d hd => ?_
    cases hd
    exact hchars c List.mem_cons_self
  have htail : (o ++ p).reverse.dropWhile isC0OrSpace = (o ++ p).reverse := by
    refine dropWhile_eq_self fun c hc => ?_
    rw [List.head?_reverse, List.getLast?_append] at hc
    cases hp' : p.getLast? with
    | none =>
        rw [hp', Option.none_or] at hc
        exact hchars c (List.mem_of_getLast? hc)
    | some d =>
        rw [hp', Option.some_or] at hc
        cases hc
        exact hlast c hp'
  unfold cleaned
  rw [hhead, htail, List.reverse_reverse, List.filter_eq_self]
  intro c hc
  rw [Bool.not_eq_true']
  rcases List.mem_append.mp hc with hc | hc
  · exact isTabOrNewline_of_not_c0 (hchars c hc)
  · exact (hp c hc).1

/-- The path of a URL that is an origin and a path. -/
theorem IsOrigin.urlPathname_append (ho : IsOrigin o) (hp : Clean p)
    (hhead : ∀ c ∈ p.head?, c = '/') (hlast : ∀ c ∈ p.getLast?, isC0OrSpace c = false) :
    urlPathname (o ++ p) = pathText (resolve [] (splitSlashes (p.drop 1))) := by
  have hcut : p.takeWhile (!endsPath ·) = p := by
    rw [List.takeWhile_eq_self_iff]
    intro c hc
    rw [(hp c hc).2]
    rfl
  rw [urlPathname, ho.cleaned_append hp hlast, ho.afterAuthority_append, pathOf, hcut]
  intro c hc
  rw [hhead c hc]
  exact .inl rfl

/-- The segments of a base's path, the last of them first: what is put behind
it and a slash follows them. -/
def baseStack (p : Text) : List Text :=
  match p with
  | [] => []
  | _ :: rest => (splitSlashes rest).foldl resolveStep []

/-- What is put behind a base and a slash is resolved behind the base's path. -/
theorem urlPathname_base (ho : IsOrigin o) (hbase : BasePath p) (hs : Clean s)
    (hlast : ∀ c ∈ s.getLast?, isC0OrSpace c = false) :
    urlPathname (o ++ p ++ '/' :: s) = pathText (resolve (baseStack p) (splitSlashes s)) := by
  have hclean : Clean (p ++ '/' :: s) := by
    intro c hc
    simp only [List.mem_append, List.mem_cons] at hc
    rcases hc with hc | rfl | hc
    · exact hbase.clean c hc
    · exact ⟨rfl, rfl⟩
    · exact hs c hc
  have hlast' : ∀ c ∈ (p ++ '/' :: s).getLast?, isC0OrSpace c = false := by
    intro c hc
    rw [List.getLast?_append, List.getLast?_cons] at hc
    cases hs' : s.getLast? with
    | none =>
        rw [hs'] at hc
        cases hc
        rfl
    | some d =>
        rw [hs'] at hc
        exact hlast c (hs'.trans hc)
  rw [List.append_assoc, ho.urlPathname_append hclean ?_ hlast']
  · cases p with
    | nil => rfl
    | cons c rest =>
        show pathText (resolve [] (splitSlashes (rest ++ '/' :: s))) = _
        rw [splitSlashes_append_slash, resolve_append _ _ (splitSlashes_ne_nil s)]
        rfl
  · cases p with
    | nil =>
        intro c hc
        cases hc
        rfl
    | cons c rest => exact hbase.head

/-- The path of a base, without what follows it. -/
def basePathText (p : Text) : Text := pathText (baseStack p).reverse

/-- A base with a slash behind it. -/
theorem urlPathname_base_slash (ho : IsOrigin o) (hbase : BasePath p) :
    urlPathname (o ++ p ++ ['/']) = basePathText p ++ ['/'] := by
  rw [urlPathname_base ho hbase (s := []) nofun nofun]
  show pathText (resolve (baseStack p) [[]]) = _
  rw [resolve_noDots _ fun seg hseg => by rw [List.mem_singleton.mp hseg]; exact ⟨rfl, rfl⟩,
    pathText_append]
  rfl

/-- Segments put behind a base. -/
theorem urlPathname_base_segments (ho : IsOrigin o) (hbase : BasePath p) (hne : segs ≠ [])
    (hsegs : ∀ seg ∈ segs, Clean seg ∧ (∀ c ∈ seg, isSlash c = false) ∧ NoDots seg)
    (hlast : ∀ c ∈ (joinSlash segs).getLast?, isC0OrSpace c = false) :
    urlPathname (o ++ p ++ '/' :: joinSlash segs) =
      basePathText p ++ pathText (segs.map encodeSegment) := by
  have hclean : Clean (joinSlash segs) := by
    intro c hc
    rcases mem_joinSlash hc with rfl | ⟨seg, hseg, hc⟩
    · exact ⟨rfl, rfl⟩
    · exact (hsegs seg hseg).1 c hc
  rw [urlPathname_base ho hbase hclean hlast,
    splitSlashes_joinSlash hne fun seg hseg => (hsegs seg hseg).2.1,
    resolve_noDots _ fun seg hseg => (hsegs seg hseg).2.2, pathText_append]
  rfl

end Ownpace.Uri
