/-
Ownpace/Dav/Target.lean

The URLs the file writer asks for: `buildUrl` and what it is made of
(`webdav-target-writer.ts`).

A path below the endpoint is put behind the endpoint's URL and the mapping's
folder, each segment encoded.  `urlPathname_buildUrl` says what path the server
is asked for, and `decode_buildUrl` that it decodes to the base's with the
segments behind it.
-/
import Ownpace.Dav.Href

namespace Ownpace.Dav

open Uri

structure DavConfig where
  url : Text
  targetFolderPrefix : Option Text

/-- `replace(/\\/g, '/').replace(/^\/+|\/+$/g, '')` -/
def normalizeRelativePath (path : Text) : Text :=
  stripTrailing (stripLeading (path.map fun c => if c = '\\' then '/' else c))

def applyTargetFolderPrefix (folder : Option Text) (path : Text) : Text :=
  match folder with
  | none => path
  | some folder =>
    if folder = [] then path
    else if path = [] then folder
    else folder ++ '/' :: path

/-- `replace(/\/$/, '')` -/
def dropSlash (url : Text) : Text := if url.getLast? = some '/' then url.dropLast else url

/-- `split('/').map(encodeURIComponent).join('/')` -/
def encodePath (path : Text) : Text := joinSlash ((path.splitOn '/').map encodeURIComponent)

def buildUrlUnprefixed (config : DavConfig) (path : Text) (asRoot : Bool) : Text :=
  let baseUrl := dropSlash config.url
  let normalizedPath := stripLeading path
  if normalizedPath = [] then baseUrl ++ ['/']
  else
    let encoded := encodePath normalizedPath
    if asRoot then baseUrl ++ '/' :: encoded ++ ['/'] else baseUrl ++ '/' :: encoded

def buildUrl (config : DavConfig) (path : Text) : Text :=
  buildUrlUnprefixed config (applyTargetFolderPrefix config.targetFolderPrefix (stripLeading path))
    (decide (stripLeading path = []))

/-! ### Paths of segments -/

variable {names : List Text} {s t x o p : Text} {c : Char} {config : DavConfig}

theorem joinSlash_append {a b : List Text} (ha : a ≠ []) (hb : b ≠ []) :
    joinSlash (a ++ b) = joinSlash a ++ '/' :: joinSlash b := by
  have hpath := pathText_eq_joinSlash (List.append_ne_nil_of_left_ne_nil ha b)
  rw [pathText_append, pathText_eq_joinSlash ha, pathText_eq_joinSlash hb] at hpath
  exact (List.cons.inj hpath).2.symm

theorem encodePath_append (s t : Text) :
    encodePath (s ++ '/' :: t) = encodePath s ++ '/' :: encodePath t := by
  unfold encodePath
  rw [List.splitOn_append_cons_self, List.map_append]
  exact joinSlash_append (List.map_eq_nil_iff.not.mpr (List.splitOn_ne_nil _ _))
    (List.map_eq_nil_iff.not.mpr (List.splitOn_ne_nil _ _))

theorem encodePath_joinSlash (hnames : ∀ n ∈ names, '/' ∉ n) (hne : names ≠ []) :
    encodePath (joinSlash names) = joinSlash (names.map encodeURIComponent) := by
  unfold encodePath joinSlash
  rw [List.splitOn_intercalate '/' hnames hne]

/-- What stands in an encoded segment: nothing a parser takes out, ends a path at
or writes another way. -/
structure Encoded (c : Char) : Prop where
  kept : Kept c
  solid : isC0OrSpace c = false
  clean : isTabOrNewline c = false ∧ endsPath c = false

theorem toNat_of_unescaped (h : isUnescaped c = true) : 0x20 < c.toNat ∧ c.toNat < 0x7f := by
  have hbetween : ∀ d e : Char, 0x20 < d.toNat → e.toNat < 0x7f → d ≤ c → c ≤ e →
      0x20 < c.toNat ∧ c.toNat < 0x7f := fun d e hd he hdc hce =>
    ⟨Nat.lt_of_lt_of_le hd (UInt32.le_iff_toNat_le.mp (Char.le_def.mp hdc)),
      Nat.lt_of_le_of_lt (UInt32.le_iff_toNat_le.mp (Char.le_def.mp hce)) he⟩
  unfold isUnescaped at h
  simp only [Bool.or_eq_true, Bool.and_eq_true, decide_eq_true_iff] at h
  rcases h with ((⟨hA, hZ⟩ | ⟨ha, hz⟩) | ⟨h0, h9⟩) | h
  · exact hbetween 'A' 'Z' (by decide) (by decide) hA hZ
  · exact hbetween 'a' 'z' (by decide) (by decide) ha hz
  · exact hbetween '0' '9' (by decide) (by decide) h0 h9
  · simp only [List.mem_cons, List.not_mem_nil, or_false] at h
    rcases h with rfl | rfl | rfl | rfl | rfl | rfl | rfl | rfl | rfl <;> decide

theorem encoded_of_unescaped (h : isUnescaped c = true) : Encoded c := by
  obtain ⟨hlow, hhigh⟩ := toNat_of_unescaped h
  have hne : ∀ d, isUnescaped d = false → c ≠ d := by
    rintro d hd rfl
    rw [h] at hd
    cases hd
  have hslash : c ≠ '/' ∧ c ≠ '\\' := ⟨hne _ rfl, hne _ rfl⟩
  have hends : c ≠ '?' ∧ c ≠ '#' := ⟨hne _ rfl, hne _ rfl⟩
  have hspaces : c ≠ '\t' ∧ c ≠ '\n' ∧ c ≠ '\r' := ⟨hne _ rfl, hne _ rfl, hne _ rfl⟩
  have hset : c ∉ [' ', '\x22', '#', '<', '>', '?', '^', '\x60', '\x7b', '\x7d'] := by
    simp only [List.mem_cons, List.not_mem_nil, or_false, not_or]
    exact ⟨hne _ rfl, hne _ rfl, hne _ rfl, hne _ rfl, hne _ rfl, hne _ rfl, hne _ rfl, hne _ rfl,
      hne _ rfl, hne _ rfl⟩
  refine ⟨⟨?_, ?_⟩, ?_, ?_, ?_⟩
  · simp only [inPathSet, hset, decide_false, Bool.or_false, Bool.or_eq_false_iff, decide_eq_false_iff_not]
    omega
  · simp [isSlash, hslash]
  · simp only [isC0OrSpace, decide_eq_false_iff_not]
    omega
  · simp [isTabOrNewline, hspaces]
  · simp [endsPath, hends]

theorem isUnescaped_hexDigit {n : Nat} (h : n < 16) : isUnescaped (hexDigit n) = true := by
  have hall : ∀ k ∈ List.range 16, isUnescaped (hexDigit k) = true := by decide
  exact hall n (List.mem_range.mpr h)

theorem encoded_percentEncode {d : Char} (h : d ∈ percentEncode c) : Encoded d := by
  obtain ⟨x, -, hd⟩ := List.mem_flatMap.mp h
  have hlt : x.toNat < 256 := x.toNat_lt
  simp only [escapeByte, List.mem_cons, List.not_mem_nil, or_false] at hd
  rcases hd with rfl | rfl | rfl
  · exact ⟨⟨by decide, by decide⟩, by decide, by decide, by decide⟩
  · exact encoded_of_unescaped (isUnescaped_hexDigit (by omega))
  · exact encoded_of_unescaped (isUnescaped_hexDigit (by omega))

theorem encoded_encodeURIComponent (h : c ∈ encodeURIComponent s) : Encoded c := by
  obtain ⟨d, -, hc⟩ := List.mem_flatMap.mp h
  split at hc
  · next hd =>
      obtain rfl := List.mem_singleton.mp hc
      exact encoded_of_unescaped hd
  · exact encoded_percentEncode hc

theorem encoded_encodePath (h : c ∈ encodePath s) : c = '/' ∨ Encoded c := by
  rcases mem_joinSlash h with rfl | ⟨seg, hseg, hc⟩
  · exact .inl rfl
  · obtain ⟨name, -, rfl⟩ := List.mem_map.mp hseg
    exact .inr (encoded_encodeURIComponent hc)

theorem clean_encodePath (s : Text) : Clean (encodePath s) := by
  intro c hc
  rcases encoded_encodePath hc with rfl | hc
  · exact ⟨rfl, rfl⟩
  · exact hc.clean

/-- A name that is no dot is none once it is encoded. -/
theorem noDots_encode {n : Text} (hn : IsName n) : NoDots (encodeURIComponent n) := by
  have hdots : ∀ k, dots (encodeURIComponent n) = some k → n = List.replicate k '.' := by
    intro k hk
    have hread := decode_encode n
    rw [decode_of_dots hk] at hread
    exact (Option.some.inj hread).symm
  refine ⟨decide_eq_false fun h => ?_, decide_eq_false fun h => ?_⟩
  · exact hn.single (hdots 1 h)
  · exact hn.double (hdots 2 h)

/-! ### The endpoint -/

/-- The URL everything is put behind. -/
def DavConfig.endpoint (config : DavConfig) : Text :=
  dropSlash config.url ++
    (match config.targetFolderPrefix with
    | none => []
    | some folder => if stripLeading folder = [] then [] else '/' :: encodePath (stripLeading folder))

theorem stripLeading_append (s t : Text) :
    stripLeading (s ++ t) = if stripLeading s = [] then stripLeading t else stripLeading s ++ t := by
  unfold stripLeading
  rw [List.dropWhile_append]
  simp only [List.isEmpty_iff]

theorem stripLeading_cons_slash (s : Text) : stripLeading ('/' :: s) = stripLeading s :=
  List.dropWhile_cons_of_pos (by decide)

theorem buildUrl_root : buildUrl config [] = config.endpoint ++ ['/'] := by
  unfold buildUrl buildUrlUnprefixed DavConfig.endpoint
  rw [show stripLeading [] = [] by rfl]
  cases hfolder : config.targetFolderPrefix with
  | none => simp [applyTargetFolderPrefix, stripLeading]
  | some folder =>
      by_cases hnil : folder = []
      · simp [applyTargetFolderPrefix, stripLeading, hnil]
      · by_cases hstrip : stripLeading folder = []
        · simp [applyTargetFolderPrefix, hnil, hstrip]
        · simp [applyTargetFolderPrefix, hnil, hstrip]

/-- A path is put behind the endpoint. -/
theorem buildUrl_path (hx : stripLeading x = x) (hne : x ≠ []) :
    buildUrl config x = config.endpoint ++ '/' :: encodePath x := by
  unfold buildUrl buildUrlUnprefixed DavConfig.endpoint
  rw [hx]
  cases hfolder : config.targetFolderPrefix with
  | none => simp [applyTargetFolderPrefix, hx, hne]
  | some folder =>
      by_cases hnil : folder = []
      · have hempty : stripLeading [] = [] := rfl
        simp [applyTargetFolderPrefix, hnil, hx, hne, hempty]
      · by_cases hstrip : stripLeading folder = []
        · simp [applyTargetFolderPrefix, hnil, hstrip, hx, hne, stripLeading_append,
            stripLeading_cons_slash]
        · simp [applyTargetFolderPrefix, hnil, hstrip, hne, stripLeading_append, encodePath_append]

/-- A configured URL: an origin, and a path or none. -/
structure DavConfig.Legal (config : DavConfig) (o p : Text) : Prop where
  origin : IsOrigin o
  path : BasePath p
  url : config.url = o ++ p

theorem dropSlash_origin (ho : IsOrigin o) (p : Text) :
    dropSlash (o ++ p) = o ++ dropSlash p := by
  unfold dropSlash
  rw [List.getLast?_append]
  cases hp : p.getLast? with
  | none =>
      rw [List.getLast?_eq_none_iff.mp hp, Option.none_or, List.append_nil, if_neg, if_neg (by simp)]
      · simp
      · intro hlast
        obtain ⟨scheme, host, rfl, -, hne, -, hhost⟩ := ho
        have hmem : ∀ c ∈ (scheme ++ ':' :: '/' :: '/' :: host).getLast?, c ∈ host := by
          intro c hc
          rw [show scheme ++ ':' :: '/' :: '/' :: host = scheme ++ [':', '/', '/'] ++ host by simp,
            List.getLast?_append_of_ne_nil _ hne] at hc
          exact List.mem_of_getLast? hc
        have hslash := (hhost '/' (hmem '/' hlast)).1
        cases hslash
  | some c =>
      have hne : p ≠ [] := by
        rintro rfl
        cases hp
      rw [Option.some_or]
      split
      · exact List.dropLast_append_of_ne_nil hne
      · rfl

theorem basePath_dropSlash (hp : BasePath p) : BasePath (dropSlash p) := by
  unfold dropSlash
  split
  · refine ⟨fun c hc => hp.clean c (List.dropLast_subset _ hc), fun c hc => ?_⟩
    cases p with
    | nil => cases hc
    | cons d p =>
        cases p with
        | nil => cases hc
        | cons e p => exact hp.head c hc
  · exact hp

/-- An endpoint is an origin with a path. -/
theorem DavConfig.Legal.endpoint_eq (hlegal : config.Legal o p) :
    ∃ q, config.endpoint = o ++ q ∧ BasePath q := by
  have hbase := basePath_dropSlash hlegal.path
  unfold DavConfig.endpoint
  rw [hlegal.url, dropSlash_origin hlegal.origin, List.append_assoc]
  refine ⟨_, rfl, ?_⟩
  cases config.targetFolderPrefix with
  | none =>
      rw [List.append_nil]
      exact hbase
  | some folder =>
      dsimp only
      split
      · rw [List.append_nil]
        exact hbase
      · constructor
        · intro c hc
          rcases List.mem_append.mp hc with hc | hc
          · exact hbase.clean c hc
          · rcases List.mem_cons.mp hc with rfl | hc
            · exact ⟨rfl, rfl⟩
            · exact clean_encodePath _ c hc
        · intro c hc
          rw [List.head?_append] at hc
          cases hhead : (dropSlash p).head? with
          | none =>
              rw [hhead] at hc
              cases hc
              rfl
          | some d =>
              rw [hhead] at hc
              cases hc
              exact hbase.head _ hhead

/-! ### What is asked for -/

variable {q D : Text} {n : Text}

theorem stripLeading_joinSlash (hnames : ∀ n ∈ names, IsName n) :
    stripLeading (joinSlash names) = joinSlash names :=
  stripLeading_of_head (head_joinSlash hnames)

theorem last_encode {s : Text} : ∀ c ∈ (encodePath s).getLast?, isC0OrSpace c = false := by
  intro c hc
  rcases encoded_encodePath (List.mem_of_getLast? hc) with rfl | hc
  · rfl
  · exact hc.solid

/-- The path a server is asked for: the endpoint's, and the names encoded. -/
theorem urlPathname_buildUrl (ho : IsOrigin o) (hq : BasePath q) (he : config.endpoint = o ++ q)
    (hnames : ∀ n ∈ names, IsName n) :
    urlPathname (buildUrl config (joinSlash names)) =
      basePathText q ++ pathText (names.map encodeURIComponent) ++ (if names = [] then ['/'] else []) := by
  by_cases hnil : names = []
  · subst hnil
    rw [joinSlash_nil, buildUrl_root, he, urlPathname_base_slash ho hq, if_pos rfl]
    simp [pathText]
  have hmap : names.map encodeURIComponent ≠ [] := List.map_eq_nil_iff.not.mpr hnil
  have hne : joinSlash names ≠ [] := fun h => hnil (joinSlash_eq_nil hnames h)
  have hencode := encodePath_joinSlash (fun n hn => (hnames n hn).slash) hnil
  have hall : ∀ seg ∈ names.map encodeURIComponent,
      Clean seg ∧ (∀ c ∈ seg, isSlash c = false) ∧ NoDots seg := by
    intro seg hseg
    obtain ⟨n, hn, rfl⟩ := List.mem_map.mp hseg
    exact ⟨fun c hc => (encoded_encodeURIComponent hc).clean,
      fun c hc => (encoded_encodeURIComponent hc).kept.2, noDots_encode (hnames n hn)⟩
  have hkept : (names.map encodeURIComponent).map encodeSegment = names.map encodeURIComponent := by
    rw [List.map_map]
    refine List.map_congr_left fun n _ => encodeSegment_of_kept fun c hc => ?_
    exact (encoded_encodeURIComponent hc).kept.1
  have hlast : ∀ c ∈ (joinSlash (names.map encodeURIComponent)).getLast?, isC0OrSpace c = false := by
    rw [← hencode]
    exact last_encode
  rw [buildUrl_path (stripLeading_joinSlash hnames) hne, he, hencode,
    urlPathname_base_segments ho hq hmap hall hlast, hkept, if_neg hnil, List.append_nil]

theorem decode_pathText (names : List Text) :
    decodeURIComponent (pathText (names.map encodeURIComponent)) = some (pathText names) := by
  induction names with
  | nil => rfl
  | cons n names ih =>
      show decodeURIComponent ('/' :: (encodeURIComponent n ++ pathText (names.map encodeURIComponent))) = _
      rw [decode_cons (by decide), decode_append (decode_encode n), ih]
      rfl

/-- The segments of a path, as a server takes it apart. -/
def segments (path : Text) : List Text := (path.splitOn '/').filter (· ≠ [])

theorem segments_append (s t : Text) : segments (s ++ '/' :: t) = segments s ++ segments t := by
  unfold segments
  rw [List.splitOn_append_cons_self, List.filter_append]

theorem segments_slash (s : Text) : segments (s ++ ['/']) = segments s := by
  rw [segments_append]
  exact List.append_nil _

theorem segments_slashes (s : Text) (h : ∀ c ∈ t, c = '/') : segments (s ++ t) = segments s := by
  induction t generalizing s with
  | nil => rw [List.append_nil]
  | cons c t ih =>
      obtain rfl := h c List.mem_cons_self
      rw [List.append_cons, ih _ fun d hd => h d (List.mem_cons_of_mem _ hd), segments_slash]

theorem segments_name (hn : IsName n) : segments n = [n] := by
  unfold segments
  rw [List.splitOn_eq_singleton hn.slash]
  exact List.filter_cons_of_pos (decide_eq_true hn.ne_nil)

theorem segments_names (hnames : ∀ n ∈ names, IsName n) (s : Text) :
    segments (s ++ pathText names) = segments s ++ names := by
  induction names generalizing s with
  | nil => simp [pathText]
  | cons n names ih =>
      have hrest := ih fun m hm => hnames m (List.mem_cons_of_mem _ hm)
      have hassoc : s ++ pathText (n :: names) = (s ++ '/' :: n) ++ pathText names := by
        rw [List.append_assoc]
        rfl
      rw [hassoc, hrest, segments_append, segments_name (hnames n List.mem_cons_self), List.append_assoc]
      rfl

/-- A URL is the resource's of these names below a base. -/
def Addresses (D url : Text) (names : List Text) : Prop :=
  ∃ path, decodeURIComponent (urlPathname url) = some path ∧ segments path = segments D ++ names

theorem stripTrailing_append_slashes (s : Text) :
    ∃ t, s = stripTrailing s ++ t ∧ ∀ c ∈ t, c = '/' := by
  refine ⟨s.rtakeWhile (· = '/'), ?_, fun c hc => ?_⟩
  · exact List.rdropWhile_append_rtakeWhile.symm
  · have hslash := List.mem_rtakeWhile_imp hc
    exact of_decide_eq_true hslash

/-- **A path is asked for at its own address.** -/
theorem addresses_buildUrl {p : Text} (hlegal : config.Legal o p)
    (hD : decodeURIComponent (basePathOf (buildUrl config [])) = some D)
    (hnames : ∀ n ∈ names, IsName n) : Addresses D (buildUrl config (joinSlash names)) names := by
  obtain ⟨q, he, hq⟩ := hlegal.endpoint_eq
  have hbase : basePathOf (buildUrl config []) = stripTrailing (basePathText q) := by
    rw [basePathOf, buildUrl_root, he, urlPathname_base_slash hlegal.origin hq]
    exact stripTrailing_append_tail (.inr rfl) _
  obtain ⟨t, ht, hslashes⟩ := stripTrailing_append_slashes (basePathText q)
  have hplain : '%' ∉ t := fun hmem => absurd (hslashes _ hmem) (by decide)
  have htail : ∀ tail : Text, '%' ∉ tail →
      decodeURIComponent (basePathText q ++ pathText (names.map encodeURIComponent) ++ tail) =
        some (D ++ t ++ pathText names ++ tail) := by
    intro tail hnone
    rw [ht, List.append_assoc, List.append_assoc, decode_append (hbase ▸ hD),
      decode_append_plain hplain, decode_append (decode_pathText names), decode_plain hnone]
    simp
  refine ⟨D ++ t ++ pathText names ++ (if names = [] then ['/'] else []), ?_, ?_⟩
  · rw [urlPathname_buildUrl hlegal.origin hq he hnames]
    refine htail _ ?_
    split <;> decide
  · rw [segments_slashes _ fun c hc => ?_, segments_names hnames, segments_slashes _ hslashes]
    split at hc
    · exact List.mem_singleton.mp hc
    · cases hc

/-! ### Paths below the endpoint -/

theorem mem_normalize (h : c ∈ normalizeRelativePath s) : c ≠ '\\' := by
  have hsub : (normalizeRelativePath s).Sublist (s.map fun c => if c = '\\' then '/' else c) :=
    (stripTrailing_initial _).sublist.trans (List.dropWhile_sublist _)
  obtain ⟨d, -, rfl⟩ := List.mem_map.mp (hsub.subset h)
  split
  · decide
  · assumption

/-- A path of names is kept, where no name has a `\`. -/
theorem normalize_joinSlash (hnames : ∀ n ∈ names, IsName n) (hplain : ∀ n ∈ names, '\\' ∉ n) :
    normalizeRelativePath (joinSlash names) = joinSlash names := by
  have hmap : (joinSlash names).map (fun c => if c = '\\' then '/' else c) = joinSlash names := by
    conv_rhs => rw [← List.map_id (joinSlash names)]
    refine List.map_congr_left fun c hc => if_neg ?_
    rintro rfl
    rcases mem_joinSlash hc with hslash | ⟨n, hn, hc⟩
    · cases hslash
    · exact hplain n hn hc
  unfold normalizeRelativePath
  rw [hmap, stripLeading_joinSlash hnames]
  refine stripTrailing_of_last fun c hc => ?_
  by_cases hnil : names = []
  · subst hnil
    cases hc
  · refine last_pathText hnames hnil c ?_
    rw [pathText_eq_joinSlash hnil, List.getLast?_cons, hc]
    rfl

theorem joinSlash_injective {names' : List Text} (hnames : ∀ n ∈ names, IsName n)
    (hnames' : ∀ n ∈ names', IsName n) (h : joinSlash names = joinSlash names') : names = names' := by
  by_cases hnil : names = []
  · subst hnil
    exact (joinSlash_eq_nil hnames' h.symm).symm
  have hnil' : names' ≠ [] := by
    rintro rfl
    exact hnil (joinSlash_eq_nil hnames h)
  rw [← List.splitOn_intercalate '/' (fun n hn => (hnames n hn).slash) hnil,
    ← List.splitOn_intercalate '/' (fun n hn => (hnames' n hn).slash) hnil']
  exact congrArg (List.splitOn '/') h

end Ownpace.Dav
