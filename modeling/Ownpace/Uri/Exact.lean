/-
Ownpace/Uri/Exact.lean

What the URL parser leaves of a path that was decoded before it was parsed.

The parser encodes again, resolves what now looks like dots and cuts at what now
looks like an end.  Each of these loses an escape, none adds one to those the
path was decoded from; so counting `%` tells when nothing was lost, which is
`kept_of_urlPathname`.
-/
import Mathlib.Algebra.GroupWithZero.Nat
import Mathlib.Algebra.Order.BigOperators.Group.List
import Mathlib.Algebra.Order.Group.Nat
import Mathlib.Data.List.DropRight
import Ownpace.Uri.Path

namespace Ownpace.Uri

variable {b o p s t D : Text} {seg : Text} {names segs path : List Text} {c : Char}

/-- The parser writes it as it is. -/
def Kept (c : Char) : Prop := inPathSet c = false ∧ isSlash c = false

/-- A name of a resource: a segment, decoded. -/
structure IsName (n : Text) : Prop where
  ne_nil : n ≠ []
  slash : '/' ∉ n
  single : n ≠ ['.']
  double : n ≠ ['.', '.']

/-! ### What stands in a parsed path -/

theorem hexDigit_kept {n : Nat} (h : n < 16) : Kept (hexDigit n) ∧ hexDigit n ≠ '%' := by
  have hall : ∀ k ∈ List.range 16, (inPathSet (hexDigit k) = false ∧ isSlash (hexDigit k) = false) ∧
      hexDigit k ≠ '%' := by decide
  exact hall n (List.mem_range.mpr h)

theorem kept_percentEncode {d : Char} (h : d ∈ percentEncode c) : inPathSet d = false ∧ isSlash d = false := by
  obtain ⟨x, -, hd⟩ := List.mem_flatMap.mp h
  have hlt : x.toNat < 256 := x.toNat_lt
  simp only [escapeByte, List.mem_cons, List.not_mem_nil, or_false] at hd
  rcases hd with rfl | rfl | rfl
  · exact ⟨by decide, by decide⟩
  · exact (hexDigit_kept (by omega)).1
  · exact (hexDigit_kept (by omega)).1

theorem kept_encodeSegment {d : Char} (hseg : ∀ c ∈ seg, isSlash c = false)
    (h : d ∈ encodeSegment seg) : Kept d := by
  obtain ⟨c, hc, hd⟩ := List.mem_flatMap.mp h
  split at hd
  · exact kept_percentEncode hd
  · next hset =>
      obtain rfl := List.mem_singleton.mp hd
      exact ⟨Bool.not_eq_true _ ▸ hset, hseg d hc⟩

theorem mem_splitSlashes (hseg : seg ∈ splitSlashes s) (hc : c ∈ seg) : isSlash c = false ∧ c ∈ s := by
  induction s generalizing seg with
  | nil =>
      obtain rfl := List.mem_singleton.mp hseg
      cases hc
  | cons d s ih =>
      rw [splitSlashes_cons] at hseg
      split at hseg
      · rcases List.mem_cons.mp hseg with rfl | hseg
        · cases hc
        · exact ⟨(ih hseg hc).1, List.mem_cons_of_mem _ (ih hseg hc).2⟩
      · next hd =>
          obtain ⟨first, rest, hs⟩ := List.exists_cons_of_ne_nil (splitSlashes_ne_nil s)
          rw [hs] at hseg
          rcases List.mem_cons.mp hseg with rfl | hseg
          · rcases List.mem_cons.mp hc with rfl | hc
            · exact ⟨Bool.not_eq_true _ ▸ hd, List.mem_cons_self⟩
            · have hfirst := ih (hs ▸ List.mem_cons_self) hc
              exact ⟨hfirst.1, List.mem_cons_of_mem _ hfirst.2⟩
          · have hrest := ih (hs ▸ List.mem_cons_of_mem _ hseg) hc
            exact ⟨hrest.1, List.mem_cons_of_mem _ hrest.2⟩

/-- What holds of nothing and of what is encoded holds of each segment
resolved. -/
theorem resolve_forall {P : Text → Prop} (hnil : P []) (hpath : ∀ seg ∈ path, P seg)
    (hsegs : ∀ seg ∈ segs, P (encodeSegment seg)) : ∀ seg ∈ resolve path segs, P seg := by
  induction segs generalizing path with
  | nil =>
      intro seg hseg
      exact hpath seg (List.mem_reverse.mp hseg)
  | cons first segs ih =>
      have hrest : ∀ seg ∈ segs, P (encodeSegment seg) := fun seg hseg =>
        hsegs seg (List.mem_cons_of_mem _ hseg)
      have htail : ∀ seg ∈ path.tail, P seg := fun seg hseg => hpath seg (List.mem_of_mem_tail hseg)
      have hnew : ∀ {path : List Text}, (∀ seg ∈ path, P seg) → ∀ seg ∈ ([] :: path).reverse, P seg := by
        intro path hpath seg hseg
        rcases List.mem_cons.mp (List.mem_reverse.mp hseg) with rfl | hseg
        · exact hnil
        · exact hpath seg hseg
      unfold resolve
      split
      · split
        · exact hnew htail
        · exact ih htail hrest
      · split
        · split
          · exact hnew hpath
          · exact ih hpath hrest
        · refine ih (fun seg hseg => ?_) hrest
          rcases List.mem_cons.mp hseg with rfl | hseg
          · exact hsegs first List.mem_cons_self
          · exact hpath seg hseg

theorem kept_resolve (s : Text) : ∀ seg ∈ resolve [] (splitSlashes s), ∀ c ∈ seg, Kept c := by
  refine resolve_forall (fun c hc => absurd hc List.not_mem_nil)
    (fun seg hseg => absurd hseg List.not_mem_nil) ?_
  intro seg hseg d hd
  exact kept_encodeSegment (fun c hc => (mem_splitSlashes hseg hc).1) hd

/-- Nothing stands in a parsed path but slashes and what is kept. -/
theorem mem_urlPathname {url : Text} (h : c ∈ urlPathname url) : c = '/' ∨ Kept c := by
  obtain ⟨seg, hseg, hc⟩ := List.mem_flatMap.mp h
  rcases List.mem_cons.mp hc with rfl | hc
  · exact .inl rfl
  exact .inr (kept_resolve _ seg hseg c hc)

/-! ### Counting escapes -/

/-- The escapes a text has once it is encoded. -/
def escapesOf (s : Text) : Nat := (encodeSegment s).count '%'

@[simp] theorem escapesOf_nil : escapesOf [] = 0 := rfl

theorem escapesOf_append (s t : Text) : escapesOf (s ++ t) = escapesOf s + escapesOf t := by
  unfold escapesOf encodeSegment
  rw [List.flatMap_append, List.count_append]

theorem escapesOf_cons (c : Char) (s : Text) : escapesOf (c :: s) = escapesOf [c] + escapesOf s :=
  escapesOf_append [c] s

theorem escapesOf_of_kept (h : ∀ c ∈ s, inPathSet c = false) : escapesOf s = s.count '%' := by
  unfold escapesOf
  rw [encodeSegment_of_kept h]

theorem escapesOf_slash (h : isSlash c = true) : escapesOf [c] = 0 := by
  unfold isSlash at h
  rw [Bool.or_eq_true, decide_eq_true_iff, decide_eq_true_iff] at h
  rcases h with rfl | rfl <;> rfl

theorem count_escapes {bs : List UInt8} {e : Text} (h : Escapes bs e) : e.count '%' = bs.length := by
  induction h with
  | nil => rfl
  | @cons a b x bs t hx _ ih =>
      have ha : a ≠ '%' := by
        rintro rfl
        have hnone : hexByte '%' b = none := rfl
        rw [hnone] at hx
        cases hx
      have hb : b ≠ '%' := by
        rintro rfl
        unfold hexByte at hx
        rw [show hexValue '%' = none by decide] at hx
        split at hx
        · next h => cases h
        · cases hx
      simp [ha, hb, ih]

/-- What is encoded is encoded by escapes. -/
theorem escapesOf_pos (h : inPathSet c = true) : 0 < escapesOf [c] := by
  have hlength := count_escapes (escapes_flatMap (String.utf8EncodeChar c))
  have hsize := c.utf8Size_pos
  have hcode : encodeSegment [c] = percentEncode c := by
    simp [encodeSegment, h]
  unfold escapesOf
  rw [hcode, percentEncode, hlength, String.length_utf8EncodeChar]
  exact hsize

theorem escapesOf_le_of_escapes {e : Text} (h : Escapes (String.utf8EncodeChar c) e) :
    escapesOf [c] ≤ e.count '%' := by
  rw [count_escapes h]
  by_cases hset : inPathSet c = true
  · have hcode : encodeSegment [c] = percentEncode c := by
      simp [encodeSegment, hset]
    unfold escapesOf
    rw [hcode, percentEncode, count_escapes (escapes_flatMap _)]
  · have hcode : encodeSegment [c] = [c] := by
      simp [encodeSegment, hset]
    unfold escapesOf
    rw [hcode, String.length_utf8EncodeChar]
    have hsize := c.utf8Size_pos
    have hone := List.count_le_length (a := '%') (l := [c])
    exact Nat.le_trans hone hsize

/-- A text with nothing to encode has, decoded, no more escapes to write. -/
theorem escapesOf_le_of_spells {may : Char → Prop} (h : Spells may t s)
    (hkept : ∀ c ∈ t, inPathSet c = false) : escapesOf s ≤ t.count '%' := by
  induction h with
  | nil => exact Nat.le_refl _
  | @plain c t s _ hc _ ih =>
      have hcode : escapesOf [c] = 0 := by
        rw [escapesOf_of_kept fun d hd => by
          rw [List.mem_singleton.mp hd]; exact hkept c List.mem_cons_self]
        simp [hc]
      have hrest := ih fun d hd => hkept d (List.mem_cons_of_mem _ hd)
      rw [escapesOf_cons, hcode, List.count_cons_of_ne hc]
      omega
  | @escaped c e t s he _ ih =>
      have hrest := ih fun d hd => hkept d (List.mem_append_right _ hd)
      have hfirst := escapesOf_le_of_escapes he
      rw [escapesOf_cons, List.count_append]
      omega

/-- What is left out of a text is not encoded. -/
theorem escapesOf_le_of_sublist (h : s.Sublist t) : escapesOf s ≤ escapesOf t := by
  induction h with
  | slnil => exact Nat.le_refl _
  | @cons s t c _ ih =>
      rw [escapesOf_cons c t]
      omega
  | @cons_cons s t c _ ih =>
      rw [escapesOf_cons c s, escapesOf_cons c t]
      omega

/-- A character left out altogether, its escapes are. -/
theorem escapesOf_add_le (h : s.Sublist t) (hs : c ∉ s) (ht : c ∈ t) :
    escapesOf s + escapesOf [c] ≤ escapesOf t := by
  obtain ⟨before, after, rfl⟩ := List.append_of_mem ht
  have herase : s.Sublist (before ++ after) := by
    obtain ⟨s₁, s₂, rfl, h₁, h₂⟩ := List.sublist_append_iff.mp h
    refine h₁.append ?_
    cases h₂ with
    | cons _ h₂ => exact h₂
    | cons_cons _ _ => exact absurd (List.mem_append_right _ List.mem_cons_self) hs
  have hle := escapesOf_le_of_sublist herase
  rw [escapesOf_append] at hle
  rw [escapesOf_append, escapesOf_cons c after]
  omega

/-- The escapes of segments, dots left out. -/
def escapesOfSegments (segs : List Text) : Nat :=
  ((segs.filter fun seg => !isSingleDot seg && !isDoubleDot seg).map escapesOf).sum

theorem escapesOfSegments_cons_dot (h : isSingleDot seg = true ∨ isDoubleDot seg = true) :
    escapesOfSegments (seg :: segs) = escapesOfSegments segs := by
  unfold escapesOfSegments
  rw [List.filter_cons_of_neg]
  rcases h with h | h <;> simp [h]

theorem escapesOfSegments_cons (hs : isSingleDot seg = false) (hd : isDoubleDot seg = false) :
    escapesOfSegments (seg :: segs) = escapesOf seg + escapesOfSegments segs := by
  unfold escapesOfSegments
  rw [List.filter_cons_of_pos (by simp [hs, hd]), List.map_cons, List.sum_cons]

theorem escapesOfSegments_append (a b : List Text) :
    escapesOfSegments (a ++ b) = escapesOfSegments a + escapesOfSegments b := by
  unfold escapesOfSegments
  rw [List.filter_append, List.map_append, List.sum_append]

theorem count_pathText (segs : List Text) :
    (pathText segs).count '%' = (segs.map (·.count '%')).sum := by
  induction segs with
  | nil => rfl
  | cons seg segs ih =>
      unfold pathText
      rw [List.flatMap_cons, List.count_append, List.count_cons_of_ne (by decide), List.map_cons,
        List.sum_cons, ← ih]
      rfl

/-- Resolving adds no escape to those of the segments that are no dots. -/
theorem count_resolve_le (path segs : List Text) :
    ((resolve path segs).map (·.count '%')).sum ≤
      (path.map (·.count '%')).sum + escapesOfSegments segs := by
  induction segs generalizing path with
  | nil => simp [resolve, List.sum_reverse]
  | cons seg segs ih =>
      have htail : (path.tail.map (·.count '%')).sum ≤ (path.map (·.count '%')).sum := by
        cases path with
        | nil => exact Nat.le_refl _
        | cons first path =>
            rw [List.tail_cons, List.map_cons, List.sum_cons]
            omega
      unfold resolve
      split
      · next hdot =>
          rw [escapesOfSegments_cons_dot (.inr hdot)]
          split
          · rw [List.map_reverse, List.sum_reverse, List.map_cons, List.sum_cons, List.count_nil]
            omega
          · exact Nat.le_trans (ih path.tail) (by omega)
      · next hdouble =>
          split
          · next hdot =>
              rw [escapesOfSegments_cons_dot (.inl hdot)]
              split
              · rw [List.map_reverse, List.sum_reverse, List.map_cons, List.sum_cons, List.count_nil]
                omega
              · exact ih path
          · next hsingle =>
              rw [escapesOfSegments_cons (Bool.not_eq_true _ ▸ hsingle) (Bool.not_eq_true _ ▸ hdouble)]
              refine Nat.le_trans (ih _) ?_
              rw [List.map_cons, List.sum_cons]
              show (encodeSegment seg).count '%' + _ + _ ≤ _ + (escapesOf seg + _)
              unfold escapesOf
              omega

theorem escapesOfSegments_le (segs : List Text) :
    escapesOfSegments segs ≤ (segs.map escapesOf).sum := by
  unfold escapesOfSegments
  exact (List.filter_sublist.map _).sum_le_sum fun _ _ => Nat.zero_le _

theorem sum_escapesOf_splitSlashes (s : Text) : ((splitSlashes s).map escapesOf).sum = escapesOf s := by
  induction s with
  | nil => rfl
  | cons c s ih =>
      rw [splitSlashes_cons]
      split
      · next hc =>
          rw [List.map_cons, List.sum_cons, ih, escapesOf_cons c s, escapesOf_slash hc]
          rfl
      · obtain ⟨first, rest, hs⟩ := List.exists_cons_of_ne_nil (splitSlashes_ne_nil s)
        rw [hs, List.map_cons, List.sum_cons] at ih
        rw [hs, List.modifyHead_cons, List.map_cons, List.sum_cons, escapesOf_cons c first,
          escapesOf_cons c s, ← ih]
        omega

/-- Parsing a path adds no escape. -/
theorem count_pathOf_le (rest : Text) :
    (pathOf rest).count '%' ≤ escapesOf ((rest.takeWhile (!endsPath ·)).drop 1) := by
  unfold pathOf
  rw [count_pathText]
  refine Nat.le_trans (count_resolve_le _ _) ?_
  rw [List.map_nil, List.sum_nil, Nat.zero_add]
  refine Nat.le_trans (escapesOfSegments_le _) ?_
  rw [sum_escapesOf_splitSlashes]

/-- A dot left out, its escapes are. -/
theorem escapesOfSegments_add_le (hmem : seg ∈ segs)
    (hdot : isSingleDot seg = true ∨ isDoubleDot seg = true) :
    escapesOfSegments segs + escapesOf seg ≤ (segs.map escapesOf).sum := by
  obtain ⟨before, after, rfl⟩ := List.append_of_mem hmem
  have hbefore := escapesOfSegments_le before
  have hafter := escapesOfSegments_le after
  rw [escapesOfSegments_append, escapesOfSegments_cons_dot hdot, List.map_append, List.sum_append,
    List.map_cons, List.sum_cons]
  omega

/-! ### A path behind an origin -/

/-- What the parser takes out of a path behind an origin. -/
def cleanedPath (p : Text) : Text := (p.rdropWhile isC0OrSpace).filter (!isTabOrNewline ·)

theorem cleanedPath_sublist (p : Text) : (cleanedPath p).Sublist p :=
  List.filter_sublist.trans (List.rdropWhile_prefix _ _).sublist

theorem inPathSet_of_c0 (h : isC0OrSpace c = true) : inPathSet c = true := by
  unfold isC0OrSpace at h
  rw [decide_eq_true_iff] at h
  by_cases hspace : c = ' '
  · subst hspace
    rfl
  · have hne : c.toNat ≠ 0x20 := by
      intro hval
      apply hspace
      rw [← Char.ofNat_toNat c, hval]
    have hle : c.toNat ≤ 0x1f := by omega
    simp [inPathSet, hle]

theorem inPathSet_of_end (h : endsPath c = true) : inPathSet c = true := by
  unfold endsPath at h
  rw [Bool.or_eq_true, decide_eq_true_iff, decide_eq_true_iff] at h
  rcases h with rfl | rfl <;> rfl

theorem inPathSet_of_tab (h : isTabOrNewline c = true) : inPathSet c = true := by
  unfold isTabOrNewline at h
  rw [decide_eq_true_iff] at h
  simp only [List.mem_cons, List.not_mem_nil, or_false] at h
  rcases h with rfl | rfl | rfl <;> rfl

theorem IsOrigin.ne_nil (ho : IsOrigin o) : o ≠ [] := by
  obtain ⟨scheme, host, rfl, -⟩ := ho
  simp

theorem IsOrigin.cleaned_eq (ho : IsOrigin o) (p : Text) : cleaned (o ++ p) = o ++ cleanedPath p := by
  have hchars := ho.clean_chars
  have hhead : (o ++ p).dropWhile isC0OrSpace = o ++ p := by
    obtain ⟨c, rest, rfl⟩ := List.exists_cons_of_ne_nil ho.ne_nil
    refine dropWhile_eq_self (s := c :: rest ++ p) fun d hd => ?_
    cases hd
    exact hchars c List.mem_cons_self
  have hend : o.reverse.dropWhile isC0OrSpace = o.reverse := by
    refine dropWhile_eq_self fun c hc => hchars c ?_
    exact List.mem_reverse.mp (List.mem_of_mem_head? hc)
  have htail : ((o ++ p).reverse.dropWhile isC0OrSpace).reverse = o ++ p.rdropWhile isC0OrSpace := by
    rw [List.reverse_append, List.dropWhile_append, hend]
    unfold List.rdropWhile
    split
    · next hnil =>
        rw [List.isEmpty_iff.mp hnil]
        simp
    · rw [List.reverse_append, List.reverse_reverse]
  have htabs : o.filter (!isTabOrNewline ·) = o := by
    rw [List.filter_eq_self]
    intro c hc
    rw [isTabOrNewline_of_not_c0 (hchars c hc)]
    rfl
  unfold cleaned
  rw [hhead, htail, List.filter_append, htabs]
  rfl

theorem IsOrigin.urlPathname_eq (ho : IsOrigin o) (hp : p = [] ∨ p.head? = some '/') :
    urlPathname (o ++ p) = pathOf (cleanedPath p) := by
  rw [urlPathname, ho.cleaned_eq, ho.afterAuthority_append]
  rcases hp with rfl | hp
  · intro c hc
    cases hc
  · obtain ⟨rest, rfl⟩ := List.head?_eq_some_iff.mp hp
    have hkeep : cleanedPath ('/' :: rest) = '/' :: cleanedPath rest := by
      have hdrop : ('/' :: rest).rdropWhile isC0OrSpace = '/' :: rest.rdropWhile isC0OrSpace := by
        unfold List.rdropWhile
        rw [List.reverse_cons, List.dropWhile_append]
        split
        · next hnil =>
            rw [List.isEmpty_iff.mp hnil]
            rfl
        · rw [List.reverse_append]
          rfl
      unfold cleanedPath
      rw [hdrop, List.filter_cons_of_pos (by decide)]
    intro c hc
    rw [hkeep] at hc
    cases hc
    exact .inl rfl

/-- A path whose escapes are all still there had nothing the parser takes out or
cuts at. -/
theorem clean_of_escapes (ho : IsOrigin o) (hp : p = [] ∨ p.head? = some '/')
    (h : escapesOf p ≤ (urlPathname (o ++ p)).count '%') :
    Clean p ∧ ∀ c ∈ p.getLast?, isC0OrSpace c = false := by
  rw [ho.urlPathname_eq hp] at h
  have hle := Nat.le_trans h (count_pathOf_le _)
  have hdrop : (((cleanedPath p).takeWhile (!endsPath ·)).drop 1).Sublist
      ((cleanedPath p).takeWhile (!endsPath ·)) := List.drop_sublist _ _
  have hcut : ((cleanedPath p).takeWhile (!endsPath ·)).Sublist (cleanedPath p) :=
    List.takeWhile_sublist _
  constructor
  · intro c hc
    have hkept : inPathSet c = true →
        c ∈ ((cleanedPath p).takeWhile (!endsPath ·)).drop 1 := by
      intro hset
      by_contra hout
      have hadd := escapesOf_add_le (hdrop.trans (hcut.trans (cleanedPath_sublist p))) hout hc
      have hpos := escapesOf_pos hset
      omega
    constructor
    · by_contra htab
      rw [Bool.not_eq_false] at htab
      have hmem := hcut.subset (hdrop.subset (hkept (inPathSet_of_tab htab)))
      simpa [htab] using List.of_mem_filter hmem
    · by_contra hend
      rw [Bool.not_eq_false] at hend
      have hmem := List.mem_takeWhile_imp (hdrop.subset (hkept (inPathSet_of_end hend)))
      simp [hend] at hmem
  · intro c hc
    by_contra hblank
    rw [Bool.not_eq_false] at hblank
    obtain ⟨before, rfl⟩ := List.getLast?_eq_some_iff.mp hc
    have hsub : (cleanedPath (before ++ [c])).Sublist before := by
      unfold cleanedPath
      rw [List.rdropWhile_concat_pos _ _ _ hblank]
      exact List.filter_sublist.trans (List.rdropWhile_prefix _ _).sublist
    have hless := escapesOf_le_of_sublist (hdrop.trans (hcut.trans hsub))
    have hpos := escapesOf_pos (inPathSet_of_c0 hblank)
    rw [escapesOf_append] at hle
    omega

/-! ### A decoded path, parsed -/

variable {tail : Text}

/-- A path that was decoded, of a base and of names below it, and that the
parser writes as the base was written and the names are. -/
structure LeftAlone (b D : Text) (names : List Text) (tail : Text) : Prop where
  clean : Clean (D ++ pathText names ++ tail)
  last : ∀ c ∈ (D ++ pathText names ++ tail).getLast?, isC0OrSpace c = false
  kept : ∀ n ∈ names, NoDots n ∧ ∀ c ∈ n, Kept c
  base : (if names = [] then (basePathText D).rdropWhile (· = '/') else basePathText D) = b

theorem splitSlashes_append_pathText (h : ∀ seg ∈ segs, ∀ c ∈ seg, isSlash c = false) (s : Text) :
    splitSlashes (s ++ pathText segs) = splitSlashes s ++ segs := by
  induction segs generalizing s with
  | nil => simp [pathText]
  | cons seg segs ih =>
      have hrest := ih (fun seg hseg => h seg (List.mem_cons_of_mem _ hseg)) seg
      show splitSlashes (s ++ ('/' :: seg ++ pathText segs)) = _
      rw [List.cons_append, splitSlashes_append_slash, hrest,
        splitSlashes_of_segment (h seg List.mem_cons_self)]
      rfl

/-- The segments of a path below a base have the base's escapes and their own. -/
theorem escapesOfSegments_split_le (h : ∀ seg ∈ segs, ∀ c ∈ seg, isSlash c = false) (D : Text) :
    escapesOfSegments (splitSlashes ((D ++ pathText segs).drop 1)) ≤
      escapesOf D + escapesOfSegments segs := by
  cases D with
  | nil =>
      cases segs with
      | nil => exact Nat.le_refl _
      | cons seg segs =>
          show escapesOfSegments (splitSlashes (seg ++ pathText segs)) ≤ _
          rw [splitSlashes_append_pathText fun seg hseg => h seg (List.mem_cons_of_mem _ hseg),
            splitSlashes_of_segment (h seg List.mem_cons_self), escapesOf_nil, Nat.zero_add]
          exact Nat.le_refl _
  | cons c rest =>
      show escapesOfSegments (splitSlashes (rest ++ pathText segs)) ≤ _
      have hle := escapesOfSegments_le (splitSlashes rest)
      rw [sum_escapesOf_splitSlashes] at hle
      rw [splitSlashes_append_pathText h, escapesOfSegments_append, escapesOf_cons c rest]
      omega

/-- What is read as dots is decoded to them. -/
theorem decode_of_dots {k : Nat} (h : dots seg = some k) :
    decodeURIComponent seg = some (List.replicate k '.') := by
  have hescape : ∀ {a b : Char}, hexByte a b = some 0x2e →
      Escapes (String.utf8EncodeChar '.') ['%', a, b] := fun hb => .cons hb .nil
  fun_induction dots seg generalizing k with
  | case1 =>
      cases h
      rfl
  | case2 rest ih =>
      obtain ⟨j, hj, rfl⟩ := Option.map_eq_some_iff.mp h
      rw [decode_cons (by decide), ih hj]
      rfl
  | case3 rest ih =>
      obtain ⟨j, hj, rfl⟩ := Option.map_eq_some_iff.mp h
      have happ := decode_escapes (hescape (a := '2') (b := 'e') (by decide)) rest
      rw [ih hj] at happ
      exact happ
  | case4 rest ih =>
      obtain ⟨j, hj, rfl⟩ := Option.map_eq_some_iff.mp h
      have happ := decode_escapes (hescape (a := '2') (b := 'E') (by decide)) rest
      rw [ih hj] at happ
      exact happ
  | case5 => cases h

/-- A name is a dot only by an escape. -/
theorem IsName.escapes_of_dot {n : Text} (hn : IsName n)
    (hdot : isSingleDot n = true ∨ isDoubleDot n = true) : '%' ∈ n := by
  by_contra hmem
  have hplain := decode_plain hmem
  rcases hdot with hdot | hdot
  · rw [decode_of_dots (of_decide_eq_true hdot)] at hplain
    exact hn.single (Option.some.inj hplain).symm
  · rw [decode_of_dots (of_decide_eq_true hdot)] at hplain
    exact hn.double (Option.some.inj hplain).symm

theorem count_rdropWhile_slash (s : Text) :
    (s.rdropWhile (· = '/')).count '%' = s.count '%' := by
  induction s using List.reverseRecOn with
  | nil => rfl
  | append_singleton s d ih =>
      by_cases hd : d = '/'
      · subst hd
        rw [List.rdropWhile_concat_pos _ _ _ (by decide), ih]
        simp
      · rw [List.rdropWhile_concat_neg _ _ _ (by simpa using hd)]

/-- The segments behind a base: the names, and an empty one behind a last
slash. -/
def segmentsOf (names : List Text) (tail : Text) : List Text :=
  if tail = [] then names else names ++ [[]]

theorem pathText_segmentsOf (htail : tail = [] ∨ tail = ['/']) (names : List Text) :
    pathText (segmentsOf names tail) = pathText names ++ tail := by
  rcases htail with rfl | rfl
  · rw [segmentsOf, if_pos rfl, List.append_nil]
  · rw [segmentsOf, if_neg (by decide), pathText_append]
    rfl

theorem mem_segmentsOf (h : seg ∈ segmentsOf names tail) : seg ∈ names ∨ seg = [] := by
  unfold segmentsOf at h
  split at h
  · exact .inl h
  · rcases List.mem_append.mp h with h | h
    · exact .inl h
    · exact .inr (List.mem_singleton.mp h)

theorem escapesOfSegments_segmentsOf (names : List Text) (tail : Text) :
    escapesOfSegments (segmentsOf names tail) = escapesOfSegments names := by
  unfold segmentsOf
  split
  · rfl
  · rw [escapesOfSegments_append]
    rfl

theorem noDots_nil : NoDots [] := ⟨rfl, rfl⟩

theorem pathText_ne_nil (hne : segs ≠ []) : pathText segs ≠ [] := by
  rw [pathText_eq_joinSlash hne]
  exact List.cons_ne_nil _ _

theorem last_pathText (hnames : ∀ n ∈ names, IsName n) (hne : names ≠ []) :
    ∀ c ∈ (pathText names).getLast?, c ≠ '/' := by
  intro c hc
  rw [← List.dropLast_append_getLast hne, pathText_append] at hc
  have hlast := hnames _ (List.getLast_mem hne)
  rw [show pathText [names.getLast hne] = '/' :: names.getLast hne by simp [pathText],
    List.getLast?_append, List.getLast?_cons] at hc
  obtain ⟨d, hd⟩ := Option.isSome_iff_exists.mp (List.getLast?_isSome.mpr hlast.ne_nil)
  rw [hd] at hc
  cases hc
  rintro rfl
  exact hlast.slash (List.mem_of_getLast? hd)

/-- A base with nothing behind it. -/
theorem urlPathname_base_self (ho : IsOrigin o) (hD : BasePath D)
    (hlast : ∀ c ∈ D.getLast?, isC0OrSpace c = false) :
    (urlPathname (o ++ D)).rdropWhile (· = '/') = (basePathText D).rdropWhile (· = '/') := by
  rw [ho.urlPathname_append hD.clean hD.head hlast]
  cases D with
  | nil => rfl
  | cons c rest =>
      obtain ⟨init, seg, hsegs⟩ : ∃ init seg, splitSlashes rest = init ++ [seg] :=
        ⟨_, _, (List.dropLast_append_getLast (splitSlashes_ne_nil rest)).symm⟩
      have hslash : ∀ path : List Text,
          (pathText ([] :: path).reverse).rdropWhile (· = '/') =
            (pathText path.reverse).rdropWhile (· = '/') := by
        intro path
        rw [List.reverse_cons, pathText_append]
        exact List.rdropWhile_concat_pos _ _ _ (by decide)
      unfold basePathText baseStack
      dsimp only
      rw [List.drop_succ_cons, List.drop_zero, hsegs, resolve_append _ _ (List.cons_ne_nil _ _), List.foldl_append,
        List.foldl_cons, List.foldl_nil]
      generalize init.foldl resolveStep [] = path
      unfold resolve resolveStep
      split
      · exact hslash _
      · split
        · exact hslash _
        · rfl

/-- What a base and kept names are parsed as. -/
theorem urlPathname_names (ho : IsOrigin o) (hD : D = [] ∨ D.head? = some '/')
    (hnames : ∀ n ∈ names, IsName n) (htail : tail = [] ∨ tail = ['/'])
    (hclean : Clean (D ++ pathText names ++ tail))
    (hlast : ∀ c ∈ (D ++ pathText names ++ tail).getLast?, isC0OrSpace c = false)
    (hkept : ∀ n ∈ names, NoDots n ∧ ∀ c ∈ n, Kept c) :
    (urlPathname (o ++ (D ++ pathText names ++ tail))).rdropWhile (· = '/') =
      (if names = [] then (basePathText D).rdropWhile (· = '/') else basePathText D) ++
        pathText names := by
  have hbase : BasePath D := by
    refine ⟨fun c hc => hclean c (List.mem_append_left _ (List.mem_append_left _ hc)), ?_⟩
    intro c hc
    rcases hD with rfl | hD
    · cases hc
    · rw [hD] at hc
      cases hc
      rfl
  by_cases hsegs : segmentsOf names tail = []
  · obtain ⟨rfl, rfl⟩ : names = [] ∧ tail = [] := by
      unfold segmentsOf at hsegs
      split at hsegs
      · next h => exact ⟨hsegs, h⟩
      · simp at hsegs
    rw [if_pos rfl]
    simp only [pathText, List.flatMap_nil, List.append_nil] at hlast ⊢
    exact urlPathname_base_self ho hbase hlast
  have hpath : D ++ pathText names ++ tail = D ++ '/' :: joinSlash (segmentsOf names tail) := by
    rw [← pathText_eq_joinSlash hsegs, pathText_segmentsOf htail, List.append_assoc]
  have hall : ∀ seg ∈ segmentsOf names tail,
      Clean seg ∧ (∀ c ∈ seg, isSlash c = false) ∧ NoDots seg := by
    intro seg hseg
    rcases mem_segmentsOf hseg with hseg | rfl
    · refine ⟨fun c hc => ?_, fun c hc => ((hkept seg hseg).2 c hc).2, (hkept seg hseg).1⟩
      refine hclean c (List.mem_append_left _ (List.mem_append_right _ ?_))
      exact List.mem_flatMap.mpr ⟨seg, hseg, List.mem_cons_of_mem _ hc⟩
    · exact ⟨fun c hc => absurd hc List.not_mem_nil, fun c hc => absurd hc List.not_mem_nil,
        noDots_nil⟩
  have hend : ∀ c ∈ (joinSlash (segmentsOf names tail)).getLast?, isC0OrSpace c = false := by
    intro c hc
    refine hlast c ?_
    rw [hpath, List.getLast?_append, List.getLast?_cons, hc]
    rfl
  have hencode : (segmentsOf names tail).map encodeSegment = segmentsOf names tail := by
    conv_rhs => rw [← List.map_id (segmentsOf names tail)]
    refine List.map_congr_left fun seg hseg => encodeSegment_of_kept fun c hc => ?_
    rcases mem_segmentsOf hseg with hseg | rfl
    · exact ((hkept seg hseg).2 c hc).1
    · cases hc
  rw [hpath, ← List.append_assoc, urlPathname_base_segments ho hbase hsegs hall hend, hencode,
    pathText_segmentsOf htail]
  by_cases hnil : names = []
  · subst hnil
    rw [if_pos rfl]
    rcases htail with rfl | rfl
    · simp [pathText]
    · rw [show pathText [] = [] by rfl, List.nil_append, List.append_nil]
      exact List.rdropWhile_concat_pos _ _ _ (by decide)
  · rw [if_neg hnil]
    have hkeep : (basePathText D ++ pathText names).rdropWhile (· = '/') =
        basePathText D ++ pathText names := by
      rw [List.rdropWhile_eq_self_iff]
      intro hne
      rw [decide_eq_true_iff]
      have hlast := List.getLast_mem_getLast? hne
      rw [List.getLast?_append_of_ne_nil _ (pathText_ne_nil hnil)] at hlast
      exact last_pathText hnames hnil _ hlast
    rcases htail with rfl | rfl
    · rw [List.append_nil]
      exact hkeep
    · rw [← List.append_assoc, List.rdropWhile_concat_pos _ _ _ (by decide)]
      exact hkeep

theorem head_decoded (hD : D = [] ∨ D.head? = some '/') (names : List Text)
    (htail : tail = [] ∨ tail = ['/']) :
    D ++ pathText names ++ tail = [] ∨ (D ++ pathText names ++ tail).head? = some '/' := by
  rcases hD with rfl | hD
  · cases names with
    | nil => rcases htail with rfl | rfl <;> simp [pathText]
    | cons n names => exact .inr rfl
  · right
    rw [List.append_assoc, List.head?_append, hD]
    rfl

/-- A decoded path whose names stand in what it is parsed as, and which has lost
no escape there, has been left alone. -/
theorem kept_of_urlPathname (ho : IsOrigin o) (hb : decodeURIComponent b = some D)
    (hkept : ∀ c ∈ b, inPathSet c = false) (hD : D = [] ∨ D.head? = some '/')
    (hnames : ∀ n ∈ names, IsName n) (htail : tail = [] ∨ tail = ['/'])
    (hmem : ∀ n ∈ names, ∀ c ∈ n, c ∈ urlPathname (o ++ (D ++ pathText names ++ tail)))
    (hcount : b.count '%' + (pathText names).count '%' ≤
      (urlPathname (o ++ (D ++ pathText names ++ tail))).count '%') :
    Clean (D ++ pathText names ++ tail) ∧
      (∀ c ∈ (D ++ pathText names ++ tail).getLast?, isC0OrSpace c = false) ∧
      ∀ n ∈ names, NoDots n ∧ ∀ c ∈ n, Kept c := by
  have hchars : ∀ n ∈ names, ∀ c ∈ n, Kept c := by
    intro n hn c hc
    refine (mem_urlPathname (hmem n hn c hc)).resolve_left ?_
    rintro rfl
    exact (hnames n hn).slash hc
  have hpath : ∀ c ∈ pathText names, inPathSet c = false := by
    intro c hc
    obtain ⟨n, hn, hc⟩ := List.mem_flatMap.mp hc
    rcases List.mem_cons.mp hc with rfl | hc
    · rfl
    · exact (hchars n hn c hc).1
  have hbase := escapesOf_le_of_spells (spells_of_decode hb) hkept
  have hwhole : escapesOf (D ++ pathText names ++ tail) =
      escapesOf D + (pathText names).count '%' := by
    have htails : escapesOf tail = 0 := by
      rcases htail with rfl | rfl <;> rfl
    rw [escapesOf_append, escapesOf_append, escapesOf_of_kept hpath, htails]
    rfl
  have hp := head_decoded hD names htail
  obtain ⟨hclean, hlast⟩ := clean_of_escapes ho hp (by omega)
  refine ⟨hclean, hlast, fun n hn => ⟨?_, hchars n hn⟩⟩
  -- A name that is a dot would have taken an escape with it.
  by_contra hdot
  have hdot : isSingleDot n = true ∨ isDoubleDot n = true := by
    unfold NoDots at hdot
    rwa [Decidable.not_and_iff_not_or_not, Bool.not_eq_false, Bool.not_eq_false] at hdot
  have hhead : ∀ c ∈ (D ++ pathText names ++ tail).head?, c = '/' := by
    intro c hc
    rcases hp with hp | hp
    · rw [hp] at hc
      cases hc
    · rw [hp] at hc
      cases hc
      rfl
  have hslash : ∀ seg ∈ segmentsOf names tail, ∀ c ∈ seg, isSlash c = false := by
    intro seg hseg c hc
    rcases mem_segmentsOf hseg with hseg | rfl
    · exact (hchars seg hseg c hc).2
    · cases hc
  have hresolved := count_resolve_le [] (splitSlashes ((D ++ pathText names ++ tail).drop 1))
  rw [← count_pathText, ← ho.urlPathname_append hclean hhead hlast] at hresolved
  have hsplit := escapesOfSegments_split_le hslash D
  rw [escapesOfSegments_segmentsOf, pathText_segmentsOf htail, ← List.append_assoc] at hsplit
  have hless := escapesOfSegments_add_le hn hdot
  have hpos := List.count_pos_iff.mpr ((hnames n hn).escapes_of_dot hdot)
  rw [← escapesOf_of_kept fun c hc => (hchars n hn c hc).1] at hpos
  rw [count_pathText, List.map_congr_left fun n hn =>
    (escapesOf_of_kept fun c hc => (hchars n hn c hc).1).symm] at hcount
  rw [List.map_nil, List.sum_nil] at hresolved
  omega

/-- **A decoded path is parsed to the path it was decoded from** exactly where
the parser leaves it alone. -/
theorem urlPathname_decoded_iff (ho : IsOrigin o) (hb : decodeURIComponent b = some D)
    (hkept : ∀ c ∈ b, inPathSet c = false) (hD : D = [] ∨ D.head? = some '/')
    (hnames : ∀ n ∈ names, IsName n) (htail : tail = [] ∨ tail = ['/']) :
    (urlPathname (o ++ (D ++ pathText names ++ tail))).rdropWhile (· = '/') = b ++ pathText names ↔
      LeftAlone b D names tail := by
  constructor
  · intro h
    have hmem : ∀ n ∈ names, ∀ c ∈ n, c ∈ urlPathname (o ++ (D ++ pathText names ++ tail)) := by
      intro n hn c hc
      refine (List.rdropWhile_prefix (· = '/') _).subset ?_
      rw [h]
      exact List.mem_append_right _ (List.mem_flatMap.mpr ⟨n, hn, List.mem_cons_of_mem _ hc⟩)
    have hcount : b.count '%' + (pathText names).count '%' ≤
        (urlPathname (o ++ (D ++ pathText names ++ tail))).count '%' := by
      rw [← count_rdropWhile_slash (urlPathname _), h, List.count_append]
    obtain ⟨hclean, hlast, hall⟩ := kept_of_urlPathname ho hb hkept hD hnames htail hmem hcount
    rw [urlPathname_names ho hD hnames htail hclean hlast hall] at h
    exact ⟨hclean, hlast, hall, List.append_cancel_right h⟩
  · intro h
    rw [urlPathname_names ho hD hnames htail h.clean h.last h.kept, h.base]

theorem base_nil : (if names = [] then (basePathText []).rdropWhile (· = '/') else basePathText []) = [] := by
  split <;> rfl

theorem head_joinSlash (hnames : ∀ n ∈ names, IsName n) : ∀ c ∈ (joinSlash names).head?, c ≠ '/' := by
  intro c hc
  cases names with
  | nil => cases hc
  | cons n names =>
      have hn := hnames n List.mem_cons_self
      obtain ⟨d, rest, rfl⟩ := List.exists_cons_of_ne_nil hn.ne_nil
      have hd : (joinSlash ((d :: rest) :: names)).head? = some d := by
        cases names with
        | nil => simp [joinSlash]
        | cons m names => rw [joinSlash_cons_cons]; rfl
      rw [hd] at hc
      cases hc
      rintro rfl
      exact hn.slash List.mem_cons_self

/-- So behind an origin alone, where slashes before the names say nothing. -/
theorem urlPathname_root_iff (ho : IsOrigin o) (hnames : ∀ n ∈ names, IsName n)
    (htail : tail = [] ∨ tail = ['/']) :
    ((urlPathname (o ++ (pathText names ++ tail))).rdropWhile (· = '/')).dropWhile (· = '/') =
        joinSlash names ↔ LeftAlone [] [] names tail := by
  constructor
  · intro h
    have hsub : (joinSlash names).Sublist (urlPathname (o ++ (pathText names ++ tail))) := by
      rw [← h]
      exact (List.dropWhile_sublist _).trans (List.rdropWhile_prefix _ _).sublist
    have hmem : ∀ n ∈ names, ∀ c ∈ n, c ∈ urlPathname (o ++ ([] ++ pathText names ++ tail)) := by
      intro n hn c hc
      have hin : c ∈ pathText names := List.mem_flatMap.mpr ⟨n, hn, List.mem_cons_of_mem _ hc⟩
      rw [pathText_eq_joinSlash (List.ne_nil_of_mem hn)] at hin
      refine hsub.subset ((List.mem_cons.mp hin).resolve_left ?_)
      rintro rfl
      exact (hnames n hn).slash hc
    have hpath : (pathText names).count '%' ≤ (joinSlash names).count '%' := by
      by_cases hnil : names = []
      · rw [hnil]
        exact Nat.zero_le _
      · rw [pathText_eq_joinSlash hnil, List.count_cons_of_ne (by decide)]
    have hcount : ([] : Text).count '%' + (pathText names).count '%' ≤
        (urlPathname (o ++ ([] ++ pathText names ++ tail))).count '%' := by
      rw [List.count_nil, Nat.zero_add, List.nil_append]
      exact Nat.le_trans hpath (hsub.count_le _)
    obtain ⟨hclean, hlast, hall⟩ := kept_of_urlPathname ho rfl
      (fun c hc => absurd hc List.not_mem_nil) (.inl rfl) hnames htail hmem hcount
    exact ⟨hclean, hlast, hall, base_nil⟩
  · intro h
    have happ := urlPathname_names ho (.inl rfl) hnames htail h.clean h.last h.kept
    rw [h.base, List.nil_append] at happ
    rw [happ]
    by_cases hnil : names = []
    · subst hnil
      rfl
    · rw [pathText_eq_joinSlash hnil, List.dropWhile_cons_of_pos (by decide)]
      exact dropWhile_eq_self fun c hc => decide_eq_false (head_joinSlash hnames c hc)

end Ownpace.Uri
