/-
Ownpace/Store/Filed.lean

Values filed by a key, the way a loop over a `Map` files them: each behind the
others of its key, a new key behind the keys there are.

What is filed is the keys in the order they first came, each with its values in
their order (`filed_eq`).  So nothing is lost or doubled (`filed_perm`), and another
order of the values files the same under each key.  The last section sorts by a
comparison: where no two values compare equal, the order they came in is forgotten
(`sortBy_eq_of_perm`).
-/
import Mathlib.Data.List.Induction
import Mathlib.Data.List.Perm.Basic
import Mathlib.Data.List.Sort

namespace Store

variable {α β κ : Type} [DecidableEq κ]

/-! ### Distinct values in their order -/

section Distinct

variable {γ : Type} [BEq γ] [LawfulBEq γ] {ks ks' : List γ} {k : γ}

theorem eraseDups_concat_of_mem (hk : k ∈ ks) : (ks ++ [k]).eraseDups = ks.eraseDups := by
  rw [List.eraseDups_append]
  simp [List.removeAll, hk]

theorem eraseDups_concat_of_not_mem (hk : k ∉ ks) :
    (ks ++ [k]).eraseDups = ks.eraseDups ++ [k] := by
  rw [List.eraseDups_append]
  simp [List.removeAll, hk, List.eraseDups_cons]

theorem nodup_eraseDups (ks : List γ) : ks.eraseDups.Nodup := by
  induction ks using List.reverseRecOn with
  | nil => exact List.nodup_nil
  | append_singleton ks k ih =>
      by_cases hk : k ∈ ks
      · rwa [eraseDups_concat_of_mem hk]
      · rw [eraseDups_concat_of_not_mem hk, ← List.concat_eq_append]
        exact ih.concat (by rwa [List.mem_eraseDups])

theorem eraseDups_perm (h : ks.Perm ks') : ks.eraseDups.Perm ks'.eraseDups := by
  apply (List.perm_ext_iff_of_nodup (nodup_eraseDups ks) (nodup_eraseDups ks')).mpr
  intro k
  rw [List.mem_eraseDups, List.mem_eraseDups]
  exact h.mem_iff

end Distinct

/-! ### Filing -/

/-- File a value under its key. -/
def file (k : κ) (a : α) : List (κ × List α) → List (κ × List α)
  | [] => [(k, [a])]
  | (k', as) :: rest => if k' = k then (k', as ++ [a]) :: rest else (k', as) :: file k a rest

/-- The files a loop over the values leaves. -/
def filed (key : α → κ) (l : List α) : List (κ × List α) :=
  l.foldl (fun files a => file (key a) a files) []

theorem file_map (k : κ) (a : α) (ks : List κ) (hks : ks.Nodup) (m : κ → List α) :
    file k a (ks.map fun k' => (k', m k')) =
      if k ∈ ks then ks.map fun k' => (k', if k' = k then m k' ++ [a] else m k')
      else (ks.map fun k' => (k', m k')) ++ [(k, [a])] := by
  induction ks with
  | nil => rfl
  | cons k' ks ih =>
      obtain ⟨hk', hks⟩ := List.nodup_cons.mp hks
      rw [List.map_cons, file]
      by_cases h : k' = k
      · subst h
        rw [if_pos rfl, if_pos List.mem_cons_self, List.map_cons, if_pos rfl]
        congr 1
        apply List.map_congr_left
        intro k hk
        rw [if_neg (by rintro rfl; exact hk' hk)]
      · rw [if_neg h, ih hks]
        have hmem : k ∈ k' :: ks ↔ k ∈ ks := by simp [Ne.symm h]
        by_cases hk : k ∈ ks
        · rw [if_pos hk, if_pos (hmem.mpr hk), List.map_cons, if_neg h]
        · rw [if_neg hk, if_neg (hk ∘ hmem.mp), List.cons_append]

/-- **The files**: the keys as they first came, each with its values in order. -/
theorem filed_eq (key : α → κ) (l : List α) :
    filed key l = (l.map key).eraseDups.map fun k => (k, l.filter fun a => key a = k) := by
  induction l using List.reverseRecOn with
  | nil => rfl
  | append_singleton l a ih =>
      rw [filed, List.foldl_append]
      show file (key a) a (filed key l) = _
      rw [ih, file_map _ _ _ (nodup_eraseDups _), List.map_append, List.map_singleton]
      by_cases ha : key a ∈ l.map key
      · rw [if_pos (List.mem_eraseDups.mpr ha), eraseDups_concat_of_mem ha]
        apply List.map_congr_left
        intro k _
        rw [List.filter_append, List.filter_singleton]
        by_cases hk : k = key a
        · simp [hk]
        · simp [hk, Ne.symm hk]
      · rw [if_neg (by rwa [List.mem_eraseDups]), eraseDups_concat_of_not_mem ha, List.map_append]
        have hnone : l.filter (fun b => key b = key a) = [] := by
          apply List.filter_eq_nil_iff.mpr
          intro b hb hkey
          exact ha (List.mem_map.mpr ⟨b, hb, of_decide_eq_true hkey⟩)
        congr 1
        · apply List.map_congr_left
          intro k hk
          rw [List.filter_append, List.filter_singleton]
          have hne : key a ≠ k := by
            rintro rfl
            exact ha (List.mem_eraseDups.mp hk)
          simp [hne]
        · simp [List.filter_append, hnone]

theorem mem_filed {key : α → κ} {l : List α} {k : κ} {as : List α} :
    (k, as) ∈ filed key l ↔ k ∈ l.map key ∧ as = l.filter fun a => key a = k := by
  rw [filed_eq, List.mem_map]
  constructor
  · rintro ⟨k, hk, h⟩
    cases h
    exact ⟨List.mem_eraseDups.mp hk, rfl⟩
  · rintro ⟨hk, rfl⟩
    exact ⟨k, List.mem_eraseDups.mpr hk, rfl⟩

theorem filed_keys (key : α → κ) (l : List α) :
    (filed key l).map Prod.fst = (l.map key).eraseDups := by
  rw [filed_eq, List.map_map]
  exact List.map_id _

theorem flatMap_filter_perm (key : α → κ) (ks : List κ) (hks : ks.Nodup) (l : List α)
    (hl : ∀ a ∈ l, key a ∈ ks) :
    (ks.flatMap fun k => l.filter fun a => key a = k).Perm l := by
  induction ks generalizing l with
  | nil =>
      cases l with
      | nil => exact List.Perm.nil
      | cons a l => exact absurd (hl a List.mem_cons_self) List.not_mem_nil
  | cons k ks ih =>
      obtain ⟨hk, hks⟩ := List.nodup_cons.mp hks
      rw [List.flatMap_cons]
      have hrest : (ks.flatMap fun k' => l.filter fun a => key a = k') =
          ks.flatMap fun k' => (l.filter fun a => !decide (key a = k)).filter
            fun a => key a = k' := by
        apply List.flatMap_congr
        intro k' hk'
        rw [List.filter_filter]
        apply List.filter_congr
        intro a _
        by_cases ha : key a = k'
        · have : key a ≠ k := by
            rintro rfl
            exact hk (ha ▸ hk')
          simp [ha, ha ▸ this]
        · simp [ha]
      rw [hrest]
      apply (List.Perm.append_left _ (ih hks (l.filter fun a => !decide (key a = k)) _)).trans
      · exact List.filter_append_perm _ l
      · intro a ha
        obtain ⟨ha, hne⟩ := List.mem_filter.mp ha
        rcases List.mem_cons.mp (hl a ha) with h | h
        · simp [h] at hne
        · exact h

/-- **Nothing is lost or doubled.** -/
theorem filed_perm (key : α → κ) (l : List α) : ((filed key l).flatMap Prod.snd).Perm l := by
  rw [filed_eq, List.flatMap_map]
  apply flatMap_filter_perm key _ (nodup_eraseDups _)
  intro a ha
  exact List.mem_eraseDups.mpr (List.mem_map.mpr ⟨a, ha, rfl⟩)

/-- A file is made with its first value. -/
theorem ne_nil_of_mem_filed {key : α → κ} {l : List α} {k : κ} {as : List α}
    (h : (k, as) ∈ filed key l) : as ≠ [] := by
  obtain ⟨hk, rfl⟩ := mem_filed.mp h
  obtain ⟨a, ha, rfl⟩ := List.mem_map.mp hk
  exact List.ne_nil_of_mem (List.mem_filter.mpr ⟨ha, decide_eq_true rfl⟩)

/-! ### An entry for each file -/

/-- What a loop over the files makes of each, of its key, its first value and all of them. -/
def entries (make : κ → α → List α → β) (files : List (κ × List α)) : List β :=
  files.filterMap fun list => list.2.head?.map fun first => make list.1 first list.2

variable {make : κ → α → List α → β} {key : α → κ} {l : List α}

theorem mem_entries {b : β} :
    b ∈ entries make (filed key l) ↔ ∃ first rest,
      l.filter (fun a => key a = key first) = first :: rest ∧
      b = make (key first) first (first :: rest) := by
  rw [entries, List.mem_filterMap]
  constructor
  · rintro ⟨⟨k, as⟩, hmem, hb⟩
    obtain ⟨first, hfirst, rfl⟩ := Option.map_eq_some_iff.mp hb
    obtain ⟨rest, rfl⟩ : ∃ rest, as = first :: rest := by
      cases as with
      | nil => cases hfirst
      | cons a as =>
          cases hfirst
          exact ⟨as, rfl⟩
    obtain ⟨-, has⟩ := mem_filed.mp hmem
    have hk : key first = k := by
      have : first ∈ l.filter fun a => key a = k := has ▸ List.mem_cons_self
      exact of_decide_eq_true (List.mem_filter.mp this).2
    subst hk
    exact ⟨first, rest, has.symm, rfl⟩
  · rintro ⟨first, rest, has, rfl⟩
    refine ⟨(key first, first :: rest), mem_filed.mpr ⟨?_, has.symm⟩, rfl⟩
    have : first ∈ l.filter fun a => key a = key first := has ▸ List.mem_cons_self
    exact List.mem_map.mpr ⟨first, (List.mem_filter.mp this).1, rfl⟩

/-- Every value is behind the first of its file. -/
theorem exists_first {a : α} (ha : a ∈ l) : ∃ first rest,
    l.filter (fun b => key b = key a) = first :: rest ∧ key first = key a := by
  have hmem : a ∈ l.filter fun b => key b = key a :=
    List.mem_filter.mpr ⟨ha, decide_eq_true rfl⟩
  cases has : l.filter fun b => key b = key a with
  | nil => exact absurd (has ▸ hmem) List.not_mem_nil
  | cons first rest =>
      have hfirst : first ∈ l.filter fun b => key b = key a := has ▸ List.mem_cons_self
      exact ⟨first, rest, rfl, of_decide_eq_true (List.mem_filter.mp hfirst).2⟩

/-- What every entry shows of its values is what they show together. -/
theorem entries_flatMap_perm {γ : Type} {r : β → List γ} {h : α → γ}
    (hr : ∀ k a as, (r (make k a as)).Perm (as.map h)) :
    ((entries make (filed key l)).flatMap r).Perm (l.map h) := by
  have hfiles (files : List (κ × List α)) (hne : ∀ f ∈ files, f.2 ≠ []) :
      ((entries make files).flatMap r).Perm ((files.flatMap Prod.snd).map h) := by
    induction files with
    | nil => exact List.Perm.nil
    | cons f files ih =>
        obtain ⟨hf, hfiles⟩ := List.forall_mem_cons.mp hne
        obtain ⟨k, as⟩ := f
        cases as with
        | nil => exact absurd rfl hf
        | cons a as =>
            show (r (make k a (a :: as)) ++ (entries make files).flatMap r).Perm _
            rw [List.flatMap_cons, List.map_append]
            exact (hr k a (a :: as)).append (ih hfiles)
  apply (hfiles _ fun f hf => ne_nil_of_mem_filed hf).trans
  exact (filed_perm key l).map h

/-- Entries that show their key show each key once. -/
theorem entries_keys {k' : β → κ} (hk : ∀ a as, k' (make (key a) a as) = key a) :
    (entries make (filed key l)).map k' = (l.map key).eraseDups := by
  have hfiles (files : List (κ × List α))
      (hfirst : ∀ f ∈ files, ∃ a as, f.2 = a :: as ∧ key a = f.1) :
      (entries make files).map k' = files.map Prod.fst := by
    induction files with
    | nil => rfl
    | cons f files ih =>
        obtain ⟨⟨a, as, hf, hkey⟩, hfiles⟩ := List.forall_mem_cons.mp hfirst
        obtain ⟨k, list⟩ := f
        have hf : list = a :: as := hf
        have hkey : key a = k := hkey
        subst hf hkey
        show k' (make (key a) a (a :: as)) :: (entries make files).map k' = _
        rw [hk, ih hfiles, List.map_cons]
  rw [hfiles, filed_keys]
  rintro ⟨k, as⟩ hf
  obtain ⟨hk, has⟩ := mem_filed.mp hf
  obtain ⟨a, ha, rfl⟩ := List.mem_map.mp hk
  obtain ⟨first, rest, hfirst, hkey⟩ := @exists_first _ _ _ key l _ ha
  exact ⟨first, rest, has.trans hfirst, hkey⟩

theorem entries_nodup {k' : β → κ} (hk : ∀ a as, k' (make (key a) a as) = key a) :
    ((entries make (filed key l)).map k').Nodup := by
  rw [entries_keys hk]
  exact nodup_eraseDups _

/-- The first value's file is the first. -/
theorem entries_cons (make : κ → α → List α → β) (key : α → κ) (a : α) (l : List α) :
    ∃ rest, entries make (filed key (a :: l)) =
      make (key a) a (a :: l.filter fun b => key b = key a) :: rest := by
  rw [filed_eq, List.map_cons, List.eraseDups_cons, List.map_cons]
  rw [List.filter_cons_of_pos (by exact decide_eq_true rfl)]
  exact ⟨_, rfl⟩

/-- Where two lists file by the same keys, and what is shown of two files of one key
is the same, all that is shown is the same but for its order. -/
theorem entries_map_perm {γ : Type} {make' : κ → α → List α → β} {key' : α → κ} {l' : List α}
    {q q' : β → γ} (hkeys : (l.map key).Perm (l'.map key'))
    (h : ∀ k first rest first' rest', l.filter (fun a => key a = k) = first :: rest →
      l'.filter (fun a => key' a = k) = first' :: rest' →
      q (make k first (first :: rest)) = q' (make' k first' (first' :: rest'))) :
    ((entries make (filed key l)).map q).Perm ((entries make' (filed key' l')).map q') := by
  rw [entries, entries, List.map_filterMap, List.map_filterMap, filed_eq, filed_eq,
    List.filterMap_map, List.filterMap_map]
  apply ((eraseDups_perm hkeys).filterMap _).trans
  apply List.Perm.of_eq
  apply List.filterMap_congr
  intro k hk
  rw [List.mem_eraseDups] at hk
  obtain ⟨a, ha, hka⟩ := List.mem_map.mp (hkeys.mem_iff.mpr hk)
  obtain ⟨a', ha', hka'⟩ := List.mem_map.mp hk
  obtain ⟨first, rest, hfirst, -⟩ := @exists_first _ _ _ key l _ ha
  obtain ⟨first', rest', hfirst', -⟩ := @exists_first _ _ _ key' l' _ ha'
  rw [hka] at hfirst
  rw [hka'] at hfirst'
  show Option.map q ((l.filter fun a => key a = k).head?.map fun first =>
      make k first (l.filter fun a => key a = k)) =
    Option.map q' ((l'.filter fun a => key' a = k).head?.map fun first =>
      make' k first (l'.filter fun a => key' a = k))
  rw [hfirst, hfirst']
  exact congrArg some (h k first rest first' rest' hfirst hfirst')

/-! ### Sorting -/

/-- A comparison that answers the other way round the other way. -/
structure Consistent (f : α → α → Int) : Prop where
  anti : ∀ a b, 0 < f a b ↔ f b a < 0
  trans : ∀ a b c, f a b ≤ 0 → f b c ≤ 0 → f a c ≤ 0

/-- `xs.sort(f)`. -/
def sortBy (f : α → α → Int) (l : List α) : List α := l.mergeSort fun a b => decide (f a b ≤ 0)

/-- `x || y`, of two comparisons. -/
def orElse (x y : Int) : Int := if x = 0 then y else x

theorem orElse_eq_zero {x y : Int} (h : orElse x y = 0) : x = 0 ∧ y = 0 := by
  rw [orElse] at h
  split at h
  · exact ⟨by assumption, h⟩
  · exact absurd h (by assumption)

theorem sortBy_perm (f : α → α → Int) (l : List α) : (sortBy f l).Perm l := List.mergeSort_perm l _

theorem mem_sortBy {f : α → α → Int} {l : List α} {a : α} : a ∈ sortBy f l ↔ a ∈ l :=
  (sortBy_perm f l).mem_iff

theorem Consistent.comap {f : α → α → Int} (hf : Consistent f) (g : β → α) :
    Consistent fun a b => f (g a) (g b) where
  anti a b := hf.anti (g a) (g b)
  trans a b c := hf.trans (g a) (g b) (g c)

theorem Consistent.orElse {f g : α → α → Int} (hf : Consistent f) (hg : Consistent g) :
    Consistent fun a b => orElse (f a b) (g a b) where
  anti a b := by
    have h := hf.anti a b
    have h' := hf.anti b a
    have hg := hg.anti a b
    show 0 < Store.orElse (f a b) (g a b) ↔ Store.orElse (f b a) (g b a) < 0
    rw [Store.orElse, Store.orElse]
    split <;> split <;> omega
  trans a b c := by
    have hab := hf.anti a b
    have hba := hf.anti b a
    have hbc := hf.anti b c
    have hcb := hf.anti c b
    have hac := hf.anti a c
    have hca := hf.anti c a
    have h₁ := hf.trans a b c
    have h₂ := hf.trans b c a
    have h₃ := hf.trans c a b
    have hg := hg.trans a b c
    show Store.orElse (f a b) (g a b) ≤ 0 → Store.orElse (f b c) (g b c) ≤ 0 →
      Store.orElse (f a c) (g a c) ≤ 0
    rw [Store.orElse, Store.orElse, Store.orElse]
    split <;> split <;> split <;> omega

/-- The comparison of an order. -/
def comparing [LinearOrder β] (a b : β) : Int := if a < b then -1 else if b < a then 1 else 0

theorem comparing_le [LinearOrder β] (a b : β) : comparing a b ≤ 0 ↔ a ≤ b := by
  rw [comparing]
  by_cases hab : a < b
  · simp [hab, hab.le]
  · by_cases hba : b < a
    · simp [hba, hab]
    · simp [hab, hba, not_lt.mp hba]

theorem comparing_lt [LinearOrder β] (a b : β) : comparing a b < 0 ↔ a < b := by
  rw [comparing]
  by_cases hab : a < b
  · simp [hab]
  · by_cases hba : b < a <;> simp [hab, hba]

theorem consistent_comparing [LinearOrder β] : Consistent (comparing (β := β)) where
  anti a b := by
    rw [← not_le, comparing_le, not_le, comparing_lt]
  trans a b c := by
    rw [comparing_le, comparing_le, comparing_le]
    exact le_trans

theorem Consistent.refl {f : α → α → Int} (hf : Consistent f) (a : α) : f a a = 0 := by
  have := hf.anti a a
  omega

theorem Consistent.le_trans {f : α → α → Int} (hf : Consistent f) (a b c : α)
    (hab : decide (f a b ≤ 0) = true) (hbc : decide (f b c ≤ 0) = true) :
    decide (f a c ≤ 0) = true := by
  rw [decide_eq_true_eq] at hab hbc ⊢
  exact hf.trans a b c hab hbc

theorem Consistent.le_total {f : α → α → Int} (hf : Consistent f) (a b : α) :
    (decide (f a b ≤ 0) || decide (f b a ≤ 0)) = true := by
  have := hf.anti a b
  rw [Bool.or_eq_true, decide_eq_true_eq, decide_eq_true_eq]
  omega

theorem pairwise_sortBy {f : α → α → Int} (hf : Consistent f) (l : List α) :
    (sortBy f l).Pairwise fun a b => f a b ≤ 0 :=
  (List.pairwise_mergeSort hf.le_trans hf.le_total l).imp of_decide_eq_true

/-- **Sorting forgets the order the values came in**, where no two of them compare equal. -/
theorem sortBy_eq_of_perm {f : α → α → Int} (hf : Consistent f) {l l' : List α}
    (hl : ∀ a ∈ l, ∀ b ∈ l, f a b = 0 → a = b) (h : l.Perm l') : sortBy f l = sortBy f l' := by
  apply List.Perm.eq_of_pairwise _ (pairwise_sortBy hf l) (pairwise_sortBy hf l')
  · exact ((sortBy_perm f l).trans h).trans (sortBy_perm f l').symm
  · intro a b ha hb hab hba
    apply hl a (mem_sortBy.mp ha) b (h.mem_iff.mpr (mem_sortBy.mp hb))
    have := hf.anti b a
    omega

/-- What compares equal keeps its order. -/
theorem filter_sortBy {f : α → α → Int} (hf : Consistent f) (l : List α) (a : α) :
    (sortBy f l).filter (fun b => f a b = 0) = l.filter fun b => f a b = 0 := by
  have hequal : (l.filter fun b => f a b = 0).Pairwise fun b c => decide (f b c ≤ 0) = true := by
    apply List.pairwise_of_forall_mem_list
    intro b hb c hc
    have hb := of_decide_eq_true (List.mem_filter.mp hb).2
    have hc := of_decide_eq_true (List.mem_filter.mp hc).2
    have hba := hf.anti b a
    exact decide_eq_true (hf.trans b a c (by omega) (by omega))
  have hsub : (l.filter fun b => f a b = 0).Sublist (sortBy f l) :=
    List.sublist_mergeSort hf.le_trans hf.le_total hequal List.filter_sublist
  have hsub := hsub.filter fun b => f a b = 0
  rw [List.filter_filter] at hsub
  simp only [Bool.and_self] at hsub
  exact (hsub.eq_of_length ((sortBy_perm f l).filter _).length_eq.symm).symm

/-- **Sorting is stable**: of what compares equal, what stood before stands before. -/
theorem pairwise_sortBy_of_eq {f : α → α → Int} (hf : Consistent f) {l : List α}
    {R : α → α → Prop} (h : l.Pairwise R) :
    (sortBy f l).Pairwise fun a b => f a b = 0 → R a b := by
  apply List.pairwise_iff_forall_sublist.mpr
  intro a b hab heq
  apply List.pairwise_iff_forall_sublist.mp h
  have hkept := hab.filter fun c => f a c = 0
  rw [filter_sortBy hf, List.filter_cons_of_pos (by exact decide_eq_true (hf.refl a)),
    List.filter_cons_of_pos (by exact decide_eq_true heq)] at hkept
  exact hkept.trans List.filter_sublist

end Store
