/-
Ownpace/Container/Stable.lean

Lists sorted stably by a key.

What a stable sort keeps is the order within each key; `sort_eq_iff` says that
this is all it keeps: two lists sort to the same one exactly if, key by key,
they hold the same elements in the same order.
-/
import Mathlib.Data.List.Basic

namespace StableSort

variable {α κ : Type} {key : α → κ} {le : κ → κ → Bool} {l l₁ l₂ : List α}

/-- A total order on the keys, as a test. -/
structure Orders (le : κ → κ → Bool) : Prop where
  trans : ∀ a b c, le a b → le b c → le a c
  total : ∀ a b, le a b || le b a
  antisymm : ∀ a b, le a b → le b a → a = b

/-- The list, sorted by its keys. -/
def sortBy (key : α → κ) (le : κ → κ → Bool) (l : List α) : List α :=
  l.mergeSort fun a b => le (key a) (key b)

theorem perm_sortBy (l : List α) : (sortBy key le l).Perm l :=
  List.mergeSort_perm l _

/-- The elements of this key, in order. -/
def under [DecidableEq κ] (key : α → κ) (k : κ) (l : List α) : List α :=
  l.filter fun a => key a = k

section Orders

variable (hle : Orders le)
include hle

theorem sorted_sortBy (l : List α) : (sortBy key le l).Pairwise fun a b => le (key a) (key b) :=
  List.pairwise_mergeSort (fun a b c => hle.trans (key a) (key b) (key c))
    (fun a b => hle.total (key a) (key b)) l

variable [DecidableEq κ]

omit hle in
theorem mem_under {k : α → κ} {a : α} : a ∈ under k (k a) l ↔ a ∈ l := by
  simp [under]

/-- **The sort is stable**: within a key the order stays. -/
theorem under_sortBy (k : κ) (l : List α) : under key k (sortBy key le l) = under key k l := by
  have hpairwise : (under key k l).Pairwise fun a b => le (key a) (key b) = true := by
    rw [List.pairwise_iff_forall_sublist]
    intro a b hab
    have hkey (c : α) (hc : c ∈ [a, b]) : key c = k := by
      have hmem := List.mem_filter.mp (hab.subset hc)
      exact of_decide_eq_true hmem.2
    rw [hkey a (by simp), hkey b (by simp)]
    simpa using hle.total k k
  have hsub : (under key k l).Sublist (sortBy key le l) :=
    List.sublist_mergeSort (fun a b c => hle.trans (key a) (key b) (key c))
      (fun a b => hle.total (key a) (key b)) hpairwise List.filter_sublist
  have hfilter : (under key k l).Sublist (under key k (sortBy key le l)) := by
    have h := hsub.filter fun a => decide (key a = k)
    simpa [under, List.filter_filter] using h
  refine (hfilter.eq_of_length ?_).symm
  exact ((perm_sortBy l).filter _).length_eq.symm

/-- Sorted lists are told apart by what they hold under each key. -/
theorem eq_of_under (h₁ : l₁.Pairwise fun a b => le (key a) (key b))
    (h₂ : l₂.Pairwise fun a b => le (key a) (key b))
    (h : ∀ k, under key k l₁ = under key k l₂) : l₁ = l₂ := by
  have hmem (a : α) : a ∈ l₁ ↔ a ∈ l₂ := by
    rw [← mem_under (k := key), h, mem_under]
  induction l₁ generalizing l₂ with
  | nil =>
      cases l₂ with
      | nil => rfl
      | cons b t₂ => exact absurd ((hmem b).mpr List.mem_cons_self) List.not_mem_nil
  | cons a t₁ ih =>
      cases l₂ with
      | nil => exact absurd ((hmem a).mp List.mem_cons_self) List.not_mem_nil
      | cons b t₂ =>
          have hself (k : κ) : le k k = true := by simpa using hle.total k k
          have hfirst {c d : α} {t : List α} (hs : (c :: t).Pairwise fun a b => le (key a) (key b))
              (hd : d ∈ c :: t) : le (key c) (key d) = true := by
            rcases List.mem_cons.mp hd with rfl | hd
            · exact hself _
            · exact List.rel_of_pairwise_cons hs hd
          have hkey : key a = key b :=
            hle.antisymm _ _ (hfirst h₁ ((hmem b).mpr List.mem_cons_self))
              (hfirst h₂ ((hmem a).mp List.mem_cons_self))
          -- the heads have one key, so they head the elements of that key
          have hhead := h (key a)
          rw [under, under, List.filter_cons_of_pos (by simp), List.filter_cons_of_pos (by simp [hkey]),
            List.cons.injEq] at hhead
          obtain ⟨rfl, -⟩ := hhead
          have htail (k : κ) : under key k t₁ = under key k t₂ := by
            have hk := h k
            rw [under, under, List.filter_cons, List.filter_cons] at hk
            split at hk
            · exact (List.cons.inj hk).2
            · exact hk
          rw [ih (List.Pairwise.of_cons h₁) (List.Pairwise.of_cons h₂) htail]
          intro c
          rw [← mem_under (k := key), htail, mem_under]

/-- **What a stable sort tells apart.** -/
theorem sortBy_eq_iff :
    sortBy key le l₁ = sortBy key le l₂ ↔ ∀ k, under key k l₁ = under key k l₂ := by
  constructor
  · intro heq k
    rw [← under_sortBy hle k l₁, heq, under_sortBy hle k l₂]
  · intro h
    refine eq_of_under hle (sorted_sortBy hle l₁) (sorted_sortBy hle l₂) fun k => ?_
    rw [under_sortBy hle, under_sortBy hle, h]

end Orders

end StableSort
