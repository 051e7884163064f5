/-
Ownpace/Store/Keyset.lean

The first of a list by a key, so many of them at most: a page of what is read in the order of
its key, the next one from the last key read.

A page that leaves something out is full, and of smaller keys (`mem_firsts_or`).  A page of the
pages of several readings misses nothing up to its own end that a reading before it left out
(`mem_firsts_of_reading`).
-/
import Mathlib.Data.List.Sort
import Mathlib.Order.Basic

namespace Store

variable {α κ : Type} [LinearOrder κ] {key : α → κ} {limit : Nat} {l l' : List α} {a b : α}

/-- The list in the order of its keys. -/
def byKey (key : α → κ) (l : List α) : List α := l.insertionSort fun a b => key a ≤ key b

/-- The first of a list, in the order of their keys. -/
def firsts (key : α → κ) (limit : Nat) (l : List α) : List α := (byKey key l).take limit

instance total_key : Std.Total fun a b : α => key a ≤ key b := ⟨fun a b => le_total (key a) (key b)⟩

instance isTrans_key : IsTrans α fun a b => key a ≤ key b := ⟨fun _ _ _ => le_trans⟩

theorem byKey_perm (key : α → κ) (l : List α) : (byKey key l).Perm l :=
  List.perm_insertionSort _ l

theorem pairwise_byKey (key : α → κ) (l : List α) :
    (byKey key l).Pairwise fun a b => key a ≤ key b :=
  List.pairwise_insertionSort _ l

theorem mem_of_mem_firsts (h : a ∈ firsts key limit l) : a ∈ l :=
  (byKey_perm key l).mem_iff.mp (List.mem_of_mem_take h)

theorem length_firsts_le : (firsts key limit l).length ≤ limit := List.length_take_le limit _

/-- Of distinct keys, a page is in strict order. -/
theorem pairwise_firsts (h : (l.map key).Nodup) :
    (firsts key limit l).Pairwise fun a b => key a < key b := by
  have hnodup : (byKey key l).Pairwise fun a b => key a ≠ key b :=
    List.pairwise_map.mp (((byKey_perm key l).map key).nodup_iff.mpr h)
  have hboth := List.Pairwise.and (pairwise_byKey key l) hnodup
  have hstrict := hboth.imp fun hab => lt_of_le_of_ne hab.1 hab.2
  exact hstrict.sublist (List.take_sublist limit _)

/-- A page is its own page. -/
theorem firsts_eq_self (h : l.Pairwise fun a b => key a ≤ key b) (hlimit : l.length ≤ limit) :
    firsts key limit l = l := by
  rw [firsts, byKey, h.insertionSort_eq, List.take_of_length_le hlimit]

/-- **What a page leaves out**: then it is full, and nothing in it has a greater key. -/
theorem mem_firsts_or (key : α → κ) (limit : Nat) (ha : a ∈ l) : a ∈ firsts key limit l ∨
    (firsts key limit l).length = limit ∧ ∀ b ∈ firsts key limit l, key b ≤ key a := by
  have hmem := (byKey_perm key l).mem_iff.mpr ha
  rw [← List.take_append_drop limit (byKey key l)] at hmem
  rcases List.mem_append.mp hmem with hfirst | hrest
  · exact .inl hfirst
  · refine .inr ⟨?_, fun b hb => ?_⟩
    · have hlt : limit < (byKey key l).length := by
        by_contra hge
        rw [List.drop_eq_nil_of_le (Nat.le_of_not_lt hge)] at hrest
        cases hrest
      exact List.length_take_of_le (Nat.le_of_lt hlt)
    · have hsorted := pairwise_byKey key l
      rw [← List.take_append_drop limit (byKey key l)] at hsorted
      exact (List.pairwise_append.mp hsorted).2.2 b hb a hrest

/-- A page of the pages of several readings: what one of them had before it, and the page has
not, is beyond the page. -/
theorem mem_firsts_of_reading {page gathered : List α} (hsub : page ⊆ gathered)
    (hnodup : page.Nodup)
    (ha : a ∈ page ∨ page.length = limit ∧ ∀ x ∈ page, key x < key a)
    (hinj : ∀ x ∈ gathered, key x = key a → x = a)
    (hb : b ∈ firsts key limit gathered) (hab : key a ≤ key b) :
    a ∈ firsts key limit gathered := by
  rcases ha with ha | ⟨hfull, hbefore⟩
  · rcases mem_firsts_or key limit (hsub ha) with hmem | ⟨-, hle⟩
    · exact hmem
    · have heq := hinj b (mem_of_mem_firsts hb) (le_antisymm (hle b hb) hab)
      exact heq ▸ hb
  · -- the reading was cut short before `a`, so the page cannot reach it
    by_cases hall : page ⊆ firsts key limit gathered
    · have hperm : page.Perm (firsts key limit gathered) := by
        apply (List.subperm_of_subset hnodup hall).perm_of_length_le
        rw [hfull]
        exact length_firsts_le
      exact absurd hab (not_le.mpr (hbefore b (hperm.mem_iff.mpr hb)))
    · obtain ⟨x, hx, hnot⟩ : ∃ x ∈ page, x ∉ firsts key limit gathered := by
        by_contra hno
        push Not at hno
        exact hall hno
      rcases mem_firsts_or key limit (hsub hx) with hmem | ⟨-, hle⟩
      · exact absurd hmem hnot
      · exact absurd hab (not_le.mpr ((hle b hb).trans_lt (hbefore x hx)))

end Store
