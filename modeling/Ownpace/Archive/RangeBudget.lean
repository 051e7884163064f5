/-
Ownpace/Archive/RangeBudget.lean

The read-ahead ceiling that the sources of one store share (`rangeBudget` of
`webdav-archive-store.ts`): what each source holds, oldest use first, and the total.

A `RangeBudget` carries what every operation keeps: one entry a source, the total of them all,
and a total within the limit unless a single window is held.  What `hold` drops is what it
counts no longer (`mem_hold`), never the window it was called for.
-/
import Mathlib.Algebra.BigOperators.Group.List.Basic
import Mathlib.Algebra.GroupWithZero.Nat
import Mathlib.Data.List.Nodup
import Mathlib.Data.List.Perm.Basic

namespace Ownpace.Archive

variable {κ : Type} [DecidableEq κ]

/-! ### Eviction -/

abbrev heldKeys (held : List (κ × Nat)) : List κ := held.map Prod.fst

abbrev heldBytes (held : List (κ × Nat)) : Nat := (held.map Prod.snd).sum

/-- What stays held and the total of it, and the sources dropped, in the order they are. -/
structure Evicted (κ : Type) where
  held : List (κ × Nat)
  total : Nat
  dropped : List κ

def evictUntilItFits (limitBytes : Nat) (keep : κ) : List (κ × Nat) → Nat → Evicted κ
  | [], total => ⟨[], total, []⟩
  | (source, bytes) :: rest, total =>
    if total ≤ limitBytes then ⟨(source, bytes) :: rest, total, []⟩
    else if source = keep then
      -- never the one just held
      let after := evictUntilItFits limitBytes keep rest total
      { after with held := (source, bytes) :: after.held }
    else
      let after := evictUntilItFits limitBytes keep rest (total - bytes)
      { after with dropped := source :: after.dropped }

variable {limitBytes : Nat} {keep source k : κ} {held : List (κ × Nat)} {total bytes n : Nat}

theorem evict_held_sublist : (evictUntilItFits limitBytes keep held total).held.Sublist held := by
  induction held generalizing total with
  | nil => exact List.Sublist.refl []
  | cons e rest ih =>
      rw [evictUntilItFits]
      split
      · exact List.Sublist.refl _
      · split
        · exact ih.cons_cons e
        · exact ih.cons e

theorem evict_dropped : (heldKeys (evictUntilItFits limitBytes keep held total).held ++
    (evictUntilItFits limitBytes keep held total).dropped).Perm (heldKeys held) := by
  induction held generalizing total with
  | nil => exact List.Perm.nil
  | cons e rest ih =>
      rw [evictUntilItFits]
      split
      · show (heldKeys (e :: rest) ++ []).Perm _
        rw [List.append_nil]
      · split
        · exact ih.cons e.1
        · exact List.perm_middle.trans (ih.cons e.1)

theorem not_mem_evict_dropped : keep ∉ (evictUntilItFits limitBytes keep held total).dropped := by
  induction held generalizing total with
  | nil => exact List.not_mem_nil
  | cons e rest ih =>
      rw [evictUntilItFits]
      split
      · exact List.not_mem_nil
      · split
        · exact ih
        · rename_i hne
          show keep ∉ e.1 :: _
          rw [List.mem_cons, not_or]
          exact ⟨fun h => hne h.symm, ih⟩

/-- The total goes on being the total of what stays. -/
theorem evict_total (past : Nat) :
    (evictUntilItFits limitBytes keep held (past + heldBytes held)).total =
      past + heldBytes (evictUntilItFits limitBytes keep held (past + heldBytes held)).held := by
  induction held generalizing past with
  | nil => rfl
  | cons e rest ih =>
      rw [evictUntilItFits]
      split
      · rfl
      · have hpast : past + heldBytes (e :: rest) = past + e.2 + heldBytes rest := by
          simp [heldBytes, Nat.add_assoc]
        split
        · have hrest := ih (past + e.2)
          rw [hpast]
          show _ = past + heldBytes (e :: _)
          rw [hrest]
          simp [heldBytes, Nat.add_assoc]
        · have hless : past + heldBytes (e :: rest) - e.2 = past + heldBytes rest := by
            simp only [heldBytes, List.map_cons, List.sum_cons]
            omega
          rw [hless]
          exact ih past

/-- Eviction ends within the limit or with nothing but the window just held. -/
theorem evict_fits : (evictUntilItFits limitBytes keep held total).total ≤ limitBytes ∨
    ∀ e ∈ (evictUntilItFits limitBytes keep held total).held, e.1 = keep := by
  induction held generalizing total with
  | nil => exact .inr fun _ he => absurd he List.not_mem_nil
  | cons e rest ih =>
      rw [evictUntilItFits]
      split
      · rename_i hle
        exact .inl hle
      · split
        · rename_i hkeep
          rcases @ih total with hfits | hall
          · exact .inl hfits
          · exact .inr (List.forall_mem_cons.mpr ⟨hkeep, hall⟩)
        · exact ih

/-! ### The budget -/

structure RangeBudget (κ : Type) where
  limitBytes : Nat
  held : List (κ × Nat) := []
  total : Nat := 0
  nodup : (heldKeys held).Nodup := by exact List.nodup_nil
  total_eq : total = heldBytes held := by rfl
  fits : total ≤ limitBytes ∨ held.length ≤ 1 := by exact .inr (Nat.zero_le 1)

/-- The entries of the other sources. -/
def without (source : κ) (held : List (κ × Nat)) : List (κ × Nat) := held.filter (·.1 ≠ source)

theorem mem_without : (k, n) ∈ without source held ↔ (k, n) ∈ held ∧ k ≠ source := by
  simp [without]

theorem nodup_without (h : (heldKeys held).Nodup) : (heldKeys (without source held)).Nodup :=
  h.sublist (List.filter_sublist.map Prod.fst)

theorem nodup_without_concat (h : (heldKeys held).Nodup) :
    (heldKeys (without source held ++ [(source, bytes)])).Nodup := by
  rw [heldKeys, List.map_append]
  refine List.nodup_append.mpr ⟨nodup_without h, List.nodup_singleton source, ?_⟩
  intro k hk k' hk' heq
  obtain ⟨e, he, rfl⟩ := List.mem_map.mp hk
  have hne := (mem_without.mp he).2
  exact hne (heq.trans (List.mem_singleton.mp hk'))

theorem without_perm (hnodup : (heldKeys held).Nodup) (h : (source, n) ∈ held) :
    (without source held ++ [(source, n)]).Perm held := by
  induction held with
  | nil => cases h
  | cons e rest ih =>
      obtain ⟨hnot, hnodup⟩ := List.nodup_cons.mp hnodup
      rcases List.mem_cons.mp h with rfl | h
      · have hrest : without source rest = rest := by
          apply List.filter_eq_self.mpr
          intro e he
          have hne : e.1 ≠ source := fun heq => hnot (heq ▸ List.mem_map.mpr ⟨e, he, rfl⟩)
          simp [hne]
        have hself : without source ((source, n) :: rest) = rest := by
          rw [without, List.filter_cons_of_neg (by simp)]
          exact hrest
        rw [hself]
        exact List.perm_append_comm
      · have hne : e.1 ≠ source := by
          rintro rfl
          exact hnot (List.mem_map.mpr ⟨_, h, rfl⟩)
        have hcons : without source (e :: rest) = e :: without source rest := by
          rw [without, List.filter_cons_of_pos (by simp [hne])]
          rfl
        rw [hcons]
        exact (ih hnodup h).cons e

theorem heldBytes_without (hnodup : (heldKeys held).Nodup) (h : (source, n) ∈ held) :
    heldBytes (without source held) + n = heldBytes held := by
  have hsum := ((without_perm hnodup h).map Prod.snd).sum_eq
  simpa [heldBytes] using hsum

/-- The bytes that a source has counted, if it has. -/
def entryOf (held : List (κ × Nat)) (source : κ) : Option Nat :=
  (held.find? (·.1 = source)).map Prod.snd

theorem mem_of_entryOf (h : entryOf held source = some n) : (source, n) ∈ held := by
  obtain ⟨e, he, rfl⟩ := Option.map_eq_some_iff.mp h
  have hkey := List.find?_some he
  have hmem := List.mem_of_find?_eq_some he
  obtain rfl : e.1 = source := of_decide_eq_true hkey
  exact hmem

theorem not_mem_of_entryOf (h : entryOf held source = none) : (source, n) ∉ held := by
  intro hmem
  have hnone := Option.map_eq_none_iff.mp h
  have hno := List.find?_eq_none.mp hnone (source, n) hmem
  exact hno (decide_eq_true rfl)

theorem without_of_entryOf_none (h : entryOf held source = none) : without source held = held := by
  apply List.filter_eq_self.mpr
  rintro ⟨k, n⟩ he
  have hne : k ≠ source := by
    rintro rfl
    exact not_mem_of_entryOf h he
  simp [hne]

/-- The total less what the source had counted. -/
theorem total_less (hnodup : (heldKeys held).Nodup) (htotal : total = heldBytes held) :
    total - (entryOf held source).getD 0 = heldBytes (without source held) := by
  cases h : entryOf held source with
  | none => rw [without_of_entryOf_none h, Option.getD_none, Nat.sub_zero, htotal]
  | some n =>
      have hless := heldBytes_without hnodup (mem_of_entryOf h)
      rw [Option.getD_some]
      omega

namespace RangeBudget

/-- What `hold` comes to: the entry replaced and put last, then the others evicted. -/
def evicted (b : RangeBudget κ) (source : κ) (bytes : Nat) : Evicted κ :=
  evictUntilItFits b.limitBytes source (without source b.held ++ [(source, bytes)])
    (b.total - (entryOf b.held source).getD 0 + bytes)

variable {b : RangeBudget κ}

theorem evicted_start : b.total - (entryOf b.held source).getD 0 + bytes =
    0 + heldBytes (without source b.held ++ [(source, bytes)]) := by
  rw [total_less b.nodup b.total_eq]
  simp [heldBytes]

theorem evicted_total : (b.evicted source bytes).total = heldBytes (b.evicted source bytes).held := by
  have h := @evict_total κ _ b.limitBytes source (without source b.held ++ [(source, bytes)]) 0
  rw [← evicted_start] at h
  exact h.trans (Nat.zero_add _)

theorem evicted_nodup : (heldKeys (b.evicted source bytes).held).Nodup :=
  (nodup_without_concat b.nodup).sublist (evict_held_sublist.map Prod.fst)

theorem evicted_fits : (b.evicted source bytes).total ≤ b.limitBytes ∨
    (b.evicted source bytes).held.length ≤ 1 := by
  rcases @evict_fits κ _ b.limitBytes source (without source b.held ++ [(source, bytes)])
    (b.total - (entryOf b.held source).getD 0 + bytes) with hfits | hall
  · exact .inl hfits
  · refine .inr ?_
    have hnodup : (heldKeys (b.evicted source bytes).held).Nodup := evicted_nodup
    have hkeys : ∀ k ∈ heldKeys (b.evicted source bytes).held, k = source := by
      intro k hk
      obtain ⟨e, he, rfl⟩ := List.mem_map.mp hk
      exact hall e he
    have hle := List.Subperm.length_le (List.subperm_of_subset hnodup fun k hk =>
      List.mem_singleton.mpr (hkeys k hk))
    simpa using hle

/-- Take or replace this source's window, dropping the least recently used until it fits. -/
def hold (b : RangeBudget κ) (source : κ) (bytes : Nat) : RangeBudget κ where
  limitBytes := b.limitBytes
  held := (b.evicted source bytes).held
  total := (b.evicted source bytes).total
  nodup := evicted_nodup
  total_eq := evicted_total
  fits := evicted_fits

/-- The windows that `hold` drops. -/
def dropped (b : RangeBudget κ) (source : κ) (bytes : Nat) : List κ :=
  (b.evicted source bytes).dropped

/-- Served from this source's window just now: it is not the next evicted. -/
def touch (b : RangeBudget κ) (source : κ) : RangeBudget κ :=
  match h : entryOf b.held source with
  | none => b
  | some bytes =>
    have hperm := without_perm b.nodup (mem_of_entryOf h)
    { b with
      held := without source b.held ++ [(source, bytes)]
      nodup := nodup_without_concat b.nodup
      total_eq := b.total_eq.trans (hperm.map Prod.snd).sum_eq.symm
      fits := hperm.length_eq ▸ b.fits }

/-- The source is closing: its window stops counting. -/
def release (b : RangeBudget κ) (source : κ) : RangeBudget κ where
  limitBytes := b.limitBytes
  held := without source b.held
  total := b.total - (entryOf b.held source).getD 0
  nodup := nodup_without b.nodup
  total_eq := total_less b.nodup b.total_eq
  fits := b.fits.imp (Nat.le_trans (Nat.sub_le _ _)) (Nat.le_trans (List.length_filter_le _ _))

/-! ### What is counted -/

theorem mem_hold : (k, n) ∈ (b.hold source bytes).held ↔
    k ∉ b.dropped source bytes ∧ ((k, n) ∈ b.held ∧ k ≠ source ∨ k = source ∧ n = bytes) := by
  have hstart : ∀ k n, (k, n) ∈ without source b.held ++ [(source, bytes)] ↔
      (k, n) ∈ b.held ∧ k ≠ source ∨ k = source ∧ n = bytes := by
    intro k n
    rw [List.mem_append, mem_without, List.mem_singleton, Prod.mk.injEq]
  have hnodup : (heldKeys (without source b.held ++ [(source, bytes)])).Nodup :=
    nodup_without_concat b.nodup
  have hperm : (heldKeys (b.hold source bytes).held ++ b.dropped source bytes).Perm _ :=
    evict_dropped
  have hdisjoint := (List.nodup_append.mp (hperm.nodup_iff.mpr hnodup)).2.2
  rw [← hstart]
  constructor
  · intro h
    exact ⟨fun hdropped => hdisjoint k (List.mem_map_of_mem h) k hdropped rfl,
      evict_held_sublist.subset h⟩
  · rintro ⟨hnot, h⟩
    have hkey : k ∈ heldKeys (b.hold source bytes).held := by
      have hmem := hperm.mem_iff.mpr (List.mem_map_of_mem h)
      exact (List.mem_append.mp hmem).resolve_right hnot
    obtain ⟨e, he, rfl⟩ := List.mem_map.mp hkey
    have hsub := evict_held_sublist.subset he
    have heq := List.inj_on_of_nodup_map hnodup hsub h rfl
    exact heq ▸ he

/-- The window just held stays. -/
theorem not_mem_dropped : source ∉ b.dropped source bytes := not_mem_evict_dropped

@[simp] theorem mem_touch : (k, n) ∈ (b.touch source).held ↔ (k, n) ∈ b.held := by
  unfold touch
  split
  · rfl
  · rename_i bytes h
    exact (without_perm b.nodup (mem_of_entryOf h)).mem_iff

@[simp] theorem mem_release : (k, n) ∈ (b.release source).held ↔ (k, n) ∈ b.held ∧ k ≠ source :=
  mem_without

end RangeBudget

end Ownpace.Archive
