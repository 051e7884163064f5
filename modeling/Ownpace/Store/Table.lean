/-
Ownpace/Store/Table.lean

A table with a unique key, and the two statements that change one: an insert
that does nothing on a conflict, and an update of the rows a condition picks.

The rows are a list, in no order anything depends on; that no two of them
share a key is a field.  An update may rewrite everything but the key, so it
is given together with the proof that it leaves the key alone.

Everything a user of a table needs is said through `get`: what a row under a
key is after each statement (`get_updateWhere`, `get_insert`), and that the
rows are exactly what `get` finds (`mem_rows_iff`).
-/
import Mathlib.Data.List.Nodup

namespace Store

variable {κ ρ : Type} [DecidableEq κ] {key : ρ → κ}

/-- Rows of which no two share a key. -/
structure Table (κ ρ : Type) (key : ρ → κ) where
  rows : List ρ
  unique : (rows.map key).Nodup

namespace Table

def empty : Table κ ρ key := ⟨[], List.nodup_nil⟩

/-- The row under a key. -/
def get (t : Table κ ρ key) (k : κ) : Option ρ :=
  t.rows.find? fun r => key r = k

/-- Rewrite the rows a condition picks. -/
def updateWhere (t : Table κ ρ key) (sel : ρ → Bool) (set : ρ → ρ)
    (hset : ∀ r, key (set r) = key r) : Table κ ρ key where
  rows := t.rows.map fun r => bif sel r then set r else r
  unique := by
    have hkeys : (t.rows.map fun r => bif sel r then set r else r).map key =
        t.rows.map key := by
      rw [List.map_map]
      refine List.map_congr_left fun r _ => ?_
      cases h : sel r <;> simp [h, hset]
    rw [hkeys]
    exact t.unique

/-- Add a row, unless one is there under its key. -/
def insert (t : Table κ ρ key) (r : ρ) : Table κ ρ key :=
  if h : key r ∈ t.rows.map key then t
  else ⟨r :: t.rows, List.nodup_cons.mpr ⟨h, t.unique⟩⟩

/-! ### What is found -/

theorem get_key {t : Table κ ρ key} {k : κ} {r : ρ} (h : t.get k = some r) :
    key r = k := by
  simpa using List.find?_some h

theorem mem_of_get {t : Table κ ρ key} {k : κ} {r : ρ} (h : t.get k = some r) :
    r ∈ t.rows :=
  List.mem_of_find?_eq_some h

theorem get_of_mem {t : Table κ ρ key} {r : ρ} (h : r ∈ t.rows) :
    t.get (key r) = some r := by
  obtain ⟨rows, hnd⟩ := t
  simp only [get] at h ⊢
  induction rows with
  | nil => cases h
  | cons a rows ih =>
      rw [List.map_cons, List.nodup_cons] at hnd
      rcases List.mem_cons.mp h with rfl | hr
      · rw [List.find?_cons_of_pos (by simp)]
      · have hne : key a ≠ key r := fun heq =>
          hnd.1 (heq ▸ List.mem_map_of_mem hr)
        rw [List.find?_cons_of_neg (by simpa using hne)]
        exact ih hnd.2 hr

/-- The rows are what `get` finds, each under its own key. -/
theorem mem_rows_iff {t : Table κ ρ key} {r : ρ} :
    r ∈ t.rows ↔ t.get (key r) = some r :=
  ⟨get_of_mem, mem_of_get⟩

theorem get_eq_none {t : Table κ ρ key} {k : κ} :
    t.get k = none ↔ k ∉ t.rows.map key := by
  simp [get, List.find?_eq_none]

/-- A row is picked by a condition under a key exactly if the row under that
key meets the rest of the condition. -/
theorem any_key {t : Table κ ρ key} {k : κ} {p : ρ → Bool} :
    (t.rows.any fun r => key r = k && p r) = (t.get k).any p := by
  cases hg : t.get k with
  | none =>
      simp only [get, List.find?_eq_none, decide_eq_true_eq] at hg
      simp only [Option.any_none, List.any_eq_false, Bool.and_eq_true,
        decide_eq_true_eq, not_and]
      exact fun r hr hk => absurd hk (hg r hr)
  | some r =>
      have hk := get_key hg
      rw [Option.any_some, Bool.eq_iff_iff, List.any_eq_true]
      constructor
      · rintro ⟨r', hr', hp⟩
        simp only [Bool.and_eq_true, decide_eq_true_eq] at hp
        have hr'' := get_of_mem hr'
        rw [hp.1, hg] at hr''
        obtain rfl := Option.some.inj hr''
        exact hp.2
      · intro hp
        exact ⟨r, mem_of_get hg, by simp [hk, hp]⟩

/-! ### What a statement leaves -/

@[simp] theorem get_empty (k : κ) : (empty : Table κ ρ key).get k = none := rfl

theorem get_updateWhere (t : Table κ ρ key) (sel : ρ → Bool) (set : ρ → ρ)
    (hset : ∀ r, key (set r) = key r) (k : κ) :
    (t.updateWhere sel set hset).get k =
      (t.get k).map fun r => bif sel r then set r else r := by
  simp only [get, updateWhere, List.find?_map]
  congr 1
  congr 1
  funext r
  cases h : sel r <;> simp [h, hset]

/-- An update that picks by key leaves every other row as it was. -/
theorem get_updateWhere_of_ne (t : Table κ ρ key) {k k' : κ} {p : ρ → Bool}
    (set : ρ → ρ) (hset : ∀ r, key (set r) = key r) (hne : k' ≠ k) :
    (t.updateWhere (fun r => key r = k && p r) set hset).get k' = t.get k' := by
  rw [get_updateWhere]
  cases hg : t.get k' with
  | none => rfl
  | some r =>
      have : key r ≠ k := by rw [get_key hg]; exact hne
      simp [this]

/-- An update that picks by key, at its key. -/
theorem get_updateWhere_self (t : Table κ ρ key) {k : κ} {p : ρ → Bool}
    (set : ρ → ρ) (hset : ∀ r, key (set r) = key r) :
    (t.updateWhere (fun r => key r = k && p r) set hset).get k =
      (t.get k).map fun r => bif p r then set r else r := by
  rw [get_updateWhere]
  cases hg : t.get k with
  | none => rfl
  | some r => simp [get_key hg]

theorem get_insert (t : Table κ ρ key) (r : ρ) (k : κ) :
    (t.insert r).get k = if key r = k then some ((t.get k).getD r) else t.get k := by
  unfold insert
  split
  · next h =>
      split
      · next hk =>
          subst hk
          cases hg : t.get (key r) with
          | none => exact absurd h (get_eq_none.mp hg)
          | some r' => rfl
      · rfl
  · next h =>
      split
      · next hk =>
          subst hk
          rw [get_eq_none.mpr h]
          simp [get]
      · next hk => simp [get, hk]

end Table

end Store
