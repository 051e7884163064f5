/-
Ownpace/Store/Parents.lean

The way up from a key, where every entry may name the key above it.

`get` finds entries by key, and `up` is the key above an entry, if it is no root.
Nothing is assumed of them: keys may lead nowhere, or round in a circle.  `Climbs`
says of a way that it leads up to a root; there is at most one (`Climbs.unique`),
it meets no key twice (`Climbs.nodup`), and two ways of one spelling part between
two siblings (`Climbs.part`).
-/
import Mathlib.Data.List.Nodup

namespace Store

variable {κ ν β : Type}

/-- From this key, or from above a root, up to a root: the keys and their entries. -/
inductive Climbs (get : κ → Option ν) (up : ν → Option κ) : Option κ → List (κ × ν) → Prop
  | root : Climbs get up none []
  | step {k n way} : get k = some n → Climbs get up (up n) way →
      Climbs get up (some k) ((k, n) :: way)

namespace Climbs

variable {get get' : κ → Option ν} {up : ν → Option κ} {o o' : Option κ} {way way' : List (κ × ν)}

theorem unique (h : Climbs get up o way) (h' : Climbs get up o way') : way = way' := by
  induction h generalizing way' with
  | root =>
      cases h'
      rfl
  | step hget _ ih =>
      cases h' with
      | step hget' h' =>
          obtain rfl := Option.some.inj (hget.symm.trans hget')
          rw [ih h']

/-- Entries added elsewhere do not change it. -/
theorem extend (hget : ∀ k n, get k = some n → get' k = some n) (h : Climbs get up o way) :
    Climbs get' up o way := by
  induction h with
  | root => exact .root
  | step hk _ ih => exact .step (hget _ _ hk) ih

theorem get_of_mem (h : Climbs get up o way) {e : κ × ν} (he : e ∈ way) : get e.1 = some e.2 := by
  induction h with
  | root => cases he
  | step hget _ ih =>
      rcases List.mem_cons.mp he with rfl | he
      · exact hget
      · exact ih he

/-- Behind any key of it, it is the way up from there. -/
theorem behind {past : List (κ × ν)} {e : κ × ν} (h : Climbs get up o (past ++ e :: way)) :
    Climbs get up (some e.1) (e :: way) := by
  induction past generalizing o with
  | nil =>
      cases h with
      | step hget h => exact .step hget h
  | cons x past ih =>
      cases h with
      | step _ h => exact ih h

theorem nodup (h : Climbs get up o way) : (way.map Prod.fst).Nodup := by
  induction h with
  | root => exact List.nodup_nil
  | @step k n way hget h ih =>
      refine List.nodup_cons.mpr ⟨fun hmem => ?_, ih⟩
      obtain ⟨e, he, rfl⟩ := List.mem_map.mp hmem
      obtain ⟨past, rest, rfl⟩ := List.append_of_mem he
      -- the way from this key would be a part of itself
      have hsame := h.behind.unique (.step hget h)
      have hlength := congrArg List.length hsame
      simp at hlength
      omega

/-- Ways from two keys that read the same meet two siblings of one reading. -/
theorem part {label : ν → β} (h : Climbs get up o way) (h' : Climbs get up o' way') (hne : o ≠ o')
    (hsame : way.map (label ·.2) = way'.map (label ·.2)) :
    ∃ e ∈ way, ∃ e' ∈ way', e.1 ≠ e'.1 ∧ up e.2 = up e'.2 ∧ label e.2 = label e'.2 := by
  induction h generalizing o' way' with
  | root =>
      cases h' with
      | root => exact absurd rfl hne
      | step => cases hsame
  | @step k n way _ _ ih =>
      cases h' with
      | root => cases hsame
      | @step k' n' way' _ h' =>
          obtain ⟨hlabel, hrest⟩ := List.cons.inj hsame
          by_cases hup : up n = up n'
          · refine ⟨_, List.mem_cons_self, _, List.mem_cons_self, fun hk => hne ?_, hup, hlabel⟩
            exact congrArg some hk
          · obtain ⟨e, he, e', he', hparts⟩ := ih h' hup hrest
            exact ⟨e, List.mem_cons_of_mem _ he, e', List.mem_cons_of_mem _ he', hparts⟩

end Climbs

end Store
