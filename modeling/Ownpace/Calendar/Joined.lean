/-
Ownpace/Calendar/Joined.lean

Texts sorted by their code units and joined by line feeds.

Sorting forgets the order and nothing else (`sorted_eq_iff`).  A join forgets where
one text ends and the next begins, unless the pieces tell: when each text begins
with a marked piece, and no piece behind its first one is marked, the texts are
read back from their join (`joined_inj`).
-/
import Mathlib.Algebra.GroupWithZero.Nat
import Mathlib.Data.List.Sort
import Ownpace.Calendar.Fingerprint

namespace Ownpace.Calendar

/-! ### Sorting -/

theorem codeUnits_cons (c : Char) (s : List Char) :
    codeUnits (c :: s) = (if c.toNat < 0x10000 then [c.toNat]
      else [0xd800 + (c.toNat - 0x10000) / 1024, 0xdc00 + (c.toNat - 0x10000) % 1024]) ++
      codeUnits s := List.flatMap_cons

/-- No character is a surrogate. -/
theorem not_surrogate (c : Char) :
    ¬ (0xd800 ≤ c.toNat ∧ c.toNat < 0xe000) ∧ c.toNat < 0x110000 := by
  have hvalid : c.toNat < 0xd800 ∨ 0xdfff < c.toNat ∧ c.toNat < 0x110000 := c.valid
  omega

theorem codeUnits_injective : Function.Injective codeUnits := by
  intro s
  induction s with
  | nil =>
      intro t h
      cases t with
      | nil => rfl
      | cons d t =>
          rw [codeUnits_cons] at h
          split at h <;> cases h
  | cons c s ih =>
      intro t h
      cases t with
      | nil =>
          rw [codeUnits_cons] at h
          split at h <;> cases h
      | cons d t =>
          have hc := not_surrogate c
          have hd := not_surrogate d
          have hcd : c.toNat = d.toNat ∧ codeUnits s = codeUnits t := by
            rw [codeUnits_cons, codeUnits_cons] at h
            by_cases hc' : c.toNat < 0x10000
            · by_cases hd' : d.toNat < 0x10000
              · rw [if_pos hc', if_pos hd'] at h
                exact List.cons.inj h
              · rw [if_pos hc', if_neg hd'] at h
                have := (List.cons.inj h).1
                omega
            · by_cases hd' : d.toNat < 0x10000
              · rw [if_neg hc', if_pos hd'] at h
                have := (List.cons.inj h).1
                omega
              · rw [if_neg hc', if_neg hd'] at h
                obtain ⟨hhigh, h⟩ := List.cons.inj h
                obtain ⟨hlow, h⟩ := List.cons.inj h
                exact ⟨by omega, h⟩
          rw [Char.toNat_inj.mp hcd.1, ih hcd.2]

theorem sorted_perm (ls : List (List Char)) : (sorted ls).Perm ls := List.mergeSort_perm ls _

theorem sorted_eq_iff {ls ms : List (List Char)} : sorted ls = sorted ms ↔ ls.Perm ms := by
  constructor
  · intro h
    exact (sorted_perm ls).symm.trans (h ▸ sorted_perm ms)
  · intro h
    have hsorted (l : List (List Char)) :
        (sorted l).Pairwise fun a b => decide (codeUnits a ≤ codeUnits b) = true := by
      apply List.pairwise_mergeSort
      · intro a b c hab hbc
        rw [decide_eq_true_eq] at hab hbc ⊢
        exact le_trans hab hbc
      · intro a b
        rw [Bool.or_eq_true, decide_eq_true_eq, decide_eq_true_eq]
        exact le_total _ _
    apply List.Perm.eq_of_pairwise _ (hsorted ls) (hsorted ms)
    · exact ((sorted_perm ls).trans h).trans (sorted_perm ms).symm
    · intro a b _ _ hab hba
      rw [decide_eq_true_eq] at hab hba
      exact codeUnits_injective (le_antisymm hab hba)

/-! ### Blocks -/

section Blocks

variable {α : Type} {marked : α → Bool}

/-- One marked element, and unmarked ones behind it. -/
def Block (marked : α → Bool) : List α → Prop
  | [] => False
  | a :: rest => marked a = true ∧ ∀ b ∈ rest, marked b = false

theorem takeWhile_unmarked {rest : List α} (hrest : ∀ b ∈ rest, marked b = false)
    {bs : List (List α)} (hbs : ∀ b ∈ bs, Block marked b) :
    (rest ++ bs.flatten).takeWhile (fun b => !marked b) = rest := by
  rw [List.takeWhile_append_of_pos (by intro b hb; rw [hrest b hb]; rfl)]
  cases bs with
  | nil => exact List.append_nil rest
  | cons b bs =>
      have hb := hbs b List.mem_cons_self
      cases b with
      | nil => exact hb.elim
      | cons a b =>
          rw [List.flatten_cons, List.cons_append,
            List.takeWhile_cons_of_neg (by rw [hb.1]; decide), List.append_nil]

/-- Blocks are told apart in their row. -/
theorem flatten_blocks_inj {as bs : List (List α)} (ha : ∀ a ∈ as, Block marked a)
    (hb : ∀ b ∈ bs, Block marked b) (h : as.flatten = bs.flatten) : as = bs := by
  induction as generalizing bs with
  | nil =>
      cases bs with
      | nil => rfl
      | cons b bs =>
          have hblock := hb b List.mem_cons_self
          cases b with
          | nil => exact hblock.elim
          | cons x b => cases h
  | cons a as ih =>
      obtain ⟨ha, has⟩ := List.forall_mem_cons.mp ha
      cases a with
      | nil => exact ha.elim
      | cons x a =>
          cases bs with
          | nil => cases h
          | cons b bs =>
              obtain ⟨hb, hbs⟩ := List.forall_mem_cons.mp hb
              cases b with
              | nil => exact hb.elim
              | cons y b =>
                  obtain ⟨hxy, htail⟩ : x = y ∧ a ++ as.flatten = b ++ bs.flatten := List.cons.inj h
                  have hcut : a = b := by
                    rw [← takeWhile_unmarked ha.2 has, ← takeWhile_unmarked hb.2 hbs, htail]
                  rw [hxy, hcut]
                  rw [hcut] at htail
                  rw [ih has hbs (List.append_cancel_left htail)]

end Blocks

/-! ### Joining -/

theorem splitOn_joined {ls : List (List Char)} (h : ls ≠ []) :
    (['\n'].intercalate ls).splitOn '\n' = ls.flatMap fun l => l.splitOn '\n' := by
  induction ls with
  | nil => exact absurd rfl h
  | cons l ls ih =>
      cases ls with
      | nil => simp
      | cons m ls =>
          have hjoin : ['\n'].intercalate (l :: m :: ls) = l ++ '\n' :: ['\n'].intercalate (m :: ls) := by
            simp
          rw [hjoin, List.splitOn_append_cons_self, ih (List.cons_ne_nil _ _)]
          rfl

/-- Texts whose pieces tell where each begins are read back from their join. -/
theorem joined_inj {marked : List Char → Bool} {ls ms : List (List Char)}
    (hl : ∀ l ∈ ls, Block marked (l.splitOn '\n')) (hm : ∀ m ∈ ms, Block marked (m.splitOn '\n'))
    (hnil : marked [] = false) (h : ['\n'].intercalate ls = ['\n'].intercalate ms) : ls = ms := by
  have hne {ls : List (List Char)} (hl : ∀ l ∈ ls, Block marked (l.splitOn '\n'))
      (h : ['\n'].intercalate ls = []) : ls = [] := by
    by_contra hls
    have hpieces := splitOn_joined hls
    rw [h, List.splitOn_nil] at hpieces
    cases ls with
    | nil => exact hls rfl
    | cons l ls =>
        have hblock := hl l List.mem_cons_self
        rw [List.flatMap_cons] at hpieces
        cases hsplit : l.splitOn '\n' with
        | nil => exact List.splitOn_ne_nil _ _ hsplit
        | cons p ps =>
            rw [hsplit] at hpieces hblock
            obtain rfl : [] = p := (List.cons.inj hpieces).1
            exact absurd hblock.1 (by rw [hnil]; decide)
  by_cases hls : ls = []
  · rw [hls] at h ⊢
    exact (hne hm h.symm).symm
  · by_cases hms : ms = []
    · rw [hms] at h ⊢
      exact hne hl h
    · have hflat : (ls.map fun l => l.splitOn '\n').flatten = (ms.map fun l => l.splitOn '\n').flatten := by
        rw [← List.flatMap_def, ← List.flatMap_def, ← splitOn_joined hls, ← splitOn_joined hms, h]
      have hmaps := flatten_blocks_inj (List.forall_mem_map.mpr hl) (List.forall_mem_map.mpr hm) hflat
      refine List.map_injective_iff.mpr (fun a b hab => ?_) hmaps
      have hback : ['\n'].intercalate (a.splitOn '\n') = ['\n'].intercalate (b.splitOn '\n') := by
        rw [show a.splitOn '\n' = b.splitOn '\n' from hab]
      rwa [List.intercalate_splitOn, List.intercalate_splitOn] at hback

/-- How long a join is, when each text counts with one character more. -/
theorem length_joined {ls : List (List Char)} (h : ls ≠ []) :
    (['\n'].intercalate ls).length + 1 = (ls.map fun l => l.length + 1).sum := by
  induction ls with
  | nil => exact absurd rfl h
  | cons l ls ih =>
      cases ls with
      | nil => simp
      | cons m ls =>
          have hrest := ih (List.cons_ne_nil _ _)
          have hjoin : ['\n'].intercalate (l :: m :: ls) = l ++ '\n' :: ['\n'].intercalate (m :: ls) := by
            simp
          rw [hjoin, List.map_cons, List.sum_cons, ← hrest, List.length_append, List.length_cons]
          omega

end Ownpace.Calendar
