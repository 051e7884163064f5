/-
Ownpace/Store/Turns.lean

Two loops over a queue.

`inTurn` leaves every place of the queue to the key that has it, and fills the
places of a key with a list of its own, in turn.  `fill` takes from a queue while
there is room, in all and for each key.  Of one key it takes a front
(`filter_fill_prefix`), and how many it takes of each is decided by the keys alone
(`fill_keys`).
-/
import Mathlib.Algebra.Order.Ring.Int
import Mathlib.Logic.Function.Basic
import Ownpace.Store.Filed

namespace Store

variable {α κ : Type} [DecidableEq κ]

/-! ### Places taken in turn -/

/-- The places of a key, filled with its own list from where `taken` says. -/
def inTurn (key : α → κ) (groups : κ → List α) : List α → (κ → Nat) → List α
  | [], _ => []
  | a :: l, taken =>
    (groups (key a))[taken (key a)]?.toList ++
      inTurn key groups l (Function.update taken (key a) (taken (key a) + 1))

section Turns

variable {key : α → κ} {groups : κ → List α} {l : List α} {taken : κ → Nat}

/-- There is one place for each value of the list that is still to come. -/
def Fits (key : α → κ) (groups : κ → List α) (l : List α) (taken : κ → Nat) : Prop :=
  ∀ k, taken k + (l.filter fun a => key a = k).length = (groups k).length

theorem Fits.exists_next {a : α} (h : Fits key groups (a :: l) taken) :
    ∃ b, (groups (key a))[taken (key a)]? = some b ∧
      (groups (key a)).drop (taken (key a)) = b :: (groups (key a)).drop (taken (key a) + 1) := by
  have hk := h (key a)
  rw [List.filter_cons_of_pos (by exact decide_eq_true rfl), List.length_cons] at hk
  have hlt : taken (key a) < (groups (key a)).length := by omega
  exact ⟨_, List.getElem?_eq_getElem hlt, List.drop_eq_getElem_cons hlt⟩

theorem Fits.tail {a : α} (h : Fits key groups (a :: l) taken) :
    Fits key groups l (Function.update taken (key a) (taken (key a) + 1)) := by
  intro k
  have hk := h k
  by_cases hak : key a = k
  · subst hak
    rw [List.filter_cons_of_pos (by exact decide_eq_true rfl), List.length_cons] at hk
    rw [Function.update_self]
    omega
  · rw [List.filter_cons_of_neg (by simp [hak])] at hk
    rwa [Function.update_of_ne (Ne.symm hak)]

/-- Each place keeps its key. -/
theorem inTurn_keys (hkey : ∀ k, ∀ a ∈ groups k, key a = k) (h : Fits key groups l taken) :
    (inTurn key groups l taken).map key = l.map key := by
  induction l generalizing taken with
  | nil => rfl
  | cons a l ih =>
      obtain ⟨b, hb, -⟩ := h.exists_next
      rw [inTurn, hb, List.map_append, ih h.tail]
      show key b :: _ = _
      rw [hkey _ b (List.mem_of_getElem? hb)]
      rfl

/-- **The places of a key hold its own list**, in the order of the list. -/
theorem filter_inTurn (hkey : ∀ k, ∀ a ∈ groups k, key a = k) (h : Fits key groups l taken) (k : κ) :
    (inTurn key groups l taken).filter (fun a => key a = k) = (groups k).drop (taken k) := by
  induction l generalizing taken with
  | nil =>
      have hk := h k
      rw [List.filter_nil, List.length_nil] at hk
      exact (List.drop_eq_nil_of_le (by omega)).symm
  | cons a l ih =>
      obtain ⟨b, hb, hdrop⟩ := h.exists_next
      have hbk := hkey _ b (List.mem_of_getElem? hb)
      rw [inTurn, hb, List.filter_append, ih h.tail]
      show [b].filter _ ++ _ = _
      by_cases hak : key a = k
      · subst hak
        rw [List.filter_cons_of_pos (by exact decide_eq_true hbk), Function.update_self, hdrop]
        rfl
      · rw [List.filter_cons_of_neg (by simp [hbk, hak]), Function.update_of_ne (Ne.symm hak)]
        rfl

/-- Nothing is lost or doubled. -/
theorem inTurn_perm (hgroups : ∀ k, (groups k).Perm (l.filter fun a => key a = k)) :
    (inTurn key groups l fun _ => 0).Perm l := by
  have hkey (k : κ) : ∀ a ∈ groups k, key a = k := fun a ha =>
    of_decide_eq_true (List.mem_filter.mp ((hgroups k).mem_iff.mp ha)).2
  have hfits : Fits key groups l fun _ => 0 := by
    intro k
    show 0 + _ = _
    rw [Nat.zero_add, (hgroups k).length_eq]
  have hkeys := inTurn_keys hkey hfits
  have hmem : ∀ a ∈ l, key a ∈ (l.map key).eraseDups := fun a ha =>
    List.mem_eraseDups.mpr (List.mem_map.mpr ⟨a, ha, rfl⟩)
  have hmem' : ∀ a ∈ inTurn key groups l (fun _ => 0), key a ∈ (l.map key).eraseDups := by
    intro a ha
    rw [← hkeys]
    exact List.mem_eraseDups.mpr (List.mem_map.mpr ⟨a, ha, rfl⟩)
  have hnodup := nodup_eraseDups (l.map key)
  apply (flatMap_filter_perm key _ hnodup _ hmem').symm.trans
  apply List.Perm.trans _ (flatMap_filter_perm key _ hnodup l hmem)
  apply List.Perm.flatMap_left
  intro k _
  rw [filter_inTurn hkey hfits]
  exact hgroups k

end Turns

/-! ### Taking while there is room -/

/-- Take what there is room for, in all and for its key. -/
def fill (key : α → κ) (limit limitPerKey : Int) : List α → Int → (κ → Int) → List α
  | [], _, _ => []
  | a :: l, total, byKey =>
    if limit ≤ total then []
    else if limitPerKey ≤ byKey (key a) then fill key limit limitPerKey l total byKey
    else a :: fill key limit limitPerKey l (total + 1)
      (Function.update byKey (key a) (byKey (key a) + 1))

section Fill

variable {key : α → κ} {limit limitPerKey : Int} {l : List α} {total : Int} {byKey : κ → Int}

theorem fill_sublist : (fill key limit limitPerKey l total byKey).Sublist l := by
  induction l generalizing total byKey with
  | nil => exact List.Sublist.refl _
  | cons a l ih =>
      rw [fill]
      split
      · exact List.nil_sublist _
      · split
        · exact ih.cons a
        · exact ih.cons_cons a

/-- No more than there is room for. -/
theorem fill_length_le :
    total + (fill key limit limitPerKey l total byKey).length ≤ max total limit := by
  induction l generalizing total byKey with
  | nil => exact (add_zero total).trans_le (le_max_left _ _)
  | cons a l ih =>
      rw [fill]
      split
      · exact (add_zero total).trans_le (le_max_left _ _)
      · split
        · exact ih
        · have := @ih (total + 1) (Function.update byKey (key a) (byKey (key a) + 1))
          rw [List.length_cons, Nat.cast_add, Nat.cast_one]
          omega

/-- No more of a key than there is room for. -/
theorem fill_count_le (k : κ) :
    byKey k + ((fill key limit limitPerKey l total byKey).filter fun a => key a = k).length ≤
      max (byKey k) limitPerKey := by
  induction l generalizing total byKey with
  | nil => exact (add_zero (byKey k)).trans_le (le_max_left _ _)
  | cons a l ih =>
      rw [fill]
      split
      · exact (add_zero (byKey k)).trans_le (le_max_left _ _)
      · split
        · exact ih
        · have := @ih (total + 1) (Function.update byKey (key a) (byKey (key a) + 1))
          by_cases hak : key a = k
          · subst hak
            rw [Function.update_self] at this
            rw [List.filter_cons_of_pos (by exact decide_eq_true rfl), List.length_cons, Nat.cast_add,
              Nat.cast_one]
            omega
          · rw [Function.update_of_ne (Ne.symm hak)] at this
            rwa [List.filter_cons_of_neg (by simp [hak])]

/-- **What is not taken had no room**, in all or for its key. -/
theorem full_of_not_mem_fill {a : α} (ha : a ∈ l)
    (hout : a ∉ fill key limit limitPerKey l total byKey) :
    limit ≤ total + (fill key limit limitPerKey l total byKey).length ∨
      limitPerKey ≤ byKey (key a) +
        ((fill key limit limitPerKey l total byKey).filter fun b => key b = key a).length := by
  induction l generalizing total byKey with
  | nil => exact absurd ha List.not_mem_nil
  | cons b l ih =>
      rw [fill] at hout ⊢
      by_cases hfull : limit ≤ total
      · exact .inl (by rw [if_pos hfull]; exact hfull.trans_eq (add_zero total).symm)
      · rw [if_neg hfull] at hout ⊢
        by_cases hown : limitPerKey ≤ byKey (key b)
        · rw [if_pos hown] at hout ⊢
          rcases List.mem_cons.mp ha with rfl | ha
          · exact .inr (by omega)
          · exact ih ha hout
        · rw [if_neg hown] at hout ⊢
          obtain ⟨hne, hout⟩ := not_or.mp (mt List.mem_cons.mpr hout)
          have ha := (List.mem_cons.mp ha).resolve_left hne
          rw [List.length_cons, Nat.cast_add, Nat.cast_one]
          rcases ih ha hout with h | h
          · exact .inl (by omega)
          · refine .inr ?_
            by_cases hab : key b = key a
            · rw [← hab, Function.update_self] at h
              rw [List.filter_cons_of_pos (by exact decide_eq_true hab), List.length_cons,
                Nat.cast_add, Nat.cast_one, ← hab]
              omega
            · rw [Function.update_of_ne (Ne.symm hab)] at h
              rwa [List.filter_cons_of_neg (by simp [hab])]

theorem fill_of_own_full {k : κ} (h : limitPerKey ≤ byKey k) :
    (fill key limit limitPerKey l total byKey).filter (fun a => key a = k) = [] := by
  have hle := @fill_count_le _ _ _ key limit limitPerKey l total byKey k
  rw [max_eq_left h] at hle
  exact List.eq_nil_of_length_eq_zero (by omega)

/-- **Of one key, a front is taken.** -/
theorem filter_fill_prefix (k : κ) :
    (fill key limit limitPerKey l total byKey).filter (fun a => key a = k) <+:
      l.filter fun a => key a = k := by
  induction l generalizing total byKey with
  | nil => exact List.prefix_rfl
  | cons a l ih =>
      rw [fill]
      split
      · exact List.nil_prefix
      · split
        · next hown =>
          by_cases hak : key a = k
          · -- its key is full, and stays so
            rw [fill_of_own_full (hak ▸ hown)]
            exact List.nil_prefix
          · rw [List.filter_cons_of_neg (by simp [hak])]
            exact ih
        · by_cases hak : key a = k
          · rw [List.filter_cons_of_pos (by exact decide_eq_true hak),
              List.filter_cons_of_pos (by exact decide_eq_true hak)]
            exact (List.prefix_cons_inj a).mpr ih
          · rw [List.filter_cons_of_neg (by simp [hak]), List.filter_cons_of_neg (by simp [hak])]
            exact ih

/-- **Which keys are taken, and how often, is decided by the keys.** -/
theorem fill_keys {l' : List α} (h : l.map key = l'.map key) :
    (fill key limit limitPerKey l total byKey).map key =
      (fill key limit limitPerKey l' total byKey).map key := by
  induction l generalizing l' total byKey with
  | nil =>
      rw [List.map_eq_nil_iff.mp h.symm]
  | cons a l ih =>
      obtain ⟨a', l', rfl, ha, hl⟩ := List.map_eq_cons_iff.mp h.symm
      rw [fill, fill, ha]
      split
      · rfl
      · split
        · exact ih hl.symm
        · rw [List.map_cons, List.map_cons, ha, ih hl.symm]

end Fill

end Store
