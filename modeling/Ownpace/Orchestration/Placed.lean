/-
Ownpace/Orchestration/Placed.lean

What the loop of `planDomainLanes` keeps.

A host is numbered with the lane that holds its data types (`Numbered`), through
every merge and the renumbering after it.  The data types of a lane are linked, and
the first of all and those without a host are in lane 0: `Placed`, which each step
keeps (`Placed.place`).
-/
import Ownpace.Orchestration.Lanes

namespace Ownpace.Orchestration

open Store

/-! ### Lists -/

theorem exists_two {α : Type} {l : List α} {i j : Nat} (hij : i < j) (hj : j < l.length) :
    ∃ l₁ a l₂ b l₃, l = l₁ ++ a :: (l₂ ++ b :: l₃) ∧ l₁.length = i ∧ l₁.length + (l₂.length + 1) = j := by
  refine ⟨l.take i, l[i], (l.drop (i + 1)).take (j - i - 1), l[j], l.drop (j + 1), ?_, ?_, ?_⟩
  · have hdrop : (l.drop (i + 1)).take (j - i - 1) ++ l[j] :: l.drop (j + 1) = l.drop (i + 1) := by
      rw [← List.drop_eq_getElem_cons hj]
      conv_rhs => rw [← List.take_append_drop (j - i - 1) (l.drop (i + 1))]
      rw [List.drop_drop]
      congr 2
      omega
    rw [hdrop, ← List.drop_eq_getElem_cons]
    simp
  · simp; omega
  · simp; omega

theorem modify_at {α : Type} (f : α → α) (l₁ : List α) (a : α) (l : List α) :
    (l₁ ++ a :: l).modify l₁.length f = l₁ ++ f a :: l := by
  induction l₁ with
  | nil => rfl
  | cons b l₁ ih => simpa using ih

theorem eraseIdx_at {α : Type} (l₁ : List α) (a : α) (l : List α) :
    (l₁ ++ a :: l).eraseIdx l₁.length = l₁ ++ l := by
  rw [List.eraseIdx_append_of_length_le (Nat.le_refl _)]
  simp

theorem mergeInto_split {s : Lanes} {l₁ l₂ l₃ : List (List DiscoveryDomain)}
    {a b : List DiscoveryDomain} (hs : s.lanes = l₁ ++ a :: (l₂ ++ b :: l₃)) :
    (s.mergeInto l₁.length (l₁.length + (l₂.length + 1))).lanes = l₁ ++ (a ++ b) :: (l₂ ++ l₃) := by
  have hb : s.lanes.getD (l₁.length + (l₂.length + 1)) [] = b := by simp [hs]
  have herase := eraseIdx_at (l₁ ++ (a ++ b) :: l₂) b l₃
  rw [Lanes.mergeInto]
  dsimp only
  rw [hb, hs, modify_at]
  simpa using herase

/-! ### What the loop keeps -/

variable (hosts : DiscoveryDomain → List String) (domains : List DiscoveryDomain)

/-- Without a host, or the first of all. -/
def Home (a : DiscoveryDomain) : Prop := hosts a = [] ∨ domains.head? = some a

/-- Two that are kept in one lane. -/
def Touch (a b : DiscoveryDomain) : Prop :=
  Share hosts a b ∨ Home hosts domains a ∧ Home hosts domains b

/-- A host has the number of the lane that holds its data types. -/
def Numbered (s : Lanes) : Prop :=
  ∀ host idx, s.laneOfHost host = some idx ↔
    ∃ lane, s.lanes[idx]? = some lane ∧ ∃ a ∈ lane, host ∈ hosts a

/-- What the loop keeps, after these data types. -/
structure Placed (seen : List DiscoveryDomain) (s : Lanes) : Prop where
  once : s.lanes.flatten.Perm seen
  filled : ∀ lane ∈ s.lanes, lane ≠ []
  numbered : Numbered hosts s
  linked : ∀ lane ∈ s.lanes, ∀ a ∈ lane, ∀ b ∈ lane, Chain domains (Touch hosts domains) a b
  home : ∀ a ∈ seen, Home hosts domains a → ∃ lane, s.lanes[0]? = some lane ∧ a ∈ lane

variable {hosts domains} {seen : List DiscoveryDomain} {s : Lanes} {lane other : Nat}

theorem Share.symm {a b : DiscoveryDomain} (h : Share hosts a b) : Share hosts b a := by
  obtain ⟨host, ha, hb⟩ := h
  exact ⟨host, hb, ha⟩

theorem Touch.symm (a b : DiscoveryDomain) (h : Touch hosts domains a b) : Touch hosts domains b a :=
  h.imp Share.symm And.symm

theorem getElem?_mergeInto (hlt : lane < other) (i : Nat) :
    (s.mergeInto lane other).lanes[i]? = s.lanes[if i < other then i else i + 1]?.map fun A =>
      if i = lane then A ++ s.lanes.getD other [] else A := by
  rw [Lanes.mergeInto]
  dsimp only
  rw [List.getElem?_eraseIdx]
  by_cases hi : i < other
  · rw [if_pos hi, if_pos hi, List.getElem?_modify]
    by_cases h : lane = i
    · simp [h]
    · simp [h, Ne.symm h]
  · rw [if_neg hi, if_neg hi, List.getElem?_modify]
    have hne : lane ≠ i + 1 := by omega
    have hne' : i ≠ lane := by omega
    simp [hne, hne']

theorem Numbered.mergeInto (h : Numbered hosts s) (hlt : lane < other)
    (hother : other < s.lanes.length) : Numbered hosts (s.mergeInto lane other) := by
  intro host i
  have hB : s.lanes[other]? = some (s.lanes.getD other []) := by
    simp [List.getD_eq_getElem?_getD, List.getElem?_eq_getElem hother]
  have hmap : (s.mergeInto lane other).laneOfHost host = some i ↔ ∃ j, s.laneOfHost host = some j ∧
      (if j = other then lane else if j > other then j - 1 else j) = i := by
    rw [Lanes.mergeInto]
    exact Option.map_eq_some_iff
  rw [hmap]
  constructor
  · rintro ⟨j, hj, rfl⟩
    obtain ⟨A, hA, a, ha, hhost⟩ := (h host j).mp hj
    by_cases hjo : j = other
    · obtain ⟨C, hC⟩ : ∃ C, s.lanes[lane]? = some C :=
        ⟨_, List.getElem?_eq_getElem (hlt.trans hother)⟩
      refine ⟨C ++ s.lanes.getD other [], ?_, a, ?_, hhost⟩
      · rw [if_pos hjo, getElem?_mergeInto hlt, if_pos hlt, hC]
        simp
      · rw [hjo, hB] at hA
        exact List.mem_append_right _ (Option.some.inj hA ▸ ha)
    · obtain ⟨k, hk⟩ : ∃ k, k = if j > other then j - 1 else j := ⟨_, rfl⟩
      have hback : (if k < other then k else k + 1) = j := by
        subst hk
        split_ifs <;> omega
      rw [if_neg hjo, ← hk, getElem?_mergeInto hlt, hback, hA]
      refine ⟨_, rfl, a, ?_, hhost⟩
      dsimp only
      split
      · exact List.mem_append_left _ ha
      · exact ha
  · rintro ⟨A, hA, a, ha, hhost⟩
    rw [getElem?_mergeInto hlt] at hA
    obtain ⟨C, hC, rfl⟩ := Option.map_eq_some_iff.mp hA
    by_cases hi : i = lane
    · subst hi
      rw [if_pos rfl] at ha
      rw [if_pos hlt] at hC
      rcases List.mem_append.mp ha with ha | ha
      · exact ⟨i, (h host i).mpr ⟨C, hC, a, ha, hhost⟩, by rw [if_neg (by omega), if_neg (by omega)]⟩
      · exact ⟨other, (h host other).mpr ⟨_, hB, a, ha, hhost⟩, if_pos rfl⟩
    · rw [if_neg hi] at ha
      refine ⟨_, (h host _).mpr ⟨C, hC, a, ha, hhost⟩, ?_⟩
      split_ifs <;> omega

/-- One lane goes into another that it is linked with. -/
theorem Placed.mergeInto (h : Placed hosts domains seen s) (hlt : lane < other)
    (hother : other < s.lanes.length)
    (hlink : ∀ A B, s.lanes[lane]? = some A → s.lanes[other]? = some B →
      ∃ a ∈ A, ∃ b ∈ B, Chain domains (Touch hosts domains) a b) :
    Placed hosts domains seen (s.mergeInto lane other) := by
  obtain ⟨l₁, A, l₂, B, l₃, hs, rfl, rfl⟩ := exists_two hlt hother
  have hmerged := mergeInto_split hs
  have hmem : ∀ {L}, L ∈ l₁ ∨ L = A ∨ L ∈ l₂ ∨ L = B ∨ L ∈ l₃ → L ∈ s.lanes := by
    intro L hL
    rw [hs]
    simpa using hL
  have hA : s.lanes[l₁.length]? = some A := by simp [hs]
  have hB : s.lanes[l₁.length + (l₂.length + 1)]? = some B := by simp [hs]
  constructor
  · rw [hmerged]
    apply List.Perm.trans _ h.once
    rw [hs]
    simp only [List.flatten_append, List.flatten_cons, List.append_assoc]
    apply List.Perm.append_left
    apply List.Perm.append_left
    rw [← List.append_assoc, ← List.append_assoc]
    exact List.perm_append_comm.append_right _
  · intro L hL
    rw [hmerged] at hL
    rcases List.mem_append.mp hL with hL | hL
    · exact h.filled L (hmem (.inl hL))
    · rcases List.mem_cons.mp hL with rfl | hL
      · exact fun hnil => h.filled A (hmem (.inr (.inl rfl))) (List.append_eq_nil_iff.mp hnil).1
      · rcases List.mem_append.mp hL with hL | hL
        · exact h.filled L (hmem (.inr (.inr (.inl hL))))
        · exact h.filled L (hmem (.inr (.inr (.inr (.inr hL)))))
  · exact h.numbered.mergeInto hlt hother
  · intro L hL
    rw [hmerged] at hL
    rcases List.mem_append.mp hL with hL | hL
    · exact h.linked L (hmem (.inl hL))
    · rcases List.mem_cons.mp hL with rfl | hL
      · obtain ⟨a, ha, b, hb, hab⟩ := hlink A B hA hB
        have hAA := h.linked A (hmem (.inr (.inl rfl)))
        have hBB := h.linked B (hmem (.inr (.inr (.inr (.inl rfl)))))
        have hcross : ∀ x ∈ A, ∀ y ∈ B, Chain domains (Touch hosts domains) x y :=
          fun x hx y hy => ((hAA x hx a ha).trans hab).trans (hBB b hb y hy)
        intro x hx y hy
        rcases List.mem_append.mp hx with hx | hx <;> rcases List.mem_append.mp hy with hy | hy
        · exact hAA x hx y hy
        · exact hcross x hx y hy
        · exact (hcross y hy x hx).symm Touch.symm
        · exact hBB x hx y hy
      · rcases List.mem_append.mp hL with hL | hL
        · exact h.linked L (hmem (.inr (.inr (.inl hL))))
        · exact h.linked L (hmem (.inr (.inr (.inr (.inr hL)))))
  · intro a ha hhome
    obtain ⟨L, hL, haL⟩ := h.home a ha hhome
    rw [getElem?_mergeInto hlt, if_pos (by omega), hL]
    refine ⟨_, rfl, ?_⟩
    dsimp only
    split
    · exact List.mem_append_left _ haL
    · exact haL

theorem Placed.mem_domains (h : Placed hosts domains seen s) (hseen : seen ⊆ domains)
    {L : List DiscoveryDomain} (hL : L ∈ s.lanes) {a : DiscoveryDomain} (ha : a ∈ L) : a ∈ domains :=
  hseen (h.once.mem_iff.mp (List.mem_flatten.mpr ⟨L, hL, ha⟩))

/-- All the lanes that claim a host of `new` become the first of them. -/
theorem Placed.mergeAll {new : DiscoveryDomain} (hnew : new ∈ domains) (hseen : seen ⊆ domains)
    {others : List Nat} (h : Placed hosts domains seen s) (hdesc : others.Pairwise (· > ·))
    (hlt : ∀ other ∈ others, lane < other)
    (hclaims : ∀ i, i = lane ∨ i ∈ others ↔ ∃ host ∈ hosts new, s.laneOfHost host = some i) :
    Placed hosts domains seen (others.foldl (Lanes.mergeInto lane) s) ∧
      ∀ i, i = lane ↔ ∃ host ∈ hosts new,
        (others.foldl (Lanes.mergeInto lane) s).laneOfHost host = some i := by
  induction others generalizing s with
  | nil => exact ⟨h, fun i => (hclaims i).symm.trans (by simp) |>.symm⟩
  | cons other others ih =>
      obtain ⟨hbelow, hdesc⟩ := List.pairwise_cons.mp hdesc
      have hlane := hlt other List.mem_cons_self
      have hclaimed (i : Nat) (hi : i = lane ∨ i ∈ other :: others) :
          ∃ L, s.lanes[i]? = some L ∧ ∃ a ∈ L, Share hosts a new := by
        obtain ⟨host, hhost, hi⟩ := (hclaims i).mp hi
        obtain ⟨L, hL, a, ha, hah⟩ := (h.numbered host i).mp hi
        exact ⟨L, hL, a, ha, host, hah, hhost⟩
      obtain ⟨B, hB, b, hb, hbnew⟩ := hclaimed other (.inr List.mem_cons_self)
      obtain ⟨A, hA, a, ha, hanew⟩ := hclaimed lane (.inl rfl)
      have hin {i : Nat} {L : List DiscoveryDomain} (hL : s.lanes[i]? = some L) {a : DiscoveryDomain}
          (ha : a ∈ L) : a ∈ domains := h.mem_domains hseen (List.mem_of_getElem? hL) ha
      have hmerged : Placed hosts domains seen (s.mergeInto lane other) := by
        apply h.mergeInto hlane (List.getElem?_eq_some_iff.mp hB).1
        intro A' B' hA' hB'
        obtain rfl := Option.some.inj (hA.symm.trans hA')
        obtain rfl := Option.some.inj (hB.symm.trans hB')
        exact ⟨a, ha, b, hb, (Chain.single (hin hA ha) hnew (.inl hanew)).trans
          (Chain.single hnew (hin hB hb) (.inl hbnew.symm))⟩
      apply ih hmerged hdesc fun o ho => hlt o (List.mem_cons_of_mem _ ho)
      intro i
      have hmap (host : String) : (s.mergeInto lane other).laneOfHost host = some i ↔
          ∃ j, s.laneOfHost host = some j ∧
            (if j = other then lane else if j > other then j - 1 else j) = i := by
        rw [Lanes.mergeInto]
        exact Option.map_eq_some_iff
      simp only [hmap]
      constructor
      · intro hi
        have hio : i ≠ other ∧ ¬ i > other := by
          rcases hi with rfl | hi
          · omega
          · have := hbelow i hi
            omega
        obtain ⟨host, hhost, hsome⟩ := (hclaims i).mp (hi.imp_right (List.mem_cons_of_mem _))
        exact ⟨host, hhost, i, hsome, by rw [if_neg hio.1, if_neg hio.2]⟩
      · rintro ⟨host, hhost, j, hsome, rfl⟩
        rcases (hclaims j).mpr ⟨host, hhost, hsome⟩ with rfl | hj
        · exact .inl (by rw [if_neg (by omega), if_neg (by omega)])
        · rcases List.mem_cons.mp hj with rfl | hj
          · exact .inl (if_pos rfl)
          · have := hbelow j hj
            exact .inr (by rwa [if_neg (by omega), if_neg (by omega)])

variable {new : DiscoveryDomain}

/-- A lane of its own. -/
theorem Placed.open (h : Placed hosts domains seen s)
    (hclaims : ∀ host ∈ hosts new, s.laneOfHost host = none)
    (hhome : Home hosts domains new → s.lanes = []) :
    Placed hosts domains (seen ++ [new]) (s.opened.push (hosts new) s.lanes.length new) := by
  have hlanes : (s.opened.push (hosts new) s.lanes.length new).lanes = s.lanes ++ [[new]] :=
    modify_at _ s.lanes [] []
  constructor
  · rw [hlanes, List.flatten_append]
    exact h.once.append_right _
  · intro L hL
    rw [hlanes] at hL
    rcases List.mem_append.mp hL with hL | hL
    · exact h.filled L hL
    · obtain rfl := List.mem_singleton.mp hL
      exact List.cons_ne_nil _ _
  · intro host i
    have hhost : (s.opened.push (hosts new) s.lanes.length new).laneOfHost host =
        if (hosts new).contains host then some s.lanes.length else s.laneOfHost host := rfl
    rw [hhost, hlanes]
    by_cases hmem : host ∈ hosts new
    · rw [if_pos (List.contains_iff_mem.mpr hmem)]
      constructor
      · intro hi
        obtain rfl := Option.some.inj hi
        exact ⟨[new], by simp, new, List.mem_cons_self, hmem⟩
      · rintro ⟨L, hL, a, ha, hah⟩
        have hi : ¬ i < s.lanes.length := by
          intro hi
          rw [List.getElem?_append_left hi] at hL
          have := (h.numbered host i).mpr ⟨L, hL, a, ha, hah⟩
          rw [hclaims host hmem] at this
          cases this
        have hle := (List.getElem?_eq_some_iff.mp hL).1
        rw [List.length_append, List.length_singleton] at hle
        exact congrArg some (by omega)
    · rw [if_neg (mt List.contains_iff_mem.mp hmem), h.numbered host i]
      constructor
      · rintro ⟨L, hL, hex⟩
        exact ⟨L, by rw [List.getElem?_append_left (List.getElem?_eq_some_iff.mp hL).1, hL], hex⟩
      · rintro ⟨L, hL, a, ha, hah⟩
        rcases Nat.lt_or_ge i s.lanes.length with hi | hi
        · rw [List.getElem?_append_left hi] at hL
          exact ⟨L, hL, a, ha, hah⟩
        · rw [List.getElem?_append_right hi] at hL
          obtain rfl := List.mem_singleton.mp (List.mem_of_getElem? hL)
          obtain rfl := List.mem_singleton.mp ha
          exact absurd hah hmem
  · intro L hL
    rw [hlanes] at hL
    rcases List.mem_append.mp hL with hL | hL
    · exact h.linked L hL
    · obtain rfl := List.mem_singleton.mp hL
      intro a ha b hb
      obtain rfl := List.mem_singleton.mp ha
      obtain rfl := List.mem_singleton.mp hb
      exact .refl _
  · intro a ha hhome'
    rw [hlanes]
    rcases List.mem_append.mp ha with ha | ha
    · obtain ⟨L, hL, haL⟩ := h.home a ha hhome'
      exact ⟨L, by rw [List.getElem?_append_left (List.getElem?_eq_some_iff.mp hL).1, hL], haL⟩
    · obtain rfl := List.mem_singleton.mp ha
      rw [hhome hhome']
      exact ⟨[a], rfl, List.mem_cons_self⟩

/-- A lane it is linked with. -/
theorem Placed.push (h : Placed hosts domains seen s) {A : List DiscoveryDomain}
    (hA : s.lanes[lane]? = some A)
    (hclaims : ∀ i, ∀ host ∈ hosts new, s.laneOfHost host = some i → i = lane)
    (hlink : ∃ a ∈ A, Chain domains (Touch hosts domains) a new)
    (hhome : Home hosts domains new → lane = 0) :
    Placed hosts domains (seen ++ [new]) (s.push (hosts new) lane new) := by
  obtain ⟨hlane, hget⟩ := List.getElem?_eq_some_iff.mp hA
  have hsplit : s.lanes = s.lanes.take lane ++ A :: s.lanes.drop (lane + 1) := by
    rw [← hget, ← List.drop_eq_getElem_cons, List.take_append_drop]
  have hlanes : (s.push (hosts new) lane new).lanes =
      s.lanes.take lane ++ (A ++ [new]) :: s.lanes.drop (lane + 1) := by
    have hlen : (s.lanes.take lane).length = lane := by simp; omega
    have hmodify := modify_at (· ++ [new]) (s.lanes.take lane) A (s.lanes.drop (lane + 1))
    rw [hlen, ← hsplit] at hmodify
    exact hmodify
  have hmem : ∀ {L}, L ∈ s.lanes.take lane ∨ L = A ∨ L ∈ s.lanes.drop (lane + 1) → L ∈ s.lanes := by
    intro L hL
    rw [hsplit]
    simpa using hL
  have hnth (i : Nat) : (s.push (hosts new) lane new).lanes[i]? =
      s.lanes[i]?.map fun L => if lane = i then L ++ [new] else L := by
    rw [Lanes.push]
    exact List.getElem?_modify _ _ _ _
  constructor
  · rw [hlanes]
    have honce := h.once
    rw [hsplit] at honce
    simp only [List.flatten_append, List.flatten_cons, List.append_assoc] at honce ⊢
    refine List.Perm.trans ?_ (honce.append_right [new])
    simp only [List.append_assoc]
    apply List.Perm.append_left
    apply List.Perm.append_left
    exact List.perm_append_comm
  · intro L hL
    rw [hlanes] at hL
    rcases List.mem_append.mp hL with hL | hL
    · exact h.filled L (hmem (.inl hL))
    · rcases List.mem_cons.mp hL with rfl | hL
      · simp
      · exact h.filled L (hmem (.inr (.inr hL)))
  · intro host i
    have hhost : (s.push (hosts new) lane new).laneOfHost host =
        if (hosts new).contains host then some lane else s.laneOfHost host := rfl
    rw [hhost, hnth]
    by_cases hnew : host ∈ hosts new
    · rw [if_pos (List.contains_iff_mem.mpr hnew)]
      constructor
      · intro hi
        obtain rfl := Option.some.inj hi
        refine ⟨A ++ [new], ?_, new, by simp, hnew⟩
        simp [hA]
      · rintro ⟨L, hL, a, ha, hah⟩
        obtain ⟨B, hB, rfl⟩ := Option.map_eq_some_iff.mp hL
        by_cases hi : lane = i
        · rw [hi]
        · rw [if_neg hi] at ha
          exact congrArg some (hclaims i host hnew ((h.numbered host i).mpr ⟨B, hB, a, ha, hah⟩)).symm
    · rw [if_neg (mt List.contains_iff_mem.mp hnew), h.numbered host i]
      constructor
      · rintro ⟨L, hL, a, ha, hah⟩
        refine ⟨_, by rw [hL]; rfl, a, ?_, hah⟩
        split
        · exact List.mem_append_left _ ha
        · exact ha
      · rintro ⟨L, hL, a, ha, hah⟩
        obtain ⟨B, hB, rfl⟩ := Option.map_eq_some_iff.mp hL
        refine ⟨B, hB, a, ?_, hah⟩
        split at ha
        · refine (List.mem_append.mp ha).resolve_right fun ha => ?_
          obtain rfl := List.mem_singleton.mp ha
          exact hnew hah
        · exact ha
  · intro L hL
    rw [hlanes] at hL
    rcases List.mem_append.mp hL with hL | hL
    · exact h.linked L (hmem (.inl hL))
    · rcases List.mem_cons.mp hL with rfl | hL
      · obtain ⟨c, hc, hcnew⟩ := hlink
        have hAA := h.linked A (hmem (.inr (.inl rfl)))
        have hto : ∀ x ∈ A ++ [new], Chain domains (Touch hosts domains) x new := by
          intro x hx
          rcases List.mem_append.mp hx with hx | hx
          · exact (hAA x hx c hc).trans hcnew
          · obtain rfl := List.mem_singleton.mp hx
            exact .refl _
        intro x hx y hy
        exact (hto x hx).trans ((hto y hy).symm Touch.symm)
      · exact h.linked L (hmem (.inr (.inr hL)))
  · intro a ha hhome'
    rw [hnth]
    rcases List.mem_append.mp ha with ha | ha
    · obtain ⟨L, hL, haL⟩ := h.home a ha hhome'
      refine ⟨_, by rw [hL]; rfl, ?_⟩
      split
      · exact List.mem_append_left _ haL
      · exact haL
    · obtain rfl := List.mem_singleton.mp ha
      obtain rfl := hhome hhome'
      exact ⟨A ++ [a], by simp [hA], by simp⟩

theorem consistent_sub : Consistent fun a b : Nat => (a : Int) - b where
  anti a b := by omega
  trans a b c := by omega

/-- What one step of the loop keeps. -/
theorem Placed.place (h : Placed hosts domains seen s) (hd : domains.Nodup)
    (hseen : seen ++ [new] <+: domains) :
    Placed hosts domains (seen ++ [new]) (s.place hosts new) := by
  have hnew : new ∈ domains := hseen.subset (by simp)
  have hsub : seen ⊆ domains := fun a ha => hseen.subset (List.mem_append_left _ ha)
  have hempty : seen = [] → s.lanes = [] := by
    rintro rfl
    have hflat := List.flatten_eq_nil_iff.mp (List.perm_nil.mp h.once)
    exact List.eq_nil_iff_forall_not_mem.mpr fun L hL => h.filled L hL (hflat L hL)
  have hfirst : domains.head? = some new → seen = [] := by
    intro hhead
    obtain ⟨rest, rfl⟩ := hseen
    cases seen with
    | nil => rfl
    | cons a seen =>
        obtain rfl := Option.some.inj hhead
        exact absurd hd (by simp)
  rw [Lanes.place]
  by_cases hnone : hosts new = []
  · have hclaims : ∀ i, ∀ host ∈ hosts new, s.laneOfHost host = some i → i = 0 := by
      intro i host hhost
      rw [hnone] at hhost
      cases hhost
    simp only [hnone, List.isEmpty_nil, Bool.true_and, if_true]
    have hzero : sortBy (fun a b : Nat => (a : Int) - b) [0].eraseDups = [0] :=
      List.mergeSort_singleton _
    rw [hzero]
    dsimp only [List.reverse_nil, List.foldl_nil]
    cases hlanes : s.lanes with
    | nil =>
        have hopen := @Placed.open _ _ _ _ new h (by rw [hnone]; exact fun _ hh => by cases hh)
          fun _ => hlanes
        rw [hlanes, hnone] at hopen
        exact hopen
    | cons A lanes =>
        rw [List.isEmpty_cons, if_neg Bool.false_ne_true, ← hnone]
        apply h.push (A := A) (by rw [hlanes]; rfl) hclaims _ fun _ => rfl
        -- the first of all is in lane 0
        cases seen with
        | nil => rw [hempty rfl] at hlanes; cases hlanes
        | cons first seen =>
            have hhead : domains.head? = some first := by
              obtain ⟨rest, rfl⟩ := hseen
              rfl
            obtain ⟨L, hL, hfirstL⟩ := h.home first List.mem_cons_self (.inr hhead)
            rw [hlanes] at hL
            obtain rfl := Option.some.inj hL
            exact ⟨first, hfirstL, .single (hsub List.mem_cons_self) hnew (.inr ⟨.inr hhead, .inl hnone⟩)⟩
  · have hhome : Home hosts domains new → seen = [] := fun hh => hfirst (hh.resolve_left hnone)
    have hisEmpty : (hosts new).isEmpty = false := by
      cases hh : hosts new with
      | nil => exact absurd hh hnone
      | cons _ _ => rfl
    simp only [hisEmpty, Bool.false_and, Bool.false_eq_true, if_false]
    have hunique (i : Nat) : i ∈ sortBy (fun a b : Nat => (a : Int) - b)
        ((hosts new).filterMap s.laneOfHost).eraseDups ↔
          ∃ host ∈ hosts new, s.laneOfHost host = some i := by
      rw [mem_sortBy, List.mem_eraseDups, List.mem_filterMap]
    have hasc : (sortBy (fun a b : Nat => (a : Int) - b)
        ((hosts new).filterMap s.laneOfHost).eraseDups).Pairwise (· < ·) := by
      have hdup : (sortBy (fun a b : Nat => (a : Int) - b)
          ((hosts new).filterMap s.laneOfHost).eraseDups).Nodup :=
        (sortBy_perm _ _).nodup_iff.mpr (nodup_eraseDups _)
      refine ((pairwise_sortBy consistent_sub _).and hdup).imp fun {a b} hab => ?_
      have := hab.1
      have := hab.2
      omega
    generalize sortBy (fun a b : Nat => (a : Int) - b)
      ((hosts new).filterMap s.laneOfHost).eraseDups = unique at hunique hasc
    cases unique with
    | nil =>
        apply h.open _ fun hh => hempty (hhome hh)
        intro host hhost
        cases hsome : s.laneOfHost host with
        | none => rfl
        | some i => exact absurd ((hunique i).mpr ⟨host, hhost, hsome⟩) List.not_mem_nil
    | cons lane others =>
        obtain ⟨hlt, hasc⟩ := List.pairwise_cons.mp hasc
        have hothers : ∀ o ∈ others.reverse, lane < o := fun o ho => hlt o (List.mem_reverse.mp ho)
        have hmerged := h.mergeAll hnew hsub (List.pairwise_reverse.mpr hasc) hothers fun i => by
            rw [List.mem_reverse, ← List.mem_cons]
            exact hunique i
        dsimp only
        generalize others.reverse.foldl (Lanes.mergeInto lane) s = s' at hmerged
        obtain ⟨hplaced, hclaims⟩ := hmerged
        obtain ⟨host, hhost, hsome⟩ := (hclaims lane).mp rfl
        obtain ⟨A, hA, a, ha, hah⟩ := (hplaced.numbered host lane).mp hsome
        apply hplaced.push hA (fun i host hhost hsome => (hclaims i).mpr ⟨host, hhost, hsome⟩)
        · refine ⟨a, ha, .single (hplaced.mem_domains hsub (List.mem_of_getElem? hA) ha) hnew ?_⟩
          exact .inl ⟨host, hah, hhost⟩
        · intro hh
          -- the first of all finds no lane
          have hlanes := hempty (hhome hh)
          obtain ⟨host, -, hsome⟩ := (hunique lane).mp List.mem_cons_self
          obtain ⟨L, hL, -⟩ := (h.numbered host lane).mp hsome
          rw [hlanes] at hL
          cases hL

variable (hosts domains) in
theorem placed_all (hd : domains.Nodup) :
    Placed hosts domains domains (domains.foldl (Lanes.place hosts) Lanes.empty) := by
  have hnumbered : Numbered hosts Lanes.empty := by
    intro host idx
    constructor
    · intro h
      cases h
    · rintro ⟨L, hL, -⟩
      cases hL
  have hstart : Placed hosts domains [] Lanes.empty :=
    ⟨List.Perm.nil, fun _ hL => absurd hL List.not_mem_nil, hnumbered,
      fun _ hL => absurd hL List.not_mem_nil, fun _ ha => absurd ha List.not_mem_nil⟩
  have hrun : ∀ todo seen s, seen ++ todo = domains → Placed hosts domains seen s →
      Placed hosts domains domains (todo.foldl (Lanes.place hosts) s) := by
    intro todo
    induction todo with
    | nil =>
        rintro seen s rfl h
        rwa [List.append_nil] at h ⊢
    | cons new todo ih =>
        rintro seen s hall h
        apply ih (seen ++ [new]) _ (by rw [List.append_assoc]; exact hall)
        exact h.place hd ⟨todo, by rw [List.append_assoc]; exact hall⟩
  exact hrun domains [] _ rfl hstart

theorem consistent_byRank : Consistent (byRank domains) where
  anti a b := by
    rw [byRank, byRank]
    omega
  trans a b c := by
    rw [byRank, byRank, byRank]
    omega

/-- A lane in the caller's order. -/
theorem sortBy_byRank (hd : domains.Nodup) {A : List DiscoveryDomain} (hA : A.Nodup)
    (hsub : ∀ a ∈ A, a ∈ domains) :
    sortBy (byRank domains) A = domains.filter fun a => A.contains a := by
  have hperm : A.Perm (domains.filter fun a => A.contains a) := by
    apply (List.perm_ext_iff_of_nodup hA (hd.filter _)).mpr
    intro a
    rw [List.mem_filter, List.contains_iff_mem]
    exact ⟨fun ha => ⟨hsub a ha, ha⟩, And.right⟩
  have hequal : ∀ a ∈ A, ∀ b ∈ A, byRank domains a b = 0 → a = b := by
    intro a ha b hb h
    rw [byRank] at h
    exact (List.idxOf_inj (hsub a ha)).mp (by omega)
  rw [sortBy_eq_of_perm consistent_byRank hequal hperm]
  apply List.mergeSort_of_pairwise
  apply List.Pairwise.filter
  apply List.pairwise_iff_getElem.mpr
  intro i j hi hj hij
  rw [decide_eq_true_eq, byRank, hd.idxOf_getElem, hd.idxOf_getElem]
  omega

variable (hosts) in
/-- The lanes of the loop, each in the caller's order. -/
theorem planLanes_eq (hd : domains.Nodup) : planLanes hosts domains =
    (domains.foldl (Lanes.place hosts) Lanes.empty).lanes.map fun A =>
      domains.filter fun a => A.contains a := by
  have hplaced := placed_all hosts domains hd
  have hnodup := List.nodup_flatten.mp (hplaced.once.nodup_iff.mpr hd)
  have hmap : (domains.foldl (Lanes.place hosts) Lanes.empty).lanes.map (sortBy (byRank domains)) =
      (domains.foldl (Lanes.place hosts) Lanes.empty).lanes.map fun A =>
        domains.filter fun a => A.contains a := by
    apply List.map_congr_left
    intro A hA
    exact sortBy_byRank hd (hnodup.1 A hA) fun a ha => hplaced.mem_domains (fun _ h => h) hA ha
  rw [planLanes, ← hmap]
  apply List.filter_eq_self.mpr
  intro B hB
  obtain ⟨A, hA, rfl⟩ := List.mem_map.mp hB
  rw [decide_eq_true_eq, (sortBy_perm _ A).length_eq]
  exact List.length_pos_iff.mpr (hplaced.filled A hA)

end Ownpace.Orchestration
