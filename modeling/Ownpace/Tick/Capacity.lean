/-
Ownpace/Tick/Capacity.lean

Which due migrations the tick starts: `withinCapacity` of `managed-sync-tick.ts`.

The due ones are sorted by how long they have waited; each organisation keeps the
places this gives it and fills them with its own, the files-only ones last; and of
that order as many are started as there is room for.  `FairChoice` is what the
choice is for, and `withinCapacity_fair` that it is always made so.
-/
import Mathlib.Order.WithBot
import Ownpace.Store.Turns

namespace Ownpace.Tick

open Store

variable {Id Org : Type}

/-! ### The choice -/

structure PassCaps where
  /-- Passes at once on this stack. -/
  inFlight : Int
  /-- Passes at once of one organisation. -/
  perOrganisation : Int

/-- The copying passes running when the tick counts. -/
structure PassesInFlight (Org : Type) where
  total : Int
  /-- An organisation that is absent has none running. -/
  byOrganisation : Org → Int

/-- What the choice reads of a due migration. -/
structure Waiting (Id Org : Type) where
  id : Id
  tenant_id : Org
  /-- When its newest run started; none when it never ran. -/
  last_started : Option Int
  /-- Takes its organisation's later turns; absent is false. -/
  last : Option Bool

def Waiting.takesLast (m : Waiting Id Org) : Bool := m.last.getD false

/-- The starts in their order, none before all of them. -/
instance startedOrder : LinearOrder (WithBot Int) := @WithBot.linearOrder Int Int.instLinearOrder

instance startedLT : LT (WithBot Int) := startedOrder.toLT

/-- `last_started?.getTime() ?? Number.NEGATIVE_INFINITY` -/
def Waiting.started (m : Waiting Id Org) : WithBot Int := m.last_started

def longestWaitingFirst [LinearOrder Id] (a b : Waiting Id Org) : Int :=
  if a.started ≠ b.started then if a.started < b.started then -1 else 1
  else if a.id < b.id then -1 else if a.id > b.id then 1 else 0

/-- `Number(a.last ?? false) - Number(b.last ?? false)` -/
def lastTurn (a b : Waiting Id Org) : Int := a.takesLast.toNat - b.takesLast.toNat

def inOrganisationOrder [DecidableEq Org] (sorted : List (Waiting Id Org)) : List (Waiting Id Org) :=
  let byOrganisation := (filed Waiting.tenant_id sorted).map fun own =>
    (own.1, sortBy lastTurn own.2)
  inTurn Waiting.tenant_id (fun t => (byOrganisation.lookup t).getD []) sorted fun _ => 0

/-- What the tick starts now, and how many wait for a free pass. -/
structure Choice (Id Org : Type) where
  chosen : List (Waiting Id Org)
  heldForCapacity : Int

variable [LinearOrder Id] [DecidableEq Org]

def withinCapacity (due : List (Waiting Id Org)) (running : PassesInFlight Org) (caps : PassCaps) :
    Choice Id Org :=
  let chosen := fill Waiting.tenant_id caps.inFlight caps.perOrganisation
    (inOrganisationOrder (sortBy longestWaitingFirst due)) running.total running.byOrganisation
  { chosen, heldForCapacity := due.length - chosen.length }

/-! ### What it is for -/

/-- The same migration with another mark. -/
def Waiting.marked (m : Waiting Id Org) (last : Option Bool) : Waiting Id Org := { m with last }

/-- How many of these are of one organisation. -/
def countOf (t : Org) (ms : List (Waiting Id Org)) : Nat :=
  (ms.filter fun m => m.tenant_id = t).length

/-- A choice of the due ones that is within the caps, leaves none out without need,
and takes each organisation's in its order. -/
structure FairChoice (due : List (Waiting Id Org)) (running : PassesInFlight Org) (caps : PassCaps)
    (chosen : List (Waiting Id Org)) : Prop where
  /-- Of the due ones, each at most once. -/
  among : chosen.Subperm due
  inFlight : running.total + chosen.length ≤ max running.total caps.inFlight
  perOrganisation : ∀ t, running.byOrganisation t + countOf t chosen ≤
    max (running.byOrganisation t) caps.perOrganisation
  /-- The stack is full, or the organisation is. -/
  leftOut : ∀ m ∈ due, m ∉ chosen → caps.inFlight ≤ running.total + chosen.length ∨
    caps.perOrganisation ≤ running.byOrganisation m.tenant_id + countOf m.tenant_id chosen
  /-- Of two of a kind, the one that has waited longer. -/
  longest : ∀ m ∈ chosen, ∀ m' ∈ due, m' ∉ chosen → m.tenant_id = m'.tenant_id →
    m.takesLast = m'.takesLast → longestWaitingFirst m m' < 0
  /-- Files only after all the others. -/
  filesLast : ∀ m ∈ chosen, m.takesLast = true → ∀ m' ∈ due, m'.tenant_id = m.tenant_id →
    m'.takesLast = false → m' ∈ chosen

/-! ### The orders -/

omit [LinearOrder Id] [DecidableEq Org] in
theorem consistent_lastTurn : Consistent (@lastTurn Id Org) where
  anti a b := by
    rw [lastTurn, lastTurn]
    omega
  trans a b c := by
    rw [lastTurn, lastTurn, lastTurn]
    omega

omit [DecidableEq Org] in
theorem longestWaitingFirst_eq (a b : Waiting Id Org) : longestWaitingFirst a b =
    orElse (comparing a.started b.started) (comparing a.id b.id) := by
  rw [longestWaitingFirst, orElse, comparing, comparing]
  rcases lt_trichotomy a.started b.started with h | h | h
  · simp [h, h.ne]
  · simp [h]
  · simp [h, h.ne', h.not_gt]

omit [DecidableEq Org] in
theorem consistent_longestWaitingFirst :
    Consistent (@longestWaitingFirst Id Org _) := by
  have hboth := (consistent_comparing.comap (@Waiting.started Id Org)).orElse
    (consistent_comparing.comap Waiting.id)
  have heq : @longestWaitingFirst Id Org _ = fun a b =>
      orElse (comparing a.started b.started) (comparing a.id b.id) := by
    funext a b
    exact longestWaitingFirst_eq a b
  exact heq ▸ hboth

omit [DecidableEq Org] in
/-- Two that compare equal have one id. -/
theorem id_eq_of_longestWaitingFirst {a b : Waiting Id Org} (h : longestWaitingFirst a b = 0) :
    a.id = b.id := by
  rw [longestWaitingFirst_eq] at h
  have hid := (orElse_eq_zero h).2
  have hle := (comparing_le a.id b.id).mp (by omega)
  have hnot : ¬ a.id < b.id := fun hlt => by
    have := (comparing_lt a.id b.id).mpr hlt
    omega
  exact le_antisymm hle (not_lt.mp hnot)

variable {due due' : List (Waiting Id Org)}

omit [DecidableEq Org] in
theorem eq_of_longestWaitingFirst (hid : (due.map Waiting.id).Nodup) {a b : Waiting Id Org}
    (ha : a ∈ due) (hb : b ∈ due) (h : longestWaitingFirst a b = 0) : a = b :=
  List.inj_on_of_nodup_map hid ha hb (id_eq_of_longestWaitingFirst h)

/-- One organisation's migrations, in the order of its turns. -/
def turnsOf (t : Org) (sorted : List (Waiting Id Org)) : List (Waiting Id Org) :=
  sortBy lastTurn (sorted.filter fun m => m.tenant_id = t)

omit [LinearOrder Id] in
theorem inOrganisationOrder_eq (sorted : List (Waiting Id Org)) :
    inOrganisationOrder sorted =
      inTurn Waiting.tenant_id (fun t => turnsOf t sorted) sorted fun _ => 0 := by
  rw [inOrganisationOrder]
  congr 1
  funext t
  have hlookup (ks : List Org) (g : Org → List (Waiting Id Org)) :
      (ks.map fun k => (k, g k)).lookup t = if t ∈ ks then some (g t) else none := by
    induction ks with
    | nil => rfl
    | cons k ks ih =>
        rw [List.map_cons, List.lookup_cons, ih]
        by_cases htk : t = k
        · simp [htk]
        · simp [htk, beq_eq_false_iff_ne.mpr htk]
  rw [filed_eq, List.map_map]
  show (((sorted.map Waiting.tenant_id).eraseDups.map fun t => (t, turnsOf t sorted)).lookup t).getD [] = _
  rw [hlookup]
  by_cases ht : t ∈ (sorted.map Waiting.tenant_id).eraseDups
  · rw [if_pos ht]
    rfl
  · rw [if_neg ht, turnsOf]
    have hnone : sorted.filter (fun m => m.tenant_id = t) = [] := by
      apply List.filter_eq_nil_iff.mpr
      intro m hm hmt
      exact ht (List.mem_eraseDups.mpr (List.mem_map.mpr ⟨m, hm, of_decide_eq_true hmt⟩))
    rw [hnone]
    exact List.mergeSort_nil.symm

omit [LinearOrder Id] in
theorem turnsOf_perm (t : Org) (sorted : List (Waiting Id Org)) :
    (turnsOf t sorted).Perm (sorted.filter fun m => m.tenant_id = t) := sortBy_perm _ _

omit [LinearOrder Id] in
theorem inOrganisationOrder_perm (sorted : List (Waiting Id Org)) :
    (inOrganisationOrder sorted).Perm sorted := by
  rw [inOrganisationOrder_eq]
  exact inTurn_perm fun t => turnsOf_perm t sorted

omit [LinearOrder Id] in
theorem mem_turnsOf {t : Org} {sorted : List (Waiting Id Org)} {m : Waiting Id Org} :
    m ∈ turnsOf t sorted ↔ m ∈ sorted ∧ m.tenant_id = t := by
  rw [(turnsOf_perm t sorted).mem_iff, List.mem_filter, decide_eq_true_eq]

omit [LinearOrder Id] in
theorem fits_turnsOf (sorted : List (Waiting Id Org)) :
    Fits Waiting.tenant_id (fun t => turnsOf t sorted) sorted fun _ => 0 := by
  intro t
  show 0 + _ = _
  rw [Nat.zero_add, (turnsOf_perm t sorted).length_eq]

omit [LinearOrder Id] in
theorem filter_inOrganisationOrder (t : Org) (sorted : List (Waiting Id Org)) :
    (inOrganisationOrder sorted).filter (fun m => m.tenant_id = t) = turnsOf t sorted := by
  rw [inOrganisationOrder_eq]
  exact filter_inTurn (fun _ _ hm => (mem_turnsOf.mp hm).2) (fits_turnsOf sorted) t

omit [LinearOrder Id] in
theorem inOrganisationOrder_keys (sorted : List (Waiting Id Org)) :
    (inOrganisationOrder sorted).map Waiting.tenant_id = sorted.map Waiting.tenant_id := by
  rw [inOrganisationOrder_eq]
  exact inTurn_keys (fun _ _ hm => (mem_turnsOf.mp hm).2) (fits_turnsOf sorted)

/-- Before the files-only ones the others, and of a kind the longest-waiting first. -/
theorem pairwise_turnsOf (hid : (due.map Waiting.id).Nodup) (t : Org) :
    (turnsOf t (sortBy longestWaitingFirst due)).Pairwise fun a b =>
      lastTurn a b ≤ 0 ∧ (lastTurn a b = 0 → longestWaitingFirst a b < 0) := by
  have hsorted : (sortBy longestWaitingFirst due).Pairwise fun a b => longestWaitingFirst a b < 0 := by
    have hnodup : (sortBy longestWaitingFirst due).Nodup :=
      (sortBy_perm _ due).nodup_iff.mpr (List.Nodup.of_map _ hid)
    apply ((pairwise_sortBy consistent_longestWaitingFirst due).and hnodup).imp_of_mem
    rintro a b ha hb ⟨hle, hne⟩
    have hne := mt (eq_of_longestWaitingFirst hid (mem_sortBy.mp ha) (mem_sortBy.mp hb)) hne
    omega
  exact (pairwise_sortBy consistent_lastTurn _).and
    (pairwise_sortBy_of_eq consistent_lastTurn (hsorted.sublist List.filter_sublist))

/-! ### The choice is as it is for -/

section Chosen

variable (due) (running : PassesInFlight Org) (caps : PassCaps)

/-- What is chosen of an organisation is a front of its turns. -/
theorem chosen_prefix (t : Org) :
    (withinCapacity due running caps).chosen.filter (fun m => m.tenant_id = t) <+:
      turnsOf t (sortBy longestWaitingFirst due) := by
  rw [← filter_inOrganisationOrder]
  exact filter_fill_prefix t

/-- One that is left out stands behind every one of its organisation that is chosen. -/
theorem behind_the_chosen (hid : (due.map Waiting.id).Nodup) {m m' : Waiting Id Org}
    (hm : m ∈ (withinCapacity due running caps).chosen) (hm' : m' ∈ due)
    (hout : m' ∉ (withinCapacity due running caps).chosen) (ht : m.tenant_id = m'.tenant_id) :
    lastTurn m m' ≤ 0 ∧ (lastTurn m m' = 0 → longestWaitingFirst m m' < 0) := by
  obtain ⟨rest, hrest⟩ := chosen_prefix due running caps m.tenant_id
  have hpairs := pairwise_turnsOf hid m.tenant_id
  rw [← hrest] at hpairs
  apply (List.pairwise_append.mp hpairs).2.2 m (List.mem_filter.mpr ⟨hm, decide_eq_true rfl⟩) m'
  have hturn : m' ∈ turnsOf m.tenant_id (sortBy longestWaitingFirst due) :=
    mem_turnsOf.mpr ⟨mem_sortBy.mpr hm', ht.symm⟩
  rw [← hrest, List.mem_append] at hturn
  exact hturn.resolve_left fun hin => hout (List.mem_filter.mp hin).1

theorem chosen_fair (hid : (due.map Waiting.id).Nodup) :
    FairChoice due running caps (withinCapacity due running caps).chosen where
  among := by
    have hsub : (withinCapacity due running caps).chosen.Sublist
        (inOrganisationOrder (sortBy longestWaitingFirst due)) := fill_sublist
    exact hsub.subperm.trans
      ((inOrganisationOrder_perm _).trans (sortBy_perm _ due)).subperm
  inFlight := fill_length_le
  perOrganisation t := fill_count_le t
  leftOut m hm hout := by
    apply full_of_not_mem_fill _ hout
    rw [(inOrganisationOrder_perm _).mem_iff]
    exact mem_sortBy.mpr hm
  longest m hm m' hm' hout ht hlast := by
    apply (behind_the_chosen due running caps hid hm hm' hout ht).2
    rw [lastTurn, hlast]
    omega
  filesLast m hm hlast m' hm' ht hlast' := by
    by_contra hout
    have hle := (behind_the_chosen due running caps hid hm hm' hout ht.symm).1
    rw [lastTurn, hlast, hlast'] at hle
    exact absurd hle (by decide)

/-- The order of the list plays no part. -/
theorem withinCapacity_of_perm (hid : (due.map Waiting.id).Nodup) (h : due.Perm due') :
    withinCapacity due running caps = withinCapacity due' running caps := by
  have hsort : sortBy longestWaitingFirst due = sortBy longestWaitingFirst due' :=
    sortBy_eq_of_perm consistent_longestWaitingFirst
      (fun _ ha _ hb => eq_of_longestWaitingFirst hid ha hb) h
  rw [withinCapacity, withinCapacity, hsort, h.length_eq]

/-- Nor do the marks play one in how many each organisation gets. -/
theorem countOf_marked (marks : Waiting Id Org → Option Bool) (t : Org) :
    countOf t (withinCapacity (due.map fun m => m.marked (marks m)) running caps).chosen =
      countOf t (withinCapacity due running caps).chosen := by
  have hsort : sortBy longestWaitingFirst (due.map fun m => m.marked (marks m)) =
      (sortBy longestWaitingFirst due).map fun m => m.marked (marks m) :=
    (@List.map_mergeSort _ _ (fun a b => decide (longestWaitingFirst a b ≤ 0))
      (fun a b => decide (longestWaitingFirst a b ≤ 0))
      (fun m : Waiting Id Org => m.marked (marks m)) due fun _ _ _ _ => rfl).symm
  have hkeys : (withinCapacity (due.map fun m => m.marked (marks m)) running
      caps).chosen.map Waiting.tenant_id =
      (withinCapacity due running caps).chosen.map Waiting.tenant_id := by
    apply fill_keys
    rw [inOrganisationOrder_keys, inOrganisationOrder_keys, hsort, List.map_map]
    rfl
  have hcount (ms : List (Waiting Id Org)) : countOf t ms = (ms.map Waiting.tenant_id).count t := by
    rw [countOf, List.count_eq_length_filter, List.filter_map, List.length_map]
    congr 1
  rw [hcount, hcount, hkeys]

end Chosen

/-- **The tick starts as many as the box was sized for, and is fair**: for distinct ids the
choice is within both caps, leaves one out only where there is no room, and takes each
organisation's in its order; the order of the list plays no part in it, nor do the files-last
marks in how many each organisation gets. -/
theorem withinCapacity_fair (due : List (Waiting Id Org)) (hid : (due.map Waiting.id).Nodup)
    (running : PassesInFlight Org) (caps : PassCaps) :
    FairChoice due running caps (withinCapacity due running caps).chosen ∧
      (withinCapacity due running caps).heldForCapacity =
        due.length - (withinCapacity due running caps).chosen.length ∧
      (∀ due', due.Perm due' → withinCapacity due running caps = withinCapacity due' running caps) ∧
      ∀ (marks : Waiting Id Org → Option Bool) (t : Org),
        countOf t (withinCapacity (due.map fun m => m.marked (marks m)) running caps).chosen =
          countOf t (withinCapacity due running caps).chosen :=
  ⟨chosen_fair due running caps hid, rfl, fun _ h => withinCapacity_of_perm due running caps hid h,
    countOf_marked due running caps⟩

/-- Three of one organisation, which has room for two: the files wait. -/
def threeDue : List (Waiting Nat Nat) :=
  [⟨1, 7, none, some true⟩, ⟨2, 7, some 5, none⟩, ⟨3, 7, some 3, some false⟩]

theorem threeDue_fair :
    FairChoice threeDue ⟨0, fun _ => 0⟩ ⟨3, 2⟩ (withinCapacity threeDue ⟨0, fun _ => 0⟩ ⟨3, 2⟩).chosen ∧
      ∀ t, countOf t (withinCapacity (threeDue.map fun m => m.marked none) ⟨0, fun _ => 0⟩ ⟨3, 2⟩).chosen =
        countOf t (withinCapacity threeDue ⟨0, fun _ => 0⟩ ⟨3, 2⟩).chosen := by
  have hfair := withinCapacity_fair threeDue (by decide) ⟨0, fun _ => 0⟩ ⟨3, 2⟩
  exact ⟨hfair.1, fun t => hfair.2.2.2 (fun _ => none) t⟩

end Ownpace.Tick
