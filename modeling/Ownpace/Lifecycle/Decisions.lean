/-
Ownpace/Lifecycle/Decisions.lean

The lifecycle of a migration and of each of its data types, and what each press
does to one in a given state.

A data type's phase is one of six words, a migration's status one of five of
them: `ready` is a path that never ran.  The decisions are asked of a word,
whoever's it is, and refuse `ready` as they refuse any word that is not a
migration's.
-/
import Mathlib.Data.List.Basic

namespace Ownpace.Lifecycle

/-! ### The words -/

/-- `PATH_STATES` -/
inductive PathState where
  | ready
  | active
  | paused
  | cutover
  | done
  | continuous
  deriving DecidableEq

def PathState.word : PathState → String
  | ready => "ready"
  | active => "active"
  | paused => "paused"
  | cutover => "cutover"
  | done => "done"
  | continuous => "continuous"

/-- `MAPPING_LIFECYCLES` -/
inductive MappingLifecycle where
  | paused
  | active
  | cutover
  | done
  | continuous
  deriving DecidableEq

/-- The word of a migration's status, as its paths spell it. -/
def MappingLifecycle.state : MappingLifecycle → PathState
  | paused => .paused
  | active => .active
  | cutover => .cutover
  | done => .done
  | continuous => .continuous

theorem MappingLifecycle.state_injective {a b : MappingLifecycle} (h : a.state = b.state) :
    a = b := by
  revert h
  cases a <;> cases b <;> decide

/-- After its cutover, the source is no longer the authority on what exists. -/
def isAfterCutover : PathState → Bool
  | .cutover => true
  | .done => true
  | .continuous => true
  | _ => false

/-! ### The migration's status from its paths -/

/-- The status the phases add up to. -/
def rollUpPhases (phases : List PathState) : Option MappingLifecycle :=
  if phases.isEmpty then none
  else if phases.any fun p => p = .active ∨ p = .paused ∨ p = .ready then
    if phases.contains .active then some .active else some .paused
  else if phases.contains .cutover then some .cutover
  else if phases.contains .continuous then some .continuous
  else some .done

/-! ### What a press decides -/

/-- A rollback's mapping half. -/
inductive RollbackTransition where
  | reactivate (fromState : PathState)
  | leave (fromState : PathState) (reason : String)
  | refuse (refuse hint : String)
  deriving DecidableEq

def rollbackTransition : PathState → RollbackTransition
  | .cutover => .reactivate .cutover
  | .continuous => .reactivate .continuous
  | .active => .leave .active "it is already syncing — the cutover never stopped it"
  | .paused => .leave .paused
      ("an operator paused it; a rollback ends the cutover, it does not start what " ++
        "somebody stopped. Start it when you are ready.")
  | .done => .refuse "This migration was finished ('done'); a rollback does not undo a finish."
      ("Nothing was changed. 'done' is terminal for the lifecycle — the same reason Start " ++
        "refuses it. If the source must be live again, revert the MX record by hand; " ++
        "resuming the copy into this target would need the lifecycle to allow leaving 'done', " ++
        "which it does not today.")
  | .ready => .refuse "'ready' is not a mapping lifecycle this product knows."
      "Nothing was changed. The database CHECK constraint should make this unreachable."

/-- A cutover's mapping half, at `execute` and at `complete`. -/
inductive CutoverTransition where
  | stop (fromState : PathState)
  | leave (fromState : PathState) (reason : String) (warning : Option String)
  | refuse (refuse hint : String)
  deriving DecidableEq

def cutoverTransition : PathState → CutoverTransition
  | .active => .stop .active
  | .paused => .stop .paused
  | .cutover => .leave .cutover "it is already stopped for a cutover" none
  | .continuous => .leave .continuous
      ("it keeps copying after cutover by design (the continuous lane), with deletions at " ++
        "the source no longer mirrored — the source is already not the authority") none
  | .done => .leave .done "it was finished; the shadow sync has ended and nothing runs"
      (some ("A rollback is refused for a finished ('done') migration. If this cutover has to be " ++
        "reverted later, that means a manual MX change, not the rollback command."))
  | .ready => .refuse "'ready' is not a mapping lifecycle this product knows."
      "Nothing was changed. The database CHECK constraint should make this unreachable."

/-- What was copying when `execute` ran is copied until the grace period ends. -/
def keepsCopyingThroughGrace : CutoverTransition → Bool
  | .stop fromState => fromState = .active
  | _ => false

inductive UpdateRefuseCode where
  | own_door
  | after_cutover
  | finished
  | before_cutover
  deriving DecidableEq

inductive UpdateTransition where
  | apply (fromState toState : MappingLifecycle)
  | alreadySo (fromState : MappingLifecycle)
  | refuse (refuse hint : String) (code : UpdateRefuseCode)
  deriving DecidableEq

/-- What a status update may do. -/
def updateTransition (fromState toState : MappingLifecycle) : UpdateTransition :=
  if fromState = toState then .alreadySo fromState
  else if fromState = .done ∧ toState ≠ .continuous then
    .refuse "This migration was finished ('done'), and 'done' is terminal."
      ("The one thing that follows a finish is the continuous lane ('continuous'), which keeps " ++
        "copying after cutover and deletes nothing. Nothing was changed.") .finished
  else if isAfterCutover fromState.state && !isAfterCutover toState.state then
    .refuse ("This migration is after its cutover ('" ++ fromState.state.word ++
        "'); the source is no longer the authority on what exists, and a status update does not " ++
        "bring it back before the cutover.")
      ("Only a rollback does that, recorded as one: the operator CLI's 'rollback'. " ++
        "Nothing was changed.") .after_cutover
  else if toState = .active then
    .refuse "Starting is its own door, not a status update."
      ("Use Start (POST /api/migrations/\x7bid\x7d/start): it also refuses a grant still being " ++
        "waited on and runs the first pass, which a status update would skip. Nothing was changed.")
      .own_door
  else if toState = .done then
    .refuse "Finishing is its own door, not a status update."
      ("Use Finish (POST /api/migrations/\x7bid\x7d/finish): it refuses over unresolved failures " ++
        "unless you force it, which a status update would skip. Nothing was changed.") .own_door
  else if toState = .continuous && !isAfterCutover fromState.state then
    .refuse ("The continuous lane is entered after a cutover — from 'cutover' or 'done' — and " ++
        "this migration is '" ++ fromState.state.word ++ "'.")
      ("In the lane the source is no longer the authority and deletions there are not mirrored; " ++
        "that is not yet true of a migration still syncing. Declare the cutover first (status " ++
        "'cutover'), or finish. Nothing was changed.") .before_cutover
  else .apply fromState toState

inductive StartTransition where
  | activate (activate : Bool)
  | conflict (conflict : String)
  deriving DecidableEq

def startTransition (status : MappingLifecycle) : StartTransition :=
  if isAfterCutover status.state then
    .conflict ("Cannot start a mapping in '" ++ status.state.word ++ "' state")
  else .activate (status ≠ .active)

inductive FinishRefuseCode where
  | paused
  | unresolved_failures
  deriving DecidableEq

inductive FinishTransition where
  | finish
  | alreadyDone
  | refuse (refuse hint : String) (code : FinishRefuseCode)
  deriving DecidableEq

def finishTransition (status : MappingLifecycle) (unresolvedFailures : Nat) (force : Bool) :
    FinishTransition :=
  if status = .done then .alreadyDone
  else if status = .paused then
    .refuse "Cannot finish a migration that was never started (it is 'paused')"
      "Start it first — or remove the migration if it should not run at all." .paused
  else if unresolvedFailures > 0 && !force then
    .refuse (toString unresolvedFailures ++
        " item(s) could not be migrated and are awaiting a decision")
      ("Resolve them first — retry each item, or accept it to leave it behind; the failure queue " ++
        "lists every one. Finishing anyway leaves them unmigrated, knowingly.")
      .unresolved_failures
  else .finish

/-! ### What the decisions keep -/

/-- A status update goes on from the phase it is in: after its cutover a
migration stays after it, and `active` and `done` have doors of their own. -/
theorem updateTransition_apply {fromState toState a b : MappingLifecycle}
    (h : updateTransition fromState toState = .apply a b) :
    a = fromState ∧ b = toState ∧ a ≠ b ∧ b ≠ .active ∧
      (isAfterCutover fromState.state = true → isAfterCutover toState.state = true) := by
  unfold updateTransition at h
  split at h
  · cases h
  next hne =>
  split at h
  · cases h
  split at h
  · cases h
  next hback =>
  split at h
  · cases h
  next hactive =>
  split at h
  · cases h
  split at h
  · cases h
  cases h
  refine ⟨rfl, rfl, hne, hactive, fun hafter => ?_⟩
  simpa [hafter] using hback

theorem startTransition_activate {status : MappingLifecycle}
    (h : startTransition status = .activate true) : status = .paused := by
  revert h
  cases status <;> decide

theorem finishTransition_finish {status : MappingLifecycle} {unresolvedFailures : Nat} {force : Bool}
    (h : finishTransition status unresolvedFailures force = .finish) :
    status ≠ .paused ∧ status ≠ .done := by
  unfold finishTransition at h
  split at h
  · cases h
  · next hdone =>
      split at h
      · cases h
      · next hpaused => exact ⟨hpaused, hdone⟩

/-! ### What the phases add up to -/

/-- The phases a status is the roll-up of. -/
def AddsUp (phases : List PathState) : MappingLifecycle → Prop
  | .active => .active ∈ phases
  | .paused => .active ∉ phases ∧ ∃ p ∈ phases, isAfterCutover p = false
  | .cutover => (∀ p ∈ phases, isAfterCutover p = true) ∧ .cutover ∈ phases
  | .continuous => (∀ p ∈ phases, isAfterCutover p = true) ∧ .cutover ∉ phases ∧ .continuous ∈ phases
  | .done => phases ≠ [] ∧ ∀ p ∈ phases, p = .done

theorem isBefore_iff (p : PathState) :
    (p = .active ∨ p = .paused ∨ p = .ready) ↔ isAfterCutover p = false := by
  cases p <;> decide

theorem addsUp_of_rollUp {phases : List PathState} {status : MappingLifecycle}
    (h : rollUpPhases phases = some status) : AddsUp phases status := by
  unfold rollUpPhases at h
  split at h
  · cases h
  · next hne =>
      have hsome : phases ≠ [] := by simpa using hne
      split at h
      · next hbefore =>
          obtain ⟨p, hp, hstate⟩ := List.any_eq_true.mp hbefore
          have hp' := (isBefore_iff p).mp (of_decide_eq_true hstate)
          split at h
          · next hactive =>
              cases h
              exact List.contains_iff_mem.mp hactive
          · next hactive =>
              cases h
              exact ⟨fun hmem => hactive (List.contains_iff_mem.mpr hmem), p, hp, hp'⟩
      · next hbefore =>
          have hafter : ∀ p ∈ phases, isAfterCutover p = true := by
            intro p hp
            by_contra hp'
            refine hbefore (List.any_eq_true.mpr ⟨p, hp, decide_eq_true ?_⟩)
            exact (isBefore_iff p).mpr (Bool.not_eq_true _ ▸ hp')
          split at h
          · next hcut =>
              cases h
              exact ⟨hafter, List.contains_iff_mem.mp hcut⟩
          · next hcut =>
              have hcut' : PathState.cutover ∉ phases :=
                fun hmem => hcut (List.contains_iff_mem.mpr hmem)
              split at h
              · next hcont =>
                  cases h
                  exact ⟨hafter, hcut', List.contains_iff_mem.mp hcont⟩
              · next hcont =>
                  cases h
                  refine ⟨hsome, fun p hp => ?_⟩
                  have hp' := hafter p hp
                  cases p with
                  | done => rfl
                  | cutover => exact absurd hp hcut'
                  | continuous => exact absurd (List.contains_iff_mem.mpr hp) hcont
                  | ready => cases hp'
                  | active => cases hp'
                  | paused => cases hp'

/-- The phases are all after their cutovers where what they add up to is. -/
theorem AddsUp.after_iff {phases : List PathState} {status : MappingLifecycle}
    (h : AddsUp phases status) :
    (∀ p ∈ phases, isAfterCutover p = true) ↔ isAfterCutover status.state = true := by
  cases status with
  | active => exact iff_of_false (fun hall => absurd (hall _ h) (by decide)) (by decide)
  | paused =>
      obtain ⟨_, p, hp, hp'⟩ := h
      refine iff_of_false (fun hall => ?_) (by decide)
      rw [hall p hp] at hp'
      cases hp'
  | cutover => exact iff_of_true h.1 rfl
  | continuous => exact iff_of_true h.1 rfl
  | done =>
      refine iff_of_true (fun p hp => ?_) rfl
      rw [h.2 p hp]
      rfl

/-- A status past the cutover is the phase of a data type. -/
theorem AddsUp.mem_of_after {phases : List PathState} {status : MappingLifecycle}
    (h : AddsUp phases status) (hafter : isAfterCutover status.state = true) :
    status.state ∈ phases := by
  cases status with
  | active => cases hafter
  | paused => cases hafter
  | cutover => exact h.2
  | continuous => exact h.2.2
  | done =>
      obtain ⟨p, hp⟩ := List.exists_mem_of_ne_nil phases h.1
      obtain rfl := h.2 p hp
      exact hp

/-- The phases add up to one status at most. -/
theorem AddsUp.unique {phases : List PathState} {a b : MappingLifecycle} (ha : AddsUp phases a)
    (hb : AddsUp phases b) : a = b := by
  have hafter : isAfterCutover a.state = isAfterCutover b.state := by
    rw [Bool.eq_iff_iff, ← ha.after_iff, ← hb.after_iff]
  cases a <;> cases b
  case paused.active => exact absurd hb ha.1
  case active.paused => exact absurd ha hb.1
  case cutover.continuous => exact absurd ha.2 hb.2.1
  case continuous.cutover => exact absurd hb.2 ha.2.1
  case cutover.done => exact absurd (hb.2 _ ha.2) (by decide)
  case done.cutover => exact absurd (ha.2 _ hb.2) (by decide)
  case continuous.done => exact absurd (hb.2 _ ha.2.2) (by decide)
  case done.continuous => exact absurd (ha.2 _ hb.2.2) (by decide)
  all_goals first
    | rfl
    | exact absurd hafter (by decide)

theorem rollUpPhases_isSome {phases : List PathState} (h : phases ≠ []) :
    ∃ status, rollUpPhases phases = some status := by
  unfold rollUpPhases
  rw [if_neg (by simpa using h)]
  split
  · split
    · exact ⟨_, rfl⟩
    · exact ⟨_, rfl⟩
  · split
    · exact ⟨_, rfl⟩
    · split
      · exact ⟨_, rfl⟩
      · exact ⟨_, rfl⟩

theorem AddsUp.ne_nil {phases : List PathState} {status : MappingLifecycle}
    (h : AddsUp phases status) : phases ≠ [] := by
  rintro rfl
  cases status <;> simp [AddsUp] at h

theorem rollUpPhases_eq_some_iff {phases : List PathState} {status : MappingLifecycle} :
    rollUpPhases phases = some status ↔ AddsUp phases status := by
  refine ⟨addsUp_of_rollUp, fun h => ?_⟩
  obtain ⟨rolled, hrolled⟩ := rollUpPhases_isSome h.ne_nil
  rw [hrolled, (addsUp_of_rollUp hrolled).unique h]

/-- Phases that are all the status add up to it. -/
theorem addsUp_of_all {phases : List PathState} {status : MappingLifecycle} (hne : phases ≠ [])
    (h : ∀ p ∈ phases, p = status.state) : AddsUp phases status := by
  obtain ⟨p, hp⟩ := List.exists_mem_of_ne_nil phases hne
  have hmem : status.state ∈ phases := h p hp ▸ hp
  cases status with
  | active => exact hmem
  | paused => exact ⟨fun ha => absurd (h _ ha) (by decide), _, hmem, rfl⟩
  | cutover =>
      refine ⟨fun p hp => ?_, hmem⟩
      rw [h p hp]
      rfl
  | continuous =>
      refine ⟨fun p hp => ?_, fun hc => absurd (h _ hc) (by decide), hmem⟩
      rw [h p hp]
      rfl
  | done => exact ⟨hne, h⟩

/-- One more data type in the phase of the status leaves what they add up to. -/
theorem AddsUp.insert {phases phases' : List PathState} {status : MappingLifecycle}
    (h : AddsUp phases status) (hmem : ∀ p, p ∈ phases' ↔ p ∈ phases ∨ p = status.state) :
    AddsUp phases' status := by
  cases status with
  | active => exact (hmem _).mpr (.inl h)
  | paused =>
      refine ⟨fun ha => ?_, .paused, (hmem _).mpr (.inr rfl), rfl⟩
      rcases (hmem _).mp ha with ha | ha
      · exact h.1 ha
      · cases ha
  | cutover =>
      refine ⟨fun p hp => ?_, (hmem _).mpr (.inl h.2)⟩
      rcases (hmem p).mp hp with hp | rfl
      · exact h.1 p hp
      · rfl
  | continuous =>
      refine ⟨fun p hp => ?_, fun hc => ?_, (hmem _).mpr (.inl h.2.2)⟩
      · rcases (hmem p).mp hp with hp | rfl
        · exact h.1 p hp
        · rfl
      · rcases (hmem _).mp hc with hc | hc
        · exact h.2.1 hc
        · cases hc
  | done =>
      refine ⟨List.ne_nil_of_mem ((hmem _).mpr (.inr rfl)), fun p hp => ?_⟩
      rcases (hmem p).mp hp with hp | rfl
      · exact h.2 p hp
      · rfl

end Ownpace.Lifecycle
