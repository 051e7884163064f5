/-
Ownpace/Cutover/Steps.lean

The two cutover steps and the rollback: two writes each, the lifecycle first and
the ledger second.

A step reads the ledger and the lifecycle, decides both writes, and then makes
them.  So a step is its plan, and a step that is cut off has made some of its
writes, from the front.
-/
import Ownpace.Cutover.Ledgers
import Ownpace.Lifecycle.Decisions

namespace Ownpace.Cutover

open CutoverState Lifecycle

/-- A step that did not happen. -/
structure Refused where
  message : String
  hint : Option String := none
  deriving DecidableEq

/-- The lifecycle's half of an outcome. -/
structure MappingOutcome where
  fromState : PathState
  toState : PathState
  changed : Bool
  note : Option String := none
  warning : Option String := none
  deriving DecidableEq

structure StepOutcome where
  state : CutoverState
  fromState : CutoverState
  copiesThroughGrace : Bool := false
  mapping : MappingOutcome
  deriving DecidableEq

/-- The writes of a step, in their order, and what it answers after them. -/
structure StepPlan where
  /-- `setStatus`, where the lifecycle moves. -/
  setStatus : Option MappingLifecycle
  /-- `transitionState`. -/
  toState : CutoverState
  metadata : TransitionMetadata
  outcome : StepOutcome
  deriving DecidableEq

/-- `state.currentState ?? state.state`. -/
def CutoverStatus.current (state : CutoverStatus) : CutoverState := state.currentState.getD state.state

/-- `step`: to CUTOVER_IN_PROGRESS, or to COMPLETED. -/
def step (ledger : Option CutoverStatus) (mappingStatus : PathState) (toState : CutoverState)
    (metadata : TransitionMetadata) : Except Refused StepPlan :=
  match ledger with
  | none => .error { message := "No cutover state found. Start cutover first." }
  | some state =>
    let fromState := state.current
    if !isValidTransition fromState toState then
      .error {
        message := s!"A cutover in {fromState.name} cannot move to {toState.name}."
        hint := some (if toState = CUTOVER_IN_PROGRESS then
            "Cutover must be in APPROVED state — verify, then approve, first."
          else
            "Cutover must be in GRACE_PERIOD state — COMPLETED is only reachable from there.") }
    else
      let decision := cutoverTransition mappingStatus
      -- Decided while the status the migration had is still known.
      let copiesThroughGrace :=
        toState = CUTOVER_IN_PROGRESS && keepsCopyingThroughGrace decision
      let metadata :=
        if toState = CUTOVER_IN_PROGRESS then
          { metadata with copiesThroughGrace := some copiesThroughGrace }
        else metadata
      match decision with
      | .refuse refuse hint => .error { message := refuse, hint := some hint }
      | .stop stopped => .ok {
          setStatus := some .cutover
          toState, metadata
          outcome := {
            state := toState, fromState, copiesThroughGrace
            mapping := { fromState := stopped, toState := .cutover, changed := true } } }
      | .leave left reason warning => .ok {
          setStatus := none
          toState, metadata
          outcome := {
            state := toState, fromState, copiesThroughGrace
            mapping := {
              fromState := left, toState := left, changed := false, note := some reason, warning } } }

/-- APPROVED → CUTOVER_IN_PROGRESS, and the lifecycle moves to `cutover`. -/
def enterCutover (ledger : Option CutoverStatus) (mappingStatus : PathState) :
    Except Refused StepPlan :=
  step ledger mappingStatus CUTOVER_IN_PROGRESS {}

/-- GRACE_PERIOD → COMPLETED, and a lifecycle still running is stopped on the way. -/
def closeCutover (ledger : Option CutoverStatus) (mappingStatus : PathState) :
    Except Refused StepPlan :=
  step ledger mappingStatus COMPLETED {}

def performRollback (reason : String) (ledger : Option CutoverStatus) (mappingStatus : PathState) :
    Except Refused StepPlan :=
  match ledger with
  | none => .error { message := "No cutover state found — nothing to roll back." }
  | some state =>
    let fromState := state.current
    if !isValidTransition fromState ROLLED_BACK then
      .error {
        message := s!"A cutover in {fromState.name} cannot be rolled back."
        hint := some (if fromState = COMPLETED then
            "COMPLETED is terminal; reverting now means a manual MX change and a new migration."
          else if fromState = ROLLED_BACK then "It already is."
          else "Nothing has been executed yet; there is nothing to set back.") }
    else
      let metadata : TransitionMetadata := { rollbackReason := some reason }
      match rollbackTransition mappingStatus with
      | .refuse refuse hint => .error { message := refuse, hint := some hint }
      | .reactivate stopped => .ok {
          setStatus := some .active
          toState := ROLLED_BACK, metadata
          outcome := {
            state := ROLLED_BACK, fromState
            mapping := { fromState := stopped, toState := .active, changed := true } } }
      | .leave left reason => .ok {
          setStatus := none
          toState := ROLLED_BACK, metadata
          outcome := {
            state := ROLLED_BACK, fromState
            mapping := {
              fromState := left, toState := left, changed := false, note := some reason } } }

/-- One of the three. -/
inductive Step where
  | enterCutover
  | closeCutover
  | performRollback (reason : String)

def Step.plan : Step → Option CutoverStatus → PathState → Except Refused StepPlan
  | enterCutover => Cutover.enterCutover
  | closeCutover => Cutover.closeCutover
  | performRollback reason => Cutover.performRollback reason

/-- The state a step moves the ledger to. -/
def Step.toState : Step → CutoverState
  | enterCutover => CUTOVER_IN_PROGRESS
  | closeCutover => COMPLETED
  | performRollback _ => ROLLED_BACK

theorem Step.toState_ne_preparing (s : Step) : s.toState ≠ PREPARING := by
  intro h
  cases s <;> cases h

/-! ### What a plan is -/

/-- What a step has decided, from the state and the word it read. -/
structure Planned (s : Step) (fromState : CutoverState) (status : PathState) (p : StepPlan) :
    Prop where
  toState : p.toState = s.toState
  valid : isValidTransition fromState s.toState = true
  state : p.metadata.state = none
  /-- A cutover stops what was before it, and leaves what is after it. -/
  cutover : s.toState ≠ ROLLED_BACK →
    (p.setStatus = some .cutover ∧ (status = .active ∨ status = .paused)) ∨
      (p.setStatus = none ∧ isAfterCutover status = true)
  /-- A rollback reactivates what it finds stopped, and leaves what is not. -/
  rollback : s.toState = ROLLED_BACK →
    (p.setStatus = some .active ∧ (status = .cutover ∨ status = .continuous)) ∨
      (p.setStatus = none ∧ (status = .active ∨ status = .paused))
  copies : p.metadata.copiesThroughGrace =
    if s.toState = CUTOVER_IN_PROGRESS then some (decide (status = .active)) else none

theorem planned_of_step {ledger : Option CutoverStatus} {status : PathState} {toState : CutoverState}
    {p : StepPlan} (h : step ledger status toState {} = .ok p) :
    ∃ state, ledger = some state ∧ isValidTransition state.current toState = true ∧
      p.toState = toState ∧ p.metadata.state = none ∧
      ((p.setStatus = some .cutover ∧ (status = .active ∨ status = .paused)) ∨
        (p.setStatus = none ∧ isAfterCutover status = true)) ∧
      p.metadata.copiesThroughGrace =
        if toState = CUTOVER_IN_PROGRESS then some (decide (status = .active)) else none := by
  unfold step at h
  cases ledger with
  | none => cases h
  | some state =>
      dsimp only at h
      by_cases hvalid : isValidTransition state.current toState = true
      · rw [hvalid, Bool.not_true, if_neg Bool.false_ne_true] at h
        refine ⟨state, rfl, hvalid, ?_⟩
        cases status <;> simp only [cutoverTransition, keepsCopyingThroughGrace] at h <;> cases h <;>
          by_cases hto : toState = CUTOVER_IN_PROGRESS <;> simp [hto, isAfterCutover]
      · rw [Bool.not_eq_true] at hvalid
        rw [hvalid, Bool.not_false, if_pos rfl] at h
        cases h

/-- A step that is not refused has planned. -/
theorem planned {s : Step} {ledger : Option CutoverStatus} {status : PathState} {p : StepPlan}
    (h : s.plan ledger status = .ok p) :
    ∃ state, ledger = some state ∧ Planned s state.current status p := by
  cases s with
  | enterCutover =>
      obtain ⟨state, hl, hvalid, hto, hstate, hset, hcopies⟩ := planned_of_step h
      exact ⟨state, hl, hto, hvalid, hstate, fun _ => hset, nofun, hcopies⟩
  | closeCutover =>
      obtain ⟨state, hl, hvalid, hto, hstate, hset, hcopies⟩ := planned_of_step h
      exact ⟨state, hl, hto, hvalid, hstate, fun _ => hset, nofun, hcopies⟩
  | performRollback reason =>
      change performRollback reason ledger status = .ok p at h
      unfold performRollback at h
      cases ledger with
      | none => cases h
      | some state =>
          dsimp only at h
          by_cases hvalid : isValidTransition state.current ROLLED_BACK = true
          · rw [hvalid, Bool.not_true, if_neg Bool.false_ne_true] at h
            refine ⟨state, rfl, ?_⟩
            cases status <;> simp only [rollbackTransition] at h <;> cases h <;>
              exact ⟨rfl, hvalid, rfl, fun hne => absurd rfl hne, by simp, rfl⟩
          · rw [Bool.not_eq_true] at hvalid
            rw [hvalid, Bool.not_false, if_pos rfl] at h
            cases h

theorem step_of_valid {state : CutoverStatus} {status : PathState} {toState : CutoverState}
    {m : TransitionMetadata} (hvalid : isValidTransition state.current toState = true)
    (hready : status ≠ .ready) : ∃ p, step (some state) status toState m = .ok p := by
  unfold step
  dsimp only
  rw [hvalid, Bool.not_true, if_neg Bool.false_ne_true]
  cases status with
  | ready => exact absurd rfl hready
  | active => exact ⟨_, rfl⟩
  | paused => exact ⟨_, rfl⟩
  | cutover => exact ⟨_, rfl⟩
  | done => exact ⟨_, rfl⟩
  | continuous => exact ⟨_, rfl⟩

theorem performRollback_of_valid {state : CutoverStatus} {status : PathState} {reason : String}
    (hvalid : isValidTransition state.current ROLLED_BACK = true) (hready : status ≠ .ready)
    (hdone : status ≠ .done) : ∃ p, performRollback reason (some state) status = .ok p := by
  unfold performRollback
  dsimp only
  rw [hvalid, Bool.not_true, if_neg Bool.false_ne_true]
  cases status with
  | ready => exact absurd rfl hready
  | done => exact absurd rfl hdone
  | active => exact ⟨_, rfl⟩
  | paused => exact ⟨_, rfl⟩
  | cutover => exact ⟨_, rfl⟩
  | continuous => exact ⟨_, rfl⟩

/-- What a step answers of the lifecycle is what it wrote, or what it left. -/
theorem outcome_of_plan {s : Step} {ledger : Option CutoverStatus} {status : PathState}
    {p : StepPlan} (h : s.plan ledger status = .ok p) :
    p.outcome.mapping.toState = (p.setStatus.map (·.state)).getD status := by
  obtain ⟨state, rfl, hp⟩ := planned h
  have hvalid := hp.valid
  cases s with
  | performRollback reason =>
      change performRollback reason (some state) status = .ok p at h
      unfold performRollback at h
      dsimp only at h
      rw [show isValidTransition state.current ROLLED_BACK = true from hvalid, Bool.not_true,
        if_neg Bool.false_ne_true] at h
      cases status <;> cases h <;> rfl
  | enterCutover =>
      change step (some state) status CUTOVER_IN_PROGRESS {} = .ok p at h
      unfold step at h
      dsimp only at h
      rw [show isValidTransition state.current CUTOVER_IN_PROGRESS = true from hvalid,
        Bool.not_true, if_neg Bool.false_ne_true] at h
      cases status <;> cases h <;> rfl
  | closeCutover =>
      change step (some state) status COMPLETED {} = .ok p at h
      unfold step at h
      dsimp only at h
      rw [show isValidTransition state.current COMPLETED = true from hvalid, Bool.not_true,
        if_neg Bool.false_ne_true] at h
      cases status <;> cases h <;> rfl

end Ownpace.Cutover
