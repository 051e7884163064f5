/-
Ownpace/Lifecycle/Presses.lean

The presses on one data type: a step of its own cutover, End, Keep, stop and
resume.

Each door writes the row of its data type and then, but for a stop, the status
as the roll-up of the rows.  A data type without a row, or one whose rows were
not believed, takes its phase from that status: so a press that moves the
status moves those with it.  `Press.Framed` is what a press should leave, and
`framed_iff` says exactly where it does.
-/
import Ownpace.Cutover.Halves
import Ownpace.Lifecycle.Paths

namespace Ownpace.Lifecycle

open Cutover (CutoverLedgers Refused StepOutcome Step)

/-! ### What a press is decided from -/

structure CarriedPath where
  domain : DiscoveryDomain
  /-- `none` for one with no row: it runs in the migration's. -/
  phase : Option PathState
  stopped : Bool
  deriving DecidableEq

structure PathStopFacts where
  status : MappingLifecycle
  carried : List CarriedPath
  deriving DecidableEq

namespace Migration

def carriedPath (m : Migration) (domain : DiscoveryDomain) : CarriedPath where
  domain := domain
  phase := (m.paths domain).map (·.state)
  stopped := ((m.paths domain).map (·.stopped)).getD false

def readPathStopFacts (m : Migration) : PathStopFacts where
  status := m.status
  carried := m.includedDomains.map m.carriedPath

end Migration

/-! ### Stop and resume -/

inductive PathStopRefusal where
  | not_running (status : PathState)
  | not_a_path
  | not_stoppable (phase : PathState)
  | last_one_copying
  deriving DecidableEq

/-- `STATES_A_DATA_TYPE_STOPS_IN` -/
def statesADataTypeStopsIn : List PathState := [.active, .continuous]

/-- `runs` -/
def runsIn (state : PathState) : Bool := statesADataTypeStopsIn.contains state

inductive PathStopDecision where
  | refused (refused : PathStopRefusal)
  | unchanged
  | changes (phase : PathState) (hasRow : Bool)
  deriving DecidableEq

def decidePathStop (facts : PathStopFacts) (domain : DiscoveryDomain) (stop : Bool) :
    PathStopDecision :=
  if !runsIn facts.status.state then .refused (.not_running facts.status.state)
  else
    match facts.carried.find? fun p => p.domain = domain with
    | none => .refused .not_a_path
    | some path =>
      let phase := path.phase.getD facts.status.state
      if !runsIn phase then .refused (.not_stoppable phase)
      else if path.stopped = stop then .unchanged
      else
        let othersCopying := facts.carried.filter fun p =>
          p.domain ≠ domain &&
            match p.phase with
            | none => true
            | some phase => runsIn phase && !p.stopped
        if stop && othersCopying.isEmpty then .refused .last_one_copying
        else .changes phase path.phase.isSome

inductive PathStopOutcome where
  | answered (changed slotsTaken : Bool)
  | refused (refused : PathStopRefusal)
  deriving DecidableEq

/-- Stop or resume one data type of a running migration. -/
def stopOrResumePath (m : Migration) (domain : DiscoveryDomain) (stop : Bool) (actor : String) :
    Migration × PathStopOutcome :=
  match decidePathStop m.readPathStopFacts domain stop with
  | .refused r => (m, .refused r)
  | .unchanged => (m, .answered false false)
  | .changes phase hasRow =>
    -- A data type with no row is given it only now.
    let given : Migration :=
      if hasRow then m
      else { m with paths := Function.update m.paths domain (some { state := phase }) }
    let stopped : Migration := { given with
      paths := Function.update given.paths domain
        ((given.paths domain).map fun row =>
          { row with stopped := stop, ended := !holdsASlot phase stop }) }
    ({ stopped with audit := stopped.audit ++ [.pathStatus domain phase stop actor] },
      .answered true (!stop && holdsASlot phase stop && !holdsASlot phase true))

/-! ### End and Keep -/

/-- `'end' | 'keep'` -/
inductive PathEnding where
  | finish
  | keep
  deriving DecidableEq

/-- `PHASES_A_DATA_TYPE_ENDS_FROM`: started, and not held by a pause. -/
def phasesADataTypeEndsFrom : List PathState := [.active, .cutover, .done, .continuous]

inductive PathEndingRefusal where
  | not_running (status : PathState)
  | not_a_path
  | stopped
  | unresolved_failures (count : Nat)
  deriving DecidableEq

inductive PathEndingDecision where
  | refused (refused : PathEndingRefusal)
  | unchanged (phase : PathState)
  | changes (phase : PathState) (stopped believeTheStatus : Bool) (steps : List MappingLifecycle)
      (forced : Bool)
  deriving DecidableEq

/-- Rows that do not add up to the status are not believed. -/
def theStatusOverTheRows (facts : PathStopFacts) : Bool :=
  let rows := facts.carried.filterMap (·.phase)
  rows.length > 0 && rollUpPhases rows ≠ some facts.status

def believedPhase (facts : PathStopFacts) (path : CarriedPath) : PathState :=
  match path.phase with
  | none => facts.status.state
  | some phase => if theStatusOverTheRows facts then facts.status.state else phase

def decidePathEnding (facts : PathStopFacts) (domain : DiscoveryDomain) (ending : PathEnding)
    (unresolvedFailures : Nat) (force : Bool) : PathEndingDecision :=
  if !phasesADataTypeEndsFrom.contains facts.status.state then
    .refused (.not_running facts.status.state)
  else
    match facts.carried.find? fun p => p.domain = domain with
    | none => .refused .not_a_path
    | some path =>
      let believeTheStatus := theStatusOverTheRows facts
      let phase := believedPhase facts path
      if !phasesADataTypeEndsFrom.contains phase then .refused (.not_running phase)
      else
        match ending with
        | .finish =>
          if phase = .done then .unchanged phase
          else if unresolvedFailures > 0 && !force then
            .refused (.unresolved_failures unresolvedFailures)
          else .changes phase path.stopped believeTheStatus [.done] (unresolvedFailures > 0)
        | .keep =>
          if phase = .continuous then .unchanged phase
          else if path.stopped then .refused .stopped
          else .changes phase false believeTheStatus
            (if phase = .active then [.cutover, .continuous] else [.continuous]) false

/-- `VIA` -/
def viaOfStep : MappingLifecycle → MappingStatusVia
  | .cutover => .cutover
  | .done => .finish
  | _ => .update

inductive PathEndingOutcome where
  | unchanged (phase : PathState)
  | changed (fromState toState : PathState) (slotsTaken : Bool)
  | refused (refused : PathEndingRefusal)
  deriving DecidableEq

namespace Migration

/-- Bring every row that is not in it to the status. -/
def bringToTheStatus (m : Migration) : Migration :=
  m.readPathStopFacts.carried.foldl (fun moved path =>
    if path.phase = none ∨ path.phase = some m.status.state then moved
    else if m.status = .active then moved.activate path.domain
    else moved.moveTo path.domain m.status.state) m

/-- Clear a stop, which the ending supersedes. -/
def clearStop (m : Migration) (domain : DiscoveryDomain) : Migration :=
  { m with
    paths := Function.update m.paths domain
      ((m.paths domain).map fun row => { row with stopped := false }) }

/-- Move a path through the steps of an ending, each recorded. -/
def movePathThrough (m : Migration) (domain : DiscoveryDomain) (fromState : PathState)
    (actor : String) (forced : Bool) : List MappingLifecycle → Migration
  | [] => m
  | step :: steps =>
    let moved := m.moveTo domain step.state
    let recorded : Migration := { moved with
      audit := moved.audit ++ [.pathPhase domain fromState step.state actor (viaOfStep step) forced] }
    recorded.movePathThrough domain step.state actor forced steps

end Migration

def endOrKeepPath (m : Migration) (domain : DiscoveryDomain) (ending : PathEnding) (actor : String)
    (unresolvedFailures : Nat) (force : Bool) : Migration × PathEndingOutcome :=
  match decidePathEnding m.readPathStopFacts domain ending unresolvedFailures force with
  | .refused r => (m, .refused r)
  | .unchanged phase => (m, .unchanged phase)
  | .changes phase stopped believeTheStatus steps forced =>
    let m := if believeTheStatus then m.bringToTheStatus else m
    let m := m.movePathThrough domain phase actor forced steps
    let m := if stopped then m.clearStop domain else m
    let toState := (steps.getLast?).getD .done
    (m.writeTheRollUp actor (viaOfStep toState) forced,
      .changed phase toState.state (toState = .continuous && !holdsASlot phase false))

/-! ### A step of its own cutover -/

/-- Move one data type's path and record it, with the status as the roll-up. -/
def Migration.applyPathStatusChange (m : Migration) (domain : DiscoveryDomain)
    (fromState : PathState) (toState : MappingLifecycle) (actor : String)
    (via : MappingStatusVia) : Migration :=
  let m := if toState = .active then m.activate domain else m.moveTo domain toState.state
  let m := m.writeTheRollUp actor via
  { m with audit := m.audit ++ [.pathPhase domain fromState toState.state actor via false] }

/-- What a step answered. -/
inductive StepAnswer where
  | refused (refused : Refused)
  /-- The ledger's store threw, after the lifecycle was written. -/
  | threw (message : String)
  | done (outcome : StepOutcome)
  deriving DecidableEq

/-- A lifecycle, as the core's steps ask for it. -/
structure MappingLifecyclePort where
  readStatus : Migration → PathState
  setStatus : Migration → (fromState : PathState) → (toState : MappingLifecycle) →
    MappingStatusVia → Migration

/-- One data type's path. -/
def pathLifecyclePort (domain : DiscoveryDomain) (actor : String) : MappingLifecyclePort where
  readStatus m := m.readStatus domain
  setStatus m fromState toState via := m.applyPathStatusChange domain fromState toState actor via

/-- `via` of the write of a step. -/
def viaOf : Step → MappingStatusVia
  | .performRollback _ => .rollback
  | _ => .cutover

/-- Run a step over a port, on a ledger: `none` for the whole migration's. -/
def runStep (port : MappingLifecyclePort) (ledger : Option DiscoveryDomain) (s : Step) (now : Nat)
    (m : Migration) : Migration × StepAnswer :=
  match s.plan (m.ledgers.loadCutoverState ledger) (port.readStatus m) with
  | .error refused => (m, .refused refused)
  | .ok plan =>
    let moved := match plan.setStatus with
      | some toState => port.setStatus m plan.outcome.mapping.fromState toState (viaOf s)
      | none => m
    match moved.ledgers.transitionState now plan.toState (.metadata plan.metadata) ledger with
    | .ok (ledgers, _) => ({ moved with ledgers }, .done plan.outcome)
    | .error message => (moved, .threw message)

/-! ### What a press should leave -/

/-- A press on one data type. -/
inductive Press where
  | ownStep (s : Step) (now : Nat)
  | endOrKeep (ending : PathEnding) (unresolvedFailures : Nat) (force : Bool)
  | stopOrResume (stop : Bool)

/-- What was pressed. -/
inductive Pressed where
  | phase (phase : PathState)
  | stop (stop : Bool)
  deriving DecidableEq

inductive PressOutcome where
  /-- Refused, or thrown. -/
  | refused
  /-- It already was as asked. -/
  | unchanged
  | accepted (pressed : Pressed)
  deriving DecidableEq

def Press.run (domain : DiscoveryDomain) (actor : String) (m : Migration) :
    Press → Migration × PressOutcome
  | ownStep s now =>
    let r := runStep (pathLifecyclePort domain actor) (some domain) s now m
    (r.1, match r.2 with
      | .done outcome => .accepted (.phase outcome.mapping.toState)
      | _ => .refused)
  | endOrKeep ending unresolvedFailures force =>
    let r := endOrKeepPath m domain ending actor unresolvedFailures force
    (r.1, match r.2 with
      | .changed _ toState _ => .accepted (.phase toState)
      | .unchanged _ => .unchanged
      | .refused _ => .refused)
  | stopOrResume stop =>
    let r := stopOrResumePath m domain stop actor
    (r.1, match r.2 with
      | .answered true _ => .accepted (.stop stop)
      | .answered false _ => .unchanged
      | .refused _ => .refused)

/-- What is read of a data type is what was pressed. -/
def Pressed.Read (domain : DiscoveryDomain) (m : Migration) : Pressed → Prop
  | phase p => m.phaseOf domain = p
  | stop b => m.stoppedOf domain = b

/-- A press moved its own data type, and no other. -/
structure MovedOnly (domain : DiscoveryDomain) (pressed : Pressed) (m m' : Migration) : Prop where
  others : ∀ e, e ≠ domain → m.included e = true →
    m'.phaseOf e = m.phaseOf e ∧ m'.stoppedOf e = m.stoppedOf e
  own : pressed.Read domain m'
  /-- The status is the roll-up of the rows, where there are any. -/
  rolledUp : m'.phases = [] ∨ m'.Agreed

/-- No row, status or record has changed. -/
def Untouched (m m' : Migration) : Prop :=
  m'.paths = m.paths ∧ m'.status = m.status ∧ m'.audit = m.audit

/-- What a press should leave. -/
def Press.Framed (domain : DiscoveryDomain) (actor : String) (m : Migration) (p : Press) : Prop :=
  match p.run domain actor m with
  | (m', .accepted pressed) => MovedOnly domain pressed m m'
  | (m', _) => Untouched m m'

/-! ### Where it leaves that -/

namespace Migration

/-- The rows as they are read: moved to the phase they are read in. -/
def believedRow (m : Migration) (d : DiscoveryDomain) : Option PathRow :=
  (m.carried d).map fun row => row.readAs (m.phaseOf d)

/-- The phases of the rows as they are read, one of them in another. -/
def phasesWith (m : Migration) (d : DiscoveryDomain) (state : PathState) : List PathState :=
  statesOf (Function.update m.believedRow d (some { state }))

/-- Some other carried data type has no row. -/
def OtherWithoutRow (m : Migration) (d : DiscoveryDomain) : Prop :=
  ∃ e, e ≠ d ∧ m.included e = true ∧ m.paths e = none

/-- Every other row is in the phase it is read in. -/
def OthersBelieved (m : Migration) (d : DiscoveryDomain) : Prop :=
  ∀ e row, e ≠ d → m.carried e = some row → m.Agreed ∨ row.state = m.status.state

/-! ### What the writes do -/

variable {m m' : Migration} {d : DiscoveryDomain}

theorem statesOf_congr {p q : DiscoveryDomain → Option PathRow}
    (h : ∀ e, (p e).map (·.state) = (q e).map (·.state)) : statesOf p = statesOf q := by
  unfold statesOf
  simp only [h]

theorem carried_eq (hd : m.included d = true) : m.carried d = m.paths d := if_pos hd

theorem included_of_carried {row : PathRow} (h : m.carried d = some row) :
    m.included d = true := by
  unfold carried at h
  split at h
  · assumption
  · cases h

theorem phases_ne_nil {row : PathRow} (h : m.carried d = some row) : m.phases ≠ [] :=
  List.ne_nil_of_mem (mem_statesOf.mpr ⟨d, row, h, rfl⟩)

theorem carried_moveTo (hd : m.included d = true) (state : PathState) :
    (m.moveTo d state).carried =
      Function.update m.carried d (some (movedRow (m.carried d) state)) := by
  funext e
  by_cases he : e = d
  · subst he
    rw [Function.update_self, carried_eq hd]
    simp [carried, moveTo, hd]
  · rw [Function.update_of_ne he]
    simp [carried, moveTo, he]

/-- The roll-up writes the status, from rows that are there. -/
theorem writeTheRollUp_spec (hrows : m.phases ≠ []) (actor : String) (via : MappingStatusVia)
    (forced : Bool) :
    (m.writeTheRollUp actor via forced).paths = m.paths ∧
      (m.writeTheRollUp actor via forced).included = m.included ∧
      (m.writeTheRollUp actor via forced).ledgers = m.ledgers ∧
      rollUpPhases m.phases = some (m.writeTheRollUp actor via forced).status := by
  obtain ⟨rolled, hrolled⟩ := rollUpPhases_isSome hrows
  unfold writeTheRollUp
  rw [hrolled]
  dsimp only
  split
  · next hsame => exact ⟨rfl, rfl, rfl, congrArg some hsame⟩
  · unfold recordMappingStatusChange
    split
    · exact ⟨rfl, rfl, rfl, rfl⟩
    · exact ⟨rfl, rfl, rfl, rfl⟩

/-- Where the rows add up afterwards, the others are read as before when each
row is in the phase it was read in, and the status stood for one without. -/
theorem others_iff (hincluded : m'.included = m.included) (hagreed : m'.Agreed)
    (hstops : ∀ e, e ≠ d → (m'.carried e).map (·.stopped) = (m.carried e).map (·.stopped)) :
    (∀ e, e ≠ d → m.included e = true →
      m'.phaseOf e = m.phaseOf e ∧ m'.stoppedOf e = m.stoppedOf e) ↔
    (∀ e row, e ≠ d → m'.carried e = some row → row.state = m.phaseOf e) ∧
      (m.OtherWithoutRow d → m'.status = m.status) := by
  constructor
  · intro h
    refine ⟨fun e row he hrow => ?_, ?_⟩
    · have hphase := (h e he (hincluded ▸ included_of_carried hrow)).1
      rwa [phaseOf_of_row hrow, if_pos hagreed] at hphase
    · rintro ⟨e, he, hincl, hnone⟩
      have hcarried : m.carried e = none := by rw [carried_eq hincl, hnone]
      have hcarried' : m'.carried e = none := by
        have hstop := hstops e he
        rw [hcarried] at hstop
        exact Option.map_eq_none_iff.mp hstop
      have hphase := (h e he hincl).1
      rw [phaseOf_of_no_row hcarried, phaseOf_of_no_row hcarried'] at hphase
      exact MappingLifecycle.state_injective hphase
  · rintro ⟨hrows, hnone⟩ e he hincl
    refine ⟨?_, by rw [stoppedOf_eq, stoppedOf_eq, hstops e he]⟩
    cases hrow : m'.carried e with
    | some row => rw [phaseOf_of_row hrow, if_pos hagreed, hrows e row he hrow]
    | none =>
        have hcarried : m.carried e = none := by
          have hstop := hstops e he
          rw [hrow] at hstop
          exact Option.map_eq_none_iff.mp hstop.symm
        have hpaths : m.paths e = none := by rw [← carried_eq hincl, hcarried]
        rw [phaseOf_of_no_row hrow, phaseOf_of_no_row hcarried, hnone ⟨e, he, hincl, hpaths⟩]

theorem carried_congr {m m' : Migration} (hpaths : m'.paths = m.paths)
    (hincluded : m'.included = m.included) : m'.carried = m.carried := by
  funext e
  simp only [carried, hpaths, hincluded]

theorem applyPathStatusChange_eq (fromState : PathState) (toState : MappingLifecycle)
    (actor : String) (via : MappingStatusVia) :
    m.applyPathStatusChange d fromState toState actor via =
      let rolled := (m.moveTo d toState.state).writeTheRollUp actor via
      { rolled with audit := rolled.audit ++ [.pathPhase d fromState toState.state actor via false] } := by
  have hmove : (if toState = .active then m.activate d else m.moveTo d toState.state) =
      m.moveTo d toState.state := by
    split
    · next h => rw [h]; rfl
    · rfl
  unfold applyPathStatusChange
  rw [hmove]

/-- A path moved on its own: its row, and the status as the roll-up. -/
theorem applyPathStatusChange_spec (hd : m.included d = true) (fromState : PathState)
    (toState : MappingLifecycle) (actor : String) (via : MappingStatusVia) :
    let m' := m.applyPathStatusChange d fromState toState actor via
    m'.included = m.included ∧ m'.ledgers = m.ledgers ∧ m'.Agreed ∧
      m'.carried = Function.update m.carried d (some (movedRow (m.carried d) toState.state)) := by
  have hcarried := carried_moveTo hd toState.state
  have hrow : (m.moveTo d toState.state).carried d =
      some (movedRow (m.carried d) toState.state) := by rw [hcarried, Function.update_self]
  obtain ⟨hpaths, hincluded, hledgers, hrolled⟩ :=
    writeTheRollUp_spec (phases_ne_nil hrow) actor via false
  rw [applyPathStatusChange_eq]
  generalize (m.moveTo d toState.state).writeTheRollUp actor via = rolled at *
  have hsame : rolled.carried = (m.moveTo d toState.state).carried :=
    carried_congr hpaths hincluded
  refine ⟨hincluded, hledgers, ?_, hsame.trans hcarried⟩
  show rollUpPhases (statesOf rolled.carried) = some rolled.status
  rw [hsame]
  exact hrolled

end Migration

/-! ### A step of its own cutover -/

open Cutover CutoverState

variable {m : Migration} {d : DiscoveryDomain} {actor : String}

/-- The lifecycle a step moves to, where it moves one. -/
def endsIn (s : Step) : MappingLifecycle := if s.toState = ROLLED_BACK then .active else .cutover

/-- A step moves a data type in this phase. -/
def MovesPhase (s : Step) (phase : PathState) : Prop :=
  if s.toState = ROLLED_BACK then phase = .cutover ∨ phase = .continuous
  else phase = .active ∨ phase = .paused

/-- A step leaves a data type in this phase. -/
def LeavesPhase (s : Step) (phase : PathState) : Prop :=
  if s.toState = ROLLED_BACK then phase = .active ∨ phase = .paused
  else isAfterCutover phase = true

theorem planned_moves {s : Step} {fromState : CutoverState} {status : PathState} {p : StepPlan}
    (h : Planned s fromState status p) :
    (p.setStatus = some (endsIn s) ∧ MovesPhase s status) ∨
      (p.setStatus = none ∧ LeavesPhase s status) := by
  unfold endsIn MovesPhase LeavesPhase
  by_cases hs : s.toState = ROLLED_BACK
  · simp only [if_pos hs]
    exact h.rollback hs
  · simp only [if_neg hs]
    exact h.cutover hs

theorem plan_of_valid {s : Step} {state : CutoverStatus} {status : PathState}
    (hvalid : isValidTransition state.current s.toState = true)
    (hup : MovesPhase s status ∨ LeavesPhase s status) : ∃ p, s.plan (some state) status = .ok p := by
  have hready : status ≠ .ready := by
    rintro rfl
    cases s <;> simp [MovesPhase, LeavesPhase, Step.toState, isAfterCutover] at hup
  cases s with
  | enterCutover => exact step_of_valid hvalid hready
  | closeCutover => exact step_of_valid hvalid hready
  | performRollback reason =>
      refine performRollback_of_valid hvalid hready ?_
      rintro rfl
      simp [MovesPhase, LeavesPhase, Step.toState] at hup

/-- A data type on the whole migration's ledger writes none. -/
theorem transitionState_no_row {s : CutoverLedgers} (now : Nat) {toState : CutoverState}
    (held : MetadataOrReason) (hrow : s.rows (some d) = none) (hto : toState ≠ PREPARING) :
    ∃ message, s.transitionState now toState held (some d) = .error message := by
  cases h : s.transitionState now toState held (some d) with
  | error message => exact ⟨message, rfl⟩
  | ok p =>
      obtain ⟨current, _, hload, hmay, _⟩ := CutoverLedgers.transitionState_ok h
      obtain ⟨_, _, ⟨hown, _⟩ | ⟨_, _, hdom⟩⟩ := loadCutoverState_eq hload
      · rw [hrow] at hown
        cases hown
      · exact absurd (CutoverLedgers.begins_of_leaves hdom hmay).2 hto

theorem transitionState_row {s : CutoverLedgers} {ledger : Option DiscoveryDomain} (now : Nat)
    {toState : CutoverState} (held : MetadataOrReason) {row : CutoverRow} {state : CutoverStatus}
    (hrow : s.rows ledger = some row) (hload : s.loadCutoverState ledger = some state)
    (hvalid : isValidTransition state.current toState = true) (hto : toState ≠ PREPARING) :
    ∃ s' status, s.transitionState now toState held ledger = .ok (s', status) := by
  rw [load_own hrow] at hload
  cases hload
  obtain ⟨s', status, _, hok, _⟩ := transitionState_own now held hrow hvalid hto
  exact ⟨s', status, hok⟩

/-- What a step of a data type's own cutover did: nothing, both writes, or the
path's alone, where the store threw. -/
inductive OwnStepRun (d : DiscoveryDomain) (actor : String) (s : Step) (m : Migration) :
    Migration × PressOutcome → Prop
  | refused : (∀ state, m.ledgers.loadCutoverState (some d) = some state →
      isValidTransition state.current s.toState = true →
      ¬ MovesPhase s (m.phaseOf d) ∧ ¬ LeavesPhase s (m.phaseOf d)) →
      OwnStepRun d actor s m (m, .refused)
  | moved {state fromState ledgers} : m.ledgers.loadCutoverState (some d) = some state →
      isValidTransition state.current s.toState = true → MovesPhase s (m.phaseOf d) →
      m.ledgers.rows (some d) ≠ none →
      OwnStepRun d actor s m
        ({ m.applyPathStatusChange d fromState (endsIn s) actor (viaOf s) with ledgers },
          .accepted (.phase (endsIn s).state))
  | movedAlone {state fromState} : m.ledgers.loadCutoverState (some d) = some state →
      isValidTransition state.current s.toState = true → MovesPhase s (m.phaseOf d) →
      m.ledgers.rows (some d) = none →
      OwnStepRun d actor s m
        (m.applyPathStatusChange d fromState (endsIn s) actor (viaOf s), .refused)
  | left {state ledgers} : m.ledgers.loadCutoverState (some d) = some state →
      isValidTransition state.current s.toState = true → LeavesPhase s (m.phaseOf d) →
      m.ledgers.rows (some d) ≠ none →
      OwnStepRun d actor s m ({ m with ledgers }, .accepted (.phase (m.phaseOf d)))
  | leftAlone : m.ledgers.rows (some d) = none → ¬ MovesPhase s (m.phaseOf d) →
      OwnStepRun d actor s m (m, .refused)

theorem not_moves_of_leaves {s : Step} {phase : PathState} (h : LeavesPhase s phase) :
    ¬ MovesPhase s phase := by
  unfold LeavesPhase at h
  unfold MovesPhase
  split at h
  · rw [if_pos ‹_›]
    rcases h with rfl | rfl <;> decide
  · rw [if_neg ‹_›]
    rintro (rfl | rfl) <;> cases h

theorem ownStepRun (actor : String) (hd : m.included d = true) (s : Step) (now : Nat) :
    OwnStepRun d actor s m ((Press.ownStep s now).run d actor m) := by
  have hread : (pathLifecyclePort d actor).readStatus m = m.phaseOf d := Migration.readStatus_eq
  simp only [Press.run, runStep, hread]
  cases hplan : s.plan (m.ledgers.loadCutoverState (some d)) (m.phaseOf d) with
  | error refused =>
      refine .refused fun state hload hvalid => ?_
      rw [hload] at hplan
      have hnot (hup : MovesPhase s (m.phaseOf d) ∨ LeavesPhase s (m.phaseOf d)) : False := by
        obtain ⟨p, hp⟩ := plan_of_valid hvalid hup
        rw [hplan] at hp
        cases hp
      exact ⟨fun h => hnot (.inl h), fun h => hnot (.inr h)⟩
  | ok p =>
      obtain ⟨state, hload, hp⟩ := planned hplan
      have hto : p.toState ≠ PREPARING := hp.toState ▸ s.toState_ne_preparing
      have hanswer := outcome_of_plan hplan
      dsimp only
      rcases planned_moves hp with ⟨hset, hmoves⟩ | ⟨hset, hleaves⟩
      · rw [hset] at hanswer ⊢
        dsimp only
        have hledgers : ((pathLifecyclePort d actor).setStatus m p.outcome.mapping.fromState
            (endsIn s) (viaOf s)).ledgers = m.ledgers :=
          (Migration.applyPathStatusChange_spec hd _ (endsIn s) actor (viaOf s)).2.1
        rw [hledgers]
        cases hrow : m.ledgers.rows (some d) with
        | none =>
            obtain ⟨message, hthrow⟩ :=
              transitionState_no_row now (.metadata p.metadata) hrow hto
            rw [hthrow]
            exact .movedAlone hload hp.valid hmoves hrow
        | some row =>
            obtain ⟨ledgers, status, hok⟩ := transitionState_row now (.metadata p.metadata) hrow hload
              (hp.toState ▸ hp.valid) hto
            rw [hok]
            simp only [hanswer]
            exact .moved hload hp.valid hmoves (by rw [hrow]; exact Option.some_ne_none row)
      · rw [hset] at hanswer ⊢
        dsimp only
        cases hrow : m.ledgers.rows (some d) with
        | none =>
            obtain ⟨message, hthrow⟩ :=
              transitionState_no_row now (.metadata p.metadata) hrow hto
            rw [hthrow]
            exact .leftAlone hrow (not_moves_of_leaves hleaves)
        | some row =>
            obtain ⟨ledgers, status, hok⟩ := transitionState_row now (.metadata p.metadata) hrow hload
              (hp.toState ▸ hp.valid) hto
            rw [hok]
            simp only [hanswer]
            exact .left hload hp.valid hleaves (by rw [hrow]; exact Option.some_ne_none row)

/-- Where a step of a data type's own cutover leaves what it should: with a
ledger of the data type's own under it, and the status not moved under a data
type that reads it. -/
def OwnStepSound (m : Migration) (d : DiscoveryDomain) (s : Step) : Prop :=
  ∀ state, m.ledgers.loadCutoverState (some d) = some state →
    isValidTransition state.current s.toState = true →
    (MovesPhase s (m.phaseOf d) → m.ledgers.rows (some d) ≠ none ∧ m.OthersBelieved d ∧
      (m.OtherWithoutRow d → rollUpPhases (m.phasesWith d (endsIn s).state) = some m.status)) ∧
    (LeavesPhase s (m.phaseOf d) → m.ledgers.rows (some d) ≠ none → m.phases = [] ∨ m.Agreed)

namespace Migration

/-- The rows with one path moved, read as before, are the rows as they were
read with that path moved. -/
theorem statesOf_update_eq {row : PathRow} {state : PathState} (hrow : row.state = state)
    (hothers : m.OthersBelieved d) :
    statesOf (Function.update m.carried d (some row)) = m.phasesWith d state := by
  refine statesOf_congr fun e => ?_
  by_cases he : e = d
  · subst he
    rw [Function.update_self, Function.update_self, Option.map_some, Option.map_some, hrow]
  · rw [Function.update_of_ne he, Function.update_of_ne he]
    cases hcarried : m.carried e with
    | none => rw [believedRow, hcarried]; rfl
    | some other =>
        rw [believedRow, hcarried, phaseOf_of_row hcarried]
        rcases hothers e other he hcarried with hagreed | hsame
        · rw [if_pos hagreed, Option.map_some, Option.map_some, PathRow.readAs_self]
          rfl
        · rw [Option.map_some, Option.map_some, Option.map_some, PathRow.readAs_state, hsame,
            ite_self]

theorem othersBelieved_iff :
    m.OthersBelieved d ↔
      ∀ e row, e ≠ d → m.carried e = some row → row.state = m.phaseOf e := by
  unfold OthersBelieved
  refine forall₄_congr fun e row he hrow => ?_
  rw [phaseOf_of_row hrow]
  by_cases hagreed : m.Agreed
  · simp [hagreed]
  · simp [hagreed]

/-- A path is moved on its own, rolled up and recorded: what the others read. -/
theorem others_of_update {m' : Migration} {row : PathRow} {state : PathState}
    (hincluded : m'.included = m.included) (hagreed : m'.Agreed)
    (hcarried : m'.carried = Function.update m.carried d (some row)) (hrow : row.state = state) :
    (∀ e, e ≠ d → m.included e = true →
      m'.phaseOf e = m.phaseOf e ∧ m'.stoppedOf e = m.stoppedOf e) ↔
    m.OthersBelieved d ∧
      (m.OtherWithoutRow d → rollUpPhases (m.phasesWith d state) = some m.status) := by
  have hother : ∀ e, e ≠ d → m'.carried e = m.carried e := by
    intro e he
    rw [hcarried, Function.update_of_ne he]
  rw [others_iff hincluded hagreed fun e he => by rw [hother e he], othersBelieved_iff]
  have hfirst : (∀ e row, e ≠ d → m'.carried e = some row → row.state = m.phaseOf e) ↔
      ∀ e row, e ≠ d → m.carried e = some row → row.state = m.phaseOf e := by
    refine forall₃_congr fun e row he => ?_
    rw [hother e he]
  rw [hfirst]
  refine and_congr_right fun hothers => imp_congr_right fun _ => ?_
  have hphases : m'.phases = m.phasesWith d state := by
    rw [phases, hcarried]
    exact statesOf_update_eq hrow (othersBelieved_iff.mpr hothers)
  have hrolled : rollUpPhases (m.phasesWith d state) = some m'.status := hphases ▸ hagreed
  rw [hrolled, Option.some.injEq]

theorem audit_applyPathStatusChange (m : Migration) (d : DiscoveryDomain) (actor : String)
    (fromState : PathState) (toState : MappingLifecycle) (via : MappingStatusVia) :
    m.audit.length < (m.applyPathStatusChange d fromState toState actor via).audit.length := by
  have hle : m.audit.length ≤ ((m.moveTo d toState.state).writeTheRollUp actor via).audit.length := by
    unfold writeTheRollUp
    split
    · exact Nat.le_refl _
    · split
      · exact Nat.le_refl _
      · unfold recordMappingStatusChange
        split
        · exact Nat.le_refl _
        · rw [List.length_append]
          exact Nat.le_add_right _ _
  rw [applyPathStatusChange_eq, List.length_append]
  exact Nat.lt_succ_of_le hle

end Migration

open Migration

theorem ownStep_framed_iff (hd : m.included d = true) (s : Step) (now : Nat) :
    (Press.ownStep s now).Framed d actor m ↔ OwnStepSound m d s := by
  have hrun := ownStepRun actor hd s now
  unfold Press.Framed
  generalize (Press.ownStep s now).run d actor m = r at hrun ⊢
  cases hrun with
  | refused hnot =>
      refine iff_of_true ⟨rfl, rfl, rfl⟩ fun state hload hvalid => ?_
      obtain ⟨hmoves, hleaves⟩ := hnot state hload hvalid
      exact ⟨fun h => absurd h hmoves, fun h => absurd h hleaves⟩
  | @moved state fromState ledgers hload hvalid hmoves hown =>
      obtain ⟨hincluded, _, hagreed, hcarried⟩ :=
        applyPathStatusChange_spec hd fromState (endsIn s) actor (viaOf s)
      have hothers := others_of_update hincluded hagreed hcarried rfl
      constructor
      · intro h state' hload' hvalid'
        exact ⟨fun _ => ⟨hown, hothers.mp h.others⟩,
          fun hleaves => absurd hmoves (not_moves_of_leaves hleaves)⟩
      · intro h
        obtain ⟨_, hsound⟩ := (h state hload hvalid).1 hmoves
        refine ⟨hothers.mpr hsound, ?_, .inr hagreed⟩
        have hrow : (m.applyPathStatusChange d fromState (endsIn s) actor (viaOf s)).carried d =
            some (movedRow (m.carried d) (endsIn s).state) := by
          rw [hcarried, Function.update_self]
        exact (phaseOf_of_row hrow).trans (if_pos hagreed)
  | @movedAlone state fromState hload hvalid hmoves hown =>
      refine iff_of_false (fun h => ?_) fun h => ((h state hload hvalid).1 hmoves).1 hown
      have hlonger := audit_applyPathStatusChange m d actor fromState (endsIn s) (viaOf s)
      rw [h.2.2] at hlonger
      exact Nat.lt_irrefl _ hlonger
  | @left state ledgers hload hvalid hleaves hown =>
      constructor
      · intro h state' hload' hvalid'
        exact ⟨fun hmoves => absurd hmoves (not_moves_of_leaves hleaves), fun _ _ => h.rolledUp⟩
      · intro h
        exact ⟨fun e _ _ => ⟨rfl, rfl⟩, rfl, (h state hload hvalid).2 hleaves hown⟩
  | leftAlone hown hnot =>
      refine iff_of_true ⟨rfl, rfl, rfl⟩ fun state _ _ => ?_
      exact ⟨fun h => absurd h hnot, fun _ h => absurd hown h⟩

/-! ### Stop and resume -/

theorem find_carriedPath (hd : m.included d = true) :
    (m.readPathStopFacts.carried.find? fun p => p.domain = d) = some (m.carriedPath d) := by
  have hmem : d ∈ m.includedDomains := mem_includedDomains.mpr hd
  unfold readPathStopFacts
  generalize m.includedDomains = ds at hmem
  induction ds with
  | nil => cases hmem
  | cons e ds ih =>
      by_cases he : e = d
      · subst he
        exact List.find?_cons_of_pos (by simp [carriedPath])
      · have hnot : decide ((m.carriedPath e).domain = d) = false := decide_eq_false he
        show List.find? _ (m.carriedPath e :: ds.map m.carriedPath) = _
        rw [List.find?_cons]
        simp only [hnot]
        exact ih ((List.mem_cons.mp hmem).resolve_left (Ne.symm he))

/-- The phase a stop is asked in: the row's own, believed or not. -/
def stopsIn (m : Migration) (d : DiscoveryDomain) : PathState :=
  ((m.carried d).map (·.state)).getD m.status.state

/-- The row a stop or a resume leaves. -/
def stoppedRow (m : Migration) (d : DiscoveryDomain) (stop : Bool) : PathRow where
  state := stopsIn m d
  stopped := stop
  ended := !holdsASlot (stopsIn m d) stop

/-- Another data type still copies. -/
def OtherCopying (m : Migration) (d : DiscoveryDomain) : Prop :=
  ∃ e, e ≠ d ∧ m.included e = true ∧
    ∀ row, m.paths e = some row → runsIn row.state = true ∧ row.stopped = false

/-- The door takes this stop, or this resume. -/
structure StopMoves (m : Migration) (d : DiscoveryDomain) (stop : Bool) : Prop where
  status : runsIn m.status.state = true
  phase : runsIn (stopsIn m d) = true
  turns : m.stoppedOf d ≠ stop
  others : stop = true → OtherCopying m d

theorem othersCopying_isEmpty :
    ((m.readPathStopFacts.carried.filter fun p =>
      p.domain ≠ d &&
        match p.phase with
        | none => true
        | some phase => runsIn phase && !p.stopped).isEmpty) = true ↔ ¬ OtherCopying m d := by
  rw [List.isEmpty_iff, List.filter_eq_nil_iff]
  constructor
  · rintro h ⟨e, he, hincl, hrow⟩
    refine h (m.carriedPath e) (List.mem_map_of_mem (mem_includedDomains.mpr hincl)) ?_
    cases hpaths : m.paths e with
    | none => simp [carriedPath, hpaths, he]
    | some row =>
        obtain ⟨hruns, hstopped⟩ := hrow row hpaths
        simp [carriedPath, hpaths, he, hruns, hstopped]
  · rintro h p hp hcopies
    obtain ⟨e, hmem, rfl⟩ := List.mem_map.mp hp
    rw [Bool.and_eq_true] at hcopies
    refine h ⟨e, of_decide_eq_true hcopies.1, mem_includedDomains.mp hmem, ?_⟩
    intro row hpaths
    simpa [carriedPath, hpaths] using hcopies.2

/-- The decision, of a carried data type. -/
theorem decidePathStop_eq (hd : m.included d = true) (stop : Bool) :
    decidePathStop m.readPathStopFacts d stop =
      if !runsIn m.status.state then .refused (.not_running m.status.state)
      else if !runsIn (stopsIn m d) then .refused (.not_stoppable (stopsIn m d))
      else if m.stoppedOf d = stop then .unchanged
      else if stop && (m.readPathStopFacts.carried.filter fun p =>
          p.domain ≠ d &&
            match p.phase with
            | none => true
            | some phase => runsIn phase && !p.stopped).isEmpty then .refused .last_one_copying
      else .changes (stopsIn m d) (m.paths d).isSome := by
  have hphase : (m.carriedPath d).phase.getD m.readPathStopFacts.status.state = stopsIn m d := by
    rw [stopsIn, carried_eq hd]
    rfl
  have hstopped : (m.carriedPath d).stopped = m.stoppedOf d := by
    rw [stoppedOf_eq, carried_eq hd]
    rfl
  have hrow : (m.carriedPath d).phase.isSome = (m.paths d).isSome := Option.isSome_map
  unfold decidePathStop
  rw [find_carriedPath hd]
  simp only [hphase, hstopped, hrow]
  rfl

theorem decidePathStop_changes_iff (hd : m.included d = true) {stop : Bool} {phase : PathState}
    {hasRow : Bool} :
    decidePathStop m.readPathStopFacts d stop = .changes phase hasRow ↔
      StopMoves m d stop ∧ phase = stopsIn m d ∧ hasRow = (m.paths d).isSome := by
  rw [decidePathStop_eq hd]
  constructor
  · intro h
    split at h
    · cases h
    next hstatus =>
    split at h
    · cases h
    next hphase =>
    split at h
    · cases h
    next hturns =>
    split at h
    · cases h
    next hlast =>
    cases h
    refine ⟨⟨by simpa using hstatus, by simpa using hphase, hturns, fun hstop => ?_⟩, rfl, rfl⟩
    by_contra hnone
    exact hlast (by rw [hstop, Bool.true_and, othersCopying_isEmpty]; exact hnone)
  · rintro ⟨⟨hstatus, hphase, hturns, hothers⟩, rfl, rfl⟩
    rw [hstatus, hphase, Bool.not_true, if_neg Bool.false_ne_true, if_neg Bool.false_ne_true,
      if_neg hturns, if_neg]
    intro hlast
    rw [Bool.and_eq_true, othersCopying_isEmpty] at hlast
    exact hlast.2 (hothers hlast.1)

/-- What a stop or a resume wrote. -/
theorem stopOrResumePath_run (actor : String) (hd : m.included d = true) (stop : Bool) :
    (¬ StopMoves m d stop ∧ ((Press.stopOrResume stop).run d actor m).1 = m ∧
      ∀ pressed, ((Press.stopOrResume stop).run d actor m).2 ≠ .accepted pressed) ∨
    (StopMoves m d stop ∧
      ((Press.stopOrResume stop).run d actor m).2 = .accepted (.stop stop) ∧
      ((Press.stopOrResume stop).run d actor m).1.status = m.status ∧
      ((Press.stopOrResume stop).run d actor m).1.included = m.included ∧
      ((Press.stopOrResume stop).run d actor m).1.ledgers = m.ledgers ∧
      ((Press.stopOrResume stop).run d actor m).1.carried =
        Function.update m.carried d (some (stoppedRow m d stop))) := by
  simp only [Press.run, stopOrResumePath]
  cases hdecide : decidePathStop m.readPathStopFacts d stop with
  | refused r =>
      refine .inl ⟨fun h => ?_, rfl, nofun⟩
      rw [(decidePathStop_changes_iff hd).mpr ⟨h, rfl, rfl⟩] at hdecide
      cases hdecide
  | unchanged =>
      refine .inl ⟨fun h => ?_, rfl, nofun⟩
      rw [(decidePathStop_changes_iff hd).mpr ⟨h, rfl, rfl⟩] at hdecide
      cases hdecide
  | changes phase hasRow =>
      obtain ⟨hmoves, rfl, rfl⟩ := (decidePathStop_changes_iff hd).mp hdecide
      refine .inr ⟨hmoves, rfl, ?_, ?_, ?_, ?_⟩
      · cases hrow : m.paths d <;> rfl
      · cases hrow : m.paths d <;> rfl
      · cases hrow : m.paths d <;> rfl
      · funext e
        by_cases he : e = d
        · subst he
          rw [Function.update_self]
          cases hrow : m.paths e with
          | none => simp [carried, hd, stoppedRow, stopsIn, hrow]
          | some row => simp [carried, hd, stoppedRow, stopsIn, hrow]
        · rw [Function.update_of_ne he]
          cases hrow : m.paths d with
          | none => simp [carried, he]
          | some row => simp [carried, he]

theorem mem_phases {p : PathState} :
    p ∈ m.phases ↔ ∃ e row, m.carried e = some row ∧ row.state = p := mem_statesOf

/-- The rows with `d`'s given, in the phase a stop is asked in. -/
theorem mem_phases_given {m' : Migration} {stop : Bool}
    (hcarried : m'.carried =
      Function.update m.carried d (some (stoppedRow m d stop))) (p : PathState) :
    p ∈ m'.phases ↔ p ∈ m.phases ∨ (m.carried d = none ∧ p = m.status.state) := by
  rw [mem_phases, hcarried]
  constructor
  · rintro ⟨e, row, hrow, rfl⟩
    by_cases he : e = d
    · subst he
      rw [Function.update_self] at hrow
      cases hrow
      cases hold : m.carried e with
      | none => exact .inr ⟨rfl, by simp [stoppedRow, stopsIn, hold]⟩
      | some old => exact .inl (mem_phases.mpr ⟨e, old, hold, by simp [stoppedRow, stopsIn, hold]⟩)
    · rw [Function.update_of_ne he] at hrow
      exact .inl (mem_phases.mpr ⟨e, row, hrow, rfl⟩)
  · rintro (hp | ⟨hnone, rfl⟩)
    · obtain ⟨e, row, hrow, rfl⟩ := mem_phases.mp hp
      by_cases he : e = d
      · subst he
        exact ⟨e, _, Function.update_self .., by simp [stoppedRow, stopsIn, hrow]⟩
      · exact ⟨e, row, by rw [Function.update_of_ne he, hrow], rfl⟩
    · exact ⟨d, _, Function.update_self .., by simp [stoppedRow, stopsIn, hnone]⟩

/-- A stop, or a resume, of rows that add up or of the first row: the rows add
up with it. -/
theorem agreed_of_given {m' : Migration} {stop : Bool} (hstatus : m'.status = m.status)
    (hcarried : m'.carried =
      Function.update m.carried d (some (stoppedRow m d stop)))
    (h : m.phases = [] ∨ m.Agreed) : m'.Agreed := by
  have hmem := mem_phases_given hcarried
  have hadds : AddsUp m'.phases m.status := by
    rcases h with hnil | hagreed
    · have hnone : m.carried d = none := by
        by_contra hsome
        obtain ⟨row, hrow⟩ := Option.ne_none_iff_exists'.mp hsome
        exact phases_ne_nil hrow hnil
      refine addsUp_of_all (List.ne_nil_of_mem ((hmem _).mpr (.inr ⟨hnone, rfl⟩))) fun p hp => ?_
      rcases (hmem p).mp hp with hold | ⟨_, hsame⟩
      · rw [hnil] at hold
        cases hold
      · exact hsame
    · have hold := rollUpPhases_eq_some_iff.mp hagreed
      cases hrow : m.carried d with
      | none =>
          refine hold.insert fun p => ?_
          rw [hmem, hrow]
          simp
      | some row =>
          have hsame : m'.phases = m.phases := by
            refine statesOf_congr fun e => ?_
            rw [hcarried]
            by_cases he : e = d
            · subst he
              rw [Function.update_self, hrow]
              simp [stoppedRow, stopsIn, hrow]
            · rw [Function.update_of_ne he]
          rw [hsame]
          exact hold
  unfold Agreed
  rw [hstatus]
  exact rollUpPhases_eq_some_iff.mpr hadds

theorem stop_framed_iff (actor : String) (hd : m.included d = true) (stop : Bool) :
    (Press.stopOrResume stop).Framed d actor m ↔
      (StopMoves m d stop → m.phases = [] ∨ m.Agreed) := by
  have hrun := stopOrResumePath_run actor hd stop
  unfold Press.Framed
  generalize (Press.stopOrResume stop).run d actor m = r at hrun ⊢
  obtain ⟨m', outcome⟩ := r
  rcases hrun with ⟨hnot, hsame, hnever⟩ | ⟨hmoves, hout, hstatus, hincluded, _, hcarried⟩
  · have huntouched : Untouched m m' := by
      rw [show m' = m from hsame]
      exact ⟨rfl, rfl, rfl⟩
    refine iff_of_true ?_ fun h => absurd h hnot
    cases outcome with
    | accepted pressed => exact absurd rfl (hnever pressed)
    | refused => exact huntouched
    | unchanged => exact huntouched
  · change outcome = .accepted (.stop stop) at hout
    subst hout
    have hrow : m'.carried d = some (stoppedRow m d stop) := by
      rw [hcarried, Function.update_self]
    constructor
    · intro h _
      by_contra hnone
      rw [not_or] at hnone
      obtain ⟨hne, hnot⟩ := hnone
      have hagreed' : m'.Agreed := h.rolledUp.resolve_left (phases_ne_nil hrow)
      -- The rows were not believed: each of the others would have to be in the status.
      have hothers : ∀ e row, e ≠ d → m.carried e = some row → row.state = m.status.state := by
        intro e row he he'
        have hkept : m'.carried e = some row := by rw [hcarried, Function.update_of_ne he, he']
        have hphase := (h.others e he (included_of_carried he')).1
        rwa [phaseOf_of_row hkept, if_pos hagreed', phaseOf_of_row he', if_neg hnot] at hphase
      refine hnot (rollUpPhases_eq_some_iff.mpr ?_)
      cases hown : m.carried d with
      | some row =>
          have hsame : m'.phases = m.phases := by
            refine statesOf_congr fun e => ?_
            rw [hcarried]
            by_cases he : e = d
            · subst he
              rw [Function.update_self, hown]
              simp [stoppedRow, stopsIn, hown]
            · rw [Function.update_of_ne he]
          rw [← hsame, ← show m'.status = m.status from hstatus]
          exact rollUpPhases_eq_some_iff.mp hagreed'
      | none =>
          refine addsUp_of_all hne fun p hp => ?_
          obtain ⟨e, row, hrow', rfl⟩ := mem_phases.mp hp
          refine hothers e row ?_ hrow'
          rintro rfl
          rw [hown] at hrow'
          cases hrow'
    · intro h
      have hagreed' : m'.Agreed := agreed_of_given hstatus hcarried (h hmoves)
      have hother : ∀ e, e ≠ d → m'.carried e = m.carried e := by
        intro e he
        rw [hcarried, Function.update_of_ne he]
      refine ⟨?_, ?_, .inr hagreed'⟩
      · rw [others_iff hincluded hagreed' fun e he => by rw [hother e he]]
        refine ⟨fun e row he hkept => ?_, fun _ => hstatus⟩
        rw [hother e he] at hkept
        rw [phaseOf_of_row hkept, if_pos]
        exact (h hmoves).resolve_left (phases_ne_nil hkept)
      · show m'.stoppedOf d = stop
        rw [stoppedOf_eq, hrow]
        rfl

/-! ### End and Keep -/

theorem filterMap_facts : m.readPathStopFacts.carried.filterMap (·.phase) = m.phases := by
  show (m.includedDomains.map m.carriedPath).filterMap (·.phase) = m.phases
  rw [List.filterMap_map, ← filterMap_includedDomains]
  rfl

theorem theStatusOverTheRows_iff :
    theStatusOverTheRows m.readPathStopFacts = true ↔ m.phases ≠ [] ∧ ¬ m.Agreed := by
  unfold theStatusOverTheRows
  rw [filterMap_facts]
  simp only [Bool.and_eq_true, decide_eq_true_eq]
  exact and_congr List.length_pos_iff Iff.rfl

theorem believedPhase_eq (hd : m.included d = true) :
    believedPhase m.readPathStopFacts (m.carriedPath d) = m.phaseOf d := by
  have hcarried := carried_eq hd
  unfold believedPhase
  cases hrow : m.paths d with
  | none =>
      rw [phaseOf_of_no_row (hcarried.trans hrow)]
      simp only [carriedPath, hrow]
      rfl
  | some row =>
      have hphases := phases_ne_nil (hcarried.trans hrow)
      rw [phaseOf_of_row (hcarried.trans hrow)]
      simp only [carriedPath, hrow, Option.map_some, theStatusOverTheRows_iff]
      by_cases hagreed : m.Agreed
      · rw [if_pos hagreed, if_neg fun h => h.2 hagreed]
      · rw [if_neg hagreed, if_pos ⟨hphases, hagreed⟩]
        rfl

/-- The phase an ending is in. -/
def endsAt : PathEnding → MappingLifecycle
  | .finish => .done
  | .keep => .continuous

/-- The door takes this ending. -/
structure EndingMoves (m : Migration) (d : DiscoveryDomain) (ending : PathEnding)
    (unresolvedFailures : Nat) (force : Bool) : Prop where
  status : m.status.state ∈ phasesADataTypeEndsFrom
  phase : m.phaseOf d ∈ phasesADataTypeEndsFrom
  turns : m.phaseOf d ≠ (endsAt ending).state
  resolved : ending = .finish → 0 < unresolvedFailures → force = true
  running : ending = .keep → m.stoppedOf d = false

/-- The steps of an ending. -/
def stepsOf (m : Migration) (d : DiscoveryDomain) : PathEnding → List MappingLifecycle
  | .finish => [.done]
  | .keep => if m.phaseOf d = .active then [.cutover, .continuous] else [.continuous]

theorem decidePathEnding_of_moves (hd : m.included d = true) {ending : PathEnding}
    {unresolvedFailures : Nat} {force : Bool}
    (h : EndingMoves m d ending unresolvedFailures force) :
    ∃ stopped forced, decidePathEnding m.readPathStopFacts d ending unresolvedFailures force =
      .changes (m.phaseOf d) stopped (theStatusOverTheRows m.readPathStopFacts)
        (stepsOf m d ending) forced := by
  have hstatus : phasesADataTypeEndsFrom.contains m.readPathStopFacts.status.state = true :=
    List.contains_iff_mem.mpr h.status
  have hphase : phasesADataTypeEndsFrom.contains (m.phaseOf d) = true :=
    List.contains_iff_mem.mpr h.phase
  have hstopped : (m.carriedPath d).stopped = m.stoppedOf d := by
    rw [stoppedOf_eq, carried_eq hd]
    rfl
  unfold decidePathEnding
  rw [hstatus, Bool.not_true, if_neg Bool.false_ne_true, find_carriedPath hd]
  simp only [believedPhase_eq hd, hphase, hstopped]
  rw [Bool.not_true, if_neg Bool.false_ne_true]
  cases ending with
  | finish =>
      have hresolved : ¬ ((unresolvedFailures > 0 && !force) = true) := by
        intro hopen
        rw [Bool.and_eq_true, decide_eq_true_eq] at hopen
        rw [h.resolved rfl hopen.1] at hopen
        cases hopen.2
      simp only [if_neg (show m.phaseOf d ≠ .done from h.turns), if_neg hresolved]
      exact ⟨_, _, rfl⟩
  | keep =>
      simp only [if_neg (show m.phaseOf d ≠ .continuous from h.turns), h.running rfl]
      exact ⟨_, _, rfl⟩

theorem moves_of_decidePathEnding (hd : m.included d = true) {ending : PathEnding}
    {unresolvedFailures : Nat} {force stopped believeTheStatus forced : Bool} {phase : PathState}
    {steps : List MappingLifecycle}
    (h : decidePathEnding m.readPathStopFacts d ending unresolvedFailures force =
      .changes phase stopped believeTheStatus steps forced) :
    EndingMoves m d ending unresolvedFailures force := by
  have hstopped : (m.carriedPath d).stopped = m.stoppedOf d := by
    rw [stoppedOf_eq, carried_eq hd]
    rfl
  unfold decidePathEnding at h
  rw [find_carriedPath hd] at h
  simp only [believedPhase_eq hd, hstopped] at h
  split at h
  · cases h
  next hstatus =>
  split at h
  · cases h
  next hphase =>
  have hstatus' : m.readPathStopFacts.status.state ∈ phasesADataTypeEndsFrom := by
    simpa using hstatus
  have hphase' : m.phaseOf d ∈ phasesADataTypeEndsFrom := by simpa using hphase
  cases ending with
  | finish =>
      dsimp only at h
      split at h
      · cases h
      next hturns =>
      split at h
      · cases h
      next hopen =>
      refine ⟨hstatus', hphase', hturns, fun _ hpos => ?_, nofun⟩
      simpa [hpos] using hopen
  | keep =>
      dsimp only at h
      split at h
      · cases h
      next hturns =>
      split at h
      · cases h
      next hrunning =>
      exact ⟨hstatus', hphase', hturns, nofun, fun _ => Bool.not_eq_true _ ▸ hrunning⟩

namespace Migration

theorem bringToTheStatus_eq :
    m.bringToTheStatus =
      { m with
        paths := fun e =>
          if m.included e = true ∧ (!decide ((m.paths e).map (·.state) = none ∨
              (m.paths e).map (·.state) = some m.status.state)) = true then
            some (movedRow (m.paths e) m.status.state)
          else m.paths e } := by
  have hmove (moved : Migration) (e : DiscoveryDomain) :
      (if m.status = .active then moved.activate e else moved.moveTo e m.status.state) =
        moved.moveTo e m.status.state := by
    split
    · next h => rw [h]; rfl
    · rfl
  have hbody (moved : Migration) (e : DiscoveryDomain) :
      (if (m.paths e).map (·.state) = none ∨ (m.paths e).map (·.state) = some m.status.state then
        moved else moved.moveTo e m.status.state) =
      if (!!decide ((m.paths e).map (·.state) = none ∨
          (m.paths e).map (·.state) = some m.status.state)) = true then moved
      else moved.moveTo e m.status.state := by
    simp only [Bool.not_not, decide_eq_true_eq]
  unfold bringToTheStatus
  show (m.includedDomains.map m.carriedPath).foldl _ m = _
  rw [List.foldl_map]
  simp only [carriedPath, hmove, hbody]
  rw [foldl_moveTo nodup_includedDomains fun e => !decide ((m.paths e).map (·.state) = none ∨
    (m.paths e).map (·.state) = some m.status.state)]
  simp only [mem_includedDomains]

/-- The rows once they are brought to the status, where they were not believed. -/
theorem carried_brought :
    (if theStatusOverTheRows m.readPathStopFacts then m.bringToTheStatus else m).carried =
      m.believedRow := by
  funext e
  by_cases hover : theStatusOverTheRows m.readPathStopFacts = true
  · obtain ⟨_, hnot⟩ := theStatusOverTheRows_iff.mp hover
    rw [if_pos hover, bringToTheStatus_eq]
    cases hincl : m.included e with
    | false => simp [carried, believedRow, hincl]
    | true =>
        cases hrow : m.paths e with
        | none => simp [carried, believedRow, hincl, hrow]
        | some row =>
            have hphase : m.phaseOf e = m.status.state := by
              rw [phaseOf_of_row ((carried_eq hincl).trans hrow), if_neg hnot]
            by_cases hsame : row.state = m.status.state
            · simp [carried, believedRow, hincl, hrow, hphase, ← hsame]
            · simp [carried, believedRow, hincl, hrow, hphase, hsame, PathRow.readAs]
  · rw [if_neg hover]
    cases hrow : m.carried e with
    | none => rw [believedRow, hrow]; rfl
    | some row =>
        have hagreed : m.Agreed := by
          by_contra hnot
          exact hover (theStatusOverTheRows_iff.mpr ⟨phases_ne_nil hrow, hnot⟩)
        rw [believedRow, hrow, phaseOf_of_row hrow, if_pos hagreed, Option.map_some,
          PathRow.readAs_self]

theorem fields_brought :
    (if theStatusOverTheRows m.readPathStopFacts then m.bringToTheStatus else m).included =
        m.included ∧
      (if theStatusOverTheRows m.readPathStopFacts then m.bringToTheStatus else m).ledgers =
        m.ledgers := by
  rw [bringToTheStatus_eq]
  split
  · exact ⟨rfl, rfl⟩
  · exact ⟨rfl, rfl⟩

theorem carried_cleared {row : PathRow} (hrow : m.carried d = some row) (stopped : Bool) :
    let m' := if stopped then m.clearStop d else m
    m'.included = m.included ∧ m'.ledgers = m.ledgers ∧
      ∃ row', row'.state = row.state ∧ m'.carried = Function.update m.carried d (some row') := by
  have hd := included_of_carried hrow
  have hpaths : m.paths d = some row := (carried_eq hd).symm.trans hrow
  cases stopped with
  | false => exact ⟨rfl, rfl, row, rfl, by rw [← hrow, Function.update_eq_self]; rfl⟩
  | true =>
      refine ⟨rfl, rfl, { row with stopped := false }, rfl, ?_⟩
      funext e
      by_cases he : e = d
      · subst he
        simp [carried, clearStop, hd, hpaths]
      · simp [carried, clearStop, he]

theorem movePathThrough_spec (actor : String) (fromState : PathState) (forced : Bool)
    {steps : List MappingLifecycle} {last : MappingLifecycle} (hd : m.included d = true)
    (hlast : steps.getLast? = some last) :
    let m' := m.movePathThrough d fromState actor forced steps
    m'.included = m.included ∧ m'.ledgers = m.ledgers ∧
      m'.carried = Function.update m.carried d (some (movedRow (m.carried d) last.state)) := by
  induction steps generalizing m fromState with
  | nil => cases hlast
  | cons step steps ih =>
      have hmoved := carried_moveTo hd step.state
      cases steps with
      | nil =>
          cases hlast
          exact ⟨rfl, rfl, hmoved⟩
      | cons next steps =>
          rw [List.getLast?_cons_cons] at hlast
          have hd' : (m.moveTo d step.state).included d = true := hd
          let recorded : Migration := { m.moveTo d step.state with
            audit := (m.moveTo d step.state).audit ++
              [.pathPhase d fromState step.state actor (viaOfStep step) forced] }
          obtain ⟨hincluded, hledgers, hcarried⟩ :=
            @ih recorded step.state hd' hlast
          refine ⟨hincluded, hledgers, hcarried.trans ?_⟩
          show Function.update (m.moveTo d step.state).carried d
            (some (movedRow ((m.moveTo d step.state).carried d) last.state)) = _
          rw [hmoved, Function.update_idem, Function.update_self, movedRow_movedRow]

end Migration

theorem getLast_stepsOf (m : Migration) (d : DiscoveryDomain) (ending : PathEnding) :
    (stepsOf m d ending).getLast? = some (endsAt ending) := by
  cases ending with
  | finish => rfl
  | keep =>
      show (if m.phaseOf d = .active then [MappingLifecycle.cutover, .continuous]
        else [.continuous]).getLast? = _
      split
      · rfl
      · rfl

/-- What an ending wrote: nothing, or its row and the status as the roll-up of
the rows as they were read. -/
inductive EndingRun (d : DiscoveryDomain) (ending : PathEnding) (unresolvedFailures : Nat)
    (force : Bool) (m : Migration) : Migration × PressOutcome → Prop
  | held {outcome} : ¬ EndingMoves m d ending unresolvedFailures force →
      (∀ pressed, outcome ≠ .accepted pressed) →
      EndingRun d ending unresolvedFailures force m (m, outcome)
  | moved {m' : Migration} {row : PathRow} : EndingMoves m d ending unresolvedFailures force →
      m'.included = m.included → m'.ledgers = m.ledgers → m'.Agreed →
      row.state = (endsAt ending).state →
      m'.carried = Function.update m.believedRow d (some row) →
      EndingRun d ending unresolvedFailures force m (m', .accepted (.phase (endsAt ending).state))

theorem endingRun (actor : String) (hd : m.included d = true) (ending : PathEnding)
    (unresolvedFailures : Nat) (force : Bool) :
    EndingRun d ending unresolvedFailures force m
      ((Press.endOrKeep ending unresolvedFailures force).run d actor m) := by
  simp only [Press.run, endOrKeepPath]
  by_cases hmoves : EndingMoves m d ending unresolvedFailures force
  · obtain ⟨stopped, forced, hdecide⟩ := decidePathEnding_of_moves hd hmoves
    have hlast := getLast_stepsOf m d ending
    obtain ⟨hincluded₁, hledgers₁⟩ := fields_brought (m := m)
    have hcarried₁ := carried_brought (m := m)
    rw [hdecide]
    simp only [hlast, Option.getD_some]
    generalize (if theStatusOverTheRows m.readPathStopFacts then m.bringToTheStatus else m) =
      brought at hincluded₁ hledgers₁ hcarried₁ ⊢
    obtain ⟨hincluded₂, hledgers₂, hcarried₂⟩ :=
      movePathThrough_spec actor (m.phaseOf d) forced (hincluded₁ ▸ hd) hlast
    generalize brought.movePathThrough d (m.phaseOf d) actor forced (stepsOf m d ending) = moved
      at hincluded₂ hledgers₂ hcarried₂ ⊢
    have hrow : moved.carried d =
        some (movedRow (brought.carried d) (endsAt ending).state) := by
      rw [hcarried₂, Function.update_self]
    obtain ⟨hincluded₃, hledgers₃, row, hstate, hcarried₃⟩ := carried_cleared hrow stopped
    generalize (if stopped then moved.clearStop d else moved) = cleared
      at hincluded₃ hledgers₃ hcarried₃ ⊢
    have hcarried : cleared.carried = Function.update m.believedRow d (some row) := by
      rw [hcarried₃, hcarried₂, Function.update_idem, hcarried₁]
    have hown : cleared.carried d = some row := by rw [hcarried, Function.update_self]
    obtain ⟨hpaths₄, hincluded₄, hledgers₄, hrolled⟩ := writeTheRollUp_spec (phases_ne_nil hown)
      actor (viaOfStep (endsAt ending)) forced
    have hsame := carried_congr hpaths₄ hincluded₄
    refine .moved hmoves ?_ ?_ ?_ hstate (hsame.trans hcarried)
    · rw [hincluded₄, hincluded₃, hincluded₂, hincluded₁]
    · rw [hledgers₄, hledgers₃, hledgers₂, hledgers₁]
    · unfold Agreed phases
      rw [hsame]
      exact hrolled
  · cases hdecide : decidePathEnding m.readPathStopFacts d ending unresolvedFailures force with
    | refused refusal => exact .held hmoves nofun
    | unchanged phase => exact .held hmoves nofun
    | changes phase stopped believeTheStatus steps forced =>
        exact absurd (moves_of_decidePathEnding hd hdecide) hmoves

theorem ending_framed_iff (actor : String) (hd : m.included d = true) (ending : PathEnding)
    (unresolvedFailures : Nat) (force : Bool) :
    (Press.endOrKeep ending unresolvedFailures force).Framed d actor m ↔
      (EndingMoves m d ending unresolvedFailures force → m.OtherWithoutRow d →
        rollUpPhases (m.phasesWith d (endsAt ending).state) = some m.status) := by
  have hrun := endingRun actor hd ending unresolvedFailures force
  unfold Press.Framed
  generalize (Press.endOrKeep ending unresolvedFailures force).run d actor m = r at hrun ⊢
  cases hrun with
  | @held outcome hnot hnever =>
      refine iff_of_true ?_ fun h => absurd h hnot
      cases outcome with
      | accepted pressed => exact absurd rfl (hnever pressed)
      | refused => exact ⟨rfl, rfl, rfl⟩
      | unchanged => exact ⟨rfl, rfl, rfl⟩
  | @moved m' row hmoves hincluded _ hagreed hstate hcarried =>
      have hother : ∀ e, e ≠ d → m'.carried e = m.believedRow e := by
        intro e he
        rw [hcarried, Function.update_of_ne he]
      have hstops : ∀ e, e ≠ d →
          (m'.carried e).map (·.stopped) = (m.carried e).map (·.stopped) := by
        intro e he
        rw [hother e he, believedRow, Option.map_map]
        simp only [Function.comp_def, PathRow.readAs_stopped]
      have hrows : ∀ e other, e ≠ d → m'.carried e = some other → other.state = m.phaseOf e := by
        intro e other he hkept
        rw [hother e he] at hkept
        obtain ⟨_, _, rfl⟩ := Option.map_eq_some_iff.mp hkept
        exact PathRow.readAs_state _ _
      have hphases : m'.phases = m.phasesWith d (endsAt ending).state := by
        refine statesOf_congr fun e => ?_
        rw [hcarried]
        by_cases he : e = d
        · subst he
          rw [Function.update_self, Function.update_self, Option.map_some, Option.map_some, hstate]
        · rw [Function.update_of_ne he, Function.update_of_ne he]
      have hrolled : rollUpPhases (m.phasesWith d (endsAt ending).state) = some m'.status :=
        hphases ▸ hagreed
      have hrow : m'.carried d = some row := by rw [hcarried, Function.update_self]
      rw [hrolled, Option.some.injEq]
      constructor
      · intro h _
        exact ((others_iff hincluded hagreed hstops).mp h.others).2
      · intro h
        refine ⟨(others_iff hincluded hagreed hstops).mpr ⟨hrows, h hmoves⟩, ?_, .inr hagreed⟩
        exact ((phaseOf_of_row hrow).trans (if_pos hagreed)).trans hstate

/-! ### Every press -/

/-- Where a press leaves what it should. -/
def Press.Sound (m : Migration) (d : DiscoveryDomain) : Press → Prop
  | ownStep s _ => OwnStepSound m d s
  | endOrKeep ending unresolvedFailures force =>
    EndingMoves m d ending unresolvedFailures force → m.OtherWithoutRow d →
      rollUpPhases (m.phasesWith d (endsAt ending).state) = some m.status
  | stopOrResume stop => StopMoves m d stop → m.phases = [] ∨ m.Agreed

/-- **A press on one data type moves only that data type** exactly where it is
sound: the status it rolls up stands for every data type that reads it, and
the rows it leaves are believed as they were. -/
theorem framed_iff (actor : String) (hd : m.included d = true) (p : Press) :
    p.Framed d actor m ↔ p.Sound m d := by
  cases p with
  | ownStep s now => exact ownStep_framed_iff hd s now
  | endOrKeep ending unresolvedFailures force =>
      exact ending_framed_iff actor hd ending unresolvedFailures force
  | stopOrResume stop => exact stop_framed_iff actor hd stop

/-- Mail has been approved for a cutover of its own. -/
def mailApproved : CutoverLedgers :=
  runCalls .empty [(0, .initializeCutover none none (some .email)),
    (1, .transitionState READY_FOR_CUTOVER .nothing (some .email)),
    (2, .transitionState APPROVED .nothing (some .email))]

/-- A migration that carries mail and files, with the same row for both. -/
def mailAndFiles (status : MappingLifecycle) (row : PathRow) : Migration where
  status := status
  included d := d = .email ∨ d = .file
  paths d := if d = .email ∨ d = .file then some row else none
  ledgers := mailApproved

theorem framed_mailAndFiles :
    (Press.ownStep .enterCutover 3).Framed .email "cli" (mailAndFiles .active { state := .active }) ∧
      (Press.stopOrResume true).Framed .email "cli" (mailAndFiles .active { state := .active }) := by
  have hd : (mailAndFiles .active { state := .active }).included .email = true := by decide
  have hagreed : (mailAndFiles .active { state := .active }).Agreed := by decide
  refine ⟨(framed_iff "cli" hd _).mpr fun state hload hvalid => ⟨fun _ => ⟨?_, ?_, ?_⟩, ?_⟩,
    (framed_iff "cli" hd _).mpr fun _ => .inr hagreed⟩
  · exact Option.some_ne_none _
  · exact fun _ _ _ _ => .inl hagreed
  · rintro ⟨e, _, hincl, hnone⟩
    revert hincl hnone
    cases e <;> decide
  · exact fun _ _ => .inr hagreed

/-- A migration set back to `active` by hand over rows in their cutover: mail's
own `execute` takes the files past their cutover with it. -/
theorem files_moved_with_mail :
    let m := mailAndFiles .active { state := .cutover }
    let r := (Press.ownStep .enterCutover 3).run .email "cli" m
    r.2 = .accepted (.phase .cutover) ∧ m.phaseOf .file = .active ∧ r.1.phaseOf .file = .cutover ∧
      ¬ (Press.ownStep .enterCutover 3).Framed .email "cli" m := by
  refine ⟨by decide, by decide, by decide, fun h => ?_⟩
  have hsound := (ownStep_framed_iff rfl .enterCutover 3).mp h _ rfl rfl
  have hmoves : MovesPhase .enterCutover ((mailAndFiles .active { state := .cutover }).phaseOf .email) :=
    .inl (by decide)
  rcases (hsound.1 hmoves).2.1 .file _ (by decide) rfl with hagreed | hsame
  · revert hagreed
    decide
  · cases hsame

end Ownpace.Lifecycle
