/-
Ownpace/Lifecycle/Slots.lean

The slots of a migration's paths: how many it holds, what each press says of the
slots it took, and the date a row ended.

A row's `ended_at` is written by every statement beside the state and the stop
it is read off: `dated_run` says they never part.  What a press says it took is
decided by each door for itself.  `Event.Reporting` is where a door that takes
slots says so, and `slotsHeld_le` that it then holds no more than before unless
it said so.
-/
import Ownpace.Lifecycle.AfterCutover

namespace Ownpace.Lifecycle

open Cutover CutoverState Migration

/-! ### Which rows hold one -/

/-- `PATH_STATES` -/
def pathStates : List PathState := [.ready, .active, .paused, .cutover, .done, .continuous]

/-- `SLOT_HOLDING_STATES` -/
def slotHoldingStates : List PathState := pathStates.filter fun s => holdsASlot s false

/-- `STATES_A_STOP_RELEASES` -/
def statesAStopReleases : List PathState := slotHoldingStates.filter fun s => !holdsASlot s true

namespace PathRow

/-- The `WHERE` of `slotsHeld`. -/
def counted (row : PathRow) : Bool :=
  slotHoldingStates.contains row.state &&
    (!row.stopped || !statesAStopReleases.contains row.state)

/-- The derived lists say what `holdsASlot` does. -/
theorem counted_eq (row : PathRow) : row.counted = holdsASlot row.state row.stopped := by
  obtain ⟨state, stopped, ended⟩ := row
  cases state <;> cases stopped <;> rfl

/-- It has ended exactly when it has left `ready` and holds no slot. -/
def Dated (row : PathRow) : Prop :=
  row.ended = true ↔ row.state ≠ .ready ∧ holdsASlot row.state row.stopped = false

instance (row : PathRow) : Decidable row.Dated :=
  inferInstanceAs (Decidable (row.ended = true ↔ _))

end PathRow

namespace Migration

/-- The slots of a migration: the rows of the data types it carries that hold
one. -/
def slotsHeld (m : Migration) : Nat :=
  m.includedDomains.countP fun d => (m.paths d).any PathRow.counted

/-- A data type holds a slot. -/
def Holds (m : Migration) (d : DiscoveryDomain) : Prop :=
  ∃ row, m.carried d = some row ∧ holdsASlot row.state row.stopped = true

/-- Every row says whether it has ended. -/
structure Dated (m : Migration) : Prop where
  row : ∀ d row, m.paths d = some row → row.Dated

end Migration

/-! ### What each door says -/

/-- `slotsTaken` of the paths that follow a change of the status. -/
def pathsTakeSlots (m : Migration) (fromState : Option MappingLifecycle)
    (toState : MappingLifecycle) : Bool :=
  let phaseOf := fun d => (m.paths d).map (·.state)
  let believed := fromState.isSome && rollUpPhases (m.includedDomains.filterMap phaseOf) = fromState
  let moved := m.includedDomains.countP fun d => pathFollows fromState toState (phaseOf d) believed
  moved > 0 && (toState = .active || toState = .continuous)

/-- A press on one data type. -/
def Press.slotsTaken (domain : DiscoveryDomain) (actor : String) (m : Migration) : Press → Bool
  | ownStep s _ =>
    match s.plan (m.ledgers.loadCutoverState (some domain)) (m.readStatus domain) with
    | .error _ => false
    | .ok plan =>
      match plan.setStatus with
      | none => false
      | some toState => toState = .active || toState = .continuous
  | endOrKeep ending unresolvedFailures force =>
    match (endOrKeepPath m domain ending actor unresolvedFailures force).2 with
    | .changed _ _ slotsTaken => slotsTaken
    | _ => false
  | stopOrResume stop =>
    match (stopOrResumePath m domain stop actor).2 with
    | .answered _ slotsTaken => slotsTaken
    | _ => false

def Event.slotsTaken (actor : String) (m : Migration) : Event → Bool
  | start =>
    match startTransition m.status with
    | .activate true => pathsTakeSlots m (some m.status) .active
    | _ => false
  | update toState =>
    match updateTransition m.status toState with
    | .apply fromState toState => pathsTakeSlots m (some fromState) toState
    | _ => false
  | finish unresolvedFailures force =>
    match finishTransition m.status unresolvedFailures force with
    | .finish => pathsTakeSlots m (some m.status) .done
    | _ => false
  | wholeStep s _ =>
    match s.plan (m.ledgers.loadCutoverState none) m.status.state with
    | .error _ => false
    | .ok plan =>
      match plan.setStatus with
      | none => false
      | some toState => m.status ≠ toState && pathsTakeSlots m (some m.status) toState
  | press domain p => m.included domain && p.slotsTaken domain actor m
  | _ => false

/-- What an event leaves of the migration. -/
def Event.after (actor : String) (m : Migration) (e : Event) : Migration :=
  (e.run actor { migration := m, entered := fun _ => false }).migration

/-! ### Where it says what it took -/

/-- A row that holds no slot in the phase it is in. -/
def Slotless (m : Migration) (d : DiscoveryDomain) : Prop :=
  ∃ row, m.carried d = some row ∧ holdsASlot row.state row.stopped = false

/-- The press takes no slot beside the one it answers for. -/
def Press.Reporting (domain : DiscoveryDomain) (m : Migration) : Press → Prop
  | ownStep _ _ => True
  | endOrKeep ending _ _ =>
    -- Rows brought to the status take no slot there, and what is kept from
    -- `active` held its own.
    (∀ e row, e ≠ domain → m.carried e = some row → ¬ m.Agreed →
      holdsASlot row.state row.stopped = false → holdsASlot m.status.state row.stopped = false) ∧
    (ending = .keep → m.phaseOf domain = .active → m.Holds domain)
  | stopOrResume stop =>
    -- A data type stopped while it copies has a row.
    stop = true → m.status = .active → m.carried domain ≠ none

/-- What is pressed takes no slot but where it says so. -/
def Event.Reporting (m : Migration) : Event → Prop
  | update toState => toState = .paused → ¬ m.Agreed → ∀ d, ¬ Slotless m d
  | press domain p => p.Reporting domain m
  | recordScope _ => False
  | pathsFromTheMapping => False
  | _ => True

/-! ### When a row ended -/

variable {m m' : Migration} {d : DiscoveryDomain} {actor : String}

theorem MappingLifecycle.state_ne_ready (s : MappingLifecycle) : s.state ≠ .ready := by
  cases s <;> decide

theorem holdsASlot_active (stopped : Bool) : holdsASlot .active stopped = true := by
  cases stopped <;> rfl

theorem holdsASlot_done (stopped : Bool) : holdsASlot .done stopped = false := by
  cases stopped <;> rfl

theorem movedRow_ended (old : Option PathRow) (state : PathState) :
    (movedRow old state).ended = !holdsASlot state (movedRow old state).stopped := by
  cases old with
  | none => rfl
  | some row =>
      obtain ⟨_, stopped, _⟩ := row
      cases stopped <;> rfl

theorem movedRow_dated (old : Option PathRow) {state : PathState} (hstate : state ≠ .ready) :
    (movedRow old state).Dated := by
  unfold PathRow.Dated
  rw [movedRow_ended, movedRow_state, Bool.not_eq_true']
  exact ⟨fun h => ⟨hstate, h⟩, fun h => h.2⟩

theorem stoppedRow_dated {stop : Bool} (h : runsIn (stopsIn m d) = true) :
    (stoppedRow m d stop).Dated := by
  have hready : stopsIn m d ≠ .ready := by
    intro hready
    rw [hready] at h
    cases h
  show (!holdsASlot (stopsIn m d) stop) = true ↔ _
  rw [Bool.not_eq_true']
  exact ⟨fun h => ⟨hready, h⟩, fun h => h.2⟩

namespace Migration

theorem Dated.of_paths (h : m.Dated) (hpaths : m'.paths = m.paths) : m'.Dated := by
  refine ⟨fun d row hrow => ?_⟩
  rw [hpaths] at hrow
  exact h.row d row hrow

/-- Some rows are moved to a status, and the others left. -/
theorem Dated.moved (h : m.Dated) (status : MappingLifecycle) {follows : DiscoveryDomain → Prop}
    [DecidablePred follows]
    (hpaths : m'.paths = fun d =>
      if follows d then some (movedRow (m.paths d) status.state) else m.paths d) : m'.Dated := by
  refine ⟨fun d row hrow => ?_⟩
  rw [hpaths] at hrow
  dsimp only at hrow
  split at hrow
  · cases hrow
    exact movedRow_dated _ status.state_ne_ready
  · exact h.row d row hrow

/-- One row is written. -/
theorem Dated.update (h : m.Dated) {row : PathRow} (hrow : row.Dated)
    (hpaths : m'.paths = Function.update m.paths d (some row)) : m'.Dated := by
  refine ⟨fun e other hother => ?_⟩
  rw [hpaths] at hother
  by_cases he : e = d
  · subst he
    rw [Function.update_self] at hother
    cases hother
    exact hrow
  · rw [Function.update_of_ne he] at hother
    exact h.row e other hother

theorem Dated.moveTo (h : m.Dated) (d : DiscoveryDomain) (status : MappingLifecycle) :
    (m.moveTo d status.state).Dated :=
  h.update (movedRow_dated _ status.state_ne_ready) rfl

theorem writeTheRollUp_paths (actor : String) (via : MappingStatusVia) (forced : Bool) :
    (m.writeTheRollUp actor via forced).paths = m.paths := by
  unfold writeTheRollUp recordMappingStatusChange
  split
  · rfl
  · split
    · rfl
    · split <;> rfl

theorem recordMappingStatusChange_paths (fromState toState : MappingLifecycle) (actor : String)
    (via : MappingStatusVia) (forced : Bool) :
    (m.recordMappingStatusChange fromState toState actor via forced).paths = m.paths := by
  unfold recordMappingStatusChange
  split <;> rfl

theorem Dated.applyMappingStatusChange (h : m.Dated) (fromState toState : MappingLifecycle)
    (actor : String) (via : MappingStatusVia) (forced : Bool) :
    (m.applyMappingStatusChange fromState toState actor via forced).Dated := by
  refine Dated.of_paths (m := if fromState ≠ toState then
    ({ m with status := toState } : Migration).movePathsWithMapping (some fromState) toState
    else { m with status := toState }) ?_ (recordMappingStatusChange_paths ..)
  split
  · exact h.moved toState (congrArg Migration.paths movePathsWithMapping_eq)
  · exact h.of_paths rfl

theorem Dated.applyPathStatusChange (h : m.Dated) (d : DiscoveryDomain) (fromState : PathState)
    (toState : MappingLifecycle) (actor : String) (via : MappingStatusVia) :
    (m.applyPathStatusChange d fromState toState actor via).Dated := by
  rw [applyPathStatusChange_eq]
  exact (h.moveTo d toState).of_paths (writeTheRollUp_paths ..)

theorem Dated.bringToTheStatus (h : m.Dated) : m.bringToTheStatus.Dated :=
  h.moved m.status (congrArg Migration.paths bringToTheStatus_eq)

theorem Dated.movePathThrough (h : m.Dated) (d : DiscoveryDomain) (fromState : PathState)
    (actor : String) (forced : Bool) (steps : List MappingLifecycle) :
    (m.movePathThrough d fromState actor forced steps).Dated := by
  induction steps generalizing m fromState with
  | nil => exact h
  | cons step steps ih =>
      let recorded : Migration := { m.moveTo d step.state with
        audit := (m.moveTo d step.state).audit ++
          [.pathPhase d fromState step.state actor (viaOfStep step) forced] }
      have hmoved : recorded.Dated := (h.moveTo d step).of_paths rfl
      exact ih hmoved step.state

/-- A stop is cleared of a row that is done, stopped or not. -/
theorem Dated.clearStop (h : m.Dated) {row : PathRow} (hrow : m.paths d = some row)
    (hdone : row.state = .done) : (m.clearStop d).Dated := by
  have hended : row.ended = true := by
    refine (h.row d row hrow).mpr ?_
    rw [hdone]
    exact ⟨nofun, holdsASlot_done _⟩
  have hcleared : ({ row with stopped := false } : PathRow).Dated := by
    refine iff_of_true hended ?_
    show row.state ≠ .ready ∧ holdsASlot row.state false = false
    rw [hdone]
    exact ⟨nofun, rfl⟩
  have hpaths : (m.clearStop d).paths =
      Function.update m.paths d (some { row with stopped := false }) := by
    unfold Migration.clearStop
    rw [hrow]
    rfl
  exact h.update hcleared hpaths

end Migration

theorem dated_runStep {port : MappingLifecyclePort} {ledger : Option DiscoveryDomain} {s : Step}
    {now : Nat} (hport : ∀ fromState toState via,
      (port.setStatus m fromState toState via).Dated) (h : m.Dated) :
    (runStep port ledger s now m).1.Dated := by
  unfold runStep
  split
  · exact h
  · next plan _ =>
      cases plan.setStatus with
      | none =>
          dsimp only
          split
          · exact h.of_paths rfl
          · exact h
      | some toState =>
          dsimp only
          split
          · exact (hport ..).of_paths rfl
          · exact hport ..

theorem stopOrResumePath_paths (actor : String) (hd : m.included d = true) (stop : Bool) :
    (stopOrResumePath m d stop actor).1.paths = m.paths ∨
      StopMoves m d stop ∧ (stopOrResumePath m d stop actor).1.paths =
        Function.update m.paths d (some (stoppedRow m d stop)) := by
  unfold stopOrResumePath
  cases hdecide : decidePathStop m.readPathStopFacts d stop with
  | refused r => exact .inl rfl
  | unchanged => exact .inl rfl
  | changes phase hasRow =>
      obtain ⟨hmoves, rfl, rfl⟩ := (decidePathStop_changes_iff hd).mp hdecide
      refine .inr ⟨hmoves, ?_⟩
      cases hrow : m.paths d with
      | none => simp [stoppedRow, stopsIn, carried_eq hd, hrow]
      | some row => simp [stoppedRow, stopsIn, carried_eq hd, hrow]

theorem Migration.Dated.stopOrResume (h : m.Dated) (hd : m.included d = true) (stop : Bool) :
    (stopOrResumePath m d stop actor).1.Dated := by
  rcases stopOrResumePath_paths actor hd stop with hsame | ⟨hmoves, hwritten⟩
  · exact h.of_paths hsame
  · exact h.update (stoppedRow_dated hmoves.phase) hwritten

/-- What is kept was not stopped. -/
theorem stopped_of_keep {facts : PathStopFacts} {unresolvedFailures : Nat}
    {force stopped believeTheStatus forced : Bool} {phase : PathState} {steps : List MappingLifecycle}
    (h : decidePathEnding facts d .keep unresolvedFailures force =
      .changes phase stopped believeTheStatus steps forced) : stopped = false := by
  unfold decidePathEnding at h
  split at h
  · cases h
  split at h
  · cases h
  dsimp only at h
  split at h
  · cases h
  split at h
  · cases h
  split at h
  · cases h
  cases h
  rfl

theorem Migration.Dated.endOrKeep (h : m.Dated) (hd : m.included d = true) (ending : PathEnding)
    (unresolvedFailures : Nat) (force : Bool) :
    (endOrKeepPath m d ending actor unresolvedFailures force).1.Dated := by
  unfold endOrKeepPath
  cases hdecide : decidePathEnding m.readPathStopFacts d ending unresolvedFailures force with
  | refused r => exact h
  | unchanged phase => exact h
  | changes phase stopped believeTheStatus steps forced =>
      have hbrought : (if believeTheStatus then m.bringToTheStatus else m).Dated := by
        split
        · exact h.bringToTheStatus
        · exact h
      have hincluded : (if believeTheStatus then m.bringToTheStatus else m).included =
          m.included := by
        rw [bringToTheStatus_eq]
        split <;> rfl
      have hthrough := hbrought.movePathThrough d phase actor forced steps
      refine Dated.of_paths ?_ (writeTheRollUp_paths ..)
      cases stopped with
      | false => exact hthrough
      | true =>
          -- Only an End clears a stop, and it leaves the row done.
          cases ending with
          | keep => cases stopped_of_keep hdecide
          | finish =>
              have hmoves := moves_of_decidePathEnding hd hdecide
              obtain ⟨_, _, hdecided⟩ := decidePathEnding_of_moves hd hmoves
              rw [hdecide] at hdecided
              cases hdecided
              exact hthrough.clearStop (Function.update_self ..) rfl

theorem Press.dated_run (h : m.Dated) (hd : m.included d = true) (p : Press) :
    (p.run d actor m).1.Dated := by
  cases p with
  | ownStep s now => exact dated_runStep (fun _ _ _ => h.applyPathStatusChange ..) h
  | endOrKeep ending unresolvedFailures force => exact h.endOrKeep hd ..
  | stopOrResume stop => exact h.stopOrResume hd stop

/-- Every statement that writes a row writes whether it has ended. -/
theorem Event.dated_run {t : Traced} (h : t.migration.Dated) (e : Event) :
    (e.run actor t).migration.Dated := by
  cases e with
  | start =>
      show (startMigration t.migration actor).Dated
      unfold startMigration
      split
      · exact h.applyMappingStatusChange ..
      · exact h
  | update toState =>
      show (updateMigration t.migration toState actor).Dated
      unfold updateMigration
      split
      · exact h.applyMappingStatusChange ..
      · exact h
  | finish unresolvedFailures force =>
      show (finishMigration t.migration unresolvedFailures force actor).Dated
      unfold finishMigration
      split
      · exact h.applyMappingStatusChange ..
      · exact h
  | wholeStep s now => exact dated_runStep (fun _ _ _ => h.applyMappingStatusChange ..) h
  | press domain p =>
      simp only [Event.run]
      split
      · next hd => exact p.dated_run h hd
      · exact h
  | recordScope scope => exact h.of_paths rfl
  | pathsFromTheMapping =>
      refine ⟨fun d row hrow => ?_⟩
      simp only [Event.run, Lifecycle.pathsFromTheMapping] at hrow
      split at hrow
      · cases hrow
        cases hstatus : t.migration.status <;> simp [PathRow.Dated, MappingLifecycle.state, holdsASlot]
      · exact h.row d row hrow
  | store c now => exact h.of_paths rfl
  | ran => exact h.of_paths rfl

/-! ### What each press holds afterwards -/

theorem any_counted_iff : (m.carried d).any PathRow.counted = true ↔ m.Holds d := by
  rw [Option.any_eq_true_iff_get, Migration.Holds]
  cases m.carried d with
  | none => simp
  | some row => simp [PathRow.counted_eq]

theorem slotsHeld_eq :
    m.slotsHeld = discoveryDomains.countP fun d => (m.carried d).any PathRow.counted := by
  unfold slotsHeld includedDomains
  rw [List.countP_filter]
  refine List.countP_congr fun d _ => ?_
  unfold carried
  cases m.included d <;> simp

/-- What holds a slot afterwards held it before. -/
theorem slotsHeld_mono (h : ∀ d, m'.Holds d → m.Holds d) : m'.slotsHeld ≤ m.slotsHeld := by
  rw [slotsHeld_eq, slotsHeld_eq]
  exact List.countP_mono_left fun d _ hd => any_counted_iff.mpr (h d (any_counted_iff.mp hd))

theorem Migration.Holds.congr (h : m'.Holds d) (hcarried : m'.carried d = m.carried d) :
    m.Holds d := by
  obtain ⟨row, hrow, hholds⟩ := h
  exact ⟨row, hcarried ▸ hrow, hholds⟩

/-- A path that follows to `active` or to the lane is said. -/
theorem pathsTakeSlots_of_follows {fromState : Option MappingLifecycle}
    {toState : MappingLifecycle} (hd : m.included d = true)
    (hfollows : pathFollows fromState toState ((m.carried d).map (·.state))
      (fromState.isSome && rollUpPhases m.phases = fromState) = true)
    (hto : toState = .active ∨ toState = .continuous) :
    pathsTakeSlots m fromState toState = true := by
  unfold pathsTakeSlots
  simp only [filterMap_includedDomains]
  rw [carried_eq hd] at hfollows
  refine Bool.and_eq_true_iff.mpr ⟨decide_eq_true ?_, by simpa using hto⟩
  exact List.countP_pos_iff.mpr ⟨d, mem_includedDomains.mpr hd, hfollows⟩

/-- A change of the status takes no slot it does not say: a pause moves what
ran, unless the rows are not believed. -/
theorem holds_of_change {toState : MappingLifecycle} {via : MappingStatusVia} {forced : Bool}
    (hne : m.status ≠ toState) (hsaid : pathsTakeSlots m (some m.status) toState = false)
    (hpaused : toState = .paused → m.status = .active ∧ (¬ m.Agreed → ∀ d, ¬ Slotless m d))
    (h : (m.applyMappingStatusChange m.status toState actor via forced).Holds d) : m.Holds d := by
  obtain ⟨-, -, -, hcarried⟩ :=
    applyMappingStatusChange_spec (m := m) m.status toState actor via forced hne
  obtain ⟨row, hrow, hholds⟩ := h
  rw [hcarried d] at hrow
  split at hrow
  · next hmoves =>
      obtain ⟨hd, hfollows⟩ := hmoves
      cases hrow
      have hnever (hto : toState = .active ∨ toState = .continuous) : m.Holds d := by
        rw [pathsTakeSlots_of_follows hd hfollows hto] at hsaid
        cases hsaid
      cases toState with
      | active => exact hnever (.inl rfl)
      | continuous => exact hnever (.inr rfl)
      | cutover => cases hholds
      | done => cases hholds
      | paused =>
          obtain ⟨hactive, hslots⟩ := hpaused rfl
          cases hown : m.carried d with
          | none =>
              rw [hown] at hfollows
              cases hfollows
          | some own =>
              by_cases hagreed : m.Agreed
              · rw [hown, hactive, decide_eq_true (hactive ▸ hagreed), Option.map_some,
                  pathFollows_paused_iff] at hfollows
                exact ⟨own, hown, by rw [hfollows]; exact holdsASlot_active _⟩
              · refine ⟨own, hown, ?_⟩
                by_contra hnot
                exact hslots hagreed d ⟨own, hown, Bool.not_eq_true _ ▸ hnot⟩
  · exact ⟨row, hrow, hholds⟩

/-- The plan of a step moves the lifecycle, if it does, where the step ends. -/
theorem setStatus_of_plan {s : Step} {ledger : Option CutoverStatus} {status : PathState}
    {p : StepPlan} {toState : MappingLifecycle} (h : s.plan ledger status = .ok p)
    (hset : p.setStatus = some toState) : toState = endsIn s ∧ MovesPhase s status := by
  obtain ⟨_, _, hplanned⟩ := planned h
  rcases planned_moves hplanned with ⟨hmoved, hphase⟩ | ⟨hleft, _⟩
  · rw [hset] at hmoved
    exact ⟨Option.some.inj hmoved, hphase⟩
  · rw [hset] at hleft
    cases hleft

/-- A step holds afterwards what its write of the lifecycle does. -/
theorem holds_runStep (port : MappingLifecyclePort) {ledger : Option DiscoveryDomain} {s : Step}
    {now : Nat} {plan : StepPlan}
    (hplan : s.plan (m.ledgers.loadCutoverState ledger) (port.readStatus m) = .ok plan)
    (hmoved : ∀ toState, plan.setStatus = some toState →
      (port.setStatus m plan.outcome.mapping.fromState toState (viaOf s)).Holds d → m.Holds d)
    (h : (runStep port ledger s now m).1.Holds d) : m.Holds d := by
  unfold runStep at h
  rw [hplan] at h
  dsimp only at h
  cases hset : plan.setStatus with
  | none =>
      rw [hset] at h
      dsimp only at h
      split at h
      · exact h.congr rfl
      · exact h
  | some toState =>
      rw [hset] at h
      dsimp only at h
      refine hmoved toState hset ?_
      split at h
      · exact h.congr rfl
      · exact h

theorem runStep_of_error (port : MappingLifecyclePort) {ledger : Option DiscoveryDomain} {s : Step}
    {now : Nat} {refused : Refused}
    (hplan : s.plan (m.ledgers.loadCutoverState ledger) (port.readStatus m) = .error refused) :
    (runStep port ledger s now m).1 = m := by
  unfold runStep
  rw [hplan]

theorem holds_ownStep {s : Step} {now : Nat} (hd : m.included d = true)
    (hsaid : (Press.ownStep s now).slotsTaken d actor m = false) {e : DiscoveryDomain}
    (h : ((Press.ownStep s now).run d actor m).1.Holds e) : m.Holds e := by
  change (runStep (pathLifecyclePort d actor) (some d) s now m).1.Holds e at h
  simp only [Press.slotsTaken] at hsaid
  cases hplan : s.plan (m.ledgers.loadCutoverState (some d)) (m.readStatus d) with
  | error refused =>
      rw [runStep_of_error (pathLifecyclePort d actor) hplan] at h
      exact h
  | ok plan =>
      rw [hplan] at hsaid
      refine holds_runStep (pathLifecyclePort d actor) hplan (fun toState hset hmoved => ?_) h
      dsimp only at hsaid
      rw [hset] at hsaid
      dsimp only at hsaid
      obtain ⟨rfl, -⟩ := setStatus_of_plan hplan hset
      obtain ⟨-, -, -, hcarried⟩ := applyPathStatusChange_spec hd
        plan.outcome.mapping.fromState (endsIn s) actor (viaOf s)
      change (m.applyPathStatusChange d _ (endsIn s) actor (viaOf s)).Holds e at hmoved
      obtain ⟨row, hrow, hholds⟩ := hmoved
      rw [hcarried] at hrow
      by_cases he : e = d
      · subst he
        rw [Function.update_self] at hrow
        cases hrow
        -- It ended in its cutover: a rollback would have said.
        by_cases hs : s.toState = ROLLED_BACK
        · rw [endsIn, if_pos hs] at hsaid
          cases hsaid
        · rw [endsIn, if_neg hs] at hholds
          cases hholds
      · rw [Function.update_of_ne he] at hrow
        exact ⟨row, hrow, hholds⟩

theorem holds_stopOrResume {stop : Bool} (hd : m.included d = true)
    (hrep : (Press.stopOrResume stop).Reporting d m)
    (hsaid : (Press.stopOrResume stop).slotsTaken d actor m = false) {e : DiscoveryDomain}
    (h : ((Press.stopOrResume stop).run d actor m).1.Holds e) : m.Holds e := by
  change (stopOrResumePath m d stop actor).1.Holds e at h
  have hsaid' : ∀ changed slotsTaken,
      (stopOrResumePath m d stop actor).2 = .answered changed slotsTaken → slotsTaken = false := by
    intro changed slotsTaken hanswer
    simp only [Press.slotsTaken, hanswer] at hsaid
    exact hsaid
  rcases stopOrResumePath_run actor hd stop with ⟨_, hsame, _⟩ | ⟨hmoves, _, _, _, _, hcarried⟩
  · change (stopOrResumePath m d stop actor).1 = m at hsame
    rw [hsame] at h
    exact h
  · change (stopOrResumePath m d stop actor).1.carried = _ at hcarried
    obtain ⟨row, hrow, hholds⟩ := h
    rw [hcarried] at hrow
    by_cases he : e = d
    · subst he
      rw [Function.update_self] at hrow
      cases hrow
      have hanswer : (stopOrResumePath m e stop actor).2 =
          .answered true (!stop && holdsASlot (stopsIn m e) stop && !holdsASlot (stopsIn m e) true) := by
        unfold stopOrResumePath
        rw [(decidePathStop_changes_iff hd).mpr ⟨hmoves, rfl, rfl⟩]
      have hnot := hsaid' _ _ hanswer
      change holdsASlot (stopsIn m e) stop = true at hholds
      have hphase := hmoves.phase
      cases hown : m.carried e with
      | some own =>
          have hin : stopsIn m e = own.state := by simp [stopsIn, hown]
          rw [hin] at hnot hholds hphase
          refine ⟨own, hown, ?_⟩
          -- In the lane a stop released the slot; before it, the path held it all along.
          cases hstate : own.state <;> rw [hstate] at hnot hholds hphase
          case active => exact holdsASlot_active _
          case continuous =>
            cases stop with
            | true => cases hholds
            | false => cases hnot
          all_goals cases hphase
      | none =>
          have hin : stopsIn m e = m.status.state := by simp [stopsIn, hown]
          have hturns := hmoves.turns
          rw [stoppedOf_eq, hown] at hturns
          obtain rfl : stop = true := by simpa using hturns
          rw [hin] at hholds hphase
          cases hstatus : m.status <;> rw [hstatus] at hholds hphase
          case active => exact absurd hown (hrep rfl hstatus)
          case continuous => cases hholds
          all_goals cases hphase
    · rw [Function.update_of_ne he] at hrow
      exact ⟨row, hrow, hholds⟩

/-- What is kept, and from a phase that held no slot, says so. -/
theorem slotsTaken_of_keep {unresolvedFailures : Nat} {force : Bool} (hd : m.included d = true)
    (hmoves : EndingMoves m d .keep unresolvedFailures force)
    (hsaid : (Press.endOrKeep .keep unresolvedFailures force).slotsTaken d actor m = false) :
    m.phaseOf d = .active := by
  obtain ⟨stopped, forced, hdecide⟩ := decidePathEnding_of_moves hd hmoves
  have hlast := getLast_stepsOf m d .keep
  simp only [Press.slotsTaken, endOrKeepPath, hdecide, hlast, Option.getD_some] at hsaid
  have hholds : holdsASlot (m.phaseOf d) false = true := by simpa [endsAt] using hsaid
  have hphase := hmoves.phase
  have hturns := hmoves.turns
  cases hstate : m.phaseOf d <;> rw [hstate] at hholds hphase hturns
  case paused => exact absurd hphase (by decide)
  case continuous => exact absurd rfl hturns
  all_goals cases hholds

theorem holds_endOrKeep {ending : PathEnding} {unresolvedFailures : Nat} {force : Bool}
    (hd : m.included d = true) (hrep : (Press.endOrKeep ending unresolvedFailures force).Reporting d m)
    (hsaid : (Press.endOrKeep ending unresolvedFailures force).slotsTaken d actor m = false)
    {e : DiscoveryDomain}
    (h : ((Press.endOrKeep ending unresolvedFailures force).run d actor m).1.Holds e) :
    m.Holds e := by
  have hrun := endingRun actor hd ending unresolvedFailures force
  generalize (Press.endOrKeep ending unresolvedFailures force).run d actor m = r at hrun h
  cases hrun with
  | held => exact h
  | @moved m' row hmoves _ _ _ hstate hcarried =>
      obtain ⟨row', hrow, hholds⟩ := h
      rw [hcarried] at hrow
      by_cases he : e = d
      · subst he
        rw [Function.update_self] at hrow
        cases hrow
        rw [hstate] at hholds
        cases ending with
        | finish =>
            rw [show (endsAt .finish).state = .done from rfl, holdsASlot_done] at hholds
            cases hholds
        | keep => exact hrep.2 rfl (slotsTaken_of_keep hd hmoves hsaid)
      · rw [Function.update_of_ne he] at hrow
        obtain ⟨own, hown, rfl⟩ := Option.map_eq_some_iff.mp hrow
        refine ⟨own, hown, ?_⟩
        rw [PathRow.readAs_state, PathRow.readAs_stopped, phaseOf_of_row hown] at hholds
        by_cases hagreed : m.Agreed
        · rwa [if_pos hagreed] at hholds
        · rw [if_neg hagreed] at hholds
          by_contra hnot
          rw [hrep.1 e own he hown hagreed (Bool.not_eq_true _ ▸ hnot)] at hholds
          cases hholds

theorem Press.holds_run {p : Press} (hd : m.included d = true) (hrep : p.Reporting d m)
    (hsaid : p.slotsTaken d actor m = false) {e : DiscoveryDomain}
    (h : (p.run d actor m).1.Holds e) : m.Holds e := by
  cases p with
  | ownStep s now => exact holds_ownStep hd hsaid h
  | endOrKeep ending unresolvedFailures force => exact holds_endOrKeep hd hrep hsaid h
  | stopOrResume stop => exact holds_stopOrResume hd hrep hsaid h

theorem endsIn_ne_paused (s : Step) : endsIn s ≠ .paused := by
  unfold endsIn
  split <;> decide

theorem not_movesPhase_endsIn {s : Step} : ¬ MovesPhase s (endsIn s).state := by
  unfold MovesPhase endsIn
  split <;> decide

/-- What takes a slot says so, or is not reporting. -/
theorem Event.holds_after {e : Event} (hrep : e.Reporting m)
    (hsaid : e.slotsTaken actor m = false) {d : DiscoveryDomain}
    (h : (e.after actor m).Holds d) : m.Holds d := by
  cases e with
  | start =>
      change (startMigration m actor).Holds d at h
      unfold startMigration at h
      simp only [Event.slotsTaken] at hsaid
      split at h
      · next hstart =>
          rw [hstart] at hsaid
          have hne : m.status ≠ .active := by
            rw [startTransition_activate hstart]
            decide
          exact holds_of_change hne hsaid (fun heq => by cases heq) h
      · exact h
  | update toState =>
      change (updateMigration m toState actor).Holds d at h
      unfold updateMigration at h
      simp only [Event.slotsTaken] at hsaid
      split at h
      · next a b hupdate =>
          rw [hupdate] at hsaid
          obtain ⟨rfl, rfl, hne, -, hafter⟩ := updateTransition_apply hupdate
          refine holds_of_change hne hsaid (fun hpaused => ⟨?_, hrep hpaused⟩) h
          subst hpaused
          -- A pause is of what runs: after its cutover it would be refused.
          cases hstatus : m.status <;> rw [hstatus] at hne hafter
          case paused => exact absurd rfl hne
          all_goals exact absurd (hafter rfl) (by decide)
      · exact h
  | finish unresolvedFailures force =>
      change (finishMigration m unresolvedFailures force actor).Holds d at h
      unfold finishMigration at h
      simp only [Event.slotsTaken] at hsaid
      split at h
      · next hfinish =>
          rw [hfinish] at hsaid
          exact holds_of_change (finishTransition_finish hfinish).2 hsaid (fun heq => by cases heq) h
      · exact h
  | wholeStep s now =>
      change (runStep (mappingLifecyclePort actor) none s now m).1.Holds d at h
      simp only [Event.slotsTaken] at hsaid
      cases hplan : s.plan (m.ledgers.loadCutoverState none) m.status.state with
      | error refused =>
          rw [runStep_of_error (mappingLifecyclePort actor) hplan] at h
          exact h
      | ok plan =>
          rw [hplan] at hsaid
          refine holds_runStep (mappingLifecyclePort actor) hplan
            (fun toState hset hmoved => ?_) h
          dsimp only at hsaid
          rw [hset] at hsaid
          dsimp only at hsaid
          obtain ⟨rfl, hphase⟩ := setStatus_of_plan hplan hset
          have hne : m.status ≠ endsIn s := by
            intro hsame
            rw [hsame] at hphase
            exact not_movesPhase_endsIn hphase
          rw [decide_eq_true hne, Bool.true_and] at hsaid
          exact holds_of_change hne hsaid (fun hpaused => absurd hpaused (endsIn_ne_paused s)) hmoved
  | press domain p =>
      unfold Event.after at h
      simp only [Event.run] at h
      simp only [Event.slotsTaken] at hsaid
      split at h
      · next hd =>
          rw [hd, Bool.true_and] at hsaid
          exact p.holds_run hd hrep hsaid h
      · exact h
  | recordScope scope => exact hrep.elim
  | pathsFromTheMapping => exact hrep.elim
  | store c now => exact h.congr rfl
  | ran => exact h.congr rfl

/-- A press holds no more slots than before, unless it says so. -/
theorem Event.slotsHeld_le {e : Event} (hrep : e.Reporting m)
    (hsaid : e.slotsTaken actor m = false) : (e.after actor m).slotsHeld ≤ m.slotsHeld :=
  slotsHeld_mono fun _ h => e.holds_after hrep hsaid h

end Ownpace.Lifecycle
