/-
Ownpace/Lifecycle/AfterCutover.lean

After a cutover stays after a cutover, per data type: once one has entered its
cutover, its own or the whole migration's, every gate reads it past its cutover
while it is carried, until a rollback of the ledger it is on.

A status past the cutover carries every data type past it.  Before it, only a
row that is believed keeps one there.  So what can bring one back is what
leaves the rows and the status out of step: a change of scope after which they
do not add up, and a rollback under a data type whose row does not hold it.
`Event.Safe` says which those are.
-/
import Ownpace.Lifecycle.Presses

namespace Ownpace.Lifecycle

open Cutover CutoverState Migration

/-! ### The other doors -/

/-- The whole migration's lifecycle.  What a step moves from is the status it
has read. -/
def mappingLifecyclePort (actor : String) : MappingLifecyclePort where
  readStatus m := m.status.state
  setStatus m _ toState via := m.applyMappingStatusChange m.status toState actor via

def startMigration (m : Migration) (actor : String) : Migration :=
  match startTransition m.status with
  | .activate true => m.applyMappingStatusChange m.status .active actor .start
  | _ => m

def updateMigration (m : Migration) (toState : MappingLifecycle) (actor : String) : Migration :=
  match updateTransition m.status toState with
  | .apply fromState toState => m.applyMappingStatusChange fromState toState actor .update
  | _ => m

def finishMigration (m : Migration) (unresolvedFailures : Nat) (force : Bool) (actor : String) :
    Migration :=
  match finishTransition m.status unresolvedFailures force with
  | .finish => m.applyMappingStatusChange m.status .done actor .finish (unresolvedFailures > 0)
  | _ => m

/-- The data types carried once a scope is written over the one there is. -/
def scopeAfter (included : DiscoveryDomain → Bool) (scope : List (DiscoveryDomain × Bool)) :
    DiscoveryDomain → Bool :=
  scope.foldl (fun included s => Function.update included s.1 s.2) included

def recordScope (m : Migration) (scope : List (DiscoveryDomain × Bool)) : Migration :=
  { m with included := scopeAfter m.included scope }

/-- Give a migration's paths their rows, where they have none: a paused
migration's only once it has run. -/
def pathsFromTheMapping (m : Migration) : Migration :=
  { m with
    paths := fun d =>
      if m.included d ∧ m.paths d = none ∧ (m.status ≠ .paused ∨ m.ran) then
        some { state := m.status.state, ended := m.status = .cutover || m.status = .done }
      else m.paths d }

/-! ### Runs -/

/-- A press, or what else happens to a migration. -/
inductive Event where
  | start
  | update (toState : MappingLifecycle)
  | finish (unresolvedFailures : Nat) (force : Bool)
  /-- A step of the whole migration's cutover. -/
  | wholeStep (s : Step) (now : Nat)
  /-- A press on one data type, which the doors refuse of one that is not
  carried. -/
  | press (domain : DiscoveryDomain) (p : Press)
  | recordScope (scope : List (DiscoveryDomain × Bool))
  | pathsFromTheMapping
  /-- A call to the store of the cutover ledgers that is no step. -/
  | store (c : Call) (now : Nat)
  /-- A pass has run. -/
  | ran

/-- A migration, and which of its data types have entered their cutover since
the last rollback of the ledger each is on. -/
structure Traced where
  migration : Migration
  entered : DiscoveryDomain → Bool

/-- The data types in their cutover after a step of the whole migration's: it
enters all that are carried, and a rollback sets back those on its ledger. -/
def enteredByWhole (t : Traced) (s : Step) (d : DiscoveryDomain) : Bool :=
  if s.toState = ROLLED_BACK then t.entered d && (t.migration.ledgers.rows (some d)).isSome
  else t.entered d || t.migration.included d

/-- After an accepted press on one data type. -/
def enteredByPress (t : Traced) (domain : DiscoveryDomain) : Press → DiscoveryDomain → Bool
  | .ownStep s _ => Function.update t.entered domain (decide (s.toState ≠ ROLLED_BACK))
  | .endOrKeep _ _ _ => Function.update t.entered domain true
  | .stopOrResume _ => t.entered

/-- A change of the whole migration's status to one past its cutover enters all
that are carried. -/
def Traced.changed (t : Traced) (m' : Migration) : Traced where
  migration := m'
  entered d := t.entered d ||
    (m'.status ≠ t.migration.status && isAfterCutover m'.status.state && t.migration.included d)

def Event.run (actor : String) (t : Traced) : Event → Traced
  | start => t.changed (startMigration t.migration actor)
  | update toState => t.changed (updateMigration t.migration toState actor)
  | finish unresolvedFailures force =>
    t.changed (finishMigration t.migration unresolvedFailures force actor)
  | wholeStep s now =>
    let r := runStep (mappingLifecyclePort actor) none s now t.migration
    { migration := r.1
      entered := match r.2 with
        | .done _ => enteredByWhole t s
        | _ => t.entered }
  | press domain p =>
    if t.migration.included domain then
      let r := p.run domain actor t.migration
      { migration := r.1
        entered := match r.2 with
          | .accepted _ => enteredByPress t domain p
          | _ => t.entered }
    else t
  | recordScope scope => { t with migration := Lifecycle.recordScope t.migration scope }
  | pathsFromTheMapping => { t with migration := Lifecycle.pathsFromTheMapping t.migration }
  | store c now =>
    { t with migration := { t.migration with ledgers := c.run t.migration.ledgers now } }
  | ran => { t with migration := { t.migration with ran := true } }

def run (actor : String) (t : Traced) (events : List Event) : Traced :=
  events.foldl (Event.run actor) t

/-- A row past its cutover. -/
def HeldByRow (m : Migration) (d : DiscoveryDomain) : Prop :=
  ∃ row, m.paths d = some row ∧ isAfterCutover row.state = true

/-- A step is one the ledger allows. -/
def Allows (m : Migration) (ledger : Option DiscoveryDomain) (s : Step) : Prop :=
  ∃ state, m.ledgers.loadCutoverState ledger = some state ∧
    isValidTransition state.current s.toState = true

/-- What leaves every data type that has entered its cutover past it. -/
def Event.Safe (t : Traced) : Event → Prop
  | wholeStep s _ =>
    -- A rollback of the whole: what has a ledger of its own is held by a row
    -- that is believed, and is not in the phase the whole leaves.
    s.toState = ROLLED_BACK → Allows t.migration none s → MovesPhase s t.migration.status.state →
      ∀ d, t.entered d = true → t.migration.included d = true →
        t.migration.ledgers.rows (some d) ≠ none →
        t.migration.Agreed ∧ ∃ row, t.migration.paths d = some row ∧
          row.state ≠ t.migration.status.state
  | press domain (.ownStep s _) =>
    -- A rollback of one data type: it has a ledger of its own to roll back, and
    -- every other is held by a row.
    s.toState = ROLLED_BACK → t.migration.included domain = true →
      Allows t.migration (some domain) s → MovesPhase s (t.migration.phaseOf domain) →
      (t.entered domain = true → t.migration.ledgers.rows (some domain) ≠ none) ∧
      ∀ d, d ≠ domain → t.entered d = true → t.migration.included d = true →
        HeldByRow t.migration d
  | recordScope scope =>
    -- What is carried afterwards adds up to the status, or the status is past
    -- the cutover.
    isAfterCutover t.migration.status.state = true ∨
      ∀ d, t.entered d = true → scopeAfter t.migration.included scope d = true →
        HeldByRow t.migration d ∧
        rollUpPhases (statesOf fun e =>
          if scopeAfter t.migration.included scope e then t.migration.paths e else none) =
            some t.migration.status
  | _ => True

/-- Every data type that has entered its cutover is read past it. -/
def Held (t : Traced) : Prop :=
  ∀ d, t.entered d = true → t.migration.included d = true →
    isAfterCutover (t.migration.phaseOf d) = true

/-! ### What keeps it -/

variable {t : Traced} {m m' : Migration} {d : DiscoveryDomain} {actor : String}

/-- Before the migration's cutover, only a believed row holds a data type past
its own. -/
theorem row_of_after (hbefore : isAfterCutover m.status.state = false)
    (h : isAfterCutover (m.phaseOf d) = true) :
    m.Agreed ∧ ∃ row, m.carried d = some row ∧ isAfterCutover row.state = true := by
  cases hrow : m.carried d with
  | none =>
      rw [phaseOf_of_no_row hrow, hbefore] at h
      cases h
  | some row =>
      rw [phaseOf_of_row hrow] at h
      by_cases hagreed : m.Agreed
      · rw [if_pos hagreed] at h
        exact ⟨hagreed, row, rfl, h⟩
      · rw [if_neg hagreed, hbefore] at h
        cases h

theorem after_of_row {row : PathRow} (hagreed : m.Agreed) (hrow : m.carried d = some row)
    (h : isAfterCutover row.state = true) : isAfterCutover (m.phaseOf d) = true := by
  rwa [phaseOf_of_row hrow, if_pos hagreed]

/-- Where the rows go on adding up, the rows past their cutovers hold. -/
theorem after_of_rows (hbefore : isAfterCutover m.status.state = false)
    (h : isAfterCutover (m.phaseOf d) = true) (hagreed : m.Agreed → m'.Agreed)
    (hrow : ∀ row, m.Agreed → m.carried d = some row → isAfterCutover row.state = true →
      ∃ row', m'.carried d = some row' ∧ isAfterCutover row'.state = true) :
    isAfterCutover (m'.phaseOf d) = true := by
  obtain ⟨hold, row, hcarried, hafter⟩ := row_of_after hbefore h
  obtain ⟨row', hcarried', hafter'⟩ := hrow row hold hcarried hafter
  exact after_of_row (hagreed hold) hcarried' hafter'

/-! ### A change of the whole migration's status -/

/-- A change of the status: the rows that follow are moved to it. -/
theorem applyMappingStatusChange_spec (fromState toState : MappingLifecycle) (actor : String)
    (via : MappingStatusVia) (forced : Bool) (hne : fromState ≠ toState) :
    let m' := m.applyMappingStatusChange fromState toState actor via forced
    m'.status = toState ∧ m'.included = m.included ∧ m'.ledgers = m.ledgers ∧
      ∀ d, m'.carried d =
        if m.included d = true ∧ pathFollows (some fromState) toState ((m.carried d).map (·.state))
            (rollUpPhases m.phases = some fromState) = true then
          some (movedRow (m.carried d) toState.state)
        else m.carried d := by
  have heq : m.applyMappingStatusChange fromState toState actor via forced =
      let moved := ({ m with status := toState } : Migration).movePathsWithMapping
        (some fromState) toState
      { moved with audit := moved.audit ++ [.mappingStatus fromState toState actor via forced] } := by
    simp only [applyMappingStatusChange, recordMappingStatusChange, if_pos hne, if_neg hne]
  rw [heq, movePathsWithMapping_eq]
  refine ⟨rfl, rfl, rfl, fun d => ?_⟩
  cases hincl : m.included d with
  | false => simp [carried, hincl]
  | true =>
      simp only [carried, hincl, if_true, true_and]
      rfl

theorem pathFollows_active_iff {fromState : MappingLifecycle} {p : PathState} :
    pathFollows (some fromState) .active (some p) true = true ↔ p = .ready ∨ p = fromState.state := by
  simp [pathFollows]

theorem pathFollows_paused_iff {fromState : MappingLifecycle} {p : PathState} :
    pathFollows (some fromState) .paused (some p) true = true ↔ p = fromState.state := by
  simp [pathFollows]

/-- Of rows that add up, what is not in the phase the migration leaves stays
where it is when the migration becomes `active`; and the rows go on adding up
where one of them follows. -/
theorem rows_of_active (actor : String) (via : MappingStatusVia) (hagreed : m.Agreed) (hne : m.status ≠ .active) :
    let m' := m.applyMappingStatusChange m.status .active actor via
    ((∃ p ∈ m.phases, p = .ready ∨ p = m.status.state) → m'.Agreed) ∧
      ∀ d row, m.carried d = some row → isAfterCutover row.state = true →
        row.state ≠ m.status.state → m'.carried d = some row := by
  obtain ⟨hstatus, hincluded, _, hcarried⟩ :=
    applyMappingStatusChange_spec (m := m) m.status .active actor via false hne
  have hbelieved : decide (rollUpPhases m.phases = some m.status) = true := decide_eq_true hagreed
  constructor
  · rintro ⟨p, hp, hfollows⟩
    obtain ⟨e, row, hrow, rfl⟩ := mem_phases.mp hp
    unfold Agreed
    rw [hstatus, rollUpPhases_eq_some_iff]
    refine mem_phases.mpr ⟨e, movedRow (some row) .active, ?_, rfl⟩
    rw [hcarried e, hrow, hbelieved, Option.map_some,
      if_pos ⟨included_of_carried hrow, pathFollows_active_iff.mpr hfollows⟩]
    rfl
  · intro d row hrow hafter hother
    rw [hcarried d, hrow, hbelieved, Option.map_some, if_neg]
    rintro ⟨_, hfollows⟩
    rcases pathFollows_active_iff.mp hfollows with hready | hsame
    · rw [hready] at hafter
      cases hafter
    · exact hother hsame

/-- A data type past its cutover stays where it is when the rest is started. -/
theorem after_start {via : MappingStatusVia}
    (h : isAfterCutover (m.phaseOf d) = true) (hpaused : m.status = .paused) :
    isAfterCutover ((m.applyMappingStatusChange m.status .active actor via).phaseOf d) = true := by
  have hne : m.status ≠ .active := by rw [hpaused]; decide
  refine after_of_rows (by rw [hpaused]; rfl) h (fun hagreed => ?_) fun row hagreed hrow hafter => ?_
  · -- A paused migration whose rows add up has one that starts.
    refine (rows_of_active actor via hagreed hne).1 ?_
    obtain ⟨hnone, p, hp, hbefore⟩ : AddsUp m.phases .paused :=
      rollUpPhases_eq_some_iff.mp (hpaused ▸ hagreed)
    refine ⟨p, hp, ?_⟩
    rcases (isBefore_iff p).mpr hbefore with rfl | rfl | rfl
    · exact absurd hp hnone
    · exact .inr (by rw [hpaused]; rfl)
    · exact .inl rfl
  · refine ⟨row, (rows_of_active actor via hagreed hne).2 d row hrow hafter ?_, hafter⟩
    intro hsame
    rw [hsame, hpaused] at hafter
    cases hafter

/-- And when the rest is paused. -/
theorem after_pause {via : MappingStatusVia}
    (h : isAfterCutover (m.phaseOf d) = true) (hactive : m.status = .active) :
    isAfterCutover ((m.applyMappingStatusChange m.status .paused actor via).phaseOf d) = true := by
  obtain ⟨hstatus, hincluded, _, hcarried⟩ := applyMappingStatusChange_spec (m := m)
    m.status .paused actor via false (by rw [hactive]; decide)
  refine after_of_rows (by rw [hactive]; rfl) h (fun hagreed => ?_) fun row hagreed hrow hafter => ?_
  · have hbelieved : decide (rollUpPhases m.phases = some m.status) = true := decide_eq_true hagreed
    have hmem : PathState.active ∈ m.phases :=
      rollUpPhases_eq_some_iff.mp (show rollUpPhases m.phases = some .active from hactive ▸ hagreed)
    have hmoved (e : DiscoveryDomain) (row : PathRow) (hrow : m.carried e = some row)
        (hstate : row.state = .active) :
        (m.applyMappingStatusChange m.status .paused actor via).carried e =
          some (movedRow (some row) .paused) := by
      rw [hcarried e, hrow, hbelieved, Option.map_some,
        if_pos ⟨included_of_carried hrow, pathFollows_paused_iff.mpr (by rw [hstate, hactive]; rfl)⟩]
      rfl
    unfold Agreed
    rw [hstatus, rollUpPhases_eq_some_iff]
    constructor
    · intro hstill
      obtain ⟨e, row', hrow', hstate'⟩ := mem_phases.mp hstill
      rw [hcarried e] at hrow'
      split at hrow'
      · cases hrow'
        cases hstate'
      · next hstays =>
          have hmoves := hmoved e row' hrow' hstate'
          rw [hcarried e, if_neg hstays, hrow'] at hmoves
          have hpaused : row'.state = .paused := congrArg PathRow.state (Option.some.inj hmoves)
          rw [hstate'] at hpaused
          cases hpaused
    · obtain ⟨e, row, hrow, hstate⟩ := mem_phases.mp hmem
      exact ⟨.paused, mem_phases.mpr ⟨e, _, hmoved e row hrow hstate, rfl⟩, rfl⟩
  · have hbelieved : decide (rollUpPhases m.phases = some m.status) = true := decide_eq_true hagreed
    refine ⟨row, ?_, hafter⟩
    rw [hcarried d, hrow, hbelieved, Option.map_some, if_neg]
    rintro ⟨_, hfollows⟩
    rw [pathFollows_paused_iff.mp hfollows, hactive] at hafter
    cases hafter

/-! ### A step of the whole migration's cutover -/

theorem held_changed (h : Held t) {m' : Migration} (hincluded : m'.included = t.migration.included)
    (hkept : ∀ d, isAfterCutover (t.migration.phaseOf d) = true →
      isAfterCutover (m'.phaseOf d) = true) : Held (t.changed m') := by
  intro d hentered hincl
  have hincl' : t.migration.included d = true := by
    rw [← hincluded]
    exact hincl
  rcases Bool.or_eq_true _ _ |>.mp hentered with hold | hnew
  · exact hkept d (h d hold hincl')
  · rw [Bool.and_eq_true, Bool.and_eq_true] at hnew
    exact after_of_status hnew.1.2

theorem held_start (h : Held t) : Held (Event.run actor t .start) := by
  simp only [Event.run, startMigration]
  split
  · next hstart =>
      have hpaused := startTransition_activate hstart
      obtain ⟨_, hincluded, _⟩ := applyMappingStatusChange_spec (m := t.migration)
        t.migration.status .active actor .start false (by rw [hpaused]; decide)
      exact held_changed h hincluded fun d hd => after_start hd hpaused
  · exact held_changed h rfl fun d hd => hd

theorem held_update (h : Held t) (toState : MappingLifecycle) :
    Held (Event.run actor t (.update toState)) := by
  simp only [Event.run, updateMigration]
  split
  · next fromState next hupdate =>
      obtain ⟨rfl, rfl, hne, hactive, hafter⟩ := updateTransition_apply hupdate
      obtain ⟨hstatus, hincluded, _⟩ := applyMappingStatusChange_spec (m := t.migration)
        t.migration.status next actor .update false hne
      refine held_changed h hincluded fun d hd => ?_
      cases hto : isAfterCutover next.state with
      | true => exact after_of_status (by rw [hstatus]; exact hto)
      | false =>
          -- A pause: nothing else is before the cutover, and not a start.
          have hpaused : next = .paused := by
            revert hto hactive
            cases next <;> decide
          subst hpaused
          have hfrom : t.migration.status = .active := by
            clear * - hafter hne
            revert hafter hne
            cases t.migration.status <;> decide
          exact after_pause hd hfrom
  · exact held_changed h rfl fun d hd => hd

theorem held_finish (h : Held t) (unresolvedFailures : Nat) (force : Bool) :
    Held (Event.run actor t (.finish unresolvedFailures force)) := by
  simp only [Event.run, finishMigration]
  split
  · next hfinish =>
      obtain ⟨hstatus, hincluded, _⟩ := applyMappingStatusChange_spec (m := t.migration)
        t.migration.status .done actor .finish (unresolvedFailures > 0) (finishTransition_finish hfinish).2
      exact held_changed h hincluded fun d _ => after_of_status (by rw [hstatus]; rfl)
  · exact held_changed h rfl fun d hd => hd

/-- What a step of the whole migration's cutover did. -/
inductive WholeStepRun (actor : String) (s : Step) (m : Migration) : Migration × StepAnswer → Prop
  | refused {refused} : WholeStepRun actor s m (m, .refused refused)
  | moved {ledgers outcome} : Allows m none s → MovesPhase s m.status.state →
      WholeStepRun actor s m
        ({ m.applyMappingStatusChange m.status (endsIn s) actor (viaOf s) with ledgers },
          .done outcome)
  | left {ledgers outcome} : LeavesPhase s m.status.state →
      WholeStepRun actor s m ({ m with ledgers }, .done outcome)

theorem endsIn_ne {s : Step} {status : MappingLifecycle} (h : MovesPhase s status.state) :
    status ≠ endsIn s := by
  unfold MovesPhase at h
  unfold endsIn
  split at h
  · rw [if_pos ‹_›]
    rintro rfl
    revert h
    decide
  · rw [if_neg ‹_›]
    rintro rfl
    revert h
    decide

theorem wholeStepRun (actor : String) (s : Step) (now : Nat) (m : Migration) :
    WholeStepRun actor s m (runStep (mappingLifecyclePort actor) none s now m) := by
  have hread : (mappingLifecyclePort actor).readStatus m = m.status.state := rfl
  simp only [runStep, hread]
  cases hplan : s.plan (m.ledgers.loadCutoverState none) m.status.state with
  | error refused => exact .refused
  | ok p =>
      obtain ⟨state, hload, hp⟩ := planned hplan
      have hto : p.toState ≠ PREPARING := hp.toState ▸ s.toState_ne_preparing
      obtain ⟨row, hrow⟩ : ∃ row, m.ledgers.rows none = some row := by
        obtain ⟨row, _, ⟨hrow, _⟩ | ⟨_, hrow, _⟩⟩ := loadCutoverState_eq hload <;> exact ⟨row, hrow⟩
      obtain ⟨ledgers, status, hok⟩ := transitionState_row now (.metadata p.metadata) hrow hload
        (hp.toState ▸ hp.valid) hto
      dsimp only
      rcases planned_moves hp with ⟨hset, hmoves⟩ | ⟨hset, hleaves⟩
      · have hledgers : ((mappingLifecyclePort actor).setStatus m p.outcome.mapping.fromState
            (endsIn s) (viaOf s)).ledgers = m.ledgers :=
          (applyMappingStatusChange_spec (m := m) m.status (endsIn s) actor (viaOf s) false
            (endsIn_ne hmoves)).2.2.1
        rw [hset]
        dsimp only
        rw [hledgers, hok]
        exact .moved ⟨state, hload, hp.valid⟩ hmoves
      · rw [hset]
        dsimp only
        rw [hok]
        exact .left hleaves

theorem held_wholeStep (h : Held t) (s : Step) (now : Nat)
    (hsafe : (Event.wholeStep s now).Safe t) : Held (Event.run actor t (.wholeStep s now)) := by
  have hrun := wholeStepRun actor s now t.migration
  simp only [Event.run]
  generalize runStep (mappingLifecyclePort actor) none s now t.migration = r at hrun ⊢
  cases hrun with
  | refused => exact h
  | @left ledgers outcome hleaves =>
      intro d hentered hincl
      show isAfterCutover (t.migration.phaseOf d) = true
      change enteredByWhole t s d = true at hentered
      unfold enteredByWhole at hentered
      unfold LeavesPhase at hleaves
      split at hentered
      · rw [Bool.and_eq_true] at hentered
        exact h d hentered.1 hincl
      · rw [if_neg ‹_›] at hleaves
        exact after_of_status hleaves
  | @moved ledgers outcome hallows hmoves =>
      have hne := endsIn_ne hmoves
      obtain ⟨hstatus, hincluded, _, _⟩ := applyMappingStatusChange_spec (m := t.migration)
        t.migration.status (endsIn s) actor (viaOf s) false hne
      intro d hentered hincl
      have hincl' : t.migration.included d = true := by
        rw [← hincluded]
        exact hincl
      show isAfterCutover ((t.migration.applyMappingStatusChange t.migration.status (endsIn s) actor
        (viaOf s)).phaseOf d) = true
      change enteredByWhole t s d = true at hentered
      unfold enteredByWhole at hentered
      by_cases hs : s.toState = ROLLED_BACK
      · rw [if_pos hs, Bool.and_eq_true] at hentered
        obtain ⟨hagreed, row, hrow, hother⟩ := hsafe hs hallows hmoves d hentered.1 hincl'
          (Option.isSome_iff_ne_none.mp hentered.2)
        have hback : t.migration.status.state = .cutover ∨ t.migration.status.state = .continuous := by
          unfold MovesPhase at hmoves
          rwa [if_pos hs] at hmoves
        have hends : endsIn s = .active := if_pos hs
        have hcarried : t.migration.carried d = some row := (carried_eq hincl').trans hrow
        have hadds := rollUpPhases_eq_some_iff.mp hagreed
        have hpast : isAfterCutover t.migration.status.state = true := by
          rcases hback with hb | hb <;> rw [hb] <;> rfl
        have hafter : isAfterCutover row.state = true :=
          hadds.after_iff.mpr hpast _ (mem_phases.mpr ⟨d, row, hcarried, rfl⟩)
        have hmem := hadds.mem_of_after hpast
        rw [hends] at hne ⊢
        obtain ⟨hadd, hstays⟩ := rows_of_active actor (viaOf s) hagreed hne
        exact after_of_row (hadd ⟨_, hmem, .inr rfl⟩) (hstays d row hcarried hafter hother) hafter
      · refine after_of_status ?_
        rw [hstatus, show endsIn s = .cutover from if_neg hs]
        rfl

/-! ### A press on one data type -/

theorem before_of_moves {s : Step} (hs : s.toState ≠ ROLLED_BACK) (h : MovesPhase s (m.phaseOf d)) :
    isAfterCutover m.status.state = false := by
  rw [← Bool.not_eq_true]
  intro hpast
  have hafter := after_of_status (d := d) hpast
  unfold MovesPhase at h
  rw [if_neg hs] at h
  rcases h with h | h <;> rw [h] at hafter <;> cases hafter

/-- A path moved on its own by a step: what is read of it and of the others. -/
theorem after_of_ownStep {s : Step} (actor : String) (fromState : PathState) {e : DiscoveryDomain}
    (hd : m.included d = true) (hmoves : MovesPhase s (m.phaseOf d))
    (hrows : s.toState = ROLLED_BACK → e ≠ d ∧ HeldByRow m e) (hincl : m.included e = true)
    (h : e = d ∨ isAfterCutover (m.phaseOf e) = true) :
    isAfterCutover ((m.applyPathStatusChange d fromState (endsIn s) actor (viaOf s)).phaseOf e) =
      true := by
  obtain ⟨_, _, hagreed, hcarried⟩ :=
    applyPathStatusChange_spec hd fromState (endsIn s) actor (viaOf s)
  by_cases hs : s.toState = ROLLED_BACK
  · obtain ⟨he, row, hrow, hafter⟩ := hrows hs
    refine after_of_row hagreed ?_ hafter
    rw [hcarried, Function.update_of_ne he, carried_eq hincl, hrow]
  · by_cases he : e = d
    · subst he
      refine after_of_row hagreed (by rw [hcarried, Function.update_self]) ?_
      show isAfterCutover (endsIn s).state = true
      rw [show endsIn s = .cutover from if_neg hs]
      rfl
    · refine after_of_rows (before_of_moves hs hmoves) (h.resolve_left he) (fun _ => hagreed) ?_
      intro row _ hrow hafter
      exact ⟨row, by rw [hcarried, Function.update_of_ne he, hrow], hafter⟩

theorem held_ownStep (h : Held t) (hd : t.migration.included d = true) (s : Step) (now : Nat)
    (hsafe : (Event.press d (.ownStep s now)).Safe t) :
    Held (Event.run actor t (.press d (.ownStep s now))) := by
  have hrun := ownStepRun actor hd s now
  simp only [Event.run, if_pos hd]
  generalize (Press.ownStep s now).run d actor t.migration = r at hrun ⊢
  cases hrun with
  | refused _ => exact h
  | leftAlone _ _ => exact h
  | @left state ledgers hload hvalid hleaves hown =>
      intro e hentered hincl
      show isAfterCutover (t.migration.phaseOf e) = true
      change Function.update t.entered d (decide (s.toState ≠ ROLLED_BACK)) e = true at hentered
      by_cases he : e = d
      · subst he
        rw [Function.update_self, decide_eq_true_eq] at hentered
        unfold LeavesPhase at hleaves
        rwa [if_neg hentered] at hleaves
      · rw [Function.update_of_ne he] at hentered
        exact h e hentered hincl
  | @moved state fromState ledgers hload hvalid hmoves hown =>
      have hincluded := (applyPathStatusChange_spec hd fromState (endsIn s) actor (viaOf s)).1
      intro e hentered hincl
      have hincl' : t.migration.included e = true := by
        rw [← hincluded]
        exact hincl
      change Function.update t.entered d (decide (s.toState ≠ ROLLED_BACK)) e = true at hentered
      refine after_of_ownStep actor fromState hd hmoves (fun hs => ?_) hincl' ?_
      · by_cases he : e = d
        · subst he
          rw [Function.update_self, decide_eq_true_eq] at hentered
          exact absurd hs hentered
        · rw [Function.update_of_ne he] at hentered
          exact ⟨he, (hsafe hs hd ⟨state, hload, hvalid⟩ hmoves).2 e he hentered hincl'⟩
      · by_cases he : e = d
        · exact .inl he
        · rw [Function.update_of_ne he] at hentered
          exact .inr (h e hentered hincl')
  | @movedAlone state fromState hload hvalid hmoves hown =>
      have hincluded := (applyPathStatusChange_spec hd fromState (endsIn s) actor (viaOf s)).1
      intro e hentered hincl
      have hincl' : t.migration.included e = true := by
        rw [← hincluded]
        exact hincl
      refine after_of_ownStep actor fromState hd hmoves (fun hs => ?_) hincl' (.inr (h e hentered hincl'))
      obtain ⟨hledger, hothers⟩ := hsafe hs hd ⟨state, hload, hvalid⟩ hmoves
      have he : e ≠ d := by
        rintro rfl
        exact hledger hentered hown
      exact ⟨he, hothers e he hentered hincl'⟩

theorem held_endOrKeep (h : Held t) (hd : t.migration.included d = true) (ending : PathEnding)
    (unresolvedFailures : Nat) (force : Bool) :
    Held (Event.run actor t (.press d (.endOrKeep ending unresolvedFailures force))) := by
  have hrun := endingRun actor hd ending unresolvedFailures force
  simp only [Event.run, if_pos hd]
  generalize (Press.endOrKeep ending unresolvedFailures force).run d actor t.migration = r
    at hrun ⊢
  cases hrun with
  | @held outcome _ hnever =>
      cases outcome with
      | accepted pressed => exact absurd rfl (hnever pressed)
      | refused => exact h
      | unchanged => exact h
  | @moved m' row _ hincluded _ hagreed hstate hcarried =>
      have hended : isAfterCutover row.state = true := by
        rw [hstate]
        cases ending <;> rfl
      intro e hentered hincl
      have hincl' : t.migration.included e = true := by
        rw [← hincluded]
        exact hincl
      change Function.update t.entered d true e = true at hentered
      show isAfterCutover (m'.phaseOf e) = true
      by_cases he : e = d
      · subst he
        exact after_of_row hagreed (by rw [hcarried, Function.update_self]) hended
      · rw [Function.update_of_ne he] at hentered
        have hafter := h e hentered hincl'
        have hread : m'.carried e = t.migration.believedRow e := by
          rw [hcarried, Function.update_of_ne he]
        cases hrow : t.migration.carried e with
        | some other =>
            have hkept : m'.carried e = some (other.readAs (t.migration.phaseOf e)) := by
              rw [hread, believedRow, hrow]
              rfl
            exact after_of_row hagreed hkept (by rwa [PathRow.readAs_state])
        | none =>
            -- It reads the status, which was past the cutover and stays there.
            rw [phaseOf_of_no_row hrow] at hafter
            refine after_of_status ((rollUpPhases_eq_some_iff.mp hagreed).after_iff.mp ?_)
            intro p hp
            obtain ⟨f, other, hother, rfl⟩ := mem_phases.mp hp
            rw [hcarried] at hother
            by_cases hf : f = d
            · subst hf
              rw [Function.update_self] at hother
              cases hother
              exact hended
            · rw [Function.update_of_ne hf] at hother
              obtain ⟨_, _, rfl⟩ := Option.map_eq_some_iff.mp hother
              rw [PathRow.readAs_state]
              exact after_of_status hafter

theorem held_stopOrResume (h : Held t) (hd : t.migration.included d = true) (stop : Bool) :
    Held (Event.run actor t (.press d (.stopOrResume stop))) := by
  have hrun := stopOrResumePath_run actor hd stop
  simp only [Event.run, if_pos hd]
  generalize (Press.stopOrResume stop).run d actor t.migration = r at hrun ⊢
  obtain ⟨m', outcome⟩ := r
  rcases hrun with ⟨_, hsame, hnever⟩ | ⟨_, hout, hstatus, hincluded, _, hcarried⟩
  · obtain rfl : m' = t.migration := hsame
    cases outcome with
    | accepted pressed => exact absurd rfl (hnever pressed)
    | refused => exact h
    | unchanged => exact h
  · obtain rfl : outcome = .accepted (.stop stop) := hout
    intro e hentered hincl
    have hincl' : t.migration.included e = true := by
      rw [← show m'.included = t.migration.included from hincluded]
      exact hincl
    have hafter := h e hentered hincl'
    show isAfterCutover (m'.phaseOf e) = true
    cases hpast : isAfterCutover t.migration.status.state with
    | true => exact after_of_status (by rw [show m'.status = t.migration.status from hstatus]; exact hpast)
    | false =>
        refine after_of_rows hpast hafter (fun hagreed =>
          agreed_of_given hstatus hcarried (.inr hagreed)) fun row _ hrow hrowAfter => ?_
        by_cases he : e = d
        · subst he
          refine ⟨_, by rw [show m'.carried = _ from hcarried, Function.update_self], ?_⟩
          show isAfterCutover (stopsIn t.migration e) = true
          simpa [stopsIn, hrow] using hrowAfter
        · exact ⟨row, by rw [show m'.carried = _ from hcarried, Function.update_of_ne he, hrow], hrowAfter⟩

/-! ### The scope, and the rows -/

theorem held_recordScope (scope : List (DiscoveryDomain × Bool))
    (hsafe : (Event.recordScope scope).Safe t) :
    Held (Event.run actor t (.recordScope scope)) := by
  intro d hentered hincl
  show isAfterCutover ((recordScope t.migration scope).phaseOf d) = true
  rcases hsafe with hpast | hrows
  · exact after_of_status hpast
  · obtain ⟨⟨row, hrow, hafter⟩, hrolled⟩ := hrows d hentered hincl
    refine after_of_row hrolled ?_ hafter
    rw [carried_eq (m := recordScope t.migration scope) hincl]
    exact hrow

/-- A data type is given a row in the phase of its migration. -/
def Given (m : Migration) (d : DiscoveryDomain) : Prop :=
  m.included d = true ∧ m.paths d = none ∧ (m.status ≠ .paused ∨ m.ran = true)

theorem carried_of_given (h : Given m d) :
    (pathsFromTheMapping m).carried d =
      some { state := m.status.state, ended := m.status = .cutover || m.status = .done } := by
  rw [carried_eq (m := pathsFromTheMapping m) h.1]
  exact if_pos h

theorem carried_of_not_given (h : ¬ Given m d) : (pathsFromTheMapping m).carried d = m.carried d := by
  unfold carried
  show (if m.included d = true then (pathsFromTheMapping m).paths d else none) = _
  rw [show (pathsFromTheMapping m).paths d = m.paths d from if_neg h]

theorem agreed_pathsFromTheMapping (hagreed : m.Agreed) : (pathsFromTheMapping m).Agreed := by
  show rollUpPhases (pathsFromTheMapping m).phases = some m.status
  by_cases hgiven : ∃ e, Given m e
  · obtain ⟨e, he⟩ := hgiven
    rw [rollUpPhases_eq_some_iff]
    refine (rollUpPhases_eq_some_iff.mp hagreed).insert fun p => ?_
    rw [mem_phases, mem_phases]
    constructor
    · rintro ⟨f, row, hrow, rfl⟩
      by_cases hf : Given m f
      · rw [carried_of_given hf] at hrow
        cases hrow
        exact .inr rfl
      · rw [carried_of_not_given hf] at hrow
        exact .inl ⟨f, row, hrow, rfl⟩
    · rintro (⟨f, row, hrow, rfl⟩ | rfl)
      · refine ⟨f, row, ?_, rfl⟩
        rw [carried_of_not_given, hrow]
        intro hf
        rw [carried_eq hf.1, hf.2.1] at hrow
        cases hrow
      · exact ⟨e, _, carried_of_given he, rfl⟩
  · have hsame : (pathsFromTheMapping m).phases = m.phases :=
      statesOf_congr fun e => by rw [carried_of_not_given fun he => hgiven ⟨e, he⟩]
    rw [hsame]
    exact hagreed

theorem held_pathsFromTheMapping (h : Held t) :
    Held (Event.run actor t .pathsFromTheMapping) := by
  intro d hentered hincl
  have hafter := h d hentered hincl
  show isAfterCutover ((pathsFromTheMapping t.migration).phaseOf d) = true
  cases hpast : isAfterCutover t.migration.status.state with
  | true => exact after_of_status hpast
  | false =>
      refine after_of_rows hpast hafter agreed_pathsFromTheMapping fun row _ hrow hrowAfter => ?_
      refine ⟨row, ?_, hrowAfter⟩
      rw [carried_of_not_given, hrow]
      intro hd
      rw [carried_eq hd.1, hd.2.1] at hrow
      cases hrow

/-! ### Every run -/

/-- The steps of a run are safe, each where it is taken. -/
def SafeRun (actor : String) (t : Traced) : List Event → Prop
  | [] => True
  | e :: events => e.Safe t ∧ SafeRun actor (e.run actor t) events

theorem held_step (h : Held t) {e : Event} (hsafe : e.Safe t) : Held (e.run actor t) := by
  cases e with
  | start => exact held_start h
  | update toState => exact held_update h toState
  | finish unresolvedFailures force => exact held_finish h unresolvedFailures force
  | wholeStep s now => exact held_wholeStep h s now hsafe
  | press domain p =>
      by_cases hd : t.migration.included domain = true
      · cases p with
        | ownStep s now => exact held_ownStep h hd s now hsafe
        | endOrKeep ending unresolvedFailures force =>
            exact held_endOrKeep h hd ending unresolvedFailures force
        | stopOrResume stop => exact held_stopOrResume h hd stop
      · have hsame : (Event.press domain p).run actor t = t := if_neg hd
        rw [hsame]
        exact h
  | recordScope scope => exact held_recordScope scope hsafe
  | pathsFromTheMapping => exact held_pathsFromTheMapping h
  | store c now => exact h
  | ran => exact h

theorem held_run (h : Held t) {events : List Event} (hsafe : SafeRun actor t events) :
    Held (run actor t events) := by
  induction events generalizing t with
  | nil => exact h
  | cons e events ih => exact ih (held_step h hsafe.1) hsafe.2

/-- A migration of which no data type has entered its cutover. -/
def notEntered (m : Migration) : Traced := ⟨m, fun _ => false⟩

/-- **After a cutover stays after a cutover**, per data type, over every run
whose steps are safe: what has entered its cutover is read past it, while it is
carried, until a rollback of the ledger it is on. -/
theorem after_cutover_of_run (m : Migration) (actor : String) {events : List Event}
    (hsafe : SafeRun actor (notEntered m) events) (windowOf : DiscoveryDomain → Bool)
    (d : DiscoveryDomain) (hentered : (run actor (notEntered m) events).entered d = true)
    (hincluded : (run actor (notEntered m) events).migration.included d = true) :
    ((run actor (notEntered m) events).migration.readPathPhases windowOf d).phase ∈
      [PathState.cutover, .done, .continuous] := by
  have hstart : Held (notEntered m) := fun _ h => by cases h
  have hafter := held_run hstart hsafe d hentered hincluded
  rw [readPathPhases_phase]
  revert hafter
  cases (run actor (notEntered m) events).migration.phaseOf d <;> decide

/-- Mail is cut over on its own, and the files paused and started again. -/
def mailCutOver : List Event :=
  [.press .email (.ownStep .enterCutover 3), .update .paused, .start]

theorem after_cutover_of_mailCutOver :
    ((run "cli" (notEntered (mailAndFiles .active { state := .active })) mailCutOver).migration.phaseOf
      .email) ∈ [PathState.cutover, .done, .continuous] := by
  have hsafe : SafeRun "cli" (notEntered (mailAndFiles .active { state := .active })) mailCutOver :=
    ⟨fun h => (by cases h), trivial, trivial, trivial⟩
  exact after_cutover_of_run _ "cli" hsafe (fun _ => false) .email (by decide) (by decide)

/-- The files are then taken out of the scope: the one row left adds up to
`cutover`, the status stays `active`, and mail is read before its cutover. -/
theorem mail_read_active :
    let t := run "cli" (notEntered (mailAndFiles .active { state := .active }))
      (mailCutOver ++ [.recordScope [(.email, true), (.file, false)]])
    t.entered .email = true ∧ t.migration.included .email = true ∧
      t.migration.phaseOf .email = .active := by
  decide

end Ownpace.Lifecycle
