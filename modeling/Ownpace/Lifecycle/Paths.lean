/-
Ownpace/Lifecycle/Paths.lean

A migration and the paths of its data types: the rows, what every gate reads of
them, and how they follow a change of the migration's status.

A data type's phase is its own row's where the rows of the carried data types
add up to the migration's status, and the status where they do not, or where it
has no row.  What its owner stopped is stopped whichever is believed.

The dates beside a row (`first_activated_at`, `ended_at`) decide nothing here;
whether `ended_at` is set is kept, since it says when a slot was released.
-/
import Mathlib.Logic.Function.Basic
import Ownpace.Cutover.Steps

namespace Ownpace.Lifecycle

open Cutover (CutoverLedgers)

/-- A row of `path_lifecycle`. -/
structure PathRow where
  state : PathState
  stopped : Bool := false
  /-- `ended_at` is set. -/
  ended : Bool := false
  deriving DecidableEq

/-- Whether a path holds a slot. -/
def holdsASlot (state : PathState) (stopped : Bool) : Bool :=
  if state = .continuous then !stopped else state = .active || state = .paused

inductive MappingStatusVia where
  | start
  | update
  | finish
  | rollback
  | cutover
  | grant
  deriving DecidableEq

/-- A record of `audit_log`, under its action. -/
inductive AuditEvent where
  | mappingStatus (fromState toState : MappingLifecycle) (actor : String) (via : MappingStatusVia)
      (forced : Bool)
  | pathPhase (domain : DiscoveryDomain) (fromState toState : PathState) (actor : String)
      (via : MappingStatusVia) (forced : Bool)
  | pathStatus (domain : DiscoveryDomain) (phase : PathState) (stopped : Bool) (actor : String)
  deriving DecidableEq

/-- One migration: its row, its scope, its paths, its cutover ledgers and its
trail. -/
structure Migration where
  status : MappingLifecycle
  /-- `scope_selection.included`: the data types it carries. -/
  included : DiscoveryDomain → Bool
  paths : DiscoveryDomain → Option PathRow
  ledgers : CutoverLedgers
  /-- A pass of it has run. -/
  ran : Bool := false
  audit : List AuditEvent := []

/-! ### What a gate reads -/

structure PathPhase where
  phase : PathState
  stillCopies : Bool
  stopped : Bool
  deriving DecidableEq

/-- The phases of rows. -/
def statesOf (paths : DiscoveryDomain → Option PathRow) : List PathState :=
  discoveryDomains.filterMap fun d => (paths d).map (·.state)

/-- Each data type's phase from its own row, where the rows add up to the
status. -/
def phasesOfThePaths (status : MappingLifecycle) (stillCopiesOf : DiscoveryDomain → Bool)
    (paths : DiscoveryDomain → Option PathRow) (domain : DiscoveryDomain) : PathPhase :=
  let agreed := rollUpPhases (statesOf paths) = some status
  let believed :=
    match paths domain with
    | none => status.state
    | some own => if agreed then own.state else status.state
  { phase := believed
    stillCopies := believed = .cutover && stillCopiesOf domain
    stopped := ((paths domain).map (·.stopped)).getD false }

/-- A row moved to a state, or written in it: it keeps its stop, and releases
its slot where the state does, or a stop in it. -/
def movedRow (old : Option PathRow) (state : PathState) : PathRow where
  state := state
  stopped := (old.map (·.stopped)).getD false
  ended :=
    match old with
    | none => !holdsASlot state false
    | some row => if row.stopped then !holdsASlot state true else !holdsASlot state false

@[simp] theorem movedRow_state (old : Option PathRow) (state : PathState) :
    (movedRow old state).state = state := rfl

/-- Only the last of two moves shows. -/
@[simp] theorem movedRow_movedRow (old : Option PathRow) (p q : PathState) :
    movedRow (some (movedRow old p)) q = movedRow old q := by
  cases old with
  | none => rfl
  | some row => rfl

/-- A row brought to a phase. -/
def PathRow.readAs (row : PathRow) (phase : PathState) : PathRow :=
  if row.state = phase then row else movedRow (some row) phase

@[simp] theorem PathRow.readAs_state (row : PathRow) (phase : PathState) :
    (row.readAs phase).state = phase := by
  unfold readAs
  split
  · assumption
  · rfl

@[simp] theorem PathRow.readAs_stopped (row : PathRow) (phase : PathState) :
    (row.readAs phase).stopped = row.stopped := by
  unfold readAs
  split <;> rfl

@[simp] theorem PathRow.readAs_self (row : PathRow) : row.readAs row.state = row := if_pos rfl

namespace Migration

/-- The rows of the carried data types: a switched-off one is not a path. -/
def carried (m : Migration) (d : DiscoveryDomain) : Option PathRow :=
  if m.included d then m.paths d else none

/-- Their phases. -/
def phases (m : Migration) : List PathState := statesOf m.carried

/-- `windowOf` is each data type's cutover window, asked only of a cutover. -/
def readPathPhases (m : Migration) (windowOf : DiscoveryDomain → Bool) (domain : DiscoveryDomain) :
    PathPhase :=
  let inCutover := m.status = .cutover ∨ .cutover ∈ m.phases
  phasesOfThePaths m.status (if inCutover then windowOf else fun _ => false) m.carried domain

/-- The data types a migration carries, in the order a person ticks them. -/
def includedDomains (m : Migration) : List DiscoveryDomain := discoveryDomains.filter m.included

/-! ### The store of the paths -/

/-- Move a path to another state: it keeps its stop. -/
def moveTo (m : Migration) (d : DiscoveryDomain) (state : PathState) : Migration :=
  { m with paths := Function.update m.paths d (some (movedRow (m.paths d) state)) }

/-- Move a path to `active`, which clears `ended_at`: beside the date it first
ran, a move like another. -/
def activate (m : Migration) (d : DiscoveryDomain) : Migration := m.moveTo d .active

/-! ### The paths follow the migration -/

end Migration

/-- Whether one path moves with its migration's status change, given its own
phase and whether the rows are believed. -/
def pathFollows (fromState : Option MappingLifecycle) (toState : MappingLifecycle)
    (phase : Option PathState) (believed : Bool) : Bool :=
  if toState = .active then
    phase = none || phase = some .ready || !believed || phase = fromState.map (·.state)
  else
    match phase with
    | none => false
    | some p =>
      if !believed then true
      else if toState = .done then p ≠ .done
      else phase = fromState.map (·.state)

namespace Migration

/-- The included paths that follow a status change, in the same transaction as
the status. -/
def movePathsWithMapping (m : Migration) (fromState : Option MappingLifecycle)
    (toState : MappingLifecycle) : Migration :=
  let phaseOf := fun d => (m.paths d).map (·.state)
  let believed := fromState.isSome && rollUpPhases (m.includedDomains.filterMap phaseOf) = fromState
  m.includedDomains.foldl (fun moved domain =>
    if !pathFollows fromState toState (phaseOf domain) believed then moved
    else if toState = .active then moved.activate domain
    else moved.moveTo domain toState.state) m

def recordMappingStatusChange (m : Migration) (fromState toState : MappingLifecycle)
    (actor : String) (via : MappingStatusVia) (forced : Bool := false) : Migration :=
  if fromState = toState then m
  else { m with audit := m.audit ++ [.mappingStatus fromState toState actor via forced] }

/-- The row, its paths and its record, in one transaction: what Start, an
update, Finish, and a step of the whole migration's cutover write. -/
def applyMappingStatusChange (m : Migration) (fromState toState : MappingLifecycle)
    (actor : String) (via : MappingStatusVia) (forced : Bool := false) : Migration :=
  let m := { m with status := toState }
  let m := if fromState ≠ toState then m.movePathsWithMapping (some fromState) toState else m
  m.recordMappingStatusChange fromState toState actor via forced

/-- Write the status as the paths' roll-up, and record it when it moved. -/
def writeTheRollUp (m : Migration) (actor : String) (via : MappingStatusVia)
    (forced : Bool := false) : Migration :=
  match rollUpPhases m.phases with
  | none => m
  | some rolled =>
    if rolled = m.status then m
    else { m with status := rolled }.recordMappingStatusChange m.status rolled actor via forced

/-- A data type's phase as the reader believes it, for the steps of its own
cutover. -/
def readStatus (m : Migration) (d : DiscoveryDomain) : PathState :=
  match m.carried d with
  | some own => if rollUpPhases m.phases = some m.status then own.state else m.status.state
  | none => m.status.state

/-! ### What the readers read -/

variable {m : Migration} {d e : DiscoveryDomain}

theorem mem_statesOf {paths : DiscoveryDomain → Option PathRow} {p : PathState} :
    p ∈ statesOf paths ↔ ∃ d row, paths d = some row ∧ row.state = p := by
  unfold statesOf
  rw [List.mem_filterMap]
  constructor
  · rintro ⟨d, _, hd⟩
    obtain ⟨row, hrow, hp⟩ := Option.map_eq_some_iff.mp hd
    exact ⟨d, row, hrow, hp⟩
  · rintro ⟨d, row, hrow, rfl⟩
    exact ⟨d, mem_discoveryDomains d, by rw [hrow]; rfl⟩

/-- The rows add up to the status. -/
def Agreed (m : Migration) : Prop := rollUpPhases m.phases = some m.status

instance (m : Migration) : Decidable m.Agreed :=
  inferInstanceAs (Decidable (rollUpPhases m.phases = some m.status))

/-- The phase a gate reads, whatever the windows. -/
def phaseOf (m : Migration) (d : DiscoveryDomain) : PathState :=
  (m.readPathPhases (fun _ => false) d).phase

/-- Whether a gate reads it stopped. -/
def stoppedOf (m : Migration) (d : DiscoveryDomain) : Bool :=
  (m.readPathPhases (fun _ => false) d).stopped

theorem readPathPhases_phase (windowOf : DiscoveryDomain → Bool) :
    (m.readPathPhases windowOf d).phase = m.phaseOf d := rfl

theorem phaseOf_of_row {row : PathRow} (h : m.carried d = some row) :
    m.phaseOf d = if m.Agreed then row.state else m.status.state := by
  simp only [phaseOf, readPathPhases, phasesOfThePaths, h]
  rfl

theorem phaseOf_of_no_row (h : m.carried d = none) : m.phaseOf d = m.status.state := by
  simp only [phaseOf, readPathPhases, phasesOfThePaths, h]

theorem stoppedOf_eq : m.stoppedOf d = ((m.carried d).map (·.stopped)).getD false := rfl

theorem readStatus_eq : m.readStatus d = m.phaseOf d := by
  cases h : m.carried d with
  | none => rw [phaseOf_of_no_row h, readStatus, h]
  | some row =>
      rw [phaseOf_of_row h, readStatus, h]
      rfl

/-- The carried data types of a list that move, moved one by one. -/
theorem foldl_moveTo {ds : List DiscoveryDomain} (hnodup : ds.Nodup) (f : DiscoveryDomain → Bool)
    (state : PathState) (m : Migration) :
    ds.foldl (fun moved d => if !f d then moved else moved.moveTo d state) m =
      { m with
        paths := fun d =>
          if d ∈ ds ∧ f d = true then some (movedRow (m.paths d) state) else m.paths d } := by
  induction ds generalizing m with
  | nil => simp
  | cons d ds ih =>
      obtain ⟨hd, hnodup⟩ := List.nodup_cons.mp hnodup
      rw [List.foldl_cons, ih hnodup]
      cases hf : f d with
      | false =>
          simp only [Bool.not_false, if_true]
          congr 1
          funext e
          by_cases he : e = d
          · subst he
            simp [hd, hf]
          · simp [he]
      | true =>
          simp only [Bool.not_true, Bool.false_eq_true, if_false]
          congr 1
          funext e
          by_cases he : e = d
          · subst he
            simp [hd, hf, moveTo]
          · simp [he, moveTo]

theorem nodup_includedDomains : m.includedDomains.Nodup :=
  List.Nodup.filter _ (by decide)

theorem mem_includedDomains : d ∈ m.includedDomains ↔ m.included d = true := by
  simp [includedDomains, mem_discoveryDomains]

theorem filterMap_includedDomains :
    m.includedDomains.filterMap (fun d => (m.paths d).map (·.state)) = m.phases := by
  unfold includedDomains phases statesOf
  rw [List.filterMap_filter]
  congr 1
  funext d
  unfold carried
  cases m.included d <;> simp

/-- What follows a status change is moved, and nothing else. -/
theorem movePathsWithMapping_eq {fromState : Option MappingLifecycle}
    {toState : MappingLifecycle} :
    m.movePathsWithMapping fromState toState =
      { m with
        paths := fun d =>
          if m.included d = true ∧ pathFollows fromState toState ((m.paths d).map (·.state))
              (fromState.isSome && rollUpPhases m.phases = fromState) = true then
            some (movedRow (m.paths d) toState.state)
          else m.paths d } := by
  have hmove (moved : Migration) (d : DiscoveryDomain) :
      (if toState = .active then moved.activate d else moved.moveTo d toState.state) =
        moved.moveTo d toState.state := by
    split
    · next h => rw [h]; rfl
    · rfl
  unfold movePathsWithMapping
  simp only [filterMap_includedDomains, hmove, foldl_moveTo nodup_includedDomains,
    mem_includedDomains]

/-- Past its cutover, a migration's data types are all read past theirs. -/
theorem after_of_status (h : isAfterCutover m.status.state = true) :
    isAfterCutover (m.phaseOf d) = true := by
  cases hrow : m.carried d with
  | none => rwa [phaseOf_of_no_row hrow]
  | some row =>
      rw [phaseOf_of_row hrow]
      split
      · next hagreed =>
          exact (rollUpPhases_eq_some_iff.mp hagreed).after_iff.mpr h _
            (mem_statesOf.mpr ⟨d, row, hrow, rfl⟩)
      · exact h

end Migration

end Ownpace.Lifecycle
