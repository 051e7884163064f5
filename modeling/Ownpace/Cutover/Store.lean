/-
Ownpace/Cutover/Store.lean

The store of the cutover ledgers of one migration: a row for the whole
migration, and one for each data type with a cutover of its own.

A row is keyed by its data type, `none` for the whole migration's.  A data type
without a row reads the whole migration's, and writes its own.  Every save
writes all columns of a row from a status, and every transition starts from a
status that was read back off a row: what the round trip keeps is what lasts.

The clock is the argument `now`.
-/
import Mathlib.Logic.Function.Basic
import Ownpace.Cutover.Machine

namespace Ownpace.Cutover

open CutoverState

inductive VerificationStatus where
  | PENDING
  | PASS
  | WARN
  | FAIL
  deriving DecidableEq

/-- The `metadata` column. -/
structure Metadata where
  gracePeriodDurationHours : Option Nat := none
  autoCompleteAfterGrace : Bool := true
  errorMessage : Option String := none
  errorDetails : Option String := none
  deriving DecidableEq

structure CutoverStatus where
  domain : Option DiscoveryDomain
  state : CutoverState
  phase : CutoverPhase
  startedAt : Nat
  updatedAt : Nat
  completedAt : Option Nat := none
  verificationStatus : VerificationStatus
  verificationReport : Option String := none
  gracePeriodStartedAt : Option Nat := none
  gracePeriodEndsAt : Option Nat := none
  copiesThroughGrace : Option Bool := none
  gracePeriodHours : Option Nat := none
  errorMessage : Option String := none
  errorDetails : Option String := none
  rollbackAvailable : Bool
  rollbackReason : Option String := none
  currentState : Option CutoverState := none
  targetMailServer : Option String := none
  startedBy : Option String := none
  rolledBackAt : Option Nat := none
  failedAt : Option Nat := none
  failureReason : Option String := none
  gracePeriodCompletedAt : Option Nat := none
  metadata : Option Metadata := none
  deriving DecidableEq

/-- A string that is there and not empty. -/
def truthy (s : Option String) : Option String := s.filter (· ≠ "")

def updateCutoverStatus (now : Nat) (status : CutoverStatus) (newState : CutoverState)
    (reason : Option String) : Except String CutoverStatus :=
  if !isValidTransition status.state newState then
    .error s!"Invalid state transition from {status.state.name} to {newState.name}"
  else
    let updated := { status with
      state := newState
      currentState := some newState
      phase := getStatePhase newState
      updatedAt := now
      rollbackAvailable := canRollback newState
      completedAt := if newState = COMPLETED then some now else status.completedAt
      errorMessage := if (truthy reason).isSome then none else status.errorMessage
      errorDetails := if (truthy reason).isSome then none else status.errorDetails }
    if newState = FAILED then .ok { updated with failedAt := some now, failureReason := reason }
    else if newState = ROLLED_BACK then
      .ok { updated with rolledBackAt := some now, rollbackReason := reason }
    else .ok updated

/-! ### Rows -/

inductive DbPhase where
  | verification
  | cutover
  | grace
  | completion
  | rollback
  deriving DecidableEq

/-- One row of `cutover_state`, beside its key. -/
structure CutoverRow where
  state : CutoverState
  phase : DbPhase
  verificationStatus : VerificationStatus
  verificationReport : String
  gracePeriodHours : Nat
  gracePeriodStartedAt : Option Nat
  gracePeriodCompletedAt : Option Nat
  copiesThroughGrace : Bool
  targetMailServer : Option String
  metadata : Metadata
  createdAt : Nat
  updatedAt : Nat
  deriving DecidableEq

def mapPhaseToDb : CutoverPhase → DbPhase
  | .PREPARATION => .verification
  | .VERIFICATION => .verification
  | .CUTOVER => .cutover
  | .GRACE => .grace
  | .COMPLETION => .completion
  | .ROLLBACK => .rollback
  | .ERROR => .rollback

def dbPhaseToPhase : DbPhase → CutoverPhase
  | .verification => .PREPARATION
  | .cutover => .CUTOVER
  | .grace => .GRACE
  | .completion => .COMPLETION
  | .rollback => .ROLLBACK

/-- `hours || 72`. -/
def hoursOr72 : Option Nat → Nat
  | some (hours + 1) => hours + 1
  | _ => 72

def extractGracePeriodHours (status : CutoverStatus) : Nat :=
  match status.metadata with
  | some held => hoursOr72 held.gracePeriodDurationHours
  | none => 72

def buildMetadata (status : CutoverStatus) : Metadata where
  gracePeriodDurationHours := some 72
  autoCompleteAfterGrace := true
  errorMessage := truthy status.errorMessage
  errorDetails := truthy status.errorDetails

/-- The row a save writes: on the row that is there, if one is. -/
def rowOf (now : Nat) (status : CutoverStatus) (existing : Option CutoverRow) : CutoverRow where
  state := status.state
  phase := mapPhaseToDb status.phase
  verificationStatus := status.verificationStatus
  verificationReport := (truthy status.verificationReport).getD "\x7b\x7d"
  gracePeriodHours := extractGracePeriodHours status
  gracePeriodStartedAt := status.gracePeriodStartedAt
  gracePeriodCompletedAt := status.gracePeriodCompletedAt
  copiesThroughGrace := status.copiesThroughGrace = some true
  targetMailServer := status.targetMailServer
  metadata := buildMetadata status
  createdAt := (existing.map (·.createdAt)).getD now
  updatedAt := now

def mapRowToStatus (domain : Option DiscoveryDomain) (row : CutoverRow) : CutoverStatus where
  domain := domain
  state := row.state
  phase := dbPhaseToPhase row.phase
  startedAt := row.createdAt
  updatedAt := row.updatedAt
  completedAt := row.gracePeriodCompletedAt
  verificationStatus := row.verificationStatus
  verificationReport := some row.verificationReport
  gracePeriodStartedAt := row.gracePeriodStartedAt
  gracePeriodEndsAt := row.gracePeriodStartedAt.map (· + row.gracePeriodHours * 3600000)
  copiesThroughGrace := some row.copiesThroughGrace
  gracePeriodHours := some row.gracePeriodHours
  rollbackAvailable := canRollback row.state
  currentState := some row.state
  targetMailServer := row.targetMailServer
  metadata := some row.metadata

/-! ### The store -/

inductive EventType where
  | CUTOVER_INITIALIZED
  | STATE_TRANSITION
  deriving DecidableEq

/-- What the metadata of a transition can name: the fields of the status that a
save writes, and the reasons. -/
structure TransitionMetadata where
  state : Option CutoverState := none
  phase : Option CutoverPhase := none
  verificationStatus : Option VerificationStatus := none
  verificationReport : Option String := none
  gracePeriodStartedAt : Option Nat := none
  gracePeriodCompletedAt : Option Nat := none
  copiesThroughGrace : Option Bool := none
  gracePeriodHours : Option Nat := none
  errorMessage : Option String := none
  errorDetails : Option String := none
  targetMailServer : Option String := none
  metadata : Option Metadata := none
  reason : Option String := none
  failureReason : Option String := none
  rollbackReason : Option String := none
  deriving DecidableEq

inductive MetadataOrReason where
  | nothing
  | reason (said : String)
  | metadata (metadata : TransitionMetadata)
  deriving DecidableEq

def MetadataOrReason.given : MetadataOrReason → Option TransitionMetadata
  | metadata m => some m
  | _ => none

/-- The reason, from the fields a transition can give it in. -/
def MetadataOrReason.extractReason : MetadataOrReason → Option String
  | nothing => none
  | reason said => some said
  | metadata m => (truthy m.reason).or ((truthy m.failureReason).or m.rollbackReason)

/-- `Object.assign(updated, metadata)`. -/
def assign (status : CutoverStatus) (m : TransitionMetadata) : CutoverStatus :=
  { status with
    state := m.state.getD status.state
    phase := m.phase.getD status.phase
    verificationStatus := m.verificationStatus.getD status.verificationStatus
    verificationReport := m.verificationReport.or status.verificationReport
    gracePeriodStartedAt := m.gracePeriodStartedAt.or status.gracePeriodStartedAt
    gracePeriodCompletedAt := m.gracePeriodCompletedAt.or status.gracePeriodCompletedAt
    copiesThroughGrace := m.copiesThroughGrace.or status.copiesThroughGrace
    gracePeriodHours := m.gracePeriodHours.or status.gracePeriodHours
    errorMessage := m.errorMessage.or status.errorMessage
    errorDetails := m.errorDetails.or status.errorDetails
    targetMailServer := m.targetMailServer.or status.targetMailServer
    metadata := m.metadata.or status.metadata
    failureReason := m.failureReason.or status.failureReason
    rollbackReason := m.rollbackReason.or status.rollbackReason }

structure CutoverEvent where
  domain : Option DiscoveryDomain
  timestamp : Nat
  fromState : Option CutoverState
  toState : CutoverState
  triggeredBy : String
  reason : Option String := none
  eventType : EventType
  metadata : Option TransitionMetadata := none
  deriving DecidableEq

/-- The ledgers of one migration, and their trail. -/
structure CutoverLedgers where
  rows : Option DiscoveryDomain → Option CutoverRow
  events : List CutoverEvent

namespace CutoverLedgers

def empty : CutoverLedgers := ⟨fun _ => none, []⟩

/-- A data type's own ledger, or the whole migration's where it has none. -/
def loadCutoverState (s : CutoverLedgers) (domain : Option DiscoveryDomain) :
    Option CutoverStatus :=
  match s.rows domain with
  | some row => some (mapRowToStatus domain row)
  | none => (s.rows none).map (mapRowToStatus none)

def loadLedgers (s : CutoverLedgers) : List CutoverLedgerRow :=
  (none :: discoveryDomains.map some).filterMap fun domain =>
    (s.rows domain).map fun row => ⟨domain, row.state⟩

def saveCutoverState (s : CutoverLedgers) (now : Nat) (status : CutoverStatus) : CutoverLedgers :=
  { s with
    rows := Function.update s.rows status.domain
      (some (rowOf now status (s.rows status.domain))) }

def logCutoverEvent (s : CutoverLedgers) (event : CutoverEvent) : CutoverLedgers :=
  { s with events := s.events ++ [{ event with reason := truthy event.reason }] }

def initializeCutover (s : CutoverLedgers) (now : Nat) (targetMailServer startedBy : Option String)
    (domain : Option DiscoveryDomain) : Except String (CutoverLedgers × CutoverStatus) :=
  match s.loadCutoverState domain with
  | some existing => .ok (s, existing)
  | none =>
    match cutoverBeginRefusal s.loadLedgers domain with
    | some refused => .error (refused.refuse ++ " " ++ refused.hint)
    | none =>
      let status : CutoverStatus := {
        domain
        state := PREPARING
        phase := .PREPARATION
        startedAt := now
        updatedAt := now
        verificationStatus := .PENDING
        rollbackAvailable := canRollback PREPARING
        currentState := some PREPARING
        targetMailServer
        startedBy }
      let initEvent : CutoverEvent := {
        domain
        timestamp := now
        fromState := none
        toState := PREPARING
        triggeredBy := (truthy startedBy).getD "system"
        eventType := .CUTOVER_INITIALIZED }
      .ok ((s.saveCutoverState now status).logCutoverEvent initEvent, status)

/-- Whose ledger may move: the floor under the doors. -/
def whoseLedgerMayMove (s : CutoverLedgers) (current : CutoverStatus) (toState : CutoverState)
    (domain : Option DiscoveryDomain) : Option String :=
  match domain, current.domain with
  | some _, none => leavingTheWholeLedgerRefusal current.state toState
  | some _, some _ => none
  | none, _ =>
    if toState = PREPARING then
      (cutoverBeginRefusal s.loadLedgers none).map fun refused => refused.refuse ++ " " ++ refused.hint
    else none

def transitionState (s : CutoverLedgers) (now : Nat) (toState : CutoverState)
    (metadataOrReason : MetadataOrReason) (domain : Option DiscoveryDomain) :
    Except String (CutoverLedgers × CutoverStatus) :=
  match s.loadCutoverState domain with
  | none => .error "No cutover state found for the mapping"
  | some current =>
    match s.whoseLedgerMayMove current toState domain with
    | some refused => .error refused
    | none =>
      if !isValidTransition current.state toState then
        let reason := match metadataOrReason with
          | .reason said => said
          | _ => "No reason provided"
        .error s!"Invalid transition from {current.state.name} to {toState.name}. Reason: {reason}"
      else do
        let reason := metadataOrReason.extractReason
        let event : CutoverEvent := {
          domain
          timestamp := now
          fromState := some current.state
          toState
          triggeredBy := match metadataOrReason with
            | .reason _ => "system"
            | _ => "cli"
          reason
          metadata := metadataOrReason.given
          eventType := .STATE_TRANSITION }
        let updated ← updateCutoverStatus now current toState reason
        let updated := match metadataOrReason.given with
          | some m => assign updated m
          | none => updated
        -- Whose ledger it is, is the store's to say, never the metadata's.
        let updated := { updated with domain }
        return ((s.logCutoverEvent event).saveCutoverState now updated, updated)

end CutoverLedgers

end Ownpace.Cutover
