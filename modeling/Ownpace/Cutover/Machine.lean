/-
Ownpace/Cutover/Machine.lean

The states of a cutover, the moves between them, and whether a cutover may
begin: for the whole migration, or for one of its data types.
-/
import Mathlib.Data.List.Basic
import Ownpace.Ledger.Row

namespace Ownpace

open DiscoveryDomain

/-- `DISCOVERY_DOMAINS`, in the order a person ticks them. -/
def discoveryDomains : List DiscoveryDomain := [email, calendar, contact, file, task]

theorem mem_discoveryDomains (d : DiscoveryDomain) : d ∈ discoveryDomains := by
  cases d <;> decide

namespace Cutover

/-! ### The state machine -/

inductive CutoverState where
  | PREPARING
  | READY_FOR_CUTOVER
  | APPROVED
  | CUTOVER_IN_PROGRESS
  | GRACE_PERIOD
  | COMPLETED
  | ROLLED_BACK
  | FAILED
  deriving DecidableEq

open CutoverState

def CutoverState.name : CutoverState → String
  | PREPARING => "PREPARING"
  | READY_FOR_CUTOVER => "READY_FOR_CUTOVER"
  | APPROVED => "APPROVED"
  | CUTOVER_IN_PROGRESS => "CUTOVER_IN_PROGRESS"
  | GRACE_PERIOD => "GRACE_PERIOD"
  | COMPLETED => "COMPLETED"
  | ROLLED_BACK => "ROLLED_BACK"
  | FAILED => "FAILED"

inductive CutoverPhase where
  | PREPARATION
  | VERIFICATION
  | CUTOVER
  | GRACE
  | COMPLETION
  | ROLLBACK
  | ERROR
  deriving DecidableEq

/-- `VALID_TRANSITIONS`. -/
def validTransitions : CutoverState → List CutoverState
  | PREPARING => [READY_FOR_CUTOVER, FAILED]
  | READY_FOR_CUTOVER => [APPROVED, PREPARING, FAILED]
  | APPROVED => [CUTOVER_IN_PROGRESS, READY_FOR_CUTOVER, FAILED, ROLLED_BACK]
  | CUTOVER_IN_PROGRESS => [GRACE_PERIOD, FAILED, ROLLED_BACK]
  | GRACE_PERIOD => [COMPLETED, ROLLED_BACK, FAILED]
  | COMPLETED => []
  | ROLLED_BACK => [PREPARING]
  | FAILED => [PREPARING, ROLLED_BACK]

/-- `STATE_TO_PHASE`. -/
def getStatePhase : CutoverState → CutoverPhase
  | PREPARING => .PREPARATION
  | READY_FOR_CUTOVER => .VERIFICATION
  | APPROVED => .VERIFICATION
  | CUTOVER_IN_PROGRESS => .CUTOVER
  | GRACE_PERIOD => .GRACE
  | COMPLETED => .COMPLETION
  | ROLLED_BACK => .ROLLBACK
  | FAILED => .ERROR

def isValidTransition (fromState toState : CutoverState) : Bool :=
  (validTransitions fromState).contains toState

def canRollback (state : CutoverState) : Bool := isValidTransition state ROLLED_BACK

/-- `CUTOVER_UNDER_WAY`: begun and not yet over. -/
def cutoverUnderWay : List CutoverState :=
  [PREPARING, READY_FOR_CUTOVER, APPROVED, CUTOVER_IN_PROGRESS, GRACE_PERIOD]

/-! ### Whether a cutover may begin -/

/-- One cutover ledger of a migration: a data type's own, or the whole
migration's. -/
structure CutoverLedgerRow where
  domain : Option DiscoveryDomain
  state : CutoverState
  deriving DecidableEq

inductive BeginRefusalCode where
  | whole_under_way
  | cut_over_by_data_type
  deriving DecidableEq

structure CutoverBeginRefusal where
  refuse : String
  hint : String
  code : BeginRefusalCode
  deriving DecidableEq

/-- A data type's own cutover may not begin while the whole migration's is under
way, and the whole migration's not once a data type has its own. -/
def cutoverBeginRefusal (ledgers : List CutoverLedgerRow) :
    Option DiscoveryDomain → Option CutoverBeginRefusal
  | some domain =>
    if ledgers.any fun l => l.domain = some domain then none
    else
      match ledgers.find? fun l => l.domain = none with
      | none => none
      | some whole =>
        if !cutoverUnderWay.contains whole.state then none
        else some {
          refuse := "The whole migration's cutover is under way (" ++ whole.state.name ++
            "), and it includes " ++ domain.text ++ "."
          hint := "Carry on with it without --kind, or roll it back first; then " ++ domain.text ++
            " can be cut over on its own. Nothing was changed."
          code := .whole_under_way }
  | none =>
    let own := ledgers.filterMap (·.domain)
    if own.length = 0 then none
    else some {
      refuse := "This migration's data types are cut over one at a time: " ++
        ", ".intercalate (own.map (·.text)) ++ " " ++ (if own.length = 1 then "has" else "have") ++
        " a cutover of its own."
      hint := "Cut over each remaining data type with --kind. Nothing was changed."
      code := .cut_over_by_data_type }

/-- A data type writes its own ledger for the first time only to begin its own
cutover, and never while the whole migration's is under way. -/
def leavingTheWholeLedgerRefusal (inherited toState : CutoverState) : Option String :=
  if cutoverUnderWay.contains inherited then
    some ("The whole migration's cutover is under way (" ++ inherited.name ++
      "); a data type cannot move on it alone.")
  else if toState ≠ PREPARING then
    some ("A data type leaves the whole migration's cutover (" ++ inherited.name ++
      ") only by beginning its own; start it first.")
  else none

theorem leavingTheWholeLedger_iff (inherited toState : CutoverState) :
    leavingTheWholeLedgerRefusal inherited toState = none ↔
      inherited ∉ cutoverUnderWay ∧ toState = PREPARING := by
  unfold leavingTheWholeLedgerRefusal
  by_cases hway : inherited ∈ cutoverUnderWay <;> by_cases hto : toState = PREPARING <;> simp [hway, hto]

theorem begin_whole_iff (ledgers : List CutoverLedgerRow) :
    cutoverBeginRefusal ledgers none = none ↔ ∀ l ∈ ledgers, l.domain = none := by
  unfold cutoverBeginRefusal
  simp only [List.length_eq_zero_iff, ite_eq_left_iff, reduceCtorEq, imp_false, not_not]
  exact List.filterMap_eq_nil_iff

/-- A state with a way to COMPLETED or to a rollback is not one to begin from. -/
theorem not_underWay_of_preparing {state : CutoverState} (hway : state ∉ cutoverUnderWay)
    (hto : isValidTransition state PREPARING = true) : state = FAILED ∨ state = ROLLED_BACK := by
  revert hway hto
  cases state <;> decide

end Cutover

end Ownpace
