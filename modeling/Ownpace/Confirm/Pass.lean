/-
Ownpace/Confirm/Pass.lean

The confirmation pass (`confirmation-run.ts`, `confirmation-pass.ts`).

The pass is a program of calls: to the ledger's stream of rows, the target's
reader, the download budget, the organisation's state and the run log.  A data
type's rows are those its stream yields until it ends or throws.  What the source
keeps in variables is handed on (`Counts`), and thrown with an error.
-/
import Ownpace.Await.Run
import Ownpace.Confirm.Row

namespace Ownpace.Confirm

open Await

/-! ### Calls -/

/-- `ConfirmableRowRef` -/
structure ConfirmableRow where
  itemId : String
  naturalKeyHash : String
  status : Option ItemStatus
  contentHash : Option Text
  deriving DecidableEq

structure ByteBudgetState where
  ceilingBytes : Nat
  spentBytes : Nat
  remainingBytes : Int
  windowResetsAt : Option Nat
  deriving DecidableEq

structure BudgetPause where
  provider : String
  ceilingBytes : Nat
  spentBytes : Nat
  windowResetsAt : Option Nat
  deriving DecidableEq

inductive RunOutcome : Type
  | succeeded | failed | cancelled
  deriving DecidableEq

/-- What a run row is closed with. -/
structure FinishStats where
  itemsProcessed : Nat
  errors : Nat
  recorded : Nat
  message : Option String := none
  verified : Option Nat := none
  byState : Option (List Nat) := none
  stoppedBefore : Option DiscoveryDomain := none
  budgetPause : Option BudgetPause := none
  deriving DecidableEq

inductive ConfirmOp : Type
  | startRun (trigger : String)
  | readerFor (domain : DiscoveryDomain)
  | budgetState
  | organisationIsOpen
  /-- The stream is asked for its next row, which is this one, or its end. -/
  | pull (domain : DiscoveryDomain) (row : Option ConfirmableRow)
  /-- The stream is closed before its end. -/
  | close (domain : DiscoveryDomain)
  | isPresent (item : ConfirmableRow)
  | hashOnTarget (item : ConfirmableRow)
  | noteProgress (itemsProcessed : Nat)
  | record (itemId : String) (answer : TargetAnswer)
  | finishRun (outcome : RunOutcome) (stats : FinishStats)
  deriving DecidableEq

/-- A reader is told by whether it has a `hashOnTarget`. -/
abbrev ConfirmOp.Reply : ConfirmOp → Type
  | startRun _ => String
  | readerFor _ => Option Bool
  | budgetState => ByteBudgetState
  | organisationIsOpen => Bool
  | pull .. => Unit
  | close _ => Unit
  | isPresent _ => Bool
  | hashOnTarget _ => Option Text
  | noteProgress _ => Unit
  | record .. => Unit
  | finishRun .. => Unit

abbrev ConfirmOp.Ans (o : ConfirmOp) : Type := Except String o.Reply

abbrev ConfirmEvent := Event Unit ConfirmOp ConfirmOp.Ans

/-! ### What the pass keeps -/

/-- `rows`, `recorded`, `budgetPause` and `stoppedBefore`. -/
structure Counts where
  rows : List ConfirmedRow := []
  recorded : Nat := 0
  budgetPause : Option BudgetPause := none
  stoppedBefore : Option DiscoveryDomain := none

/-- An error, and what the pass has when it is thrown. -/
abbrev Thrown := String × Counts

abbrev Passing (α : Type) := Prog Unit ConfirmOp ConfirmOp.Ans Thrown α

def ask (v : Counts) (o : ConfirmOp) : Passing o.Reply := Prog.awaitWith (fun message => (message, v)) o

/-- A call whose rejection is caught. -/
def tryAsk (o : ConfirmOp) : Passing (Except String o.Reply) :=
  (Prog.awaitWith id o : Prog Unit ConfirmOp ConfirmOp.Ans String o.Reply).attempt

/-- The run's settings: the meter's provider, whether there is anybody to ask if the
organisation is open, and each data type with the rows of its stream. -/
structure ConfirmationArgs where
  meter : Option String
  asksOrganisation : Bool
  domains : List (DiscoveryDomain × List ConfirmableRow)
  trigger : String := "manual"

def PROGRESS_EVERY : Nat := 100

/-! ### One item -/

/-- What the answer to `hashOnTarget` says beside the ledger's hash. -/
def comparisonOf (onTarget : Except String (Option Text)) (contentHash : Text) : Comparison :=
  match onTarget with
  | .error _ => .unavailable
  | .ok none => .unavailable
  | .ok (some hash) =>
    if sameFingerprintVersion hash contentHash then
      if hash = contentHash then .same else .differ
    else .unavailable

def answerFor (hashes : Bool) (item : ConfirmableRow) : Passing TargetAnswer := do
  let present ← tryAsk (.isPresent item)
  match present with
  | .error _ => return .unreachable
  | .ok false => return .notOnTarget
  | .ok true =>
    match item.contentHash with
    | none => return .onTarget .unavailable
    | some contentHash =>
      if hashes then
        let onTarget ← tryAsk (.hashOnTarget item)
        return .onTarget (comparisonOf onTarget contentHash)
      else return .onTarget .unavailable

section Run

variable (args : ConfirmationArgs)

/-- `outOfBytes`, with what `pauseNow` sets. -/
def outOfBytes (spends : Bool) (v : Counts) : Passing (Bool × Counts) :=
  match args.meter with
  | none => return (false, v)
  | some provider =>
    if spends then do
      let state ← ask v .budgetState
      if 0 < state.remainingBytes then return (false, v)
      else
        let pause := ⟨provider, state.ceilingBytes, state.spentBytes, state.windowResetsAt⟩
        return (true, { v with budgetPause := v.budgetPause <|> some pause })
    else return (false, v)

/-- The body of a `for await`: a throw in it closes the stream, whatever that answers. -/
def closing (domain : DiscoveryDomain) {α : Type} (p : Passing α) : Passing α := do
  match ← p.attempt with
  | .ok a => return a
  | .error thrown =>
    let _ ← tryAsk (.close domain)
    Prog.throw thrown

/-- Is a row of this status handed on? -/
def stillOpen (status : Option ItemStatus) (v : Counts) : Passing Bool :=
  if args.asksOrganisation && needsTargetRead status then ask v .organisationIsOpen
  else return true

/-- The progress note, every hundred items. -/
def noteProgress (v : Counts) : Passing Unit :=
  if v.rows.length % PROGRESS_EVERY = 0 then do
    let _ ← tryAsk (.noteProgress v.rows.length)
    return ()
  else return ()

/-- Only what the target was asked about is recorded. -/
def recordFinding (item : ConfirmableRow) (answer : TargetAnswer) (v : Counts) : Passing Counts :=
  if needsTargetRead item.status then do
    ask v (.record item.itemId answer)
    return { v with recorded := v.recorded + 1 }
  else return v

/-- `confirmFinding`, but for the row. -/
def findingOf (hashes : Bool) (item : ConfirmableRow) : Passing TargetAnswer :=
  if needsTargetRead item.status then answerFor hashes item else return .notOnTarget

/-- The body of the loop over the findings. -/
def settle (domain : DiscoveryDomain) (hashes : Bool) (item : ConfirmableRow) (answer : TargetAnswer)
    (v : Counts) : Passing (Bool × Counts) := do
  let v := { v with rows := v.rows ++ [rowFor domain item.status answer item.contentHash] }
  noteProgress v
  let v ← recordFinding item answer v
  outOfBytes args hashes v

/-- One data type's rows: `confirmEach` over `whileOpen`, and the loop over both. -/
def confirmRows (domain : DiscoveryDomain) (hashes : Bool) : List ConfirmableRow → Counts → Passing Counts
  | [], v => do
    ask v (.pull domain none)
    return v
  | row :: rows, v => do
    ask v (.pull domain (some row))
    let handedOn ← closing domain (stillOpen args row.status v)
    if handedOn then do
      let answer ← findingOf hashes row
      let settled ← closing domain (settle args domain hashes row answer v)
      if settled.1 then do
        ask settled.2 (.close domain)
        return settled.2
      else confirmRows domain hashes rows settled.2
    else do
      ask { v with stoppedBefore := some domain } (.close domain)
      return { v with stoppedBefore := some domain }

def confirmDomains : List (DiscoveryDomain × List ConfirmableRow) → Counts → Passing Counts
  | [], v => return v
  | (domain, rows) :: rest, v =>
    if v.budgetPause.isSome || v.stoppedBefore.isSome then return v
    else do
      let reader ← ask v (.readerFor domain)
      match reader with
      | none => confirmDomains rest v
      | some hashes =>
        let spent ← outOfBytes args hashes v
        if spent.1 then return spent.2
        else do
          let v ← confirmRows args domain hashes rows spent.2
          confirmDomains rest v

structure ConfirmationRunResult where
  runId : String
  tally : ConfirmationTally
  recorded : Nat
  budgetPause : Option BudgetPause
  /-- Set with `stoppedBecause: 'organisation_closed'`. -/
  stoppedBefore : Option DiscoveryDomain

/-- What the run row is closed with after an error. -/
def failedStats (thrown : Thrown) : FinishStats where
  itemsProcessed := thrown.2.rows.length
  errors := 1
  recorded := thrown.2.recorded
  message := some thrown.1
  budgetPause := thrown.2.budgetPause

/-- What it is closed with otherwise. -/
def finishedStats (v : Counts) : FinishStats where
  itemsProcessed := (tally v.rows).total
  errors := 0
  recorded := v.recorded
  verified := some (tally v.rows).verified
  byState := some (ROW_STATES.map (tally v.rows).byState)
  stoppedBefore := v.stoppedBefore
  budgetPause := v.budgetPause

/-- The run row is closed. -/
def finishRun (outcome : RunOutcome) (stats : FinishStats) :
    Prog Unit ConfirmOp ConfirmOp.Ans String Unit :=
  Prog.awaitWith id (ConfirmOp.finishRun outcome stats)

def concludeRun (runId : String) (finished : Except Thrown Counts) :
    Prog Unit ConfirmOp ConfirmOp.Ans String ConfirmationRunResult :=
  match finished with
  | .error thrown => do
    finishRun .failed (failedStats thrown)
    Prog.throw thrown.1
  | .ok v => do
    finishRun (if v.stoppedBefore.isSome then .cancelled else .succeeded) (finishedStats v)
    return ⟨runId, tally v.rows, v.recorded, v.budgetPause, v.stoppedBefore⟩

def runConfirmationPass : Prog Unit ConfirmOp ConfirmOp.Ans String ConfirmationRunResult := do
  let runId ← Prog.awaitWith id (ConfirmOp.startRun args.trigger)
  let finished ← (confirmDomains args args.domains {}).attempt
  concludeRun runId finished

end Run

end Ownpace.Confirm
