/-
Ownpace/Apply/Functions.lean

The five functions of `apply-deletion.ts`.

`evaluateApplyDeletion` and `evaluateApplyRelocation` are the ledger-side
gates alone; `applyDeletion` and `applyRelocation` ask the same questions in
the same order with the target's gates between them, then remove, then
record.  `autoApplyRelocations` puts four gates of its own in front of
`applyRelocation`.

Each function is written out as the source writes it, so the two halves of a
pair share no code but the gates.
-/
import Ownpace.Apply.Gates

namespace Ownpace

open Await

variable {S : Type} (deps : ApplyDeletionDeps)

/-! ### Deletions -/

def evaluateApplyDeletion (naturalKeyHash : String) :
    Apply S (Except Refusal DiscoveryDomain) := do
  if deps.allowApplyDeletions = false then return .error notEnabled
  else match ← askLedger (.find deps.domain naturalKeyHash) with
  | none => return .error notFound
  | some row =>
    if isApplied row then return .error alreadyApplied
    else match ← afterCutoverCheck .deletion with
    | some cutOver => return .error cutOver
    | none => match evidenceCheck row with
      | some weak => return .error weak
      | none => match ownershipCheck row with
        | some ownership => return .error ownership
        | none => match ← massDeletionCheck deps with
          | some breaker => return .error breaker
          | none => return .ok deps.domain

/-- What the removal of a row's copy is asked with. -/
def removeOptions (row : LedgerRecord) : RemoveOptions where
  expectedTargetVersion := row.targetVersion
  collection := row.collection.map (applyTargetFolderPrefix deps.targetFolderPrefix)

def deletionCannotRemove : Refusal where
  code := .targetCannotRemove
  reason :=
    "The " ++ deps.domain.text ++ " target does not support removing items, so this cannot be " ++
    "carried out automatically. Delete the item in the target system yourself, then choose `keep`."

def deletionNotRecorded : Refusal where
  code := .removedNotRecorded
  reason :=
    "The copy WAS removed from the target, and the ledger could not record it. Nothing is " ++
    "left to retry: the removal happened. Verification will report this item as missing on " ++
    "the target until that is reconciled by hand."

/-- Remove the copy, then record it: the last steps of `applyDeletion`. -/
def removeThenRecord (row : LedgerRecord) (record : Apply S Bool) (notRecorded : Refusal) :
    Apply S ApplyDeletionOutcome := do
  let removal ← ask (.removeItem row.targetId (removeOptions deps row))
  if removal.conflicted then return .refused editedOnTarget
  else if removal.unversioned then return .refused versionUnknown
  else match removal.kind with
  | none => return .refused nothingRemoved
  | some kind =>
    let recorded ← record
    return if recorded then .ok kind else .refused notRecorded

def applyDeletion (naturalKeyHash : String) : Apply S ApplyDeletionOutcome := do
  if deps.allowApplyDeletions = false then return .refused notEnabled
  else if deps.canRemove = false then return .refused (deletionCannotRemove deps)
  else match ← askLedger (.find deps.domain naturalKeyHash) with
  | none => return .refused notFound
  | some row =>
    if isApplied row then return .refused alreadyApplied
    else match ← afterCutoverCheck .deletion with
    | some cutOver => return .refused cutOver
    | none => match evidenceCheck row with
      | some weak => return .refused weak
      | none => match ownershipCheck row with
        | some ownership => return .refused ownership
        | none => match ← massDeletionCheck deps with
          | some breaker => return .refused breaker
          | none =>
            removeThenRecord deps row
              (askLedger (.applyDeletion deps.domain naturalKeyHash)) deletionNotRecorded

/-! ### Relocations -/

def evaluateApplyRelocation (naturalKeyHash : String) :
    Apply S (Except Refusal DiscoveryDomain) := do
  if deps.allowApplyDeletions = false then return .error notEnabled
  else match ← askLedger (.find deps.domain naturalKeyHash) with
  | none => return .error notFound
  | some row =>
    if isApplied row then return .error alreadyApplied
    else match ← afterCutoverCheck .move with
    | some cutOver => return .error cutOver
    | none => match ← relocationCheck deps row with
      | some relocation => return .error relocation
      | none => match ownershipCheck row with
        | some ownership => return .error ownership
        | none => match ← massChecks deps with
          | some breaker => return .error breaker
          | none => return .ok deps.domain

def relocationCannotRemove : Refusal where
  code := .targetCannotRemove
  reason :=
    "The " ++ deps.domain.text ++ " target does not support removing items, so this cannot be " ++
    "carried out automatically. Delete the old copy in the target system yourself, then " ++
    "choose `keep`."

def targetCannotConfirm : Refusal where
  code := .targetCannotConfirm
  reason :=
    "The " ++ deps.domain.text ++ " target cannot be asked whether the relocated copy is really " ++
    "there, and removing this one is only safe if it is. Remove the old copy in the target system " ++
    "yourself if you are sure, then choose `keep`."

def notPresent : Refusal :=
  relocationUnconfirmed <|
    "The target does not have the relocated copy, whatever the ledger says — so this is the " ++
    "only copy left and it will not be removed. Verification will report the other one as " ++
    "missing until that is reconciled."

def relocationNotRecorded : Refusal where
  code := .removedNotRecorded
  reason :=
    "The old copy WAS removed from the target, and the ledger could not record it. Nothing " ++
    "is left to retry: the removal happened. Verification will report this item as missing " ++
    "on the target until that is reconciled by hand."

/-- The arrival, asked of the target itself: the last question before a
relocation removes anything.  A row that is gone by then is dereferenced all
the same, which throws. -/
def confirmArrival (row : LedgerRecord) : Apply S (Option Refusal) := do
  let arrivalRow ← askLedger (.find deps.domain (row.movedToNaturalKeyHash.getD ""))
  if deps.canConfirmPresence = false then return some (targetCannotConfirm deps)
  else match arrivalRow with
  | none => Prog.throw "Cannot read properties of undefined (reading 'targetId')"
  | some arrival =>
    let present ← ask (.hasItem arrival.targetId
      (arrival.collection.map (applyTargetFolderPrefix deps.targetFolderPrefix)))
    return if present then none else some notPresent

def applyRelocation (naturalKeyHash : String) : Apply S ApplyDeletionOutcome := do
  if deps.allowApplyDeletions = false then return .refused notEnabled
  else if deps.canRemove = false then return .refused (relocationCannotRemove deps)
  else match ← askLedger (.find deps.domain naturalKeyHash) with
  | none => return .refused notFound
  | some row =>
    if isApplied row then return .refused alreadyApplied
    else match ← afterCutoverCheck .move with
    | some cutOver => return .refused cutOver
    | none => match ← relocationCheck deps row with
      | some relocation => return .refused relocation
      | none => match ownershipCheck row with
        | some ownership => return .refused ownership
        | none => match ← massChecks deps with
          | some breaker => return .refused breaker
          | none => match ← confirmArrival deps row with
            | some unconfirmed => return .refused unconfirmed
            | none =>
              removeThenRecord deps row
                (askLedger (.applyRelocation deps.domain naturalKeyHash)) relocationNotRecorded

/-! ### Auto-apply -/

/-- At most this many in one pass. -/
def AUTO_APPLY_RELOCATIONS_CAP : Nat := 50

/-- Why one open relocation was left in the queue: the gate that said no. -/
inductive LeftForReview : Type
  | capReached | notSurvivedPass | pairedByIdentity
  | hashNotUnique (sharers : Nat)
  | refused (refusal : Refusal)
  deriving DecidableEq

/-- `AutoApplyRelocationsReport` -/
structure AutoApplyRelocationsReport where
  enabled : Bool
  considered : Nat := 0
  applied : List (String × RemovalKind) := []
  leftForReview : List (String × LeftForReview) := []
  stoppedCode : Option ApplyRefusal := none
  deriving DecidableEq

/-- How many placed items hold a hash. -/
def sharersOf (placed : List Ledger.PlacedItem) (contentHash : String) : Nat :=
  (placed.filter fun item => item.contentHash = contentHash).length

/-- One open relocation, in the loop of `autoApplyRelocations`. -/
def autoApplyOne (placed : List Ledger.PlacedItem) (passStartedAt : Nat)
    (move : Ledger.ItemMove) : Apply S (Except LeftForReview RemovalKind) := do
  -- recorded during this pass, or at a time nobody wrote down
  if move.recordedAt.all fun at_ => passStartedAt ≤ at_ then return .error .notSurvivedPass
  else
    let row ← askLedger (.find deps.domain move.naturalKeyHash)
    if row.any (·.movedByIdentity) then return .error .pairedByIdentity
    else
      let sharers := ((row.map (·.contentHash)).bind nonEmpty).elim 0 (sharersOf placed)
      if sharers ≠ 2 then return .error (.hashNotUnique sharers)
      else match ← applyRelocation deps move.naturalKeyHash with
        | .refused refusal => return .error (.refused refusal)
        | .ok kind =>
          -- a failed write of the audit row is logged, and fails nothing
          let _ ← (ask (.recordAuditEvent move.naturalKeyHash kind)).attempt
          return .ok kind

/-- The loop over the open relocations. -/
def autoApplyLoop (placed : List Ledger.PlacedItem) (passStartedAt cap : Nat) :
    List Ledger.ItemMove → AutoApplyRelocationsReport → Apply S AutoApplyRelocationsReport
  | [], report => Prog.ret report
  | move :: rest, report =>
    if cap ≤ report.applied.length then
      autoApplyLoop placed passStartedAt cap rest
        { report with
          leftForReview := report.leftForReview ++ [(move.naturalKeyHash, .capReached)] }
    else do
      match ← autoApplyOne deps placed passStartedAt move with
      | .ok kind =>
        autoApplyLoop placed passStartedAt cap rest
          { report with applied := report.applied ++ [(move.naturalKeyHash, kind)] }
      | .error left =>
        autoApplyLoop placed passStartedAt cap rest
          { report with leftForReview := report.leftForReview ++ [(move.naturalKeyHash, left)] }

def autoApplyRelocations (enabled : Bool) (passStartedAt cap : Nat) :
    Apply S AutoApplyRelocationsReport := do
  if enabled = false then return { enabled := false }
  else
    let still ← ask .stillTheAuthority
    if still = false then return { enabled := true, stoppedCode := some .afterCutover }
    else
      let moves ← askLedger (.listMoves (some deps.domain))
      let openMoves := moves.filter isOpenRelocation
      if openMoves = [] then return { enabled := true }
      else match ← massChecks deps with
        | some breaker =>
          return { enabled := true, considered := openMoves.length, stoppedCode := some breaker.code }
        | none =>
          let placed ← askLedger (.placedItems deps.domain)
          autoApplyLoop deps placed passStartedAt cap openMoves
            { enabled := true, considered := openMoves.length }

end Ownpace
