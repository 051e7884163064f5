/-
Ownpace/Sync/Known.lean

What a pass of `domain-sync.ts` makes of an item the ledger already knows, and
the errors a pass deals in.

`classifyKnownItem` is the table the item loop acts by: one answer for every
state a row can be in.  Everything else of this file is small: the question
`quietSkip` puts to a row that was read ahead, `decided`, and an error with
the marks the loop reads off it.
-/
import Ownpace.Ledger.Row

namespace Ownpace

/-! ### Errors -/

/-- A thrown value, with what `domain-sync.ts` reads off it: is it a
`PassAbortError`, does it ask for a decision, which side threw it (its own
mark, and the one of whatever caused it), and the category its throw site
stated. -/
structure Err where
  message : String
  isPassAbort : Bool := false
  isDecision : Bool := false
  side : Option FailureSide := none
  causeSide : Option FailureSide := none
  category : Option FailureCategory := none
  deriving DecidableEq

/-- `withFailureSide`: the first mark stays. -/
def Err.sided (side : Option FailureSide) (e : Err) : Err :=
  { e with side := e.side <|> side }

/-- `failureSideOf` -/
def Err.failureSide (e : Err) : Option FailureSide :=
  e.side <|> e.causeSide

def passAbortError (message : String) : Err :=
  { message := message, isPassAbort := true }

/-! ### Known items -/

inductive KnownItemAction : Type
  | skip | recordVersion | rewrite | relocatedAway | leaveAdopted | moved | retryFailed
  | needsDecision | leftBehind | tombstoned
  deriving DecidableEq

/-- Is this row's item listed in another collection than the one recorded? -/
def isElsewhere (known : LedgerRecord) (collection : String) : Bool :=
  collection ≠ "" && (known.collection.bind nonEmpty).any fun c => c ≠ collection

/-- What the two versions of a copy on the target say. -/
def classifyVersion (known : LedgerRecord) : Option String → KnownItemAction
  | none => .skip
  | some version => match known.sourceVersion with
    | none => .recordVersion
    | some recorded =>
      if recorded = version then .skip
      else if known.status = some .adopted then .leaveAdopted
      else .rewrite

/-- What to do about an item whose row is `known`. -/
def classifyKnownItem (known : LedgerRecord) (sourceVersion : Option String)
    (collection : String) : KnownItemAction :=
  match known.status with
  | some .leftBehind => .leftBehind
  | some .superseded => .retryFailed
  | some .tombstoned =>
    if known.movedToNaturalKeyHash.isSome then .relocatedAway else .tombstoned
  | some .failed =>
    if known.parkedAt.isSome || MAX_ITEM_ATTEMPTS ≤ known.attemptCount.getD 0
    then .needsDecision else .retryFailed
  | _ => if isElsewhere known collection then .moved else classifyVersion known sourceVersion

/-- Does the row carry any word of a deletion? -/
def hasEvidence (known : LedgerRecord) : Bool :=
  0 < known.absentPasses.getD 0 || known.deletionReportedAt.isSome ||
    known.deletionTrashedAt.isSome

/-- May a row that was read ahead be left at once, unread again? -/
def quietSkip (row : LedgerRecord) (sourceVersion : Option String) (collection : String) :
    Bool :=
  !hasEvidence row && row.movedToCollection.isNone &&
    classifyKnownItem row sourceVersion collection = .skip

/-- Has a person answered exactly this move already? -/
def decided (row : LedgerRecord) (destination : String) (toNaturalKeyHash : Option String) : Bool :=
  row.movedToCollection = some destination && row.movedToNaturalKeyHash = toNaturalKeyHash &&
    row.moveAcknowledgedAt.isSome

/-! ### What the table says -/

/-- A row whose item is done with: on the target, left behind by decision,
removed by decision, or waiting for one. -/
def isSettled (known : LedgerRecord) : Bool :=
  isOnTarget known.status || known.status = some .leftBehind ||
    known.status = some .tombstoned ||
    (known.status = some .failed &&
      (known.parkedAt.isSome || MAX_ITEM_ATTEMPTS ≤ known.attemptCount.getD 0))

theorem isSettled_of_onTarget {known : LedgerRecord} (h : isOnTarget known.status = true) :
    isSettled known = true := by
  simp [isSettled, h]

variable {known : LedgerRecord} {version : Option String} {collection : String}

/-- An item that is not retried is done with. -/
theorem isSettled_of_classify
    (hretry : classifyKnownItem known version collection ≠ .retryFailed) :
    isSettled known = true := by
  unfold classifyKnownItem at hretry
  split at hretry
  · next hst => simp [isSettled, hst]
  · exact absurd rfl hretry
  · next hst => simp [isSettled, hst]
  · next hst =>
      split at hretry
      · next hparked => simp [isSettled, hst, hparked]
      · exact absurd rfl hretry
  · simp_all [isSettled, isOnTarget]

/-- The answers that are about a copy on the target. -/
def KnownItemAction.isLive : KnownItemAction → Bool
  | skip | recordVersion | rewrite | leaveAdopted | moved => true
  | _ => false

theorem onTarget_of_classify
    (hlive : (classifyKnownItem known version collection).isLive = true) :
    isOnTarget known.status = true := by
  unfold classifyKnownItem at hlive
  split at hlive
  · cases hlive
  · cases hlive
  · split at hlive <;> cases hlive
  · split at hlive <;> cases hlive
  · simp_all [isOnTarget]

end Ownpace
