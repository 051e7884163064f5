/-
Ownpace/Ledger/Row.lean

The ledger's rows, and the record the rest of the product reads one as.

One mapping of one tenant is modelled: every statement of the ledger names
both, and no row of another mapping is read or written by any of them.  A
row's columns are those that a modelled function reads or writes; the
database's `NULL` is `none`, and where a column means "not recorded" by `''`
it stays a plain string.  Times are numbers, larger is later.

A `LedgerRecord` (`ports.ts`) is what `mapRowToRecord` makes of a row: `''`
and `NULL` both become an absent field for most columns, and stay apart for
the two version columns.
-/
import Ownpace.Store.Table

namespace Ownpace

open Store

/-! ### The vocabulary -/

/-- `DISCOVERY_DOMAINS` -/
inductive DiscoveryDomain : Type
  | email | calendar | contact | file | task
  deriving DecidableEq

def DiscoveryDomain.text : DiscoveryDomain → String
  | email => "email"
  | calendar => "calendar"
  | contact => "contact"
  | file => "file"
  | task => "task"

/-- The `status` column (`item_status_check`). -/
inductive ItemStatus : Type
  | pending | copied | updated | adopted | skipped | failed | leftBehind
  | deletedSource | tombstoned | superseded
  deriving DecidableEq

def ItemStatus.text : ItemStatus → String
  | pending => "pending"
  | copied => "copied"
  | updated => "updated"
  | adopted => "adopted"
  | skipped => "skipped"
  | failed => "failed"
  | leftBehind => "left_behind"
  | deletedSource => "deleted_source"
  | tombstoned => "tombstoned"
  | superseded => "superseded"

/-- `FAILURE_CATEGORIES` -/
inductive FailureCategory : Type
  | authExpired | rateLimited | quotaExceeded | policyRefused | tooLarge
  | sourceRefused | targetRefused | formatRefused | network | unknown
  deriving DecidableEq

/-- `FAILURE_SIDES` -/
inductive FailureSide : Type
  | source | target
  deriving DecidableEq

/-- How a move was paired (`recordMove`). -/
inductive PairedBy : Type
  | content | identity
  deriving DecidableEq

/-- After this many attempts an item waits for a person. -/
def MAX_ITEM_ATTEMPTS : Nat := 5

/-- This many complete scans must miss an item before its absence is a report. -/
def DELETION_CONFIRMATIONS : Nat := 2

/-- What a string says, where the empty one says nothing. -/
def nonEmpty (s : String) : Option String :=
  if s = "" then none else some s

theorem nonEmpty_eq_some {s t : String} : nonEmpty s = some t ↔ s = t ∧ t ≠ "" := by
  unfold nonEmpty
  split <;> grind

/-! ### Rows -/

/-- One row of the table `item`. -/
structure ItemRow where
  domain : DiscoveryDomain
  naturalKeyHash : String
  collection : String := ""
  naturalKey : String := ""
  displayName : Option String := none
  contentHash : Option String := none
  /-- The `id` of the column's JSON object. -/
  targetRef : Option String := none
  sizeBytes : Option Nat := none
  status : ItemStatus := .pending
  sourceVersion : Option String := none
  targetVersion : Option String := none
  sourceRefHref : Option String := none
  absentPasses : Nat := 0
  deletionReportedAt : Option Nat := none
  deletionTrashedAt : Option Nat := none
  deletionAcknowledgedAt : Option Nat := none
  deletionAppliedAt : Option Nat := none
  movedToCollection : Option String := none
  movedToNaturalKeyHash : Option String := none
  movedByIdentity : Bool := false
  movedRecordedAt : Option Nat := none
  moveAcknowledgedAt : Option Nat := none
  supersededByNaturalKeyHash : Option String := none
  supersededAt : Option Nat := none
  attemptCount : Nat := 0
  parkedAt : Option Nat := none
  lastError : Option String := none
  lastErrorCategory : Option FailureCategory := none
  deriving DecidableEq

/-- The rows of one mapping.  `item_type` is in the unique constraint too, but
no statement ever sets it, so the natural key's hash is the key. -/
abbrev Ledger : Type := Table String ItemRow ItemRow.naturalKeyHash

/-! ### Records -/

/-- A row as the ledger hands it out, and as its callers hand one in. -/
structure LedgerRecord where
  itemType : DiscoveryDomain
  naturalKeyHash : String
  naturalKey : Option String := none
  displayName : Option String := none
  contentHash : String
  targetId : String
  sizeBytes : Option Nat := none
  status : Option ItemStatus := none
  supersededByNaturalKeyHash : Option String := none
  collection : Option String := none
  sourceVersion : Option String := none
  targetVersion : Option String := none
  sourceRef : Option String := none
  movedToCollection : Option String := none
  movedToNaturalKeyHash : Option String := none
  movedByIdentity : Bool := false
  movedRecordedAt : Option Nat := none
  moveAcknowledgedAt : Option Nat := none
  absentPasses : Option Nat := none
  deletionReportedAt : Option Nat := none
  deletionTrashedAt : Option Nat := none
  deletionAppliedAt : Option Nat := none
  deletionAcknowledgedAt : Option Nat := none
  attemptCount : Option Nat := none
  parkedAt : Option Nat := none
  lastError : Option String := none
  lastErrorCategory : Option FailureCategory := none
  deriving DecidableEq

def mapRowToRecord (row : ItemRow) : LedgerRecord where
  itemType := row.domain
  naturalKeyHash := row.naturalKeyHash
  naturalKey := nonEmpty row.naturalKey
  displayName := row.displayName.bind nonEmpty
  contentHash := row.contentHash.getD ""
  targetId := row.targetRef.getD ""
  sizeBytes := row.sizeBytes
  status := some row.status
  supersededByNaturalKeyHash := row.supersededByNaturalKeyHash.bind nonEmpty
  collection := nonEmpty row.collection
  sourceVersion := row.sourceVersion
  targetVersion := row.targetVersion
  sourceRef := row.sourceRefHref.bind nonEmpty
  movedToCollection := row.movedToCollection.bind nonEmpty
  movedToNaturalKeyHash := row.movedToNaturalKeyHash.bind nonEmpty
  movedByIdentity := row.movedByIdentity
  movedRecordedAt := row.movedRecordedAt
  moveAcknowledgedAt := row.moveAcknowledgedAt
  absentPasses := some row.absentPasses
  deletionReportedAt := row.deletionReportedAt
  deletionTrashedAt := row.deletionTrashedAt
  deletionAppliedAt := row.deletionAppliedAt
  deletionAcknowledgedAt := row.deletionAcknowledgedAt
  attemptCount := some row.attemptCount
  parkedAt := row.parkedAt
  lastError := row.lastError
  lastErrorCategory := row.lastErrorCategory

/-- Does this status count as a copy on the target?  No status at all does. -/
def isOnTarget (status : Option ItemStatus) : Bool :=
  status ≠ some .failed && status ≠ some .leftBehind &&
    status ≠ some .tombstoned && status ≠ some .superseded

/-- Written by this migration, and still there: `status IN ('copied', 'updated')`. -/
def ItemStatus.ours (status : ItemStatus) : Bool :=
  status = .copied || status = .updated

theorem ItemStatus.ours_iff {status : ItemStatus} :
    status.ours = true ↔ status = .copied ∨ status = .updated := by
  simp [ours]

/-! ### Fingerprint versions -/

/-- `/^([a-z0-9]+):/i` -/
def versionOf (fingerprint : String) : Option String :=
  let tag := fingerprint.toList.takeWhile Char.isAlphanum
  if tag ≠ [] ∧ fingerprint.toList[tag.length]? = some ':' then
    some (String.ofList tag)
  else none

def sameFingerprintVersion (a b : String) : Bool :=
  versionOf a = versionOf b

end Ownpace
