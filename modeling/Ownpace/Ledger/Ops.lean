/-
Ownpace/Ledger/Ops.lean

The statements of `PgLedger` that read or write rows of the table `item`.

Each method is one definition.  Nearly all of those that write are the same
statement, an `UPDATE` of the row under one key if a condition holds of it
(`updateAt`), and differ in the columns they set and in the condition.  A method that
answers whether it wrote anything answers `rows.length > 0`.

`LedgerOp.run` gathers them: one call, what it answers and the rows it leaves.
What a method may do to a single row is said once, by `updateAt_get`,
`recordIfAbsent_get` and the lemmas named after the methods; callers cite
those and never open a method again.
-/
import Mathlib.Order.Basic
import Ownpace.Ledger.Row

namespace Ownpace

open Store

namespace Ledger

/-! ### Reading -/

theorem key_of_get {l : Ledger} {k : String} {r : ItemRow} (h : l.get k = some r) :
    r.naturalKeyHash = k :=
  Table.get_key h

/-- The row itself, under a key and in a domain. -/
def rowAt (l : Ledger) (domain : DiscoveryDomain) (naturalKeyHash : String) :
    Option ItemRow :=
  (l.get naturalKeyHash).filter fun r => r.domain = domain

def find (l : Ledger) (domain : DiscoveryDomain) (naturalKeyHash : String) :
    Option LedgerRecord :=
  (l.rowAt domain naturalKeyHash).map mapRowToRecord

theorem find_eq_some {l : Ledger} {domain : DiscoveryDomain} {key : String}
    {known : LedgerRecord} : l.find domain key = some known ↔
    ∃ r, l.get key = some r ∧ r.domain = domain ∧ mapRowToRecord r = known := by
  simp only [find, rowAt, Option.map_eq_some_iff, Option.filter_eq_some_iff,
    decide_eq_true_eq]
  constructor
  · rintro ⟨r, ⟨hr, hd⟩, hk⟩
    exact ⟨r, hr, hd, hk⟩
  · rintro ⟨r, hr, hd, hk⟩
    exact ⟨r, ⟨hr, hd⟩, hk⟩

/-- The rows that exist, each under its key. -/
def findMany (l : Ledger) (domain : DiscoveryDomain) (naturalKeyHashes : List String) :
    List (String × LedgerRecord) :=
  (l.rows.filter fun r => r.naturalKeyHash ∈ naturalKeyHashes && r.domain = domain).map
    fun r => (r.naturalKeyHash, mapRowToRecord r)

def findBySourceRef (l : Ledger) (domain : DiscoveryDomain) (sourceRef : String) :
    Option LedgerRecord :=
  if sourceRef = "" then none
  else (l.rows.find? fun r =>
    r.domain = domain && r.sourceRefHref = some sourceRef).map mapRowToRecord

/-- What `placedItems` answers for one row. -/
structure PlacedItem where
  naturalKeyHash : String
  contentHash : String
  collection : String
  movedToCollection : Option String
  movedToNaturalKeyHash : Option String
  moveAcknowledgedAt : Option Nat
  absentPasses : Nat
  deletionAcknowledgedAt : Option Nat
  deletionAppliedAt : Option Nat
  supersededByNaturalKeyHash : Option String
  sourceRef : Option String
  deriving DecidableEq

def placedItem (r : ItemRow) : PlacedItem where
  naturalKeyHash := r.naturalKeyHash
  contentHash := r.contentHash.getD ""
  collection := r.collection
  movedToCollection := r.movedToCollection.bind nonEmpty
  movedToNaturalKeyHash := r.movedToNaturalKeyHash.bind nonEmpty
  moveAcknowledgedAt := r.moveAcknowledgedAt
  absentPasses := r.absentPasses
  deletionAcknowledgedAt := r.deletionAcknowledgedAt
  deletionAppliedAt := r.deletionAppliedAt
  supersededByNaturalKeyHash := r.supersededByNaturalKeyHash.bind nonEmpty
  sourceRef := r.sourceRefHref.bind nonEmpty

/-- The `WHERE` of `placedItems`, the domain apart. -/
def isPlaced (r : ItemRow) : Bool :=
  r.status ≠ .failed && r.status ≠ .leftBehind && r.status ≠ .superseded &&
    r.collection ≠ ""

def placedItems (l : Ledger) (domain : DiscoveryDomain) : List PlacedItem :=
  (l.rows.filter fun r => r.domain = domain && isPlaced r).map placedItem

inductive Decided : Type
  | kept | relocated | applied
  deriving DecidableEq

/-- One entry of the moves queue. -/
structure ItemMove where
  domain : DiscoveryDomain
  naturalKeyHash : String
  fromCollection : String
  toCollection : String
  toNaturalKeyHash : Option String
  recordedAt : Option Nat
  acknowledgedAt : Option Nat
  decided : Option Decided
  deriving DecidableEq

def itemMove (r : ItemRow) : ItemMove where
  domain := r.domain
  naturalKeyHash := r.naturalKeyHash
  fromCollection := r.collection
  toCollection := r.movedToCollection.getD ""
  toNaturalKeyHash := r.movedToNaturalKeyHash.bind nonEmpty
  recordedAt := r.movedRecordedAt
  acknowledgedAt := r.moveAcknowledgedAt
  decided := r.moveAcknowledgedAt.map fun _ =>
    if r.deletionAppliedAt.isSome then .applied else .kept

/-- `NULLS FIRST`, then by time. -/
def nullsFirst : Option Nat → Option Nat → Bool
  | none, _ => true
  | some _, none => false
  | some a, some b => a ≤ b

/-- Open ones first, then by natural key. -/
def moveOrder (a b : ItemMove) : Bool :=
  if a.acknowledgedAt = b.acknowledgedAt then a.naturalKeyHash ≤ b.naturalKeyHash
  else nullsFirst a.acknowledgedAt b.acknowledgedAt

def listMoves (l : Ledger) (domain : Option DiscoveryDomain) : List ItemMove :=
  ((l.rows.filter fun r => r.movedToCollection.isSome &&
    domain.all fun d => r.domain = d).map itemMove).mergeSort moveOrder

inductive DeletionEvidence : Type
  | reported | trashed | inferred
  deriving DecidableEq

/-- One entry of the deletions queue. -/
structure ItemDeletion where
  domain : DiscoveryDomain
  naturalKeyHash : String
  collection : String
  absentPasses : Nat
  confirmed : Bool
  evidence : DeletionEvidence
  reportedAt : Option Nat
  trashedAt : Option Nat
  acknowledgedAt : Option Nat
  decided : Option Decided
  deriving DecidableEq

def itemDeletion (r : ItemRow) : ItemDeletion where
  domain := r.domain
  naturalKeyHash := r.naturalKeyHash
  collection := r.collection
  absentPasses := r.absentPasses
  confirmed := r.deletionReportedAt.isSome || r.deletionTrashedAt.isSome ||
    DELETION_CONFIRMATIONS ≤ r.absentPasses
  evidence :=
    if r.deletionReportedAt.isSome then .reported
    else if r.deletionTrashedAt.isSome then .trashed
    else .inferred
  reportedAt := r.deletionReportedAt
  trashedAt := r.deletionTrashedAt
  acknowledgedAt := r.deletionAcknowledgedAt
  decided := r.deletionAcknowledgedAt.map fun _ =>
    if r.deletionAppliedAt = none then .kept
    else if r.movedToNaturalKeyHash.isSome && r.moveAcknowledgedAt = r.deletionAppliedAt
    then .relocated
    else .applied

/-- The queue, in the table's own order: no modelled caller reads the order. -/
def listDeletions (l : Ledger) (domain : Option DiscoveryDomain) : List ItemDeletion :=
  (l.rows.filter fun r =>
    (0 < r.absentPasses || r.deletionReportedAt.isSome || r.deletionTrashedAt.isSome) &&
      domain.all fun d => r.domain = d).map itemDeletion

/-! ### One row, rewritten under a condition -/

/-- `UPDATE … SET set WHERE natural_key_hash = k AND sel`. -/
def updateAt (l : Ledger) (naturalKeyHash : String) (sel : ItemRow → Bool)
    (set : ItemRow → ItemRow) (hset : ∀ r, (set r).naturalKeyHash = r.naturalKeyHash) :
    Ledger :=
  l.updateWhere (fun r => r.naturalKeyHash = naturalKeyHash && sel r) set hset

/-- `rows.length > 0`, of the same statement. -/
def matchesAt (l : Ledger) (naturalKeyHash : String) (sel : ItemRow → Bool) : Bool :=
  l.rows.any fun r => r.naturalKeyHash = naturalKeyHash && sel r

theorem updateAt_get (l : Ledger) (k : String) (sel : ItemRow → Bool)
    (set : ItemRow → ItemRow) (hset : ∀ r, (set r).naturalKeyHash = r.naturalKeyHash)
    (k' : String) :
    (l.updateAt k sel set hset).get k' =
      if k' = k then (l.get k).map fun r => bif sel r then set r else r
      else l.get k' := by
  unfold updateAt
  split
  · next h =>
      subst h
      exact Table.get_updateWhere_self l set hset
  · next h => exact Table.get_updateWhere_of_ne l set hset h

theorem matchesAt_eq (l : Ledger) {k : String} {sel : ItemRow → Bool} :
    l.matchesAt k sel = (l.get k).any sel :=
  Table.any_key

/-! ### Writing -/

/-- The columns `recordIfAbsent` inserts. -/
def insertedRow (record : LedgerRecord) : ItemRow where
  domain := record.itemType
  naturalKeyHash := record.naturalKeyHash
  collection := record.collection.getD ""
  naturalKey := record.naturalKey.getD ""
  displayName := record.displayName
  contentHash := some record.contentHash
  sizeBytes := record.sizeBytes
  status := record.status.getD .copied
  targetRef := some record.targetId
  sourceVersion := record.sourceVersion
  targetVersion := record.targetVersion
  sourceRefHref := record.sourceRef

def recordIfAbsent (l : Ledger) (record : LedgerRecord) :
    Except String LedgerRecord × Ledger :=
  match l.get record.naturalKeyHash with
  | none => (.ok (mapRowToRecord (insertedRow record)), l.insert (insertedRow record))
  | some _ => match l.find record.itemType record.naturalKeyHash with
    | some existing => (.ok existing, l)
    | none => (.error ("Failed to insert or find record with naturalKeyHash: " ++
        record.naturalKeyHash), l)

/-- A value the caller supplied, where `''` counts as nothing to say. -/
def heal (supplied : Option String) (kept : String) : String :=
  (supplied.bind nonEmpty).getD kept

/-- The columns `recordUpdate` sets. -/
def updatedRow (record : LedgerRecord) (r : ItemRow) : ItemRow :=
  { r with
    contentHash := some record.contentHash
    sizeBytes := record.sizeBytes
    status := record.status.getD .updated
    targetRef := some record.targetId
    sourceVersion := record.sourceVersion
    -- what the caller does not supply is left alone, not blanked
    targetVersion := record.targetVersion <|> r.targetVersion
    collection := record.collection.getD r.collection
    sourceRefHref := record.sourceRef <|> r.sourceRefHref
    naturalKey := heal record.naturalKey r.naturalKey
    displayName := record.displayName.bind nonEmpty <|> r.displayName
    supersededByNaturalKeyHash := none
    supersededAt := none }

def recordUpdate (l : Ledger) (record : LedgerRecord) :
    Except String LedgerRecord × Ledger :=
  match l.rowAt record.itemType record.naturalKeyHash with
  | some r => (.ok (mapRowToRecord (updatedRow record r)),
      l.updateAt record.naturalKeyHash (fun r => r.domain = record.itemType)
        (updatedRow record) fun _ => rfl)
  | none => (.error ("recordUpdate found no row for naturalKeyHash " ++
      record.naturalKeyHash ++ ". This method never inserts — a caller that " ++
      "decided an item changed must already have recorded copying it."), l)

/-- What `recordFailure` is told beside the record and the message. -/
structure FailureOptions where
  park : Bool := false
  side : Option FailureSide := none
  category : Option FailureCategory := none
  deriving DecidableEq

/-- The columns `recordFailure` sets on a row that is there.  The content hash
and the two versions are not among them: a failed attempt wrote nothing. -/
def bumpedRow (now : Nat) (category : FailureCategory) (record : LedgerRecord)
    (error : String) (park : Bool) (r : ItemRow) : ItemRow :=
  { r with
    status := .failed
    attemptCount := r.attemptCount + 1
    parkedAt := if park then some (r.parkedAt.getD now) else r.parkedAt
    lastError := some error
    lastErrorCategory := some category
    supersededByNaturalKeyHash := none
    supersededAt := none
    collection := record.collection.getD r.collection
    naturalKey := heal record.naturalKey r.naturalKey
    displayName := record.displayName.bind nonEmpty <|> r.displayName
    sourceRefHref := record.sourceRef.bind nonEmpty <|> r.sourceRefHref }

/-- The columns `recordFailure` inserts where there is no row. -/
def failedRow (now : Nat) (category : FailureCategory) (record : LedgerRecord)
    (error : String) (park : Bool) : ItemRow where
  domain := record.itemType
  naturalKeyHash := record.naturalKeyHash
  collection := record.collection.getD ""
  naturalKey := record.naturalKey.getD ""
  displayName := record.displayName
  contentHash := some record.contentHash
  sizeBytes := record.sizeBytes
  status := .failed
  targetRef := some record.targetId
  sourceRefHref := record.sourceRef.bind nonEmpty
  sourceVersion := record.sourceVersion
  attemptCount := 1
  parkedAt := if park then some now else none
  lastError := some error
  lastErrorCategory := some category

def recordFailure (now : Nat) (category : FailureCategory) (l : Ledger)
    (record : LedgerRecord) (error : String) (park : Bool) :
    Except String LedgerRecord × Ledger :=
  match l.get record.naturalKeyHash with
  | none => (.ok (mapRowToRecord (failedRow now category record error park)),
      l.insert (failedRow now category record error park))
  | some _ => match l.rowAt record.itemType record.naturalKeyHash with
    | some r => (.ok (mapRowToRecord (bumpedRow now category record error park r)),
        l.updateAt record.naturalKeyHash (fun r => r.domain = record.itemType)
          (bumpedRow now category record error park) fun _ => rfl)
    | none => (.error ("recordFailure could neither insert nor update the row for " ++
        "naturalKeyHash " ++ record.naturalKeyHash), l)

inductive FailureAction : Type
  | retry | accept
  deriving DecidableEq

/-- The columns an owner's answer to a failure sets. -/
def resolvedRow : FailureAction → ItemRow → ItemRow
  | .accept, r => { r with status := .leftBehind }
  | .retry, r => { r with attemptCount := 0, parkedAt := none }

theorem resolvedRow_key (action : FailureAction) (r : ItemRow) :
    (resolvedRow action r).naturalKeyHash = r.naturalKeyHash := by
  cases action <;> rfl

def resolveFailure (l : Ledger) (naturalKeyHash : String) (action : FailureAction) :
    Bool × Ledger :=
  (l.matchesAt naturalKeyHash fun r => r.status = .failed,
    l.updateAt naturalKeyHash (fun r => r.status = .failed) (resolvedRow action)
      (resolvedRow_key action))

/-- Which failures a decision over a group is about. -/
structure FailureMatch where
  domain : Option DiscoveryDomain := none
  category : Option FailureCategory := none
  errorContains : Option String := none
  deriving DecidableEq

/-- `LIKE '%needle%'`, the needle taken literally. -/
def containsText (needle text : String) : Bool :=
  text.toList.tails.any fun t => needle.toList.isPrefixOf t

def FailureMatch.picks (m : FailureMatch) (r : ItemRow) : Bool :=
  r.status = .failed && m.domain.all (fun d => r.domain = d) &&
    m.category.all (fun c => r.lastErrorCategory = some c) &&
    (m.errorContains.bind nonEmpty).all fun t => r.lastError.any (containsText t)

def resolveFailureGroup (l : Ledger) (action : FailureAction) (m : FailureMatch) :
    Nat × Ledger :=
  ((l.rows.filter m.picks).length,
    l.updateWhere m.picks (resolvedRow action) (resolvedRow_key action))

/-- The columns `recordMove` sets.  The acknowledgement and the recording date
survive only while the destination is the one already recorded. -/
def movedRow (now : Nat) (toCollection : String) (toKey : Option String)
    (pairedBy : PairedBy) (r : ItemRow) : ItemRow :=
  { r with
    movedToCollection := some toCollection
    movedByIdentity := pairedBy = .identity
    movedToNaturalKeyHash := toKey
    moveAcknowledgedAt :=
      if r.movedToCollection ≠ some toCollection ∨ r.movedToNaturalKeyHash ≠ toKey
      then none else r.moveAcknowledgedAt
    movedRecordedAt :=
      if r.movedToCollection ≠ some toCollection ∨ r.movedToNaturalKeyHash ≠ toKey
      then some now else some (r.movedRecordedAt.getD now) }

def recordMove (now : Nat) (l : Ledger) (domain : DiscoveryDomain)
    (naturalKeyHash toCollection : String) (toNaturalKeyHash : Option String)
    (pairedBy : PairedBy) : Ledger :=
  l.updateAt naturalKeyHash (fun r => r.domain = domain)
    (movedRow now toCollection toNaturalKeyHash pairedBy) fun _ => rfl

def clearedMove (r : ItemRow) : ItemRow :=
  { r with
    movedToCollection := none
    movedToNaturalKeyHash := none
    movedByIdentity := false
    movedRecordedAt := none
    moveAcknowledgedAt := none }

def clearMove (l : Ledger) (domain : DiscoveryDomain) (naturalKeyHash : String) : Ledger :=
  l.updateAt naturalKeyHash (fun r => r.domain = domain) clearedMove fun _ => rfl

inductive MoveAction : Type
  | keep | apply
  deriving DecidableEq

def resolveMove (now : Nat) (l : Ledger) (naturalKeyHash : String) :
    MoveAction → Bool × Ledger
  | .apply => (false, l)
  | .keep =>
      let sel := fun r : ItemRow => r.movedToCollection.isSome && r.moveAcknowledgedAt.isNone
      (l.matchesAt naturalKeyHash sel,
        l.updateAt naturalKeyHash sel (fun r => { r with moveAcknowledgedAt := some now })
          fun _ => rfl)

def recordAbsent (l : Ledger) (domain : DiscoveryDomain) (naturalKeyHash : String) :
    Nat × Ledger :=
  (((l.rowAt domain naturalKeyHash).map fun r => r.absentPasses + 1).getD 0,
    l.updateAt naturalKeyHash (fun r => r.domain = domain)
      (fun r => { r with absentPasses := r.absentPasses + 1 }) fun _ => rfl)

/-- The first report only: a later one does not move the date.  Answers
whether there is such a row at all. -/
def recordReportedDeletion (now : Nat) (l : Ledger) (domain : DiscoveryDomain)
    (naturalKeyHash : String) : Bool × Ledger :=
  ((l.rowAt domain naturalKeyHash).isSome,
    l.updateAt naturalKeyHash (fun r => r.domain = domain && r.deletionReportedAt.isNone)
      (fun r => { r with deletionReportedAt := some now }) fun _ => rfl)

/-- The first sighting in the bin only. -/
def recordTrashedDeletion (now : Nat) (l : Ledger) (domain : DiscoveryDomain)
    (naturalKeyHash : String) : Bool × Ledger :=
  ((l.rowAt domain naturalKeyHash).isSome,
    l.updateAt naturalKeyHash (fun r => r.domain = domain && r.deletionTrashedAt.isNone)
      (fun r => { r with deletionTrashedAt := some now }) fun _ => rfl)

def clearedAbsent (r : ItemRow) : ItemRow :=
  { r with
    absentPasses := 0
    deletionReportedAt := none
    deletionTrashedAt := none
    deletionAcknowledgedAt := none }

def clearAbsent (l : Ledger) (domain : DiscoveryDomain) (naturalKeyHash : String) : Ledger :=
  l.updateAt naturalKeyHash
    (fun r => r.domain = domain && (0 < r.absentPasses || r.deletionReportedAt.isSome ||
      r.deletionTrashedAt.isSome || r.deletionAcknowledgedAt.isSome))
    clearedAbsent fun _ => rfl

inductive DeletionAction : Type
  | keep | apply
  deriving DecidableEq

def resolveDeletion (now : Nat) (l : Ledger) (naturalKeyHash : String) :
    DeletionAction → Bool × Ledger
  | .apply => (false, l)
  | .keep =>
      let sel := fun r : ItemRow =>
        (DELETION_CONFIRMATIONS ≤ r.absentPasses || r.deletionReportedAt.isSome ||
          r.deletionTrashedAt.isSome ||
          (r.supersededByNaturalKeyHash.isSome && r.status.ours)) &&
        r.deletionAcknowledgedAt.isNone
      (l.matchesAt naturalKeyHash sel,
        l.updateAt naturalKeyHash sel
          (fun r => { r with deletionAcknowledgedAt := some now }) fun _ => rfl)

/-- The `WHERE` of `applyDeletion`: positive evidence, still open, and a copy
this migration wrote. -/
def mayApplyDeletion (domain : DiscoveryDomain) (r : ItemRow) : Bool :=
  r.domain = domain && (r.deletionReportedAt.isSome || r.deletionTrashedAt.isSome) &&
    r.deletionAppliedAt.isNone && r.status.ours

def deletedRow (now : Nat) (r : ItemRow) : ItemRow :=
  { r with
    status := .tombstoned
    deletionAppliedAt := some now
    deletionAcknowledgedAt := some now }

def applyDeletion (now : Nat) (l : Ledger) (domain : DiscoveryDomain)
    (naturalKeyHash : String) : Bool × Ledger :=
  (l.matchesAt naturalKeyHash (mayApplyDeletion domain),
    l.updateAt naturalKeyHash (mayApplyDeletion domain) (deletedRow now) fun _ => rfl)

/-- The `EXISTS` of `applyRelocation`: the arrival is in the ledger, was written
by us, and holds the same bytes (or, for a pair made by id, is the same
document). -/
def isArrivalOf (domain : DiscoveryDomain) (r arrival : ItemRow) : Bool :=
  arrival.domain = domain && r.movedToNaturalKeyHash = some arrival.naturalKeyHash &&
    arrival.naturalKeyHash ≠ r.naturalKeyHash && arrival.status.ours &&
    ((arrival.contentHash.bind nonEmpty).any (fun c => r.contentHash = some c) ||
      (r.movedByIdentity &&
        (arrival.sourceRefHref.bind nonEmpty).any fun s => r.sourceRefHref = some s))

/-- The `WHERE` of `applyRelocation`. -/
def mayApplyRelocation (l : Ledger) (domain : DiscoveryDomain) (r : ItemRow) : Bool :=
  r.domain = domain && r.movedToNaturalKeyHash.isSome && r.deletionAppliedAt.isNone &&
    r.moveAcknowledgedAt.isNone && r.status.ours && l.rows.any (isArrivalOf domain r)

def relocatedRow (now : Nat) (r : ItemRow) : ItemRow :=
  { r with
    status := .tombstoned
    deletionAppliedAt := some now
    moveAcknowledgedAt := some now
    -- and a deletion entry the row also carried, so that none is left open
    deletionAcknowledgedAt :=
      if r.deletionReportedAt.isSome || r.deletionTrashedAt.isSome || 0 < r.absentPasses
      then some now else r.deletionAcknowledgedAt }

def applyRelocation (now : Nat) (l : Ledger) (domain : DiscoveryDomain)
    (naturalKeyHash : String) : Bool × Ledger :=
  (l.matchesAt naturalKeyHash (l.mayApplyRelocation domain),
    l.updateAt naturalKeyHash (l.mayApplyRelocation domain) (relocatedRow now) fun _ => rfl)

theorem applyRelocation_get (now : Nat) (l : Ledger) (domain : DiscoveryDomain)
    (k k' : String) :
    (l.applyRelocation now domain k).2.get k' =
      if k' = k then (l.get k).map fun r =>
        bif l.mayApplyRelocation domain r then relocatedRow now r else r
      else l.get k' :=
  l.updateAt_get k _ (relocatedRow now) (fun _ => rfl) k'

/-- A key a document had, or would have had, and the one it is listed under. -/
structure FormerName where
  formerNaturalKeyHash : String
  naturalKeyHash : String
  sourceRef : Option String := none
  deriving DecidableEq

/-- Which of the claims on a former name a row answers to: the one with the
row's own source handle, and any (the first) where the row has none. -/
def claimant (formerNames : List FormerName) (r : ItemRow) : Option FormerName :=
  let candidates := formerNames.filter fun n =>
    n.formerNaturalKeyHash ≠ n.naturalKeyHash && n.formerNaturalKeyHash = r.naturalKeyHash
  match r.sourceRefHref.bind nonEmpty with
  | some ref => candidates.find? fun n => n.sourceRef = some ref
  | none => candidates.head?

def supersededRow (now : Nat) (formerNames : List FormerName) (r : ItemRow) : ItemRow :=
  { r with
    status := .superseded
    supersededByNaturalKeyHash := (claimant formerNames r).map (·.naturalKeyHash)
    supersededAt := some now }

def supersedeFormerNames (now : Nat) (l : Ledger) (domain : DiscoveryDomain)
    (formerNames : List FormerName) : List (String × String) × Ledger :=
  let sel := fun r : ItemRow => r.domain = domain && r.status = .failed &&
    (claimant formerNames r).isSome
  ((l.rows.filter sel).filterMap fun r =>
      (claimant formerNames r).map fun c => (r.naturalKeyHash, c.naturalKeyHash),
    l.updateWhere sel (supersededRow now formerNames) fun _ => rfl)

def markedRow (now : Nat) (formerNames : List FormerName) (r : ItemRow) : ItemRow :=
  { r with
    supersededByNaturalKeyHash := (claimant formerNames r).map (·.naturalKeyHash)
    supersededAt := some now
    absentPasses := 0 }

def markEarlierExports (now : Nat) (l : Ledger) (domain : DiscoveryDomain)
    (formerNames : List FormerName) : List (String × String) × Ledger :=
  let sel := fun r : ItemRow => r.domain = domain && r.status.ours &&
    r.deletionAppliedAt.isNone && (claimant formerNames r).any fun c =>
      r.supersededByNaturalKeyHash ≠ some c.naturalKeyHash
  ((l.rows.filter sel).filterMap fun r =>
      (claimant formerNames r).map fun c => (r.naturalKeyHash, c.naturalKeyHash),
    l.updateWhere sel (markedRow now formerNames) fun _ => rfl)

/-- Takes the mark off a copy.  A superseded failure keeps its link. -/
def clearEarlierExport (l : Ledger) (domain : DiscoveryDomain) (naturalKeyHash : String) :
    Ledger :=
  l.updateAt naturalKeyHash
    (fun r => r.domain = domain && r.status.ours && r.supersededByNaturalKeyHash.isSome)
    (fun r => { r with supersededByNaturalKeyHash := none, supersededAt := none })
    fun _ => rfl

end Ledger

/-! ### The calls -/

/-- What a call to the ledger finds when it runs: the clock, and the table of
patterns `classifyFailure` reads a message by. -/
structure Host where
  now : Nat
  rules : String → Option FailureSide → FailureCategory

/-- What the throw site stated wins; otherwise the wording decides. -/
def classifyFailure (rules : String → Option FailureSide → FailureCategory)
    (message : String) (side : Option FailureSide) (stated : Option FailureCategory) :
    FailureCategory :=
  stated.getD (rules message side)

/-- One call to the ledger. -/
inductive LedgerOp : Type
  | find (domain : DiscoveryDomain) (naturalKeyHash : String)
  | findMany (domain : DiscoveryDomain) (naturalKeyHashes : List String)
  | findBySourceRef (domain : DiscoveryDomain) (sourceRef : String)
  | placedItems (domain : DiscoveryDomain)
  | listMoves (domain : Option DiscoveryDomain)
  | listDeletions (domain : Option DiscoveryDomain)
  | recordIfAbsent (record : LedgerRecord)
  | recordUpdate (record : LedgerRecord)
  | recordFailure (record : LedgerRecord) (error : String)
      (options : Ledger.FailureOptions)
  | resolveFailure (naturalKeyHash : String) (action : Ledger.FailureAction)
  | resolveFailureGroup (action : Ledger.FailureAction) (m : Ledger.FailureMatch)
  | recordMove (domain : DiscoveryDomain) (naturalKeyHash toCollection : String)
      (toNaturalKeyHash : Option String) (pairedBy : PairedBy)
  | clearMove (domain : DiscoveryDomain) (naturalKeyHash : String)
  | resolveMove (naturalKeyHash : String) (action : Ledger.MoveAction)
  | recordAbsent (domain : DiscoveryDomain) (naturalKeyHash : String)
  | recordReportedDeletion (domain : DiscoveryDomain) (naturalKeyHash : String)
  | recordTrashedDeletion (domain : DiscoveryDomain) (naturalKeyHash : String)
  | clearAbsent (domain : DiscoveryDomain) (naturalKeyHash : String)
  | resolveDeletion (naturalKeyHash : String) (action : Ledger.DeletionAction)
  | applyDeletion (domain : DiscoveryDomain) (naturalKeyHash : String)
  | applyRelocation (domain : DiscoveryDomain) (naturalKeyHash : String)
  | supersedeFormerNames (domain : DiscoveryDomain) (formerNames : List Ledger.FormerName)
  | markEarlierExports (domain : DiscoveryDomain) (formerNames : List Ledger.FormerName)
  | clearEarlierExport (domain : DiscoveryDomain) (naturalKeyHash : String)

namespace LedgerOp

/-- What a call resolves to. -/
abbrev Reply : LedgerOp → Type
  | find .. => Option LedgerRecord
  | findMany .. => List (String × LedgerRecord)
  | findBySourceRef .. => Option LedgerRecord
  | placedItems .. => List Ledger.PlacedItem
  | listMoves .. => List Ledger.ItemMove
  | listDeletions .. => List Ledger.ItemDeletion
  | recordIfAbsent .. => LedgerRecord
  | recordUpdate .. => LedgerRecord
  | recordFailure .. => LedgerRecord
  | resolveFailure .. => Bool
  | resolveFailureGroup .. => Nat
  | resolveMove .. => Bool
  | recordAbsent .. => Nat
  | recordReportedDeletion .. => Bool
  | recordTrashedDeletion .. => Bool
  | resolveDeletion .. => Bool
  | applyDeletion .. => Bool
  | applyRelocation .. => Bool
  | supersedeFormerNames .. => List (String × String)
  | markEarlierExports .. => List (String × String)
  | recordMove .. => Unit
  | clearMove .. => Unit
  | clearAbsent .. => Unit
  | clearEarlierExport .. => Unit

/-- One call: what it answers, or the message it rejects with, and the rows it
leaves. -/
def run (h : Host) : (o : LedgerOp) → Ledger → Except String o.Reply × Ledger
  | find d k, l => (.ok (l.find d k), l)
  | findMany d ks, l => (.ok (l.findMany d ks), l)
  | findBySourceRef d ref, l => (.ok (l.findBySourceRef d ref), l)
  | placedItems d, l => (.ok (l.placedItems d), l)
  | listMoves d, l => (.ok (l.listMoves d), l)
  | listDeletions d, l => (.ok (l.listDeletions d), l)
  | recordIfAbsent r, l => l.recordIfAbsent r
  | recordUpdate r, l => l.recordUpdate r
  | recordFailure r e o, l =>
      l.recordFailure h.now (classifyFailure h.rules e o.side o.category) r e o.park
  | resolveFailure k a, l => ok (l.resolveFailure k a)
  | resolveFailureGroup a m, l => ok (l.resolveFailureGroup a m)
  | recordMove d k c toKey p, l => (.ok (), l.recordMove h.now d k c toKey p)
  | clearMove d k, l => (.ok (), l.clearMove d k)
  | resolveMove k a, l => ok (l.resolveMove h.now k a)
  | recordAbsent d k, l => ok (l.recordAbsent d k)
  | recordReportedDeletion d k, l => ok (l.recordReportedDeletion h.now d k)
  | recordTrashedDeletion d k, l => ok (l.recordTrashedDeletion h.now d k)
  | clearAbsent d k, l => (.ok (), l.clearAbsent d k)
  | resolveDeletion k a, l => ok (l.resolveDeletion h.now k a)
  | applyDeletion d k, l => ok (l.applyDeletion h.now d k)
  | applyRelocation d k, l => ok (l.applyRelocation h.now d k)
  | supersedeFormerNames d ns, l => ok (l.supersedeFormerNames h.now d ns)
  | markEarlierExports d ns, l => ok (l.markEarlierExports h.now d ns)
  | clearEarlierExport d k, l => (.ok (), l.clearEarlierExport d k)
where
  ok {α : Type} : α × Ledger → Except String α × Ledger := fun p => (.ok p.1, p.2)

/-- Does this call only read? -/
def reads : LedgerOp → Bool
  | find .. | findMany .. | findBySourceRef .. | placedItems .. | listMoves ..
  | listDeletions .. => true
  | _ => false

theorem run_of_reads {h : Host} {o : LedgerOp} {l : Ledger} (ho : o.reads = true) :
    (o.run h l).2 = l := by
  cases o <;> first | rfl | cases ho

end LedgerOp

end Ownpace
