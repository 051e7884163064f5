/-
Ownpace/Sync/Pass.lean

One pass over every collection: `runDomainSync`.

The pass lists the collections, takes each one up in turn (`syncCollection`),
and then concludes (`conclude`): the removals the source reported, the owner's
bin, the names documents no longer have, and, for files, what was moved or is
missing.  A conclusion is drawn only where every collection that could
contradict it was read to its end.

The items of one collection run concurrently.  To the pass they are a single
call, `mapItems`; `Effects` gives it its meaning, a run of the pool of their
tasks.
-/
import Ownpace.Await.Pool
import Ownpace.Sync.Item

namespace Ownpace.Sync

open Await Ownpace

variable {Item Raw Folder τ : Type}
variable (deps : DomainSyncDeps Item Raw Folder)

def readVars : Pass Item Raw Folder τ (Vars Item) := onVars fun v => (v, v)

/-! ### Conclusions -/

/-- `resolveReportedRemovals`, over the removals each once. -/
def resolveReported (seen : Vars Item) (done : List String) :
    List String → Pass Item Raw Folder τ (List ReportedDeletion)
  | [] => return []
  | href :: rest => do
    match ← askLedger (.findBySourceRef deps.domain href) with
    | none => resolveReported seen done rest
    | some row =>
      let key := row.naturalKeyHash
      if !isOnTarget row.status || seen.seenAnywhere key || done.contains key then
        resolveReported seen done rest
      else do
        let recorded ← askLedger (.recordReportedDeletion deps.domain key)
        let out ← resolveReported seen (key :: done) rest
        return if recorded && row.deletionAcknowledgedAt.isNone
          then ⟨deps.domain, key, row.collection.getD "", row.absentPasses.getD 0, .reported⟩ :: out
          else out

/-- `resolveDiscardedItems`, over the keys each once. -/
def resolveDiscarded (seen : Vars Item) :
    List String → Pass Item Raw Folder τ (List ReportedDeletion)
  | [] => return []
  | key :: rest =>
    if seen.seenAnywhere key then resolveDiscarded seen rest
    else do
      match ← askLedger (.find deps.domain key) with
      | none => resolveDiscarded seen rest
      | some row =>
        if !isOnTarget row.status then resolveDiscarded seen rest
        else do
          let recorded ← askLedger (.recordTrashedDeletion deps.domain key)
          let out ← resolveDiscarded seen rest
          return if recorded && row.deletionAcknowledgedAt.isNone
            then ⟨deps.domain, key, row.collection.getD "", row.absentPasses.getD 0, .trashed⟩ :: out
            else out

/-- What `detectPathKeyedMoves` found. -/
structure Found where
  moves : List ReportedMove := []
  deletions : List ReportedDeletion := []
  drift : Nat := 0

def Found.and (a b : Found) : Found :=
  ⟨a.moves ++ b.moves, a.deletions ++ b.deletions, a.drift + b.drift⟩

/-- Another name the same document is listed under, with a row of its own. -/
def sameDocument (seen : Vars Item) (placed : List Ledger.PlacedItem)
    (row : Ledger.PlacedItem) : Option ListedName :=
  row.sourceRef.bind fun ref => seen.listedByIdentity.find? fun name =>
    name.identity = ref && placed.any fun p => p.naturalKeyHash = name.naturalKeyHash

/-- `arrivals.get(row.contentHash)` -/
def isArrival (row : Ledger.PlacedItem) (c : CreatedItem) : Bool :=
  row.contentHash ≠ "" && c.contentHash = row.contentHash

/-- A placed row that was seen where it is recorded. -/
def clearMarks (row : Ledger.PlacedItem) : Pass Item Raw Folder τ Unit := do
  doIf row.movedToCollection.isSome (askLedger (.clearMove deps.domain row.naturalKeyHash))
  doIf (0 < row.absentPasses) (askLedger (.clearAbsent deps.domain row.naturalKeyHash))
  doIf row.supersededByNaturalKeyHash.isSome
    (askLedger (.clearEarlierExport deps.domain row.naturalKeyHash))

def reportMove (row : Ledger.PlacedItem) (destination : String)
    (toNaturalKeyHash : Option String) : Found where
  moves := [⟨deps.domain, row.naturalKeyHash, row.collection, destination, toNaturalKeyHash⟩]

/-- A placed row that was seen nowhere: moved, or absent. -/
def missingRow (seen : Vars Item) (placed : List Ledger.PlacedItem)
    (arrivals : List CreatedItem) (row : Ledger.PlacedItem) :
    Pass Item Raw Folder τ (Found × List CreatedItem) :=
  let key := row.naturalKeyHash
  match sameDocument seen placed row with
  | some name => do
    let sameBytes := row.contentHash ≠ "" &&
      (placed.find? fun p => p.naturalKeyHash = name.naturalKeyHash).any
        fun p => p.contentHash = row.contentHash
    askLedger (.recordMove deps.domain key name.collection (some name.naturalKeyHash)
      (if sameBytes then .content else .identity))
    askLedger (.clearAbsent deps.domain key)
    return (reportMove deps row name.collection (some name.naturalKeyHash), arrivals)
  | none =>
    match arrivals.find? (isArrival row) with
    | some c => do
      askLedger (.recordMove deps.domain key c.collection (some c.naturalKeyHash) .content)
      return (reportMove deps row c.collection (some c.naturalKeyHash),
        arrivals.eraseP (isArrival row))
    | none => do
      let absent ← askLedger (.recordAbsent deps.domain key)
      let deletions := if DELETION_CONFIRMATIONS ≤ absent && row.deletionAcknowledgedAt.isNone
        then [⟨deps.domain, key, row.collection, absent, .inferred⟩] else []
      return ({ drift := 1, deletions := deletions }, arrivals)

def detectRow (seen : Vars Item) (placed : List Ledger.PlacedItem)
    (arrivals : List CreatedItem) (row : Ledger.PlacedItem) :
    Pass Item Raw Folder τ (Found × List CreatedItem) :=
  if row.deletionAppliedAt.isSome then return ({}, arrivals)
  else if seen.seen row.collection row.naturalKeyHash then do
    clearMarks deps row
    return ({}, arrivals)
  else if row.collection ∈ seen.unfinishedCollections ∨
      row.naturalKeyHash ∈ seen.movedByTheLoop ∨ row.supersededByNaturalKeyHash.isSome then
    return ({}, arrivals)
  else match row.movedToCollection with
    | some destination =>
      -- still open: reported again, and not counted missing
      return (if row.moveAcknowledgedAt.isNone
        then reportMove deps row destination row.movedToNaturalKeyHash else {}, arrivals)
    | none => missingRow deps seen placed arrivals row

def detectRows (seen : Vars Item) (placed : List Ledger.PlacedItem) :
    List CreatedItem → List Ledger.PlacedItem → Pass Item Raw Folder τ Found
  | _, [] => return {}
  | arrivals, row :: rest => do
    let (found, arrivals) ← detectRow deps seen placed arrivals row
    return found.and (← detectRows seen placed arrivals rest)

def detectPathKeyedMoves (seen : Vars Item) : Pass Item Raw Folder τ Found := do
  let arrivals := seen.createdThisPass.filter fun c =>
    c.identity.isNone && c.contentHash ≠ ""
  let placed ← askLedger (.placedItems deps.domain)
  detectRows deps seen placed arrivals placed

/-! ### One collection -/

def ABORT_AFTER_CONSECUTIVE_UNREAD_COLLECTIONS : Nat := 3

/-- `ENDS_THE_PASS_AT_ONCE` -/
def endsThePassAtOnce : FailureCategory → Bool
  | .authExpired | .rateLimited | .quotaExceeded => true
  | _ => false

/-- A collection that could not be listed. -/
def leaveUnread (folder : Folder) (err : Err) : Pass Item Raw Folder τ Unit := do
  let path := deps.collectionPathOf folder
  let category := classifyFailure deps.rules err.message (some .source) err.category
  if endsThePassAtOnce category then Prog.throw err
  else do
    let inARow ← onVars fun v => ({ v with unreadInARow := v.unreadInARow + 1 }, v.unreadInARow + 1)
    if ABORT_AFTER_CONSECUTIVE_UNREAD_COLLECTIONS ≤ inARow then Prog.throw err
    else do
      modifyVars fun v => { v with firstUnreadError := v.firstUnreadError <|> some err }
      let reference ← ask (.recordAppEvent ("sync." ++ deps.domain.text ++ ".collection-unread"))
      let name := if deps.domain = .email ∨ deps.domain = .file then path
        else (deps.folderName folder).getD path
      modifyVars fun v =>
        { v with
          unreadCollections :=
            v.unreadCollections ++ [⟨path, name, err.message, category, reference⟩]
          unfinishedCollections := path :: v.unfinishedCollections }

/-- What is noted of a listing; its number, and how many items were held at
the ceiling before it. -/
def beginVisit (path : String) (listing : Listing Item) (v : Vars Item) :
    Vars Item × (Nat × Nat) :=
  ({ v with
      unreadInARow := 0
      listedOne := true
      reportedRemovals := if deps.sourceIsAuthorityOnExistence
        then v.reportedRemovals ++ listing.removed else v.reportedRemovals
      listed := v.listed ++ [⟨path, listing.items, listing.nextCursor⟩] },
    (v.listed.length, v.heldAtCeiling))

/-- The keys of the whole collection, where the source can state them. -/
def enumerateKeys (folder : Folder) (prev : Option String) : Pass Item Raw Folder τ Unit :=
  let path := deps.collectionPathOf folder
  if deps.listCollectionKeys then do
    match ← (ask (.listCollectionKeys folder)).attempt with
    | .ok keys =>
      modifyVars fun v =>
        { v with seenByCollection := keys.map (fun key => (path, key)) ++ v.seenByCollection }
    | .error _ =>
      modifyVars fun v => { v with fullyEnumerated := false }
      let _ ← ask (.recordAppEvent ("sync." ++ deps.domain.text ++ ".keys-unreadable"))
      return ()
  else if prev.isSome then modifyVars fun v => { v with fullyEnumerated := false }
  else return ()

/-- A first read that answered nothing at all. -/
def firstReadSawNothing (prev : Option String) (listing : Listing Item) : Bool :=
  prev.isNone && listing.items.isEmpty && listing.removed.isEmpty && listing.listedElsewhere = 0

/-- May this collection's cursor move on? -/
def mayAdvance (prev : Option String) (listing : Listing Item) (heldBefore : Nat)
    (v : Vars Item) : Bool :=
  deps.cursors && !v.retryablePending && !v.paused && !firstReadSawNothing prev listing &&
    v.heldAtCeiling ≤ heldBefore

/-- The cursor of a collection whose items have all left: set now, held until
the removals are read, or left where it is. -/
def decideCursor (path : String) (prev : Option String) (listing : Listing Item)
    (heldBefore : Nat) : Pass Item Raw Folder τ Unit := do
  let advances ← onVars fun v =>
    if mayAdvance deps prev listing heldBefore v then
      if deps.sourceIsAuthorityOnExistence && !listing.removed.isEmpty then
        ({ v with
            cursorsHeldForRemovals := v.cursorsHeldForRemovals ++ [(path, listing.nextCursor)] },
          false)
      else (v, true)
    else (v, false)
  doIf advances (ask (.cursorSet path listing.nextCursor))

/-- A listed collection. -/
def readCollection (folder : Folder) (prev : Option String) (listing : Listing Item) :
    Pass Item Raw Folder τ Unit := do
  let path := deps.collectionPathOf folder
  let (visit, heldBefore) ← onVars (beginVisit deps path listing)
  enumerateKeys deps folder prev
  ask (.mapItems visit folder listing.items)
  decideCursor deps path prev listing heldBefore

/-- The promises of a collection are its own. -/
def openCollection (v : Vars Item) : Vars Item :=
  { v with targetCollection := none, window := none, windows := [] }

def storedCursor (path : String) : Pass Item Raw Folder τ (Option String) :=
  if deps.cursors then ask (.cursorGet path) else return none

def syncCollection (folder : Folder) : Pass Item Raw Folder τ Unit := do
  let path := deps.collectionPathOf folder
  if ← stopTakingNewWork deps then
    modifyVars fun v =>
      { v with
        collectionsNotReached := v.collectionsNotReached + 1
        unfinishedCollections := path :: v.unfinishedCollections }
  else
    let prev ← storedCursor deps path
    modifyVars openCollection
    doIf prev.isNone do
      let _ ← collectionIdOf folder
      return ()
    match ← (ask (.listSince folder prev)).attempt with
    | .error err => leaveUnread deps folder err
    | .ok listing => readCollection deps folder prev listing

def syncCollections : List Folder → Pass Item Raw Folder τ Unit
  | [] => return ()
  | folder :: rest => do
    syncCollection deps folder
    syncCollections rest

/-! ### The end of the pass -/

/-- `!listedNothing && unfinishedCollections.size === 0` -/
def reachedEvery (listedNothing : Bool) (v : Vars Item) : Bool :=
  !listedNothing && v.unfinishedCollections.isEmpty

def setCursors : List (String × String) → Pass Item Raw Folder τ Unit
  | [] => return ()
  | (path, cursor) :: rest => do
    ask (.cursorSet path cursor)
    setCursors rest

/-- The removals the source reported. -/
def concludeReported (v : Vars Item) : Pass Item Raw Folder τ Unit := do
  let found ← resolveReported deps v [] v.reportedRemovals.eraseDups
  modifyVars fun v => { v with deletions := v.deletions ++ found }

/-- The removals, and then the cursors that waited for them. -/
def concludeRemovals (stillDecides : Bool) : Pass Item Raw Folder τ Unit := do
  let v ← readVars
  doIf (stillDecides && !v.reportedRemovals.isEmpty) (concludeReported deps v)
  doIf deps.cursors (setCursors v.cursorsHeldForRemovals)

/-- What was found in the owner's bin. -/
def concludeDiscarded (discarded : DiscardedListing) : Pass Item Raw Folder τ Unit := do
  let v ← onVars fun v =>
    (if 0 < discarded.unnameable then
      { v with unplaceableDiscards := some (discarded.unnameable, discarded.reason) }
    else v, v)
  let found ← resolveDiscarded deps v discarded.keys.eraseDups
  modifyVars fun v => { v with deletions := v.deletions ++ found }

/-- Was the pass told to stop after its last item? -/
def toldToStop : Pass Item Raw Folder τ (Option PassStopReason) :=
  if deps.whyItStops then ask .whyItStops else return none

/-- The owner's bin, unless the pass was told to stop meanwhile. -/
def concludeBin : Pass Item Raw Folder τ Unit := do
  if (← toldToStop deps).isSome then return ()
  else
    match ← (ask .listDiscardedKeys).attempt with
    | .error _ =>
      let _ ← ask (.recordAppEvent ("sync." ++ deps.domain.text ++ ".bin-unreadable"))
      return ()
    | .ok discarded => concludeDiscarded deps discarded

/-- The names the export policy no longer gives. -/
def concludeFormerNames : Pass Item Raw Folder τ Unit := do
  let v ← readVars
  let unlisted := v.formerNames.filter fun f => !v.seenAnywhere f.formerNaturalKeyHash
  if unlisted.isEmpty then return ()
  else do
    let closed ← askLedger (.supersedeFormerNames deps.domain unlisted)
    modifyVars fun v => { v with superseded := closed.length }
    let marked ← askLedger (.markEarlierExports deps.domain unlisted)
    modifyVars fun v => { v with earlierExports := marked.length }

/-- What was moved, or is missing. -/
def concludeMoves : Pass Item Raw Folder τ Unit := do
  let v ← readVars
  let found ← detectPathKeyedMoves deps v
  modifyVars fun v =>
    { v with
      moved := v.moved + found.moves.length
      moves := v.moves ++ found.moves
      deletions := v.deletions ++ found.deletions
      drift := v.drift + found.drift }

def evidenceRank : Ledger.DeletionEvidence → Nat
  | .reported => 3
  | .trashed => 2
  | .inferred => 1

/-- One entry for each item: the stronger word, and the larger count. -/
def stronger (held d : ReportedDeletion) : ReportedDeletion :=
  let winner := if evidenceRank held.evidence < evidenceRank d.evidence then d else held
  { winner with absentPasses := max d.absentPasses held.absentPasses }

def strongest (deletions : List ReportedDeletion) : List ReportedDeletion :=
  deletions.foldl (fun out d =>
    if out.any fun held => held.naturalKeyHash = d.naturalKeyHash then
      out.map fun held => if held.naturalKeyHash = d.naturalKeyHash then stronger held d else held
    else out ++ [d]) []

/-- `DomainSyncResult`: the variables of the pass, as it ends with them. -/
structure DomainSyncResult (Item : Type) where
  collectionsListed : Nat
  deletions : List ReportedDeletion
  vars : Vars Item

/-- Does the source still decide what exists, at the end of the pass? -/
def askStillDecides : Pass Item Raw Folder τ Bool :=
  if deps.sourceIsAuthorityOnExistence then ask .stillTheAuthority else return false

def conclude (listedNothing : Bool) : Pass Item Raw Folder τ Unit := do
  let v ← readVars
  if !v.unreadCollections.isEmpty && !v.listedOne then
    Prog.throw (v.firstUnreadError.getD { message := "" })
  else
    let stillDecides ← askStillDecides deps
    doIf (reachedEvery listedNothing v) (concludeRemovals deps stillDecides)
    doIf (stillDecides && deps.listDiscardedKeys && reachedEvery listedNothing v)
      (concludeBin deps)
    doIf (v.fullyEnumerated && reachedEvery listedNothing v) (concludeFormerNames deps)
    doIf (deps.domain = .file && v.fullyEnumerated && stillDecides) (concludeMoves deps)

def checkBudget : Pass Item Raw Folder τ Unit :=
  match deps.downloadMeter with
  | none => return ()
  | some provider => do
    let budget ← ask .budgetState
    modifyVars fun v => if budget.remainingBytes ≤ 0 then pauseNow provider budget v else v

/-- `stopIfPastDeadline(); if (!paused()) await stopIfToldTo()`, up to the call. -/
def openingGate (deadlineAt haltAt : Nat) (v : Vars Item) : Vars Item × Gate :=
  let v := (stopIfPastDeadline deps deadlineAt v).1
  if v.paused then (v, .stop) else stopIfToldTo deps haltAt v

/-- The stops that are known before anything is listed. -/
def opening : Pass Item Raw Folder τ Unit := do
  let startedAt ← ask .now
  modifyVars fun v => { v with startedAtMs := startedAt, fullyEnumerated := !deps.snapshot }
  checkBudget deps
  let deadlineAt ← ask .now
  let haltAt ← ask .now
  let answer ← onVars (openingGate deps deadlineAt haltAt)
  let _ ← passGate haltAt answer
  return ()

def runDomainSync : Pass Item Raw Folder τ (DomainSyncResult Item) := do
  opening deps
  let listedNothing ← onVars fun v => (v, v.paused)
  if listedNothing then
    modifyVars fun v => { v with fullyEnumerated := false }
    conclude deps true
    let v ← readVars
    return ⟨0, strongest v.deletions, v⟩
  else
    let folders ← ask .listFolders
    syncCollections deps folders
    conclude deps false
    let v ← readVars
    return ⟨folders.length, strongest v.deletions, v⟩

/-! ### Runs -/

/-- The tasks of one listing. -/
def workers (visit : Nat) (folder : Folder) (items : List Item) :
    List (Pass Item Raw Folder τ Unit) :=
  items.mapIdx (worker deps visit folder items)

/-- What a call of the pass does: `mapItems` runs the tasks of the listing, the
other calls are calls to the outside. -/
def Effects (out : Outside Item Raw Folder τ) (s : PassState Item Raw Folder τ) :
    (o : SyncOp Item Raw Folder) → o.Ans → PassState Item Raw Folder τ → Prop
  | .mapItems visit folder items, a, s' =>
      ∃ pl, Pool.Reaches out.Effects deps.concurrency (workers deps visit folder items) s pl s' ∧
        pl.Joined ∧ a = pl.result
  | o, a, s' => out.Effects s o a s'

/-- A run of the pass, nobody else writing. -/
abbrev PassRun (out : Outside Item Raw Folder τ) (s₀ : PassState Item Raw Folder τ) :=
  Prog.Run (fun _ _ => False) (Effects deps out) (runDomainSync deps) s₀

/-- The calls a pass is about to make, and the state it makes them in: its own,
and those of its tasks. -/
inductive Issues (out : Outside Item Raw Folder τ) (s₀ : PassState Item Raw Folder τ) :
    PassState Item Raw Folder τ → SyncOp Item Raw Folder → Prop
  | pass {o k h s} : PassRun deps out s₀ (.call o k) h s → Issues out s₀ s o
  | item {visit folder items k h s₁ pl s t o k'} :
      PassRun deps out s₀ (.call (.mapItems visit folder items) k) h s₁ →
      Pool.Reaches out.Effects deps.concurrency (workers deps visit folder items) s₁ pl s →
      t ∈ pl.started → t.prog = .call o k' → Issues out s₀ s o

end Ownpace.Sync
