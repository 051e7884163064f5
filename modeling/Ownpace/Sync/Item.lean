/-
Ownpace/Sync/Item.lean

What happens to one item of a listing.

`itemTask` is the body of the source's `mapWithConcurrency` call: the gate
that takes no new work once the pass is stopping, the look at the row, and the
attempt to fetch and write, whose thrown error `itemFailed` turns into a
recorded failure.  A piece of code between two awaits that reads a variable
and acts on it is one step (`onVars`).

The attempt runs inside a `try` whose `catch` reads four of its local
variables; `Failed` carries them along with the error.
-/
import Ownpace.Sync.State

namespace Ownpace.Sync

open Await Ownpace

variable {Item Raw Folder τ : Type}

/-- A program of a pass. -/
abbrev Pass (Item Raw Folder τ α : Type) : Type :=
  Prog (PassState Item Raw Folder τ) (SyncOp Item Raw Folder) SyncOp.Ans Err α

/-- Await a call; a rejection is thrown, marked with its side. -/
def ask (o : SyncOp Item Raw Folder) : Pass Item Raw Folder τ o.Reply :=
  Prog.awaitWith (Err.sided o.side) o

/-- Await a call to the ledger. -/
def askLedger (o : LedgerOp) : Pass Item Raw Folder τ o.Reply := ask (.ledger o)

/-- Read and rewrite the variables of the pass, in one step. -/
def onVars {ε β : Type} (f : Vars Item → Vars Item × β) :
    Prog (PassState Item Raw Folder τ) (SyncOp Item Raw Folder) SyncOp.Ans ε β :=
  .sync (fun s => { s with vars := (f s.vars).1 }) fun s => .ret (f s.vars).2

def modifyVars {ε : Type} (f : Vars Item → Vars Item) :
    Prog (PassState Item Raw Folder τ) (SyncOp Item Raw Folder) SyncOp.Ans ε Unit :=
  onVars fun v => (f v, ())

/-- `if (condition) await p` -/
def doIf (condition : Bool) (p : Pass Item Raw Folder τ Unit) : Pass Item Raw Folder τ Unit :=
  if condition then p else Prog.ret ()

/-! ### The gate -/

def PASS_REREAD_EVERY_MS : Nat := 15000

variable (deps : DomainSyncDeps Item Raw Folder)

def pauseNow (provider : String) (budget : ByteBudgetState) (v : Vars Item) : Vars Item :=
  if v.budgetPause.isSome then v
  else { v with
    budgetPause :=
      some ⟨provider, budget.ceilingBytes, budget.spentBytes, budget.windowResetsAt⟩ }

def stopIfPastDeadline (clock : Nat) (v : Vars Item) : Vars Item × Bool :=
  match v.deadlinePause, deps.deadline with
  | none, some deadline =>
    if clock < deadline then (v, false)
    else ({ v with deadlinePause := some ⟨deadline, clock - v.startedAtMs⟩ }, true)
  | _, _ => (v, false)

/-- What the gate says: stop, go on, or first await the promise of this
number, which this task itself has to settle (`ask`) or another one will. -/
inductive Gate : Type
  | stop | go
  | wait (promise : Nat)
  | ask (promise : Nat)
  deriving DecidableEq

/-- `stopIfToldTo`, up to its own call. -/
def stopIfToldTo (clock : Nat) (v : Vars Item) : Vars Item × Gate :=
  if v.haltPause.isSome || !deps.whyItStops then (v, .go)
  else match v.asking with
    | some promise => (v, .wait promise)
    | none =>
      if v.lastAskedAt.any fun last => clock - last < PASS_REREAD_EVERY_MS then (v, .go)
      else ({ v with lastAskedAt := some clock, asking := some v.askings.length },
        .ask v.askings.length)

/-- `paused() || stopIfPastDeadline() || stopIfToldTo()`, up to the call. -/
def gate (deadlineAt haltAt : Nat) (v : Vars Item) : Vars Item × Gate :=
  if v.paused then (v, .stop)
  else match stopIfPastDeadline deps deadlineAt v with
    | (v, true) => (v, .stop)
    | (v, false) => stopIfToldTo deps haltAt v

def settleAsking (promise : Nat) (answer : Except Err Bool) (v : Vars Item) : Vars Item :=
  { v with asking := none, askings := (promise, answer) :: v.askings }

/-- The call inside the shared promise of `stopIfToldTo`. -/
def askWhyItStops (promise clock : Nat) : Pass Item Raw Folder τ Bool := do
  match ← (ask .whyItStops).attempt with
  | .error e =>
    modifyVars (settleAsking promise (.error e))
    Prog.throw e
  | .ok none =>
    modifyVars (settleAsking promise (.ok false))
    return false
  | .ok (some reason) =>
    modifyVars fun v => settleAsking promise (.ok true)
      { v with haltPause := some ⟨reason, clock, clock - v.startedAtMs⟩ }
    return true

/-- What a gate's answer comes to. -/
def passGate (clock : Nat) : Gate → Pass Item Raw Folder τ Bool
  | .stop => return true
  | .go => return false
  | .wait promise => ask (.awaitAsking promise)
  | .ask promise => askWhyItStops promise clock

def stopTakingNewWork : Pass Item Raw Folder τ Bool := do
  let deadlineAt ← ask .now
  let haltAt ← ask .now
  passGate haltAt (← onVars (gate deps deadlineAt haltAt))

/-! ### What the ledger knows -/

/-- Rows asked for at once, ahead of the items. -/
def LEDGER_READ_AHEAD : Nat := 500

inductive Ahead : Type
  | load | wait | older
  deriving DecidableEq

def openWindow (window : Nat) (v : Vars Item) : Vars Item × Ahead :=
  if v.window.all fun current => current < window then
    ({ v with window := some window }, .load)
  else if v.window = some window then (v, .wait)
  else (v, .older)

/-- The keys of one window of the listing. -/
def windowKeys (items : List Item) (window : Nat) : List String :=
  ((items.drop (window * LEDGER_READ_AHEAD)).take LEDGER_READ_AHEAD).filterMap deps.naturalKey

/-- `ledgerReadAhead(...).get`, in the window of the item. -/
def readWindow (items : List Item) (window : Nat) (key : String) :
    Pass Item Raw Folder τ (Option LedgerRecord) := do
  match ← onVars (openWindow window) with
  | .load =>
    -- a read that rejects only costs the shortcut
    let rows ← (ask (.ledger (.findMany deps.domain (windowKeys deps items window)))).attempt
    modifyVars fun v => { v with windows := (window, rows.toOption) :: v.windows }
    return rows.toOption.bind fun rows => rows.lookup key
  | .wait =>
    let rows ← ask (.awaitRows window)
    return rows.bind fun rows => rows.lookup key
  | .older => return none

def readAhead (items : List Item) (index : Nat) (key : String) :
    Pass Item Raw Folder τ (Option LedgerRecord) :=
  readWindow deps items (index / LEDGER_READ_AHEAD) key

/-- How an item is left whose row answers for it, in the counters. -/
def leaveAs (key : String) (known : LedgerRecord) (action : KnownItemAction)
    (v : Vars Item) : Vars Item :=
  match action with
  | .skip | .recordVersion | .moved => { v with skipped := v.skipped + 1 }
  | .leaveAdopted => { v with changedButAdopted := v.changedButAdopted + 1 }
  | .rewrite => { v with changedAfterCutover := v.changedAfterCutover + 1 }
  | .leftBehind => { v with leftBehind := v.leftBehind + 1 }
  | .tombstoned => { v with reappearedAfterRemoval := v.reappearedAfterRemoval + 1 }
  | .needsDecision =>
    { v with
      needsDecision := v.needsDecision + 1
      failures := v.failures ++ [{
        domain := deps.domain
        naturalKeyHash := key
        attempts := known.attemptCount.getD MAX_ITEM_ATTEMPTS
        lastError := known.lastError.getD "(no error recorded)"
        needsDecision := true }] }
  | .retryFailed | .relocatedAway => v

/-- What is left to do about an item: nothing, or to write it. -/
inductive Verdict : Type
  | leave (exit : Exit)
  | write (hasExistingRow : Bool) (rewriteOf : Option LedgerRecord)

def leave (key : String) (known : LedgerRecord) (action : KnownItemAction) :
    Pass Item Raw Folder τ Verdict := do
  modifyVars (leaveAs deps key known action)
  return .leave (.known key action)

/-- The item is listed in another collection than the one recorded. -/
def leaveMoved (path key : String) (known : LedgerRecord) : Pass Item Raw Folder τ Verdict := do
  modifyVars fun v => { v with movedByTheLoop := key :: v.movedByTheLoop }
  if decided known path none then return .leave (.known key .moved)
  else do
    askLedger (.recordMove deps.domain key path none .content)
    modifyVars fun v =>
      { v with
        moved := v.moved + 1
        moves := v.moves ++ [{
          domain := deps.domain
          naturalKeyHash := key
          fromCollection := known.collection.getD ""
          toCollection := path }] }
    return .leave (.known key .moved)

/-- What an action other than `moved` leaves to do. -/
def actOn (key : String) (version : Option String) (known : LedgerRecord)
    (action : KnownItemAction) : Pass Item Raw Folder τ Verdict :=
  match action with
  | .recordVersion => do
    let _ ← askLedger (.recordUpdate { known with sourceVersion := version })
    leave deps key known .recordVersion
  | .rewrite =>
    if deps.sourceIsAuthorityOnExistence then return .write true (some known)
    else leave deps key known .rewrite
  | .retryFailed | .relocatedAway => return .write true none
  | action => leave deps key known action

/-- The row of a listed item, and what it leaves to do. -/
def actOnKnown (path key : String) (version : Option String) (known : LedgerRecord) :
    Pass Item Raw Folder τ Verdict := do
  doIf (hasEvidence known) (askLedger (.clearAbsent deps.domain key))
  let action := classifyKnownItem known version path
  if action = .moved then leaveMoved deps path key known
  else do
    doIf known.movedToCollection.isSome (askLedger (.clearMove deps.domain key))
    actOn deps key version known action

def lookUp (path key : String) (version : Option String) : Pass Item Raw Folder τ Verdict := do
  match ← askLedger (.find deps.domain key) with
  | none => return .write false none
  | some known => actOnKnown deps path key version known

/-! ### The attempt -/

/-- What the `catch` reads of the `try`. -/
structure Locals where
  naturalKeyHash : Option String
  naturalKeyPlain : Option String := none
  itemName : Option String := none
  ch : String := ""
  deriving DecidableEq

structure Failed where
  err : Err
  locals : Locals

abbrev Attempt (Item Raw Folder τ α : Type) : Type :=
  Prog (PassState Item Raw Folder τ) (SyncOp Item Raw Folder) SyncOp.Ans Failed α

/-- A program inside the `try`, the local variables being these. -/
def within {α : Type} (locals : Locals) (p : Pass Item Raw Folder τ α) :
    Attempt Item Raw Folder τ α :=
  p.mapError fun e => ⟨e, locals⟩

/-- The ceiling on first copies. -/
def holdAtCeiling (firstCopy : Bool) : Pass Item Raw Folder τ Bool :=
  onVars fun v =>
    if firstCopy && deps.firstCopyAllowed.any fun allowed => !allowed v.firstCopyBytes
    then ({ v with heldAtCeiling := v.heldAtCeiling + 1 }, true)
    else (v, false)

/-- The download meter, before each fetch. -/
def outOfBudget : Pass Item Raw Folder τ Bool :=
  match deps.downloadMeter with
  | none => return false
  | some provider => do
    let budget ← ask .budgetState
    onVars fun v =>
      if budget.remainingBytes ≤ 0
      then ({ pauseNow provider budget v with scanned := v.scanned - 1 }, true)
      else (v, false)

/-- `targetCollection ??= ensureCollection(folder)` -/
def collectionIdOf (folder : Folder) : Pass Item Raw Folder τ String := do
  let first ← onVars fun v =>
    if v.targetCollection.isNone then ({ v with targetCollection := some none }, true)
    else (v, false)
  if first then
    let answer ← (ask (.ensureCollection folder)).attempt
    modifyVars fun v => { v with targetCollection := some (some answer) }
    Prog.ofExcept answer
  else ask .awaitCollection

/-- The first earlier key that has a row. -/
def findLegacy : List (LegacyKey Raw) →
    Pass Item Raw Folder τ (Option (LegacyKey Raw × LedgerRecord))
  | [] => return none
  | legacy :: rest => do
    match ← askLedger (.find deps.domain legacy.naturalKeyHash) with
    | some row => return some (legacy, row)
    | none => findLegacy rest

/-- The first earlier key whose copy the target holds. -/
def findLegacyCopy (collectionId : String) : List (LegacyKey Raw) →
    Pass Item Raw Folder τ (Option (LegacyKey Raw))
  | [] => return none
  | legacy :: rest => do
    if ← ask (.legacyCopyOnTarget collectionId legacy) then return some legacy
    else findLegacyCopy collectionId rest

/-- The row of an item keyed by its bytes, and the earlier key it is kept
under, if it is. -/
def findUnderAnyKey (folder : Folder) (key : String) (earlier : List (LegacyKey Raw)) :
    Pass Item Raw Folder τ (Option LedgerRecord × Option (LegacyKey Raw)) := do
  match ← askLedger (.find deps.domain key) with
  | some row => return (some row, none)
  | none => do
    match ← findLegacy deps earlier with
    | some (legacy, row) => return (some row, some legacy)
    | none =>
      if deps.legacyCopyOnTarget && !earlier.isEmpty then
        let collectionId ← collectionIdOf folder
        return (none, ← findLegacyCopy collectionId earlier)
      else return (none, none)

/-- An item that is keyed by its bytes, once it is. -/
inductive Keyed (Raw : Type) : Type
  | leave (exit : Exit)
  | write (key : String) (locals : Locals) (raw : Raw) (hasExistingRow : Bool)

/-- What the row of an item keyed by its bytes leaves to do. -/
def actOnDerived (path key : String) (locals : Locals) (raw : Raw) :
    Option LedgerRecord → Pass Item Raw Folder τ (Keyed Raw)
  | none => return .write key locals raw false
  | some known =>
    let action := classifyKnownItem known none path
    if action = .retryFailed ∨ action = .relocatedAway then return .write key locals raw true
    else do
      modifyVars (leaveAs deps key known action)
      return .leave (.known key action)

def noKeyFromRaw : Err where
  message := "naturalKey returned undefined for a " ++ deps.domain.text ++
    " item but no naturalKeyFromRaw was supplied; refusing to write an item with no " ++
    "idempotency anchor."

/-- Key an item by its bytes, and look it up. -/
def keyFromBytes (folder : Folder) (item : Item) (locals : Locals) (raw : Raw) :
    Attempt Item Raw Folder τ (Keyed Raw) :=
  match deps.naturalKeyFromRaw with
  | none => Prog.throw ⟨noKeyFromRaw deps, locals⟩
  | some naturalKeyFromRaw => do
    let key ← Prog.ofExcept ((naturalKeyFromRaw item raw).mapError fun e => ⟨e, locals⟩)
    let locals := { locals with
      naturalKeyHash := some key
      naturalKeyPlain := deps.naturalKeyText item (some raw) <|> locals.naturalKeyPlain }
    let earlier ← Prog.ofExcept
      ((deps.legacyKeysFromRaw item raw).mapError fun e => ⟨e, locals⟩)
    -- which key it is kept under is open while one of several could not be asked
    let unsettled := if earlier.isEmpty then locals else { locals with naturalKeyHash := none }
    let (row, under) ← within unsettled (findUnderAnyKey deps folder key earlier)
    let path := deps.collectionPathOf folder
    match under with
    | none =>
      modifyVars fun v => { v with seenByCollection := (path, key) :: v.seenByCollection }
      within locals (actOnDerived deps path key locals raw row)
    | some legacy =>
      let locals := { locals with
        naturalKeyHash := some legacy.naturalKeyHash
        naturalKeyPlain := some legacy.naturalKey }
      modifyVars fun v =>
        { v with seenByCollection := (path, legacy.naturalKeyHash) :: v.seenByCollection }
      within locals (actOnDerived deps path legacy.naturalKeyHash locals legacy.raw row)

/-- `upsert`: what the writer does to the target, and the row it records. -/
def upsertItem (collectionId : String) (raw : Raw) (item : Item) (options : UpsertOptions) :
    Pass Item Raw Folder τ UpsertResult := do
  let result ← ask (.upsert collectionId raw item options)
  ask (.writerRecords raw item options result)
  return result

def upsertOptions (path : String) (item : Item) (rewriteOf : Option LedgerRecord) :
    UpsertOptions where
  overwrite := rewriteOf.isSome
  expectedTargetVersion := rewriteOf.bind LedgerRecord.targetVersion
  sourceVersion := deps.sourceVersion item
  collection := some path
  sourceRef := deps.sourceRef item

/-- The row of an item that was written. -/
def writtenRecord (path : String) (item : Item) (key : String) (locals : Locals)
    (sizeBytes : Nat) (result : UpsertResult) : LedgerRecord where
  itemType := deps.domain
  naturalKeyHash := key
  contentHash := locals.ch
  targetId := result.targetId
  sizeBytes := some sizeBytes
  status := some (if result.created then .copied else if result.adopted then .adopted
    else .updated)
  sourceVersion := deps.sourceVersion item
  targetVersion := result.targetVersion
  sourceRef := deps.sourceRef item
  naturalKey := locals.naturalKeyPlain
  displayName := locals.itemName
  collection := some path

/-- The counters, once an item is written and recorded. -/
def countWritten (path : String) (item : Item) (key ch : String) (sizeBytes : Nat)
    (isRewrite : Bool) (result : UpsertResult) (v : Vars Item) : Vars Item :=
  let v := { v with consecutiveFailures := 0 }
  if isRewrite then { v with updated := v.updated + 1 }
  else if result.created then
    { v with
      created := v.created + 1
      firstCopyBytes := v.firstCopyBytes + sizeBytes
      createdThisPass := v.createdThisPass ++ [{
        naturalKeyHash := key
        contentHash := ch
        collection := path
        identity := (deps.identity item).bind nonEmpty }] }
  else if result.adopted then { v with adopted := v.adopted + 1 }
  else { v with skipped := v.skipped + 1 }

def collisionError : Err :=
  passAbortError <|
    "Collision on the destination for a " ++ deps.domain.text ++
    " item, and onCollision is 'fail': the target already holds an item under this natural " ++
    "key. Re-run with onCollision: 'skip' to keep the destination's copy."

/-- A rewrite the target refused: somebody edited the copy there. -/
def leaveConflicted (key : String) (rewriteOf : Option LedgerRecord) (result : UpsertResult) :
    Pass Item Raw Folder τ Exit := do
  modifyVars fun v => { v with conflicted := v.conflicted + 1 }
  match rewriteOf with
  | none => Prog.throw { message := "a write that was no rewrite was answered as conflicted" }
  | some known =>
    let _ ← askLedger (.recordUpdate
      { known with status := some .adopted, targetId := result.targetId })
    return .conflicted key

def recordRow (hasExistingRow : Bool) (row : LedgerRecord) : Pass Item Raw Folder τ Unit :=
  if hasExistingRow then do
    let _ ← askLedger (.recordUpdate row)
    return ()
  else do
    let _ ← askLedger (.recordIfAbsent row)
    return ()

/-- Record a written item, and count it. -/
def recordWritten (path : String) (item : Item) (key : String) (locals : Locals)
    (sizeBytes : Nat) (hasExistingRow isRewrite : Bool) (result : UpsertResult) :
    Pass Item Raw Folder τ Exit := do
  recordRow hasExistingRow (writtenRecord deps path item key locals sizeBytes result)
  modifyVars (countWritten deps path item key locals.ch sizeBytes isRewrite result)
  if !isRewrite && !result.created && result.adopted && deps.failsOnCollision then
    Prog.throw (collisionError deps)
  else return .written key

/-- Write an item whose key is known. -/
def writeItem (folder : Folder) (item : Item) (key : String) (locals : Locals) (raw : Raw)
    (sizeBytes : Nat) (hasExistingRow : Bool) (rewriteOf : Option LedgerRecord) :
    Attempt Item Raw Folder τ Exit := do
  let ch ← Prog.ofExcept ((deps.contentHash raw).mapError fun e => ⟨e, locals⟩)
  let locals := { locals with ch := ch }
  let path := deps.collectionPathOf folder
  within locals do
    let collectionId ← collectionIdOf folder
    let result ← upsertItem collectionId raw item (upsertOptions deps path item rewriteOf)
    if result.conflicted then leaveConflicted key rewriteOf result
    else recordWritten deps path item key locals sizeBytes hasExistingRow rewriteOf.isSome result

/-- An item keyed by its bytes. -/
def writeDerived (folder : Folder) (item : Item) (locals : Locals) (fetched : Fetched Raw) :
    Attempt Item Raw Folder τ Exit := do
  match ← keyFromBytes deps folder item locals fetched.raw with
  | .leave exit => return exit
  | .write key locals raw hasExistingRow =>
    if ← within locals (holdAtCeiling deps true) then return .heldAtCeiling key
    else writeItem deps folder item key locals raw fetched.sizeBytes hasExistingRow none

/-- The body of the `try`, from the fetch on. -/
def fetchAndWrite (folder : Folder) (item : Item) (locals : Locals) (hasExistingRow : Bool)
    (rewriteOf : Option LedgerRecord) : Attempt Item Raw Folder τ Exit := do
  let fetched ← within locals (ask (.fetchRaw item))
  let locals := { locals with
    itemName := deps.displayName item (some fetched.raw) <|> locals.itemName }
  match locals.naturalKeyHash with
  | some key =>
    writeItem deps folder item key locals fetched.raw fetched.sizeBytes hasExistingRow rewriteOf
  | none => writeDerived deps folder item locals fetched

/-- The body of the `try`. -/
def itemBody (folder : Folder) (item : Item) (locals : Locals) (hasExistingRow : Bool)
    (rewriteOf : Option LedgerRecord) : Attempt Item Raw Folder τ Exit := do
  if ← within locals (holdAtCeiling deps (locals.naturalKeyHash.isSome && rewriteOf.isNone)) then
    return .heldAtCeiling (locals.naturalKeyHash.getD "")
  else if ← within locals (outOfBudget deps) then return .outOfBudget locals.naturalKeyHash
  else fetchAndWrite deps folder item locals hasExistingRow rewriteOf

/-! ### The failure -/

def ABORT_AFTER_CONSECUTIVE_FAILURES : Nat := 25

def abortError (consecutive : Nat) (reason : String) : Err :=
  passAbortError <|
    deps.domain.text ++ ": " ++ toString consecutive ++ " items failed in a row, so this is " ++
    "not an item-level problem — the pass is stopping instead of failing every remaining item " ++
    "the same way. Last error: " ++ reason

def abortKeylessError (consecutive : Nat) (reason : String) : Err :=
  passAbortError <|
    deps.domain.text ++ ": " ++ toString consecutive ++ " items failed in a row. Last error: " ++
    reason

/-- Count a failure; how many there now are in a row. -/
def countFailure (isDecision : Bool) (v : Vars Item) : Vars Item × Nat :=
  let consecutive := if isDecision then v.consecutiveFailures else v.consecutiveFailures + 1
  ({ v with failed := v.failed + 1, consecutiveFailures := consecutive }, consecutive)

/-- The record of a failed attempt. -/
def failureRecord (path : String) (item : Item) (key : String) (locals : Locals) :
    LedgerRecord where
  itemType := deps.domain
  naturalKeyHash := key
  naturalKey := locals.naturalKeyPlain
  displayName := locals.itemName
  collection := some path
  sourceRef := deps.sourceRef item
  contentHash := locals.ch
  targetId := ""
  sizeBytes := some 0
  status := some .failed

/-- Note a recorded failure; how many there now are in a row. -/
def noteFailure (key : String) (attempts : Nat) (reason : String) (parked : Bool)
    (v : Vars Item) : Vars Item × Nat :=
  ({ v with
      needsDecision := if parked then v.needsDecision + 1 else v.needsDecision
      failures := v.failures ++ [{
        domain := deps.domain
        naturalKeyHash := key
        attempts := attempts
        lastError := reason
        needsDecision := parked }] },
    v.consecutiveFailures)

/-- A failed attempt whose key is known. -/
def recordFailed (path : String) (item : Item) (key : String) (failed : Failed) :
    Pass Item Raw Folder τ Exit := do
  let row ← askLedger (.recordFailure (failureRecord deps path item key failed.locals)
    failed.err.message
    { park := failed.err.isDecision
      side := failed.err.failureSide
      category := failed.err.category })
  let attempts := row.attemptCount.getD 1
  let parked := failed.err.isDecision || MAX_ITEM_ATTEMPTS ≤ attempts
  let consecutive ← onVars (noteFailure deps key attempts failed.err.message parked)
  if ABORT_AFTER_CONSECUTIVE_FAILURES ≤ consecutive then
    Prog.throw (abortError deps consecutive failed.err.message)
  else return .failed key parked

/-- The `catch`. -/
def itemFailed (path : String) (item : Item) (failed : Failed) : Pass Item Raw Folder τ Exit :=
  if failed.err.isPassAbort then Prog.throw failed.err
  else do
    let consecutive ← onVars (countFailure failed.err.isDecision)
    match failed.locals.naturalKeyHash with
    | none =>
      if ABORT_AFTER_CONSECUTIVE_FAILURES ≤ consecutive then
        Prog.throw (abortKeylessError deps consecutive failed.err.message)
      else return .failedKeyless
    | some key => recordFailed deps path item key failed

/-- The `try … catch`. -/
def tryItem (folder : Folder) (item : Item) (locals : Locals) (hasExistingRow : Bool)
    (rewriteOf : Option LedgerRecord) : Pass Item Raw Folder τ Exit := do
  match ← (itemBody deps folder item locals hasExistingRow rewriteOf).attempt with
  | .ok exit => return exit
  | .error failed => itemFailed deps (deps.collectionPathOf folder) item failed

/-! ### The task -/

/-- What is noted of an item as soon as it is taken up. -/
def takeUp (path : String) (item : Item) (v : Vars Item) : Vars Item :=
  match deps.naturalKey item with
  | none => { v with scanned := v.scanned + 1 }
  | some key =>
    { v with
      scanned := v.scanned + 1
      seenByCollection := (path, key) :: v.seenByCollection
      listedByIdentity := match (deps.identity item).bind nonEmpty with
        | none => v.listedByIdentity
        | some identity => v.listedByIdentity ++ [⟨identity, key, path⟩]
      formerNames := v.formerNames ++
        ((deps.formerNaturalKeys item).filter (· ≠ key)).map fun former =>
          { formerNaturalKeyHash := former
            naturalKeyHash := key
            sourceRef := deps.sourceRef item } }

/-- Is the item left at once, on the strength of a row read ahead? -/
def quietlySkipped (path : String) (items : List Item) (index : Nat) (item : Item)
    (key : String) : Pass Item Raw Folder τ Bool :=
  if deps.findMany then do
    let row ← readAhead deps items index key
    if row.any fun row => quietSkip row (deps.sourceVersion item) path then
      modifyVars fun v => { v with skipped := v.skipped + 1 }
      return true
    else return false
  else return false

/-- An item whose key the listing states. -/
def keyedTask (folder : Folder) (items : List Item) (index : Nat) (item : Item)
    (key : String) (locals : Locals) : Pass Item Raw Folder τ Exit := do
  let path := deps.collectionPathOf folder
  if ← quietlySkipped deps path items index item key then return .known key .skip
  else
    match ← lookUp deps path key (deps.sourceVersion item) with
    | .leave exit => return exit
    | .write hasExistingRow rewriteOf =>
      tryItem deps folder item locals hasExistingRow rewriteOf

def itemTask (folder : Folder) (items : List Item) (index : Nat) (item : Item) :
    Pass Item Raw Folder τ Exit := do
  let path := deps.collectionPathOf folder
  if ← stopTakingNewWork deps then
    modifyVars fun v => { v with unfinishedCollections := path :: v.unfinishedCollections }
    return .notTakenUp
  else
    modifyVars (takeUp deps path item)
    let locals : Locals :=
      { naturalKeyHash := deps.naturalKey item
        naturalKeyPlain := deps.naturalKeyText item none
        itemName := deps.displayName item none }
    match deps.naturalKey item with
    | none => tryItem deps folder item locals false none
    | some key => keyedTask deps folder items index item key locals

/-- The task, its way out noted. -/
def worker (visit : Nat) (folder : Folder) (items : List Item) (index : Nat) (item : Item) :
    Pass Item Raw Folder τ Unit := do
  let exit ← itemTask deps folder items index item
  modifyVars fun v => { v with left := v.left ++ [⟨visit, index, exit⟩] }

end Ownpace.Sync
