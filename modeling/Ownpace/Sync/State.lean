/-
Ownpace/Sync/State.lean

What a pass of `runDomainSync` is given, what it awaits, and what it keeps.

`DomainSyncDeps` holds the domain's own functions and settings.  A function
the caller may leave out is either total here, and answers `none` where the
source's `f?.(x)` answers `undefined`, or an `Option`, or (where it is a call
to the outside) a flag that says whether it was supplied.

`SyncOp` is one awaited call.  Promises that several tasks share are calls
too: the task that comes first carries the work out and settles the promise,
the others await it (`awaitAsking`, `awaitCollection`, `awaitRows`).

`Vars` holds the local variables of the pass.  Two of them are histories that
no code reads: which listings were taken up, and how each item left.  `PassWorld`
is what the pass acts on, with the log of the calls made.
-/
import Ownpace.Await.Prog
import Ownpace.Ledger.Ops
import Ownpace.Sync.Known

namespace Ownpace

open Await

/-! ### What a pass is given -/

structure LegacyKey (Raw : Type) where
  naturalKeyHash : String
  naturalKey : String
  raw : Raw

/-- `DomainSyncDeps`, the ports and the clock being calls. -/
structure DomainSyncDeps (Item Raw Folder : Type) where
  domain : DiscoveryDomain
  /-- Is there a cursor store? -/
  cursors : Bool
  concurrency : Nat := 4
  /-- The provider of the download meter, where there is one. -/
  downloadMeter : Option String := none
  firstCopyAllowed : Option (Nat → Bool) := none
  snapshot : Bool := false
  deadline : Option Nat := none
  /-- Is there a `whyItStops` to ask? -/
  whyItStops : Bool := false
  folderPath : Folder → Option String
  folderName : Folder → Option String := fun _ => none
  naturalKey : Item → Option String
  naturalKeyText : Item → Option Raw → Option String := fun _ _ => none
  displayName : Item → Option Raw → Option String := fun _ _ => none
  naturalKeyFromRaw : Option (Item → Raw → Except Err String) := none
  legacyKeysFromRaw : Item → Raw → Except Err (List (LegacyKey Raw)) := fun _ _ => .ok []
  legacyCopyOnTarget : Bool := false
  contentHash : Raw → Except Err String
  /-- `onCollision === 'fail'` -/
  failsOnCollision : Bool := false
  sourceVersion : Item → Option String := fun _ => none
  sourceRef : Item → Option String := fun _ => none
  identity : Item → Option String := fun _ => none
  formerNaturalKeys : Item → List String := fun _ => []
  listCollectionKeys : Bool := false
  listDiscardedKeys : Bool := false
  /-- Can the ledger read many rows at once? -/
  findMany : Bool := true
  sourceIsAuthorityOnExistence : Bool
  /-- The table of patterns `classifyFailure` reads a message by. -/
  rules : String → Option FailureSide → FailureCategory := fun _ _ => .unknown

section Vocabulary

variable {Item Raw Folder : Type}

/-- `collectionPathOf` -/
def DomainSyncDeps.collectionPathOf (deps : DomainSyncDeps Item Raw Folder)
    (folder : Folder) : String :=
  ((deps.folderPath folder).bind nonEmpty <|>
    (deps.folderName folder).bind nonEmpty).getD "/"

/-! ### What it awaits -/

/-- `ByteBudgetState` -/
structure ByteBudgetState where
  spentBytes : Nat
  ceilingBytes : Nat
  remainingBytes : Int
  windowResetsAt : Option Nat := none
  deriving DecidableEq

/-- `PassStopReason` -/
inductive PassStopReason : Type
  | noLongerRuns | grantWithdrawn | organisationClosed | stoppedByItsOwner
  | dataTypeNoLongerRuns
  deriving DecidableEq

/-- What a collection's listing answers. -/
structure Listing (Item : Type) where
  items : List Item
  nextCursor : String
  removed : List String := []
  listedElsewhere : Nat := 0

structure Fetched (Raw : Type) where
  raw : Raw
  sizeBytes : Nat

structure UpsertOptions where
  overwrite : Bool := false
  expectedTargetVersion : Option String := none
  sourceVersion : Option String := none
  collection : Option String := none
  sourceRef : Option String := none
  deriving DecidableEq

structure UpsertResult where
  targetId : String
  created : Bool
  adopted : Bool := false
  conflicted : Bool := false
  targetVersion : Option String := none
  deriving DecidableEq

/-- What is in the owner's bin. -/
structure DiscardedListing where
  keys : List String
  unnameable : Nat := 0
  reason : Option String := none
  deriving DecidableEq

/-- One awaited call of a pass. -/
inductive SyncOp (Item Raw Folder : Type) : Type
  | now
  | budgetState
  | whyItStops
  | listFolders
  | cursorGet (collectionPath : String)
  | cursorSet (collectionPath value : String)
  | ensureCollection (folder : Folder)
  | listSince (folder : Folder) (cursor : Option String)
  | listCollectionKeys (folder : Folder)
  | ledger (o : LedgerOp)
  | fetchRaw (item : Item)
  | legacyCopyOnTarget (collectionId : String) (legacy : LegacyKey Raw)
  | upsert (targetId : String) (raw : Raw) (item : Item) (options : UpsertOptions)
  /-- The row the writer records of its own before its `upsert` answers. -/
  | writerRecords (raw : Raw) (item : Item) (options : UpsertOptions) (result : UpsertResult)
  | stillTheAuthority
  | listDiscardedKeys
  | recordAppEvent (event : String)
  | awaitAsking (promise : Nat)
  | awaitCollection
  | awaitRows (window : Nat)
  /-- `mapWithConcurrency` over the items of one listing. -/
  | mapItems (visit : Nat) (folder : Folder) (items : List Item)

abbrev SyncOp.Reply : SyncOp Item Raw Folder → Type
  | now => Nat
  | budgetState => ByteBudgetState
  | whyItStops => Option PassStopReason
  | listFolders => List Folder
  | cursorGet _ => Option String
  | cursorSet .. => Unit
  | ensureCollection _ => String
  | listSince .. => Listing Item
  | listCollectionKeys _ => List String
  | ledger o => o.Reply
  | fetchRaw _ => Fetched Raw
  | legacyCopyOnTarget .. => Bool
  | upsert .. => UpsertResult
  | writerRecords .. => Unit
  | stillTheAuthority => Bool
  | listDiscardedKeys => DiscardedListing
  | recordAppEvent _ => String
  | awaitAsking _ => Bool
  | awaitCollection => String
  | awaitRows _ => Option (List (String × LedgerRecord))
  | mapItems .. => Unit

/-- A call answers, or rejects with an error. -/
abbrev SyncOp.Ans (o : SyncOp Item Raw Folder) : Type := Except Err o.Reply

/-- `withSides`: which side a rejection of this call is marked with. -/
def SyncOp.side : SyncOp Item Raw Folder → Option FailureSide
  | listFolders | listSince .. | fetchRaw _ | listCollectionKeys _ | listDiscardedKeys =>
      some .source
  | upsert .. | writerRecords .. | ensureCollection _ => some .target
  | _ => none

end Vocabulary

/-! ### What it keeps -/

structure BudgetPause where
  provider : String
  ceilingBytes : Nat
  spentBytes : Nat
  windowResetsAt : Option Nat
  deriving DecidableEq

structure DeadlinePause where
  deadlineAt : Nat
  ranForMs : Int
  deriving DecidableEq

structure HaltPause where
  reason : PassStopReason
  noticedAt : Nat
  ranForMs : Int
  deriving DecidableEq

/-- `ItemFailure` -/
structure ItemFailure where
  domain : DiscoveryDomain
  naturalKeyHash : String
  attempts : Nat
  lastError : String
  needsDecision : Bool
  deriving DecidableEq

/-- `ItemMove`, as a pass reports one. -/
structure ReportedMove where
  domain : DiscoveryDomain
  naturalKeyHash : String
  fromCollection : String
  toCollection : String
  toNaturalKeyHash : Option String := none
  deriving DecidableEq

/-- `ItemDeletion`, as a pass reports one. -/
structure ReportedDeletion where
  domain : DiscoveryDomain
  naturalKeyHash : String
  collection : String
  absentPasses : Nat
  evidence : Ledger.DeletionEvidence
  deriving DecidableEq

structure UnreadCollection where
  collection : String
  name : String
  error : String
  category : FailureCategory
  reference : String
  deriving DecidableEq

/-- An item created in this pass, for the pairing of moves. -/
structure CreatedItem where
  naturalKeyHash : String
  contentHash : String
  collection : String
  identity : Option String := none
  deriving DecidableEq

/-- A name a document was listed under, by its identity. -/
structure ListedName where
  identity : String
  naturalKeyHash : String
  collection : String
  deriving DecidableEq

/-- How an item left its task.  The source's `return` hands nothing back; each
of its exits has a name here. -/
inductive Exit : Type
  /-- The pass takes no new work. -/
  | notTakenUp
  /-- Left as its row says, under this key. -/
  | known (key : String) (action : KnownItemAction)
  | heldAtCeiling (key : String)
  /-- The byte budget was spent before the fetch. -/
  | outOfBudget (key : Option String)
  /-- The target's copy was edited there; the row is adopted. -/
  | conflicted (key : String)
  | written (key : String)
  /-- Failed before its natural key was known. -/
  | failedKeyless
  | failed (key : String) (parked : Bool)
  deriving DecidableEq

/-- The key an exit settles, if it settles one. -/
def Exit.settles : Exit → Option String
  | .known key _ | .conflicted key | .written key | .failed key true => some key
  | .notTakenUp | .heldAtCeiling _ | .outOfBudget _ | .failedKeyless | .failed _ false => none

/-- A listing that was taken up. -/
structure Visit (Item : Type) where
  collection : String
  items : List Item
  nextCursor : String

/-- One item's way out: of which listing, which of its items, and how. -/
structure Leaving where
  visit : Nat
  index : Nat
  exit : Exit
  deriving DecidableEq

/-- The variables of a pass. -/
structure Vars (Item : Type) where
  scanned : Nat := 0
  created : Nat := 0
  skipped : Nat := 0
  firstCopyBytes : Nat := 0
  adopted : Nat := 0
  failed : Nat := 0
  updated : Nat := 0
  needsDecision : Nat := 0
  leftBehind : Nat := 0
  heldAtCeiling : Nat := 0
  reappearedAfterRemoval : Nat := 0
  superseded : Nat := 0
  earlierExports : Nat := 0
  consecutiveFailures : Nat := 0
  changedButAdopted : Nat := 0
  changedAfterCutover : Nat := 0
  moved : Nat := 0
  conflicted : Nat := 0
  drift : Nat := 0
  failures : List ItemFailure := []
  moves : List ReportedMove := []
  deletions : List ReportedDeletion := []
  unplaceableDiscards : Option (Nat × Option String) := none
  reportedRemovals : List String := []
  /-- The cursors that wait until the removals were read. -/
  cursorsHeldForRemovals : List (String × String) := []
  /-- The map of sets, as the pairs collection, key. -/
  seenByCollection : List (String × String) := []
  movedByTheLoop : List String := []
  createdThisPass : List CreatedItem := []
  listedByIdentity : List ListedName := []
  formerNames : List Ledger.FormerName := []
  fullyEnumerated : Bool := true
  budgetPause : Option BudgetPause := none
  deadlinePause : Option DeadlinePause := none
  haltPause : Option HaltPause := none
  startedAtMs : Nat := 0
  collectionsNotReached : Nat := 0
  unreadCollections : List UnreadCollection := []
  firstUnreadError : Option Err := none
  unreadInARow : Nat := 0
  listedOne : Bool := false
  unfinishedCollections : List String := []
  lastAskedAt : Option Nat := none
  /-- The promise of `whyItStops` being asked, by its number. -/
  asking : Option Nat := none
  /-- How the promises of `asking` settled, the last one first. -/
  askings : List (Nat × Except Err Bool) := []
  /-- The open collection's target, a promise made once: none yet, pending,
  settled. -/
  targetCollection : Option (Option (Except Err String)) := none
  /-- The open collection's read-ahead: the current window, and those loaded. -/
  window : Option Nat := none
  windows : List (Nat × Option (List (String × LedgerRecord))) := []
  /-- History: the listings taken up, in order. -/
  listed : List (Visit Item) := []
  /-- History: how items left. -/
  left : List Leaving := []

namespace Vars

variable {Item : Type}

def paused (v : Vars Item) : Bool :=
  v.budgetPause.isSome || v.deadlinePause.isSome || v.haltPause.isSome

/-- `seenByCollection.get(collection)?.has(key)` -/
def seen (v : Vars Item) (collection key : String) : Bool :=
  (collection, key) ∈ v.seenByCollection

/-- `seenAnywhere.has(key)` -/
def seenAnywhere (v : Vars Item) (key : String) : Bool :=
  v.seenByCollection.any fun p => p.2 = key

/-- `failures.some((f) => !f.needsDecision)` -/
def retryablePending (v : Vars Item) : Bool :=
  v.failures.any fun f => !f.needsDecision

end Vars

/-! ### What it acts on -/

section World

variable (Item Raw Folder τ : Type)

/-- A call that was made, and its answer. -/
abbrev Made : Type := Σ o : SyncOp Item Raw Folder, o.Ans

structure PassWorld where
  ledger : Ledger
  target : τ
  /-- The stored cursors, by collection. -/
  cursors : List (String × String) := []
  /-- The calls made so far. -/
  log : List (Made Item Raw Folder) := []

structure PassState where
  vars : Vars Item := {}
  world : PassWorld Item Raw Folder τ

/-- What lies outside: how the source, the target and the other services may
answer, and what that does to the target; and which row a writer may record of
its own for an item it was given. -/
structure Outside where
  answers : τ → (o : SyncOp Item Raw Folder) → o.Ans → τ → Prop
  records : Raw → Item → UpsertOptions → UpsertResult → LedgerRecord → Prop

end World

section Effects

variable {Item Raw Folder τ : Type}

/-- A call to the ledger.  One that rejects may have been carried out or not. -/
def LedgerCall (o : LedgerOp) (l : Ledger) (a : Except Err o.Reply) (l' : Ledger) : Prop :=
  ∃ h : Host,
    (a = (o.run h l).1.mapError (fun message => { message := message }) ∧
      l' = (o.run h l).2) ∨
    ((∃ e, a = .error e) ∧ (l' = l ∨ l' = (o.run h l).2))

/-- What a call that is no `mapItems` may answer, and the world it leaves, the
log apart. -/
def Outside.Calls (out : Outside Item Raw Folder τ) (s : PassState Item Raw Folder τ)
    (w' : PassWorld Item Raw Folder τ) : (o : SyncOp Item Raw Folder) → o.Ans → Prop
  | .ledger o, a => LedgerCall o s.world.ledger a w'.ledger ∧
      w' = { s.world with ledger := w'.ledger }
  | .cursorGet c, a => w' = s.world ∧
      (a = .ok (s.world.cursors.lookup c) ∨ ∃ e, a = .error e)
  | .cursorSet c value, a =>
      w' = { s.world with cursors := (c, value) :: s.world.cursors } ∨
        ((∃ e, a = .error e) ∧ w' = s.world)
  | .writerRecords raw item options result, a => w' = s.world ∨
      ∃ record answer, out.records raw item options result record ∧
        LedgerCall (.recordIfAbsent record) s.world.ledger answer w'.ledger ∧
        w' = { s.world with ledger := w'.ledger } ∧
        (a = .ok () → ∃ row, answer = .ok row)
  | .recordAppEvent _, a => w' = s.world ∧ ∃ reference, a = .ok reference
  | .awaitAsking n, a => w' = s.world ∧ s.vars.askings.lookup n = some a
  | .awaitCollection, a => w' = s.world ∧ s.vars.targetCollection = some (some a)
  | .awaitRows n, a => w' = s.world ∧ ∃ rows, s.vars.windows.lookup n = some rows ∧ a = .ok rows
  -- the bin's own cursors are kept under names of their own
  | .listDiscardedKeys, a => out.answers s.world.target .listDiscardedKeys a w'.target ∧
      w' = { s.world with target := w'.target, cursors := w'.cursors }
  | .mapItems .., _ => False
  | o, a => out.answers s.world.target o a w'.target ∧
      w' = { s.world with target := w'.target }

/-- What a call may answer, and the state it leaves: the call is logged, and no
variable of the pass changes. -/
def Outside.Effects (out : Outside Item Raw Folder τ) (s : PassState Item Raw Folder τ)
    (o : SyncOp Item Raw Folder) (a : o.Ans) (s' : PassState Item Raw Folder τ) : Prop :=
  ∃ w', out.Calls s w' o a ∧
    s' = { s with world := { w' with log := s.world.log ++ [⟨o, a⟩] } }

end Effects

end Ownpace
