/-
Ownpace/Sync/Steps.lean

What one item's task can do, said once.

`ItemStep` lists every event a task's path can have up to the failure of its
attempt, each with the earlier events of the same path that justify it;
`TaskStep` adds the recorded failure and the note of the exit.  `ItemEnds`
says, for each exit, what has happened on the way there.

Everything a later proof needs of a task is read off these three; what other
tasks do in between is no part of them.  The variables of the pass enter
through `Grows`: no step of a task takes anything back that a conclusion of
the pass depends on.
-/
import Ownpace.Sync.Pass

namespace Ownpace.Sync

open Await Ownpace

variable {Item Raw Folder τ : Type}

/-! ### The variables only grow -/

/-- A task that was told to stop finds the pass paused. -/
def Answered (v : Vars Item) : Prop :=
  (∃ n, (n, Except.ok true) ∈ v.askings) → v.paused = true

/-- `Grows v w`: between the variables `v` and `w`, one or more steps of tasks. -/
structure Grows (v w : Vars Item) : Prop where
  failures : v.failures ⊆ w.failures
  seen : v.seenByCollection ⊆ w.seenByCollection
  moved : v.movedByTheLoop ⊆ w.movedByTheLoop
  unfinished : v.unfinishedCollections ⊆ w.unfinishedCollections
  left : v.left ⊆ w.left
  held : v.heldAtCeiling ≤ w.heldAtCeiling
  paused : v.paused = true → w.paused = true
  answered : Answered v → Answered w
  listed : w.listed = v.listed
  reportedRemovals : w.reportedRemovals = v.reportedRemovals
  cursorsHeld : w.cursorsHeldForRemovals = v.cursorsHeldForRemovals

theorem Grows.refl (v : Vars Item) : Grows v v where
  failures := List.Subset.refl _
  seen := List.Subset.refl _
  moved := List.Subset.refl _
  unfinished := List.Subset.refl _
  left := List.Subset.refl _
  held := Nat.le_refl _
  paused := id
  answered := id
  listed := rfl
  reportedRemovals := rfl
  cursorsHeld := rfl

theorem Grows.trans {u v w : Vars Item} (h₁ : Grows u v) (h₂ : Grows v w) : Grows u w where
  failures := List.Subset.trans h₁.failures h₂.failures
  seen := List.Subset.trans h₁.seen h₂.seen
  moved := List.Subset.trans h₁.moved h₂.moved
  unfinished := List.Subset.trans h₁.unfinished h₂.unfinished
  left := List.Subset.trans h₁.left h₂.left
  held := Nat.le_trans h₁.held h₂.held
  paused := h₂.paused ∘ h₁.paused
  answered := h₂.answered ∘ h₁.answered
  listed := h₂.listed.trans h₁.listed
  reportedRemovals := h₂.reportedRemovals.trans h₁.reportedRemovals
  cursorsHeld := h₂.cursorsHeld.trans h₁.cursorsHeld

/-! ### What a path has -/

/-- One step of a pass or of a task, as its path records it. -/
abbrev Ev (Item Raw Folder τ : Type) : Type :=
  Event (PassState Item Raw Folder τ) (SyncOp Item Raw Folder) SyncOp.Ans

abbrev Path (Item Raw Folder τ : Type) : Type := List (Ev Item Raw Folder τ)

/-- A step of this path left variables with this property. -/
def Saw (h : Path Item Raw Folder τ) (P : Vars Item → Prop) : Prop :=
  ∃ b a, Event.sync b a ∈ h ∧ P a.vars

theorem Saw.mono {h h' : Path Item Raw Folder τ} {P : Vars Item → Prop} (hs : Saw h P)
    (hsub : h ⊆ h') : Saw h' P := by
  obtain ⟨b, a, hmem, hP⟩ := hs
  exact ⟨b, a, hsub hmem, hP⟩

section Steps

variable (deps : DomainSyncDeps Item Raw Folder) (path : String) (item : Item)

/-- What an event tells of the row under a key. -/
inductive Tells : Ev Item Raw Folder τ → String → Option LedgerRecord → Prop
  | find {key row} : Tells (.call (.ledger (.find deps.domain key)) (.ok row)) key row
  | findMany {keys rows key known} : (key, known) ∈ rows →
      Tells (.call (.ledger (.findMany deps.domain keys)) (.ok rows)) key (some known)
  | window {n rows key known} : (key, known) ∈ rows →
      Tells (.call (.awaitRows n) (.ok (some rows))) key (some known)

def Told (h : Path Item Raw Folder τ) (key : String) (row : Option LedgerRecord) : Prop :=
  ∃ e ∈ h, Tells deps e key row

/-- The key stands among those seen in this collection. -/
def SeenHere (h : Path Item Raw Folder τ) (key : String) : Prop :=
  Saw h fun v => (path, key) ∈ v.seenByCollection

/-- The version an item is classified by: none for one keyed by its bytes. -/
def statedVersion : Option String :=
  if (deps.naturalKey item).isSome then deps.sourceVersion item else none

/-- A key this item can have: the one its listing states, or one of those its
bytes can give. -/
def MayHaveKey (key : String) : Prop :=
  deps.naturalKey item = some key ∨
    deps.naturalKey item = none ∧ ∃ naturalKeyFromRaw raw derived,
      deps.naturalKeyFromRaw = some naturalKeyFromRaw ∧
      naturalKeyFromRaw item raw = .ok derived ∧
      (key = derived ∨ ∃ earlier, deps.legacyKeysFromRaw item raw = .ok earlier ∧
        ∃ legacy ∈ earlier, key = legacy.naturalKeyHash)

/-- An item is taken up to be written: it has no row, or one that asks for it. -/
inductive TakenUp (h : Path Item Raw Folder τ) (key : String) :
    Bool → Option LedgerRecord → Prop
  | new : Told deps h key none → TakenUp h key false none
  | again {known} : Told deps h key (some known) →
      classifyKnownItem known (statedVersion deps item) path = .retryFailed ∨
        classifyKnownItem known (statedVersion deps item) path = .relocatedAway →
      TakenUp h key true none
  | rewrite {known} : Told deps h key (some known) →
      classifyKnownItem known (statedVersion deps item) path = .rewrite →
      deps.sourceIsAuthorityOnExistence = true → TakenUp h key true (some known)

/-- The key and the bytes an item is written under, from what was fetched. -/
inductive KeyedBy (h : Path Item Raw Folder τ) (key : String) : Raw → Prop
  | listed {fetched} : deps.naturalKey item = some key →
      Event.call (.fetchRaw item) (.ok fetched) ∈ h → KeyedBy h key fetched.raw
  | derived {fetched naturalKeyFromRaw} : deps.naturalKey item = none →
      Event.call (.fetchRaw item) (.ok fetched) ∈ h →
      deps.naturalKeyFromRaw = some naturalKeyFromRaw →
      naturalKeyFromRaw item fetched.raw = .ok key → KeyedBy h key fetched.raw
  | legacy {fetched naturalKeyFromRaw derived earlier legacy} :
      deps.naturalKey item = none →
      Event.call (.fetchRaw item) (.ok fetched) ∈ h →
      deps.naturalKeyFromRaw = some naturalKeyFromRaw →
      naturalKeyFromRaw item fetched.raw = .ok derived →
      deps.legacyKeysFromRaw item fetched.raw = .ok earlier → legacy ∈ earlier →
      legacy.naturalKeyHash = key → KeyedBy h key legacy.raw

/-! ### Every event of a task -/

/-- The calls of the gate, and of whatever else touches no item. -/
def gateOp : SyncOp Item Raw Folder → Prop
  | .now | .budgetState | .whyItStops | .ensureCollection _ | .awaitAsking _
  | .awaitCollection => True
  | _ => False

/-- A step that is about no item. -/
inductive QuietStep (h : Path Item Raw Folder τ) : Ev Item Raw Folder τ → Prop
  | vars {s v} : Grows s.vars v → v.left = s.vars.left → v.windows = s.vars.windows →
      QuietStep h (.sync s { s with vars := v })
  | asks {o a} : gateOp o → QuietStep h (.call o a)

/-- The calls that change no row. -/
def asks : SyncOp Item Raw Folder → Prop
  | .now | .budgetState | .whyItStops | .ensureCollection _ | .legacyCopyOnTarget ..
  | .awaitAsking _ | .awaitCollection | .awaitRows _ => True
  | .fetchRaw item' => item' = item
  | .ledger (.find domain _) | .ledger (.findMany domain _) => domain = deps.domain
  | _ => False

/-- The rows kept by the read-ahead are rows that were read. -/
def Loaded (h : Path Item Raw Folder τ) (v w : Vars Item) : Prop :=
  ∀ n rows, (n, some rows) ∈ w.windows → (n, some rows) ∈ v.windows ∨
    ∃ keys, Event.call (.ledger (.findMany deps.domain keys)) (.ok rows) ∈ h

inductive ItemStep (h : Path Item Raw Folder τ) : Ev Item Raw Folder τ → Prop
  | vars {s v} : Grows s.vars v → Loaded deps h s.vars v → v.left = s.vars.left →
      ItemStep h (.sync s { s with vars := v })
  | asks {o a} : asks deps item o → ItemStep h (.call o a)
  | clearAbsent {key known a} : Told deps h key (some known) → SeenHere path h key →
      ItemStep h (.call (.ledger (.clearAbsent deps.domain key)) a)
  | clearMove {key known a} : Told deps h key (some known) → SeenHere path h key →
      ItemStep h (.call (.ledger (.clearMove deps.domain key)) a)
  | recordMove {key known a} : Told deps h key (some known) → SeenHere path h key →
      classifyKnownItem known (statedVersion deps item) path = .moved →
      ItemStep h (.call (.ledger (.recordMove deps.domain key path none .content)) a)
  | recordVersion {key known a} : Told deps h key (some known) → SeenHere path h key →
      classifyKnownItem known (deps.sourceVersion item) path = .recordVersion →
      deps.naturalKey item = some key →
      ItemStep h (.call (.ledger (.recordUpdate
        { known with sourceVersion := deps.sourceVersion item })) a)
  | upsert {key raw hasExistingRow rewriteOf collectionId a} :
      TakenUp deps path item h key hasExistingRow rewriteOf → SeenHere path h key →
      KeyedBy deps item h key raw →
      ItemStep h (.call (.upsert collectionId raw item (upsertOptions deps path item rewriteOf)) a)
  | writerRecords {key raw hasExistingRow rewriteOf collectionId result a} :
      TakenUp deps path item h key hasExistingRow rewriteOf → SeenHere path h key →
      KeyedBy deps item h key raw →
      Event.call (.upsert collectionId raw item (upsertOptions deps path item rewriteOf))
        (.ok result) ∈ h →
      ItemStep h (.call (.writerRecords raw item (upsertOptions deps path item rewriteOf)
        result) a)
  | conflicted {key raw known collectionId result a} :
      TakenUp deps path item h key true (some known) → SeenHere path h key →
      Event.call (.upsert collectionId raw item (upsertOptions deps path item (some known)))
        (.ok result) ∈ h → result.conflicted = true →
      ItemStep h (.call (.ledger (.recordUpdate
        { known with status := some .adopted, targetId := result.targetId })) a)
  | update {key raw rewriteOf collectionId locals sizeBytes result a} :
      TakenUp deps path item h key true rewriteOf → SeenHere path h key →
      KeyedBy deps item h key raw →
      Event.call (.upsert collectionId raw item (upsertOptions deps path item rewriteOf))
        (.ok result) ∈ h → result.conflicted = false →
      deps.contentHash raw = .ok locals.ch →
      ItemStep h (.call (.ledger (.recordUpdate
        (writtenRecord deps path item key locals sizeBytes result))) a)
  | insert {key raw collectionId locals sizeBytes result a} :
      TakenUp deps path item h key false none → SeenHere path h key →
      KeyedBy deps item h key raw →
      Event.call (.upsert collectionId raw item (upsertOptions deps path item none))
        (.ok result) ∈ h → result.conflicted = false →
      deps.contentHash raw = .ok locals.ch →
      ItemStep h (.call (.ledger (.recordIfAbsent
        (writtenRecord deps path item key locals sizeBytes result))) a)

/-- The row of a failed attempt, as the ledger answers it: does it wait for a
decision? -/
def isParked (park : Bool) (row : LedgerRecord) : Bool :=
  park || MAX_ITEM_ATTEMPTS ≤ row.attemptCount.getD 1

/-- A retryable failure of this key is noted. -/
def NotedFailure (key : String) (v : Vars Item) : Prop :=
  ∃ f ∈ v.failures, f.naturalKeyHash = key ∧ f.needsDecision = false

/-- What has happened where an item left by this exit. -/
def ItemEnds (h : Path Item Raw Folder τ) : Exit → Prop
  | .notTakenUp =>
      (Saw h (fun v => v.paused = true) ∨ ∃ n, Event.call (.awaitAsking n) (.ok true) ∈ h) ∧
        Saw h fun v => path ∈ v.unfinishedCollections
  | .known key action => MayHaveKey deps item key ∧ SeenHere path h key ∧ ∃ known,
      Told deps h key (some known) ∧
      classifyKnownItem known (statedVersion deps item) path = action ∧
      action ≠ .retryFailed ∧ action ≠ .relocatedAway ∧
      (action = .moved → (deps.naturalKey item).isSome →
        Saw h fun v => key ∈ v.movedByTheLoop) ∧
      (action = .rewrite → deps.sourceIsAuthorityOnExistence = false)
  | .heldAtCeiling key => MayHaveKey deps item key ∧ SeenHere path h key ∧
      (∃ hasExistingRow, TakenUp deps path item h key hasExistingRow none) ∧
      ∃ b a, Event.sync b a ∈ h ∧ b.vars.heldAtCeiling < a.vars.heldAtCeiling
  | .outOfBudget key => key = deps.naturalKey item ∧ Saw h (fun v => v.paused = true) ∧
      ∀ k, key = some k → SeenHere path h k ∧
        ∃ hasExistingRow rewriteOf, TakenUp deps path item h k hasExistingRow rewriteOf
  | .conflicted key => MayHaveKey deps item key ∧ SeenHere path h key ∧
      ∃ known targetId row, TakenUp deps path item h key true (some known) ∧
        Event.call (.ledger (.recordUpdate
          { known with status := some .adopted, targetId := targetId })) (.ok row) ∈ h
  | .written key => MayHaveKey deps item key ∧ SeenHere path h key ∧
      (∃ hasExistingRow rewriteOf, TakenUp deps path item h key hasExistingRow rewriteOf) ∧
      ∃ record row, record.naturalKeyHash = key ∧
        (Event.call (.ledger (.recordUpdate record)) (.ok row) ∈ h ∨
          Event.call (.ledger (.recordIfAbsent record)) (.ok row) ∈ h)
  | .failedKeyless => deps.naturalKey item = none
  | .failed key parked => MayHaveKey deps item key ∧
      (deps.naturalKey item = some key → SeenHere path h key ∧
        ∃ hasExistingRow rewriteOf, TakenUp deps path item h key hasExistingRow rewriteOf) ∧
      ∃ record message options row,
        Event.call (.ledger (.recordFailure record message options)) (.ok row) ∈ h ∧
        record.naturalKeyHash = key ∧ parked = isParked options.park row

/-- Every event of a task: those of the attempt, its recorded failure, and the
note of its exit. -/
inductive TaskStep (visit index : Nat) (h : Path Item Raw Folder τ) :
    Ev Item Raw Folder τ → Prop
  | item {e} : ItemStep deps path item h e → TaskStep visit index h e
  | failed {key locals message options a} : MayHaveKey deps item key →
      (deps.naturalKey item = some key → SeenHere path h key ∧
        ∃ hasExistingRow rewriteOf, TakenUp deps path item h key hasExistingRow rewriteOf) →
      TaskStep visit index h (.call (.ledger (.recordFailure
        (failureRecord deps path item key locals) message options)) a)
  | note {s exit} : ItemEnds deps path item h exit →
      TaskStep visit index h (.sync s { s with
        vars := { s.vars with left := s.vars.left ++ [⟨visit, index, exit⟩] } })

/-- No failure of this path is left unnoted: each was answered, and waits for a
decision or is among the failures of the pass. -/
def FailuresNoted (h : Path Item Raw Folder τ) : Prop :=
  ∀ record message options a,
    Event.call (.ledger (.recordFailure record message options)) a ∈ h →
    ∃ row, a = .ok row ∧
      (isParked options.park row = true ∨ Saw h (NotedFailure record.naturalKeyHash))

/-- How a task ends that does not throw. -/
def TaskEnds (visit index : Nat) (h : Path Item Raw Folder τ) : Except Err Unit → Prop
  | .ok _ => FailuresNoted h ∧ ∃ h₀ s exit, ItemEnds deps path item h₀ exit ∧
      h = h₀ ++ [.sync s { s with
        vars := { s.vars with left := s.vars.left ++ [⟨visit, index, exit⟩] } }]
  | .error _ => True

end Steps

end Ownpace.Sync
