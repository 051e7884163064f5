/-
Ownpace/Apply/Gates.lean

The calls and the gates of `apply-deletion.ts`, the one place that removes a
copy from the target.

The functions there await three things: the ledger, the phase of the data
type (`stillTheAuthority`), and the target.  `ApplyOp` is one such call;
`World` is what they act on, the rows and the target, and `Effects` what each
call may answer and leave.  The target is any state with any behaviour that
keeps to the port's contract: a removal that says it removed nothing did.

The gates are written once here, each under the source's name and with its
own sentence, and used by both halves of the file.
-/
import Ownpace.Await.Prog
import Ownpace.Ledger.Ops

namespace Ownpace

open Await

/-! ### What is awaited -/

inductive RemovalKind : Type
  | binned | deleted
  deriving DecidableEq

/-- `RemovalResult` -/
structure RemovalResult where
  kind : Option RemovalKind := none
  conflicted : Bool := false
  unversioned : Bool := false
  deriving DecidableEq

/-- The writer's answer says that nothing was removed. -/
def RemovalResult.refused (r : RemovalResult) : Bool :=
  r.conflicted || r.unversioned || r.kind.isNone

structure RemoveOptions where
  expectedTargetVersion : Option String := none
  collection : Option String := none
  deriving DecidableEq

/-- One call of the apply functions. -/
inductive ApplyOp : Type
  | ledger (o : LedgerOp)
  | stillTheAuthority
  | removeItem (targetId : String) (options : RemoveOptions)
  | hasItem (targetId : String) (collection : Option String)
  | recordAuditEvent (naturalKeyHash : String) (kind : RemovalKind)

abbrev ApplyOp.Reply : ApplyOp → Type
  | ledger o => o.Reply
  | stillTheAuthority => Bool
  | removeItem .. => RemovalResult
  | hasItem .. => Bool
  | recordAuditEvent .. => Unit

/-- A call may always reject instead, with a message. -/
abbrev ApplyOp.Ans (o : ApplyOp) : Type := Except String o.Reply

/-- A target's state, and what a removal and a presence check may do to it. -/
structure Target (τ : Type) where
  removes : τ → String → RemoveOptions → Except String RemovalResult → τ → Prop
  has : τ → String → Option String → Except String Bool → Prop
  /-- `ports.ts`: refused means that nothing was removed. -/
  refused_same : ∀ t id o r t', removes t id o (.ok r) t' → r.refused = true → t' = t

/-- What the apply functions act on. -/
structure World (τ : Type) where
  ledger : Ledger
  target : τ
  /-- Does the old system still decide what exists? -/
  authority : Bool

/-- What a call may answer, and the world it leaves.  A call to the ledger
that rejects may have been carried out or not. -/
def Effects {τ : Type} (T : Target τ) (w : World τ) :
    (o : ApplyOp) → o.Ans → World τ → Prop
  | .ledger o, a, w' => ∃ h : Host, w' = { w with ledger := w'.ledger } ∧
      ((o.run h w.ledger = (a, w'.ledger)) ∨
        ((∃ e, a = .error e) ∧
          (w'.ledger = w.ledger ∨ w'.ledger = (o.run h w.ledger).2)))
  | .stillTheAuthority, a, w' => w' = w ∧ (a = .ok w.authority ∨ ∃ e, a = .error e)
  | .removeItem id opts, a, w' =>
      T.removes w.target id opts a w'.target ∧ w' = { w with target := w'.target }
  | .hasItem id c, a, w' => T.has w.target id c a ∧ w' = w
  | .recordAuditEvent _ _, _, w' => w' = w

/-- Does this call leave the rows and the target as they are? -/
def ApplyOp.reads : ApplyOp → Bool
  | ledger o => o.reads
  | removeItem .. => false
  | stillTheAuthority | hasItem .. | recordAuditEvent .. => true

theorem effects_of_reads {τ : Type} {T : Target τ} {w w' : World τ} {o : ApplyOp} {a : o.Ans}
    (ho : o.reads = true) (hw : Effects T w o a w') : w' = w := by
  cases o with
  | ledger o =>
      obtain ⟨h, heq, hrun⟩ := hw
      have hsame := LedgerOp.run_of_reads (h := h) (l := w.ledger) ho
      have hl : w'.ledger = w.ledger := by
        rcases hrun with hrun | ⟨-, hrun | hrun⟩
        · rw [hrun] at hsame
          exact hsame
        · exact hrun
        · exact hrun.trans hsame
      rw [heq, hl]
  | stillTheAuthority => exact hw.1
  | hasItem => exact hw.2
  | recordAuditEvent => exact hw
  | removeItem => cases ho

/-! ### Outcomes -/

/-- The distinct ways an apply refuses. -/
inductive ApplyRefusal : Type
  | notEnabled | targetCannotRemove | notFound | notConfirmed | weakEvidence | notOurs
  | alreadyApplied | afterCutover | editedOnTarget | versionUnknown
  | massDeletionSuspected | massRelocationSuspected | alreadyKept | notRelocated
  | relocationUnconfirmed | targetCannotConfirm | removedNotRecorded
  deriving DecidableEq

/-- A refusal, with a sentence safe to show verbatim. -/
structure Refusal where
  code : ApplyRefusal
  reason : String
  deriving DecidableEq

/-- `ApplyDeletionOutcome` -/
inductive ApplyDeletionOutcome : Type
  | ok (kind : RemovalKind)
  | refused (refusal : Refusal)
  deriving DecidableEq

/-- `ApplyDeletionDeps`, the ledger and the two questions being calls. -/
structure ApplyDeletionDeps where
  domain : DiscoveryDomain
  allowApplyDeletions : Bool := false
  targetFolderPrefix : Option String := none
  /-- `canRemove(target)` -/
  canRemove : Bool
  /-- `canConfirmPresence(target)` -/
  canConfirmPresence : Bool
  deriving DecidableEq

/-- Where the copy of an item of this collection lives on the target. -/
def applyTargetFolderPrefix (pre : Option String) (path : String) : String :=
  match pre.bind nonEmpty with
  | none => path
  | some p => if path = "" then p else p ++ "/" ++ path

/-! ### The gates -/

section Gates

variable {S : Type}

/-- A program of the apply functions. -/
abbrev Apply (S α : Type) : Type := Prog S ApplyOp ApplyOp.Ans String α

/-- Await a call. -/
def ask (o : ApplyOp) : Apply S o.Reply := Prog.awaitWith id o

/-- Await a call to the ledger. -/
def askLedger (o : LedgerOp) : Apply S o.Reply := ask (.ledger o)

variable (deps : ApplyDeletionDeps)

/-- Gate 1's refusal. -/
def notEnabled : Refusal where
  code := .notEnabled
  reason :=
    "Removing items from the target is switched off for this mapping. Set " ++
    "`allowApplyDeletions: true` in its config to enable it, and read the runbook first — " ++
    "this is the only operation here that destroys anything."

def notFound : Refusal where
  code := .notFound
  reason := "No migrated item under that natural key."

def alreadyApplied : Refusal where
  code := .alreadyApplied
  reason := "The target copy of this item has already been removed."

/-- Gate 5 with nothing to compare. -/
def versionUnknown : Refusal where
  code := .versionUnknown
  reason :=
    "This copy was written without a version from the new system, so there is no way to tell " ++
    "whether somebody has changed it there since. It was left alone. Delete it in the target " ++
    "system yourself if you are sure, then choose `keep`."

def editedOnTarget : Refusal where
  code := .editedOnTarget
  reason :=
    "Somebody has edited this item in the new system since we copied it, so it was left " ++
    "alone — those changes are theirs (hard rule 2). Nothing was removed."

def nothingRemoved : Refusal where
  code := .targetCannotRemove
  reason := "The target reported no removal, so nothing has been changed."

/-- Which queue the press came from. -/
inductive Press : Type
  | deletion | move
  deriving DecidableEq

def Press.text : Press → String
  | deletion => "deletion"
  | move => "move"

def afterCutover (what : Press) : Refusal where
  code := .afterCutover
  reason :=
    "This data type is past its cutover, so the old system no longer decides what exists, and " ++
    "nothing is removed from the new system on its account. This " ++ what.text ++
    " was recorded before the " ++
    "cutover, or by a pass that was still running when it was executed. Nothing was removed: the " ++
    "copy stays. Choose `keep` to clear it from the queue; a rollback of the cutover makes the old " ++
    "system decide again."

def afterCutoverCheck (what : Press) : Apply S (Option Refusal) := do
  let still ← ask .stillTheAuthority
  return if still then none else some (afterCutover what)

/-- `row.deletionAppliedAt !== undefined || row.status === 'tombstoned'` -/
def isApplied (row : LedgerRecord) : Bool :=
  row.deletionAppliedAt.isSome || row.status = some .tombstoned

/-- Gate 3 of a deletion: positive evidence only. -/
def evidenceCheck (row : LedgerRecord) : Option Refusal :=
  if row.deletionReportedAt.isSome || row.deletionTrashedAt.isSome then none
  else
    let absent := row.absentPasses.getD 0
    if 0 < absent then some
      { code := .weakEvidence
        reason :=
          "This item is only INFERRED to be deleted: it has been missing from " ++
          toString absent ++ " " ++
          "complete scan(s) and nothing has stated it was deleted. Absence has innocent causes " ++
          "that all look identical, so it is never enough to remove anything. Delete it in the " ++
          "target system yourself if you are sure, then choose `keep`." }
    else some
      { code := .notConfirmed
        reason := "Nothing says this item was deleted on the source." }

def statusText (status : Option ItemStatus) : String :=
  (status.map ItemStatus.text).getD "unknown"

/-- Gate 4: only a copy this migration wrote. -/
def ownershipCheck (row : LedgerRecord) : Option Refusal :=
  if row.status = some .copied ∨ row.status = some .updated then none
  else if isOnTarget row.status = false then some
    { code := .notOurs
      reason :=
        "This item is not on the target (status " ++ statusText row.status ++
        "), so there is nothing to remove." }
  else if row.status = some .adopted then some
    { code := .notOurs
      reason :=
        "The copy on the target was already there before this migration ran — those bytes are " ++
        "the account owner's, not ours to delete (hard rule 2). Remove it yourself if you want " ++
        "it gone, then choose `keep`." }
  else some
    { code := .notOurs
      reason :=
        "The ledger does not record this copy as one this migration wrote (status " ++
        statusText row.status ++ "). Only items recorded as `copied` or `updated` can be " ++
        "removed. Delete it in the target system yourself if you want it gone, then choose `keep`." }

/-- Below this many migrated items the fraction is not applied. -/
def MASS_DELETION_MIN_ITEMS : Nat := 20

/-- `share <= MASS_DELETION_FRACTION`, a fifth, as whole numbers. -/
def withinFraction (pending placed : Nat) : Bool := 5 * pending ≤ placed

/-- `Math.round(share * 100)` -/
def percentOf (pending placed : Nat) : Nat := (200 * pending + placed) / (2 * placed)

def massDeletionSuspected (pending placed : Nat) : Refusal where
  code := .massDeletionSuspected
  reason :=
    toString pending ++ " of " ++ toString placed ++ " migrated " ++ deps.domain.text ++
    " items (" ++ toString (percentOf pending placed) ++ "%) are pending " ++
    "deletion, which is more likely to be a source problem — an outage, a restored account, a " ++
    "connector reading the wrong place — than an owner deleting that much on purpose. While " ++
    "that is true, no individual removal is trustworthy either, so all of them are refused. " ++
    "Check the source, let a pass run, and if the deletions are real, remove the items in the " ++
    "target system yourself."

/-- Gate 6: refuse everything while the deletion queue looks like an incident. -/
def massDeletionCheck : Apply S (Option Refusal) := do
  let placed ← askLedger (.placedItems deps.domain)
  if placed.length < MASS_DELETION_MIN_ITEMS then return none
  else
    let deletions ← askLedger (.listDeletions (some deps.domain))
    let pending := deletions.filter fun d => d.confirmed && d.acknowledgedAt.isNone
    return if withinFraction pending.length placed.length then none
      else some (massDeletionSuspected deps pending.length placed.length)

def massRelocationSuspected (pending placed : Nat) : Refusal where
  code := .massRelocationSuspected
  reason :=
    toString pending ++ " of " ++ toString placed ++ " migrated " ++ deps.domain.text ++
    " items (" ++ toString (percentOf pending placed) ++ "%) are recorded " ++
    "as moved or renamed and still open. At that scale the correlation itself is in doubt — a " ++
    "change in how this connector reports paths gives every file a new key, and looks exactly " ++
    "like this. Removing the old copies is not undoable by a later pass, so all of them are " ++
    "refused while it is true. If the reorganisation is real, close these entries with `keep` " ++
    "and tidy the old copies in the target system yourself."

/-- An open relocation: the key changed, and nobody has answered yet. -/
def isOpenRelocation (m : Ledger.ItemMove) : Bool :=
  m.toNaturalKeyHash.isSome && m.acknowledgedAt.isNone

/-- Gate 6 for relocations. -/
def massRelocationCheck : Apply S (Option Refusal) := do
  let placed ← askLedger (.placedItems deps.domain)
  if placed.length < MASS_DELETION_MIN_ITEMS then return none
  else
    let moves ← askLedger (.listMoves (some deps.domain))
    let pending := moves.filter isOpenRelocation
    return if withinFraction pending.length placed.length then none
      else some (massRelocationSuspected deps pending.length placed.length)

/-- Both halves of gate 6, in the order both relocation functions ask them. -/
def massChecks : Apply S (Option Refusal) := do
  match ← massDeletionCheck deps with
  | some refusal => return some refusal
  | none => massRelocationCheck deps

def alreadyKept : Refusal where
  code := .alreadyKept
  reason :=
    "Somebody already looked at this move and chose to leave the old copy alone, so it will " ++
    "not be removed now. If that was the wrong call, remove it in the target system " ++
    "yourself — this decision is not re-opened here."

def notRelocated : Refusal where
  code := .notRelocated
  reason :=
    "No relocation is recorded for this item, so there is no new copy to point at and " ++
    "nothing here may be removed. A move that only changed FOLDER on a source keyed by a " ++
    "stable id — mail, calendar, contacts — is reported for you to look at, and the target " ++
    "is left exactly as it is (§11.1)."

def relocationUnconfirmed (reason : String) : Refusal :=
  ⟨.relocationUnconfirmed, reason⟩

/-- What is asked of the arrival's row once it is found: written by us, another
object than the old copy, and for a pair made by bytes the same bytes. -/
def arrivalCheck (row arrival : LedgerRecord) : Option Refusal :=
  if arrival.status ≠ some .copied ∧ arrival.status ≠ some .updated then
    some <| relocationUnconfirmed <|
      "The relocated copy is not one we can vouch for (status " ++ statusText arrival.status ++
      "). Removing this copy is only safe while the same bytes are on the target under the new " ++
      "key, WRITTEN BY THIS MIGRATION. Nothing was removed."
  else if arrival.targetId ≠ "" ∧ arrival.targetId = row.targetId then
    some <| relocationUnconfirmed <|
      "The old copy and the relocated copy are the same object on the target, so removing " ++
      "one would remove both. Nothing was removed."
  else if row.movedByIdentity then
    if row.sourceRef.bind nonEmpty = none ∨ arrival.sourceRef ≠ row.sourceRef then
      some <| relocationUnconfirmed <|
        "This rename was recognised by the document’s own id, and the new copy no longer " ++
        "carries that id, so there is no way to tell it is the same document. Nothing was " ++
        "removed."
    else none
  else if row.contentHash = "" ∨ arrival.contentHash = "" then
    some <| relocationUnconfirmed <|
      "This item has no recorded content hash, so there is no way to confirm the relocated " ++
      "copy holds the same bytes. Nothing was removed."
  else if sameFingerprintVersion arrival.contentHash row.contentHash = false then
    some <| relocationUnconfirmed <|
      "These two copies were fingerprinted by different methods — one of them was recorded " ++
      "by an older version of this product — so there is no way to tell whether they hold " ++
      "the same bytes. That is not evidence they differ, and it is not enough to remove " ++
      "anything on. Nothing was removed."
  else if arrival.contentHash ≠ row.contentHash then
    some <| relocationUnconfirmed <|
      "The relocated copy no longer has the same content as this one, so removing this copy " ++
      "would lose something. The item was probably edited after it was moved. Nothing was " ++
      "removed."
  else none

/-- The ambiguity gate: a third item with these bytes makes the pairing a guess. -/
def sharersCheck (row : LedgerRecord) (placed : List Ledger.PlacedItem) : Option Refusal :=
  let sharing := placed.filter fun item => item.contentHash = row.contentHash
  if 2 < sharing.length then
    some <| relocationUnconfirmed <|
      toString sharing.length ++
      " items in this migration hold exactly these bytes, so which one moved " ++
      "is a guess — and removing the wrong copy takes a file nobody touched. This is what an " ++
      "empty file looks like, and what a duplicate looks like. Remove the old copy in the " ++
      "target system yourself if you are sure, then choose `keep`."
  else none

/-- Gate 3 of a relocation: one is recorded, nobody has answered it, and its
arrival is one the ledger vouches for. -/
def relocationCheck (row : LedgerRecord) : Apply S (Option Refusal) := do
  if row.moveAcknowledgedAt.isSome then return some alreadyKept
  else match row.movedToNaturalKeyHash with
    | none => return some notRelocated
    | some arrivalKey =>
      if arrivalKey = row.naturalKeyHash then
        return some <| relocationUnconfirmed <|
          "This item records a relocation to its own key, which cannot be evidence of anything. " ++
          "Nothing was removed."
      else if arrivalKey = "" then return some notRelocated
      else match ← askLedger (.find deps.domain arrivalKey) with
        | none =>
          return some <| relocationUnconfirmed <|
            "The item this one was relocated to is no longer in the ledger, so the bytes cannot be " ++
            "confirmed present on the target. Nothing was removed."
        | some arrival => match arrivalCheck row arrival with
          | some refusal => return some refusal
          | none =>
            -- an id names one document, so a pair made by it has nothing to count
            if row.movedByIdentity then return none
            else
              let placed ← askLedger (.placedItems deps.domain)
              return sharersCheck row placed

end Gates

end Ownpace
