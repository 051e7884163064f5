/-
Ownpace/Sharing/Press.lean

The presses on the sharing queue (`share-queue.ts`).

A press is a program of calls: to the ledger's list of rows, the target's share API,
the ledger's guarded decision and the audit log.  `ShareWorld` says what the calls do
to the ledger's rows; the target may answer anything.  What a press answers is handed
on; that a call to the audit log may fail is caught, as the source catches it.
-/
import Ownpace.Await.Trace
import Ownpace.Keys.Text
import Ownpace.Sharing.Grouping
import Ownpace.Sharing.Refused

namespace Ownpace.Sharing

open Await Calendar Store

/-! ### Rows -/

inductive RowState : Type
  | opened | applied | doneManual | skipped
  deriving DecidableEq

def RowState.name : RowState → String
  | opened => "open"
  | applied => "applied"
  | doneManual => "done_manual"
  | skipped => "skipped"

structure ShareGrantRow where
  id : Text
  subject : Text
  onLabel : Text
  grantee : Option Text := none
  role : Text
  viaLink : Bool := false
  verdict : Verdict := .clean
  verdictTarget : String := ""
  state : RowState := .opened
  stateReason : Option String := none
  decidedBy : Option String := none
  decidedAt : Option String := none
  itemKey : Option Text := none
  parentKey : Option Text := none
  isContainer : Option Bool := none
  deriving DecidableEq

/-- What grouping reads of a row. -/
def ShareGrantRow.groupable (row : ShareGrantRow) : GroupableGrant where
  id := row.id
  itemKey := row.itemKey
  parentKey := row.parentKey
  isContainer := row.isContainer
  onLabel := row.onLabel
  grantee := row.grantee
  role := row.role

def ShareGrantRow.isOpen (row : ShareGrantRow) : Bool := row.state = .opened

/-- Is it one the tool may create: no link, and nothing a person decides? -/
def ShareGrantRow.addressable (row : ShareGrantRow) : Bool := !row.viaLink && row.verdict = .clean

/-! ### Calls -/

structure ShareDecision where
  state : RowState
  decidedBy : String
  reason : Option String := none
  deriving DecidableEq

inductive ShareAnswer : Type
  | created
  | refused (reason : String) (reasonNl : Option String := none)
      (limited : Option ShareLimit := none) (refusedAs : Option ShareRefusalKind := none)
  deriving DecidableEq

/-- A row that is counted by a press, by kind. -/
structure LeftForChecklist where
  links : Nat
  manual : Nat
  deriving DecidableEq

inductive AuditEvent : Type
  | row (action : String) (grantId on : Text) (grantee sentTo : Option Text) (role : Text)
  | applyAll (attempted applied refused : Nat) (left : LeftForChecklist)
      (waitingForCutover waitingForLimit : Nat)
  | applyFolder (parentKey : Text) (folder : Option Text) (attempted applied refused grantees : Nat)
      (left : LeftForChecklist) (waitingForLimit : Nat)
  deriving DecidableEq

inductive ShareOp : Type
  | listShareGrants
  | createShare (row : ShareGrantRow) (shareWith : Option Text)
  | decideShareGrant (grantId : Text) (decision : ShareDecision)
  | recordAuditEvent (actor : String) (event : AuditEvent)
  deriving DecidableEq

/-- The guarded update returns a row of the id it was asked for. -/
abbrev ShareOp.Reply : ShareOp → Type
  | listShareGrants => List ShareGrantRow
  | createShare .. => ShareAnswer
  | decideShareGrant grantId _ => Option { row : ShareGrantRow // row.id = grantId }
  | recordAuditEvent .. => Unit

abbrev ShareOp.Ans (o : ShareOp) : Type := Except String o.Reply

/-! ### The ledger's rows -/

abbrev ShareDb := Table Text ShareGrantRow ShareGrantRow.id

abbrev ShareEvent := Event ShareDb ShareOp ShareOp.Ans

/-- `set`, of a decision taken at this time. -/
def ShareDecision.set (d : ShareDecision) (decidedAt : String) (row : ShareGrantRow) : ShareGrantRow :=
  { row with
    state := d.state
    decidedBy := some d.decidedBy
    decidedAt := some decidedAt
    stateReason := (d.reason.filter fun reason => reason ≠ "").or row.stateReason }

/-- `update … where id = … and state = 'open'` -/
def ShareDb.decide (t : ShareDb) (grantId : Text) (d : ShareDecision) (decidedAt : String) : ShareDb :=
  t.updateWhere (fun row => row.id = grantId && row.isOpen) (d.set decidedAt) fun _ => rfl

/-- **What the calls do.**  A list is of the rows in some order; a call may reject having
done nothing, and a decision also having been taken. -/
inductive ShareWorld : ShareDb → (o : ShareOp) → o.Ans → ShareDb → Prop
  | listed {t rows} : rows.Perm t.rows → ShareWorld t .listShareGrants (.ok rows) t
  | asked {t row shareWith} (answer : ShareAnswer) :
      ShareWorld t (.createShare row shareWith) (.ok answer) t
  | decided {t grantId d row} (decidedAt : String) (hrow : t.get grantId = some row) :
      row.isOpen = true →
      ShareWorld t (.decideShareGrant grantId d)
        (.ok (some ⟨d.set decidedAt row, (Table.get_key hrow : row.id = grantId)⟩)) (t.decide grantId d decidedAt)
  | settled {t grantId d} : (∀ row, t.get grantId = some row → row.isOpen = false) →
      ShareWorld t (.decideShareGrant grantId d) (.ok none) t
  | recorded {t actor event} : ShareWorld t (.recordAuditEvent actor event) (.ok ()) t
  | failed {t o} (message : String) : ShareWorld t o (.error message) t
  | lost {t grantId d} (decidedAt message : String) :
      ShareWorld t (.decideShareGrant grantId d) (.error message) (t.decide grantId d decidedAt)

/-! ### One row -/

abbrev Pressing (α : Type) := Prog ShareDb ShareOp ShareOp.Ans String α

/-- A call whose rejection ends the press. -/
def ask (o : ShareOp) : Pressing o.Reply := Prog.awaitWith id o

/-- A call whose rejection is caught. -/
def tryAsk (o : ShareOp) : Pressing (Except String o.Reply) := (ask o).attempt

inductive ActionCode : Type
  | notFound | alreadySettled | linkShare | manualOnly | notCutOver | noShareApi | targetLimited
  | targetRefused
  deriving DecidableEq

/-- `ShareActionOutcome` with `ok: false`. -/
structure ActionRefusal where
  code : ActionCode
  reason : String
  reasonNl : Option String := none
  limited : Option ShareLimit := none
  refusedAs : Option ShareRefusalKind := none
  deriving DecidableEq

abbrev ShareActionOutcome (grantId : Text) := Except ActionRefusal { row : ShareGrantRow // row.id = grantId }

/-- `isCutOver`, and whether the target has a share API. -/
structure ApplyShareDeps where
  decidedBy : String
  isCutOver : Text → Bool
  hasShareApi : Bool

def settledReason (row : ShareGrantRow) : String :=
  "This row was settled as '" ++ row.state.name ++ "'" ++
  (match row.decidedBy with | some person => " by " ++ person | none => "") ++
  (match row.decidedAt with | some date => " on " ++ date | none => "") ++
  " — a settled checklist item stays settled."

def findOpenRow (grantId : Text) : Pressing (Except ActionRefusal ShareGrantRow) := do
  let rows ← ask .listShareGrants
  match rows.find? fun row => row.id = grantId with
  | none =>
    return .error { code := .notFound, reason := "No sharing-queue row under that id for this migration." }
  | some row =>
    if row.isOpen then return .ok row
    else return .error { code := .alreadySettled, reason := settledReason row }

/-- A failed audit write does not undo what was settled. -/
def audit (decidedBy action : String) (row : ShareGrantRow) (sentTo : Option Text := none) :
    Pressing Unit := do
  let _ ← tryAsk (.recordAuditEvent decidedBy
    (.row action row.id row.onLabel (row.grantee.bind said)
      ((sentTo.bind said).filter fun address => some address ≠ row.grantee) row.role))
  return ()

/-- What stands in the way before the target is asked. -/
def gateRefusal (deps : ApplyShareDeps) (row : ShareGrantRow) : Option ActionRefusal :=
  if row.viaLink then
    some { code := .linkShare
           reason :=
            "A sharing link has no addressable audience: re-creating it re-opens access to an " ++
            "unknown set of people, and no platform can notify \"whoever had the old link\". " ++
            "Create a new link on the target yourself if you want one, then mark this row done " ++
            "(ADR-0032)." }
  else if row.verdict ≠ .clean then
    some { code := .manualOnly
           reason := "This right has no clean equivalent the tool may create. What to do instead: " ++
            row.verdictTarget }
  else if !deps.isCutOver row.subject then
    some { code := .notCutOver, reason := notCutOverReason [row.subject] }
  else if !deps.hasShareApi then
    some { code := .noShareApi
           reason :=
            "This target has no share API this tool speaks (plain WebDAV, CalDAV and JMAP have " ++
            "no portable share verb). Create the share by hand on the target, then mark this " ++
            "row done." }
  else none

/-- An error thrown by the target is a refusal in its words. -/
def answered : Except String ShareAnswer → ShareAnswer
  | .ok answer => answer
  | .error message => .refused message

def applyShareGrant (deps : ApplyShareDeps) (grantId : Text) (shareWith : Option Text) :
    Pressing (ShareActionOutcome grantId) := do
  let found ← findOpenRow grantId
  match found with
  | .error refusal => return .error refusal
  | .ok row =>
    match gateRefusal deps row with
    | some refusal => return .error refusal
    | none =>
      let created ← tryAsk (.createShare row shareWith)
      match answered created with
      | .refused reason reasonNl (some limited) _ =>
        return .error { code := .targetLimited, reason, reasonNl, limited := some limited }
      | .refused reason reasonNl none refusedAs =>
        return .error { code := .targetRefused, reason, reasonNl, refusedAs }
      | .created =>
        let settled ← ask (.decideShareGrant grantId { state := .applied, decidedBy := deps.decidedBy })
        match settled with
        | none =>
          return .error
            { code := .alreadySettled
              reason := "This row was settled by someone else while the share was being created." }
        | some settled =>
          audit deps.decidedBy "share.applied" settled.1 shareWith
          return .ok settled

/-- The checklist tick, by hand or skipped. -/
def markShareGrant (decidedBy : String) (grantId : Text) (state : RowState) (reason : Option String) :
    Pressing (ShareActionOutcome grantId) := do
  let found ← findOpenRow grantId
  match found with
  | .error refusal => return .error refusal
  | .ok _ =>
    let settled ← ask (.decideShareGrant grantId
      { state, decidedBy, reason := reason.filter fun reason => reason ≠ "" })
    match settled with
    | none =>
      return .error
        { code := .alreadySettled, reason := "This row was settled by someone else first." }
    | some settled =>
      audit decidedBy (if state = .doneManual then "share.done_manual" else "share.skipped") settled.1
      return .ok settled

/-! ### Every row of a press -/

/-- `ShareRowWaiting` -/
structure ShareRowWaiting where
  id : Text
  on : Text
  grantee : Option Text
  deriving DecidableEq

def ShareGrantRow.waiting (row : ShareGrantRow) : ShareRowWaiting where
  id := row.id
  on := row.onLabel
  grantee := row.grantee.bind said

structure RefusedRow extends ShareRowWaiting where
  code : ActionCode
  reason : String
  reasonNl : Option String
  deriving DecidableEq

structure PressLimit where
  retryAfterSeconds : Option Nat
  reason : String
  reasonNl : Option String
  deriving DecidableEq

structure Pressed where
  applied : List ShareGrantRow := []
  refused : List RefusedRow := []
  waitingForLimit : List ShareRowWaiting := []
  limit : Option PressLimit := none
  deriving DecidableEq

/-- What the target refused so far: `spent`, and `signIn`. -/
structure BeforeLimit where
  spent : Nat := 0
  signIn : Bool := false

def BeforeLimit.note (b : BeforeLimit) (r : ActionRefusal) : BeforeLimit :=
  if r.code = .targetRefused then
    if r.refusedAs = some .signIn then { b with signIn := true }
    else if spentTheLimit r.refusedAs then { b with spent := b.spent + 1 }
    else b
  else b

/-- The limit's sentence, after refusals. -/
def BeforeLimit.limit (b : BeforeLimit) (r : ActionRefusal) : PressLimit :=
  let after := limitAfterRefusals b.spent b.signIn
  { retryAfterSeconds := r.limited.bind ShareLimit.retryAfterSeconds
    reason := match after with
      | none => r.reason
      | some after => r.reason ++ " " ++ after.en
    reasonNl := r.reasonNl.map fun reasonNl => match after with
      | none => reasonNl
      | some after => reasonNl ++ " " ++ after.nl }

/-- The rows one after the other; the limit leaves its row and those behind it. -/
def pressRows (deps : ApplyShareDeps) (addressFor : ShareGrantRow → Option Text) :
    List ShareGrantRow → Pressed → BeforeLimit → Pressing Pressed
  | [], pressed, _ => return pressed
  | row :: rows, pressed, before => do
    let outcome ← applyShareGrant deps row.id (addressFor row)
    match outcome with
    | .ok settled =>
      pressRows deps addressFor rows { pressed with applied := pressed.applied ++ [settled.1] } before
    | .error r =>
      if r.code = .targetLimited then
        return { pressed with
          waitingForLimit := (row :: rows).map ShareGrantRow.waiting
          limit := some (before.limit r) }
      else
        pressRows deps addressFor rows
          { pressed with refused := pressed.refused ++
              [{ row.waiting with code := r.code, reason := r.reason, reasonNl := r.reasonNl }] }
          (before.note r)

structure ApplyAllOutcome extends Pressed where
  leftForChecklist : LeftForChecklist
  waitingForCutover : Nat
  deriving DecidableEq

def linksOf (opened : List ShareGrantRow) : List ShareGrantRow := opened.filter ShareGrantRow.viaLink

def manualOf (opened : List ShareGrantRow) : List ShareGrantRow :=
  opened.filter fun row => !row.viaLink && row.verdict ≠ .clean

def addressableOf (opened : List ShareGrantRow) : List ShareGrantRow :=
  opened.filter ShareGrantRow.addressable

/-- The refusal of rows that are not cut over. -/
structure NotCutOver where
  reason : String
  deriving DecidableEq

/-- The one-go press. -/
def applyAllOpenShareGrants (deps : ApplyShareDeps) : Pressing (Except NotCutOver ApplyAllOutcome) := do
  let rows ← ask .listShareGrants
  let opened := rows.filter ShareGrantRow.isOpen
  let left := { links := (linksOf opened).length, manual := (manualOf opened).length }
  let candidates := (addressableOf opened).filter fun row => deps.isCutOver row.subject
  let waiting := (addressableOf opened).filter fun row => !deps.isCutOver row.subject
  if candidates.length = 0 && waiting.length > 0 then
    return .error { reason := notCutOverReason (waiting.map ShareGrantRow.subject) }
  else do
    let pressed ← pressRows deps (fun _ => none) candidates {} {}
    let _ ← tryAsk (.recordAuditEvent deps.decidedBy
      (.applyAll candidates.length pressed.applied.length pressed.refused.length left waiting.length
        pressed.waitingForLimit.length))
    return .ok { pressed with leftForChecklist := left, waitingForCutover := waiting.length }

/-! ### A folder -/

inductive FolderRefusal : Type
  | noSuchFolder
  | notCutOver (reason : String)
  | unconfirmedGrantees (grantees : List Text)
  deriving DecidableEq

/-- The sentence of each. -/
def FolderRefusal.reason : FolderRefusal → String
  | noSuchFolder =>
    "This migration has no folder group under that container. It may have been settled, " ++
    "or a rescan may have regrouped it — reload the checklist and press again."
  | notCutOver reason => reason
  | unconfirmedGrantees grantees =>
    "Applying a whole folder invites every one of these people at once, so each address " ++
    "is confirmed first and " ++ toString grantees.length ++ " " ++
    (if grantees.length = 1 then "has" else "have") ++ " not been: " ++
    ", ".intercalate (grantees.map String.ofList) ++ ". Check each one, then press again."

/-- The address a person confirmed for a grantee, trimmed; the empty one is none. -/
def confirmedFor (confirmed : Text → Option Text) (grantee : Text) : Option Text :=
  ((confirmed grantee).map Keys.trim).bind said

def addressIn (confirmed : Text → Option Text) (row : ShareGrantRow) : Option Text :=
  (row.grantee.bind said).bind (confirmedFor confirmed)

/-- Every person the rows would reach. -/
def neededOf (candidates : List ShareGrantRow) : List Text :=
  (candidates.filterMap fun row => row.grantee.bind said).eraseDups

/-- The open rows of the folder's group. -/
def openInFolder (rows : List ShareGrantRow) (group : ShareGroup) : List ShareGrantRow :=
  rows.filter fun row => group.rowIds.contains row.id && row.isOpen

def groupOfFolder (localeCompare : Text → Text → Int) (rows : List ShareGrantRow) (parentKey : Text) :
    Option ShareGroup :=
  (groupShareGrants localeCompare (rows.map ShareGrantRow.groupable)).groups.find? fun g =>
    g.parentKey = parentKey

/-- One press over one folder. -/
def applyShareGrantsInFolder (localeCompare : Text → Text → Int) (deps : ApplyShareDeps)
    (confirmed : Text → Option Text) (parentKey : Text) :
    Pressing (Except FolderRefusal ApplyAllOutcome) := do
  let rows ← ask .listShareGrants
  match groupOfFolder localeCompare rows parentKey with
  | none => return .error .noSuchFolder
  | some group =>
    let opened := openInFolder rows group
    let left := { links := (linksOf opened).length, manual := (manualOf opened).length }
    let candidates := addressableOf opened
    let early := candidates.filter fun row => !deps.isCutOver row.subject
    if early.length > 0 then
      return .error (.notCutOver (notCutOverReason (early.map ShareGrantRow.subject)))
    else
      let needed := neededOf candidates
      let unconfirmed := sorted (needed.filter fun g => (confirmedFor confirmed g).isNone)
      if unconfirmed.length > 0 then return .error (.unconfirmedGrantees unconfirmed)
      else do
        let pressed ← pressRows deps (addressIn confirmed) candidates {} {}
        let _ ← tryAsk (.recordAuditEvent deps.decidedBy
          (.applyFolder parentKey (group.label.bind said) candidates.length pressed.applied.length
            pressed.refused.length needed.length left pressed.waitingForLimit.length))
        return .ok { pressed with leftForChecklist := left, waitingForCutover := 0 }

/-! ### What a person does -/

/-- A press or a tick. -/
inductive Press : Type
  | one (deps : ApplyShareDeps) (grantId : Text) (shareWith : Option Text)
  | all (deps : ApplyShareDeps)
  | folder (localeCompare : Text → Text → Int) (deps : ApplyShareDeps)
      (confirmed : Text → Option Text) (parentKey : Text)
  | doneManual (decidedBy : String) (grantId : Text) (reason : Option String)
  | skip (decidedBy : String) (grantId : Text) (reason : Option String)

def Press.prog : Press → Pressing Unit
  | one deps grantId shareWith => do
    let _ ← applyShareGrant deps grantId shareWith
    return ()
  | all deps => do
    let _ ← applyAllOpenShareGrants deps
    return ()
  | folder localeCompare deps confirmed parentKey => do
    let _ ← applyShareGrantsInFolder localeCompare deps confirmed parentKey
    return ()
  | doneManual decidedBy grantId reason => do
    let _ ← markShareGrant decidedBy grantId .doneManual reason
    return ()
  | skip decidedBy grantId reason => do
    let _ ← markShareGrant decidedBy grantId .skipped reason
    return ()

end Ownpace.Sharing
