/-
Ownpace/Offboarding/Closing.lean

Ending the service for an organisation (`offboarding.ts`, `quiesce.ts`,
`erasure-timeline.ts`): what a close, a reopen and the purge do to its rows,
and what the quiesce decides about its runs.

The rows are one organisation's.  A close and a reopen are each one transaction,
and `none` is one that threw and was rolled back.
-/
import Mathlib.Data.List.Basic

namespace Ownpace.Offboarding

/-! ### Rows -/

inductive TenantStatus where
  | active | suspended | closed | deleting
  deriving DecidableEq

/-- A row of `tenant_closure`.  `record` is not a column: it is the place of the
erasure record that the same close wrote. -/
structure Closure where
  closedAt : Int
  purgeAfter : Int
  closedBy : String
  record : Nat
  deriving DecidableEq

inductive RevocationStatus where
  | revoked | failed | unsupported | noCredential
  deriving DecidableEq

structure RevocationOutcome where
  kind : String
  status : RevocationStatus
  reason : Option String
  deriving DecidableEq

/-- A row of `erasure_record`. -/
structure ErasureRecord where
  requestedAt : Int
  windowDays : Int
  backupRetentionDays : Nat
  backupsExpireAt : Int
  purgedAt : Option Int
  revocations : List RevocationOutcome
  deriving DecidableEq

inductive RunStatus where
  | queued | running | succeeded | failed | cancelled
  deriving DecidableEq

/-- The statuses the purge reads as live. -/
def RunStatus.live : RunStatus → Bool
  | .queued => true
  | .running => true
  | .succeeded => false
  | .failed => false
  | .cancelled => false

def RunStatus.word : RunStatus → String
  | .queued => "queued"
  | .running => "running"
  | .succeeded => "succeeded"
  | .failed => "failed"
  | .cancelled => "cancelled"

structure RunRow where
  id : Nat
  orchestratorRef : Option String
  status : RunStatus
  since : Int
  quiesceReason : Option String
  deriving DecidableEq

/-- An organisation's rows; no `status` means that the tenant row is gone. -/
structure Org where
  status : Option TenantStatus
  closure : Option Closure
  records : List ErasureRecord
  runs : List RunRow
  deriving DecidableEq

def Org.liveRuns (o : Org) : List RunRow := o.runs.filter (·.status.live)

/-! ### A close and a reopen -/

def dayMs : Int := 24 * 60 * 60 * 1000

structure ErasureTimeline where
  purgeAfter : Int
  backupsExpireAt : Int
  windowDays : Nat
  backupRetentionDays : Nat

def erasureTimeline (closedAt : Int) (windowDays backupRetentionDays : Nat) : ErasureTimeline where
  purgeAfter := closedAt + windowDays * dayMs
  backupsExpireAt := closedAt + windowDays * dayMs + backupRetentionDays * dayMs
  windowDays := windowDays
  backupRetentionDays := backupRetentionDays

/-- `closeTenant`: the status with its guard, the closure row written over, and
one more erasure record. -/
def closeTenant (o : Org) (windowDays : Nat) (closedBy : String) (now : Int)
    (backupRetentionDays : Nat) : Option Org :=
  let timeline := erasureTimeline now windowDays backupRetentionDays
  if o.status.isNone ∨ o.status = some .deleting then none
  else some
    { o with
      status := some .closed
      closure := some ⟨now, timeline.purgeAfter, closedBy, o.records.length⟩
      records := o.records ++
        [⟨now, windowDays, timeline.backupRetentionDays, timeline.backupsExpireAt, none, []⟩] }

/-- What a reopen writes on the records that were not purged. -/
def ErasureRecord.undo (r : ErasureRecord) : ErasureRecord :=
  if r.purgedAt.isNone then { r with windowDays := -1 } else r

/-- `reopenTenant`: deleting the closure row carries the whole condition. -/
def reopenTenant (o : Org) (now : Int) : Option Org :=
  if o.closure.any (now < ·.purgeAfter) then some
    { o with
      status := if o.status = some .closed then some .active else o.status
      closure := none
      records := o.records.map ErasureRecord.undo }
  else none

/-! ### The purge -/

/-- What the purge writes on the records that were not purged. -/
def ErasureRecord.stamp (now : Int) (revocations : List RevocationOutcome) (r : ErasureRecord) :
    ErasureRecord :=
  if r.purgedAt.isNone then { r with purgedAt := some now, revocations := revocations } else r

/-- `purgeTenant`, on its rows here. -/
def purgeTenant (o : Org) (now : Int) (revocations : List RevocationOutcome) : Org where
  status := none
  closure := none
  runs := []
  records := o.records.map (ErasureRecord.stamp now revocations)

/-- The places of the records that a purge stamps. -/
def Org.unpurged (o : Org) : List Nat :=
  (List.range o.records.length).filter fun i => o.records[i]?.any (·.purgedAt.isNone)

/-- The due rows' query: `status = 'closed' AND purge_after <= now`. -/
def Org.dueAt (o : Org) (now : Int) : Option Closure :=
  if o.status = some .closed then o.closure.filter (·.purgeAfter ≤ now) else none

/-! ### The quiesce -/

inductive OrchestratorVerdict where
  | live | finished | unknown
  deriving DecidableEq

structure QuiescingRun where
  id : Nat
  orchestratorRef : Option String
  status : RunStatus
  since : Int
  verdict : OrchestratorVerdict
  deriving DecidableEq

structure StaleRun where
  id : Nat
  reason : String
  deriving DecidableEq

structure QuiescePlan where
  landStale : List StaleRun
  cancel : List Nat
  blockedBy : List String
  needsAttention : Bool
  deriving DecidableEq

def QuiescePlan.mayPurge (plan : QuiescePlan) : Bool := plan.blockedBy.isEmpty

def defaultStaleAfterMs : Int := 24 * 60 * 60 * 1000

/-- `if (run.orchestratorRef)`, where an empty one counts as none. -/
def handleOf (ref : Option String) : Option String := ref.filter (· ≠ "")

/-- `quiescePlan` -/
def quiescePlan (now staleAfterMs : Int) : List QuiescingRun → QuiescePlan
  | [] => ⟨[], [], [], false⟩
  | run :: runs =>
    let plan := quiescePlan now staleAfterMs runs
    let ageMs := now - run.since
    match run.verdict, handleOf run.orchestratorRef with
    | .finished, _ =>
      { plan with landStale :=
          ⟨run.id, "landed by the erasure quiesce: the row still said " ++ run.status.word ++
            ", and the orchestrator reports this run is no longer executing."⟩ :: plan.landStale }
    | .live, _ =>
      { plan with
        cancel := run.id :: plan.cancel
        blockedBy := (toString run.id ++ ": still executing; cancellation requested") :: plan.blockedBy }
    | .unknown, some ref =>
      { plan with
        blockedBy :=
          (toString run.id ++ ": the orchestrator could not be asked about " ++ ref) :: plan.blockedBy
        needsAttention := true }
    | .unknown, none =>
      if staleAfterMs ≤ ageMs then
        { plan with landStale :=
            ⟨run.id, "landed by the erasure quiesce: no orchestrator handle was recorded and the row has said " ++
              run.status.word ++ " for over " ++ toString (staleAfterMs / 3600000) ++
              "h, which no live pass does."⟩ :: plan.landStale }
      else
        { plan with blockedBy :=
            (toString run.id ++ ": no orchestrator handle, and only " ++ toString (ageMs / 60000) ++ "m old") ::
              plan.blockedBy }

/-- One row as `verdictsFor` hands it on: without a handle nobody is asked. -/
def RunRow.asked (r : RunRow) (answer : OrchestratorVerdict) : QuiescingRun where
  id := r.id
  orchestratorRef := r.orchestratorRef
  status := r.status
  since := r.since
  verdict := if (handleOf r.orchestratorRef).isNone then .unknown else answer

/-- The update that lands a row. -/
def Org.land (o : Org) (stale : StaleRun) : Org :=
  { o with runs := o.runs.map fun r =>
      if r.id = stale.id then { r with status := .cancelled, quiesceReason := some stale.reason } else r }

/-- `finishRun`, of the run store; the outcome is never one of the live ones. -/
def Org.finishRun (o : Org) (id : Nat) (outcome : RunStatus) : Org :=
  { o with runs := o.runs.map fun r => if r.id = id then { r with status := outcome } else r }

/-- What the quiesce says of a run that it lets go. -/
def QuiescingRun.Gone (now staleAfterMs : Int) (run : QuiescingRun) : Prop :=
  run.verdict = .finished ∨
    run.verdict = .unknown ∧ handleOf run.orchestratorRef = none ∧ staleAfterMs ≤ now - run.since

/-- **A plan that lets the purge on lands every run it was asked about**, each
finished or without a handle and too old; so none was live, and none was unknown
with a handle to ask about. -/
theorem quiescePlan_mayPurge {now staleAfterMs : Int} {runs : List QuiescingRun}
    (h : (quiescePlan now staleAfterMs runs).mayPurge = true) :
    ∀ run ∈ runs, run.Gone now staleAfterMs ∧
      run.id ∈ (quiescePlan now staleAfterMs runs).landStale.map StaleRun.id := by
  induction runs with
  | nil => exact fun run hrun => absurd hrun List.not_mem_nil
  | cons run runs ih =>
    have key : run.Gone now staleAfterMs ∧
        (quiescePlan now staleAfterMs runs).mayPurge = true ∧
        (quiescePlan now staleAfterMs (run :: runs)).landStale.map StaleRun.id =
          run.id :: (quiescePlan now staleAfterMs runs).landStale.map StaleRun.id := by
      rw [quiescePlan] at h ⊢
      unfold QuiescingRun.Gone
      cases hv : run.verdict with
      | finished =>
        simp only [hv] at h ⊢
        exact ⟨.inl trivial, h, rfl⟩
      | live =>
        simp only [hv] at h
        cases h
      | unknown =>
        cases hr : handleOf run.orchestratorRef with
        | some ref =>
          simp only [hv, hr] at h
          cases h
        | none =>
          simp only [hv, hr] at h ⊢
          by_cases hage : staleAfterMs ≤ now - run.since
          · rw [if_pos hage] at h ⊢
            exact ⟨.inr ⟨trivial, trivial, hage⟩, h, rfl⟩
          · rw [if_neg hage] at h
            cases h
    obtain ⟨hgone, hrest, hmap⟩ := key
    intro r hr
    rw [hmap]
    rcases List.mem_cons.mp hr with rfl | hr
    · exact ⟨hgone, List.mem_cons_self⟩
    · exact ⟨(ih hrest r hr).1, List.mem_cons_of_mem _ (ih hrest r hr).2⟩

end Ownpace.Offboarding
