/-
Ownpace/Offboarding/Erasure.lean

The purge job (`managed-purge-closed.ts`) among the closes and reopens of one
organisation, in any order, with any number of runs of the job.

A run of the job reads the organisation as due, reads its live runs, asks the
orchestrator about them, lands the stale ones, revokes the credentials, changes
the status to deleting and purges.  Between any two of these everything else may
happen; from the change to deleting to the end of its transaction the tenant row
is locked, and a close and a reopen wait for it.

  `erased_only_due` — where the closure row is still the one that was read, no
  run has been added since the quiesce and there is one record, only what is due
  is erased, and its record says so.
-/
import Ownpace.Offboarding.Closing

namespace Ownpace.Offboarding

/-! ### The job -/

/-- What the change to deleting met, and when. -/
structure Moment where
  clock : Int
  status : Option TenantStatus
  closure : Option Closure
  deriving DecidableEq

inductive JobPhase where
  | due
  | asking (rows : List RunRow)
  | landing (todo : List StaleRun) (mayPurge : Bool)
  | revoked (outcomes : List RevocationOutcome)
  /-- In the transaction; `met` is none where the tenant row was gone. -/
  | erasing (met : Option Moment) (outcomes : List RevocationOutcome)
  | over
  deriving DecidableEq

/-- A run of the job that has read the organisation as due.  `seen` is the
closure row that the due rows' query joined, and `asked` what the quiesce was
asked; the code keeps neither. -/
structure Job where
  now : Int
  seen : Closure
  asked : List QuiescingRun
  phase : JobPhase
  deriving DecidableEq

/-- A purge that found the organisation, as it was done. -/
structure Purge where
  met : Moment
  now : Int
  asked : List QuiescingRun
  live : List RunRow
  stamped : List Nat
  deriving DecidableEq

structure Plane where
  org : Org
  clock : Int
  jobs : List Job
  /-- The job whose transaction holds the tenant row. -/
  lock : Option Nat
  purges : List Purge
  deriving DecidableEq

/-! ### Steps -/

inductive JobMove where
  | readRuns
  | quiesce (answer : RunRow → OrchestratorVerdict)
  | land
  | revoke (outcomes : List RevocationOutcome)
  | erase
  | purge
  | rollback

inductive Move where
  | tick (clock : Int)
  | close (windowDays : Nat) (closedBy : String) (now : Int) (backupRetentionDays : Nat)
  | reopen (now : Int)
  | startRun (row : RunRow)
  | finishRun (id : Nat) (outcome : RunStatus)
  | readDue (now : Int)
  | job (i : Nat) (move : JobMove)

namespace Plane

/-- Is this the id of a run that there is, or that a job asked about? -/
def knows (p : Plane) (id : Nat) : Bool :=
  p.org.runs.any (·.id = id) || p.jobs.any (·.asked.any (·.id = id))

def setJob (p : Plane) (i : Nat) (j : Job) : Plane := { p with jobs := p.jobs.set i j }

/-- Run `i` of the job goes on; `none` where it is elsewhere, or waits for the
row. -/
def jobStep (p : Plane) (i : Nat) (j : Job) : JobMove → Option Plane
  | .readRuns =>
    if j.phase = .due then some (p.setJob i { j with phase := .asking p.org.liveRuns }) else none
  | .quiesce answer =>
    match j.phase with
    | .asking rows =>
      let asked := rows.map fun r => r.asked (answer r)
      let plan := quiescePlan j.now defaultStaleAfterMs asked
      some (p.setJob i { j with asked := asked, phase := .landing plan.landStale plan.mayPurge })
    | _ => none
  | .land =>
    match j.phase with
    | .landing (stale :: todo) mayPurge =>
      some { p.setJob i { j with phase := .landing todo mayPurge } with org := p.org.land stale }
    | .landing [] false => some (p.setJob i { j with phase := .over })
    | _ => none
  | .revoke outcomes =>
    if j.phase = .landing [] true then some (p.setJob i { j with phase := .revoked outcomes }) else none
  | .erase =>
    match j.phase with
    | .revoked outcomes =>
      if p.org.status.isNone then some (p.setJob i { j with phase := .erasing none outcomes })
      else if p.lock.isSome then none
      else some
        { p.setJob i { j with phase := .erasing (some ⟨p.clock, p.org.status, p.org.closure⟩) outcomes } with
          lock := some i }
    | _ => none
  | .purge =>
    match j.phase with
    | .erasing none outcomes =>
      some { p.setJob i { j with phase := .over } with org := purgeTenant p.org j.now outcomes }
    | .erasing (some met) outcomes =>
      some
        { p.setJob i { j with phase := .over } with
          org := purgeTenant p.org j.now outcomes
          lock := none
          purges := p.purges ++ [⟨met, j.now, j.asked, p.org.liveRuns, p.org.unpurged⟩] }
    | _ => none
  | .rollback =>
    match j.phase with
    | .erasing none _ => some (p.setJob i { j with phase := .over })
    | .erasing (some _) _ => some { p.setJob i { j with phase := .over } with lock := none }
    | _ => none

def step (p : Plane) : Move → Option Plane
  | .tick clock => if p.clock ≤ clock then some { p with clock := clock } else none
  | .close windowDays closedBy now backupRetentionDays =>
    if p.lock.isSome then none
    else (closeTenant p.org windowDays closedBy now backupRetentionDays).map fun o => { p with org := o }
  | .reopen now =>
    if p.lock.isSome then none else (reopenTenant p.org now).map fun o => { p with org := o }
  | .startRun row =>
    if p.org.status.isNone || p.knows row.id then none
    else some { p with org := { p.org with runs := p.org.runs ++ [row] } }
  | .finishRun id outcome =>
    if outcome.live then none else some { p with org := p.org.finishRun id outcome }
  | .readDue now =>
    if p.clock < now then none
    else (p.org.dueAt now).map fun c => { p with jobs := p.jobs ++ [⟨now, c, [], .due⟩] }
  | .job i move => p.jobs[i]?.bind fun j => p.jobStep i j move

/-- An organisation that was never closed, and no run of the job. -/
def start (runs : List RunRow) (clock : Int) : Plane :=
  ⟨⟨some .active, none, [], runs⟩, clock, [], none, []⟩

/-- The states of the runs whose steps all meet a condition. -/
inductive Reached (Meets : Plane → Move → Prop) : Plane → Prop
  | start (runs : List RunRow) (clock : Int) : Reached Meets (start runs clock)
  | step {p q : Plane} (move : Move) :
      Reached Meets p → Meets p move → p.step move = some q → Reached Meets q

end Plane

/-! ### What is due, and what the record says -/

/-- The organisation was closed, with a purge date that has passed. -/
def Moment.Due (m : Moment) (c : Closure) : Prop :=
  m.status = some .closed ∧ m.closure = some c ∧ c.purgeAfter ≤ m.clock

/-- A purge that erased what was due, under no live run, and stamped the record
of the close in force and no other. -/
def Purge.Right (e : Purge) : Prop :=
  (∃ c, e.met.Due c ∧ e.stamped = [c.record]) ∧ e.live = [] ∧
    ∀ run ∈ e.asked, run.Gone e.now defaultStaleAfterMs

structure Plane.Right (p : Plane) : Prop where
  /-- Nothing is open with a purge still scheduled. -/
  calm : p.org.status = some .active → p.org.closure = none
  purges : ∀ e ∈ p.purges, e.Right
  /-- Only the record of a close that was in force says that it was purged. -/
  records : ∀ i r, p.org.records[i]? = some r → r.purgedAt ≠ none →
    ∃ e ∈ p.purges, ∃ c, e.met.closure = some c ∧ i = c.record

/-- A run of the job changes the status only while the closure row is the one it
read, and purges only where every live run is one that the quiesce was asked
about and the organisation has one erasure record.  Of an organisation that is
gone nothing is asked. -/
def Undisturbed (p : Plane) : Move → Prop
  | .job i .erase => ∀ j, p.jobs[i]? = some j → p.org.status = none ∨ p.org.closure = some j.seen
  | .job i .purge => ∀ j, p.jobs[i]? = some j → p.org.status = none ∨
      (∀ r ∈ p.org.liveRuns, ∃ run ∈ j.asked, run.id = r.id) ∧ p.org.records.length = 1
  | _ => True

/-! ### What every step keeps -/

/-- No run of this id is live. -/
def Org.Ended (o : Org) (id : Nat) : Prop := ∀ r ∈ o.runs, r.id = id → r.status.live = false

structure Org.Kept (o : Org) (purges : List Purge) : Prop where
  closed : ∀ c, o.closure = some c → o.status = some .closed ∧ c.record + 1 = o.records.length
  here : o.status ≠ none → ∀ r ∈ o.records, r.purgedAt = none
  gone : o.status = none → ∀ r ∈ o.records, r.purgedAt ≠ none
  marked : ∀ i r, o.records[i]? = some r → r.purgedAt ≠ none →
    ∃ e ∈ purges, ∃ c, e.met.closure = some c ∧ i = c.record

/-- Every run that was asked about may be let go, and has ended. -/
def Job.Quiet (o : Org) (j : Job) : Prop :=
  ∀ run ∈ j.asked, run.Gone j.now defaultStaleAfterMs ∧ o.Ended run.id

structure Job.Kept (o : Org) (clock : Int) (lock : Option Nat) (i : Nat) (j : Job) : Prop where
  now : j.now ≤ clock
  due : j.seen.purgeAfter ≤ j.now
  landing : ∀ todo, j.phase = .landing todo true → ∀ run ∈ j.asked,
    run.Gone j.now defaultStaleAfterMs ∧ (run.id ∈ todo.map StaleRun.id ∨ o.Ended run.id)
  revoked : ∀ outcomes, j.phase = .revoked outcomes → j.Quiet o
  erasing : ∀ met outcomes, j.phase = .erasing met outcomes → j.Quiet o
  held : ∀ met outcomes, j.phase = .erasing (some met) outcomes →
    lock = some i ∧ o.status = met.status ∧ o.closure = met.closure ∧ met.Due j.seen
  absent : ∀ outcomes, j.phase = .erasing none outcomes → o.status = none

structure Plane.Kept (p : Plane) : Prop where
  org : p.org.Kept p.purges
  jobs : ∀ (i : Nat) (j : Job), p.jobs[i]? = some j → j.Kept p.org p.clock p.lock i
  purges : ∀ e ∈ p.purges, e.Right

/-! ### The organisation's own steps -/

variable {o o' : Org} {purges : List Purge}

theorem closeTenant_kept {windowDays retention : Nat} {closedBy : String} {now : Int}
    (h : closeTenant o windowDays closedBy now retention = some o') (hk : o.Kept purges) :
    o'.Kept purges ∧ o'.runs = o.runs := by
  unfold closeTenant at h
  by_cases hrefused : o.status.isNone ∨ o.status = some .deleting
  · simp only [if_pos hrefused] at h
    cases h
  · simp only [if_neg hrefused] at h
    cases h
    have hhere : o.status ≠ none := fun h => hrefused (.inl (by rw [h]; rfl))
    refine ⟨⟨fun c hc => ?_, fun _ r hr => ?_, fun h => absurd h (by simp), fun i r hi hr => ?_⟩, rfl⟩
    · cases hc
      exact ⟨rfl, by simp⟩
    · rcases List.mem_append.mp hr with hr | hr
      · exact hk.here hhere r hr
      · rw [List.mem_singleton.mp hr]
    · rcases List.mem_append.mp (List.mem_of_getElem? hi) with hmem | hmem
      · exact absurd (hk.here hhere r hmem) hr
      · rw [List.mem_singleton.mp hmem] at hr
        exact absurd rfl hr

@[simp] theorem ErasureRecord.undo_purgedAt (r : ErasureRecord) : r.undo.purgedAt = r.purgedAt := by
  unfold ErasureRecord.undo
  split <;> rfl

theorem reopenTenant_closure {now : Int} (h : reopenTenant o now = some o') :
    ∃ c, o.closure = some c := by
  unfold reopenTenant at h
  split at h
  · rename_i hopen
    obtain ⟨c, hc, -⟩ := (Option.any_eq_true _ _).mp hopen
    exact ⟨c, hc⟩
  · cases h

theorem reopenTenant_kept {now : Int} (h : reopenTenant o now = some o') (hk : o.Kept purges) :
    o'.Kept purges ∧ o'.runs = o.runs := by
  by_cases hopen : o.closure.any (now < ·.purgeAfter) = true
  · obtain ⟨c, hc⟩ := reopenTenant_closure h
    rw [reopenTenant, if_pos hopen] at h
    cases h
    obtain ⟨hclosed, -⟩ := hk.closed c hc
    have hhere : o.status ≠ none := by
      rw [hclosed]
      exact Option.some_ne_none _
    have hnone : ∀ r ∈ o.records.map ErasureRecord.undo, r.purgedAt = none := by
      intro r hr
      obtain ⟨r, hmem, rfl⟩ := List.mem_map.mp hr
      rw [ErasureRecord.undo_purgedAt]
      exact hk.here hhere r hmem
    refine ⟨⟨fun c hc => absurd hc (Option.some_ne_none c).symm, fun _ => hnone, fun h => ?_, fun i r hi hr => ?_⟩, rfl⟩
    · dsimp only at h
      rw [if_pos hclosed] at h
      cases h
    · exact absurd (hnone r (List.mem_of_getElem? hi)) hr
  · rw [reopenTenant, if_neg hopen] at h
    cases h

theorem ErasureRecord.stamp_purgedAt (now : Int) (outcomes : List RevocationOutcome)
    (r : ErasureRecord) : (r.stamp now outcomes).purgedAt ≠ none := by
  unfold ErasureRecord.stamp
  cases hr : r.purgedAt with
  | none =>
    rw [if_pos Option.isNone_none]
    exact Option.some_ne_none now
  | some t =>
    rw [Option.isNone_some, if_neg Bool.false_ne_true, hr]
    exact Option.some_ne_none t

/-- Purging an organisation that is gone changes none of its records. -/
theorem purgeTenant_gone {now : Int} {outcomes : List RevocationOutcome} (hk : o.Kept purges)
    (hgone : o.status = none) : (purgeTenant o now outcomes).Kept purges := by
  have hsame : o.records.map (ErasureRecord.stamp now outcomes) = o.records := by
    refine (List.map_congr_left fun r hr => ?_).trans (List.map_id _)
    show r.stamp now outcomes = r
    unfold ErasureRecord.stamp
    rw [if_neg]
    rw [Option.isNone_iff_eq_none]
    exact hk.gone hgone r hr
  refine ⟨fun c hc => absurd hc (Option.some_ne_none c).symm, fun h => absurd rfl h, fun _ r hr => ?_, ?_⟩
  · dsimp only [purgeTenant] at hr
    exact hk.gone hgone r (hsame ▸ hr)
  · show ∀ i r, (o.records.map (ErasureRecord.stamp now outcomes))[i]? = some r → _
    rw [hsame]
    exact hk.marked

/-- A purge of a closed organisation with one record stamps it. -/
theorem purgeTenant_kept {c : Closure} {e : Purge} (now : Int) (outcomes : List RevocationOutcome)
    (hk : o.Kept purges) (hc : o.closure = some c) (hone : o.records.length = 1)
    (he : e.met.closure = some c) :
    o.unpurged = [c.record] ∧ (purgeTenant o now outcomes).Kept (purges ++ [e]) := by
  obtain ⟨hclosed, hlast⟩ := hk.closed c hc
  have hzero : c.record = 0 := by omega
  obtain ⟨r, hr⟩ := List.length_eq_one_iff.mp hone
  have hnone : r.purgedAt = none :=
    hk.here (by rw [hclosed]; exact Option.some_ne_none _) r (by rw [hr]; exact List.mem_singleton_self r)
  refine ⟨?_, fun c hc => absurd hc (Option.some_ne_none c).symm, fun h => absurd rfl h, fun _ r hr => ?_,
    fun i r' hi _ => ⟨e, List.mem_append_right _ (List.mem_singleton_self e), c, he, ?_⟩⟩
  · unfold Org.unpurged
    rw [hr, hzero]
    simp [List.range_succ, hnone]
  · obtain ⟨r, -, rfl⟩ := List.mem_map.mp hr
    exact r.stamp_purgedAt now outcomes
  · have hlt := (List.getElem?_eq_some_iff.mp hi).1
    simp only [purgeTenant, List.length_map] at hlt
    omega

/-! ### The runs of the job -/

variable {p q : Plane} {i : Nat} {j : Job} {clock clock' : Int} {lock lock' : Option Nat}

theorem Org.Ended.finishRun {id id' : Nat} {outcome : RunStatus} (h : o.Ended id)
    (hout : outcome.live = false) : (o.finishRun id' outcome).Ended id := by
  intro r hr hid
  obtain ⟨r, hmem, rfl⟩ := List.mem_map.mp hr
  by_cases hthis : r.id = id'
  · rw [if_pos hthis]
    exact hout
  · rw [if_neg hthis] at hid ⊢
    exact h r hmem hid

theorem Org.Ended.land {id : Nat} {stale : StaleRun} (h : o.Ended id) : (o.land stale).Ended id := by
  intro r hr hid
  obtain ⟨r, hmem, rfl⟩ := List.mem_map.mp hr
  by_cases hthis : r.id = stale.id
  · rw [if_pos hthis]
    rfl
  · rw [if_neg hthis] at hid ⊢
    exact h r hmem hid

theorem Org.ended_landed (o : Org) (stale : StaleRun) : (o.land stale).Ended stale.id := by
  intro r hr hid
  obtain ⟨r, hmem, rfl⟩ := List.mem_map.mp hr
  by_cases hthis : r.id = stale.id
  · rw [if_pos hthis]
    rfl
  · rw [if_neg hthis] at hid
    exact absurd hid hthis

/-- What happens elsewhere keeps a run of the job: the runs it asked about stay
ended, and while it holds the row nothing changes the status and the closure. -/
theorem Job.Kept.other (h : j.Kept o clock lock i) (hclock : clock ≤ clock')
    (hended : ∀ run ∈ j.asked, o.Ended run.id → o'.Ended run.id)
    (hgone : o.status = none → o'.status = none)
    (hlock : lock = some i → lock' = some i ∧ o'.status = o.status ∧ o'.closure = o.closure) :
    j.Kept o' clock' lock' i where
  now := Int.le_trans h.now hclock
  due := h.due
  landing := fun todo hphase run hrun =>
    ⟨(h.landing todo hphase run hrun).1, (h.landing todo hphase run hrun).2.imp_right (hended run hrun)⟩
  revoked := fun outcomes hphase run hrun =>
    ⟨(h.revoked outcomes hphase run hrun).1, hended run hrun (h.revoked outcomes hphase run hrun).2⟩
  erasing := fun met outcomes hphase run hrun =>
    ⟨(h.erasing met outcomes hphase run hrun).1,
      hended run hrun (h.erasing met outcomes hphase run hrun).2⟩
  held := fun met outcomes hphase => by
    obtain ⟨hheld, hstatus, hclosure, hdue⟩ := h.held met outcomes hphase
    obtain ⟨hlock', hstatus', hclosure'⟩ := hlock hheld
    exact ⟨hlock', hstatus'.trans hstatus, hclosure'.trans hclosure, hdue⟩
  absent := fun outcomes hphase => hgone (h.absent outcomes hphase)

/-- Every run of the job is kept where one moves and the others see nothing. -/
theorem Plane.Kept.setJob {j' : Job} (hk : p.Kept) (hi : p.jobs[i]? = some j)
    (hself : j'.Kept o' p.clock lock' i)
    (hended : ∀ (k : Nat) (jk : Job), p.jobs[k]? = some jk → ∀ run ∈ jk.asked, p.org.Ended run.id → o'.Ended run.id)
    (hgone : p.org.status = none → o'.status = none)
    (hlock : ∀ k, k ≠ i → p.lock = some k →
      lock' = some k ∧ o'.status = p.org.status ∧ o'.closure = p.org.closure) :
    ∀ (k : Nat) (jk : Job), (p.jobs.set i j')[k]? = some jk → jk.Kept o' p.clock lock' k := by
  intro k jk hjk
  by_cases hki : i = k
  · subst hki
    rw [List.getElem?_set_self (List.getElem?_eq_some_iff.mp hi).1] at hjk
    cases hjk
    exact hself
  · rw [List.getElem?_set_ne hki] at hjk
    exact (hk.jobs k jk hjk).other (Int.le_refl _) (hended k jk hjk) hgone (hlock k (Ne.symm hki))

/-- A job's step that leaves the organisation and the lock as they are. -/
theorem Plane.Kept.moves {j' : Job} (hk : p.Kept) (hi : p.jobs[i]? = some j)
    (hself : j'.Kept p.org p.clock p.lock i) : (p.setJob i j').Kept where
  org := hk.org
  jobs := hk.setJob hi hself (fun _ _ _ _ _ h => h) id fun _ _ h => ⟨h, rfl, rfl⟩
  purges := hk.purges

theorem Plane.Kept.readRuns (hk : p.Kept) (hi : p.jobs[i]? = some j)
    (h : p.jobStep i j .readRuns = some q) : q.Kept := by
  simp only [Plane.jobStep] at h
  by_cases hphase : j.phase = .due
  · rw [if_pos hphase] at h
    cases h
    have hj := hk.jobs i j hi
    exact hk.moves hi ⟨hj.now, hj.due, by simp, by simp, by simp, by simp, by simp⟩
  · rw [if_neg hphase] at h
    cases h

theorem Plane.Kept.quiesce {answer : RunRow → OrchestratorVerdict} (hk : p.Kept)
    (hi : p.jobs[i]? = some j) (h : p.jobStep i j (.quiesce answer) = some q) : q.Kept := by
  simp only [Plane.jobStep] at h
  split at h
  · cases h
    have hj := hk.jobs i j hi
    refine hk.moves hi ⟨hj.now, hj.due, fun todo hphase run hrun => ?_, by simp, by simp, by simp, by simp⟩
    injection hphase with htodo hmay
    rw [← htodo]
    exact (quiescePlan_mayPurge hmay run hrun).imp_right .inl
  · cases h

theorem Plane.Kept.land (hk : p.Kept) (hi : p.jobs[i]? = some j)
    (h : p.jobStep i j .land = some q) : q.Kept := by
  have hj := hk.jobs i j hi
  simp only [Plane.jobStep] at h
  split at h
  · rename_i stale todo mayPurge hphase
    cases h
    refine ⟨⟨hk.org.closed, hk.org.here, hk.org.gone, hk.org.marked⟩,
      hk.setJob hi ⟨hj.now, hj.due, fun todo' hphase' run hrun => ?_, by simp, by simp, by simp, by simp⟩
        (fun _ _ _ _ _ h => h.land) id fun _ _ h => ⟨h, rfl, rfl⟩, hk.purges⟩
    injection hphase' with htodo hmay
    subst htodo hmay
    obtain ⟨hgone, htodo | hended⟩ := hj.landing _ hphase run hrun
    · refine ⟨hgone, ?_⟩
      rcases List.mem_cons.mp htodo with hid | htodo
      · rw [hid]
        exact .inr (p.org.ended_landed stale)
      · exact .inl htodo
    · exact ⟨hgone, .inr hended.land⟩
  · cases h
    exact hk.moves hi ⟨hj.now, hj.due, by simp, by simp, by simp, by simp, by simp⟩
  · cases h

theorem Plane.Kept.revoke {outcomes : List RevocationOutcome} (hk : p.Kept) (hi : p.jobs[i]? = some j)
    (h : p.jobStep i j (.revoke outcomes) = some q) : q.Kept := by
  simp only [Plane.jobStep] at h
  by_cases hphase : j.phase = .landing [] true
  · rw [if_pos hphase] at h
    cases h
    have hj := hk.jobs i j hi
    refine hk.moves hi ⟨hj.now, hj.due, by simp, fun _ _ run hrun => ?_, by simp, by simp, by simp⟩
    obtain ⟨hgone, hnone | hended⟩ := hj.landing [] hphase run hrun
    · cases hnone
    · exact ⟨hgone, hended⟩
  · rw [if_neg hphase] at h
    cases h

/-- The change to deleting, where the closure row is the one that was read. -/
theorem Plane.Kept.erase (hk : p.Kept) (hi : p.jobs[i]? = some j)
    (hseen : p.org.status = none ∨ p.org.closure = some j.seen)
    (h : p.jobStep i j .erase = some q) : q.Kept := by
  have hj := hk.jobs i j hi
  simp only [Plane.jobStep] at h
  split at h
  · rename_i outcomes hphase
    have hquiet := hj.revoked outcomes hphase
    by_cases hgone : p.org.status.isNone = true
    · rw [if_pos hgone] at h
      cases h
      exact hk.moves hi ⟨hj.now, hj.due, by simp, by simp, fun _ _ _ => hquiet, by simp,
        fun _ _ => Option.isNone_iff_eq_none.mp hgone⟩
    · rw [if_neg hgone] at h
      by_cases hlock : p.lock.isSome = true
      · rw [if_pos hlock] at h
        cases h
      · rw [if_neg hlock] at h
        cases h
        have hclosure := hseen.resolve_left fun hnone => hgone (Option.isNone_iff_eq_none.mpr hnone)
        refine ⟨hk.org, hk.setJob hi ⟨hj.now, hj.due, by simp, by simp, fun _ _ _ => hquiet, ?_, by simp⟩
          (fun _ _ _ _ _ h => h) id fun k _ hk' => absurd (hk' ▸ rfl) hlock, hk.purges⟩
        intro met outcomes' hmet
        injection hmet with hmet
        cases hmet
        exact ⟨rfl, rfl, rfl, (hk.org.closed _ hclosure).1, hclosure, Int.le_trans hj.due hj.now⟩
  · cases h

/-- `purgeTenant` and its commit, under no new run and with one record. -/
theorem Plane.Kept.purge (hk : p.Kept) (hi : p.jobs[i]? = some j)
    (hmeets : p.org.status = none ∨
      (∀ r ∈ p.org.liveRuns, ∃ run ∈ j.asked, run.id = r.id) ∧ p.org.records.length = 1)
    (h : p.jobStep i j .purge = some q) : q.Kept := by
  have hj := hk.jobs i j hi
  have hover : ∀ (lock : Option Nat) (outcomes : List RevocationOutcome),
      ({ j with phase := .over } : Job).Kept (purgeTenant p.org j.now outcomes) p.clock lock i :=
    fun _ _ => ⟨hj.now, hj.due, by simp, by simp, by simp, by simp, by simp⟩
  simp only [Plane.jobStep] at h
  split at h
  · rename_i outcomes hphase
    cases h
    have hgone := hj.absent outcomes hphase
    have hclosure : p.org.closure = none := by
      cases hc : p.org.closure with
      | none => rfl
      | some c => exact absurd (hgone.symm.trans (hk.org.closed c hc).1) (Option.some_ne_none _).symm
    exact ⟨purgeTenant_gone hk.org hgone,
      hk.setJob hi (hover _ _) (fun _ _ _ _ _ _ r hr => absurd hr List.not_mem_nil) (fun _ => rfl)
        fun _ _ h => ⟨h, hgone.symm, hclosure.symm⟩, hk.purges⟩
  · rename_i met outcomes hphase
    cases h
    obtain ⟨hheld, hstatus, hclosure, hdue⟩ := hj.held met outcomes hphase
    have hhere : p.org.status ≠ none := by
      rw [hstatus, hdue.1]
      exact Option.some_ne_none _
    obtain ⟨hknown, hone⟩ := hmeets.resolve_left hhere
    have hlive : p.org.liveRuns = [] := by
      refine List.eq_nil_iff_forall_not_mem.mpr fun r hr => ?_
      obtain ⟨hrow, hislive⟩ := List.mem_filter.mp hr
      obtain ⟨run, hrun, hid⟩ := hknown r hr
      have hover := (hj.erasing _ _ hphase run hrun).2 r hrow hid.symm
      rw [hover] at hislive
      cases hislive
    obtain ⟨hstamped, horg⟩ := purgeTenant_kept
      (e := ⟨met, j.now, j.asked, p.org.liveRuns, p.org.unpurged⟩) j.now outcomes hk.org
      (hclosure.trans hdue.2.1) hone hdue.2.1
    refine ⟨horg, hk.setJob hi (hover _ _) (fun _ _ _ _ _ _ r hr => absurd hr List.not_mem_nil)
      (fun _ => rfl) fun k hki hk' => absurd (Option.some.inj (hk'.symm.trans hheld)) hki, fun e he => ?_⟩
    rcases List.mem_append.mp he with he | he
    · exact hk.purges e he
    · rw [List.mem_singleton.mp he]
      exact ⟨⟨j.seen, hdue, hstamped⟩, hlive, fun run hrun => (hj.erasing _ _ hphase run hrun).1⟩
  · cases h

theorem Plane.Kept.rollback (hk : p.Kept) (hi : p.jobs[i]? = some j)
    (h : p.jobStep i j .rollback = some q) : q.Kept := by
  have hj := hk.jobs i j hi
  have hover : ∀ lock, ({ j with phase := .over } : Job).Kept p.org p.clock lock i :=
    fun _ => ⟨hj.now, hj.due, by simp, by simp, by simp, by simp, by simp⟩
  simp only [Plane.jobStep] at h
  split at h
  · cases h
    exact hk.moves hi (hover _)
  · rename_i met outcomes hphase
    cases h
    have hheld := (hj.held met outcomes hphase).1
    exact ⟨hk.org, hk.setJob hi (hover _) (fun _ _ _ _ _ h => h) id
      fun k hki hk' => absurd (Option.some.inj (hk'.symm.trans hheld)) hki, hk.purges⟩
  · cases h

theorem Plane.Kept.jobStep {move : JobMove} (hk : p.Kept) (hi : p.jobs[i]? = some j)
    (hmeets : Undisturbed p (.job i move)) (h : p.jobStep i j move = some q) : q.Kept := by
  cases move with
  | readRuns => exact hk.readRuns hi h
  | quiesce answer => exact hk.quiesce hi h
  | land => exact hk.land hi h
  | revoke outcomes => exact hk.revoke hi h
  | erase => exact hk.erase hi (hmeets j hi) h
  | purge => exact hk.purge hi (hmeets j hi) h
  | rollback => exact hk.rollback hi h

/-! ### Every step, and every run -/

theorem Plane.Kept.orgStep (hk : p.Kept) (hfree : ¬ p.lock.isSome = true)
    (ho : o'.Kept p.purges ∧ o'.runs = p.org.runs) (hgone : p.org.status = none → o'.status = none) :
    ({ p with org := o' } : Plane).Kept where
  org := ho.1
  jobs := fun k jk hjk => (hk.jobs k jk hjk).other (Int.le_refl _)
    (fun _ _ hended r hr => hended r (ho.2 ▸ hr)) hgone fun hlock => absurd (hlock ▸ rfl) hfree
  purges := hk.purges

theorem Plane.Kept.startRun {row : RunRow} (hk : p.Kept)
    (h : p.step (.startRun row) = some q) : q.Kept := by
  simp only [Plane.step] at h
  by_cases hrefused : (p.org.status.isNone || p.knows row.id) = true
  · rw [if_pos hrefused] at h
    cases h
  · rw [if_neg hrefused] at h
    cases h
    have hnew : ∀ (k : Nat) (jk : Job), p.jobs[k]? = some jk → ∀ run ∈ jk.asked, run.id ≠ row.id := by
      intro k jk hjk run hrun hid
      refine hrefused (Bool.or_eq_true_iff.mpr (.inr (Bool.or_eq_true_iff.mpr (.inr ?_))))
      refine List.any_eq_true.mpr ⟨jk, List.mem_of_getElem? hjk, List.any_eq_true.mpr ⟨run, hrun, ?_⟩⟩
      exact decide_eq_true hid
    refine ⟨⟨hk.org.closed, hk.org.here, hk.org.gone, hk.org.marked⟩, fun k jk hjk => ?_, hk.purges⟩
    refine (hk.jobs k jk hjk).other (Int.le_refl _) (fun run hrun hended r hr hid => ?_) id
      fun hlock => ⟨hlock, rfl, rfl⟩
    rcases List.mem_append.mp hr with hr | hr
    · exact hended r hr hid
    · rw [List.mem_singleton.mp hr] at hid
      exact absurd hid.symm (hnew k jk hjk run hrun)

theorem Plane.Kept.finishRun {id : Nat} {outcome : RunStatus} (hk : p.Kept)
    (h : p.step (.finishRun id outcome) = some q) : q.Kept := by
  simp only [Plane.step] at h
  by_cases hlive : outcome.live = true
  · rw [if_pos hlive] at h
    cases h
  · rw [if_neg hlive] at h
    cases h
    exact ⟨⟨hk.org.closed, hk.org.here, hk.org.gone, hk.org.marked⟩, fun k jk hjk =>
      (hk.jobs k jk hjk).other (Int.le_refl _)
        (fun _ _ hended => hended.finishRun (Bool.not_eq_true _ ▸ hlive)) (fun h => h)
        fun hlock => ⟨hlock, rfl, rfl⟩, hk.purges⟩

theorem Org.dueAt_spec {c : Closure} {now : Int} (h : o.dueAt now = some c) :
    o.status = some .closed ∧ o.closure = some c ∧ c.purgeAfter ≤ now := by
  unfold Org.dueAt at h
  split at h
  · rename_i hclosed
    obtain ⟨hc, hdue⟩ := Option.filter_eq_some_iff.mp h
    exact ⟨hclosed, hc, of_decide_eq_true hdue⟩
  · cases h

theorem Plane.Kept.readDue {now : Int} (hk : p.Kept)
    (h : p.step (.readDue now) = some q) : q.Kept := by
  simp only [Plane.step] at h
  by_cases hlate : p.clock < now
  · rw [if_pos hlate] at h
    cases h
  · rw [if_neg hlate] at h
    obtain ⟨c, hc, hq⟩ := Option.map_eq_some_iff.mp h
    subst hq
    refine ⟨hk.org, fun k jk hjk => ?_, hk.purges⟩
    rw [List.getElem?_append] at hjk
    split at hjk
    · exact hk.jobs k jk hjk
    · rw [List.mem_singleton.mp (List.mem_of_getElem? hjk)]
      exact ⟨Int.not_lt.mp hlate, (Org.dueAt_spec hc).2.2, by simp, by simp, by simp, by simp, by simp⟩

theorem Plane.Kept.step {move : Move} (hk : p.Kept) (hmeets : Undisturbed p move)
    (h : p.step move = some q) : q.Kept := by
  cases move with
  | tick clock =>
    simp only [Plane.step] at h
    by_cases hclock : p.clock ≤ clock
    · rw [if_pos hclock] at h
      cases h
      exact ⟨hk.org, fun k jk hjk => (hk.jobs k jk hjk).other hclock (fun _ _ h => h) id
        fun hlock => ⟨hlock, rfl, rfl⟩, hk.purges⟩
    · rw [if_neg hclock] at h
      cases h
  | close windowDays closedBy now retention =>
    simp only [Plane.step] at h
    by_cases hlock : p.lock.isSome = true
    · rw [if_pos hlock] at h
      cases h
    · rw [if_neg hlock] at h
      obtain ⟨o, ho, rfl⟩ := Option.map_eq_some_iff.mp h
      refine hk.orgStep hlock (closeTenant_kept ho hk.org) fun hgone => ?_
      unfold closeTenant at ho
      rw [if_pos (.inl (Option.isNone_iff_eq_none.mpr hgone))] at ho
      cases ho
  | reopen now =>
    simp only [Plane.step] at h
    by_cases hlock : p.lock.isSome = true
    · rw [if_pos hlock] at h
      cases h
    · rw [if_neg hlock] at h
      obtain ⟨o, ho, rfl⟩ := Option.map_eq_some_iff.mp h
      refine hk.orgStep hlock (reopenTenant_kept ho hk.org) fun hgone => ?_
      obtain ⟨c, hc⟩ := reopenTenant_closure ho
      exact absurd (hgone.symm.trans (hk.org.closed c hc).1) (Option.some_ne_none _).symm
  | startRun row => exact hk.startRun h
  | finishRun id outcome => exact hk.finishRun h
  | readDue now => exact hk.readDue h
  | job i move =>
    obtain ⟨j, hi, hj⟩ := Option.bind_eq_some_iff.mp h
    exact hk.jobStep hi hmeets hj

theorem Plane.start_kept (runs : List RunRow) (clock : Int) : (start runs clock).Kept where
  org := ⟨fun _ hc => absurd hc (Option.some_ne_none _).symm, fun _ _ hr => absurd hr List.not_mem_nil,
    fun h => absurd h (Option.some_ne_none _), fun _ _ hi => absurd hi (Option.some_ne_none _).symm⟩
  jobs := fun _ _ hj => absurd hj (Option.some_ne_none _).symm
  purges := fun _ he => absurd he List.not_mem_nil

theorem Plane.Reached.kept (h : p.Reached Undisturbed) : p.Kept := by
  induction h with
  | start runs clock => exact start_kept runs clock
  | step move _ hmeets hstep ih => exact ih.step hmeets hstep

/-- **Only what is due is erased**, where no run of the job meets another closure
row than the one it read, a run row that was added since its quiesce, or more
erasure records than one: every purge finds the organisation closed with a purge
date that has passed and no live run, and stamps the record of that close alone. -/
theorem erased_only_due (h : p.Reached Undisturbed) : p.Right where
  calm := fun hactive => by
    cases hc : p.org.closure with
    | none => rfl
    | some c =>
      have hclosed := (h.kept.org.closed c hc).1
      rw [hactive] at hclosed
      cases hclosed
  purges := h.kept.purges
  records := h.kept.org.marked

/-! ### Two runs -/

/-- The state after some moves, where each can be made. -/
def Plane.run (p : Plane) : List Move → Option Plane
  | [] => some p
  | move :: moves => (p.step move).bind fun q => q.run moves

theorem Plane.Reached.run (h : p.Reached fun _ _ => True) (moves : List Move)
    (hrun : p.run moves = some q) : q.Reached fun _ _ => True := by
  induction moves generalizing p with
  | nil =>
    cases hrun
    exact h
  | cons move moves ih =>
    obtain ⟨m, hm, hrest⟩ := Option.bind_eq_some_iff.mp hrun
    exact ih (.step move h trivial hm) hrest

/-- A run whose worker is gone. -/
def strayRun : RunRow := ⟨3, some "run_3", .running, 0, none⟩

/-- The orchestrator's answer about it. -/
def answered (_ : RunRow) : OrchestratorVerdict := .finished

/-- An organisation closed without a window, read as due and quiesced. -/
def quiesced : List Move :=
  [.close 0 "owner" 5 7, .tick 5, .readDue 5, .job 0 .readRuns, .job 0 (.quiesce answered), .job 0 .land]

def stateAfter (moves : List Move) : Plane := ((Plane.start [strayRun] 0).run moves).getD (Plane.start [] 0)

theorem quiesced_reached : (stateAfter quiesced).Reached Undisturbed := by
  have hclosed : (stateAfter (quiesced.take 1)).Reached Undisturbed :=
    .step (.close 0 "owner" 5 7) (.start [strayRun] 0) trivial rfl
  have hdue : (stateAfter (quiesced.take 3)).Reached Undisturbed :=
    .step (.readDue 5) (.step (.tick 5) hclosed trivial rfl) trivial rfl
  have hasked : (stateAfter (quiesced.take 5)).Reached Undisturbed :=
    .step (.job 0 (.quiesce answered)) (.step (.job 0 .readRuns) hdue trivial rfl) trivial rfl
  exact .step (.job 0 .land) hasked trivial rfl

theorem erased_only_due_atOnce :
    (stateAfter (quiesced ++ [.job 0 (.revoke []), .job 0 .erase, .job 0 .purge])).Right := by
  have hrevoked : (stateAfter (quiesced ++ [.job 0 (.revoke [])])).Reached Undisturbed :=
    .step (.job 0 (.revoke [])) quiesced_reached trivial rfl
  have herasing : (stateAfter (quiesced ++ [.job 0 (.revoke []), .job 0 .erase])).Reached Undisturbed := by
    refine .step (.job 0 .erase) hrevoked (fun j hj => ?_) rfl
    cases hj
    exact .inr rfl
  refine erased_only_due (.step (.job 0 .purge) herasing (fun j hj => ?_) rfl)
  cases hj
  exact .inr ⟨fun r hr => absurd hr List.not_mem_nil, rfl⟩

/-- While the credentials are being revoked the owner closes again, for a month,
and reopens; the purge erases an open organisation. -/
theorem erased_reopened : ¬ ∀ p : Plane, p.Reached (fun _ _ => True) → p.Right := by
  intro h
  let moves := quiesced ++
    [.close 30 "owner" 5 7, .reopen 5, .job 0 (.revoke []), .job 0 .erase, .job 0 .purge]
  have hreached : (stateAfter moves).Reached fun _ _ => True :=
    (Plane.Reached.start [strayRun] 0).run moves rfl
  obtain ⟨c, ⟨hclosed, -⟩, -⟩ := ((h _ hreached).purges _ (List.mem_singleton_self _)).1
  cases hclosed

end Ownpace.Offboarding
