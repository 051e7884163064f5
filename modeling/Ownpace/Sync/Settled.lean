/-
Ownpace/Sync/Settled.lean

Rows that are done with, while the tasks of a listing run.

A row that is done with (`SettledAt`) is unsettled by nothing a task does but a
recorded failure, and a recorded failure is noted in the variables of the pass
before its task ends.  `Kept` is what that comes to at any moment in between,
and `Settles` the invariant of the tasks it is part of: whatever a task read or
wrote of a row that is done with, the row is kept.
-/
import Ownpace.Ledger.Runs
import Ownpace.Sync.Block

namespace Ownpace.Sync

open Await Ownpace Store

/-! ### Rows that are done with -/

section Rows

variable {l : Ledger} {domain : DiscoveryDomain} {key : String} {known : LedgerRecord}

/-- The row under this key is done with. -/
def SettledAt (domain : DiscoveryDomain) (l : Ledger) (key : String) : Prop :=
  ∃ known, l.find domain key = some known ∧ isSettled known = true

theorem settledAt_iff : SettledAt domain l key ↔
    ∃ r, l.get key = some r ∧ r.domain = domain ∧ isSettled (mapRowToRecord r) = true := by
  simp only [SettledAt, Ledger.find_eq_some]
  constructor
  · rintro ⟨_, ⟨r, hr, hd, rfl⟩, hs⟩
    exact ⟨r, hr, hd, hs⟩
  · rintro ⟨r, hr, hd, hs⟩
    exact ⟨_, ⟨r, hr, hd, rfl⟩, hs⟩

/-- The calls after which a row that is done with still is. -/
def keepsSettled : LedgerOp → Prop
  | .recordUpdate record => isOnTarget record.status = true
  | .recordFailure .. | .resolveFailure .. | .resolveFailureGroup .. | .supersedeFormerNames .. =>
      False
  | _ => True

theorem isSettled_of_same {r r' : ItemRow} (hst : r'.status = r.status)
    (hp : r'.parkedAt = r.parkedAt) (ha : r'.attemptCount = r.attemptCount)
    (hr : isSettled (mapRowToRecord r) = true) : isSettled (mapRowToRecord r') = true := by
  unfold isSettled at hr ⊢
  rwa [show (mapRowToRecord r').status = (mapRowToRecord r).status from congrArg some hst,
    show (mapRowToRecord r').parkedAt = (mapRowToRecord r).parkedAt from hp,
    show (mapRowToRecord r').attemptCount = (mapRowToRecord r).attemptCount from congrArg some ha]

theorem isSettled_updatedRow {record : LedgerRecord} {r : ItemRow}
    (h : isOnTarget record.status = true) :
    isSettled (mapRowToRecord (Ledger.updatedRow record r)) = true := by
  refine isSettled_of_onTarget ?_
  cases hst : record.status with
  | none => simp [mapRowToRecord, Ledger.updatedRow, isOnTarget, hst]
  | some status => simpa [mapRowToRecord, Ledger.updatedRow, hst] using hst ▸ h

theorem isSettled_insertedRow {record : LedgerRecord} (h : isOnTarget record.status = true) :
    isSettled (mapRowToRecord (Ledger.insertedRow record)) = true := by
  refine isSettled_of_onTarget ?_
  cases hst : record.status with
  | none => simp [mapRowToRecord, Ledger.insertedRow, isOnTarget, hst]
  | some status => simpa [mapRowToRecord, Ledger.insertedRow, hst] using hst ▸ h

/-- No other change unsettles a row. -/
theorem isSettled_of_change {h : Host} {o : LedgerOp} {r r' : ItemRow}
    (hc : Ledger.Change h l o r r') (ho : keepsSettled o)
    (hr : isSettled (mapRowToRecord r) = true) : isSettled (mapRowToRecord r') = true := by
  cases hc with
  | update => exact isSettled_updatedRow ho
  | bump | resolve | resolveGroup | supersede => cases ho
  | delete | relocate => simp [isSettled, mapRowToRecord, Ledger.deletedRow, Ledger.relocatedRow]
  | _ => exact isSettled_of_same rfl rfl rfl hr

theorem SettledAt.run {h : Host} {o : LedgerOp} (hs : SettledAt domain l key)
    (ho : keepsSettled o) : SettledAt domain (o.run h l).2 key := by
  obtain ⟨r, hr, hd, hset⟩ := settledAt_iff.mp hs
  obtain ⟨r', hr', rfl | hc⟩ := Ledger.run_get_some (h := h) (o := o) hr
  · exact settledAt_iff.mpr ⟨_, hr', hd, hset⟩
  · exact settledAt_iff.mpr ⟨r', hr', hc.domain.trans hd, isSettled_of_change hc ho hset⟩

/-! ### What a write leaves under its key -/

theorem recordUpdate_ok {record row : LedgerRecord} {l' : Ledger}
    (h : l.recordUpdate record = (.ok row, l')) (hst : isOnTarget record.status = true) :
    SettledAt record.itemType l' record.naturalKeyHash := by
  unfold Ledger.recordUpdate at h
  split at h
  · next r hr =>
      cases h
      simp only [Ledger.rowAt, Option.filter_eq_some_iff, decide_eq_true_eq] at hr
      refine settledAt_iff.mpr ⟨Ledger.updatedRow record r, ?_, hr.2, isSettled_updatedRow hst⟩
      refine (l.updateAt_get _ _ (Ledger.updatedRow record) (fun _ => rfl) _).trans ?_
      rw [if_pos rfl, hr.1]
      simp [hr.2]
  · cases h

/-- A row in the ledger, as a write answers with it, and a failed attempt that
is parked. -/
theorem isSettled_of_parked {park : Bool} {record : LedgerRecord} {attempts : Nat}
    (hst : record.status = some .failed) (hp : park = true → record.parkedAt.isSome)
    (ha : record.attemptCount = some attempts) (h : isParked park record = true) :
    isSettled record = true := by
  simp only [isParked, ha, Option.getD_some, Bool.or_eq_true, decide_eq_true_eq] at h
  rcases h with h | h
  · simp [isSettled, hst, hp h]
  · simp [isSettled, hst, ha, h]

theorem recordFailure_ok {now : Nat} {category : FailureCategory} {record row : LedgerRecord}
    {error : String} {park : Bool} {l' : Ledger}
    (h : l.recordFailure now category record error park = (.ok row, l'))
    (hp : isParked park row = true) : SettledAt record.itemType l' record.naturalKeyHash := by
  unfold Ledger.recordFailure at h
  split at h
  · next hnone =>
      cases h
      refine settledAt_iff.mpr ⟨Ledger.failedRow now category record error park, ?_, rfl, ?_⟩
      · refine (Table.get_insert _ _ _).trans ?_
        simp [Ledger.failedRow, hnone]
      · refine isSettled_of_parked rfl (fun h => ?_) (rfl : _ = some 1) hp
        simp [mapRowToRecord, Ledger.failedRow, h]
  · split at h
    · next r hr =>
        cases h
        simp only [Ledger.rowAt, Option.filter_eq_some_iff, decide_eq_true_eq] at hr
        refine settledAt_iff.mpr
          ⟨Ledger.bumpedRow now category record error park r, ?_, hr.2, ?_⟩
        · refine (l.updateAt_get _ _ (Ledger.bumpedRow now category record error park)
            (fun _ => rfl) _).trans ?_
          rw [if_pos rfl, hr.1]
          simp [hr.2]
        · refine isSettled_of_parked rfl (fun h => ?_) rfl hp
          simp [mapRowToRecord, Ledger.bumpedRow, h]
    · cases h

theorem recordIfAbsent_ok {record row : LedgerRecord} {l' : Ledger}
    (h : l.recordIfAbsent record = (.ok row, l'))
    (hfind : l.find record.itemType record.naturalKeyHash = none)
    (hst : isOnTarget record.status = true) :
    SettledAt record.itemType l' record.naturalKeyHash := by
  unfold Ledger.recordIfAbsent at h
  split at h
  · next hnone =>
      cases h
      refine settledAt_iff.mpr ⟨Ledger.insertedRow record, ?_, rfl, isSettled_insertedRow hst⟩
      refine (Table.get_insert _ _ _).trans ?_
      simp [Ledger.insertedRow, hnone]
  · rw [hfind] at h
    cases h

/-- A row that a call leaves where it found none was inserted by it. -/
theorem find_run_of_none {h : Host} {o : LedgerOp} (hnone : l.find domain key = none) :
    (o.run h l).2.find domain key = none ∨
      ∃ r, Ledger.Inserted h o r ∧ (o.run h l).2.get key = some r ∧ r.domain = domain := by
  cases hfind : (o.run h l).2.find domain key with
  | none => exact .inl rfl
  | some known =>
      obtain ⟨r', hr', hd, -⟩ := Ledger.find_eq_some.mp hfind
      refine .inr ⟨r', ?_, hr', hd⟩
      cases hr : l.get key with
      | none => exact Ledger.run_get_none hr hr'
      | some r =>
          obtain ⟨r'', hr'', hor⟩ := Ledger.run_get_some (h := h) (o := o) hr
          rw [hr'] at hr''
          cases hr''
          have hdom : r.domain = domain := by
            rcases hor with rfl | hc
            · exact hd
            · exact hc.domain.symm.trans hd
          rw [Ledger.find_eq_some.mpr ⟨r, hr, hdom, rfl⟩] at hnone
          cases hnone

end Rows

/-! ### While the tasks run -/

section Tasks

variable {Item Raw Folder τ : Type} {deps : DomainSyncDeps Item Raw Folder}
variable {out : Outside Item Raw Folder τ} {path : String} {item : Item} {visit i : Nat}
variable {h : Path Item Raw Folder τ} {paths : Paths Item Raw Folder τ}
variable {s₀ s s' : PassState Item Raw Folder τ} {e : Ev Item Raw Folder τ} {key : String}
variable {items : List Item}

/-- A writer records copies that are on the target. -/
def Outside.RecordsCopies (out : Outside Item Raw Folder τ) : Prop :=
  ∀ raw item options result record, out.records raw item options result record →
    isOnTarget record.status = true

/-- The row under this key is done with, or a retryable failure is noted of it. -/
def Accounted (deps : DomainSyncDeps Item Raw Folder) (s : PassState Item Raw Folder τ)
    (key : String) : Prop :=
  SettledAt deps.domain s.world.ledger key ∨ NotedFailure key s.vars

/-- A failure of this key that was recorded, and is not parked. -/
def Unparked (paths : Paths Item Raw Folder τ) (key : String) : Prop :=
  ∃ i record message options a,
    Event.call (.ledger (.recordFailure record message options)) a ∈ paths i ∧
    record.naturalKeyHash = key ∧ ¬ ∃ row, a = .ok row ∧ isParked options.park row = true

/-- The row is accounted for, or will be once the task that failed has noted it. -/
def Kept (deps : DomainSyncDeps Item Raw Folder) (paths : Paths Item Raw Folder τ)
    (s : PassState Item Raw Folder τ) (key : String) : Prop :=
  Accounted deps s key ∨ Unparked paths key

theorem NotedFailure.mono {v w : Vars Item} (hn : NotedFailure key v) (hg : Grows v w) :
    NotedFailure key w := by
  obtain ⟨f, hmem, hf⟩ := hn
  exact ⟨f, hg.failures hmem, hf⟩

theorem Unparked.add (hu : Unparked paths key) : Unparked (paths.add i e) key := by
  obtain ⟨j, record, message, options, a, hmem, hrest⟩ := hu
  exact ⟨j, record, message, options, a, Paths.prefix_add.subset hmem, hrest⟩

/-- Of what a task writes, only a failure unsettles a row. -/
theorem TaskStep.keepsSettled {o : SyncOp Item Raw Folder} {a : o.Ans} {o' : LedgerOp}
    (he : TaskStep deps path item visit i h (.call o a)) (hw : Writes out o o') :
    Sync.keepsSettled o' ∨
      ∃ record message options, o' = .recordFailure record message options := by
  cases hw with
  | writer => exact .inl trivial
  | ledger =>
      cases he with
      | failed => exact .inr ⟨_, _, _, rfl⟩
      | item he =>
          cases he with
          | asks ho => cases o' <;> first | exact .inl trivial | cases ho
          | clearAbsent | clearMove | recordMove | insert => exact .inl trivial
          | @recordVersion _ known _ _ _ hc _ =>
              exact .inl (@onTarget_of_classify known _ _ (by rw [hc]; rfl))
          | conflicted => exact .inl rfl
          | update => exact .inl (by simp only [writtenRecord]; split <;> [rfl; split <;> rfl])

/-- An answer of the ledger is the answer of its call. -/
theorem ran_of_ok {o : LedgerOp} {reply : o.Reply}
    (hf : out.Effects s (.ledger o) (.ok reply) s') :
    ∃ host, o.run host s.world.ledger = (.ok reply, s'.world.ledger) := by
  obtain ⟨w', ⟨⟨host, ⟨ha, hl⟩ | ⟨⟨e, he⟩, -⟩⟩, -⟩, rfl⟩ := hf
  · refine ⟨host, ?_⟩
    cases hrun : (o.run host s.world.ledger).1 with
    | error e => rw [hrun] at ha; cases ha
    | ok reply' =>
        rw [hrun] at ha
        cases ha
        exact Prod.ext hrun hl.symm
  · cases he

/-- A failure was just recorded of this key. -/
theorem kept_of_failed {record : LedgerRecord} {message : String} {options : Ledger.FailureOptions}
    {a : Except Err LedgerRecord}
    (hf : out.Effects s (.ledger (.recordFailure record message options)) a s')
    (hd : record.itemType = deps.domain) :
    Kept deps (paths.add i (.call (.ledger (.recordFailure record message options)) a)) s'
      record.naturalKeyHash := by
  by_cases hparked : ∃ row, a = .ok row ∧ isParked options.park row = true
  · obtain ⟨row, rfl, hp⟩ := hparked
    obtain ⟨host, hrun⟩ := ran_of_ok hf
    exact .inl (.inl (hd ▸ recordFailure_ok hrun hp))
  · exact .inr ⟨i, record, message, options, a, Paths.mem_add_self, rfl, hparked⟩

/-- A row that is kept stays so, whatever the next step is. -/
theorem Kept.step (hk : Kept deps paths s key)
    (he : TaskStep deps path item visit i (paths i) e) (hf : Fires out.Effects s e s') :
    Kept deps (paths.add i e) s' key := by
  rcases hk with (hset | hn) | hu
  · cases e with
    | sync b a =>
        obtain ⟨rfl, rfl⟩ := hf
        exact .inl (.inl (he.sync.2.1 ▸ hset))
    | call o a =>
        rcases effects_ledger hf with hl | ⟨o', host, hw, hl⟩
        · exact .inl (.inl (hl ▸ hset))
        · rcases he.keepsSettled hw with hkeeps | ⟨record, message, options, rfl⟩
          · exact .inl (.inl (hl ▸ hset.run hkeeps))
          · cases hw
            cases he with
            | item he => cases he with | asks ho => cases ho
            | @failed failedKey =>
                by_cases hkey : failedKey = key
                · subst hkey
                  exact kept_of_failed hf rfl
                · -- another row
                  obtain ⟨r, hr, hd, hsettled⟩ := settledAt_iff.mp hset
                  obtain ⟨r', hr', rfl | hc⟩ := Ledger.run_get_some (h := host)
                    (o := .recordFailure _ message options) hr
                  · exact .inl (.inl (hl ▸ settledAt_iff.mpr ⟨_, hr', hd, hsettled⟩))
                  · cases hc with
                    | bump _ hrk =>
                        refine absurd ?_ hkey
                        exact hrk.symm.trans (Ledger.key_of_get hr)
  · cases e with
    | sync b a =>
        obtain ⟨rfl, rfl⟩ := hf
        exact .inl (.inr (hn.mono he.sync.1))
    | call o a => exact .inl (.inr ((effects_vars hf).symm ▸ hn))
  · exact .inr hu.add

/-- Whatever a task read or wrote of a row that is done with, the row is kept;
and so is whatever was accounted for before. -/
structure Settles (deps : DomainSyncDeps Item Raw Folder) (s₀ : PassState Item Raw Folder τ)
    (paths : Paths Item Raw Folder τ) (s : PassState Item Raw Folder τ) : Prop where
  before : ∀ key, Accounted deps s₀ key → Kept deps paths s key
  told : ∀ key known, Asked deps paths key (some known) → isSettled known = true →
    Kept deps paths s key
  absent : ∀ key, Asked deps paths key none →
    s.world.ledger.find deps.domain key = none ∨ Kept deps paths s key
  updated : ∀ i record row, Event.call (.ledger (.recordUpdate record)) (.ok row) ∈ paths i →
    Kept deps paths s record.naturalKeyHash
  inserted : ∀ i record row, Event.call (.ledger (.recordIfAbsent record)) (.ok row) ∈ paths i →
    Kept deps paths s record.naturalKeyHash
  failed : ∀ i record message options a,
    Event.call (.ledger (.recordFailure record message options)) a ∈ paths i →
    Kept deps paths s record.naturalKeyHash

theorem Settles.init (s₀ : PassState Item Raw Folder τ) : Settles deps s₀ (fun _ => []) s₀ where
  before := fun _ ha => .inl ha
  told := fun _ _ ha => by cases ha with | find h => cases h | findMany h => cases h
  absent := fun _ ha => by cases ha with | find h => cases h
  updated := fun _ _ _ h => nomatch h
  inserted := fun _ _ _ h => nomatch h
  failed := fun _ _ _ _ _ h => nomatch h

/-- A row that was asked for and not found is kept, if it is there now. -/
theorem absent_step (hrec : Outside.RecordsCopies out)
    (he : TaskStep deps path item visit i (paths i) e) (hf : Fires out.Effects s e s')
    (habs : s.world.ledger.find deps.domain key = none ∨ Kept deps paths s key) :
    s'.world.ledger.find deps.domain key = none ∨ Kept deps (paths.add i e) s' key := by
  rcases habs with hnone | hk
  · cases e with
    | sync b a =>
        obtain ⟨rfl, rfl⟩ := hf
        exact .inl (he.sync.2.1 ▸ hnone)
    | call o a =>
        rcases effects_ledger hf with hl | ⟨o', host, hw, hl⟩
        · exact .inl (hl ▸ hnone)
        · rw [hl]
          refine (find_run_of_none hnone).imp id fun ⟨r, hins, hr, hd⟩ => ?_
          have settled (hst : isSettled (mapRowToRecord r) = true) :
              Kept deps (paths.add i (.call o a)) s' key :=
            .inl (.inl (hl ▸ settledAt_iff.mpr ⟨r, hr, hd, hst⟩))
          cases hw with
          | writer hw =>
              cases hins with
              | recorded => exact settled (isSettled_insertedRow (hrec _ _ _ _ _ hw))
          | ledger =>
              cases hins with
              | recorded =>
                  refine settled (isSettled_insertedRow ?_)
                  cases he with
                  | item he =>
                      cases he with
                      | asks ho => cases ho
                      | insert =>
                          simp only [writtenRecord]
                          split <;> [rfl; split <;> rfl]
              | @failed record message options category =>
                  obtain rfl : record.naturalKeyHash = key := Ledger.key_of_get hr
                  cases he with
                  | item he => cases he with | asks ho => cases ho
                  | failed => exact kept_of_failed hf rfl
  · exact .inr (hk.step he hf)

/-- The rows a task updates are the pass's own, and on the target. -/
theorem TaskStep.update_record {record : LedgerRecord} {a : Except Err LedgerRecord}
    (hshared : Shared deps visit path items s₀ paths s)
    (he : TaskStep deps path item visit i (paths i) (.call (.ledger (.recordUpdate record)) a)) :
    record.itemType = deps.domain ∧ isOnTarget record.status = true := by
  let out : Outside Item Raw Folder τ := ⟨fun _ _ _ _ => True, fun _ _ _ _ _ => True⟩
  have hw : Writes out (.ledger (.recordUpdate record)) (.recordUpdate record) := .ledger
  have hkeeps := he.keepsSettled hw
  refine ⟨?_, hkeeps.resolve_right fun ⟨_, _, _, h⟩ => nomatch h⟩
  have itemType {key : String} {known : LedgerRecord} (ht : Told deps (paths i) key (some known)) :
      known.itemType = deps.domain :=
    (hshared.named key known (hshared.asked ht List.prefix_rfl)).1
  cases he with
  | item he =>
      cases he with
      | asks ho => cases ho
      | recordVersion ht => exact (itemType ht :)
      | conflicted ht => cases ht with | rewrite ht => exact (itemType ht :)
      | update => rfl

/-- A row a task inserts, it has asked for and not found. -/
theorem TaskStep.insert_record {record : LedgerRecord} {a : Except Err LedgerRecord}
    (he : TaskStep deps path item visit i h (.call (.ledger (.recordIfAbsent record)) a)) :
    record.itemType = deps.domain ∧ isOnTarget record.status = true ∧
      Told deps h record.naturalKeyHash none := by
  cases he with
  | item he =>
      cases he with
      | asks ho => cases ho
      | insert ht =>
          refine ⟨rfl, ?_, ?_⟩
          · simp only [writtenRecord]
            split <;> [rfl; split <;> rfl]
          · cases ht with | new ht => exact ht

/-- **What any one step of any one task keeps.** -/
theorem Settles.step (hs : Settles deps s₀ paths s) (hrec : Outside.RecordsCopies out)
    (hshared : Shared deps visit path items s₀ paths s)
    (he : TaskStep deps path item visit i (paths i) e) (hf : Fires out.Effects s e s') :
    Settles deps s₀ (paths.add i e) s' where
  before := fun key ha => (hs.before key ha).step he hf
  told := fun key known ha hset => by
    rcases ha.step hf with ha | ⟨hfind, hl⟩
    · exact (hs.told key known ha hset).step he hf
    · exact .inl (.inl ⟨known, hl ▸ hfind, hset⟩)
  absent := fun key ha => by
    rcases ha.step hf with ha | ⟨hfind, hl⟩
    · exact absent_step hrec he hf (hs.absent key ha)
    · exact .inl (hl ▸ hfind)
  updated := fun j record row hmem => by
    rcases Paths.mem_add hmem with hmem | ⟨-, rfl⟩
    · exact (hs.updated j record row hmem).step he hf
    · obtain ⟨hdom, hst⟩ := he.update_record hshared
      obtain ⟨host, hrun⟩ := ran_of_ok hf
      exact .inl (.inl (hdom ▸ recordUpdate_ok hrun hst))
  inserted := fun j record row hmem => by
    rcases Paths.mem_add hmem with hmem | ⟨-, rfl⟩
    · exact (hs.inserted j record row hmem).step he hf
    · obtain ⟨hdom, hst, ht⟩ := he.insert_record
      rcases hs.absent _ (hshared.asked ht List.prefix_rfl) with hnone | hk
      · obtain ⟨host, hrun⟩ := ran_of_ok hf
        exact .inl (.inl (hdom ▸ recordIfAbsent_ok hrun (hdom ▸ hnone) hst))
      · exact hk.step he hf
  failed := fun j record message options a hmem => by
    rcases Paths.mem_add hmem with hmem | ⟨-, rfl⟩
    · exact (hs.failed j record message options a hmem).step he hf
    · cases he with
      | item he => cases he with | asks ho => cases ho
      | failed => exact kept_of_failed hf rfl

/-! ### When they have ended -/

/-- Everything that was kept is accounted for: every failure was noted. -/
theorem Kept.accounted {pl : Pool (PassState Item Raw Folder τ) (SyncOp Item Raw Folder)
      SyncOp.Ans Err} (hk : Kept deps pl.path s key)
    (hshared : Shared deps visit path items s₀ pl.path s)
    (hends : ∀ i item, items[i]? = some item → TaskEnds deps path item visit i (pl.path i) (.ok ())) :
    Accounted deps s key := by
  rcases hk with ha | ⟨i, record, message, options, a, hmem, hkey, hno⟩
  · exact ha
  · obtain ⟨h₁, h₂, heq⟩ := List.append_of_mem hmem
    obtain ⟨item, hitem, -⟩ := hshared.justified i h₁ _ h₂ heq
    obtain ⟨row, ha, hp | hn⟩ := (hends i item hitem).1 record message options a hmem
    · exact absurd ⟨row, ha, hp⟩ hno
    · exact .inr (hkey ▸ hshared.saw hn List.prefix_rfl fun _ _ hg hn => hn.mono hg)

end Tasks

end Ownpace.Sync
