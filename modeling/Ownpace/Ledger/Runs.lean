/-
Ownpace/Ledger/Runs.lean

What the calls to the ledger do over whole runs.

`Change` lists, once, every way one call rewrites one row; `run_rewrites` says
that a call does nothing else to the rows, an insert apart.

The invariant developed here ties the two columns that record a removal: the
status `tombstoned` and the date `deletion_applied_at`.  One direction holds
of every run.  The other does not, because `recordUpdate` and `recordFailure`
give a removed row a new status and leave the date where it is; it holds of
every run in which neither is called on such a row.
-/
import Mathlib.Logic.Relation
import Ownpace.Ledger.Ops

namespace Ownpace

open Store

namespace Ledger

/-! ### Every way a row changes -/

/-- `Change h l o r r'`: the call `o` on the rows `l` rewrites `r` to `r'`. -/
inductive Change (h : Host) (l : Ledger) : LedgerOp → ItemRow → ItemRow → Prop
  | update {record r} : r.domain = record.itemType →
      r.naturalKeyHash = record.naturalKeyHash →
      Change h l (.recordUpdate record) r (updatedRow record r)
  | bump {record error options category r} : r.domain = record.itemType →
      r.naturalKeyHash = record.naturalKeyHash →
      Change h l (.recordFailure record error options) r
        (bumpedRow h.now category record error options.park r)
  | resolve {k action r} : r.naturalKeyHash = k → r.status = .failed →
      Change h l (.resolveFailure k action) r (resolvedRow action r)
  | resolveGroup {action m r} : r.status = .failed →
      Change h l (.resolveFailureGroup action m) r (resolvedRow action r)
  | move {d k c toKey p r} : r.domain = d → r.naturalKeyHash = k →
      Change h l (.recordMove d k c toKey p) r (movedRow h.now c toKey p r)
  | unmove {d k r} : r.domain = d → r.naturalKeyHash = k →
      Change h l (.clearMove d k) r (clearedMove r)
  | keepMove {k r} : r.naturalKeyHash = k → r.movedToCollection.isSome →
      r.moveAcknowledgedAt = none →
      Change h l (.resolveMove k .keep) r { r with moveAcknowledgedAt := some h.now }
  | absent {d k r} : r.domain = d → r.naturalKeyHash = k →
      Change h l (.recordAbsent d k) r { r with absentPasses := r.absentPasses + 1 }
  | reported {d k r} : r.domain = d → r.naturalKeyHash = k → r.deletionReportedAt = none →
      Change h l (.recordReportedDeletion d k) r { r with deletionReportedAt := some h.now }
  | trashed {d k r} : r.domain = d → r.naturalKeyHash = k → r.deletionTrashedAt = none →
      Change h l (.recordTrashedDeletion d k) r { r with deletionTrashedAt := some h.now }
  | back {d k r} : r.domain = d → r.naturalKeyHash = k →
      Change h l (.clearAbsent d k) r (clearedAbsent r)
  | keepDeletion {k r} : r.naturalKeyHash = k → r.deletionAcknowledgedAt = none →
      Change h l (.resolveDeletion k .keep) r { r with deletionAcknowledgedAt := some h.now }
  | delete {d k r} : r.naturalKeyHash = k → mayApplyDeletion d r = true →
      Change h l (.applyDeletion d k) r (deletedRow h.now r)
  | relocate {d k r} : r.naturalKeyHash = k → l.mayApplyRelocation d r = true →
      Change h l (.applyRelocation d k) r (relocatedRow h.now r)
  | supersede {d names r} : r.domain = d → r.status = .failed →
      Change h l (.supersedeFormerNames d names) r (supersededRow h.now names r)
  | mark {d names r} : r.domain = d → r.status.ours = true → r.deletionAppliedAt = none →
      Change h l (.markEarlierExports d names) r (markedRow h.now names r)
  | unmark {d k r} : r.domain = d → r.naturalKeyHash = k → r.status.ours = true →
      Change h l (.clearEarlierExport d k) r
        { r with supersededByNaturalKeyHash := none, supersededAt := none }

/-- A row a call inserts. -/
inductive Inserted (h : Host) : LedgerOp → ItemRow → Prop
  | recorded {record} : Inserted h (.recordIfAbsent record) (insertedRow record)
  | failed {record error options category} :
      Inserted h (.recordFailure record error options)
        (failedRow h.now category record error options.park)

/-- Every row stays under its key, and is rewritten, if at all, as `P` says; a
row under another key is new, as `N` says. -/
def Rewrites (P : ItemRow → ItemRow → Prop) (N : ItemRow → Prop) (l l' : Ledger) : Prop :=
  ∀ k, match l.get k with
    | none => ∀ r', l'.get k = some r' → N r'
    | some r => ∃ r', l'.get k = some r' ∧ (r' = r ∨ P r r')

section Rewrites

variable {P : ItemRow → ItemRow → Prop} {N : ItemRow → Prop} {l : Ledger}

theorem Rewrites.refl : Rewrites P N l l := by
  intro k
  split
  · next hk => intro r' hr'; rw [hk] at hr'; cases hr'
  · next r hk => exact ⟨r, hk, .inl rfl⟩

theorem rewrites_updateWhere {sel : ItemRow → Bool} {set : ItemRow → ItemRow}
    (hP : ∀ r, sel r = true → P r (set r))
    (hset : ∀ r, (set r).naturalKeyHash = r.naturalKeyHash := by intro _; rfl) :
    Rewrites P N l (l.updateWhere sel set hset) := by
  intro k
  rw [Table.get_updateWhere]
  cases hk : l.get k with
  | none => exact fun r' hr' => nomatch hr'
  | some r =>
      cases hs : sel r with
      | false => exact ⟨r, by simp [hs], .inl rfl⟩
      | true => exact ⟨set r, by simp [hs], .inr (hP r hs)⟩

theorem rewrites_updateAt {k : String} {sel : ItemRow → Bool} {set : ItemRow → ItemRow}
    (hP : ∀ r, r.naturalKeyHash = k → sel r = true → P r (set r))
    (hset : ∀ r, (set r).naturalKeyHash = r.naturalKeyHash := by intro _; rfl) :
    Rewrites P N l (l.updateAt k sel set hset) := by
  refine rewrites_updateWhere (fun r hr => ?_) hset
  simp only [Bool.and_eq_true, decide_eq_true_eq] at hr
  exact hP r hr.1 hr.2

theorem rewrites_insert {r : ItemRow} (hr : l.get r.naturalKeyHash = none) (hN : N r) :
    Rewrites P N l (l.insert r) := by
  intro k
  rw [Table.get_insert]
  split
  · next hk =>
      intro r' hr'
      split at hr'
      · cases hr'
        rw [hk]
        exact hN
      · rw [hk] at hr'
        cases hr'
  · next r₀ hk =>
      refine ⟨r₀, ?_, .inl rfl⟩
      split
      · next heq =>
          rw [heq, hk] at hr
          cases hr
      · exact hk

end Rewrites

/-- **What a call does to the rows.** -/
theorem run_rewrites (h : Host) (o : LedgerOp) (l : Ledger) :
    Rewrites (Change h l o) (fun r => Inserted h o r) l (o.run h l).2 := by
  cases o with
  | find | findMany | findBySourceRef | placedItems | listMoves | listDeletions => exact .refl
  | recordIfAbsent record =>
      simp only [LedgerOp.run, recordIfAbsent]
      split
      · next hk => exact rewrites_insert hk .recorded
      · split <;> exact .refl
  | recordUpdate record =>
      simp only [LedgerOp.run, recordUpdate]
      split
      · exact rewrites_updateAt fun r hk hd => .update (by simpa using hd) hk
      · exact .refl
  | recordFailure record error options =>
      simp only [LedgerOp.run, recordFailure]
      split
      · next hk => exact rewrites_insert hk .failed
      · split
        · exact rewrites_updateAt fun r hk hd => .bump (by simpa using hd) hk
        · exact .refl
  | resolveFailure k action =>
      exact rewrites_updateAt (fun r hk hs => .resolve hk (by simpa using hs))
        (resolvedRow_key action)
  | resolveFailureGroup action m =>
      refine rewrites_updateWhere (fun r hs => ?_) (resolvedRow_key action)
      simp only [FailureMatch.picks, Bool.and_eq_true, decide_eq_true_eq] at hs
      exact .resolveGroup hs.1.1.1
  | recordMove d k c toKey p =>
      exact rewrites_updateAt fun r hk hd => .move (by simpa using hd) hk
  | clearMove d k => exact rewrites_updateAt fun r hk hd => .unmove (by simpa using hd) hk
  | resolveMove k action =>
      cases action with
      | apply => exact .refl
      | keep =>
          refine rewrites_updateAt fun r hk hs => ?_
          simp only [Bool.and_eq_true, Option.isNone_iff_eq_none] at hs
          exact .keepMove hk hs.1 hs.2
  | recordAbsent d k => exact rewrites_updateAt fun r hk hd => .absent (by simpa using hd) hk
  | recordReportedDeletion d k =>
      refine rewrites_updateAt fun r hk hs => ?_
      simp only [Bool.and_eq_true, decide_eq_true_eq, Option.isNone_iff_eq_none] at hs
      exact .reported hs.1 hk hs.2
  | recordTrashedDeletion d k =>
      refine rewrites_updateAt fun r hk hs => ?_
      simp only [Bool.and_eq_true, decide_eq_true_eq, Option.isNone_iff_eq_none] at hs
      exact .trashed hs.1 hk hs.2
  | clearAbsent d k =>
      refine rewrites_updateAt fun r hk hs => ?_
      simp only [Bool.and_eq_true, decide_eq_true_eq] at hs
      exact .back hs.1 hk
  | resolveDeletion k action =>
      cases action with
      | apply => exact .refl
      | keep =>
          refine rewrites_updateAt fun r hk hs => ?_
          simp only [Bool.and_eq_true, Option.isNone_iff_eq_none] at hs
          exact .keepDeletion hk hs.2
  | applyDeletion d k => exact rewrites_updateAt fun r hk hs => .delete hk hs
  | applyRelocation d k => exact rewrites_updateAt fun r hk hs => .relocate hk hs
  | supersedeFormerNames d names =>
      refine rewrites_updateWhere fun r hs => ?_
      simp only [Bool.and_eq_true, decide_eq_true_eq] at hs
      exact .supersede hs.1.1 hs.1.2
  | markEarlierExports d names =>
      refine rewrites_updateWhere fun r hs => ?_
      simp only [Bool.and_eq_true, decide_eq_true_eq, Option.isNone_iff_eq_none] at hs
      exact .mark hs.1.1.1 hs.1.1.2 hs.1.2
  | clearEarlierExport d k =>
      refine rewrites_updateAt fun r hk hs => ?_
      simp only [Bool.and_eq_true, decide_eq_true_eq] at hs
      exact .unmark hs.1.1 hk hs.1.2

/-- A row that is there stays there, and changed in one of the listed ways, if
at all. -/
theorem run_get_some {h : Host} {o : LedgerOp} {l : Ledger} {k : String} {r : ItemRow}
    (hr : l.get k = some r) :
    ∃ r', (o.run h l).2.get k = some r' ∧ (r' = r ∨ Change h l o r r') := by
  have hk := run_rewrites h o l k
  rwa [hr] at hk

theorem run_get_none {h : Host} {o : LedgerOp} {l : Ledger} {k : String} {r' : ItemRow}
    (hr : l.get k = none) (hr' : (o.run h l).2.get k = some r') : Inserted h o r' := by
  have hk := run_rewrites h o l k
  rw [hr] at hk
  exact hk r' hr'

/-- **Every row after a call** was there, was changed in one of the listed
ways, or was inserted by it. -/
theorem run_rows {h : Host} {o : LedgerOp} {l : Ledger} {r' : ItemRow}
    (hr : r' ∈ (o.run h l).2.rows) :
    r' ∈ l.rows ∨ (∃ r ∈ l.rows, Change h l o r r') ∨ Inserted h o r' := by
  have hget := Table.get_of_mem hr
  cases hk : l.get r'.naturalKeyHash with
  | none => exact .inr (.inr (run_get_none hk hget))
  | some r =>
      obtain ⟨r'', hr'', hor⟩ := run_get_some (h := h) (o := o) hk
      rw [hget] at hr''
      cases hr''
      rcases hor with rfl | hc
      · exact .inl (Table.mem_of_get hk)
      · exact .inr (.inl ⟨r, Table.mem_of_get hk, hc⟩)

theorem Change.domain {h : Host} {l : Ledger} {o : LedgerOp} {r r' : ItemRow}
    (hc : Change h l o r r') : r'.domain = r.domain := by
  cases hc with
  | @resolve _ action | @resolveGroup action => cases action <;> rfl
  | _ => rfl

/-! ### Runs -/

/-- One call, in any circumstances, if `may` allows it on these rows. -/
def Call (may : Ledger → LedgerOp → Prop) (l l' : Ledger) : Prop :=
  ∃ (h : Host) (o : LedgerOp), may l o ∧ l' = (o.run h l).2

/-- The rows some sequence of allowed calls leaves, from none at all. -/
def Reached (may : Ledger → LedgerOp → Prop) : Ledger → Prop :=
  Relation.ReflTransGen (Call may) Table.empty

/-- The induction over a run: an invariant of each row that no change breaks
and every inserted row has. -/
theorem Reached.rows {may : Ledger → LedgerOp → Prop} {I : ItemRow → Prop}
    (hchange : ∀ h l o r r', may l o → (∀ r ∈ l.rows, I r) → r ∈ l.rows →
      Change h l o r r' → I r')
    (hinsert : ∀ h l o r, may l o → Inserted h o r → I r)
    {l : Ledger} (hl : Reached may l) : ∀ r ∈ l.rows, I r := by
  induction hl with
  | refl => intro r hr; cases hr
  | tail _ hcall ih =>
      obtain ⟨h, o, hmay, rfl⟩ := hcall
      intro r' hr'
      rcases run_rows hr' with hr | ⟨r, hmem, hc⟩ | hi
      · exact ih r' hr
      · exact hchange h _ o r r' hmay ih hmem hc
      · exact hinsert h _ o r' hmay hi

/-! ### Removed copies -/

/-- The date of the removal stands on exactly the tombstoned rows. -/
def Marked (r : ItemRow) : Prop :=
  r.deletionAppliedAt.isSome ↔ r.status = .tombstoned

/-- Does this call name a status of its own, other than `tombstoned`? -/
def namesNoTombstone : LedgerOp → Prop
  | .recordIfAbsent record => record.status ≠ some .tombstoned
  | .recordUpdate record => record.status ≠ some .tombstoned
  | _ => True

/-- Does this call rewrite no row that carries the date of a removal? -/
def rewritesNoRemoved (l : Ledger) : LedgerOp → Prop
  | .recordUpdate record => ∀ r ∈ l.rows, r.domain = record.itemType →
      r.naturalKeyHash = record.naturalKeyHash → r.deletionAppliedAt = none
  | .recordFailure record _ _ => ∀ r ∈ l.rows, r.domain = record.itemType →
      r.naturalKeyHash = record.naturalKeyHash → r.deletionAppliedAt = none
  | _ => True

/-- **A tombstone has its date**, in every run, whatever is rewritten. -/
theorem tombstoned_dated {l : Ledger} (hl : Reached (fun _ o => namesNoTombstone o) l) :
    ∀ r ∈ l.rows, r.status = .tombstoned → r.deletionAppliedAt.isSome := by
  refine hl.rows (I := fun r => r.status = .tombstoned → r.deletionAppliedAt.isSome) ?_ ?_
  · intro h l o r r' hmay hI hmem hc
    have hr := hI r hmem
    cases hc with
    | @update record =>
        intro hs
        simp only [updatedRow] at hs
        have hmay : record.status ≠ some .tombstoned := hmay
        cases hrs : record.status with
        | none => simp [hrs] at hs
        | some s => simp only [hrs, Option.getD_some] at hs; exact absurd (hs ▸ hrs) hmay
    | bump => intro hs; cases hs
    | @resolve _ action | @resolveGroup action =>
        cases action with
        | accept => intro hs; cases hs
        | retry => exact hr
    | supersede => intro hs; cases hs
    | delete | relocate => intro _; rfl
    | _ => exact hr
  · intro h l o r hmay hi
    cases hi with
    | @recorded record =>
        intro hs
        simp only [insertedRow] at hs
        have hmay : record.status ≠ some .tombstoned := hmay
        cases hrs : record.status with
        | none => simp [hrs] at hs
        | some s => simp only [hrs, Option.getD_some] at hs; exact absurd (hs ▸ hrs) hmay
    | failed => intro hs; cases hs

end Ledger

/-! ### The date and the status, over a run -/

/-- **In every run that rewrites no removed row**, the date of a removal stands
on exactly the tombstoned rows. -/
theorem marked_of_reached {l : Ledger}
    (hl : Ledger.Reached (fun l o => Ledger.namesNoTombstone o ∧
      Ledger.rewritesNoRemoved l o) l) : ∀ r ∈ l.rows, Ledger.Marked r := by
  refine hl.rows ?_ ?_
  · intro h l o r r' hmay hI hmem hc
    have hr : r.deletionAppliedAt.isSome ↔ r.status = .tombstoned := hI r hmem
    have live {s : ItemStatus} (hs : r.status = s) (hne : s ≠ .tombstoned) :
        r.deletionAppliedAt = none := by
      rw [← Option.not_isSome_iff_eq_none, hr, hs]
      exact hne
    cases hc with
    | @update record _ hd hk =>
        have hnone := hmay.2 r hmem hd hk
        have hst : record.status ≠ some .tombstoned := hmay.1
        cases hrs : record.status with
        | none => simp [Ledger.Marked, Ledger.updatedRow, hnone, hrs]
        | some s =>
            have : s ≠ .tombstoned := fun h => hst (h ▸ hrs)
            simp [Ledger.Marked, Ledger.updatedRow, hnone, hrs, this]
    | bump hd hk =>
        have hnone := hmay.2 r hmem hd hk
        simp [Ledger.Marked, Ledger.bumpedRow, hnone]
    | @resolve _ action _ _ hf | @resolveGroup action _ _ hf =>
        have hnone := live hf (by decide)
        cases action with
        | accept => simp [Ledger.Marked, Ledger.resolvedRow, hnone]
        | retry => exact hr
    | supersede _ hf =>
        have hnone := live hf (by decide)
        simp [Ledger.Marked, Ledger.supersededRow, hnone]
    | delete | relocate =>
        simp [Ledger.Marked, Ledger.deletedRow, Ledger.relocatedRow]
    | _ => exact hr
  · intro h l o r hmay hi
    cases hi with
    | @recorded record =>
        have hst : record.status ≠ some .tombstoned := hmay.1
        cases hrs : record.status with
        | none => simp [Ledger.Marked, Ledger.insertedRow, hrs]
        | some s =>
            have : s ≠ .tombstoned := fun h => hst (h ▸ hrs)
            simp [Ledger.Marked, Ledger.insertedRow, hrs, this]
    | failed => simp [Ledger.Marked, Ledger.failedRow]

/-! ### A file that was renamed, and came back under its old name -/

namespace Ledger

/-- A sequence of calls, each in the same circumstances. -/
def runCalls (h : Host) (calls : List LedgerOp) (l : Ledger) : Ledger :=
  calls.foldl (fun l o => (o.run h l).2) l

theorem reached_runCalls {p : LedgerOp → Prop} {h : Host} {calls : List LedgerOp}
    (hp : ∀ o ∈ calls, p o) {l : Ledger} (hl : Reached (fun _ o => p o) l) :
    Reached (fun _ o => p o) (runCalls h calls l) := by
  induction calls generalizing l with
  | nil => exact hl
  | cons o calls ih =>
      exact ih (fun o' ho' => hp o' (List.mem_cons_of_mem _ ho'))
        (hl.tail ⟨h, o, hp o List.mem_cons_self, rfl⟩)

/-- One copied file, as its writer records it. -/
def fileRecord (naturalKeyHash targetId : String) : LedgerRecord where
  itemType := .file
  naturalKeyHash := naturalKeyHash
  contentHash := "c"
  targetId := targetId
  collection := some "docs"
  sourceVersion := some "1"

def removalHost : Host := ⟨7, fun _ _ => .unknown⟩

/-- The calls that relocate the old name to the new one and record that its
copy was removed. -/
def relocating : List LedgerOp :=
  [.recordIfAbsent (fileRecord "old" "t-old"), .recordIfAbsent (fileRecord "new" "t-new"),
    .recordMove .file "old" "docs" (some "new") .content, .applyRelocation .file "old"]

end Ledger

theorem marked_of_reached_relocated :
    (∃ r ∈ (Ledger.runCalls Ledger.removalHost Ledger.relocating Table.empty).rows,
      r.deletionAppliedAt = some 7) ∧
    ∀ r ∈ (Ledger.runCalls Ledger.removalHost Ledger.relocating Table.empty).rows,
      Ledger.Marked r :=
  ⟨by decide, marked_of_reached <|
    ((((Relation.ReflTransGen.refl).tail
      ⟨Ledger.removalHost, .recordIfAbsent (Ledger.fileRecord "old" "t-old"),
        ⟨nofun, trivial⟩, rfl⟩).tail
      ⟨Ledger.removalHost, .recordIfAbsent (Ledger.fileRecord "new" "t-new"),
        ⟨nofun, trivial⟩, rfl⟩).tail
      ⟨Ledger.removalHost, .recordMove .file "old" "docs" (some "new") .content,
        ⟨trivial, trivial⟩, rfl⟩).tail
      ⟨Ledger.removalHost, .applyRelocation .file "old", ⟨trivial, trivial⟩, rfl⟩⟩

theorem Ledger.tombstoned_dated_relocated :
    (∃ r ∈ (Ledger.runCalls Ledger.removalHost Ledger.relocating Table.empty).rows,
      r.status = .tombstoned) ∧
    ∀ r ∈ (Ledger.runCalls Ledger.removalHost Ledger.relocating Table.empty).rows,
      r.status = .tombstoned → r.deletionAppliedAt.isSome := by
  have hnames : ∀ o ∈ Ledger.relocating, Ledger.namesNoTombstone o := by
    simp [Ledger.relocating, Ledger.namesNoTombstone, Ledger.fileRecord]
  exact ⟨by decide, Ledger.tombstoned_dated (Ledger.reached_runCalls hnames .refl)⟩

/-- The old name is given to a file again, and its row is written like any
other: `updated`, with the date of the removal still on it. -/
theorem rewritten_keeps_removal_date :
    ¬ ∀ l, Ledger.Reached (fun _ _ => True) l → ∀ r ∈ l.rows, Ledger.Marked r := by
  intro hall
  let calls := Ledger.relocating ++ [.recordUpdate (Ledger.fileRecord "old" "t-old-again")]
  let l := Ledger.runCalls Ledger.removalHost calls Table.empty
  have hl : Ledger.Reached (fun _ _ => True) l :=
    Ledger.reached_runCalls (p := fun _ => True) (fun _ _ => trivial) .refl
  have hrow : ∃ r ∈ l.rows, r.status = .updated ∧ r.deletionAppliedAt = some 7 := by decide
  obtain ⟨r, hmem, hstatus, hdate⟩ := hrow
  have hmarked := (hall l hl r hmem).mp (by rw [hdate]; rfl)
  rw [hstatus] at hmarked
  cases hmarked

end Ownpace
