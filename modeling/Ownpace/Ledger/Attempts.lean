/-
Ownpace/Ledger/Attempts.lean

The count of a row's failed attempts, and the mark that it waits for a person,
over the whole life of the row.

`Happening` names what a call can be to the row under one key: a failed
attempt, a retry a person asked for, a write, a supersession.  `Lived` is a run
of any calls at all, those of passes and those of decisions, together with what
they were to that row, the latest first.

Two columns carry the account, and one invariant reads both off the history:
the count is the failures since the last retry, and the mark stands exactly if
one of these was an error only a person can decide (`Lived.account`).  A write
or a supersession is no retry (`counted_over_a_copy`).
-/
import Ownpace.Ledger.Runs
import Ownpace.Sync.Known

namespace Ownpace

open Store

namespace Ledger

/-! ### What a call is to a row -/

/-- What a call to the ledger can be to the row under one key. -/
inductive Happening : Type
  | failed (personOnly : Bool)
  | retried
  | written
  | superseded
  deriving DecidableEq

/-- What this call is to the row under this key, if it is anything. -/
def happening (l : Ledger) (k : String) : LedgerOp → Option Happening
  | .recordIfAbsent record =>
    if record.naturalKeyHash = k ∧ l.get k = none then some .written else none
  | .recordUpdate record =>
    if record.naturalKeyHash = k ∧ (l.get k).any (fun r => r.domain = record.itemType)
    then some .written else none
  | .recordFailure record _ options =>
    if record.naturalKeyHash = k ∧ (l.get k).all (fun r => r.domain = record.itemType)
    then some (.failed options.park) else none
  | .resolveFailure key .retry =>
    if key = k ∧ (l.get k).any (fun r => r.status = .failed) then some .retried else none
  | .resolveFailureGroup .retry m =>
    if (l.get k).any m.picks then some .retried else none
  | .supersedeFormerNames d names =>
    if (l.get k).any fun r => r.domain = d && r.status = .failed && (claimant names r).isSome
    then some .superseded else none
  | _ => none

/-- What has happened to a row since a person last asked for a retry. -/
def sinceRetry (history : List Happening) : List Happening :=
  history.takeWhile (· ≠ .retried)

/-- And since the later of that and the last time it was written or superseded. -/
def sinceCopyOrRetry (history : List Happening) : List Happening :=
  history.takeWhile fun e => e ≠ .retried ∧ e ≠ .written ∧ e ≠ .superseded

def isFailure : Happening → Bool
  | .failed _ => true
  | _ => false

/-- How many of these were failed attempts. -/
def failures (events : List Happening) : Nat :=
  events.countP isFailure

section Since

variable {history : List Happening}

@[simp] theorem sinceRetry_nil : sinceRetry [] = [] := rfl

@[simp] theorem sinceRetry_retried : sinceRetry (.retried :: history) = [] := rfl

@[simp] theorem sinceRetry_failed (personOnly : Bool) :
    sinceRetry (.failed personOnly :: history) = .failed personOnly :: sinceRetry history := rfl

@[simp] theorem sinceRetry_written :
    sinceRetry (.written :: history) = .written :: sinceRetry history := rfl

@[simp] theorem sinceRetry_superseded :
    sinceRetry (.superseded :: history) = .superseded :: sinceRetry history := rfl

@[simp] theorem failures_nil : failures [] = 0 := rfl

@[simp] theorem failures_failed (personOnly : Bool) :
    failures (.failed personOnly :: history) = failures history + 1 :=
  List.countP_cons_of_pos rfl

@[simp] theorem failures_written : failures (.written :: history) = failures history :=
  List.countP_cons_of_neg Bool.false_ne_true

@[simp] theorem failures_superseded : failures (.superseded :: history) = failures history :=
  List.countP_cons_of_neg Bool.false_ne_true

end Since

/-! ### Lives -/

/-- The rows some calls leave, from none at all, with what those calls were to
the row under one key, the latest first. -/
inductive Lived (k : String) : List Happening → Ledger → Prop
  | start : Lived k [] Table.empty
  | call {history l} (h : Host) (o : LedgerOp) : Lived k history l →
      Lived k ((happening l k o).toList ++ history) (o.run h l).2

/-- The account a row gives of its history. -/
structure Account (history : List Happening) (r : ItemRow) : Prop where
  count : r.attemptCount = failures (sinceRetry history)
  parked : r.parkedAt.isSome ↔ .failed true ∈ sinceRetry history

section Steps

variable {h : Host} {l : Ledger} {o : LedgerOp} {k : String} {r r' : ItemRow}
variable {history : List Happening} {record : LedgerRecord} {error : String}
variable {options : FailureOptions}

/-- A call that is no failure and no retry leaves both columns alone. -/
theorem Account.other (ha : Account history r) (hcount : r'.attemptCount = r.attemptCount)
    (hparked : r'.parkedAt = r.parkedAt) {e : Option Happening}
    (he : e = none ∨ e = some .written ∨ e = some .superseded) :
    Account (e.toList ++ history) r' := by
  rcases he with rfl | rfl | rfl
  · exact ⟨hcount.trans ha.count, by rw [hparked]; exact ha.parked⟩
  · refine ⟨?_, ?_⟩
    · show r'.attemptCount = failures (sinceRetry (.written :: history))
      rw [sinceRetry_written, failures_written]
      exact hcount.trans ha.count
    · show r'.parkedAt.isSome ↔ _ ∈ sinceRetry (.written :: history)
      rw [hparked, sinceRetry_written, List.mem_cons]
      simp [ha.parked]
  · refine ⟨?_, ?_⟩
    · show r'.attemptCount = failures (sinceRetry (.superseded :: history))
      rw [sinceRetry_superseded, failures_superseded]
      exact hcount.trans ha.count
    · show r'.parkedAt.isSome ↔ _ ∈ sinceRetry (.superseded :: history)
      rw [hparked, sinceRetry_superseded, List.mem_cons]
      simp [ha.parked]

/-- A failure counts once, and parks the row if only a person can decide it. -/
theorem Account.bump (ha : Account history r) (now : Nat) (category : FailureCategory)
    (record : LedgerRecord) (error : String) (park : Bool) :
    Account (.failed park :: history) (bumpedRow now category record error park r) := by
  refine ⟨?_, ?_⟩
  · rw [sinceRetry_failed, failures_failed, ← ha.count]
    rfl
  · rw [sinceRetry_failed, List.mem_cons]
    cases park with
    | true => simp [bumpedRow]
    | false => simp [bumpedRow, ha.parked]

/-- A retry starts both again. -/
theorem Account.retry : Account (.retried :: history) (resolvedRow .retry r) :=
  ⟨rfl, by simp [resolvedRow]⟩

/-- The calls that are neither a failure nor a retry. -/
def leavesAttempts : LedgerOp → Prop
  | .recordFailure .. => False
  | .resolveFailure _ action => action ≠ .retry
  | .resolveFailureGroup action _ => action ≠ .retry
  | _ => True

theorem Change.attempts (hc : Change h l o r r') (ho : leavesAttempts o) :
    r'.attemptCount = r.attemptCount ∧ r'.parkedAt = r.parkedAt := by
  cases hc with
  | bump => exact ho.elim
  | @resolve _ action | @resolveGroup action =>
      cases action with
      | retry => exact absurd rfl ho
      | accept => exact ⟨rfl, rfl⟩
  | _ => exact ⟨rfl, rfl⟩

theorem happening_of_leaves (ho : leavesAttempts o) :
    happening l k o = none ∨ happening l k o = some .written ∨
      happening l k o = some .superseded := by
  cases o with
  | recordFailure => exact ho.elim
  | resolveFailure _ action | resolveFailureGroup action =>
      cases action with
      | retry => exact absurd rfl ho
      | accept => exact .inl rfl
  | recordIfAbsent | recordUpdate | supersedeFormerNames =>
      simp only [happening]
      split
      · first | exact .inr (.inl rfl) | exact .inr (.inr rfl)
      · exact .inl rfl
  | _ => exact .inl rfl

theorem Account.leaves (ha : Account history r) (hget : l.get k = some r)
    (ho : leavesAttempts o) (hget' : (o.run h l).2.get k = some r') :
    Account ((happening l k o).toList ++ history) r' := by
  obtain ⟨r₁, hr₁, hc⟩ := run_get_some (h := h) (o := o) hget
  rw [hget'] at hr₁
  cases hr₁
  rcases hc with rfl | hc
  · exact ha.other rfl rfl (happening_of_leaves ho)
  · exact ha.other (hc.attempts ho).1 (hc.attempts ho).2 (happening_of_leaves ho)

/-- A failure that is recorded for the row. -/
theorem Account.failure (ha : Account history r) (hget : l.get k = some r) (hk : record.naturalKeyHash = k)
    (hd : r.domain = record.itemType)
    (hget' : (LedgerOp.run h (.recordFailure record error options) l).2.get k = some r') :
    Account (.failed options.park :: history) r' := by
  subst hk
  have hrow : l.rowAt record.itemType record.naturalKeyHash = some r := by
    rw [rowAt, hget, Option.filter_some, if_pos (decide_eq_true hd)]
  simp only [LedgerOp.run, recordFailure, hget, hrow] at hget'
  have hat := updateAt_get l record.naturalKeyHash (fun r => r.domain = record.itemType)
    (bumpedRow h.now (classifyFailure h.rules error options.side options.category) record error
      options.park) (fun _ => rfl) record.naturalKeyHash
  rw [if_pos rfl, hget, Option.map_some, decide_eq_true hd, cond_true] at hat
  cases hget'.symm.trans hat
  exact ha.bump _ _ _ _ _

/-- **One call**, on a row that is there. -/
theorem Account.step (ha : Account history r) (hget : l.get k = some r)
    (hget' : (o.run h l).2.get k = some r') :
    Account ((happening l k o).toList ++ history) r' := by
  by_cases ho : leavesAttempts o
  · exact ha.leaves hget ho hget'
  obtain ⟨r₁, hr₁, hc⟩ := run_get_some (h := h) (o := o) hget
  rw [hget'] at hr₁
  cases hr₁
  cases o with
  | recordFailure record error options =>
      simp only [happening, hget, Option.all_some, decide_eq_true_eq]
      split
      · next hrow => exact ha.failure hget hrow.1 hrow.2 hget'
      · next hrow =>
          rcases hc with rfl | hc
          · exact ha
          · cases hc with
            | bump hd hk =>
                exact absurd ⟨hk.symm.trans (key_of_get hget), hd⟩ hrow
  | resolveFailure key action =>
      cases action with
      | accept => exact absurd (by intro heq; cases heq) ho
      | retry =>
          simp only [happening, hget, Option.any_some, decide_eq_true_eq]
          split
          · next hrow =>
              obtain ⟨rfl, hs⟩ := hrow
              simp only [LedgerOp.run, LedgerOp.run.ok, resolveFailure, updateAt_get, if_true, hget,
                Option.map_some, decide_eq_true hs, cond_true, Option.some.injEq] at hget'
              subst hget'
              exact .retry
          · next hrow =>
              rcases hc with rfl | hc
              · exact ha
              · cases hc with
                | resolve hk hs => exact absurd ⟨hk.symm.trans (key_of_get hget), hs⟩ hrow
  | resolveFailureGroup action m =>
      cases action with
      | accept => exact absurd (by intro heq; cases heq) ho
      | retry =>
          simp only [LedgerOp.run, LedgerOp.run.ok, resolveFailureGroup, Table.get_updateWhere, hget,
            Option.map_some, Option.some.injEq] at hget'
          subst hget'
          simp only [happening, hget, Option.any_some]
          cases hm : m.picks r with
          | true => exact .retry
          | false => exact ha
  | _ => exact absurd trivial ho

/-- A row that a call creates starts its account with that call. -/
theorem Account.insert (hget : l.get k = none) (hget' : (o.run h l).2.get k = some r') :
    Account ((happening l k o).toList ++ []) r' := by
  have hkey := key_of_get hget'
  cases run_get_none hget hget' with
  | @recorded record =>
      have hk : record.naturalKeyHash = k := hkey
      simp only [happening, hk, hget, and_self, if_true]
      exact ⟨rfl, by simp [insertedRow]⟩
  | @failed record error options category =>
      have hk : record.naturalKeyHash = k := hkey
      simp only [happening, hk, hget, Option.all_none, and_self, if_true]
      refine ⟨rfl, ?_⟩
      cases options.park <;> simp [failedRow]

/-- No call is anything to a row that is not there after it. -/
theorem happening_of_none (hget' : (o.run h l).2.get k = none) : happening l k o = none := by
  have hget : l.get k = none := by
    cases hget : l.get k with
    | none => rfl
    | some r =>
        obtain ⟨r', hr', -⟩ := run_get_some (h := h) (o := o) hget
        rw [hget'] at hr'
        cases hr'
  cases o with
  | recordIfAbsent record =>
      simp only [happening]
      split
      · next hk =>
          rw [← hk.1] at hget hget'
          simp [LedgerOp.run, recordIfAbsent, hget, Table.get_insert, insertedRow] at hget'
      · rfl
  | recordFailure record error options =>
      simp only [happening]
      split
      · next hk =>
          rw [← hk.1] at hget hget'
          simp [LedgerOp.run, recordFailure, hget, Table.get_insert, failedRow] at hget'
      · rfl
  | resolveFailure _ action => cases action <;> simp [happening, hget]
  | resolveFailureGroup action => cases action <;> simp [happening, hget]
  | recordUpdate | supersedeFormerNames => simp [happening, hget]
  | _ => rfl

end Steps

/-! ### Over a whole life -/

/-- **The account of a row**, after any calls: its count is the failures since
the last retry, and it is parked exactly if one of these asked for a person. -/
theorem Lived.account {k : String} {history : List Happening} {l : Ledger}
    (hl : Lived k history l) :
    (l.get k = none → history = []) ∧ ∀ r, l.get k = some r → Account history r := by
  induction hl with
  | start => exact ⟨fun _ => rfl, fun r hr => by cases hr⟩
  | @call history l h o _ ih =>
      obtain ⟨hnone, haccount⟩ := ih
      refine ⟨fun hget' => ?_, fun r' hget' => ?_⟩
      · rw [happening_of_none hget', Option.toList_none, List.nil_append]
        refine hnone ?_
        cases hget : l.get k with
        | none => rfl
        | some r =>
            obtain ⟨r', hr', -⟩ := run_get_some (h := h) (o := o) hget
            rw [hget'] at hr'
            cases hr'
      · cases hget : l.get k with
        | none =>
            rw [hnone hget]
            exact .insert hget hget'
        | some r => exact (haccount r hget).step hget hget'

/-- What the table of answers says of a failed row. -/
theorem classify_needsDecision_iff {known : LedgerRecord} {version : Option String}
    {collection : String} :
    classifyKnownItem known version collection = .needsDecision ↔
      known.status = some .failed ∧
        (known.parkedAt.isSome ∨ MAX_ITEM_ATTEMPTS ≤ known.attemptCount.getD 0) := by
  unfold classifyKnownItem
  split
  · next hs => simp [hs]
  · next hs => simp [hs]
  · next hs => split <;> simp [hs]
  · next hs => split <;> simp_all
  · next hs =>
      have hne : known.status ≠ some .failed := by assumption
      simp only [hne, false_and, iff_false]
      split
      · intro heq; cases heq
      · unfold classifyVersion
        split
        · intro heq; cases heq
        · split
          · intro heq; cases heq
          · split
            · intro heq; cases heq
            · split <;> (intro heq; cases heq)

end Ledger

open Ledger

/-- **When an item waits for a person**, after any passes and decisions: its last
attempt failed, and since the last retry that was asked for there were
`MAX_ITEM_ATTEMPTS` failures, or one that only a person can decide. -/
theorem needsDecision_iff_account {k : String} {history : List Happening} {l : Ledger}
    (hl : Lived k history l) {domain : DiscoveryDomain} {known : LedgerRecord}
    (hfind : l.find domain k = some known) (version : Option String) (collection : String) :
    classifyKnownItem known version collection = .needsDecision ↔
      known.status = some .failed ∧ (MAX_ITEM_ATTEMPTS ≤ failures (sinceRetry history) ∨
        .failed true ∈ sinceRetry history) := by
  obtain ⟨r, hr, -, rfl⟩ := find_eq_some.mp hfind
  have ha := hl.account.2 r hr
  have hcount : (mapRowToRecord r).attemptCount.getD 0 = failures (sinceRetry history) := ha.count
  have hparked : (mapRowToRecord r).parkedAt.isSome ↔ .failed true ∈ sinceRetry history := ha.parked
  rw [classify_needsDecision_iff, hcount, hparked, or_comm]

/-! ### A file that failed four times, was copied, and failed once more -/

namespace Ledger

/-- What these calls are to the row, before what has happened to it already. -/
def historyOf (h : Host) (k : String) : List LedgerOp → Ledger → List Happening → List Happening
  | [], _, history => history
  | o :: calls, l, history =>
    historyOf h k calls (o.run h l).2 ((happening l k o).toList ++ history)

theorem Lived.runCalls {k : String} (h : Host) (calls : List LedgerOp)
    {history : List Happening} {l : Ledger} (hl : Lived k history l) :
    Lived k (historyOf h k calls l history) (runCalls h calls l) := by
  induction calls generalizing history l with
  | nil => exact hl
  | cons o calls ih => exact ih (hl.call h o)

/-- A pass that could not read the file. -/
def failing : LedgerOp := .recordFailure (fileRecord "file" "") "EIO" {}

/-- Four passes that fail, one that copies it, and one that finds it changed and fails. -/
def failsAfterCopy : List LedgerOp :=
  [failing, failing, failing, failing, .recordUpdate (fileRecord "file" "t"), failing]

theorem lived_failsAfterCopy : Lived "file"
    [.failed false, .written, .failed false, .failed false, .failed false, .failed false]
    (runCalls removalHost failsAfterCopy Table.empty) :=
  Lived.runCalls removalHost failsAfterCopy .start

theorem find_failsAfterCopy :
    ((runCalls removalHost failsAfterCopy Table.empty).find .file "file").any (fun known =>
      classifyKnownItem known (some "2") "docs" = .needsDecision) = true := by
  decide

end Ledger

theorem needsDecision_iff_account_file : ∃ known,
    (runCalls removalHost failsAfterCopy Table.empty).find .file "file" = some known ∧
      (classifyKnownItem known (some "2") "docs" = .needsDecision ↔
        known.status = some .failed ∧
          (MAX_ITEM_ATTEMPTS ≤ failures (sinceRetry [.failed false, .written, .failed false,
            .failed false, .failed false, .failed false]) ∨
          .failed true ∈ sinceRetry [.failed false, .written, .failed false, .failed false,
            .failed false, .failed false])) := by
  obtain ⟨known, hfind, -⟩ := (Option.any_eq_true _ _).mp find_failsAfterCopy
  exact ⟨known, hfind, needsDecision_iff_account lived_failsAfterCopy hfind (some "2") "docs"⟩

/-- The copy does not start the count again: the one failure after it parks the file. -/
theorem counted_over_a_copy :
    ¬ ∀ k history l, Lived k history l → ∀ domain known version collection,
      l.find domain k = some known →
      classifyKnownItem known version collection = .needsDecision →
        MAX_ITEM_ATTEMPTS ≤ failures (sinceCopyOrRetry history) ∨
          .failed true ∈ sinceCopyOrRetry history := by
  intro hall
  obtain ⟨known, hfind, hc⟩ := (Option.any_eq_true _ _).mp find_failsAfterCopy
  have h := hall _ _ _ lived_failsAfterCopy .file known (some "2") "docs" hfind
    (of_decide_eq_true hc)
  revert h
  decide

end Ownpace
