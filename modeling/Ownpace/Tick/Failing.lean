/-
Ownpace/Tick/Failing.lean

A migration whose every pass fails, ticked minute by minute: the rows its passes leave, the
failures that `ACTIVE_MAPPINGS_SQL` counts of them (`managed-sync-tick.ts`), and the gap that
these earn.

The count is taken over a window, so failures leave it as others enter.  The gap is kept
where the failures a rung rests on stay in the window (`askedLess_iff_sustained`); on the last
rung they cannot, since a day apart only seven fit (`lastRung_left`).
-/
import Mathlib.Data.List.Forall2
import Ownpace.Tick.Cadence

namespace Ownpace.Tick

/-! ### The rows of a migration -/

/-- The `status` of a `run` row. -/
inductive RunStatus : Type
  | running | failed | succeeded
  deriving DecidableEq

structure PassRow where
  startedAt : Int
  status : RunStatus
  deriving DecidableEq

/-- `2 * PASS_HARD_LIMIT_MS` -/
def STALE_RUN_AFTER_MS : Int := 2 * 3600000

def WINDOW_MS : Int := FAILURE_WINDOW_MINUTES * MINUTE_MS

/-- `max(r.started_at)` -/
def lastStarted (rows : List PassRow) : Option Int := (rows.map PassRow.startedAt).max?

/-- A row that runs and is not stale. -/
def anyRunning (rows : List PassRow) (now : Int) : Bool :=
  rows.any fun r => r.status = .running && now - STALE_RUN_AFTER_MS < r.startedAt

/-- The start of the newest pass in the window that succeeded. -/
def lastSuccess (rows : List PassRow) (now : Int) : Option Int :=
  ((rows.filter fun ok => now - WINDOW_MS < ok.startedAt && ok.status = .succeeded).map
    PassRow.startedAt).max?

/-- `consecutive_failures` -/
def consecutiveFailures (rows : List PassRow) (now : Int) : Nat :=
  rows.countP fun r => now - WINDOW_MS < r.startedAt && r.status = .failed &&
    (lastSuccess rows now).all fun ok => ok < r.startedAt

/-- What the tick knows of the failures, none of which heals itself. -/
def failingState (rows : List PassRow) (now : Int) : FailingState where
  consecutiveFailures := consecutiveFailures rows now
  anySelfHealing := false
  lastStartedAt := lastStarted rows

/-! ### From one tick to the next -/

/-- What becomes of a row within a minute: a pass that runs may fail. -/
inductive Ends : PassRow → PassRow → Prop
  | same (r : PassRow) : Ends r r
  | fails (startedAt : Int) : Ends ⟨startedAt, .running⟩ ⟨startedAt, .failed⟩

/-- The rows once the tick has decided: a pass that is attempted starts before the next tick,
or waits for a free place. -/
inductive Decided (cron : Cron) (facts : DueFacts) (now : Int) (rows : List PassRow) :
    List PassRow → Prop
  | waits : Decided cron facts now rows rows
  | starts {startedAt : Int} (hidle : anyRunning rows now = false)
      (hattempted : isAttempted cron facts (failingState rows now) now = true)
      (hstart : now ≤ startedAt) (hbefore : startedAt < now + MINUTE_MS) :
      Decided cron facts now rows (⟨startedAt, .running⟩ :: rows)

def Minute (cron : Cron) (facts : DueFacts) (now : Int) (rows rows' : List PassRow) : Prop :=
  ∃ decided, Decided cron facts now rows decided ∧ List.Forall₂ Ends decided rows'

def tickAt (start : Int) (k : Nat) : Int := start + k * MINUTE_MS

/-- A run in which no pass succeeds.  The schedule and the facts may change from tick to
tick; passes before it succeeded. -/
structure FailingRun (cron : Nat → Cron) (facts : Nat → DueFacts) (start : Int) where
  rows : Nat → List PassRow
  begins : ∀ r ∈ rows 0, r.status = .succeeded ∧ r.startedAt < start
  minute : ∀ k, Minute (cron k) (facts k) (tickAt start k) (rows k) (rows (k + 1))

/-- The gap at a tick. -/
def gapOf (rows : List PassRow) (now : Int) : Nat := minGapMinutes (failingState rows now)

namespace FailingRun

variable {cron : Nat → Cron} {facts : Nat → DueFacts} {start : Int}

def gap (run : FailingRun cron facts start) (k : Nat) : Nat := gapOf (run.rows k) (tickAt start k)

/-- The failures of every rung reached are as many as it asks for a minute later. -/
def Sustained (run : FailingRun cron facts start) (k : Nat) : Prop :=
  ∀ step ∈ LADDER, step.afterFailures ≤ consecutiveFailures (run.rows k) (tickAt start k) →
    step.afterFailures ≤ consecutiveFailures (run.rows k) (tickAt start k + MINUTE_MS)

end FailingRun

/-! ### The gap and the rungs -/

theorem gapOf_eq (rows : List PassRow) (now : Int) : gapOf rows now =
    if 12 ≤ consecutiveFailures rows now then 1440
    else if 6 ≤ consecutiveFailures rows now then 240
    else if 3 ≤ consecutiveFailures rows now then 60 else 0 := by
  show (if 12 ≤ _ then 24 * 60 else if 6 ≤ _ then 4 * 60 else if 3 ≤ _ then 60 else 0) = _
  rfl

/-- A gap is kept where the rungs reached are. -/
theorem gapOf_le_iff {rows rows' : List PassRow} {now now' : Int} : gapOf rows now ≤ gapOf rows' now' ↔
    ∀ step ∈ LADDER, step.afterFailures ≤ consecutiveFailures rows now →
      step.afterFailures ≤ consecutiveFailures rows' now' := by
  rw [gapOf_eq, gapOf_eq]
  simp only [LADDER, List.forall_mem_cons, List.not_mem_nil, false_imp_iff, implies_true, and_true]
  constructor
  · intro h
    split_ifs at h <;> omega
  · intro h
    split_ifs <;> omega

/-! ### What a run keeps -/

/-- The failures that started after a moment. -/
def failedAfter (rows : List PassRow) (t : Int) : Nat :=
  rows.countP fun r => r.status = .failed && t < r.startedAt

def failures (rows : List PassRow) : Nat := rows.countP fun r => r.status = .failed

/-- The rows of a failing run at a tick: what succeeded did so before it, and every pass
started before the tick. -/
structure Kept (start now : Int) (rows : List PassRow) : Prop where
  succeeded : ∀ r ∈ rows, r.status = .succeeded → r.startedAt < start
  others : ∀ r ∈ rows, r.status ≠ .succeeded → start ≤ r.startedAt
  past : ∀ r ∈ rows, r.startedAt < now

variable {start now : Int} {rows rows' decided : List PassRow} {cron : Cron} {facts : DueFacts}

theorem Kept.consecutiveFailures_eq (h : Kept start now rows) (now' : Int) :
    consecutiveFailures rows now' = failedAfter rows (now' - WINDOW_MS) := by
  refine List.countP_congr fun r hr => ?_
  have hsuccess (hfailed : r.status = .failed) :
      ((lastSuccess rows now').all fun ok => ok < r.startedAt) = true := by
    cases hlast : lastSuccess rows now' with
    | none => rfl
    | some last =>
        -- The newest success came before the run, and the failure in it.
        obtain ⟨ok, hok, rfl⟩ := List.mem_map.mp (List.max?_mem hlast)
        obtain ⟨hmem, hok⟩ := List.mem_filter.mp hok
        rw [Bool.and_eq_true, decide_eq_true_eq, decide_eq_true_eq] at hok
        have hbefore := h.succeeded ok hmem hok.2
        have hafter := h.others r hr (by rw [hfailed]; decide)
        show decide (ok.startedAt < r.startedAt) = true
        exact decide_eq_true (by omega)
  by_cases hfailed : r.status = .failed
  · simp [hfailed, hsuccess hfailed]
  · simp [hfailed]

theorem Ends.startedAt {r r' : PassRow} (h : Ends r r') : r'.startedAt = r.startedAt := by
  cases h with
  | same => rfl
  | fails => rfl

theorem mem_of_ends (h : List.Forall₂ Ends decided rows') {r' : PassRow} (hr' : r' ∈ rows') :
    ∃ r ∈ decided, Ends r r' := by
  induction h with
  | nil => exact absurd hr' List.not_mem_nil
  | cons hend _ ih =>
      obtain rfl | hr' := List.mem_cons.mp hr'
      · exact ⟨_, List.mem_cons_self, hend⟩
      · obtain ⟨r, hr, hends⟩ := ih hr'
        exact ⟨r, List.mem_cons_of_mem _ hr, hends⟩

theorem Kept.minute (h : Kept start now rows) (hstart : start ≤ now)
    (hminute : Minute cron facts now rows rows') : Kept start (now + MINUTE_MS) rows' := by
  have hpos : 0 < MINUTE_MS := by decide
  obtain ⟨decided, hdecided, hends⟩ := hminute
  have hkept : Kept start (now + MINUTE_MS) decided := by
    cases hdecided with
    | waits => exact ⟨h.succeeded, h.others, fun r hr => by have hpast := h.past r hr; omega⟩
    | starts _ _ hfrom hbefore =>
        refine ⟨List.forall_mem_cons.mpr ⟨fun hrun => ?_, h.succeeded⟩,
          List.forall_mem_cons.mpr ⟨fun _ => ?_, h.others⟩,
          List.forall_mem_cons.mpr ⟨hbefore, fun r hr => ?_⟩⟩
        · cases hrun
        · exact Int.le_trans hstart hfrom
        · have hpast := h.past r hr
          omega
  refine ⟨fun r' hr' hsucceeded => ?_, fun r' hr' hother => ?_, fun r' hr' => ?_⟩
  · obtain ⟨r, hr, hend⟩ := mem_of_ends hends hr'
    cases hend with
    | same => exact hkept.succeeded _ hr hsucceeded
    | fails => cases hsucceeded
  · obtain ⟨r, hr, hend⟩ := mem_of_ends hends hr'
    cases hend with
    | same => exact hkept.others _ hr hother
    | fails startedAt =>
        have hother : start ≤ startedAt := hkept.others _ hr (by simp)
        exact hother
  · obtain ⟨r, hr, hend⟩ := mem_of_ends hends hr'
    rw [hend.startedAt]
    exact hkept.past r hr

/-- Failures stay, and no more come than passes end. -/
theorem failedAfter_ends (h : List.Forall₂ Ends decided rows') (t : Int) :
    failedAfter decided t ≤ failedAfter rows' t ∧
      failedAfter rows' t + failures decided ≤ failedAfter decided t + failures rows' := by
  induction h with
  | nil => exact ⟨Nat.le_refl _, Nat.le_refl _⟩
  | cons hend _ ih =>
      simp only [failedAfter, failures, List.countP_cons] at ih ⊢
      cases hend with
      | same => omega
      | fails startedAt =>
          by_cases hlater : t < startedAt
          · simp [hlater]
            omega
          · simp [hlater]
            omega

theorem failedAfter_decided (h : Decided cron facts now rows decided) (t : Int) :
    failedAfter decided t = failedAfter rows t ∧ failures decided = failures rows := by
  cases h with
  | waits => exact ⟨rfl, rfl⟩
  | starts => exact ⟨by simp [failedAfter], by simp [failures]⟩

theorem failedAfter_minute (h : Minute cron facts now rows rows') (t : Int) :
    failedAfter rows t ≤ failedAfter rows' t ∧
      failedAfter rows' t + failures rows ≤ failedAfter rows t + failures rows' := by
  obtain ⟨decided, hdecided, hends⟩ := h
  obtain ⟨hafter, hall⟩ := failedAfter_decided hdecided t
  rw [← hafter, ← hall]
  exact failedAfter_ends hends t

theorem tickAt_succ (start : Int) (k : Nat) : tickAt start (k + 1) = tickAt start k + MINUTE_MS := by
  simp only [tickAt]
  push_cast
  rw [Int.add_mul, Int.one_mul, Int.add_assoc]

namespace FailingRun

variable {cron : Nat → Cron} {facts : Nat → DueFacts} (run : FailingRun cron facts start)

theorem kept (k : Nat) : Kept start (tickAt start k) (run.rows k) := by
  induction k with
  | zero =>
      refine ⟨fun r hr _ => (run.begins r hr).2, fun r hr hother => ?_, fun r hr => ?_⟩
      · exact absurd (run.begins r hr).1 hother
      · have hbefore := (run.begins r hr).2
        simp only [tickAt]
        omega
  | succ k ih =>
      have hstart : start ≤ tickAt start k := by
        have hpos : 0 ≤ (k : Int) * MINUTE_MS := Int.mul_nonneg (by omega) (by decide)
        simp only [tickAt]
        omega
      rw [tickAt_succ]
      exact ih.minute hstart (run.minute k)

/-- A minute on, at least the failures that stayed in the window count. -/
theorem consecutiveFailures_stayed_le (k : Nat) :
    consecutiveFailures (run.rows k) (tickAt start k + MINUTE_MS) ≤
      consecutiveFailures (run.rows (k + 1)) (tickAt start (k + 1)) := by
  rw [(run.kept k).consecutiveFailures_eq, (run.kept (k + 1)).consecutiveFailures_eq, tickAt_succ]
  exact (failedAfter_minute (run.minute k) _).1

theorem gap_le_succ_of_sustained {k : Nat} (h : run.Sustained k) : run.gap k ≤ run.gap (k + 1) := by
  refine gapOf_le_iff.mpr fun step hstep hreached => ?_
  exact Nat.le_trans (h step hstep hreached) (run.consecutiveFailures_stayed_le k)

/-- Where no pass fails within the minute, the gap is kept exactly where it is sustained. -/
theorem gap_le_succ_iff {k : Nat} (hnone : failures (run.rows (k + 1)) = failures (run.rows k)) :
    run.gap k ≤ run.gap (k + 1) ↔ run.Sustained k := by
  have hsame : consecutiveFailures (run.rows (k + 1)) (tickAt start (k + 1)) =
      consecutiveFailures (run.rows k) (tickAt start k + MINUTE_MS) := by
    refine Nat.le_antisymm ?_ (run.consecutiveFailures_stayed_le k)
    rw [(run.kept k).consecutiveFailures_eq, (run.kept (k + 1)).consecutiveFailures_eq, tickAt_succ]
    have hmore := (failedAfter_minute (run.minute k) (tickAt start k + MINUTE_MS - WINDOW_MS)).2
    omega
  unfold gap Sustained
  rw [gapOf_le_iff, hsame]

theorem gap_le_of_sustained {i j : Nat} (hij : i ≤ j) (h : ∀ k < j, run.Sustained k) :
    run.gap i ≤ run.gap j := by
  induction j, hij using Nat.le_induction with
  | base => exact Nat.le_refl _
  | succ j hij ih =>
      exact Nat.le_trans (ih fun k hk => h k (Nat.lt_succ_of_lt hk))
        (run.gap_le_succ_of_sustained (h j (Nat.lt_succ_self j)))

end FailingRun

/-! ### The last rung -/

theorem le_max_of_mem {rows : List PassRow} {r : PassRow} (hr : r ∈ rows) :
    ∃ last, lastStarted rows = some last ∧ r.startedAt ≤ last := by
  have hmem : r.startedAt ∈ rows.map PassRow.startedAt := List.mem_map_of_mem hr
  cases hmax : (rows.map PassRow.startedAt).max? with
  | none =>
      rw [List.max?_eq_none_iff.mp hmax] at hmem
      exact absurd hmem List.not_mem_nil
  | some last => exact ⟨last, hmax, (List.max?_eq_some_iff.mp hmax).2 _ hmem⟩

/-- An attempt on the last rung comes a day after every pass. -/
theorem day_after_of_attempted {rows : List PassRow} {cron : Cron} {facts : DueFacts}
    (hgap : gapOf rows now = 1440)
    (h : isAttempted cron facts (failingState rows now) now = true) {r : PassRow} (hr : r ∈ rows) :
    r.startedAt + 1440 * MINUTE_MS ≤ now := by
  obtain ⟨last, hlast, hle⟩ := le_max_of_mem hr
  have hfree := (Bool.and_eq_true_iff.mp h).2
  rw [Bool.not_eq_true'] at hfree
  have hheld : heldBackByFailures (failingState rows now) now =
      decide (now - last < 1440 * MINUTE_MS) := by
    unfold heldBackByFailures
    have hminGap : minGapMinutes (failingState rows now) = 1440 := hgap
    have hstate : (failingState rows now).lastStartedAt = some last := hlast
    rw [hminGap, if_neg (by decide), hstate]
    rfl
  rw [hheld, decide_eq_false_iff_not] at hfree
  omega

theorem gapOf_le_lastRung (rows : List PassRow) (now : Int) : gapOf rows now ≤ 1440 := by
  rw [gapOf_eq]
  split_ifs <;> omega

theorem gapOf_eq_lastRung_iff {rows : List PassRow} : gapOf rows now = 1440 ↔
    12 ≤ consecutiveFailures rows now := by
  rw [gapOf_eq]
  constructor
  · intro h
    split_ifs at h <;> omega
  · intro h
    rw [if_pos h]

/-- A row of the next tick that started within the minute was attempted at this one. -/
theorem attempted_of_mem {rows rows' : List PassRow} {cron : Cron} {facts : DueFacts}
    (hkept : Kept start now rows) (h : Minute cron facts now rows rows') {r' : PassRow}
    (hr' : r' ∈ rows') (hstarted : now ≤ r'.startedAt) :
    isAttempted cron facts (failingState rows now) now = true := by
  obtain ⟨decided, hdecided, hends⟩ := h
  obtain ⟨r, hr, hend⟩ := mem_of_ends hends hr'
  rw [hend.startedAt] at hstarted
  cases hdecided with
  | waits =>
      have hpast := hkept.past r hr
      omega
  | starts _ hattempted => exact hattempted

/-- What the ladder is for, up to a tick: the gap never decreases, and once it is that of the
last rung, every pass starts a day or more after the ones before it. -/
structure AskedLess {cron : Nat → Cron} {facts : Nat → DueFacts}
    (run : FailingRun cron facts start) (n : Nat) : Prop where
  gap_le : ∀ i j, i ≤ j → j ≤ n → run.gap i ≤ run.gap j
  daily : ∀ i j, i ≤ j → j < n → run.gap i = 24 * 60 →
    ∀ r' ∈ run.rows (j + 1), tickAt start j ≤ r'.startedAt →
      ∀ r ∈ run.rows j, r.startedAt + 24 * 60 * MINUTE_MS ≤ r'.startedAt

/-- Where every tick is sustained, a migration that cannot succeed is asked less and less;
and a tick that is not sustained, within whose minute no pass fails, is where the gap
decreases. -/
theorem askedLess_of_sustained {cron : Nat → Cron} {facts : Nat → DueFacts}
    (run : FailingRun cron facts start) :
    (∀ n, (∀ k < n, run.Sustained k) → AskedLess run n) ∧
      ∀ k, failures (run.rows (k + 1)) = failures (run.rows k) →
        (run.gap k ≤ run.gap (k + 1) ↔ run.Sustained k) := by
  refine ⟨fun n h => ⟨fun i j hij hjn => ?_, ?_⟩, fun k hnone => run.gap_le_succ_iff hnone⟩
  · exact run.gap_le_of_sustained hij fun k hk => h k (Nat.lt_of_lt_of_le hk hjn)
  · intro i j hij hjn hlast r' hr' hstarted r hr
    have hle := run.gap_le_of_sustained hij fun k hk => h k (Nat.lt_trans hk hjn)
    have hgap : gapOf (run.rows j) (tickAt start j) = 1440 :=
      Nat.le_antisymm (gapOf_le_lastRung _ _) (Nat.le_trans hlast.ge hle)
    have hattempted := attempted_of_mem (run.kept j) (run.minute j) hr' hstarted
    exact Int.le_trans (day_after_of_attempted hgap hattempted hr) hstarted

/-! ### How long a rung is held -/

namespace FailingRun

variable {cron : Nat → Cron} {facts : Nat → DueFacts} (run : FailingRun cron facts start)

/-- The passes that started at a moment or after it. -/
def startedFrom (rows : List PassRow) (t : Int) : Nat := rows.countP fun r => t ≤ r.startedAt

theorem startedFrom_ends {decided rows' : List PassRow} (h : List.Forall₂ Ends decided rows')
    (t : Int) : startedFrom rows' t = startedFrom decided t := by
  induction h with
  | nil => rfl
  | cons hend _ ih =>
      simp only [startedFrom, List.countP_cons] at ih ⊢
      rw [ih, hend.startedAt]

/-- While the last rung is held, passes start a day apart. -/
theorem days_of_startedFrom {i j : Nat} (hij : i ≤ j)
    (hheld : ∀ k, i ≤ k → k < j → run.gap k = 1440)
    (hsome : 0 < startedFrom (run.rows j) (tickAt start i)) :
    ∃ r ∈ run.rows j, tickAt start i +
      ((startedFrom (run.rows j) (tickAt start i) : Int) - 1) * (1440 * MINUTE_MS) ≤ r.startedAt := by
  induction j, hij using Nat.le_induction with
  | base =>
      obtain ⟨r, hr, hfrom⟩ := List.countP_pos_iff.mp hsome
      have hpast := (run.kept i).past r hr
      have hle := of_decide_eq_true hfrom
      omega
  | succ j hij ih =>
      have ih := ih fun k hik hkj => hheld k hik (Nat.lt_succ_of_lt hkj)
      obtain ⟨decided, hdecided, hends⟩ := run.minute j
      have hcount := startedFrom_ends hends (tickAt start i)
      -- A row of the tick before has its place at this one, with the same start.
      have hlift : ∀ r ∈ decided, ∃ r' ∈ run.rows (j + 1), r'.startedAt = r.startedAt := by
        intro r hr
        obtain ⟨n, hn, rfl⟩ := List.mem_iff_getElem.mp hr
        have hn' : n < (run.rows (j + 1)).length := hends.length_eq ▸ hn
        exact ⟨_, List.getElem_mem hn', ((List.forall₂_iff_get.mp hends).2 n hn hn').startedAt⟩
      rw [hcount] at hsome ⊢
      cases hdecided with
      | waits =>
          obtain ⟨r, hr, hle⟩ := ih hsome
          obtain ⟨r', hr', hsame⟩ := hlift r hr
          exact ⟨r', hr', hsame ▸ hle⟩
      | @starts startedAt _ hattempted hstart _ =>
          obtain ⟨r', hr', hsame⟩ := hlift _ List.mem_cons_self
          refine ⟨r', hr', ?_⟩
          rw [hsame]
          have htick : tickAt start i ≤ tickAt start j := by
            have hmul : (i : Int) * MINUTE_MS ≤ j * MINUTE_MS :=
              Int.mul_le_mul_of_nonneg_right (by omega) (by decide)
            simp only [tickAt]
            omega
          have hadd : startedFrom (⟨startedAt, .running⟩ :: run.rows j) (tickAt start i) =
              startedFrom (run.rows j) (tickAt start i) + 1 :=
            List.countP_cons_of_pos (decide_eq_true (by show tickAt start i ≤ startedAt; omega))
          rw [hadd]
          show _ ≤ startedAt
          by_cases hfirst : startedFrom (run.rows j) (tickAt start i) = 0
          · rw [hfirst]
            simp
            omega
          · obtain ⟨r, hr, hle⟩ := ih (Nat.pos_of_ne_zero hfirst)
            have hday := day_after_of_attempted (hheld j hij (Nat.lt_succ_self j)) hattempted hr
            push_cast at hle ⊢
            simp only [MINUTE_MS] at hle hday ⊢
            omega

/-- **The last rung is never held for seven days**: a day apart, seven failures fit into the
window, and the rung asks for twelve. -/
theorem lastRung_left {i : Nat} (hlast : run.gap i = 24 * 60) :
    ∃ j, i < j ∧ j ≤ i + 7 * 24 * 60 ∧ run.gap j < 24 * 60 := by
  by_contra hnone
  push Not at hnone
  have hheld (k : Nat) (hik : i ≤ k) (hki : k ≤ i + 7 * 24 * 60) : run.gap k = 1440 := by
    obtain rfl | hlt := Nat.eq_or_lt_of_le hik
    · exact hlast
    · exact Nat.le_antisymm (gapOf_le_lastRung _ _) (hnone k hlt hki)
  have htick : tickAt start (i + 7 * 24 * 60) - WINDOW_MS = tickAt start i := by
    simp only [tickAt, WINDOW_MS, FAILURE_WINDOW_MINUTES, MINUTE_MS]
    push_cast
    omega
  have htwelve := gapOf_eq_lastRung_iff.mp (hheld (i + 7 * 24 * 60) (by omega) (Nat.le_refl _))
  rw [(run.kept _).consecutiveFailures_eq, htick] at htwelve
  have hmany : 12 ≤ startedFrom (run.rows (i + 7 * 24 * 60)) (tickAt start i) := by
    refine Nat.le_trans htwelve (List.countP_mono_left fun r _ hfailed => ?_)
    rw [Bool.and_eq_true, decide_eq_true_eq, decide_eq_true_eq] at hfailed
    exact decide_eq_true (Int.le_of_lt hfailed.2)
  obtain ⟨r, hr, hle⟩ := run.days_of_startedFrom (Nat.le_add_right i _)
    (fun k hik hkj => hheld k hik (Nat.le_of_lt hkj)) (by omega)
  have hpast := (run.kept _).past r hr
  generalize startedFrom _ _ = m at hmany hle
  simp only [tickAt, MINUTE_MS] at hle hpast
  push_cast at hpast
  omega

end FailingRun

/-! ### Every quarter of an hour -/

/-- The default schedule, every fifteen minutes. -/
def quarterHours : Cron where
  fires := fun t => t % 900000 = 0
  nextRun := fun t => some ((t / 900000 + 1) * 900000)
  first_after := by
    intro t next h
    obtain rfl := Option.some.inj h
    refine ⟨by omega, by omega, fun m hm hlater => ?_⟩
    omega
  none_after := by
    intro t h
    cases h

/-- Its first copy is finished, and its tier has no pace. -/
def steady : DueFacts := ⟨false, none⟩

theorem not_floored_quarterHours :
    ¬ (shortestGapMinutes quarterHours < 15 ∨ steady.firstCopyUnfinished = true) := by
  rw [shortestGapMinutes_lt_floor_iff]
  rintro (⟨a, b, -, ha, hb, hab, -, hclose⟩ | hfalse)
  · have hdiv : a % 900000 = 0 ∧ b % 900000 = 0 := ⟨ha, hb⟩
    simp only [SCHEDULE_FLOOR_MINUTES, MINUTE_MS] at hclose
    omega
  · cases hfalse

/-- The ticks that start a pass: as often as the schedule allows, then as the ladder does. -/
def attempts : List Nat :=
  [0, 15, 30, 90, 150, 210, 450, 690, 930, 1170, 1410, 1650, 3090, 4530, 5970, 7410, 8850,
    10290, 10530]

/-- The passes before a tick, newest first, each over before the next tick. -/
def rowsBefore (k : Nat) : List PassRow :=
  ((attempts.filter (· < k)).map fun i => ⟨tickAt MEASURED_FROM i, .failed⟩).reverse

/-- Nothing holds the attempt back that a tick makes. -/
def free (k : Nat) : Bool :=
  !anyRunning (rowsBefore k) (tickAt MEASURED_FROM k) &&
    (!heldBackByFailures (failingState (rowsBefore k) (tickAt MEASURED_FROM k))
        (tickAt MEASURED_FROM k) &&
      (lastStarted (rowsBefore k)).all fun last =>
        (last / 900000 + 1) * 900000 ≤ tickAt MEASURED_FROM k)

theorem free_attempts : (attempts.all fun k => free k && rowsBefore (k + 1) =
    ⟨tickAt MEASURED_FROM k, .failed⟩ :: rowsBefore k) = true := by decide +kernel

theorem forall₂_ends_refl (rows : List PassRow) : List.Forall₂ Ends rows rows := by
  induction rows with
  | nil => exact .nil
  | cons r rows ih => exact .cons (.same r) ih

theorem rowsBefore_succ {k : Nat} (hk : k ∉ attempts) : rowsBefore (k + 1) = rowsBefore k := by
  have hfilter : attempts.filter (· < k + 1) = attempts.filter (· < k) := by
    refine List.filter_congr fun i hi => ?_
    have hne : i ≠ k := fun h => hk (h ▸ hi)
    exact decide_eq_decide.mpr (by omega)
  rw [rowsBefore, hfilter, rowsBefore]

def quarterRun : FailingRun (fun _ => quarterHours) (fun _ => steady) MEASURED_FROM where
  rows := rowsBefore
  begins := by
    intro r hr
    exact absurd hr (by simp [rowsBefore])
  minute := by
    intro k
    by_cases hk : k ∈ attempts
    · have hfree := List.all_eq_true.mp free_attempts k hk
      rw [Bool.and_eq_true, decide_eq_true_eq] at hfree
      obtain ⟨hfree, hrows⟩ := hfree
      simp only [free, Bool.and_eq_true, Bool.not_eq_true'] at hfree
      obtain ⟨hidle, hheld, hnext⟩ := hfree
      refine ⟨⟨tickAt MEASURED_FROM k, .running⟩ :: rowsBefore k, .starts hidle ?_ (Int.le_refl _)
        (by have hpos : 0 < MINUTE_MS := by decide
            omega), ?_⟩
      · refine Bool.and_eq_true_iff.mpr ⟨?_, by rw [hheld]; rfl⟩
        show isSyncDue quarterHours (lastStarted (rowsBefore k)) _ steady = true
        cases hlast : lastStarted (rowsBefore k) with
        | none => rfl
        | some last =>
            rw [hlast] at hnext
            have hdue := of_decide_eq_true hnext
            refine (isSyncDue_by_schedule not_floored_quarterHours).mpr ⟨?_, _, rfl, hdue⟩
            show 0 * MINUTE_MS ≤ _
            omega
      · rw [hrows]
        exact .cons (.fails _) (forall₂_ends_refl _)
    · rw [rowsBefore_succ hk]
      exact ⟨rowsBefore k, .waits, forall₂_ends_refl _⟩

/-- On the last rung at minute 8851, a week after the start it is back on the one before:
passes start at minutes 10290 and 10530. -/
theorem quarterRun_falls : ¬ ∀ (cron : Nat → Cron) (facts : Nat → DueFacts) (start : Int)
    (run : FailingRun cron facts start) (n : Nat), AskedLess run n := by
  intro h
  have hgap := (h _ _ _ quarterRun 10530).gap_le 8851 10290 (by decide) (by decide)
  have htop : quarterRun.gap 8851 = 1440 := by decide +kernel
  have hfallen : quarterRun.gap 10290 = 240 := by decide +kernel
  rw [htop, hfallen] at hgap
  exact absurd hgap (by decide)

theorem lastRung_left_quarterRun :
    ∃ j, 8851 < j ∧ j ≤ 8851 + 7 * 24 * 60 ∧ quarterRun.gap j < 24 * 60 :=
  quarterRun.lastRung_left (by decide +kernel)

end Ownpace.Tick
