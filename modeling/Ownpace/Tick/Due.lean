/-
Ownpace/Tick/Due.lean

When the tick starts a pass of a migration: `isSyncDue` and `shortestGapMinutes`
(`sync-due.ts`), `minGapMinutes` and `heldBackByFailures` (`failing-backoff.ts`).

A schedule is what croner reads in an expression: its firings, and the first of them after
a given moment.  Moments are in milliseconds.
-/
import Mathlib.Algebra.Order.Field.Rat
import Mathlib.Order.WithBot
import Mathlib.Tactic.FieldSimp

namespace Ownpace.Tick

def MINUTE_MS : Int := 60000

/-- `SCHEDULE_FLOOR_MINUTES` -/
def SCHEDULE_FLOOR_MINUTES : Int := 15

/-! ### Schedules -/

/-- An expression as croner reads it, in UTC: `nextRun` gives the first firing after a
moment, and none where there is none. -/
structure Cron where
  fires : Int → Prop
  nextRun : Int → Option Int
  first_after : ∀ t next, nextRun t = some next →
    t < next ∧ fires next ∧ ∀ m, fires m → t < m → next ≤ m
  none_after : ∀ t, nextRun t = none → ∀ m, fires m → m ≤ t

/-- The Monday that gaps are measured from, 2026-01-05. -/
def MEASURED_FROM : Int := 1767571200000

def MEASURED_UNTIL : Int := MEASURED_FROM + 8 * 24 * 60 * MINUTE_MS

/-- The loop of `shortestGapMinutes`, from a firing on. -/
def gapsFrom (cron : Cron) (previous : Int) (shortest : WithTop ℚ) : WithTop ℚ :=
  if 1 < shortest then
    match h : cron.nextRun previous with
    | none => shortest
    | some next =>
      if MEASURED_UNTIL ≤ next then shortest
      else gapsFrom cron next (min shortest ((((next - previous : Int) : ℚ) / 60000 : ℚ)))
  else shortest
termination_by (MEASURED_UNTIL - previous).toNat
decreasing_by
  have hlater := (cron.first_after previous next h).1
  omega

/-- The shortest gap between two firings in eight days; none in them is infinite. -/
def shortestGapMinutes (cron : Cron) : WithTop ℚ :=
  match cron.nextRun MEASURED_FROM with
  | none => ⊤
  | some first => gapsFrom cron first ⊤

/-! ### Due by the schedule -/

structure DueFacts where
  firstCopyUnfinished : Bool
  /-- The tier's pace, in whole minutes. -/
  leastMinutesBetweenPasses : Option Int := none

def isSyncDue (cron : Cron) (lastStartedAt : Option Int) (now : Int) (facts : DueFacts) : Bool :=
  match lastStartedAt with
  | none => true
  | some last =>
    let sinceLast := now - last
    if sinceLast < facts.leastMinutesBetweenPasses.getD 0 * MINUTE_MS then false
    else if shortestGapMinutes cron < 15 ∨ facts.firstCopyUnfinished then
      decide (SCHEDULE_FLOOR_MINUTES * MINUTE_MS ≤ sinceLast)
    else
      match cron.nextRun last with
      | none => false
      | some next => decide (next ≤ now)

/-! ### Held back by failures -/

structure Rung where
  afterFailures : Nat
  minGapMinutes : Nat

def LADDER : List Rung := [⟨3, 60⟩, ⟨6, 4 * 60⟩, ⟨12, 24 * 60⟩]

def FAILURE_WINDOW_MINUTES : Int := 7 * 24 * 60

structure FailingState where
  consecutiveFailures : Nat
  anySelfHealing : Bool
  lastStartedAt : Option Int

def minGapMinutes (state : FailingState) : Nat :=
  if state.anySelfHealing then 0
  else LADDER.foldl (fun gap step =>
    if step.afterFailures ≤ state.consecutiveFailures then step.minGapMinutes else gap) 0

/-- `elapsedMinutes < gap`, counted in milliseconds. -/
def heldBackByFailures (state : FailingState) (now : Int) : Bool :=
  if minGapMinutes state = 0 then false
  else
    match state.lastStartedAt with
    | none => false
    | some last => decide (now - last < minGapMinutes state * MINUTE_MS)

/-- What the tick attempts: due, and not held back. -/
def isAttempted (cron : Cron) (facts : DueFacts) (state : FailingState) (now : Int) : Bool :=
  isSyncDue cron state.lastStartedAt now facts && !heldBackByFailures state now

/-! ### The shortest gap -/

variable {cron : Cron} {previous : Int} {shortest : WithTop ℚ}

/-- Two firings closer than the floor, the first of them at a moment or after it. -/
def CloseFrom (cron : Cron) (t : Int) : Prop :=
  ∃ a b, t ≤ a ∧ cron.fires a ∧ cron.fires b ∧ a < b ∧ b < MEASURED_UNTIL ∧
    b - a < SCHEDULE_FLOOR_MINUTES * MINUTE_MS

theorem minutes_lt_floor_iff (gap : Int) : (((gap : ℚ) / 60000 : ℚ) : WithTop ℚ) < 15 ↔
    gap < SCHEDULE_FLOOR_MINUTES * MINUTE_MS := by
  have hfifteen : (15 : WithTop ℚ) = ((15 : ℚ) : WithTop ℚ) := rfl
  rw [hfifteen, WithTop.coe_lt_coe, div_lt_iff₀ (by norm_num)]
  norm_num [SCHEDULE_FLOOR_MINUTES, MINUTE_MS]
  exact_mod_cast Iff.rfl

/-- Nothing fires between a moment and its next firing. -/
theorem CloseFrom.next {t next : Int} (hnext : cron.nextRun t = some next) (hfires : cron.fires t) :
    CloseFrom cron t ↔
      next < MEASURED_UNTIL ∧ next - t < SCHEDULE_FLOOR_MINUTES * MINUTE_MS ∨ CloseFrom cron next := by
  obtain ⟨hlater, hnextFires, hfirst⟩ := cron.first_after t next hnext
  constructor
  · rintro ⟨a, b, hta, ha, hb, hab, hbuntil, hclose⟩
    have hnextb := hfirst b hb (by omega)
    by_cases hat : a = t
    · subst hat
      exact .inl ⟨by omega, by omega⟩
    · exact .inr ⟨a, b, hfirst a ha (by omega), ha, hb, hab, hbuntil, hclose⟩
  · rintro (⟨hbefore, hclose⟩ | ⟨a, b, hnexta, ha, hb, hab, hbuntil, hclose⟩)
    · exact ⟨t, next, Int.le_refl t, hfires, hnextFires, hlater, hbefore, hclose⟩
    · exact ⟨a, b, by omega, ha, hb, hab, hbuntil, hclose⟩

theorem gapsFrom_lt_floor_iff (hfires : cron.fires previous) :
    gapsFrom cron previous shortest < 15 ↔ shortest < 15 ∨ CloseFrom cron previous := by
  fun_induction gapsFrom cron previous shortest with
  | case1 previous shortest _ hnone =>
      -- No firing follows: there is no gap left.
      refine ⟨.inl, fun h => h.resolve_right ?_⟩
      rintro ⟨a, b, hta, -, hb, hab, -⟩
      have hlast := cron.none_after previous hnone b hb
      omega
  | case2 previous shortest _ next hnext hout =>
      refine ⟨.inl, fun h => h.resolve_right ?_⟩
      rintro ⟨a, b, hta, -, hb, hab, hbuntil, -⟩
      have hfirst := (cron.first_after previous next hnext).2.2 b hb (by omega)
      omega
  | case3 previous shortest _ next hnext hin ih =>
      rw [ih (cron.first_after previous next hnext).2.1, min_lt_iff, minutes_lt_floor_iff,
        CloseFrom.next hnext hfires, or_assoc, and_iff_right (by omega)]
  | case4 previous shortest hshort =>
      have hminute : shortest < 15 := lt_of_le_of_lt (not_lt.mp hshort) (by decide)
      exact ⟨.inl, fun _ => hminute⟩

/-- The measure finds a gap below the floor where the eight days hold one. -/
theorem shortestGapMinutes_lt_floor_iff : shortestGapMinutes cron < 15 ↔
    CloseFrom cron (MEASURED_FROM + 1) := by
  unfold shortestGapMinutes
  cases hfirst : cron.nextRun MEASURED_FROM with
  | none =>
      refine iff_of_false not_top_lt ?_
      rintro ⟨a, b, hta, ha, -⟩
      have hlast := cron.none_after _ hfirst a ha
      omega
  | some first =>
      obtain ⟨hlater, hfires, hleast⟩ := cron.first_after _ _ hfirst
      show gapsFrom cron first ⊤ < 15 ↔ _
      rw [gapsFrom_lt_floor_iff hfires]
      constructor
      · rintro (h | ⟨a, b, hta, hab⟩)
        · exact absurd h not_top_lt
        · exact ⟨a, b, by omega, hab⟩
      · rintro ⟨a, b, hta, ha, hb, hab⟩
        exact .inr ⟨a, b, hleast a ha (by omega), ha, hb, hab⟩

end Ownpace.Tick
