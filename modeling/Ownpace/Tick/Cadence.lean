/-
Ownpace/Tick/Cadence.lean

What the schedule, the tier's pace and the failures promise of when a pass starts.

A pass waits out the tier's pace and, after one that started at a firing, the floor of
fifteen minutes; a pace and failures only hold passes back.  The floor rests on the gaps of
eight days, so an expression whose close firings lie outside them breaks it
(`cadence_iff`).
-/
import Ownpace.Tick.Due

namespace Ownpace.Tick

variable {cron : Cron} {facts : DueFacts} {last now : Int}

/-- The pace in milliseconds. -/
def DueFacts.paceMs (facts : DueFacts) : Int := facts.leastMinutesBetweenPasses.getD 0 * MINUTE_MS

def FLOOR_MS : Int := SCHEDULE_FLOOR_MINUTES * MINUTE_MS

/-! ### When a migration is due -/

/-- While its first copy runs, or on a schedule measured faster than the floor. -/
theorem isSyncDue_at_floor (h : shortestGapMinutes cron < 15 ∨ facts.firstCopyUnfinished = true) :
    isSyncDue cron (some last) now facts = true ↔ max FLOOR_MS facts.paceMs ≤ now - last := by
  show (if now - last < facts.paceMs then false
    else if shortestGapMinutes cron < 15 ∨ facts.firstCopyUnfinished = true then
      decide (FLOOR_MS ≤ now - last) else _) = true ↔ _
  rw [if_pos h, max_le_iff]
  split_ifs with hpace
  · exact iff_of_false not_false fun h => absurd h.2 (Int.not_le.mpr hpace)
  · rw [decide_eq_true_eq]
    exact (and_iff_left (Int.not_lt.mp hpace)).symm

/-- On any other schedule. -/
theorem isSyncDue_by_schedule
    (h : ¬ (shortestGapMinutes cron < 15 ∨ facts.firstCopyUnfinished = true)) :
    isSyncDue cron (some last) now facts = true ↔
      facts.paceMs ≤ now - last ∧ ∃ next, cron.nextRun last = some next ∧ next ≤ now := by
  unfold isSyncDue
  dsimp only
  rw [if_neg h]
  split_ifs with hpace
  · exact iff_of_false not_false fun h => absurd h.1 (Int.not_le.mpr hpace)
  · have hpaced : facts.paceMs ≤ now - last := Int.not_lt.mp hpace
    rw [and_iff_right hpaced]
    cases cron.nextRun last with
    | none => simp
    | some next => simp

/-- Due, in one statement. -/
theorem isSyncDue_iff : isSyncDue cron (some last) now facts = true ↔
    facts.paceMs ≤ now - last ∧
      if shortestGapMinutes cron < 15 ∨ facts.firstCopyUnfinished = true then FLOOR_MS ≤ now - last
      else ∃ next, cron.nextRun last = some next ∧ next ≤ now := by
  split_ifs with h
  · rw [isSyncDue_at_floor h, max_le_iff, and_comm]
  · exact isSyncDue_by_schedule h

theorem isSyncDue_mono {lastStartedAt : Option Int} {now' : Int} (hnow : now ≤ now')
    (h : isSyncDue cron lastStartedAt now facts = true) :
    isSyncDue cron lastStartedAt now' facts = true := by
  cases lastStartedAt with
  | none => rfl
  | some last =>
      rw [isSyncDue_iff] at h ⊢
      obtain ⟨hpace, hrule⟩ := h
      refine ⟨by omega, ?_⟩
      split_ifs at hrule ⊢ with hfloor
      · omega
      · obtain ⟨next, hnext, hle⟩ := hrule
        exact ⟨next, hnext, by omega⟩

/-- What is due is due at a slower pace's moments and more. -/
theorem isSyncDue_of_pace {lastStartedAt : Option Int} {pace : Option Int}
    (hpace : pace.getD 0 ≤ facts.leastMinutesBetweenPasses.getD 0)
    (h : isSyncDue cron lastStartedAt now facts = true) :
    isSyncDue cron lastStartedAt now { facts with leastMinutesBetweenPasses := pace } = true := by
  cases lastStartedAt with
  | none => rfl
  | some last =>
      rw [isSyncDue_iff] at h ⊢
      refine ⟨Int.le_trans ?_ h.1, h.2⟩
      exact Int.mul_le_mul_of_nonneg_right hpace (by decide)

/-- A pass that is due comes after the last one started. -/
theorem lt_of_isSyncDue (h : isSyncDue cron (some last) now facts = true) : last < now := by
  rw [isSyncDue_iff] at h
  obtain ⟨-, hrule⟩ := h
  split_ifs at hrule with hfloor
  · have hpos : 0 < FLOOR_MS := by decide
    omega
  · obtain ⟨next, hnext, hle⟩ := hrule
    have hlater := (cron.first_after _ _ hnext).1
    omega

/-- No pace holds less back than any. -/
theorem isSyncDue_without_pace {lastStartedAt : Option Int}
    (h : isSyncDue cron lastStartedAt now facts = true) :
    isSyncDue cron lastStartedAt now { facts with leastMinutesBetweenPasses := none } = true := by
  cases lastStartedAt with
  | none => rfl
  | some last =>
      have hlater := lt_of_isSyncDue h
      rw [isSyncDue_iff] at h ⊢
      refine ⟨?_, h.2⟩
      show 0 * MINUTE_MS ≤ now - last
      omega

/-! ### Failures -/

theorem minGapMinutes_mono {state : FailingState} {count : Nat}
    (h : state.consecutiveFailures ≤ count) :
    minGapMinutes state ≤ minGapMinutes { state with consecutiveFailures := count } := by
  unfold minGapMinutes
  split_ifs
  · exact Nat.le_refl 0
  · simp only [LADDER, List.foldl_cons, List.foldl_nil]
    split_ifs <;> omega

theorem heldBackByFailures_mono {state : FailingState} {count : Nat}
    (h : state.consecutiveFailures ≤ count) (hheld : heldBackByFailures state now = true) :
    heldBackByFailures { state with consecutiveFailures := count } now = true := by
  have hgap := minGapMinutes_mono h
  obtain ⟨failures, healing, lastStartedAt⟩ := state
  unfold heldBackByFailures at hheld ⊢
  split_ifs at hheld with hzero
  rw [if_neg (by omega)]
  cases lastStartedAt with
  | none => cases hheld
  | some last =>
      have hshort := decide_eq_true_eq.mp hheld
      refine decide_eq_true_eq.mpr (Int.lt_of_lt_of_le hshort ?_)
      exact Int.mul_le_mul_of_nonneg_right (by omega) (by decide)

/-! ### The cadence -/

/-- When passes start, for one schedule, last start and pair of facts. -/
structure Cadence (cron : Cron) (lastStartedAt : Option Int) (facts : DueFacts) : Prop where
  /-- Once due, due until a pass starts. -/
  stays : ∀ now now', now ≤ now' → isSyncDue cron lastStartedAt now facts = true →
    isSyncDue cron lastStartedAt now' facts = true
  paced : ∀ last ∈ lastStartedAt, ∀ now, isSyncDue cron lastStartedAt now facts = true →
    facts.leastMinutesBetweenPasses.getD 0 * MINUTE_MS ≤ now - last
  firstCopy : facts.firstCopyUnfinished = true → ∀ last ∈ lastStartedAt, ∀ now,
    (isSyncDue cron lastStartedAt now facts = true ↔
      max (SCHEDULE_FLOOR_MINUTES * MINUTE_MS)
        (facts.leastMinutesBetweenPasses.getD 0 * MINUTE_MS) ≤ now - last)
  neverRan : lastStartedAt = none → ∀ now, isSyncDue cron lastStartedAt now facts = true
  /-- A pace, or a slower one, only removes moments. -/
  paceRemoves : ∀ pace : Option Int,
    (pace = none ∨ pace.getD 0 ≤ facts.leastMinutesBetweenPasses.getD 0) → ∀ now,
    isSyncDue cron lastStartedAt now facts = true →
    isSyncDue cron lastStartedAt now { facts with leastMinutesBetweenPasses := pace } = true
  /-- Failures, or more of them, only remove moments. -/
  failuresRemove : ∀ (state : FailingState) (count : Nat) (now : Int),
    state.lastStartedAt = lastStartedAt → state.consecutiveFailures ≤ count →
    isAttempted cron facts { state with consecutiveFailures := count } now = true →
    isAttempted cron facts state now = true ∧ isSyncDue cron lastStartedAt now facts = true
  floor : ∀ last ∈ lastStartedAt, cron.fires last → ∀ now,
    isSyncDue cron lastStartedAt now facts = true →
    SCHEDULE_FLOOR_MINUTES * MINUTE_MS ≤ now - last

/-- The floor is kept after a firing: by the first copy's own rule, by the pace, by the
measure, which sees close firings where its eight days hold them, or since this firing is
followed by none that is close. -/
def FloorKept (cron : Cron) (last : Int) (facts : DueFacts) : Prop :=
  facts.firstCopyUnfinished = true ∨
    SCHEDULE_FLOOR_MINUTES ≤ facts.leastMinutesBetweenPasses.getD 0 ∨
    (∃ a b, MEASURED_FROM < a ∧ cron.fires a ∧ cron.fires b ∧ a < b ∧ b < MEASURED_UNTIL ∧
      b - a < SCHEDULE_FLOOR_MINUTES * MINUTE_MS) ∨
    ∀ next, cron.fires next → last < next → SCHEDULE_FLOOR_MINUTES * MINUTE_MS ≤ next - last

theorem floor_iff : (∀ now, isSyncDue cron (some last) now facts = true →
    SCHEDULE_FLOOR_MINUTES * MINUTE_MS ≤ now - last) ↔ FloorKept cron last facts := by
  by_cases hfloor : shortestGapMinutes cron < 15 ∨ facts.firstCopyUnfinished = true
  · refine iff_of_true (fun now hdue => ?_) ?_
    · exact (max_le_iff.mp ((isSyncDue_at_floor hfloor).mp hdue)).1
    · obtain hmeasured | hcopy := hfloor
      · exact .inr (.inr (.inl (shortestGapMinutes_lt_floor_iff.mp hmeasured)))
      · exact .inl hcopy
  · have hdue (now : Int) : isSyncDue cron (some last) now facts = true ↔
        facts.paceMs ≤ now - last ∧ ∃ next, cron.nextRun last = some next ∧ next ≤ now :=
      isSyncDue_by_schedule hfloor
    push Not at hfloor
    constructor
    · intro h
      by_cases hpace : SCHEDULE_FLOOR_MINUTES ≤ facts.leastMinutesBetweenPasses.getD 0
      · exact .inr (.inl hpace)
      · -- Due at the next firing, or at the end of the pace where that is later.
        refine .inr (.inr (.inr fun next hnext hlater => ?_))
        cases hfirst : cron.nextRun last with
        | none =>
            have hnone := cron.none_after last hfirst next hnext
            omega
        | some first =>
            have hle := (cron.first_after last first hfirst).2.2 next hnext hlater
            have hkept := h (max first (last + facts.paceMs)) ((hdue _).mpr
              ⟨by omega, first, hfirst, Int.le_max_left _ _⟩)
            have hpaceMs : facts.paceMs ≤ 14 * MINUTE_MS :=
              Int.mul_le_mul_of_nonneg_right (Int.le_of_lt_add_one (Int.not_le.mp hpace)) (by decide)
            simp only [MINUTE_MS, SCHEDULE_FLOOR_MINUTES] at hkept hpaceMs ⊢
            omega
    · rintro (hcopy | hpace | hmeasured | hgap) now hnow
      · exact absurd hcopy (by simp [hfloor.2])
      · have hpaced := ((hdue now).mp hnow).1
        refine Int.le_trans ?_ hpaced
        exact Int.mul_le_mul_of_nonneg_right hpace (by decide)
      · exact absurd (shortestGapMinutes_lt_floor_iff.mpr hmeasured) (not_lt.mpr hfloor.1)
      · obtain ⟨-, next, hnext, hle⟩ := (hdue now).mp hnow
        obtain ⟨hlater, hnextFires, -⟩ := cron.first_after last next hnext
        have hfar := hgap next hnextFires hlater
        omega

/-- The cadence is kept where the floor is, after a last start at a firing. -/
theorem cadence_iff (cron : Cron) (lastStartedAt : Option Int) (facts : DueFacts) :
    Cadence cron lastStartedAt facts ↔
      ∀ last ∈ lastStartedAt, cron.fires last → FloorKept cron last facts := by
  constructor
  · intro h last hlast hfires
    rw [Option.mem_def] at hlast
    subst hlast
    exact floor_iff.mp fun now hdue => h.floor last rfl hfires now hdue
  · intro h
    refine ⟨fun now now' hnow hdue => isSyncDue_mono hnow hdue, ?_, ?_, ?_, ?_, ?_, ?_⟩
    · rintro last rfl now hdue
      exact (isSyncDue_iff.mp hdue).1
    · rintro hcopy last rfl now
      exact isSyncDue_at_floor (.inr hcopy)
    · rintro rfl now
      rfl
    · rintro pace (rfl | hpace) now hdue
      · exact isSyncDue_without_pace hdue
      · exact isSyncDue_of_pace hpace hdue
    · rintro state count now rfl hcount hattempted
      obtain ⟨hdue, hfree⟩ := Bool.and_eq_true_iff.mp hattempted
      refine ⟨Bool.and_eq_true_iff.mpr ⟨hdue, ?_⟩, hdue⟩
      rw [Bool.not_eq_true'] at hfree ⊢
      by_contra hheld
      have hmore := heldBackByFailures_mono hcount (Bool.not_eq_false _ ▸ hheld)
      rw [hmore] at hfree
      cases hfree
    · rintro last rfl hfires now hdue
      exact floor_iff.mpr (h last rfl hfires) now hdue

/-! ### Two firings on the first of a month -/

/-- `0,1 0 1 * *` as far as February 2026: 00:00 and 00:01 on the first. -/
def firstOfFebruary : Cron where
  fires := fun t => t = 1769904000000 ∨ t = 1769904060000
  nextRun := fun t =>
    if t < 1769904000000 then some 1769904000000
    else if t < 1769904060000 then some 1769904060000
    else none
  first_after := by
    intro t next h
    split_ifs at h with h₁ h₂
    · obtain rfl := Option.some.inj h
      exact ⟨h₁, .inl rfl, fun m hm _ => by omega⟩
    · obtain rfl := Option.some.inj h
      exact ⟨h₂, .inr rfl, fun m hm _ => by omega⟩
  none_after := by
    intro t h m hm
    split_ifs at h
    omega

/-- A pass that started at midnight is due again a minute later: the eight days of January
hold neither firing. -/
theorem due_a_minute_later : ¬ ∀ (cron : Cron) (lastStartedAt : Option Int) (facts : DueFacts),
    Cadence cron lastStartedAt facts := by
  intro h
  have hfloor := (h firstOfFebruary (some 1769904000000) ⟨false, none⟩).floor _ rfl (.inl rfl)
    1769904060000
  have hslow : ¬ (shortestGapMinutes firstOfFebruary < 15 ∨ false = true) := by
    rw [shortestGapMinutes_lt_floor_iff]
    rintro (⟨a, b, -, ha, hb, hab, hbefore, -⟩ | hfalse)
    · have huntil : MEASURED_UNTIL = 1768262400000 := by decide
      rw [huntil] at hbefore
      obtain rfl | rfl := hb <;> omega
    · cases hfalse
  have hdue : isSyncDue firstOfFebruary (some 1769904000000) 1769904060000 ⟨false, none⟩ = true :=
    (isSyncDue_by_schedule hslow).mpr ⟨by decide, 1769904060000, by decide, Int.le_refl _⟩
  exact absurd (hfloor hdue) (by decide)

end Ownpace.Tick
