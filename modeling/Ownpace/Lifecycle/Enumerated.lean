/-
Ownpace/Lifecycle/Enumerated.lean

The migrations the managed tick starts (`managed-sync-tick.ts`), next to what a pass then
reads of each (`readPathPhases`, `stepFrom`).

The tick's conditions are SQL: a condition on a value that is absent is neither true nor
false, and a row is chosen where it is true (`SqlBool`).  A table with a unique key is a
function of it, and `EXISTS` asks every data type.

`startsWhatRuns_iff` says when the two agree.  Which migrations are started they always
agree on; the data types that keep a first copy going are counted by their own rows even
where the rows do not add up to the status, and a pass then goes by the status.
-/
import Ownpace.Lifecycle.Paths

namespace Ownpace.Lifecycle

open Cutover (CutoverRow CutoverLedgers)

abbrev SqlBool := Option Bool

def SqlBool.and : SqlBool → SqlBool → SqlBool
  | some false, _ => some false
  | _, some false => some false
  | some true, some true => some true
  | _, _ => none

/-! ### The rows -/

/-- `paused_reason->>'windowResetsAt'`, as a time where it is one. -/
inductive ResetsAt where
  | absent
  | timestamp (t : Nat)
  | invalid
  deriving DecidableEq

/-- A row of `migration_status`. -/
structure StatusRow where
  completed : Bool
  pausedReason : Option ResetsAt
  lastError : Option (List Char)

/-- One migration, as the tick's statement sees it. -/
structure MigrationRow where
  migration : Migration
  /-- `grant_withdrawn_at` is set. -/
  grantWithdrawn : Bool
  /-- Its organisation's status is the open one. -/
  organisationOpen : Bool
  statuses : DiscoveryDomain → Option StatusRow

/-! ### What a pass reads -/

def PASS_RUNNING_STATES : List PathState := [.active, .continuous]

def runsPasses (status : PathState) : Bool := status = .active || status = .continuous

def runsPassesNow (status : PathState) (cutoverStillCopies : Bool) : Bool :=
  runsPasses status || (status = .cutover && cutoverStillCopies)

def pathRunsNow (path : PathPhase) : Bool := !path.stopped && runsPassesNow path.phase path.stillCopies

/-- In milliseconds, as every time is here. -/
def HOUR : Nat := 3600000

/-- `CASE c.state …`, none where it is NULL. -/
def copiesUntil (c : CutoverRow) : Option Nat :=
  match c.state with
  | .GRACE_PERIOD => c.gracePeriodStartedAt.map (· + c.gracePeriodHours * HOUR)
  | .CUTOVER_IN_PROGRESS => some (c.updatedAt + c.gracePeriodHours * HOUR)
  | _ => none

def CUTOVER_STILL_COPIES_WHERE (now : Nat) (c : CutoverRow) : SqlBool :=
  SqlBool.and (some c.copiesThroughGrace) ((copiesUntil c).map (now < ·))

/-- The rows of `cutover_state`: the whole migration's, and each data type's own. -/
def cutoverRows (ledgers : CutoverLedgers) : List CutoverRow :=
  (none :: discoveryDomains.map some).filterMap ledgers.rows

structure CutoverWindows where
  anyCopies : Bool
  ofDomain : DiscoveryDomain → Bool

def NO_CUTOVER_WINDOWS : CutoverWindows := ⟨false, fun _ => false⟩

/-- `COALESCE(…, false) AS copies` -/
def copies (now : Nat) (c : CutoverRow) : Bool := (CUTOVER_STILL_COPIES_WHERE now c).getD false

def readCutoverWindows (now : Nat) (ledgers : CutoverLedgers) : CutoverWindows where
  anyCopies := (cutoverRows ledgers).any (copies now)
  ofDomain d :=
    match ledgers.rows (some d) with
    | some own => copies now own
    | none => (ledgers.rows none).any (copies now)

structure MigrationPhases where
  anyRuns : Bool
  grantWithdrawn : Bool
  phaseOf : DiscoveryDomain → PathPhase

namespace MigrationRow

variable (row : MigrationRow) (now : Nat)

def windows : CutoverWindows :=
  if row.migration.status = .cutover ∨ .cutover ∈ row.migration.phases then
    readCutoverWindows now row.migration.ledgers
  else NO_CUTOVER_WINDOWS

/-- One of its paths runs. -/
def somePathRuns : Bool :=
  discoveryDomains.any fun d => (row.migration.carried d).any fun p =>
    pathRunsNow ⟨p.state, p.state = .cutover && (row.windows now).ofDomain d, p.stopped⟩

def readPathPhases : MigrationPhases where
  anyRuns := row.migration.status ≠ .paused &&
    (runsPassesNow row.migration.status.state
        (row.migration.status = .cutover && (row.windows now).anyCopies) ||
      (decide row.migration.Agreed && row.somePathRuns now))
  grantWithdrawn := row.grantWithdrawn
  phaseOf := row.migration.readPathPhases (row.windows now).ofDomain

end MigrationRow

inductive PassHalt where
  | noLongerRuns
  | grantWithdrawn
  deriving DecidableEq

inductive PassStep where
  | run
  | stoppedByItsOwner
  | dataTypeNoLongerRuns
  | halt (why : PassHalt)
  deriving DecidableEq

def haltFrom : Option MigrationPhases → Option PassHalt
  | none => some .noLongerRuns
  | some phases =>
    if !phases.anyRuns then some .noLongerRuns
    else if phases.grantWithdrawn then some .grantWithdrawn
    else none

def stepFrom (phases : Option MigrationPhases) (domain : DiscoveryDomain) : PassStep :=
  match haltFrom phases, phases with
  | some why, _ => .halt why
  | none, none => .halt .noLongerRuns
  | none, some phases =>
    let path := phases.phaseOf domain
    if path.stopped then .stoppedByItsOwner
    else if !pathRunsNow path then .dataTypeNoLongerRuns
    else .run

/-! ### What the tick asks -/

namespace MigrationRow

variable (row : MigrationRow) (now : Nat)

/-- `EXISTS (SELECT 1 FROM path_lifecycle p JOIN scope_selection s … AND s.included WHERE …)` -/
def existsPath (q : PathRow → Bool) : Bool :=
  discoveryDomains.any fun d => (row.migration.paths d).any fun p => row.migration.included d && q p

def A_PATH_KEPT_AFTER_A_CUTOVER_WHERE : Bool :=
  row.migration.status = .cutover &&
    row.existsPath (fun p => p.state = .continuous && !p.stopped) &&
    row.existsPath (fun p => p.state = .cutover) &&
    !row.existsPath fun p => p.state = .active || p.state = .paused || p.state = .ready

/-- The first half of the `WHERE`. -/
def statusConditions : Bool :=
  PASS_RUNNING_STATES.contains row.migration.status.state ||
    (row.migration.status = .cutover &&
      (cutoverRows row.migration.ledgers).any fun c => CUTOVER_STILL_COPIES_WHERE now c = some true) ||
    row.A_PATH_KEPT_AFTER_A_CUTOVER_WHERE

def ACTIVE_MAPPINGS : Bool :=
  row.statusConditions now && !row.grantWithdrawn && row.organisationOpen

end MigrationRow

def UNREAD_NOTE_PREFIX : List Char := "Not read on the last pass: ".toList

/-- `CASE WHEN ms.paused_reason IS NULL …` -/
def mayGoOn (now : Nat) : Option ResetsAt → Bool
  | none => true
  | some .absent => false
  | some (.timestamp t) => t ≤ now
  | some .invalid => false

namespace MigrationRow

variable (row : MigrationRow) (now : Nat)

/-- `ms.completed_at IS NULL` -/
def uncompleted (d : DiscoveryDomain) : Bool := !(row.statuses d).any (·.completed)

/-- It waits for its provider's window, or for its source to list a collection. -/
def waiting (d : DiscoveryDomain) : Bool :=
  !mayGoOn now ((row.statuses d).bind (·.pausedReason)) ||
    (((row.statuses d).bind (·.lastError)).map UNREAD_NOTE_PREFIX.isPrefixOf).getD false

/-- What `FIRST_COPY_UNFINISHED` asks of one data type. -/
def firstCopyCounts (d : DiscoveryDomain) : Bool :=
  row.migration.included d && !(row.migration.paths d).any (·.stopped) &&
    PASS_RUNNING_STATES.contains (((row.migration.paths d).map (·.state)).getD row.migration.status.state) &&
    row.uncompleted d && !row.waiting now d

def FIRST_COPY_UNFINISHED : Bool := discoveryDomains.any (row.firstCopyCounts now)

end MigrationRow

/-! ### The windows -/

variable {row : MigrationRow} {now : Nat} {d : DiscoveryDomain}

theorem copies_iff {c : CutoverRow} :
    copies now c = true ↔ CUTOVER_STILL_COPIES_WHERE now c = some true := by
  unfold copies
  rcases CUTOVER_STILL_COPIES_WHERE now c with - | b
  · simp
  · simp

theorem mem_cutoverRows {ledgers : CutoverLedgers} {domain : Option DiscoveryDomain} {c : CutoverRow}
    (h : ledgers.rows domain = some c) : c ∈ cutoverRows ledgers := by
  refine List.mem_filterMap.mpr ⟨domain, ?_, h⟩
  cases domain with
  | none => exact List.mem_cons_self
  | some d => exact List.mem_cons_of_mem _ (List.mem_map_of_mem (mem_discoveryDomains d))

/-- A data type's window is one of them. -/
theorem anyCopies_of_ofDomain {ledgers : CutoverLedgers}
    (h : (readCutoverWindows now ledgers).ofDomain d = true) :
    (readCutoverWindows now ledgers).anyCopies = true := by
  apply List.any_eq_true.mpr
  simp only [readCutoverWindows] at h
  split at h
  · next own hown => exact ⟨own, mem_cutoverRows hown, h⟩
  · cases hwhole : ledgers.rows none with
    | none =>
        rw [hwhole] at h
        cases h
    | some whole =>
        rw [hwhole] at h
        exact ⟨whole, mem_cutoverRows hwhole, h⟩

theorem anyCopies_iff {ledgers : CutoverLedgers} : (readCutoverWindows now ledgers).anyCopies = true ↔
    ((cutoverRows ledgers).any fun c => CUTOVER_STILL_COPIES_WHERE now c = some true) = true := by
  simp only [readCutoverWindows, List.any_eq_true, decide_eq_true_eq, copies_iff]

/-! ### The paths -/

theorem existsPath_iff {q : PathRow → Bool} :
    row.existsPath q = true ↔ ∃ d p, row.migration.carried d = some p ∧ q p = true := by
  simp only [MigrationRow.existsPath, List.any_eq_true]
  constructor
  · rintro ⟨d, -, h⟩
    cases hp : row.migration.paths d with
    | none =>
        rw [hp] at h
        cases h
    | some p =>
        rw [hp] at h
        obtain ⟨hincluded, hq⟩ := Bool.and_eq_true_iff.mp h
        exact ⟨d, p, by rw [Migration.carried, if_pos hincluded, hp], hq⟩
  · rintro ⟨d, p, hcarried, hq⟩
    refine ⟨d, mem_discoveryDomains d, ?_⟩
    rw [Migration.carried] at hcarried
    split at hcarried
    · next hincluded =>
        rw [hcarried]
        exact Bool.and_eq_true_iff.mpr ⟨hincluded, hq⟩
    · cases hcarried

theorem somePathRuns_iff : row.somePathRuns now = true ↔ ∃ d p, row.migration.carried d = some p ∧
    pathRunsNow ⟨p.state, p.state = .cutover && (row.windows now).ofDomain d, p.stopped⟩ = true := by
  simp only [MigrationRow.somePathRuns, List.any_eq_true]
  constructor
  · rintro ⟨d, -, h⟩
    cases hp : row.migration.carried d with
    | none =>
        rw [hp] at h
        cases h
    | some p =>
        rw [hp] at h
        exact ⟨d, p, hp, h⟩
  · rintro ⟨d, p, hcarried, h⟩
    exact ⟨d, mem_discoveryDomains d, by rw [hcarried]; exact h⟩

theorem mem_rowPhases {p : PathState} :
    p ∈ row.migration.phases ↔ ∃ d r, row.migration.carried d = some r ∧ r.state = p :=
  Migration.mem_statesOf

/-- A path that runs is before its cutover, kept, or in a cutover that still copies. -/
theorem state_of_runs {path : PathPhase} (h : pathRunsNow path = true) :
    path.stopped = false ∧ (path.phase = .active ∨ path.phase = .continuous ∨
      (path.phase = .cutover ∧ path.stillCopies = true)) := by
  obtain ⟨phase, stillCopies, stopped⟩ := path
  revert h
  cases phase <;> cases stillCopies <;> cases stopped <;> decide

/-! ### Which migrations are started -/

/-- In a cutover, the one case its status cannot see. -/
theorem kept_iff (hstatus : row.migration.status = .cutover) :
    row.A_PATH_KEPT_AFTER_A_CUTOVER_WHERE = true ↔ row.migration.Agreed ∧
      ∃ d p, row.migration.carried d = some p ∧ p.state = .continuous ∧ p.stopped = false := by
  have hbefore : row.existsPath (fun p => p.state = .active || p.state = .paused || p.state = .ready) = false ↔
      ∀ p ∈ row.migration.phases, isAfterCutover p = true := by
    rw [← Bool.not_eq_true, existsPath_iff]
    constructor
    · intro h p hp
      obtain ⟨d, r, hr, rfl⟩ := mem_rowPhases.mp hp
      by_contra hafter
      refine h ⟨d, r, hr, ?_⟩
      have := (isBefore_iff r.state).mpr (Bool.eq_false_iff.mpr hafter)
      rcases this with h | h | h <;> rw [h] <;> rfl
    · rintro h ⟨d, r, hr, hq⟩
      have hafter := h r.state (mem_rowPhases.mpr ⟨d, r, hr, rfl⟩)
      revert hafter hq
      cases r.state <;> decide
  have hcutover : row.existsPath (fun p => p.state = .cutover) = true ↔ .cutover ∈ row.migration.phases := by
    rw [existsPath_iff, mem_rowPhases]
    simp only [decide_eq_true_eq]
  rw [Migration.Agreed, rollUpPhases_eq_some_iff, hstatus]
  simp only [MigrationRow.A_PATH_KEPT_AFTER_A_CUTOVER_WHERE, hstatus, decide_true, Bool.true_and,
    Bool.and_eq_true, Bool.not_eq_true', hbefore, hcutover, AddsUp, existsPath_iff, decide_eq_true_eq]
  constructor
  · rintro ⟨⟨hkept, hin⟩, hafter⟩
    exact ⟨⟨hafter, hin⟩, hkept⟩
  · rintro ⟨⟨hafter, hin⟩, hkept⟩
    exact ⟨⟨hkept, hin⟩, hafter⟩

/-- **The status conditions are `anyRuns`**, in every status. -/
theorem statusConditions_iff :
    row.statusConditions now = true ↔ (row.readPathPhases now).anyRuns = true := by
  have hkeptStatus : row.migration.status ≠ .cutover →
      row.A_PATH_KEPT_AFTER_A_CUTOVER_WHERE = false := by
    intro hne
    simp only [MigrationRow.A_PATH_KEPT_AFTER_A_CUTOVER_WHERE, decide_eq_false hne, Bool.false_and]
  cases hstatus : row.migration.status with
  | active | continuous =>
      refine iff_of_true ?_ ?_
      · rw [MigrationRow.statusConditions, hstatus]
        rfl
      · simp only [MigrationRow.readPathPhases, hstatus]
        rfl
  | paused =>
      refine iff_of_false ?_ ?_
      · rw [MigrationRow.statusConditions, hkeptStatus (by rw [hstatus]; decide), hstatus]
        exact Bool.false_ne_true
      · simp only [MigrationRow.readPathPhases, hstatus]
        exact Bool.false_ne_true
  | done =>
      refine iff_of_false ?_ ?_
      · rw [MigrationRow.statusConditions, hkeptStatus (by rw [hstatus]; decide), hstatus]
        exact Bool.false_ne_true
      · -- Rows that add up to `done` are all `done`, and none of them runs.
        have hruns : ¬ (row.migration.Agreed ∧ row.somePathRuns now = true) := by
          rintro ⟨hagreed, hsome⟩
          rw [Migration.Agreed, rollUpPhases_eq_some_iff, hstatus] at hagreed
          obtain ⟨d, p, hp, hrun⟩ := somePathRuns_iff.mp hsome
          have hdone := hagreed.2 p.state (mem_rowPhases.mpr ⟨d, p, hp, rfl⟩)
          obtain ⟨-, h | h | ⟨h, -⟩⟩ := state_of_runs hrun <;>
            · rw [show p.state = _ from hdone] at h
              cases h
        rw [MigrationRow.readPathPhases, hstatus]
        simp only [Bool.and_eq_true, Bool.or_eq_true, decide_eq_true_eq]
        rintro ⟨-, h | h⟩
        · exact Bool.false_ne_true h
        · exact hruns h
  | cutover =>
      have hwindows : row.windows now = readCutoverWindows now row.migration.ledgers := if_pos (.inl hstatus)
      have htick : row.statusConditions now = true ↔
          (row.windows now).anyCopies = true ∨ row.A_PATH_KEPT_AFTER_A_CUTOVER_WHERE = true := by
        rw [hwindows, anyCopies_iff, MigrationRow.statusConditions, hstatus]
        simp only [Bool.or_eq_true, Bool.and_eq_true, decide_true, true_and]
        exact or_congr_left (or_iff_right (by decide))
      have hread : (row.readPathPhases now).anyRuns = true ↔ (row.windows now).anyCopies = true ∨
          (row.migration.Agreed ∧ row.somePathRuns now = true) := by
        simp only [MigrationRow.readPathPhases, hstatus, Bool.and_eq_true, Bool.or_eq_true,
          decide_eq_true_eq, runsPassesNow, decide_true, Bool.true_and]
        constructor
        · rintro ⟨-, (h | ⟨-, h⟩) | h⟩
          · exact absurd h Bool.false_ne_true
          · exact Or.inl h
          · exact Or.inr h
        · rintro (h | h)
          · exact ⟨by decide, Or.inl (Or.inr ⟨rfl, h⟩)⟩
          · exact ⟨by decide, Or.inr h⟩
      rw [htick, hread, kept_iff hstatus]
      constructor
      · rintro (h | ⟨hagreed, d, p, hp, hkept, hstopped⟩)
        · exact Or.inl h
        · refine Or.inr ⟨hagreed, somePathRuns_iff.mpr ⟨d, p, hp, ?_⟩⟩
          rw [hkept, hstopped]
          rfl
      · rintro (h | ⟨hagreed, hsome⟩)
        · exact Or.inl h
        · obtain ⟨d, p, hp, hrun⟩ := somePathRuns_iff.mp hsome
          have hafter := rollUpPhases_eq_some_iff.mp hagreed
          rw [hstatus] at hafter
          obtain ⟨hstopped, h | h | ⟨-, hcopies⟩⟩ := state_of_runs hrun
          · have := hafter.1 p.state (mem_rowPhases.mpr ⟨d, p, hp, rfl⟩)
            rw [show p.state = _ from h] at this
            cases this
          · exact Or.inr ⟨hagreed, d, p, hp, h, hstopped⟩
          · -- Its own window is one of the migration's.
            refine Or.inl ?_
            rw [hwindows] at hcopies ⊢
            exact anyCopies_of_ofDomain (Bool.and_eq_true_iff.mp hcopies).2

theorem active_iff : row.ACTIVE_MAPPINGS now = true ↔ (row.readPathPhases now).anyRuns = true ∧
    row.grantWithdrawn = false ∧ row.organisationOpen = true := by
  rw [← statusConditions_iff]
  simp only [MigrationRow.ACTIVE_MAPPINGS, Bool.and_eq_true, Bool.not_eq_true', and_assoc]

/-- What a pass would run belongs to a migration that runs, and whose grant stands. -/
theorem runs_of_stepFrom {phases : MigrationPhases} (h : stepFrom (some phases) d = .run) :
    phases.anyRuns = true ∧ phases.grantWithdrawn = false := by
  unfold stepFrom haltFrom at h
  cases hruns : phases.anyRuns <;> cases hgrant : phases.grantWithdrawn <;>
    simp_all

/-! ### The first copy -/

theorem counts_iff (hincluded : row.migration.included d = true) (huncompleted : row.uncompleted d = true)
    (hwaiting : row.waiting now d = false) : row.firstCopyCounts now d = true ↔
      (row.migration.paths d).any (·.stopped) = false ∧
        ((row.migration.paths d).map (·.state)).getD row.migration.status.state ∈ PASS_RUNNING_STATES := by
  simp only [MigrationRow.firstCopyCounts, hincluded, huncompleted, hwaiting, Bool.true_and,
    Bool.not_false, Bool.and_true, Bool.and_eq_true, Bool.not_eq_true', List.contains_iff_mem]

/-- The phase a pass reads of a data type that the migration carries. -/
theorem phase_read (hincluded : row.migration.included d = true) :
    ((row.readPathPhases now).phaseOf d).stopped = (row.migration.paths d).any (·.stopped) ∧
      ((row.readPathPhases now).phaseOf d).phase =
        if row.migration.Agreed then
          ((row.migration.paths d).map (·.state)).getD row.migration.status.state
        else row.migration.status.state := by
  have hcarried : row.migration.carried d = row.migration.paths d := if_pos hincluded
  constructor
  · show row.migration.stoppedOf d = _
    rw [Migration.stoppedOf_eq, hcarried]
    cases row.migration.paths d <;> rfl
  · show row.migration.phaseOf d = _
    cases hp : row.migration.paths d with
    | none =>
        rw [Migration.phaseOf_of_no_row (hcarried.trans hp)]
        exact (ite_self _).symm
    | some p => exact Migration.phaseOf_of_row (hcarried.trans hp)

/-- What is asked of the tick, of one migration at one time. -/
structure StartsWhatRuns (row : MigrationRow) (now : Nat) : Prop where
  selected : row.ACTIVE_MAPPINGS now = true ↔ (row.readPathPhases now).anyRuns = true ∧
    row.grantWithdrawn = false ∧ row.organisationOpen = true
  enumerated : row.organisationOpen = true →
    ∀ d, stepFrom (some (row.readPathPhases now)) d = .run → row.ACTIVE_MAPPINGS now = true
  firstCopy : ∀ d, row.migration.included d = true → row.uncompleted d = true →
    row.waiting now d = false → (row.firstCopyCounts now d = true ↔
      ((row.readPathPhases now).phaseOf d).stopped = false ∧
        ((row.readPathPhases now).phaseOf d).phase ∈ PASS_RUNNING_STATES)

/-- The data type's own row runs passes exactly where the migration's status does. -/
def LikeItsMigration (row : MigrationRow) (d : DiscoveryDomain) : Prop :=
  ∀ p, row.migration.paths d = some p → p.stopped = false →
    (p.state ∈ PASS_RUNNING_STATES ↔ row.migration.status.state ∈ PASS_RUNNING_STATES)

/-- **The tick starts what the gates let run** exactly when the rows add up to the status, or
each data type whose first copy is open runs by its own row as it does by the status. -/
theorem startsWhatRuns_iff (row : MigrationRow) (now : Nat) :
    StartsWhatRuns row now ↔ row.migration.Agreed ∨ ∀ d, row.migration.included d = true →
      row.uncompleted d = true → row.waiting now d = false → LikeItsMigration row d := by
  have hfirst (d : DiscoveryDomain) (hincluded : row.migration.included d = true)
      (huncompleted : row.uncompleted d = true) (hwaiting : row.waiting now d = false) :
      (row.firstCopyCounts now d = true ↔ ((row.readPathPhases now).phaseOf d).stopped = false ∧
        ((row.readPathPhases now).phaseOf d).phase ∈ PASS_RUNNING_STATES) ↔
      row.migration.Agreed ∨ LikeItsMigration row d := by
    obtain ⟨hstopped, hphase⟩ := @phase_read row now d hincluded
    rw [counts_iff hincluded huncompleted hwaiting, hstopped, hphase]
    by_cases hagreed : row.migration.Agreed
    · rw [if_pos hagreed]
      exact iff_of_true Iff.rfl (Or.inl hagreed)
    · rw [if_neg hagreed, or_iff_right hagreed]
      cases hp : row.migration.paths d with
      | none =>
          refine iff_of_true Iff.rfl fun p h => ?_
          rw [hp] at h
          cases h
      | some p =>
          show ((p.stopped = false ∧ p.state ∈ PASS_RUNNING_STATES) ↔
            (p.stopped = false ∧ row.migration.status.state ∈ PASS_RUNNING_STATES)) ↔ _
          constructor
          · intro h q hq hrunning
            obtain rfl := Option.some.inj (hp.symm.trans hq)
            exact ⟨fun hin => (h.mp ⟨hrunning, hin⟩).2, fun hin => (h.mpr ⟨hrunning, hin⟩).2⟩
          · intro h
            exact and_congr_right fun hrunning => h p hp hrunning
  constructor
  · intro h
    by_cases hagreed : row.migration.Agreed
    · exact Or.inl hagreed
    · refine Or.inr fun d hincluded huncompleted hwaiting => ?_
      have hread := h.firstCopy d hincluded huncompleted hwaiting
      exact ((hfirst d hincluded huncompleted hwaiting).mp hread).resolve_left hagreed
  · intro h
    refine ⟨active_iff, fun hopen d hrun => ?_, fun d hincluded huncompleted hwaiting => ?_⟩
    · obtain ⟨hruns, hgrant⟩ := runs_of_stepFrom hrun
      exact active_iff.mpr ⟨hruns, hgrant, hopen⟩
    · exact (hfirst d hincluded huncompleted hwaiting).mpr
        (h.imp_right fun hall => hall d hincluded huncompleted hwaiting)

/-- Mail, in a migration set back to `active` by hand over a row that is held. -/
def setByHand : MigrationRow where
  migration :=
    { status := .active
      included := fun d => d = .email
      paths := fun d => if d = .email then some { state := .paused } else none
      ledgers := .empty }
  grantWithdrawn := false
  organisationOpen := true
  statuses := fun _ => none

/-- **Its first copy is not counted**, though a pass of it runs. -/
theorem held_row_not_counted : ¬ ∀ (row : MigrationRow) (now : Nat), StartsWhatRuns row now := by
  intro h
  have hcounts := ((h setByHand 0).firstCopy .email rfl rfl rfl).mpr ⟨by decide, by decide⟩
  exact absurd hcounts (by decide)

end Ownpace.Lifecycle
