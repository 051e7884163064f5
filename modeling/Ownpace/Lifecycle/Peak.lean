/-
Ownpace/Lifecycle/Peak.lean

An organisation's slots and the month's peak, over every sequence of presses.

A month's mark is raised by the first press of the month that says it took
slots, or by a true-up, and by every one after it.  From there on, to the end of
the month, it is at least what is held.  Before it there is none, whatever still
runs from the month before.
-/
import Mathlib.Algebra.GroupWithZero.Nat
import Mathlib.Algebra.Order.BigOperators.Group.List
import Ownpace.Lifecycle.Slots

namespace Ownpace.Lifecycle

open Cutover CutoverState Migration

/-! ### An organisation -/

structure Organisation where
  migrations : List Migration
  /-- `occupancy_peak.peak_paths`, by month: 0 where the month has no row. -/
  peak : Nat → Nat

/-- What a press is committed under. -/
structure Moment where
  month : Nat
  /-- The paths of the agreed tier, where the stage holds at it. -/
  ceiling : Option Nat

namespace Organisation

/-- How many of its paths hold a slot right now. -/
def slotsHeld (o : Organisation) : Nat := (o.migrations.map Migration.slotsHeld).sum

/-- Raise the month's mark, strictly: a tie is not a new peak. -/
def recordCurrentOccupancy (o : Organisation) (month : Nat) : Organisation :=
  if o.slotsHeld = 0 then o
  else if o.peak month < o.slotsHeld then
    { o with peak := Function.update o.peak month o.slotsHeld }
  else o

end Organisation

/-- A start that would hold more slots than the agreed tier runs. -/
def pathsPastTheTier (paths before after : Nat) : Bool := !(after ≤ before || after ≤ paths)

/-- The ledger's own doors, of the cutover CLI and the rollback job, refuse
nothing past the tier. -/
def Event.atTheApi : Event → Bool
  | wholeStep _ _ => false
  | press _ (.ownStep _ _) => false
  | _ => true

namespace Organisation

/-- A press's transaction: refused past the tier, or committed with the peak it
raises. -/
def commit (o o' : Organisation) (slotsTaken atTheApi : Bool) (now : Moment) :
    Organisation × Bool :=
  if !slotsTaken then (o', false)
  else if atTheApi && now.ceiling.any (pathsPastTheTier · o.slotsHeld o'.slotsHeld) then (o, false)
  else (o'.recordCurrentOccupancy now.month, true)

end Organisation

/-- A migration as it is first written: no path of it has moved. -/
def newMigration (included : DiscoveryDomain → Bool) (status : MappingLifecycle) : Migration where
  status := status
  included := included
  paths _ := none
  ledgers := .empty

inductive Happening where
  /-- A press on one migration, or what else happens to it. -/
  | event (mapping : Nat) (e : Event)
  /-- A migration is written, a draft or one created running. -/
  | created (included : DiscoveryDomain → Bool) (running : Bool)
  /-- The tier calculator's and the month invoice's. -/
  | trueUp

namespace Organisation

/-- The organisation afterwards, and whether the press said it took slots. -/
def step (actor : String) (o : Organisation) (now : Moment) : Happening → Organisation × Bool
  | .event mapping e =>
    match o.migrations[mapping]? with
    | none => (o, false)
    | some m =>
      o.commit { o with migrations := o.migrations.set mapping (e.after actor m) }
        (e.slotsTaken actor m) e.atTheApi now
  | .created included false =>
    ({ o with migrations := o.migrations ++ [newMigration included .paused] }, false)
  | .created included true =>
    let m := newMigration included .active
    o.commit { o with migrations := o.migrations ++ [m.movePathsWithMapping none .active] }
      (pathsTakeSlots m none .active) true now
  | .trueUp => (o.recordCurrentOccupancy now.month, false)

def run (actor : String) (o : Organisation) (happened : List (Moment × Happening)) : Organisation :=
  happened.foldl (fun o h => (o.step actor h.1 h.2).1) o

/-- Every row of it says whether it has ended. -/
def Dated (o : Organisation) : Prop := ∀ m ∈ o.migrations, m.Dated

/-- What is pressed takes no slot but where it says so. -/
def Reporting (o : Organisation) : Happening → Prop
  | .event mapping e => ∀ m, o.migrations[mapping]? = some m → e.Reporting m
  | _ => True

/-- The rest of a month, all of it reporting. -/
def ReportingIn (actor : String) (month : Nat) : Organisation → List (Moment × Happening) → Prop
  | _, [] => True
  | o, (now, h) :: rest =>
    now.month = month ∧ o.Reporting h ∧ ReportingIn actor month (o.step actor now h).1 rest

/-! ### The mark -/

variable {o o' : Organisation} {actor : String} {now : Moment}

@[simp] theorem recordCurrentOccupancy_migrations (month : Nat) :
    (o.recordCurrentOccupancy month).migrations = o.migrations := by
  unfold recordCurrentOccupancy
  split
  · rfl
  · split <;> rfl

@[simp] theorem recordCurrentOccupancy_slotsHeld (month : Nat) :
    (o.recordCurrentOccupancy month).slotsHeld = o.slotsHeld := by
  rw [slotsHeld, recordCurrentOccupancy_migrations, slotsHeld]

theorem le_peak_of_record (month : Nat) :
    o.slotsHeld ≤ (o.recordCurrentOccupancy month).peak month := by
  unfold recordCurrentOccupancy
  split
  · next hnone => omega
  · split
    · show o.slotsHeld ≤ Function.update o.peak month o.slotsHeld month
      rw [Function.update_self]
    · next hmark => omega

/-! ### One press -/

theorem commit_dated {slotsTaken atTheApi : Bool} (h : o.Dated) (h' : o'.Dated) :
    (o.commit o' slotsTaken atTheApi now).1.Dated := by
  unfold commit
  split
  · exact h'
  · split
    · exact h
    · intro m hm
      rw [recordCurrentOccupancy_migrations] at hm
      exact h' m hm

theorem dated_append (h : o.Dated) {m : Migration} (hm : m.Dated) :
    ({ o with migrations := o.migrations ++ [m] } : Organisation).Dated := by
  intro m' hm'
  rcases List.mem_append.mp hm' with hold | hnew
  · exact h m' hold
  · rwa [List.mem_singleton.mp hnew]

theorem newMigration_dated (included : DiscoveryDomain → Bool) (status : MappingLifecycle) :
    (newMigration included status).Dated := ⟨nofun⟩

theorem step_dated (h : o.Dated) (x : Happening) : (o.step actor now x).1.Dated := by
  cases x with
  | event mapping e =>
      simp only [step]
      split
      · exact h
      · next m hm =>
          refine commit_dated h fun m' hm' => ?_
          rcases List.mem_or_eq_of_mem_set hm' with hold | rfl
          · exact h m' hold
          · exact Event.dated_run (h m (List.mem_of_getElem? hm)) e
  | created included running =>
      have hnew := newMigration_dated included
      cases running with
      | false => exact dated_append h (hnew .paused)
      | true =>
          refine commit_dated h (dated_append h ?_)
          exact (hnew .active).moved .active (congrArg Migration.paths movePathsWithMapping_eq)
  | trueUp =>
      intro m hm
      rw [step, recordCurrentOccupancy_migrations] at hm
      exact h m hm

theorem run_dated (h : o.Dated) (happened : List (Moment × Happening)) :
    (o.run actor happened).Dated := by
  induction happened generalizing o with
  | nil => exact h
  | cons x rest ih => exact ih (step_dated h x.2)

/-- A press that said so has its slots in the month's mark. -/
theorem commit_said {slotsTaken atTheApi : Bool}
    (h : (o.commit o' slotsTaken atTheApi now).2 = true) :
    (o.commit o' slotsTaken atTheApi now).1.slotsHeld ≤
      (o.commit o' slotsTaken atTheApi now).1.peak now.month := by
  unfold commit at h ⊢
  split at h
  · cases h
  · next hsaid =>
      rw [if_neg hsaid]
      split at h
      · cases h
      · next hceiling =>
          rw [if_neg hceiling, recordCurrentOccupancy_slotsHeld]
          exact le_peak_of_record now.month

theorem sum_map_set_le {f : Migration → Nat} {ms : List Migration} {i : Nat} {m m' : Migration}
    (hm : ms[i]? = some m) (h : f m' ≤ f m) : ((ms.set i m').map f).sum ≤ (ms.map f).sum := by
  induction ms generalizing i with
  | nil => cases hm
  | cons first ms ih =>
      cases i with
      | zero =>
          cases hm
          simpa using h
      | succ i =>
          have hrest := ih hm
          simpa using hrest

theorem commit_slotsHeld_le {slotsTaken atTheApi : Bool}
    (h : slotsTaken = false → o'.slotsHeld ≤ o.slotsHeld)
    (hsaid : (o.commit o' slotsTaken atTheApi now).2 = false) :
    (o.commit o' slotsTaken atTheApi now).1.slotsHeld ≤ o.slotsHeld := by
  unfold commit at hsaid ⊢
  cases slotsTaken with
  | false => exact h rfl
  | true =>
      rw [Bool.not_true, if_neg Bool.false_ne_true] at hsaid ⊢
      split at hsaid
      · next hceiling =>
          rw [if_pos hceiling]
      · cases hsaid

theorem slotsHeld_append {m : Migration} (hm : ∀ d, ¬ m.Holds d) :
    ({ o with migrations := o.migrations ++ [m] } : Organisation).slotsHeld = o.slotsHeld := by
  have hnone : m.slotsHeld = 0 := by
    rw [slotsHeld_eq, List.countP_eq_zero]
    exact fun d _ hd => hm d (any_counted_iff.mp hd)
  simp [slotsHeld, hnone]

/-- What says nothing, and was not to, holds no more than before. -/
theorem step_slotsHeld_le {x : Happening} (hrep : o.Reporting x)
    (hsaid : (o.step actor now x).2 = false) : (o.step actor now x).1.slotsHeld ≤ o.slotsHeld := by
  cases x with
  | event mapping e =>
      cases hm : o.migrations[mapping]? with
      | none =>
          simp only [step, hm]
          exact Nat.le_refl _
      | some m =>
          simp only [step, hm] at hsaid ⊢
          exact commit_slotsHeld_le
            (fun hnot => sum_map_set_le hm (Event.slotsHeld_le (hrep m hm) hnot)) hsaid
  | created included running =>
      cases running with
      | false =>
          refine (slotsHeld_append fun d => ?_).le
          rintro ⟨row, hrow, -⟩
          have hd := included_of_carried hrow
          rw [carried_eq hd] at hrow
          cases hrow
      | true =>
          refine commit_slotsHeld_le (fun hnot => (slotsHeld_append fun d => ?_).le) hsaid
          rintro ⟨row, hrow, -⟩
          have hd : (newMigration included .active).included d = true := by
            have hincl := included_of_carried hrow
            rwa [movePathsWithMapping_eq] at hincl
          have hnone : (newMigration included .active).carried d = none := by
            rw [carried_eq hd]
            rfl
          -- One created running starts every path it carries.
          rw [pathsTakeSlots_of_follows hd (by rw [hnone]; rfl) (.inl rfl)] at hnot
          cases hnot
  | trueUp => exact (recordCurrentOccupancy_slotsHeld now.month).le

theorem step_said {x : Happening} (h : (o.step actor now x).2 = true) :
    (o.step actor now x).1.slotsHeld ≤ (o.step actor now x).1.peak now.month := by
  cases x with
  | event mapping e =>
      simp only [step] at h ⊢
      split at h
      · cases h
      · next m hm => exact commit_said h
  | created included running =>
      cases running with
      | false => cases h
      | true => exact commit_said h
  | trueUp => cases h

/-- A mark is never lowered. -/
theorem peak_le_record (month other : Nat) :
    o.peak other ≤ (o.recordCurrentOccupancy month).peak other := by
  unfold recordCurrentOccupancy
  split
  · exact Nat.le_refl _
  · split
    · next hmark =>
        show o.peak other ≤ Function.update o.peak month o.slotsHeld other
        by_cases hother : other = month
        · subst hother
          rw [Function.update_self]
          exact hmark.le
        · rw [Function.update_of_ne hother]
    · exact Nat.le_refl _

theorem peak_le_commit {slotsTaken atTheApi : Bool} (hpeak : o'.peak = o.peak) (month : Nat) :
    o.peak month ≤ (o.commit o' slotsTaken atTheApi now).1.peak month := by
  unfold commit
  split
  · rw [hpeak]
  · split
    · exact Nat.le_refl _
    · rw [← hpeak]
      exact peak_le_record now.month month

theorem peak_le_step (x : Happening) (month : Nat) :
    o.peak month ≤ (o.step actor now x).1.peak month := by
  cases x with
  | event mapping e =>
      simp only [step]
      split
      · exact Nat.le_refl _
      · refine peak_le_commit ?_ month
        rfl
  | created included running =>
      cases running with
      | false => exact Nat.le_refl _
      | true =>
          refine peak_le_commit ?_ month
          rfl
  | trueUp => exact peak_le_record now.month month

/-- Once the month's mark covers what is held, it goes on to. -/
theorem step_covers {x : Happening} (hrep : o.Reporting x)
    (h : o.slotsHeld ≤ o.peak now.month) :
    (o.step actor now x).1.slotsHeld ≤ (o.step actor now x).1.peak now.month := by
  cases hsaid : (o.step actor now x).2 with
  | true => exact step_said hsaid
  | false => exact (step_slotsHeld_le hrep hsaid).trans (h.trans (peak_le_step x now.month))

theorem run_covers {month : Nat} {rest : List (Moment × Happening)}
    (hrep : ReportingIn actor month o rest) (h : o.slotsHeld ≤ o.peak month) :
    (o.run actor rest).slotsHeld ≤ (o.run actor rest).peak month := by
  induction rest generalizing o with
  | nil => exact h
  | cons x rest ih =>
      obtain ⟨now, x⟩ := x
      obtain ⟨rfl, hx, hrest⟩ := hrep
      exact ih hrest (step_covers hx h)

/-- Over every sequence of presses: every row says whether it has ended; what
takes slots says so; and from a press that said so, and from a true-up, the
month's mark is at least what is held after each of them. -/
theorem slots_and_peak (hdated : o.Dated) (actor : String)
    (happened : List (Moment × Happening)) :
    (∀ m ∈ (o.run actor happened).migrations, ∀ d row, m.paths d = some row →
      (row.ended = true ↔ row.state ≠ .ready ∧ holdsASlot row.state row.stopped = false)) ∧
    ∀ now x, (o.run actor happened).Reporting x →
      let r := (o.run actor happened).step actor now x
      ((o.run actor happened).slotsHeld < r.1.slotsHeld → r.2 = true) ∧
      (r.2 = true ∨ x = .trueUp →
        ∀ rest, ReportingIn actor now.month r.1 rest →
          (r.1.run actor rest).slotsHeld ≤ (r.1.run actor rest).peak now.month) := by
  refine ⟨fun m hm d row hrow => (run_dated hdated happened m hm).row d row hrow, fun now x hx => ?_⟩
  refine ⟨fun hmore => ?_, fun hmarked rest hrest => run_covers hrest ?_⟩
  · by_contra hsaid
    exact absurd hmore (Nat.not_lt.mpr (step_slotsHeld_le hx (Bool.not_eq_true _ ▸ hsaid)))
  · rcases hmarked with hsaid | rfl
    · exact step_said hsaid
    · show (recordCurrentOccupancy _ now.month).slotsHeld ≤ _
      rw [recordCurrentOccupancy_slotsHeld]
      exact le_peak_of_record now.month

/-! ### Where the mark is lower -/

/-- A draft of mail and files, mail's own cutover approved. -/
def draftOfMailAndFiles : Migration where
  status := .paused
  included d := d = .email ∨ d = .file
  paths _ := none
  ledgers := mailApproved

def draft : Organisation where
  migrations := [draftOfMailAndFiles]
  peak _ := 0

/-- Within the first month: a start, and then mail is stopped and ended. -/
def startedAndEnded : List Happening :=
  [.event 0 (.press .email (.stopOrResume true)), .event 0 (.press .email (.endOrKeep .finish 0 false))]

theorem slots_and_peak_draft :
    let r := draft.step "user" ⟨0, some 3⟩ (.event 0 .start)
    let rest := startedAndEnded.map fun x => (⟨0, some 3⟩, x)
    r.1.slotsHeld = 2 ∧ (r.1.run "user" rest).slotsHeld ≤ (r.1.run "user" rest).peak 0 := by
  have hdated : draft.Dated := by
    intro m hm
    rw [List.mem_singleton.mp hm]
    exact ⟨nofun⟩
  refine ⟨by decide, ?_⟩
  refine ((slots_and_peak hdated "user" []).2 ⟨0, some 3⟩ (.event 0 .start) ?_).2
    (.inl (by decide)) _ ⟨rfl, ?_, rfl, ?_, trivial⟩
  · intro m _
    trivial
  · intro m hm _ _ hnone
    cases hm
    revert hnone
    decide
  · intro m hm
    cases hm
    refine ⟨fun e row he hrow hnot => absurd ?_ hnot, nofun⟩
    decide

/-- A month begins without a mark, whatever still holds a slot: by design, until
a press of it takes one or a true-up.  And a stop that gives a data type its
first row takes a slot and does not say so: a draft's mail was cut over on its
own and rolled back, and the files, which run in the migration's `active`, are
stopped. -/
theorem slots_above_peak :
    (let o := draft.run "user" [(⟨0, none⟩, .event 0 .start)]
      let r := o.step "user" ⟨1, none⟩ (.event 0 (.press .email (.stopOrResume true)))
      r.1.slotsHeld = 2 ∧ r.1.peak 1 = 0) ∧
    (let o := draft.run "cli" [(⟨0, none⟩, .event 0 (.press .email (.ownStep .enterCutover 3))),
        (⟨0, none⟩, .event 0 (.press .email (.ownStep (.performRollback "mail bounced") 4)))]
      let r := o.step "user" ⟨0, none⟩ (.event 0 (.press .file (.stopOrResume true)))
      o.slotsHeld = 1 ∧ r.1.slotsHeld = 2 ∧ r.2 = false ∧ r.1.peak 0 = 1) := by
  decide

end Organisation

end Ownpace.Lifecycle
