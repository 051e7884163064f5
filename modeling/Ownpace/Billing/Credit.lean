/-
Ownpace/Billing/Credit.lean

A year paid ahead: where it falls, the credit a month may draw, the month's
rate, and what the credit covers of a step.

A year is credit.  Each month of its twelve takes its own tier at half price;
what is left after them pays the months that follow at the full price.  The
credit counts from its first month, and a credit that reads below nothing is
refused: it is never a number.

Months are numbers here, twelve to the year, as the source counts them.  Money
is integer cents.
-/
import Mathlib.Algebra.BigOperators.Group.List.Lemmas
import Mathlib.Algebra.Order.BigOperators.Group.List
import Mathlib.Algebra.Order.Group.Nat
import Ownpace.Billing.Tiers

namespace Ownpace.Billing

/-- How many months a year's half price lasts. -/
def MONTHS_IN_A_YEAR : Nat := 12

def pad (width n : Nat) : String :=
  let digits := toString n
  String.ofList (List.replicate (width - digits.length) '0') ++ digits

/-- A month as `YYYY-MM`. -/
def monthName (month : Nat) : String := pad 4 (month / 12) ++ "-" ++ pad 2 (month % 12 + 1)

inductive Rate where
  | half
  | full
  deriving DecidableEq

/-- A year bought, as its invoice records it. -/
structure YearBought where
  tierId : ManagedTier
  /-- The credit it gives. -/
  cents : Nat
  /-- The first month its credit pays. -/
  creditFrom : Nat
  /-- Its twelve months at half price: from, to, both counted. -/
  halfFrom : Nat
  halfTo : Nat
  deriving DecidableEq

/-- A draw, as the credit counts it. -/
structure CreditDrawn where
  month : Nat
  tierId : ManagedTier
  cents : Nat
  rate : Rate
  deriving DecidableEq

structure YearPlacement where
  creditFrom : Nat
  halfFrom : Nat
  halfTo : Nat
  deriving DecidableEq

def placeYear (now : Instant) (thisMonthBilled : Bool) (years : List YearBought) :
    YearPlacement :=
  let creditFrom := if thisMonthBilled then now.month + 1 else now.month
  -- After the twelve months of any year still running, else with its credit.
  let halfFrom := years.foldl (fun most y => max most (y.halfTo + 1)) creditFrom
  ⟨creditFrom, halfFrom, halfFrom + (MONTHS_IN_A_YEAR - 1)⟩

/-- The credit as a month finds it. -/
structure CreditForMonth where
  leftCents : Nat
  /-- Whether the month is one of a year's twelve. -/
  yearMonth : Bool
  deriving DecidableEq

/-- What the years whose credit has begun by `month` gave. -/
def given (month : Nat) (years : List YearBought) : Nat :=
  ((years.filter fun y => y.creditFrom ≤ month).map (·.cents)).sum

def used (drawn : List CreditDrawn) : Nat := (drawn.map (·.cents)).sum

def YearBought.covers (y : YearBought) (month : Nat) : Bool :=
  y.halfFrom ≤ month && month ≤ y.halfTo

def creditRefusal (month : Nat) (left : Int) : String :=
  s!"the credit for {monthName month} reads {left} cents: more was drawn than the years gave"

def creditForMonth (month : Nat) (years : List YearBought) (drawn : List CreditDrawn) :
    Except String CreditForMonth :=
  -- Never guessed: credit spent past what was given is a fault in the record.
  if given month years < used drawn then
    .error (creditRefusal month ((given month years : Int) - used drawn))
  else .ok ⟨given month years - used drawn, years.any (·.covers month)⟩

/-- The month's first step fixed its rate, when there is one. -/
def monthRate (firstStepRate : Option Rate) (credit : CreditForMonth) : Rate :=
  match firstStepRate with
  | some rate => rate
  | none => if credit.yearMonth && decide (0 < credit.leftCents) then .half else .full

/-- A price at a rate: half rounds down. -/
def atRate (cents : Nat) : Rate → Nat
  | .half => cents / 2
  | .full => cents

structure StepSplit where
  drawCents : Nat
  invoiceCents : Nat
  deriving DecidableEq

def splitStep (stepCents leftCents : Nat) : StepSplit :=
  ⟨min stepCents leftCents, stepCents - min stepCents leftCents⟩

/-! ### Where a year falls -/

theorem le_foldl_max (years : List YearBought) (start : Nat) :
    start ≤ years.foldl (fun most y => max most (y.halfTo + 1)) start := by
  induction years generalizing start with
  | nil => exact le_rfl
  | cons y ys ih => exact (le_max_left _ _).trans (ih _)

theorem halfTo_lt_foldl_max {years : List YearBought} {y : YearBought} (hy : y ∈ years)
    (start : Nat) : y.halfTo < years.foldl (fun most y => max most (y.halfTo + 1)) start := by
  induction years generalizing start with
  | nil => cases hy
  | cons z zs ih =>
      rcases List.mem_cons.mp hy with rfl | hz
      · exact (Nat.lt_of_succ_le (le_max_right _ _)).trans_le (le_foldl_max zs _)
      · exact ih hz _

variable {now : Instant} {billed : Bool} {years : List YearBought} {drawn : List CreditDrawn}
variable {month : Nat} {credit : CreditForMonth}

theorem placeYear_creditFrom_le :
    (placeYear now billed years).creditFrom ≤ (placeYear now billed years).halfFrom :=
  le_foldl_max years _

theorem placeYear_halfTo :
    (placeYear now billed years).halfTo = (placeYear now billed years).halfFrom + 11 := rfl

/-- A year's twelve months come after those of every year that stands. -/
theorem placeYear_after {y : YearBought} (hy : y ∈ years) :
    y.halfTo < (placeYear now billed years).halfFrom :=
  halfTo_lt_foldl_max hy _

/-! ### The credit -/

theorem given_mono (years : List YearBought) {m m' : Nat} (h : m ≤ m') :
    given m years ≤ given m' years := by
  have hsub : (years.filter fun y => y.creditFrom ≤ m).Sublist
      (years.filter fun y => y.creditFrom ≤ m') := by
    refine List.monotone_filter_right years ?_
    intro y hy
    exact decide_eq_true ((of_decide_eq_true hy).trans h)
  exact (hsub.map _).sum_le_sum (fun _ _ => Nat.zero_le _)

theorem given_le_all (m : Nat) (years : List YearBought) :
    given m years ≤ (years.map (·.cents)).sum := by
  unfold given
  exact ((List.filter_sublist).map _).sum_le_sum (fun _ _ => Nat.zero_le _)

theorem given_append (m : Nat) (years more : List YearBought) :
    given m (years ++ more) = given m years + given m more := by
  simp [given, List.filter_append, List.sum_append]

theorem used_append (drawn more : List CreditDrawn) :
    used (drawn ++ more) = used drawn + used more := by
  simp [used, List.sum_append]

/-- The credit is refused exactly when more was drawn than the years gave. -/
theorem creditForMonth_refuses_iff :
    (∃ reason, creditForMonth month years drawn = .error reason) ↔
      given month years < used drawn := by
  unfold creditForMonth
  split
  · rename_i h
    exact ⟨fun _ => h, fun _ => ⟨_, rfl⟩⟩
  · rename_i h
    constructor
    · rintro ⟨reason, h'⟩
      cases h'
    · intro h'
      exact absurd h' h

theorem creditForMonth_ok_iff :
    creditForMonth month years drawn = .ok credit ↔
      given month years = used drawn + credit.leftCents ∧
        credit.yearMonth = years.any (·.covers month) := by
  unfold creditForMonth
  obtain ⟨left, yearMonth⟩ := credit
  split
  · rename_i h
    constructor
    · intro h'
      cases h'
    · rintro ⟨h', -⟩
      exact absurd h' (by dsimp only; omega)
  · rename_i h
    simp only [Except.ok.injEq, CreditForMonth.mk.injEq]
    constructor
    · rintro ⟨rfl, rfl⟩
      exact ⟨by omega, rfl⟩
    · rintro ⟨h', rfl⟩
      exact ⟨by omega, rfl⟩

/-! ### The split -/

theorem splitStep_adds (step left : Nat) :
    (splitStep step left).drawCents + (splitStep step left).invoiceCents = step := by
  unfold splitStep
  dsimp only
  omega

theorem splitStep_draw_le (step left : Nat) : (splitStep step left).drawCents ≤ left :=
  min_le_right _ _

/-- Something is invoiced only when all the credit left is drawn. -/
theorem splitStep_exhausts {step left : Nat} (h : 0 < (splitStep step left).invoiceCents) :
    (splitStep step left).drawCents = left := by
  unfold splitStep at h ⊢
  dsimp only at h ⊢
  omega

/-! ### The rate -/

/-- A month of a year's twelve opens at half price exactly when credit is left. -/
theorem monthRate_none_half_iff (h : credit.yearMonth = true) :
    monthRate none credit = .half ↔ 0 < credit.leftCents := by
  unfold monthRate
  rw [h, Bool.true_and]
  by_cases hl : 0 < credit.leftCents <;> simp [hl]

/-- Halving keeps even prices apart. -/
theorem atRate_lt {a b : Nat} (rate : Rate) (hb : 2 ∣ b) (h : a < b) :
    atRate a rate < atRate b rate := by
  cases rate
  · show a / 2 < b / 2
    omega
  · exact h

theorem atRate_zero (rate : Rate) : atRate 0 rate = 0 := by
  cases rate <;> rfl

end Ownpace.Billing
