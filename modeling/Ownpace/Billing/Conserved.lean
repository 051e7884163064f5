/-
Ownpace/Billing/Conserved.lean

A year's credit, over whole histories.

What the draws since the latest withdrawal took stays within what the years
since it gave, for every month from the last one drawn for on, as long as no
withdrawal is dated before a draw and no year is voided whose credit the draws
still need.  Otherwise the credit reads below nothing and is refused, and a run
makes nothing (`refused_of_overdrawn`): a fault in the record, and never a
number.

The half-price windows and the rate of a month need no such condition.
-/
import Ownpace.Billing.Runs

namespace Ownpace.Billing

namespace Record

variable {r r' : Record} {now : Instant} {x : MonthReading} {month : Nat} {e : Event}
variable {reference : Reference} {status : InvoiceStatus}

/-! ### The years that count -/

theorem filterMap_sublist {α β : Type*} {f g : α → Option β} {l : List α}
    (h : ∀ a ∈ l, ∀ b, f a = some b → g a = some b) :
    (l.filterMap f).Sublist (l.filterMap g) := by
  induction l with
  | nil => exact List.Sublist.slnil
  | cons a l ih =>
      have hrest := ih fun a' ha' => h a' (List.mem_cons_of_mem _ ha')
      rcases hf : f a with - | b
      · rw [List.filterMap_cons_none hf]
        rcases hg : g a with - | b
        · rw [List.filterMap_cons_none hg]
          exact hrest
        · rw [List.filterMap_cons_some hg]
          exact hrest.cons b
      · rw [List.filterMap_cons_some hf,
          List.filterMap_cons_some (h a List.mem_cons_self b hf)]
        exact hrest.cons_cons b

/-- A withdrawal leaves only years that counted before it. -/
theorem readYears_withdrawn :
    ({ r with withdrawals := r.withdrawals ++ [now] } : Record).readYears.Sublist
      r.readYears := by
  refine filterMap_sublist ?_
  rintro ⟨st, createdAt, document⟩ - y hy
  rcases document with ⟨m, t, ev⟩ | ⟨n, ev⟩
  · cases hy
  · unfold yearOf at hy ⊢
    dsimp only at hy ⊢
    split at hy
    · rename_i h
      rw [if_pos]
      · exact hy
      · refine ⟨h.1, ?_⟩
        have hall : (r.withdrawals ++ [now]).all (fun w => decide (w < createdAt)) = true := h.2
        rw [List.all_append, Bool.and_eq_true] at hall
        exact hall.1
    · cases hy

/-- An invoice moved along is no year that was not one. -/
theorem yearOf_moveTo {i : Invoice} {y : YearBought}
    (hmay : i.reference = reference → mayMove i.status status = true)
    (h : r.yearOf (Invoice.moveTo reference status i) = some y) : r.yearOf i = some y := by
  unfold Invoice.moveTo at h
  split at h
  · rename_i href
    obtain ⟨old, createdAt, document⟩ := i
    rcases document with ⟨m, t, ev⟩ | ⟨n, ev⟩
    · cases h
    · unfold yearOf at h ⊢
      dsimp only at h ⊢
      split at h
      · rename_i hnew
        rw [if_pos ⟨not_void_of_mayMove (hmay href) hnew.1, hnew.2⟩]
        exact h
      · cases h
  · exact h

theorem readYears_moveInvoice
    (hmay : ∀ i ∈ r.invoices, i.reference = reference → mayMove i.status status = true) :
    ({ r with invoices := r.invoices.map (Invoice.moveTo reference status) } :
      Record).readYears.Sublist r.readYears := by
  show ((r.invoices.map (Invoice.moveTo reference status)).filterMap r.yearOf).Sublist
    (r.invoices.filterMap r.yearOf)
  rw [List.filterMap_map]
  exact filterMap_sublist fun i hi y hy => yearOf_moveTo (hmay i hi) hy

/-- Short of void, it is the year it was. -/
theorem readYears_moved (hstatus : status ≠ .void)
    (hmay : ∀ i ∈ r.invoices, i.reference = reference → mayMove i.status status = true) :
    ({ r with invoices := r.invoices.map (Invoice.moveTo reference status) } :
      Record).readYears = r.readYears := by
  show (r.invoices.map (Invoice.moveTo reference status)).filterMap r.yearOf =
    r.invoices.filterMap r.yearOf
  rw [List.filterMap_map]
  refine List.filterMap_congr ?_
  intro i hi
  show r.yearOf (Invoice.moveTo reference status i) = r.yearOf i
  unfold Invoice.moveTo
  split
  · rename_i href
    have hold := not_void_of_mayMove (hmay i hi href) hstatus
    obtain ⟨old, createdAt, document⟩ := i
    rcases document with ⟨m, t, ev⟩ | ⟨n, ev⟩
    · rfl
    · unfold yearOf
      dsimp only at hold ⊢
      simp only [hold, hstatus, ne_eq, not_false_eq_true, true_and]
  · rfl

/-- A month's invoice is no year. -/
theorem readYears_withStep {tier : ManagedTier} {cents before : Nat} :
    (r.withStep now x tier cents before).readYears = r.readYears := by
  show (r.invoices ++ invoicesOf now x tier cents before).filterMap r.yearOf = _
  rw [List.filterMap_append]
  unfold invoicesOf
  split <;> exact List.append_nil _

/-- What a year bought now adds to the years that count: itself, or nothing when
it is dated no later than a withdrawal. -/
theorem readYears_year (r : Record) (now : Instant) (order : YearOrder) (n : Nat) :
    ({ r with invoices := r.invoices ++ [⟨.draft, now, .year n
        ⟨order.tier, order.cents, order.priceFrom, r.readYearPlacement now, now⟩⟩] } :
      Record).readYears = r.readYears ++
        if r.sinceTheLatestWithdrawal now then
          [⟨order.tier, order.cents, (r.readYearPlacement now).creditFrom,
            (r.readYearPlacement now).halfFrom, (r.readYearPlacement now).halfTo⟩]
        else [] := by
  show (r.invoices ++ [_]).filterMap r.yearOf = _
  rw [List.filterMap_append]
  congr 1
  by_cases h : r.sinceTheLatestWithdrawal now = true <;>
    simp [yearOf, h]

/-! ### The half-price windows -/

/-- The twelve months at half price of the years that count. -/
structure Windows (r : Record) : Prop where
  disjoint : r.readYears.Pairwise fun y y' => y.halfTo < y'.halfFrom
  twelve : ∀ y ∈ r.readYears, y.halfTo = y.halfFrom + 11
  fromCredit : ∀ y ∈ r.readYears, y.creditFrom ≤ y.halfFrom

theorem Windows.sublist (h : Windows r) (hsub : r'.readYears.Sublist r.readYears) :
    Windows r' :=
  ⟨h.disjoint.sublist hsub, fun y hy => h.twelve y (hsub.subset hy),
    fun y hy => h.fromCredit y (hsub.subset hy)⟩

theorem windows_step (hs : Writes r e r') (h : Windows r) : Windows r' := by
  cases hs with
  | nothing e invoices draws withdrawals =>
      refine h.sublist ?_
      rw [readYears_congr invoices withdrawals]
  | made now x tier cents before reads =>
      refine h.sublist ?_
      rw [readYears_withStep, recordCurrentOccupancy_readYears]
  | withdrawn inTime now => exact h.sublist readYears_withdrawn
  | movedInvoice reference status may => exact h.sublist (readYears_moveInvoice may)
  | year order now =>
      by_cases hsince : r.sinceTheLatestWithdrawal now = true
      · -- The new year's window comes after every window that counts.
        have hyears := readYears_year r now order (r.yearsEverBought + 1)
        rw [if_pos hsince] at hyears
        refine ⟨?_, ?_, ?_⟩
        · rw [hyears, List.pairwise_append]
          refine ⟨h.disjoint, List.pairwise_singleton _ _, ?_⟩
          intro y hy y' hy'
          rw [List.mem_singleton.mp hy']
          exact placeYear_after hy
        · intro y hy
          rw [hyears] at hy
          rcases List.mem_append.mp hy with hy | hy
          · exact h.twelve y hy
          · rw [List.mem_singleton.mp hy]
            exact placeYear_halfTo
        · intro y hy
          rw [hyears] at hy
          rcases List.mem_append.mp hy with hy | hy
          · exact h.fromCredit y hy
          · rw [List.mem_singleton.mp hy]
            exact placeYear_creditFrom_le
      · refine h.sublist ?_
        rw [readYears_year, if_neg hsince, List.append_nil]

/-! ### One rate a month -/

/-- The steps of a month that stand have one rate. -/
def OneRate (r : Record) : Prop :=
  ∀ month, ∀ s ∈ r.readMonthSteps month, ∀ s' ∈ r.readMonthSteps month,
    s.stands = true → s'.stands = true → s.rate = s'.rate

/-- A run's rate is the rate of the steps that stand. -/
theorem rate_of_stands (h : OneRate r) (hx : r.readTheMonth now = .ok x) {s : MonthStep}
    (hs : s ∈ r.readMonthSteps now.month) (hstands : s.stands = true) : x.rate = s.rate := by
  have hrate := (readTheMonth_ok_iff.mp hx).2.2.2.1
  rcases e : firstStepRate (r.readMonthSteps now.month) with - | rate
  · rw [firstStepRate_eq_none_iff.mp e s hs] at hstands
    cases hstands
  · obtain ⟨s', hs', hstands', rfl⟩ := firstStepRate_mem e
    rw [hrate, e]
    exact h _ s' hs' s hs hstands' hstands

theorem OneRate.congr (h : OneRate r) (hi : r'.invoices = r.invoices)
    (hd : r'.draws = r.draws) : OneRate r' := by
  intro month s hs s' hs'
  rw [readMonthSteps_congr hi hd] at hs hs'
  exact h month s hs s' hs'

theorem oneRate_step (hs : Writes r e r') (h : OneRate r) : OneRate r' := by
  cases hs with
  | nothing e invoices draws withdrawals => exact h.congr invoices draws
  | withdrawn inTime now => exact h.congr rfl rfl
  | year order now =>
      intro month s hs s' hs'
      unfold readMonthSteps at hs hs'
      rw [filterMap_year] at hs hs'
      exact h month s hs s' hs'
  | made now x tier cents before reads =>
      have h' : OneRate (r.recordCurrentOccupancy now) :=
        h.congr recordCurrentOccupancy_invoices recordCurrentOccupancy_draws
      intro month s hs s' hs' hstands hstands'
      by_cases hmonth : month = now.month
      · subst hmonth
        rcases mem_readMonthSteps_withStep.mp hs with hs | hs <;>
          rcases mem_readMonthSteps_withStep.mp hs' with hs' | hs'
        · exact h' _ s hs s' hs' hstands hstands'
        · rw [(mem_newSteps hs').2.1]
          exact (rate_of_stands h' reads hs hstands).symm
        · rw [(mem_newSteps hs).2.1]
          exact rate_of_stands h' reads hs' hstands'
        · rw [(mem_newSteps hs).2.1, (mem_newSteps hs').2.1]
      · rw [readMonthSteps_withStep_other hmonth] at hs hs'
        exact h' month s hs s' hs' hstands hstands'
  | movedInvoice reference status may =>
      -- A step that stands after the move stood before it, at the same rate.
      have hback : ∀ month s,
          s ∈ ({ r with invoices := r.invoices.map (Invoice.moveTo reference status) } :
            Record).readMonthSteps month → s.stands = true →
          ∃ s₀ ∈ r.readMonthSteps month, s₀.stands = true ∧ s₀.rate = s.rate := by
        intro month s hs hstands
        rcases List.mem_append.mp hs with hs | hs
        · obtain ⟨i, hi, hstep⟩ := List.mem_filterMap.mp hs
          obtain ⟨i₀, hi₀, rfl⟩ := List.mem_map.mp hi
          obtain ⟨s₀, hs₀, hstands₀, hrate₀⟩ :=
            invoicedStep_moveTo_stands (may i₀ hi₀) hstep hstands
          exact ⟨s₀, List.mem_append_left _ (List.mem_filterMap.mpr ⟨i₀, hi₀, hs₀⟩),
            hstands₀, hrate₀⟩
        · exact ⟨s, List.mem_append_right _ hs, hstands, rfl⟩
      intro month s hs s' hs' hstands hstands'
      obtain ⟨s₀, hs₀, hstands₀, hrate₀⟩ := hback month s hs hstands
      obtain ⟨s₁, hs₁, hstands₁, hrate₁⟩ := hback month s' hs' hstands'
      rw [← hrate₀, ← hrate₁]
      exact h month s₀ hs₀ s₁ hs₁ hstands₀ hstands₁

/-! ### The credit -/

/-- What the draws took stays within what the years gave by every month from the
last one drawn for on. -/
def Covered (r : Record) : Prop :=
  ∀ month, (∀ d ∈ r.readDraws, d.month ≤ month) → used r.readDraws ≤ given month r.readYears

/-- The years that count but for the one of a reference. -/
def yearsBut (r : Record) (reference : Reference) : List YearBought :=
  (r.invoices.filter fun i => i.reference ≠ reference).filterMap r.yearOf

/-- An event that takes no credit the draws need: a withdrawal dated no earlier
than any draw, and a voided year whose credit the other years cover. -/
def KeepsCredit (r : Record) : Event → Prop
  | .withdraw _ now => ∀ d ∈ r.draws, d.drawnAt ≤ now
  | .moveInvoice reference .void =>
    ∀ month, (∀ d ∈ r.readDraws, d.month ≤ month) →
      used r.readDraws ≤ given month (r.yearsBut reference)
  | _ => True

theorem Covered.congr (h : Covered r) (hy : r'.readYears = r.readYears)
    (hd : r'.readDraws = r.readDraws) : Covered r' := by
  intro month hmonths
  rw [hd] at hmonths ⊢
  rw [hy]
  exact h month hmonths

theorem given_sublist {years years' : List YearBought} (h : years'.Sublist years) :
    given month years' ≤ given month years :=
  ((h.filter _).map _).sum_le_sum fun _ _ => Nat.zero_le _

/-- The draws a run adds to those that count. -/
theorem readDraws_withStep {tier : ManagedTier} {cents before : Nat} :
    (r.withStep now x tier cents before).readDraws = r.readDraws ++
      ((drawsOf now x tier cents before).filter fun d =>
        r.sinceTheLatestWithdrawal d.drawnAt).map (·.toCreditDrawn) := by
  show ((r.draws ++ drawsOf now x tier cents before).filter _).map _ = _
  rw [List.filter_append, List.map_append]
  rfl

/-- A run draws no more than is left of what was given by its month. -/
theorem covered_made {tier : ManagedTier} {cents before : Nat} (h : Covered r)
    (hx : r.readTheMonth now = .ok x) : Covered (r.withStep now x tier cents before) := by
  have hgiven := (creditForMonth_ok_iff.mp (readTheMonth_ok_iff.mp hx).1).1
  have hdraw := splitStep_draw_le cents x.credit.leftCents
  intro month hmonths
  rw [readYears_withStep]
  rw [readDraws_withStep] at hmonths ⊢
  unfold drawsOf at hmonths ⊢
  split at hmonths
  · rename_i hpos
    rw [if_pos hpos]
    by_cases hsince : r.sinceTheLatestWithdrawal now = true
    · have hfilter : [drawOf now x tier cents before].filter
          (fun d => r.sinceTheLatestWithdrawal d.drawnAt) = [drawOf now x tier cents before] :=
        List.filter_cons_of_pos hsince
      rw [hfilter] at hmonths ⊢
      have hnow : now.month ≤ month := hmonths _ (List.mem_append_right _ List.mem_cons_self)
      rw [used_append]
      show used r.readDraws + ((splitStep cents x.credit.leftCents).drawCents + 0) ≤ _
      have hmono := given_mono r.readYears hnow
      omega
    · have hfilter : [drawOf now x tier cents before].filter
          (fun d => r.sinceTheLatestWithdrawal d.drawnAt) = [] :=
        List.filter_cons_of_neg hsince
      rw [hfilter, List.map_nil, List.append_nil] at hmonths ⊢
      exact h month hmonths
  · rename_i hpos
    rw [if_neg hpos]
    rw [List.filter_nil, List.map_nil, List.append_nil] at hmonths ⊢
    exact h month hmonths

/-- A withdrawal dated no earlier than any draw leaves none that counts. -/
theorem readDraws_withdrawn (h : ∀ d ∈ r.draws, d.drawnAt ≤ now) :
    ({ r with withdrawals := r.withdrawals ++ [now] } : Record).readDraws = [] := by
  refine List.map_eq_nil_iff.mpr (List.filter_eq_nil_iff.mpr ?_)
  intro d hd hsince
  have hall : (r.withdrawals ++ [now]).all (fun w => decide (w < d.drawnAt)) = true := hsince
  rw [List.all_append, Bool.and_eq_true] at hall
  have hnow := of_decide_eq_true (List.all_eq_true.mp hall.2 now List.mem_cons_self)
  exact absurd (h d hd) (not_le.mpr hnow)

/-- The years that count once a reference is voided are the others. -/
theorem readYears_voided :
    (r.yearsBut reference).Sublist
      ({ r with invoices := r.invoices.map (Invoice.moveTo reference .void) } :
        Record).readYears := by
  show ((r.invoices.filter fun i => i.reference ≠ reference).filterMap r.yearOf).Sublist
    ((r.invoices.map (Invoice.moveTo reference .void)).filterMap r.yearOf)
  rw [List.filterMap_map, List.filterMap_filter]
  refine filterMap_sublist ?_
  intro i _ y hy
  by_cases href : i.reference = reference
  · simp [href] at hy
  · simp only [href, ne_eq, not_false_eq_true, decide_true, if_true] at hy
    show r.yearOf (Invoice.moveTo reference .void i) = some y
    unfold Invoice.moveTo
    rw [if_neg href]
    exact hy

theorem covered_step (hs : Writes r e r') (hk : r.KeepsCredit e) (h : Covered r) :
    Covered r' := by
  cases hs with
  | nothing e invoices draws withdrawals =>
      exact h.congr (readYears_congr invoices withdrawals) (readDraws_congr draws withdrawals)
  | made now x tier cents before reads =>
      exact covered_made (h.congr recordCurrentOccupancy_readYears
        recordCurrentOccupancy_readDraws) reads
  | year order now =>
      intro month hmonths
      rw [readYears_year, given_append]
      exact (h month hmonths).trans (Nat.le_add_right _ _)
  | withdrawn inTime now =>
      intro month _
      rw [readDraws_withdrawn hk]
      exact Nat.zero_le _
  | movedInvoice reference status may =>
      intro month hmonths
      by_cases hvoid : status = .void
      · subst hvoid
        exact (hk month hmonths).trans (given_sublist readYears_voided)
      · rw [readYears_moved hvoid may]
        exact h month hmonths

/-! ### A year's credit is conserved -/

/-- A run whose credit is refused leaves the record as it was. -/
theorem refused_of_overdrawn (h : given now.month r.readYears < used r.readDraws) :
    r.step (.openTheMonth now) = r := by
  obtain ⟨reason, hreason⟩ := creditForMonth_refuses_iff.mpr h
  have hx : (r.recordCurrentOccupancy now).readTheMonth now = .error reason := by
    refine readTheMonth_error_iff.mpr ?_
    rwa [recordCurrentOccupancy_readYears, recordCurrentOccupancy_readDraws]
  show r.orElse ((r.openTheMonth now).map (·.2)) = r
  unfold openTheMonth
  simp only [hx, bind, Except.bind]
  rfl

/-- What a history leaves of the years, the draws and the months' rates. -/
structure Conserved (es : List Event) : Prop where
  /-- The windows of the years that count: twelve months each, disjoint, and none
  before its credit. -/
  windows : Windows (({} : Record).run es)
  /-- The first step of a month that a year's window covers is at half price
  exactly when credit is left. -/
  opens : ∀ now x,
    ((({} : Record).run es).recordCurrentOccupancy now).readTheMonth now = .ok x →
    (∀ s ∈ (({} : Record).run es).readMonthSteps now.month, s.stands = false) →
    (∃ y ∈ (({} : Record).run es).readYears, y.covers now.month = true) →
      (x.rate = .half ↔ 0 < x.credit.leftCents)
  /-- And every step of the month after it is at its rate. -/
  keepsRate : OneRate (({} : Record).run es) ∧ ∀ now x,
    ((({} : Record).run es).recordCurrentOccupancy now).readTheMonth now = .ok x →
    ∀ s ∈ (({} : Record).run es).readMonthSteps now.month, s.stands = true → x.rate = s.rate
  /-- The credit is not refused, and no more is drawn than the years gave. -/
  credit : (∀ pre e post, es = pre ++ e :: post → (({} : Record).run pre).KeepsCredit e) →
    ∀ month, (∀ d ∈ (({} : Record).run es).readDraws, d.month ≤ month) →
      (∃ credit, creditForMonth month (({} : Record).run es).readYears
        (({} : Record).run es).readDraws = .ok credit) ∧
      used (({} : Record).run es).readDraws ≤
        ((({} : Record).run es).readYears.map (·.cents)).sum
  /-- A credit that is overdrawn is refused, and its run makes nothing. -/
  refusal : ∀ now, given now.month (({} : Record).run es).readYears <
    used (({} : Record).run es).readDraws →
      (∃ reason, creditForMonth now.month (({} : Record).run es).readYears
        (({} : Record).run es).readDraws = .error reason) ∧
      (({} : Record).run es).step (.openTheMonth now) = ({} : Record).run es

/-- **A year's credit is conserved**, over every history. -/
theorem credit_conserved (es : List Event) : Conserved es := by
  have hrate : OneRate (({} : Record).run es) := by
    refine run_induction (Q := fun _ _ => True) (fun hs _ h => oneRate_step hs h) es {} ?_
      (fun _ _ _ _ => trivial)
    intro month s hs
    cases hs
  refine
    { windows := ?_
      opens := ?_
      keepsRate := ⟨hrate, ?_⟩
      credit := ?_
      refusal := ?_ }
  · refine run_induction (Q := fun _ _ => True) (fun hs _ h => windows_step hs h) es {} ?_
      (fun _ _ _ _ => trivial)
    refine ⟨List.Pairwise.nil, ?_, ?_⟩
    · intro y hy
      cases hy
    · intro y hy
      cases hy
  · intro now x hx hnone hcover
    obtain ⟨hcredit, -, -, hxrate, -⟩ := readTheMonth_ok_iff.mp hx
    rw [recordCurrentOccupancy_readYears, recordCurrentOccupancy_readDraws] at hcredit
    rw [recordCurrentOccupancy_readMonthSteps, firstStepRate_eq_none_iff.mpr hnone] at hxrate
    have hyear : x.credit.yearMonth = true := by
      rw [(creditForMonth_ok_iff.mp hcredit).2]
      exact List.any_eq_true.mpr hcover
    rw [hxrate]
    exact monthRate_none_half_iff hyear
  · intro now x hx s hs hstands
    refine rate_of_stands (hrate.congr recordCurrentOccupancy_invoices
      recordCurrentOccupancy_draws) hx ?_ hstands
    rwa [recordCurrentOccupancy_readMonthSteps]
  · intro hkeeps month hmonths
    have hcovered : Covered (({} : Record).run es) := by
      refine run_induction (fun hs hk h => covered_step hs hk h) es {} ?_ hkeeps
      intro month _
      exact Nat.zero_le _
    have hle := hcovered month hmonths
    exact ⟨⟨_, if_neg (not_lt.mpr hle)⟩, hle.trans (given_le_all _ _)⟩
  · intro now h
    exact ⟨creditForMonth_refuses_iff.mpr h, refused_of_overdrawn h⟩

/-- A Medium year bought, and its first month drawn. -/
def drawnYear : List Event :=
  [.moved (640 * BYTES_PER_GB), .yes ⟨⟨.tier, .medium, 1500⟩, 12, ⟨24321, 10⟩⟩,
    .recordYear ⟨.medium, 7200, .list⟩ ⟨24321, 20⟩, .openTheMonth ⟨24321, 40⟩]

/-- The credit reads below nothing once the year is voided, for a month before the
one drawn for, and after a withdrawal dated before the draw. -/
theorem credit_refused :
    (∃ reason, creditForMonth 24321
      (({} : Record).run (drawnYear ++ [.moveInvoice (.year 1) .void])).readYears
      (({} : Record).run (drawnYear ++ [.moveInvoice (.year 1) .void])).readDraws =
        .error reason) ∧
    (∃ reason, creditForMonth 24320 (({} : Record).run drawnYear).readYears
      (({} : Record).run drawnYear).readDraws = .error reason) ∧
    ∃ reason, creditForMonth 24321
      (({} : Record).run (drawnYear ++ [.withdraw true ⟨24321, 30⟩])).readYears
      (({} : Record).run (drawnYear ++ [.withdraw true ⟨24321, 30⟩])).readDraws =
        .error reason := by
  refine ⟨?_, ?_, ?_⟩
  · exact creditForMonth_refuses_iff.mpr (by decide)
  · exact creditForMonth_refuses_iff.mpr (by decide)
  · exact creditForMonth_refuses_iff.mpr (by decide)

end Record

end Ownpace.Billing
