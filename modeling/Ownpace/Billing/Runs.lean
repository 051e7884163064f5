/-
Ownpace/Billing/Runs.lean

What one run of a month does to the record, and what the other events leave of
the month's steps.

A run that is not refused either makes nothing or makes one step: a draw of
what the credit covers and a draft of the rest, each only when there is any
(`openTheMonth_cases`).  The step names a tier above every step of the month,
so neither unique key is ever in its way.
-/
import Ownpace.Billing.Record

namespace Ownpace.Billing

namespace Record

variable {r r' : Record} {now : Instant} {x : MonthReading} {month : Nat}
variable {tier : ManagedTier} {cents before : Nat}

/-! ### The true-up writes the peak alone -/

@[simp] theorem recordCurrentOccupancy_invoices :
    (r.recordCurrentOccupancy now).invoices = r.invoices := by
  unfold recordCurrentOccupancy
  split_ifs <;> rfl

@[simp] theorem recordCurrentOccupancy_draws :
    (r.recordCurrentOccupancy now).draws = r.draws := by
  unfold recordCurrentOccupancy
  split_ifs <;> rfl

@[simp] theorem recordCurrentOccupancy_withdrawals :
    (r.recordCurrentOccupancy now).withdrawals = r.withdrawals := by
  unfold recordCurrentOccupancy
  split_ifs <;> rfl

/-- What is read of the invoices, the draws and the withdrawals alone. -/
theorem yearOf_congr (h : r'.withdrawals = r.withdrawals) : r'.yearOf = r.yearOf := by
  funext i
  unfold yearOf sinceTheLatestWithdrawal
  rw [h]

theorem readYears_congr (hi : r'.invoices = r.invoices) (hw : r'.withdrawals = r.withdrawals) :
    r'.readYears = r.readYears := by
  unfold readYears
  rw [hi, yearOf_congr hw]

theorem readDraws_congr (hd : r'.draws = r.draws) (hw : r'.withdrawals = r.withdrawals) :
    r'.readDraws = r.readDraws := by
  unfold readDraws sinceTheLatestWithdrawal
  rw [hd, hw]

theorem readMonthSteps_congr (hi : r'.invoices = r.invoices) (hd : r'.draws = r.draws) :
    r'.readMonthSteps month = r.readMonthSteps month := by
  unfold readMonthSteps
  rw [hi, hd]

@[simp] theorem recordCurrentOccupancy_readMonthSteps :
    (r.recordCurrentOccupancy now).readMonthSteps month = r.readMonthSteps month :=
  readMonthSteps_congr recordCurrentOccupancy_invoices recordCurrentOccupancy_draws

@[simp] theorem recordCurrentOccupancy_readYears :
    (r.recordCurrentOccupancy now).readYears = r.readYears :=
  readYears_congr recordCurrentOccupancy_invoices recordCurrentOccupancy_withdrawals

@[simp] theorem recordCurrentOccupancy_readDraws :
    (r.recordCurrentOccupancy now).readDraws = r.readDraws :=
  readDraws_congr recordCurrentOccupancy_draws recordCurrentOccupancy_withdrawals

/-! ### What a run reads -/

theorem readTheMonth_ok_iff :
    r.readTheMonth now = .ok x ↔
      creditForMonth now.month r.readYears r.readDraws = .ok x.credit ∧
        x.state = r.readBilledNow now ∧
        x.price = priceOfTier x.tier (r.readAgreedPrices now) ∧
        x.rate = monthRate (firstStepRate (r.readMonthSteps now.month)) x.credit ∧
        x.decision = decideMonthStep x.tier (atRate x.price.cents x.rate)
          (r.readMonthSteps now.month) := by
  unfold readTheMonth
  obtain ⟨state, price, credit, rate, decision⟩ := x
  rcases e : creditForMonth now.month r.readYears r.readDraws with reason | c
  · constructor
    · intro h
      cases h
    · rintro ⟨h, -⟩
      cases h
  · constructor
    · intro h
      cases h
      exact ⟨rfl, rfl, rfl, rfl, rfl⟩
    · rintro ⟨hc, hs, hp, hr, hd⟩
      dsimp only [MonthReading.tier] at hs hp hr hd
      cases hc
      subst hs hp hr hd
      rfl

/-- A run is refused exactly when its credit is. -/
theorem readTheMonth_error_iff {reason : String} :
    r.readTheMonth now = .error reason ↔
      creditForMonth now.month r.readYears r.readDraws = .error reason := by
  unfold readTheMonth
  rcases e : creditForMonth now.month r.readYears r.readDraws with reason' | c
  · simp only [bind, Except.bind]
    exact Iff.of_eq (by simp only [Except.error.injEq])
  · constructor
    · intro h
      cases h
    · intro h
      cases h

/-! ### What a run makes -/

/-- The draw of a step, when the credit covers any of it. -/
def drawsOf (now : Instant) (x : MonthReading) (tier : ManagedTier) (cents before : Nat) :
    List CreditDraw :=
  if 0 < (splitStep cents x.credit.leftCents).drawCents then [drawOf now x tier cents before]
  else []

/-- The draft of a step, when the credit does not cover all of it. -/
def invoicesOf (now : Instant) (x : MonthReading) (tier : ManagedTier) (cents before : Nat) :
    List Invoice :=
  if 0 < (splitStep cents x.credit.leftCents).invoiceCents then
    [invoiceOf now x tier cents before]
  else []

/-- The record with the step made. -/
def withStep (r : Record) (now : Instant) (x : MonthReading) (tier : ManagedTier)
    (cents before : Nat) : Record :=
  { r with
    draws := r.draws ++ drawsOf now x tier cents before
    invoices := r.invoices ++ invoicesOf now x tier cents before }

def stepOutcome (now : Instant) (x : MonthReading) (tier : ManagedTier) (cents : Nat) :
    MonthOutcome :=
  let split := splitStep cents x.credit.leftCents
  if split.invoiceCents = 0 then .drawn tier split.drawCents
  else .made (.month now.month tier) tier split.invoiceCents
    (if 0 < split.drawCents then some split.drawCents else none)

/-- A tier above every step of the month has no draw of the month. -/
theorem no_draw_above (h : highestPlace (r.readMonthSteps month) < placeOf tier) :
    ∀ d ∈ r.draws, ¬ (d.month = month ∧ d.tierId = tier) := by
  rintro d hd ⟨rfl, rfl⟩
  have hs : (⟨d.tierId, d.cents, .drawn, d.rate, d.drawnAt⟩ : MonthStep) ∈
      r.readMonthSteps d.month := by
    refine List.mem_append_right _ (List.mem_filterMap.mpr ⟨d, hd, ?_⟩)
    exact if_pos rfl
  exact absurd (le_highestPlace hs) (not_le.mpr h)

/-- A tier above every step of the month has no invoice of the month. -/
theorem no_invoice_above (h : highestPlace (r.readMonthSteps month) < placeOf tier) :
    ∀ i ∈ r.invoices, i.reference ≠ .month month tier := by
  rintro ⟨status, createdAt, document⟩ hi href
  rcases document with ⟨m, t, e⟩ | ⟨n, e⟩
  · obtain ⟨rfl, rfl⟩ := Reference.month.inj href
    have hs : (⟨t, e.cents, .invoice status, e.rate.getD .full, e.madeAt⟩ : MonthStep) ∈
        r.readMonthSteps m := by
      refine List.mem_append_left _ (List.mem_filterMap.mpr ⟨_, hi, ?_⟩)
      exact if_pos rfl
    exact absurd (le_highestPlace hs) (not_le.mpr h)
  · cases href

theorem insertDraw_ok {d : CreditDraw}
    (h : ∀ d' ∈ r.draws, ¬ (d'.month = d.month ∧ d'.tierId = d.tierId)) :
    r.insertDraw d = .ok { r with draws := r.draws ++ [d] } := by
  unfold insertDraw
  rw [if_neg]
  simpa using h

theorem insertInvoice_some {i : Invoice} (h : ∀ i' ∈ r.invoices, i'.reference ≠ i.reference) :
    r.insertInvoice i = some { r with invoices := r.invoices ++ [i] } := by
  unfold insertInvoice
  rw [if_neg]
  simpa using h

/-- A step for a tier above the month's steps is made whole. -/
theorem makeTheStep_eq (hpos : 0 < cents)
    (h : highestPlace (r.readMonthSteps now.month) < placeOf tier) :
    r.makeTheStep now x tier cents before =
      .ok (stepOutcome now x tier cents, r.withStep now x tier cents before) := by
  have hadds := splitStep_adds cents x.credit.leftCents
  have hdraw : ∀ d' ∈ r.draws, ¬ (d'.month = (drawOf now x tier cents before).month ∧
      d'.tierId = (drawOf now x tier cents before).tierId) := no_draw_above h
  have hinvoice : ∀ i' ∈ r.invoices,
      i'.reference ≠ (invoiceOf now x tier cents before).reference := no_invoice_above h
  unfold makeTheStep stepOutcome withStep drawsOf invoicesOf
  by_cases hd : 0 < (splitStep cents x.credit.leftCents).drawCents
  · simp only [hd, if_true, true_and, insertDraw_ok hdraw, bind, Except.bind]
    by_cases hi : (splitStep cents x.credit.leftCents).invoiceCents = 0
    · simp only [hi, lt_irrefl, if_true, if_false, List.append_nil]
    · have hi' : 0 < (splitStep cents x.credit.leftCents).invoiceCents := Nat.pos_of_ne_zero hi
      have hins := insertInvoice_some
        (r := { r with draws := r.draws ++ [drawOf now x tier cents before] }) hinvoice
      simp only [hi, hi', if_true, if_false, hins]
  · have hi : (splitStep cents x.credit.leftCents).invoiceCents ≠ 0 := by omega
    have hi' : 0 < (splitStep cents x.credit.leftCents).invoiceCents := Nat.pos_of_ne_zero hi
    simp only [hd, hi, hi', if_true, if_false, false_and, List.append_nil, bind, Except.bind,
      insertInvoice_some hinvoice]

/-- What a run that is not refused does: nothing, or one step. -/
theorem openTheMonth_cases {outcome : MonthOutcome}
    (h : r.openTheMonth now = .ok (outcome, r')) :
    ∃ x, (r.recordCurrentOccupancy now).readTheMonth now = .ok x ∧
      ((∀ t c b a, x.decision ≠ .step t c b a) ∧ r' = r.recordCurrentOccupancy now ∨
        ∃ t c b a, x.decision = .step t c b a ∧ outcome = stepOutcome now x t c ∧
          r' = (r.recordCurrentOccupancy now).withStep now x t c b) := by
  unfold openTheMonth at h
  rcases e : (r.recordCurrentOccupancy now).readTheMonth now with reason | x
  · simp only [e] at h
    cases h
  · refine ⟨x, rfl, ?_⟩
    simp only [e] at h
    rcases hd : x.decision with - | - | - | ⟨t, c, b, a⟩
    · simp only [hd, bind, Except.bind] at h
      cases h
      exact Or.inl ⟨fun _ _ _ _ h => (by cases h), rfl⟩
    · simp only [hd, bind, Except.bind] at h
      cases h
      exact Or.inl ⟨fun _ _ _ _ h => (by cases h), rfl⟩
    · simp only [hd, bind, Except.bind] at h
      cases h
      exact Or.inl ⟨fun _ _ _ _ h => (by cases h), rfl⟩
    · simp only [hd, bind, Except.bind] at h
      have hdec : decideMonthStep x.tier (atRate x.price.cents x.rate)
          ((r.recordCurrentOccupancy now).readMonthSteps now.month) = .step t c b a := by
        rw [← hd]
        exact (readTheMonth_ok_iff.mp e).2.2.2.2.symm
      obtain ⟨⟨habove, -, -⟩, rfl, -⟩ := decideMonthStep_eq_step_iff.mp hdec
      rw [makeTheStep_eq (step_pos hdec) habove] at h
      cases h
      exact Or.inr ⟨_, _, _, _, rfl, rfl, rfl⟩

/-- A run that reads its month is not refused. -/
theorem openTheMonth_of_reads (h : (r.recordCurrentOccupancy now).readTheMonth now = .ok x) :
    ∃ outcome r', r.openTheMonth now = .ok (outcome, r') := by
  unfold openTheMonth
  simp only [h, bind, Except.bind]
  rcases hd : x.decision with - | - | - | ⟨t, c, b, a⟩
  · exact ⟨_, _, rfl⟩
  · exact ⟨_, _, rfl⟩
  · exact ⟨_, _, rfl⟩
  · have hdec : decideMonthStep x.tier (atRate x.price.cents x.rate)
        ((r.recordCurrentOccupancy now).readMonthSteps now.month) = .step t c b a := by
      rw [← hd]
      exact (readTheMonth_ok_iff.mp h).2.2.2.2.symm
    obtain ⟨⟨habove, -, -⟩, rfl, -⟩ := decideMonthStep_eq_step_iff.mp hdec
    exact ⟨_, _, makeTheStep_eq (step_pos hdec) habove⟩

/-! ### The steps a run adds -/

/-- A step's rows, as steps of their month. -/
def newSteps (now : Instant) (x : MonthReading) (tier : ManagedTier) (cents before : Nat) :
    List MonthStep :=
  (invoicesOf now x tier cents before).filterMap (invoicedStep now.month) ++
    (drawsOf now x tier cents before).filterMap (drawnStep now.month)

theorem mem_newSteps {s : MonthStep} (h : s ∈ newSteps now x tier cents before) :
    s.tierId = tier ∧ s.rate = x.rate ∧ s.stands = true ∧ s.madeAt = now ∧ 0 < s.cents := by
  rcases List.mem_append.mp h with h | h
  · unfold invoicesOf at h
    split at h
    · rename_i hpos
      simp only [List.filterMap_cons, List.filterMap_nil, invoicedStep, invoiceOf, if_true,
        List.mem_singleton] at h
      subst h
      exact ⟨rfl, rfl, rfl, rfl, hpos⟩
    · cases h
  · unfold drawsOf at h
    split at h
    · rename_i hpos
      simp only [List.filterMap_cons, List.filterMap_nil, drawnStep, drawOf, if_true,
        List.mem_singleton] at h
      subst h
      exact ⟨rfl, rfl, rfl, rfl, hpos⟩
    · cases h

theorem askedCents_newSteps (now : Instant) (x : MonthReading) (tier : ManagedTier)
    (cents before : Nat) : askedCents (newSteps now x tier cents before) = cents := by
  have hadds := splitStep_adds cents x.credit.leftCents
  unfold newSteps
  rw [askedCents_append]
  have hinvoice : askedCents ((invoicesOf now x tier cents before).filterMap
      (invoicedStep now.month)) = (splitStep cents x.credit.leftCents).invoiceCents := by
    unfold invoicesOf
    split
    · simp [invoicedStep, invoiceOf, askedCents, MonthStep.stands]
    · rename_i h
      simp only [List.filterMap_nil, askedCents, List.filter_nil, List.map_nil, List.sum_nil]
      omega
  have hdraw : askedCents ((drawsOf now x tier cents before).filterMap
      (drawnStep now.month)) = (splitStep cents x.credit.leftCents).drawCents := by
    unfold drawsOf
    split
    · simp [drawnStep, drawOf, askedCents, MonthStep.stands]
    · rename_i h
      simp only [List.filterMap_nil, askedCents, List.filter_nil, List.map_nil, List.sum_nil]
      omega
  omega

theorem readMonthSteps_withStep_perm :
    ((r.withStep now x tier cents before).readMonthSteps now.month).Perm
      (r.readMonthSteps now.month ++ newSteps now x tier cents before) := by
  unfold readMonthSteps withStep newSteps
  rw [List.filterMap_append, List.filterMap_append]
  have hswap : ∀ a b c d : List MonthStep, ((a ++ b) ++ (c ++ d)).Perm ((a ++ c) ++ (b ++ d)) := by
    intro a b c d
    simp only [List.append_assoc]
    refine List.Perm.append_left a ?_
    simp only [← List.append_assoc]
    exact List.perm_append_comm.append_right d
  exact hswap _ _ _ _

theorem mem_readMonthSteps_withStep {s : MonthStep} :
    s ∈ (r.withStep now x tier cents before).readMonthSteps now.month ↔
      s ∈ r.readMonthSteps now.month ∨ s ∈ newSteps now x tier cents before := by
  rw [readMonthSteps_withStep_perm.mem_iff, List.mem_append]

theorem askedCents_perm {a b : List MonthStep} (h : a.Perm b) : askedCents a = askedCents b :=
  ((h.filter _).map _).sum_eq

theorem askedCents_withStep :
    askedCents ((r.withStep now x tier cents before).readMonthSteps now.month) =
      askedCents (r.readMonthSteps now.month) + cents := by
  rw [askedCents_perm readMonthSteps_withStep_perm, askedCents_append, askedCents_newSteps]

theorem newSteps_ne_nil (now : Instant) (x : MonthReading) (tier : ManagedTier) (before : Nat)
    (hpos : 0 < cents) : newSteps now x tier cents before ≠ [] := by
  intro h
  have hasked := askedCents_newSteps now x tier cents before
  rw [h] at hasked
  exact absurd hasked.symm hpos.ne'

/-- The step is the month's highest. -/
theorem highestPlace_withStep (hpos : 0 < cents)
    (h : highestPlace (r.readMonthSteps now.month) < placeOf tier) :
    highestPlace ((r.withStep now x tier cents before).readMonthSteps now.month) =
      placeOf tier := by
  refine le_antisymm ?_ ?_
  · refine Int.lt_add_one_iff.mp (highestPlace_lt (by omega) ?_)
    intro s hs
    rcases mem_readMonthSteps_withStep.mp hs with hs | hs
    · have hle := le_highestPlace hs
      omega
    · rw [(mem_newSteps hs).1]
      omega
  · obtain ⟨s, hs⟩ := List.exists_mem_of_ne_nil _ (newSteps_ne_nil now x tier before hpos)
    have hle := le_highestPlace (mem_readMonthSteps_withStep (r := r).mpr (Or.inr hs))
    rwa [(mem_newSteps hs).1] at hle

/-- A step of one month is none of another. -/
theorem readMonthSteps_withStep_other (h : month ≠ now.month) :
    (r.withStep now x tier cents before).readMonthSteps month = r.readMonthSteps month := by
  have hinvoices : (invoicesOf now x tier cents before).filterMap (invoicedStep month) = [] := by
    unfold invoicesOf
    split
    · simp [invoicedStep, invoiceOf, Ne.symm h]
    · rfl
  have hdraws : (drawsOf now x tier cents before).filterMap (drawnStep month) = [] := by
    unfold drawsOf
    split
    · simp [drawnStep, drawOf, Ne.symm h]
    · rfl
  unfold readMonthSteps withStep
  rw [List.filterMap_append, List.filterMap_append, hinvoices, hdraws, List.append_nil,
    List.append_nil]

/-! ### What the other events leave -/

/-- A year bought is no step of a month. -/
theorem filterMap_year (l : List Invoice) (status : InvoiceStatus)
    (createdAt : Instant) (n : Nat) (ev : YearEvidence) :
    (l ++ [(⟨status, createdAt, .year n ev⟩ : Invoice)]).filterMap (invoicedStep month) =
      l.filterMap (invoicedStep month) := by
  rw [List.filterMap_append]
  exact List.append_nil _

/-- An invoice moved along asks what it asked. -/
theorem invoicedStep_moveTo {reference : Reference} {status : InvoiceStatus} {i : Invoice}
    {s : MonthStep} (h : invoicedStep month (Invoice.moveTo reference status i) = some s) :
    ∃ s₀, invoicedStep month i = some s₀ ∧ s.cents = s₀.cents := by
  unfold Invoice.moveTo at h
  split at h
  · obtain ⟨old, createdAt, document⟩ := i
    rcases document with ⟨m, t, ev⟩ | ⟨n, ev⟩
    · unfold invoicedStep at h ⊢
      dsimp only at h ⊢
      split at h
      · rename_i hm
        cases h
        exact ⟨_, if_pos hm, rfl⟩
      · cases h
    · cases h
  · exact ⟨s, h, rfl⟩

theorem recordYear_cases {order : YearOrder} (h : r.recordYear order now = .ok r') :
    order.tier ≠ .free ∧ 0 < order.cents ∧
      r' = { r with invoices := r.invoices ++ [⟨.draft, now, .year (r.yearsEverBought + 1)
        ⟨order.tier, order.cents, order.priceFrom, r.readYearPlacement now, now⟩⟩] } := by
  unfold recordYear at h
  split at h
  · cases h
  · rename_i hfree
    split at h
    · cases h
    · rename_i hcents
      refine ⟨hfree, Nat.pos_of_ne_zero hcents, ?_⟩
      unfold insertInvoice at h
      dsimp only at h
      split_ifs at h
      cases h
      rfl

theorem withdraw_cases {inTime : Bool} {outcome : WithdrawOutcome}
    (h : r.withdraw inTime now = .ok (outcome, r')) :
    r' = r ∨ r' = { r with withdrawals := r.withdrawals ++ [now] } := by
  unfold withdraw at h
  split at h
  · cases h
    exact Or.inl rfl
  · split_ifs at h
    · cases h
      exact Or.inl rfl
    · cases h
      exact Or.inr rfl

theorem moveInvoice_cases {reference : Reference} {status : InvoiceStatus}
    (h : r.moveInvoice reference status = .ok r') :
    (∀ i ∈ r.invoices, i.reference = reference → mayMove i.status status = true) ∧
      r' = { r with invoices := r.invoices.map (Invoice.moveTo reference status) } := by
  unfold moveInvoice at h
  split_ifs at h with hall
  · cases h
    refine ⟨?_, rfl⟩
    intro i hi href
    have hi' := List.all_eq_true.mp hall i hi
    simpa [href] using hi'

/-- A void invoice stays void. -/
theorem not_void_of_mayMove {old new : InvoiceStatus} (h : mayMove old new = true)
    (hnew : new ≠ .void) : old ≠ .void := by
  rintro rfl
  cases new <;> first | exact hnew rfl | cases h

/-- A step that stands after its invoice moved stood before, at the same rate. -/
theorem invoicedStep_moveTo_stands {reference : Reference} {status : InvoiceStatus} {i : Invoice}
    {s : MonthStep} (hmay : i.reference = reference → mayMove i.status status = true)
    (h : invoicedStep month (Invoice.moveTo reference status i) = some s)
    (hs : s.stands = true) :
    ∃ s₀, invoicedStep month i = some s₀ ∧ s₀.stands = true ∧ s₀.rate = s.rate := by
  unfold Invoice.moveTo at h
  split at h
  · rename_i href
    obtain ⟨old, createdAt, document⟩ := i
    rcases document with ⟨m, t, ev⟩ | ⟨n, ev⟩
    · unfold invoicedStep at h ⊢
      dsimp only at h ⊢
      split at h
      · rename_i hm
        cases h
        have hnew : status ≠ .void := by simpa [MonthStep.stands] using hs
        have hold : old ≠ .void := not_void_of_mayMove (hmay href) hnew
        exact ⟨_, if_pos hm, by simpa [MonthStep.stands] using hold, rfl⟩
      · cases h
    · cases h
  · exact ⟨s, h, hs, rfl⟩

/-- What one event does to the record: nothing at all, or what its transaction
writes. -/
inductive Stepped (r : Record) : Event → Record → Prop
  | refused (e : Event)
      (unread : ∀ now x, e = .openTheMonth now →
        (r.recordCurrentOccupancy now).readTheMonth now ≠ .ok x) : Stepped r e r
  | yes (grant : Grant) : Stepped r (.yes grant) { r with grants := r.grants ++ [grant] }
  | pick (pick : Pick) : Stepped r (.pick pick) { r with picks := r.picks ++ [pick] }
  | held (slots : Nat) (now : Instant) (peaks : Nat → Option OccupancyPeak) :
      Stepped r (.paths slots now) { r with slotsHeld := slots, peaks }
  | moved (bytes : Nat) : Stepped r (.moved bytes) { r with counted := r.counted + bytes }
  | year (order : YearOrder) (now : Instant) (free : order.tier ≠ .free) (pos : 0 < order.cents) :
      Stepped r (.recordYear order now)
        { r with invoices := r.invoices ++ [⟨.draft, now, .year (r.yearsEverBought + 1)
          ⟨order.tier, order.cents, order.priceFrom, r.readYearPlacement now, now⟩⟩] }
  | quiet (now : Instant) (x : MonthReading)
      (reads : (r.recordCurrentOccupancy now).readTheMonth now = .ok x)
      (unmoved : ∀ t c b a, x.decision ≠ .step t c b a) :
      Stepped r (.openTheMonth now) (r.recordCurrentOccupancy now)
  | made (now : Instant) (x : MonthReading) (tier : ManagedTier) (cents before : Nat)
      (after : Option ManagedTier)
      (reads : (r.recordCurrentOccupancy now).readTheMonth now = .ok x)
      (decided : x.decision = .step tier cents before after) :
      Stepped r (.openTheMonth now)
        ((r.recordCurrentOccupancy now).withStep now x tier cents before)
  | withdrawn (inTime : Bool) (now : Instant) :
      Stepped r (.withdraw inTime now) { r with withdrawals := r.withdrawals ++ [now] }
  | movedInvoice (reference : Reference) (status : InvoiceStatus)
      (may : ∀ i ∈ r.invoices, i.reference = reference → mayMove i.status status = true) :
      Stepped r (.moveInvoice reference status)
        { r with invoices := r.invoices.map (Invoice.moveTo reference status) }

theorem step_stepped (r : Record) (e : Event) : Stepped r e (r.step e) := by
  cases e with
  | yes grant => exact .yes grant
  | pick pick => exact .pick pick
  | paths slots now =>
      unfold step
      dsimp only
      split
      · unfold recordCurrentOccupancy
        split_ifs
        · exact .held slots now r.peaks
        · exact .held slots now _
        · exact .held slots now r.peaks
      · exact .held slots now r.peaks
  | moved bytes => exact .moved bytes
  | recordYear order now =>
      show Stepped r _ (r.orElse (r.recordYear order now))
      rcases h : r.recordYear order now with reason | r'
      · exact .refused _ fun _ _ h => (by cases h)
      · obtain ⟨hfree, hpos, rfl⟩ := recordYear_cases h
        exact .year order now hfree hpos
  | openTheMonth now =>
      show Stepped r _ (r.orElse ((r.openTheMonth now).map (·.2)))
      rcases h : r.openTheMonth now with reason | ⟨outcome, r'⟩
      · refine .refused _ ?_
        rintro now' x ⟨⟩ hx
        obtain ⟨outcome, r', hok⟩ := openTheMonth_of_reads hx
        rw [h] at hok
        cases hok
      · obtain ⟨x, hx, ⟨hquiet, rfl⟩ | ⟨t, c, b, a, hd, -, rfl⟩⟩ := openTheMonth_cases h
        · exact .quiet now x hx hquiet
        · exact .made now x t c b a hx hd
  | withdraw inTime now =>
      show Stepped r _ (r.orElse ((r.withdraw inTime now).map (·.2)))
      rcases h : r.withdraw inTime now with reason | ⟨outcome, r'⟩
      · exact .refused _ fun _ _ h => (by cases h)
      · obtain rfl | rfl := withdraw_cases h
        · exact .refused _ fun _ _ h => (by cases h)
        · exact .withdrawn inTime now
  | moveInvoice reference status =>
      show Stepped r _ (r.orElse (r.moveInvoice reference status))
      rcases h : r.moveInvoice reference status with reason | r'
      · exact .refused _ fun _ _ h => (by cases h)
      · obtain ⟨hmay, rfl⟩ := moveInvoice_cases h
        exact .movedInvoice reference status hmay

/-- What one event writes of the invoices, the draws and the withdrawals. -/
inductive Writes (r : Record) : Event → Record → Prop
  | nothing (e : Event) {r' : Record} (invoices : r'.invoices = r.invoices)
      (draws : r'.draws = r.draws) (withdrawals : r'.withdrawals = r.withdrawals) : Writes r e r'
  | year (order : YearOrder) (now : Instant) :
      Writes r (.recordYear order now)
        { r with invoices := r.invoices ++ [⟨.draft, now, .year (r.yearsEverBought + 1)
          ⟨order.tier, order.cents, order.priceFrom, r.readYearPlacement now, now⟩⟩] }
  | made (now : Instant) (x : MonthReading) (tier : ManagedTier) (cents before : Nat)
      (reads : (r.recordCurrentOccupancy now).readTheMonth now = .ok x) :
      Writes r (.openTheMonth now)
        ((r.recordCurrentOccupancy now).withStep now x tier cents before)
  | withdrawn (inTime : Bool) (now : Instant) :
      Writes r (.withdraw inTime now) { r with withdrawals := r.withdrawals ++ [now] }
  | movedInvoice (reference : Reference) (status : InvoiceStatus)
      (may : ∀ i ∈ r.invoices, i.reference = reference → mayMove i.status status = true) :
      Writes r (.moveInvoice reference status)
        { r with invoices := r.invoices.map (Invoice.moveTo reference status) }

theorem step_writes (r : Record) (e : Event) : Writes r e (r.step e) := by
  have hs := step_stepped r e
  generalize r.step e = r' at hs
  cases hs with
  | refused e unread => exact .nothing e rfl rfl rfl
  | yes grant => exact .nothing _ rfl rfl rfl
  | pick pick => exact .nothing _ rfl rfl rfl
  | held slots now peaks => exact .nothing _ rfl rfl rfl
  | moved bytes => exact .nothing _ rfl rfl rfl
  | year order now free pos => exact .year order now
  | quiet now x reads unmoved =>
      exact .nothing _ recordCurrentOccupancy_invoices recordCurrentOccupancy_draws
        recordCurrentOccupancy_withdrawals
  | made now x tier cents before after reads decided => exact .made now x tier cents before reads
  | withdrawn inTime now => exact .withdrawn inTime now
  | movedInvoice reference status may => exact .movedInvoice reference status may

/-- What every event keeps holds after every history of such events. -/
theorem run_induction {P : Record → Prop} {Q : Record → Event → Prop}
    (hstep : ∀ {r e r'}, Writes r e r' → Q r e → P r → P r') :
    ∀ (es : List Event) (r : Record), P r →
      (∀ pre e post, es = pre ++ e :: post → Q (r.run pre) e) → P (r.run es)
  | [], _, h, _ => h
  | e :: es, r, h, hQ =>
      run_induction hstep es (r.step e) (hstep (step_writes r e) (hQ [] e es rfl) h)
        fun pre e' post hes => hQ (e :: pre) e' post (by rw [hes]; rfl)

end Record

end Ownpace.Billing
