/-
Ownpace/Billing/Withdrawn.lean

A withdrawal starts a new contract, and what the month's steps of the old one do
to it.

The yeses, the picks, the years and the draws are read since the latest
withdrawal.  The month's steps are not: they are read by month and tier alone,
and so is the reference an invoice takes.  A run that bills the new contract
makes the step it would have made had the earlier ones never been made exactly
when they are all void and below it, or when it makes none either way
(`starts_afresh_iff`).
-/
import Ownpace.Billing.Runs

namespace Ownpace.Billing

namespace Record

/-- The rows a run adds to the record: its draws and its invoices. -/
def added (r : Record) (now : Instant) : List CreditDraw × List Invoice :=
  let r' := r.step (.openTheMonth now)
  (r'.draws.drop r.draws.length, r'.invoices.drop r.invoices.length)

/-- A row of the month's steps, made before the latest withdrawal. -/
def earlierInvoice (r : Record) (month : Nat) (i : Invoice) : Bool :=
  (invoicedStep month i).any fun s => !r.sinceTheLatestWithdrawal s.madeAt

def earlierDraw (r : Record) (month : Nat) (d : CreditDraw) : Bool :=
  (drawnStep month d).any fun s => !r.sinceTheLatestWithdrawal s.madeAt

/-- The record had the month's steps from before the latest withdrawal never
been made. -/
def withoutEarlierSteps (r : Record) (month : Nat) : Record :=
  { r with
    invoices := r.invoices.filter fun i => !r.earlierInvoice month i
    draws := r.draws.filter fun d => !r.earlierDraw month d }

/-- What a run of the month bills. -/
def billedTier (r : Record) (now : Instant) : ManagedTier :=
  ((r.recordCurrentOccupancy now).readBilledNow now).billed.tier

/-- Nothing of the month stands in for what the run bills: the steps so far are
void and below it.  Or there is nothing to make: the credit is refused, or the
month bills Free or a tier agreed at nothing. -/
def NothingStandsIn (r : Record) (now : Instant) : Prop :=
  (∀ s ∈ r.readMonthSteps now.month,
      s.stands = false ∧ placeOf s.tierId < placeOf (r.billedTier now)) ∨
    given now.month r.readYears < used r.readDraws ∨
    r.billedTier now = .free ∨
    (priceOfTier (r.billedTier now)
      ((r.recordCurrentOccupancy now).readAgreedPrices now)).cents = 0

variable {r r' : Record} {now : Instant} {x : MonthReading} {month : Nat} {e : Event}

/-! ### Every step asks something -/

def StepsAsk (r : Record) : Prop :=
  ∀ month, ∀ s ∈ r.readMonthSteps month, 0 < s.cents

theorem StepsAsk.congr (h : StepsAsk r) (hi : r'.invoices = r.invoices)
    (hd : r'.draws = r.draws) : StepsAsk r' := by
  intro month s hs
  rw [readMonthSteps_congr hi hd] at hs
  exact h month s hs

theorem stepsAsk_step (hs : Writes r e r') (h : StepsAsk r) : StepsAsk r' := by
  cases hs with
  | nothing e invoices draws withdrawals => exact h.congr invoices draws
  | withdrawn inTime now => exact h.congr rfl rfl
  | year order now =>
      intro month s hs
      unfold readMonthSteps at hs
      rw [filterMap_year] at hs
      exact h month s hs
  | made now x tier cents before reads =>
      have h' : StepsAsk (r.recordCurrentOccupancy now) :=
        h.congr recordCurrentOccupancy_invoices recordCurrentOccupancy_draws
      intro month s hs
      by_cases hmonth : month = now.month
      · subst hmonth
        rcases mem_readMonthSteps_withStep.mp hs with hs | hs
        · exact h' _ s hs
        · exact (mem_newSteps hs).2.2.2.2
      · rw [readMonthSteps_withStep_other hmonth] at hs
        exact h' month s hs
  | movedInvoice reference status may =>
      intro month s hs
      rcases List.mem_append.mp hs with hs | hs
      · obtain ⟨i, hi, hstep⟩ := List.mem_filterMap.mp hs
        obtain ⟨i₀, hi₀, rfl⟩ := List.mem_map.mp hi
        obtain ⟨s₀, hs₀, hcents⟩ := invoicedStep_moveTo hstep
        have hpos := h month s₀ (List.mem_append_left _ (List.mem_filterMap.mpr ⟨i₀, hi₀, hs₀⟩))
        rwa [hcents]
      · exact h month s (List.mem_append_right _ hs)

theorem stepsAsk_run (es : List Event) : StepsAsk (({} : Record).run es) := by
  refine run_induction (Q := fun _ _ => True) (fun hs _ h => stepsAsk_step hs h) es {} ?_
    (fun _ _ _ _ => trivial)
  intro month s hs
  cases hs

/-! ### What a run adds -/

theorem added_of_step {tier : ManagedTier} {cents before : Nat} {after : Option ManagedTier}
    (hx : (r.recordCurrentOccupancy now).readTheMonth now = .ok x)
    (hd : x.decision = .step tier cents before after) :
    r.added now = (drawsOf now x tier cents before, invoicesOf now x tier cents before) := by
  obtain ⟨outcome, r', hok⟩ := openTheMonth_of_reads hx
  obtain ⟨y, hy, ⟨hquiet, -⟩ | ⟨t, c, b, a, hd', -, rfl⟩⟩ := openTheMonth_cases hok
  · rw [hx] at hy
    cases hy
    exact absurd hd (hquiet _ _ _ _)
  · rw [hx] at hy
    cases hy
    rw [hd] at hd'
    cases hd'
    have hstep : r.step (.openTheMonth now) =
        (r.recordCurrentOccupancy now).withStep now x tier cents before := by
      show r.orElse ((r.openTheMonth now).map (·.2)) = _
      rw [hok]
      rfl
    unfold added
    rw [hstep]
    unfold withStep
    dsimp only
    rw [recordCurrentOccupancy_draws, recordCurrentOccupancy_invoices, List.drop_left,
      List.drop_left]

theorem added_of_no_step (h : ∀ x, (r.recordCurrentOccupancy now).readTheMonth now = .ok x →
    ∀ t c b a, x.decision ≠ .step t c b a) : r.added now = ([], []) := by
  have hrows : (r.step (.openTheMonth now)).draws = r.draws ∧
      (r.step (.openTheMonth now)).invoices = r.invoices := by
    have hs := step_stepped r (.openTheMonth now)
    generalize r.step (.openTheMonth now) = r' at hs
    cases hs with
    | refused e unread => exact ⟨rfl, rfl⟩
    | quiet now x reads unmoved =>
        exact ⟨recordCurrentOccupancy_draws, recordCurrentOccupancy_invoices⟩
    | made now x tier cents before after reads decided =>
        exact absurd decided (h x reads _ _ _ _)
  unfold added
  dsimp only
  rw [hrows.1, hrows.2, List.drop_length, List.drop_length]

/-- A step adds a row, and each row quotes what was asked before it. -/
theorem added_before {tier : ManagedTier} {cents before : Nat} {y : MonthReading}
    {tier' : ManagedTier} {cents' before' : Nat} (hpos : 0 < cents)
    (h : (drawsOf now x tier cents before, invoicesOf now x tier cents before) =
      (drawsOf now y tier' cents' before', invoicesOf now y tier' cents' before')) :
    before = before' := by
  obtain ⟨hdraws, hinvoices⟩ := Prod.mk.inj h
  have hadds := splitStep_adds cents x.credit.leftCents
  by_cases hdraw : 0 < (splitStep cents x.credit.leftCents).drawCents
  · unfold drawsOf at hdraws
    rw [if_pos hdraw] at hdraws
    split at hdraws
    · have heq := congrArg DrawEvidence.beforeCents
        (congrArg CreditDraw.evidence (List.singleton_inj.mp hdraws))
      exact heq
    · cases hdraws
  · have hinvoice : 0 < (splitStep cents x.credit.leftCents).invoiceCents := by omega
    unfold invoicesOf at hinvoices
    rw [if_pos hinvoice] at hinvoices
    split at hinvoices
    · have heq := congrArg Invoice.document (List.singleton_inj.mp hinvoices)
      exact congrArg MonthEvidence.beforeCents (Document.month.inj heq).2.2
    · cases hinvoices

theorem added_ne_nil {tier : ManagedTier} {cents before : Nat} (hpos : 0 < cents) :
    (drawsOf now x tier cents before, invoicesOf now x tier cents before) ≠ ([], []) := by
  intro h
  obtain ⟨hdraws, hinvoices⟩ := Prod.mk.inj h
  refine newSteps_ne_nil now x tier before hpos ?_
  unfold newSteps
  rw [hdraws, hinvoices]
  rfl

/-! ### The record without the earlier steps -/

/-- Its month has none, when no step was made since the withdrawal. -/
theorem readMonthSteps_without
    (h : ∀ s ∈ r.readMonthSteps month, r.sinceTheLatestWithdrawal s.madeAt = false) :
    (r.withoutEarlierSteps month).readMonthSteps month = [] := by
  refine List.append_eq_nil_iff.mpr ⟨?_, ?_⟩
  · refine List.filterMap_eq_nil_iff.mpr ?_
    intro i hi
    obtain ⟨hi, hkept⟩ := List.mem_filter.mp hi
    rcases hs : invoicedStep month i with - | s
    · rfl
    · have hsince := h s (List.mem_append_left _ (List.mem_filterMap.mpr ⟨i, hi, hs⟩))
      simp [earlierInvoice, hs, hsince] at hkept
  · refine List.filterMap_eq_nil_iff.mpr ?_
    intro d hd
    obtain ⟨hd, hkept⟩ := List.mem_filter.mp hd
    rcases hs : drawnStep month d with - | s
    · rfl
    · have hsince := h s (List.mem_append_right _ (List.mem_filterMap.mpr ⟨d, hd, hs⟩))
      simp [earlierDraw, hs, hsince] at hkept

/-- A year is no step of a month. -/
theorem yearOf_of_earlier {i : Invoice} (h : r.earlierInvoice month i = true) :
    r.yearOf i = none := by
  obtain ⟨status, createdAt, document⟩ := i
  rcases document with ⟨m, t, ev⟩ | ⟨n, ev⟩
  · rfl
  · cases h

theorem readYears_without (month : Nat) : (r.withoutEarlierSteps month).readYears = r.readYears := by
  show (r.invoices.filter fun i => !r.earlierInvoice month i).filterMap r.yearOf = _
  rw [List.filterMap_filter]
  refine List.filterMap_congr ?_
  intro i _
  rcases h : r.earlierInvoice month i with - | -
  · rfl
  · exact (yearOf_of_earlier h).symm

/-- A draw from before the withdrawal counts for nothing as it is. -/
theorem readDraws_without (month : Nat) : (r.withoutEarlierSteps month).readDraws = r.readDraws := by
  show ((r.draws.filter fun d => !r.earlierDraw month d).filter
    fun d => r.sinceTheLatestWithdrawal d.drawnAt).map _ = _
  unfold readDraws
  rw [List.filter_filter]
  congr 1
  refine List.filter_congr ?_
  intro d _
  rcases h : r.sinceTheLatestWithdrawal d.drawnAt with - | -
  · rfl
  · unfold earlierDraw drawnStep
    split <;> simp [h]

/-- What it bills and what was agreed to are the same. -/
theorem billedTier_without (month : Nat) :
    (r.withoutEarlierSteps month).billedTier now = r.billedTier now := by
  unfold billedTier recordCurrentOccupancy withoutEarlierSteps
  dsimp only
  split_ifs <;> rfl

theorem readBilledNow_without (month : Nat) :
    ((r.withoutEarlierSteps month).recordCurrentOccupancy now).readBilledNow now =
      (r.recordCurrentOccupancy now).readBilledNow now := by
  unfold recordCurrentOccupancy withoutEarlierSteps
  dsimp only
  split_ifs <;> rfl

theorem readAgreedPrices_without (month : Nat) :
    ((r.withoutEarlierSteps month).recordCurrentOccupancy now).readAgreedPrices now =
      (r.recordCurrentOccupancy now).readAgreedPrices now := by
  unfold recordCurrentOccupancy withoutEarlierSteps
  dsimp only
  split_ifs <;> rfl

/-! ### A run of the new contract -/

/-- What a run reads, from the credit it reads. -/
theorem reads_of_credit {credit : CreditForMonth}
    (h : creditForMonth now.month r.readYears r.readDraws = .ok credit) :
    ∃ x, (r.recordCurrentOccupancy now).readTheMonth now = .ok x ∧ x.credit = credit ∧
      x.state = (r.recordCurrentOccupancy now).readBilledNow now ∧
      x.price = priceOfTier (r.billedTier now)
        ((r.recordCurrentOccupancy now).readAgreedPrices now) ∧
      x.rate = monthRate (firstStepRate (r.readMonthSteps now.month)) credit ∧
      x.decision = decideMonthStep (r.billedTier now) (atRate x.price.cents x.rate)
        (r.readMonthSteps now.month) := by
  rcases hx : (r.recordCurrentOccupancy now).readTheMonth now with reason | x
  · have herror := readTheMonth_error_iff.mp hx
    rw [recordCurrentOccupancy_readYears, recordCurrentOccupancy_readDraws, h] at herror
    cases herror
  · obtain ⟨hc, hs, hp, hr, hd⟩ := readTheMonth_ok_iff.mp hx
    rw [recordCurrentOccupancy_readYears, recordCurrentOccupancy_readDraws, h] at hc
    rw [recordCurrentOccupancy_readMonthSteps] at hr hd
    have htier : x.tier = r.billedTier now := by
      unfold MonthReading.tier billedTier
      rw [hs]
    rw [htier] at hp hd
    cases hc
    exact ⟨x, rfl, rfl, hs, hp, hr, hd⟩

/-- A refused credit makes nothing. -/
theorem added_of_refused (h : given now.month r.readYears < used r.readDraws) :
    r.added now = ([], []) := by
  refine added_of_no_step ?_
  intro x hx
  have hc := (readTheMonth_ok_iff.mp hx).1
  rw [recordCurrentOccupancy_readYears, recordCurrentOccupancy_readDraws] at hc
  have hgiven := (creditForMonth_ok_iff.mp hc).1
  omega

/-- Free, and a tier agreed at nothing, make nothing. -/
theorem added_of_nothing (h : r.billedTier now = .free ∨
    (priceOfTier (r.billedTier now)
      ((r.recordCurrentOccupancy now).readAgreedPrices now)).cents = 0) :
    r.added now = ([], []) := by
  refine added_of_no_step ?_
  intro x hx t c b a hd
  obtain ⟨-, hs, hp, -, hdecision⟩ := readTheMonth_ok_iff.mp hx
  have htier : x.tier = r.billedTier now := by
    unfold MonthReading.tier billedTier
    rw [hs]
  have hmade := (decideMonthStep_eq_step_iff.mp (hdecision.symm.trans hd)).1
  rw [htier] at hp hmade
  rcases h with hfree | hzero
  · exact hmade.2.1 hfree
  · rw [hp, hzero, atRate_zero] at hmade
    exact absurd hmade.2.2 (Nat.not_lt_zero _)

/-- The rows of a step are those of what was read, whatever was decided. -/
theorem rows_congr {y : MonthReading} {tier : ManagedTier} {cents before : Nat}
    (hs : x.state = y.state) (hp : x.price = y.price) (hc : x.credit = y.credit)
    (hr : x.rate = y.rate) :
    (drawsOf now x tier cents before, invoicesOf now x tier cents before) =
      (drawsOf now y tier cents before, invoicesOf now y tier cents before) := by
  unfold drawsOf invoicesOf drawOf invoiceOf
  rw [hs, hp, hc, hr]

/-- Where there is a step to make, it is the same one exactly when every step so
far is void and below it. -/
theorem added_eq_iff (hmonth : (r.withoutEarlierSteps now.month).readMonthSteps now.month = [])
    (hask : StepsAsk r) (hcredit : ¬ given now.month r.readYears < used r.readDraws)
    (hsome : ¬ (r.billedTier now = .free ∨
      (priceOfTier (r.billedTier now)
        ((r.recordCurrentOccupancy now).readAgreedPrices now)).cents = 0)) :
    r.added now = (r.withoutEarlierSteps now.month).added now ↔
      ∀ s ∈ r.readMonthSteps now.month,
        s.stands = false ∧ placeOf s.tierId < placeOf (r.billedTier now) := by
  obtain ⟨hfree, hprice⟩ := not_or.mp hsome
  obtain ⟨credit, hc⟩ : ∃ credit,
      creditForMonth now.month r.readYears r.readDraws = .ok credit := ⟨_, if_neg hcredit⟩
  obtain ⟨x, hx, hxc, hxs, hxp, hxr, hxd⟩ := reads_of_credit hc
  have hc' := hc
  rw [← readYears_without now.month, ← readDraws_without now.month] at hc'
  obtain ⟨y, hy, hyc, hys, hyp, hyr, hyd⟩ := reads_of_credit hc'
  rw [billedTier_without, readAgreedPrices_without] at hyp
  rw [readBilledNow_without] at hys
  rw [hmonth] at hyr hyd
  rw [billedTier_without] at hyd
  have hpos : 0 < atRate y.price.cents y.rate := by
    have heven : 2 ∣ y.price.cents := by
      rw [hyp]
      exact priceOfTier_even _ _
    have hlt := atRate_lt y.rate heven (a := 0) (Nat.pos_of_ne_zero (by rwa [hyp]))
    rwa [atRate_zero] at hlt
  -- Without the earlier steps the tier is stepped at its whole price.
  have hystep : y.decision = .step (r.billedTier now) (atRate y.price.cents y.rate) 0 none := by
    rw [hyd]
    refine decideMonthStep_eq_step_iff.mpr ⟨⟨?_, hfree, hpos⟩, rfl, rfl, rfl, rfl⟩
    show (-1 : Int) < _
    omega
  rw [added_of_step hy hystep]
  constructor
  · intro heq
    by_cases hstep : ∃ t c b a, x.decision = .step t c b a
    · -- The row quotes what the steps so far asked, so they ask nothing.
      obtain ⟨t, c, b, a, hdx⟩ := hstep
      rw [added_of_step hx hdx] at heq
      have hbefore := added_before hpos heq.symm
      obtain ⟨⟨habove, -, -⟩, -, -, hb, -⟩ :=
        decideMonthStep_eq_step_iff.mp (hxd.symm.trans hdx)
      rw [hb] at hbefore
      intro s hs
      have hle := le_highestPlace hs
      refine ⟨?_, by omega⟩
      by_contra hstands
      have hcents := hask now.month s hs
      have hsum := le_askedCents hs (Bool.eq_true_of_not_eq_false hstands)
      omega
    · have hnone : r.added now = ([], []) := by
        refine added_of_no_step ?_
        intro z hz t c b a hd
        rw [hx] at hz
        cases hz
        exact hstep ⟨t, c, b, a, hd⟩
      rw [hnone] at heq
      exact absurd heq.symm (added_ne_nil hpos)
  · intro hvoid
    have hasked : askedCents (r.readMonthSteps now.month) = 0 :=
      askedCents_of_void fun s hs => (hvoid s hs).1
    have hrate : x.rate = y.rate := by
      rw [hxr, hyr, firstStepRate_eq_none_iff.mpr fun s hs => (hvoid s hs).1]
      rfl
    have hpriceEq : x.price = y.price := hxp.trans hyp.symm
    have habove : highestPlace (r.readMonthSteps now.month) < placeOf (r.billedTier now) := by
      refine highestPlace_lt (by omega) ?_
      intro s hs
      have hlt := (hvoid s hs).2
      omega
    have hxstep : ∃ a, x.decision =
        .step (r.billedTier now) (atRate y.price.cents y.rate) 0 a := by
      refine ⟨_, hxd.trans (decideMonthStep_eq_step_iff.mpr ⟨⟨habove, hfree, ?_⟩, rfl, ?_, ?_,
        rfl⟩)⟩
      · rw [hasked, hpriceEq, hrate]
        exact hpos
      · rw [hasked, hpriceEq, hrate]
        rfl
      · exact hasked.symm
    obtain ⟨a, hxstep⟩ := hxstep
    rw [added_of_step hx hxstep]
    exact rows_congr (hxs.trans hys.symm) hpriceEq (hxc.trans hyc.symm) hrate

/-- A run draws no more than the years gave. -/
theorem added_draw_le {d : CreditDraw} (hd : d ∈ (r.added now).1) :
    d.cents ≤ given now.month r.readYears := by
  by_cases hstep : ∃ x t c b a, (r.recordCurrentOccupancy now).readTheMonth now = .ok x ∧
      x.decision = .step t c b a
  · obtain ⟨x, t, c, b, a, hx, hdec⟩ := hstep
    rw [added_of_step hx hdec] at hd
    have hc := (readTheMonth_ok_iff.mp hx).1
    rw [recordCurrentOccupancy_readYears, recordCurrentOccupancy_readDraws] at hc
    have hgiven := (creditForMonth_ok_iff.mp hc).1
    have hle := splitStep_draw_le c x.credit.leftCents
    unfold drawsOf at hd
    split at hd
    · rw [List.mem_singleton.mp hd]
      show (splitStep c x.credit.leftCents).drawCents ≤ _
      omega
    · cases hd
  · rw [added_of_no_step fun x hx t c b a hdec => hstep ⟨x, t, c, b, a, hx, hdec⟩] at hd
    cases hd

theorem since_of_yearOf {i : Invoice} {y : YearBought} (h : r.yearOf i = some y) :
    ∀ w ∈ r.withdrawals, w < i.createdAt := by
  obtain ⟨status, createdAt, document⟩ := i
  rcases document with ⟨m, t, ev⟩ | ⟨n, ev⟩
  · cases h
  · unfold yearOf at h
    dsimp only at h
    split at h
    · rename_i hsince
      intro w hw
      exact of_decide_eq_true (List.all_eq_true.mp hsince.2 w hw)
    · cases h

/-- **A new contract's first step**: the next run of the month makes what it would
make had the steps from before the withdrawal never been made exactly when none
of them stands in for it; and what it draws, years bought since gave. -/
theorem starts_afresh_iff (es : List Event) (now : Instant)
    (hearlier : ∀ s ∈ (({} : Record).run es).readMonthSteps now.month,
      (({} : Record).run es).sinceTheLatestWithdrawal s.madeAt = false) :
    ((({} : Record).run es).added now =
        ((({} : Record).run es).withoutEarlierSteps now.month).added now ↔
      (({} : Record).run es).NothingStandsIn now) ∧
    (∀ d ∈ ((({} : Record).run es).added now).1,
      d.cents ≤ given now.month (({} : Record).run es).readYears) ∧
    ∀ y ∈ (({} : Record).run es).readYears, ∃ i ∈ (({} : Record).run es).invoices,
      (({} : Record).run es).yearOf i = some y ∧
        ∀ w ∈ (({} : Record).run es).withdrawals, w < i.createdAt := by
  have hask := stepsAsk_run es
  generalize ({} : Record).run es = r at hearlier hask
  refine ⟨?_, ?_, ?_⟩
  · have hmonth := readMonthSteps_without hearlier
    by_cases hcredit : given now.month r.readYears < used r.readDraws
    · have hcredit' : given now.month (r.withoutEarlierSteps now.month).readYears <
          used (r.withoutEarlierSteps now.month).readDraws := by
        rwa [readYears_without, readDraws_without]
      rw [added_of_refused hcredit, added_of_refused hcredit']
      exact ⟨fun _ => Or.inr (Or.inl hcredit), fun _ => rfl⟩
    · by_cases hnothing : r.billedTier now = .free ∨
          (priceOfTier (r.billedTier now)
            ((r.recordCurrentOccupancy now).readAgreedPrices now)).cents = 0
      · have hnothing' := hnothing
        rw [← billedTier_without now.month,
          ← readAgreedPrices_without now.month] at hnothing'
        rw [added_of_nothing hnothing, added_of_nothing hnothing']
        exact ⟨fun _ => Or.inr (Or.inr hnothing), fun _ => rfl⟩
      · exact (added_eq_iff hmonth hask hcredit hnothing).trans
          ⟨Or.inl, fun h => h.resolve_right fun h => h.elim hcredit hnothing⟩
  · intro d hd
    exact added_draw_le hd
  · intro y hy
    obtain ⟨i, hi, hyear⟩ := List.mem_filterMap.mp hy
    exact ⟨i, hi, hyear, since_of_yearOf hyear⟩

/-- Small's step voided before the withdrawal, and Medium said yes to after it:
Medium is stepped whole. -/
def voidedThenMedium : List Event :=
  [.moved (320 * BYTES_PER_GB), .yes ⟨⟨.tier, .small, 500⟩, 5, ⟨24321, 10⟩⟩,
    .openTheMonth ⟨24321, 20⟩, .moveInvoice (.month 24321 .small) .void,
    .withdraw true ⟨24321, 30⟩, .moved (320 * BYTES_PER_GB),
    .yes ⟨⟨.tier, .medium, 1500⟩, 12, ⟨24321, 40⟩⟩]

theorem voidedThenMedium_starts_afresh :
    ((({} : Record).run voidedThenMedium).added ⟨24321, 50⟩ =
      ((({} : Record).run voidedThenMedium).withoutEarlierSteps 24321).added ⟨24321, 50⟩) ∧
    (((({} : Record).run voidedThenMedium).added ⟨24321, 50⟩).2.map Invoice.reference) =
      [.month 24321 .medium] := by
  refine ⟨?_, by decide⟩
  exact (starts_afresh_iff voidedThenMedium ⟨24321, 50⟩ (by decide)).1.mpr (Or.inl (by decide))

/-- Small stepped, withdrawn from, and said yes to again in the same month. -/
def smallAgain : List Event :=
  [.moved (320 * BYTES_PER_GB), .yes ⟨⟨.tier, .small, 500⟩, 5, ⟨24321, 10⟩⟩,
    .openTheMonth ⟨24321, 20⟩, .withdraw true ⟨24321, 30⟩,
    .yes ⟨⟨.tier, .small, 500⟩, 5, ⟨24321, 40⟩⟩]

theorem earlier_step_stands_in :
    ¬ ∀ (es : List Event) (now : Instant),
      (∃ w ∈ (({} : Record).run es).withdrawals, w.month = now.month) →
      (({} : Record).run es).billedTier now ≠ .free →
      (∀ s ∈ (({} : Record).run es).readMonthSteps now.month,
        (({} : Record).run es).sinceTheLatestWithdrawal s.madeAt = false) →
      (({} : Record).run es).added now =
        ((({} : Record).run es).withoutEarlierSteps now.month).added now := by
  intro h
  have heq := h smallAgain ⟨24321, 50⟩ (by decide) (by decide) (by decide)
  exact absurd heq (by decide)

end Record

end Ownpace.Billing
