/-
Ownpace/Billing/AddsUp.lean

A month's steps add up.

The history of a month refines the standings of `Month.lean`: each run that
reads the month hands it a quote, and the steps on record come to where the
quotes put the month (`MonthKept.run`).  From that the month's sum, its one
rate and its tiers, each once, are read off.

The sum is the price of the highest tier stepped, as the run that stepped it
read it.  A tier billed above it whose price asks no more than the month
already does makes no step, and the month then asks more than that price
(`asked_above_the_price`); with prices that rise with the tiers this never
comes to pass.
-/
import Ownpace.Billing.Runs

namespace Ownpace.Billing

/-! ### Histories within a month -/

/-- An event of the month's history: its runs open this month, no invoice is
voided and nothing withdrawn. -/
def Event.Within (month : Nat) : Event → Prop
  | .openTheMonth now => now.month = month
  | .withdraw _ _ => False
  | .moveInvoice _ status => status ≠ .void
  | .yes _ => True
  | .pick _ => True
  | .paths _ _ => True
  | .moved _ => True
  | .recordYear _ _ => True

namespace Record

/-- What an event reads of its month, when it is a run that is not refused. -/
def reading (r : Record) : Event → Option MonthReading
  | .openTheMonth now => ((r.recordCurrentOccupancy now).readTheMonth now).toOption
  | _ => none

/-- What the runs of a history read, in turn. -/
def readings : Record → List Event → List MonthReading
  | _, [] => []
  | r, e :: es => (r.reading e).toList ++ readings (r.step e) es

def MonthReading.quote (x : MonthReading) : Quote :=
  ⟨x.tier, x.price.cents, monthRate none x.credit⟩

/-- The tier a run stepped. -/
def MonthReading.stepped (x : MonthReading) : Option ManagedTier :=
  match x.decision with
  | .step tier _ _ _ => some tier
  | _ => none

/-- The price a run read, at the rate it read. -/
def MonthReading.priceAtRate (x : MonthReading) : Nat := atRate x.price.cents x.rate

/-- The tiers the month has an invoice for. -/
def invoicedTiers (r : Record) (month : Nat) : List ManagedTier :=
  (r.invoices.filterMap (invoicedStep month)).map (·.tierId)

/-- The tiers the month has a draw for. -/
def drawnTiers (r : Record) (month : Nat) : List ManagedTier :=
  (r.draws.filterMap (drawnStep month)).map (·.tierId)

/-- What the month's steps ask, invoiced and drawn. -/
def monthSum (r : Record) (month : Nat) : Nat := ((r.readMonthSteps month).map (·.cents)).sum

/-! ### An invoice moved along keeps its step -/

/-- What the rule reads of a step. -/
def stepKey (s : MonthStep) : ManagedTier × Nat × Rate × Bool :=
  (s.tierId, s.cents, s.rate, s.stands)

variable {month : Nat} {r r' : Record} {a : Option Standing} {e : Event}
variable {reference : Reference} {status : InvoiceStatus} {x : MonthReading}

theorem stepKey_moveTo {i : Invoice} (hstatus : status ≠ .void)
    (hmay : i.reference = reference → mayMove i.status status = true) :
    (invoicedStep month (Invoice.moveTo reference status i)).map stepKey =
      (invoicedStep month i).map stepKey := by
  unfold Invoice.moveTo
  split
  · rename_i href
    have hold := not_void_of_mayMove (hmay href) hstatus
    obtain ⟨old, createdAt, document⟩ := i
    rcases document with ⟨m, t, ev⟩ | ⟨n, ev⟩
    · unfold invoicedStep
      dsimp only at hold ⊢
      split <;> simp [stepKey, MonthStep.stands, hold, hstatus]
    · rfl
  · rfl

theorem map_stepKey_moveInvoice (month : Nat) (hstatus : status ≠ .void)
    (hmay : ∀ i ∈ r.invoices, i.reference = reference → mayMove i.status status = true) :
    ((r.invoices.map (Invoice.moveTo reference status)).filterMap (invoicedStep month)).map
        stepKey = (r.invoices.filterMap (invoicedStep month)).map stepKey := by
  rw [List.filterMap_map, List.map_filterMap, List.map_filterMap]
  refine List.filterMap_congr ?_
  intro i hi
  exact stepKey_moveTo hstatus (hmay i hi)

theorem highestPlace_congr {steps steps' : List MonthStep}
    (h : steps'.map stepKey = steps.map stepKey) : highestPlace steps' = highestPlace steps := by
  have key : ∀ l : List MonthStep, highestPlace l =
      (l.map stepKey).foldl (fun most k => max most (placeOf k.1 : Int)) (-1) := by
    intro l
    rw [List.foldl_map]
    rfl
  rw [key, key, h]

theorem askedCents_congr {steps steps' : List MonthStep}
    (h : steps'.map stepKey = steps.map stepKey) : askedCents steps' = askedCents steps := by
  have key : ∀ l : List MonthStep, askedCents l =
      (((l.map stepKey).filter (fun k => k.2.2.2)).map (fun k => k.2.1)).sum := by
    intro l
    rw [List.filter_map, List.map_map]
    rfl
  rw [key, key, h]

theorem stands_congr {steps steps' : List MonthStep}
    (h : steps'.map stepKey = steps.map stepKey) (hs : Stands steps a) : Stands steps' a := by
  rcases a with - | s
  · rw [show steps = [] from hs] at h
    exact List.map_eq_nil_iff.mp h
  · obtain ⟨hne, hhigh, hasked, hall⟩ := hs
    refine ⟨?_, (highestPlace_congr h).trans hhigh, (askedCents_congr h).trans hasked, ?_⟩
    · rintro rfl
      exact hne (List.map_eq_nil_iff.mp h.symm)
    · intro st hst
      have hkey : stepKey st ∈ steps.map stepKey := h ▸ List.mem_map_of_mem hst
      obtain ⟨st', hst', heq⟩ := List.mem_map.mp hkey
      have hst'' := hall st' hst'
      simp only [stepKey, Prod.mk.injEq] at heq
      exact ⟨heq.2.2.2 ▸ hst''.1, heq.2.2.1 ▸ hst''.2⟩

/-! ### A run moves the month as its quote does -/

/-- The month on record: its steps come to the standing, and no tier has two
invoices or two draws. -/
structure MonthKept (month : Nat) (r : Record) (a : Option Standing) : Prop where
  stands : Stands (r.readMonthSteps month) a
  invoiced : (r.invoicedTiers month).Nodup
  drawn : (r.drawnTiers month).Nodup

/-- The month's rows are all the month's standing reads. -/
theorem MonthKept.congr (h : MonthKept month r a) (hi : r'.invoices = r.invoices)
    (hd : r'.draws = r.draws) : MonthKept month r' a := by
  obtain ⟨hstands, hinvoiced, hdrawn⟩ := h
  refine ⟨?_, ?_, ?_⟩
  · rwa [readMonthSteps_congr hi hd]
  · unfold invoicedTiers at hinvoiced ⊢
    rwa [hi]
  · unfold drawnTiers at hdrawn ⊢
    rwa [hd]

/-- What a run reads of a month that stands: the rate it is quoted at, and the
step exactly when the quote moves the month. -/
theorem reading_of_stands {now : Instant} (h : Stands (r.readMonthSteps now.month) a)
    (hx : r.readTheMonth now = .ok x) :
    x.rate = Standing.rateFor a x.quote ∧
      x.decision = decideMonthStep x.tier (Standing.asked a x.quote)
        (r.readMonthSteps now.month) := by
  obtain ⟨-, -, -, hrate, hdecision⟩ := readTheMonth_ok_iff.mp hx
  have hrate' : x.rate = Standing.rateFor a x.quote := hrate.trans (h.rate rfl)
  refine ⟨hrate', hdecision.trans ?_⟩
  rw [hrate']
  rfl

theorem stepped_of_stands {now : Instant} (h : Stands (r.readMonthSteps now.month) a)
    (hx : r.readTheMonth now = .ok x) :
    x.stepped = if Standing.Moves a x.quote then some x.tier else none := by
  have hmoves := decideMonthStep_moves (q := x.quote) h
  have hd := (reading_of_stands h hx).2
  unfold MonthReading.stepped
  split
  · rename_i t c b af heq
    rw [hd] at heq
    obtain rfl := (decideMonthStep_eq_step_iff.mp heq).2.1
    rw [if_pos (hmoves.mp ⟨c, b, af, heq⟩)]
  · rename_i hnot
    rw [if_neg]
    intro hm
    obtain ⟨c, b, af, heq⟩ := hmoves.mpr hm
    exact hnot _ _ _ _ (hd.trans heq)

/-- A step moves the month to its tier. -/
theorem MonthKept.made {now : Instant} {tier : ManagedTier} {cents before : Nat}
    {after : Option ManagedTier} (h : MonthKept now.month r a) (hx : r.readTheMonth now = .ok x)
    (hd : x.decision = .step tier cents before after) :
    MonthKept now.month (r.withStep now x tier cents before) (Standing.next a x.quote) := by
  obtain ⟨hrate, hdecision⟩ := reading_of_stands h.stands hx
  have hdec := hdecision.symm.trans hd
  have hpos := step_pos hdec
  have hadds := step_adds hdec
  obtain ⟨⟨habove, -, -⟩, rfl, -⟩ := decideMonthStep_eq_step_iff.mp hdec
  have hm : Standing.Moves a x.quote := (decideMonthStep_moves h.stands).mp ⟨_, _, _, hdec⟩
  refine ⟨?_, ?_, ?_⟩
  · rw [Standing.next_of_moves hm]
    refine ⟨?_, highestPlace_withStep hpos habove, askedCents_withStep.trans hadds, ?_⟩
    · obtain ⟨s, hs⟩ := List.exists_mem_of_ne_nil _ (newSteps_ne_nil now x x.tier before hpos)
      exact List.ne_nil_of_mem (mem_readMonthSteps_withStep.mpr (Or.inr hs))
    · intro s hs
      rcases mem_readMonthSteps_withStep.mp hs with hs | hs
      · rcases a with - | st
        · rw [show r.readMonthSteps now.month = [] from h.stands] at hs
          cases hs
        · exact h.stands.2.2.2 s hs
      · obtain ⟨-, hr, hstands, -, -⟩ := mem_newSteps hs
        exact ⟨hstands, hr.trans hrate⟩
  · -- The new tier is above every tier of the month.
    unfold invoicedTiers withStep
    rw [List.filterMap_append, List.map_append, List.nodup_append]
    refine ⟨h.invoiced, ?_, ?_⟩
    · unfold invoicesOf
      split <;> simp [invoicedStep, invoiceOf]
    · intro t ht t' ht' heq
      obtain ⟨s, hs, rfl⟩ := List.mem_map.mp ht
      obtain ⟨s', hs', rfl⟩ := List.mem_map.mp ht'
      have hle := le_highestPlace (List.mem_append_left
        (r.draws.filterMap (drawnStep now.month)) hs)
      have hnew := (mem_newSteps (List.mem_append_left _ hs')).1
      have hlt : highestPlace (r.readMonthSteps now.month) < placeOf x.tier := habove
      rw [heq, hnew] at hle
      exact absurd hle (not_le.mpr hlt)
  · unfold drawnTiers withStep
    rw [List.filterMap_append, List.map_append, List.nodup_append]
    refine ⟨h.drawn, ?_, ?_⟩
    · unfold drawsOf
      split <;> simp [drawnStep, drawOf]
    · intro t ht t' ht' heq
      obtain ⟨s, hs, rfl⟩ := List.mem_map.mp ht
      obtain ⟨s', hs', rfl⟩ := List.mem_map.mp ht'
      have hle := le_highestPlace (List.mem_append_right
        (r.invoices.filterMap (invoicedStep now.month)) hs)
      have hnew := (mem_newSteps (List.mem_append_right _ hs')).1
      have hlt : highestPlace (r.readMonthSteps now.month) < placeOf x.tier := habove
      rw [heq, hnew] at hle
      exact absurd hle (not_le.mpr hlt)

/-- Where a reading, if there is one, puts the month. -/
def advance (a : Option Standing) (x : Option MonthReading) : Option Standing :=
  match x with
  | some x => Standing.next a x.quote
  | none => a

/-- One event moves the month as what it read does. -/
theorem MonthKept.step (h : MonthKept month r a) (hs : Stepped r e r') (hw : e.Within month) :
    MonthKept month r' (advance a (r.reading e)) := by
  cases hs with
  | refused e unread =>
      have hnone : r.reading e = none := by
        cases e with
        | openTheMonth now =>
            unfold reading
            dsimp only
            rcases hx : (r.recordCurrentOccupancy now).readTheMonth now with reason | x
            · rfl
            · exact absurd hx (unread now x rfl)
        | _ => rfl
      rw [hnone]
      exact h
  | yes grant => exact h.congr rfl rfl
  | pick pick => exact h.congr rfl rfl
  | held slots now peaks => exact h.congr rfl rfl
  | moved bytes => exact h.congr rfl rfl
  | year order now free pos =>
      obtain ⟨hstands, hinvoiced, hdrawn⟩ := h
      refine ⟨?_, ?_, hdrawn⟩
      · unfold readMonthSteps at hstands ⊢
        rwa [filterMap_year]
      · unfold invoicedTiers at hinvoiced ⊢
        rwa [filterMap_year]
  | quiet now x reads unmoved =>
      have hmonth : now.month = month := hw
      subst hmonth
      have h' : MonthKept now.month (r.recordCurrentOccupancy now) a :=
        h.congr recordCurrentOccupancy_invoices recordCurrentOccupancy_draws
      have hnot : ¬ Standing.Moves a x.quote := by
        intro hm
        obtain ⟨c, b, af, heq⟩ := (decideMonthStep_moves (q := x.quote) h'.stands).mpr hm
        exact unmoved _ _ _ _ ((reading_of_stands h'.stands reads).2.trans heq)
      have hread : r.reading (.openTheMonth now) = some x := by
        unfold reading
        dsimp only
        rw [reads]
        rfl
      rw [hread]
      show MonthKept now.month _ (Standing.next a x.quote)
      rwa [Standing.next_of_not_moves hnot]
  | made now x tier cents before after reads decided =>
      have hmonth : now.month = month := hw
      subst hmonth
      have h' : MonthKept now.month (r.recordCurrentOccupancy now) a :=
        h.congr recordCurrentOccupancy_invoices recordCurrentOccupancy_draws
      have hread : r.reading (.openTheMonth now) = some x := by
        unfold reading
        dsimp only
        rw [reads]
        rfl
      rw [hread]
      exact h'.made reads decided
  | withdrawn inTime now => exact absurd hw id
  | movedInvoice reference status may =>
      have hkeys := map_stepKey_moveInvoice month hw may
      obtain ⟨hstands, hinvoiced, hdrawn⟩ := h
      refine ⟨stands_congr ?_ hstands, ?_, hdrawn⟩
      · unfold readMonthSteps
        rw [List.map_append, List.map_append, hkeys]
      · have htiers : ∀ l : List MonthStep, l.map (·.tierId) = (l.map stepKey).map (·.1) := by
          intro l
          rw [List.map_map]
          rfl
        unfold invoicedTiers at hinvoiced ⊢
        rw [htiers, hkeys, ← htiers]
        exact hinvoiced

/-- What the runs read fits where the month stood: its rate, and whether it made
a step. -/
def Fits : Option Standing → List MonthReading → Prop
  | _, [] => True
  | a, x :: xs => (x.rate = Standing.rateFor a x.quote ∧
      x.stepped = if Standing.Moves a x.quote then some x.tier else none) ∧
      Fits (Standing.next a x.quote) xs

theorem Fits.at {pre post : List MonthReading} (h : Fits a (pre ++ x :: post)) :
    x.rate = Standing.rateFor ((pre.map MonthReading.quote).foldl Standing.next a) x.quote := by
  induction pre generalizing a with
  | nil => exact h.1.1
  | cons y pre ih => exact ih h.2

theorem Fits.stepped_at {pre post : List MonthReading} (h : Fits a (pre ++ x :: post)) :
    x.stepped = if Standing.Moves ((pre.map MonthReading.quote).foldl Standing.next a) x.quote then
      some x.tier else none := by
  induction pre generalizing a with
  | nil => exact h.1.2
  | cons y pre ih => exact ih h.2

theorem Fits.stepped_eq {xs : List MonthReading} (h : Fits a xs) :
    xs.filterMap MonthReading.stepped = Standing.moved a (xs.map MonthReading.quote) := by
  induction xs generalizing a with
  | nil => rfl
  | cons x xs ih =>
      have hrest := ih h.2
      rw [List.map_cons, Standing.moved]
      by_cases hm : Standing.Moves a x.quote
      · rw [if_pos hm, ← hrest, List.filterMap_cons_some (h.1.2.trans (if_pos hm))]
        rfl
      · rw [if_neg hm, ← hrest, List.filterMap_cons_none (h.1.2.trans (if_neg hm))]

/-- A whole history moves the month as its readings do. -/
theorem MonthKept.run (h : MonthKept month r a) {es : List Event}
    (hw : ∀ e ∈ es, e.Within month) :
    MonthKept month (r.run es)
        (((readings r es).map MonthReading.quote).foldl Standing.next a) ∧
      Fits a (readings r es) := by
  induction es generalizing r a with
  | nil => exact ⟨h, trivial⟩
  | cons e es ih =>
      have hstep := h.step (step_stepped r e) (hw e List.mem_cons_self)
      have hrest := ih hstep fun e' he' => hw e' (List.mem_cons_of_mem _ he')
      rcases hx : r.reading e with - | x
      · rw [hx] at hrest
        rw [readings, hx]
        exact hrest
      · rw [hx] at hrest
        rw [readings, hx]
        refine ⟨hrest.1, ?_, hrest.2⟩
        -- Only a run of this month reads.
        cases e with
        | openTheMonth now =>
            have hmonth : now.month = month := hw _ List.mem_cons_self
            subst hmonth
            have h' : MonthKept now.month (r.recordCurrentOccupancy now) a :=
              h.congr recordCurrentOccupancy_invoices recordCurrentOccupancy_draws
            have hread : (r.recordCurrentOccupancy now).readTheMonth now = .ok x := by
              unfold reading at hx
              dsimp only at hx
              rcases hread : (r.recordCurrentOccupancy now).readTheMonth now with reason | y
              · rw [hread] at hx
                cases hx
              · rw [hread] at hx
                cases hx
                rfl
            exact ⟨(reading_of_stands h'.stands hread).1, stepped_of_stands h'.stands hread⟩
        | _ => cases hx

/-! ### A month's steps add up -/

/-- Every tier is priced, by each run that bills it, above what the lower tiers
were priced at, Free included. -/
def Rising (xs : List MonthReading) : Prop :=
  Standing.Rising (xs.map MonthReading.quote)

/-- What a history of one month comes to. -/
structure AddsUp (month : Nat) (r : Record) (es : List Event) : Prop where
  /-- No tier is stepped twice: each step is of a tier above the one before. -/
  once : ((readings r es).filterMap MonthReading.stepped).Pairwise
    fun t t' => placeOf t < placeOf t'
  oneInvoice : ((r.run es).invoicedTiers month).Nodup
  oneDraw : ((r.run es).drawnTiers month).Nodup
  /-- The steps ask in all the price, at the month's rate, of the highest tier
  stepped, as the run that stepped it read it. -/
  sum : (r.run es).readMonthSteps month = [] ∨
    ∃ x ∈ readings r es, x.stepped = some x.tier ∧
      highestPlace ((r.run es).readMonthSteps month) = placeOf x.tier ∧
      (r.run es).monthSum month = x.priceAtRate ∧
      ∀ s ∈ (r.run es).readMonthSteps month, s.rate = x.rate
  /-- A paid tier billed above them was priced at no more than they ask. -/
  addsNothing : ∀ x ∈ readings r es, x.tier ≠ .free →
    highestPlace ((r.run es).readMonthSteps month) < placeOf x.tier →
      x.priceAtRate ≤ (r.run es).monthSum month
  /-- With rising prices they ask the price of the highest tier billed, as the
  first run that billed it read it. -/
  rising : Rising (readings r es) → ∀ pre x post, readings r es = pre ++ x :: post →
    (∀ y ∈ pre, placeOf y.tier < placeOf x.tier) →
    (∀ y ∈ post, placeOf y.tier ≤ placeOf x.tier) →
      (r.run es).monthSum month = if x.tier = .free then 0 else x.priceAtRate
  /-- One rate for every step. -/
  oneRate : ∀ s ∈ (r.run es).readMonthSteps month, ∀ s' ∈ (r.run es).readMonthSteps month,
    s.rate = s'.rate
  /-- A run invoices only after drawing all the credit it read. -/
  exhausted : ∀ pre now post reference tier cents drawnCents r',
    es = pre ++ .openTheMonth now :: post →
    (r.run pre).openTheMonth now = .ok (.made reference tier cents drawnCents, r') →
      ∃ credit, creditForMonth now.month (r.run pre).readYears (r.run pre).readDraws = .ok credit ∧
        drawnCents.getD 0 = credit.leftCents

theorem Fits.mem {xs : List MonthReading} (h : Fits a xs) (hx : x ∈ xs) :
    ∃ pre post, xs = pre ++ x :: post ∧
      x.rate = Standing.rateFor ((pre.map MonthReading.quote).foldl Standing.next a) x.quote := by
  obtain ⟨pre, post, rfl⟩ := List.append_of_mem hx
  exact ⟨pre, post, rfl, h.at⟩

/-- All the steps of a month that stands count. -/
theorem monthSum_of_stands (h : Stands (r.readMonthSteps month) a) :
    r.monthSum month = askedCents (r.readMonthSteps month) := by
  unfold monthSum askedCents
  rw [List.filter_eq_self.mpr]
  intro s hs
  rcases a with - | st
  · rw [show r.readMonthSteps month = [] from h] at hs
    cases hs
  · exact (h.2.2.2 s hs).1

theorem mem_readings {es : List Event} (hx : x ∈ readings r es) :
    ∃ r₀ now, Record.readTheMonth r₀ now = .ok x := by
  induction es generalizing r with
  | nil => cases hx
  | cons e es ih =>
      rcases List.mem_append.mp hx with hx | hx
      · cases e with
        | openTheMonth now =>
            refine ⟨r.recordCurrentOccupancy now, now, ?_⟩
            unfold reading at hx
            dsimp only at hx
            rcases hread : (r.recordCurrentOccupancy now).readTheMonth now with reason | y
            · rw [hread] at hx
              cases hx
            · rw [hread] at hx
              rw [List.mem_singleton.mp hx]
        | _ => cases hx
      · exact ih hx

theorem quote_even {es : List Event} {q : Quote}
    (hq : q ∈ (readings r es).map MonthReading.quote) : 2 ∣ q.priceCents := by
  obtain ⟨x, hx, rfl⟩ := List.mem_map.mp hq
  obtain ⟨r₀, now, hread⟩ := mem_readings hx
  have hprice := (readTheMonth_ok_iff.mp hread).2.2.1
  show 2 ∣ x.price.cents
  rw [hprice]
  exact priceOfTier_even _ _

/-- What is made is what the credit did not cover of a step. -/
theorem exhausted_of_made {now : Instant} {ref : Reference} {tier : ManagedTier} {cents : Nat}
    {drawnCents : Option Nat}
    (h : r.openTheMonth now = .ok (.made ref tier cents drawnCents, r')) :
    ∃ credit, creditForMonth now.month r.readYears r.readDraws = .ok credit ∧
      drawnCents.getD 0 = credit.leftCents := by
  obtain ⟨x, hx, ⟨hquiet, -⟩ | ⟨t, c, b, af, hd, hout, -⟩⟩ := openTheMonth_cases h
  · unfold openTheMonth at h
    simp only [hx, bind, Except.bind] at h
    rcases hd : x.decision with - | - | - | ⟨t, c, b, af⟩
    · rw [hd] at h
      cases h
    · rw [hd] at h
      cases h
    · rw [hd] at h
      cases h
    · exact absurd hd (hquiet t c b af)
  · have hcredit := (readTheMonth_ok_iff.mp hx).1
    rw [recordCurrentOccupancy_readYears, recordCurrentOccupancy_readDraws] at hcredit
    refine ⟨x.credit, hcredit, ?_⟩
    unfold stepOutcome at hout
    dsimp only at hout
    split at hout
    · cases hout
    · rename_i hne
      cases hout
      have hall := splitStep_exhausts (Nat.pos_of_ne_zero hne)
      split
      · exact hall
      · rename_i hzero
        rw [← hall]
        exact (Nat.eq_zero_of_not_pos hzero).symm

/-- **A month's steps add up**, over every history within the month. -/
theorem month_adds_up (r : Record) (month : Nat) (hfresh : r.readMonthSteps month = [])
    (es : List Event) (hw : ∀ e ∈ es, e.Within month) : AddsUp month r es := by
  have hstart : MonthKept month r none := by
    obtain ⟨hinvoiced, hdrawn⟩ := List.append_eq_nil_iff.mp hfresh
    refine ⟨hfresh, ?_, ?_⟩
    · unfold invoicedTiers
      rw [hinvoiced]
      exact List.nodup_nil
    · unfold drawnTiers
      rw [hdrawn]
      exact List.nodup_nil
  obtain ⟨hkept, hfits⟩ := hstart.run hw
  have hsum := monthSum_of_stands hkept.stands
  refine
    { once := ?_
      oneInvoice := hkept.invoiced
      oneDraw := hkept.drawn
      sum := ?_
      addsNothing := ?_
      rising := ?_
      oneRate := ?_
      exhausted := ?_ }
  · rw [hfits.stepped_eq]
    exact Standing.moved_pairwise none _
  · rcases e : ((readings r es).map MonthReading.quote).foldl Standing.next none with - | st
    · left
      have hnil := hkept.stands
      rwa [e] at hnil
    · right
      -- The standing came from one of the quotes.
      obtain ⟨pre, q, post, hsplit, hm, rfl⟩ := Standing.foldl_from_quote e
      obtain ⟨xs, ys, hxs, rfl, htail⟩ := List.map_eq_append_iff.mp hsplit
      obtain ⟨x, zs, rfl, rfl, rfl⟩ := List.map_eq_cons_iff.mp htail
      have hrate : x.rate = _ := (hxs ▸ hfits).at
      have hstands := hkept.stands
      rw [e] at hstands
      obtain ⟨-, hhigh, hasked, hall⟩ := hstands
      refine ⟨x, by rw [hxs]; simp, ?_, hhigh, ?_, ?_⟩
      · have hstepped : Fits none (xs ++ x :: zs) := hxs ▸ hfits
        exact (Fits.stepped_at hstepped).trans (if_pos hm)
      · rw [hsum, hasked]
        unfold MonthReading.priceAtRate
        rw [hrate]
        rfl
      · intro s hs
        rw [hrate]
        exact (hall s hs).2
  · intro x hx hpaid habove
    obtain ⟨pre, post, hsplit, hrate⟩ := hfits.mem hx
    rw [hsum, hkept.stands.asks]
    rw [hkept.stands.height] at habove
    rw [hsplit, List.map_append, List.map_cons, List.foldl_append, List.foldl_cons] at habove ⊢
    have hlow := Standing.height_le_foldl (post.map MonthReading.quote)
      (Standing.next ((pre.map MonthReading.quote).foldl Standing.next none) x.quote)
    have hle := Standing.asked_le_of_height_lt (hlow.trans_lt habove) hpaid
    refine le_trans ?_ (hle.trans (Standing.asks_le_foldl _ _))
    unfold MonthReading.priceAtRate
    rw [hrate]
    exact le_rfl
  · intro hrising pre x post hsplit hpre hpost
    rw [hsum, hkept.stands.asks]
    have hmap : (readings r es).map MonthReading.quote =
        pre.map MonthReading.quote ++ x.quote :: post.map MonthReading.quote := by
      rw [hsplit, List.map_append, List.map_cons]
    by_cases hfree : x.tier = .free
    · -- Free is the highest tier billed, so nothing is.
      rw [if_pos hfree]
      have hall : ∀ q ∈ (readings r es).map MonthReading.quote, q.tier = .free := by
        intro q hq
        obtain ⟨y, hy, rfl⟩ := List.mem_map.mp hq
        rw [hsplit] at hy
        refine placeOf_eq_zero.mp ?_
        have hzero : placeOf x.tier = 0 := placeOf_eq_zero.mpr hfree
        rcases List.mem_append.mp hy with hy | hy
        · have h := hpre y hy
          rw [hzero] at h
          exact absurd h (Nat.not_lt_zero _)
        · rcases List.mem_cons.mp hy with rfl | hy
          · exact hzero
          · have h := hpost y hy
            rw [hzero] at h
            exact Nat.le_zero.mp h
      rw [Standing.foldl_of_free hall]
      rfl
    · rw [if_neg hfree]
      have heven : ∀ q ∈ pre.map MonthReading.quote ++ x.quote :: post.map MonthReading.quote,
          2 ∣ q.priceCents := by
        intro q hq
        rw [← hmap] at hq
        exact quote_even hq
      have hrising' : Standing.Rising (pre.map MonthReading.quote ++
          x.quote :: post.map MonthReading.quote) := by
        rw [← hmap]
        exact hrising
      have hend := Standing.asks_of_rising heven hrising'
        (List.forall_mem_map.mpr hpre) (List.forall_mem_map.mpr hpost) hfree
      rw [hmap, hend]
      unfold MonthReading.priceAtRate
      rw [(hsplit ▸ hfits : Fits none (pre ++ x :: post)).at]
      rfl
  · intro s hs s' hs'
    have hstands := hkept.stands
    rcases e : ((readings r es).map MonthReading.quote).foldl Standing.next none with - | st
    · rw [e] at hstands
      rw [show (r.run es).readMonthSteps month = [] from hstands] at hs
      cases hs
    · rw [e] at hstands
      exact (hstands.2.2.2 s hs).2.trans (hstands.2.2.2 s' hs').2.symm
  · intro pre now post reference tier cents drawnCents r' _ hmade
    exact exhausted_of_made hmade

/-- Past Free's data with a yes to Small, and later past Small's with a yes to
Medium: the two steps ask Medium's price. -/
def growing : Record where
  grants := [⟨⟨.tier, .small, 500⟩, 5, ⟨24321, 0⟩⟩]
  counted := 320 * BYTES_PER_GB

def growingMonth : List Event :=
  [.openTheMonth ⟨24322, 1380000⟩, .openTheMonth ⟨24322, 4980000⟩, .moved (320 * BYTES_PER_GB),
    .yes ⟨⟨.tier, .medium, 1500⟩, 12, ⟨24322, 200000000⟩⟩, .openTheMonth ⟨24322, 260580000⟩]

theorem growing_month_adds_up : AddsUp 24322 growing growingMonth ∧
    ((growing.run growingMonth).readMonthSteps 24322).map (fun s => (s.tierId, s.cents)) =
      [(.small, 500), (.medium, 700)] := by
  refine ⟨month_adds_up growing 24322 rfl growingMonth ?_, by decide⟩
  simp [growingMonth, Event.Within]

/-- Medium agreed at less than Small: billed after Small, it makes no step, and
the month asks more than its price. -/
def agreedBelow : Record where
  grants := [⟨⟨.tier, .small, 500⟩, 5, ⟨24321, 0⟩⟩, ⟨⟨.tier, .medium, 1500⟩, 4, ⟨24321, 1⟩⟩]
  counted := 320 * BYTES_PER_GB

def agreedBelowMonth : List Event :=
  [.openTheMonth ⟨24322, 1380000⟩, .moved (320 * BYTES_PER_GB), .openTheMonth ⟨24322, 4980000⟩]

theorem asked_above_the_price :
    ¬ ∀ (r : Record) (month : Nat) (es : List Event), r.readMonthSteps month = [] →
      (∀ e ∈ es, e.Within month) → ∀ x ∈ readings r es,
        (∀ y ∈ readings r es, placeOf y.tier ≤ placeOf x.tier) →
          (r.run es).monthSum month ≤ x.priceAtRate := by
  intro h
  have hreadings : (readings agreedBelow agreedBelowMonth).map
      (fun x => (x.tier, x.priceAtRate)) = [(.small, 500), (.medium, 400)] := by decide
  have hsum : (agreedBelow.run agreedBelowMonth).monthSum 24322 = 500 := by decide
  have hmem : (ManagedTier.medium, 400) ∈ (readings agreedBelow agreedBelowMonth).map
      (fun x => (x.tier, x.priceAtRate)) := by
    rw [hreadings]
    decide
  obtain ⟨x, hx, hpair⟩ := List.mem_map.mp hmem
  obtain ⟨htier, hprice⟩ := Prod.mk.inj hpair
  have hle := h agreedBelow 24322 agreedBelowMonth rfl
    (by simp [agreedBelowMonth, Event.Within]) x hx (by
      intro y hy
      have hy' := List.mem_map_of_mem (f := fun x => (x.tier, x.priceAtRate)) hy
      rw [hreadings] at hy'
      rw [htier]
      rcases List.mem_cons.mp hy' with hy' | hy'
      · rw [(Prod.mk.inj hy').1]
        decide
      · rw [(Prod.mk.inj (List.mem_singleton.mp hy')).1])
  rw [hsum, hprice] at hle
  exact absurd hle (by decide)

end Record

end Ownpace.Billing
