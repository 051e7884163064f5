/-
Ownpace/Billing/Month.lean

The rule of a month invoiced in advance: one step for what the month bills
above its steps so far, at the tier's price, for what they do not ask yet.

Beside the rule stands what it is for.  A month stands at the highest tier it
has stepped, at the rate its first step fixed, and asks in all what that tier's
price was when it was stepped (`Standing`).  A run hands the month a quote: a
tier, its price, and the rate it would open at.  The rule moves the standing
exactly as `Standing.next` does (`decideMonthStep_next`), and what a sequence
of quotes comes to is read off the standings alone.
-/
import Ownpace.Billing.Credit

namespace Ownpace.Billing

/-! ### The price -/

/-- A yes or a pick naming a tier, at the monthly price it showed. -/
structure AgreedPrice where
  tierId : ManagedTier
  priceEur : Nat
  agreedAt : Instant

inductive PriceFrom where
  | agreed
  | list
  deriving DecidableEq

structure Price where
  cents : Nat
  source : PriceFrom
  deriving DecidableEq

/-- The later of the latest so far and the next; of two at one moment, the first. -/
def laterOf (last : Option AgreedPrice) (a : AgreedPrice) : Option AgreedPrice :=
  match last with
  | some l => if a.agreedAt ≤ l.agreedAt then some l else some a
  | none => some a

/-- The latest agreement naming the tier, else the list's price. -/
def priceOfTier (tier : ManagedTier) (agreed : List AgreedPrice) : Price :=
  match (agreed.filter fun a => a.tierId = tier).foldl laterOf none with
  | some latest => ⟨latest.priceEur * 100, .agreed⟩
  | none => ⟨tier.monthlyCents, .list⟩

/-- Whole euros, and every price of the list, halve exactly. -/
theorem priceOfTier_even (tier : ManagedTier) (agreed : List AgreedPrice) :
    2 ∣ (priceOfTier tier agreed).cents := by
  unfold priceOfTier
  split
  · exact Dvd.dvd.mul_left (by decide) _
  · cases tier <;> decide

/-! ### The steps -/

inductive InvoiceStatus where
  | draft
  | sent
  | paid
  | overdue
  | void
  deriving DecidableEq

inductive StepStatus where
  | invoice (status : InvoiceStatus)
  /-- Paid from a year's credit. -/
  | drawn
  deriving DecidableEq

/-- One of the month's steps, invoiced or drawn. -/
structure MonthStep where
  tierId : ManagedTier
  cents : Nat
  status : StepStatus
  rate : Rate
  madeAt : Instant
  deriving DecidableEq

/-- A voided step asks nothing. -/
def MonthStep.stands (s : MonthStep) : Bool := s.status ≠ .invoice .void

/-- The place of the highest tier the steps name; below Free without any. -/
def highestPlace (steps : List MonthStep) : Int :=
  steps.foldl (fun most s => max most (placeOf s.tierId)) (-1)

/-- What the steps that stand ask. -/
def askedCents (steps : List MonthStep) : Nat := ((steps.filter (·.stands)).map (·.cents)).sum

inductive MonthDecision where
  | free
  | inStep
  | nothingToAdd
  | step (tier : ManagedTier) (cents beforeCents : Nat) (after : Option ManagedTier)
  deriving DecidableEq

def decideMonthStep (billed : ManagedTier) (priceCents : Nat) (steps : List MonthStep) :
    MonthDecision :=
  let highest := highestPlace steps
  if (placeOf billed : Int) ≤ highest then .inStep
  else if billed = .free then .free
  else
    let beforeCents := askedCents steps
    if priceCents ≤ beforeCents then .nothingToAdd
    else .step billed (priceCents - beforeCents) beforeCents
      (if 0 ≤ highest then some (tierAt highest.toNat) else none)

/-- The earlier of two steps; of two at one moment, the first. -/
def earlierOf (a b : MonthStep) : MonthStep := if a.madeAt ≤ b.madeAt then a else b

/-- The rate the month's first step fixed. -/
def firstStepRate (steps : List MonthStep) : Option Rate :=
  match steps.filter (·.stands) with
  | [] => none
  | s :: rest => some (rest.foldl earlierOf s).rate

variable {billed : ManagedTier} {price : Nat} {steps : List MonthStep}
variable {tier : ManagedTier} {cents before : Nat} {after : Option ManagedTier}

/-- A step is made for a paid tier above every step so far, at more than they ask. -/
theorem decideMonthStep_eq_step_iff :
    decideMonthStep billed price steps = .step tier cents before after ↔
      (highestPlace steps < placeOf billed ∧ billed ≠ .free ∧ askedCents steps < price) ∧
        tier = billed ∧ cents = price - askedCents steps ∧ before = askedCents steps ∧
        after = if 0 ≤ highestPlace steps then some (tierAt (highestPlace steps).toNat)
          else none := by
  unfold decideMonthStep
  by_cases hin : (placeOf billed : Int) ≤ highestPlace steps
  · simp only [hin, if_true, reduceCtorEq, false_iff]
    rintro ⟨⟨h, -⟩, -⟩
    exact absurd hin (not_le.mpr h)
  · have hlt : highestPlace steps < placeOf billed := not_le.mp hin
    by_cases hfree : billed = .free
    · rw [if_neg hin, if_pos hfree]
      constructor
      · intro h
        cases h
      · rintro ⟨⟨-, h, -⟩, -⟩
        exact absurd hfree h
    · by_cases hadd : price ≤ askedCents steps
      · simp only [hin, hfree, hadd, if_true, if_false, reduceCtorEq, false_iff]
        rintro ⟨⟨-, -, h⟩, -⟩
        exact absurd hadd (not_le.mpr h)
      · have hasked : askedCents steps < price := not_le.mp hadd
        simp only [hin, hfree, hadd, if_false, MonthDecision.step.injEq, hlt, hasked, ne_eq,
          not_false_eq_true, true_and]
        constructor
        · rintro ⟨rfl, rfl, rfl, rfl⟩
          exact ⟨rfl, rfl, rfl, rfl⟩
        · rintro ⟨rfl, rfl, rfl, rfl⟩
          exact ⟨rfl, rfl, rfl, rfl⟩

theorem step_pos (h : decideMonthStep billed price steps = .step tier cents before after) :
    0 < cents := by
  obtain ⟨⟨-, -, hlt⟩, -, rfl, -⟩ := decideMonthStep_eq_step_iff.mp h
  omega

theorem step_adds (h : decideMonthStep billed price steps = .step tier cents before after) :
    askedCents steps + cents = price := by
  obtain ⟨⟨-, -, hlt⟩, -, rfl, -⟩ := decideMonthStep_eq_step_iff.mp h
  omega

/-! ### Lists of steps -/

theorem foldl_max_eq (steps : List MonthStep) (start : Int) :
    steps.foldl (fun most s => max most (placeOf s.tierId : Int)) start =
      max start (steps.foldl (fun most s => max most (placeOf s.tierId : Int)) start) := by
  induction steps generalizing start with
  | nil => exact (max_self start).symm
  | cons s rest ih =>
      have h := ih (max start (placeOf s.tierId))
      simp only [List.foldl_cons]
      omega

theorem le_highestPlace {s : MonthStep} (hs : s ∈ steps) :
    (placeOf s.tierId : Int) ≤ highestPlace steps := by
  unfold highestPlace
  generalize (-1 : Int) = start
  induction steps generalizing start with
  | nil => cases hs
  | cons t rest ih =>
      rcases List.mem_cons.mp hs with rfl | hs
      · have h := foldl_max_eq rest (max start (placeOf s.tierId))
        simp only [List.foldl_cons]
        omega
      · exact ih hs _

/-- The steps stay below a bound when each does. -/
theorem highestPlace_lt {bound : Int} (hb : -1 < bound)
    (h : ∀ s ∈ steps, (placeOf s.tierId : Int) < bound) : highestPlace steps < bound := by
  unfold highestPlace
  revert hb
  generalize (-1 : Int) = start
  intro hb
  induction steps generalizing start with
  | nil => exact hb
  | cons t rest ih =>
      have ht := h t List.mem_cons_self
      exact ih (fun s hs => h s (List.mem_cons_of_mem _ hs)) _ (max_lt hb ht)

theorem askedCents_append (a b : List MonthStep) :
    askedCents (a ++ b) = askedCents a + askedCents b := by
  simp [askedCents, List.filter_append, List.sum_append]

theorem le_askedCents {s : MonthStep} (hs : s ∈ steps) (hstands : s.stands = true) :
    s.cents ≤ askedCents steps :=
  List.single_le_sum (fun _ _ => Nat.zero_le _) _
    (List.mem_map_of_mem (List.mem_filter.mpr ⟨hs, hstands⟩))

theorem askedCents_of_void (h : ∀ s ∈ steps, s.stands = false) : askedCents steps = 0 := by
  unfold askedCents
  rw [List.filter_eq_nil_iff.mpr]
  · rfl
  · intro s hs
    rw [h s hs]
    exact Bool.false_ne_true

theorem foldl_earlierOf_mem (s : MonthStep) (rest : List MonthStep) :
    rest.foldl earlierOf s ∈ s :: rest := by
  induction rest generalizing s with
  | nil => exact List.mem_cons_self
  | cons t rest ih =>
      have h := ih (earlierOf s t)
      rw [List.foldl_cons]
      rcases List.mem_cons.mp h with h | h
      · rw [h]
        unfold earlierOf
        split
        · exact List.mem_cons_self
        · exact List.mem_cons_of_mem _ List.mem_cons_self
      · exact List.mem_cons_of_mem _ (List.mem_cons_of_mem _ h)

theorem firstStepRate_eq_none_iff :
    firstStepRate steps = none ↔ ∀ s ∈ steps, s.stands = false := by
  have hfilter : steps.filter (·.stands) = [] ↔ ∀ s ∈ steps, s.stands = false := by
    simp [List.filter_eq_nil_iff]
  rw [← hfilter]
  unfold firstStepRate
  split
  · rename_i h
    simp [h]
  · rename_i h
    simp [h]

/-- The rate fixed is the rate of a step that stands. -/
theorem firstStepRate_mem {rate : Rate} (h : firstStepRate steps = some rate) :
    ∃ s ∈ steps, s.stands = true ∧ s.rate = rate := by
  unfold firstStepRate at h
  split at h
  · cases h
  · rename_i s rest hfilter
    have hmem := foldl_earlierOf_mem s rest
    rw [← hfilter] at hmem
    exact ⟨_, (List.mem_filter.mp hmem).1, (List.mem_filter.mp hmem).2, Option.some.inj h⟩

/-! ### What a month stands at -/

/-- What a month has come to: the highest tier stepped, the rate its first step
fixed, and what its steps ask in all. -/
structure Standing where
  tier : ManagedTier
  rate : Rate
  cents : Nat
  deriving DecidableEq

/-- What a run hands the month: the tier it bills, that tier's price, and the
rate the month would open at. -/
structure Quote where
  tier : ManagedTier
  priceCents : Nat
  opening : Rate

namespace Standing

def height : Option Standing → Int
  | some s => placeOf s.tier
  | none => -1

def asks : Option Standing → Nat
  | some s => s.cents
  | none => 0

/-- The rate a quote is priced at. -/
def rateFor (a : Option Standing) (q : Quote) : Rate :=
  match a with
  | some s => s.rate
  | none => q.opening

/-- What the quote asks of the month at its rate. -/
def asked (a : Option Standing) (q : Quote) : Nat := atRate q.priceCents (rateFor a q)

/-- A paid tier above the standing, at more than it asks. -/
def Moves (a : Option Standing) (q : Quote) : Prop :=
  height a < placeOf q.tier ∧ q.tier ≠ .free ∧ asks a < asked a q

instance (a : Option Standing) (q : Quote) : Decidable (Moves a q) :=
  inferInstanceAs (Decidable (_ ∧ _ ∧ _))

def next (a : Option Standing) (q : Quote) : Option Standing :=
  if Moves a q then some ⟨q.tier, rateFor a q, asked a q⟩ else a

variable {a : Option Standing} {q : Quote} {qs : List Quote}

theorem next_of_moves (h : Moves a q) : next a q = some ⟨q.tier, rateFor a q, asked a q⟩ :=
  if_pos h

theorem next_of_not_moves (h : ¬ Moves a q) : next a q = a :=
  if_neg h

theorem height_le_next : height a ≤ height (next a q) := by
  by_cases hm : Moves a q
  · rw [next_of_moves hm]
    exact hm.1.le
  · rw [next_of_not_moves hm]

theorem asks_le_next : asks a ≤ asks (next a q) := by
  by_cases hm : Moves a q
  · rw [next_of_moves hm]
    exact hm.2.2.le
  · rw [next_of_not_moves hm]

theorem height_le_foldl (qs : List Quote) (a : Option Standing) :
    height a ≤ height (qs.foldl next a) := by
  induction qs generalizing a with
  | nil => exact le_rfl
  | cons q qs ih => exact height_le_next.trans (ih _)

theorem asks_le_foldl (qs : List Quote) (a : Option Standing) :
    asks a ≤ asks (qs.foldl next a) := by
  induction qs generalizing a with
  | nil => exact le_rfl
  | cons q qs ih => exact asks_le_next.trans (ih _)

/-- A paid tier at most at a price of no more than what the month asks adds
nothing: one above the standing was quoted at no more than it asks. -/
theorem asked_le_of_height_lt (h : height (next a q) < placeOf q.tier) (hq : q.tier ≠ .free) :
    asked a q ≤ asks (next a q) := by
  by_cases hm : Moves a q
  · rw [next_of_moves hm] at h
    exact absurd h (lt_irrefl _)
  · rw [next_of_not_moves hm] at h ⊢
    by_contra hlt
    exact hm ⟨h, hq, not_le.mp hlt⟩

/-- A month stands where one of its quotes put it, for what that quote asked. -/
theorem foldl_from_quote {s : Standing} (h : qs.foldl next none = some s) :
    ∃ pre q post, qs = pre ++ q :: post ∧ Moves (pre.foldl next none) q ∧
      s = ⟨q.tier, rateFor (pre.foldl next none) q, asked (pre.foldl next none) q⟩ := by
  induction qs using List.reverseRecOn with
  | nil => cases h
  | append_singleton qs q ih =>
      rw [List.foldl_append, List.foldl_cons, List.foldl_nil] at h
      by_cases hm : Moves (qs.foldl next none) q
      · rw [next_of_moves hm] at h
        exact ⟨qs, q, [], rfl, hm, (Option.some.inj h).symm⟩
      · rw [next_of_not_moves hm] at h
        obtain ⟨pre, q', post, rfl, hm', hs⟩ := ih h
        exact ⟨pre, q', post ++ [q], by simp, hm', hs⟩

/-- Every tier's price is above those the lower tiers were quoted at, Free's
included. -/
def Rising (qs : List Quote) : Prop :=
  qs.Pairwise (fun a b => placeOf a.tier < placeOf b.tier → a.priceCents < b.priceCents) ∧
    ∀ q ∈ qs, q.tier ≠ .free → 0 < q.priceCents

/-- With rising prices the month asks the price of the highest tier quoted, as
the first quote of that tier had it. -/
theorem asks_of_rising {pre post : List Quote}
    (heven : ∀ x ∈ pre ++ q :: post, 2 ∣ x.priceCents) (hrising : Rising (pre ++ q :: post))
    (hpre : ∀ x ∈ pre, placeOf x.tier < placeOf q.tier)
    (hpost : ∀ x ∈ post, placeOf x.tier ≤ placeOf q.tier) (hfree : q.tier ≠ .free) :
    (pre ++ q :: post).foldl next none =
      some ⟨q.tier, rateFor (pre.foldl next none) q, asked (pre.foldl next none) q⟩ := by
  have hq : q ∈ pre ++ q :: post := by simp
  have hm : Moves (pre.foldl next none) q := by
    rcases e : pre.foldl next none with - | s
    · refine ⟨?_, hfree, ?_⟩
      · show (-1 : Int) < placeOf q.tier
        omega
      have hlt := atRate_lt q.opening (heven q hq) (hrising.2 q hq hfree)
      rwa [atRate_zero] at hlt
    · -- The standing is what an earlier quote asked, of a lower tier at a lower price.
      obtain ⟨pre', x, post', hsplit, -, hs⟩ := foldl_from_quote e
      have hx : x ∈ pre := by simp [hsplit]
      have hprice : x.priceCents < q.priceCents :=
        (List.pairwise_append.mp hrising.1).2.2 x hx q List.mem_cons_self (hpre x hx)
      subst hs
      exact ⟨by simpa [height] using hpre x hx, hfree, atRate_lt _ (heven q hq) hprice⟩
  have hstay : ∀ s : Standing, s.tier = q.tier → post.foldl next (some s) = some s := by
    intro s hs
    clear heven hrising hq
    induction post with
    | nil => rfl
    | cons x post ih =>
        have hnot : ¬ Moves (some s) x := by
          rintro ⟨h, -⟩
          have hx := hpost x List.mem_cons_self
          simp only [height, hs] at h
          omega
        rw [List.foldl_cons, next_of_not_moves hnot]
        exact ih fun x hx => hpost x (List.mem_cons_of_mem _ hx)
  rw [List.foldl_append, List.foldl_cons, next_of_moves hm]
  exact hstay _ rfl

/-- Free moves nothing. -/
theorem foldl_of_free (h : ∀ q ∈ qs, q.tier = .free) : qs.foldl next a = a := by
  induction qs with
  | nil => rfl
  | cons q qs ih =>
      have hnot : ¬ Moves a q := fun hm => hm.2.1 (h q List.mem_cons_self)
      rw [List.foldl_cons, next_of_not_moves hnot]
      exact ih fun q' hq' => h q' (List.mem_cons_of_mem _ hq')

/-- The tiers the month is moved to, in turn. -/
def moved : Option Standing → List Quote → List ManagedTier
  | _, [] => []
  | a, q :: qs => if Moves a q then q.tier :: moved (next a q) qs else moved (next a q) qs

theorem height_lt_of_mem_moved {t : ManagedTier} (h : t ∈ moved a qs) : height a < placeOf t := by
  induction qs generalizing a with
  | nil => cases h
  | cons q qs ih =>
      unfold moved at h
      by_cases hm : Moves a q
      · rw [if_pos hm] at h
        rcases List.mem_cons.mp h with rfl | h
        · exact hm.1
        · exact height_le_next.trans_lt (ih h)
      · rw [if_neg hm] at h
        exact height_le_next.trans_lt (ih h)

/-- No tier is stepped twice: each is above the one before. -/
theorem moved_pairwise (a : Option Standing) (qs : List Quote) :
    (moved a qs).Pairwise (fun t t' => placeOf t < placeOf t') := by
  induction qs generalizing a with
  | nil => exact List.Pairwise.nil
  | cons q qs ih =>
      unfold moved
      by_cases hm : Moves a q
      · rw [if_pos hm]
        refine List.Pairwise.cons ?_ (ih _)
        intro t ht
        have h := height_lt_of_mem_moved ht
        rw [next_of_moves hm] at h
        simpa [height] using h
      · rw [if_neg hm]
        exact ih _

end Standing

/-! ### The rule moves the standing -/

/-- The steps come to the standing: none is void, all have its rate. -/
def Stands (steps : List MonthStep) : Option Standing → Prop
  | none => steps = []
  | some s => steps ≠ [] ∧ highestPlace steps = placeOf s.tier ∧ askedCents steps = s.cents ∧
      ∀ st ∈ steps, st.stands = true ∧ st.rate = s.rate

variable {a : Option Standing} {q : Quote}

theorem Stands.height (h : Stands steps a) : highestPlace steps = Standing.height a := by
  rcases a with - | s
  · rw [show steps = [] from h]
    rfl
  · exact h.2.1

theorem Stands.asks (h : Stands steps a) : askedCents steps = Standing.asks a := by
  rcases a with - | s
  · rw [show steps = [] from h]
    rfl
  · exact h.2.2.1

/-- The rate a run reads is the one the quote is priced at. -/
theorem Stands.rate {credit : CreditForMonth} (h : Stands steps a)
    (hq : q.opening = monthRate none credit) :
    monthRate (firstStepRate steps) credit = Standing.rateFor a q := by
  rcases a with - | s
  · rw [show steps = [] from h]
    exact hq.symm
  · obtain ⟨hne, -, -, hall⟩ := h
    rcases e : firstStepRate steps with - | rate
    · obtain ⟨st, hst⟩ := List.exists_mem_of_ne_nil _ hne
      have hstands := firstStepRate_eq_none_iff.mp e st hst
      rw [(hall st hst).1] at hstands
      cases hstands
    · obtain ⟨st, hst, -, rfl⟩ := firstStepRate_mem e
      exact (hall st hst).2

/-- The rule makes a step exactly when the quote moves the standing. -/
theorem decideMonthStep_moves (h : Stands steps a) :
    (∃ cents before after,
      decideMonthStep q.tier (Standing.asked a q) steps = .step q.tier cents before after) ↔
      Standing.Moves a q := by
  constructor
  · rintro ⟨cents, before, after, hd⟩
    have hm := (decideMonthStep_eq_step_iff.mp hd).1
    rw [h.height, h.asks] at hm
    exact hm
  · intro hm
    refine ⟨_, _, _, decideMonthStep_eq_step_iff.mpr ⟨?_, rfl, rfl, rfl, rfl⟩⟩
    rw [h.height, h.asks]
    exact hm

end Ownpace.Billing
