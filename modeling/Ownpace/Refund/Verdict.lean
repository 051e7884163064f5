import Ownpace.Refund.MoneyBack

/-!
Money back is exact, as long as no payment overtakes a settlement.

Everything hangs on one value, the `verdict` of a credit note: what
`decideMoneyBack` says of it now.  `Static` is what the rows look like; `Going`
says that every push at work, every refund made and every outcome written agree
with the verdict.  While the invoice is unpaid the verdict is to settle; the
payment may turn it, and that is where a settlement that is on its way, or
written, would be left behind (`PaymentFits`).
-/

namespace Ownpace.Refund

open Billing (InvoiceStatus)

/-! ### What is promised -/

namespace State

/-- What is owed once the credit notes are taken off. -/
def owed (s : State) : Int := max (s.invoice.total - s.creditedCents) 0

/-- What the provider took for the invoice. -/
def paid (s : State) : Int := s.invoice.paidCents.getD 0

/-- The refunds of a credit note that did not fail. -/
def liveOf (s : State) (reference : String) : List MollieRefund :=
  s.refunds.filter fun r => r.creditNote = reference && r.live

end State

structure Exact (s : State) : Prop where
  /-- No refund is made twice for one credit note. -/
  once : ∀ reference, (s.liveOf reference).length ≤ 1
  /-- None is refunded more than its own amount. -/
  within_note : ∀ n ∈ s.notes, ((s.liveOf n.reference).map (·.cents)).sum ≤ -n.total
  /-- Together they never exceed what was paid. -/
  within_paid : ((s.refunds.filter (·.live)).map (·.cents)).sum ≤ s.paid
  /-- A refund that is written down was made, for this credit note and of that amount. -/
  written : ∀ n ∈ s.notes, ∀ id cents, n.moneyBack = some (.refunded id cents) →
    ∃ r ∈ s.refunds, r.id = id ∧ r.cents = cents ∧ r.creditNote = n.reference
  /-- Once all are made real, what was paid above what is owed is refunded. -/
  sum : (∀ n ∈ s.notes, n.moneyBack ≠ none) → s.refundedCents = max 0 (s.paid - s.owed)
  /-- And each is left by hand when the provider took nothing that can be read. -/
  by_hand : (∀ n ∈ s.notes, n.moneyBack ≠ none) → s.invoice.status = .paid →
    s.invoice.paidCents = none → ∀ n ∈ s.notes, n.moneyBack = some .byHand

/-! ### When it holds -/

/-- A credit note was settled, or a push is at work that read the invoice unpaid. -/
def SettledUnpaid (s : State) : Prop :=
  (∃ n ∈ s.notes, n.moneyBack = some .settled) ∨
    ∃ push p, s.pushes push = some p ∧ p.due.original.status ≠ .paid

/-- A payment that comes after that is no more than what is owed. -/
def PaymentFits (s : State) (taken : Option Int) : Prop :=
  SettledUnpaid s → ∃ cents, taken = some cents ∧ cents ≤ s.owed

/-- What a step must meet. -/
def Meets (s : State) : Event → Prop
  | .webhookPaid id readable => ∀ payment ∈ s.payments, payment.id = id →
      s.invoice.paymentId = some id → s.invoice.status ≠ .paid → s.invoice.status ≠ .void →
      PaymentFits s (if readable then some payment.amount else none)
  | .readBackPaid => (s.invoice.status = .sent ∨ s.invoice.status = .overdue) →
      s.creditedCents < s.invoice.total → PaymentFits s none
  -- the pay route's write does not come after the payment
  | .recordPaymentId _ => s.invoice.status ≠ .paid
  | _ => True

section Decide

variable {due : MoneyBackDue}

theorem decide_unpaid (h : due.original.status ≠ .paid) : decideMoneyBack due = .settle := if_pos h

/-- Paid through the provider, of an amount that could be read. -/
theorem decide_through {paymentId : String} {cents : Int} (h : due.original.status = .paid)
    (hid : due.original.paymentId = some paymentId) (hcents : due.original.paidCents = some cents) :
    decideMoneyBack due =
      if 0 < min due.creditCents
          (cents - max (due.original.totalCents - due.creditedCents) 0 - due.refundedCents) then
        .refund (min due.creditCents
          (cents - max (due.original.totalCents - due.creditedCents) 0 - due.refundedCents)) paymentId
      else .settle := by
  unfold decideMoneyBack
  rw [if_neg (not_not_intro h), hid, hcents]

theorem decide_byHand (h : due.original.status = .paid)
    (hnone : due.original.paymentId = none ∨ due.original.paidCents = none) :
    decideMoneyBack due = .byHand due.creditCents := by
  unfold decideMoneyBack
  rw [if_neg (not_not_intro h)]
  rcases hnone with hid | hcents
  · rw [hid]
  · rw [hcents]
    cases due.original.paymentId <;> rfl

end Decide

/-- A credit note as it is read now, the only one of its invoice. -/
def readNow (s : State) (n : CreditNote) : MoneyBackDue := { dueOf s n with refundedCents := 0 }

/-- What is decided of it now. -/
def verdict (s : State) (n : CreditNote) : MoneyBackDecision := decideMoneyBack (readNow s n)

theorem verdict_unpaid {s : State} (h : s.invoice.status ≠ .paid) (n : CreditNote) :
    verdict s n = .settle := decide_unpaid h

theorem verdict_congr {s s' : State} {n n' : CreditNote}
    (hinvoice : s'.invoice.original = s.invoice.original)
    (hcredited : s'.creditedCents = s.creditedCents) (htotal : n'.total = n.total) :
    verdict s' n' = verdict s n := by
  unfold verdict decideMoneyBack readNow dueOf
  simp only [hinvoice, hcredited, htotal]

/-- The cases of a verdict on a paid invoice. -/
theorem verdict_through {s : State} (n : CreditNote) {cents : Int} {paymentId : String}
    (hpaid : s.invoice.status = .paid) (hid : s.invoice.paymentId = some paymentId)
    (hcents : s.invoice.paidCents = some cents) :
    verdict s n = if 0 < min (-n.total) (cents - s.owed) then
      .refund (min (-n.total) (cents - s.owed)) paymentId else .settle := by
  have hdue : decideMoneyBack (readNow s n) = _ := decide_through hpaid hid hcents
  simp only [readNow, dueOf, Invoice.original, sub_zero] at hdue
  exact hdue

theorem verdict_otherwise {s : State} (n : CreditNote) (hpaid : s.invoice.status = .paid)
    (hnone : s.invoice.paymentId = none ∨ s.invoice.paidCents = none) :
    verdict s n = .byHand (-n.total) :=
  decide_byHand hpaid hnone

/-- A refund is what was paid above what is owed, and no more than the credit note. -/
theorem verdict_refund {s : State} {n : CreditNote} {cents : Int} {paymentId : String}
    (h : verdict s n = .refund cents paymentId) :
    s.invoice.status = .paid ∧ s.invoice.paymentId = some paymentId ∧
      ∃ c, s.invoice.paidCents = some c ∧ cents = min (-n.total) (c - s.owed) ∧ 0 < cents := by
  by_cases hpaid : s.invoice.status = .paid
  · cases hid : s.invoice.paymentId with
    | none =>
        rw [verdict_otherwise n hpaid (.inl hid)] at h
        cases h
    | some id =>
        cases hcents : s.invoice.paidCents with
        | none =>
            rw [verdict_otherwise n hpaid (.inr hcents)] at h
            cases h
        | some c =>
            rw [verdict_through n hpaid hid hcents] at h
            split at h
            · next hpos =>
                obtain ⟨rfl, rfl⟩ := MoneyBackDecision.refund.inj h
                exact ⟨hpaid, rfl, c, rfl, rfl, hpos⟩
            · cases h
  · rw [verdict_unpaid hpaid] at h
    cases h

/-- To settle is to find nothing paid above what is owed. -/
theorem verdict_settle {s : State} {n : CreditNote} {cents : Int}
    (h : verdict s n = .settle) (hpaid : s.invoice.status = .paid)
    (hcents : s.invoice.paidCents = some cents) : min (-n.total) (cents - s.owed) ≤ 0 := by
  cases hid : s.invoice.paymentId with
  | none =>
      rw [verdict_otherwise n hpaid (.inl hid)] at h
      cases h
  | some id =>
      rw [verdict_through n hpaid hid hcents] at h
      split at h
      · cases h
      · next hneg => exact le_of_not_gt hneg

theorem verdict_byHand {s : State} {n : CreditNote} {cents : Int}
    (h : verdict s n = .byHand cents) :
    s.invoice.status = .paid ∧ (s.invoice.paymentId = none ∨ s.invoice.paidCents = none) := by
  by_cases hpaid : s.invoice.status = .paid
  · refine ⟨hpaid, ?_⟩
    cases hid : s.invoice.paymentId with
    | none => exact .inl rfl
    | some id =>
        cases hcents : s.invoice.paidCents with
        | none => exact .inr rfl
        | some c =>
            rw [verdict_through n hpaid hid hcents] at h
            split at h <;> cases h
  · rw [verdict_unpaid hpaid] at h
    cases h

/-! ### The rows -/

/-- What the rows look like, whatever is going on. -/
structure Static (s : State) : Prop where
  one : s.notes.length ≤ 1
  named : ∀ n ∈ s.notes, creditReference s.invoice.reference = some n.reference
  takesOff : ∀ n ∈ s.notes, n.total ≤ 0
  total_nonneg : 0 ≤ s.invoice.total
  issued : ∀ n ∈ s.notes, (n.status = .draft ∧ n.moneyBack = none) ∨
    (n.status = .sent ∧ s.invoice.status ≠ .draft)
  payments : ∀ p ∈ s.payments,
    s.invoice.status ≠ .draft ∧ 0 ≤ p.amount ∧ p.amount ≤ s.invoice.total
  paid : ∀ c, s.invoice.paidCents = some c →
    s.invoice.status = .paid ∧ (0 ≤ c ∧ c ≤ s.invoice.total) ∧ s.invoice.paymentId ≠ none

/-- What a push knows of the credit note it is at work on. -/
def PhaseOk (s : State) (n : CreditNote) : Phase → Prop
  | .claimed => True
  | .listed cents paymentId readAt => verdict s n = .refund cents paymentId ∧ readAt ≤ s.time ∧
      ∀ r ∈ s.refunds, r.creditNote = n.reference → r.live = true → readAt ≤ r.madeAt
  | .answered (.refunded id cents) =>
      ∃ r ∈ s.refunds, r.id = id ∧ r.cents = cents ∧ r.creditNote = n.reference
  | .answered .settled => verdict s n = .settle
  | .answered (.byHand _) => ∃ cents, verdict s n = .byHand cents

def PushOk (s : State) (p : Push) : Prop :=
  ∃ n ∈ s.notes, n.status = .sent ∧ p.due.reference = n.reference ∧
    decideMoneyBack p.due = verdict s n ∧
    (p.due.original.status = .paid → s.invoice.status = .paid) ∧ PhaseOk s n p.phase

def RefundOk (s : State) (r : MollieRefund) : Prop :=
  ∃ n ∈ s.notes, n.status = .sent ∧ r.creditNote = n.reference ∧
    verdict s n = .refund r.cents r.paymentId ∧ r.madeAt ≤ s.time

/-- What is written of a credit note. -/
def WrittenOk (s : State) (n : CreditNote) : Option MoneyBack → Prop
  | none => True
  | some (.refunded id cents) =>
      ∃ r ∈ s.refunds, r.id = id ∧ r.cents = cents ∧ r.creditNote = n.reference
  | some .settled => verdict s n = .settle
  | some .byHand => ∃ cents, verdict s n = .byHand cents

/-- What is going on agrees with the verdict. -/
structure Going (s : State) : Prop where
  pushes : ∀ push p, s.pushes push = some p → PushOk s p
  refunds : ∀ r ∈ s.refunds, RefundOk s r
  notes : ∀ n ∈ s.notes, WrittenOk s n n.moneyBack
  once : ∀ reference, (s.liveOf reference).length ≤ 1

theorem Static.cases {s : State} (h : Static s) : s.notes = [] ∨ ∃ n, s.notes = [n] := by
  have hone := h.one
  cases hnotes : s.notes with
  | nil => exact .inl rfl
  | cons n rest =>
      rw [hnotes, List.length_cons] at hone
      obtain rfl := List.length_eq_zero_iff.mp (Nat.le_zero.mp (Nat.le_of_succ_le_succ hone))
      exact .inr ⟨n, rfl⟩

theorem Static.unique {s : State} (h : Static s) {n n' : CreditNote} (hn : n ∈ s.notes)
    (hn' : n' ∈ s.notes) : n = n' := by
  rcases h.cases with hnil | ⟨m, hm⟩
  · rw [hnil] at hn
    cases hn
  · rw [hm] at hn hn'
    exact (List.mem_singleton.mp hn).trans (List.mem_singleton.mp hn').symm

theorem Static.credited_nonneg {s : State} (h : Static s) : 0 ≤ s.creditedCents := by
  have hsum : (s.notes.map (·.total)).sum ≤ 0 := by
    rcases h.cases with hnil | ⟨n, hn⟩
    · rw [hnil]
      exact le_refl 0
    · rw [hn, List.map_cons, List.map_nil, List.sum_singleton]
      exact h.takesOff n (hn ▸ List.mem_singleton_self n)
  exact Int.neg_nonneg_of_nonpos hsum

/-- While the invoice is unpaid, nothing was refunded. -/
theorem Going.no_refunds {s : State} (h : Going s) (hunpaid : s.invoice.status ≠ .paid) :
    s.refunds = [] := by
  refine List.eq_nil_iff_forall_not_mem.mpr fun r hr => ?_
  obtain ⟨n, -, -, -, hverdict, -⟩ := h.refunds r hr
  rw [verdict_unpaid hunpaid] at hverdict
  cases hverdict

/-- As long as no credit note is issued, nothing is going on. -/
theorem Going.idle {s : State} (h : Going s) (hdraft : ∀ n ∈ s.notes, n.status ≠ .sent) :
    (∀ push, s.pushes push = none) ∧ s.refunds = [] := by
  refine ⟨fun push => ?_, List.eq_nil_iff_forall_not_mem.mpr fun r hr => ?_⟩
  · cases hpush : s.pushes push with
    | none => rfl
    | some p =>
        obtain ⟨n, hn, hsent, -⟩ := h.pushes push p hpush
        exact absurd hsent (hdraft n hn)
  · obtain ⟨n, hn, hsent, -⟩ := h.refunds r hr
    exact hdraft n hn hsent

/-- Nothing is going on. -/
theorem going_of_idle {s : State} (hpushes : ∀ push, s.pushes push = none) (hrefunds : s.refunds = [])
    (hnotes : ∀ n ∈ s.notes, n.moneyBack = none) : Going s where
  pushes push p hpush := by
    rw [hpushes push] at hpush
    cases hpush
  refunds r hr := by
    rw [hrefunds] at hr
    cases hr
  notes n hn := by
    rw [hnotes n hn]
    trivial
  once reference := by
    rw [State.liveOf, hrefunds]
    exact Nat.zero_le 1

/-! ### What goes on, from one state to the next -/

/-- The issued credit notes keep their verdicts, and the refunds that were made stay. -/
structure Onward (s s' : State) : Prop where
  notes : ∀ n ∈ s.notes, n.status = .sent → ∃ n' ∈ s'.notes, n'.status = .sent ∧
    n'.reference = n.reference ∧ verdict s' n' = verdict s n
  kept : ∀ r ∈ s.refunds, ∃ r' ∈ s'.refunds,
    r'.id = r.id ∧ r'.cents = r.cents ∧ r'.creditNote = r.creditNote
  live : ∀ r' ∈ s'.refunds, r'.live = true →
    (∃ r ∈ s.refunds, r.live = true ∧ r.creditNote = r'.creditNote ∧ r.madeAt = r'.madeAt) ∨
      s.time ≤ r'.madeAt
  time : s.time ≤ s'.time
  paid : s.invoice.status = .paid → s'.invoice.status = .paid

namespace Onward

variable {s s' : State}

theorem push (h : Onward s s') {p : Push} (hp : PushOk s p) : PushOk s' p := by
  obtain ⟨n, hn, hsent, hreference, hdecide, hpaid, hphase⟩ := hp
  obtain ⟨n', hn', hsent', hreference', hverdict⟩ := h.notes n hn hsent
  refine ⟨n', hn', hsent', hreference.trans hreference'.symm, hdecide.trans hverdict.symm,
    fun hdue => h.paid (hpaid hdue), ?_⟩
  cases hp : p.phase with
  | claimed => trivial
  | listed cents paymentId readAt =>
      rw [hp] at hphase
      obtain ⟨hrefund, hread, hafter⟩ := hphase
      refine ⟨hverdict.trans hrefund, le_trans hread h.time, fun r' hr' hnote hlive => ?_⟩
      rcases h.live r' hr' hlive with ⟨r, hr, hrlive, hrnote, hmade⟩ | hlater
      · rw [← hmade]
        exact hafter r hr (hrnote.trans (hnote.trans hreference')) hrlive
      · exact le_trans hread hlater
  | answered outcome =>
      rw [hp] at hphase
      cases outcome with
      | settled => exact hverdict.trans hphase
      | byHand cents => exact ⟨hphase.choose, hverdict.trans hphase.choose_spec⟩
      | refunded id cents =>
          obtain ⟨r, hr, hid, hcents, hnote⟩ := hphase
          obtain ⟨r', hr', hid', hcents', hnote'⟩ := h.kept r hr
          exact ⟨r', hr', hid'.trans hid, hcents'.trans hcents,
            hnote'.trans (hnote.trans hreference'.symm)⟩

theorem refund (h : Onward s s') {r : MollieRefund} (hr : RefundOk s r) : RefundOk s' r := by
  obtain ⟨n, hn, hsent, hnote, hverdict, hmade⟩ := hr
  obtain ⟨n', hn', hsent', hreference', hverdict'⟩ := h.notes n hn hsent
  exact ⟨n', hn', hsent', hnote.trans hreference'.symm, hverdict'.trans hverdict,
    le_trans hmade h.time⟩

theorem written (h : Onward s s') {n n' : CreditNote} (hreference : n'.reference = n.reference)
    (hverdict : verdict s' n' = verdict s n) {m : Option MoneyBack} (hm : WrittenOk s n m) :
    WrittenOk s' n' m := by
  cases m with
  | none => trivial
  | some written =>
      cases written with
      | settled => exact hverdict.trans hm
      | byHand => exact ⟨hm.choose, hverdict.trans hm.choose_spec⟩
      | refunded id cents =>
          obtain ⟨r, hr, hid, hcents, hnote⟩ := hm
          obtain ⟨r', hr', hid', hcents', hnote'⟩ := h.kept r hr
          exact ⟨r', hr', hid'.trans hid, hcents'.trans hcents,
            hnote'.trans (hnote.trans hreference.symm)⟩

/-- Only the invoice, the notes and what is read of them may change. -/
theorem of_notes (hrefunds : s'.refunds = s.refunds) (htime : s'.time = s.time)
    (hpaid : s.invoice.status = .paid → s'.invoice.status = .paid)
    (hnotes : ∀ n ∈ s.notes, n.status = .sent → ∃ n' ∈ s'.notes, n'.status = .sent ∧
      n'.reference = n.reference ∧ verdict s' n' = verdict s n) : Onward s s' where
  notes := hnotes
  kept r hr := ⟨r, hrefunds ▸ hr, rfl, rfl, rfl⟩
  live r hr hlive := .inl ⟨r, hrefunds ▸ hr, hlive, rfl, rfl⟩
  time := le_of_eq htime.symm
  paid := hpaid

end Onward

end Ownpace.Refund
