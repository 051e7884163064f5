import Ownpace.Refund.Verdict

/-!
What each event leaves as it was: the rows look right (`Static`), and what goes
on agrees with the verdict (`Going`).

The payment is the one event that can turn a verdict; it is taken when nothing
was settled and no push is at work, or when it is no more than what is owed
(`going_of_payment`).
-/

namespace Ownpace.Refund

open Billing (InvoiceStatus)

/-! ### The invoice changes -/

section Invoice

variable {s : State} {i : Invoice}

/-- The verdict of every credit note is to settle, before and after. -/
theorem going_of_settle (h : Going s) (hunpaid : s.invoice.status ≠ .paid)
    (hsettle : ∀ n ∈ s.notes, verdict { s with invoice := i } n = .settle) :
    Going { s with invoice := i } := by
  have hsame : ∀ n ∈ s.notes, verdict { s with invoice := i } n = verdict s n := fun n hn =>
    (hsettle n hn).trans (verdict_unpaid hunpaid n).symm
  have honward : Onward s { s with invoice := i } :=
    .of_notes rfl rfl (fun hpaid => absurd hpaid hunpaid)
      fun n hn hsent => ⟨n, hn, hsent, rfl, hsame n hn⟩
  exact {
    pushes := fun push p hpush => honward.push (h.pushes push p hpush)
    refunds := fun r hr => honward.refund (h.refunds r hr)
    notes := fun n hn => honward.written rfl (hsame n hn) (h.notes n hn)
    once := h.once }

/-- The invoice stays unpaid. -/
theorem going_of_unpaid (h : Going s) (hunpaid : s.invoice.status ≠ .paid)
    (hstill : i.status ≠ .paid) : Going { s with invoice := i } :=
  going_of_settle h hunpaid fun n _ => verdict_unpaid hstill n

/-- **The payment arrives.**  Either nothing was settled and no push is at work,
or no more was paid than is owed; then to settle is still right. -/
theorem going_of_payment (h : Going s) (hunpaid : s.invoice.status ≠ .paid)
    (hpaid : i.status = .paid) (htotal : i.total = s.invoice.total)
    (hid : i.paidCents ≠ none → i.paymentId ≠ none) (hfits : PaymentFits s i.paidCents) :
    Going { s with invoice := i } := by
  by_cases hflight : SettledUnpaid s
  · obtain ⟨cents, hcents, hle⟩ := hfits hflight
    refine going_of_settle h hunpaid fun n _ => ?_
    obtain ⟨paymentId, hpaymentId⟩ :=
      Option.ne_none_iff_exists'.mp (hid (by rw [hcents]; exact Option.some_ne_none _))
    have howed : ({ s with invoice := i } : State).owed = s.owed := by
      simp only [State.owed, State.creditedCents, htotal]
    have hnothing : ¬ 0 < min (-n.total) (cents - ({ s with invoice := i } : State).owed) := by
      rw [howed]
      have hmin := min_le_right (-n.total) (cents - s.owed)
      omega
    rw [verdict_through n hpaid hpaymentId hcents, if_neg hnothing]
  · refine going_of_idle (fun push => ?_) (h.no_refunds hunpaid) fun n hn => ?_
    · cases hpush : s.pushes push with
      | none => rfl
      | some p =>
          obtain ⟨n, hn, -, -, -, hdue, -⟩ := h.pushes push p hpush
          exact absurd (.inr ⟨push, p, hpush, fun heq => hunpaid (hdue heq)⟩) hflight
    · have hwritten := h.notes n hn
      cases hback : n.moneyBack with
      | none => rfl
      | some m =>
          rw [hback] at hwritten
          cases m with
          | settled => exact absurd (.inl ⟨n, hn, hback⟩) hflight
          | byHand =>
              obtain ⟨cents, hverdict⟩ := hwritten
              exact absurd (verdict_byHand hverdict).1 hunpaid
          | refunded id cents =>
              obtain ⟨r, hr, -⟩ := hwritten
              rw [h.no_refunds hunpaid] at hr
              cases hr

end Invoice

/-! ### One step -/

/-- The rows look right, and what goes on agrees with the verdict. -/
structure Kept (s : State) : Prop where
  rows : Static s
  going : Going s

section Steps

variable {s : State}

theorem kept_issueInvoice (h : Kept s) (total : Nat) : Kept (issueInvoice s total) := by
  unfold issueInvoice
  split
  · next hdraft =>
      have hnotes : ∀ n ∈ s.notes, n.status = .draft ∧ n.moneyBack = none := fun n hn =>
        (h.rows.issued n hn).resolve_right fun hsent => hsent.2 hdraft
      have hidle := h.going.idle fun n hn hsent => by
        rw [(hnotes n hn).1] at hsent
        cases hsent
      refine ⟨{ h.rows with
        total_nonneg := Int.natCast_nonneg total
        issued := fun n hn => .inl (hnotes n hn)
        payments := fun p hp => absurd hdraft (h.rows.payments p hp).1
        paid := fun c hc => ?_ }, going_of_idle hidle.1 hidle.2 fun n hn => (hnotes n hn).2⟩
      have hpaid := (h.rows.paid c hc).1
      rw [hdraft] at hpaid
      cases hpaid
  · exact h

/-- The invoice leaves for another state in which it is not paid. -/
theorem kept_of_status (h : Kept s) {status : InvoiceStatus} (hunpaid : s.invoice.status ≠ .paid)
    (hstill : status ≠ .paid) (hissued : status ≠ .draft) :
    Kept { s with invoice := { s.invoice with status } } where
  rows := { h.rows with
    issued := fun n hn => (h.rows.issued n hn).imp_right fun hsent => ⟨hsent.1, hissued⟩
    payments := fun p hp => ⟨hissued, (h.rows.payments p hp).2⟩
    paid := fun c hc => absurd (h.rows.paid c hc).1 hunpaid }
  going := going_of_unpaid h.going hunpaid hstill

theorem kept_readBackLate (h : Kept s) : Kept (readBackLate s) := by
  unfold readBackLate
  split
  · next hsent => exact kept_of_status h (by rw [hsent]; decide) (by decide) (by decide)
  · exact h

theorem kept_voidInvoice (h : Kept s) : Kept (voidInvoice s) := by
  unfold voidInvoice
  split
  · next hsent => exact kept_of_status h (by rw [hsent]; decide) (by decide) (by decide)
  · exact h

theorem paid_ne_draft : InvoiceStatus.paid ≠ .draft := by decide

/-- The invoice is written paid. -/
theorem kept_of_paid (h : Kept s) (taken : Option Int) (hunpaid : s.invoice.status ≠ .paid)
    (htaken : ∀ c, taken = some c →
      (0 ≤ c ∧ c ≤ s.invoice.total) ∧ s.invoice.paymentId ≠ none)
    (hfits : PaymentFits s taken) :
    Kept { s with invoice := { s.invoice with status := .paid, paidCents := taken } } where
  rows := { h.rows with
    issued := fun n hn => (h.rows.issued n hn).imp_right fun hsent => ⟨hsent.1, paid_ne_draft⟩
    payments := fun p hp => ⟨paid_ne_draft, (h.rows.payments p hp).2⟩
    paid := fun c hc => ⟨rfl, htaken c hc⟩ }
  going := by
    refine going_of_payment h.going hunpaid rfl rfl (fun hsome => ?_) hfits
    obtain ⟨c, hc⟩ := Option.ne_none_iff_exists'.mp hsome
    exact (htaken c hc).2

theorem kept_readBackPaid (h : Kept s) (hmeets : Meets s .readBackPaid) : Kept (readBackPaid s) := by
  unfold readBackPaid
  split
  · next hguard =>
      have hunpaid : s.invoice.status ≠ .paid := by
        rcases hguard.1 with hstatus | hstatus <;> (rw [hstatus]; decide)
      have hnone : s.invoice.paidCents = none := by
        cases hcents : s.invoice.paidCents with
        | none => rfl
        | some c => exact absurd (h.rows.paid c hcents).1 hunpaid
      have hpaid := kept_of_paid h none hunpaid (fun c hc => nomatch hc)
        (hmeets hguard.1 hguard.2)
      rw [← hnone] at hpaid
      exact hpaid
  · exact h

theorem kept_webhookPaid (h : Kept s) {id : String} {readable : Bool}
    (hmeets : Meets s (.webhookPaid id readable)) : Kept (webhookPaid s id readable) := by
  unfold webhookPaid
  cases hfind : s.payments.find? (fun p => p.id = id) with
  | none => exact h
  | some payment =>
      have hfound := List.find?_some hfind
      have hid : payment.id = id := of_decide_eq_true hfound
      have hpayment := List.mem_of_find?_eq_some hfind
      simp only
      split
      · next hguard =>
          refine kept_of_paid h _ hguard.2.1 (fun c hc => ?_)
            (hmeets payment hpayment hid (hid ▸ hguard.1) hguard.2.1 hguard.2.2)
          split at hc
          · obtain rfl := Option.some.inj hc
            exact ⟨(h.rows.payments payment hpayment).2,
              by rw [hguard.1]; exact Option.some_ne_none _⟩
          · cases hc
      · exact h

theorem kept_createPayment (h : Kept s) (id : String) : Kept (createPayment s id) := by
  unfold createPayment
  simp only
  split
  · next hguard =>
      refine ⟨{ h.rows with payments := fun p hp => ?_ }, ?_⟩
      · rcases List.mem_append.mp hp with hold | hnew
        · exact h.rows.payments p hold
        · obtain rfl := List.mem_singleton.mp hnew
          refine ⟨?_, ?_⟩
          · rcases hguard.1 with hstatus | hstatus <;> (rw [hstatus]; decide)
          · have hcredited := h.rows.credited_nonneg
            simp only
            omega
      · have honward : Onward s { s with payments := s.payments ++
            [{ id, amount := s.invoice.total - s.creditedCents }] } :=
          .of_notes rfl rfl (fun hpaid => hpaid) fun n hn hsent => ⟨n, hn, hsent, rfl, rfl⟩
        exact {
          pushes := fun push p hpush => honward.push (h.going.pushes push p hpush)
          refunds := fun r hr => honward.refund (h.going.refunds r hr)
          notes := fun n hn => honward.written rfl rfl (h.going.notes n hn)
          once := h.going.once }
  · exact h

theorem kept_recordPaymentId (h : Kept s) {id : String} (hmeets : Meets s (.recordPaymentId id)) :
    Kept (recordPaymentId s id) := by
  unfold recordPaymentId
  split
  · exact ⟨{ h.rows with paid := fun c hc => absurd (h.rows.paid c hc).1 hmeets },
      going_of_unpaid h.going hmeets hmeets⟩
  · exact h

theorem shareOf_nonneg {total numerator denominator : Int} (htotal : 0 ≤ total)
    (hnumerator : 0 ≤ numerator) (hdenominator : 0 < denominator) :
    0 ≤ shareOf total numerator denominator := by
  have hproduct : 0 ≤ 2 * total * numerator := Int.mul_nonneg (by omega) hnumerator
  exact Int.ediv_nonneg (by omega) (by omega)

theorem kept_recordCreditNote (h : Kept s) (numerator denominator : Int) :
    Kept (recordCreditNote s numerator denominator).2 := by
  unfold recordCreditNote
  split
  · exact h
  split
  · exact h
  split
  · exact h
  · next hshare _ _ =>
      cases hreference : creditReference s.invoice.reference with
      | none => exact h
      | some reference =>
          simp only
          split
          · exact h
          · next hfresh =>
              -- a credit note of this invoice has this very reference, so there is none yet
              have hnil : s.notes = [] := by
                refine List.eq_nil_iff_forall_not_mem.mpr fun n hn => hfresh ?_
                have hnamed := h.rows.named n hn
                rw [hreference] at hnamed
                exact List.any_eq_true.mpr ⟨n, hn, decide_eq_true (Option.some.inj hnamed).symm⟩
              have hidle := h.going.idle fun n hn => by
                rw [hnil] at hn
                cases hn
              rw [hnil, List.nil_append]
              refine ⟨{ h.rows with
                one := le_refl 1
                named := fun n hn => ?_
                takesOff := fun n hn => ?_
                issued := fun n hn => ?_ }, going_of_idle hidle.1 hidle.2 fun n hn => ?_⟩
              · obtain rfl := List.mem_singleton.mp hn
                exact hreference
              · obtain rfl := List.mem_singleton.mp hn
                have hnonneg : 0 ≤ shareOf s.invoice.total numerator denominator :=
                  shareOf_nonneg h.rows.total_nonneg (by omega) (by omega)
                simp only
                omega
              · obtain rfl := List.mem_singleton.mp hn
                exact .inl ⟨rfl, rfl⟩
              · obtain rfl := List.mem_singleton.mp hn
                rfl

theorem mem_setNote {reference : String} {f : CreditNote → CreditNote} {n' : CreditNote}
    (hn' : n' ∈ (s.setNote reference f).notes) :
    ∃ n ∈ s.notes, n' = if n.reference = reference then f n else n := by
  obtain ⟨n, hn, rfl⟩ := List.mem_map.mp hn'
  exact ⟨n, hn, rfl⟩

theorem kept_recordCreditIssued (h : Kept s) (reference : String) (figure : Option Nat) :
    Kept (recordCreditIssued s reference figure) := by
  unfold recordCreditIssued
  split
  · next hguard =>
      have hissued : s.invoice.status ≠ .draft := by
        rcases hguard with hstatus | hstatus | hstatus <;> (rw [hstatus]; decide)
      by_cases hdraft : ∀ n ∈ s.notes, n.status = .draft
      · have hnone : ∀ n ∈ s.notes, n.moneyBack = none := fun n hn =>
          ((h.rows.issued n hn).resolve_right fun hsent => by
            rw [hdraft n hn] at hsent
            cases hsent.1).2
        have hidle := h.going.idle fun n hn hsent => by
          rw [hdraft n hn] at hsent
          cases hsent
        -- each credit note is as it was, or issued with the figure of the books
        have hcases : ∀ n' ∈ (s.setNote reference fun n =>
            if n.status = .draft then
              { n with
                status := .sent
                total := (figure.map fun cents => -(cents : Int)).getD n.total
                pushLeaseUntil := none }
            else n).notes, ∃ n ∈ s.notes, n'.reference = n.reference ∧ n'.moneyBack = none ∧
              n'.total ≤ 0 ∧ (n'.status = .draft ∨ n'.status = .sent) := by
          intro n' hn'
          obtain ⟨n, hn, rfl⟩ := mem_setNote hn'
          refine ⟨n, hn, ?_⟩
          have hfigure : (figure.map fun cents => -(cents : Int)).getD n.total ≤ 0 := by
            cases figure with
            | none => exact h.rows.takesOff n hn
            | some cents => exact Int.neg_nonpos_of_nonneg (Int.natCast_nonneg cents)
          split
          · rw [if_pos (hdraft n hn)]
            exact ⟨rfl, hnone n hn, hfigure, .inr rfl⟩
          · exact ⟨rfl, hnone n hn, h.rows.takesOff n hn, .inl (hdraft n hn)⟩
        refine ⟨{ h.rows with
          one := (List.length_map _).trans_le h.rows.one
          named := fun n' hn' => ?_
          takesOff := fun n' hn' => ?_
          issued := fun n' hn' => ?_ }, going_of_idle hidle.1 hidle.2 fun n' hn' => ?_⟩
        · obtain ⟨n, hn, hname, -⟩ := hcases n' hn'
          exact (h.rows.named n hn).trans (congrArg some hname.symm)
        · obtain ⟨-, -, -, -, htotal, -⟩ := hcases n' hn'
          exact htotal
        · obtain ⟨-, -, -, hback, -, hstatus⟩ := hcases n' hn'
          exact hstatus.imp (fun hd => ⟨hd, hback⟩) fun hs => ⟨hs, hissued⟩
        · obtain ⟨-, -, -, hback, -⟩ := hcases n' hn'
          exact hback
      · -- the one credit note there is was issued before
        simp only [not_forall] at hdraft
        obtain ⟨m, hm, hnotDraft⟩ := hdraft
        have hsame : (s.notes.map fun n => if n.reference = reference then
            (if n.status = .draft then
              { n with
                status := .sent
                total := (figure.map fun cents => -(cents : Int)).getD n.total
                pushLeaseUntil := none }
            else n) else n) = s.notes := by
          refine (List.map_congr_left fun n hn => ?_).trans (List.map_id s.notes)
          rw [h.rows.unique hn hm, if_neg hnotDraft]
          exact ite_self m
        unfold State.setNote
        rw [hsame]
        exact h
  · exact h

/-- A credit note's row is written, but for its reference, its state and its total. -/
theorem kept_setNote (h : Kept s) (reference : String) (f : CreditNote → CreditNote)
    (hname : ∀ n, (f n).reference = n.reference) (hstatus : ∀ n, (f n).status = n.status)
    (htotal : ∀ n, (f n).total = n.total)
    (hback : ∀ n ∈ s.notes, n.reference = reference →
      (n.status = .draft → (f n).moneyBack = none) ∧ WrittenOk s n (f n).moneyBack) :
    Kept (s.setNote reference f) := by
  have hcredited : (s.setNote reference f).creditedCents = s.creditedCents := by
    unfold State.creditedCents State.setNote
    rw [List.map_map]
    refine congrArg (fun l => -List.sum l) (List.map_congr_left fun n _ => ?_)
    simp only [Function.comp_apply]
    split
    · exact htotal n
    · rfl
  have hverdict : ∀ n, verdict (s.setNote reference f) (if n.reference = reference then f n else n)
      = verdict s n := by
    intro n
    refine verdict_congr rfl hcredited ?_
    split
    · exact htotal n
    · rfl
  have honward : Onward s (s.setNote reference f) :=
    .of_notes rfl rfl (fun hpaid => hpaid) fun n hn hsent =>
      ⟨_, List.mem_map_of_mem hn, by split <;> simp only [hstatus, hsent],
        by split <;> simp only [hname], hverdict n⟩
  refine ⟨{ h.rows with
    one := (List.length_map _).trans_le h.rows.one
    named := fun n' hn' => ?_
    takesOff := fun n' hn' => ?_
    issued := fun n' hn' => ?_ }, {
    pushes := fun push p hpush => honward.push (h.going.pushes push p hpush)
    refunds := fun r hr => honward.refund (h.going.refunds r hr)
    notes := fun n' hn' => ?_
    once := h.going.once }⟩
  all_goals obtain ⟨n, hn, rfl⟩ := mem_setNote hn'
  · split
    · exact (h.rows.named n hn).trans (congrArg some (hname n).symm)
    · exact h.rows.named n hn
  · split
    · exact (htotal n).trans_le (h.rows.takesOff n hn)
    · exact h.rows.takesOff n hn
  · by_cases hown : n.reference = reference
    · rw [if_pos hown, hstatus]
      exact (h.rows.issued n hn).imp_left fun hd => ⟨hd.1, (hback n hn hown).1 hd.1⟩
    · rw [if_neg hown]
      exact h.rows.issued n hn
  · have hsame := hverdict n
    by_cases hown : n.reference = reference
    · rw [if_pos hown] at hsame ⊢
      exact honward.written (hname n) hsame (hback n hn hown).2
    · rw [if_neg hown] at hsame ⊢
      exact honward.written rfl hsame (h.going.notes n hn)

theorem onward_setPush (s : State) (push : Nat) (p : Option Push) : Onward s (s.setPush push p) :=
  .of_notes rfl rfl (fun hpaid => hpaid) fun n hn hsent => ⟨n, hn, hsent, rfl, rfl⟩

/-- A push goes on, or is gone. -/
theorem kept_setPush (h : Kept s) (push : Nat) (p : Option Push)
    (hp : ∀ p' ∈ p, PushOk s p') : Kept (s.setPush push p) := by
  have honward := onward_setPush s push p
  refine ⟨{ h.rows with }, {
    pushes := fun other p' hpush => ?_
    refunds := fun r hr => honward.refund (h.going.refunds r hr)
    notes := fun n hn => honward.written rfl rfl (h.going.notes n hn)
    once := h.going.once }⟩
  by_cases hown : other = push
  · subst hown
    simp only [State.setPush, Function.update_self, Option.mem_def] at hpush hp
    exact honward.push (hp p' hpush)
  · simp only [State.setPush, Function.update_of_ne hown] at hpush
    exact honward.push (h.going.pushes other p' hpush)

theorem kept_claimNextMoneyBack (h : Kept s) (push now : Nat) :
    Kept (claimNextMoneyBack s push now) := by
  unfold claimNextMoneyBack
  split
  · cases hfind : s.notes.find? (isDue s now) with
    | none => exact h
    | some n =>
        have hn := List.mem_of_find?_eq_some hfind
        have hdue := List.find?_some hfind
        simp only [isDue, Bool.and_eq_true, decide_eq_true_eq] at hdue
        obtain ⟨⟨⟨hsent, hnone⟩, -⟩, -⟩ := hdue
        -- no other credit note of the invoice has refunded anything
        have hread : dueOf s n = readNow s n := by
          have hzero : s.refundedCents = 0 := by
            unfold State.refundedCents
            rcases h.rows.cases with hnil | ⟨m, hm⟩
            · rw [hnil]
              rfl
            · have hnm := h.rows.unique hn (hm ▸ List.mem_singleton_self m)
              subst hnm
              rw [hm, List.map_cons, List.map_nil, List.sum_singleton, hnone]
          unfold readNow dueOf
          rw [hzero]
        have hpush : PushOk s { due := dueOf s n, phase := .claimed } :=
          ⟨n, hn, hsent, rfl, congrArg decideMoneyBack hread, fun hpaid => hpaid, trivial⟩
        have hclaimed := kept_setPush h push (some { due := dueOf s n, phase := .claimed })
          fun p' hp' => by
            obtain rfl := Option.some.inj hp'
            exact hpush
        exact kept_setNote hclaimed n.reference
          (fun n => { n with pushLeaseUntil := some (now + PUSH_LEASE_MS) })
          (fun _ => rfl) (fun _ => rfl) (fun _ => rfl) fun m hm _ =>
            ⟨fun hdraft => ((hclaimed.rows.issued m hm).resolve_right fun hsent => by
              rw [hdraft] at hsent
              cases hsent.1).2, hclaimed.going.notes m hm⟩
  · exact h

theorem mem_of_creditNoteRefundOf {refunds : List MollieRefund} {reference : String}
    {r : MollieRefund} (h : creditNoteRefundOf refunds reference = some r) :
    r ∈ refunds ∧ r.creditNote = reference := by
  have hfound := List.find?_some h
  simp only [Bool.and_eq_true, decide_eq_true_eq] at hfound
  exact ⟨List.mem_of_find?_eq_some h, hfound.1⟩

theorem kept_readRefunds (h : Kept s) (push : Nat) : Kept (readRefunds s push) := by
  unfold readRefunds
  split
  · next due hpush =>
      obtain ⟨n, hn, hsent, hreference, hdecide, hpaid, -⟩ := h.going.pushes push _ hpush
      split
      · next cents paymentId hrefund =>
          have hverdict : verdict s n = .refund cents paymentId := hdecide.symm.trans hrefund
          split
          · next r hbefore =>
              obtain ⟨hr, hnote⟩ := mem_of_creditNoteRefundOf hbefore
              refine kept_setPush h push _ fun p' hp' => ?_
              obtain rfl := Option.some.inj hp'
              exact ⟨n, hn, hsent, hreference, hdecide, hpaid, r,
                List.mem_of_mem_filter hr, rfl, rfl, hnote.trans hreference⟩
          · next hnone =>
              refine kept_setPush h push _ fun p' hp' => ?_
              obtain rfl := Option.some.inj hp'
              refine ⟨n, hn, hsent, hreference, hdecide, hpaid, hverdict, le_refl _,
                fun r hr hnote hlive => ?_⟩
              -- a live refund of this credit note is on this payment, and would have been found
              obtain ⟨m, hm, -, -, hother, -⟩ := h.going.refunds r hr
              obtain rfl := h.rows.unique hm hn
              have hsame : r.paymentId = paymentId :=
                (MoneyBackDecision.refund.inj (hother.symm.trans hverdict)).2
              have hlisted : r ∈ listRefunds s.refunds paymentId :=
                List.mem_filter.mpr ⟨hr, decide_eq_true hsame⟩
              have hmissed := List.find?_eq_none.mp hnone r hlisted
              rw [hlive, Bool.and_true, decide_eq_true_eq] at hmissed
              exact absurd (hnote.trans hreference.symm) hmissed
      · exact h
      · exact h
  · exact h

/-- The provider makes a refund only where it remembers none, and there none is live. -/
theorem kept_refundMade (h : Kept s) {n : CreditNote} (hn : n ∈ s.notes) (hsent : n.status = .sent)
    {cents : Int} {paymentId : String} (hverdict : verdict s n = .refund cents paymentId)
    {readAt : Nat} (hlate : s.time < readAt + MAX_DURATION_MS)
    (hafter : ∀ r ∈ s.refunds, r.creditNote = n.reference → r.live = true → readAt ≤ r.madeAt) :
    Kept { s with refunds := (refundMade s.refunds paymentId cents n.reference s.time).2 } ∧
      Onward s { s with refunds := (refundMade s.refunds paymentId cents n.reference s.time).2 } ∧
      (refundMade s.refunds paymentId cents n.reference s.time).1
        ∈ (refundMade s.refunds paymentId cents n.reference s.time).2 ∧
      (refundMade s.refunds paymentId cents n.reference s.time).1.creditNote = n.reference := by
  unfold refundMade
  cases hremembered : remembered s.refunds n.reference s.time with
  | some r =>
      have hfound := List.find?_some hremembered
      simp only [Bool.and_eq_true, decide_eq_true_eq] at hfound
      exact ⟨h, .of_notes rfl rfl (fun hpaid => hpaid) fun n hn hsent => ⟨n, hn, hsent, rfl, rfl⟩,
        List.mem_of_find?_eq_some hremembered, hfound.1⟩
  | none =>
      have hdead : ∀ r ∈ s.refunds, r.creditNote = n.reference → r.live = false := by
        intro r hr hnote
        cases hlive : r.live with
        | false => rfl
        | true =>
            have hmissed := List.find?_eq_none.mp hremembered r hr
            rw [decide_eq_true hnote, Bool.true_and, decide_eq_true_eq] at hmissed
            have hmade := hafter r hr hnote hlive
            exact absurd (lt_of_lt_of_le hlate (Nat.add_le_add_right hmade _)) hmissed
      have honward : Onward s { s with refunds := s.refunds ++
          [newRefund s.refunds paymentId cents n.reference s.time] } := {
        notes := fun n hn hsent => ⟨n, hn, hsent, rfl, rfl⟩
        kept := fun r hr => ⟨r, List.mem_append_left _ hr, rfl, rfl, rfl⟩
        live := fun r hr hlive => (List.mem_append.mp hr).imp
          (fun hold => ⟨r, hold, hlive, rfl, rfl⟩)
          fun hnew => by rw [List.mem_singleton.mp hnew, newRefund]
        time := le_refl _
        paid := fun hpaid => hpaid }
      refine ⟨⟨{ h.rows with }, {
        pushes := fun push p hpush => honward.push (h.going.pushes push p hpush)
        refunds := fun r hr => ?_
        notes := fun n hn => honward.written rfl rfl (h.going.notes n hn)
        once := fun reference => ?_ }⟩, honward, List.mem_append_right _ (List.mem_singleton_self _),
        rfl⟩
      · rcases List.mem_append.mp hr with hold | hnew
        · exact honward.refund (h.going.refunds r hold)
        · obtain rfl := List.mem_singleton.mp hnew
          exact ⟨n, hn, hsent, rfl, hverdict, le_refl _⟩
      · have hbefore := h.going.once reference
        unfold State.liveOf at hbefore ⊢
        rw [List.filter_append, List.length_append]
        by_cases hown : n.reference = reference
        · have hnil : (s.refunds.filter fun r => decide (r.creditNote = reference) && r.live) = [] := by
            refine List.filter_eq_nil_iff.mpr fun r hr => ?_
            rw [Bool.and_eq_true, decide_eq_true_eq]
            rintro ⟨hnote, hlive⟩
            rw [hdead r hr (hnote.trans hown.symm)] at hlive
            cases hlive
          rw [hnil, List.length_nil, Nat.zero_add]
          exact List.length_filter_le _ _
        · have hother : [newRefund s.refunds paymentId cents n.reference s.time].filter
              (fun r => decide (r.creditNote = reference) && r.live) = [] :=
            List.filter_cons_of_neg (by
              simp only [newRefund, Bool.and_true, decide_eq_true_eq, hown, not_false_eq_true])
          rw [hother, List.length_nil, Nat.add_zero]
          exact hbefore

theorem kept_askRefund (h : Kept s) (push : Nat) (heard : Bool) : Kept (askRefund s push heard) := by
  unfold askRefund
  split
  · next due cents paymentId readAt hpush =>
      obtain ⟨n, hn, hsent, hreference, hdecide, hpaid, hverdict, -, hafter⟩ :=
        h.going.pushes push _ hpush
      split
      · next hlate =>
          rw [hreference]
          obtain ⟨hkept, honward, hmem, hnote⟩ :=
            kept_refundMade h hn hsent hverdict hlate hafter
          refine kept_setPush hkept push _ fun p' hp' => ?_
          cases heard with
          | false => cases hp'
          | true =>
              obtain rfl := Option.some.inj hp'
              exact ⟨n, hn, hsent, hreference, hdecide, hpaid, _, hmem, rfl, rfl, hnote⟩
      · exact kept_setPush h push none fun p' hp' => nomatch hp'
  · exact h

theorem kept_settleOrSay (h : Kept s) (push : Nat) : Kept (settleOrSay s push) := by
  unfold settleOrSay
  split
  · next due hpush =>
      obtain ⟨n, hn, hsent, hreference, hdecide, hpaid, -⟩ := h.going.pushes push _ hpush
      split
      · next hsettle =>
          refine kept_setPush h push _ fun p' hp' => ?_
          obtain rfl := Option.some.inj hp'
          exact ⟨n, hn, hsent, hreference, hdecide, hpaid, hdecide.symm.trans hsettle⟩
      · next cents hhand =>
          refine kept_setPush h push _ fun p' hp' => ?_
          obtain rfl := Option.some.inj hp'
          exact ⟨n, hn, hsent, hreference, hdecide, hpaid, cents, hdecide.symm.trans hhand⟩
      · exact h
  · exact h

theorem kept_recordMoneyBack (h : Kept s) (push : Nat) : Kept (recordMoneyBack s push) := by
  unfold recordMoneyBack
  split
  · next due outcome hpush =>
      obtain ⟨n, hn, hsent, hreference, -, -, hphase⟩ := h.going.pushes push _ hpush
      have hgone := kept_setPush h push none fun p' hp' => nomatch hp'
      refine kept_setNote hgone due.reference _ (fun n => ?_) (fun n => ?_) (fun n => ?_)
        fun m hm _ => ?_
      · split <;> rfl
      · split <;> rfl
      · split <;> rfl
      · obtain rfl := h.rows.unique hm hn
        refine ⟨fun hdraft => ?_, ?_⟩
        · rw [hsent] at hdraft
          cases hdraft
        · split
          · cases outcome with
            | refunded id cents => exact hphase
            | settled => exact hphase
            | byHand cents => exact hphase
          · exact hgone.going.notes m hm
  · exact h

theorem kept_refundFails (h : Kept s) (id : Nat) : Kept (step s (.refundFails id)) := by
  have honward : Onward s (step s (.refundFails id)) := {
    notes := fun n hn hsent => ⟨n, hn, hsent, rfl, rfl⟩
    kept := fun r hr => ⟨_, List.mem_map_of_mem hr, by split <;> rfl, by split <;> rfl,
      by split <;> rfl⟩
    live := fun r' hr' hlive => by
      obtain ⟨r, hr, rfl⟩ := List.mem_map.mp hr'
      by_cases hid : r.id = id
      · rw [if_pos hid] at hlive
        cases hlive
      · rw [if_neg hid] at hlive ⊢
        exact .inl ⟨r, hr, hlive, rfl, rfl⟩
    time := le_refl _
    paid := fun hpaid => hpaid }
  refine ⟨{ h.rows with }, {
    pushes := fun push p hpush => honward.push (h.going.pushes push p hpush)
    refunds := fun r' hr' => ?_
    notes := fun n hn => honward.written rfl rfl (h.going.notes n hn)
    once := fun reference => ?_ }⟩
  · obtain ⟨r, hr, rfl⟩ := List.mem_map.mp hr'
    have hok := honward.refund (h.going.refunds r hr)
    split
    · exact hok
    · exact hok
  · refine le_trans ?_ (h.going.once reference)
    unfold State.liveOf step
    simp only
    rw [← List.countP_eq_length_filter, ← List.countP_eq_length_filter, List.countP_map]
    refine List.countP_mono_left fun r _ hr => ?_
    simp only [Function.comp_apply] at hr
    split at hr
    · simp only [Bool.and_false] at hr
      cases hr
    · exact hr

theorem kept_tick (h : Kept s) (ms : Nat) : Kept (step s (.tick ms)) := by
  have honward : Onward s (step s (.tick ms)) := {
    notes := fun n hn hsent => ⟨n, hn, hsent, rfl, rfl⟩
    kept := fun r hr => ⟨r, hr, rfl, rfl, rfl⟩
    live := fun r hr hlive => .inl ⟨r, hr, hlive, rfl, rfl⟩
    time := Nat.le_add_right _ _
    paid := fun hpaid => hpaid }
  exact ⟨{ h.rows with }, {
    pushes := fun push p hpush => honward.push (h.going.pushes push p hpush)
    refunds := fun r hr => honward.refund (h.going.refunds r hr)
    notes := fun n hn => honward.written rfl rfl (h.going.notes n hn)
    once := h.going.once }⟩

theorem kept_step (h : Kept s) (e : Event) (hmeets : Meets s e) : Kept (step s e) := by
  cases e with
  | issueInvoice total => exact kept_issueInvoice h total
  | readBackLate => exact kept_readBackLate h
  | readBackPaid => exact kept_readBackPaid h hmeets
  | voidInvoice => exact kept_voidInvoice h
  | createPayment id => exact kept_createPayment h id
  | recordPaymentId id => exact kept_recordPaymentId h hmeets
  | webhookPaid id readable => exact kept_webhookPaid h hmeets
  | recordCreditNote numerator denominator => exact kept_recordCreditNote h numerator denominator
  | recordCreditIssued reference figure => exact kept_recordCreditIssued h reference figure
  | claimNextMoneyBack push now => exact kept_claimNextMoneyBack h push now
  | readRefunds push => exact kept_readRefunds h push
  | askRefund push heard => exact kept_askRefund h push heard
  | settleOrSay push => exact kept_settleOrSay h push
  | recordMoneyBack push => exact kept_recordMoneyBack h push
  | drop push => exact kept_setPush h push none fun p' hp' => nomatch hp'
  | refundFails id => exact kept_refundFails h id
  | tick ms => exact kept_tick h ms

end Steps

end Ownpace.Refund
