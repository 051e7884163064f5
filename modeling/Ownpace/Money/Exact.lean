/-
Ownpace/Money/Exact.lean

Money crosses exactly: a text is read as the cents it writes or not at all, cents come back
as they went, and a price or a sum is that of the integers as long as they fit.

Every number computed is a natural one, itself or past the safe integers (`Stands`), so one
that is safe is exact, and so is all that it was computed from.
-/
import Mathlib.Tactic.NormNum
import Ownpace.Money.LinePrice

namespace Ownpace.Money

open Binary64
open Ownpace.Keys
open Ownpace.Push (VatTreatment digitsValue decimalParts)

variable {whole fraction text : Text}

/-! ### Digits -/

def Digits (s : Text) : Prop := ∀ c ∈ s, c.isDigit = true

theorem digitsValue_eq (s : Text) : digitsValue s = Nat.ofDigitChars 10 s 0 := rfl

theorem digitsValue_append (a b : Text) :
    digitsValue (a ++ b) = digitsValue a * 10 ^ b.length + digitsValue b := by
  have hfrom (b : Text) (n : Nat) : b.foldl (fun n c => 10 * n + (c.toNat - '0'.toNat)) n =
      n * 10 ^ b.length + digitsValue b := by
    induction b using List.reverseRecOn generalizing n with
    | nil => simp [digitsValue]
    | append_singleton b c ih =>
        rw [digitsValue, List.foldl_append, List.foldl_append, ih n, ih 0, List.length_append, pow_add]
        show 10 * (n * 10 ^ b.length + digitsValue b) + _ =
          n * (10 ^ b.length * 10) + (10 * (0 * 10 ^ b.length + digitsValue b) + _)
        ring
  show (a ++ b).foldl _ 0 = _
  rw [List.foldl_append, hfrom b]
  rfl

theorem digitsValue_cons (c : Char) (s : Text) :
    digitsValue (c :: s) = (c.toNat - '0'.toNat) * 10 ^ s.length + digitsValue s := by
  rw [← List.singleton_append, digitsValue_append]
  simp [digitsValue]

theorem digit_le {c : Char} (h : c.isDigit = true) : c.toNat - '0'.toNat ≤ 9 := by
  have hle : c.toNat ≤ 57 := by
    simp only [Char.isDigit, Bool.and_eq_true, decide_eq_true_eq] at h
    exact h.2
  show c.toNat - 48 ≤ 9
  omega

theorem digitsValue_lt {s : Text} (h : Digits s) : digitsValue s < 10 ^ s.length := by
  induction s with
  | nil => exact Nat.one_pos
  | cons c s ih =>
      have hc := digit_le (h c List.mem_cons_self)
      have hs := ih fun d hd => h d (List.mem_cons_of_mem _ hd)
      rw [digitsValue_cons, List.length_cons, Nat.pow_succ]
      have hmul : (c.toNat - '0'.toNat) * 10 ^ s.length ≤ 9 * 10 ^ s.length := Nat.mul_le_mul_right _ hc
      omega

/-- A digit is zero, or one of those that the expression looks for. -/
theorem digit_zero_or {c : Char} (h : c.isDigit = true) :
    (('1' ≤ c ∧ c ≤ '9') ∧ 0 < c.toNat - '0'.toNat) ∨ c.toNat - '0'.toNat = 0 ∧ ¬ ('1' ≤ c) := by
  have hbounds : 48 ≤ c.toNat ∧ c.toNat ≤ 57 := by
    simp only [Char.isDigit, Bool.and_eq_true, decide_eq_true_eq] at h
    exact h
  have hone : '1' ≤ c ↔ 49 ≤ c.toNat := Iff.rfl
  have hnine : c ≤ '9' ↔ c.toNat ≤ 57 := Iff.rfl
  show (('1' ≤ c ∧ c ≤ '9') ∧ 0 < c.toNat - 48) ∨ c.toNat - 48 = 0 ∧ ¬ ('1' ≤ c)
  rw [hone, hnine]
  omega

theorem any_iff {s : Text} (h : Digits s) :
    (s.any fun c => '1' ≤ c ∧ c ≤ '9') = true ↔ 0 < digitsValue s := by
  induction s with
  | nil => simp [digitsValue]
  | cons c s ih =>
      have hs := ih fun d hd => h d (List.mem_cons_of_mem _ hd)
      have hpow : 0 < 10 ^ s.length := Nat.pow_pos (by norm_num)
      rw [List.any_cons, Bool.or_eq_true, hs, digitsValue_cons]
      obtain ⟨hbounds, hpos⟩ | ⟨hzero, hnot⟩ := digit_zero_or (h c List.mem_cons_self)
      · have hmul := Nat.mul_pos hpos hpow
        exact ⟨fun _ => by omega, fun _ => .inl (decide_eq_true hbounds)⟩
      · rw [hzero, Nat.zero_mul, Nat.zero_add]
        exact ⟨fun hor => hor.resolve_left fun hc => hnot (of_decide_eq_true hc).1, .inr⟩

theorem tooFine_iff (h : Digits fraction) :
    tooFine fraction = true ↔ 0 < digitsValue (fraction.drop 2) :=
  any_iff fun c hc => h c (List.mem_of_mem_drop hc)

/-- The hundredths that a fraction writes, and what is finer. -/
theorem hundredths_split (fraction : Text) :
    (digitsValue fraction : ℚ) / 10 ^ fraction.length * 100 = digitsValue (hundredths fraction) +
      (digitsValue (fraction.drop 2) : ℚ) / 10 ^ (fraction.drop 2).length := by
  cases hf : fraction with
  | nil =>
      have hpad : hundredths [] = ['0', '0'] := rfl
      rw [hpad]
      simp [digitsValue]
  | cons c rest =>
      cases rest with
      | nil =>
          have hpad : hundredths [c] = [c, '0'] := rfl
          rw [hpad]
          simp [digitsValue]
          ring
      | cons d rest =>
          have hpad : hundredths (c :: d :: rest) = [c, d] := rfl
          have hsplit : digitsValue (c :: d :: rest) = digitsValue [c, d] * 10 ^ rest.length + digitsValue rest :=
            digitsValue_append [c, d] rest
          rw [hpad, hsplit]
          have hne : (10 : ℚ) ^ rest.length ≠ 0 := pow_ne_zero _ (by norm_num)
          show (((digitsValue [c, d] * 10 ^ rest.length + digitsValue rest : ℕ) : ℚ)) /
            10 ^ (rest.length + 1 + 1) * 100 = _ + (digitsValue rest : ℚ) / 10 ^ rest.length
          push_cast
          rw [pow_succ, pow_succ]
          field_simp
          ring

/-! ### What is read -/

/-- `[0-9]+(\.[0-9]+)?`, from its parts. -/
theorem decimalParts_eq_some {parts : Text × Text} :
    decimalParts text = some parts ↔ parts.1 ≠ [] ∧ Digits parts.1 ∧ Digits parts.2 ∧
      text = parts.1 ++ (if parts.2 = [] then [] else '.' :: parts.2) := by
  obtain ⟨whole, fraction⟩ := parts
  dsimp only
  constructor
  · intro h
    rw [decimalParts] at h
    by_cases hnone : text.takeWhile Char.isDigit = []
    · rw [if_pos hnone] at h
      cases h
    rw [if_neg hnone] at h
    have hsplit := List.takeWhile_append_dropWhile (p := Char.isDigit) (l := text)
    have hdigits : Digits (text.takeWhile Char.isDigit) := fun c hc => List.mem_takeWhile_imp hc
    cases hrest : text.dropWhile Char.isDigit with
    | nil =>
        rw [hrest] at h hsplit
        cases h
        exact ⟨hnone, hdigits, fun c hc => absurd hc List.not_mem_nil, hsplit.symm⟩
    | cons c rest =>
        rw [hrest] at h hsplit
        dsimp only at h
        split_ifs at h with hpoint
        obtain ⟨rfl, hne, hall⟩ := hpoint
        cases h
        refine ⟨hnone, hdigits, List.all_eq_true.mp hall, ?_⟩
        rw [if_neg hne]
        exact hsplit.symm
  · rintro ⟨hne, hwhole, hfraction, htext⟩
    have hstop : (if fraction = [] then [] else '.' :: fraction).takeWhile Char.isDigit = [] := by
      split_ifs
      · rfl
      · exact List.takeWhile_cons_of_neg (by decide)
    have htake : text.takeWhile Char.isDigit = whole := by
      rw [htext, List.takeWhile_append_of_pos hwhole, hstop, List.append_nil]
    have hdrop : text.dropWhile Char.isDigit = if fraction = [] then [] else '.' :: fraction := by
      have hsplit := List.takeWhile_append_dropWhile (p := Char.isDigit) (l := text)
      rw [htake] at hsplit
      exact List.append_cancel_left (hsplit.trans htext)
    rw [decimalParts, htake, hdrop, if_neg hne]
    by_cases hempty : fraction = []
    · rw [if_pos hempty, hempty]
    · rw [if_neg hempty]
      dsimp only
      rw [if_pos ⟨rfl, hempty, List.all_eq_true.mpr hfraction⟩]

/-- A decimal number from the parts of the expression. -/
def decimalOf (minus : Bool) (whole fraction : Text) (hne : whole ≠ []) (hwhole : Digits whole)
    (hfraction : Digits fraction) : Decimal where
  minus := minus
  whole := whole
  fraction := if fraction = [] then none else some fraction
  whole_digits := ⟨hne, hwhole⟩
  fraction_digits := by
    intro f hf
    split_ifs at hf with hempty
    · cases hf
    · cases hf
      exact ⟨hempty, hfraction⟩

/-- The digits behind the point, none where there is none. -/
def Decimal.fractionDigits (d : Decimal) : Text := d.fraction.getD []

theorem Decimal.digits_fraction (d : Decimal) : Digits d.fractionDigits := by
  intro c hc
  cases hf : d.fraction with
  | none =>
      rw [Decimal.fractionDigits, hf] at hc
      cases hc
  | some f =>
      rw [Decimal.fractionDigits, hf] at hc
      exact (d.fraction_digits f hf).2 c hc

theorem Decimal.text_eq (d : Decimal) : d.text = (if d.minus then ['-'] else []) ++
    (d.whole ++ if d.fractionDigits = [] then [] else '.' :: d.fractionDigits) := by
  rw [Decimal.text, List.append_assoc, Decimal.fractionDigits]
  cases hf : d.fraction with
  | none => rfl
  | some f => rw [Option.elim_some, Option.getD_some, if_neg (d.fraction_digits f hf).1]

theorem Decimal.magnitude_eq (d : Decimal) : d.magnitude = digitsValue d.whole +
    (digitsValue d.fractionDigits : ℚ) / 10 ^ d.fractionDigits.length := by
  rw [Decimal.magnitude, Decimal.fractionDigits]
  cases d.fraction with
  | none => simp [digitsValue]
  | some f => rfl

theorem signedDecimal_text (d : Decimal) :
    signedDecimal d.text = some (d.minus, d.whole, d.fractionDigits) := by
  have hparts : decimalParts (d.whole ++ if d.fractionDigits = [] then [] else '.' :: d.fractionDigits) =
      some (d.whole, d.fractionDigits) :=
    decimalParts_eq_some.mpr ⟨d.whole_digits.1, d.whole_digits.2, d.digits_fraction, rfl⟩
  rw [Decimal.text_eq]
  cases hminus : d.minus with
  | true => exact congrArg (Option.map _) hparts
  | false =>
      obtain ⟨c, rest, hwhole⟩ := List.exists_cons_of_ne_nil d.whole_digits.1
      have hc : c ≠ '-' := by
        rintro rfl
        have hdigit := d.whole_digits.2 '-' (by rw [hwhole]; exact List.mem_cons_self)
        cases hdigit
      rw [hwhole] at hparts ⊢
      show signedDecimal (c :: (rest ++ _)) = _
      rw [signedDecimal]
      · exact congrArg (Option.map _) hparts
      · exact fun _ heq => hc (List.cons.inj heq).1

theorem exists_of_signedDecimal {parts : Bool × Text × Text} (h : signedDecimal text = some parts) :
    ∃ d : Decimal, d.text = text ∧ (d.minus, d.whole, d.fractionDigits) = parts := by
  have hdecimal (minus : Bool) {rest : Text} {q : Text × Text} (hq : decimalParts rest = some q) :
      ∃ d : Decimal, d.text = (if minus then ['-'] else []) ++ rest ∧
        (d.minus, d.whole, d.fractionDigits) = (minus, q) := by
    obtain ⟨hne, hwhole, hfraction, hrest⟩ := decimalParts_eq_some.mp hq
    have hdigits : (decimalOf minus q.1 q.2 hne hwhole hfraction).fractionDigits = q.2 := by
      by_cases hempty : q.2 = []
      · simp [Decimal.fractionDigits, decimalOf, hempty]
      · simp [Decimal.fractionDigits, decimalOf, hempty]
    refine ⟨decimalOf minus q.1 q.2 hne hwhole hfraction, ?_, ?_⟩
    · rw [Decimal.text_eq, hdigits, hrest]
      rfl
    · rw [hdigits]
      rfl
  by_cases hminus : ∃ rest, text = '-' :: rest
  · obtain ⟨rest, rfl⟩ := hminus
    obtain ⟨q, hq, rfl⟩ := Option.map_eq_some_iff.mp h
    exact hdecimal true hq
  · have hplain : signedDecimal text = (decimalParts text).map fun parts => (false, parts) := by
      rw [signedDecimal]
      exact fun rest heq => hminus ⟨rest, heq⟩
    rw [hplain] at h
    obtain ⟨q, hq, rfl⟩ := Option.map_eq_some_iff.mp h
    exact hdecimal false hq

theorem Decimal.trimmed_text (d : Decimal) : Trimmed d.text := by
  have hplain : ∀ c ∈ d.text, isWhiteSpace c = false := by
    intro c hc
    rw [Decimal.text_eq] at hc
    obtain hc | hc := List.mem_append.mp hc
    · split_ifs at hc
      · rw [List.mem_singleton.mp hc]
        decide
      · cases hc
    · obtain hc | hc := List.mem_append.mp hc
      · exact isWhiteSpace_of_isDigit (d.whole_digits.2 c hc)
      · split_ifs at hc
        · cases hc
        · obtain rfl | hc := List.mem_cons.mp hc
          · decide
          · exact isWhiteSpace_of_isDigit (d.digits_fraction c hc)
  exact ⟨fun c hc => hplain c (List.mem_of_mem_head? hc), fun c hc => hplain c (List.mem_of_mem_getLast? hc)⟩

theorem writes_iff (d : Decimal) : Writes text d ↔ trim text = d.text := by
  constructor
  · rintro ⟨before, after, hbefore, hafter, rfl⟩
    exact trim_padded hbefore hafter d.trimmed_text
  · intro htrim
    obtain ⟨before, after, hbefore, hafter, htext⟩ := exists_padding text
    exact ⟨before, after, hbefore, hafter, htrim ▸ htext⟩

/-- The cents of a decimal number, where they are whole. -/
def Decimal.cents (d : Decimal) : ℕ := digitsValue d.whole * 100 + digitsValue (hundredths d.fractionDigits)

theorem stands_sumOf (d : Decimal) : Stands d.cents (sumOf d.whole d.fractionDigits) :=
  ((stands_ofRat _).mul (k := 100) (by norm_num)).add (stands_ofRat _)

theorem Decimal.magnitude_cents (d : Decimal) : d.magnitude * 100 = d.cents +
    (digitsValue (d.fractionDigits.drop 2) : ℚ) / 10 ^ (d.fractionDigits.drop 2).length := by
  rw [Decimal.magnitude_eq, add_mul, hundredths_split, Decimal.cents]
  push_cast
  ring

/-- Finer than a cent: no whole number of them. -/
theorem Decimal.not_whole (d : Decimal) (hfine : tooFine d.fractionDigits = true) (n : ℤ) :
    d.magnitude * 100 ≠ n := by
  intro heq
  have hpos := (tooFine_iff d.digits_fraction).mp hfine
  have hlt := digitsValue_lt (s := d.fractionDigits.drop 2) fun c hc =>
    d.digits_fraction c (List.mem_of_mem_drop hc)
  generalize hplaces : (d.fractionDigits.drop 2).length = places at hlt
  have hcents := d.magnitude_cents
  rw [heq, hplaces] at hcents
  have hpow : (0 : ℚ) < 10 ^ places := by positivity
  have hfrac : (digitsValue (d.fractionDigits.drop 2) : ℚ) = (n - d.cents : ℤ) * 10 ^ places := by
    push_cast
    rw [hcents, add_sub_cancel_left, div_mul_cancel₀ _ hpow.ne']
  have hint : (digitsValue (d.fractionDigits.drop 2) : ℤ) = (n - d.cents) * 10 ^ places := by
    exact_mod_cast hfrac
  have hpowInt : (0 : ℤ) < 10 ^ places := by positivity
  have hone : 0 < n - d.cents := by
    by_contra hle
    have hnonpos : (n - d.cents) * 10 ^ places ≤ 0 :=
      mul_nonpos_of_nonpos_of_nonneg (by omega) hpowInt.le
    omega
  have hmul : (10 : ℤ) ^ places ≤ (n - d.cents) * 10 ^ places := le_mul_of_one_le_left hpowInt.le hone
  have hltInt : (digitsValue (d.fractionDigits.drop 2) : ℤ) < 10 ^ places := by exact_mod_cast hlt
  omega

theorem Decimal.magnitude_of_coarse (d : Decimal) (hcoarse : ¬ tooFine d.fractionDigits = true) :
    d.magnitude * 100 = d.cents := by
  have hzero : digitsValue (d.fractionDigits.drop 2) = 0 := by
    by_contra hne
    exact hcoarse ((tooFine_iff d.digits_fraction).mpr (Nat.pos_of_ne_zero hne))
  rw [d.magnitude_cents, hzero]
  simp

/-- The cents of a decimal number with its sign. -/
def Decimal.signedCents (d : Decimal) : ℤ := if d.minus then -d.cents else d.cents

theorem Decimal.value_cents (d : Decimal) (hcoarse : ¬ tooFine d.fractionDigits = true) :
    d.value * 100 = d.signedCents := by
  have hmagnitude := d.magnitude_of_coarse hcoarse
  rw [Decimal.value, Decimal.signedCents]
  split_ifs
  · push_cast
    linarith
  · push_cast
    exact hmagnitude

theorem centsFromDecimal_text {d : Decimal} (hd : trim text = d.text) : centsFromDecimal text =
    if tooFine d.fractionDigits = true ∨ ¬ d.cents ≤ maxSafe then none
    else some (.finite d.signedCents) := by
  have hstands := stands_sumOf d
  rw [centsFromDecimal, hd, signedDecimal_text]
  dsimp only
  by_cases hfine : tooFine d.fractionDigits = true
  · rw [if_pos hfine, if_pos (.inl hfine)]
  rw [if_neg hfine]
  by_cases hsafe : d.cents ≤ maxSafe
  · have hnot : ¬ (tooFine d.fractionDigits = true ∨ ¬ d.cents ≤ maxSafe) := by
      rintro (h | h)
      · exact hfine h
      · exact h hsafe
    rw [if_neg (not_not.mpr (hstands.isSafe_iff.mpr hsafe)), if_neg hnot, hstands.eq_of_safe hsafe,
      Decimal.signedCents]
    by_cases hminus : d.minus = true
    · rw [if_pos hminus]
      by_cases hzero : d.cents = 0
      · rw [if_neg (by simp [hzero]), hzero]
        rfl
      · rw [if_pos ⟨hminus, by simpa using hzero⟩]
        show some (Number.finite (-(d.cents : ℚ))) = _
        push_cast
        rfl
    · rw [if_neg hminus, if_neg fun h => hminus h.1]
      rfl
  · rw [if_pos fun h => hsafe (hstands.isSafe_iff.mp h), if_pos (.inr hsafe)]

/-- **What is read of a text**: the cents of the decimal number it writes, where they are a
safe whole number. -/
theorem centsFromDecimal_eq_some (text : Text) (x : Number) : centsFromDecimal text = some x ↔
    ∃ d c, Writes text d ∧ d.value * 100 = (c : ℤ) ∧ c.natAbs ≤ maxSafe ∧ x = .finite c := by
  constructor
  · intro h
    have hsome : ∃ parts, signedDecimal (trim text) = some parts := by
      cases hparts : signedDecimal (trim text) with
      | none =>
          rw [centsFromDecimal, hparts] at h
          cases h
      | some parts => exact ⟨parts, rfl⟩
    obtain ⟨parts, hparts⟩ := hsome
    obtain ⟨d, hd, -⟩ := exists_of_signedDecimal hparts
    rw [centsFromDecimal_text hd.symm] at h
    split_ifs at h with hnot
    push Not at hnot
    obtain ⟨hcoarse, hsafe⟩ := hnot
    refine ⟨d, d.signedCents, (writes_iff d).mpr hd.symm, d.value_cents hcoarse, ?_, (Option.some.inj h).symm⟩
    rw [Decimal.signedCents]
    split_ifs <;> omega
  · rintro ⟨d, c, hwrites, hvalue, hsafe, rfl⟩
    rw [centsFromDecimal_text ((writes_iff d).mp hwrites)]
    have hcoarse : ¬ tooFine d.fractionDigits = true := by
      intro hfine
      rw [Decimal.value] at hvalue
      split_ifs at hvalue
      · refine d.not_whole hfine (-c) ?_
        push_cast
        linarith
      · exact d.not_whole hfine c hvalue
    have hc : d.signedCents = c := by exact_mod_cast (d.value_cents hcoarse).symm.trans hvalue
    have hcents : d.cents ≤ maxSafe := by
      rw [Decimal.signedCents] at hc
      split_ifs at hc <;> omega
    rw [if_neg (by simp [hcoarse, hcents]), hc]

end Ownpace.Money
