/-
Ownpace/Money/Crossing.lean

Cents and texts, prices and sums: where the doubles are the integers they stand for.

The texts cross exactly and without a condition.  A price without VAT is exact where its
numbers stay safe (`Fits`), and a total where the lines add up to a safe one; nothing in the
code asks for either, and past it a figure is off (`published_price_misrounded`).
-/
import Ownpace.Money.Exact

namespace Ownpace.Money

open Binary64
open Ownpace.Keys
open Ownpace.Push (VatTreatment digitsValue decimalParts)

/-! ### There and back -/

theorem digits_toDigits (n : ℕ) : Digits (Nat.toDigits 10 n) :=
  fun _ hc => Nat.isDigit_of_mem_toDigits (by decide) (by decide) hc

theorem digitsValue_toDigits (n : ℕ) : digitsValue (Nat.toDigits 10 n) = n :=
  (digitsValue_eq _).trans Nat.ofDigitChars_ten_toDigits

theorem digitsValue_leftpad (k : ℕ) (s : Text) : digitsValue (s.leftpad k '0') = digitsValue s := by
  have hzeros (j : ℕ) : digitsValue (List.replicate j '0') = 0 := by
    induction j with
    | zero => rfl
    | succ j ih =>
        rw [List.replicate_succ, digitsValue_cons, ih]
        simp
  rw [List.leftpad, digitsValue_append, hzeros, Nat.zero_mul, Nat.zero_add]

theorem stringOf_natCast (n : ℕ) : stringOf (.finite n) = Nat.toDigits 10 n := by
  have hnot : ¬ ((n : ℚ) < 0) := not_lt.mpr (Nat.cast_nonneg n)
  show (if (n : ℚ) < 0 then ['-'] else []) ++ Nat.toDigits 10 ⌊(n : ℚ)⌋.natAbs = _
  rw [if_neg hnot, Int.floor_natCast, List.nil_append, Int.natAbs_natCast]

/-- Cents as they are written. -/
def written (c : ℤ) : Decimal where
  minus := decide (c < 0)
  whole := Nat.toDigits 10 (c.natAbs / 100)
  fraction := some ((Nat.toDigits 10 (c.natAbs % 100)).leftpad 2 '0')
  whole_digits := ⟨Nat.toDigits_ne_nil, digits_toDigits _⟩
  fraction_digits := by
    rintro f hf
    obtain rfl := Option.some.inj hf
    refine ⟨fun hnil => ?_, fun c hc => ?_⟩
    · have hlength := congrArg List.length hnil
      rw [List.length_leftpad, List.length_nil] at hlength
      omega
    · obtain hc | hc := List.mem_append.mp hc
      · rw [List.eq_of_mem_replicate hc]
        rfl
      · exact digits_toDigits _ c hc

theorem decimalFromCents_eq {c : ℤ} (h : c.natAbs ≤ maxSafe) :
    decimalFromCents (.finite c) = some (written c).text := by
  have hsafe : (Number.finite c).IsSafe := ⟨c, rfl, h⟩
  have habs : (Number.finite c).abs = .finite (c.natAbs : ℕ) := by
    show Number.finite |(c : ℚ)| = _
    rw [Nat.cast_natAbs, Int.cast_abs]
  have hwhole := trunc_div h (m := 100) (by norm_num) (by norm_num [maxSafe])
  have hcents := rem_natCast (a := c.natAbs) (m := 100) (by norm_num)
  have hhundred : ((100 : ℕ) : ℚ) = 100 := by norm_num
  rw [hhundred] at hwhole hcents
  have hsign : isNegative (.finite c) = decide (c < 0) := by
    show decide ((c : ℚ) < 0) = decide (c < 0)
    simp
  rw [decimalFromCents, if_pos hsafe, habs, hsign, hwhole, hcents]
  dsimp only
  rw [stringOf_natCast, stringOf_natCast]
  rfl

theorem written_value (c : ℤ) : (written c).value * 100 = c := by
  have hlength : ((Nat.toDigits 10 (c.natAbs % 100)).leftpad 2 '0').length = 2 := by
    have hle : (Nat.toDigits 10 (c.natAbs % 100)).length ≤ 2 :=
      (Nat.length_toDigits_le_iff (by norm_num) (by norm_num)).mpr (Nat.mod_lt _ (by norm_num))
    rw [List.length_leftpad]
    omega
  have hmagnitude : (written c).magnitude * 100 = c.natAbs := by
    show ((digitsValue (Nat.toDigits 10 (c.natAbs / 100)) : ℚ) +
      (digitsValue ((Nat.toDigits 10 (c.natAbs % 100)).leftpad 2 '0') : ℚ) /
        10 ^ ((Nat.toDigits 10 (c.natAbs % 100)).leftpad 2 '0').length) * 100 = _
    have hsplit : (100 : ℚ) * (c.natAbs / 100 : ℕ) + (c.natAbs % 100 : ℕ) = (c.natAbs : ℕ) := by
      exact_mod_cast Nat.div_add_mod c.natAbs 100
    rw [hlength, digitsValue_leftpad, digitsValue_toDigits, digitsValue_toDigits, ← hsplit]
    ring
  have hminus : (written c).minus = decide (c < 0) := rfl
  rw [Decimal.value, hminus]
  by_cases hneg : c < 0
  · rw [if_pos (decide_eq_true hneg), neg_mul, hmagnitude, Nat.cast_natAbs, abs_of_neg hneg]
    push_cast
    ring
  · rw [if_neg (by simpa using hneg), hmagnitude, Nat.cast_natAbs, abs_of_nonneg (not_lt.mp hneg)]

/-- Cents come back as they went. -/
theorem centsFromDecimal_decimalFromCents {c : ℤ} (h : c.natAbs ≤ maxSafe) :
    ∃ text, decimalFromCents (.finite c) = some text ∧ centsFromDecimal text = some (.finite c) := by
  refine ⟨_, decimalFromCents_eq h, (centsFromDecimal_eq_some _ _).mpr ⟨written c, c, ?_, written_value c, h, rfl⟩⟩
  refine ⟨[], [], fun _ hc => absurd hc List.not_mem_nil, fun _ hc => absurd hc List.not_mem_nil, ?_⟩
  rw [List.nil_append, List.append_nil]

/-- What a text's cents are computed from is safe, where they are. -/
theorem sumSteps_safe {text : Text} {x : Number} {parts : Bool × Text × Text}
    (hparts : signedDecimal (trim text) = some parts) (hx : centsFromDecimal text = some x) :
    ∀ y ∈ sumSteps parts.2.1 parts.2.2, y.IsSafe := by
  obtain ⟨d, hd, rfl⟩ := exists_of_signedDecimal hparts
  rw [centsFromDecimal_text hd.symm] at hx
  split_ifs at hx with hnot
  push Not at hnot
  have hcents : digitsValue d.whole * 100 + digitsValue (hundredths d.fractionDigits) ≤ maxSafe := hnot.2
  have hwhole := stands_ofRat (digitsValue d.whole)
  have hhundred := hwhole.mul (k := 100) (by norm_num)
  intro y hy
  simp only [sumSteps, List.mem_cons, List.not_mem_nil, or_false] at hy
  obtain rfl | rfl | rfl | rfl := hy
  · exact hwhole.isSafe_iff.mpr (by omega)
  · exact hhundred.isSafe_iff.mpr (by omega)
  · exact (stands_ofRat _).isSafe_iff.mpr (by omega)
  · exact (stands_sumOf d).isSafe_iff.mpr hcents

/-! ### Prices -/

/-- The numbers of a price without VAT are safe. -/
structure Fits (p b : ℕ) : Prop where
  dividend : 20000 * p + 10000 + b ≤ maxSafe
  divisor : 20000 + 2 * b ≤ maxSafe

/-- The exact price, to the nearest cent, halves up. -/
def nearestCents (p b : ℕ) : ℤ := ⌊(p : ℚ) * 10000 / (10000 + b) + 1 / 2⌋

/-- A published price, and no more than it is without the VAT. -/
structure PricedExactly (publishedCents basisPoints : Number) : Prop where
  safe : ∀ x ∈ steps publishedCents basisPoints, x.IsSafe
  price : ∃ p b : ℕ, publishedCents = .finite p ∧ basisPoints = .finite b ∧
    priceWithoutVatCents publishedCents basisPoints = .finite (nearestCents p b) ∧
    0 ≤ nearestCents p b ∧ nearestCents p b ≤ p
  monotone : ∀ less more : ℕ, less ≤ more → publishedCents = .finite more → ∃ r r' : ℤ, r ≤ r' ∧
    priceWithoutVatCents (.finite less) basisPoints = .finite r ∧
    priceWithoutVatCents publishedCents basisPoints = .finite r'

theorem nearestCents_eq (p b : ℕ) :
    nearestCents p b = ((2 * (p * 10000) + (10000 + b)) / (2 * (10000 + b)) : ℕ) := by
  have hpos : (0 : ℚ) < 10000 + b := by positivity
  have hquotient : (p : ℚ) * 10000 / (10000 + b) + 1 / 2 =
      ((2 * (p * 10000) + (10000 + b) : ℕ) : ℚ) / ((2 * (10000 + b) : ℕ) : ℚ) := by
    push_cast
    field_simp
  rw [nearestCents, hquotient, Rat.floor_natCast_div_natCast]
  rfl

section

variable {p b : ℕ} {x y : Number}

theorem stands_numerator (hx : Stands p x) : Stands (p * 10000) (numerator x) :=
  hx.mul (k := 10000) (by norm_num)

theorem stands_denominator (hy : Stands b y) : Stands (10000 + b) (denominator y) :=
  Stands.add (.exact (n := 10000) (by norm_num [maxSafe])) hy

theorem stands_twice (hx : Stands p x) : Stands (2 * p) (Number.mul (.finite 2) x) := by
  rw [Number.mul_comm_finite, Nat.mul_comm]
  exact hx.mul (k := 2) (by norm_num)

theorem stands_dividend (hx : Stands p x) (hy : Stands b y) :
    Stands (2 * (p * 10000) + (10000 + b)) (dividend x y) :=
  (stands_twice (stands_numerator hx)).add (stands_denominator hy)

theorem stands_divisor (hy : Stands b y) : Stands (2 * (10000 + b)) (divisor y) :=
  stands_twice (stands_denominator hy)

theorem priceWithoutVatCents_eq (hfits : Fits p b) :
    priceWithoutVatCents (.finite p) (.finite b) = .finite (nearestCents p b) := by
  have hdividend := hfits.dividend
  have hdivisor := hfits.divisor
  have hp : Stands p (.finite p) := .exact (by omega)
  have hb : Stands b (.finite b) := .exact (by omega)
  rw [priceWithoutVatCents, (stands_dividend hp hb).eq_of_safe (by omega),
    (stands_divisor hb).eq_of_safe (by omega), floor_div (by omega) (by omega) (by omega), nearestCents_eq,
    Int.cast_natCast]

/-- What the push is modelled with. -/
theorem nearestCents_eq_push (p b : ℕ) : nearestCents p b = Push.priceWithoutVatCents p b := by
  rw [nearestCents_eq, Push.priceWithoutVatCents]
  push_cast
  rfl

end

/-- A published price that a line may have. -/
theorem exists_of_priced {treatment : VatTreatment} {publishedCents cents : Number}
    {percentage : Option Text} {incl : Bool}
    (h : linePriceFor treatment publishedCents percentage = .priced cents incl) :
    ∃ p : ℕ, p ≤ maxSafe ∧ publishedCents = .finite p := by
  rw [linePriceFor] at h
  by_cases hrefused : ¬ publishedCents.IsSafe ∨ isNegative publishedCents = true
  · rw [if_pos hrefused] at h
    cases h
  · rw [not_or, not_not] at hrefused
    obtain ⟨hsafe, hsign⟩ := hrefused
    cases publishedCents with
    | finite q =>
        obtain ⟨n, rfl, hn⟩ := hsafe
        have hnonneg : 0 ≤ n := by
          by_contra hneg
          refine hsign (decide_eq_true ?_)
          exact_mod_cast not_le.mp hneg
        obtain ⟨p, rfl⟩ := Int.eq_ofNat_of_zero_le hnonneg
        exact ⟨p, hn, congrArg Number.finite (Int.cast_natCast p)⟩
    | infinity | negativeInfinity | nan => exact hsafe.elim

/-- A rate stands for the basis points that its text writes. -/
theorem exists_of_basisPoints {percentage : Option Text} {basisPoints : Number}
    (h : basisPointsFromPercentage percentage = some basisPoints) : ∃ b, Stands b basisPoints := by
  cases percentage with
  | none => cases h
  | some text =>
      cases hparts : decimalParts (trim text) with
      | none =>
          rw [basisPointsFromPercentage, hparts] at h
          cases h
      | some parts =>
          rw [basisPointsFromPercentage, hparts] at h
          obtain ⟨hne, hwhole, hfraction, -⟩ := decimalParts_eq_some.mp hparts
          dsimp only at h
          split_ifs at h
          obtain rfl := Option.some.inj h
          exact ⟨_, ((stands_ofRat _).mul (k := 100) (by norm_num)).add (stands_ofRat _)⟩

theorem priced_of_fits {p b : ℕ} (hfits : Fits p b) : PricedExactly (.finite p) (.finite b) := by
  have hdividend := hfits.dividend
  have hdivisor := hfits.divisor
  have hp : Stands p (.finite p) := .exact (by omega)
  have hb : Stands b (.finite b) := .exact (by omega)
  refine ⟨fun x hx => ?_, ⟨p, b, rfl, rfl, priceWithoutVatCents_eq hfits, ?_, ?_⟩, ?_⟩
  · simp only [steps, List.mem_cons, List.not_mem_nil, or_false] at hx
    obtain rfl | rfl | rfl | rfl | rfl | rfl := hx
    · exact hb.isSafe_iff.mpr (by omega)
    · exact (stands_numerator hp).isSafe_iff.mpr (by omega)
    · exact (stands_denominator hb).isSafe_iff.mpr (by omega)
    · exact (stands_twice (stands_numerator hp)).isSafe_iff.mpr (by omega)
    · exact (stands_dividend hp hb).isSafe_iff.mpr (by omega)
    · exact (stands_divisor hb).isSafe_iff.mpr (by omega)
  · rw [nearestCents_eq]
    exact Int.natCast_nonneg _
  · rw [nearestCents_eq]
    have hle : (2 * (p * 10000) + (10000 + b)) / (2 * (10000 + b)) ≤ p := by
      refine Nat.le_of_lt_succ (Nat.div_lt_of_lt_mul ?_)
      have hexpand : 2 * (10000 + b) * (p + 1) = 20000 * p + 2 * (b * p) + 20000 + 2 * b := by ring
      rw [Nat.succ_eq_add_one, hexpand]
      omega
    exact_mod_cast hle
  · rintro less more hle hmore
    have hsame : p = more := by exact_mod_cast Number.finite.inj hmore
    subst hsame
    have hless : Fits less b := ⟨by omega, hdivisor⟩
    refine ⟨_, _, ?_, priceWithoutVatCents_eq hless, priceWithoutVatCents_eq hfits⟩
    rw [nearestCents_eq, nearestCents_eq]
    exact_mod_cast Nat.div_le_div_right (by omega)

theorem prices_iff {treatment : VatTreatment} {publishedCents cents : Number}
    {percentage : Option Text}
    (h : linePriceFor treatment publishedCents percentage = .priced cents false) :
    ∃ basisPoints, basisPointsFromPercentage percentage = some basisPoints ∧
      cents = priceWithoutVatCents publishedCents basisPoints ∧
      (PricedExactly publishedCents basisPoints ↔
        ∃ p b : ℕ, publishedCents = .finite p ∧ basisPoints = .finite b ∧ Fits p b) := by
  obtain ⟨p, hsafe, rfl⟩ := exists_of_priced h
  rw [linePriceFor] at h
  split_ifs at h with hrefused htreatment
  · cases h
  · cases hpoints : basisPointsFromPercentage percentage with
    | none =>
        rw [hpoints] at h
        cases h
    | some basisPoints =>
        rw [hpoints] at h
        obtain ⟨hcents, -⟩ := LinePrice.priced.inj h
        refine ⟨basisPoints, rfl, hcents.symm, fun hexact => ?_, ?_⟩
        · obtain ⟨b, hb⟩ := exists_of_basisPoints hpoints
          have hp : Stands p (.finite p) := .exact hsafe
          have hdividend := (stands_dividend hp hb).isSafe_iff.mp (hexact.safe _ (by simp [steps]))
          have hdivisor := (stands_divisor hb).isSafe_iff.mp (hexact.safe _ (by simp [steps]))
          exact ⟨p, b, rfl, hb.eq_of_safe (by omega), ⟨by omega, by omega⟩⟩
        · rintro ⟨p', b, hp', rfl, hfits⟩
          rw [hp']
          exact priced_of_fits hfits

/-! ### Sums -/

/-- The total of the lines, and every sum on the way to it. -/
structure SummedExactly (cents : List ℕ) : Prop where
  safe : ∀ x ∈ sums (cents.map fun c : ℕ => .finite c), x.IsSafe
  total : (sums (cents.map fun c : ℕ => .finite c)).getLast? = some (.finite cents.sum)

theorem sums_stand {cents : List ℕ} {total : ℕ} {x : Number} (hx : Stands total x)
    (hcents : ∀ c ∈ cents, c ≤ maxSafe) :
    (∃ y, ((cents.map fun c : ℕ => Number.finite c).scanl .add x).getLast? = some y ∧
      Stands (total + cents.sum) y) ∧
    ∀ y ∈ (cents.map fun c : ℕ => Number.finite c).scanl .add x, ∃ n, n ≤ total + cents.sum ∧ Stands n y := by
  induction cents generalizing total x with
  | nil =>
      refine ⟨⟨x, rfl, hx⟩, fun y hy => ⟨total, Nat.le_refl _, ?_⟩⟩
      obtain rfl := List.mem_singleton.mp hy
      exact hx
  | cons c cents ih =>
      have hc : Stands c (.finite c) := .exact (hcents c List.mem_cons_self)
      obtain ⟨⟨y, hlast, hy⟩, hall⟩ := ih (hx.add hc) fun d hd => hcents d (List.mem_cons_of_mem _ hd)
      rw [List.map_cons, List.scanl_cons, List.sum_cons]
      refine ⟨⟨y, ?_, ?_⟩, fun z hz => ?_⟩
      · rw [List.getLast?_cons, hlast]
        rfl
      · rwa [Nat.add_assoc] at hy
      · obtain rfl | hz := List.mem_cons.mp hz
        · exact ⟨total, Nat.le_add_right _ _, hx⟩
        · obtain ⟨n, hn, hz⟩ := hall z hz
          exact ⟨n, by omega, hz⟩

theorem sums_iff {cents : List ℕ} (hcents : ∀ c ∈ cents, c ≤ maxSafe) :
    SummedExactly cents ↔ cents.sum ≤ maxSafe := by
  have hzero : Stands 0 (.finite ((0 : ℕ) : ℚ)) := .exact (Nat.zero_le _)
  rw [Nat.cast_zero] at hzero
  obtain ⟨⟨y, hlast, hy⟩, hall⟩ := sums_stand hzero hcents
  rw [Nat.zero_add] at hy
  constructor
  · intro hexact
    exact hy.isSafe_iff.mp (hexact.safe y (List.mem_of_getLast? hlast))
  · intro hsum
    refine ⟨fun x hx => ?_, ?_⟩
    · obtain ⟨n, hn, hx⟩ := hall x hx
      exact hx.isSafe_iff.mpr (by omega)
    · rw [← hy.eq_of_safe hsum]
      exact hlast

/-- **Money crosses exactly**: the texts always, and prices and totals where they fit. -/
theorem money_crosses_exactly (c : ℤ) (text : Text) (treatment : VatTreatment)
    (publishedCents : Number) (percentage : Option Text) (cents : List ℕ) :
    (c.natAbs ≤ maxSafe →
      ∃ text, decimalFromCents (.finite c) = some text ∧ centsFromDecimal text = some (.finite c)) ∧
    (∀ x, centsFromDecimal text = some x ↔
      ∃ d c, Writes text d ∧ d.value * 100 = (c : ℤ) ∧ c.natAbs ≤ maxSafe ∧ x = .finite c) ∧
    (∀ x parts, signedDecimal (trim text) = some parts → centsFromDecimal text = some x →
      ∀ y ∈ sumSteps parts.2.1 parts.2.2, y.IsSafe) ∧
    (∀ price, linePriceFor treatment publishedCents percentage = .priced price false →
      ∃ basisPoints, basisPointsFromPercentage percentage = some basisPoints ∧
        price = priceWithoutVatCents publishedCents basisPoints ∧
        (PricedExactly publishedCents basisPoints ↔
          ∃ p b : ℕ, publishedCents = .finite p ∧ basisPoints = .finite b ∧ Fits p b)) ∧
    ((∀ c ∈ cents, c ≤ maxSafe) → (SummedExactly cents ↔ cents.sum ≤ maxSafe)) :=
  ⟨centsFromDecimal_decimalFromCents, centsFromDecimal_eq_some text,
    fun _ _ hparts hx => sumSteps_safe hparts hx, fun _ h => prices_iff h, sums_iff⟩

/-- A price that the code lets through, and at 21 % takes a cent too much for. -/
theorem published_price_misrounded : ¬ ∀ (treatment : VatTreatment) (publishedCents cents : Number)
    (percentage : Option Text), linePriceFor treatment publishedCents percentage = .priced cents false →
      ∃ basisPoints, basisPointsFromPercentage percentage = some basisPoints ∧
        PricedExactly publishedCents basisPoints := by
  intro hall
  have hpoints : basisPointsFromPercentage (some ['2', '1']) = some (.finite 2100) := by decide +kernel
  have hprice : priceWithoutVatCents (.finite 33727183555587) (.finite 2100) =
      .finite 27873705417841 := by decide +kernel
  have hline : linePriceFor .reverseCharge (.finite 33727183555587) (some ['2', '1']) =
      .priced (.finite 27873705417841) false := by
    rw [linePriceFor, if_neg (by decide +kernel), if_neg (by decide), hpoints]
    exact congrArg (LinePrice.priced · false) hprice
  obtain ⟨basisPoints, hsome, hexact⟩ := hall _ _ _ _ hline
  obtain rfl := Option.some.inj (hsome.symm.trans hpoints)
  obtain ⟨p, b, hp, hb, hcents, -⟩ := hexact.price
  obtain rfl : p = 33727183555587 := by exact_mod_cast (Number.finite.inj hp).symm
  obtain rfl : b = 2100 := by exact_mod_cast (Number.finite.inj hb).symm
  rw [hprice, nearestCents_eq] at hcents
  have hfigure := Number.finite.inj hcents
  norm_num at hfigure

end Ownpace.Money
