/-
Ownpace/Number/Binary64.lean

Numbers in double precision, as the rational numbers they are.

A number is rounded to the nearest double, a tie to the even one (`nearest`), and one that
is too large becomes infinite (`ofRat`).  Zero has one sign here.  The two facts that the
use of doubles as integers rests on: a natural number is rounded to a safe integer exactly
when it is one (`isSafe_ofRat_natCast`), and the floor of a rounded quotient is the floor of
the quotient as long as the numerator is safe (`floor_nearest_div`).
-/
import Mathlib.Algebra.Order.Field.Rat
import Mathlib.Algebra.Order.Floor.Ring
import Mathlib.Data.Int.Log
import Mathlib.Data.Nat.Cast.Order.Field
import Mathlib.Data.Rat.Floor
import Mathlib.Tactic.Linarith
import Mathlib.Tactic.Positivity
import Mathlib.Tactic.Ring

namespace Binary64

inductive Number where
  | finite (q : ℚ)
  | infinity
  | negativeInfinity
  | nan
  deriving DecidableEq

/-! ### Rounding -/

/-- The exponent of the last place of a number. -/
def exponent (x : ℚ) : ℤ := max (Int.log 2 |x| - 52) (-1074)

/-- The nearest whole number, a tie to the even one. -/
def halfEven (x : ℚ) : ℤ :=
  if x - ⌊x⌋ < 1 / 2 then ⌊x⌋
  else if 1 / 2 < x - ⌊x⌋ then ⌊x⌋ + 1
  else if ⌊x⌋ % 2 = 0 then ⌊x⌋
  else ⌊x⌋ + 1

def nearest (x : ℚ) : ℚ := halfEven (x / 2 ^ exponent x) * 2 ^ exponent x

def ofRat (x : ℚ) : Number :=
  if 2 ^ 1024 ≤ nearest x then .infinity
  else if nearest x ≤ -2 ^ 1024 then .negativeInfinity
  else .finite (nearest x)

/-- `Number.MAX_SAFE_INTEGER` -/
def maxSafe : ℕ := 2 ^ 53 - 1

/-- `Number.isSafeInteger` -/
def Number.IsSafe : Number → Prop
  | finite q => ∃ n : ℤ, q = n ∧ n.natAbs ≤ maxSafe
  | infinity => False
  | negativeInfinity => False
  | nan => False

instance : DecidablePred Number.IsSafe
  | .finite q => decidable_of_iff (q.den = 1 ∧ q.num.natAbs ≤ maxSafe) ⟨
      fun ⟨hden, hle⟩ => ⟨q.num, ((Rat.den_eq_one_iff q).mp hden).symm, hle⟩,
      fun ⟨n, hn, hle⟩ => by
        subst hn
        exact ⟨Rat.den_intCast n, hle⟩⟩
  | .infinity => .isFalse id
  | .negativeInfinity => .isFalse id
  | .nan => .isFalse id

/-! ### Arithmetic -/

def Number.add : Number → Number → Number
  | finite a, finite b => ofRat (a + b)
  | nan, _ => nan
  | _, nan => nan
  | infinity, negativeInfinity => nan
  | negativeInfinity, infinity => nan
  | infinity, _ => infinity
  | _, infinity => infinity
  | negativeInfinity, _ => negativeInfinity
  | _, negativeInfinity => negativeInfinity

/-- What is infinite, with the sign of another number. -/
def Number.signed (positive : Bool) : ℚ → Number := fun b =>
  if b = 0 then nan else if (0 < b) = positive then infinity else negativeInfinity

def Number.mul : Number → Number → Number
  | finite a, finite b => ofRat (a * b)
  | nan, _ => nan
  | _, nan => nan
  | infinity, finite b => signed true b
  | finite a, infinity => signed true a
  | negativeInfinity, finite b => signed false b
  | finite a, negativeInfinity => signed false a
  | infinity, infinity => infinity
  | negativeInfinity, negativeInfinity => infinity
  | infinity, negativeInfinity => negativeInfinity
  | negativeInfinity, infinity => negativeInfinity

def Number.div : Number → Number → Number
  | finite a, finite b => if b = 0 then signed true a else ofRat (a / b)
  | nan, _ => nan
  | _, nan => nan
  | finite _, _ => finite 0
  | infinity, finite b => if b < 0 then negativeInfinity else infinity
  | negativeInfinity, finite b => if b < 0 then infinity else negativeInfinity
  | infinity, _ => nan
  | negativeInfinity, _ => nan

/-- `Math.floor` -/
def Number.floor : Number → Number
  | finite q => finite ⌊q⌋
  | infinity => infinity
  | negativeInfinity => negativeInfinity
  | nan => nan

/-- A rational without its fraction. -/
def wholePart (q : ℚ) : ℤ := if q < 0 then ⌈q⌉ else ⌊q⌋

/-- `Math.trunc` -/
def Number.trunc : Number → Number
  | finite q => finite (wholePart q)
  | infinity => infinity
  | negativeInfinity => negativeInfinity
  | nan => nan

/-- `a % b`, which is exact. -/
def Number.rem : Number → Number → Number
  | finite a, finite b => if b = 0 then nan else finite (a - b * wholePart (a / b))
  | finite a, infinity => finite a
  | finite a, negativeInfinity => finite a
  | _, _ => nan

def Number.neg : Number → Number
  | finite q => finite (-q)
  | infinity => negativeInfinity
  | negativeInfinity => infinity
  | nan => nan

/-- `Math.abs` -/
def Number.abs : Number → Number
  | finite q => finite |q|
  | infinity => infinity
  | negativeInfinity => infinity
  | nan => nan

/-- `Math.min`, `NaN` if either is. -/
def Number.min : Number → Number → Number
  | nan, _ => nan
  | _, nan => nan
  | infinity, b => b
  | a, infinity => a
  | negativeInfinity, _ => negativeInfinity
  | _, negativeInfinity => negativeInfinity
  | finite a, finite b => finite (Min.min a b)

/-- `Math.max`, likewise. -/
def Number.max : Number → Number → Number
  | nan, _ => nan
  | _, nan => nan
  | negativeInfinity, b => b
  | a, negativeInfinity => a
  | infinity, _ => infinity
  | _, infinity => infinity
  | finite a, finite b => finite (Max.max a b)

/-! ### How a number is rounded -/

theorem halfEven_intCast (n : ℤ) : halfEven n = n := by
  rw [halfEven, Int.floor_intCast, sub_self, if_pos (by norm_num)]

theorem floor_le_halfEven (x : ℚ) : ⌊x⌋ ≤ halfEven x := by
  rw [halfEven]
  split_ifs <;> omega

theorem halfEven_le (x : ℚ) : (halfEven x : ℚ) ≤ x + 1 / 2 := by
  have hfloor := Int.floor_le x
  rw [halfEven]
  split_ifs <;> push_cast <;> linarith

/-- A whole number at most `x` stays so. -/
theorem le_halfEven {n : ℤ} {x : ℚ} (h : (n : ℚ) ≤ x) : n ≤ halfEven x :=
  Int.le_trans (Int.le_floor.mpr h) (floor_le_halfEven x)

theorem two_zpow_pos (e : ℤ) : (0 : ℚ) < 2 ^ e := zpow_pos (by norm_num) e

theorem nearest_of_exact {x : ℚ} {n : ℤ} (h : x = n * 2 ^ exponent x) : nearest x = x := by
  have hne : (2 : ℚ) ^ exponent x ≠ 0 := (two_zpow_pos _).ne'
  have hquotient : x / 2 ^ exponent x = n := by
    rw [div_eq_iff hne]
    exact h
  rw [nearest, hquotient, halfEven_intCast, ← h]

/-- The last place of a number below 2^53 is no larger than one. -/
theorem exponent_le {x : ℚ} (hpos : 0 < x) (hlt : x < 2 ^ 53) : exponent x ≤ 0 := by
  have hlog : Int.log 2 x < 53 :=
    (Int.lt_zpow_iff_log_lt (by norm_num) hpos).mp (by exact_mod_cast hlt)
  rw [exponent, abs_of_pos hpos]
  omega

theorem natCast_lt {n : ℕ} (h : n ≤ maxSafe) : (n : ℚ) < 2 ^ 53 := by
  have hbelow : n < 2 ^ 53 := by
    rw [maxSafe] at h
    omega
  exact_mod_cast hbelow

/-- Whole numbers of at most 53 bits are doubles. -/
theorem nearest_natCast {n : ℕ} (h : n ≤ maxSafe) : nearest n = n := by
  obtain rfl | hpos := Nat.eq_zero_or_pos n
  · rw [Nat.cast_zero, nearest, zero_div, ← Int.cast_zero, halfEven_intCast, Int.cast_zero, zero_mul]
  have hexponent := exponent_le (x := (n : ℚ)) (by exact_mod_cast hpos) (natCast_lt h)
  obtain ⟨k, hk⟩ := Int.eq_ofNat_of_zero_le (Int.neg_nonneg_of_nonpos hexponent)
  refine nearest_of_exact (n := n * 2 ^ k) ?_
  have hneg : exponent (n : ℚ) = -(k : ℤ) := by omega
  rw [hneg, zpow_neg, zpow_natCast]
  push_cast
  field_simp

/-- A number that reaches a power of two still does when it is rounded. -/
theorem two_pow_le_nearest {x : ℚ} {k : ℕ} (h : (2 : ℚ) ^ k ≤ x) : (2 : ℚ) ^ k ≤ nearest x := by
  have hpos : 0 < x := lt_of_lt_of_le (by positivity) h
  have hlog : (k : ℤ) ≤ Int.log 2 x :=
    (Int.zpow_le_iff_le_log (by norm_num) hpos).mp (by rw [zpow_natCast]; exact_mod_cast h)
  have hexponent : exponent x = Int.log 2 x - 52 := by
    rw [exponent, abs_of_pos hpos]
    omega
  have hle : ((2 ^ 52 : ℤ) : ℚ) ≤ x / 2 ^ exponent x := by
    rw [le_div_iff₀ (two_zpow_pos _), hexponent, zpow_sub₀ (by norm_num)]
    have hself := Int.zpow_log_le_self (b := 2) (by norm_num) hpos
    push_cast at hself ⊢
    linarith
  have hhalf : ((2 ^ 52 : ℤ) : ℚ) ≤ halfEven (x / 2 ^ exponent x) := by
    exact_mod_cast le_halfEven hle
  calc
    (2 : ℚ) ^ k = 2 ^ (k : ℤ) := (zpow_natCast _ _).symm
    _ ≤ 2 ^ Int.log 2 x := zpow_le_zpow_right₀ (by norm_num) hlog
    _ = (2 ^ 52 : ℤ) * 2 ^ exponent x := by
        rw [hexponent, zpow_sub₀ (by norm_num)]
        push_cast
        ring
    _ ≤ nearest x := mul_le_mul_of_nonneg_right hhalf (two_zpow_pos _).le

theorem nearest_nonneg {x : ℚ} (h : 0 ≤ x) : 0 ≤ nearest x := by
  have hzero : (0 : ℤ) ≤ halfEven (x / 2 ^ exponent x) :=
    le_halfEven (by exact_mod_cast div_nonneg h (two_zpow_pos _).le)
  exact mul_nonneg (by exact_mod_cast hzero) (two_zpow_pos _).le

theorem ofRat_of_safe {n : ℕ} (h : n ≤ maxSafe) : ofRat n = .finite n := by
  have hlt : (n : ℚ) < (2 : ℚ) ^ 1024 := by
    have hpow : (2 : ℚ) ^ 53 ≤ 2 ^ 1024 := pow_le_pow_right₀ (by norm_num) (by norm_num)
    exact lt_of_lt_of_le (natCast_lt h) hpow
  rw [ofRat, nearest_natCast h, if_neg (not_le.mpr hlt), if_neg]
  have hneg : (-2 ^ 1024 : ℚ) < 0 := by norm_num
  exact not_le.mpr (lt_of_lt_of_le hneg (Nat.cast_nonneg n))

theorem isSafe_finite_natCast {n : ℕ} : (Number.finite n).IsSafe ↔ n ≤ maxSafe := by
  constructor
  · rintro ⟨m, hm, hle⟩
    have hnm : (n : ℤ) = m := by exact_mod_cast hm
    omega
  · exact fun h => ⟨n, by push_cast; rfl, by simpa using h⟩

/-- A natural number is rounded to a safe integer exactly when it is one. -/
theorem isSafe_ofRat_natCast {n : ℕ} : (ofRat n).IsSafe ↔ n ≤ maxSafe := by
  constructor
  · intro hsafe
    by_contra hlarge
    have hpow : ((2 : ℚ) ^ 53) ≤ n := by
      have hle : 2 ^ 53 ≤ n := by
        rw [maxSafe] at hlarge
        omega
      exact_mod_cast hle
    have hnearest := two_pow_le_nearest hpow
    rw [ofRat] at hsafe
    split_ifs at hsafe
    · exact hsafe
    · exact hsafe
    · obtain ⟨m, hm, hle⟩ := hsafe
      rw [hm] at hnearest
      have hint : (2 : ℤ) ^ 53 ≤ m := by exact_mod_cast hnearest
      rw [maxSafe] at hle
      omega
  · intro h
    rw [ofRat_of_safe h]
    exact isSafe_finite_natCast.mpr h

/-- A natural number is rounded to one, or becomes infinite. -/
theorem ofRat_natCast (n : ℕ) : ofRat n = .infinity ∨ ∃ m : ℕ, ofRat n = .finite m := by
  obtain hle | hlt := Nat.lt_or_ge maxSafe n
  · have hpos : (0 : ℚ) < n := by exact_mod_cast Nat.lt_of_le_of_lt (Nat.zero_le _) hle
    have hlog : (53 : ℤ) ≤ Int.log 2 (n : ℚ) := by
      refine (Int.zpow_le_iff_le_log (by norm_num) hpos).mp ?_
      have hpow : 2 ^ 53 ≤ n := by
        rw [maxSafe] at hle
        omega
      exact_mod_cast hpow
    obtain ⟨k, hk⟩ : ∃ k : ℕ, exponent (n : ℚ) = k := by
      refine Int.eq_ofNat_of_zero_le ?_
      rw [exponent, abs_of_pos hpos]
      omega
    obtain ⟨j, hj⟩ : ∃ j : ℕ, halfEven (n / 2 ^ exponent (n : ℚ)) = j := by
      refine Int.eq_ofNat_of_zero_le (le_halfEven ?_)
      exact_mod_cast div_nonneg hpos.le (two_zpow_pos _).le
    have hnearest : nearest n = (j * 2 ^ k : ℕ) := by
      rw [nearest, hj, hk, zpow_natCast]
      push_cast
      rfl
    rw [ofRat]
    split_ifs with hinf hneg
    · exact .inl rfl
    · have hnonneg := nearest_nonneg hpos.le
      have hnum : (-2 ^ 1024 : ℚ) < 0 := by norm_num
      exact absurd (hnonneg.trans hneg) (not_le.mpr hnum)
    · exact .inr ⟨_, by rw [hnearest]⟩
  · exact .inr ⟨n, ofRat_of_safe hlt⟩

/-- Half a last place, of a positive number of at least the smallest normal size. -/
theorem nearest_le {x : ℚ} (hpos : 0 < x) (hlog : -1022 ≤ Int.log 2 x) :
    nearest x ≤ x + x / 2 ^ 53 := by
  have hexponent : exponent x = Int.log 2 x - 52 := by
    rw [exponent, abs_of_pos hpos]
    omega
  have hself := Int.zpow_log_le_self (b := 2) (by norm_num) hpos
  have hplace : (2 : ℚ) ^ exponent x ≤ x / 2 ^ 52 := by
    rw [hexponent, zpow_sub₀ (by norm_num), le_div_iff₀ (by positivity)]
    push_cast at hself
    have hsame : (2 : ℚ) ^ Int.log 2 x / 2 ^ (52 : ℤ) * 2 ^ 52 = 2 ^ Int.log 2 x := by
      field_simp
    rw [hsame]
    exact hself
  have hhalf := halfEven_le (x / 2 ^ exponent x)
  calc
    nearest x ≤ (x / 2 ^ exponent x + 1 / 2) * 2 ^ exponent x :=
        mul_le_mul_of_nonneg_right hhalf (two_zpow_pos _).le
    _ = x + 2 ^ exponent x / 2 := by
        rw [add_mul, div_mul_cancel₀ _ (two_zpow_pos _).ne']
        ring
    _ ≤ x + x / 2 ^ 53 := by
        have htwo : x / 2 ^ 53 = x / 2 ^ 52 / 2 := by ring
        rw [htwo]
        linarith

/-- A whole number that a number below 2^53 reaches, it reaches when it is rounded. -/
theorem natCast_le_nearest {x : ℚ} {k : ℕ} (hpos : 0 < x) (hlt : x < 2 ^ 53) (hk : (k : ℚ) ≤ x) :
    (k : ℚ) ≤ nearest x := by
  obtain ⟨j, hj⟩ := Int.eq_ofNat_of_zero_le (Int.neg_nonneg_of_nonpos (exponent_le hpos hlt))
  have hneg : exponent x = -(j : ℤ) := by omega
  have hplace : ((k * 2 ^ j : ℤ) : ℚ) ≤ x / 2 ^ exponent x := by
    rw [le_div_iff₀ (two_zpow_pos _), hneg, zpow_neg, zpow_natCast]
    push_cast
    field_simp
    exact hk
  have hhalf : ((k * 2 ^ j : ℤ) : ℚ) ≤ halfEven (x / 2 ^ exponent x) := by
    exact_mod_cast le_halfEven hplace
  calc
    (k : ℚ) = (k * 2 ^ j : ℤ) * 2 ^ exponent x := by
        rw [hneg, zpow_neg, zpow_natCast]
        push_cast
        field_simp
    _ ≤ nearest x := mul_le_mul_of_nonneg_right hhalf (two_zpow_pos _).le

/-- The floor of a rounded quotient is the floor of the quotient: it is further from the next
whole number than half a last place. -/
theorem floor_nearest_div {a m : ℕ} (ha : a ≤ maxSafe) (hm : 0 < m) (hsafe : m ≤ maxSafe) :
    ⌊nearest ((a : ℚ) / m)⌋ = ((a / m : ℕ) : ℤ) := by
  have hmpos : (0 : ℚ) < m := by exact_mod_cast hm
  obtain rfl | hapos := Nat.eq_zero_or_pos a
  · have hzero := nearest_natCast (n := 0) (Nat.zero_le _)
    rw [Nat.cast_zero] at hzero
    rw [Nat.cast_zero, zero_div, hzero, Nat.zero_div]
    rfl
  have hpos : (0 : ℚ) < (a : ℚ) / m := div_pos (by exact_mod_cast hapos) hmpos
  have hlt : (a : ℚ) / m < 2 ^ 53 := by
    refine lt_of_le_of_lt (div_le_self (Nat.cast_nonneg a) ?_) (natCast_lt ha)
    exact_mod_cast hm
  have hlog : -1022 ≤ Int.log 2 ((a : ℚ) / m) := by
    have hsmall : (2 : ℚ) ^ (-53 : ℤ) ≤ (a : ℚ) / m := by
      rw [le_div_iff₀ hmpos, zpow_neg, inv_mul_le_iff₀ (two_zpow_pos _)]
      have hone : (1 : ℚ) ≤ a := by exact_mod_cast hapos
      have hbound := natCast_lt hsafe
      push_cast
      linarith
    have hreached := (Int.zpow_le_iff_le_log (b := 2) (by norm_num) hpos).mp (by exact_mod_cast hsmall)
    omega
  rw [Int.floor_eq_iff]
  constructor
  · have hfloor : ((a / m : ℕ) : ℚ) ≤ (a : ℚ) / m := Nat.cast_div_le
    exact_mod_cast natCast_le_nearest hpos hlt hfloor
  · have hstep : (a : ℚ) + 1 ≤ ((a / m : ℕ) + 1) * m := by
      have hdiv : a < (a / m + 1) * m := Nat.lt_mul_of_div_lt (Nat.lt_succ_self _) hm
      exact_mod_cast hdiv
    have hnext : (a : ℚ) / m + 1 / m ≤ (a / m : ℕ) + 1 := by
      rw [← add_div, div_le_iff₀ hmpos]
      exact hstep
    have hpart : (a : ℚ) / m / 2 ^ 53 < 1 / m := by
      rw [div_div, div_lt_div_iff₀ (by positivity) hmpos, one_mul, mul_comm]
      exact mul_lt_mul_of_pos_left (natCast_lt ha) hmpos
    have hround := nearest_le hpos hlog
    rw [Int.cast_natCast]
    linarith

/-- A quotient of safe integers does not overflow. -/
theorem ofRat_div {a m : ℕ} (ha : a ≤ maxSafe) (hm : 0 < m) (hsafe : m ≤ maxSafe) :
    ofRat ((a : ℚ) / m) = .finite (nearest ((a : ℚ) / m)) := by
  have hnonneg : 0 ≤ nearest ((a : ℚ) / m) := nearest_nonneg (div_nonneg (Nat.cast_nonneg a) (Nat.cast_nonneg m))
  have hlt : nearest ((a : ℚ) / m) < 2 ^ 53 := by
    have hfloor := floor_nearest_div ha hm hsafe
    have hquotient : a / m ≤ maxSafe := Nat.le_trans (Nat.div_le_self a m) ha
    refine lt_of_lt_of_le (Int.lt_floor_add_one _) ?_
    rw [hfloor, Int.cast_natCast]
    have hnext : a / m + 1 ≤ 2 ^ 53 := by
      rw [maxSafe] at hquotient
      omega
    exact_mod_cast hnext
  have hpow : (2 : ℚ) ^ 53 ≤ 2 ^ 1024 := pow_le_pow_right₀ (by norm_num) (by norm_num)
  have hneg : (-2 ^ 1024 : ℚ) < 0 := by norm_num
  rw [ofRat, if_neg (not_le.mpr (lt_of_lt_of_le hlt hpow)), if_neg (not_le.mpr (lt_of_lt_of_le hneg hnonneg))]

/-- So its floor is the whole part of it. -/
theorem floor_div {a m : ℕ} (ha : a ≤ maxSafe) (hm : 0 < m) (hsafe : m ≤ maxSafe) :
    (Number.div (.finite a) (.finite m)).floor = .finite ((a / m : ℕ) : ℚ) := by
  have hne : (m : ℚ) ≠ 0 := by exact_mod_cast hm.ne'
  rw [Number.div, if_neg hne, ofRat_div ha hm hsafe, Number.floor, floor_nearest_div ha hm hsafe,
    Int.cast_natCast]

theorem trunc_div {a m : ℕ} (ha : a ≤ maxSafe) (hm : 0 < m) (hsafe : m ≤ maxSafe) :
    (Number.div (.finite a) (.finite m)).trunc = .finite ((a / m : ℕ) : ℚ) := by
  have hne : (m : ℚ) ≠ 0 := by exact_mod_cast hm.ne'
  have hnonneg : 0 ≤ nearest ((a : ℚ) / m) := nearest_nonneg (div_nonneg (Nat.cast_nonneg a) (Nat.cast_nonneg m))
  rw [Number.div, if_neg hne, ofRat_div ha hm hsafe, Number.trunc, wholePart, if_neg (not_lt.mpr hnonneg),
    floor_nearest_div ha hm hsafe, Int.cast_natCast]

theorem rem_natCast {a m : ℕ} (hm : 0 < m) :
    Number.rem (.finite a) (.finite m) = .finite ((a % m : ℕ) : ℚ) := by
  have hne : (m : ℚ) ≠ 0 := by exact_mod_cast hm.ne'
  have hnonneg : 0 ≤ (a : ℚ) / m := div_nonneg (Nat.cast_nonneg a) (Nat.cast_nonneg m)
  have hfloor : ⌊(a : ℚ) / m⌋ = ((a / m : ℕ) : ℤ) := Rat.floor_natCast_div_natCast a m
  have hsplit : (a : ℚ) = m * (a / m : ℕ) + (a % m : ℕ) := by exact_mod_cast (Nat.div_add_mod a m).symm
  rw [Number.rem, if_neg hne, wholePart, if_neg (not_lt.mpr hnonneg), hfloor, Int.cast_natCast]
  congr 1
  linarith

/-! ### Computing with natural numbers -/

/-- A natural number as it is computed: itself while it is safe, and then only known to be
past the safe ones. -/
inductive Stands (n : ℕ) : Number → Prop
  | exact (hsafe : n ≤ maxSafe) : Stands n (.finite n)
  | past {m : ℕ} (hn : maxSafe < n) (hm : maxSafe < m) : Stands n (.finite m)
  | infinite (hn : maxSafe < n) : Stands n .infinity

theorem stands_ofRat (n : ℕ) : Stands n (ofRat n) := by
  obtain hsafe | hlarge := Nat.lt_or_ge maxSafe n
  · have hunsafe : ¬ (ofRat (n : ℚ)).IsSafe := fun h => absurd (isSafe_ofRat_natCast.mp h) (Nat.not_le.mpr hsafe)
    obtain hinf | ⟨m, hm⟩ := ofRat_natCast n
    · rw [hinf]
      exact .infinite hsafe
    · rw [hm] at hunsafe ⊢
      exact .past hsafe (Nat.lt_of_not_le fun hle => hunsafe (isSafe_finite_natCast.mpr hle))
  · rw [ofRat_of_safe hlarge]
    exact .exact hlarge

/-- It is safe exactly when the natural number is. -/
theorem Stands.isSafe_iff {n : ℕ} {x : Number} (h : Stands n x) : x.IsSafe ↔ n ≤ maxSafe := by
  cases h with
  | exact hsafe => exact isSafe_finite_natCast
  | past hn hm =>
      rw [isSafe_finite_natCast]
      omega
  | infinite hn => exact ⟨False.elim, fun hle => absurd hle (Nat.not_le.mpr hn)⟩

theorem Stands.eq_of_safe {n : ℕ} {x : Number} (h : Stands n x) (hsafe : n ≤ maxSafe) : x = .finite n := by
  cases h with
  | exact => rfl
  | past hn | infinite hn => exact absurd hsafe (Nat.not_le.mpr hn)

/-- What stands for a number past the safe ones stands for any other. -/
theorem Stands.of_past {n m : ℕ} {x : Number} (h : Stands n x) (hn : maxSafe < n) (hm : maxSafe < m) :
    Stands m x := by
  cases h with
  | exact hsafe => omega
  | past _ hk => exact .past hm hk
  | infinite => exact .infinite hm

theorem Stands.add {n m : ℕ} {x y : Number} (hx : Stands n x) (hy : Stands m y) :
    Stands (n + m) (x.add y) := by
  have hsum (i j : ℕ) : Stands (i + j) (Number.add (.finite i) (.finite j)) := by
    have hcast : ((i + j : ℕ) : ℚ) = i + j := Nat.cast_add i j
    show Stands (i + j) (ofRat (i + j))
    rw [← hcast]
    exact stands_ofRat _
  cases hx with
  | exact hn =>
      cases hy with
      | exact => exact hsum n m
      | @past j hm hj => exact (hsum n j).of_past (by omega) (by omega)
      | infinite hm => exact .infinite (by omega)
  | @past i hn hi =>
      cases hy with
      | exact => exact (hsum i m).of_past (by omega) (by omega)
      | @past j hm hj => exact (hsum i j).of_past (by omega) (by omega)
      | infinite => exact .infinite (by omega)
  | infinite hn => cases hy <;> exact .infinite (by omega)

/-- A positive multiple. -/
theorem Stands.mul {n k : ℕ} {x : Number} (hx : Stands n x) (hk : 0 < k) :
    Stands (n * k) (x.mul (.finite k)) := by
  have hproduct (i : ℕ) : Stands (i * k) (Number.mul (.finite i) (.finite k)) := by
    have hcast : ((i * k : ℕ) : ℚ) = i * k := Nat.cast_mul i k
    show Stands (i * k) (ofRat (i * k))
    rw [← hcast]
    exact stands_ofRat _
  have hgrows (i : ℕ) : i ≤ i * k := Nat.le_mul_of_pos_right i hk
  cases hx with
  | exact => exact hproduct n
  | @past i hn hi => exact (hproduct i).of_past (by have := hgrows i; omega) (by have := hgrows n; omega)
  | infinite hn =>
      have hpos : (0 : ℚ) < k := by exact_mod_cast hk
      have hinf : Number.mul .infinity (.finite k) = .infinity := by
        show Number.signed true k = _
        rw [Number.signed, if_neg hpos.ne', if_pos (by simp [hpos])]
      rw [hinf]
      exact .infinite (by have := hgrows n; omega)

theorem Number.mul_comm_finite (a : ℚ) (x : Number) : Number.mul (.finite a) x = x.mul (.finite a) := by
  cases x with
  | finite q => exact congrArg ofRat (mul_comm a q)
  | infinity | negativeInfinity | nan => rfl

end Binary64
