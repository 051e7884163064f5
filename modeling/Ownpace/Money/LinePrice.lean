/-
Ownpace/Money/LinePrice.lean

What an invoice line costs, in double precision (`line-price.ts`): cents and Moneybird's
decimal texts, the published price without the VAT in it, and the sum a draft's total is
compared with (`moneybird-push.ts`).

The texts cross exactly, whatever is written.  A price is taken out of a published one in
doubles that stand for integers, and nothing keeps these below 2^53: `Fits` says when they
are, and then the figures are those of the integers (`prices_iff`).
-/
import Ownpace.Number.Binary64
import Ownpace.Push.Plan

namespace Ownpace.Money

open Binary64
open Ownpace.Keys
open Ownpace.Push (VatTreatment digitsValue decimalParts)

abbrev Text := List Char

/-! ### Cents and decimal texts -/

/-- `String(x)` of a whole number below 10^21, and of what is not finite. -/
def stringOf : Number → Text
  | .finite q => (if q < 0 then ['-'] else []) ++ Nat.toDigits 10 ⌊q⌋.natAbs
  | .infinity => "Infinity".toList
  | .negativeInfinity => "-Infinity".toList
  | .nan => "NaN".toList

def isNegative : Number → Bool
  | .finite q => q < 0
  | .negativeInfinity => true
  | .infinity => false
  | .nan => false

/-- None where it throws. -/
def decimalFromCents (cents : Number) : Option Text :=
  if cents.IsSafe then
    let sign := if isNegative cents then ['-'] else []
    let whole := (cents.abs.div (.finite 100)).trunc
    some (sign ++ stringOf whole ++ '.' :: (stringOf (cents.abs.rem (.finite 100))).leftpad 2 '0')
  else none

/-- `/^(-)?([0-9]+)(?:\.([0-9]+))?$/` -/
def signedDecimal : Text → Option (Bool × Text × Text)
  | '-' :: rest => (decimalParts rest).map fun parts => (true, parts)
  | text => (decimalParts text).map fun parts => (false, parts)

/-- `/[1-9]/.test(fraction.slice(2))` -/
def tooFine (fraction : Text) : Bool := (fraction.drop 2).any fun c => '1' ≤ c ∧ c ≤ '9'

/-- `fraction.slice(0, 2).padEnd(2, '0')` -/
def hundredths (fraction : Text) : Text := (fraction.take 2).rightpad 2 '0'

/-- `Number(digits)` -/
def toNumber (digits : Text) : Number := ofRat (digitsValue digits)

/-- `Number(euros) * 100 + Number(fraction.slice(0, 2).padEnd(2, '0'))` -/
def sumOf (whole fraction : Text) : Number :=
  ((toNumber whole).mul (.finite 100)).add (toNumber (hundredths fraction))

/-- What is computed on the way. -/
def sumSteps (whole fraction : Text) : List Number :=
  [toNumber whole, (toNumber whole).mul (.finite 100), toNumber (hundredths fraction),
    sumOf whole fraction]

def centsFromDecimal (value : Text) : Option Number :=
  match signedDecimal (trim value) with
  | none => none
  | some (minus, euros, fraction) =>
    if tooFine fraction then none
    else
      let cents := sumOf euros fraction
      if ¬ cents.IsSafe then none
      else some (if minus ∧ cents ≠ .finite 0 then cents.neg else cents)

/-! ### The price of a line -/

def basisPointsFromPercentage (value : Option Text) : Option Number :=
  match value with
  | none => none
  | some text =>
    match decimalParts (trim text) with
    | none => none
    | some (whole, fraction) => if tooFine fraction then none else some (sumOf whole fraction)

section

variable (publishedCents basisPoints : Number)

def numerator : Number := publishedCents.mul (.finite 10000)

def denominator : Number := .add (.finite 10000) basisPoints

def dividend : Number :=
  .add (.mul (.finite 2) (numerator publishedCents)) (denominator basisPoints)

def divisor : Number := .mul (.finite 2) (denominator basisPoints)

def priceWithoutVatCents : Number := (Number.div (dividend publishedCents basisPoints) (divisor basisPoints)).floor

/-- What is computed on the way to a price. -/
def steps : List Number :=
  [basisPoints, numerator publishedCents, denominator basisPoints,
    .mul (.finite 2) (numerator publishedCents), dividend publishedCents basisPoints,
    divisor basisPoints]

end

inductive LinePrice where
  | priced (cents : Number) (pricesAreInclTax : Bool)
  | refusedPrice
  | refusedPercentage
  deriving DecidableEq

def linePriceFor (treatment : VatTreatment) (publishedCents : Number)
    (domesticPercentage : Option Text) : LinePrice :=
  if ¬ publishedCents.IsSafe ∨ isNegative publishedCents then .refusedPrice
  else if treatment = .domesticStandard ∨ treatment = .destinationOss then .priced publishedCents true
  else
    match basisPointsFromPercentage domesticPercentage with
    | none => .refusedPercentage
    | some basisPoints => .priced (priceWithoutVatCents publishedCents basisPoints) false

/-- `priced.reduce((sum, line) => sum + line.cents, 0)`, with the sums on the way. -/
def sums (cents : List Number) : List Number := cents.scanl .add (.finite 0)

/-! ### What the texts say -/

/-- A decimal number as it is written. -/
structure Decimal where
  minus : Bool
  whole : Text
  /-- With a point in front, where there is one. -/
  fraction : Option Text
  whole_digits : whole ≠ [] ∧ ∀ c ∈ whole, c.isDigit = true
  fraction_digits : ∀ f ∈ fraction, f ≠ [] ∧ ∀ c ∈ f, c.isDigit = true

def Decimal.text (d : Decimal) : Text :=
  (if d.minus then ['-'] else []) ++ d.whole ++ d.fraction.elim [] ('.' :: ·)

def Decimal.magnitude (d : Decimal) : ℚ :=
  digitsValue d.whole + d.fraction.elim 0 fun f => (digitsValue f : ℚ) / 10 ^ f.length

def Decimal.value (d : Decimal) : ℚ := if d.minus then -d.magnitude else d.magnitude

/-- A text that is a decimal number, with blanks around it or not. -/
def Writes (text : Text) (d : Decimal) : Prop :=
  ∃ before after, Blank before ∧ Blank after ∧ text = before ++ d.text ++ after

end Ownpace.Money
