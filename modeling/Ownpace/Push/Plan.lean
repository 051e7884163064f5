/-
Ownpace/Push/Plan.lean

What a push of an invoice draft decides before Moneybird holds anything of it
(`invoice-push.ts`, `vat-treatment.ts`, `moneybird-tax-rates.ts`,
`line-price.ts`): the lines it can read, the VAT treatment from the buyer's
details, the administration's own rate for it, and the price of each line.

A refusal is the error of an `Except`, with its reason; so is an error thrown.
Cents are whole numbers, percentages Moneybird's texts.
-/
import Mathlib.Data.List.Basic
import Ownpace.Keys.Text

namespace Ownpace.Push

/-! ### The VAT treatment -/

inductive VatTreatment where
  | domesticStandard | reverseCharge | destinationOss | outsideEu
  deriving DecidableEq

/-- The source's word for it. -/
def VatTreatment.word : VatTreatment → String
  | .domesticStandard => "domestic_standard"
  | .reverseCharge => "reverse_charge"
  | .destinationOss => "destination_oss"
  | .outsideEu => "outside_eu"

inductive BuyerKind where
  | consumer | business
  deriving DecidableEq

/-- The buyer's details, a row of `billing_party`. -/
structure Party where
  kind : BuyerKind
  name : String
  addressLine1 : String
  addressLine2 : Option String
  postalCode : String
  city : String
  countryCode : String
  vatNumber : Option String
  invoiceEmail : Option String
  deriving DecidableEq

/-- VIES's answer about a number; `checkedOn` is the day of `checkedAt`. -/
structure VatConsultation where
  countryCode : String
  vatNumber : String
  valid : Bool
  requestDate : Option String
  consultationNumber : Option String
  checkedOn : String
  deriving DecidableEq

structure BuyerStanding where
  party : Option Party
  vatConsultation : Option VatConsultation
  deriving DecidableEq

def euVatCountries : List String :=
  ["AT", "BE", "BG", "CY", "CZ", "DE", "DK", "EE", "ES", "FI", "FR", "GR", "HR", "HU", "IE", "IT",
    "LT", "LU", "LV", "MT", "NL", "PL", "PT", "RO", "SE", "SI", "SK"]

/-- A country code as it is compared.  A code is of ASCII letters. -/
def countryOf (code : String) : String := (String.ofList (Keys.trim code.toList)).toUpper

def decideVatTreatment (sellerCountry : String) (ossActive : Bool) (kind : BuyerKind)
    (countryCode : String) (consultation : Option VatConsultation) : Except String VatTreatment :=
  let seller := countryOf sellerCountry
  let buyerCountry := countryOf countryCode
  if seller ∉ euVatCountries then
    .error s!"The seller country is configured as {seller}, which is not an EU member state — OWNPACE_SELLER_COUNTRY must name where the operating entity is established."
  else if buyerCountry ∉ euVatCountries then .ok .outsideEu
  else if buyerCountry = seller then .ok .domesticStandard
  else if kind = .business then
    if consultation.any (·.valid) then .ok .reverseCharge else .ok .domesticStandard
  else if ossActive then .ok .destinationOss
  else .ok .domesticStandard

/-! ### The plan -/

/-- A line of the draft's row, as it can be read. -/
structure RawLine where
  description : Option String
  publishedCents : Option Int
  deriving DecidableEq

structure DraftLine where
  description : String
  publishedCents : Int
  deriving DecidableEq

def RawLine.read (line : RawLine) : Option DraftLine :=
  match line.description, line.publishedCents with
  | some description, some publishedCents =>
    if description = "" ∨ publishedCents ≤ 0 then none else some ⟨description, publishedCents⟩
  | _, _ => none

/-- The draft's lines, or none where one of them cannot be read or there is none. -/
def linesOf (raw : List RawLine) : Option (List DraftLine) :=
  if raw = [] then none else raw.mapM RawLine.read

inductive Delivery where
  | manual | email
  deriving DecidableEq

/-- The treatments' tax rates, by Moneybird's ids. -/
structure TaxRateIdConfig where
  domesticStandard : String
  reverseCharge : String
  outsideEu : Option String
  deriving DecidableEq

/-- What the deployment sets: the push's context, and Moneybird's settings. -/
structure Settings where
  sellerCountry : String
  ossActive : Bool
  delivery : Delivery
  taxRates : TaxRateIdConfig
  deriving DecidableEq

structure ContactInput where
  customerId : String
  companyName : Option String
  lastname : Option String
  address1 : String
  address2 : Option String
  zipcode : String
  city : String
  country : String
  taxNumber : Option String
  email : Option String
  deriving DecidableEq

structure InvoiceToPush where
  reference : String
  treatment : VatTreatment
  buyer : ContactInput
  lines : List DraftLine
  deriving DecidableEq

/-- The VIES words a reverse-charge line ends with. -/
def reverseChargeWords (consultation : VatConsultation) : String :=
  let number := consultation.consultationNumber.getD (consultation.countryCode ++ consultation.vatNumber)
  let date := consultation.requestDate.getD consultation.checkedOn
  s!"Btw verlegd / VAT reverse charged. VIES {number}, {date}"

/-- The invoice for a draft, from the buyer's details as they stand. -/
def planPush (settings : Settings) (tenantId reference : String) (lines : List DraftLine)
    (standing : BuyerStanding) : Except String InvoiceToPush :=
  match standing.party with
  | none =>
    .error s!"invoice {reference}: the organisation has given no invoice details, so there is nobody to address it to"
  | some party =>
    -- an empty address is none
    if settings.delivery = .email ∧ (party.invoiceEmail.getD "") = "" then
      .error s!"invoice {reference}: Moneybird would e-mail it, and the organisation has given no invoice e-mail address to send it to (decision 11)"
    else do
      let treatment ← decideVatTreatment settings.sellerCountry settings.ossActive party.kind
        party.countryCode standing.vatConsultation
      let words :=
        if treatment = .reverseCharge then standing.vatConsultation.map reverseChargeWords else none
      let business := party.kind = .business
      return {
        reference := reference
        treatment := treatment
        buyer := {
          customerId := "ownpace-" ++ tenantId
          companyName := if business then some party.name else none
          lastname := if business then none else some party.name
          address1 := party.addressLine1
          address2 := party.addressLine2
          zipcode := party.postalCode
          city := party.city
          country := party.countryCode
          taxNumber := if business then party.vatNumber else none
          email := if settings.delivery = .email then party.invoiceEmail else none }
        lines := lines.map fun line =>
          { line with
            description := words.elim line.description fun words => s!"{line.description}. {words}" } }

/-! ### The rate -/

structure MoneybirdTaxRate where
  id : String
  name : String
  percentage : Option String
  taxRateType : Option String
  active : Bool
  deriving DecidableEq

def resolveTaxRateId (treatment : VatTreatment) (config : TaxRateIdConfig)
    (rates : List MoneybirdTaxRate) : Except String MoneybirdTaxRate :=
  if treatment = .destinationOss then
    .error "OSS rates are per destination country and OSS is not active (owner decision 2026-08-29: wait for the €10k threshold) — configure the per-country mapping when it is."
  else
    let wanted :=
      if treatment = .domesticStandard then config.domesticStandard
      else if treatment = .reverseCharge then config.reverseCharge
      else config.outsideEu.getD ""
    if wanted = "" then
      .error s!"No tax rate is configured for the {treatment.word} treatment — set the matching MONEYBIRD_TAX_RATE_ID_* to one of the administration's own sales rates."
    else
      match rates.find? (·.id = wanted) with
      | none =>
        .error s!"Tax rate {wanted} (configured for {treatment.word}) does not exist in the Moneybird administration — the mapping points at a rate that was deleted or belongs elsewhere."
      | some rate =>
        if rate.active = false then
          .error s!"Tax rate {wanted} (\"{rate.name}\", configured for {treatment.word}) is INACTIVE in Moneybird — somebody archived it; pick its replacement in the administration."
        else
          match rate.taxRateType with
          | none => .ok rate
          | some type =>
            if type = "sales_invoice" then .ok rate
            else
              .error s!"Tax rate {wanted} (\"{rate.name}\", configured for {treatment.word}) is a {type} rate, not a sales rate — it cannot go on a sales invoice."

/-! ### The price of a line -/

def maxSafeInteger : Int := 9007199254740991

def digitsValue (digits : List Char) : Nat :=
  digits.foldl (fun n c => 10 * n + (c.toNat - '0'.toNat)) 0

/-- The digits before and after the point of `[0-9]+(\.[0-9]+)?`. -/
def decimalParts (text : List Char) : Option (List Char × List Char) :=
  let whole := text.takeWhile Char.isDigit
  if whole = [] then none
  else
    match text.dropWhile Char.isDigit with
    | [] => some (whole, [])
    | c :: fraction =>
      if c = '.' ∧ fraction ≠ [] ∧ fraction.all Char.isDigit then some (whole, fraction) else none

/-- A percentage in basis points; none where it is finer than a hundredth of a
percent. -/
def basisPointsFromPercentage (value : Option String) : Option Nat := do
  let text ← value
  let (whole, fraction) ← decimalParts (Keys.trim text.toList)
  if (fraction.drop 2).any (· ≠ '0') then none
  else return digitsValue whole * 100 + digitsValue ((fraction.take 2).rightpad 2 '0')

/-- A price that includes VAT, without it, rounded half up. -/
def priceWithoutVatCents (publishedCents : Int) (basisPoints : Nat) : Int :=
  let numerator := publishedCents * 10000
  let denominator : Int := 10000 + basisPoints
  (2 * numerator + denominator) / (2 * denominator)

/-- The line's price, and whether it includes VAT. -/
def linePriceFor (treatment : VatTreatment) (publishedCents : Int)
    (domesticPercentage : Option String) : Except String (Int × Bool) :=
  if ¬ (0 ≤ publishedCents ∧ publishedCents ≤ maxSafeInteger) then
    .error s!"A published price of {publishedCents} cents is not one an invoice can carry."
  else if treatment = .domesticStandard ∨ treatment = .destinationOss then .ok (publishedCents, true)
  else
    match basisPointsFromPercentage domesticPercentage with
    | none =>
      .error s!"The {treatment.word} price is the published price without the Dutch VAT in it, and the administration's domestic rate (MONEYBIRD_TAX_RATE_ID_DOMESTIC) gives no percentage to take out."
    | some basisPoints => .ok (priceWithoutVatCents publishedCents basisPoints, false)

/-- A line as it goes on the invoice. -/
structure PricedLine where
  description : String
  cents : Int
  deriving DecidableEq

/-- What an attempt puts on the invoice: its treatment, the rate with its
percentage, and its lines in the setting they were priced in. -/
structure Priced where
  treatment : VatTreatment
  taxRateId : String
  taxPercentage : Option String
  pricesAreInclTax : Bool
  lines : List PricedLine
  deriving DecidableEq

def Priced.expectedCents (priced : Priced) : Int :=
  priced.lines.foldl (fun sum line => sum + line.cents) 0

/-- The rate and the prices of an invoice, from the administration's rates as
they stand. -/
def priceInvoice (settings : Settings) (invoice : InvoiceToPush) (rates : List MoneybirdTaxRate) :
    Except String Priced := do
  let rate ← resolveTaxRateId invoice.treatment settings.taxRates rates
  let domesticPercentage :=
    ((resolveTaxRateId .domesticStandard settings.taxRates rates).toOption).bind (·.percentage)
  let (priced, pricesAreInclTax) ← invoice.lines.foldlM
    (fun (priced, _) line => do
      let (cents, pricesAreInclTax) ← linePriceFor invoice.treatment line.publishedCents domesticPercentage
      return (priced ++ [⟨line.description, cents⟩], pricesAreInclTax))
    (([] : List PricedLine), true)
  return ⟨invoice.treatment, rate.id, rate.percentage, pricesAreInclTax, priced⟩

end Ownpace.Push
