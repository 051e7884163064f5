/-
Ownpace/Push/Attempt.lean

One draft of an organisation, Moneybird's invoices under its reference, and any
number of pushes of it (`managed-invoice-push.ts`, `invoice-push.ts`,
`moneybird-push.ts`, `moneybird-sales-invoices.ts`).

A push claims the draft, plans the invoice from the buyer's details, fetches the
rates, finds or makes the contact, looks the invoice up by its reference, makes
it where the lookup said 404, checks a draft and sends it, reads it back and
writes the row.  Each is one step, between any two of which everything else may
happen.  A request may take effect with its answer lost, and a push may end
anywhere.
-/
import Ownpace.Billing.Month
import Ownpace.Push.Plan

namespace Ownpace.Push

open Billing (InvoiceStatus)

/-! ### The row -/

/-- The money columns that `recordIssued` writes. -/
structure Totals where
  subtotal : Int
  total : Int
  taxAmount : Int
  taxRate : Rat
  deriving DecidableEq

structure IssuedLine where
  description : String
  publishedCents : Option Int
  cents : Int
  deriving DecidableEq

/-- What `recordIssued` writes; without totals the money columns stay. -/
structure Issued where
  vatTreatment : VatTreatment
  taxRateId : String
  lines : List IssuedLine
  moneybirdId : String
  invoiceNumber : String
  invoiceDate : String
  dueDate : Option String
  totals : Option Totals
  deriving DecidableEq

/-- The draft's row; `lines` are those of the month task. -/
structure Row where
  status : InvoiceStatus
  pushLeaseUntil : Option Int
  lines : List RawLine
  issued : Option Issued
  deriving DecidableEq

/-- How long a push holds a draft, in milliseconds. -/
def pushLease : Int := 15 * 60000

/-- Can the draft be claimed now? -/
def Row.claimable (row : Row) (now : Int) : Bool :=
  row.status = .draft && row.pushLeaseUntil.all (· < now)

/-! ### Moneybird -/

/-- An invoice in Moneybird under the draft's reference: what it was made from
and with what totals, and its number once it was sent. -/
structure Doc where
  id : String
  contactId : String
  made : Priced
  totalInclTaxCents : Int
  totalExclTaxCents : Int
  number : Option String
  deriving DecidableEq

/-- Its total in its own VAT setting. -/
def Doc.ownTotal (d : Doc) : Int :=
  if d.made.pricesAreInclTax then d.totalInclTaxCents else d.totalExclTaxCents

/-- An invoice as an answer of Moneybird gives it. -/
structure MoneybirdSalesInvoice where
  id : String
  invoiceNumber : Option String
  state : Option String
  contactId : Option String
  invoiceDate : Option String
  dueDate : Option String
  pricesAreInclTax : Option Bool
  totalInclTaxCents : Option Int
  totalExclTaxCents : Option Int
  deriving DecidableEq

/-- An answer about an invoice.  What it leaves out, or what cannot be read of
it, is none. -/
structure Doc.Shows (d : Doc) (seen : MoneybirdSalesInvoice) : Prop where
  id : seen.id = d.id
  contact : ∀ c ∈ seen.contactId, c = d.contactId
  draft : seen.state = some "draft" → d.number = none
  number : ∀ n ∈ seen.invoiceNumber, d.number = some n
  setting : ∀ b ∈ seen.pricesAreInclTax, b = d.made.pricesAreInclTax
  incl : ∀ c ∈ seen.totalInclTaxCents, c = d.totalInclTaxCents
  excl : ∀ c ∈ seen.totalExclTaxCents, c = d.totalExclTaxCents

/-! ### An attempt -/

/-- The draft's total in the setting it was made in, against what its lines add
up to. -/
def draftDisagrees (invoice : MoneybirdSalesInvoice) (pricesAreInclTax : Bool)
    (expectedCents : Int) : Bool :=
  invoice.pricesAreInclTax.any (· ≠ pricesAreInclTax) ||
    (if pricesAreInclTax then invoice.totalInclTaxCents else invoice.totalExclTaxCents) ≠
      some expectedCents

/-- What a push goes by once it has planned and priced its invoice. -/
structure Attempt where
  invoice : InvoiceToPush
  priced : Priced
  deriving DecidableEq

/-- The outcome `issued` of a push. -/
structure IssuedOutcome where
  invoice : MoneybirdSalesInvoice
  adopted : Bool
  deriving DecidableEq

inductive Phase where
  | claimed (lines : List DraftLine)
  | planned (invoice : InvoiceToPush)
  | priced (a : Attempt)
  | contacted (a : Attempt) (contactId : String)
  /-- The lookup answered 404. -/
  | missing (a : Attempt) (contactId : String)
  /-- A draft that was checked. -/
  | sending (a : Attempt) (invoice : MoneybirdSalesInvoice) (adopted : Bool)
  | reading (a : Attempt) (id : String) (adopted : Bool)
  | issued (a : Attempt) (outcome : IssuedOutcome)
  | over
  deriving DecidableEq

/-- Does the push still hold the draft? -/
def Phase.holds : Phase → Bool
  | .over => false
  | _ => true

/-- A draft is checked, then sent; anything else was sent before. -/
def afterEnsured (a : Attempt) (invoice : MoneybirdSalesInvoice) (adopted : Bool) : Phase :=
  if invoice.state = some "draft" then
    if draftDisagrees invoice a.priced.pricesAreInclTax a.priced.expectedCents then .over
    else .sending a invoice adopted
  else .reading a invoice.id adopted

/-- An invoice that the lookup found: refused where it is another contact's. -/
def afterLookup (a : Attempt) (contactId : String) (invoice : MoneybirdSalesInvoice) : Phase :=
  if invoice.contactId ≠ some contactId then .over else afterEnsured a invoice true

def afterRead (a : Attempt) (adopted : Bool) (invoice : MoneybirdSalesInvoice) : Phase :=
  if invoice.invoiceNumber = none ∨ invoice.state = some "draft" then .over
  else .issued a ⟨invoice, adopted⟩

/-- A rate's percentage as a fraction; none is 0.  `number` reads a text as a
number, and what it cannot read is an error. -/
def fractionOf (number : String → Option Rat) : Option String → Option Rat
  | none => some 0
  | some percentage => (number percentage).map (· / 100)

/-- The money columns, where Moneybird's figures could be read; none where it
threw. -/
def totalsOf (number : String → Option Rat) (issued : MoneybirdSalesInvoice)
    (taxPercentage : Option String) : Option (Option Totals) :=
  match issued.totalInclTaxCents, issued.totalExclTaxCents with
  | some incl, some excl =>
    (fractionOf number taxPercentage).map fun taxRate => some ⟨excl, incl, incl - excl, taxRate⟩
  | _, _ => some none

/-- The lines as invoiced, each with the published price of its place in the plan. -/
def issuedLines (a : Attempt) : List IssuedLine :=
  a.priced.lines.zipIdx.map fun line =>
    { description := line.1.description
      publishedCents := a.invoice.lines[line.2]?.map (·.publishedCents)
      cents := line.1.cents }

/-- Write back what Moneybird made of a draft; none where it threw. -/
def recordIssued (number : String → Option Rat) (row : Row) (a : Attempt)
    (outcome : IssuedOutcome) : Option Row := do
  let issued := outcome.invoice
  let invoiceNumber ← issued.invoiceNumber
  let invoiceDate ← issued.invoiceDate
  let totals ← totalsOf number issued a.priced.taxPercentage
  -- only a draft is written
  if row.status ≠ .draft then return row
  return { row with
    status := .sent
    pushLeaseUntil := none
    issued := some {
      vatTreatment := a.invoice.treatment
      taxRateId := a.priced.taxRateId
      lines := issuedLines a
      moneybirdId := issued.id
      invoiceNumber := invoiceNumber
      invoiceDate := invoiceDate
      dueDate := issued.dueDate
      totals := totals } }

/-! ### All together -/

/-- A draft that was sent, and what the lines of the attempt that sent it add up
to. -/
structure Send where
  doc : Doc
  expectedCents : Int
  deriving DecidableEq

/-- The draft's row, Moneybird's invoices under its reference, and the pushes in
the order of their claims.  `overlapped` says that two of them held the draft at
once, and `sends` are the drafts sent; the code keeps neither. -/
structure Plane where
  row : Row
  books : List Doc
  pushes : List Phase
  overlapped : Bool
  sends : List Send
  deriving DecidableEq

namespace Plane

def setPush (p : Plane) (i : Nat) (phase : Phase) : Plane := { p with pushes := p.pushes.set i phase }

/-- Moneybird sends an invoice, where it is a draft, and numbers it. -/
def send (p : Plane) (id number : String) (expectedCents : Int) : Plane :=
  match p.books.find? (·.id = id) with
  | none => p
  | some d =>
    if d.number.isSome then p
    else
      { p with
        books := p.books.map fun d => if d.id = id then { d with number := some number } else d
        sends := p.sends ++ [⟨d, expectedCents⟩] }

end Plane

/-- One step.  The label of a lookup that found an invoice says whose and what. -/
inductive Step (settings : Settings) (number : String → Option Rat) (tenantId reference : String) :
    Plane → Option (Attempt × String × MoneybirdSalesInvoice) → Plane → Prop
  | claim {p : Plane} {now : Int} {lines : List DraftLine} (hclaim : p.row.claimable now = true)
      (hlines : linesOf p.row.lines = some lines) :
      Step settings number tenantId reference p none
        { p with
          row := { p.row with pushLeaseUntil := some (now + pushLease) }
          pushes := p.pushes ++ [.claimed lines]
          overlapped := p.overlapped || p.pushes.any Phase.holds }
  /-- A draft whose lines cannot be read stays claimed, and the push ends. -/
  | unreadable {p : Plane} {now : Int} (hclaim : p.row.claimable now = true)
      (hlines : linesOf p.row.lines = none) :
      Step settings number tenantId reference p none
        { p with row := { p.row with pushLeaseUntil := some (now + pushLease) } }
  /-- A refusal, an error, a failed request, a crash. -/
  | ends {p : Plane} {i : Nat} : Step settings number tenantId reference p none (p.setPush i .over)
  | plan {p : Plane} {i : Nat} {lines : List DraftLine} {standing : BuyerStanding}
      {invoice : InvoiceToPush} (hphase : p.pushes[i]? = some (.claimed lines))
      (hplan : planPush settings tenantId reference lines standing = .ok invoice) :
      Step settings number tenantId reference p none (p.setPush i (.planned invoice))
  | rates {p : Plane} {i : Nat} {invoice : InvoiceToPush} {rates : List MoneybirdTaxRate}
      {priced : Priced} (hphase : p.pushes[i]? = some (.planned invoice))
      (hlines : invoice.lines ≠ []) (hpriced : priceInvoice settings invoice rates = .ok priced) :
      Step settings number tenantId reference p none (p.setPush i (.priced ⟨invoice, priced⟩))
  | contact {p : Plane} {i : Nat} {a : Attempt} {contactId : String}
      (hphase : p.pushes[i]? = some (.priced a)) :
      Step settings number tenantId reference p none (p.setPush i (.contacted a contactId))
  /-- The lookup sees every invoice made before it. -/
  | lookupMissing {p : Plane} {i : Nat} {a : Attempt} {contactId : String}
      (hphase : p.pushes[i]? = some (.contacted a contactId)) (hnone : p.books = []) :
      Step settings number tenantId reference p none (p.setPush i (.missing a contactId))
  | lookup {p : Plane} {i : Nat} {a : Attempt} {contactId : String} {d : Doc}
      {invoice : MoneybirdSalesInvoice} (hphase : p.pushes[i]? = some (.contacted a contactId))
      (hdoc : d ∈ p.books) (hshows : d.Shows invoice) :
      Step settings number tenantId reference p (some (a, contactId, invoice))
        (p.setPush i (afterLookup a contactId invoice))
  /-- The invoice is made, and the answer is lost. -/
  | createLost {p : Plane} {i : Nat} {a : Attempt} {contactId : String} {d : Doc}
      (hphase : p.pushes[i]? = some (.missing a contactId)) (hfresh : ∀ e ∈ p.books, e.id ≠ d.id)
      (hmade : d.made = a.priced) (hcontact : d.contactId = contactId) (hdraft : d.number = none) :
      Step settings number tenantId reference p none
        { p.setPush i .over with books := p.books ++ [d] }
  | create {p : Plane} {i : Nat} {a : Attempt} {contactId : String} {d : Doc}
      {invoice : MoneybirdSalesInvoice} (hphase : p.pushes[i]? = some (.missing a contactId))
      (hfresh : ∀ e ∈ p.books, e.id ≠ d.id) (hmade : d.made = a.priced)
      (hcontact : d.contactId = contactId) (hdraft : d.number = none) (hshows : d.Shows invoice) :
      Step settings number tenantId reference p none
        { p.setPush i (afterEnsured a invoice false) with books := p.books ++ [d] }
  | sendLost {p : Plane} {i : Nat} {a : Attempt} {invoice : MoneybirdSalesInvoice} {adopted : Bool}
      {n : String} (hphase : p.pushes[i]? = some (.sending a invoice adopted)) :
      Step settings number tenantId reference p none
        ((p.send invoice.id n a.priced.expectedCents).setPush i .over)
  | send {p : Plane} {i : Nat} {a : Attempt} {invoice : MoneybirdSalesInvoice} {adopted : Bool}
      {n : String} (hphase : p.pushes[i]? = some (.sending a invoice adopted)) :
      Step settings number tenantId reference p none
        ((p.send invoice.id n a.priced.expectedCents).setPush i (.reading a invoice.id adopted))
  | read {p : Plane} {i : Nat} {a : Attempt} {id : String} {adopted : Bool} {d : Doc}
      {invoice : MoneybirdSalesInvoice} (hphase : p.pushes[i]? = some (.reading a id adopted))
      (hdoc : d ∈ p.books) (hid : d.id = id) (hshows : d.Shows invoice) :
      Step settings number tenantId reference p none (p.setPush i (afterRead a adopted invoice))
  | record {p : Plane} {i : Nat} {a : Attempt} {outcome : IssuedOutcome} {row : Row}
      (hphase : p.pushes[i]? = some (.issued a outcome))
      (hrecord : recordIssued number p.row a outcome = some row) :
      Step settings number tenantId reference p none { p.setPush i .over with row := row }

/-- A draft as the month task made it, with nothing in Moneybird. -/
def Plane.start (lines : List RawLine) : Plane := ⟨⟨.draft, none, lines, none⟩, [], [], false, []⟩

end Ownpace.Push
