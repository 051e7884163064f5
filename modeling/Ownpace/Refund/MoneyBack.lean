import Mathlib.Algebra.Order.Ring.Int
import Ownpace.Billing.Month

/-!
Money back for a credit note: what the hourly push does with an issued credit
note, how the payment of its invoice arrives meanwhile, and the payment
provider's refunds.

One invoice, its credit notes, and any number of pushes at work on them.  A push
claims a credit note and takes what it decides on from one reading
(`claimNextMoneyBack`); it asks the provider, or the books; it writes the answer
down (`recordMoneyBack`).  Each of these is an event of its own, and a push can
be dropped between any two of them.
-/

namespace Ownpace.Refund

open Billing (InvoiceStatus)

/-! ### The decision -/

/-- The invoice a credit note corrects, as the push reads it. -/
structure Original where
  status : InvoiceStatus
  totalCents : Int
  /-- Mollie's `tr_…`, when a payment was asked for there. -/
  paymentId : Option String
  /-- What Mollie took. -/
  paidCents : Option Int
  deriving DecidableEq

/-- An issued credit note whose amount has not been made real yet. -/
structure MoneyBackDue where
  reference : String
  /-- What it takes off, positive. -/
  creditCents : Int
  original : Original
  /-- What every credit note on the invoice takes off it. -/
  creditedCents : Int
  /-- What its other credit notes have refunded already. -/
  refundedCents : Int
  deriving DecidableEq

inductive MoneyBackDecision where
  | refund (cents : Int) (paymentId : String)
  | settle
  | byHand (cents : Int)
  deriving DecidableEq

/-- How the credit note's amount is made real. -/
def decideMoneyBack (due : MoneyBackDue) : MoneyBackDecision :=
  if due.original.status ≠ .paid then .settle
  else
    match due.original.paymentId, due.original.paidCents with
    | some paymentId, some paidCents =>
        let owed := max (due.original.totalCents - due.creditedCents) 0
        let cents := min due.creditCents (paidCents - owed - due.refundedCents)
        if 0 < cents then .refund cents paymentId else .settle
    | _, _ => .byHand due.creditCents

/-! ### The rows -/

/-- How a credit note's amount was made real, as its row says it. -/
inductive MoneyBack where
  | refunded (refundId : Nat) (refundCents : Int)
  | settled
  | byHand
  deriving DecidableEq

structure CreditNote where
  reference : String
  status : InvoiceStatus
  /-- Negative: what it takes off. -/
  total : Int
  pushLeaseUntil : Option Nat
  moneyBack : Option MoneyBack
  deriving DecidableEq

structure Invoice where
  reference : String
  status : InvoiceStatus
  total : Int
  paymentId : Option String
  paidCents : Option Int
  deriving DecidableEq

def Invoice.original (i : Invoice) : Original where
  status := i.status
  totalCents := i.total
  paymentId := i.paymentId
  paidCents := i.paidCents

/-- The last place at which a text holds another. -/
def lastIndexOf (needle text : List Char) : Option Nat :=
  ((List.range (text.length + 1)).filter fun i => needle.isPrefixOf (text.drop i)).getLast?

/-- The invoice's reference made its credit note's: `-m-` made `-c-`, `-y-` made
`-c-y-`; `none` for a reference that has none. -/
def creditReference (reference : String) : Option String :=
  let text := reference.toList
  if "ownpace-".toList.isPrefixOf text then
    match lastIndexOf "-m-".toList text, lastIndexOf "-y-".toList text with
    | some month, _ => some (String.ofList (text.take month ++ "-c-".toList ++ text.drop (month + 3)))
    | none, some year =>
        some (String.ofList (text.take year ++ "-c-y-".toList ++ text.drop (year + 3)))
    | none, none => none
  else none

/-! ### The payment provider -/

/-- A payment that was asked for: the customer pays this amount, or nothing. -/
structure Payment where
  id : String
  amount : Int
  deriving DecidableEq

structure MollieRefund where
  id : Nat
  paymentId : String
  cents : Int
  /-- The credit note it was made for: its metadata, and its idempotency key. -/
  creditNote : String
  /-- Neither `failed` nor `canceled`. -/
  live : Bool
  madeAt : Nat
  deriving DecidableEq

/-- For how long the provider answers an idempotency key with what it made before, in ms. -/
def IDEMPOTENCY_MS : Nat := 3600000

/-- `maxDuration: 3600`: a push that runs longer is killed. -/
def MAX_DURATION_MS : Nat := 3600000

def PUSH_LEASE_MS : Nat := 15 * 60000

/-- The refunds made on a payment so far. -/
def listRefunds (refunds : List MollieRefund) (paymentId : String) : List MollieRefund :=
  refunds.filter fun r => r.paymentId = paymentId

/-- A refund the credit note made on this payment before, if any. -/
def creditNoteRefundOf (refunds : List MollieRefund) (reference : String) : Option MollieRefund :=
  refunds.find? fun r => r.creditNote = reference && r.live

/-- What the provider remembers under a key. -/
def remembered (refunds : List MollieRefund) (reference : String) (now : Nat) :
    Option MollieRefund :=
  refunds.find? fun r => r.creditNote = reference && decide (now < r.madeAt + IDEMPOTENCY_MS)

/-- A refund that was not asked for before. -/
def newRefund (refunds : List MollieRefund) (paymentId : String) (cents : Int) (reference : String)
    (now : Nat) : MollieRefund where
  id := refunds.length
  paymentId := paymentId
  cents := cents
  creditNote := reference
  live := true
  madeAt := now

/-- The provider's side of `createRefund`: what it answers, and its refunds then. -/
def refundMade (refunds : List MollieRefund) (paymentId : String) (cents : Int)
    (reference : String) (now : Nat) : MollieRefund × List MollieRefund :=
  match remembered refunds reference now with
  | some r => (r, refunds)
  | none =>
      (newRefund refunds paymentId cents reference now,
        refunds ++ [newRefund refunds paymentId cents reference now])

/-! ### Pushes at work -/

inductive MoneyBackOutcome where
  | refunded (refundId : Nat) (cents : Int)
  | settled
  | byHand (cents : Int)
  deriving DecidableEq

/-- Where a push is with the credit note it claimed. -/
inductive Phase where
  | claimed
  /-- It has read the payment's refunds, and is about to ask for one. -/
  | listed (cents : Int) (paymentId : String) (readAt : Nat)
  /-- It has its answer, and is about to write it down. -/
  | answered (outcome : MoneyBackOutcome)
  deriving DecidableEq

structure Push where
  due : MoneyBackDue
  phase : Phase
  deriving DecidableEq

structure State where
  invoice : Invoice
  notes : List CreditNote
  payments : List Payment
  refunds : List MollieRefund
  pushes : Nat → Option Push
  time : Nat

namespace State

/-- What the credit notes take off the invoice. -/
def creditedCents (s : State) : Int := -(s.notes.map (·.total)).sum

/-- What they have refunded, as their rows say it. -/
def refundedCents (s : State) : Int :=
  (s.notes.map fun n =>
    match n.moneyBack with
    | some (.refunded _ cents) => cents
    | _ => 0).sum

def setNote (s : State) (reference : String) (f : CreditNote → CreditNote) : State :=
  { s with notes := s.notes.map fun n => if n.reference = reference then f n else n }

def setPush (s : State) (push : Nat) (p : Option Push) : State :=
  { s with pushes := Function.update s.pushes push p }

end State

/-! ### The invoice and its payment -/

/-- Moneybird numbers the invoice, and says its total. -/
def issueInvoice (s : State) (total : Nat) : State :=
  if s.invoice.status = .draft then
    { s with invoice := { s.invoice with status := .sent, total := total } }
  else s

/-- The books say it is late. -/
def readBackLate (s : State) : State :=
  if s.invoice.status = .sent then { s with invoice := { s.invoice with status := .overdue } } else s

/-- The books say it is paid, by a payment that is none of the provider's. -/
def readBackPaid (s : State) : State :=
  if (s.invoice.status = .sent ∨ s.invoice.status = .overdue) ∧ s.creditedCents < s.invoice.total then
    { s with invoice := { s.invoice with status := .paid } }
  else s

def voidInvoice (s : State) : State :=
  if s.invoice.status = .sent then { s with invoice := { s.invoice with status := .void } } else s

/-- The pay route, up to the payment it asks the provider for: the total less
what is credited. -/
def createPayment (s : State) (id : String) : State :=
  let due := s.invoice.total - s.creditedCents
  if (s.invoice.status = .sent ∨ s.invoice.status = .overdue) ∧ 0 < due ∧
      s.payments.all (fun p => p.id ≠ id) then
    { s with payments := s.payments ++ [{ id, amount := due }] }
  else s

/-- The pay route's own write, whatever has happened since. -/
def recordPaymentId (s : State) (id : String) : State :=
  if s.payments.any (fun p => p.id = id) then
    { s with invoice := { s.invoice with paymentId := some id } }
  else s

/-- What the webhook takes down of a payment, `none` for an amount it cannot read. -/
def webhookPaid (s : State) (id : String) (readable : Bool) : State :=
  match s.payments.find? (fun p => p.id = id) with
  | none => s
  | some payment =>
      if s.invoice.paymentId = some payment.id ∧ s.invoice.status ≠ .paid ∧
          s.invoice.status ≠ .void then
        { s with invoice := { s.invoice with
            status := .paid
            paidCents := if readable then some payment.amount else none } }
      else s

/-! ### The credit notes -/

inductive RecordCreditOutcome where
  | recorded (reference : String)
  | alreadyThere (reference : String)
  | shareRefused (numerator denominator : Int)
  | shareOfNothing
  | invoiceVoid
  | noCreditReference

/-- `Math.round`, of a share of the total. -/
def shareOf (total numerator denominator : Int) : Int :=
  (2 * total * numerator + denominator) / (2 * denominator)

/-- Record a credit note for the invoice, as a draft.  The reference is unique. -/
def recordCreditNote (s : State) (numerator denominator : Int) : RecordCreditOutcome × State :=
  if denominator ≤ 0 ∨ numerator < 0 ∨ denominator < numerator then
    (.shareRefused numerator denominator, s)
  else if numerator = 0 then (.shareOfNothing, s)
  else if s.invoice.status = .void then (.invoiceVoid, s)
  else
    match creditReference s.invoice.reference with
    | none => (.noCreditReference, s)
    | some reference =>
        if s.notes.any (fun n => n.reference = reference) then (.alreadyThere reference, s)
        else
          (.recorded reference, { s with notes := s.notes ++
            [{ reference, status := .draft,
               total := -shareOf s.invoice.total numerator denominator,
               pushLeaseUntil := none, moneyBack := none }] })

/-- The books number the credit note: it takes off what they say, or else what was recorded. -/
def recordCreditIssued (s : State) (reference : String) (figure : Option Nat) : State :=
  if s.invoice.status = .sent ∨ s.invoice.status = .paid ∨ s.invoice.status = .overdue then
    s.setNote reference fun n =>
      if n.status = .draft then
        { n with
          status := .sent
          total := (figure.map fun cents => -(cents : Int)).getD n.total
          pushLeaseUntil := none }
      else n
  else s

/-! ### The push -/

/-- May this credit note be claimed? -/
def isDue (s : State) (now : Nat) (n : CreditNote) : Bool :=
  n.status = .sent && n.moneyBack = none &&
    (match n.pushLeaseUntil with
     | none => true
     | some until_ => decide (until_ < now)) &&
    (s.invoice.status = .sent || s.invoice.status = .overdue || s.invoice.status = .paid)

/-- What is read of a claimed credit note. -/
def dueOf (s : State) (n : CreditNote) : MoneyBackDue where
  reference := n.reference
  creditCents := -n.total
  original := s.invoice.original
  creditedCents := s.creditedCents
  refundedCents := s.refundedCents

def claimNextMoneyBack (s : State) (push now : Nat) : State :=
  if s.pushes push = none then
    match s.notes.find? (isDue s now) with
    | none => s
    | some n =>
        (s.setNote n.reference fun n => { n with pushLeaseUntil := some (now + PUSH_LEASE_MS) }).setPush
          push (some { due := dueOf s n, phase := .claimed })
  else s

/-- `makeMoneyBack`, up to the refunds that were made before. -/
def readRefunds (s : State) (push : Nat) : State :=
  match s.pushes push with
  | some { due, phase := .claimed } =>
      match decideMoneyBack due with
      | .refund cents paymentId =>
          match creditNoteRefundOf (listRefunds s.refunds paymentId) due.reference with
          | some r => s.setPush push (some { due, phase := .answered (.refunded r.id r.cents) })
          | none => s.setPush push (some { due, phase := .listed cents paymentId s.time })
      | .settle | .byHand _ => s
  | _ => s

/-- `createRefund`, which the provider carries out; the answer may be lost. -/
def askRefund (s : State) (push : Nat) (heard : Bool) : State :=
  match s.pushes push with
  | some { due, phase := .listed cents paymentId readAt } =>
      if s.time < readAt + MAX_DURATION_MS then
        let made := refundMade s.refunds paymentId cents due.reference s.time
        { s with refunds := made.2 }.setPush push
          (if heard then some { due, phase := .answered (.refunded made.1.id made.1.cents) } else none)
      else s.setPush push none
  | _ => s

/-- The rest of `makeMoneyBack`: settled in the books, or left by hand. -/
def settleOrSay (s : State) (push : Nat) : State :=
  match s.pushes push with
  | some { due, phase := .claimed } =>
      match decideMoneyBack due with
      | .settle => s.setPush push (some { due, phase := .answered .settled })
      | .byHand cents => s.setPush push (some { due, phase := .answered (.byHand cents) })
      | .refund _ _ => s
  | _ => s

def MoneyBackOutcome.written : MoneyBackOutcome → MoneyBack
  | .refunded id cents => .refunded id cents
  | .settled => .settled
  | .byHand _ => .byHand

/-- Write down how the credit note's amount was made real, once, and let go of the claim. -/
def recordMoneyBack (s : State) (push : Nat) : State :=
  match s.pushes push with
  | some { due, phase := .answered outcome } =>
      (s.setNote due.reference fun n =>
        if n.moneyBack = none then
          { n with moneyBack := some outcome.written, pushLeaseUntil := none }
        else n).setPush push none
  | _ => s

/-! ### What happens -/

inductive Event where
  | issueInvoice (total : Nat)
  | readBackLate
  | readBackPaid
  | voidInvoice
  | createPayment (id : String)
  | recordPaymentId (id : String)
  | webhookPaid (id : String) (readable : Bool)
  | recordCreditNote (numerator denominator : Int)
  | recordCreditIssued (reference : String) (figure : Option Nat)
  | claimNextMoneyBack (push now : Nat)
  | readRefunds (push : Nat)
  | askRefund (push : Nat) (heard : Bool)
  | settleOrSay (push : Nat)
  | recordMoneyBack (push : Nat)
  /-- The push crashes, is refused, finds nobody in, or has no key to ask with. -/
  | drop (push : Nat)
  /-- A refund ends `failed` or `canceled`. -/
  | refundFails (id : Nat)
  | tick (ms : Nat)

def step (s : State) : Event → State
  | .issueInvoice total => Refund.issueInvoice s total
  | .readBackLate => Refund.readBackLate s
  | .readBackPaid => Refund.readBackPaid s
  | .voidInvoice => Refund.voidInvoice s
  | .createPayment id => Refund.createPayment s id
  | .recordPaymentId id => Refund.recordPaymentId s id
  | .webhookPaid id readable => Refund.webhookPaid s id readable
  | .recordCreditNote numerator denominator => (Refund.recordCreditNote s numerator denominator).2
  | .recordCreditIssued reference figure => Refund.recordCreditIssued s reference figure
  | .claimNextMoneyBack push now => Refund.claimNextMoneyBack s push now
  | .readRefunds push => Refund.readRefunds s push
  | .askRefund push heard => Refund.askRefund s push heard
  | .settleOrSay push => Refund.settleOrSay s push
  | .recordMoneyBack push => Refund.recordMoneyBack s push
  | .drop push => s.setPush push none
  | .refundFails id =>
      { s with refunds := s.refunds.map fun r => if r.id = id then { r with live := false } else r }
  | .tick ms => { s with time := s.time + ms }

def run (s : State) (events : List Event) : State := events.foldl step s

end Ownpace.Refund
