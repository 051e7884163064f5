/-
Ownpace/Billing/Record.lean

What is on record of one organisation's billing, and what is done to it: its
yeses and picks, its withdrawals, its invoices and draws, the peak of each
month, and the runs that open a month, buy a year, withdraw, or move an
invoice along.

Each of these is one transaction under the organisation's lock: it reads the
record, and writes it whole or leaves it as it was.  What counts since the
latest withdrawal is read by the moment of the row.
-/
import Mathlib.Logic.Function.Basic
import Ownpace.Billing.Month

namespace Ownpace.Billing

/-! ### The rows -/

/-- `data_allowance` -/
structure Grant extends AllowanceGrant where
  priceEur : Nat
  consentedAt : Instant

/-- `tier_pick` -/
structure Pick extends TierPickRow where
  priceEur : Nat

inductive BilledBy where
  | picked
  | agreed
  | data
  | paths
  deriving DecidableEq

/-- What a month's line quotes, kept on its invoice. -/
structure MonthEvidence where
  /-- `none` on the rows from before a year could be bought. -/
  rate : Option Rate
  drawnCents : Nat
  billedBy : BilledBy
  peakPaths : Nat
  peakAt : Option Instant
  bytesCounted : Nat
  agreedTier : ManagedTier
  priceCents : Nat
  priceFrom : PriceFrom
  beforeCents : Nat
  cents : Nat
  madeAt : Instant
  deriving DecidableEq

structure YearEvidence where
  tier : ManagedTier
  cents : Nat
  priceFrom : PriceFrom
  placement : YearPlacement
  madeAt : Instant
  deriving DecidableEq

/-- Ours, and unique: `ownpace-{org}-m-{YYYY-MM}-{tier}`, `ownpace-{org}-y-{n}`. -/
inductive Reference where
  | month (month : Nat) (tier : ManagedTier)
  | year (n : Nat)
  deriving DecidableEq

inductive Document where
  | month (month : Nat) (tier : ManagedTier) (evidence : MonthEvidence)
  | year (n : Nat) (evidence : YearEvidence)
  deriving DecidableEq

def Document.reference : Document → Reference
  | month m t _ => .month m t
  | year n _ => .year n

structure Invoice where
  status : InvoiceStatus
  createdAt : Instant
  document : Document
  deriving DecidableEq

def Invoice.reference (i : Invoice) : Reference := i.document.reference

structure DrawEvidence where
  billedBy : BilledBy
  priceCents : Nat
  priceFrom : PriceFrom
  beforeCents : Nat
  stepCents : Nat
  creditBeforeCents : Nat
  deriving DecidableEq

/-- `credit_draw` -/
structure CreditDraw extends CreditDrawn where
  drawnAt : Instant
  evidence : DrawEvidence
  deriving DecidableEq

structure OccupancyPeak where
  peakPaths : Nat
  peakAt : Instant

structure Record where
  grants : List Grant := []
  picks : List Pick := []
  withdrawals : List Instant := []
  invoices : List Invoice := []
  draws : List CreditDraw := []
  peaks : Nat → Option OccupancyPeak := fun _ => none
  /-- The paths that hold a slot now. -/
  slotsHeld : Nat := 0
  /-- The first copies' bytes that count. -/
  counted : Nat := 0

namespace Record

/-! ### What is read -/

/-- Made after the latest withdrawal, or at any time when there is none. -/
def sinceTheLatestWithdrawal (r : Record) (madeAt : Instant) : Bool :=
  r.withdrawals.all (· < madeAt)

def allowanceGrants (r : Record) : List AllowanceGrant :=
  (r.grants.filter fun g => r.sinceTheLatestWithdrawal g.consentedAt).map (·.toAllowanceGrant)

def tierPicks (r : Record) : List TierPickRow :=
  (r.picks.filter fun p => r.sinceTheLatestWithdrawal p.pickedAt).map (·.toTierPickRow)

structure BilledNow where
  billed : BilledTier
  allowance : Allowance
  floor : PickedFloor
  measured : TenantTier
  peak : Option OccupancyPeak

def readBilledNow (r : Record) (now : Instant) : BilledNow :=
  let peak := r.peaks now.month
  let measured := observedTier ((peak.map (·.peakPaths)).getD 0) r.slotsHeld r.counted
  let allowance := allowanceOf r.allowanceGrants
  let floor := pickedFloorOf r.tierPicks now
  ⟨billedTierOf measured.tier allowance measured.evidence.peakPaths r.counted floor.now,
    allowance, floor, measured, peak⟩

/-- Why the month bills its tier. -/
def billedBy (state : BilledNow) : BilledBy :=
  if state.billed.picked then .picked
  else if state.billed.beyond ≠ [] ∨ state.measured.tier ≠ some state.billed.tier then .agreed
  else if state.measured.decidedBy = .data then .data else .paths

/-- Every yes to a tier and every pick made by `now`, at the price it showed. -/
def readAgreedPrices (r : Record) (now : Instant) : List AgreedPrice :=
  ((r.grants.filter fun g => g.kind = .tier ∧ g.consentedAt ≤ now).map
      fun g => ⟨g.tierId, g.priceEur, g.consentedAt⟩) ++
    (r.picks.filter fun p => p.pickedAt ≤ now).map fun p => ⟨p.tierId, p.priceEur, p.pickedAt⟩

/-- A month's invoice as a step of it. -/
def invoicedStep (month : Nat) (i : Invoice) : Option MonthStep :=
  match i.document with
  | .month m tier e =>
    if m = month then some ⟨tier, e.cents, .invoice i.status, e.rate.getD .full, e.madeAt⟩
    else none
  | .year _ _ => none

/-- A draw of the month as a step of it. -/
def drawnStep (month : Nat) (d : CreditDraw) : Option MonthStep :=
  if d.month = month then some ⟨d.tierId, d.cents, .drawn, d.rate, d.drawnAt⟩ else none

def readMonthSteps (r : Record) (month : Nat) : List MonthStep :=
  r.invoices.filterMap (invoicedStep month) ++ r.draws.filterMap (drawnStep month)

/-- An invoice as a year bought, if it is one that counts. -/
def yearOf (r : Record) (i : Invoice) : Option YearBought :=
  match i.document with
  | .year _ e =>
    if i.status ≠ .void ∧ r.sinceTheLatestWithdrawal i.createdAt then
      some ⟨e.tier, e.cents, e.placement.creditFrom, e.placement.halfFrom, e.placement.halfTo⟩
    else none
  | .month _ _ _ => none

/-- The years since the latest withdrawal. -/
def readYears (r : Record) : List YearBought := r.invoices.filterMap r.yearOf

/-- Every draw since the latest withdrawal. -/
def readDraws (r : Record) : List CreditDrawn :=
  (r.draws.filter fun d => r.sinceTheLatestWithdrawal d.drawnAt).map (·.toCreditDrawn)

def Document.isYear : Document → Bool
  | .year _ _ => true
  | .month _ _ _ => false

def yearsEverBought (r : Record) : Nat := r.invoices.countP fun i => Document.isYear i.document

/-- An invoice of the month's steps that is not void. -/
def billsMonth (month : Nat) (i : Invoice) : Bool :=
  match i.document with
  | .month m _ _ => m = month && decide (i.status ≠ .void)
  | .year _ _ => false

/-- Whether anything was billed for the month yet. -/
def monthBilled (r : Record) (month : Nat) : Bool :=
  r.invoices.any (billsMonth month) || r.draws.any fun d => d.month = month

def readYearPlacement (r : Record) (now : Instant) : YearPlacement :=
  placeYear now (r.monthBilled now.month) r.readYears

/-! ### What is written -/

/-- Raise the month's high-water mark to the slots held now. -/
def recordCurrentOccupancy (r : Record) (now : Instant) : Record :=
  if r.slotsHeld = 0 then r
  else if ((r.peaks now.month).map (·.peakPaths)).getD 0 < r.slotsHeld then
    { r with peaks := Function.update r.peaks now.month (some ⟨r.slotsHeld, now⟩) }
  else r

/-- `credit_draw_step_key`: one draw for each step. -/
def insertDraw (r : Record) (d : CreditDraw) : Except String Record :=
  if r.draws.any fun d' => d'.month = d.month ∧ d'.tierId = d.tierId then
    .error "duplicate key value violates unique constraint \"credit_draw_step_key\""
  else .ok { r with draws := r.draws ++ [d] }

/-- `uk_invoice_reference`: a row with the reference there already is given way to. -/
def insertInvoice (r : Record) (i : Invoice) : Option Record :=
  if r.invoices.any fun i' => i'.reference = i.reference then none
  else some { r with invoices := r.invoices ++ [i] }

/-- What a run reads of a month, and what it decides. -/
structure MonthReading where
  state : BilledNow
  price : Price
  credit : CreditForMonth
  rate : Rate
  decision : MonthDecision

/-- The tier the month bills, as the run read it. -/
def MonthReading.tier (x : MonthReading) : ManagedTier := x.state.billed.tier

def readTheMonth (r : Record) (now : Instant) : Except String MonthReading := do
  let state := r.readBilledNow now
  let steps := r.readMonthSteps now.month
  let price := priceOfTier state.billed.tier (r.readAgreedPrices now)
  let credit ← creditForMonth now.month r.readYears r.readDraws
  let rate := monthRate (firstStepRate steps) credit
  .ok ⟨state, price, credit, rate,
    decideMonthStep state.billed.tier (atRate price.cents rate) steps⟩

/-- The draw a step makes of the credit. -/
def drawOf (now : Instant) (x : MonthReading) (tier : ManagedTier) (cents beforeCents : Nat) :
    CreditDraw where
  month := now.month
  tierId := tier
  cents := (splitStep cents x.credit.leftCents).drawCents
  rate := x.rate
  drawnAt := now
  evidence := ⟨billedBy x.state, x.price.cents, x.price.source, beforeCents, cents,
    x.credit.leftCents⟩

/-- The draft a step makes for what the credit does not cover. -/
def invoiceOf (now : Instant) (x : MonthReading) (tier : ManagedTier)
    (cents beforeCents : Nat) : Invoice where
  status := .draft
  createdAt := now
  document := .month now.month tier
    { rate := some x.rate
      drawnCents := (splitStep cents x.credit.leftCents).drawCents
      billedBy := billedBy x.state
      peakPaths := x.state.measured.evidence.peakPaths
      peakAt := x.state.peak.map (·.peakAt)
      bytesCounted := x.state.measured.evidence.bytesMoved
      agreedTier := x.state.allowance.tier
      priceCents := x.price.cents
      priceFrom := x.price.source
      beforeCents := beforeCents
      cents := (splitStep cents x.credit.leftCents).invoiceCents
      madeAt := now }

inductive MonthOutcome where
  | free
  | inStep
  | nothingToAdd
  | made (reference : Reference) (tier : ManagedTier) (cents : Nat) (drawnCents : Option Nat)
  | drawn (tier : ManagedTier) (drawnCents : Nat)
  | madeElsewhere (reference : Reference)
  deriving DecidableEq

def makeTheStep (r : Record) (now : Instant) (x : MonthReading) (tier : ManagedTier)
    (cents beforeCents : Nat) : Except String (MonthOutcome × Record) := do
  let split := splitStep cents x.credit.leftCents
  let r ← if 0 < split.drawCents then r.insertDraw (drawOf now x tier cents beforeCents)
    else .ok r
  if 0 < split.drawCents ∧ split.invoiceCents = 0 then
    .ok (.drawn tier split.drawCents, r)
  else
    let reference := Reference.month now.month tier
    match r.insertInvoice (invoiceOf now x tier cents beforeCents) with
    | none => .ok (.madeElsewhere reference, r)
    | some r => .ok (.made reference tier split.invoiceCents
        (if 0 < split.drawCents then some split.drawCents else none), r)

/-- Keep the month invoiced in advance: true up, read what it bills, and make
the one step it lacks, if any. -/
def openTheMonth (r : Record) (now : Instant) : Except String (MonthOutcome × Record) := do
  let r := r.recordCurrentOccupancy now
  let x ← r.readTheMonth now
  match x.decision with
  | .free => .ok (.free, r)
  | .inStep => .ok (.inStep, r)
  | .nothingToAdd => .ok (.nothingToAdd, r)
  | .step tier cents beforeCents _ => r.makeTheStep now x tier cents beforeCents

/-- A year bought: what it is for, and the price agreed. -/
structure YearOrder where
  tier : ManagedTier
  cents : Nat
  priceFrom : PriceFrom

def recordYear (r : Record) (order : YearOrder) (now : Instant) : Except String Record :=
  if order.tier = .free then .error "Free is never bought: free means no invoice"
  else if order.cents = 0 then .error s!"{order.cents} cents is not a year's price"
  else
    let n := r.yearsEverBought + 1
    match r.insertInvoice ⟨.draft, now, .year n
        ⟨order.tier, order.cents, order.priceFrom, r.readYearPlacement now, now⟩⟩ with
    | none => .error "duplicate key value violates unique constraint \"uk_invoice_reference\""
    | some r => .ok r

/-- The yeses since the latest withdrawal, by when they were given. -/
def commitments (r : Record) : List Instant :=
  (r.grants.filter fun g => r.sinceTheLatestWithdrawal g.consentedAt).map (·.consentedAt)

inductive WithdrawOutcome where
  | withdrawn (since : Instant)
  | closed
  deriving DecidableEq

/-- A withdrawal.  `inTime` is what the fourteen days and the buyer's kind say. -/
def withdraw (r : Record) (inTime : Bool) (now : Instant) :
    Except String (WithdrawOutcome × Record) :=
  match r.commitments.min? with
  | none => .ok (.closed, r)
  | some since =>
    if !inTime then .ok (.closed, r)
    else if now < since then
      .error "violates check constraint \"contract_withdrawal_since_check\""
    else .ok (.withdrawn since, { r with withdrawals := r.withdrawals ++ [now] })

/-- `invoice_refuse_illegal_update`: the moves of an invoice's status. -/
def mayMove : InvoiceStatus → InvoiceStatus → Bool
  | .draft, .sent => true
  | .draft, .void => true
  | .sent, .paid => true
  | .sent, .overdue => true
  | .sent, .void => true
  | .overdue, .paid => true
  | .overdue, .void => true
  | old, new => old = new

def Invoice.moveTo (reference : Reference) (status : InvoiceStatus) (i : Invoice) : Invoice :=
  if i.reference = reference then { i with status } else i

/-- Move the invoice of a reference to a status; an illegal move is refused. -/
def moveInvoice (r : Record) (reference : Reference) (status : InvoiceStatus) :
    Except String Record :=
  if r.invoices.all fun i => i.reference ≠ reference || mayMove i.status status then
    .ok { r with invoices := r.invoices.map (Invoice.moveTo reference status) }
  else .error "illegal status transition"

end Record

/-! ### Histories -/

/-- What happens to the record, in the order the organisation's lock lets it. -/
inductive Event where
  | yes (grant : Grant)
  | pick (pick : Pick)
  /-- The paths that hold a slot are now so many: an activation records the peak. -/
  | paths (slots : Nat) (now : Instant)
  | moved (bytes : Nat)
  | recordYear (order : Record.YearOrder) (now : Instant)
  | openTheMonth (now : Instant)
  | withdraw (inTime : Bool) (now : Instant)
  | moveInvoice (reference : Reference) (status : InvoiceStatus)

namespace Record

/-- What a refused transaction leaves is the record as it was. -/
def orElse (r : Record) : Except String Record → Record
  | .ok r' => r'
  | .error _ => r

def step (r : Record) : Event → Record
  | .yes grant => { r with grants := r.grants ++ [grant] }
  | .pick pick => { r with picks := r.picks ++ [pick] }
  | .paths slots now =>
    if r.slotsHeld < slots then { r with slotsHeld := slots }.recordCurrentOccupancy now
    else { r with slotsHeld := slots }
  | .moved bytes => { r with counted := r.counted + bytes }
  | .recordYear order now => r.orElse (r.recordYear order now)
  | .openTheMonth now => r.orElse ((r.openTheMonth now).map (·.2))
  | .withdraw inTime now => r.orElse ((r.withdraw inTime now).map (·.2))
  | .moveInvoice reference status => r.orElse (r.moveInvoice reference status)

def run (r : Record) (events : List Event) : Record := events.foldl step r

end Record

end Ownpace.Billing
