/-
Ownpace/Billing/Tiers.lean

The published tiers, and the one a month bills.

A month bills what it used, never above the tier agreed and never below a tier
picked.  What it used is the smallest tier that fits the month's peak of paths
and the data counted; the agreed tier is the highest said yes to; the pick is
the one standing when the month began, or a higher one made since.

Months are UTC.  A moment is the month it falls in, counted from year nought,
and the milliseconds since that month began.
-/
import Mathlib.Algebra.GroupWithZero.Nat
import Mathlib.Data.List.Sort
import Mathlib.Data.Prod.Lex
import Mathlib.Order.Lattice

namespace Ownpace.Billing

/-! ### Moments -/

structure Instant where
  month : Nat
  ms : Nat
  deriving DecidableEq

instance : LinearOrder Instant :=
  LinearOrder.lift' (fun t => toLex (t.month, t.ms)) (by
    rintro ⟨m, s⟩ ⟨m', s'⟩ h
    simpa using h)

theorem Instant.le_iff {a b : Instant} :
    a ≤ b ↔ a.month < b.month ∨ a.month = b.month ∧ a.ms ≤ b.ms :=
  Prod.Lex.toLex_le_toLex

/-- The first moment of the month `t` falls in. -/
def monthStartOf (t : Instant) : Instant := ⟨t.month, 0⟩

def nextMonthStartOf (t : Instant) : Instant := ⟨t.month + 1, 0⟩

/-! ### The published table -/

inductive ManagedTier where
  | free
  | small
  | medium
  | large
  | xl
  deriving DecidableEq

def MANAGED_TIERS : List ManagedTier := [.free, .small, .medium, .large, .xl]

namespace ManagedTier

/-- Migrations at the same time this tier fits. -/
def paths : ManagedTier → Nat
  | free => 6
  | small => 6
  | medium => 12
  | large => 24
  | xl => 50

/-- Data ceiling, in decimal GB. -/
def dataGb : ManagedTier → Nat
  | free => 150
  | small => 500
  | medium => 1500
  | large => 6000
  | xl => 15000

def monthlyCents : ManagedTier → Nat
  | free => 0
  | small => 500
  | medium => 1200
  | large => 4000
  | xl => 8000

/-- A year paid ahead: six months' price. -/
def annualCents : ManagedTier → Nat
  | free => 0
  | small => 3000
  | medium => 7200
  | large => 24000
  | xl => 48000

end ManagedTier

/-- A tier's place in the published table; Free is 0. -/
def placeOf (t : ManagedTier) : Nat := MANAGED_TIERS.idxOf t

/-- The tier at a place of the table. -/
def tierAt (place : Nat) : ManagedTier := MANAGED_TIERS[place]?.getD .free

theorem placeOf_eq_zero {t : ManagedTier} : placeOf t = 0 ↔ t = .free := by
  cases t <;> decide

/-! ### What was used -/

def BYTES_PER_GB : Nat := 1000000000

inductive DecidedBy where
  | paths
  | data
  | both
  deriving DecidableEq

structure TierDerivation where
  /-- `none` past the end of the table. -/
  tier : Option ManagedTier
  decidedBy : DecidedBy

/-- The smallest tier that fits both axes. -/
def deriveTier (paths bytes : Nat) : TierDerivation :=
  let byPaths := MANAGED_TIERS.findIdx? (fun t => paths ≤ t.paths)
  let byData := MANAGED_TIERS.findIdx? (fun t => bytes ≤ t.dataGb * BYTES_PER_GB)
  match byPaths, byData with
  | none, none => ⟨none, .both⟩
  | none, some _ => ⟨none, .paths⟩
  | some _, none => ⟨none, .data⟩
  | some p, some d =>
    ⟨some (tierAt (max p d)), if p = d then .both else if d < p then .paths else .data⟩

structure TierEvidence where
  peakPaths : Nat
  bytesMoved : Nat

structure TenantTier extends TierDerivation where
  evidence : TierEvidence

/-- From the higher of the recorded peak and the paths held now. -/
def observedTier (peakRecorded pathsNow bytesMoved : Nat) : TenantTier :=
  let peakPaths := max peakRecorded pathsNow
  { deriveTier peakPaths bytesMoved with evidence := ⟨peakPaths, bytesMoved⟩ }

/-! ### What was agreed -/

inductive GrantKind where
  | tier
  | topUp
  deriving DecidableEq

/-- One yes, as the ceiling reads it. -/
structure AllowanceGrant where
  kind : GrantKind
  tierId : ManagedTier
  /-- The band this yes adds, in decimal GB. -/
  bandGb : Nat

structure Allowance where
  /-- The highest tier moved up to; Free until then. -/
  tier : ManagedTier
  ceilingGb : Nat
  topUps : Nat

def allowanceOf (grants : List AllowanceGrant) : Allowance :=
  let tierIndex := grants.foldl
    (fun most g => if g.kind = .tier then max most (placeOf g.tierId) else most) 0
  let bands := grants.filter (fun g => g.kind = .topUp)
  let tier := tierAt tierIndex
  ⟨tier, tier.dataGb + (bands.map (·.bandGb)).sum, bands.length⟩

/-! ### What was picked -/

/-- One pick, as the floor reads it. -/
structure TierPickRow where
  tierId : ManagedTier
  pickedAt : Instant

/-- The least the picks let a month bill; `none` is no floor. -/
structure PickedFloor where
  now : Option ManagedTier
  next : Option ManagedTier
  nextFrom : Instant

/-- The floor at a place: Free's is none. -/
def floorAt (place : Nat) : Option ManagedTier := if 0 < place then some (tierAt place) else none

/-- The places the loop over the picks keeps. -/
structure FloorPlaces where
  standing : Nat := 0
  since : Nat := 0
  latest : Nat := 0

def FloorPlaces.after (monthStart : Instant) (p : FloorPlaces) (pick : TierPickRow) :
    FloorPlaces :=
  let place := placeOf pick.tierId
  if pick.pickedAt < monthStart then { p with standing := place, latest := place }
  else { p with since := max p.since place, latest := place }

def pickedFloorOf (picks : List TierPickRow) (t : Instant) : PickedFloor :=
  let made := (picks.filter (fun p => p.pickedAt ≤ t)).insertionSort
    (fun a b => a.pickedAt ≤ b.pickedAt)
  let p := made.foldl (FloorPlaces.after (monthStartOf t)) {}
  ⟨floorAt (max p.standing p.since), floorAt p.latest, nextMonthStartOf t⟩

/-! ### What the month bills -/

/-- Why the measurement is past the tier billed. -/
inductive BeyondTheTier where
  | bands
  | paths
  | data
  deriving DecidableEq

structure BilledTier where
  tier : ManagedTier
  beyond : List BeyondTheTier
  /-- What was used is below the tier picked. -/
  picked : Bool

def billedTierOf (measured : Option ManagedTier) (allowance : Allowance)
    (peakPaths bytesCounted : Nat) (picked : Option ManagedTier) : BilledTier :=
  let agreed := allowance.tier
  -- The pick, never above the agreed tier.
  let floor := picked.map fun p => if placeOf agreed < placeOf p then agreed else p
  match measured with
  | some m =>
    if placeOf m ≤ placeOf agreed then
      match floor with
      | some f => if placeOf m < placeOf f then ⟨f, [], true⟩ else ⟨m, [], false⟩
      | none => ⟨m, [], false⟩
    else past agreed
  | none => past agreed
where
  past (agreed : ManagedTier) : BilledTier :=
    ⟨agreed,
      (if agreed.dataGb * BYTES_PER_GB < bytesCounted ∧
          bytesCounted ≤ allowance.ceilingGb * BYTES_PER_GB then [.bands] else []) ++
        (if agreed.paths < peakPaths then [.paths] else []) ++
        (if allowance.ceilingGb * BYTES_PER_GB < bytesCounted then [.data] else []),
      false⟩

end Ownpace.Billing
