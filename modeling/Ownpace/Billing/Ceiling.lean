/-
Ownpace/Billing/Ceiling.lean

The yeses and the picks: what is offered at the data ceiling (`data-ceiling.ts`), at a
start past the agreed tier's paths (`path-ceiling.ts`) and as a pick (`tier-pick.ts`), and
the rows that an accepted one becomes.

What the page sends back is taken only as it is offered: the tier, at its monthly price.
-/
import Mathlib.Algebra.Order.Field.Rat
import Ownpace.Billing.Tiers

namespace Ownpace.Billing

def ManagedTier.id : ManagedTier → String
  | free => "free"
  | small => "small"
  | medium => "medium"
  | large => "large"
  | xl => "xl"

/-- Whole euros: every monthly price on the list is. -/
def monthlyEur (t : ManagedTier) : Nat := t.monthlyCents / 100

/-! ### The data ceiling -/

structure MoveUpOffer where
  tier : ManagedTier
  monthlyEur : Nat
  /-- After the yes, the bands already bought included. -/
  ceilingGb : Nat

structure TopUpOffer where
  tierId : ManagedTier
  bandGb : Nat
  priceEur : Nat
  ceilingGb : Nat

inductive CeilingState where
  | under
  | near
  | reached
  deriving DecidableEq

structure Ceiling where
  allowance : Allowance
  bytesMoved : Nat
  share : ℚ
  state : CeilingState
  moveUp : Option MoveUpOffer
  topUp : Option TopUpOffer

/-- What one top-up band costs, once; Free has none. -/
def topUpPriceEur (t : ManagedTier) : Option Nat := if t = .free then none else some (monthlyEur t)

/-- The bands bought beside the tier's own. -/
def Allowance.topUpGb (allowance : Allowance) : Nat := allowance.ceilingGb - allowance.tier.dataGb

/-- The smallest tier above this one whose ceiling is past what has moved. -/
def nextTier (allowance : Allowance) (bytesMoved : Nat) : Option ManagedTier :=
  (MANAGED_TIERS.drop (placeOf allowance.tier + 1)).find? fun t =>
    bytesMoved < (t.dataGb + allowance.topUpGb) * BYTES_PER_GB

def ceilingOf (allowance : Allowance) (bytesMoved : Nat) : Ceiling :=
  let share : ℚ :=
    if 0 < allowance.ceilingGb then bytesMoved / (allowance.ceilingGb * BYTES_PER_GB : Nat) else 1
  { allowance, bytesMoved, share
    state := if allowance.ceilingGb * BYTES_PER_GB ≤ bytesMoved then .reached
      else if 4 / 5 ≤ share then .near else .under
    moveUp := (nextTier allowance bytesMoved).map fun next =>
      ⟨next, monthlyEur next, next.dataGb + allowance.topUpGb⟩
    topUp := (topUpPriceEur allowance.tier).map fun price =>
      ⟨allowance.tier, allowance.tier.dataGb, price,
        allowance.ceilingGb + allowance.tier.dataGb⟩ }

inductive YesChoice where
  | moveUp
  | topUp
  deriving DecidableEq

/-- The offer the customer was shown, as the page sends it back. -/
structure Yes where
  choice : YesChoice
  tierId : String
  priceEur : Nat

inductive YesRefusal where
  | noTopUpOnFree
  | talkToUs
  | offerChanged
  | notAStepUp
  deriving DecidableEq

/-- The row a yes becomes, at the price shown. -/
structure OrderedGrant extends AllowanceGrant where
  priceEur : Nat

def decideYes (ceiling : Ceiling) (yes : Yes) : Except YesRefusal OrderedGrant :=
  match yes.choice with
  | .topUp =>
    match ceiling.topUp with
    | none => .error .noTopUpOnFree
    | some offer =>
      if yes.tierId ≠ offer.tierId.id ∨ yes.priceEur ≠ offer.priceEur then .error .offerChanged
      else .ok ⟨⟨.topUp, offer.tierId, offer.bandGb⟩, offer.priceEur⟩
  | .moveUp =>
    match ceiling.moveUp with
    | none => .error .talkToUs
    | some offer =>
      if yes.tierId ≠ offer.tier.id ∨ yes.priceEur ≠ offer.monthlyEur then .error .offerChanged
      else .ok ⟨⟨.tier, offer.tier, offer.tier.dataGb⟩, offer.monthlyEur⟩

/-! ### Paths -/

structure PathsPastTheTier where
  tier : ManagedTier
  after : Nat
  /-- The smallest tier that runs them all; past the table, none. -/
  needs : Option ManagedTier

/-- Why a start that leaves `after` slots held waits for a yes; `none` when it may go ahead. -/
def pathsPastTheTier (allowance : Allowance) (before after : Nat) : Option PathsPastTheTier :=
  if after ≤ before ∨ after ≤ allowance.tier.paths then none
  else some ⟨allowance.tier, after, MANAGED_TIERS.find? fun t => after ≤ t.paths⟩

section

variable {Id : Type}

end

structure PathsYes where
  tierId : String
  priceEur : Nat

def decidePathsYes (allowance : Allowance) (yes : PathsYes) : Except YesRefusal OrderedGrant :=
  match MANAGED_TIERS.find? fun t => t.id = yes.tierId with
  | none => .error .notAStepUp
  | some tier =>
    if tier = .free ∨ tier.paths ≤ allowance.tier.paths then .error .notAStepUp
    else if yes.priceEur ≠ monthlyEur tier then .error .offerChanged
    else .ok ⟨⟨.tier, tier, tier.dataGb⟩, monthlyEur tier⟩

/-! ### Picks -/

/-- The place of a floor; none is Free's. -/
def floorPlace (floor : Option ManagedTier) : Nat := floor.elim 0 placeOf

structure PickOffers where
  raise : List ManagedTier
  lower : List ManagedTier

def pickOffers (billed : ManagedTier) (floor : PickedFloor) : PickOffers :=
  let nowPlace := floorPlace floor.now
  let nextPlace := floorPlace floor.next
  -- While a lower pick waits, the tier picked now is offered as well, to keep it.
  let keep : Option Nat := if nextPlace < nowPlace then some nowPlace else none
  { raise := MANAGED_TIERS.filter fun t => placeOf billed < placeOf t ∨ some (placeOf t) = keep
    lower := MANAGED_TIERS.filter fun t => placeOf t < nextPlace }

/-- The tier and the monthly price, as the page sends them. -/
structure PickSent where
  tierId : String
  priceEur : Nat

inductive PickFrom where
  | now
  | nextMonth
  deriving DecidableEq

structure PickDecision where
  tierId : ManagedTier
  priceEur : Nat
  countsFrom : PickFrom
  /-- For a tier above the agreed one. -/
  yes : Option OrderedGrant

/-- `none` is a refusal: the tier or the price is not what is offered now. -/
def decidePick (offers : PickOffers) (allowance : Allowance) (pick : PickSent) :
    Option PickDecision :=
  let raise := offers.raise.find? fun t => t.id = pick.tierId
  let tier := raise.or (offers.lower.find? fun t => t.id = pick.tierId)
  tier.bind fun tier =>
    if pick.priceEur ≠ monthlyEur tier then none
    else some
      { tierId := tier
        priceEur := monthlyEur tier
        countsFrom := if raise.isSome then .now else .nextMonth
        yes := if raise.isSome ∧ placeOf allowance.tier < placeOf tier then
            some ⟨⟨.tier, tier, tier.dataGb⟩, monthlyEur tier⟩
          else none }

/-! ### The table -/

theorem placeOf_lt (t : ManagedTier) : placeOf t < 5 := by
  cases t <;> decide

theorem placeOf_tierAt {place : Nat} (h : place < 5) : placeOf (tierAt place) = place := by
  obtain rfl | rfl | rfl | rfl | rfl : place = 0 ∨ place = 1 ∨ place = 2 ∨ place = 3 ∨ place = 4 := by
    omega
  all_goals rfl

theorem floorPlace_floorAt {place : Nat} (h : place < 5) : floorPlace (floorAt place) = place := by
  unfold floorAt
  split_ifs with hpos
  · exact placeOf_tierAt h
  · have hzero : place = 0 := by omega
    rw [hzero]
    rfl

theorem tierIndex_lt (grants : List AllowanceGrant) {most : Nat} (h : most < 5) :
    grants.foldl (fun most g => if g.kind = .tier then max most (placeOf g.tierId) else most) most <
      5 := by
  induction grants generalizing most with
  | nil => exact h
  | cons g grants ih =>
      rw [List.foldl_cons]
      apply ih
      split_ifs
      · exact max_lt h (placeOf_lt _)
      · exact h

theorem placeOf_allowanceOf (grants : List AllowanceGrant) : placeOf (allowanceOf grants).tier =
    grants.foldl (fun most g => if g.kind = .tier then max most (placeOf g.tierId) else most) 0 :=
  placeOf_tierAt (tierIndex_lt grants (by decide))

theorem topUpGb_allowanceOf (grants : List AllowanceGrant) : (allowanceOf grants).topUpGb =
    ((grants.filter fun g => g.kind = .topUp).map (·.bandGb)).sum := by
  show (allowanceOf grants).tier.dataGb + _ - (allowanceOf grants).tier.dataGb = _
  omega

/-- A yes to a tier: the agreed tier is the higher one, and no band is added. -/
theorem allowanceOf_concat_tier (grants : List AllowanceGrant) {g : AllowanceGrant}
    (h : g.kind = .tier) :
    placeOf (allowanceOf (grants ++ [g])).tier =
        max (placeOf (allowanceOf grants).tier) (placeOf g.tierId) ∧
      (allowanceOf (grants ++ [g])).topUpGb = (allowanceOf grants).topUpGb := by
  constructor
  · rw [placeOf_allowanceOf, placeOf_allowanceOf, List.foldl_append]
    simp [h]
  · rw [topUpGb_allowanceOf, topUpGb_allowanceOf, List.filter_append]
    simp [h]

/-- Another yes never lowers the agreed tier or the bands. -/
theorem allowanceOf_append_ge (grants more : List AllowanceGrant) :
    placeOf (allowanceOf grants).tier ≤ placeOf (allowanceOf (grants ++ more)).tier ∧
      (allowanceOf grants).topUpGb ≤ (allowanceOf (grants ++ more)).topUpGb := by
  constructor
  · rw [placeOf_allowanceOf, placeOf_allowanceOf, List.foldl_append]
    generalize grants.foldl _ 0 = most
    induction more generalizing most with
    | nil => exact Nat.le_refl _
    | cons g more ih =>
        rw [List.foldl_cons]
        split_ifs
        · exact Nat.le_trans (Nat.le_max_left _ _) (ih _)
        · exact ih most
  · rw [topUpGb_allowanceOf, topUpGb_allowanceOf, List.filter_append, List.map_append,
      List.sum_append]
    exact Nat.le_add_right _ _

section

variable {Id : Type} {allowance : Allowance}

end

end Ownpace.Billing
