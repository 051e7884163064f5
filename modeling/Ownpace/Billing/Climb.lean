/-
Ownpace/Billing/Climb.lean

Nothing climbs past a yes: over every history of yeses and picks, each decided on the
state it reads and recorded with its yes, across any number of months.

A pick above the agreed tier carries a yes to it, so the floor the picks make stays below
what is agreed (`Account.Agreed`), and a month bills between the two.
-/
import Mathlib.Data.List.Induction
import Ownpace.Billing.Ceiling

namespace Ownpace.Billing

/-! ### Histories -/

/-- The rows on record: `data_allowance` and `tier_pick`. -/
structure Account where
  grants : List AllowanceGrant := []
  picks : List TierPickRow := []

/-- What was measured: the month's recorded peak, the paths held now, and the data counted. -/
structure Measured where
  peakRecorded : Nat
  pathsNow : Nat
  bytesCounted : Nat

namespace Account

def allowance (a : Account) : Allowance := allowanceOf a.grants

def floor (a : Account) (t : Instant) : PickedFloor := pickedFloorOf a.picks t

/-- What the month of `t` bills (`readBilledNow`). -/
def billed (a : Account) (t : Instant) (used : Measured) : BilledTier :=
  let measured := observedTier used.peakRecorded used.pathsNow used.bytesCounted
  billedTierOf measured.tier a.allowance measured.evidence.peakPaths used.bytesCounted
    (a.floor t).now

end Account

/-- One yes or pick at a moment, under the organisation's lock. -/
inductive Said (t : Instant) (a : Account) : Account → Prop
  | ceiling {bytesMoved : Nat} {yes : Yes} {grant : OrderedGrant}
      (h : decideYes (ceilingOf a.allowance bytesMoved) yes = .ok grant) :
      Said t a { a with grants := a.grants ++ [grant.toAllowanceGrant] }
  | paths {yes : PathsYes} {grant : OrderedGrant} (h : decidePathsYes a.allowance yes = .ok grant) :
      Said t a { a with grants := a.grants ++ [grant.toAllowanceGrant] }
  | pick {used : Measured} {sent : PickSent} {decision : PickDecision}
      (h : decidePick (pickOffers (a.billed t used).tier (a.floor t)) a.allowance sent =
        some decision) :
      Said t a
        { grants := a.grants ++ decision.yes.toList.map (·.toAllowanceGrant)
          picks := a.picks ++ [⟨decision.tierId, t⟩] }

/-- From one moment and record to another; time passes, and months with it. -/
inductive History : Instant → Account → Instant → Account → Prop
  | here (t : Instant) (a : Account) : History t a t a
  | waits {t t' t'' : Instant} {a a' : Account} (h : History t a t' a') (hle : t' ≤ t'') :
      History t a t'' a'
  | agrees {t t' : Instant} {a a' a'' : Account} (h : History t a t' a') (hsaid : Said t' a' a'') :
      History t a t' a''

theorem History.le {t t' : Instant} {a a' : Account} (h : History t a t' a') : t ≤ t' := by
  induction h with
  | here => exact le_refl _
  | waits _ hle ih => exact le_trans ih hle
  | agrees _ _ ih => exact ih

/-! ### The floor of picks made in order -/

/-- Picks in the order they were made, none after a moment. -/
structure MadeBy (picks : List TierPickRow) (t : Instant) : Prop where
  inOrder : picks.Pairwise fun p q => p.pickedAt ≤ q.pickedAt
  by_now : ∀ p ∈ picks, p.pickedAt ≤ t

def placesOf (picks : List TierPickRow) (t : Instant) : FloorPlaces :=
  picks.foldl (FloorPlaces.after (monthStartOf t)) {}

variable {picks : List TierPickRow} {t t' : Instant}

theorem MadeBy.mono (h : MadeBy picks t) (hle : t ≤ t') : MadeBy picks t' :=
  ⟨h.inOrder, fun p hp => le_trans (h.by_now p hp) hle⟩

theorem MadeBy.concat (h : MadeBy picks t) (tier : ManagedTier) : MadeBy (picks ++ [⟨tier, t⟩]) t := by
  refine ⟨?_, fun p hp => ?_⟩
  · rw [List.pairwise_append]
    refine ⟨h.inOrder, List.pairwise_singleton _ _, fun p hp q hq => ?_⟩
    obtain rfl := List.mem_singleton.mp hq
    exact h.by_now p hp
  · obtain hp | hp := List.mem_append.mp hp
    · exact h.by_now p hp
    · obtain rfl := List.mem_singleton.mp hp
      exact le_refl _

theorem pickedFloorOf_of_madeBy (h : MadeBy picks t) : pickedFloorOf picks t =
    ⟨floorAt (max (placesOf picks t).standing (placesOf picks t).since),
      floorAt (placesOf picks t).latest, nextMonthStartOf t⟩ := by
  have hall : picks.filter (fun p => p.pickedAt ≤ t) = picks :=
    List.filter_eq_self.mpr fun p hp => decide_eq_true (h.by_now p hp)
  have hsorted : picks.insertionSort (fun a b => a.pickedAt ≤ b.pickedAt) = picks :=
    h.inOrder.insertionSort_eq
  unfold pickedFloorOf
  rw [hall, hsorted]
  rfl

theorem placesOf_concat (picks : List TierPickRow) (p : TierPickRow) (t : Instant) :
    placesOf (picks ++ [p]) t = (placesOf picks t).after (monthStartOf t) p := by
  rw [placesOf, List.foldl_append]
  rfl

/-- The places are those of picks. -/
theorem placesOf_le {most : Nat} (h : ∀ p ∈ picks, placeOf p.tierId ≤ most) (t : Instant) :
    (placesOf picks t).standing ≤ most ∧ (placesOf picks t).since ≤ most ∧
      (placesOf picks t).latest ≤ most := by
  induction picks using List.reverseRecOn with
  | nil => exact ⟨Nat.zero_le _, Nat.zero_le _, Nat.zero_le _⟩
  | append_singleton picks p ih =>
      obtain ⟨hstanding, hsince, hlatest⟩ := ih fun q hq => h q (List.mem_append_left _ hq)
      have hp := h p (List.mem_append_right _ List.mem_cons_self)
      rw [placesOf_concat]
      unfold FloorPlaces.after
      dsimp only
      split_ifs
      · exact ⟨hp, hsince, hp⟩
      · exact ⟨hstanding, Nat.max_le.mpr ⟨hsince, hp⟩, hp⟩

theorem floorPlace_now (h : MadeBy picks t) (hlt : ∀ p ∈ picks, placeOf p.tierId ≤ 4) :
    floorPlace (pickedFloorOf picks t).now =
        max (placesOf picks t).standing (placesOf picks t).since ∧
      floorPlace (pickedFloorOf picks t).next = (placesOf picks t).latest := by
  obtain ⟨hstanding, hsince, hlatest⟩ := placesOf_le hlt t
  rw [pickedFloorOf_of_madeBy h]
  exact ⟨floorPlace_floorAt (by omega), floorPlace_floorAt (by omega)⟩

/-! ### What a history keeps -/

/-- Picks are made in order, and each is of a tier said yes to. -/
structure Account.Agreed (a : Account) (t : Instant) : Prop where
  made : MadeBy a.picks t
  agreed : ∀ p ∈ a.picks, placeOf p.tierId ≤ placeOf a.allowance.tier

theorem decidePick_some {offers : PickOffers} {allowance : Allowance} {sent : PickSent}
    {decision : PickDecision} (h : decidePick offers allowance sent = some decision) :
    decision.tierId ∈ offers.raise ∧
        decision.yes = (if placeOf allowance.tier < placeOf decision.tierId then
          some ⟨⟨.tier, decision.tierId, decision.tierId.dataGb⟩, monthlyEur decision.tierId⟩
        else none) ∨
      decision.tierId ∈ offers.lower ∧ decision.yes = none := by
  unfold decidePick at h
  dsimp only at h
  cases hraise : offers.raise.find? fun t => t.id = sent.tierId with
  | some tier =>
      rw [hraise] at h
      dsimp only [Option.some_or, Option.bind_some] at h
      by_cases hprice : sent.priceEur ≠ monthlyEur tier
      · rw [if_pos hprice] at h
        cases h
      · rw [if_neg hprice] at h
        obtain rfl := Option.some.inj h
        left
        refine ⟨List.mem_of_find?_eq_some hraise, ?_⟩
        simp
  | none =>
      rw [hraise] at h
      cases hlower : offers.lower.find? fun t => t.id = sent.tierId with
      | none => rw [hlower] at h; cases h
      | some tier =>
          rw [hlower] at h
          dsimp only [Option.none_or, Option.bind_some] at h
          by_cases hprice : sent.priceEur ≠ monthlyEur tier
          · rw [if_pos hprice] at h
            cases h
          · rw [if_neg hprice] at h
            obtain rfl := Option.some.inj h
            right
            refine ⟨List.mem_of_find?_eq_some hlower, ?_⟩
            simp

namespace Account

variable {a a' : Account}

theorem Agreed.wait (h : a.Agreed t) (hle : t ≤ t') : a.Agreed t' := ⟨h.made.mono hle, h.agreed⟩

theorem Agreed.floor_le (h : a.Agreed t) :
    floorPlace (a.floor t).now ≤ placeOf a.allowance.tier ∧
      floorPlace (a.floor t).next ≤ placeOf a.allowance.tier := by
  have hlt : ∀ p ∈ a.picks, placeOf p.tierId ≤ 4 := fun p _ => Nat.le_of_lt_succ (placeOf_lt _)
  obtain ⟨hnow, hnext⟩ := floorPlace_now h.made hlt
  obtain ⟨hstanding, hsince, hlatest⟩ := placesOf_le h.agreed t
  show floorPlace (pickedFloorOf a.picks t).now ≤ _ ∧ floorPlace (pickedFloorOf a.picks t).next ≤ _
  rw [hnow, hnext]
  exact ⟨Nat.max_le.mpr ⟨hstanding, hsince⟩, hlatest⟩

/-- Yeses are only added. -/
theorem grants_of_said (h : Said t a a') : ∃ more, a'.grants = a.grants ++ more := by
  cases h with
  | ceiling => exact ⟨_, rfl⟩
  | paths => exact ⟨_, rfl⟩
  | pick => exact ⟨_, rfl⟩

/-- So the agreed tier never falls. -/
theorem agreed_le_of_said (h : Said t a a') :
    placeOf a.allowance.tier ≤ placeOf a'.allowance.tier := by
  obtain ⟨more, hmore⟩ := grants_of_said h
  rw [allowance, allowance, hmore]
  exact (allowanceOf_append_ge a.grants more).1

theorem Agreed.said (h : a.Agreed t) (hsaid : Said t a a') : a'.Agreed t := by
  have hle := agreed_le_of_said hsaid
  have hold : ∀ p ∈ a.picks, placeOf p.tierId ≤ placeOf a'.allowance.tier :=
    fun p hp => Nat.le_trans (h.agreed p hp) hle
  cases hsaid with
  | ceiling => exact ⟨h.made, hold⟩
  | paths => exact ⟨h.made, hold⟩
  | @pick used sent decision hdecided =>
      refine ⟨h.made.concat decision.tierId, fun p hp => ?_⟩
      obtain hp | hp := List.mem_append.mp hp
      · exact hold p hp
      · obtain rfl := List.mem_singleton.mp hp
        show placeOf decision.tierId ≤ _
        obtain ⟨-, hyes⟩ | ⟨hlower, -⟩ := decidePick_some hdecided
        · by_cases habove : placeOf a.allowance.tier < placeOf decision.tierId
          · -- Above the agreed tier, the pick carries a yes to it.
            rw [if_pos habove] at hyes
            show _ ≤ placeOf (allowanceOf (a.grants ++ _)).tier
            rw [hyes, Option.toList_some, List.map_singleton,
              (allowanceOf_concat_tier a.grants rfl).1]
            exact Nat.le_max_right _ _
          · exact Nat.le_trans (Nat.not_lt.mp habove) hle
        · have hbelow := of_decide_eq_true (List.mem_filter.mp hlower).2
          exact Nat.le_trans (Nat.le_of_lt hbelow) (Nat.le_trans h.floor_le.2 hle)

theorem Agreed.history (h : a.Agreed t) (hhistory : History t a t' a') : a'.Agreed t' := by
  induction hhistory with
  | here => exact h
  | waits _ hle ih => exact (ih h).wait hle
  | agrees _ hsaid ih => exact (ih h).said hsaid

end Account

end Ownpace.Billing
