/-
Ownpace/Apply/Press.lean

One press of `applyRelocation`, when nobody else writes.

The world is taken together with a tally of some of its calls, such as the
removals the target may have carried out.  The reading half of a press leaves
the world as it is, so what it read still holds when the removal is asked for
(`Cleared`); the press then leaves one removal, tallied and recorded, or
nothing (`Leaves`).
-/
import Ownpace.Apply.Deletion
import Ownpace.Await.Triple

namespace Ownpace

open Await Store

variable {τ : Type}

/-! ### A tally of the removals -/

/-- May this answered call have removed something?  One that rejected may. -/
def mayRemove : (o : ApplyOp) → o.Ans → Bool
  | .removeItem _ _, .ok removal => !removal.refused
  | .removeItem _ _, .error _ => true
  | _, _ => false

/-- Was this call made to remove something? -/
def asksRemoval : (o : ApplyOp) → o.Ans → Bool
  | .removeItem _ _, _ => true
  | _, _ => false

/-- What a call may answer, the world it leaves, and a tally of the answered
calls `counts` picks. -/
def Tallies (counts : (o : ApplyOp) → o.Ans → Bool) (T : Target τ) (s : World τ × Nat)
    (o : ApplyOp) (a : o.Ans) (s' : World τ × Nat) : Prop :=
  Effects T s.1 o a s'.1 ∧ s'.2 = s.2 + (counts o a).toNat

/-- Every call may be made, a removal only where `Q` says so. -/
def RemovesOnly (Q : World τ × Nat → String → Prop) (s : World τ × Nat) : ApplyOp → Prop
  | .removeItem targetId _ => Q s targetId
  | _ => True

theorem tallies_of_reads {T : Target τ} {s s' : World τ × Nat} {o : ApplyOp} {a : o.Ans}
    (ho : o.reads = true) (hw : Tallies mayRemove T s o a s') : s' = s := by
  have hn : mayRemove o a = false := by
    cases o <;> first | rfl | cases ho
  refine Prod.ext (effects_of_reads ho hw.1) ?_
  rw [hw.2, hn]
  rfl

/-! ### The two queues -/

/-- The relocations recorded and not yet answered. -/
def openRelocations (l : Ledger) (d : DiscoveryDomain) : List Ledger.ItemMove :=
  (l.listMoves (some d)).filter isOpenRelocation

/-- Neither queue looks like an incident: the corpus is small, or both are
within the fraction. -/
def BreakerClosed (l : Ledger) (d : DiscoveryDomain) : Prop :=
  MASS_DELETION_MIN_ITEMS ≤ (l.placedItems d).length →
    withinFraction ((l.listDeletions (some d)).filter fun x =>
        x.confirmed && x.acknowledgedAt.isNone).length (l.placedItems d).length = true ∧
      withinFraction (openRelocations l d).length (l.placedItems d).length = true

/-! ### The reading half -/

section Reading

variable {T : Target τ} {Q : World τ × Nat → String → Prop} {s : World τ × Nat}
variable {deps : ApplyDeletionDeps} {α β : Type}

/-- From `s` the program only reads, and what it returns is as `P` says. -/
def ReadsAt (T : Target τ) (Q : World τ × Nat → String → Prop) (s : World τ × Nat)
    (p : Apply (World τ × Nat) α) (P : α → Prop) : Prop :=
  Prog.Triple (Tallies mayRemove T) (RemovesOnly Q) (fun x => x = s) p fun a x => x = s ∧ P a

theorem readsAt_ret {a : α} {P : α → Prop} (ha : P a) : ReadsAt T Q s (Prog.ret a) P :=
  Prog.triple_ret fun _ hx => ⟨hx, ha⟩

theorem readsAt_ask {o : ApplyOp} {P : o.Reply → Prop} (ho : o.reads = true)
    (hP : ∀ a, Effects T s.1 o (.ok a) s.1 → P a) : ReadsAt T Q s (ask o) P := by
  refine Prog.triple_awaitWith (fun x _ => ?_) fun x a x' hx hw => ?_
  · cases o <;> first | exact trivial | cases ho
  · subst hx
    obtain rfl := tallies_of_reads ho hw
    exact ⟨rfl, hP a hw.1⟩

/-- A call to the ledger that reads answers what is there. -/
theorem readsAt_ledger {o : LedgerOp} {v : o.Reply} (ho : o.reads = true)
    (hv : ∀ h, (o.run h s.1.ledger).1 = .ok v) : ReadsAt T Q s (askLedger o) fun a => a = v := by
  refine readsAt_ask ho fun a hw => ?_
  obtain ⟨host, ha⟩ := answer_of_effects hw
  exact Except.ok.inj (ha.symm.trans (hv host))

theorem ReadsAt.bind {p : Apply (World τ × Nat) α} {f : α → Apply (World τ × Nat) β}
    {P : α → Prop} {P' : β → Prop} (hp : ReadsAt T Q s p P)
    (hf : ∀ a, P a → ReadsAt T Q s (f a) P') : ReadsAt T Q s (p >>= f) P' :=
  Prog.Triple.bind hp fun a x hx => hf a hx.2 x hx.1

theorem ReadsAt.mono {p : Apply (World τ × Nat) α} {P P' : α → Prop} (hp : ReadsAt T Q s p P)
    (hPP : ∀ a, P a → P' a) : ReadsAt T Q s p P' :=
  Prog.Triple.mono hp (fun _ hx => hx) fun a _ hx => ⟨hx.1, hPP a hx.2⟩

theorem readsAt_stillTheAuthority :
    ReadsAt T Q s (ask .stillTheAuthority) fun still => still = s.1.authority := by
  refine readsAt_ask rfl ?_
  rintro still ⟨-, heq | ⟨e, heq⟩⟩
  · exact Except.ok.inj heq
  · cases heq

theorem readsAt_afterCutoverCheck (what : Press) :
    ReadsAt T Q s (afterCutoverCheck what) fun r => r = none → s.1.authority = true := by
  refine readsAt_stillTheAuthority.bind ?_
  rintro still rfl
  refine readsAt_ret fun hnone => ?_
  by_contra hcon
  rw [if_neg hcon] at hnone
  cases hnone

theorem readsAt_massDeletionCheck :
    ReadsAt T Q s (massDeletionCheck deps) fun r => r = none ↔
      (MASS_DELETION_MIN_ITEMS ≤ (s.1.ledger.placedItems deps.domain).length →
        withinFraction ((s.1.ledger.listDeletions (some deps.domain)).filter fun x =>
          x.confirmed && x.acknowledgedAt.isNone).length
          (s.1.ledger.placedItems deps.domain).length = true) := by
  refine (readsAt_ledger rfl fun _ => rfl).bind ?_
  rintro _ rfl
  dsimp only
  split
  · next hsmall =>
      exact readsAt_ret (iff_of_true rfl fun hle => absurd hle (Nat.not_le.mpr hsmall))
  · next hsmall =>
      refine (readsAt_ledger rfl fun _ => rfl).bind ?_
      rintro _ rfl
      refine readsAt_ret ?_
      split
      · next hw => exact iff_of_true rfl fun _ => hw
      · next hw => exact iff_of_false (by intro h; cases h) fun h => hw (h (Nat.not_lt.mp hsmall))

theorem readsAt_massRelocationCheck :
    ReadsAt T Q s (massRelocationCheck deps) fun r => r = none ↔
      (MASS_DELETION_MIN_ITEMS ≤ (s.1.ledger.placedItems deps.domain).length →
        withinFraction (openRelocations s.1.ledger deps.domain).length
          (s.1.ledger.placedItems deps.domain).length = true) := by
  refine (readsAt_ledger rfl fun _ => rfl).bind ?_
  rintro _ rfl
  dsimp only
  split
  · next hsmall =>
      exact readsAt_ret (iff_of_true rfl fun hle => absurd hle (Nat.not_le.mpr hsmall))
  · next hsmall =>
      refine (readsAt_ledger rfl fun _ => rfl).bind ?_
      rintro _ rfl
      refine readsAt_ret ?_
      split
      · next hw => exact iff_of_true rfl fun _ => hw
      · next hw => exact iff_of_false (by intro h; cases h) fun h => hw (h (Nat.not_lt.mp hsmall))

/-- Both halves of the breaker let through exactly when it is closed. -/
theorem readsAt_massChecks :
    ReadsAt T Q s (massChecks deps) fun r => r = none ↔ BreakerClosed s.1.ledger deps.domain := by
  refine readsAt_massDeletionCheck.bind fun r hr => ?_
  cases r with
  | some refusal =>
      refine readsAt_ret (iff_of_false (by intro h; cases h) fun hclosed => ?_)
      cases hr.mpr fun hle => (hclosed hle).1
  | none =>
      refine readsAt_massRelocationCheck.mono fun r hr' => hr'.trans ?_
      exact ⟨fun h hle => ⟨hr.mp rfl hle, h hle⟩, fun h hle => (h hle).2⟩

theorem readsAt_relocationCheck {row : LedgerRecord} :
    ReadsAt T Q s (relocationCheck deps row) fun r =>
      r = none → RelocationGates s.1.ledger deps.domain row := by
  unfold relocationCheck
  split
  · exact readsAt_ret (by intro h; cases h)
  · next hack =>
      have hunanswered : row.moveAcknowledgedAt = none := by simpa using hack
      cases hmoved : row.movedToNaturalKeyHash with
      | none => exact readsAt_ret (by intro h; cases h)
      | some arrivalKey =>
          dsimp only
          split
          · exact readsAt_ret (by intro h; cases h)
          · next hne =>
              split
              · exact readsAt_ret (by intro h; cases h)
              · refine (readsAt_ledger rfl fun _ => rfl).bind ?_
                rintro found rfl
                cases hfind : s.1.ledger.find deps.domain arrivalKey with
                | none => exact readsAt_ret (by intro h; cases h)
                | some arrival =>
                    dsimp only
                    cases hcheck : arrivalCheck row arrival with
                    | some refusal => exact readsAt_ret (by intro h; cases h)
                    | none =>
                        have hgates : RelocationGates s.1.ledger deps.domain row :=
                          ⟨hunanswered, arrivalKey, arrival, hmoved, hne, hfind, hcheck⟩
                        dsimp only
                        split
                        · exact readsAt_ret fun _ => hgates
                        · refine (readsAt_ledger rfl fun _ => rfl).bind ?_
                          rintro placed rfl
                          exact readsAt_ret fun _ => hgates

theorem readsAt_confirmArrival {row : LedgerRecord} :
    ReadsAt T Q s (confirmArrival deps row) fun r => r = none → ∃ arrival,
      s.1.ledger.find deps.domain (row.movedToNaturalKeyHash.getD "") = some arrival ∧
        T.has s.1.target arrival.targetId
          (arrival.collection.map (applyTargetFolderPrefix deps.targetFolderPrefix))
          (.ok true) := by
  refine (readsAt_ledger rfl fun _ => rfl).bind ?_
  rintro found rfl
  split
  · exact readsAt_ret (by intro h; cases h)
  · cases hfind : s.1.ledger.find deps.domain (row.movedToNaturalKeyHash.getD "") with
    | none => exact Prog.triple_throw
    | some arrival =>
        refine (readsAt_ask (o := .hasItem arrival.targetId
          (arrival.collection.map (applyTargetFolderPrefix deps.targetFolderPrefix)))
          (P := fun present => T.has s.1.target arrival.targetId
            (arrival.collection.map (applyTargetFolderPrefix deps.targetFolderPrefix))
            (.ok present)) rfl fun present hw => hw.1).bind fun present hpresent => ?_
        refine readsAt_ret fun hnone => ⟨arrival, rfl, ?_⟩
        cases present with
        | true => exact hpresent
        | false => cases hnone

end Reading

/-! ### One press -/

/-- What one press leaves: a removal, tallied and recorded, or nothing. -/
inductive Leaves (d : DiscoveryDomain) (k : String) (s s' : World τ × Nat) :
    ApplyDeletionOutcome → Prop
  | removed {kind now} : s'.2 = s.2 + 1 → s'.1.authority = s.1.authority →
      s'.1.ledger = (s.1.ledger.applyRelocation now d k).2 → Leaves d k s s' (.ok kind)
  | nothing {refusal} : s'.2 = s.2 → s'.1.authority = s.1.authority →
      s'.1.ledger = s.1.ledger → Leaves d k s s' (.refused refusal)

/-- Every gate of a press is passed, for this row and this arrival. -/
structure Cleared (T : Target τ) (deps : ApplyDeletionDeps) (k : String) (w : World τ)
    (row arrival : LedgerRecord) : Prop where
  found : w.ledger.find deps.domain k = some row
  live : isApplied row = false
  authority : w.authority = true
  gates : RelocationGates w.ledger deps.domain row
  ours : ownershipCheck row = none
  breaker : BreakerClosed w.ledger deps.domain
  there : w.ledger.find deps.domain (row.movedToNaturalKeyHash.getD "") = some arrival
  present : T.has w.target arrival.targetId
    (arrival.collection.map (applyTargetFolderPrefix deps.targetFolderPrefix)) (.ok true)

section Press

variable {T : Target τ} {Q : World τ × Nat → String → Prop} {s : World τ × Nat}
variable {deps : ApplyDeletionDeps} {k : String}

/-- What a press that only read so far ends in. -/
theorem leaves_nothing {d : DiscoveryDomain} {refusal : Refusal} :
    Prog.Triple (Tallies mayRemove T) (RemovesOnly Q) (fun x => x = s)
      (Prog.ret (.refused refusal) : Apply (World τ × Nat) ApplyDeletionOutcome)
      fun outcome s' => Leaves d k s s' outcome :=
  Prog.triple_ret fun x hx => by
    subst hx
    exact .nothing rfl rfl rfl

theorem ReadsAt.andThen {α β : Type} {p : Apply (World τ × Nat) α}
    {f : α → Apply (World τ × Nat) β} {P : α → Prop} {Post : β → World τ × Nat → Prop}
    (hp : ReadsAt T Q s p P)
    (hf : ∀ a, P a → Prog.Triple (Tallies mayRemove T) (RemovesOnly Q) (fun x => x = s) (f a) Post) :
    Prog.Triple (Tallies mayRemove T) (RemovesOnly Q) (fun x => x = s) (p >>= f) Post :=
  Prog.Triple.bind hp fun a x hx => hf a hx.2 x hx.1

/-- The last steps: the removal may be asked for, and once the copy is gone the
record is made. -/
theorem triple_removeThenRecord {row : LedgerRecord} (hQ : Q s row.targetId)
    (hrec : ∀ now, (s.1.ledger.applyRelocation now deps.domain k).1 = true) :
    Prog.Triple (Tallies mayRemove T) (RemovesOnly Q) (fun x => x = s)
      (removeThenRecord deps row (askLedger (.applyRelocation deps.domain k))
        relocationNotRecorded)
      fun outcome s' => Leaves deps.domain k s s' outcome := by
  unfold removeThenRecord
  refine Prog.Triple.seq (fun removal s₁ => s₁.1.authority = s.1.authority ∧
    s₁.1.ledger = s.1.ledger ∧ s₁.2 = s.2 + (!removal.refused).toNat)
    (Prog.triple_awaitWith (fun x hx => hx ▸ hQ) ?_) fun removal => ?_
  · rintro x removal x' rfl ⟨⟨-, hw⟩, hn⟩
    rw [hw]
    exact ⟨rfl, rfl, hn⟩
  · have hnothing {refusal : Refusal} (href : removal.refused = true) :
        Prog.Triple (Tallies mayRemove T) (RemovesOnly Q) (fun s₁ => s₁.1.authority = s.1.authority ∧
          s₁.1.ledger = s.1.ledger ∧ s₁.2 = s.2 + (!removal.refused).toNat)
          (Prog.ret (.refused refusal) : Apply (World τ × Nat) ApplyDeletionOutcome)
          fun outcome s' => Leaves deps.domain k s s' outcome := by
      refine Prog.triple_ret ?_
      rintro s₁ ⟨hauth, hl, hn⟩
      refine .nothing ?_ hauth hl
      rw [hn, href]
      rfl
    split
    · next hc => exact hnothing (by simp [RemovalResult.refused, hc])
    · next hc =>
        split
        · next hu => exact hnothing (by simp [RemovalResult.refused, hu])
        · next hu =>
            cases hk : removal.kind with
            | none => exact hnothing (by simp [RemovalResult.refused, hk])
            | some kind =>
                have href : removal.refused = false := by
                  simp [RemovalResult.refused, hc, hu, hk]
                refine Prog.Triple.seq (fun recorded s₂ => recorded = true ∧
                  ∃ now, s₂.2 = s.2 + 1 ∧ s₂.1.authority = s.1.authority ∧
                    s₂.1.ledger = (s.1.ledger.applyRelocation now deps.domain k).2)
                  (Prog.triple_awaitWith (fun _ _ => trivial) ?_) fun recorded =>
                    Prog.triple_ret ?_
                · rintro s₁ recorded s₂ ⟨hauth, hl, hn⟩ ⟨⟨host, hw, hrun | ⟨⟨e, he⟩, -⟩⟩, hn'⟩
                  · have hrun' : (Except.ok ((s₁.1.ledger.applyRelocation host.now deps.domain k).1),
                        (s₁.1.ledger.applyRelocation host.now deps.domain k).2) =
                        ((Except.ok recorded : Except String Bool), s₂.1.ledger) := hrun
                    rw [Prod.mk.injEq, Except.ok.injEq, hl] at hrun'
                    refine ⟨hrun'.1.symm.trans (hrec _), host.now, ?_, ?_, hrun'.2.symm⟩
                    · rw [hn', hn, href]
                      rfl
                    · rw [hw, ← hauth]
                  · cases he
                · rintro s₂ ⟨rfl, now, hn, hauth, hl⟩
                  exact .removed hn hauth hl

/-- **One press**, alone: a removal only behind every gate, and then its record. -/
theorem triple_applyRelocation
    (hQ : ∀ row arrival, Cleared T deps k s.1 row arrival → Q s row.targetId) :
    Prog.Triple (Tallies mayRemove T) (RemovesOnly Q) (fun x => x = s) (applyRelocation deps k)
      fun outcome s' => Leaves deps.domain k s s' outcome := by
  unfold applyRelocation
  split
  · exact leaves_nothing
  · split
    · exact leaves_nothing
    · refine (readsAt_ledger rfl fun _ => rfl).andThen ?_
      rintro found rfl
      cases hfind : s.1.ledger.find deps.domain k with
      | none => exact leaves_nothing
      | some row =>
          dsimp only
          split
          · exact leaves_nothing
          · next hlive =>
              refine (readsAt_afterCutoverCheck .move).andThen fun cut hauth => ?_
              cases cut with
              | some cutOver => exact leaves_nothing
              | none =>
                  refine readsAt_relocationCheck.andThen fun relocation hgates => ?_
                  cases relocation with
                  | some refusal => exact leaves_nothing
                  | none =>
                      cases hours : ownershipCheck row with
                      | some ownership => exact leaves_nothing
                      | none =>
                          refine readsAt_massChecks.andThen fun breaker hbreaker => ?_
                          cases breaker with
                          | some refusal => exact leaves_nothing
                          | none =>
                              refine readsAt_confirmArrival.andThen fun confirmed hconf => ?_
                              cases confirmed with
                              | some refusal => exact leaves_nothing
                              | none =>
                                  obtain ⟨arrival, hthere, hpresent⟩ := hconf rfl
                                  have hlive : isApplied row = false := by simpa using hlive
                                  refine triple_removeThenRecord (hQ row arrival
                                    { found := hfind, live := hlive, authority := hauth rfl,
                                      gates := hgates rfl, ours := hours,
                                      breaker := hbreaker.mp rfl, there := hthere,
                                      present := hpresent }) fun now => ?_
                                  exact relocation_matches_of_gates hfind hlive (hgates rfl)
                                    hours now

end Press

/-! ### Calls alone -/

section Quiet

variable {S : Type} {deps : ApplyDeletionDeps}

theorem quiet_ask {o : ApplyOp} : (ask o : Apply S o.Reply).Quiet :=
  Prog.quiet_awaitWith

theorem quiet_afterCutoverCheck {what : Press} : (afterCutoverCheck what : Apply S _).Quiet :=
  quiet_ask.bind fun _ => trivial

theorem quiet_massChecks : (massChecks deps : Apply S _).Quiet := by
  refine Prog.Quiet.bind ?_ fun deletions => ?_
  · refine quiet_ask.bind fun placed => ?_
    split
    · exact trivial
    · exact quiet_ask.bind fun _ => trivial
  · cases deletions with
    | some refusal => exact trivial
    | none =>
        refine quiet_ask.bind fun placed => ?_
        split
        · exact trivial
        · exact quiet_ask.bind fun _ => trivial

theorem quiet_relocationCheck {row : LedgerRecord} :
    (relocationCheck deps row : Apply S _).Quiet := by
  unfold relocationCheck
  split
  · exact trivial
  · split
    · exact trivial
    · split
      · exact trivial
      · split
        · exact trivial
        · refine quiet_ask.bind fun found => ?_
          split
          · exact trivial
          · split
            · exact trivial
            · split
              · exact trivial
              · exact quiet_ask.bind fun _ => trivial

theorem quiet_confirmArrival {row : LedgerRecord} :
    (confirmArrival deps row : Apply S _).Quiet := by
  refine quiet_ask.bind fun found => ?_
  split
  · exact trivial
  · split
    · exact trivial
    · exact quiet_ask.bind fun _ => trivial

theorem quiet_removeThenRecord {row : LedgerRecord} {record : Apply S Bool} {refusal : Refusal}
    (hrecord : record.Quiet) : (removeThenRecord deps row record refusal).Quiet := by
  refine quiet_ask.bind fun removal => ?_
  split
  · exact trivial
  · split
    · exact trivial
    · split
      · exact trivial
      · exact hrecord.bind fun _ => trivial

theorem quiet_applyRelocation {k : String} : (applyRelocation deps k : Apply S _).Quiet := by
  unfold applyRelocation
  split
  · exact trivial
  · split
    · exact trivial
    · refine quiet_ask.bind fun found => ?_
      split
      · exact trivial
      · split
        · exact trivial
        · refine quiet_afterCutoverCheck.bind fun cut => ?_
          split
          · exact trivial
          · refine quiet_relocationCheck.bind fun relocation => ?_
            split
            · exact trivial
            · split
              · exact trivial
              · refine quiet_massChecks.bind fun breaker => ?_
                split
                · exact trivial
                · refine quiet_confirmArrival.bind fun confirmed => ?_
                  split
                  · exact trivial
                  · exact quiet_removeThenRecord quiet_ask

theorem quiet_autoApplyOne {placed : List Ledger.PlacedItem} {passStartedAt : Nat}
    {move : Ledger.ItemMove} : (autoApplyOne deps placed passStartedAt move : Apply S _).Quiet := by
  unfold autoApplyOne
  split
  · exact trivial
  · refine quiet_ask.bind fun row => ?_
    split
    · exact trivial
    · dsimp only
      split
      · exact trivial
      · refine quiet_applyRelocation.bind fun outcome => ?_
        cases outcome with
        | refused refusal => exact trivial
        | ok kind => exact quiet_ask.attempt.bind fun _ => trivial

theorem quiet_autoApplyLoop {placed : List Ledger.PlacedItem} {passStartedAt cap : Nat}
    {moves : List Ledger.ItemMove} {report : AutoApplyRelocationsReport} :
    (autoApplyLoop deps placed passStartedAt cap moves report : Apply S _).Quiet := by
  induction moves generalizing report with
  | nil => exact trivial
  | cons move moves ih =>
      rw [autoApplyLoop]
      split
      · exact ih
      · refine quiet_autoApplyOne.bind fun turned => ?_
        cases turned <;> exact ih

theorem quiet_autoApplyRelocations {enabled : Bool} {passStartedAt cap : Nat} :
    (autoApplyRelocations deps enabled passStartedAt cap : Apply S _).Quiet := by
  unfold autoApplyRelocations
  split
  · exact trivial
  · refine quiet_ask.bind fun still => ?_
    split
    · exact trivial
    · refine quiet_ask.bind fun moves => ?_
      dsimp only
      split
      · exact trivial
      · refine quiet_massChecks.bind fun breaker => ?_
        split
        · exact trivial
        · exact quiet_ask.bind fun placed => quiet_autoApplyLoop

end Quiet

end Ownpace
