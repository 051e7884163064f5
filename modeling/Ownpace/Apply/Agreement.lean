/-
Ownpace/Apply/Agreement.lean

The two places that say whether a copy may be removed, and the button.

The gates of `apply-deletion.ts` and the `WHERE` of the statement that records
the removal are written apart.  They agree on every row: what the gates let
through, the statement matches (`matches_of_gates`, `relocation_matches_of_gates`).

Over that, the ledger-side functions against the apply functions, each run
alone against the same rows and a target that removes what it is asked to.
-/
import Ownpace.Apply.Functions

namespace Ownpace

open Await Store

/-! ### A found record, and its row -/

theorem find_eq_some {l : Ledger} {d : DiscoveryDomain} {k : String} {row : LedgerRecord} :
    l.find d k = some row ↔
      ∃ r, l.get k = some r ∧ r.domain = d ∧ mapRowToRecord r = row := by
  simp only [Ledger.find, Ledger.rowAt, Option.map_eq_some_iff, Option.filter_eq_some_iff,
    decide_eq_true_eq]
  constructor
  · rintro ⟨r, ⟨hg, hd⟩, hm⟩
    exact ⟨r, hg, hd, hm⟩
  · rintro ⟨r, hg, hd, hm⟩
    exact ⟨r, ⟨hg, hd⟩, hm⟩

theorem isApplied_eq_false {r : ItemRow} :
    isApplied (mapRowToRecord r) = false ↔
      r.deletionAppliedAt = none ∧ r.status ≠ .tombstoned := by
  simp [isApplied, mapRowToRecord]

theorem evidenceCheck_eq_none {row : LedgerRecord} :
    evidenceCheck row = none ↔
      row.deletionReportedAt.isSome ∨ row.deletionTrashedAt.isSome := by
  unfold evidenceCheck
  split
  · next h => exact iff_of_true rfl (by simpa using h)
  · next h =>
      refine iff_of_false ?_ (by simpa using h)
      dsimp only
      split <;> exact Option.some_ne_none _

theorem ownershipCheck_eq_none {row : LedgerRecord} :
    ownershipCheck row = none ↔ row.status = some .copied ∨ row.status = some .updated := by
  unfold ownershipCheck
  split
  · next h => exact iff_of_true rfl h
  · next h =>
      refine iff_of_false ?_ h
      split
      · exact Option.some_ne_none _
      · split <;> exact Option.some_ne_none _

theorem ours_of_ownershipCheck {r : ItemRow} (h : ownershipCheck (mapRowToRecord r) = none) :
    r.status.ours = true := by
  rw [ItemStatus.ours_iff]
  simpa [mapRowToRecord] using ownershipCheck_eq_none.mp h

/-- What the gates of a deletion let through, its `WHERE` matches. -/
theorem matches_of_gates {l : Ledger} {d : DiscoveryDomain} {k : String} {row : LedgerRecord}
    (hfind : l.find d k = some row) (happlied : isApplied row = false)
    (hevidence : evidenceCheck row = none) (hours : ownershipCheck row = none) (now : Nat) :
    (l.applyDeletion now d k).1 = true := by
  obtain ⟨r, hg, hd, rfl⟩ := find_eq_some.mp hfind
  have hnone := (isApplied_eq_false.mp happlied).1
  have hev : r.deletionReportedAt.isSome ∨ r.deletionTrashedAt.isSome :=
    evidenceCheck_eq_none.mp hevidence
  have hst := ours_of_ownershipCheck hours
  simp only [Ledger.applyDeletion, Ledger.matchesAt_eq, hg, Option.any_some,
    Ledger.mayApplyDeletion, hd, hnone, hst]
  simpa using hev

/-- What `arrivalCheck` lets through is an arrival to the `EXISTS`. -/
theorem isArrivalOf_of_check {d : DiscoveryDomain} {r a : ItemRow}
    (hmoved : r.movedToNaturalKeyHash = some a.naturalKeyHash)
    (hne : a.naturalKeyHash ≠ r.naturalKeyHash) (hd : a.domain = d)
    (hcheck : arrivalCheck (mapRowToRecord r) (mapRowToRecord a) = none) :
    Ledger.isArrivalOf d r a = true := by
  unfold arrivalCheck at hcheck
  split at hcheck
  · cases hcheck
  · next hst =>
      have hours : a.status.ours = true := by
        rw [ItemStatus.ours_iff]
        by_contra hcon
        push Not at hcon
        exact hst ⟨by simpa [mapRowToRecord] using hcon.1, by simpa [mapRowToRecord] using hcon.2⟩
      split at hcheck
      · cases hcheck
      · split at hcheck
        · next hid =>
            -- paired by the document's own id
            split at hcheck
            · cases hcheck
            · next href =>
                push Not at href
                obtain ⟨hsome, heq⟩ := href
                have hid' : r.movedByIdentity = true := hid
                have hra : r.sourceRefHref.bind nonEmpty = a.sourceRefHref.bind nonEmpty := heq.symm
                have hrn : r.sourceRefHref.bind nonEmpty ≠ none := by
                  intro hnone
                  exact hsome (by simp [mapRowToRecord, hnone])
                obtain ⟨s, hs⟩ := Option.ne_none_iff_exists'.mp hrn
                have hrs : r.sourceRefHref = some s := by
                  obtain ⟨t, ht, hts⟩ := Option.bind_eq_some_iff.mp hs
                  rw [ht, (nonEmpty_eq_some.mp hts).1]
                have hany : ((a.sourceRefHref.bind nonEmpty).any
                    fun s => r.sourceRefHref = some s) = true := by
                  rw [← hra, hs, hrs]
                  simp
                simp [Ledger.isArrivalOf, hd, hmoved, hne, hours, hid', hany]
        · split at hcheck
          · cases hcheck
          · next hempty =>
              -- paired by bytes
              push Not at hempty
              split at hcheck
              · cases hcheck
              · split at hcheck
                · cases hcheck
                · next hsame =>
                    simp only [mapRowToRecord, ne_eq, not_not] at hsame hempty
                    obtain ⟨c, hc⟩ : ∃ c, a.contentHash = some c :=
                      Option.ne_none_iff_exists'.mp fun h => hempty.2 (by simp [h])
                    obtain ⟨c', hc'⟩ : ∃ c, r.contentHash = some c :=
                      Option.ne_none_iff_exists'.mp fun h => hempty.1 (by simp [h])
                    simp only [hc, hc', Option.getD_some] at hsame hempty
                    subst hsame
                    simp [Ledger.isArrivalOf, hd, hmoved, hne, hours, hc, hc', nonEmpty,
                      hempty.1]

/-- What stands between a relocation's row and its removal, as the ledger-side
gates read it. -/
structure RelocationGates (l : Ledger) (d : DiscoveryDomain) (row : LedgerRecord) : Prop where
  unanswered : row.moveAcknowledgedAt = none
  arrival : ∃ arrivalKey arrival, row.movedToNaturalKeyHash = some arrivalKey ∧
    arrivalKey ≠ row.naturalKeyHash ∧ l.find d arrivalKey = some arrival ∧
    arrivalCheck row arrival = none

/-- What the gates of a relocation let through, its `WHERE` matches. -/
theorem relocation_matches_of_gates {l : Ledger} {d : DiscoveryDomain} {k : String}
    {row : LedgerRecord} (hfind : l.find d k = some row) (happlied : isApplied row = false)
    (hgates : RelocationGates l d row) (hours : ownershipCheck row = none) (now : Nat) :
    (l.applyRelocation now d k).1 = true := by
  obtain ⟨r, hg, hd, rfl⟩ := find_eq_some.mp hfind
  obtain ⟨arrivalKey, arrival, hmoved, hne, hfind', hcheck⟩ := hgates.arrival
  obtain ⟨a, hga, hda, rfl⟩ := find_eq_some.mp hfind'
  have hnone := (isApplied_eq_false.mp happlied).1
  have hst := ours_of_ownershipCheck hours
  have hack : r.moveAcknowledgedAt = none := hgates.unanswered
  have hkey : a.naturalKeyHash = arrivalKey := Table.get_key hga
  have hmoved' : r.movedToNaturalKeyHash = some a.naturalKeyHash := by
    obtain ⟨m, hm, hmk⟩ := Option.bind_eq_some_iff.mp hmoved
    rw [hm, (nonEmpty_eq_some.mp hmk).1, hkey]
  have hex : l.rows.any (Ledger.isArrivalOf d r) = true := by
    refine List.any_eq_true.mpr ⟨a, Table.mem_of_get hga, ?_⟩
    exact isArrivalOf_of_check hmoved' (by rw [hkey]; exact hne) hda hcheck
  simp [Ledger.applyRelocation, Ledger.matchesAt_eq, hg, Ledger.mayApplyRelocation, hd, hnone,
    hst, hack, hmoved', hex]

/-! ### The button and the action -/

section Obliging

/-- What a press meets when nobody else writes: the answer about the old
system, a target that removes what it is asked to remove (`kind`), and what it
says when asked for a copy (`has`). -/
structure Obliging where
  host : Host
  authority : Bool
  kind : String → RemoveOptions → RemovalKind
  has : String → Option String → Bool

/-- The world of a press that nobody disturbs. -/
def Obliging.world (b : Obliging) : Ledger → (o : ApplyOp) → o.Ans × Ledger
  | l, .ledger o => o.run b.host l
  | l, .stillTheAuthority => (.ok b.authority, l)
  | l, .removeItem id opts => (.ok { kind := some (b.kind id opts) }, l)
  | l, .hasItem id c => (.ok (b.has id c), l)
  | l, .recordAuditEvent _ _ => (.ok (), l)

variable (b : Obliging) (deps : ApplyDeletionDeps) (l : Ledger) {k : String}

/-- Both answered, and they answered the same. -/
inductive Agree : Except String (Except Refusal DiscoveryDomain) →
    Except String ApplyDeletionOutcome → Prop
  | refused (r : Refusal) : Agree (.ok (.error r)) (.ok (.refused r))
  | accepted (d : DiscoveryDomain) (kind : RemovalKind) : Agree (.ok (.ok d)) (.ok (.ok kind))

theorem eval_find (d : DiscoveryDomain) (k : String) :
    (askLedger (.find d k)).eval b.world l = (.ok (l.find d k), l) :=
  rfl

theorem eval_placedItems (d : DiscoveryDomain) :
    (askLedger (.placedItems d)).eval b.world l = (.ok (l.placedItems d), l) :=
  rfl

theorem eval_afterCutoverCheck (what : Press) :
    (afterCutoverCheck what).eval b.world l =
      (.ok (if b.authority then none else some (afterCutover what)), l) :=
  rfl

theorem eval_massDeletionCheck : ∃ r, (massDeletionCheck deps).eval b.world l = (.ok r, l) := by
  unfold massDeletionCheck
  rw [Prog.eval_bind_ok (eval_placedItems b l _)]
  split <;> exact ⟨_, rfl⟩

theorem eval_massRelocationCheck :
    ∃ r, (massRelocationCheck deps).eval b.world l = (.ok r, l) := by
  unfold massRelocationCheck
  rw [Prog.eval_bind_ok (eval_placedItems b l _)]
  split <;> exact ⟨_, rfl⟩

theorem eval_massChecks : ∃ r, (massChecks deps).eval b.world l = (.ok r, l) := by
  obtain ⟨r, hr⟩ := eval_massDeletionCheck b deps l
  unfold massChecks
  rw [Prog.eval_bind_ok hr]
  cases r with
  | some refusal => exact ⟨_, rfl⟩
  | none => exact eval_massRelocationCheck b deps l

/-- The relocation gate reads only, and lets through what it says it does. -/
theorem eval_relocationCheck (row : LedgerRecord) :
    ∃ r, (relocationCheck deps row).eval b.world l = (.ok r, l) ∧
      (r = none → RelocationGates l deps.domain row) := by
  unfold relocationCheck
  split
  · exact ⟨_, rfl, by intro h; cases h⟩
  · next hack =>
      split
      · exact ⟨_, rfl, by intro h; cases h⟩
      · next arrivalKey hmoved =>
          split
          · exact ⟨_, rfl, by intro h; cases h⟩
          · next hown =>
              split
              · exact ⟨_, rfl, by intro h; cases h⟩
              · rw [Prog.eval_bind_ok (eval_find b l _ _)]
                cases hfind : l.find deps.domain arrivalKey with
                | none => exact ⟨_, rfl, by intro h; cases h⟩
                | some arrival =>
                    dsimp only
                    cases hcheck : arrivalCheck row arrival with
                    | some refusal => exact ⟨_, rfl, by intro h; cases h⟩
                    | none =>
                        have hgates : RelocationGates l deps.domain row :=
                          ⟨by simpa using hack, arrivalKey, arrival, hmoved, hown, hfind, hcheck⟩
                        dsimp only
                        split
                        · exact ⟨_, rfl, fun _ => hgates⟩
                        · exact ⟨_, rfl, fun _ => hgates⟩

theorem eval_removeItem (id : String) (opts : RemoveOptions) :
    (ask (.removeItem id opts)).eval b.world l = (.ok { kind := some (b.kind id opts) }, l) :=
  rfl

theorem eval_removeThenRecord {row : LedgerRecord} {record : Apply Ledger Bool}
    {notRecorded : Refusal} (hrec : (record.eval b.world l).1 = .ok true) :
    ((removeThenRecord deps row record notRecorded).eval b.world l).1 =
      .ok (.ok (b.kind row.targetId (removeOptions deps row))) := by
  have hrec : record.eval b.world l = (.ok true, (record.eval b.world l).2) :=
    Prod.ext hrec rfl
  unfold removeThenRecord
  rw [Prog.eval_bind_ok (eval_removeItem b l _ _)]
  dsimp only
  rw [if_neg (by simp), if_neg (by simp), Prog.eval_bind_ok hrec]
  rfl

theorem applyDeletion_agrees (hcan : deps.canRemove = true) :
    Agree ((evaluateApplyDeletion deps k).eval b.world l).1
      ((applyDeletion deps k).eval b.world l).1 := by
  unfold evaluateApplyDeletion applyDeletion
  split
  · exact .refused _
  · rw [if_neg (by simp [hcan]),
      Prog.eval_bind_ok (eval_find b l _ _), Prog.eval_bind_ok (eval_find b l _ _)]
    cases hfind : l.find deps.domain k with
    | none => exact .refused _
    | some row =>
        dsimp only
        split
        · exact .refused _
        · next happlied =>
            rw [Prog.eval_bind_ok (eval_afterCutoverCheck b l _),
              Prog.eval_bind_ok (eval_afterCutoverCheck b l _)]
            cases b.authority with
            | false => exact .refused _
            | true =>
                rw [if_pos rfl]
                dsimp only
                cases hev : evidenceCheck row with
                | some weak => exact .refused _
                | none =>
                    cases hours : ownershipCheck row with
                    | some ownership => exact .refused _
                    | none =>
                        obtain ⟨r, hr⟩ := eval_massDeletionCheck b deps l
                        dsimp only
                        rw [Prog.eval_bind_ok hr, Prog.eval_bind_ok hr]
                        cases r with
                        | some breaker => exact .refused _
                        | none =>
                            have hmatch := matches_of_gates hfind (by simpa using happlied) hev
                              hours b.host.now
                            have hrec : ((askLedger (.applyDeletion deps.domain k)).eval
                                b.world l).1 = .ok true := congrArg Except.ok hmatch
                            dsimp only
                            rw [eval_removeThenRecord b deps l hrec]
                            exact .accepted _ _

/-- Where the target can be asked for a copy, and has the arrival's. -/
def HoldsArrival (b : Obliging) (deps : ApplyDeletionDeps) (l : Ledger) (k : String) : Prop :=
  deps.canConfirmPresence = true ∧ ∀ row arrivalKey arrival,
    l.find deps.domain k = some row → row.movedToNaturalKeyHash = some arrivalKey →
    l.find deps.domain arrivalKey = some arrival →
    b.has arrival.targetId
      (arrival.collection.map (applyTargetFolderPrefix deps.targetFolderPrefix)) = true

theorem eval_hasItem (id : String) (c : Option String) :
    (ask (.hasItem id c)).eval b.world l = (.ok (b.has id c), l) :=
  rfl

theorem eval_confirmArrival (hholds : HoldsArrival b deps l k) {row : LedgerRecord}
    (hfind : l.find deps.domain k = some row) (hgates : RelocationGates l deps.domain row) :
    (confirmArrival deps row).eval b.world l = (.ok none, l) := by
  obtain ⟨arrivalKey, arrival, hmoved, -, hfind', -⟩ := hgates.arrival
  have hhas := hholds.2 row arrivalKey arrival hfind hmoved hfind'
  unfold confirmArrival
  rw [hmoved, Prog.eval_bind_ok (eval_find b l _ _), Option.getD_some, hfind',
    if_neg (by simp [hholds.1])]
  dsimp only
  rw [Prog.eval_bind_ok (eval_hasItem b l _ _), hhas]
  rfl

theorem applyRelocation_agrees (hcan : deps.canRemove = true)
    (hholds : HoldsArrival b deps l k) :
    Agree ((evaluateApplyRelocation deps k).eval b.world l).1
      ((applyRelocation deps k).eval b.world l).1 := by
  unfold evaluateApplyRelocation applyRelocation
  split
  · exact .refused _
  · rw [if_neg (by simp [hcan]),
      Prog.eval_bind_ok (eval_find b l _ _), Prog.eval_bind_ok (eval_find b l _ _)]
    cases hfind : l.find deps.domain k with
    | none => exact .refused _
    | some row =>
        dsimp only
        split
        · exact .refused _
        · next happlied =>
            rw [Prog.eval_bind_ok (eval_afterCutoverCheck b l _),
              Prog.eval_bind_ok (eval_afterCutoverCheck b l _)]
            cases b.authority with
            | false => exact .refused _
            | true =>
                obtain ⟨r, hr, hgates⟩ := eval_relocationCheck b deps l row
                rw [if_pos rfl]
                dsimp only
                rw [Prog.eval_bind_ok hr, Prog.eval_bind_ok hr]
                cases r with
                | some relocation => exact .refused _
                | none =>
                    have hgates := hgates rfl
                    cases hours : ownershipCheck row with
                    | some ownership => exact .refused _
                    | none =>
                        obtain ⟨r, hr⟩ := eval_massChecks b deps l
                        dsimp only
                        rw [Prog.eval_bind_ok hr, Prog.eval_bind_ok hr]
                        cases r with
                        | some breaker => exact .refused _
                        | none =>
                            have hmatch := relocation_matches_of_gates hfind
                              (by simpa using happlied) hgates hours b.host.now
                            dsimp only
                            rw [Prog.eval_bind_ok (eval_confirmArrival b deps l hholds hfind hgates)]
                            have hrec : ((askLedger (.applyRelocation deps.domain k)).eval
                                b.world l).1 = .ok true := congrArg Except.ok hmatch
                            dsimp only
                            rw [eval_removeThenRecord b deps l hrec]
                            exact .accepted _ _

/-- The ledger-side function refuses with this code. -/
def EvaluateRefuses (a : Except String (Except Refusal DiscoveryDomain)) (c : ApplyRefusal) :
    Prop :=
  ∃ reason, a = .ok (.error ⟨c, reason⟩)

/-- The apply refuses with this code. -/
def ApplyRefuses (a : Except String ApplyDeletionOutcome) (c : ApplyRefusal) : Prop :=
  ∃ reason, a = .ok (.refused ⟨c, reason⟩)

def Accepts (a : Except String (Except Refusal DiscoveryDomain)) : Prop :=
  ∃ d, a = .ok (.ok d)

def Succeeds (a : Except String ApplyDeletionOutcome) : Prop :=
  ∃ kind, a = .ok (.ok kind)

/-- The button says what the action does: the same refusals, code by code, and
the same successes. -/
def SameAnswer (e : Except String (Except Refusal DiscoveryDomain))
    (a : Except String ApplyDeletionOutcome) : Prop :=
  (∀ c, EvaluateRefuses e c ↔ ApplyRefuses a c) ∧ (Accepts e ↔ Succeeds a)

theorem Agree.sameAnswer {e : Except String (Except Refusal DiscoveryDomain)}
    {a : Except String ApplyDeletionOutcome} (hag : Agree e a) : SameAnswer e a := by
  cases hag with
  | refused r =>
      refine ⟨fun c => ⟨?_, ?_⟩, ⟨nofun, nofun⟩⟩
      · rintro ⟨reason, heq⟩
        cases heq
        exact ⟨reason, rfl⟩
      · rintro ⟨reason, heq⟩
        cases heq
        exact ⟨reason, rfl⟩
  | accepted d kind =>
      exact ⟨fun c => ⟨nofun, nofun⟩, fun _ => ⟨kind, rfl⟩, fun _ => ⟨d, rfl⟩⟩

/-- **The button and the action agree**: for deletions always, for relocations
where the target can be asked for the arrival's copy and has it. -/
theorem evaluate_same_as_apply (hcan : deps.canRemove = true) :
    SameAnswer ((evaluateApplyDeletion deps k).eval b.world l).1
        ((applyDeletion deps k).eval b.world l).1 ∧
      (HoldsArrival b deps l k →
        SameAnswer ((evaluateApplyRelocation deps k).eval b.world l).1
          ((applyRelocation deps k).eval b.world l).1) :=
  ⟨(applyDeletion_agrees b deps l hcan).sameAnswer, fun hholds =>
    (applyRelocation_agrees b deps l hcan hholds).sameAnswer⟩

end Obliging

/-! ### A file that was renamed -/

/-- The old name's row, relocated to the new one's, both copied. -/
def renamedOld : ItemRow where
  domain := .file
  naturalKeyHash := "old"
  collection := "docs"
  contentHash := some "c"
  targetRef := some "t-old"
  status := .copied
  movedToCollection := some "docs"
  movedToNaturalKeyHash := some "new"
  movedRecordedAt := some 1

def renamedNew : ItemRow where
  domain := .file
  naturalKeyHash := "new"
  collection := "docs"
  contentHash := some "c"
  targetRef := some "t-new"
  status := .copied

def renamedLedger : Ledger := ⟨[renamedOld, renamedNew], by decide⟩

def renamedHost : Host := ⟨2, fun _ _ => .unknown⟩

/-- A target that removes; whether it can be asked for a copy is `confirm`. -/
def renamedDeps (confirm : Bool) : ApplyDeletionDeps where
  domain := .file
  allowApplyDeletions := true
  canRemove := true
  canConfirmPresence := confirm

/-- A press on the renamed file, the copy of the new name being there. -/
def renamedPress : Obliging := ⟨renamedHost, true, fun _ _ => .deleted, fun _ _ => true⟩

theorem evaluate_same_as_apply_renamed :
    SameAnswer ((evaluateApplyDeletion (renamedDeps true) "old").eval
        renamedPress.world renamedLedger).1
        ((applyDeletion (renamedDeps true) "old").eval
        renamedPress.world renamedLedger).1 ∧
      SameAnswer ((evaluateApplyRelocation (renamedDeps true) "old").eval
        renamedPress.world renamedLedger).1
        ((applyRelocation (renamedDeps true) "old").eval
        renamedPress.world renamedLedger).1 :=
  have hsame := evaluate_same_as_apply renamedPress (renamedDeps true) renamedLedger
    (k := "old") rfl
  ⟨hsame.1, hsame.2 ⟨rfl, fun _ _ _ _ _ _ => rfl⟩⟩

/-- The button offers what the action refuses, where the target removes but
cannot be asked for a copy: it accepts, and the apply answers
`target_cannot_confirm`. -/
theorem evaluate_offers_unconfirmable :
    ¬ ∀ (b : Obliging) (deps : ApplyDeletionDeps) (l : Ledger) (k : String),
      deps.canRemove = true →
        SameAnswer ((evaluateApplyRelocation deps k).eval b.world l).1
          ((applyRelocation deps k).eval b.world l).1 := by
  intro hall
  have hsame := hall renamedPress (renamedDeps false) renamedLedger "old" rfl
  have hrefuses : ApplyRefuses ((applyRelocation (renamedDeps false) "old").eval
      renamedPress.world renamedLedger).1 .targetCannotConfirm := ⟨_, rfl⟩
  obtain ⟨reason, heq⟩ := (hsame.1 .targetCannotConfirm).mpr hrefuses
  have haccepts : ((evaluateApplyRelocation (renamedDeps false) "old").eval
      renamedPress.world renamedLedger).1 = .ok (.ok .file) := rfl
  rw [haccepts] at heq
  cases heq

end Ownpace
