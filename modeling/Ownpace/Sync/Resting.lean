/-
Ownpace/Sync/Resting.lean

Rows at rest, through a pass.

The row of an item that was left behind, removed, or parked waits for a decision;
no pass touches it but to note what it sees of its item.  `StaysResting` is an
invariant of the pass by its rule: such a row stays where it is recorded, no move
of it is recorded, and the search for files that are gone passes it over.
-/
import Ownpace.Sync.Moves
import Ownpace.Sync.Script

namespace Ownpace.Sync

open Await Ownpace Store

variable {Item Raw Folder τ : Type}

/-! ### Rows at rest -/

/-- A row that waits for a decision, and has no move marked; or (where `late`) one
that waited, and whose name the item no longer has. -/
structure RestingRow (late : Prop) (r : ItemRow) : Prop where
  unmarked : r.movedToCollection = none
  unkeyed : r.movedToNaturalKeyHash = none
  unacknowledged : r.moveAcknowledgedAt = none
  status : r.status = .leftBehind ∨ (r.status = .tombstoned ∧ r.deletionAppliedAt.isSome) ∨
    (r.status = .failed ∧ (r.parkedAt.isSome ∨ MAX_ITEM_ATTEMPTS ≤ r.attemptCount)) ∨
    late ∧ r.status = .superseded

/-- The row under this key rests, and records this collection. -/
def RestsAt (domain : DiscoveryDomain) (l : Ledger) (key collection : String) (late : Prop) : Prop :=
  ∃ r, l.get key = some r ∧ r.domain = domain ∧ r.collection = collection ∧ RestingRow late r

/-- The answers that leave an item alone. -/
def waits : KnownItemAction → Bool
  | .leftBehind | .tombstoned | .needsDecision => true
  | _ => false

section Rows

variable {domain : DiscoveryDomain} {l : Ledger} {key collection : String} {late late' : Prop}
variable {h : Host} {o : LedgerOp} {r r' : ItemRow}

theorem RestingRow.imp (hr : RestingRow late r) (hl : late → late') : RestingRow late' r :=
  ⟨hr.unmarked, hr.unkeyed, hr.unacknowledged,
    hr.status.imp_right (Or.imp_right (Or.imp_right (And.imp_left hl)))⟩

theorem RestsAt.imp (hr : RestsAt domain l key collection late) (hl : late → late') :
    RestsAt domain l key collection late' := by
  obtain ⟨r, hr, hd, hc, hrest⟩ := hr
  exact ⟨r, hr, hd, hc, hrest.imp hl⟩

theorem RestingRow.not_ours (hr : RestingRow late r) : r.status.ours = false := by
  rcases hr.status with hs | ⟨hs, -⟩ | ⟨hs, -⟩ | ⟨-, hs⟩ <;> rw [hs] <;> rfl

/-- What the ledger hands out of such a row says so. -/
theorem RestingRow.classify (hr : RestingRow False r) (version : Option String) (path : String) :
    waits (classifyKnownItem (mapRowToRecord r) version path) = true := by
  have hstatus : (mapRowToRecord r).status = some r.status := rfl
  have hkey : (mapRowToRecord r).movedToNaturalKeyHash = r.movedToNaturalKeyHash.bind nonEmpty := rfl
  have hparked : (mapRowToRecord r).parkedAt = r.parkedAt := rfl
  have hattempts : (mapRowToRecord r).attemptCount = some r.attemptCount := rfl
  unfold classifyKnownItem
  rw [hstatus]
  rcases hr.status with hs | ⟨hs, -⟩ | ⟨hs, hwaits⟩ | ⟨hlate, -⟩
  · rw [hs]
    rfl
  · rw [hs, hkey, hr.unkeyed]
    rfl
  · rw [hs, hparked, hattempts]
    dsimp only
    rw [if_pos (by simpa using hwaits)]
    rfl
  · exact hlate.elim

/-- The calls that leave a row of this key at rest. -/
def keepsResting (late : Prop) (domain : DiscoveryDomain) (key : String) : LedgerOp → Prop
  | .recordUpdate record => record.naturalKeyHash ≠ key
  | .recordFailure record _ _ => record.naturalKeyHash ≠ key
  | .recordMove d k _ _ _ => ¬ (d = domain ∧ k = key)
  | .resolveFailure .. | .resolveFailureGroup .. => False
  | .supersedeFormerNames .. => late
  | _ => True

theorem RestingRow.change (hr : RestingRow late r) (hc : Ledger.Change h l o r r')
    (hkeeps : keepsResting late r.domain r.naturalKeyHash o) :
    RestingRow late r' ∧ r'.collection = r.collection := by
  cases hc with
  | update _ hk | bump _ hk => exact absurd hk.symm hkeeps
  | move hd hk => exact absurd ⟨hd.symm, hk.symm⟩ hkeeps
  | resolve | resolveGroup => exact hkeeps.elim
  | unmove => exact ⟨⟨rfl, rfl, rfl, hr.status⟩, rfl⟩
  | keepMove _ hmark =>
      rw [hr.unmarked] at hmark
      cases hmark
  | absent | reported | trashed | back | keepDeletion =>
      exact ⟨⟨hr.unmarked, hr.unkeyed, hr.unacknowledged, hr.status⟩, rfl⟩
  | delete _ hmay =>
      simp only [Ledger.mayApplyDeletion, hr.not_ours, Bool.and_false] at hmay
      cases hmay
  | relocate _ hmay =>
      simp only [Ledger.mayApplyRelocation, hr.not_ours, Bool.and_false, Bool.false_and] at hmay
      cases hmay
  | supersede =>
      exact ⟨⟨hr.unmarked, hr.unkeyed, hr.unacknowledged, .inr (.inr (.inr ⟨hkeeps, rfl⟩))⟩, rfl⟩
  | mark _ hours | unmark _ _ hours =>
      rw [hr.not_ours] at hours
      cases hours

theorem RestsAt.run (hr : RestsAt domain l key collection late) (hkeeps : keepsResting late domain key o) :
    RestsAt domain (o.run h l).2 key collection late := by
  obtain ⟨r, hget, hd, hc, hrest⟩ := hr
  have hkey := Ledger.key_of_get hget
  obtain ⟨r', hget', rfl | hchange⟩ := Ledger.run_get_some (h := h) (o := o) hget
  · exact ⟨_, hget', hd, hc, hrest⟩
  · rw [← hd, ← hkey] at hkeeps
    obtain ⟨hrest', hsame⟩ := hrest.change hchange hkeeps
    exact ⟨r', hget', hchange.domain.trans hd, hsame.trans hc, hrest'⟩

theorem RestsAt.find (hr : RestsAt domain l key collection late) :
    ∃ r, RestingRow late r ∧ l.find domain key = some (mapRowToRecord r) := by
  obtain ⟨r, hget, hd, -, hrest⟩ := hr
  exact ⟨r, hrest, Ledger.find_eq_some.mpr ⟨r, hget, hd, rfl⟩⟩

/-- Of such rows only removed ones are looked at for files that are gone. -/
theorem RestsAt.placed (hr : RestsAt domain l key collection late) {row : Ledger.PlacedItem}
    (hrow : row ∈ l.placedItems domain) (hkey : row.naturalKeyHash = key) :
    row.deletionAppliedAt.isSome = true := by
  obtain ⟨r, hget, -, -, hrest⟩ := hr
  obtain ⟨r', hmem, rfl⟩ := List.mem_map.mp hrow
  obtain ⟨hmem, hplaced⟩ := List.mem_filter.mp hmem
  have hget' : l.get r'.naturalKeyHash = some r' := Table.get_of_mem hmem
  have hkey' : r'.naturalKeyHash = key := hkey
  rw [hkey', hget] at hget'
  obtain rfl := Option.some.inj hget'
  simp only [Ledger.isPlaced, Bool.and_eq_true, decide_eq_true_eq] at hplaced
  obtain ⟨-, ⟨⟨hfailed, hleft⟩, hsuperseded⟩, -⟩ := hplaced
  rcases hrest.status with hs | ⟨-, happlied⟩ | ⟨hs, -⟩ | ⟨-, hs⟩
  · exact absurd hs hleft
  · exact happlied
  · exact absurd hs hfailed
  · exact absurd hs hsuperseded

end Rows

/-! ### Through a pass -/

section Pass

variable {deps : DomainSyncDeps Item Raw Folder} {out : Outside Item Raw Folder τ}
variable {s₀ s s' : PassState Item Raw Folder τ} {o : SyncOp Item Raw Folder} {a : o.Ans}
variable {key collection : String} {late late' : Prop}

variable (deps s₀ key collection) in
/-- The row rests, and nothing was said of a move of it. -/
structure StaysResting (late : Prop) (s : PassState Item Raw Folder τ) : Prop where
  log : s₀.world.log <+: s.world.log
  row : RestsAt deps.domain s.world.ledger key collection late
  unrecorded : ∀ dest toKey pairedBy a,
    (⟨.ledger (.recordMove deps.domain key dest toKey pairedBy), a⟩ : Made Item Raw Folder) ∉ callsSince s₀ s
  unplaced : ∀ rows,
    (⟨.ledger (.placedItems deps.domain), .ok rows⟩ : Made Item Raw Folder) ∈ callsSince s₀ s →
      ∀ row ∈ rows, row.naturalKeyHash = key → row.deletionAppliedAt.isSome = true

theorem StaysResting.imp (hk : StaysResting deps s₀ key collection late s) (hl : late → late') :
    StaysResting deps s₀ key collection late' s :=
  ⟨hk.log, hk.row.imp hl, hk.unrecorded, hk.unplaced⟩

theorem StaysResting.vars {v : Vars Item} (hk : StaysResting deps s₀ key collection late s) :
    StaysResting deps s₀ key collection late { s with vars := v } :=
  ⟨hk.log, hk.row, hk.unrecorded, hk.unplaced⟩

/-- A call that leaves such a row at rest. -/
theorem StaysResting.call (hk : StaysResting deps s₀ key collection late s) (hw : out.Effects s o a s')
    (hkeeps : ∀ l, o = .ledger l → keepsResting late deps.domain key l) :
    StaysResting deps s₀ key collection late s' := by
  have hcalls := callsSince_call hk.log hw
  refine ⟨?_, ?_, fun dest toKey pairedBy b hmem => ?_, fun rows hmem row hrow hkey => ?_⟩
  · rw [log_grows hw]
    exact hk.log.trans (List.prefix_append _ _)
  · rcases effects_ledger hw with hl | ⟨l, host, hwrites, hl⟩
    · rw [hl]
      exact hk.row
    · rw [hl]
      cases hwrites with
      | ledger => exact hk.row.run (hkeeps l rfl)
      | writer => exact hk.row.run trivial
  · rw [hcalls] at hmem
    rcases List.mem_append.mp hmem with hmem | hmem
    · exact hk.unrecorded dest toKey pairedBy b hmem
    · have heq := congrArg Sigma.fst (List.mem_singleton.mp hmem)
      exact hkeeps _ heq.symm ⟨rfl, rfl⟩
  · rw [hcalls] at hmem
    rcases List.mem_append.mp hmem with hmem | hmem
    · exact hk.unplaced rows hmem row hrow hkey
    · cases List.mem_singleton.mp hmem
      obtain ⟨w', ⟨⟨host, hrun | ⟨⟨e, he⟩, -⟩⟩, -⟩, -⟩ := hw
      · have hrows : rows = s.world.ledger.placedItems deps.domain := Except.ok.inj hrun.1
        exact hk.row.placed (hrows ▸ hrow) hkey
      · cases he

/-! The tasks. -/

section Tasks

variable {paths : Paths Item Raw Folder τ} {visit i : Nat} {path : String} {item : Item}
variable {items : List Item} {s₁ : PassState Item Raw Folder τ} {e : Ev Item Raw Folder τ}

variable (deps s₀ key collection) in
/-- What the tasks of a listing keep of it. -/
structure RestBlock (paths : Paths Item Raw Folder τ) (s : PassState Item Raw Folder τ) : Prop where
  told : ∀ row, Asked deps paths key row → ∃ known, row = some known ∧
    ∀ version collection, waits (classifyKnownItem known version collection) = true
  stays : StaysResting deps s₀ key collection False s

theorem RestBlock.waits (hb : RestBlock deps s₀ key collection paths s)
    (hshared : Shared deps visit path items s₁ paths s) {known : LedgerRecord} (version : Option String)
    (ht : Told deps (paths i) key (some known)) :
    Sync.waits (classifyKnownItem known version path) = true := by
  obtain ⟨known', heq, hw⟩ := hb.told _ (hshared.asked ht List.prefix_rfl)
  cases heq
  exact hw version path

/-- No task takes such an item up. -/
theorem RestBlock.not_takenUp (hb : RestBlock deps s₀ key collection paths s)
    (hshared : Shared deps visit path items s₁ paths s) {hasExistingRow : Bool}
    {rewriteOf : Option LedgerRecord} :
    ¬ TakenUp deps path item (paths i) key hasExistingRow rewriteOf := by
  intro ht
  cases ht with
  | new ht =>
      obtain ⟨known, heq, -⟩ := hb.told _ (hshared.asked ht List.prefix_rfl)
      cases heq
  | again ht hc =>
      have hw := hb.waits hshared (statedVersion deps item) ht
      rcases hc with hc | hc <;> rw [hc] at hw <;> cases hw
  | rewrite ht hc =>
      have hw := hb.waits hshared (statedVersion deps item) ht
      rw [hc] at hw
      cases hw

/-- What a task's call to the ledger does not do to the row. -/
theorem RestBlock.keeps {l : LedgerOp} {a : Except Err l.Reply}
    (hstated : ∀ item, MayHaveKey deps item key → deps.naturalKey item = some key)
    (hb : RestBlock deps s₀ key collection paths s)
    (hshared : Shared deps visit path items s₁ paths s)
    (he : TaskStep deps path item visit i (paths i) (.call (.ledger l) a)) :
    keepsResting False deps.domain key l := by
  cases he with
  | @failed k locals message options _ hmay htaken =>
      rintro rfl
      obtain ⟨-, hasExistingRow, rewriteOf, ht⟩ := htaken (hstated item hmay)
      exact hb.not_takenUp hshared ht
  | item he =>
      cases he with
      | asks ho => cases l <;> first | exact trivial | cases ho
      | clearAbsent | clearMove | insert => exact trivial
      | recordMove ht _ hc =>
          rintro ⟨-, rfl⟩
          have hw := hb.waits hshared (statedVersion deps item) ht
          rw [hc] at hw
          cases hw
      | recordVersion ht _ hc _ =>
          intro hkey
          have hkey : _ = key := ((hshared.named _ _ (hshared.asked ht List.prefix_rfl)).2).symm.trans hkey
          subst hkey
          have hw := hb.waits hshared (deps.sourceVersion item) ht
          rw [hc] at hw
          cases hw
      | conflicted ht =>
          intro hkey
          cases ht with
          | rewrite ht hc hauth =>
              have hkey : _ = key := ((hshared.named _ _ (hshared.asked ht List.prefix_rfl)).2).symm.trans hkey
              subst hkey
              exact hb.not_takenUp hshared (.rewrite ht hc hauth)
      | update ht =>
          rintro rfl
          exact hb.not_takenUp hshared ht

theorem RestBlock.step (hstated : ∀ item, MayHaveKey deps item key → deps.naturalKey item = some key)
    (hb : RestBlock deps s₀ key collection paths s)
    (hshared : Shared deps visit path items s₁ paths s)
    (he : TaskStep deps path item visit i (paths i) e) (hf : Fires out.Effects s e s') :
    RestBlock deps s₀ key collection (paths.add i e) s' := by
  refine ⟨fun row hasked => ?_, ?_⟩
  · rcases hasked.step hf with hasked | ⟨hfind, -⟩
    · exact hb.told row hasked
    · obtain ⟨r, hrest, hr⟩ := hb.stays.row.find
      exact ⟨mapRowToRecord r, hfind.symm.trans hr, hrest.classify⟩
  · cases e with
    | sync b a =>
        obtain ⟨rfl, rfl⟩ := hf
        have hworld : s'.world = s.world := he.sync.2.1
        have hcalls : callsSince s₀ s' = callsSince s₀ s := by rw [callsSince, callsSince, hworld]
        refine ⟨hworld ▸ hb.stays.log, hworld ▸ hb.stays.row, ?_, ?_⟩
        · rw [hcalls]
          exact hb.stays.unrecorded
        · rw [hcalls]
          exact hb.stays.unplaced
    | call o a =>
        refine hb.stays.call hf ?_
        rintro l rfl
        exact hb.keeps hstated hshared he

/-- Every moment of the tasks of a listing. -/
theorem restBlock_of_reaches {visit heldBefore : Nat} {folder : Folder} {listing : Listing Item}
    (hstated : ∀ item, MayHaveKey deps item key → deps.naturalKey item = some key)
    (hk : StaysResting deps s₀ key collection False s)
    (hready : Ready deps visit heldBefore folder listing s)
    {pl : Pool (PassState Item Raw Folder τ) (SyncOp Item Raw Folder) SyncOp.Ans Err}
    (hreach : Pool.Reaches out.Effects deps.concurrency (workers deps visit folder listing.items) s pl s') :
    RestBlock deps s₀ key collection pl.path s' ∧
      Shared deps visit (deps.collectionPathOf folder) listing.items s pl.path s' := by
  have hinit : RestBlock deps s₀ key collection (fun _ => []) s := by
    refine ⟨fun row hasked => ?_, hk⟩
    cases hasked with
    | find hmem => cases hmem
    | findMany hmem => cases hmem
  have hok := block_rule (I := RestBlock deps s₀ key collection) rfl hready.windows hready.answered hinit
    (fun _ _ _ _ _ _ _ hs hb he hf _ => hb.step hstated hs he hf) hreach
  exact ⟨hok.inv.2, hok.inv.1⟩

end Tasks

theorem keepsResting_of_reads {l : LedgerOp} (hl : l.reads = true) :
    keepsResting late deps.domain key l := by
  cases l <;> first | exact trivial | cases hl

/-- Nothing the pass concludes is about such a row, but that it is listed still. -/
theorem keepsResting_of_conclusion {l : LedgerOp}
    (hc : Conclusion deps (StaysResting deps s₀ key collection True) s l) :
    keepsResting True deps.domain key l := by
  cases hc with
  | @move row dest toKey pairedBy _ hmissing =>
      rintro ⟨-, hkey⟩
      obtain ⟨s₁, hk, hrow, -⟩ := hmissing.read
      have happlied := hk.row.placed hrow hkey
      rw [hmissing.live] at happlied
      cases happlied
  | _ => exact trivial

/-- The rule of the pass, for the row of one key. -/
theorem resting_rule (hstated : ∀ item, MayHaveKey deps item key → deps.naturalKey item = some key) :
    PassRule deps out (StaysResting deps s₀ key collection False)
      (StaysResting deps s₀ key collection True)
      fun _ _ _ _ _ s => StaysResting deps s₀ key collection False s where
  early := by
    refine ⟨fun hk ho hw => hk.call hw ?_, fun hk _ => hk.vars, fun hk => hk.imp False.elim⟩
    rintro l rfl
    exact keepsResting_of_reads ho
  ending := by
    refine ⟨fun hk ho hw => hk.call hw ?_, fun hk _ => hk.vars, id⟩
    rintro l rfl
    exact keepsResting_of_reads ho
  cursor := fun hk hw => hk.call hw fun l heq => (by cases heq)
  begins := fun hk _ => hk.vars
  block := fun hk hready hw => by
    obtain ⟨pl, hreach, -, -⟩ := hw
    exact (restBlock_of_reaches hstated hk hready hreach).1.stays
  joined := id
  hold := fun hk _ => hk.vars
  report := fun hk _ hw => hk.call hw fun l heq => by
    cases heq
    exact trivial
  conclusion := fun hk hc hw => hk.call hw fun l heq => by
    cases heq
    exact keepsResting_of_conclusion hc

/-- **A row at rest stays so**, at every moment of a pass. -/
theorem staysResting_of_stands (hvars : s₀.vars = {})
    (hstated : ∀ item, MayHaveKey deps item key → deps.naturalKey item = some key)
    (hrow : RestsAt deps.domain s₀.world.ledger key collection False) (h : Stands deps out s₀ s) :
    StaysResting deps s₀ key collection True s := by
  have hnone : callsSince s₀ s₀ = [] := List.drop_length
  have hstart : StaysResting deps s₀ key collection False s₀ := by
    refine ⟨List.prefix_rfl, hrow, ?_, ?_⟩
    · rw [hnone]
      exact fun _ _ _ _ => List.not_mem_nil
    · rw [hnone]
      exact fun _ hmem => absurd hmem List.not_mem_nil
  have hgood : Good (StaysResting deps s₀ key collection False) s₀ := by
    refine ⟨hstart, ?_, ?_⟩
    · rintro ⟨n, hmem⟩
      rw [hvars] at hmem
      cases hmem
    · intro entry hmem
      rw [hvars] at hmem
      cases hmem
  have hrule : PassRule deps out (StaysResting deps s₀ key collection False)
      (StaysResting deps s₀ key collection True)
      fun _ _ _ _ _ s => StaysResting deps s₀ key collection False s := resting_rule hstated
  cases h with
  | ended hrun => exact (hrule.run_ret hgood hrun).inv
  | off h =>
      cases h with
      | start => exact hstart.imp False.elim
      | before hissue =>
          rcases hrule.issues hgood hissue with
            ⟨-, hgood⟩ | ⟨s₂, visit, held, folder, listing, pl, i, item, hk₂, hready, hreach, -⟩
          · exact hgood.inv
          · exact (restBlock_of_reaches hstated hk₂ hready hreach).1.stays.imp False.elim
      | @call s₁ o a _ hissue hw =>
          rcases hrule.issues hgood hissue with
            ⟨hcall, hgood⟩ | ⟨s₂, visit, held, folder, listing, pl, i, item, hk₂, hready, hreach, -, hstep⟩
          · have hk₁ := hgood.inv
            cases hcall with
            | outward ho =>
                refine hk₁.call (effects_outward ho hw) ?_
                rintro l rfl
                exact keepsResting_of_reads ho
            | items hinv hready =>
                obtain ⟨pl, hreach, -, -⟩ := hw
                exact (restBlock_of_reaches hstated hinv hready hreach).1.stays.imp False.elim
            | advance | held =>
                refine @StaysResting.call _ _ _ _ deps out _ _ _ _ _ _ _ _ hk₁ hw fun l heq => ?_
                cases heq
            | concludes hc =>
                refine @StaysResting.call _ _ _ _ deps out _ _ _ (.ledger _) _ _ _ _ hk₁ hw fun l heq => ?_
                cases heq
                exact keepsResting_of_conclusion hc
          · obtain ⟨hb, hshared⟩ := restBlock_of_reaches hstated hk₂ hready hreach
            cases o with
            | mapItems =>
                cases hstep a with
                | item he => cases he with | asks ho => cases ho
            | _ => exact (hb.step hstated hshared (hstep a) hw).stays.imp False.elim

end Pass

end Ownpace.Sync
