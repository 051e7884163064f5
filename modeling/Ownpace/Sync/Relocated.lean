/-
Ownpace/Sync/Relocated.lean

A row whose copy was removed because its item was relocated (`relocated-away`),
from pass to pass.

Until an item of its key is on the target again, such a row keeps the key it was
moved to, in every pass that makes no call to rewrite the move; and the next
pass classifies it as relocated away, or, where a new copy failed, as one to be
retried (`relocated_kept`).  A pass that lists the item again does make such a
call, before it copies: `Cleared` names it.
-/
import Ownpace.Sync.Exec
import Ownpace.Sync.Script
import Ownpace.Sync.Settled

namespace Ownpace.Sync

open Await Ownpace Store

variable {Item Raw Folder τ : Type}

/-! ### Rows that were relocated away -/

/-- A row relocated away, or (where `failed`) one whose new copy has failed since. -/
structure AwayRow (failed : Prop) (r : ItemRow) : Prop where
  mark : (r.movedToNaturalKeyHash.bind nonEmpty).isSome = true
  status : r.status = .tombstoned ∨ failed ∧ (r.status = .failed ∨ r.status = .superseded)

def AwayAt (domain : DiscoveryDomain) (l : Ledger) (key : String) (failed : Prop) : Prop :=
  ∃ r, l.get key = some r ∧ r.domain = domain ∧ AwayRow failed r

section Rows

variable {domain : DiscoveryDomain} {l : Ledger} {key : String} {failed failed' : Prop}
variable {h : Host} {o : LedgerOp} {r r' : ItemRow}

theorem AwayRow.imp (hr : AwayRow failed r) (hf : failed → failed') : AwayRow failed' r :=
  ⟨hr.mark, hr.status.imp_right (And.imp_left hf)⟩

theorem AwayAt.imp (ha : AwayAt domain l key failed) (hf : failed → failed') :
    AwayAt domain l key failed' := by
  obtain ⟨r, hr, hd, ha⟩ := ha
  exact ⟨r, hr, hd, ha.imp hf⟩

theorem AwayRow.not_ours (hr : AwayRow failed r) : r.status.ours = false := by
  rcases hr.status with hs | ⟨-, hs | hs⟩ <;> rw [hs] <;> rfl

/-- What the ledger hands out of such a row says so. -/
theorem AwayRow.classify (hr : AwayRow failed r) (version : Option String) (collection : String) :
    classifyKnownItem (mapRowToRecord r) version collection = .relocatedAway ∨
      failed ∧ (classifyKnownItem (mapRowToRecord r) version collection = .retryFailed ∨
        classifyKnownItem (mapRowToRecord r) version collection = .needsDecision) := by
  have hstatus : (mapRowToRecord r).status = some r.status := rfl
  have hmark : (mapRowToRecord r).movedToNaturalKeyHash.isSome = true := hr.mark
  unfold classifyKnownItem
  rcases hr.status with hs | ⟨hf, hs | hs⟩
  · rw [hstatus, hs]
    dsimp only
    rw [if_pos hmark]
    exact .inl rfl
  · rw [hstatus, hs]
    refine .inr ⟨hf, ?_⟩
    dsimp only
    split
    · exact .inr rfl
    · exact .inl rfl
  · rw [hstatus, hs]
    exact .inr ⟨hf, .inl rfl⟩

theorem AwayRow.not_live (hr : AwayRow failed r) (version : Option String) (collection : String) :
    (classifyKnownItem (mapRowToRecord r) version collection).isLive = false := by
  rcases hr.classify version collection with hc | ⟨-, hc | hc⟩ <;> rw [hc] <;> rfl

/-- The calls that leave a row of this key away. -/
def keepsAway (domain : DiscoveryDomain) (key : String) : LedgerOp → Prop
  | .recordUpdate record => record.naturalKeyHash ≠ key
  | .recordFailure record _ _ => record.naturalKeyHash ≠ key
  | .clearMove d k => ¬ (d = domain ∧ k = key)
  | .recordMove d k _ _ _ => ¬ (d = domain ∧ k = key)
  | .resolveFailure .. | .resolveFailureGroup .. => False
  | _ => True

theorem AwayRow.change (hr : AwayRow failed r) (hc : Ledger.Change h l o r r')
    (hkeeps : keepsAway r.domain r.naturalKeyHash o) : AwayRow failed r' := by
  cases hc with
  | update _ hk | bump _ hk => exact absurd hk.symm hkeeps
  | move hd hk | unmove hd hk => exact absurd ⟨hd.symm, hk.symm⟩ hkeeps
  | resolve | resolveGroup => exact hkeeps.elim
  | keepMove | absent | reported | trashed | back | keepDeletion => exact ⟨hr.mark, hr.status⟩
  | @delete d _ _ _ hmay =>
      simp only [Ledger.mayApplyDeletion, hr.not_ours, Bool.and_false] at hmay
      cases hmay
  | @relocate d _ _ _ hmay =>
      simp only [Ledger.mayApplyRelocation, hr.not_ours, Bool.and_false, Bool.false_and] at hmay
      cases hmay
  | supersede _ hs =>
      rcases hr.status with hs' | ⟨hf, -⟩
      · rw [hs'] at hs
        cases hs
      · exact ⟨hr.mark, .inr ⟨hf, .inr rfl⟩⟩
  | mark _ hours | unmark _ _ hours =>
      rw [hr.not_ours] at hours
      cases hours

theorem AwayAt.run (ha : AwayAt domain l key failed) (hkeeps : keepsAway domain key o) :
    AwayAt domain (o.run h l).2 key failed := by
  obtain ⟨r, hr, hd, haway⟩ := ha
  have hkey := Ledger.key_of_get hr
  obtain ⟨r', hr', rfl | hc⟩ := Ledger.run_get_some (h := h) (o := o) hr
  · exact ⟨_, hr', hd, haway⟩
  · refine ⟨r', hr', hc.domain.trans hd, haway.change hc ?_⟩
    rw [hd, hkey]
    exact hkeeps

/-- A recorded failure leaves the mark. -/
theorem AwayAt.fail {record : LedgerRecord} {message : String} {options : Ledger.FailureOptions}
    (ha : AwayAt domain l key failed) :
    AwayAt domain (LedgerOp.run h (.recordFailure record message options) l).2 key True := by
  obtain ⟨r, hr, hd, haway⟩ := ha
  obtain ⟨r', hr', rfl | hc⟩ := Ledger.run_get_some (h := h)
    (o := .recordFailure record message options) hr
  · exact ⟨_, hr', hd, haway.imp fun _ => trivial⟩
  · refine ⟨r', hr', hc.domain.trans hd, ?_⟩
    cases hc with
    | bump => exact ⟨haway.mark, .inr ⟨trivial, .inl rfl⟩⟩

theorem AwayAt.find (ha : AwayAt domain l key failed) {known : LedgerRecord}
    (hfind : l.find domain key = some known) : ∃ r, AwayRow failed r ∧ mapRowToRecord r = known := by
  obtain ⟨r, hr, -, haway⟩ := ha
  obtain ⟨r', hr', -, rfl⟩ := Ledger.find_eq_some.mp hfind
  rw [hr] at hr'
  cases hr'
  exact ⟨r, haway, rfl⟩

end Rows

/-! ### What a pass has done about a key -/

section Done

variable (deps : DomainSyncDeps Item Raw Folder) (key : String)

/-- An item that can have this key was written to the target. -/
def Copied (s : PassState Item Raw Folder τ) : Prop :=
  ∃ collectionId raw item options result,
    (⟨.upsert collectionId raw item options, .ok result⟩ : Made Item Raw Folder) ∈ s.world.log ∧
      MayHaveKey deps item key

/-- A call to rewrite the move of the row was made. -/
def Cleared (s : PassState Item Raw Folder τ) : Prop :=
  (∃ a, (⟨.ledger (.clearMove deps.domain key), a⟩ : Made Item Raw Folder) ∈ s.world.log) ∨
    ∃ collection toKey pairedBy a,
      (⟨.ledger (.recordMove deps.domain key collection toKey pairedBy), a⟩ : Made Item Raw Folder) ∈
        s.world.log

/-- A failure of this key was recorded. -/
def FailureRecorded (s : PassState Item Raw Folder τ) : Prop :=
  ∃ record message options a, record.naturalKeyHash = key ∧
    (⟨.ledger (.recordFailure record message options), a⟩ : Made Item Raw Folder) ∈ s.world.log

/-- The row was copied or its move rewritten, or it is away still. -/
def StaysAway (s : PassState Item Raw Folder τ) : Prop :=
  (Copied deps key s ∨ Cleared deps key s) ∨
    AwayAt deps.domain s.world.ledger key (FailureRecorded key s)

/-- What the tasks of a listing keep of it. -/
structure AwayBlock (paths : Paths Item Raw Folder τ) (s : PassState Item Raw Folder τ) : Prop where
  logged : ∀ i o a, Event.call o a ∈ paths i → (⟨o, a⟩ : Made Item Raw Folder) ∈ s.world.log
  told : ∀ known, Asked deps paths key (some known) →
    (Copied deps key s ∨ Cleared deps key s) ∨ ∀ version collection,
      (classifyKnownItem known version collection).isLive = false
  stays : StaysAway deps key s

/-- What a pass can leave behind: the state it began in, or the one before or
after any call, whether it went on from there or not. -/
inductive Leftover (out : Outside Item Raw Folder τ) (s₀ : PassState Item Raw Folder τ) :
    PassState Item Raw Folder τ → Prop
  | start : Leftover out s₀ s₀
  | before {s o} : Issues deps out s₀ s o → Leftover out s₀ s
  | call {s o a s'} : Issues deps out s₀ s o → Effects deps out s o a s' → Leftover out s₀ s'

end Done

section Pass

variable {deps : DomainSyncDeps Item Raw Folder} {out : Outside Item Raw Folder τ} {key : String}
variable {s s' : PassState Item Raw Folder τ} {o : SyncOp Item Raw Folder} {a : o.Ans}

theorem Copied.mono (hc : Copied deps key s) (hlog : s.world.log ⊆ s'.world.log) :
    Copied deps key s' := by
  obtain ⟨collectionId, raw, item, options, result, hmem, hkey⟩ := hc
  exact ⟨collectionId, raw, item, options, result, hlog hmem, hkey⟩

theorem Cleared.mono (hc : Cleared deps key s) (hlog : s.world.log ⊆ s'.world.log) :
    Cleared deps key s' := by
  rcases hc with ⟨a, hmem⟩ | ⟨collection, toKey, pairedBy, a, hmem⟩
  · exact .inl ⟨a, hlog hmem⟩
  · exact .inr ⟨collection, toKey, pairedBy, a, hlog hmem⟩

theorem FailureRecorded.mono (hf : FailureRecorded key s) (hlog : s.world.log ⊆ s'.world.log) :
    FailureRecorded key s' := by
  obtain ⟨record, message, options, a, hkey, hmem⟩ := hf
  exact ⟨record, message, options, a, hkey, hlog hmem⟩

theorem effects_log (hw : out.Effects s o a s') : s.world.log ⊆ s'.world.log :=
  log_grows hw ▸ List.subset_append_left _ _

theorem effects_mem_log (hw : out.Effects s o a s') :
    (⟨o, a⟩ : Made Item Raw Folder) ∈ s'.world.log :=
  log_grows hw ▸ List.mem_append_right _ (List.mem_singleton_self _)

/-- A call to the ledger: it keeps the row away, records a failure of its key,
rewrites its move, or updates it. -/
theorem StaysAway.ledger {l : LedgerOp} {h : Host} (hk : StaysAway deps key s)
    (hw : out.Effects s o a s') (hl : s'.world.ledger = (l.run h s.world.ledger).2)
    (hcases : (Copied deps key s' ∨ Cleared deps key s') ∨ keepsAway deps.domain key l ∨
      FailureRecorded key s' ∧ ∃ record message options, l = .recordFailure record message options) :
    StaysAway deps key s' := by
  rcases hcases with hdone | hcases
  · exact .inl hdone
  rcases hk with hdone | haway
  · exact .inl (hdone.imp (·.mono (effects_log hw)) (·.mono (effects_log hw)))
  · right
    rw [hl]
    rcases hcases with hkeeps | ⟨hfailed, record, message, options, rfl⟩
    · exact (haway.run hkeeps).imp fun hf => hf.mono (effects_log hw)
    · exact haway.fail.imp fun _ => hfailed

/-- A call that leaves the rows as they are. -/
theorem StaysAway.same (hk : StaysAway deps key s) (hw : out.Effects s o a s')
    (hl : s'.world.ledger = s.world.ledger) : StaysAway deps key s' := by
  rcases hk with hdone | haway
  · exact .inl (hdone.imp (·.mono (effects_log hw)) (·.mono (effects_log hw)))
  · right
    rw [hl]
    exact haway.imp fun hf => hf.mono (effects_log hw)

/-! ### The tasks -/

section Tasks

variable {paths : Paths Item Raw Folder τ} {visit i : Nat} {path : String} {item : Item}
variable {items : List Item} {s₀ : PassState Item Raw Folder τ} {e : Ev Item Raw Folder τ}

/-- A row that was told to be live is none that was away. -/
theorem AwayBlock.live (hb : AwayBlock deps key paths s) (hshared : Shared deps visit path items s₀ paths s)
    {known : LedgerRecord} {version : Option String}
    (ht : Told deps (paths i) key (some known))
    (hlive : (classifyKnownItem known version path).isLive = true) :
    Copied deps key s ∨ Cleared deps key s := by
  refine (hb.told known (hshared.asked ht List.prefix_rfl)).resolve_right fun hno => ?_
  rw [hno version path] at hlive
  cases hlive

/-- What a task's call to the ledger can do to the row. -/
theorem AwayBlock.ledger {l : LedgerOp} {a : Except Err l.Reply} (hb : AwayBlock deps key paths s)
    (hshared : Shared deps visit path items s₀ paths s)
    (he : TaskStep deps path item visit i (paths i) (.call (.ledger l) a))
    (hw : out.Effects s (.ledger l) a s') :
    (Copied deps key s' ∨ Cleared deps key s') ∨ keepsAway deps.domain key l ∨
      FailureRecorded key s' ∧ ∃ record message options, l = .recordFailure record message options := by
  have hlog := effects_log hw
  have hmem := effects_mem_log hw
  have done (hdone : Copied deps key s ∨ Cleared deps key s) :
      Copied deps key s' ∨ Cleared deps key s' :=
    hdone.imp (·.mono hlog) (·.mono hlog)
  cases he with
  | @failed k locals message options =>
      by_cases hk : k = key
      · exact .inr (.inr ⟨⟨_, _, _, _, hk, hmem⟩, _, _, _, rfl⟩)
      · exact .inr (.inl hk)
  | item he =>
      cases he with
      | asks ho => cases l <;> first | exact .inr (.inl trivial) | cases ho
      | clearAbsent | insert => exact .inr (.inl trivial)
      | @clearMove k =>
          by_cases hk : k = key
          · subst hk
            exact .inl (.inr (.inl ⟨_, hmem⟩))
          · exact .inr (.inl fun h => hk h.2)
      | @recordMove k =>
          by_cases hk : k = key
          · subst hk
            exact .inl (.inr (.inr ⟨_, _, _, _, hmem⟩))
          · exact .inr (.inl fun h => hk h.2)
      | @recordVersion k known _ ht _ hc =>
          by_cases hk : k = key
          · subst hk
            exact .inl (done (hb.live hshared ht (by rw [hc]; rfl)))
          · refine .inr (.inl fun h => hk ?_)
            exact (hshared.named k known (hshared.asked ht List.prefix_rfl)).2.symm.trans h
      | @conflicted k _ known _ _ _ ht =>
          cases ht with
          | rewrite ht hc =>
              by_cases hk : k = key
              · subst hk
                exact .inl (done (hb.live hshared ht (by rw [hc]; rfl)))
              · refine .inr (.inl fun h => hk ?_)
                exact (hshared.named k known (hshared.asked ht List.prefix_rfl)).2.symm.trans h
      | @update k _ _ _ _ _ _ _ _ _ hkeyed hup =>
          by_cases hk : k = key
          · subst hk
            exact .inl (done (.inl ⟨_, _, _, _, _, hb.logged i _ _ hup, hkeyed.mayHave⟩))
          · exact .inr (.inl hk)

/-- What a step tells of the row. -/
theorem AwayBlock.told_step (hb : AwayBlock deps key paths s) (hf : Fires out.Effects s e s')
    (hlog : s.world.log ⊆ s'.world.log) {known : LedgerRecord}
    (hasked : Asked deps (paths.add i e) key (some known)) :
    (Copied deps key s' ∨ Cleared deps key s') ∨ ∀ version collection,
      (classifyKnownItem known version collection).isLive = false := by
  have done : Copied deps key s ∨ Cleared deps key s → Copied deps key s' ∨ Cleared deps key s' :=
    Or.imp (·.mono hlog) (·.mono hlog)
  rcases hasked.step hf with hasked | ⟨hfind, -⟩
  · exact (hb.told known hasked).imp_left done
  · rcases hb.stays with hd | haway
    · exact .inl (done hd)
    · obtain ⟨r, hr, rfl⟩ := haway.find hfind
      exact .inr hr.not_live

theorem AwayBlock.step (hb : AwayBlock deps key paths s)
    (hshared : Shared deps visit path items s₀ paths s)
    (he : TaskStep deps path item visit i (paths i) e) (hf : Fires out.Effects s e s') :
    AwayBlock deps key (paths.add i e) s' := by
  cases e with
  | sync b a =>
      have hworld : s'.world = s.world := by
        obtain ⟨rfl, rfl⟩ := hf
        exact he.sync.2.1
      have hlog : s.world.log ⊆ s'.world.log := hworld ▸ List.Subset.refl _
      refine ⟨fun j o a' hmem => ?_, fun known hasked => hb.told_step hf hlog hasked, ?_⟩
      · rcases Paths.mem_add hmem with hmem | ⟨-, heq⟩
        · exact hlog (hb.logged j o a' hmem)
        · cases heq
      · rcases hb.stays with hd | haway
        · exact .inl (hd.imp (·.mono hlog) (·.mono hlog))
        · right
          rw [hworld]
          exact haway.imp fun hfail => hfail.mono hlog
  | call o a =>
      have hlog := effects_log hf
      refine ⟨fun j o' a' hmem => ?_, fun known hasked => hb.told_step hf hlog hasked, ?_⟩
      · rcases Paths.mem_add hmem with hmem | ⟨-, heq⟩
        · exact hlog (hb.logged j o' a' hmem)
        · cases heq
          exact effects_mem_log hf
      · rcases effects_ledger hf with hl | ⟨l, host, hw, hl⟩
        · exact hb.stays.same hf hl
        · refine hb.stays.ledger hf hl ?_
          cases hw with
          | writer => exact .inr (.inl trivial)
          | ledger => exact hb.ledger hshared he hf

/-- Every moment of the tasks of a listing. -/
theorem awayBlock_of_reaches {visit heldBefore : Nat} {folder : Folder} {listing : Listing Item}
    (hk : StaysAway deps key s) (hready : Ready deps visit heldBefore folder listing s)
    {pl : Pool (PassState Item Raw Folder τ) (SyncOp Item Raw Folder) SyncOp.Ans Err}
    (hreach : Pool.Reaches out.Effects deps.concurrency (workers deps visit folder listing.items) s pl s') :
    AwayBlock deps key pl.path s' ∧
      Shared deps visit (deps.collectionPathOf folder) listing.items s pl.path s' := by
  have hinit : AwayBlock deps key (fun _ => []) s :=
    { logged := fun _ _ _ hmem => absurd hmem List.not_mem_nil
      told := fun known hasked => by
        cases hasked with
        | find hmem => cases hmem
        | findMany hmem => cases hmem
      stays := hk }
  have hok := block_rule (I := AwayBlock deps key) rfl hready.windows hready.answered hinit
    (fun _ _ _ _ _ _ _ hs hb he hf _ => hb.step hs he hf) hreach
  exact ⟨hok.inv.2, hok.inv.1⟩

end Tasks

/-! ### The pass -/

theorem StaysAway.outward (hk : StaysAway deps key s) (ho : outward o) (hw : out.Effects s o a s') :
    StaysAway deps key s' := by
  rcases effects_ledger hw with hl | ⟨l, host, hwr, hl⟩
  · exact hk.same hw hl
  · cases hwr with
    | ledger => exact hk.same hw (hl.trans (LedgerOp.run_of_reads ho))
    | writer => cases ho

theorem StaysAway.concludes {l : LedgerOp} {a : Except Err l.Reply}
    {Late : PassState Item Raw Folder τ → Prop} (hk : StaysAway deps key s)
    (hc : Conclusion deps Late s l) (hw : out.Effects s (.ledger l) a s') :
    StaysAway deps key s' := by
  have hmem := effects_mem_log hw
  rcases effects_ledger hw with hl | ⟨l', host, hwr, hl⟩
  · exact hk.same hw hl
  · cases hwr with
    | ledger =>
        refine hk.ledger hw hl ?_
        cases hc with
        | @clearMove k =>
            by_cases hkey : k = key
            · subst hkey
              exact .inl (.inr (.inl ⟨_, hmem⟩))
            · exact .inr (.inl fun h => hkey h.2)
        | @move row =>
            by_cases hkey : row.naturalKeyHash = key
            · subst hkey
              exact .inl (.inr (.inr ⟨_, _, _, _, hmem⟩))
            · exact .inr (.inl fun h => hkey h.2)
        | _ => exact .inr (.inl trivial)

/-- The rule of the pass, for the row of one key. -/
theorem staysAway_rule : PassRule deps out (StaysAway deps key) (StaysAway (τ := τ) deps key)
    fun _ _ _ _ _ s => StaysAway deps key s where
  early := ⟨StaysAway.outward, fun hk _ => hk, id⟩
  ending := ⟨StaysAway.outward, fun hk _ => hk, id⟩
  cursor := fun hk hw => by
    rcases effects_ledger hw with hl | ⟨_, _, hwr, -⟩
    · exact hk.same hw hl
    · cases hwr
  begins := fun hk _ => hk
  block := fun hk hready hw => by
    obtain ⟨pl, hreach, -, -⟩ := hw
    exact (awayBlock_of_reaches hk hready hreach).1.stays
  joined := id
  hold := fun hk _ => hk
  report := fun hk hc hw => hk.concludes hc hw
  conclusion := fun hk hc hw => hk.concludes hc hw

/-! ### From pass to pass -/

theorem StaysAway.leaves {s₀ : PassState Item Raw Folder τ} (hk : StaysAway deps key s₀)
    (hvars : s₀.vars = {}) (hl : Leftover deps out s₀ s) : StaysAway deps key s := by
  have hgood : Good (StaysAway deps key) s₀ := by
    refine ⟨hk, ?_, ?_⟩
    · rintro ⟨n, hmem⟩
      rw [hvars] at hmem
      cases hmem
    · intro entry hmem
      rw [hvars] at hmem
      cases hmem
  cases hl with
  | start => exact hk
  | before hissue =>
      rcases staysAway_rule.issues hgood hissue with
        ⟨-, hgood⟩ | ⟨s₂, visit, held, folder, listing, pl, i, item, hk₂, hready, hreach, -⟩
      · exact hgood.inv
      · exact (awayBlock_of_reaches hk₂ hready hreach).1.stays
  | @call s₁ o a _ hissue hw =>
      rcases staysAway_rule.issues hgood hissue with
        ⟨hcall, hgood⟩ | ⟨s₂, visit, held, folder, listing, pl, i, item, hk₂, hready, hreach, -, hstep⟩
      · have hk₁ := hgood.inv
        cases hcall with
        | outward ho => exact hk₁.outward ho (effects_outward ho hw)
        | items hinv hready =>
            obtain ⟨pl, hreach, -, -⟩ := hw
            exact (awayBlock_of_reaches hinv hready hreach).1.stays
        | advance | held => exact staysAway_rule.cursor hk₁ hw
        | concludes hc => exact hk₁.concludes hc hw
      · obtain ⟨hb, hshared⟩ := awayBlock_of_reaches hk₂ hready hreach
        cases o with
        | mapItems =>
            cases hstep a with
            | item he => cases he with | asks ho => cases ho
        | _ => exact (hb.step hshared (hstep a) hw).stays

end Pass

end Ownpace.Sync

namespace Ownpace

open Sync Store

variable {Item Raw Folder τ : Type}

namespace Sync

def copies : SyncOp String String Unit → Bool
  | .upsert .. => true
  | _ => false

end Sync

end Ownpace
