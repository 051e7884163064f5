/-
Ownpace/Sync/Cursor.lean

When a pass advances a cursor, what has become of the items it was listed for.

`ExitOk` says what each way out of a task is worth once all tasks of its
listing have ended; the cursor decision excludes those that are worth nothing
but one, the failure of an item whose key was never learnt.  `Safe` is what is
left: every item has left, and by an exit that settles its row.  It outlives
the rest of the pass, up to a failure noted of the same key.
-/
import Ownpace.Sync.Exec
import Ownpace.Sync.Script
import Ownpace.Sync.Settled

namespace Ownpace.Sync

open Await Ownpace

variable {Item Raw Folder τ : Type} {deps : DomainSyncDeps Item Raw Folder}
variable {out : Outside Item Raw Folder τ} {s s' : PassState Item Raw Folder τ}

/-! ### What an exit is worth -/

/-- What an exit is worth, where `heldBefore` items were held at the ceiling
before the listing. -/
def ExitOk (deps : DomainSyncDeps Item Raw Folder) (heldBefore : Nat) (item : Item)
    (s : PassState Item Raw Folder τ) : Exit → Prop
  | .notTakenUp | .outOfBudget _ => s.vars.paused = true
  | .heldAtCeiling _ => heldBefore < s.vars.heldAtCeiling
  | .failedKeyless => True
  | .failed key false => NotedFailure key s.vars
  | .known key _ | .conflicted key | .written key | .failed key true =>
      MayHaveKey deps item key ∧ Accounted deps s key

/-- Every item of a listing has left, and how. -/
structure Leaves (deps : DomainSyncDeps Item Raw Folder) (visit heldBefore : Nat)
    (items : List Item) (s : PassState Item Raw Folder τ) : Prop where
  left : ∀ i item, items[i]? = some item → ∃ exit, ⟨visit, i, exit⟩ ∈ s.vars.left
  exits : ∀ entry ∈ s.vars.left, entry.visit = visit →
    ∃ item, items[entry.index]? = some item ∧ ExitOk deps heldBefore item s entry.exit

section Block

variable {visit i : Nat} {path : String} {items : List Item} {item : Item}
variable {s₀ : PassState Item Raw Folder τ}
variable {pl : Pool (PassState Item Raw Folder τ) (SyncOp Item Raw Folder) SyncOp.Ans Err}
variable {h : Path Item Raw Folder τ} {exit : Exit} {heldBefore : Nat}

/-- What an item's way out comes to at the end of the tasks. -/
theorem exitOk_of_ends (hshared : Shared deps visit path items s₀ pl.path s)
    (hset : Settles deps s₀ pl.path s)
    (hends : ∀ i item, items[i]? = some item →
      TaskEnds deps path item visit i (pl.path i) (.ok ()))
    (hheld : heldBefore ≤ s₀.vars.heldAtCeiling) (hi : items[i]? = some item)
    (hpre : h <+: pl.path i) (hend : ItemEnds deps path item h exit) :
    ExitOk deps heldBefore item s exit := by
  have done {key : String} (hk : Kept deps pl.path s key) : Accounted deps s key :=
    hk.accounted hshared hends
  cases exit with
  | notTakenUp => exact hshared.stopped hend.1 hpre
  | known key action =>
      obtain ⟨hmay, -, known, ht, hc, hretry, -⟩ := hend
      have hsettled : isSettled known = true := isSettled_of_classify (hc ▸ hretry)
      exact ⟨hmay, done (hset.told key known (hshared.asked ht hpre) hsettled)⟩
  | heldAtCeiling key =>
      obtain ⟨-, -, -, b, a, hmem, hlt⟩ := hend
      have hb := (hshared.began i b a (hpre.subset hmem)).held
      have ha := (hshared.grows i b a (hpre.subset hmem)).held
      exact Nat.lt_of_le_of_lt (Nat.le_trans hheld hb) (Nat.lt_of_lt_of_le hlt ha)
  | outOfBudget key => exact hshared.saw hend.2.1 hpre fun _ _ hg hp => hg.paused hp
  | conflicted key =>
      obtain ⟨hmay, -, known, targetId, row, hup, hmem⟩ := hend
      have hname : known.naturalKeyHash = key := by
        cases hup with | rewrite ht => exact (hshared.named key known (hshared.asked ht hpre)).2
      have hk := hset.updated i _ row (hpre.subset hmem)
      exact ⟨hmay, hname ▸ done hk⟩
  | written key =>
      obtain ⟨hmay, -, -, record, row, hkey, hmem⟩ := hend
      refine ⟨hmay, hkey ▸ done ?_⟩
      rcases hmem with hmem | hmem
      · exact hset.updated i record row (hpre.subset hmem)
      · exact hset.inserted i record row (hpre.subset hmem)
  | failedKeyless => trivial
  | failed key parked =>
      obtain ⟨hmay, -, record, message, options, row, hmem, hkey, rfl⟩ := hend
      have hmem := hpre.subset hmem
      cases hp : isParked options.park row with
      | true => exact ⟨hmay, hkey ▸ done (hset.failed i record message options _ hmem)⟩
      | false =>
          obtain ⟨row', heq, hp' | hn⟩ := (hends i item hi).1 record message options _ hmem
          · cases heq
            rw [hp] at hp'
            cases hp'
          · exact hkey ▸ hshared.saw hn List.prefix_rfl fun _ _ hg hn => hn.mono hg

/-- **At the end of the tasks of a listing**, every item has left by an exit
that is worth what it says, and what was accounted for still is. -/
theorem leaves_of_block {folder : Folder} {listing : Listing Item}
    (hrec : Outside.RecordsCopies out) (hready : Ready deps visit heldBefore folder listing s)
    (hw : Effects deps out s (.mapItems visit folder listing.items) (.ok ()) s') :
    Leaves deps visit heldBefore listing.items s' ∧ Grows s.vars s'.vars ∧
      (∀ entry ∈ s'.vars.left, entry ∈ s.vars.left ∨
        entry.visit = visit ∧ ∃ item, listing.items[entry.index]? = some item) ∧
      ∀ key, Accounted deps s key → Accounted deps s' key := by
  obtain ⟨pl, hreach, hjoin, hres⟩ := hw
  have hok := block_rule (I := Settles deps s) rfl hready.windows hready.answered (.init s)
    (fun _ _ _ _ _ _ _ hs hset he hf _ => hset.step hrec hs he hf) hreach
  obtain ⟨hshared, hset⟩ := hok.inv
  have hends : ∀ i item, listing.items[i]? = some item →
      TaskEnds deps (deps.collectionPathOf folder) item visit i (pl.path i) (.ok ()) :=
    fun _ _ hi => block_joined hok hjoin hres.symm hi
  refine ⟨⟨fun i item hi => ?_, fun entry hmem hv => ?_⟩, hshared.grown, fun entry hmem => ?_,
    fun key ha => (hset.before key ha).accounted hshared hends⟩
  · obtain ⟨-, h₀, b, exit, -, hpath⟩ := hends i item hi
    have hmem := hshared.grows i b { b with
      vars := { b.vars with left := b.vars.left ++ [⟨visit, i, exit⟩] } } (by simp [hpath])
    exact ⟨exit, hmem.left (by simp)⟩
  · rcases hshared.left entry hmem with hold | ⟨-, item, h, hi, hpre, hend⟩
    · exact absurd hv (Nat.ne_of_lt (hready.left entry hold))
    · exact ⟨item, hi, exitOk_of_ends hshared hset hends hready.held hi hpre hend⟩
  · exact (hshared.left entry hmem).imp id fun ⟨hv, item, _, hi, _⟩ => ⟨hv, item, hi⟩

end Block

/-! ### From the decision on -/

/-- Every item of this listing has left, and by an exit that settles its row or
without its key being known.  A row is accounted for where it is done with, or
where a failure of the same key was noted since. -/
structure Safe (deps : DomainSyncDeps Item Raw Folder) (visit : Nat) (listing : Visit Item)
    (s : PassState Item Raw Folder τ) : Prop where
  listed : s.vars.listed[visit]? = some listing
  left : ∀ i item, listing.items[i]? = some item → ∃ exit, ⟨visit, i, exit⟩ ∈ s.vars.left
  exits : ∀ entry ∈ s.vars.left, entry.visit = visit → entry.exit = .failedKeyless ∨
    ∃ item key, listing.items[entry.index]? = some item ∧ entry.exit.settles = some key ∧
      MayHaveKey deps item key ∧ Accounted deps s key

/-- What a pass does between a cursor's decision and its being set. -/
structure Onward (deps : DomainSyncDeps Item Raw Folder) (s s' : PassState Item Raw Folder τ) :
    Prop where
  held : s'.vars.cursorsHeldForRemovals = s.vars.cursorsHeldForRemovals
  listed : ∀ (visit : Nat) (listing : Visit Item), s.vars.listed[visit]? = some listing →
    s'.vars.listed[visit]? = some listing
  left : s.vars.left ⊆ s'.vars.left
  closed : ∀ (visit : Nat) (listing : Visit Item), s.vars.listed[visit]? = some listing →
    (∀ i item, listing.items[i]? = some item → ∃ exit, ⟨visit, i, exit⟩ ∈ s.vars.left) →
    ∀ entry ∈ s'.vars.left, entry.visit = visit → entry ∈ s.vars.left
  accounted : ∀ key, Accounted deps s key → Accounted deps s' key

theorem Safe.onward {visit : Nat} {listing : Visit Item} (h : Safe deps visit listing s)
    (ho : Onward deps s s') : Safe deps visit listing s' where
  listed := ho.listed visit listing h.listed
  left := fun i item hi => (h.left i item hi).imp fun _ hmem => ho.left hmem
  exits := by
    intro entry hmem hv
    refine (h.exits entry (ho.closed visit listing h.listed h.left entry hmem hv) hv).imp id ?_
    rintro ⟨item, key, hi, hkey, hmay, ha⟩
    exact ⟨item, key, hi, hkey, hmay, ho.accounted key ha⟩

theorem Safe.holdCursor {visit : Nat} {listing : Visit Item} {path cursor : String}
    (h : Safe deps visit listing s) :
    Safe deps visit listing { s with vars := holdCursor path cursor s.vars } :=
  ⟨h.listed, h.left, h.exits⟩

/-- The cursors that wait for the removals are safe to set. -/
def HeldSafe (deps : DomainSyncDeps Item Raw Folder) (s : PassState Item Raw Folder τ) : Prop :=
  ∀ path cursor, (path, cursor) ∈ s.vars.cursorsHeldForRemovals → ∃ visit listing,
    Safe deps visit listing s ∧ listing.collection = path ∧ listing.nextCursor = cursor

theorem HeldSafe.onward (h : HeldSafe deps s) (ho : Onward deps s s') : HeldSafe deps s' := by
  intro path cursor hmem
  rw [ho.held] at hmem
  obtain ⟨visit, listing, hsafe, hlisting⟩ := h path cursor hmem
  exact ⟨visit, listing, hsafe.onward ho, hlisting⟩

/-- A step that leaves the variables, and settles no row less. -/
theorem onward_of_ledger (hv : s'.vars = s.vars)
    (hs : ∀ key, SettledAt deps.domain s.world.ledger key →
      SettledAt deps.domain s'.world.ledger key) : Onward deps s s' where
  held := by rw [hv]
  listed := fun _ _ h => by rw [hv]; exact h
  left := by rw [hv]; exact List.Subset.refl _
  closed := fun _ _ _ _ entry hmem _ => hv ▸ hmem
  accounted := fun key ha => ha.imp (hs key) fun hn => hv.symm ▸ hn

theorem onward_outward {o : SyncOp Item Raw Folder} {a : o.Ans} (ho : outward o)
    (hw : out.Effects s o a s') : Onward deps s s' := by
  refine onward_of_ledger (effects_vars hw) fun key hset => ?_
  rcases effects_ledger hw with hl | ⟨o', host, hwr, hl⟩
  · exact hl ▸ hset
  · cases hwr with
    | ledger => exact (hl.trans (LedgerOp.run_of_reads ho)) ▸ hset
    | writer => cases ho

theorem onward_of_grows {v : Vars Item} (hg : Grows s.vars v) (hl : v.left = s.vars.left) :
    Onward deps s { s with vars := v } where
  held := hg.cursorsHeld
  listed := fun _ _ h => by rw [hg.listed]; exact h
  left := hg.left
  closed := fun _ _ _ _ entry hmem _ => hl ▸ hmem
  accounted := fun key ha => ha.imp id fun hn => hn.mono hg

theorem onward_beginVisit {path : String} {listing : Listing Item} :
    Onward deps s { s with vars := (beginVisit deps path listing s.vars).1 } where
  held := rfl
  listed := fun n v h => by
    simp only [beginVisit]
    rw [List.getElem?_append_left (List.getElem?_eq_some_iff.mp h).1]
    exact h
  left := List.Subset.refl _
  closed := fun _ _ _ _ _ hmem _ => hmem
  accounted := fun _ ha => ha

section Decision

variable {visit heldBefore : Nat} {folder : Folder} {prev : Option String} {listing : Listing Item}

/-- The listing is over, all of its items having left; the rest is as before. -/
structure Joined (deps : DomainSyncDeps Item Raw Folder) (visit heldBefore : Nat)
    (folder : Folder) (_prev : Option String) (listing : Listing Item)
    (s : PassState Item Raw Folder τ) : Prop where
  inv : HeldSafe deps s
  listed : s.vars.listed[visit]? =
    some ⟨deps.collectionPathOf folder, listing.items, listing.nextCursor⟩
  leaves : Leaves deps visit heldBefore listing.items s

theorem onward_block (hrec : Outside.RecordsCopies out)
    (hready : Ready deps visit heldBefore folder listing s)
    (hw : Effects deps out s (.mapItems visit folder listing.items) (.ok ()) s') :
    Onward deps s s' := by
  obtain ⟨-, hg, hleft, hacc⟩ := leaves_of_block hrec hready hw
  refine ⟨hg.cursorsHeld, fun _ _ h => by rw [hg.listed]; exact h, hg.left, ?_, hacc⟩
  intro n v hlisted hall entry hmem hv
  rcases hleft entry hmem with hold | ⟨hvisit, item, hi⟩
  · exact hold
  · -- a listing all of whose items have left is not the one under way
    subst hv
    rw [hvisit, hready.listed] at hlisted
    cases hlisted
    obtain ⟨exit, hmem'⟩ := hall entry.index item hi
    exact absurd (hready.left _ hmem') (by rw [hvisit]; exact Nat.lt_irrefl _)

/-- What the decision rules out. -/
theorem Joined.safe (h : Joined deps visit heldBefore folder prev listing s)
    (hmay : mayAdvance deps prev listing heldBefore s.vars = true) :
    Safe deps visit ⟨deps.collectionPathOf folder, listing.items, listing.nextCursor⟩ s := by
  simp only [mayAdvance, Bool.and_eq_true, Bool.not_eq_true', decide_eq_true_eq] at hmay
  obtain ⟨⟨⟨⟨-, hretry⟩, hpaused⟩, -⟩, hheld⟩ := hmay
  refine ⟨h.listed, h.leaves.left, fun entry hmem hv => ?_⟩
  obtain ⟨item, hi, hok⟩ := h.leaves.exits entry hmem hv
  obtain ⟨v, i, exit⟩ := entry
  cases exit with
  | notTakenUp | outOfBudget key =>
      have hok : s.vars.paused = true := hok
      rw [hpaused] at hok
      cases hok
  | heldAtCeiling key => exact absurd hok (Nat.not_lt.mpr hheld)
  | failedKeyless => exact .inl rfl
  | known key action => exact .inr ⟨item, key, hi, rfl, hok⟩
  | conflicted key => exact .inr ⟨item, key, hi, rfl, hok⟩
  | written key => exact .inr ⟨item, key, hi, rfl, hok⟩
  | failed key parked =>
      cases parked with
      | true => exact .inr ⟨item, key, hi, rfl, hok⟩
      | false =>
          obtain ⟨f, hf, -, hneeds⟩ := hok
          have hpending : s.vars.retryablePending = true :=
            List.any_eq_true.mpr ⟨f, hf, by rw [hneeds]; rfl⟩
          rw [hretry] at hpending
          cases hpending

end Decision

/-- The invariant of the pass: the cursors that wait are safe to set. -/
theorem heldSafe_rule (hrec : Outside.RecordsCopies out) :
    PassRule deps out (HeldSafe deps) (fun _ => True) (Joined (τ := τ) deps) where
  early :=
    { call := fun hi ho hw => hi.onward (onward_outward ho hw)
      vars := fun hi hidle => hi.onward (onward_of_grows hidle.grows hidle.left)
      late := fun _ => trivial }
  ending := ⟨fun _ _ _ => trivial, fun _ _ => trivial, fun _ => trivial⟩
  cursor := fun hi hw => hi.onward <| onward_of_ledger (effects_vars hw) fun key hset => by
    rcases effects_ledger hw with hl | ⟨o', host, hwr, -⟩
    · exact hl ▸ hset
    · cases hwr
  begins := fun hi _ => hi.onward onward_beginVisit
  block := fun hi hready hw =>
    { inv := hi.onward (onward_block hrec hready hw)
      listed := (onward_block hrec hready hw).listed _ _ hready.listed
      leaves := (leaves_of_block hrec hready hw).1 }
  joined := Joined.inv
  hold := fun {s visit heldBefore folder prev listing} hj hmay path cursor hmem => by
    rcases List.mem_append.mp hmem with hmem | hmem
    · obtain ⟨n, l, hsafe, hl⟩ := hj.inv path cursor hmem
      exact ⟨n, l, hsafe.holdCursor, hl⟩
    · obtain ⟨rfl, rfl⟩ := Prod.mk.inj (List.mem_singleton.mp hmem)
      exact ⟨visit, _, (hj.safe hmay).holdCursor, rfl, rfl⟩
  report := fun hi _ hw => hi.onward <| onward_of_ledger (effects_vars hw) fun key hset => by
    rcases effects_ledger hw with hl | ⟨o', host, hwr, hl⟩
    · exact hl ▸ hset
    · cases hwr
      exact hl ▸ hset.run trivial
  conclusion := fun _ _ _ => trivial

end Ownpace.Sync

namespace Ownpace

open Sync

variable {Item Raw Folder τ : Type} {deps : DomainSyncDeps Item Raw Folder}
variable {out : Outside Item Raw Folder τ} {s₀ s : PassState Item Raw Folder τ}

/-- **Where a cursor is advanced**, at once or after the removals were read, and
no item of its listing failed before its natural key was known: every item has
left, every one by an exit that settles a row of its own, and every such row is
done with, unless a failure of the same key was noted in another listing. -/
theorem cursor_past_settled (hrec : Outside.RecordsCopies out) (hstart : s₀.vars = {})
    {path cursor : String} (hset : Issues deps out s₀ s (.cursorSet path cursor)) :
    ∃ visit listing, s.vars.listed[visit]? = some listing ∧ listing.collection = path ∧
      listing.nextCursor = cursor ∧
      ((∀ entry ∈ s.vars.left, entry.visit = visit → entry.exit ≠ .failedKeyless) →
        (∀ i item, listing.items[i]? = some item → ∃ exit, ⟨visit, i, exit⟩ ∈ s.vars.left) ∧
        (∀ entry ∈ s.vars.left, entry.visit = visit → ∃ item key,
          listing.items[entry.index]? = some item ∧ entry.exit.settles = some key ∧
          MayHaveKey deps item key ∧
          ((∀ item ∈ listing.items, MayHaveKey deps item key → ¬ NotedFailure key s.vars) →
            SettledAt deps.domain s.world.ledger key))) := by
  have hgood : Good (HeldSafe deps) s₀ := by
    refine ⟨?_, ?_, ?_⟩
    · intro path cursor hmem
      rw [hstart] at hmem
      cases hmem
    · rintro ⟨n, hmem⟩
      rw [hstart] at hmem
      cases hmem
    · intro entry hmem
      rw [hstart] at hmem
      cases hmem
  suffices hsafe : ∃ visit listing, Safe deps visit listing s ∧ listing.collection = path ∧
      listing.nextCursor = cursor by
    obtain ⟨visit, listing, hsafe, hpath, hcursor⟩ := hsafe
    refine ⟨visit, listing, hsafe.listed, hpath, hcursor, fun hkeyed => ⟨hsafe.left, ?_⟩⟩
    intro entry hmem hv
    obtain ⟨item, key, hi, hkey, hmay, ha⟩ :=
      (hsafe.exits entry hmem hv).resolve_left (hkeyed entry hmem hv)
    refine ⟨item, key, hi, hkey, hmay, fun hno => ha.resolve_right ?_⟩
    exact hno item (List.mem_of_getElem? hi) hmay
  rcases (heldSafe_rule hrec).issues hgood hset with ⟨hcall, -⟩ | ⟨_, _, _, _, _, _, _, _, -, -, -, -, hstep⟩
  · cases hcall with
    | outward ho => cases ho
    | advance hj hmay => exact ⟨_, _, hj.safe hmay, rfl, rfl⟩
    | held hi hmem => exact hi path cursor hmem
  · cases hstep (.ok ()) with
    | item he => cases he with | asks ho => cases ho

/-! ### A calendar of one event, keyed by its bytes -/

def eventDeps : DomainSyncDeps Unit String Unit where
  domain := .calendar
  cursors := true
  folderPath := fun _ => some "home"
  naturalKey := fun _ => none
  naturalKeyFromRaw := some fun _ raw => .ok raw
  contentHash := fun raw => .ok raw
  sourceIsAuthorityOnExistence := true

/-- The source lists the event and answers its fetch like this; the target
takes what it is given. -/
def eventWorld (fetched : Except Err (Fetched String)) :
    Unit → (o : SyncOp Unit String Unit) → Option (o.Ans × Unit)
  | t, .now => some (.ok 0, t)
  | t, .listFolders => some (.ok [()], t)
  | t, .listSince .. => some (.ok { items := [()], nextCursor := "next" }, t)
  | t, .fetchRaw _ => some (fetched, t)
  | t, .ensureCollection _ => some (.ok "calendar", t)
  | t, .upsert .. => some (.ok { targetId := "copy", created := true }, t)
  | _, _ => none

def eventHost : Host := ⟨0, fun _ _ => .unknown⟩

def setsCursor : SyncOp Unit String Unit → Bool
  | .cursorSet path cursor => path = "home" && cursor = "next"
  | _ => false

theorem setsCursor_iff {o : SyncOp Unit String Unit} :
    setsCursor o = true ↔ o = .cursorSet "home" "next" := by
  constructor
  · intro h
    cases o with
    | cursorSet path cursor =>
        simp only [setsCursor, Bool.and_eq_true, decide_eq_true_eq] at h
        rw [h.1, h.2]
    | _ => cases h
  · rintro rfl
    rfl

/-- Was one item listed, and has it left like this? -/
def leftBy (exit : Exit) (s : PassState Unit String Unit Unit) : Bool :=
  s.vars.left = [⟨0, 0, exit⟩] && s.vars.listed.all fun listing => listing.items.length = 1

/-- The pass gets to its cursor, and the one item has left like this. -/
theorem sets_cursor_after {f : Except Err (Fetched String)} {e : Exit}
    (h : finds eventHost (eventWorld f) eventDeps setsCursor (leftBy e) (newPass ()) = true) :
    ∃ s, Issues eventDeps (Outside.ofAnswer (eventWorld f)) (newPass ()) s
      (.cursorSet "home" "next") ∧ s.vars.left = [⟨0, 0, e⟩] ∧
      ∀ listing ∈ s.vars.listed, listing.items.length = 1 := by
  obtain ⟨s, o, hissues, ho, hcheck⟩ := issues_of_finds h
  simp only [leftBy, Bool.and_eq_true, decide_eq_true_eq, List.all_eq_true] at hcheck
  exact ⟨s, setsCursor_iff.mp ho ▸ hissues, hcheck⟩

theorem cursor_past_settled_event :
    ∃ s, Issues eventDeps (Outside.ofAnswer (eventWorld (.ok ⟨"event", 5⟩))) (newPass ()) s
        (.cursorSet "home" "next") ∧
      ∃ visit listing, s.vars.listed[visit]? = some listing ∧ listing.collection = "home" ∧
        ∀ i item, listing.items[i]? = some item → ∃ exit, ⟨visit, i, exit⟩ ∈ s.vars.left := by
  obtain ⟨s, hissues, hleft, -⟩ := sets_cursor_after (f := .ok ⟨"event", 5⟩)
    (e := .written "event") (by decide +kernel)
  obtain ⟨visit, listing, hlisted, hpath, -, hsafe⟩ := cursor_past_settled
    (fun _ _ _ _ _ h => False.elim h) rfl hissues
  refine ⟨s, hissues, visit, listing, hlisted, hpath, (hsafe fun entry hmem _ => ?_).1⟩
  rw [hleft, List.mem_singleton] at hmem
  rw [hmem]
  exact nofun

/-- The fetch of the event fails, and the cursor moves past it. -/
theorem cursor_passes_keyless_failure :
    ¬ ∀ s path cursor, Issues eventDeps
        (Outside.ofAnswer (eventWorld (.error { message := "timeout" }))) (newPass ()) s
        (.cursorSet path cursor) →
      ∃ visit listing, s.vars.listed[visit]? = some listing ∧ listing.collection = path ∧
        listing.nextCursor = cursor ∧ ∀ i item, listing.items[i]? = some item →
          ∃ exit key, ⟨visit, i, exit⟩ ∈ s.vars.left ∧ exit.settles = some key ∧
            SettledAt .calendar s.world.ledger key := by
  intro hall
  obtain ⟨s, hissues, hleft, hone⟩ := sets_cursor_after (f := .error { message := "timeout" })
    (e := .failedKeyless) (by decide +kernel)
  obtain ⟨visit, listing, hlisted, -, -, hitems⟩ := hall s _ _ hissues
  obtain ⟨item, hitem⟩ := List.length_eq_one_iff.mp (hone listing (List.mem_of_getElem? hlisted))
  obtain ⟨exit, key, hmem, hkey, -⟩ := hitems 0 item (by rw [hitem]; rfl)
  rw [hleft, List.mem_singleton] at hmem
  cases hmem
  cases hkey

end Ownpace
