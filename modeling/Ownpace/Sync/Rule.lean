/-
Ownpace/Sync/Rule.lean

The rule of the pass.

`PassCall` lists every call the pass itself makes, with what holds when it
makes it; `Conclusion` those of the end of the pass that write to the ledger.
`PassRule` is what an invariant of the pass has to satisfy: it outlives the
calls that write nothing and the steps that only move the pass on, and the
tasks of a listing establish what the cursor is decided by.  Once the cursors
are set a weaker one may take over (`Late`), which every conclusion keeps.  The
script of the pass is walked here once, under any such invariants
(`PassRule.run`); a claim about passes instantiates the rule.
-/
import Ownpace.Await.Triple
import Ownpace.Sync.Block

namespace Ownpace.Sync

open Await Ownpace

variable {Item Raw Folder τ : Type}

/-! ### What a pass does between the tasks of its listings -/

/-- A step on the variables that takes nothing back and is about no item. -/
structure Idle (v w : Vars Item) : Prop where
  grows : Grows v w
  left : w.left = v.left
  windows : w.windows = v.windows ∨ w.windows = []

theorem Idle.refl (v : Vars Item) : Idle v v := ⟨.refl v, rfl, .inl rfl⟩

/-- The calls that write neither a row nor a cursor nor to the target. -/
def outward : SyncOp Item Raw Folder → Prop
  | .ledger o => o.reads = true
  | .cursorSet .. | .upsert .. | .writerRecords .. | .mapItems .. => False
  | _ => True

/-- Nothing that the conclusions are drawn from has changed. -/
structure Still (v w : Vars Item) : Prop where
  seen : w.seenByCollection = v.seenByCollection
  unfinished : w.unfinishedCollections = v.unfinishedCollections
  moved : w.movedByTheLoop = v.movedByTheLoop
  enumerated : w.fullyEnumerated = v.fullyEnumerated
  formerNames : w.formerNames = v.formerNames
  cursorsHeld : w.cursorsHeldForRemovals = v.cursorsHeldForRemovals

theorem Still.refl (v : Vars Item) : Still v v where
  seen := rfl
  unfinished := rfl
  moved := rfl
  enumerated := rfl
  formerNames := rfl
  cursorsHeld := rfl

theorem Still.trans {u v w : Vars Item} (h₁ : Still u v) (h₂ : Still v w) : Still u w where
  seen := h₂.seen.trans h₁.seen
  unfinished := h₂.unfinished.trans h₁.unfinished
  moved := h₂.moved.trans h₁.moved
  enumerated := h₂.enumerated.trans h₁.enumerated
  formerNames := h₂.formerNames.trans h₁.formerNames
  cursorsHeld := h₂.cursorsHeld.trans h₁.cursorsHeld

section Calls

variable (deps : DomainSyncDeps Item Raw Folder)

/-- The source was asked at the end of the pass, and still decides. -/
def Authority (s : PassState Item Raw Folder τ) : Prop :=
  deps.sourceIsAuthorityOnExistence = true ∧
    (⟨.stillTheAuthority, .ok true⟩ : Made Item Raw Folder) ∈ s.world.log

/-- A copied file that was seen nowhere, as far as the pass can tell.  Its row
was read in a state with `Late`. -/
structure Missing (Late : PassState Item Raw Folder τ → Prop) (s : PassState Item Raw Folder τ)
    (row : Ledger.PlacedItem) : Prop where
  authority : Authority deps s
  enumerated : s.vars.fullyEnumerated = true
  read : ∃ s₁, Late s₁ ∧ row ∈ s₁.world.ledger.placedItems deps.domain ∧ Still s₁.vars s.vars
  live : row.deletionAppliedAt = none
  unseen : s.vars.seen row.collection row.naturalKeyHash = false
  finished : row.collection ∉ s.vars.unfinishedCollections
  unmoved : row.naturalKeyHash ∉ s.vars.movedByTheLoop
  current : row.supersededByNaturalKeyHash = none
  settled : row.movedToCollection = none

/-- What a pass concludes at its end, and writes to the ledger. -/
inductive Conclusion (Late : PassState Item Raw Folder τ → Prop)
    (s : PassState Item Raw Folder τ) : LedgerOp → Prop
  | reported {key} : Authority deps s → s.vars.unfinishedCollections = [] →
      s.vars.seenAnywhere key = false →
      Conclusion Late s (.recordReportedDeletion deps.domain key)
  | trashed {key} : Authority deps s → s.vars.unfinishedCollections = [] →
      s.vars.seenAnywhere key = false →
      Conclusion Late s (.recordTrashedDeletion deps.domain key)
  | supersede {names} : s.vars.unfinishedCollections = [] →
      Conclusion Late s (.supersedeFormerNames deps.domain names)
  | mark {names} : s.vars.unfinishedCollections = [] →
      Conclusion Late s (.markEarlierExports deps.domain names)
  | clearMove {key} : Conclusion Late s (.clearMove deps.domain key)
  | clearAbsent {key} : Conclusion Late s (.clearAbsent deps.domain key)
  | unmark {key} : Conclusion Late s (.clearEarlierExport deps.domain key)
  | move {row collection toKey pairedBy} : deps.domain = .file → Missing deps Late s row →
      Conclusion Late s
        (.recordMove deps.domain row.naturalKeyHash collection (some toKey) pairedBy)
  | absent {row} : deps.domain = .file → Missing deps Late s row →
      Conclusion Late s (.recordAbsent deps.domain row.naturalKeyHash)

/-- The tasks of this listing, the `visit`-th, are about to start. -/
structure Ready (visit heldBefore : Nat) (folder : Folder) (listing : Listing Item)
    (s : PassState Item Raw Folder τ) : Prop where
  windows : s.vars.windows = []
  answered : Answered s.vars
  listed : s.vars.listed[visit]? =
    some ⟨deps.collectionPathOf folder, listing.items, listing.nextCursor⟩
  last : s.vars.listed.length = visit + 1
  left : ∀ entry ∈ s.vars.left, entry.visit < visit
  held : heldBefore ≤ s.vars.heldAtCeiling

/-- Every call of the pass itself. -/
inductive PassCall (Inv Late : PassState Item Raw Folder τ → Prop)
    (Joined : Nat → Nat → Folder → Option String → Listing Item →
      PassState Item Raw Folder τ → Prop)
    (s : PassState Item Raw Folder τ) : SyncOp Item Raw Folder → Prop
  | outward {o} : outward o → PassCall Inv Late Joined s o
  | items {visit heldBefore folder listing} : Inv s →
      Ready deps visit heldBefore folder listing s →
      PassCall Inv Late Joined s (.mapItems visit folder listing.items)
  | advance {visit heldBefore folder prev listing} :
      Joined visit heldBefore folder prev listing s →
      mayAdvance deps prev listing heldBefore s.vars = true →
      PassCall Inv Late Joined s (.cursorSet (deps.collectionPathOf folder) listing.nextCursor)
  | held {path cursor} : Inv s → (path, cursor) ∈ s.vars.cursorsHeldForRemovals →
      PassCall Inv Late Joined s (.cursorSet path cursor)
  | concludes {o} : Conclusion deps Late s o → PassCall Inv Late Joined s (.ledger o)

/-- The cursor of a listing, put by until the removals were read. -/
def holdCursor (path cursor : String) (v : Vars Item) : Vars Item :=
  { v with cursorsHeldForRemovals := v.cursorsHeldForRemovals ++ [(path, cursor)] }

/-- An assertion `A` that is at least `Late`, and that nothing disturbs but the
tasks, the conclusions, and the bookkeeping of a listing. -/
structure Stays (out : Outside Item Raw Folder τ) (Late A : PassState Item Raw Folder τ → Prop) :
    Prop where
  call : ∀ {s o a s'}, A s → outward o → out.Effects s o a s' → A s'
  vars : ∀ {s v}, A s → Idle s.vars v → A { s with vars := v }
  late : ∀ {s}, A s → Late s

/-- What has to be shown of an invariant `Inv` of the pass, of what holds once
the tasks of a listing have ended (`Joined`), and of what is left of the
invariant when the removals are read and the cursors set (`Late`). -/
structure PassRule (out : Outside Item Raw Folder τ)
    (Inv Late : PassState Item Raw Folder τ → Prop)
    (Joined : Nat → Nat → Folder → Option String → Listing Item →
      PassState Item Raw Folder τ → Prop) : Prop where
  early : Stays out Late Inv
  ending : Stays out Late Late
  cursor : ∀ {s path cursor a s'}, Inv s → out.Effects s (.cursorSet path cursor) a s' → Inv s'
  begins : ∀ {s path listing}, Inv s →
    (∀ entry ∈ s.vars.left, entry.visit < s.vars.listed.length) →
    Inv { s with vars := (beginVisit deps path listing s.vars).1 }
  block : ∀ {s visit heldBefore folder prev listing s'}, Inv s →
    Ready deps visit heldBefore folder listing s →
    Effects deps out s (.mapItems visit folder listing.items) (.ok ()) s' →
    Joined visit heldBefore folder prev listing s'
  joined : ∀ {s visit heldBefore folder prev listing},
    Joined visit heldBefore folder prev listing s → Inv s
  hold : ∀ {s visit heldBefore folder prev listing},
    Joined visit heldBefore folder prev listing s →
    mayAdvance deps prev listing heldBefore s.vars = true →
    Inv { s with vars := holdCursor (deps.collectionPathOf folder) listing.nextCursor s.vars }
  report : ∀ {s key a s'}, Inv s →
    Conclusion deps Late s (.recordReportedDeletion deps.domain key) →
    out.Effects s (.ledger (.recordReportedDeletion deps.domain key)) a s' → Inv s'
  conclusion : ∀ {s o a s'}, Late s → Conclusion deps Late s o →
    out.Effects s (.ledger o) a s' → Late s'

end Calls

/-! ### The script, walked -/

section Script

variable {deps : DomainSyncDeps Item Raw Folder} {out : Outside Item Raw Folder τ}
variable {Inv Late A : PassState Item Raw Folder τ → Prop}
variable {Joined : Nat → Nat → Folder → Option String → Listing Item →
  PassState Item Raw Folder τ → Prop}
variable {s s' : PassState Item Raw Folder τ} {α β : Type}

/-- An assertion, and what every pass keeps anyway. -/
structure Good (A : PassState Item Raw Folder τ → Prop) (s : PassState Item Raw Folder τ) :
    Prop where
  inv : A s
  answered : Answered s.vars
  left : ∀ entry ∈ s.vars.left, entry.visit < s.vars.listed.length

variable (deps out Inv Late Joined) in
/-- From a state with `Pre`, every call is one of `PassCall`, made in a good
state, and a value is returned in a state with `Post`. -/
abbrev Script (Pre : PassState Item Raw Folder τ → Prop) (p : Pass Item Raw Folder τ α)
    (Post : α → PassState Item Raw Folder τ → Prop) : Prop :=
  Prog.Triple (Effects deps out) (fun s o => PassCall deps Inv Late Joined s o ∧ Good Late s) Pre p Post

theorem effects_outward {o : SyncOp Item Raw Folder} {a : o.Ans} (ho : outward o)
    (hw : Effects deps out s o a s') : out.Effects s o a s' := by
  cases o <;> first | exact hw | cases ho

theorem log_grows {o : SyncOp Item Raw Folder} {a : o.Ans} (hw : out.Effects s o a s') :
    s'.world.log = s.world.log ++ [⟨o, a⟩] := by
  obtain ⟨w', -, rfl⟩ := hw
  rfl

theorem Idle.quiet {v w : Vars Item} (hg : Grows v w) (hl : w.left = v.left)
    (hw : w.windows = v.windows) : Idle v w := ⟨hg, hl, .inl hw⟩

theorem script_onVars {P : PassState Item Raw Folder τ → Prop}
    {Q : β → PassState Item Raw Folder τ → Prop} {f : Vars Item → Vars Item × β}
    (hf : ∀ s, P s → Q (f s.vars).2 { s with vars := (f s.vars).1 }) :
    Script deps out Inv Late Joined P (onVars f) Q := by
  rintro s hs _ ⟨⟩
  exact hf s hs

theorem script_modify {P : PassState Item Raw Folder τ → Prop}
    {Q : PassState Item Raw Folder τ → Prop} {f : Vars Item → Vars Item}
    (hf : ∀ s, P s → Q { s with vars := f s.vars }) :
    Script deps out Inv Late Joined P (modifyVars f) fun _ => Q :=
  script_onVars hf

theorem script_doIf {condition : Bool} {p : Pass Item Raw Folder τ Unit}
    {P : PassState Item Raw Folder τ → Prop} {Q : PassState Item Raw Folder τ → Prop}
    (hp : condition = true → Script deps out Inv Late Joined P p fun _ => Q)
    (hno : ∀ s, P s → Q s) :
    Script deps out Inv Late Joined P (doIf condition p) fun _ => Q := by
  unfold doIf
  split
  · next hc => exact hp hc
  · exact Prog.triple_ret hno

/-- An assertion that calls do not touch: it is about the variables, and about
what was called so far. -/
def Lasting (F : PassState Item Raw Folder τ → Prop) : Prop :=
  ∀ s s', F s → s'.vars = s.vars → s.world.log ⊆ s'.world.log → F s'

theorem Lasting.call {F : PassState Item Raw Folder τ → Prop} (hF : Lasting F)
    {o : SyncOp Item Raw Folder} {a : o.Ans} (hs : F s) (hw : out.Effects s o a s') : F s' :=
  hF s s' hs (effects_vars hw) (log_grows hw ▸ List.subset_append_left _ _)

theorem lasting_true : Lasting fun _ : PassState Item Raw Folder τ => True :=
  fun _ _ _ _ _ => trivial

theorem lasting_vars {G : Vars Item → Prop} :
    Lasting fun s : PassState Item Raw Folder τ => G s.vars := by
  intro s s' hs hv _
  rwa [hv]

theorem outward_of_gateOp {o : SyncOp Item Raw Folder} (ho : gateOp o) : outward o := by
  cases o <;> first | exact trivial | cases ho

theorem lasting_ready {visit heldBefore : Nat} {folder : Folder} {listing : Listing Item} :
    Lasting fun s : PassState Item Raw Folder τ => Ready deps visit heldBefore folder listing s := by
  intro s s' hs hv _
  obtain ⟨h₁, h₂, h₃, h₄, h₅, h₆⟩ := hs
  constructor <;> rwa [hv]

theorem Ready.idle {visit heldBefore : Nat} {folder : Folder} {listing : Listing Item}
    {v : Vars Item} (h : Ready deps visit heldBefore folder listing s) (hi : Idle s.vars v) :
    Ready deps visit heldBefore folder listing { s with vars := v } where
  windows := by rcases hi.windows with hw | hw <;> simp [hw, h.windows]
  answered := hi.grows.answered h.answered
  listed := by rw [hi.grows.listed]; exact h.listed
  last := by rw [hi.grows.listed]; exact h.last
  left := by rw [hi.left]; exact h.left
  held := Nat.le_trans h.held hi.grows.held

theorem Ready.shared {visit heldBefore : Nat} {folder : Folder} {listing : Listing Item}
    (h : Ready deps visit heldBefore folder listing s) {a : Except Err Unit}
    (hw : Effects deps out s (.mapItems visit folder listing.items) a s') :
    ∃ paths, Shared deps visit (deps.collectionPathOf folder) listing.items s paths s' := by
  obtain ⟨pl, hreach, -, -⟩ := hw
  have hok := block_rule (I := fun _ _ => True) rfl h.windows h.answered trivial
    (fun _ _ _ _ _ _ _ _ _ _ _ _ => trivial) hreach
  exact ⟨_, hok.inv.1⟩

/-- The end of the pass, from the variables `v` it was begun with. -/
structure Closing (deps : DomainSyncDeps Item Raw Folder) (decides : Bool) (v : Vars Item)
    (s : PassState Item Raw Folder τ) : Prop where
  still : Still v s.vars
  authority : decides = true → Authority deps s

theorem lasting_closing {decides : Bool} {v : Vars Item} :
    Lasting fun s : PassState Item Raw Folder τ => Closing deps decides v s := by
  intro s s' hs hv hl
  exact ⟨hv ▸ hs.still, fun hd => ⟨(hs.authority hd).1, hl (hs.authority hd).2⟩⟩

theorem Closing.trans {decides : Bool} {v₀ v : Vars Item} (h : Closing deps decides v s)
    (hv : Still v₀ v) : Closing deps decides v₀ s :=
  ⟨hv.trans h.still, h.authority⟩

namespace Stays

variable (ha : Stays out Late A)
include ha

theorem good_late (hg : Good A s) : Good Late s :=
  ⟨ha.late hg.inv, hg.answered, hg.left⟩

theorem good_call {o : SyncOp Item Raw Folder} {a : o.Ans} (hg : Good A s) (ho : outward o)
    (hw : out.Effects s o a s') : Good A s' where
  inv := ha.call hg.inv ho hw
  answered := effects_vars hw ▸ hg.answered
  left := effects_vars hw ▸ hg.left

theorem good_vars {v : Vars Item} (hg : Good A s) (hi : Idle s.vars v) :
    Good A { s with vars := v } where
  inv := ha.vars hg.inv hi
  answered := hi.grows.answered hg.answered
  left := by
    intro entry hmem
    rw [hi.left] at hmem
    rw [hi.grows.listed]
    exact hg.left entry hmem

/-- An outward call, whatever it answers. -/
theorem ask (o : SyncOp Item Raw Folder) (ho : outward o)
    {F : PassState Item Raw Folder τ → Prop} (hF : Lasting F) :
    Script deps out Inv Late Joined (fun s => Good A s ∧ F s) (ask o) fun _ s => Good A s ∧ F s :=
  Prog.triple_awaitWith (fun _ hs => ⟨.outward ho, ha.good_late hs.1⟩) fun _ _ _ hs hw =>
    ⟨ha.good_call hs.1 ho (effects_outward ho hw), hF.call hs.2 (effects_outward ho hw)⟩

theorem attempt (o : SyncOp Item Raw Folder) (ho : outward o)
    {F : PassState Item Raw Folder τ → Prop} (hF : Lasting F) :
    Script deps out Inv Late Joined (fun s => Good A s ∧ F s) (Sync.ask o).attempt
      fun _ s => Good A s ∧ F s :=
  Prog.triple_attempt (fun _ hs => ⟨.outward ho, ha.good_late hs.1⟩)
    (fun _ _ _ hs hw =>
      ⟨ha.good_call hs.1 ho (effects_outward ho hw), hF.call hs.2 (effects_outward ho hw)⟩)
    fun _ _ _ hs hw =>
      ⟨ha.good_call hs.1 ho (effects_outward ho hw), hF.call hs.2 (effects_outward ho hw)⟩

/-- A step on the variables that is no more than the pass moving on. -/
theorem modify {f : Vars Item → Vars Item} (hf : ∀ v, Idle v (f v))
    {F : PassState Item Raw Folder τ → Prop} (hF : ∀ s, F s → F { s with vars := f s.vars }) :
    Script deps out Inv Late Joined (fun s => Good A s ∧ F s) (modifyVars f)
      fun _ s => Good A s ∧ F s :=
  script_modify fun s hs => ⟨ha.good_vars hs.1 (hf _), hF s hs.2⟩

/-- A program that was walked as touching no item. -/
theorem quiet {p : Pass Item Raw Folder τ α} {P : Path Item Raw Folder τ → α → Prop}
    (hp : Walk QuietStep p [] P) {F : PassState Item Raw Folder τ → Prop} (hF : Lasting F)
    (hv : ∀ s v, F s → Grows s.vars v → v.windows = s.vars.windows → F { s with vars := v }) :
    Script deps out Inv Late Joined (fun s => Good A s ∧ F s) p fun _ s => Good A s ∧ F s := by
  intro s hs
  refine Prog.Always.wp hp (I := fun _ s => Good A s ∧ F s) hs ?_ ?_ ?_
  · rintro h s e s' ⟨hg, hf⟩ he hfires
    cases he with
    | vars hgrow hl hw =>
        obtain ⟨rfl, rfl⟩ := hfires
        exact ⟨ha.good_vars hg (.quiet hgrow hl hw), hv _ _ hf hgrow hw⟩
    | asks ho =>
        have ho := outward_of_gateOp ho
        exact ⟨ha.good_call hg ho (effects_outward ho hfires),
          hF.call hf (effects_outward ho hfires)⟩
  · intro h s o hs hcall
    refine ⟨.outward ?_, ha.good_late hs.1⟩
    cases hcall (.error { message := "" }) with
    | asks ho => exact outward_of_gateOp ho
  · rintro h s r hs - a -
    exact hs

/-- A conclusion, where what holds is enough to draw it. -/
theorem concludes (o : LedgerOp) {F : PassState Item Raw Folder τ → Prop} (hF : Lasting F)
    (hc : ∀ s, Good A s → F s → Conclusion deps Late s o)
    (hkeeps : ∀ {s a s'}, A s → Conclusion deps Late s o → out.Effects s (.ledger o) a s' →
      A s') :
    Script deps out Inv Late Joined (fun s => Good A s ∧ F s) (askLedger o)
      fun _ s => Good A s ∧ F s := by
  refine Prog.triple_awaitWith (fun s hs => ⟨.concludes (hc s hs.1 hs.2), ha.good_late hs.1⟩) ?_
  rintro s a s' ⟨hg, hf⟩ hw
  have hw : out.Effects s (.ledger o) (.ok a) s' := hw
  refine ⟨⟨hkeeps hg.inv (hc s hg hf) hw, ?_, ?_⟩, hF.call hf hw⟩
  · exact effects_vars hw ▸ hg.answered
  · exact effects_vars hw ▸ hg.left

/-- The variables are read once more, and what follows goes by them. -/
theorem reread {d : Bool} {w : Vars Item} {g : Vars Item → Vars Item × Vars Item}
    {f : Vars Item → Pass Item Raw Folder τ α}
    {Post : α → PassState Item Raw Folder τ → Prop}
    (hg : ∀ v, Idle v (g v).1 ∧ Still v (g v).1 ∧ (g v).2 = v)
    (hf : ∀ v, Still w v → Script deps out Inv Late Joined
      (fun s => Good A s ∧ Closing deps d v s) (f v) Post) :
    Script deps out Inv Late Joined (fun s => Good A s ∧ Closing deps d w s)
      (onVars g >>= f) Post := by
  rintro s ⟨hgood, hc⟩
  obtain ⟨hidle, hstill, hv⟩ := hg s.vars
  show (f (g s.vars).2).Wp _ _ _ _
  rw [hv]
  exact hf s.vars hc.still { s with vars := (g s.vars).1 }
    ⟨ha.good_vars hgood hidle, hstill, hc.authority⟩

end Stays

end Script

end Ownpace.Sync
