/-
Ownpace/Sync/Script.lean

The script of a pass, walked under the rule of the pass: function by function,
in the order of `Pass.lean`, each by its own triple.
-/
import Ownpace.Sync.Rule

namespace Ownpace.Sync

open Await Ownpace

variable {Item Raw Folder τ : Type}

section Script

variable {deps : DomainSyncDeps Item Raw Folder} {out : Outside Item Raw Folder τ}
variable {Inv Late : PassState Item Raw Folder τ → Prop}
variable {Joined : Nat → Nat → Folder → Option String → Listing Item →
  PassState Item Raw Folder τ → Prop}
variable {s s' : PassState Item Raw Folder τ} {α β : Type}

namespace PassRule

variable (hr : PassRule deps out Inv Late Joined)
include hr

/-! ### The opening -/

theorem checkBudget : Script deps out Inv Late Joined (fun s => Good Inv s ∧ True) (checkBudget deps)
    fun _ s => Good Inv s ∧ True := by
  unfold Sync.checkBudget
  split
  · exact Prog.triple_ret fun _ hs => hs
  · refine Prog.Triple.bind (hr.early.ask .budgetState trivial lasting_true) fun budget => ?_
    refine hr.early.modify (fun v => ?_) fun _ _ => trivial
    split
    · refine .quiet (grows_pauseNow _ _ v) ?_ ?_ <;> (unfold pauseNow; split <;> rfl)
    · exact .quiet (.refl v) rfl rfl

theorem opening : Script deps out Inv Late Joined (fun s => Good Inv s ∧ True) (opening deps)
    fun _ s => Good Inv s ∧ True := by
  refine Prog.Triple.bind (hr.early.ask .now trivial lasting_true) fun startedAt => ?_
  refine Prog.Triple.bind (hr.early.modify (fun v => by exact .quiet { Grows.refl _ with } rfl rfl) fun _ _ => trivial) fun _ => ?_
  refine Prog.Triple.bind hr.checkBudget fun _ => ?_
  refine Prog.Triple.bind (hr.early.ask .now trivial lasting_true) fun deadlineAt => ?_
  refine Prog.Triple.bind (hr.early.ask .now trivial lasting_true) fun haltAt => ?_
  refine Prog.Triple.bind (script_onVars (Q := fun _ s => Good Inv s ∧ True)
    fun s hs => ⟨hr.early.good_vars hs.1 ?_, trivial⟩) fun answer => ?_
  · have hd := @stopIfPastDeadline_spec _ _ _ deps deadlineAt s.vars
    have ht := @stopIfToldTo_spec _ _ _ deps haltAt (stopIfPastDeadline deps deadlineAt s.vars).1
    unfold openingGate
    dsimp only
    split
    · exact .quiet hd.1 hd.2.1 hd.2.2.1
    · exact .quiet (hd.1.trans ht.1) (ht.2.1.trans hd.2.1) (ht.2.2.1.trans hd.2.2.1)
  · refine Prog.Triple.bind (Prog.Triple.mono (hr.early.quiet (walk_gateAnswer haltAt answer)
      lasting_true fun _ _ _ _ _ => trivial) (fun _ hs => hs) fun _ _ hs => hs) fun _ => ?_
    exact Prog.triple_ret fun _ hs => hs

/-! ### The collections -/

theorem leaveUnread (folder : Folder) (err : Err) :
    Script deps out Inv Late Joined (fun s => Good Inv s ∧ True) (leaveUnread deps folder err)
      fun _ s => Good Inv s ∧ True := by
  unfold Sync.leaveUnread
  dsimp only
  split
  · exact Prog.triple_throw
  · refine Prog.Triple.bind (script_onVars (Q := fun _ s => Good Inv s ∧ True)
      fun s hs => ⟨hr.early.good_vars hs.1 (.quiet { Grows.refl _ with } rfl rfl), trivial⟩) fun inARow => ?_
    split
    · exact Prog.triple_throw
    · refine Prog.Triple.bind (hr.early.modify (fun v => by exact .quiet { Grows.refl _ with } rfl rfl) fun _ _ => trivial) fun _ => ?_
      refine Prog.Triple.bind (hr.early.ask (.recordAppEvent _) trivial lasting_true) fun reference => ?_
      refine hr.early.modify (fun v => ?_) fun _ _ => trivial
      exact .quiet { Grows.refl _ with unfinished := List.subset_cons_self _ _ } rfl rfl

theorem enumerateKeys (folder : Folder) (prev : Option String)
    {F : PassState Item Raw Folder τ → Prop} (hF : Lasting F)
    (hv : ∀ s v, F s → Idle s.vars v → F { s with vars := v }) :
    Script deps out Inv Late Joined (fun s => Good Inv s ∧ F s) (enumerateKeys deps folder prev)
      fun _ s => Good Inv s ∧ F s := by
  unfold Sync.enumerateKeys
  dsimp only
  split
  · refine Prog.Triple.bind (hr.early.attempt (.listCollectionKeys folder) trivial hF) fun answer => ?_
    cases answer with
    | ok keys =>
        have hidle (v : Vars Item) : Idle v { v with
            seenByCollection := keys.map (fun key => (deps.collectionPathOf folder, key)) ++
              v.seenByCollection } :=
          .quiet { Grows.refl _ with seen := List.subset_append_right _ _ } rfl rfl
        exact hr.early.modify hidle fun s hs => hv s _ hs (hidle _)
    | error e =>
        refine Prog.Triple.bind (hr.early.modify (fun v => by exact .quiet { Grows.refl _ with } rfl rfl) fun s hs => hv s _ hs (by exact .quiet { Grows.refl _ with } rfl rfl)) fun _ => ?_
        refine Prog.Triple.bind (hr.early.ask (.recordAppEvent _) trivial hF) fun _ => ?_
        exact Prog.triple_ret fun _ hs => hs
  · split
    · exact hr.early.modify (fun v => by exact .quiet { Grows.refl _ with } rfl rfl) fun s hs => hv s _ hs (by exact .quiet { Grows.refl _ with } rfl rfl)
    · exact Prog.triple_ret fun _ hs => hs

/-- The tasks of one listing, as one call. -/
theorem items (visit heldBefore : Nat) (folder : Folder) (prev : Option String)
    (listing : Listing Item) :
    Script deps out Inv Late Joined
      (fun s => Good Inv s ∧ Ready deps visit heldBefore folder listing s)
      (Sync.ask (.mapItems visit folder listing.items))
      fun _ s => Good Inv s ∧ Joined visit heldBefore folder prev listing s := by
  refine Prog.triple_awaitWith (fun s hs => ⟨.items hs.1.inv hs.2, hr.early.good_late hs.1⟩) ?_
  rintro s ⟨⟩ s' ⟨hg, hready⟩ hw
  have hjoined : Joined visit heldBefore folder prev listing s' := hr.block hg.inv hready hw
  obtain ⟨paths, hs⟩ := hready.shared hw
  refine ⟨⟨hr.joined hjoined, hs.answered, fun entry hmem => ?_⟩, hjoined⟩
  rw [hs.grown.listed, hready.last]
  rcases hs.left entry hmem with hmem | ⟨hv, -⟩
  · exact Nat.lt_succ_of_lt (hready.left entry hmem)
  · exact Nat.lt_succ_of_le (Nat.le_of_eq hv)

theorem setCursor {Pre : PassState Item Raw Folder τ → Prop} (path cursor : String)
    (hgood : ∀ s, Pre s → Good Inv s)
    (hcall : ∀ s, Pre s → PassCall deps Inv Late Joined s (.cursorSet path cursor)) :
    Script deps out Inv Late Joined Pre (Sync.ask (.cursorSet path cursor)) fun _ => Good Inv := by
  refine Prog.triple_awaitWith (fun s hs => ⟨hcall s hs, hr.early.good_late (hgood s hs)⟩) ?_
  intro s a s' hs hw
  have hg := hgood s hs
  have hw : out.Effects s (.cursorSet path cursor) (.ok a) s' := hw
  exact ⟨hr.cursor hg.inv hw, effects_vars hw ▸ hg.answered, effects_vars hw ▸ hg.left⟩

theorem decideCursor (visit heldBefore : Nat) (folder : Folder) (prev : Option String)
    (listing : Listing Item) :
    Script deps out Inv Late Joined
      (fun s => Good Inv s ∧ Joined visit heldBefore folder prev listing s)
      (decideCursor deps (deps.collectionPathOf folder) prev listing heldBefore)
      fun _ => Good Inv := by
  refine Prog.Triple.bind (script_onVars (Q := fun advances s => Good Inv s ∧
    (advances = true → Joined visit heldBefore folder prev listing s ∧
      mayAdvance deps prev listing heldBefore s.vars = true)) fun s hs => ?_) fun advances => ?_
  · obtain ⟨hg, hj⟩ := hs
    split
    · next hmay =>
        split
        · exact ⟨⟨hr.hold hj hmay, hg.answered, hg.left⟩, nofun⟩
        · exact ⟨hg, fun _ => ⟨hj, hmay⟩⟩
    · exact ⟨hg, nofun⟩
  · refine script_doIf (fun hadv => ?_) fun s hs => hs.1
    refine hr.setCursor _ _ (fun s hs => hs.1) fun s hs => ?_
    exact .advance (hs.2 hadv).1 (hs.2 hadv).2

theorem readCollection (folder : Folder) (prev : Option String) (listing : Listing Item) :
    Script deps out Inv Late Joined (fun s => Good Inv s ∧ s.vars.windows = [])
      (readCollection deps folder prev listing) fun _ => Good Inv := by
  refine Prog.Triple.bind (script_onVars (Q := fun p s => Good Inv s ∧
    Ready deps p.1 p.2 folder listing s) fun s hs => ?_) fun p => ?_
  · obtain ⟨hg, hw⟩ := hs
    refine ⟨⟨hr.begins hg.inv hg.left, hg.answered, fun entry hmem => ?_⟩, ?_⟩
    · simp only [beginVisit, List.length_append]
      exact Nat.lt_add_right _ (hg.left entry hmem)
    · exact
        { windows := hw
          answered := hg.answered
          listed := by simp [beginVisit]
          last := by simp [beginVisit]
          left := hg.left
          held := Nat.le_refl _ }
  · obtain ⟨visit, heldBefore⟩ := p
    refine Prog.Triple.bind (hr.enumerateKeys folder prev lasting_ready
      fun s v hs hi => hs.idle hi) fun _ => ?_
    refine Prog.Triple.bind (hr.items visit heldBefore folder prev listing) fun _ => ?_
    exact hr.decideCursor visit heldBefore folder prev listing

theorem syncCollection (folder : Folder) :
    Script deps out Inv Late Joined (Good Inv) (syncCollection deps folder) fun _ => Good Inv := by
  refine Prog.Triple.bind (Prog.Triple.mono (hr.early.quiet walk_stopTakingNewWork lasting_true
    fun _ _ _ _ _ => trivial) (fun _ hs => ⟨hs, trivial⟩) fun _ _ hs => hs.1) fun stop => ?_
  cases stop with
  | true =>
      refine script_modify fun s hs => hr.early.good_vars hs ?_
      exact .quiet { Grows.refl _ with unfinished := List.subset_cons_self _ _ } rfl rfl
  | false =>
      have hcursor : Script deps out Inv Late Joined (Good Inv)
          (storedCursor deps (deps.collectionPathOf folder)) fun _ => Good Inv := by
        unfold storedCursor
        split
        · exact Prog.Triple.mono (hr.early.ask (.cursorGet _) trivial lasting_true)
            (fun _ hs => ⟨hs, trivial⟩) fun _ _ hs => hs.1
        · exact Prog.triple_ret fun _ hs => hs
      refine Prog.Triple.bind hcursor fun prev => ?_
      refine Prog.Triple.bind (script_modify (Q := fun s => Good Inv s ∧ s.vars.windows = [])
        fun s hs => ⟨hr.early.good_vars hs ⟨{ Grows.refl _ with }, rfl, .inr rfl⟩, rfl⟩) fun _ => ?_
      refine Prog.Triple.bind (script_doIf (Q := fun s => Good Inv s ∧ s.vars.windows = [])
        (fun _ => ?_) fun _ hs => hs) fun _ => ?_
      · refine Prog.Triple.bind (hr.early.quiet (walk_collectionIdOf folder)
          (lasting_vars (G := fun v => v.windows = []))
          fun s v hs _ hw => hw.trans hs) fun _ => ?_
        exact Prog.triple_ret fun _ hs => hs
      · refine Prog.Triple.bind (hr.early.attempt (.listSince folder prev) trivial
          (lasting_vars (G := fun v => v.windows = []))) fun answer => ?_
        cases answer with
        | error err =>
            exact Prog.Triple.mono (hr.leaveUnread folder err) (fun _ hs => ⟨hs.1, trivial⟩)
              fun _ _ hs => hs.1
        | ok listing => exact hr.readCollection folder prev listing

theorem syncCollections (folders : List Folder) :
    Script deps out Inv Late Joined (Good Inv) (syncCollections deps folders) fun _ => Good Inv := by
  induction folders with
  | nil => exact Prog.triple_ret fun _ hs => hs
  | cons folder rest ih => exact Prog.Triple.bind (hr.syncCollection folder) fun _ => ih

/-! ### The end of the pass -/

/-- The conclusions about collections that were all read to their end. -/
structure Ending (deps : DomainSyncDeps Item Raw Folder) (v : Vars Item)
    (s : PassState Item Raw Folder τ) : Prop where
  still : Still v s.vars
  authority : Authority deps s
  finished : v.unfinishedCollections = []

omit hr in
theorem lasting_ending {v : Vars Item} :
    Lasting fun s : PassState Item Raw Folder τ => Ending deps v s := by
  intro s s' hs hv hl
  exact ⟨hv ▸ hs.still, ⟨hs.authority.1, hl hs.authority.2⟩, hs.finished⟩

omit hr in
theorem Ending.unseen {v : Vars Item} (h : Ending deps v s) {key : String}
    (hk : v.seenAnywhere key = false) : s.vars.seenAnywhere key = false := by
  rw [← hk, Vars.seenAnywhere, Vars.seenAnywhere, h.still.seen]

theorem resolveReported (v : Vars Item) (done hrefs : List String) :
    Script deps out Inv Late Joined (fun s => Good Inv s ∧ Ending deps v s)
      (resolveReported deps v done hrefs) fun _ s => Good Inv s ∧ Ending deps v s := by
  induction hrefs generalizing done with
  | nil => exact Prog.triple_ret fun _ hs => hs
  | cons href rest ih =>
      refine Prog.Triple.bind (hr.early.ask (.ledger (.findBySourceRef deps.domain href)) rfl
        lasting_ending) fun row => ?_
      cases row with
      | none => exact ih done
      | some row =>
          dsimp only
          split
          · exact ih done
          · next hno =>
              simp only [Bool.or_eq_true, not_or, Bool.not_eq_true] at hno
              refine Prog.Triple.bind (hr.early.concludes (.recordReportedDeletion deps.domain
                row.naturalKeyHash) lasting_ending (fun s _ he => ?_) hr.report) fun recorded => ?_
              · exact .reported he.authority (he.still.unfinished.trans he.finished)
                  (he.unseen hno.1.2)
              · refine Prog.Triple.bind (ih _) fun out => ?_
                exact Prog.triple_ret fun _ hs => hs

theorem concludeReported (v : Vars Item) :
    Script deps out Inv Late Joined (fun s => Good Inv s ∧ Ending deps v s)
      (concludeReported deps v) fun _ s => Good Inv s ∧ Ending deps v s := by
  refine Prog.Triple.bind (hr.resolveReported v [] _) fun found => ?_
  exact hr.early.modify (fun _ => by exact .quiet { Grows.refl _ with } rfl rfl) fun s hs =>
      ⟨hs.still.trans { Still.refl _ with }, hs.authority, hs.finished⟩

theorem setCursors {decides : Bool} {v : Vars Item} (cursors : List (String × String))
    (hsub : cursors ⊆ v.cursorsHeldForRemovals) :
    Script deps out Inv Late Joined (fun s => Good Inv s ∧ Closing deps decides v s)
      (setCursors cursors) fun _ s => Good Inv s ∧ Closing deps decides v s := by
  induction cursors with
  | nil => exact Prog.triple_ret fun _ hs => hs
  | cons entry rest ih =>
      obtain ⟨path, cursor⟩ := entry
      obtain ⟨hmem, hrest⟩ := List.cons_subset.mp hsub
      refine Prog.Triple.bind (Prog.triple_awaitWith (Q := fun _ s =>
        Good Inv s ∧ Closing deps decides v s) (fun s hs => ⟨.held hs.1.inv ?_, hr.early.good_late hs.1⟩) ?_)
        fun _ => ih hrest
      · rw [hs.2.still.cursorsHeld]
        exact hmem
      · rintro s a s' ⟨hg, hc⟩ hw
        have hw : out.Effects s (.cursorSet path cursor) (.ok a) s' := hw
        exact ⟨⟨hr.cursor hg.inv hw, effects_vars hw ▸ hg.answered, effects_vars hw ▸ hg.left⟩,
          lasting_closing.call hc hw⟩

theorem concludeRemovals {decides : Bool} {v₀ : Vars Item}
    (hfin : v₀.unfinishedCollections = []) :
    Script deps out Inv Late Joined (fun s => Good Inv s ∧ Closing deps decides v₀ s)
      (concludeRemovals deps decides) fun _ s => Good Inv s ∧ Closing deps decides v₀ s := by
  refine hr.early.reread (g := fun v => (v, v)) (fun v => ⟨.refl v, .refl v, rfl⟩) fun v hv => ?_
  refine Prog.Triple.bind (script_doIf
    (Q := fun s => Good Inv s ∧ Closing deps decides v s) (fun hc => ?_) fun _ hs => hs)
    fun _ => script_doIf (fun _ => ?_) fun _ hs => ⟨hs.1, hs.2.trans hv⟩
  · rw [Bool.and_eq_true] at hc
    refine Prog.Triple.mono (hr.concludeReported v) ?_ ?_
    · exact fun s hs => ⟨hs.1, hs.2.still, hs.2.authority hc.1, hv.unfinished.trans hfin⟩
    · exact fun _ s hs => ⟨hs.1, hs.2.still, fun _ => hs.2.authority⟩
  · refine Prog.Triple.mono (hr.setCursors _ (List.Subset.refl _)) (fun _ hs => hs) ?_
    exact fun _ s hs => ⟨hs.1, hs.2.trans hv⟩

/-! ### What else it concludes -/

theorem resolveDiscarded (v : Vars Item) (keys : List String) :
    Script deps out Inv Late Joined (fun s => Good Late s ∧ Ending deps v s)
      (resolveDiscarded deps v keys) fun _ s => Good Late s ∧ Ending deps v s := by
  induction keys with
  | nil => exact Prog.triple_ret fun _ hs => hs
  | cons key rest ih =>
      unfold Sync.resolveDiscarded
      split
      · exact ih
      · next hunseen =>
          refine Prog.Triple.bind (hr.ending.ask (.ledger (.find deps.domain key)) rfl
            lasting_ending) fun row => ?_
          cases row with
          | none => exact ih
          | some row =>
              dsimp only
              split
              · exact ih
              · refine Prog.Triple.bind (hr.ending.concludes (.recordTrashedDeletion deps.domain key)
                  lasting_ending (fun s _ he => ?_) hr.conclusion) fun recorded => ?_
                · exact .trashed he.authority (he.still.unfinished.trans he.finished)
                    (he.unseen (Bool.not_eq_true _ ▸ hunseen))
                · refine Prog.Triple.bind ih fun out => ?_
                  exact Prog.triple_ret fun _ hs => hs

theorem concludeDiscarded {v₀ : Vars Item} (discarded : DiscardedListing)
    (hfin : v₀.unfinishedCollections = []) :
    Script deps out Inv Late Joined (fun s => Good Late s ∧ Closing deps true v₀ s)
      (concludeDiscarded deps discarded) fun _ s => Good Late s ∧ Closing deps true v₀ s := by
  refine hr.ending.reread (fun v => ⟨?_, ?_, rfl⟩) fun v hv => ?_
  · dsimp only
    split <;> exact .quiet { Grows.refl _ with } rfl rfl
  · dsimp only
    split <;> exact { Still.refl _ with }
  · refine Prog.Triple.mono (Prog.Triple.bind (hr.resolveDiscarded v _) fun found =>
      hr.ending.modify (fun _ => by exact .quiet { Grows.refl _ with } rfl rfl) fun s hs =>
      ⟨hs.still.trans { Still.refl _ with }, hs.authority, hs.finished⟩)
      ?_ ?_
    · exact fun s hs => ⟨hs.1, hs.2.still, hs.2.authority rfl, hv.unfinished.trans hfin⟩
    · exact fun _ s hs => ⟨hs.1, hv.trans hs.2.still, fun _ => hs.2.authority⟩

theorem concludeBin {v₀ : Vars Item} (hfin : v₀.unfinishedCollections = []) :
    Script deps out Inv Late Joined (fun s => Good Late s ∧ Closing deps true v₀ s)
      (concludeBin deps) fun _ s => Good Late s ∧ Closing deps true v₀ s := by
  have htold : Script deps out Inv Late Joined (fun s => Good Late s ∧ Closing deps true v₀ s)
      (toldToStop deps) fun _ s => Good Late s ∧ Closing deps true v₀ s := by
    unfold toldToStop
    split
    · exact hr.ending.ask .whyItStops trivial lasting_closing
    · exact Prog.triple_ret fun _ hs => hs
  refine Prog.Triple.bind htold fun told => ?_
  split
  · exact Prog.triple_ret fun _ hs => hs
  · refine Prog.Triple.bind (hr.ending.attempt .listDiscardedKeys trivial lasting_closing) fun answer => ?_
    cases answer with
    | error e =>
        refine Prog.Triple.bind (hr.ending.ask (.recordAppEvent _) trivial lasting_closing) fun _ => ?_
        exact Prog.triple_ret fun _ hs => hs
    | ok discarded => exact hr.concludeDiscarded discarded hfin

theorem concludeFormerNames {decides : Bool} {v₀ : Vars Item}
    (hfin : v₀.unfinishedCollections = []) :
    Script deps out Inv Late Joined (fun s => Good Late s ∧ Closing deps decides v₀ s)
      (concludeFormerNames deps) fun _ s => Good Late s ∧ Closing deps decides v₀ s := by
  have hdone (s : PassState Item Raw Folder τ) (hc : Closing deps decides v₀ s) :
      s.vars.unfinishedCollections = [] := hc.still.unfinished.trans hfin
  refine hr.ending.reread (g := fun v => (v, v)) (fun v => ⟨.refl v, .refl v, rfl⟩) fun v hv => ?_
  refine Prog.Triple.mono (P := fun s => Good Late s ∧ Closing deps decides v₀ s) ?_
    (fun s hs => ⟨hs.1, hs.2.trans hv⟩) fun _ _ hs => hs
  dsimp only
  split
  · exact Prog.triple_ret fun _ hs => hs
  · refine Prog.Triple.bind (hr.ending.concludes (.supersedeFormerNames deps.domain _)
      lasting_closing (fun s _ hc => .supersede (hdone s hc)) hr.conclusion) fun closed => ?_
    refine Prog.Triple.bind (hr.ending.modify (fun _ => by exact .quiet { Grows.refl _ with } rfl rfl)
      fun s hs =>
      ⟨hs.still.trans { Still.refl _ with }, hs.authority⟩) fun _ => ?_
    refine Prog.Triple.bind (hr.ending.concludes (.markEarlierExports deps.domain _)
      lasting_closing (fun s _ hc => .mark (hdone s hc)) hr.conclusion) fun marked => ?_
    exact hr.ending.modify (fun _ => by exact .quiet { Grows.refl _ with } rfl rfl) fun s hs =>
      ⟨hs.still.trans { Still.refl _ with }, hs.authority⟩

/-- The search for moved and missing files, over the rows `placed`. -/
structure Detecting (deps : DomainSyncDeps Item Raw Folder)
    (Late : PassState Item Raw Folder τ → Prop) (v : Vars Item) (placed : List Ledger.PlacedItem)
    (s : PassState Item Raw Folder τ) : Prop where
  still : Still v s.vars
  authority : Authority deps s
  enumerated : v.fullyEnumerated = true
  read : ∀ row ∈ placed, ∃ s₁, Late s₁ ∧ row ∈ s₁.world.ledger.placedItems deps.domain ∧
    Still s₁.vars s.vars

omit hr in
theorem lasting_detecting {v : Vars Item} {placed : List Ledger.PlacedItem} :
    Lasting fun s : PassState Item Raw Folder τ => Detecting deps Late v placed s := by
  intro s s' hs hv hl
  exact ⟨hv ▸ hs.still, ⟨hs.authority.1, hl hs.authority.2⟩, hs.enumerated, hv ▸ hs.read⟩

omit hr in
theorem Detecting.missing {v : Vars Item} {placed : List Ledger.PlacedItem}
    {row : Ledger.PlacedItem} (h : Detecting deps Late v placed s) (hrow : row ∈ placed)
    (hlive : row.deletionAppliedAt = none)
    (hseen : v.seen row.collection row.naturalKeyHash = false)
    (hleft : ¬ (row.collection ∈ v.unfinishedCollections ∨
      row.naturalKeyHash ∈ v.movedByTheLoop ∨ row.supersededByNaturalKeyHash.isSome))
    (hmoved : row.movedToCollection = none) : Missing deps Late s row := by
  simp only [not_or, Option.not_isSome_iff_eq_none] at hleft
  exact
    { authority := h.authority
      enumerated := h.still.enumerated.trans h.enumerated
      read := h.read row hrow
      live := hlive
      unseen := by rw [← hseen, Vars.seen, Vars.seen, h.still.seen]
      finished := h.still.unfinished ▸ hleft.1
      unmoved := h.still.moved ▸ hleft.2.1
      current := hleft.2.2
      settled := hmoved }

theorem clearMarks {F : PassState Item Raw Folder τ → Prop} (hF : Lasting F)
    (row : Ledger.PlacedItem) :
    Script deps out Inv Late Joined (fun s => Good Late s ∧ F s) (clearMarks deps row)
      fun _ s => Good Late s ∧ F s := by
  refine Prog.Triple.bind (script_doIf (Q := fun s => Good Late s ∧ F s)
    (fun _ => hr.ending.concludes _ hF (fun _ _ _ => .clearMove) hr.conclusion) fun _ hs => hs) fun _ => ?_
  refine Prog.Triple.bind (script_doIf (Q := fun s => Good Late s ∧ F s)
    (fun _ => hr.ending.concludes _ hF (fun _ _ _ => .clearAbsent) hr.conclusion) fun _ hs => hs) fun _ => ?_
  exact script_doIf (fun _ => hr.ending.concludes _ hF (fun _ _ _ => .unmark) hr.conclusion) fun _ hs => hs

theorem missingRow {v : Vars Item} {placed : List Ledger.PlacedItem} (hfile : deps.domain = .file)
    (arrivals : List CreatedItem) (row : Ledger.PlacedItem)
    (hmissing : ∀ s : PassState Item Raw Folder τ, Detecting deps Late v placed s →
      Missing deps Late s row) :
    Script deps out Inv Late Joined (fun s => Good Late s ∧ Detecting deps Late v placed s)
      (missingRow deps v placed arrivals row)
      fun _ s => Good Late s ∧ Detecting deps Late v placed s := by
  unfold Sync.missingRow
  dsimp only
  split
  · refine Prog.Triple.bind (hr.ending.concludes _ lasting_detecting
      (fun s _ hd => .move hfile (hmissing s hd)) hr.conclusion) fun _ => ?_
    refine Prog.Triple.bind (hr.ending.concludes _ lasting_detecting (fun _ _ _ => .clearAbsent) hr.conclusion)
      fun _ => ?_
    exact Prog.triple_ret fun _ hs => hs
  · split
    · refine Prog.Triple.bind (hr.ending.concludes _ lasting_detecting
        (fun s _ hd => .move hfile (hmissing s hd)) hr.conclusion) fun _ => ?_
      exact Prog.triple_ret fun _ hs => hs
    · refine Prog.Triple.bind (hr.ending.concludes (.recordAbsent deps.domain row.naturalKeyHash)
        lasting_detecting (fun s _ hd => .absent hfile (hmissing s hd)) hr.conclusion) fun absent => ?_
      exact Prog.triple_ret fun _ hs => hs

theorem detectRow {v : Vars Item} {placed : List Ledger.PlacedItem} (hfile : deps.domain = .file)
    (arrivals : List CreatedItem) {row : Ledger.PlacedItem} (hrow : row ∈ placed) :
    Script deps out Inv Late Joined (fun s => Good Late s ∧ Detecting deps Late v placed s)
      (detectRow deps v placed arrivals row)
      fun _ s => Good Late s ∧ Detecting deps Late v placed s := by
  unfold Sync.detectRow
  split
  · exact Prog.triple_ret fun _ hs => hs
  · next hlive =>
      split
      · refine Prog.Triple.bind (hr.clearMarks lasting_detecting row) fun _ => ?_
        exact Prog.triple_ret fun _ hs => hs
      · next hseen =>
          split
          · exact Prog.triple_ret fun _ hs => hs
          · next hleft =>
              split
              · exact Prog.triple_ret fun _ hs => hs
              · next hmoved =>
                  refine hr.missingRow hfile arrivals row fun s hd => hd.missing hrow ?_ ?_ hleft hmoved
                  · exact Option.not_isSome_iff_eq_none.mp hlive
                  · exact Bool.not_eq_true _ ▸ hseen

theorem detectRows {v : Vars Item} {placed : List Ledger.PlacedItem} (hfile : deps.domain = .file)
    (arrivals : List CreatedItem) (rows : List Ledger.PlacedItem) (hsub : rows ⊆ placed) :
    Script deps out Inv Late Joined (fun s => Good Late s ∧ Detecting deps Late v placed s)
      (detectRows deps v placed arrivals rows)
      fun _ s => Good Late s ∧ Detecting deps Late v placed s := by
  induction rows generalizing arrivals with
  | nil => exact Prog.triple_ret fun _ hs => hs
  | cons row rest ih =>
      obtain ⟨hrow, hrest⟩ := List.cons_subset.mp hsub
      refine Prog.Triple.bind (hr.detectRow hfile arrivals hrow) fun found => ?_
      refine Prog.Triple.bind (ih _ hrest) fun more => ?_
      exact Prog.triple_ret fun _ hs => hs

/-- The rows are what the ledger holds when it is asked. -/
theorem placedItems {v : Vars Item} (henum : v.fullyEnumerated = true) :
    Script deps out Inv Late Joined (fun s => Good Late s ∧ Closing deps true v s)
      (askLedger (.placedItems deps.domain))
      fun placed s => Good Late s ∧ Detecting deps Late v placed s := by
  refine Prog.triple_awaitWith (fun s hs => ⟨.outward rfl, hs.1⟩) ?_
  rintro s placed s' ⟨hg, hc⟩ hw
  have hw : out.Effects s (.ledger (.placedItems deps.domain)) (.ok placed) s' := hw
  have hplaced : placed = s.world.ledger.placedItems deps.domain := by
    obtain ⟨w', ⟨⟨h, hrun | ⟨⟨e, he⟩, -⟩⟩, -⟩, -⟩ := hw
    · exact Except.ok.inj hrun.1
    · cases he
  have hc' := lasting_closing.call hc hw
  refine ⟨hr.ending.good_call (o := .ledger (.placedItems deps.domain)) hg rfl hw, hc'.still,
    hc'.authority rfl, henum, fun row hrow => ?_⟩
  exact ⟨s, hg.inv, hplaced ▸ hrow, effects_vars hw ▸ .refl _⟩

theorem detectPathKeyedMoves {v : Vars Item} (hfile : deps.domain = .file)
    (henum : v.fullyEnumerated = true) :
    Script deps out Inv Late Joined (fun s => Good Late s ∧ Closing deps true v s)
      (detectPathKeyedMoves deps v) fun _ s => Good Late s ∧ Closing deps true v s := by
  refine Prog.Triple.bind (hr.placedItems henum) fun placed => ?_
  refine Prog.Triple.mono (hr.detectRows hfile _ placed (List.Subset.refl _)) (fun _ hs => hs) ?_
  exact fun _ s hs => ⟨hs.1, hs.2.still, fun _ => hs.2.authority⟩

theorem concludeMoves {v₀ : Vars Item} (hfile : deps.domain = .file)
    (henum : v₀.fullyEnumerated = true) :
    Script deps out Inv Late Joined (fun s => Good Late s ∧ Closing deps true v₀ s)
      (concludeMoves deps) fun _ s => Good Late s ∧ Closing deps true v₀ s := by
  refine hr.ending.reread (g := fun v => (v, v)) (fun v => ⟨.refl v, .refl v, rfl⟩) fun v hv => ?_
  refine Prog.Triple.bind (hr.detectPathKeyedMoves hfile (hv.enumerated.trans henum))
    fun found => script_modify fun s hs => ?_
  exact ⟨hr.ending.good_vars hs.1 (.quiet { Grows.refl _ with } rfl rfl), (hv.trans hs.2.still).trans { Still.refl _ with }, hs.2.authority⟩

theorem askStillDecides {v : Vars Item} :
    Script deps out Inv Late Joined (fun s => Good Inv s ∧ Closing deps false v s)
      (askStillDecides deps) fun decides s => Good Inv s ∧ Closing deps decides v s := by
  unfold Sync.askStillDecides
  split
  · next hauth =>
      refine Prog.triple_awaitWith (fun s hs => ⟨.outward trivial, hr.early.good_late hs.1⟩) ?_
      rintro s decides s' ⟨hg, hc⟩ hw
      have hw : out.Effects s .stillTheAuthority (.ok decides) s' := hw
      refine ⟨hr.early.good_call (o := .stillTheAuthority) hg trivial hw,
        effects_vars hw ▸ hc.still, fun hd => ⟨hauth, ?_⟩⟩
      subst hd
      exact log_grows hw ▸ List.mem_append_right _ (List.mem_singleton_self _)
  · exact Prog.triple_ret fun _ hs => hs

/-- What is concluded once the removals are: the weaker invariant is enough. -/
theorem concludeRest (listedNothing decides : Bool) {v : Vars Item} :
    Script deps out Inv Late Joined (fun s => Good Late s ∧ Closing deps decides v s) (do
        doIf (decides && deps.listDiscardedKeys && reachedEvery listedNothing v)
          (Sync.concludeBin deps)
        doIf (v.fullyEnumerated && reachedEvery listedNothing v) (Sync.concludeFormerNames deps)
        doIf (deps.domain = .file && v.fullyEnumerated && decides) (Sync.concludeMoves deps))
      fun _ => Good Late := by
  have hfin (h : reachedEvery listedNothing v = true) : v.unfinishedCollections = [] := by
    simp only [reachedEvery, Bool.and_eq_true, List.isEmpty_iff] at h
    exact h.2
  refine Prog.Triple.bind (script_doIf
    (Q := fun s => Good Late s ∧ Closing deps decides v s) (fun hc => ?_) fun _ hs => hs)
    fun _ => ?_
  · simp only [Bool.and_eq_true] at hc
    obtain ⟨⟨rfl, -⟩, hreached⟩ := hc
    exact hr.concludeBin (hfin hreached)
  refine Prog.Triple.bind (script_doIf
    (Q := fun s => Good Late s ∧ Closing deps decides v s) (fun hc => ?_) fun _ hs => hs)
    fun _ => ?_
  · rw [Bool.and_eq_true] at hc
    exact hr.concludeFormerNames (hfin hc.2)
  refine script_doIf (fun hc => ?_) fun _ hs => hs.1
  simp only [Bool.and_eq_true, decide_eq_true_eq] at hc
  obtain ⟨⟨hfile, henum⟩, rfl⟩ := hc
  exact Prog.Triple.mono (hr.concludeMoves hfile henum) (fun _ hs => hs) fun _ _ hs => hs.1

theorem conclude (listedNothing : Bool) :
    Script deps out Inv Late Joined (Good Inv) (conclude deps listedNothing) fun _ => Good Late := by
  intro s hgood
  refine hr.early.reread (d := false) (w := s.vars) (g := fun v => (v, v))
    (fun v => ⟨.refl v, .refl v, rfl⟩) (fun v _ => ?_) s ⟨hgood, .refl _, nofun⟩
  have hfin (h : reachedEvery listedNothing v = true) : v.unfinishedCollections = [] := by
    simp only [reachedEvery, Bool.and_eq_true, List.isEmpty_iff] at h
    exact h.2
  split
  · exact Prog.triple_throw
  · refine Prog.Triple.bind hr.askStillDecides fun decides => ?_
    refine Prog.Triple.bind (script_doIf
      (Q := fun s => Good Inv s ∧ Closing deps decides v s)
      (fun hc => hr.concludeRemovals (hfin hc)) fun _ hs => hs) fun _ => ?_
    exact Prog.Triple.mono (hr.concludeRest listedNothing decides)
      (fun _ hs => ⟨hr.early.good_late hs.1, hs.2⟩) fun _ _ hs => hs

/-- **The script of a pass**, under any invariant with the rule. -/
theorem runDomainSync :
    Script deps out Inv Late Joined (Good Inv) (runDomainSync deps) fun _ => Good Late := by
  refine Prog.Triple.bind (Prog.Triple.mono hr.opening (fun _ hs => ⟨hs, trivial⟩)
    fun _ _ hs => hs.1) fun _ => ?_
  refine Prog.Triple.bind (script_onVars (Q := fun _ => Good Inv) fun s hs => hs)
    fun listedNothing => ?_
  cases listedNothing with
  | true =>
      refine Prog.Triple.bind (script_modify (Q := Good Inv)
        fun s hs => hr.early.good_vars hs (.quiet { Grows.refl _ with } rfl rfl)) fun _ => ?_
      refine Prog.Triple.bind (hr.conclude true) fun _ => ?_
      refine Prog.Triple.bind (script_onVars (Q := fun _ => Good Late) fun s hs => hs)
        fun v => ?_
      exact Prog.triple_ret fun _ hs => hs
  | false =>
      refine Prog.Triple.bind (Prog.Triple.mono (hr.early.ask .listFolders trivial lasting_true)
        (fun _ hs => ⟨hs, trivial⟩) fun _ _ hs => hs.1) fun folders => ?_
      refine Prog.Triple.bind (hr.syncCollections folders) fun _ => ?_
      refine Prog.Triple.bind (hr.conclude false) fun _ => ?_
      refine Prog.Triple.bind (script_onVars (Q := fun _ => Good Late) fun s hs => hs)
        fun v => ?_
      exact Prog.triple_ret fun _ hs => hs

/-! ### Runs -/

variable {s₀ : PassState Item Raw Folder τ}

/-- **The rule of the pass**: in every run, every call is one of `PassCall`. -/
theorem run {o : SyncOp Item Raw Folder} {k} {h} (hgood : Good Inv s₀)
    (hrun : PassRun deps out s₀ (.call o k) h s) :
    PassCall deps Inv Late Joined s o ∧ Good Late s :=
  (Prog.Wp.run hrun (hr.runDomainSync s₀ hgood)).1

/-- The invariant at the end of a run. -/
theorem run_ret {result} {h} (hgood : Good Inv s₀)
    (hrun : PassRun deps out s₀ (.ret result) h s) : Good Late s :=
  Prog.Wp.run hrun (hr.runDomainSync s₀ hgood) result rfl

/-- **Every call a pass is about to make**: one of the script's own, or one of
an item's task. -/
theorem issues {o : SyncOp Item Raw Folder} (hgood : Good Inv s₀)
    (hi : Issues deps out s₀ s o) :
    (PassCall deps Inv Late Joined s o ∧ Good Late s) ∨
      ∃ s₁ visit heldBefore folder listing pl i item, Inv s₁ ∧
        Ready deps visit heldBefore folder listing s₁ ∧
        Pool.Reaches out.Effects deps.concurrency (workers deps visit folder listing.items)
          s₁ pl s ∧
        listing.items[i]? = some item ∧
        ∀ a, TaskStep deps (deps.collectionPathOf folder) item visit i (pl.path i) (.call o a) := by
  cases hi with
  | pass hrun => exact .inl (hr.run hgood hrun)
  | item hrun hreach hmem hprog =>
      rename_i t k'
      obtain ⟨hcall, -⟩ := hr.run hgood hrun
      cases hcall with
      | outward ho => cases ho
      | items hinv hready =>
          obtain ⟨i, ht⟩ := List.getElem?_of_mem hmem
          have hok := block_rule (I := fun _ _ => True) rfl hready.windows hready.answered trivial
            (fun _ _ _ _ _ _ _ _ _ _ _ _ => trivial) hreach
          have hwalk := hok.walks i t ht
          rw [hprog, ← Pool.path_of_getElem ht] at hwalk
          obtain ⟨item, hitem, -⟩ := (hwalk (.error { message := "" })).1
          refine .inr ⟨_, _, _, _, _, _, i, item, hinv, hready, hreach, hitem, fun a => ?_⟩
          obtain ⟨item', hitem', hstep⟩ := (hwalk a).1
          rw [hitem] at hitem'
          cases hitem'
          exact hstep

end PassRule

end Script

end Ownpace.Sync
