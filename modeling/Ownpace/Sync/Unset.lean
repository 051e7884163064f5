/-
Ownpace/Sync/Unset.lean

Programs of a pass that set no cursor.

`Later` is what any step of a pass but the setting of a cursor, and any task of
a listing, leaves of the calls made, the removals reported and the cursors that
wait for them.  `Unset` says that a program consists of such steps; most of the
script of a pass does, function by function in the order of `Pass.lean`.
-/
import Ownpace.Sync.Rule

namespace Ownpace.Sync

open Await Ownpace

variable {Item Raw Folder τ α : Type}

/-! ### What this pass has called -/

/-- The calls since `s₀`. -/
def callsSince (s₀ s : PassState Item Raw Folder τ) : List (Made Item Raw Folder) :=
  s.world.log.drop s₀.world.log.length

/-- From `s` to `s'` calls were added, reported removals too, and the cursors
that wait for them are the same. -/
structure Later (s s' : PassState Item Raw Folder τ) : Prop where
  log : s.world.log <+: s'.world.log
  removals : s.vars.reportedRemovals ⊆ s'.vars.reportedRemovals
  held : s'.vars.cursorsHeldForRemovals = s.vars.cursorsHeldForRemovals

section Later

variable {deps : DomainSyncDeps Item Raw Folder} {out : Outside Item Raw Folder τ}
variable {s₀ s s' s'' : PassState Item Raw Folder τ} {o : SyncOp Item Raw Folder} {a : o.Ans}

theorem Later.refl (s : PassState Item Raw Folder τ) : Later s s :=
  ⟨List.prefix_rfl, List.Subset.refl _, rfl⟩

theorem Later.trans (h₁ : Later s s') (h₂ : Later s' s'') : Later s s'' where
  log := h₁.log.trans h₂.log
  removals := List.Subset.trans h₁.removals h₂.removals
  held := h₂.held.trans h₁.held

theorem Later.vars {v : Vars Item} (hr : s.vars.reportedRemovals ⊆ v.reportedRemovals)
    (hc : v.cursorsHeldForRemovals = s.vars.cursorsHeldForRemovals) :
    Later s { s with vars := v } :=
  ⟨List.prefix_rfl, hr, hc⟩

theorem Later.call (hw : out.Effects s o a s') : Later s s' where
  log := by
    rw [log_grows hw]
    exact List.prefix_append _ _
  removals := by
    rw [effects_vars hw]
    exact List.Subset.refl _
  held := by rw [effects_vars hw]

theorem callsSince_subset (hlog : s₀.world.log <+: s.world.log) (hl : Later s s') :
    callsSince s₀ s ⊆ callsSince s₀ s' := by
  obtain ⟨made, hmade⟩ := hlog
  obtain ⟨more, hmore⟩ := hl.log
  rw [callsSince, callsSince, ← hmore, ← hmade, List.append_assoc, List.drop_left, List.drop_left]
  exact List.subset_append_left _ _

theorem mem_callsSince_call (hlog : s₀.world.log <+: s.world.log) (hw : out.Effects s o a s') :
    ⟨o, a⟩ ∈ callsSince s₀ s' := by
  obtain ⟨made, hmade⟩ := hlog
  rw [callsSince, log_grows hw, ← hmade, List.append_assoc, List.drop_left]
  exact List.mem_append_right _ (List.mem_singleton_self _)

/-- The tasks of a listing: they call, and report nothing. -/
theorem later_reaches {visit : Nat} {folder : Folder} {items : List Item}
    {pl : Pool (PassState Item Raw Folder τ) (SyncOp Item Raw Folder) SyncOp.Ans Err}
    (hreach : Pool.Reaches out.Effects deps.concurrency (workers deps visit folder items) s pl s') :
    Pool.Ok (workers deps visit folder items)
      (ItemJ deps visit (deps.collectionPathOf folder) items)
      (ItemD deps visit (deps.collectionPathOf folder) items) (fun _ s' => Later s s') pl s' := by
  refine Pool.rule (fun i p hp => ?_) ?_ (.refl s) hreach
  · obtain ⟨item, hi, rfl⟩ := worker_of_getElem hp
    exact Prog.Always.mono (Prog.Always.collect (walk_worker visit folder items i item)
      (Q := fun _ => True) (fun h e he => ⟨⟨item, hi, he⟩, trivial⟩) fun _ _ => trivial)
      fun _ _ _ hr => ⟨item, hi, hr.1⟩
  · rintro paths s₁ i e s₂ - hl ⟨item, hi, he⟩ hf
    refine hl.trans ?_
    cases e with
    | call o a => exact .call hf
    | sync b a =>
        obtain ⟨rfl, rfl⟩ := hf
        obtain ⟨hg, hworld, -⟩ := he.sync
        refine ⟨?_, ?_, hg.cursorsHeld⟩
        · exact hworld ▸ List.prefix_rfl
        · rw [hg.reportedRemovals]
          exact List.Subset.refl _

theorem later_effects (hw : Effects deps out s o a s') : Later s s' := by
  cases o with
  | mapItems visit folder items =>
      obtain ⟨pl, hreach, -, -⟩ := hw
      exact (later_reaches hreach).inv
  | _ => exact .call hw

/-- No item's task sets a cursor. -/
theorem task_sets_no_cursor {visit : Nat} {folder : Folder} {items : List Item}
    {pl : Pool (PassState Item Raw Folder τ) (SyncOp Item Raw Folder) SyncOp.Ans Err}
    {t : Task (PassState Item Raw Folder τ) (SyncOp Item Raw Folder) SyncOp.Ans Err}
    {path cursor : String} {k}
    (hreach : Pool.Reaches out.Effects deps.concurrency (workers deps visit folder items) s pl s')
    (hmem : t ∈ pl.started) : t.prog ≠ .call (.cursorSet path cursor) k := by
  intro hprog
  obtain ⟨i, ht⟩ := List.getElem?_of_mem hmem
  have hwalk := (later_reaches hreach).walks i t ht
  rw [hprog] at hwalk
  obtain ⟨item, hi, hstep⟩ := (hwalk (.ok ())).1
  cases hstep with
  | item he => cases he with | asks ho => cases ho

end Later

/-! ### Programs that set no cursor -/

/-- A step that sets no cursor, takes no removal back and lets no other cursor
wait. -/
inductive Apart : Ev Item Raw Folder τ → Prop
  | vars {s v} : s.vars.reportedRemovals ⊆ v.reportedRemovals →
      v.cursorsHeldForRemovals = s.vars.cursorsHeldForRemovals →
      Apart (.sync s { s with vars := v })
  | call {o a} : (∀ path cursor, o ≠ .cursorSet path cursor) → Apart (.call o a)

/-- A program of such steps. -/
def Unset (p : Pass Item Raw Folder τ α) : Prop :=
  ∀ h, Walk (fun _ e => Apart e) p h fun _ _ => True

section Unset

variable {deps : DomainSyncDeps Item Raw Folder} {out : Outside Item Raw Folder τ}
variable {β : Type} {p : Pass Item Raw Folder τ α}

namespace Unset

theorem ret {a : α} : Unset (Prog.ret a : Pass Item Raw Folder τ α) := fun _ => .ret trivial

theorem throw {e : Err} : Unset (Prog.throw e : Pass Item Raw Folder τ α) := fun _ => .throw

theorem bind {f : α → Pass Item Raw Folder τ β} (hp : Unset p) (hf : ∀ a, Unset (f a)) :
    Unset (p >>= f) :=
  fun h => (hp h).bind fun h' a _ _ => hf a h'

theorem ask {o : SyncOp Item Raw Folder} (ho : ∀ path cursor, o ≠ .cursorSet path cursor) :
    Unset (Sync.ask o : Pass Item Raw Folder τ o.Reply) :=
  fun _ => (walk_ask fun _ => .call ho).mono fun _ _ _ _ => trivial

theorem attempt {o : SyncOp Item Raw Folder} (ho : ∀ path cursor, o ≠ .cursorSet path cursor) :
    Unset ((Sync.ask o).attempt : Pass Item Raw Folder τ _) :=
  fun _ => (walk_attempt fun _ => .call ho).mono fun _ _ _ _ => trivial

theorem askLedger {o : LedgerOp} : Unset (Sync.askLedger o : Pass Item Raw Folder τ o.Reply) :=
  ask nofun

theorem onVars {f : Vars Item → Vars Item × β}
    (hr : ∀ v, v.reportedRemovals ⊆ (f v).1.reportedRemovals)
    (hc : ∀ v, (f v).1.cursorsHeldForRemovals = v.cursorsHeldForRemovals) :
    Unset (Sync.onVars f : Pass Item Raw Folder τ β) :=
  fun _ => (walk_step fun s => .vars (hr s.vars) (hc s.vars)).mono fun _ _ _ _ => trivial

/-- A step on other variables. -/
theorem modify {f : Vars Item → Vars Item}
    (hr : ∀ v, (f v).reportedRemovals = v.reportedRemovals)
    (hc : ∀ v, (f v).cursorsHeldForRemovals = v.cursorsHeldForRemovals) :
    Unset (modifyVars f : Pass Item Raw Folder τ Unit) :=
  onVars (fun v => (hr v).symm ▸ List.Subset.refl _) hc

theorem doIf {condition : Bool} {p : Pass Item Raw Folder τ Unit} (hp : Unset p) :
    Unset (Sync.doIf condition p) :=
  fun h => walk_doIf fun _ => hp h

/-- What touches no item sets no cursor. -/
theorem quiet {P : Path Item Raw Folder τ → α → Prop}
    (hp : ∀ h, Walk QuietStep p h P) : Unset p := by
  intro h
  refine ((hp h).weaken fun h e he => ?_).mono fun _ _ _ _ => trivial
  cases he with
  | vars hg _ _ => exact .vars (hg.reportedRemovals ▸ List.Subset.refl _) hg.cursorsHeld
  | @asks o a ho =>
      refine .call fun path cursor heq => ?_
      subst heq
      exact ho

end Unset

theorem unset_readVars : Unset (readVars : Pass Item Raw Folder τ (Vars Item)) :=
  .onVars (fun _ => List.Subset.refl _) fun _ => rfl

theorem pauseNow_removals (provider : String) (budget : ByteBudgetState) (v : Vars Item) :
    (pauseNow provider budget v).reportedRemovals = v.reportedRemovals ∧
      (pauseNow provider budget v).cursorsHeldForRemovals = v.cursorsHeldForRemovals :=
  ⟨(grows_pauseNow provider budget v).reportedRemovals, (grows_pauseNow provider budget v).cursorsHeld⟩

theorem unset_opening : Unset (opening deps : Pass Item Raw Folder τ Unit) := by
  refine .bind (.ask (by rintro _ _ ⟨⟩)) fun startedAt => .bind (.modify (fun _ => rfl) fun _ => rfl) fun _ => ?_
  refine .bind ?_ fun _ => .bind (.ask (by rintro _ _ ⟨⟩)) fun deadlineAt => .bind (.ask (by rintro _ _ ⟨⟩)) fun haltAt => ?_
  · unfold checkBudget
    split
    · exact .ret
    · refine .bind (.ask (by rintro _ _ ⟨⟩)) fun budget => .modify (fun v => ?_) fun v => ?_
      · split
        · exact (pauseNow_removals _ _ v).1
        · rfl
      · split
        · exact (pauseNow_removals _ _ v).2
        · rfl
  · have hgate (v : Vars Item) : Grows v (openingGate deps deadlineAt haltAt v).1 := by
      have hd := @stopIfPastDeadline_spec _ _ _ deps deadlineAt v
      have ht := @stopIfToldTo_spec _ _ _ deps haltAt (stopIfPastDeadline deps deadlineAt v).1
      unfold openingGate
      dsimp only
      split
      · exact hd.1
      · exact hd.1.trans ht.1
    refine .bind (.onVars (fun v => ?_) fun v => (hgate v).cursorsHeld) fun answer => ?_
    · rw [(hgate v).reportedRemovals]
      exact List.Subset.refl _
    · exact .bind (.quiet fun _ => walk_gateAnswer haltAt answer) fun _ => .ret

theorem unset_leaveUnread (folder : Folder) (err : Err) :
    Unset (leaveUnread deps folder err : Pass Item Raw Folder τ Unit) := by
  unfold leaveUnread
  dsimp only
  split
  · exact .throw
  · refine .bind (.onVars (fun _ => List.Subset.refl _) fun _ => rfl) fun inARow => ?_
    split
    · exact .throw
    · refine .bind (.modify (fun _ => rfl) fun _ => rfl) fun _ => .bind (.ask nofun) fun _ => ?_
      exact .modify (fun _ => rfl) fun _ => rfl

theorem unset_enumerateKeys (folder : Folder) (prev : Option String) :
    Unset (enumerateKeys deps folder prev : Pass Item Raw Folder τ Unit) := by
  unfold enumerateKeys
  dsimp only
  split
  · refine .bind (.attempt nofun) fun answer => ?_
    cases answer with
    | ok keys => exact .modify (fun _ => rfl) fun _ => rfl
    | error e =>
        exact .bind (.modify (fun _ => rfl) fun _ => rfl) fun _ => .bind (.ask nofun) fun _ => .ret
  · split
    · exact .modify (fun _ => rfl) fun _ => rfl
    · exact .ret

/-! What is concluded after the removals. -/

theorem unset_resolveDiscarded (seen : Vars Item) (keys : List String) :
    Unset (resolveDiscarded deps seen keys : Pass Item Raw Folder τ _) := by
  induction keys with
  | nil => exact .ret
  | cons key rest ih =>
      unfold resolveDiscarded
      split
      · exact ih
      · refine .bind .askLedger fun row => ?_
        cases row with
        | none => exact ih
        | some row =>
            dsimp only
            split
            · exact ih
            · exact .bind .askLedger fun recorded => .bind ih fun out => .ret

theorem unset_concludeBin : Unset (concludeBin deps : Pass Item Raw Folder τ Unit) := by
  refine .bind ?_ fun told => ?_
  · unfold toldToStop
    split
    · exact .ask nofun
    · exact .ret
  · split
    · exact .ret
    · refine .bind (.attempt nofun) fun answer => ?_
      cases answer with
      | error e => exact .bind (.ask nofun) fun _ => .ret
      | ok discarded =>
          refine .bind (.onVars (fun v => ?_) fun v => ?_) fun v => ?_
          · dsimp only
            split <;> exact List.Subset.refl _
          · dsimp only
            split <;> rfl
          · exact .bind (unset_resolveDiscarded v _) fun found => .modify (fun _ => rfl) fun _ => rfl

theorem unset_concludeFormerNames :
    Unset (concludeFormerNames deps : Pass Item Raw Folder τ Unit) := by
  refine .bind unset_readVars fun v => ?_
  dsimp only
  split
  · exact .ret
  · refine .bind .askLedger fun closed => .bind (.modify (fun _ => rfl) fun _ => rfl) fun _ => ?_
    exact .bind .askLedger fun marked => .modify (fun _ => rfl) fun _ => rfl

theorem unset_missingRow (seen : Vars Item) (placed : List Ledger.PlacedItem)
    (arrivals : List CreatedItem) (row : Ledger.PlacedItem) :
    Unset (missingRow deps seen placed arrivals row : Pass Item Raw Folder τ _) := by
  unfold missingRow
  dsimp only
  split
  · exact .bind .askLedger fun _ => .bind .askLedger fun _ => .ret
  · split
    · exact .bind .askLedger fun _ => .ret
    · exact .bind .askLedger fun absent => .ret

theorem unset_detectRow (seen : Vars Item) (placed : List Ledger.PlacedItem)
    (arrivals : List CreatedItem) (row : Ledger.PlacedItem) :
    Unset (detectRow deps seen placed arrivals row : Pass Item Raw Folder τ _) := by
  unfold detectRow
  split
  · exact .ret
  · split
    · refine .bind ?_ fun _ => .ret
      exact .bind (.doIf .askLedger) fun _ => .bind (.doIf .askLedger) fun _ => .doIf .askLedger
    · split
      · exact .ret
      · split
        · exact .ret
        · exact unset_missingRow seen placed arrivals row

theorem unset_detectRows (seen : Vars Item) (placed : List Ledger.PlacedItem)
    (arrivals : List CreatedItem) (rows : List Ledger.PlacedItem) :
    Unset (detectRows deps seen placed arrivals rows : Pass Item Raw Folder τ _) := by
  induction rows generalizing arrivals with
  | nil => exact .ret
  | cons row rest ih =>
      exact .bind (unset_detectRow seen placed arrivals row) fun found =>
        .bind (ih found.2) fun more => .ret

theorem unset_concludeMoves : Unset (concludeMoves deps : Pass Item Raw Folder τ Unit) := by
  refine .bind unset_readVars fun v => .bind (.bind .askLedger fun placed => ?_) fun found => ?_
  · exact unset_detectRows v placed _ placed
  · exact .modify (fun _ => rfl) fun _ => rfl

end Unset

end Ownpace.Sync
