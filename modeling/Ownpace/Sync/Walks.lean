/-
Ownpace/Sync/Walks.lean

The task of one item, walked.

The rules of a walk (`Walk`, `AttemptWalk`), and the walk of the gate.  Each
function of the task has one such spec, in the order of `Item.lean`; callers
cite it and never open the function.
-/
import Ownpace.Sync.Steps

namespace Ownpace.Sync

open Await Ownpace

variable {Item Raw Folder τ α β : Type}
variable {deps : DomainSyncDeps Item Raw Folder} {path : String} {item : Item}

/-- From the path `h` on, every event of the program is justified by `J`, and a
value it returns is described by `P` and the path. -/
def Walk (J : Path Item Raw Folder τ → Ev Item Raw Folder τ → Prop)
    (p : Pass Item Raw Folder τ α) (h : Path Item Raw Folder τ)
    (P : Path Item Raw Folder τ → α → Prop) : Prop :=
  p.Always J (fun h' r => ∀ a, r = .ok a → P h' a) h

/-- The key a failed attempt would be recorded under is one of the item's, and
the listed one wherever there is one. -/
structure LocalsOk (deps : DomainSyncDeps Item Raw Folder) (item : Item)
    (locals : Locals) : Prop where
  mayHave : ∀ key, locals.naturalKeyHash = some key → MayHaveKey deps item key
  listed : ∀ key, deps.naturalKey item = some key → locals.naturalKeyHash = some key

variable (deps path item) in
/-- The same of a program inside the `try`: a thrown error leaves its local
variables in order. -/
def AttemptWalk (p : Attempt Item Raw Folder τ α) (h : Path Item Raw Folder τ)
    (P : Path Item Raw Folder τ → α → Prop) : Prop :=
  p.Always (ItemStep deps path item) (fun h' r => match r with
    | .ok a => P h' a
    | .error failed => LocalsOk deps item failed.locals) h

/-! ### The rules -/

section Rules

variable {J J' : Path Item Raw Folder τ → Ev Item Raw Folder τ → Prop}
variable {h : Path Item Raw Folder τ} {P : Path Item Raw Folder τ → α → Prop}
variable {Q : Path Item Raw Folder τ → β → Prop}

theorem Walk.ret {a : α} (ha : P h a) : Walk J (Prog.ret a) h P := by
  rintro b ⟨⟩
  exact ha

theorem Walk.throw {e : Err} : Walk J (Prog.throw e) h P := nofun

theorem Walk.bind {p : Pass Item Raw Folder τ α} {f : α → Pass Item Raw Folder τ β}
    (hp : Walk J p h P) (hf : ∀ h' a, h <+: h' → P h' a → Walk J (f a) h' Q) :
    Walk J (p >>= f) h Q :=
  Prog.Always.andThen hp (fun h' a hpre ha => hf h' a hpre (ha a rfl)) fun _ _ _ _ => nofun

theorem Walk.mono {P' : Path Item Raw Folder τ → α → Prop} {p : Pass Item Raw Folder τ α}
    (hp : Walk J p h P) (hP : ∀ h' a, h <+: h' → P h' a → P' h' a) : Walk J p h P' :=
  Prog.Always.mono hp fun h' _ hpre hr a ha => hP h' a hpre (hr a ha)

theorem Walk.weaken {p : Pass Item Raw Folder τ α} (hp : Walk J p h P)
    (hJ : ∀ h e, J h e → J' h e) : Walk J' p h P :=
  Prog.Always.mono (Prog.Always.collect hp (Q := fun _ => True)
    (fun h e he => ⟨hJ h e he, trivial⟩) fun _ _ => trivial) fun _ _ _ hr => hr.1

theorem walk_ask {o : SyncOp Item Raw Folder} (ho : ∀ a : o.Ans, J h (.call o a)) :
    Walk J (ask o) h fun h' a => Event.call o (.ok a) ∈ h' := by
  refine Prog.always_awaitWith.mpr ⟨fun a => ⟨ho _, ?_⟩, fun e => ⟨ho _, nofun⟩⟩
  rintro b ⟨⟩
  exact List.mem_append_right _ (List.mem_singleton_self _)

theorem walk_askLedger {o : LedgerOp}
    (ho : ∀ a : Except Err o.Reply, J h (.call (.ledger o) a)) :
    Walk J (askLedger o) h fun h' a => Event.call (SyncOp.ledger o) (.ok a) ∈ h' :=
  walk_ask ho

/-- A call whose rejection is not thrown on. -/
theorem walk_attempt {o : SyncOp Item Raw Folder} (ho : ∀ a : o.Ans, J h (.call o a)) :
    Walk J (ask o).attempt h fun h' r => ∀ a, r = .ok a → Event.call o (.ok a) ∈ h' := by
  refine Prog.always_attempt.mpr (Prog.always_awaitWith.mpr
    ⟨fun a => ⟨ho _, ?_⟩, fun e => ⟨ho _, ?_⟩⟩)
  · rintro r ⟨⟩ b ⟨⟩
    exact List.mem_append_right _ (List.mem_singleton_self _)
  · rintro r ⟨⟩ b ⟨⟩

theorem walk_doIf {condition : Bool} {p : Pass Item Raw Folder τ Unit}
    {P : Path Item Raw Folder τ → Unit → Prop} (hp : condition = true → Walk J p h P) :
    Walk J (doIf condition p) h fun _ _ => True := by
  unfold doIf
  split
  · next hc => exact (hp hc).mono fun _ _ _ _ => trivial
  · exact .ret trivial

theorem walk_step {f : Vars Item → Vars Item × β}
    (hJ : ∀ s : PassState Item Raw Folder τ, J h (.sync s { s with vars := (f s.vars).1 })) :
    Walk J (onVars f) h fun h' b => ∃ s : PassState Item Raw Folder τ,
      Event.sync s { s with vars := (f s.vars).1 } ∈ h' ∧ b = (f s.vars).2 := by
  intro s
  refine ⟨hJ s, ?_⟩
  rintro b ⟨⟩
  exact ⟨s, List.mem_append_right _ (List.mem_singleton_self _), rfl⟩

/-- A quiet step is one of any item's. -/
theorem ItemStep.quiet {e : Ev Item Raw Folder τ} (he : QuietStep h e) :
    ItemStep deps path item h e := by
  cases he with
  | vars hg hl hw => exact .vars hg (fun n rows hmem => .inl (hw ▸ hmem)) hl
  | @asks o a ho =>
      refine .asks ?_
      cases o <;> first | exact trivial | cases ho

theorem Walk.quiet {p : Pass Item Raw Folder τ α} (hp : Walk QuietStep p h P) :
    Walk (ItemStep deps path item) p h P :=
  hp.weaken fun _ _ he => .quiet he

/-- A step on the variables that is about no item. -/
theorem walk_onVars {f : Vars Item → Vars Item × β}
    (hq : ∀ h e, QuietStep (τ := τ) h e → J h e) (hg : ∀ v, Grows v (f v).1)
    (hl : ∀ v, (f v).1.left = v.left) (hw : ∀ v, (f v).1.windows = v.windows) :
    Walk J (onVars f) h fun h' b => ∃ s : PassState Item Raw Folder τ,
      Event.sync s { s with vars := (f s.vars).1 } ∈ h' ∧ b = (f s.vars).2 :=
  walk_step fun _ => hq _ _ (.vars (hg _) (hl _) (hw _))

theorem walk_modifyVars {f : Vars Item → Vars Item}
    (hq : ∀ h e, QuietStep (τ := τ) h e → J h e) (hg : ∀ v, Grows v (f v))
    (hl : ∀ v, (f v).left = v.left) (hw : ∀ v, (f v).windows = v.windows) :
    Walk J (modifyVars f) h fun h' _ => ∃ s : PassState Item Raw Folder τ,
      Event.sync s { s with vars := f s.vars } ∈ h' :=
  (walk_onVars (f := fun v => (f v, ())) hq hg hl hw).mono fun _ _ _ ⟨s, hmem, _⟩ => ⟨s, hmem⟩

/-- A call of an item's task that changes no row. -/
theorem walk_asks (o : SyncOp Item Raw Folder) (ho : asks deps item o) :
    Walk (ItemStep deps path item) (ask o) h fun h' a => Event.call o (.ok a) ∈ h' :=
  walk_ask fun _ => .asks ho

theorem AttemptWalk.ret {a : α} (ha : P h a) :
    AttemptWalk deps path item (Prog.ret a) h P := ha

theorem AttemptWalk.throw {failed : Failed} (hl : LocalsOk deps item failed.locals) :
    AttemptWalk deps path item (Prog.throw failed) h P := hl

theorem AttemptWalk.bind {p : Attempt Item Raw Folder τ α}
    {f : α → Attempt Item Raw Folder τ β} (hp : AttemptWalk deps path item p h P)
    (hf : ∀ h' a, h <+: h' → P h' a → AttemptWalk deps path item (f a) h' Q) :
    AttemptWalk deps path item (p >>= f) h Q :=
  Prog.Always.andThen hp hf fun _ _ _ he => he

theorem Walk.within {p : Pass Item Raw Folder τ α} {locals : Locals}
    (hp : Walk (ItemStep deps path item) p h P) (hl : LocalsOk deps item locals) :
    AttemptWalk deps path item (within locals p) h P := by
  refine Prog.always_mapError.mpr (Prog.Always.mono hp fun h' r _ hr => ?_)
  cases r with
  | ok a => exact hr a rfl
  | error e => exact hl

theorem attemptWalk_modifyVars {f : Vars Item → Vars Item} (hg : ∀ v, Grows v (f v))
    (hl : ∀ v, (f v).left = v.left) (hw : ∀ v, (f v).windows = v.windows) :
    AttemptWalk deps path item (modifyVars f) h fun h' _ =>
      ∃ s : PassState Item Raw Folder τ, Event.sync s { s with vars := f s.vars } ∈ h' := by
  intro s
  exact ⟨.quiet (.vars (hg _) (hl _) (hw _)),
    s, List.mem_append_right _ (List.mem_singleton_self _)⟩

theorem attemptWalk_ofExcept {r : Except Failed α}
    (herr : ∀ failed, r = .error failed → LocalsOk deps item failed.locals) :
    AttemptWalk deps path item (Prog.ofExcept r : Attempt Item Raw Folder τ α) h
      fun _ a => r = .ok a := by
  cases r with
  | ok a => exact rfl
  | error failed => exact herr failed rfl

end Rules

/-! ### What a path tells stays told -/

section Mono

variable {h h' : Path Item Raw Folder τ} {key : String}

theorem Told.mono {row : Option LedgerRecord} (ht : Told deps h key row) (hpre : h <+: h') :
    Told deps h' key row := by
  obtain ⟨e, hmem, he⟩ := ht
  exact ⟨e, hpre.subset hmem, he⟩

theorem SeenHere.mono (hs : SeenHere path h key) (hpre : h <+: h') : SeenHere path h' key :=
  Saw.mono hs hpre.subset

theorem TakenUp.mono {hasExistingRow : Bool} {rewriteOf : Option LedgerRecord}
    (ht : TakenUp deps path item h key hasExistingRow rewriteOf) (hpre : h <+: h') :
    TakenUp deps path item h' key hasExistingRow rewriteOf := by
  cases ht with
  | new ht => exact .new (ht.mono hpre)
  | again ht hc => exact .again (ht.mono hpre) hc
  | rewrite ht hc ha => exact .rewrite (ht.mono hpre) hc ha

theorem KeyedBy.mono {raw : Raw} (hk : KeyedBy deps item h key raw) (hpre : h <+: h') :
    KeyedBy deps item h' key raw := by
  cases hk with
  | listed hn hf => exact .listed hn (hpre.subset hf)
  | derived hn hf hr hd => exact .derived hn (hpre.subset hf) hr hd
  | legacy hn hf hr hd he hm hk => exact .legacy hn (hpre.subset hf) hr hd he hm hk

theorem told_find {row : Option LedgerRecord}
    (hmem : Event.call (.ledger (.find deps.domain key)) (.ok row) ∈ h) :
    Told deps h key row := ⟨_, hmem, .find⟩

theorem KeyedBy.mayHave {raw : Raw} (hk : KeyedBy deps item h key raw) :
    MayHaveKey deps item key := by
  cases hk with
  | listed hn _ => exact .inl hn
  | derived hn _ hr hd => exact .inr ⟨hn, _, _, _, hr, hd, .inl rfl⟩
  | legacy hn _ hr hd he hm hk =>
      exact .inr ⟨hn, _, _, _, hr, hd, .inr ⟨_, he, _, hm, hk.symm⟩⟩

end Mono

/-! ### The gate -/

theorem grows_pauseNow (provider : String) (budget : ByteBudgetState) (v : Vars Item) :
    Grows v (pauseNow provider budget v) := by
  unfold pauseNow
  split
  · exact .refl v
  · exact { Grows.refl _ with paused := fun _ => rfl, answered := fun _ _ => rfl }

theorem paused_pauseNow (provider : String) (budget : ByteBudgetState) (v : Vars Item) :
    (pauseNow provider budget v).paused = true := by
  unfold pauseNow Vars.paused
  split
  · next hp => rw [hp]; rfl
  · rfl

theorem stopIfPastDeadline_spec (clock : Nat) (v : Vars Item) :
    Grows v (stopIfPastDeadline deps clock v).1 ∧
      (stopIfPastDeadline deps clock v).1.left = v.left ∧
      (stopIfPastDeadline deps clock v).1.windows = v.windows ∧
      ((stopIfPastDeadline deps clock v).2 = true →
        (stopIfPastDeadline deps clock v).1.paused = true) := by
  unfold stopIfPastDeadline
  split
  · split
    · exact ⟨.refl v, rfl, rfl, nofun⟩
    · have hpaused (w : Vars Item) (hd : w.deadlinePause.isSome) : w.paused = true := by
        simp [Vars.paused, hd]
      exact ⟨{ Grows.refl _ with paused := fun _ => hpaused _ rfl, answered := fun _ _ => hpaused _ rfl },
        rfl, rfl, fun _ => hpaused _ rfl⟩
  · exact ⟨.refl v, rfl, rfl, nofun⟩

theorem stopIfToldTo_spec (clock : Nat) (v : Vars Item) :
    Grows v (stopIfToldTo deps clock v).1 ∧
      (stopIfToldTo deps clock v).1.left = v.left ∧
      (stopIfToldTo deps clock v).1.windows = v.windows ∧
      (stopIfToldTo deps clock v).2 ≠ .stop := by
  unfold stopIfToldTo
  split
  · exact ⟨.refl v, rfl, rfl, nofun⟩
  · split
    · exact ⟨.refl v, rfl, rfl, nofun⟩
    · split
      · exact ⟨.refl v, rfl, rfl, nofun⟩
      · exact ⟨{ Grows.refl _ with }, rfl, rfl, nofun⟩

theorem gate_spec (deadlineAt haltAt : Nat) (v : Vars Item) :
    Grows v (gate deps deadlineAt haltAt v).1 ∧
      (gate deps deadlineAt haltAt v).1.left = v.left ∧
      (gate deps deadlineAt haltAt v).1.windows = v.windows ∧
      ((gate deps deadlineAt haltAt v).2 = .stop →
        (gate deps deadlineAt haltAt v).1.paused = true) := by
  unfold gate
  split
  · next hp => exact ⟨.refl v, rfl, rfl, fun _ => hp⟩
  · have hd := @stopIfPastDeadline_spec _ _ _ deps deadlineAt v
    split
    · next w heq =>
        rw [heq] at hd
        exact ⟨hd.1, hd.2.1, hd.2.2.1, fun _ => hd.2.2.2 rfl⟩
    · next w heq =>
        rw [heq] at hd
        have ht := @stopIfToldTo_spec _ _ _ deps haltAt w
        exact ⟨hd.1.trans ht.1, ht.2.1.trans hd.2.1, ht.2.2.1.trans hd.2.2.1,
          fun hs => absurd hs ht.2.2.2⟩

/-- The pass was found paused, or told to stop, on this path. -/
def Stopped (h : Path Item Raw Folder τ) : Prop :=
  Saw h (fun v => v.paused = true) ∨ ∃ n, Event.call (.awaitAsking n) (.ok true) ∈ h

theorem Stopped.mono {h h' : Path Item Raw Folder τ} (hs : Stopped h) (hpre : h <+: h') :
    Stopped h' := by
  rcases hs with hs | ⟨n, hmem⟩
  · exact .inl (hs.mono hpre.subset)
  · exact .inr ⟨n, hpre.subset hmem⟩

theorem grows_settleAsking {v : Vars Item} {n : Nat} {answer : Except Err Bool}
    (ha : answer = .ok true → v.paused = true) : Grows v (settleAsking n answer v) := by
  refine { Grows.refl _ with answered := ?_ }
  rintro hv ⟨m, hmem⟩
  rcases List.mem_cons.mp hmem with heq | hmem
  · exact ha (congrArg Prod.snd heq).symm
  · exact hv ⟨m, hmem⟩

theorem walk_askWhyItStops (promise clock : Nat) {h : Path Item Raw Folder τ} :
    Walk QuietStep (askWhyItStops promise clock) h fun h' b => b = true → Stopped h' := by
  refine Walk.bind (walk_attempt fun _ => .asks trivial) fun h' r _ _ => ?_
  have hpaused (v : Vars Item) (hv : v.haltPause.isSome) : v.paused = true := by
    simp [Vars.paused, hv]
  match r with
  | .error e =>
      exact Walk.bind (walk_modifyVars (fun _ _ => id) (fun v => grows_settleAsking nofun) (fun _ => rfl)
        fun _ => rfl) fun _ _ _ _ => .throw
  | .ok none =>
      exact Walk.bind (walk_modifyVars (fun _ _ => id) (fun v => grows_settleAsking nofun) (fun _ => rfl)
        fun _ => rfl) fun _ _ _ _ => .ret nofun
  | .ok (some reason) =>
      refine Walk.bind (walk_modifyVars (fun _ _ => id) (fun v => ?_) (fun _ => rfl) fun _ => rfl)
        fun h'' _ _ hs => .ret fun _ => ?_
      · refine Grows.trans ?_ (grows_settleAsking fun _ => hpaused _ rfl)
        exact { Grows.refl _ with paused := fun _ => hpaused _ rfl, answered := fun _ _ => hpaused _ rfl }
      · obtain ⟨s, hmem⟩ := hs
        exact .inl ⟨_, _, hmem, hpaused _ rfl⟩

theorem walk_passGate (clock : Nat) {h : Path Item Raw Folder τ} {answer : Gate}
    (hstop : answer = .stop → Stopped h) :
    Walk QuietStep (passGate clock answer) h fun h' b => b = true → Stopped h' := by
  cases answer with
  | stop => exact .ret fun _ => hstop rfl
  | go => exact .ret nofun
  | wait n =>
      refine (walk_ask (o := .awaitAsking n) fun _ => .asks trivial).mono fun h' b _ hmem hb => .inr ⟨n, ?_⟩
      rwa [hb] at hmem
  | ask n => exact walk_askWhyItStops n clock

/-- The answer of any gate, waited for. -/
theorem walk_gateAnswer (clock : Nat) (answer : Gate) {h : Path Item Raw Folder τ} :
    Walk QuietStep (passGate clock answer) h fun _ _ => True := by
  cases answer with
  | stop => exact .ret trivial
  | go => exact .ret trivial
  | wait n =>
      have hstop : Gate.wait n = .stop → Stopped h := nofun
      exact Walk.mono (walk_passGate clock hstop) fun _ _ _ _ => trivial
  | ask n =>
      have hstop : Gate.ask n = .stop → Stopped h := nofun
      exact Walk.mono (walk_passGate clock hstop) fun _ _ _ _ => trivial

theorem walk_stopTakingNewWork {h : Path Item Raw Folder τ} :
    Walk QuietStep (stopTakingNewWork deps) h fun h' b => b = true → Stopped h' := by
  refine (walk_ask (o := .now) fun _ => .asks trivial).bind fun _ deadlineAt _ _ => ?_
  refine (walk_ask (o := .now) fun _ => .asks trivial).bind fun _ haltAt _ _ => ?_
  refine (walk_onVars (fun _ _ => id) (fun v => (gate_spec deadlineAt haltAt v).1)
    (fun v => (gate_spec deadlineAt haltAt v).2.1)
    fun v => (gate_spec deadlineAt haltAt v).2.2.1).bind fun h' answer _ hs => ?_
  obtain ⟨s, hmem, rfl⟩ := hs
  refine walk_passGate haltAt fun hstop => .inl ⟨_, _, hmem, ?_⟩
  exact (gate_spec deadlineAt haltAt s.vars).2.2.2 hstop

end Ownpace.Sync
