/-
Ownpace/Sync/Unmoved.lean

Which programs of a pass say that an item moved.

`Only R p` says of a program that it rewrites the variables by `R` alone, and
neither records a move nor starts the tasks of a listing.  By its rules the task
of an item is walked in the order of `Item.lean`: one function of it records a
move and reports it (`leaveMoved`), every other leaves the reported moves as they
are (`walk_worker_moves`).
-/
import Ownpace.Sync.Rule

namespace Ownpace.Sync

open Await Ownpace

variable {Item Raw Folder τ α β ε : Type}

/-! ### Programs that say nothing of moves -/

/-- The calls that record no move and start no tasks. -/
def plain : SyncOp Item Raw Folder → Prop
  | .ledger (.recordMove ..) | .mapItems .. => False
  | _ => True

inductive Does (R : Vars Item → Vars Item → Prop) : Ev Item Raw Folder τ → Prop
  | vars {s v} : R s.vars v → Does R (.sync s { s with vars := v })
  | call {o a} : plain o → Does R (.call o a)

/-- A program of such steps. -/
def Only (R : Vars Item → Vars Item → Prop)
    (p : Prog (PassState Item Raw Folder τ) (SyncOp Item Raw Folder) SyncOp.Ans ε α) : Prop :=
  ∀ h, p.Always (fun _ e => Does R e) (fun _ _ => True) h

/-- The reported moves are the same. -/
def SameMoves (v w : Vars Item) : Prop := w.moves = v.moves

/-- The pass moves on, and neither lists nor reports a move. -/
structure Aside (v w : Vars Item) : Prop where
  moves : SameMoves v w
  listed : w.listed = v.listed
  seen : v.seenByCollection ⊆ w.seenByCollection
  unfinished : v.unfinishedCollections ⊆ w.unfinishedCollections
  answered : Answered v → Answered w
  windows : w.windows = v.windows ∨ w.windows = []

namespace Only

variable {R R' : Vars Item → Vars Item → Prop}
variable {p : Prog (PassState Item Raw Folder τ) (SyncOp Item Raw Folder) SyncOp.Ans ε α}

theorem ret {a : α} : Only (ε := ε) R (Prog.ret a : Prog (PassState Item Raw Folder τ) _ _ _ _) :=
  fun _ => trivial

theorem throw {e : ε} : Only (α := α) R (Prog.throw e : Prog (PassState Item Raw Folder τ) _ _ _ _) :=
  fun _ => trivial

theorem bind {f : α → Prog (PassState Item Raw Folder τ) (SyncOp Item Raw Folder) SyncOp.Ans ε β}
    (hp : Only R p) (hf : ∀ a, Only R (f a)) : Only R (p >>= f) :=
  fun h => (hp h).andThen (fun h' a _ _ => hf a h') fun _ _ _ _ => trivial

theorem imp (hp : Only R p) (hR : ∀ v w, R v w → R' v w) : Only R' p := by
  intro h
  refine ((hp h).collect (Q := fun _ => True) (fun h e he => ⟨?_, trivial⟩) fun _ _ => trivial).mono
    fun _ _ _ _ => trivial
  cases he with
  | vars hv => exact .vars (hR _ _ hv)
  | call ho => exact .call ho

theorem attempt {ε' : Type} (hp : Only R p) : Only R (p.attempt : Prog _ _ _ ε' _) :=
  fun h => Prog.always_attempt.mpr (hp h)

theorem ask {o : SyncOp Item Raw Folder} (ho : plain o) :
    Only R (Sync.ask o : Pass Item Raw Folder τ o.Reply) :=
  fun _ => Prog.always_awaitWith.mpr ⟨fun _ => ⟨.call ho, trivial⟩, fun _ => ⟨.call ho, trivial⟩⟩

theorem onVars {f : Vars Item → Vars Item × β} (hf : ∀ v, R v (f v).1) :
    Only R (Sync.onVars f : Prog (PassState Item Raw Folder τ) (SyncOp Item Raw Folder) _ ε β) :=
  fun _ s => ⟨.vars (hf s.vars), trivial⟩

theorem modify {f : Vars Item → Vars Item} (hf : ∀ v, R v (f v)) :
    Only R (modifyVars f : Prog (PassState Item Raw Folder τ) (SyncOp Item Raw Folder) _ ε Unit) :=
  onVars hf

theorem doIf {condition : Bool} {p : Pass Item Raw Folder τ Unit} (hp : Only R p) :
    Only R (Sync.doIf condition p) := by
  unfold Sync.doIf
  split
  · exact hp
  · exact ret

theorem within {locals : Locals} {p : Pass Item Raw Folder τ α} (hp : Only R p) :
    Only R (Sync.within locals p) :=
  fun h => Prog.always_mapError.mpr (hp h)

theorem ofExcept {r : Except ε α} :
    Only R (Prog.ofExcept r : Prog (PassState Item Raw Folder τ) (SyncOp Item Raw Folder) _ ε α) := by
  cases r with
  | ok a => exact ret
  | error e => exact throw

end Only

/-! ### The task of an item -/

section Item

variable {deps : DomainSyncDeps Item Raw Folder}

theorem Aside.quiet {v w : Vars Item} (hg : Grows v w) (hw : w.windows = v.windows)
    (hm : w.moves = v.moves) : Aside v w where
  moves := hm
  listed := hg.listed
  seen := hg.seen
  unfinished := hg.unfinished
  answered := hg.answered
  windows := .inl hw

theorem pauseNow_moves (provider : String) (budget : ByteBudgetState) (v : Vars Item) :
    (pauseNow provider budget v).moves = v.moves := by
  unfold pauseNow
  split <;> rfl

theorem stopIfPastDeadline_moves (clock : Nat) (v : Vars Item) :
    (stopIfPastDeadline deps clock v).1.moves = v.moves := by
  unfold stopIfPastDeadline
  split
  · split <;> rfl
  · rfl

theorem stopIfToldTo_moves (clock : Nat) (v : Vars Item) :
    (stopIfToldTo deps clock v).1.moves = v.moves := by
  unfold stopIfToldTo
  split
  · rfl
  · split
    · rfl
    · split <;> rfl

theorem gate_moves (deadlineAt haltAt : Nat) (v : Vars Item) :
    (gate deps deadlineAt haltAt v).1.moves = v.moves := by
  have hd := @stopIfPastDeadline_moves _ _ _ deps deadlineAt v
  unfold gate
  split
  · rfl
  · split
    · next w heq =>
        rw [heq] at hd
        exact hd
    · next w heq =>
        rw [heq] at hd
        exact (stopIfToldTo_moves haltAt w).trans hd

theorem only_askWhyItStops (promise clock : Nat) :
    Only Aside (askWhyItStops promise clock : Pass Item Raw Folder τ Bool) := by
  have hpaused (v : Vars Item) (hv : v.haltPause.isSome) : v.paused = true := by
    simp [Vars.paused, hv]
  refine .bind (.attempt (.ask trivial)) fun answer => ?_
  rcases answer with e | ⟨_ | reason⟩
  · refine .bind (.modify fun v => .quiet (grows_settleAsking ?_) rfl rfl) fun _ => .throw
    intro h
    cases h
  · refine .bind (.modify fun v => .quiet (grows_settleAsking ?_) rfl rfl) fun _ => .ret
    intro h
    cases h
  · refine .bind (.modify fun v => .quiet ?_ rfl rfl) fun _ => .ret
    refine Grows.trans ?_ (grows_settleAsking fun _ => hpaused _ rfl)
    exact { Grows.refl _ with paused := fun _ => hpaused _ rfl, answered := fun _ _ => hpaused _ rfl }

theorem only_passGate (clock : Nat) (answer : Gate) :
    Only Aside (passGate clock answer : Pass Item Raw Folder τ Bool) := by
  cases answer with
  | stop => exact .ret
  | go => exact .ret
  | wait n => exact .ask trivial
  | ask n => exact only_askWhyItStops n clock

theorem only_stopTakingNewWork : Only Aside (stopTakingNewWork deps : Pass Item Raw Folder τ Bool) := by
  refine .bind (.ask trivial) fun deadlineAt => .bind (.ask trivial) fun haltAt => ?_
  refine .bind (.onVars fun v => ?_) fun answer => only_passGate haltAt answer
  obtain ⟨hg, -, hw, -⟩ := @gate_spec _ _ _ deps deadlineAt haltAt v
  exact .quiet hg hw (gate_moves deadlineAt haltAt v)

theorem only_collectionIdOf (folder : Folder) :
    Only Aside (collectionIdOf folder : Pass Item Raw Folder τ String) := by
  refine .bind (.onVars fun v => ?_) fun first => ?_
  · split
    · exact .quiet { Grows.refl _ with } rfl rfl
    · exact .quiet (.refl v) rfl rfl
  · split
    · refine .bind (.attempt (.ask trivial)) fun answer => .bind (.modify fun v => ?_) fun _ => .ofExcept
      exact .quiet { Grows.refl _ with } rfl rfl
    · exact .ask trivial

/-- What the gate and the target's collection do reports no move. -/
theorem Only.aside {p : Prog (PassState Item Raw Folder τ) (SyncOp Item Raw Folder) SyncOp.Ans ε α}
    (hp : Only Aside p) : Only SameMoves p :=
  hp.imp fun _ _ h => h.moves

theorem only_readWindow (items : List Item) (window : Nat) (key : String) :
    Only SameMoves (readWindow deps items window key : Pass Item Raw Folder τ _) := by
  refine .bind (.onVars fun v => ?_) fun ahead => ?_
  · unfold openWindow
    split
    · rfl
    · split <;> rfl
  · cases ahead with
    | load => exact .bind (.attempt (.ask trivial)) fun rows => .bind (.modify fun _ => rfl) fun _ => .ret
    | wait => exact .bind (.ask trivial) fun rows => .ret
    | older => exact .ret

theorem only_quietlySkipped (path : String) (items : List Item) (index : Nat) (item : Item)
    (key : String) :
    Only SameMoves (quietlySkipped deps path items index item key : Pass Item Raw Folder τ Bool) := by
  unfold quietlySkipped
  split
  · refine .bind (only_readWindow items _ key) fun row => ?_
    split
    · exact .bind (.modify fun _ => rfl) fun _ => .ret
    · exact .ret
  · exact .ret

theorem leaveAs_moves (key : String) (known : LedgerRecord) (action : KnownItemAction) (v : Vars Item) :
    (leaveAs deps key known action v).moves = v.moves := by
  cases action <;> rfl

theorem only_leave (key : String) (known : LedgerRecord) (action : KnownItemAction) :
    Only SameMoves (leave deps key known action : Pass Item Raw Folder τ Verdict) :=
  .bind (.modify fun v => leaveAs_moves key known action v) fun _ => .ret

theorem only_actOn (key : String) (version : Option String) (known : LedgerRecord)
    (action : KnownItemAction) :
    Only SameMoves (actOn deps key version known action : Pass Item Raw Folder τ Verdict) := by
  cases action with
  | recordVersion => exact .bind (.ask trivial) fun _ => only_leave key known _
  | rewrite =>
      show Only SameMoves (if _ then _ else _)
      split
      · exact .ret
      · exact only_leave key known _
  | retryFailed => exact .ret
  | relocatedAway => exact .ret
  | _ => exact only_leave key known _

theorem only_holdAtCeiling (firstCopy : Bool) :
    Only SameMoves (holdAtCeiling deps firstCopy : Pass Item Raw Folder τ Bool) := by
  refine .onVars fun v => ?_
  split <;> rfl

theorem only_outOfBudget : Only SameMoves (outOfBudget deps : Pass Item Raw Folder τ Bool) := by
  unfold outOfBudget
  split
  · exact .ret
  · refine .bind (.ask trivial) fun budget => .onVars fun v => ?_
    split
    · exact pauseNow_moves _ _ v
    · rfl

theorem only_findLegacy (earlier : List (LegacyKey Raw)) :
    Only SameMoves (findLegacy deps earlier : Pass Item Raw Folder τ _) := by
  induction earlier with
  | nil => exact .ret
  | cons legacy rest ih =>
      refine .bind (.ask trivial) fun row => ?_
      cases row with
      | none => exact ih
      | some row => exact .ret

theorem only_findLegacyCopy (collectionId : String) (earlier : List (LegacyKey Raw)) :
    Only SameMoves (findLegacyCopy collectionId earlier : Pass Item Raw Folder τ _) := by
  induction earlier with
  | nil => exact .ret
  | cons legacy rest ih =>
      refine .bind (.ask trivial) fun held => ?_
      split
      · exact .ret
      · exact ih

theorem only_findUnderAnyKey (folder : Folder) (key : String) (earlier : List (LegacyKey Raw)) :
    Only SameMoves (findUnderAnyKey deps folder key earlier : Pass Item Raw Folder τ _) := by
  refine .bind (.ask trivial) fun row => ?_
  cases row with
  | some row => exact .ret
  | none =>
      refine .bind (only_findLegacy earlier) fun found => ?_
      cases found with
      | some found => exact .ret
      | none =>
          dsimp only
          split
          · refine .bind (only_collectionIdOf folder).aside fun collectionId => ?_
            exact .bind (only_findLegacyCopy collectionId earlier) fun _ => .ret
          · exact .ret

theorem only_actOnDerived (path key : String) (locals : Locals) (raw : Raw)
    (row : Option LedgerRecord) :
    Only SameMoves (actOnDerived deps path key locals raw row : Pass Item Raw Folder τ (Keyed Raw)) := by
  cases row with
  | none => exact .ret
  | some known =>
      show Only SameMoves (if _ then _ else _)
      split
      · exact .ret
      · exact .bind (.modify fun v => leaveAs_moves key known _ v) fun _ => .ret

theorem only_keyFromBytes (folder : Folder) (item : Item) (locals : Locals) (raw : Raw) :
    Only SameMoves (keyFromBytes deps folder item locals raw : Attempt Item Raw Folder τ (Keyed Raw)) := by
  unfold keyFromBytes
  split
  · exact .throw
  · refine .bind .ofExcept fun key => .bind .ofExcept fun earlier => ?_
    refine .bind (.within (only_findUnderAnyKey folder key earlier)) fun found => ?_
    obtain ⟨row, under⟩ := found
    cases under with
    | none => exact .bind (.modify fun _ => rfl) fun _ => .within (only_actOnDerived _ _ _ _ row)
    | some legacy => exact .bind (.modify fun _ => rfl) fun _ => .within (only_actOnDerived _ _ _ _ row)

theorem only_recordRow (hasExistingRow : Bool) (row : LedgerRecord) :
    Only SameMoves (recordRow hasExistingRow row : Pass Item Raw Folder τ Unit) := by
  unfold recordRow
  split <;> exact .bind (.ask trivial) fun _ => .ret

theorem countWritten_moves (path : String) (item : Item) (key ch : String) (sizeBytes : Nat)
    (isRewrite : Bool) (result : UpsertResult) (v : Vars Item) :
    (countWritten deps path item key ch sizeBytes isRewrite result v).moves = v.moves := by
  unfold countWritten
  dsimp only
  split
  · rfl
  · split
    · rfl
    · split <;> rfl

theorem only_recordWritten (path : String) (item : Item) (key : String) (locals : Locals)
    (sizeBytes : Nat) (hasExistingRow isRewrite : Bool) (result : UpsertResult) :
    Only SameMoves (recordWritten deps path item key locals sizeBytes hasExistingRow isRewrite result :
      Pass Item Raw Folder τ Exit) := by
  refine .bind (only_recordRow _ _) fun _ => .bind (.modify fun v => countWritten_moves ..) fun _ => ?_
  split
  · exact .throw
  · exact .ret

theorem only_leaveConflicted (key : String) (rewriteOf : Option LedgerRecord) (result : UpsertResult) :
    Only SameMoves (leaveConflicted key rewriteOf result : Pass Item Raw Folder τ Exit) := by
  refine .bind (.modify fun _ => rfl) fun _ => ?_
  cases rewriteOf with
  | none => exact .throw
  | some known => exact .bind (.ask trivial) fun _ => .ret

theorem only_writeItem (folder : Folder) (item : Item) (key : String) (locals : Locals) (raw : Raw)
    (sizeBytes : Nat) (hasExistingRow : Bool) (rewriteOf : Option LedgerRecord) :
    Only SameMoves (writeItem deps folder item key locals raw sizeBytes hasExistingRow rewriteOf :
      Attempt Item Raw Folder τ Exit) := by
  refine .bind .ofExcept fun ch => .within ?_
  refine .bind (only_collectionIdOf folder).aside fun collectionId => ?_
  refine .bind (.bind (.ask trivial) fun result => .bind (.ask trivial) fun _ => .ret) fun result => ?_
  split
  · exact only_leaveConflicted key rewriteOf result
  · apply only_recordWritten

theorem only_writeDerived (folder : Folder) (item : Item) (locals : Locals) (fetched : Fetched Raw) :
    Only SameMoves (writeDerived deps folder item locals fetched : Attempt Item Raw Folder τ Exit) := by
  refine .bind (only_keyFromBytes folder item locals fetched.raw) fun keyed => ?_
  cases keyed with
  | leave exit => exact .ret
  | write key locals raw hasExistingRow =>
      refine .bind (.within (only_holdAtCeiling true)) fun held => ?_
      split
      · exact .ret
      · apply only_writeItem

theorem only_itemBody (folder : Folder) (item : Item) (locals : Locals) (hasExistingRow : Bool)
    (rewriteOf : Option LedgerRecord) :
    Only SameMoves (itemBody deps folder item locals hasExistingRow rewriteOf :
      Attempt Item Raw Folder τ Exit) := by
  refine .bind (.within (only_holdAtCeiling _)) fun held => ?_
  split
  · exact .ret
  · refine .bind (.within only_outOfBudget) fun out => ?_
    split
    · exact .ret
    · refine .bind (.within (.ask trivial)) fun fetched => ?_
      dsimp only
      split
      · apply only_writeItem
      · apply only_writeDerived

theorem only_itemFailed (path : String) (item : Item) (failed : Failed) :
    Only SameMoves (itemFailed deps path item failed : Pass Item Raw Folder τ Exit) := by
  unfold itemFailed
  split
  · exact .throw
  · refine .bind (.onVars fun _ => rfl) fun consecutive => ?_
    split
    · split
      · exact .throw
      · exact .ret
    · refine .bind (.ask trivial) fun row => .bind (.onVars fun _ => rfl) fun consecutive => ?_
      split
      · exact .throw
      · exact .ret

theorem only_tryItem (folder : Folder) (item : Item) (locals : Locals) (hasExistingRow : Bool)
    (rewriteOf : Option LedgerRecord) :
    Only SameMoves (tryItem deps folder item locals hasExistingRow rewriteOf :
      Pass Item Raw Folder τ Exit) := by
  refine .bind (.attempt (only_itemBody folder item locals hasExistingRow rewriteOf)) fun ended => ?_
  cases ended with
  | ok exit => exact .ret
  | error failed => exact only_itemFailed _ item failed

end Item

/-! ### The one that says so -/

section Moves

variable (deps : DomainSyncDeps Item Raw Folder) (path : String)

/-- The row that was read for the item listed here records another collection. -/
structure MovedHere (h : Path Item Raw Folder τ) (key : String) (known : LedgerRecord) : Prop where
  read : Event.call (.ledger (.find deps.domain key)) (.ok (some known)) ∈ h
  seen : SeenHere path h key
  elsewhere : isElsewhere known path = true

/-- A step of a task, for what it says of moves. -/
inductive SaysMoved (h : Path Item Raw Folder τ) : Ev Item Raw Folder τ → Prop
  | plain {e} : Does SameMoves e → SaysMoved h e
  | record {key known a} : MovedHere deps path h key known →
      SaysMoved h (.call (.ledger (.recordMove deps.domain key path none .content)) a)
  | report {key known s v} : MovedHere deps path h key known →
      Event.call (.ledger (.recordMove deps.domain key path none .content)) (.ok ()) ∈ h →
      v.moves = s.vars.moves ++ [⟨deps.domain, key, known.collection.getD "", path, none⟩] →
      SaysMoved h (.sync s { s with vars := v })

variable {deps path} {h h' : Path Item Raw Folder τ} {key : String} {known : LedgerRecord}

theorem MovedHere.mono (hm : MovedHere deps path h key known) (hpre : h <+: h') :
    MovedHere deps path h' key known :=
  ⟨hpre.subset hm.read, hm.seen.mono hpre, hm.elsewhere⟩

theorem Only.speaksAlike {p : Pass Item Raw Folder τ α} (hp : Only SameMoves p)
    (h : Path Item Raw Folder τ) : Walk (SaysMoved deps path) p h fun _ _ => True :=
  ((hp h).collect (Q := fun _ => True) (fun _ _ he => ⟨.plain he, trivial⟩) fun _ _ => trivial).mono
    fun _ _ _ _ _ _ => trivial

theorem isElsewhere_of_moved {version : Option String}
    (hc : classifyKnownItem known version path = .moved) : isElsewhere known path = true := by
  unfold classifyKnownItem at hc
  split at hc
  · cases hc
  · cases hc
  · split at hc <;> cases hc
  · split at hc <;> cases hc
  · cases helse : isElsewhere known path with
    | true => rfl
    | false =>
        -- what the versions say is never that it moved
        rw [helse, if_neg (by decide)] at hc
        revert hc
        unfold classifyVersion
        generalize known.sourceVersion = stored
        cases version with
        | none => exact fun hc => by cases hc
        | some version =>
            cases stored with
            | none => exact fun hc => by cases hc
            | some stored =>
                dsimp only
                split
                · exact fun hc => by cases hc
                · split <;> exact fun hc => by cases hc

theorem walk_leaveMoved_moves (hm : MovedHere deps path h key known) :
    Walk (SaysMoved deps path) (leaveMoved deps path key known) h fun _ _ => True := by
  refine Walk.bind (Only.speaksAlike (by exact .modify fun _ => rfl) h) fun h₁ _ hpre₁ _ => ?_
  split
  · exact .ret trivial
  · refine Walk.bind (walk_askLedger fun _ => .record (hm.mono hpre₁)) fun h₂ _ hpre₂ hmem => ?_
    refine Walk.bind (walk_step (fun s => ?_)) fun h₃ _ _ _ => .ret trivial
    exact .report (hm.mono (hpre₁.trans hpre₂)) hmem rfl

theorem walk_lookUp_moves (hseen : SeenHere path h key) (version : Option String) :
    Walk (SaysMoved deps path) (lookUp deps path key version) h fun _ _ => True := by
  refine Walk.bind (walk_askLedger fun _ => .plain (.call trivial)) fun h₁ row hpre₁ hread => ?_
  cases row with
  | none => exact .ret trivial
  | some known =>
      refine Walk.bind (Only.speaksAlike (by exact .doIf (.ask trivial)) h₁) fun h₂ _ hpre₂ _ => ?_
      dsimp only
      split
      · next hc =>
          refine walk_leaveMoved_moves ⟨hpre₂.subset hread, ?_, isElsewhere_of_moved hc⟩
          exact hseen.mono (hpre₁.trans hpre₂)
      · refine Walk.bind (Only.speaksAlike (by exact .doIf (.ask trivial)) h₂) fun h₃ _ _ _ => ?_
        exact Only.speaksAlike (only_actOn key version known _) h₃

theorem takeUp_moves (path : String) (item : Item) (v : Vars Item) :
    (takeUp deps path item v).moves = v.moves := by
  unfold takeUp
  split <;> rfl

theorem walk_itemTask_moves (folder : Folder) (items : List Item) (index : Nat) (item : Item)
    (hpath : path = deps.collectionPathOf folder) :
    Walk (SaysMoved deps path) (itemTask deps folder items index item) h fun _ _ => True := by
  unfold itemTask
  rw [← hpath]
  refine Walk.bind (Only.speaksAlike only_stopTakingNewWork.aside h) fun h₁ stop _ _ => ?_
  split
  · exact Walk.bind (Only.speaksAlike (by exact .modify fun _ => rfl) h₁) fun h₂ _ _ _ => .ret trivial
  · refine Walk.bind (walk_step fun s => .plain (.vars (takeUp_moves path item s.vars)))
      fun h₂ _ _ hs => ?_
    obtain ⟨s, hmem, -⟩ := hs
    split
    · exact Only.speaksAlike (only_tryItem folder item _ _ _) h₂
    · next key hk =>
        have hseen : SeenHere path h₂ key := ⟨_, _, hmem, (takeUp_spec s.vars).2.2.2 key hk⟩
        unfold keyedTask
        rw [← hpath]
        refine Walk.bind (Only.speaksAlike (only_quietlySkipped path items index item key) h₂) fun h₃ quiet hpre _ => ?_
        split
        · exact .ret trivial
        · refine Walk.bind (walk_lookUp_moves (hseen.mono hpre) _) fun h₄ verdict _ _ => ?_
          cases verdict with
          | leave exit => exact .ret trivial
          | write hasExistingRow rewriteOf => exact Only.speaksAlike (only_tryItem folder item _ _ _) h₄

/-- **What the task of one item says of moves.** -/
theorem walk_worker_moves (visit : Nat) (folder : Folder) (items : List Item) (index : Nat)
    (item : Item) :
    (worker deps visit folder items index item).Always
      (SaysMoved deps (deps.collectionPathOf folder)) (fun _ _ => True)
      ([] : Path Item Raw Folder τ) := by
  refine Prog.Always.andThen (walk_itemTask_moves folder items index item rfl) (fun h₁ exit _ _ => ?_)
    fun _ _ _ _ => trivial
  exact fun s => ⟨.plain (.vars rfl), trivial⟩

end Moves

/-! ### The script of the pass -/

section Script

variable {deps : DomainSyncDeps Item Raw Folder}

/-- A step on variables that no move is read off. -/
theorem Aside.refl (v : Vars Item) : Aside v v := .quiet (.refl v) rfl rfl

theorem only_readVars : Only Aside (readVars : Pass Item Raw Folder τ (Vars Item)) :=
  .onVars Aside.refl

theorem only_opening : Only Aside (opening deps : Pass Item Raw Folder τ Unit) := by
  refine .bind (.ask trivial) fun startedAt => .bind (.modify fun v => ?_) fun _ => ?_
  · exact .quiet { Grows.refl _ with } rfl rfl
  refine .bind ?_ fun _ => .bind (.ask trivial) fun deadlineAt => .bind (.ask trivial) fun haltAt => ?_
  · unfold checkBudget
    split
    · exact .ret
    · refine .bind (.ask trivial) fun budget => .modify fun v => ?_
      split
      · refine .quiet (grows_pauseNow _ _ v) ?_ (pauseNow_moves _ _ v)
        unfold pauseNow
        split <;> rfl
      · exact .refl v
  · refine .bind (.onVars fun v => ?_) fun answer => .bind (only_passGate haltAt answer) fun _ => .ret
    have hd := @stopIfPastDeadline_spec _ _ _ deps deadlineAt v
    have ht := @stopIfToldTo_spec _ _ _ deps haltAt (stopIfPastDeadline deps deadlineAt v).1
    have hmoves := @stopIfPastDeadline_moves _ _ _ deps deadlineAt v
    unfold openingGate
    dsimp only
    split
    · exact .quiet hd.1 hd.2.2.1 hmoves
    · refine .quiet (hd.1.trans ht.1) (ht.2.2.1.trans hd.2.2.1) ?_
      exact (stopIfToldTo_moves haltAt _).trans hmoves

theorem only_leaveUnread (folder : Folder) (err : Err) :
    Only Aside (leaveUnread deps folder err : Pass Item Raw Folder τ Unit) := by
  unfold leaveUnread
  dsimp only
  split
  · exact .throw
  · refine .bind (.onVars fun v => ?_) fun inARow => ?_
    · exact .quiet { Grows.refl _ with } rfl rfl
    · split
      · exact .throw
      · refine .bind (.modify fun v => ?_) fun _ => .bind (.ask trivial) fun _ => .modify fun v => ?_
        · exact .quiet { Grows.refl _ with } rfl rfl
        · exact .quiet { Grows.refl _ with unfinished := List.subset_cons_self _ _ } rfl rfl

theorem only_enumerateKeys (folder : Folder) (prev : Option String) :
    Only Aside (enumerateKeys deps folder prev : Pass Item Raw Folder τ Unit) := by
  unfold enumerateKeys
  dsimp only
  split
  · refine .bind (.attempt (.ask trivial)) fun answer => ?_
    cases answer with
    | ok keys =>
        refine .modify fun v => ?_
        exact .quiet { Grows.refl _ with seen := List.subset_append_right _ _ } rfl rfl
    | error e =>
        refine .bind (.modify fun v => ?_) fun _ => .bind (.ask trivial) fun _ => .ret
        exact .quiet { Grows.refl _ with } rfl rfl
  · split
    · exact .modify fun v => .quiet { Grows.refl _ with } rfl rfl
    · exact .ret

theorem only_storedCursor (path : String) :
    Only Aside (storedCursor deps path : Pass Item Raw Folder τ (Option String)) := by
  unfold storedCursor
  split
  · exact .ask trivial
  · exact .ret

theorem only_decideCursor (path : String) (prev : Option String) (listing : Listing Item)
    (heldBefore : Nat) :
    Only Aside (decideCursor deps path prev listing heldBefore : Pass Item Raw Folder τ Unit) := by
  refine .bind (.onVars fun v => ?_) fun advances => .doIf (.ask trivial)
  split
  · split
    · exact ⟨rfl, rfl, List.Subset.refl _, List.Subset.refl _, id, .inl rfl⟩
    · exact .refl v
  · exact .refl v

theorem only_setCursors (cursors : List (String × String)) :
    Only Aside (setCursors cursors : Pass Item Raw Folder τ Unit) := by
  induction cursors with
  | nil => exact .ret
  | cons entry rest ih => exact .bind (.ask trivial) fun _ => ih

theorem only_resolveReported (seen : Vars Item) (done hrefs : List String) :
    Only Aside (resolveReported deps seen done hrefs : Pass Item Raw Folder τ _) := by
  induction hrefs generalizing done with
  | nil => exact .ret
  | cons href rest ih =>
      refine .bind (.ask trivial) fun row => ?_
      cases row with
      | none => exact ih done
      | some row =>
          dsimp only
          split
          · exact ih done
          · exact .bind (.ask trivial) fun recorded => .bind (ih _) fun out => .ret

theorem only_concludeRemovals (stillDecides : Bool) :
    Only Aside (concludeRemovals deps stillDecides : Pass Item Raw Folder τ Unit) := by
  refine .bind only_readVars fun v => .bind (.doIf ?_) fun _ => .doIf (only_setCursors _)
  refine .bind (only_resolveReported v [] _) fun found => .modify fun v => ?_
  exact .quiet { Grows.refl _ with } rfl rfl

theorem only_resolveDiscarded (seen : Vars Item) (keys : List String) :
    Only Aside (resolveDiscarded deps seen keys : Pass Item Raw Folder τ _) := by
  induction keys with
  | nil => exact .ret
  | cons key rest ih =>
      unfold resolveDiscarded
      split
      · exact ih
      · refine .bind (.ask trivial) fun row => ?_
        cases row with
        | none => exact ih
        | some row =>
            dsimp only
            split
            · exact ih
            · exact .bind (.ask trivial) fun recorded => .bind ih fun out => .ret

theorem only_concludeBin : Only Aside (concludeBin deps : Pass Item Raw Folder τ Unit) := by
  refine .bind ?_ fun told => ?_
  · unfold toldToStop
    split
    · exact .ask trivial
    · exact .ret
  · split
    · exact .ret
    · refine .bind (.attempt (.ask trivial)) fun answer => ?_
      cases answer with
      | error e => exact .bind (.ask trivial) fun _ => .ret
      | ok discarded =>
          refine .bind (.onVars fun v => ?_) fun v => ?_
          · dsimp only
            split <;> exact .quiet { Grows.refl _ with } rfl rfl
          · refine .bind (only_resolveDiscarded v _) fun found => .modify fun v => ?_
            exact .quiet { Grows.refl _ with } rfl rfl

theorem only_concludeFormerNames : Only Aside (concludeFormerNames deps : Pass Item Raw Folder τ Unit) := by
  refine .bind only_readVars fun v => ?_
  dsimp only
  split
  · exact .ret
  · refine .bind (.ask trivial) fun closed => .bind (.modify fun v => ?_) fun _ =>
      .bind (.ask trivial) fun marked => .modify fun v => ?_
    · exact .quiet { Grows.refl _ with } rfl rfl
    · exact .quiet { Grows.refl _ with } rfl rfl

theorem only_askStillDecides : Only Aside (askStillDecides deps : Pass Item Raw Folder τ Bool) := by
  unfold askStillDecides
  split
  · exact .ask trivial
  · exact .ret

end Script

end Ownpace.Sync
