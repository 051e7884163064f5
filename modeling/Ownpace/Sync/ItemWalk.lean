/-
Ownpace/Sync/ItemWalk.lean

The rest of an item's task, walked: the look at its row, the attempt, the
failure, and the whole (`walk_worker`).
-/
import Ownpace.Sync.Walks

namespace Ownpace.Sync

open Await Ownpace

variable {Item Raw Folder τ : Type}
variable {deps : DomainSyncDeps Item Raw Folder} {path : String} {item : Item}
variable {h : Path Item Raw Folder τ} {key : String}

/-! ### The row -/

theorem openWindow_spec (window : Nat) (v : Vars Item) :
    Grows v (openWindow window v).1 ∧ (openWindow window v).1.left = v.left ∧
      (openWindow window v).1.windows = v.windows := by
  unfold openWindow
  split
  · exact ⟨{ Grows.refl _ with }, rfl, rfl⟩
  · split <;> exact ⟨.refl v, rfl, rfl⟩

theorem mem_of_lookup {rows : List (String × LedgerRecord)} {known : LedgerRecord}
    (hl : rows.lookup key = some known) : (key, known) ∈ rows := by
  obtain ⟨l₁, l₂, rfl, -⟩ := List.lookup_eq_some_iff.mp hl
  simp

/-- A row read ahead is one the ledger told of. -/
theorem walk_readWindow (items : List Item) (window : Nat) (key : String) :
    Walk (ItemStep deps path item) (readWindow deps items window key) h fun h' row =>
      ∀ known, row = some known → Told deps h' key (some known) := by
  refine Walk.bind (walk_onVars (fun _ _ => .quiet) (fun v => (openWindow_spec _ v).1)
    (fun v => (openWindow_spec _ v).2.1) fun v => (openWindow_spec _ v).2.2)
    fun h₁ ahead _ _ => ?_
  match ahead with
  | .older => exact .ret fun _ hk => nomatch hk
  | .wait =>
      refine Walk.bind (walk_asks (.awaitRows _) trivial) fun h₂ rows _ hmem => .ret ?_
      intro known hk
      obtain ⟨rows, rfl, hl⟩ := Option.bind_eq_some_iff.mp hk
      exact ⟨_, hmem, .window (mem_of_lookup hl)⟩
  | .load =>
      refine Walk.bind (walk_attempt fun _ => .asks rfl) fun h₂ r _ hr => ?_
      refine Walk.bind (Walk.mono (walk_step fun s => .vars { Grows.refl _ with } ?_ rfl) fun _ _ _ _ => trivial) fun h₃ _ hpre _ => .ret ?_
      · intro n rows hmem
        rcases List.mem_cons.mp hmem with heq | hmem
        · cases r with
          | error e => cases heq
          | ok rows' =>
              cases heq
              exact .inr ⟨_, hr _ rfl⟩
        · exact .inl hmem
      · intro known hk
        obtain ⟨rows, hrows, hl⟩ := Option.bind_eq_some_iff.mp hk
        cases r with
        | error e => cases hrows
        | ok rows' =>
            cases hrows
            exact ⟨_, hpre.subset (hr _ rfl), .findMany (mem_of_lookup hl)⟩

/-- An item left quietly: the row that was read ahead says to. -/
theorem walk_quietlySkipped (items : List Item) (index : Nat) (key : String) :
    Walk (ItemStep deps path item) (quietlySkipped deps path items index item key) h fun h' b =>
      b = true → ∃ known, Told deps h' key (some known) ∧
        classifyKnownItem known (deps.sourceVersion item) path = .skip := by
  unfold quietlySkipped
  split
  · refine Walk.bind (walk_readWindow items _ key) fun h₁ row _ hrow => ?_
    split
    · next hquiet =>
        refine Walk.bind (walk_modifyVars (fun _ _ => .quiet) (fun v => { Grows.refl _ with }) (fun _ => rfl) fun _ => rfl)
          fun h₂ _ hpre _ => .ret fun _ => ?_
        obtain ⟨known, rfl, hq⟩ := (Option.any_eq_true _ _).mp hquiet
        simp only [quietSkip, Bool.and_eq_true, decide_eq_true_eq] at hq
        exact ⟨known, (hrow _ rfl).mono hpre, hq.2⟩
    · exact .ret nofun
  · exact .ret nofun

theorem leaveAs_spec (key : String) (known : LedgerRecord) (action : KnownItemAction)
    (v : Vars Item) : Grows v (leaveAs deps key known action v) ∧
      (leaveAs deps key known action v).left = v.left ∧
      (leaveAs deps key known action v).windows = v.windows := by
  cases action with
  | needsDecision => exact ⟨{ Grows.refl _ with failures := List.subset_append_left _ _ }, rfl, rfl⟩
  | _ => exact ⟨{ Grows.refl _ with }, rfl, rfl⟩

theorem walk_leaveAs (key : String) (known : LedgerRecord) (action : KnownItemAction) :
    Walk (ItemStep deps path item) (modifyVars (leaveAs deps key known action)) h fun _ _ => True :=
  Walk.mono (walk_modifyVars (fun _ _ => .quiet) (fun v => (leaveAs_spec key known action v).1)
    (fun v => (leaveAs_spec key known action v).2.1)
    fun v => (leaveAs_spec key known action v).2.2) fun _ _ _ _ => trivial

variable (deps path item) in
/-- What the look at the row comes to: an exit, or an item taken up. -/
def LookedUp (h : Path Item Raw Folder τ) (key : String) : Verdict → Prop
  | .leave exit => ItemEnds deps path item h exit
  | .write hasExistingRow rewriteOf => TakenUp deps path item h key hasExistingRow rewriteOf

section Known

variable {known : LedgerRecord}

theorem statedVersion_of_listed (hk : deps.naturalKey item = some key) :
    statedVersion deps item = deps.sourceVersion item := by
  simp [statedVersion, hk]

theorem walk_leave {action : KnownItemAction} (hk : deps.naturalKey item = some key)
    (hseen : SeenHere path h key) (ht : Told deps h key (some known))
    (hc : classifyKnownItem known (deps.sourceVersion item) path = action)
    (hw : action ≠ .retryFailed) (hr : action ≠ .relocatedAway) (hm : action ≠ .moved)
    (hrw : action = .rewrite → deps.sourceIsAuthorityOnExistence = false) :
    Walk (ItemStep deps path item) (leave deps key known action) h fun h' v =>
      LookedUp deps path item h' key v := by
  refine Walk.bind (walk_leaveAs key known action) fun h' _ hpre _ => .ret ?_
  refine ⟨.inl hk, hseen.mono hpre, known, ht.mono hpre, ?_, hw, hr, fun h => absurd h hm, hrw⟩
  rw [statedVersion_of_listed hk, hc]

theorem walk_leaveMoved (hk : deps.naturalKey item = some key) (hseen : SeenHere path h key)
    (ht : Told deps h key (some known))
    (hc : classifyKnownItem known (deps.sourceVersion item) path = .moved) :
    Walk (ItemStep deps path item) (leaveMoved deps path key known) h fun h' v =>
      LookedUp deps path item h' key v := by
  have hc' : classifyKnownItem known (statedVersion deps item) path = .moved := by
    rw [statedVersion_of_listed hk, hc]
  refine Walk.bind (walk_modifyVars (fun _ _ => .quiet) (fun v => { Grows.refl _ with moved := List.subset_cons_self _ _ })
    (fun _ => rfl) fun _ => rfl) fun h₁ _ hpre₁ hs => ?_
  obtain ⟨s, hmem⟩ := hs
  have hends (h' : Path Item Raw Folder τ) (hpre : h₁ <+: h') :
      LookedUp deps path item h' key (.leave (.known key .moved)) := by
    refine ⟨.inl hk, hseen.mono (hpre₁.trans hpre), known, ht.mono (hpre₁.trans hpre), hc',
      nofun, nofun, fun _ _ => ⟨_, _, hpre.subset hmem, ?_⟩, nofun⟩
    exact List.mem_cons_self
  split
  · exact .ret (hends h₁ List.prefix_rfl)
  · refine Walk.bind (walk_askLedger fun _ => .recordMove (ht.mono hpre₁) (hseen.mono hpre₁) hc')
      fun h₂ _ hpre₂ _ => ?_
    refine Walk.bind (walk_modifyVars (fun _ _ => .quiet) (fun v => { Grows.refl _ with }) (fun _ => rfl) fun _ => rfl)
      fun h₃ _ hpre₃ _ => .ret (hends h₃ (hpre₂.trans hpre₃))

theorem walk_actOn (hk : deps.naturalKey item = some key) (hseen : SeenHere path h key)
    (ht : Told deps h key (some known))
    (hm : classifyKnownItem known (deps.sourceVersion item) path ≠ .moved) :
    Walk (ItemStep deps path item) (actOn deps key (deps.sourceVersion item) known
      (classifyKnownItem known (deps.sourceVersion item) path)) h fun h' v =>
      LookedUp deps path item h' key v := by
  generalize hc : classifyKnownItem known (deps.sourceVersion item) path = action at hm
  have hc' : classifyKnownItem known (statedVersion deps item) path = action := by
    rw [statedVersion_of_listed hk, hc]
  cases action with
  | recordVersion =>
      refine Walk.bind (walk_askLedger fun _ => .recordVersion ht hseen hc hk) fun h₁ _ hpre _ => ?_
      exact walk_leave hk (hseen.mono hpre) (ht.mono hpre) hc nofun nofun nofun nofun
  | rewrite =>
      unfold actOn
      dsimp only
      split
      · next hauth => exact .ret (.rewrite ht hc' hauth)
      · next hauth =>
          exact walk_leave hk hseen ht hc nofun nofun nofun fun _ => Bool.eq_false_iff.mpr hauth
  | retryFailed => exact .ret (.again ht (.inl hc'))
  | relocatedAway => exact .ret (.again ht (.inr hc'))
  | moved => exact absurd rfl hm
  | _ => exact walk_leave hk hseen ht hc nofun nofun nofun nofun

theorem walk_actOnKnown (hk : deps.naturalKey item = some key) (hseen : SeenHere path h key)
    (ht : Told deps h key (some known)) :
    Walk (ItemStep deps path item) (actOnKnown deps path key (deps.sourceVersion item) known) h fun h' v =>
      LookedUp deps path item h' key v := by
  unfold actOnKnown
  refine Walk.bind (walk_doIf fun _ => walk_askLedger fun _ => .clearAbsent ht hseen)
    fun h₁ _ hpre₁ _ => ?_
  dsimp only
  split
  · next hc => exact walk_leaveMoved hk (hseen.mono hpre₁) (ht.mono hpre₁) hc
  · next hc =>
      refine Walk.bind (walk_doIf fun _ => walk_askLedger fun _ =>
        .clearMove (ht.mono hpre₁) (hseen.mono hpre₁)) fun h₂ _ hpre₂ _ => ?_
      exact walk_actOn hk (hseen.mono (hpre₁.trans hpre₂)) (ht.mono (hpre₁.trans hpre₂)) hc

theorem walk_lookUp (hk : deps.naturalKey item = some key) (hseen : SeenHere path h key) :
    Walk (ItemStep deps path item) (lookUp deps path key (deps.sourceVersion item)) h fun h' v =>
      LookedUp deps path item h' key v := by
  refine Walk.bind (walk_askLedger fun _ => .asks rfl) fun h₁ row hpre hmem => ?_
  match row with
  | none => exact .ret (.new (told_find hmem))
  | some known => exact walk_actOnKnown hk (hseen.mono hpre) (told_find hmem)

end Known

/-! ### The attempt -/

theorem walk_holdAtCeiling (firstCopy : Bool) :
    Walk (ItemStep deps path item) (holdAtCeiling deps firstCopy) h fun h' b => b = true →
      firstCopy = true ∧ ∃ b a, Event.sync b a ∈ h' ∧ b.vars.heldAtCeiling < a.vars.heldAtCeiling := by
  refine Walk.mono (walk_onVars (fun _ _ => .quiet) (fun v => ?_) (fun v => ?_) fun v => ?_) fun h' b _ hs hb => ?_
  · split
    · exact { Grows.refl _ with held := Nat.le_succ _ }
    · exact .refl v
  · split <;> rfl
  · split <;> rfl
  · obtain ⟨s, hmem, rfl⟩ := hs
    split at hb
    · next hc =>
        rw [if_pos hc] at hmem
        exact ⟨(Bool.and_eq_true_iff.mp hc).1, _, _, hmem, Nat.lt_succ_self _⟩
    · cases hb

theorem walk_outOfBudget :
    Walk (ItemStep deps path item) (outOfBudget deps) h fun h' b => b = true →
      Saw h' fun v => v.paused = true := by
  unfold outOfBudget
  split
  · exact .ret (by intro h; cases h)
  · next provider _ =>
      refine Walk.bind (walk_asks .budgetState trivial) fun h₁ budget _ _ => ?_
      refine Walk.mono (walk_onVars (fun _ _ => .quiet) (fun v => ?_) (fun v => ?_) fun v => ?_)
        fun h' b _ hs hb => ?_
      · dsimp only
        split
        · exact (grows_pauseNow provider budget v).trans { Grows.refl _ with }
        · exact .refl v
      · dsimp only
        split
        · unfold pauseNow
          split <;> rfl
        · rfl
      · dsimp only
        split
        · unfold pauseNow
          split <;> rfl
        · rfl
      · obtain ⟨s, hmem, rfl⟩ := hs
        dsimp only at hmem hb
        split at hb
        · next hc =>
            rw [if_pos hc] at hmem
            exact ⟨_, _, hmem, paused_pauseNow provider budget s.vars⟩
        · cases hb

theorem walk_collectionIdOf (folder : Folder) :
    Walk QuietStep (collectionIdOf folder) h fun _ _ => True := by
  refine Walk.bind (walk_onVars (fun _ _ => id) (fun v => ?_) (fun v => ?_) fun v => ?_) fun h₁ first _ _ => ?_
  · split
    · exact { Grows.refl _ with }
    · exact .refl v
  · split <;> rfl
  · split <;> rfl
  · cases first with
    | false =>
        exact Walk.mono (walk_ask (o := .awaitCollection) fun _ => .asks trivial) fun _ _ _ _ => trivial
    | true =>
        refine Walk.bind (walk_attempt fun _ => .asks trivial) fun h₂ answer _ _ => ?_
        refine Walk.bind (walk_modifyVars (fun _ _ => id) (fun v => { Grows.refl _ with }) (fun _ => rfl) fun _ => rfl)
          fun h₃ _ _ _ => ?_
        cases answer with
        | ok id => exact .ret trivial
        | error e => exact .throw

theorem walk_findLegacy (earlier : List (LegacyKey Raw)) :
    Walk (ItemStep deps path item) (findLegacy deps earlier) h fun h' r => match r with
      | some (legacy, row) => legacy ∈ earlier ∧ Told deps h' legacy.naturalKeyHash (some row)
      | none => ∀ legacy ∈ earlier, Told deps h' legacy.naturalKeyHash none := by
  induction earlier generalizing h with
  | nil => exact .ret fun _ hmem => nomatch hmem
  | cons legacy rest ih =>
      refine Walk.bind (walk_askLedger fun _ => .asks rfl) fun h₁ row _ hmem => ?_
      match row with
      | some row => exact .ret ⟨List.mem_cons_self, told_find hmem⟩
      | none =>
          refine Walk.mono ih fun h' r hpre hr => ?_
          match r with
          | some (legacy', row) => exact ⟨List.mem_cons_of_mem _ hr.1, hr.2⟩
          | none =>
              intro legacy' hl
              rcases List.mem_cons.mp hl with rfl | hl
              · exact (told_find hmem).mono hpre
              · exact hr _ hl

theorem walk_findLegacyCopy (collectionId : String) (earlier : List (LegacyKey Raw)) :
    Walk (ItemStep deps path item) (findLegacyCopy collectionId earlier) h fun _ r =>
      ∀ legacy, r = some legacy → legacy ∈ earlier := by
  induction earlier generalizing h with
  | nil => exact .ret fun _ hr => nomatch hr
  | cons legacy rest ih =>
      refine Walk.bind (walk_asks (.legacyCopyOnTarget collectionId legacy) trivial)
        fun h₁ there _ _ => ?_
      cases there with
      | true =>
          refine .ret ?_
          rintro _ ⟨⟩
          exact List.mem_cons_self
      | false =>
          exact Walk.mono ih fun _ _ _ hr l hl => List.mem_cons_of_mem _ (hr l hl)

/-- The row found, and the key it, or the copy on the target, was found under. -/
theorem walk_findUnderAnyKey (folder : Folder) (key : String) (earlier : List (LegacyKey Raw)) :
    Walk (ItemStep deps path item) (findUnderAnyKey deps folder key earlier) h fun h' r => match r.2 with
      | none => Told deps h' key r.1
      | some legacy => legacy ∈ earlier ∧ Told deps h' legacy.naturalKeyHash r.1 := by
  refine Walk.bind (walk_askLedger fun _ => .asks rfl) fun h₁ row _ hmem => ?_
  match row with
  | some row => exact .ret (told_find hmem)
  | none =>
      refine Walk.bind (walk_findLegacy earlier) fun h₂ r hpre hr => ?_
      match r with
      | some (legacy, row) => exact .ret hr
      | none =>
          dsimp only
          split
          · refine Walk.bind (Walk.quiet (walk_collectionIdOf folder)) fun h₃ id hpre₃ _ => ?_
            refine Walk.bind (walk_findLegacyCopy id earlier) fun h₄ copy hpre₄ hcopy => .ret ?_
            match copy with
            | none => exact (told_find hmem).mono (hpre.trans (hpre₃.trans hpre₄))
            | some legacy =>
                have hl := hcopy legacy rfl
                exact ⟨hl, (hr legacy hl).mono (hpre₃.trans hpre₄)⟩
          · exact .ret ((told_find hmem).mono hpre)

theorem statedVersion_of_keyless (hk : deps.naturalKey item = none) :
    statedVersion deps item = none := by
  simp [statedVersion, hk]

theorem walk_actOnDerived {locals : Locals} {raw : Raw} {row : Option LedgerRecord}
    (hk : deps.naturalKey item = none) (hmay : MayHaveKey deps item key)
    (hseen : SeenHere path h key) (ht : Told deps h key row) :
    Walk (ItemStep deps path item) (actOnDerived deps path key locals raw row) h fun h' r => match r with
      | .leave exit => ItemEnds deps path item h' exit
      | .write key' locals' raw' hasExistingRow => key' = key ∧ locals' = locals ∧ raw' = raw ∧
          TakenUp deps path item h' key hasExistingRow none := by
  match row with
  | none => exact .ret ⟨rfl, rfl, rfl, .new ht⟩
  | some known =>
      have hc : classifyKnownItem known (statedVersion deps item) path =
          classifyKnownItem known none path := by rw [statedVersion_of_keyless hk]
      unfold actOnDerived
      dsimp only
      split
      · next hw => exact .ret ⟨rfl, rfl, rfl, .again ht (by rwa [hc])⟩
      · next hw =>
          refine Walk.bind (walk_leaveAs key known _) fun h₁ _ hpre _ => .ret ?_
          refine ⟨hmay, hseen.mono hpre, known, ht.mono hpre, hc, fun he => hw (.inl he),
            fun he => hw (.inr he), fun _ hs => ?_, fun he => ?_⟩
          · rw [hk] at hs
            cases hs
          · have hnone : classifyVersion known none = .skip := rfl
            unfold classifyKnownItem at he
            split at he
            · cases he
            · cases he
            · split at he <;> cases he
            · split at he <;> cases he
            · rw [hnone] at he
              split at he <;> cases he

/-- An item keyed by its bytes: an exit, or a key it is taken up under. -/
theorem walk_keyFromBytes (folder : Folder) {locals : Locals} {fetched : Fetched Raw}
    (hpath : path = deps.collectionPathOf folder) (hk : deps.naturalKey item = none)
    (hlocals : LocalsOk deps item locals)
    (hfetch : Event.call (.fetchRaw item) (.ok fetched) ∈ h) :
    AttemptWalk deps path item (keyFromBytes deps folder item locals fetched.raw) h
      fun h' r => match r with
      | .leave exit => ItemEnds deps path item h' exit
      | .write key locals' raw hasExistingRow => LocalsOk deps item locals' ∧
          SeenHere path h' key ∧ KeyedBy deps item h' key raw ∧
          TakenUp deps path item h' key hasExistingRow none := by
  subst hpath
  unfold keyFromBytes
  split
  · exact .throw hlocals
  · next naturalKeyFromRaw hraw =>
      refine AttemptWalk.bind (attemptWalk_ofExcept ?_) fun h₁ key hpre₁ hkey => ?_
      · intro failed hf
        cases hr : naturalKeyFromRaw item fetched.raw with
        | ok k => simp [hr, Except.mapError] at hf
        | error e => simp only [hr, Except.mapError, Except.error.injEq] at hf; exact hf ▸ hlocals
      have hkey : naturalKeyFromRaw item fetched.raw = .ok key := by
        cases hr : naturalKeyFromRaw item fetched.raw with
        | ok k => simpa [hr, Except.mapError] using hkey
        | error e => simp [hr, Except.mapError] at hkey
      have hmay : MayHaveKey deps item key := .inr ⟨hk, _, _, _, hraw, hkey, .inl rfl⟩
      have hok (k : String) (plain name : Option String) (ch : String)
          (hm : MayHaveKey deps item k) : LocalsOk deps item ⟨some k, plain, name, ch⟩ := by
        refine ⟨?_, fun k' hk' => by rw [hk] at hk'; cases hk'⟩
        rintro _ ⟨⟩
        exact hm
      refine AttemptWalk.bind (attemptWalk_ofExcept ?_) fun h₂ earlier hpre₂ hearlier => ?_
      · intro failed hf
        cases hr : deps.legacyKeysFromRaw item fetched.raw with
        | ok k => simp [hr, Except.mapError] at hf
        | error e =>
            simp only [hr, Except.mapError, Except.error.injEq] at hf
            exact hf ▸ hok key _ _ _ hmay
      have hearlier : deps.legacyKeysFromRaw item fetched.raw = .ok earlier := by
        cases hr : deps.legacyKeysFromRaw item fetched.raw with
        | ok k => simpa [hr, Except.mapError] using hearlier
        | error e => simp [hr, Except.mapError] at hearlier
      refine AttemptWalk.bind (Walk.within (walk_findUnderAnyKey folder key earlier) ?_)
        fun h₃ r hpre₃ hr => ?_
      · split
        · exact hok key _ _ _ hmay
        · exact ⟨fun _ hn => (nomatch hn), fun k' hk' => by rw [hk] at hk'; cases hk'⟩
      have hfetch₃ : Event.call (.fetchRaw item) (.ok fetched) ∈ h₃ :=
        (hpre₁.trans (hpre₂.trans hpre₃)).subset hfetch
      obtain ⟨row, under⟩ := r
      have hend (k : String) (locals' : Locals) (raw : Raw) (hm : MayHaveKey deps item k)
          (hkeyed : KeyedBy deps item h₃ k raw) (ht : Told deps h₃ k row)
          (hl : LocalsOk deps item locals') :
          AttemptWalk deps (deps.collectionPathOf folder) item (do
            modifyVars fun v => { v with
              seenByCollection := (deps.collectionPathOf folder, k) :: v.seenByCollection }
            within locals' (actOnDerived deps (deps.collectionPathOf folder) k locals' raw row)) h₃
            fun h' r => match r with
            | .leave exit => ItemEnds deps (deps.collectionPathOf folder) item h' exit
            | .write key locals' raw hasExistingRow => LocalsOk deps item locals' ∧
                SeenHere (deps.collectionPathOf folder) h' key ∧ KeyedBy deps item h' key raw ∧
                TakenUp deps (deps.collectionPathOf folder) item h' key hasExistingRow none := by
        refine AttemptWalk.bind (attemptWalk_modifyVars
          (fun v => { Grows.refl _ with seen := List.subset_cons_self _ _ }) (fun _ => rfl) fun _ => rfl)
          fun h₄ _ hpre₄ hs => ?_
        obtain ⟨s, hmem⟩ := hs
        have hs : SeenHere (deps.collectionPathOf folder) h₄ k :=
          ⟨_, _, hmem, List.mem_cons_self⟩
        refine Walk.within (Walk.mono (walk_actOnDerived hk hm hs (ht.mono hpre₄))
          fun h₅ r hpre₅ hr => ?_) hl
        match r with
        | .leave exit => exact hr
        | .write key' l r' b =>
            obtain ⟨rfl, rfl, rfl, hw⟩ := hr
            exact ⟨hl, hs.mono hpre₅, hkeyed.mono (hpre₄.trans hpre₅), hw⟩
      match under with
      | none => exact hend key _ _ hmay (.derived hk hfetch₃ hraw hkey) hr (hok key _ _ _ hmay)
      | some legacy =>
          have hm : MayHaveKey deps item legacy.naturalKeyHash :=
            .inr ⟨hk, _, _, _, hraw, hkey, .inr ⟨earlier, hearlier, legacy, hr.1, rfl⟩⟩
          exact hend _ _ _ hm (.legacy hk hfetch₃ hraw hkey hearlier hr.1 rfl) hr.2
            (hok _ _ _ _ hm)

section Write

variable {hasExistingRow : Bool} {rewriteOf : Option LedgerRecord} {raw : Raw}
variable {locals : Locals} {result : UpsertResult} {collectionId : String}

theorem walk_upsertItem (hw : TakenUp deps path item h key hasExistingRow rewriteOf)
    (hseen : SeenHere path h key) (hkeyed : KeyedBy deps item h key raw) :
    Walk (ItemStep deps path item)
      (upsertItem collectionId raw item (upsertOptions deps path item rewriteOf)) h
      fun h' result => Event.call (.upsert collectionId raw item
        (upsertOptions deps path item rewriteOf)) (.ok result) ∈ h' := by
  refine Walk.bind (walk_ask fun _ => .upsert hw hseen hkeyed) fun h₁ result hpre hmem => ?_
  refine Walk.bind (walk_ask fun _ => .writerRecords (hw.mono hpre) (hseen.mono hpre)
    (hkeyed.mono hpre) hmem) fun h₂ _ hpre₂ _ => .ret (hpre₂.subset hmem)

theorem walk_leaveConflicted (hw : TakenUp deps path item h key hasExistingRow rewriteOf)
    (hseen : SeenHere path h key) (hmay : MayHaveKey deps item key)
    (hupsert : Event.call (.upsert collectionId raw item
      (upsertOptions deps path item rewriteOf)) (.ok result) ∈ h)
    (hconf : result.conflicted = true) :
    Walk (ItemStep deps path item) (leaveConflicted key rewriteOf result) h fun h' exit =>
      ItemEnds deps path item h' exit := by
  refine Walk.bind (walk_modifyVars (fun _ _ => .quiet) (fun v => { Grows.refl _ with }) (fun _ => rfl) fun _ => rfl)
    fun h₁ _ hpre _ => ?_
  match rewriteOf with
  | none => exact .throw
  | some known =>
      have hw' : TakenUp deps path item h key true (some known) := by
        cases hw with
        | rewrite ht hc ha => exact .rewrite ht hc ha
      refine Walk.bind (walk_askLedger fun _ => .conflicted (hw'.mono hpre) (hseen.mono hpre)
        (hpre.subset hupsert) hconf) fun h₂ row hpre₂ hmem => .ret ?_
      exact ⟨hmay, hseen.mono (hpre.trans hpre₂), known, _, row,
        hw'.mono (hpre.trans hpre₂), hmem⟩

theorem countWritten_spec (path : String) (key ch : String) (sizeBytes : Nat)
    (isRewrite : Bool) (result : UpsertResult) (v : Vars Item) :
    Grows v (countWritten deps path item key ch sizeBytes isRewrite result v) ∧
      (countWritten deps path item key ch sizeBytes isRewrite result v).left = v.left ∧
      (countWritten deps path item key ch sizeBytes isRewrite result v).windows = v.windows := by
  unfold countWritten
  dsimp only
  split
  · exact ⟨{ Grows.refl _ with }, rfl, rfl⟩
  · split
    · exact ⟨{ Grows.refl _ with }, rfl, rfl⟩
    · split <;> exact ⟨{ Grows.refl _ with }, rfl, rfl⟩

theorem walk_recordRow {sizeBytes : Nat}
    (hw : TakenUp deps path item h key hasExistingRow rewriteOf)
    (hseen : SeenHere path h key) (hkeyed : KeyedBy deps item h key raw)
    (hupsert : Event.call (.upsert collectionId raw item
      (upsertOptions deps path item rewriteOf)) (.ok result) ∈ h)
    (hconf : result.conflicted = false) (hch : deps.contentHash raw = .ok locals.ch) :
    Walk (ItemStep deps path item)
      (recordRow hasExistingRow (writtenRecord deps path item key locals sizeBytes result)) h
      fun h' _ => ∃ record row, record.naturalKeyHash = key ∧
        (Event.call (.ledger (.recordUpdate record)) (.ok row) ∈ h' ∨
          Event.call (.ledger (.recordIfAbsent record)) (.ok row) ∈ h') := by
  cases hasExistingRow with
  | true =>
      refine Walk.bind (walk_askLedger fun _ => .update hw hseen hkeyed hupsert hconf hch)
        fun h₁ row _ hmem => .ret ⟨_, row, ?_, .inl hmem⟩
      rfl
  | false =>
      obtain rfl : rewriteOf = none := by
        cases hw with
        | new _ => rfl
      refine Walk.bind (walk_askLedger fun _ => .insert hw hseen hkeyed hupsert hconf hch)
        fun h₁ row _ hmem => .ret ⟨_, row, ?_, .inr hmem⟩
      rfl

theorem walk_recordWritten {sizeBytes : Nat}
    (hw : TakenUp deps path item h key hasExistingRow rewriteOf)
    (hseen : SeenHere path h key) (hkeyed : KeyedBy deps item h key raw)
    (hupsert : Event.call (.upsert collectionId raw item
      (upsertOptions deps path item rewriteOf)) (.ok result) ∈ h)
    (hconf : result.conflicted = false) (hch : deps.contentHash raw = .ok locals.ch) :
    Walk (ItemStep deps path item) (recordWritten deps path item key locals sizeBytes hasExistingRow
      rewriteOf.isSome result) h fun h' exit => ItemEnds deps path item h' exit := by
  refine Walk.bind (walk_recordRow hw hseen hkeyed hupsert hconf hch) fun h₁ _ hpre₁ hr => ?_
  refine Walk.bind (walk_modifyVars (fun _ _ => .quiet) (fun v => (countWritten_spec _ _ _ _ _ _ v).1)
    (fun v => (countWritten_spec _ _ _ _ _ _ v).2.1)
    fun v => (countWritten_spec _ _ _ _ _ _ v).2.2) fun h₂ _ hpre₂ _ => ?_
  split
  · exact .throw
  · obtain ⟨record, row, hk, hmem⟩ := hr
    exact .ret ⟨hkeyed.mayHave, hseen.mono (hpre₁.trans hpre₂),
      ⟨_, _, hw.mono (hpre₁.trans hpre₂)⟩, record, row, hk,
      hmem.imp (fun hm => hpre₂.subset hm) fun hm => hpre₂.subset hm⟩

theorem walk_writeItem (folder : Folder) {sizeBytes : Nat}
    (hpath : path = deps.collectionPathOf folder)
    (hw : TakenUp deps path item h key hasExistingRow rewriteOf)
    (hseen : SeenHere path h key) (hkeyed : KeyedBy deps item h key raw)
    (hlocals : LocalsOk deps item locals) :
    AttemptWalk deps path item
      (writeItem deps folder item key locals raw sizeBytes hasExistingRow rewriteOf) h
      fun h' exit => ItemEnds deps path item h' exit := by
  subst hpath
  refine AttemptWalk.bind (attemptWalk_ofExcept ?_) fun h₁ ch hpre₁ hch => ?_
  · intro failed hf
    cases hr : deps.contentHash raw with
    | ok k => simp [hr, Except.mapError] at hf
    | error e => simp only [hr, Except.mapError, Except.error.injEq] at hf; exact hf ▸ hlocals
  have hch : deps.contentHash raw = .ok ch := by
    cases hr : deps.contentHash raw with
    | ok k => simpa [hr, Except.mapError] using hch
    | error e => simp [hr, Except.mapError] at hch
  refine Walk.within ?_ ⟨hlocals.mayHave, hlocals.listed⟩
  refine Walk.bind (Walk.quiet (walk_collectionIdOf folder)) fun h₂ collectionId hpre₂ _ => ?_
  have hpre := hpre₁.trans hpre₂
  refine Walk.bind (walk_upsertItem (hw.mono hpre) (hseen.mono hpre) (hkeyed.mono hpre))
    fun h₃ result hpre₃ hmem => ?_
  have hpre := hpre.trans hpre₃
  split
  · next hconf =>
      exact walk_leaveConflicted (hw.mono hpre) (hseen.mono hpre) hkeyed.mayHave hmem hconf
  · next hconf =>
      exact walk_recordWritten (hw.mono hpre) (hseen.mono hpre) (hkeyed.mono hpre) hmem
        (Bool.eq_false_iff.mpr hconf) hch

theorem walk_writeDerived (folder : Folder) {fetched : Fetched Raw}
    (hpath : path = deps.collectionPathOf folder) (hk : deps.naturalKey item = none)
    (hlocals : LocalsOk deps item locals)
    (hfetch : Event.call (.fetchRaw item) (.ok fetched) ∈ h) :
    AttemptWalk deps path item (writeDerived deps folder item locals fetched) h
      fun h' exit => ItemEnds deps path item h' exit := by
  refine AttemptWalk.bind (walk_keyFromBytes folder hpath hk hlocals hfetch) fun h₁ r _ hr => ?_
  match r with
  | .leave exit => exact .ret hr
  | .write key locals' raw hasExistingRow =>
      obtain ⟨hl, hseen, hkeyed, hw⟩ := hr
      refine AttemptWalk.bind (Walk.within (walk_holdAtCeiling true) hl) fun h₂ held hpre hheld => ?_
      split
      · next hc =>
          exact .ret ⟨hkeyed.mayHave, hseen.mono hpre, ⟨_, hw.mono hpre⟩, (hheld hc).2⟩
      · exact walk_writeItem folder hpath (hw.mono hpre) (hseen.mono hpre) (hkeyed.mono hpre) hl

theorem walk_fetchAndWrite (folder : Folder) (hpath : path = deps.collectionPathOf folder)
    (hlocals : locals.naturalKeyHash = deps.naturalKey item)
    (htaken : ∀ k, deps.naturalKey item = some k → SeenHere path h k ∧
      TakenUp deps path item h k hasExistingRow rewriteOf) :
    AttemptWalk deps path item (fetchAndWrite deps folder item locals hasExistingRow rewriteOf) h
      fun h' exit => ItemEnds deps path item h' exit := by
  have hok (name : Option String) : LocalsOk deps item { locals with itemName := name } :=
    ⟨fun k hk => .inl (hlocals ▸ hk), fun k hk => hlocals ▸ hk⟩
  refine AttemptWalk.bind (Walk.within (walk_asks (.fetchRaw item) rfl) (hok locals.itemName))
    fun h₁ fetched hpre hmem => ?_
  dsimp only
  split
  · next k hk =>
      have hk' : deps.naturalKey item = some k := hlocals ▸ hk
      obtain ⟨hseen, hw⟩ := htaken k hk'
      exact walk_writeItem folder hpath (hw.mono hpre) (hseen.mono hpre) (.listed hk' hmem)
        (hok _)
  · next hk =>
      have hk' : deps.naturalKey item = none := hlocals ▸ hk
      exact walk_writeDerived folder hpath hk' (hok _) hmem

theorem walk_itemBody (folder : Folder) (hpath : path = deps.collectionPathOf folder)
    (hlocals : locals.naturalKeyHash = deps.naturalKey item)
    (htaken : ∀ k, deps.naturalKey item = some k → SeenHere path h k ∧
      TakenUp deps path item h k hasExistingRow rewriteOf) :
    AttemptWalk deps path item (itemBody deps folder item locals hasExistingRow rewriteOf) h
      fun h' exit => ItemEnds deps path item h' exit := by
  have hok : LocalsOk deps item locals :=
    ⟨fun k hk => .inl (hlocals ▸ hk), fun k hk => hlocals ▸ hk⟩
  refine AttemptWalk.bind (Walk.within (walk_holdAtCeiling _) hok) fun h₁ held hpre₁ hheld => ?_
  split
  · next hc =>
      obtain ⟨hfirst, hone⟩ := hheld hc
      rw [Bool.and_eq_true, Option.isSome_iff_exists, Option.isNone_iff_eq_none] at hfirst
      obtain ⟨⟨k, hk⟩, rfl⟩ := hfirst
      have hk' : deps.naturalKey item = some k := hlocals ▸ hk
      obtain ⟨hseen, hw⟩ := htaken k hk'
      rw [hk]
      exact .ret ⟨.inl hk', hseen.mono hpre₁, ⟨_, hw.mono hpre₁⟩, hone⟩
  · refine AttemptWalk.bind (Walk.within walk_outOfBudget hok) fun h₂ spent hpre₂ hspent => ?_
    have hpre := hpre₁.trans hpre₂
    split
    · next hc =>
        refine .ret ⟨hlocals, hspent hc, fun k hk => ?_⟩
        obtain ⟨hseen, hw⟩ := htaken k (hlocals ▸ hk)
        exact ⟨hseen.mono hpre, _, _, hw.mono hpre⟩
    · refine walk_fetchAndWrite folder hpath hlocals fun k hk => ?_
      obtain ⟨hseen, hw⟩ := htaken k hk
      exact ⟨hseen.mono hpre, hw.mono hpre⟩

end Write

/-! ### The failure -/

section Task

variable {visit index : Nat} {α β : Type}

/-- The event is no recorded failure. -/
def NoFailure (e : Ev Item Raw Folder τ) : Prop :=
  ∀ record message options a,
    e ≠ Event.call (.ledger (.recordFailure record message options)) a

theorem noFailure_sync {b a : PassState Item Raw Folder τ} :
    NoFailure (Event.sync b a : Ev Item Raw Folder τ) := by
  intro _ _ _ _ heq
  cases heq

theorem ItemStep.noFailure {e : Ev Item Raw Folder τ} (he : ItemStep deps path item h e) :
    NoFailure e := by
  intro record message options a
  cases he with
  | asks ho =>
      rintro ⟨⟩
      exact ho
  | _ => exact nofun

theorem failuresNoted_of_none (hno : ∀ e ∈ h, NoFailure e) : FailuresNoted h :=
  fun _ _ _ _ hmem => absurd rfl (hno _ hmem _ _ _ _)

/-- Before the failure nothing has failed. -/
theorem Walk.task {P : Path Item Raw Folder τ → α → Prop} {p : Pass Item Raw Folder τ α}
    (hp : Walk (ItemStep deps path item) p h P) (hno : ∀ e ∈ h, NoFailure e) :
    Walk (TaskStep deps path item visit index) p h fun h' a => P h' a ∧ ∀ e ∈ h', NoFailure e :=
  Prog.Always.mono (Prog.Always.collect hp (fun _ _ he => ⟨.item he, he.noFailure⟩) hno)
    fun _ _ _ hr a ha => ⟨hr.1 a ha, hr.2⟩

variable {failed : Failed}

/-- Noting a failure adds no other, and a retryable one is then among those of
the pass. -/
theorem walk_noteFailure {attempts : Nat} {reason : String} {parked : Bool} :
    Walk (TaskStep deps path item visit index)
      (onVars (noteFailure deps key attempts reason parked)) h fun h' _ =>
      (∀ e ∈ h', e ∈ h ∨ NoFailure e) ∧ (parked = false → Saw h' (NotedFailure key)) := by
  intro s
  refine ⟨.item (.quiet (.vars { Grows.refl _ with failures := List.subset_append_left _ _ } rfl rfl)), ?_⟩
  rintro _ -
  refine ⟨fun e hmem => ?_, fun hp => ?_⟩
  · rcases List.mem_append.mp hmem with hmem | hmem
    · exact .inl hmem
    · exact .inr (List.mem_singleton.mp hmem ▸ noFailure_sync)
  · exact ⟨_, _, List.mem_append_right _ (List.mem_singleton_self _),
      _, List.mem_append_right _ (List.mem_singleton_self _), rfl, hp⟩

theorem walk_recordFailed (hno : ∀ e ∈ h, NoFailure e) (hmay : MayHaveKey deps item key)
    (htaken : deps.naturalKey item = some key → SeenHere path h key ∧
      ∃ hasExistingRow rewriteOf, TakenUp deps path item h key hasExistingRow rewriteOf) :
    Walk (TaskStep deps path item visit index) (recordFailed deps path item key failed) h
      fun h' exit => FailuresNoted h' ∧ ItemEnds deps path item h' exit := by
  refine Prog.always_awaitWith_bind.mpr ⟨fun row => ⟨.failed hmay htaken, ?_⟩,
    fun e => ⟨.failed hmay htaken, nofun⟩⟩
  refine Walk.bind walk_noteFailure fun h₂ consecutive hpre hr => ?_
  obtain ⟨hold, hnoted⟩ := hr
  split
  · nofun
  refine .ret ⟨fun record message options a hmem => ?_, hmay, fun hk => ?_,
    failureRecord deps path item key failed.locals, failed.err.message,
    ⟨failed.err.isDecision, failed.err.failureSide, failed.err.category⟩, row, ?_, rfl, rfl⟩
  · rcases hold _ hmem with hmem | hnf
    · rcases List.mem_append.mp hmem with hmem | hmem
      · exact absurd rfl (hno _ hmem _ _ _ _)
      · obtain ⟨ho, ha⟩ := Event.call.inj (List.mem_singleton.mp hmem)
        cases ho
        obtain rfl := eq_of_heq ha
        refine ⟨row, rfl, ?_⟩
        cases hp : isParked failed.err.isDecision row with
        | true => exact .inl rfl
        | false => exact .inr (hnoted hp)
    · exact absurd rfl (hnf _ _ _ _)
  · obtain ⟨hseen, _, _, hw⟩ := htaken hk
    have hpre' := (List.prefix_append h _).trans hpre
    exact ⟨hseen.mono hpre', _, _, hw.mono hpre'⟩
  · exact hpre.subset (List.mem_append_right _ (List.mem_singleton_self _))

theorem countFailure_spec (isDecision : Bool) (v : Vars Item) :
    Grows v (countFailure isDecision v).1 := { Grows.refl _ with }

theorem walk_itemFailed (hno : ∀ e ∈ h, NoFailure e) (hl : LocalsOk deps item failed.locals)
    (htaken : ∀ k, deps.naturalKey item = some k → SeenHere path h k ∧
      ∃ hasExistingRow rewriteOf, TakenUp deps path item h k hasExistingRow rewriteOf) :
    Walk (TaskStep deps path item visit index) (itemFailed deps path item failed) h
      fun h' exit => FailuresNoted h' ∧ ItemEnds deps path item h' exit := by
  unfold itemFailed
  split
  · intro exit hnone
    cases hnone
  · refine Walk.bind (Walk.task (walk_onVars (fun _ _ => .quiet) (countFailure_spec _) (fun _ => rfl)
      fun _ => rfl) hno) fun h₁ consecutive hpre hr => ?_
    split
    · next hnone =>
        split
        · intro exit hnone
          cases hnone
        · refine .ret ⟨failuresNoted_of_none hr.2, ?_⟩
          cases hk : deps.naturalKey item with
          | none => exact hk
          | some k =>
              have hsome := hl.listed k hk
              rw [hnone] at hsome
              cases hsome
    · next k hsome =>
        refine walk_recordFailed hr.2 (hl.mayHave k hsome) fun hk => ?_
        obtain ⟨hseen, b, rw, hw⟩ := htaken k hk
        exact ⟨hseen.mono hpre, b, rw, hw.mono hpre⟩

/-- What stands at the end of an attempt. -/
def AttemptEnds (deps : DomainSyncDeps Item Raw Folder) (path : String) (item : Item)
    (h : Path Item Raw Folder τ) : Except Failed Exit → Prop
  | .ok exit => ItemEnds deps path item h exit
  | .error failed => LocalsOk deps item failed.locals

theorem walk_tryItem (folder : Folder) {hasExistingRow : Bool}
    {rewriteOf : Option LedgerRecord} {locals : Locals}
    (hpath : path = deps.collectionPathOf folder) (hno : ∀ e ∈ h, NoFailure e)
    (hlocals : locals.naturalKeyHash = deps.naturalKey item)
    (htaken : ∀ k, deps.naturalKey item = some k → SeenHere path h k ∧
      TakenUp deps path item h k hasExistingRow rewriteOf) :
    Walk (TaskStep deps path item visit index)
      (tryItem deps folder item locals hasExistingRow rewriteOf) h
      fun h' exit => FailuresNoted h' ∧ ItemEnds deps path item h' exit := by
  have hbody := Prog.Always.collect (walk_itemBody folder hpath hlocals htaken)
    (fun h' e (he : ItemStep deps path item h' e) =>
      (⟨.item he, he.noFailure⟩ : TaskStep deps path item visit index h' e ∧ NoFailure e)) hno
  refine Prog.Always.andThen (D := fun h' r => ∀ r', r = .ok r' →
    AttemptEnds deps path item h' r' ∧ ∀ e ∈ h', NoFailure e)
    (Prog.always_attempt.mpr (Prog.Always.mono hbody ?_)) (fun h₁ r hpre hr => ?_)
    fun _ _ _ _ => nofun
  · rintro h' (failed | exit) - hr _ ⟨⟩ <;> exact hr
  · obtain ⟨hend, hno'⟩ := hr r rfl
    cases r with
    | ok exit => exact Walk.ret ⟨failuresNoted_of_none hno', hend⟩
    | error failed =>
        subst hpath
        refine walk_itemFailed hno' hend fun k hk => ?_
        obtain ⟨hseen, hw⟩ := htaken k hk
        exact ⟨hseen.mono hpre, _, _, hw.mono hpre⟩

/-! ### The task -/

theorem takeUp_spec (v : Vars Item) :
    Grows v (takeUp deps path item v) ∧ (takeUp deps path item v).left = v.left ∧
      (takeUp deps path item v).windows = v.windows ∧
      ∀ k, deps.naturalKey item = some k →
        (path, k) ∈ (takeUp deps path item v).seenByCollection := by
  unfold takeUp
  split
  · next hk => exact ⟨{ Grows.refl _ with }, rfl, rfl, fun k hk' => by rw [hk] at hk'; cases hk'⟩
  · next k hk =>
      refine ⟨{ Grows.refl _ with seen := List.subset_cons_self _ _ }, rfl, rfl, fun k' hk' => ?_⟩
      rw [hk] at hk'
      cases hk'
      exact List.mem_cons_self

theorem walk_keyedTask (folder : Folder) (items : List Item) {locals : Locals}
    (hpath : path = deps.collectionPathOf folder) (hno : ∀ e ∈ h, NoFailure e)
    (hlocals : locals.naturalKeyHash = deps.naturalKey item)
    (hk : deps.naturalKey item = some key) (hseen : SeenHere path h key) :
    Walk (TaskStep deps path item visit index)
      (keyedTask deps folder items index item key locals) h
      fun h' exit => FailuresNoted h' ∧ ItemEnds deps path item h' exit := by
  unfold keyedTask
  rw [← hpath]
  refine Walk.bind (Walk.task (walk_quietlySkipped items index key) hno)
    fun h₁ quiet hpre₁ hr => ?_
  obtain ⟨hquiet, hno₁⟩ := hr
  split
  · next hq =>
      obtain ⟨known, ht, hc⟩ := hquiet hq
      refine .ret ⟨failuresNoted_of_none hno₁, .inl hk, hseen.mono hpre₁, known, ht, ?_,
        nofun, nofun, nofun, nofun⟩
      rw [statedVersion_of_listed hk, hc]
  · refine Walk.bind (Walk.task (walk_lookUp hk (hseen.mono hpre₁)) hno₁)
      fun h₂ verdict hpre₂ hr => ?_
    obtain ⟨hv, hno₂⟩ := hr
    match verdict with
    | .leave exit => exact .ret ⟨failuresNoted_of_none hno₂, hv⟩
    | .write hasExistingRow rewriteOf =>
        refine walk_tryItem folder hpath hno₂ hlocals fun k hk' => ?_
        rw [hk] at hk'
        cases hk'
        exact ⟨hseen.mono (hpre₁.trans hpre₂), hv⟩

theorem walk_itemTask (folder : Folder) (items : List Item)
    (hpath : path = deps.collectionPathOf folder) (hno : ∀ e ∈ h, NoFailure e) :
    Walk (TaskStep deps path item visit index) (itemTask deps folder items index item) h
      fun h' exit => FailuresNoted h' ∧ ItemEnds deps path item h' exit := by
  unfold itemTask
  rw [← hpath]
  refine Walk.bind (Walk.task walk_stopTakingNewWork.quiet hno)
    fun h₁ stop _ hr => ?_
  obtain ⟨hstop, hno₁⟩ := hr
  split
  · next hs =>
      refine Walk.bind (Walk.task (walk_modifyVars (fun _ _ => .quiet)
        (fun v => { Grows.refl _ with unfinished := List.subset_cons_self _ _ }) (fun _ => rfl) fun _ => rfl) hno₁)
        fun h₂ _ hpre hr => ?_
      obtain ⟨⟨s, hmem⟩, hno₂⟩ := hr
      exact .ret ⟨failuresNoted_of_none hno₂, (hstop hs).mono hpre,
        _, _, hmem, List.mem_cons_self⟩
  · refine Walk.bind (Walk.task (walk_modifyVars (fun _ _ => .quiet) (fun v => (takeUp_spec v).1)
      (fun v => (takeUp_spec v).2.1) fun v => (takeUp_spec v).2.2.1) hno₁) fun h₂ _ _ hr => ?_
    obtain ⟨⟨s, hmem⟩, hno₂⟩ := hr
    split
    · next hk =>
        refine walk_tryItem folder hpath hno₂ rfl fun k hk' => ?_
        rw [hk] at hk'
        cases hk'
    · next k hk =>
        exact walk_keyedTask folder items hpath hno₂ rfl hk
          ⟨_, _, hmem, (takeUp_spec s.vars).2.2.2 k hk⟩

/-- **The task of one item**: every event is one of `TaskStep`, and a task that
does not throw has noted its exit, its failure with it. -/
theorem walk_worker (visit : Nat) (folder : Folder) (items : List Item) (index : Nat)
    (item : Item) :
    (worker deps visit folder items index item).Always
      (TaskStep deps (deps.collectionPathOf folder) item visit index)
      (TaskEnds deps (deps.collectionPathOf folder) item visit index)
      ([] : Path Item Raw Folder τ) := by
  have htask : Walk (TaskStep deps (deps.collectionPathOf folder) item visit index)
      (itemTask deps folder items index item) ([] : Path Item Raw Folder τ) _ :=
    walk_itemTask folder items rfl fun _ hmem => nomatch hmem
  refine Prog.Always.andThen htask (fun h₁ exit _ hr => ?_) fun _ _ _ _ => trivial
  obtain ⟨hnoted, hend⟩ := hr exit rfl
  intro s
  refine ⟨.note hend, fun record message options a hmem => ?_, h₁, s, exit, hend, rfl⟩
  rcases List.mem_append.mp hmem with hmem | hmem
  · obtain ⟨row, ha, hp⟩ := hnoted record message options a hmem
    exact ⟨row, ha, hp.imp id fun hs => hs.mono (List.subset_append_left _ _)⟩
  · exact absurd (List.mem_singleton.mp hmem) (by intro heq; cases heq)

end Task

end Ownpace.Sync
