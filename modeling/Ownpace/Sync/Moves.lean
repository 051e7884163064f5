/-
Ownpace/Sync/Moves.lean

What a pass says of moves: `moves`, the ones it reports, and its calls to
`recordMove`.

A move is said of an item whose row was read and records another collection than
the one it is listed in (`SaysMoved`), or, at the end of a pass over files, of a
row whose file was seen nowhere.  `MovesSaid` is kept by every step of a pass; where
no item is listed in two collections, it leaves no move of an item that was listed
where its row records it.
-/
import Ownpace.Sync.Relocated
import Ownpace.Sync.Unmoved
import Ownpace.Sync.Unset

namespace Ownpace.Sync

open Await Ownpace

variable {Item Raw Folder τ α : Type}

/-! ### What was listed, and what was said -/

section Said

variable (deps : DomainSyncDeps Item Raw Folder)

/-- The pass listed an item of this key in this collection. -/
inductive ListedIn (v : Vars Item) (collection key : String) : Prop
  | noted : (collection, key) ∈ v.seenByCollection → ListedIn v collection key
  | listing {visit item} : visit ∈ v.listed → visit.collection = collection →
      item ∈ visit.items → deps.naturalKey item = some key → ListedIn v collection key

/-- Which collection the row under this key records, by what the ledger answered:
to the task of an item, which then recorded a move of it, or to the search for
files that are gone. -/
inductive RowSaid (made : List (Made Item Raw Folder)) (key collection : String) : Prop
  | read {known dest a} : known.collection = some collection → isElsewhere known dest = true →
      ⟨.ledger (.find deps.domain key), .ok (some known)⟩ ∈ made →
      ⟨.ledger (.recordMove deps.domain key dest none .content), a⟩ ∈ made → RowSaid made key collection
  | placed {rows row} : ⟨.ledger (.placedItems deps.domain), .ok rows⟩ ∈ made → row ∈ rows →
      row.deletionAppliedAt = none → row.naturalKeyHash = key → row.collection = collection →
      RowSaid made key collection

/-- What these collections listed was noted, or one of them was not read to its end. -/
def SeenOf (visits : List (Visit Item)) (v : Vars Item) : Prop :=
  ∀ visit ∈ visits, ∀ item ∈ visit.items, ∀ key, deps.naturalKey item = some key →
    (visit.collection, key) ∈ v.seenByCollection ∨ visit.collection ∈ v.unfinishedCollections

/-- The item was seen in another collection. -/
def Elsewhere (v : Vars Item) (collection key : String) : Prop :=
  ∃ other, other ≠ collection ∧ (other, key) ∈ v.seenByCollection

/-- The item was not seen in this collection, and that was read to its end. -/
structure Gone (v : Vars Item) (collection key : String) : Prop where
  unseen : (collection, key) ∉ v.seenByCollection
  finished : collection ∉ v.unfinishedCollections
  all : SeenOf deps v.listed v

/-- What a move from this collection is said by. -/
def NotHere (v : Vars Item) (collection key : String) : Prop :=
  Elsewhere v collection key ∨ Gone deps v collection key

/-- Every move that was reported, and every one recorded since `s₀`, is of a row that
was read, and has `Q` for the collection this records. -/
structure MovesSaid (Q : Vars Item → String → String → Prop) (s₀ s : PassState Item Raw Folder τ) :
    Prop where
  log : s₀.world.log <+: s.world.log
  reported : ∀ m ∈ s.vars.moves, RowSaid deps (callsSince s₀ s) m.naturalKeyHash m.fromCollection ∧
    Q s.vars m.fromCollection m.naturalKeyHash
  recorded : ∀ key dest toKey pairedBy a,
    (⟨.ledger (.recordMove deps.domain key dest toKey pairedBy), a⟩ : Made Item Raw Folder) ∈
      callsSince s₀ s → ∃ collection, RowSaid deps (callsSince s₀ s) key collection ∧
        Q s.vars collection key

end Said

section Kept

variable {deps : DomainSyncDeps Item Raw Folder} {out : Outside Item Raw Folder τ}
variable {Q : Vars Item → String → String → Prop}
variable {s₀ s s' : PassState Item Raw Folder τ} {o : SyncOp Item Raw Folder} {a : o.Ans}
variable {v : Vars Item} {key collection : String}

theorem RowSaid.mono {made made' : List (Made Item Raw Folder)} (h : RowSaid deps made key collection)
    (hsub : made ⊆ made') : RowSaid deps made' key collection := by
  cases h with
  | read hc helse hfind hmove => exact .read hc helse (hsub hfind) (hsub hmove)
  | placed hplaced hrow hlive hkey hc => exact .placed (hsub hplaced) hrow hlive hkey hc

theorem SeenOf.mono {visits : List (Visit Item)} {w : Vars Item} (h : SeenOf deps visits v)
    (hs : v.seenByCollection ⊆ w.seenByCollection)
    (hu : v.unfinishedCollections ⊆ w.unfinishedCollections) : SeenOf deps visits w := by
  intro visit hvisit item hitem key hkey
  exact (h visit hvisit item hitem key hkey).imp (fun h => hs h) fun h => hu h

theorem Elsewhere.mono {w : Vars Item} (h : Elsewhere v collection key)
    (hs : v.seenByCollection ⊆ w.seenByCollection) : Elsewhere w collection key := by
  obtain ⟨other, hne, hseen⟩ := h
  exact ⟨other, hne, hs hseen⟩

/-- The calls since are those from before, and this one. -/
theorem callsSince_call (hlog : s₀.world.log <+: s.world.log) (hw : out.Effects s o a s') :
    callsSince s₀ s' = callsSince s₀ s ++ [⟨o, a⟩] := by
  obtain ⟨made, hmade⟩ := hlog
  rw [callsSince, callsSince, log_grows hw, ← hmade, List.append_assoc, List.drop_left, List.drop_left]

namespace MovesSaid

theorem refl (hmoves : s₀.vars.moves = []) : MovesSaid deps Q s₀ s₀ where
  log := List.prefix_rfl
  reported := by
    rw [hmoves]
    exact fun m hm => absurd hm List.not_mem_nil
  recorded := by
    rw [callsSince, List.drop_length]
    exact fun _ _ _ _ _ hm => absurd hm List.not_mem_nil

theorem imp {Q' : Vars Item → String → String → Prop} (h : MovesSaid deps Q s₀ s)
    (hQ : ∀ collection key, Q s.vars collection key → Q' s.vars collection key) :
    MovesSaid deps Q' s₀ s where
  log := h.log
  reported := fun m hm => ⟨(h.reported m hm).1, hQ _ _ (h.reported m hm).2⟩
  recorded := by
    intro key dest toKey pairedBy a hm
    obtain ⟨collection, hsaid, hq⟩ := h.recorded key dest toKey pairedBy a hm
    exact ⟨collection, hsaid, hQ _ _ hq⟩

theorem vars (h : MovesSaid deps Q s₀ s) (hm : SameMoves s.vars v)
    (hQ : ∀ collection key, Q s.vars collection key → Q v collection key) :
    MovesSaid deps Q s₀ { s with vars := v } where
  log := h.log
  reported := by
    intro m hmem
    obtain ⟨hsaid, hq⟩ := h.reported m (hm ▸ hmem)
    exact ⟨hsaid, hQ _ _ hq⟩
  recorded := by
    intro key dest toKey pairedBy a hmem
    obtain ⟨collection, hsaid, hq⟩ := h.recorded key dest toKey pairedBy a hmem
    exact ⟨collection, hsaid, hQ _ _ hq⟩

/-- A call: a move it records is of a row that was read. -/
theorem call (h : MovesSaid deps Q s₀ s) (hw : out.Effects s o a s')
    (ho : ∀ key dest toKey pairedBy, o = .ledger (.recordMove deps.domain key dest toKey pairedBy) →
      ∃ collection, RowSaid deps (callsSince s₀ s') key collection ∧ Q s.vars collection key) :
    MovesSaid deps Q s₀ s' := by
  have hcalls := callsSince_call h.log hw
  have hsub : callsSince s₀ s ⊆ callsSince s₀ s' := hcalls ▸ List.subset_append_left _ _
  refine ⟨h.log.trans ?_, ?_, ?_⟩
  · rw [log_grows hw]
    exact List.prefix_append _ _
  · rw [effects_vars hw]
    exact fun m hm => ⟨(h.reported m hm).1.mono hsub, (h.reported m hm).2⟩
  · rw [effects_vars hw]
    intro key dest toKey pairedBy b hmem
    rw [hcalls] at hmem
    rcases List.mem_append.mp hmem with hmem | hmem
    · obtain ⟨collection, hsaid, hq⟩ := h.recorded key dest toKey pairedBy b hmem
      exact ⟨collection, hsaid.mono hsub, hq⟩
    · exact ho key dest toKey pairedBy (congrArg Sigma.fst (List.mem_singleton.mp hmem)).symm

theorem plain (h : MovesSaid deps Q s₀ s) (ho : plain o) (hw : out.Effects s o a s') :
    MovesSaid deps Q s₀ s' := by
  refine h.call hw fun key dest toKey pairedBy heq => ?_
  rw [heq] at ho
  exact ho.elim

end MovesSaid

end Kept

/-! ### The tasks of a listing -/

section Tasks

variable {deps : DomainSyncDeps Item Raw Folder} {out : Outside Item Raw Folder τ}
variable {s₀ s₁ s s' : PassState Item Raw Folder τ} {paths : Paths Item Raw Folder τ}
variable {visit i : Nat} {path : String} {item : Item} {items : List Item} {e : Ev Item Raw Folder τ}

variable (deps s₀) in
/-- What the tasks keep. -/
structure SaidBlock (paths : Paths Item Raw Folder τ) (s : PassState Item Raw Folder τ) : Prop where
  logged : ∀ i o a, Event.call o a ∈ paths i → (⟨o, a⟩ : Made Item Raw Folder) ∈ callsSince s₀ s
  said : MovesSaid deps (fun v => Elsewhere v) s₀ s

theorem collection_of_isElsewhere {known : LedgerRecord} (h : isElsewhere known path = true) :
    ∃ collection, known.collection = some collection ∧ path ≠ collection := by
  rw [isElsewhere, Bool.and_eq_true] at h
  obtain ⟨collection, hc, hne⟩ := (Option.any_eq_true _ _).mp h.2
  obtain ⟨stored, hstored, hnonempty⟩ := Option.bind_eq_some_iff.mp hc
  refine ⟨collection, ?_, fun heq => ?_⟩
  · rw [nonEmpty] at hnonempty
    split at hnonempty
    · cases hnonempty
    · rw [hstored, Option.some.inj hnonempty]
  · rw [heq, decide_eq_true_eq] at hne
    exact hne rfl

/-- Where the item of a move is listed, its row does not record it. -/
theorem SaidBlock.moved (hb : SaidBlock deps s₀ paths s)
    (hshared : Shared deps visit path items s₁ paths s) {key : String} {known : LedgerRecord}
    (hm : MovedHere deps path (paths i) key known) :
    ∃ collection, known.collection = some collection ∧ Elsewhere s.vars collection key ∧
      (⟨.ledger (.find deps.domain key), .ok (some known)⟩ : Made Item Raw Folder) ∈ callsSince s₀ s := by
  obtain ⟨collection, hc, hne⟩ := collection_of_isElsewhere hm.elsewhere
  exact ⟨collection, hc, ⟨path, hne, hshared.seenHere hm.seen List.prefix_rfl⟩, hb.logged i _ _ hm.read⟩

theorem SaidBlock.step (hb : SaidBlock deps s₀ paths s)
    (hshared : Shared deps visit path items s₁ paths s)
    (he : TaskStep deps path item visit i (paths i) e) (hj : SaysMoved deps path (paths i) e)
    (hf : Fires out.Effects s e s') : SaidBlock deps s₀ (paths.add i e) s' := by
  cases e with
  | sync b a =>
      obtain ⟨rfl, rfl⟩ := hf
      obtain ⟨hg, hworld, -⟩ := he.sync
      have hcalls : callsSince s₀ s' = callsSince s₀ s := by rw [callsSince, callsSince, hworld]
      refine ⟨fun j o a' hmem => ?_, ?_⟩
      · rcases Paths.mem_add hmem with hmem | ⟨-, heq⟩
        · rw [hcalls]
          exact hb.logged j o a' hmem
        · cases heq
      · cases hj with
        | plain hd =>
            cases hd with
            | vars hm => exact hb.said.vars hm fun _ _ h => h.mono hg.seen
        | @report key known _ v hm hrecorded hmoves =>
            obtain ⟨collection, hc, helse, hread⟩ := hb.moved hshared hm
            refine ⟨hb.said.log, fun m hmem => ?_, fun k dest toKey pairedBy a hmem => ?_⟩
            · have hmem : m ∈ v.moves := hmem
              rw [hmoves, List.mem_append, List.mem_singleton] at hmem
              rcases hmem with hmem | rfl
              · exact ⟨(hb.said.reported m hmem).1, (hb.said.reported m hmem).2.mono hg.seen⟩
              · rw [hc]
                exact ⟨.read hc hm.elsewhere hread (hb.logged i _ _ hrecorded), helse.mono hg.seen⟩
            · obtain ⟨c, hsaid, hq⟩ := hb.said.recorded k dest toKey pairedBy a hmem
              exact ⟨c, hsaid, hq.mono hg.seen⟩
  | call o a =>
      have hcalls := callsSince_call hb.said.log hf
      have hsub : callsSince s₀ s ⊆ callsSince s₀ s' := hcalls ▸ List.subset_append_left _ _
      refine ⟨fun j o' a' hmem => ?_, hb.said.call hf fun key dest toKey pairedBy heq => ?_⟩
      · rcases Paths.mem_add hmem with hmem | ⟨-, heq⟩
        · exact hsub (hb.logged j o' a' hmem)
        · cases heq
          exact mem_callsSince_call hb.said.log hf
      · cases hj with
        | plain hd =>
            cases hd with
            | call ho =>
                rw [heq] at ho
                exact ho.elim
        | @record k known _ hm =>
            cases heq
            obtain ⟨collection, hc, helse, hread⟩ := hb.moved hshared hm
            exact ⟨collection, .read hc hm.elsewhere (hsub hread) (mem_callsSince_call hb.said.log hf), helse⟩

/-- Every moment of the tasks of a listing. -/
theorem saidBlock_of_reaches {folder : Folder}
    (hsaid : MovesSaid deps (fun v => Elsewhere v) s₀ s₁) (hw : s₁.vars.windows = [])
    (ha : Answered s₁.vars)
    {pl : Pool (PassState Item Raw Folder τ) (SyncOp Item Raw Folder) SyncOp.Ans Err}
    (hreach : Pool.Reaches out.Effects deps.concurrency (workers deps visit folder items) s₁ pl s) :
    Pool.Ok (workers deps visit folder items)
      (fun i h e => ∃ item, items[i]? = some item ∧
        TaskStep deps (deps.collectionPathOf folder) item visit i h e ∧
        SaysMoved deps (deps.collectionPathOf folder) h e)
      (ItemD deps visit (deps.collectionPathOf folder) items)
      (fun paths s => Shared deps visit (deps.collectionPathOf folder) items s₁ paths s ∧
        SaidBlock deps s₀ paths s) pl s := by
  refine Pool.rule ?_ ?_ ⟨.init hw ha, fun _ _ _ hmem => absurd hmem List.not_mem_nil, hsaid⟩ hreach
  · intro i p hp
    obtain ⟨item, hi, rfl⟩ := worker_of_getElem hp
    refine (((walk_worker visit folder items i item).and
      (walk_worker_moves visit folder items i item)).collect (Q := fun _ => True)
      (fun h e he => ⟨⟨item, hi, he⟩, trivial⟩) fun _ _ => trivial).mono fun _ _ _ hr => ⟨item, hi, hr.1.1⟩
  · rintro paths s i e s' - ⟨hshared, hb⟩ ⟨item, hi, he, hj⟩ hf
    exact ⟨hshared.step hi he hf, hb.step hshared he hj hf⟩

/-- Where every task ended, all that was listed was noted, or the collection was
not read to its end. -/
theorem seen_of_joined {folder : Folder} (hw : s₁.vars.windows = []) (ha : Answered s₁.vars)
    (hitems : Effects deps out s₁ (.mapItems visit folder items) (.ok ()) s) :
    Grows s₁.vars s.vars ∧ ∀ item ∈ items, ∀ key, deps.naturalKey item = some key →
      (deps.collectionPathOf folder, key) ∈ s.vars.seenByCollection ∨
        deps.collectionPathOf folder ∈ s.vars.unfinishedCollections := by
  obtain ⟨pl, hreach, hjoined, hresult⟩ := hitems
  have hok := block_rule (I := fun _ _ => True) rfl hw ha trivial
    (fun _ _ _ _ _ _ _ _ _ _ _ _ => trivial) hreach
  have hshared := hok.inv.1
  refine ⟨hshared.grown, fun item hitem key hkey => ?_⟩
  obtain ⟨i, hi⟩ := List.getElem?_of_mem hitem
  obtain ⟨-, h₀, b, exit, hends, hpath⟩ := block_joined hok hjoined hresult.symm hi
  have hpre : h₀ <+: pl.path i := hpath ▸ List.prefix_append _ _
  have hlisted {k : String} (hmay : MayHaveKey deps item k) : k = key := by
    rcases hmay with hk | ⟨hnone, -⟩
    · rw [hk] at hkey
      exact Option.some.inj hkey
    · rw [hnone] at hkey
      cases hkey
  have hseen {k : String} (hmay : MayHaveKey deps item k)
      (h : SeenHere (deps.collectionPathOf folder) h₀ k) :
      (deps.collectionPathOf folder, key) ∈ s.vars.seenByCollection :=
    hlisted hmay ▸ hshared.seenHere h hpre
  cases exit with
  | notTakenUp => exact .inr (hshared.saw hends.2 hpre fun _ _ hg hv => hg.unfinished hv)
  | known k action => exact .inl (hseen hends.1 hends.2.1)
  | heldAtCeiling k => exact .inl (hseen hends.1 hends.2.1)
  | outOfBudget k =>
      obtain ⟨hk, -, hall⟩ := hends
      exact .inl (hshared.seenHere (hall key (hk.trans hkey)).1 hpre)
  | conflicted k => exact .inl (hseen hends.1 hends.2.1)
  | written k => exact .inl (hseen hends.1 hends.2.1)
  | failedKeyless =>
      have hnone : deps.naturalKey item = none := hends
      rw [hnone] at hkey
      cases hkey
  | failed k parked =>
      obtain ⟨hmay, hseenk, -⟩ := hends
      have hk := hlisted hmay
      exact .inl (hseen hmay (hseenk (hk ▸ hkey)).1)

end Tasks

/-! ### The pass -/

/-- Where a pass may be left off, or what it ends with. -/
inductive Stands (deps : DomainSyncDeps Item Raw Folder) (out : Outside Item Raw Folder τ)
    (s₀ : PassState Item Raw Folder τ) : PassState Item Raw Folder τ → Prop
  | off {s} : Leftover deps out s₀ s → Stands deps out s₀ s
  | ended {result path s} : PassRun deps out s₀ (.ret result) path s → Stands deps out s₀ s

section Pass

variable {deps : DomainSyncDeps Item Raw Folder} {out : Outside Item Raw Folder τ}
variable {s₀ s s' : PassState Item Raw Folder τ} {β : Type}

variable (deps s₀) in
/-- Where a call may be made. -/
structure MayCall (s : PassState Item Raw Folder τ) (o : SyncOp Item Raw Folder) : Prop where
  said : MovesSaid deps (NotHere deps) s₀ s
  items : ∀ visit folder items, o = .mapItems visit folder items →
    MovesSaid deps (fun v => Elsewhere v) s₀ s ∧ s.vars.windows = [] ∧ Answered s.vars
  moves : ∀ key dest toKey pairedBy, o = .ledger (.recordMove deps.domain key dest toKey pairedBy) →
    ∃ collection, RowSaid deps (callsSince s₀ s) key collection ∧ NotHere deps s.vars collection key

theorem mayCall_plain {o : SyncOp Item Raw Folder} (hs : MovesSaid deps (NotHere deps) s₀ s)
    (ho : plain o) : MayCall deps s₀ s o where
  said := hs
  items := by
    rintro visit folder items rfl
    exact ho.elim
  moves := by
    rintro key dest toKey pairedBy rfl
    exact ho.elim

variable (deps s₀) in
/-- What a pass keeps until it looks for files that are gone. -/
structure Loop (s : PassState Item Raw Folder τ) : Prop where
  said : MovesSaid deps (fun v => Elsewhere v) s₀ s
  answered : Answered s.vars

theorem Loop.notHere (h : Loop deps s₀ s) : MovesSaid deps (NotHere deps) s₀ s :=
  h.said.imp fun _ _ => .inl

theorem effects_plain {o : SyncOp Item Raw Folder} {a : o.Ans} (ho : plain o)
    (hw : Effects deps out s o a s') : out.Effects s o a s' := by
  cases o <;> first | exact hw | cases ho

variable (deps out s₀) in
/-- From a state with `Pre`, every call may be made, and a value is returned in a
state with `Post`. -/
abbrev Speaks (Pre : PassState Item Raw Folder τ → Prop) (p : Pass Item Raw Folder τ α)
    (Post : α → PassState Item Raw Folder τ → Prop) : Prop :=
  Prog.Triple (Effects deps out) (MayCall deps s₀) Pre p Post

theorem speaks_onVars {P : PassState Item Raw Folder τ → Prop}
    {Q : β → PassState Item Raw Folder τ → Prop} {f : Vars Item → Vars Item × β}
    (hf : ∀ s, P s → Q (f s.vars).2 { s with vars := (f s.vars).1 }) :
    Speaks deps out s₀ P (onVars f) Q := by
  rintro s hs _ ⟨⟩
  exact hf s hs

/-- A program that says nothing of moves. -/
theorem Only.speaks {p : Pass Item Raw Folder τ α} (hp : Only Aside p) {F : Vars Item → Prop}
    (hF : ∀ v w, F v → Aside v w → F w) :
    Speaks deps out s₀ (fun s => Loop deps s₀ s ∧ F s.vars) p fun _ s =>
      Loop deps s₀ s ∧ F s.vars := by
  intro s hs
  refine Prog.Always.wp (hp []) (I := fun _ s => Loop deps s₀ s ∧ F s.vars) hs ?_ ?_ ?_
  · rintro h s e s' ⟨hloop, hf⟩ he hfires
    cases he with
    | @vars _ v ha =>
        obtain ⟨rfl, rfl⟩ := hfires
        refine ⟨⟨hloop.said.vars ha.moves fun _ _ helse => helse.mono ha.seen, ?_⟩, hF _ _ hf ha⟩
        exact ha.answered hloop.answered
    | call ho =>
        have hw := effects_plain ho hfires
        refine ⟨⟨hloop.said.plain ho hw, ?_⟩, ?_⟩
        · rw [effects_vars hw]
          exact hloop.answered
        · rw [effects_vars hw]
          exact hf
  · rintro h s o ⟨hloop, -⟩ hcall
    cases hcall (.error { message := "" }) with
    | call ho => exact mayCall_plain hloop.notHere ho
  · rintro h s r hs - a -
    exact hs

variable (deps) in
/-- All that was listed was noted, but for collections not read to their end. -/
def AllSeen (v : Vars Item) : Prop := SeenOf deps v.listed v

theorem AllSeen.aside (v w : Vars Item) (h : AllSeen deps v) (ha : Aside v w) : AllSeen deps w := by
  have hseen : SeenOf deps v.listed w := SeenOf.mono h ha.seen ha.unfinished
  rwa [← ha.listed] at hseen

/-- The tasks of a listing that was just begun. -/
theorem speaks_items (visit : Nat) (folder : Folder) (items : List Item) (nextCursor : String) :
    Speaks deps out s₀ (fun s => Loop deps s₀ s ∧ s.vars.windows = [] ∧ ∃ visits,
        s.vars.listed = visits ++ [⟨deps.collectionPathOf folder, items, nextCursor⟩] ∧
          SeenOf deps visits s.vars)
      (ask (.mapItems visit folder items)) fun _ s => Loop deps s₀ s ∧ AllSeen deps s.vars := by
  refine Prog.triple_awaitWith (fun s hs => ⟨hs.1.notHere, ?_, ?_⟩) ?_
  · rintro _ _ _ ⟨⟩
    exact ⟨hs.1.said, hs.2.1, hs.1.answered⟩
  · intro _ _ _ _ heq
    cases heq
  · rintro s ⟨⟩ s' ⟨hloop, hw, visits, hlisted, hseen⟩ heff
    have hitems : Effects deps out s (.mapItems visit folder items) (.ok ()) s' := heff
    obtain ⟨hg, hall⟩ := seen_of_joined hw hloop.answered hitems
    obtain ⟨pl, hreach, -, -⟩ := hitems
    obtain ⟨hshared, hb⟩ := (saidBlock_of_reaches hloop.said hw hloop.answered hreach).inv
    refine ⟨⟨hb.said, hshared.answered⟩, ?_⟩
    rw [AllSeen, hg.listed, hlisted]
    intro v hv item hitem key hkey
    rcases List.mem_append.mp hv with hv | hv
    · exact hseen.mono hg.seen hg.unfinished v hv item hitem key hkey
    · obtain rfl := List.mem_singleton.mp hv
      exact hall item hitem key hkey

theorem speaks_readCollection (folder : Folder) (prev : Option String) (listing : Listing Item) :
    Speaks deps out s₀ (fun s => Loop deps s₀ s ∧ s.vars.windows = [] ∧ AllSeen deps s.vars)
      (readCollection deps folder prev listing) fun _ s => Loop deps s₀ s ∧ AllSeen deps s.vars := by
  refine Prog.Triple.seq (fun _ s => Loop deps s₀ s ∧ s.vars.windows = [] ∧ ∃ visits,
    s.vars.listed = visits ++ [⟨deps.collectionPathOf folder, listing.items, listing.nextCursor⟩] ∧
      SeenOf deps visits s.vars) (speaks_onVars fun s hs => ?_) fun begun => ?_
  · obtain ⟨hloop, hw, hseen⟩ := hs
    exact ⟨⟨hloop.said.vars rfl fun _ _ h => h, hloop.answered⟩, hw, s.vars.listed, rfl, hseen⟩
  · have hbegun (v w : Vars Item) (h : v.windows = [] ∧ ∃ visits,
        v.listed = visits ++ [⟨deps.collectionPathOf folder, listing.items, listing.nextCursor⟩] ∧
          SeenOf deps visits v) (ha : Aside v w) : w.windows = [] ∧ ∃ visits,
        w.listed = visits ++ [⟨deps.collectionPathOf folder, listing.items, listing.nextCursor⟩] ∧
          SeenOf deps visits w := by
      obtain ⟨hw, visits, hlisted, hseen⟩ := h
      refine ⟨ha.windows.elim (fun heq => heq.trans hw) id, visits, ha.listed.trans hlisted, ?_⟩
      exact hseen.mono ha.seen ha.unfinished
    refine Prog.Triple.bind ((only_enumerateKeys folder prev).speaks hbegun) fun _ => ?_
    refine Prog.Triple.bind (speaks_items begun.1 folder listing.items listing.nextCursor) fun _ => ?_
    exact (only_decideCursor _ prev listing begun.2).speaks AllSeen.aside

theorem speaks_syncCollection (folder : Folder) :
    Speaks deps out s₀ (fun s => Loop deps s₀ s ∧ AllSeen deps s.vars) (syncCollection deps folder)
      fun _ s => Loop deps s₀ s ∧ AllSeen deps s.vars := by
  refine Prog.Triple.bind (only_stopTakingNewWork.speaks AllSeen.aside) fun stop => ?_
  cases stop with
  | true =>
      refine Only.speaks (.modify fun v => ?_) AllSeen.aside
      exact .quiet { Grows.refl _ with unfinished := List.subset_cons_self _ _ } rfl rfl
  | false =>
      have hopen (v w : Vars Item) (h : v.windows = [] ∧ AllSeen deps v) (ha : Aside v w) :
          w.windows = [] ∧ AllSeen deps w :=
        ⟨ha.windows.elim (fun heq => heq.trans h.1) id, h.2.aside _ _ ha⟩
      refine Prog.Triple.bind ((only_storedCursor _).speaks AllSeen.aside) fun prev => ?_
      refine Prog.Triple.seq (fun _ s => Loop deps s₀ s ∧ s.vars.windows = [] ∧ AllSeen deps s.vars)
        (speaks_onVars fun s hs => ?_) fun _ => ?_
      · exact ⟨⟨hs.1.said.vars rfl fun _ _ h => h, hs.1.answered⟩, rfl, hs.2⟩
      refine Prog.Triple.bind (Only.speaks (.doIf ?_) hopen) fun _ => ?_
      · exact .bind (only_collectionIdOf folder) fun _ => .ret
      refine Prog.Triple.bind (Only.speaks (by exact .attempt (.ask trivial)) hopen) fun answer => ?_
      cases answer with
      | error err =>
          refine Prog.Triple.mono ((only_leaveUnread folder err).speaks AllSeen.aside)
            (fun _ hs => ⟨hs.1, hs.2.2⟩) fun _ _ hs => hs
      | ok listing => exact speaks_readCollection folder prev listing

theorem speaks_syncCollections (folders : List Folder) :
    Speaks deps out s₀ (fun s => Loop deps s₀ s ∧ AllSeen deps s.vars) (syncCollections deps folders)
      fun _ s => Loop deps s₀ s ∧ AllSeen deps s.vars := by
  induction folders with
  | nil => exact Prog.triple_ret fun _ hs => hs
  | cons folder rest ih => exact Prog.Triple.bind (speaks_syncCollection folder) fun _ => ih

/-! ### The search for files that are gone -/

variable (deps s₀) in
/-- The search over the rows `placed`, the variables being `v`. -/
structure Searching (v : Vars Item) (placed : List Ledger.PlacedItem)
    (s : PassState Item Raw Folder τ) : Prop where
  said : MovesSaid deps (NotHere deps) s₀ s
  vars : s.vars = v
  seen : AllSeen deps v
  placed : (⟨.ledger (.placedItems deps.domain), .ok placed⟩ : Made Item Raw Folder) ∈ callsSince s₀ s

variable (deps) in
/-- The row of a move that is found. -/
structure GoneRow (v : Vars Item) (placed : List Ledger.PlacedItem) (key collection : String) : Prop where
  row : ∃ row ∈ placed, row.deletionAppliedAt = none ∧ row.naturalKeyHash = key ∧ row.collection = collection
  gone : Gone deps v collection key

variable {v : Vars Item} {placed : List Ledger.PlacedItem} {row : Ledger.PlacedItem}

theorem Searching.rowSaid {key collection : String} (h : Searching deps s₀ v placed s)
    (hg : GoneRow deps v placed key collection) :
    RowSaid deps (callsSince s₀ s) key collection ∧ NotHere deps s.vars collection key := by
  obtain ⟨row, hrow, hlive, hkey, hc⟩ := hg.row
  refine ⟨.placed h.placed hrow hlive hkey hc, .inr ?_⟩
  rw [h.vars]
  exact hg.gone

/-- A call of the search: a move that it records was found. -/
theorem speaks_search (o : LedgerOp)
    (ho : ∀ key dest toKey pairedBy, o = .recordMove deps.domain key dest toKey pairedBy →
      ∃ collection, GoneRow deps v placed key collection) :
    Speaks deps out s₀ (Searching deps s₀ v placed) (askLedger o) fun _ => Searching deps s₀ v placed := by
  refine Prog.triple_awaitWith (fun s hs => ⟨hs.said, ?_, ?_⟩) ?_
  · intro _ _ _ heq
    cases heq
  · rintro key dest toKey pairedBy ⟨⟩
    obtain ⟨collection, hg⟩ := ho key dest toKey pairedBy rfl
    exact ⟨collection, hs.rowSaid hg⟩
  · intro s a s' hs heff
    have hw : out.Effects s (.ledger o) (.ok a) s' := heff
    have hcalls := callsSince_call hs.said.log hw
    have hsub : callsSince s₀ s ⊆ callsSince s₀ s' := hcalls ▸ List.subset_append_left _ _
    refine ⟨hs.said.call hw ?_, (effects_vars hw).trans hs.vars, hs.seen, hsub hs.placed⟩
    rintro key dest toKey pairedBy ⟨⟩
    obtain ⟨collection, hg⟩ := ho key dest toKey pairedBy rfl
    obtain ⟨hsaid, hnot⟩ := hs.rowSaid hg
    exact ⟨collection, hsaid.mono hsub, hnot⟩

variable (deps) in
/-- Every move that was found is of a file that is gone. -/
def FoundGone (v : Vars Item) (placed : List Ledger.PlacedItem) (found : Found) : Prop :=
  ∀ m ∈ found.moves, GoneRow deps v placed m.naturalKeyHash m.fromCollection

theorem foundGone_none {deletions : List ReportedDeletion} {drift : Nat} :
    FoundGone deps v placed { deletions := deletions, drift := drift } :=
  fun _ hm => absurd hm List.not_mem_nil

theorem foundGone_one {dest : String} {toKey : Option String}
    (hg : GoneRow deps v placed row.naturalKeyHash row.collection) :
    FoundGone deps v placed (reportMove deps row dest toKey) := by
  intro m hm
  obtain rfl := List.mem_singleton.mp hm
  exact hg

theorem speaks_clearMarks (row : Ledger.PlacedItem) :
    Speaks deps out s₀ (Searching deps s₀ v placed) (clearMarks deps row) fun _ =>
      Searching deps s₀ v placed := by
  have hdo {condition : Bool} {p : Pass Item Raw Folder τ Unit}
      (hp : Speaks deps out s₀ (Searching deps s₀ v placed) p fun _ => Searching deps s₀ v placed) :
      Speaks deps out s₀ (Searching deps s₀ v placed) (doIf condition p) fun _ =>
        Searching deps s₀ v placed := by
    unfold doIf
    split
    · exact hp
    · exact Prog.triple_ret fun _ hs => hs
  refine Prog.Triple.bind (hdo (speaks_search (.clearMove _ _) ?_)) fun _ => ?_
  · intro _ _ _ _ heq
    cases heq
  refine Prog.Triple.bind (hdo (speaks_search (.clearAbsent _ _) ?_)) fun _ => ?_
  · intro _ _ _ _ heq
    cases heq
  refine hdo (speaks_search (.clearEarlierExport _ _) ?_)
  intro _ _ _ _ heq
  cases heq

theorem speaks_missingRow (arrivals : List CreatedItem)
    (hg : GoneRow deps v placed row.naturalKeyHash row.collection) :
    Speaks deps out s₀ (Searching deps s₀ v placed) (missingRow deps v placed arrivals row)
      fun found s => Searching deps s₀ v placed s ∧ FoundGone deps v placed found.1 := by
  have hmove {dest : String} {toKey : Option String} {pairedBy : PairedBy} :
      Speaks deps out s₀ (Searching deps s₀ v placed)
        (askLedger (.recordMove deps.domain row.naturalKeyHash dest toKey pairedBy)) fun _ =>
          Searching deps s₀ v placed := by
    refine speaks_search _ ?_
    rintro key dest toKey pairedBy ⟨⟩
    exact ⟨_, hg⟩
  unfold missingRow
  dsimp only
  split
  · refine Prog.Triple.bind hmove fun _ => Prog.Triple.bind (speaks_search (.clearAbsent _ _) ?_) fun _ => ?_
    · intro _ _ _ _ heq
      cases heq
    · exact Prog.triple_ret fun _ hs => ⟨hs, foundGone_one hg⟩
  · split
    · exact Prog.Triple.bind hmove fun _ => Prog.triple_ret fun _ hs => ⟨hs, foundGone_one hg⟩
    · refine Prog.Triple.bind (speaks_search (.recordAbsent _ _) ?_) fun absent => ?_
      · intro _ _ _ _ heq
        cases heq
      · exact Prog.triple_ret fun _ hs => ⟨hs, foundGone_none⟩

theorem speaks_detectRow (arrivals : List CreatedItem) (hrow : row ∈ placed) (hall : AllSeen deps v) :
    Speaks deps out s₀ (Searching deps s₀ v placed) (detectRow deps v placed arrivals row)
      fun found s => Searching deps s₀ v placed s ∧ FoundGone deps v placed found.1 := by
  unfold detectRow
  split
  · exact Prog.triple_ret fun _ hs => ⟨hs, foundGone_none⟩
  · next hlive =>
      split
      · refine Prog.Triple.bind (speaks_clearMarks row) fun _ => ?_
        exact Prog.triple_ret fun _ hs => ⟨hs, foundGone_none⟩
      · next hseen =>
          split
          · exact Prog.triple_ret fun _ hs => ⟨hs, foundGone_none⟩
          · next hleft =>
              have hg : GoneRow deps v placed row.naturalKeyHash row.collection := by
                refine ⟨⟨row, hrow, Option.not_isSome_iff_eq_none.mp hlive, rfl, rfl⟩, ?_, ?_, hall⟩
                · simpa [Vars.seen] using hseen
                · exact fun hmem => hleft (.inl hmem)
              split
              · refine Prog.triple_ret fun _ hs => ⟨hs, ?_⟩
                split
                · exact foundGone_one hg
                · exact foundGone_none
              · exact speaks_missingRow arrivals hg

theorem speaks_detectRows (hall : AllSeen deps v) (rows : List Ledger.PlacedItem) (hsub : rows ⊆ placed)
    (arrivals : List CreatedItem) :
    Speaks deps out s₀ (Searching deps s₀ v placed) (detectRows deps v placed arrivals rows)
      fun found s => Searching deps s₀ v placed s ∧ FoundGone deps v placed found := by
  induction rows generalizing arrivals with
  | nil => exact Prog.triple_ret fun _ hs => ⟨hs, foundGone_none⟩
  | cons row rest ih =>
      obtain ⟨hrow, hrest⟩ := List.cons_subset.mp hsub
      refine Prog.Triple.bind (speaks_detectRow arrivals hrow hall) fun found => ?_
      intro s hs
      refine Prog.wp_bind.mpr (Prog.Wp.mono (ih hrest found.2 s hs.1) fun s' r hr => ?_)
      cases r with
      | error e => exact fun _ he => by cases he
      | ok more =>
          rintro _ ⟨⟩
          refine ⟨(hr more rfl).1, fun m hm => ?_⟩
          rcases List.mem_append.mp hm with hm | hm
          · exact hs.2 m hm
          · exact (hr more rfl).2 m hm

theorem speaks_concludeMoves :
    Speaks deps out s₀ (fun s => Loop deps s₀ s ∧ AllSeen deps s.vars) (concludeMoves deps)
      fun _ s => MovesSaid deps (NotHere deps) s₀ s := by
  intro s hs
  obtain ⟨hloop, hall⟩ := hs
  have hplaced : Speaks deps out s₀ (fun s' => Loop deps s₀ s' ∧ s'.vars = s.vars)
      (askLedger (.placedItems deps.domain) : Pass Item Raw Folder τ _)
      fun placed => Searching deps s₀ s.vars placed := by
    refine Prog.triple_awaitWith (fun s₁ hs₁ => mayCall_plain hs₁.1.notHere trivial) ?_
    intro s₁ placed s₂ hs₁ heff
    have hw : out.Effects s₁ (.ledger (.placedItems deps.domain)) (.ok placed) s₂ := heff
    refine ⟨hs₁.1.notHere.plain (o := .ledger (.placedItems deps.domain)) trivial hw, (effects_vars hw).trans hs₁.2, hall, ?_⟩
    exact mem_callsSince_call hs₁.1.said.log hw
  have hdetect : Speaks deps out s₀ (fun s' => Loop deps s₀ s' ∧ s'.vars = s.vars)
      (detectPathKeyedMoves deps s.vars) fun found s' =>
        ∃ placed, Searching deps s₀ s.vars placed s' ∧ FoundGone deps s.vars placed found := by
    refine Prog.Triple.bind hplaced fun placed => ?_
    exact Prog.Triple.mono (speaks_detectRows hall placed (List.Subset.refl _) _) (fun _ hs => hs)
      fun found _ hs => ⟨placed, hs⟩
  refine Prog.Triple.bind hdetect (fun found => speaks_onVars ?_) s ⟨hloop, rfl⟩
  rintro s' ⟨placed, hs', hfound⟩
  have hnot (collection key : String) (h : NotHere deps s'.vars collection key) :
      NotHere deps { s'.vars with
        moved := s'.vars.moved + found.moves.length
        moves := s'.vars.moves ++ found.moves
        deletions := s'.vars.deletions ++ found.deletions
        drift := s'.vars.drift + found.drift } collection key := by
    rcases h with ⟨other, hne, hseen⟩ | ⟨hunseen, hfin, hall⟩
    · exact .inl ⟨other, hne, hseen⟩
    · exact .inr ⟨hunseen, hfin, hall⟩
  refine ⟨hs'.said.log, fun m hm => ?_, fun key dest toKey pairedBy a hm => ?_⟩
  · rcases List.mem_append.mp hm with hm | hm
    · exact ⟨(hs'.said.reported m hm).1, hnot _ _ (hs'.said.reported m hm).2⟩
    · obtain ⟨hsaid, hn⟩ := hs'.rowSaid (hfound m hm)
      exact ⟨hsaid, hnot _ _ hn⟩
  · obtain ⟨collection, hsaid, hq⟩ := hs'.said.recorded key dest toKey pairedBy a hm
    exact ⟨collection, hsaid, hnot _ _ hq⟩

theorem speaks_conclude (listedNothing : Bool) :
    Speaks deps out s₀ (fun s => Loop deps s₀ s ∧ AllSeen deps s.vars) (conclude deps listedNothing)
      fun _ s => MovesSaid deps (NotHere deps) s₀ s := by
  refine Prog.Triple.bind (only_readVars.speaks AllSeen.aside) fun v => ?_
  split
  · exact Prog.triple_throw
  · refine Prog.Triple.bind (only_askStillDecides.speaks AllSeen.aside) fun decides => ?_
    refine Prog.Triple.bind (Only.speaks (.doIf (only_concludeRemovals decides)) AllSeen.aside) fun _ => ?_
    refine Prog.Triple.bind (Only.speaks (.doIf only_concludeBin) AllSeen.aside) fun _ => ?_
    refine Prog.Triple.bind (Only.speaks (.doIf only_concludeFormerNames) AllSeen.aside) fun _ => ?_
    unfold doIf
    split
    · exact speaks_concludeMoves
    · exact Prog.triple_ret fun _ hs => hs.1.notHere

/-- **What a pass says of moves.** -/
theorem speaks_runDomainSync :
    Speaks deps out s₀ (fun s => Loop deps s₀ s ∧ AllSeen deps s.vars) (runDomainSync deps)
      fun result s => MovesSaid deps (NotHere deps) s₀ s ∧ result.vars = s.vars := by
  have hresult (n : Nat) :
      Speaks deps out s₀ (MovesSaid deps (NotHere deps) s₀) (do
        let v ← readVars
        return (⟨n, strongest v.deletions, v⟩ : DomainSyncResult Item))
        fun result s => MovesSaid deps (NotHere deps) s₀ s ∧ result.vars = s.vars := by
    rintro s hs _ ⟨⟩
    exact ⟨hs, rfl⟩
  refine Prog.Triple.bind (only_opening.speaks AllSeen.aside) fun _ => ?_
  refine Prog.Triple.bind (Only.speaks (.onVars Aside.refl) AllSeen.aside) fun listedNothing => ?_
  split
  · refine Prog.Triple.bind (Only.speaks (.modify fun v => ?_) AllSeen.aside) fun _ => ?_
    · exact .quiet { Grows.refl _ with } rfl rfl
    · exact Prog.Triple.bind (speaks_conclude true) fun _ => hresult 0
  · refine Prog.Triple.bind (Only.speaks (by exact .ask trivial) AllSeen.aside) fun folders => ?_
    refine Prog.Triple.bind (speaks_syncCollections folders) fun _ => ?_
    exact Prog.Triple.bind (speaks_conclude false) fun _ => hresult folders.length

/-! ### Any moment of it -/

/-- Every moment of a pass that began with nothing reported. -/
theorem movesSaid_of_stands (hvars : s₀.vars = {}) (h : Stands deps out s₀ s) :
    MovesSaid deps (NotHere deps) s₀ s := by
  have hstart : Loop deps s₀ s₀ ∧ AllSeen deps s₀.vars := by
    refine ⟨⟨.refl (by rw [hvars]), ?_⟩, ?_⟩
    · rw [hvars]
      rintro ⟨n, hmem⟩
      cases hmem
    · rw [hvars]
      exact fun _ hmem => absurd hmem List.not_mem_nil
  have hpass : Speaks deps out s₀ (fun s => Loop deps s₀ s ∧ AllSeen deps s.vars) (runDomainSync deps)
      fun result s => MovesSaid deps (NotHere deps) s₀ s ∧ result.vars = s.vars := speaks_runDomainSync
  have hspeaks := hpass s₀ hstart
  cases h with
  | ended hrun => exact (Prog.Wp.run hrun hspeaks _ rfl).1
  | off h =>
      cases h with
      | start => exact hstart.1.notHere
      | before hissue =>
          cases hissue with
          | pass hrun => exact (Prog.Wp.run hrun hspeaks).1.said
          | item hrun hreach hmem hprog =>
              obtain ⟨hsaid, hw, ha⟩ := (Prog.Wp.run hrun hspeaks).1.items _ _ _ rfl
              exact (saidBlock_of_reaches hsaid hw ha hreach).inv.2.said.imp fun _ _ => .inl
      | @call s₁ o a _ hissue hw =>
          cases hissue with
          | pass hrun =>
              have hmay := (Prog.Wp.run hrun hspeaks).1
              cases o with
              | mapItems visit folder items =>
                  obtain ⟨hsaid, hwindows, ha⟩ := hmay.items _ _ _ rfl
                  obtain ⟨pl, hreach, -, -⟩ := hw
                  exact (saidBlock_of_reaches hsaid hwindows ha hreach).inv.2.said.imp fun _ _ => .inl
              | _ =>
                  have hcalls := @callsSince_call _ _ _ _ out _ _ _ _ _ hmay.said.log hw
                  refine hmay.said.call hw fun key dest toKey pairedBy heq => ?_
                  obtain ⟨collection, hsaid, hnot⟩ := hmay.moves key dest toKey pairedBy heq
                  exact ⟨collection, hsaid.mono (hcalls ▸ List.subset_append_left _ _), hnot⟩
          | item hrun hreach hmem hprog =>
              obtain ⟨hsaid, hwindows, ha⟩ := (Prog.Wp.run hrun hspeaks).1.items _ _ _ rfl
              have hok := saidBlock_of_reaches hsaid hwindows ha hreach
              obtain ⟨i, ht⟩ := List.getElem?_of_mem hmem
              have hwalk := hok.walks i _ ht
              rw [hprog, ← Pool.path_of_getElem ht] at hwalk
              obtain ⟨item, -, he, hj⟩ := (hwalk a).1
              cases o with
              | mapItems =>
                  cases he with
                  | item he => cases he with | asks ho => cases ho
              | _ => exact (hok.inv.2.step hok.inv.1 he hj hw).said.imp fun _ _ => .inl

end Pass

end Ownpace.Sync
