/-
Ownpace/Sync/Block.lean

The tasks of one listing, at the same time.

`Shared` is what holds of every reachable moment of them whatever the claim:
each path is justified, the variables have only grown since any step on any
path, an exit that is noted was earned, and what a task was told of a row, some
task has read.  `block_rule` is the rule of the pool with `Shared` in hand: an
invariant of its own is carried by showing what one step of one item's task
does to it.
-/
import Ownpace.Sync.ItemWalk

namespace Ownpace.Sync

open Await Ownpace Store

variable {Item Raw Folder τ : Type}

/-- The path of every task of a listing. -/
abbrev Paths (Item Raw Folder τ : Type) : Type := Nat → Path Item Raw Folder τ

/-- The `i`-th path, one event longer. -/
abbrev Paths.add (paths : Paths Item Raw Folder τ) (i : Nat) (e : Ev Item Raw Folder τ) :
    Paths Item Raw Folder τ :=
  Function.update paths i (paths i ++ [e])

namespace Paths

variable {paths : Paths Item Raw Folder τ} {i j : Nat} {e e' : Ev Item Raw Folder τ}

theorem add_self : paths.add i e i = paths i ++ [e] := Function.update_self ..

theorem prefix_add : paths j <+: paths.add i e j := by
  by_cases hj : j = i
  · subst hj
    rw [add_self]
    exact List.prefix_append _ _
  · have hkeep : paths.add i e j = paths j := Function.update_of_ne hj _ _
    exact hkeep ▸ List.prefix_rfl

theorem mem_add (hmem : e' ∈ paths.add i e j) : e' ∈ paths j ∨ j = i ∧ e' = e := by
  by_cases hj : j = i
  · subst hj
    rw [add_self] at hmem
    exact (List.mem_append.mp hmem).imp id fun hm => ⟨rfl, List.mem_singleton.mp hm⟩
  · rw [add, Function.update_of_ne hj] at hmem
    exact .inl hmem

theorem mem_add_self : e ∈ paths.add i e i := by
  rw [add_self]
  exact List.mem_append_right _ (List.mem_singleton_self _)

end Paths

section Block

variable (deps : DomainSyncDeps Item Raw Folder) (visit : Nat) (path : String)
variable (items : List Item)

/-- The steps of the `i`-th task. -/
def ItemJ (i : Nat) (h : Path Item Raw Folder τ) (e : Ev Item Raw Folder τ) : Prop :=
  ∃ item, items[i]? = some item ∧ TaskStep deps path item visit i h e

def ItemD (i : Nat) (h : Path Item Raw Folder τ) (r : Except Err Unit) : Prop :=
  ∃ item, items[i]? = some item ∧ TaskEnds deps path item visit i h r

/-- Some task has read this row of the ledger. -/
inductive Asked (paths : Paths Item Raw Folder τ) (key : String) : Option LedgerRecord → Prop
  | find {i row} : Event.call (.ledger (.find deps.domain key)) (.ok row) ∈ paths i →
      Asked paths key row
  | findMany {i keys rows known} :
      Event.call (.ledger (.findMany deps.domain keys)) (.ok rows) ∈ paths i →
      (key, known) ∈ rows → Asked paths key (some known)

/-- What holds of every moment of the tasks. -/
structure Shared (s₀ : PassState Item Raw Folder τ) (paths : Paths Item Raw Folder τ)
    (s : PassState Item Raw Folder τ) : Prop where
  justified : ∀ i, Prog.Justified (ItemJ deps visit path items i) (paths i)
  grown : Grows s₀.vars s.vars
  grows : ∀ i b a, Event.sync b a ∈ paths i → Grows a.vars s.vars
  began : ∀ i b a, Event.sync b a ∈ paths i → Grows s₀.vars b.vars
  left : ∀ entry ∈ s.vars.left, entry ∈ s₀.vars.left ∨ entry.visit = visit ∧
    ∃ item h, items[entry.index]? = some item ∧ h <+: paths entry.index ∧
      ItemEnds deps path item h entry.exit
  windows : ∀ n rows, (n, some rows) ∈ s.vars.windows → ∃ i keys,
    Event.call (.ledger (.findMany deps.domain keys)) (.ok rows) ∈ paths i
  awaited : ∀ i n rows, Event.call (.awaitRows n) (.ok (some rows)) ∈ paths i → ∃ j keys,
    Event.call (.ledger (.findMany deps.domain keys)) (.ok rows) ∈ paths j
  named : ∀ key known, Asked deps paths key (some known) →
    known.itemType = deps.domain ∧ known.naturalKeyHash = key
  answered : Answered s.vars
  paused : ∀ i n, Event.call (.awaitAsking n) (.ok true) ∈ paths i → s.vars.paused = true

variable {deps visit path items}

section Shared

variable {s₀ s : PassState Item Raw Folder τ} {paths : Paths Item Raw Folder τ}

theorem Shared.asked (hs : Shared deps visit path items s₀ paths s) {i : Nat} {key : String}
    {row : Option LedgerRecord} {h : Path Item Raw Folder τ} (ht : Told deps h key row)
    (hpre : h <+: paths i) : Asked deps paths key row := by
  obtain ⟨e, hmem, he⟩ := ht
  cases he with
  | find => exact .find (hpre.subset hmem)
  | findMany hr => exact .findMany (hpre.subset hmem) hr
  | window hr =>
      obtain ⟨j, keys, hm⟩ := hs.awaited i _ _ (hpre.subset hmem)
      exact .findMany hm hr

theorem Shared.saw (hs : Shared deps visit path items s₀ paths s) {i : Nat}
    {h : Path Item Raw Folder τ} {P : Vars Item → Prop} (hsaw : Saw h P)
    (hpre : h <+: paths i) (hP : ∀ v w, Grows v w → P v → P w) : P s.vars := by
  obtain ⟨b, a, hmem, hv⟩ := hsaw
  exact hP _ _ (hs.grows i b a (hpre.subset hmem)) hv

theorem Shared.seenHere (hs : Shared deps visit path items s₀ paths s) {i : Nat}
    {h : Path Item Raw Folder τ} {key : String} (hseen : SeenHere path h key)
    (hpre : h <+: paths i) : (path, key) ∈ s.vars.seenByCollection :=
  hs.saw hseen hpre fun _ _ hg hv => hg.seen hv

theorem Shared.stopped (hs : Shared deps visit path items s₀ paths s) {i : Nat}
    {h : Path Item Raw Folder τ} (hstop : Stopped h) (hpre : h <+: paths i) :
    s.vars.paused = true := by
  rcases hstop with hsaw | ⟨n, hmem⟩
  · exact hs.saw hsaw hpre fun _ _ hg hv => hg.paused hv
  · exact hs.paused i n (hpre.subset hmem)

/-- Before the first step. -/
theorem Shared.init (hw : s₀.vars.windows = []) (ha : Answered s₀.vars) :
    Shared deps visit path items s₀ (fun _ => []) s₀ where
  justified := fun _ => Prog.justified_nil
  grown := .refl _
  grows := fun _ _ _ hmem => nomatch hmem
  began := fun _ _ _ hmem => nomatch hmem
  left := fun _ hmem => .inl hmem
  windows := fun n rows hmem => by rw [hw] at hmem; cases hmem
  awaited := fun _ _ _ hmem => nomatch hmem
  named := fun _ _ ha => by cases ha with | find h => cases h | findMany h => cases h
  answered := ha
  paused := fun _ _ hmem => nomatch hmem

variable {out : Outside Item Raw Folder τ} {i : Nat} {item : Item}
variable {s' : PassState Item Raw Folder τ} {e : Ev Item Raw Folder τ} {key : String}

/-- A step of a task on the variables. -/
theorem TaskStep.sync {h : Path Item Raw Folder τ} {b a : PassState Item Raw Folder τ}
    (he : TaskStep deps path item visit i h (.sync b a)) :
    Grows b.vars a.vars ∧ a.world = b.world ∧ Loaded deps h b.vars a.vars := by
  cases he with
  | item he =>
      cases he with
      | vars hg hl _ => exact ⟨hg, rfl, hl⟩
  | note _ => exact ⟨{ Grows.refl _ with left := List.subset_append_left _ _ }, rfl, fun _ _ hm => .inl hm⟩

theorem effects_vars {o : SyncOp Item Raw Folder} {a : o.Ans}
    (hw : out.Effects s o a s') : s'.vars = s.vars := by
  obtain ⟨w', -, rfl⟩ := hw
  rfl

/-- The call to the ledger that a call of the pass comes to. -/
inductive Writes (out : Outside Item Raw Folder τ) : SyncOp Item Raw Folder → LedgerOp → Prop
  | ledger {o} : Writes out (.ledger o) o
  | writer {raw item options result record} : out.records raw item options result record →
      Writes out (.writerRecords raw item options result) (.recordIfAbsent record)

/-- What a call does to the rows. -/
theorem effects_ledger {o : SyncOp Item Raw Folder} {a : o.Ans} (hw : out.Effects s o a s') :
    s'.world.ledger = s.world.ledger ∨
      ∃ o' h, Writes out o o' ∧ s'.world.ledger = (o'.run h s.world.ledger).2 := by
  obtain ⟨w', hcall, rfl⟩ := hw
  suffices hw : w'.ledger = s.world.ledger ∨
      ∃ o' h, Writes out o o' ∧ w'.ledger = (o'.run h s.world.ledger).2 from hw
  cases o with
  | ledger o =>
      obtain ⟨⟨h, ⟨-, hl⟩ | ⟨-, hl | hl⟩⟩, -⟩ := hcall
      · exact .inr ⟨o, h, .ledger, hl⟩
      · exact .inl hl
      · exact .inr ⟨o, h, .ledger, hl⟩
  | writerRecords raw item options result =>
      rcases hcall with hw' | ⟨record, answer, hrec, ⟨h, ⟨-, hl⟩ | ⟨-, hl | hl⟩⟩, -⟩
      · exact .inl (congrArg PassWorld.ledger hw')
      · exact .inr ⟨_, h, .writer hrec, hl⟩
      · exact .inl hl
      · exact .inr ⟨_, h, .writer hrec, hl⟩
  | cursorSet c value =>
      refine .inl ?_
      rcases hcall with rfl | ⟨-, rfl⟩ <;> rfl
  | cursorGet | recordAppEvent | awaitAsking | awaitCollection | awaitRows =>
      exact .inl (congrArg PassWorld.ledger hcall.1)
  | mapItems => cases hcall
  | _ => exact .inl (by rw [hcall.2])

/-- A row the ledger answers with is one it holds. -/
theorem find_of_answer {k : String} {row : Option LedgerRecord}
    (hf : out.Effects s (.ledger (.find deps.domain k)) (.ok row) s') :
    s.world.ledger.find deps.domain k = row ∧ s'.world.ledger = s.world.ledger := by
  obtain ⟨w', ⟨⟨host, ⟨ha, hl⟩ | ⟨⟨e, he⟩, -⟩⟩, -⟩, rfl⟩ := hf
  · exact ⟨(Except.ok.inj ha).symm, hl⟩
  · cases he

theorem findMany_of_answer {keys : List String} {rows : List (String × LedgerRecord)}
    {k : String} {known : LedgerRecord}
    (hf : out.Effects s (.ledger (.findMany deps.domain keys)) (.ok rows) s')
    (hmem : (k, known) ∈ rows) :
    s.world.ledger.find deps.domain k = some known ∧ s'.world.ledger = s.world.ledger := by
  obtain ⟨w', ⟨⟨host, ⟨ha, hl⟩ | ⟨⟨e, he⟩, -⟩⟩, -⟩, rfl⟩ := hf
  · obtain rfl := Except.ok.inj ha
    obtain ⟨r, hr, heq⟩ := List.mem_map.mp hmem
    cases heq
    simp only [List.mem_filter, Bool.and_eq_true, decide_eq_true_eq] at hr
    exact ⟨Ledger.find_eq_some.mpr ⟨r, Table.get_of_mem hr.1, hr.2.2, rfl⟩, hl⟩
  · cases he

/-- A step that tells of a row tells what the ledger holds. -/
theorem Asked.step {row : Option LedgerRecord} (ha : Asked deps (paths.add i e) key row)
    (hf : Fires out.Effects s e s') :
    Asked deps paths key row ∨
      s.world.ledger.find deps.domain key = row ∧ s'.world.ledger = s.world.ledger := by
  cases ha with
  | find hmem =>
      rcases Paths.mem_add hmem with hmem | ⟨-, rfl⟩
      · exact .inl (.find hmem)
      · exact .inr (find_of_answer hf)
  | findMany hmem hr =>
      rcases Paths.mem_add hmem with hmem | ⟨-, rfl⟩
      · exact .inl (.findMany hmem hr)
      · exact .inr (findMany_of_answer hf hr)

/-- A row that is handed out carries the domain and the key it was asked by. -/
theorem named_of_find {l : Ledger} {known : LedgerRecord} {key : String}
    (hfind : l.find deps.domain key = some known) :
    known.itemType = deps.domain ∧ known.naturalKeyHash = key := by
  obtain ⟨r, hr, hd, rfl⟩ := Ledger.find_eq_some.mp hfind
  exact ⟨hd, Ledger.key_of_get hr⟩

/-- What any one step of any one task keeps. -/
theorem Shared.step (hs : Shared deps visit path items s₀ paths s)
    (hitem : items[i]? = some item) (he : TaskStep deps path item visit i (paths i) e)
    (hf : Fires out.Effects s e s') : Shared deps visit path items s₀ (paths.add i e) s' := by
  have hjust : ∀ j, Prog.Justified (ItemJ deps visit path items j) (paths.add i e j) := by
    intro j
    by_cases hj : j = i
    · subst hj
      rw [Paths.add_self]
      exact (hs.justified j).concat ⟨item, hitem, he⟩
    · rw [Paths.add, Function.update_of_ne hj]
      exact hs.justified j
  have hgrow : Grows s.vars s'.vars := by
    cases e with
    | sync b a =>
        obtain ⟨rfl, rfl⟩ := hf
        exact he.sync.1
    | call o a => exact effects_vars hf ▸ .refl _
  refine ⟨hjust, hs.grown.trans hgrow, ?_, ?_, ?_, ?_, ?_, ?_, hgrow.answered hs.answered, ?_⟩
  · intro j b a hmem
    rcases Paths.mem_add hmem with hmem | ⟨-, rfl⟩
    · exact (hs.grows j b a hmem).trans hgrow
    · obtain ⟨rfl, rfl⟩ := hf
      exact .refl _
  · intro j b a hmem
    rcases Paths.mem_add hmem with hmem | ⟨-, rfl⟩
    · exact hs.began j b a hmem
    · obtain ⟨rfl, rfl⟩ := hf
      exact hs.grown
  · have hold : ∀ entry ∈ s.vars.left, entry ∈ s₀.vars.left ∨ entry.visit = visit ∧
        ∃ item h, items[entry.index]? = some item ∧ h <+: paths.add i e entry.index ∧
          ItemEnds deps path item h entry.exit := by
      intro entry hmem
      refine (hs.left entry hmem).imp id fun ⟨hv, item, h, hi, hpre, hend⟩ =>
        ⟨hv, item, h, hi, hpre.trans Paths.prefix_add, hend⟩
    intro entry hmem
    cases e with
    | call o a => exact hold entry (effects_vars hf ▸ hmem)
    | sync b a =>
        obtain ⟨rfl, rfl⟩ := hf
        cases he with
        | item he =>
            cases he with
            | vars _ _ hl => exact hold entry (hl ▸ hmem)
        | note hend =>
            rcases List.mem_append.mp hmem with hmem | hmem
            · exact hold entry hmem
            · obtain rfl := List.mem_singleton.mp hmem
              exact .inr ⟨rfl, item, paths i, hitem, Paths.prefix_add, hend⟩
  · have hold : ∀ n rows, (n, some rows) ∈ s.vars.windows → ∃ j keys,
        Event.call (.ledger (.findMany deps.domain keys)) (.ok rows) ∈ paths.add i e j := by
      intro n rows hmem
      obtain ⟨j, keys, hm⟩ := hs.windows n rows hmem
      exact ⟨j, keys, Paths.prefix_add.subset hm⟩
    intro n rows hmem
    cases e with
    | call o a => exact hold n rows (effects_vars hf ▸ hmem)
    | sync b a =>
        obtain ⟨rfl, rfl⟩ := hf
        rcases he.sync.2.2 n rows hmem with hmem | ⟨keys, hm⟩
        · exact hold n rows hmem
        · exact ⟨i, keys, Paths.prefix_add.subset hm⟩
  · intro j n rows hmem
    rcases Paths.mem_add hmem with hmem | ⟨-, rfl⟩
    · obtain ⟨j', keys, hm⟩ := hs.awaited j n rows hmem
      exact ⟨j', keys, Paths.prefix_add.subset hm⟩
    · obtain ⟨w', ⟨-, rows', hl, heq⟩, -⟩ := hf
      cases heq
      obtain ⟨l₁, l₂, hl, -⟩ := List.lookup_eq_some_iff.mp hl
      obtain ⟨j', keys, hm⟩ := hs.windows n rows (by rw [hl]; simp)
      exact ⟨j', keys, Paths.prefix_add.subset hm⟩
  · intro key known ha
    rcases ha.step hf with ha | ⟨hfind, -⟩
    · exact hs.named key known ha
    · exact named_of_find hfind
  · intro j n hmem
    rcases Paths.mem_add hmem with hmem | ⟨-, rfl⟩
    · exact hgrow.paused (hs.paused j n hmem)
    · obtain ⟨w', ⟨-, hl⟩, rfl⟩ := hf
      obtain ⟨l₁, l₂, hl, -⟩ := List.lookup_eq_some_iff.mp hl
      exact hs.answered ⟨n, by rw [hl]; simp⟩

end Shared

variable {folder : Folder} {out : Outside Item Raw Folder τ}
variable {s₀ s : PassState Item Raw Folder τ}

theorem worker_of_getElem {i : Nat} {p : Pass Item Raw Folder τ Unit}
    (hp : (workers deps visit folder items)[i]? = some p) :
    ∃ item, items[i]? = some item ∧ p = worker deps visit folder items i item := by
  rw [workers, List.getElem?_mapIdx, Option.map_eq_some_iff] at hp
  obtain ⟨item, hi, rfl⟩ := hp
  exact ⟨item, hi, rfl⟩

/-- **The rule of the tasks.**  An invariant of the paths and the state that
holds before the first step, and that every step of an item's task keeps, holds
at every reachable moment. -/
theorem block_rule {I : Paths Item Raw Folder τ → PassState Item Raw Folder τ → Prop}
    (hpath : path = deps.collectionPathOf folder) (hw : s₀.vars.windows = [])
    (ha : Answered s₀.vars) (h₀ : I (fun _ => []) s₀)
    (hstep : ∀ paths s i item e s', items[i]? = some item →
      Shared deps visit path items s₀ paths s → I paths s →
      TaskStep deps path item visit i (paths i) e → Fires out.Effects s e s' →
      Shared deps visit path items s₀ (paths.add i e) s' → I (paths.add i e) s')
    {pl : Pool (PassState Item Raw Folder τ) (SyncOp Item Raw Folder) SyncOp.Ans Err}
    (hr : Pool.Reaches out.Effects deps.concurrency (workers deps visit folder items) s₀ pl s) :
    Pool.Ok (workers deps visit folder items) (ItemJ deps visit path items)
      (ItemD deps visit path items)
      (fun paths s => Shared deps visit path items s₀ paths s ∧ I paths s) pl s := by
  subst hpath
  refine Pool.rule ?_ ?_ ⟨.init hw ha, h₀⟩ hr
  · intro i p hp
    obtain ⟨item, hi, rfl⟩ := worker_of_getElem hp
    exact Prog.Always.mono (Prog.Always.collect (walk_worker visit folder items i item)
      (Q := fun _ => True) (fun h e he => ⟨⟨item, hi, he⟩, trivial⟩) fun _ _ => trivial)
      fun _ _ _ hr => ⟨item, hi, hr.1⟩
  · rintro paths s i e s' - ⟨hs, hI⟩ ⟨item, hi, he⟩ hf
    have hs' := hs.step hi he hf
    exact ⟨hs', hstep paths s i item e s' hi hs hI he hf hs'⟩

/-- At the end of a block that threw nothing, every item has left. -/
theorem block_joined {I : Paths Item Raw Folder τ → PassState Item Raw Folder τ → Prop}
    {pl : Pool (PassState Item Raw Folder τ) (SyncOp Item Raw Folder) SyncOp.Ans Err}
    (hok : Pool.Ok (workers deps visit folder items) (ItemJ deps visit path items)
      (ItemD deps visit path items) I pl s)
    (hj : pl.Joined) (hr : pl.result = .ok ()) {i : Nat} {item : Item}
    (hi : items[i]? = some item) :
    TaskEnds deps path item visit i (pl.path i) (.ok ()) := by
  have hnone : pl.firstError = none := by
    cases he : pl.firstError with
    | none => rfl
    | some e => simp [Pool.result, he] at hr
  have hwait : pl.waiting = [] := hj.2.resolve_right fun h => h hnone
  have hlen : i < pl.started.length := by
    have hall := hok.waiting
    rw [hwait, eq_comm, List.drop_eq_nil_iff, workers, List.length_mapIdx] at hall
    exact Nat.lt_of_lt_of_le (List.getElem?_eq_some_iff.mp hi).1 hall
  have ht : pl.started[i]? = some pl.started[i] := List.getElem?_eq_getElem hlen
  have hwalk := hok.walks i _ ht
  rw [Pool.path_of_getElem ht]
  have hended := hj.1 _ (List.getElem_mem hlen)
  have hthrow := hok.noted _ (List.getElem_mem hlen)
  generalize pl.started[i] = t at hwalk hended hthrow
  obtain ⟨prog, h⟩ := t
  cases prog with
  | ret a =>
      obtain ⟨item', hi', hend⟩ := hwalk
      rw [hi] at hi'
      cases hi'
      exact hend
  | throw e => exact absurd hnone (hthrow e rfl)
  | sync upd k => cases hended
  | call o k => cases hended

end Block

end Ownpace.Sync
