/-
Ownpace/Migrate/Together.lean

Any number of processes that start at once, on builds of one chain of migrations: the
bookkeeping rows are always the first of the chain, the database contains what their scripts
made of it, each run once and in order, and a run that returns left it exactly at its build.

What a run knows it knows of the database it holds the lock of: nobody else changes it, and a
run whose session has ended does nothing more (`Unmoved`).
-/
import Mathlib.Data.List.Infix
import Mathlib.Data.List.MinMax
import Ownpace.Migrate.Run

namespace Ownpace.Migrate

open Await

variable {V D : Type}

/-! ### What is kept, and what the others leave alone -/

/-- What a run that returns says is its build, no more and no less. -/
structure Exact (builds : Nat → List V) (run : Nat) (result : RunMigrationsResult V) : Prop where
  versions : (result.alreadyApplied ++ result.applied).Perm (builds run)
  current : result.currentVersion = (builds run).getLast?

/-- The build is in the database, and what the run says that it applied it committed. -/
structure Happened (builds : Nat → List V) (run : Nat) (result : RunMigrationsResult V)
    (rows : List V) (commits : List (Nat × V)) : Prop where
  build : builds run <+: rows
  commits : ∀ v ∈ result.applied, (run, v) ∈ commits

theorem Happened.later {builds : Nat → List V} {run : Nat} {result : RunMigrationsResult V}
    {rows rows' : List V} {commits commits' : List (Nat × V)}
    (h : Happened builds run result rows commits) (hrows : rows <+: rows')
    (hcommits : commits <+: commits') : Happened builds run result rows' commits' :=
  ⟨h.build.trans hrows, fun v hv => hcommits.subset (h.commits v hv)⟩

/-- What is fixed: the scripts of the chain, the database there is, and the processes' builds. -/
structure Setting (V D : Type) where
  script : V → D → D
  chain : List V
  rows : List V
  contents : D
  builds : Nat → List V

structure Sound (d : Setting V D) (s : Server V D) : Prop where
  chain : s.rows <+: d.chain
  rows : s.rows = d.rows ++ s.commits.map Prod.snd
  contents : s.contents = (s.commits.map Prod.snd).foldl (fun c v => d.script v c) d.contents
  transactions : ∀ i tx, s.sessions i = .inTransaction tx → s.lock = some i
  alive : ∀ i, s.lock = some i → s.sessions i ≠ .dead
  results : ∀ e ∈ s.results, Exact d.builds e.1 e.2 ∧
    Happened d.builds e.1 e.2 s.rows s.commits

/-- The session of a run is its own, and so is the database while it holds the lock. -/
structure Unmoved (run : Nat) (s s' : Server V D) : Prop where
  session : s'.sessions run = s.sessions run ∨ s'.sessions run = .dead
  lock : s'.sessions run ≠ .dead → (s'.lock = some run ↔ s.lock = some run)
  held : s'.lock = some run → s.lock = some run ∧ s'.rows = s.rows
  commits : s.commits <+: s'.commits
  rows : s.rows <+: s'.rows

/-- What a step of one run does to the others. -/
def Others (run : Nat) (s s' : Server V D) : Prop := ∀ other, run ≠ other → Unmoved other s s'

variable {run other : Nat} {s s' s'' : Server V D}

theorem Unmoved.refl (run : Nat) (s : Server V D) : Unmoved run s s :=
  ⟨.inl rfl, fun _ => Iff.rfl, fun h => ⟨h, rfl⟩, List.prefix_rfl, List.prefix_rfl⟩

theorem Unmoved.trans (run : Nat) (s s' s'' : Server V D) (h : Unmoved run s s')
    (h' : Unmoved run s' s'') : Unmoved run s s'' := by
  have hdead : s''.sessions run ≠ .dead → s'.sessions run ≠ .dead := by
    intro halive hdead
    rcases h'.session with hsame | hsame
    · exact halive (hsame.trans hdead)
    · exact halive hsame
  refine ⟨?_, fun halive => ?_, fun hlock => ?_, h.commits.trans h'.commits,
    h.rows.trans h'.rows⟩
  · rcases h'.session with hsame' | hsame'
    · rw [hsame']
      exact h.session
    · exact .inr hsame'
  · exact (h'.lock halive).trans (h.lock (hdead halive))
  · obtain ⟨hlock', hrows'⟩ := h'.held hlock
    obtain ⟨hlock, hrows⟩ := h.held hlock'
    exact ⟨hlock, hrows'.trans hrows⟩

variable {d : Setting V D}

/-! ### What a statement does -/

theorem unmoved_kill (run : Nat) (gone : Nat → Bool) : Unmoved run s (s.kill gone) := by
  refine ⟨?_, fun halive => ?_, fun hlock => ?_, List.prefix_rfl, List.prefix_rfl⟩
  · by_cases hgone : gone run = true
    · exact .inr (if_pos hgone)
    · exact .inl (if_neg hgone)
  · have hgone : ¬ gone run = true := fun hgone => halive (if_pos hgone)
    show s.lock.filter _ = some run ↔ _
    rw [Option.filter_eq_some_iff]
    simp [hgone]
  · exact ⟨(Option.filter_eq_some_iff.mp hlock).1, rfl⟩

theorem Sound.kill (hs : Sound d s) (gone : Nat → Bool) : Sound d (s.kill gone) := by
  refine ⟨hs.chain, hs.rows, hs.contents, fun i tx hi => ?_, fun i hi => ?_, hs.results⟩
  · have hgone : ¬ gone i = true := by
      intro hgone
      have hdead : (s.kill gone).sessions i = .dead := if_pos hgone
      rw [hdead] at hi
      cases hi
    have hsame : (s.kill gone).sessions i = s.sessions i := if_neg hgone
    have hlock := hs.transactions i tx (hsame ▸ hi)
    exact Option.filter_eq_some_iff.mpr ⟨hlock, by simp [hgone]⟩
  · obtain ⟨hlock, hgone⟩ := Option.filter_eq_some_iff.mp hi
    have hsame : (s.kill gone).sessions i = s.sessions i := if_neg (by simpa using hgone)
    rw [hsame]
    exact hs.alive i hlock

theorem unmoved_session (h : run ≠ other) {session : Session V} :
    Unmoved other s (s.session run session) :=
  ⟨.inl (Function.update_of_ne h.symm _ _), fun _ => Iff.rfl, fun hlock => ⟨hlock, rfl⟩,
    List.prefix_rfl, List.prefix_rfl⟩

theorem unmoved_commit {tx : Transaction V} (h : run ≠ other) (hlock : s.lock = some run) :
    Unmoved other s (s.commit d.script run tx) := by
  refine ⟨.inl (Function.update_of_ne h.symm _ _), fun _ => Iff.rfl, fun hheld => ?_,
    List.prefix_append _ _, List.prefix_append _ _⟩
  exact absurd (Option.some.inj (hlock.symm.trans hheld)) h

/-- A statement of one session moves nothing of the others. -/
theorem Sql.others {o : SqlOp V} {a : o.Ans} (hs : Sound d s)
    (h : Sql d.script s o a s') : Others o.session s s' := by
  intro other hne
  cases h with
  | lost | tableThere | selected | wasReset => exact .refl other s
  | failed | began | ran | inserted | committedNothing | rolledBack => exact unmoved_session hne
  | committed h => exact unmoved_commit hne (hs.transactions _ _ h)
  | committedUnheard e h =>
      exact (unmoved_commit hne (hs.transactions _ _ h)).trans _ _ _ _ (unmoved_kill other _)
  | @locked run h hfree =>
      have hne : run ≠ other := hne
      have hnot : ¬ some run = some other := fun heq => hne (Option.some.inj heq)
      refine ⟨.inl rfl, fun _ => ?_, fun hlock => absurd hlock hnot, List.prefix_rfl, List.prefix_rfl⟩
      show some run = some other ↔ s.lock = some other
      rw [hfree]
      exact ⟨fun heq => absurd heq hnot, fun heq => by cases heq⟩
  | @unlocked run h =>
      have hne : run ≠ other := hne
      refine ⟨.inl rfl, fun _ => ?_, fun hlock => ?_, List.prefix_rfl, List.prefix_rfl⟩
      · show s.lock.filter _ = some other ↔ _
        rw [Option.filter_eq_some_iff]
        simp [Ne.symm hne]
      · exact ⟨(Option.filter_eq_some_iff.mp hlock).1, rfl⟩

theorem Sound.session (hs : Sound d s) {session : Session V}
    (hlock : ∀ tx, session = .inTransaction tx → s.lock = some run) (hdead : session ≠ .dead) :
    Sound d (s.session run session) := by
  refine ⟨hs.chain, hs.rows, hs.contents, fun i tx hi => ?_, fun i hi => ?_, hs.results⟩
  · dsimp only [Server.session] at hi
    rcases eq_or_ne i run with rfl | hne
    · rw [Function.update_self] at hi
      exact hlock tx hi
    · rw [Function.update_of_ne hne] at hi
      exact hs.transactions i tx hi
  · dsimp only [Server.session]
    rcases eq_or_ne i run with rfl | hne
    · rw [Function.update_self]
      exact hdead
    · rw [Function.update_of_ne hne]
      exact hs.alive i hi

theorem Sound.commit (hs : Sound d s) {version : V} (hnext : s.rows ++ [version] <+: d.chain) :
    Sound d (s.commit d.script run ⟨[version], [version]⟩) := by
  have hsession : Sound d (s.session run .idle) :=
    hs.session (fun tx h => by cases h) (fun h => by cases h)
  refine ⟨hnext, ?_, ?_, hsession.transactions, hsession.alive, fun e he => ?_⟩
  · show s.rows ++ [version] = d.rows ++ (s.commits ++ [(run, version)]).map Prod.snd
    rw [List.map_append, ← List.append_assoc, ← hs.rows]
    rfl
  · show d.script version s.contents = _
    rw [hs.contents]
    show _ = ((s.commits ++ [(run, version)]).map Prod.snd).foldl _ _
    rw [List.map_append, List.foldl_append]
    rfl
  · obtain ⟨hexact, hhappened⟩ := hs.results e he
    exact ⟨hexact, hhappened.later (List.prefix_append _ _) (List.prefix_append _ _)⟩

/-- What a statement keeps, where a transaction is begun under the lock and what is committed is
the next of the chain. -/
theorem Sql.sound {o : SqlOp V} {a : o.Ans} (hs : Sound d s) (h : Sql d.script s o a s')
    (hbegin : ∀ i, o = .beginTransaction i → s.sessions i ≠ .dead → s.lock = some i)
    (hcommit : ∀ i tx, o = .commit i → s.sessions i = .inTransaction tx →
      ∃ v, tx = ⟨[v], [v]⟩ ∧ s.rows ++ [v] <+: d.chain) :
    Sound d s' := by
  cases h with
  | lost | tableThere | selected | wasReset => exact hs
  | @failed o e h =>
      refine hs.session (fun tx heq => ?_) fun heq => ?_
      · revert heq
        unfold afterFailure
        split
        · intro heq
          cases heq
        · intro heq
          cases heq
        · rename_i hnot _
          exact fun heq => absurd heq (hnot tx)
      · revert heq
        unfold afterFailure
        split
        · intro heq
          cases heq
        · intro heq
          cases heq
        · exact h
  | @began run h =>
      have halive : s.sessions run ≠ .dead := by
        rw [h]
        exact fun heq => by cases heq
      exact hs.session (fun _ _ => hbegin run rfl halive) fun heq => by cases heq
  | ran h => exact hs.session (fun _ _ => hs.transactions _ _ h) fun heq => by cases heq
  | inserted h => exact hs.session (fun _ _ => hs.transactions _ _ h) fun heq => by cases heq
  | committedNothing | rolledBack =>
      exact hs.session (fun _ heq => by cases heq) fun heq => by cases heq
  | committed h =>
      obtain ⟨v, rfl, hnext⟩ := hcommit _ _ rfl h
      exact hs.commit hnext
  | committedUnheard e h =>
      obtain ⟨v, rfl, hnext⟩ := hcommit _ _ rfl h
      exact (hs.commit hnext).kill _
  | @locked run h hfree =>
      refine ⟨hs.chain, hs.rows, hs.contents, fun i tx hi => ?_, fun i hi => ?_, hs.results⟩
      · have hlock := hs.transactions i tx hi
        rw [hfree] at hlock
        cases hlock
      · obtain rfl := Option.some.inj hi
        show s.sessions run ≠ .dead
        rw [h]
        exact fun heq => by cases heq
  | @unlocked run h =>
      refine ⟨hs.chain, hs.rows, hs.contents, fun i tx hi => ?_, fun i hi => ?_, hs.results⟩
      · have hne : i ≠ run := by
          rintro rfl
          have hidle : Session.idle = .inTransaction tx := h.symm.trans hi
          cases hidle
        exact Option.filter_eq_some_iff.mpr ⟨hs.transactions i tx hi, decide_eq_true hne⟩
      · exact hs.alive i (Option.filter_eq_some_iff.mp hi).1

/-! ### One run -/

/-- A run that keeps the database in order, among others that do. -/
abbrev Keeps (d : Setting V D) (run : Nat) {α : Type} (p : Migrating V D α)
    (A : Server V D → α → Prop) (s : Server V D) : Prop :=
  p.Relies (Sound d) (Unmoved run) (Others run) (Effects d.script) (Answers A) s

/-- What a run knows: rows that there are, what it committed itself, and, while its session
lives, that it has the lock, that there are no other rows, and how far its session is. -/
structure Holding (run : Nat) (rows mine : List V) (session : Session V) (s : Server V D) : Prop where
  past : rows <+: s.rows
  mine : ∀ v ∈ mine, (run, v) ∈ s.commits
  alive : s.sessions run ≠ .dead → s.lock = some run ∧ s.rows = rows ∧ s.sessions run = session

variable {rows mine : List V} {session : Session V} {α β : Type}

theorem Holding.later (h : Holding run rows mine session s) (hu : Unmoved run s s') :
    Holding run rows mine session s' := by
  refine ⟨h.past.trans hu.rows, fun v hv => hu.commits.subset (h.mine v hv), fun halive => ?_⟩
  rcases hu.session with hsame | hdead
  · obtain ⟨hlock, hrows, hsession⟩ := h.alive (hsame ▸ halive)
    have hlock' := (hu.lock halive).mpr hlock
    exact ⟨hlock', (hu.held hlock').2.trans hrows, hsame.trans hsession⟩
  · exact absurd hdead halive

section

variable {A : Server V D → α → Prop} {B : Server V D → β → Prop}

theorem Keeps.andThen {p : Migrating V D α} {f : α → Migrating V D β}
    (hs : Sound d s) (hp : Keeps d run p A s)
    (hok : ∀ t a, Sound d t → A t a → Keeps d run (f a) B t) :
    Keeps d run (p >>= f) B s :=
  hp.bind (Unmoved.refl run) hs hok fun _ _ _ _ => trivial

theorem keeps_ret {a : α} (h : ∀ t, Unmoved run s t → A t a) :
    Keeps d run (.ret a : Migrating V D α) A s :=
  fun t ht _ => h t ht

theorem keeps_throw {e : MigrateError V} :
    Keeps d run (.throw e : Migrating V D α) A s :=
  fun _ _ _ => trivial

theorem Keeps.attempt {p : Migrating V D α}
    (hp : Keeps d run p A s) : Keeps d run p.attempt (Caught A) s := by
  refine Prog.relies_attempt.mpr (hp.mono fun t r _ hr => ?_)
  rintro a rfl
  exact hr

/-- A statement of the run's own session, given what the run knows at it. -/
theorem keeps_ask {o : SqlOp V} {A : Server V D → o.Reply → Prop} (ho : o.session = run)
    (hbegin : ∀ t, Unmoved run s t → ∀ i, o = .beginTransaction i → t.sessions i ≠ .dead →
      t.lock = some i)
    (hcommit : ∀ t, Unmoved run s t → ∀ i tx, o = .commit i → t.sessions i = .inTransaction tx →
      ∃ v, tx = ⟨[v], [v]⟩ ∧ t.rows ++ [v] <+: d.chain)
    (hA : ∀ t b t' t'', Unmoved run s t → Sound d t →
      Sql d.script t o (.ok b) t' → Unmoved run t' t'' → A t'' b) :
    Keeps d run (ask o) A s := by
  apply Prog.relies_awaitWith
  rintro t ht hI a t' ⟨gone, hsql⟩
  have hkill := hI.kill gone
  have hmoved := ht.trans _ _ _ _ (unmoved_kill run gone)
  refine ⟨hsql.sound hkill (hbegin _ hmoved) (hcommit _ hmoved), fun other hne => ?_,
    fun t'' hlater _ => ?_⟩
  · exact (unmoved_kill other gone).trans _ _ _ _ (hsql.others hkill other (ho ▸ hne))
  · cases a with
    | ok b => exact hA _ b t' t'' hmoved hkill hsql hlater
    | error e => exact trivial

end

/-- It opens no transaction, and commits none. -/
def SqlOp.plain : SqlOp V → Bool
  | beginTransaction _ => false
  | commit _ => false
  | _ => true

theorem keeps_askPlain {o : SqlOp V} {A : Server V D → o.Reply → Prop} (ho : o.session = run)
    (hplain : o.plain = true) (hA : ∀ t b t' t'', Unmoved run s t → Sound d t →
      Sql d.script t o (.ok b) t' → Unmoved run t' t'' → A t'' b) :
    Keeps d run (ask o) A s :=
  keeps_ask ho (fun _ _ i heq => by rw [heq] at hplain; cases hplain)
    (fun _ _ i _ heq => by rw [heq] at hplain; cases hplain) hA

theorem keeps_quiet {o : SqlOp V} (ho : o.session = run) (hplain : o.plain = true) :
    Keeps d run (ask o) (fun _ _ => True) s :=
  keeps_askPlain ho hplain fun _ _ _ _ _ _ _ _ => trivial

theorem alive_of_eq (h : s.sessions run = session) (hsession : session ≠ .dead) :
    s.sessions run ≠ .dead := h ▸ hsession

theorem keeps_lock : Keeps d run (ask (.lock run))
    (fun s _ => ∃ rows, rows <+: d.chain ∧ Holding run rows [] .idle s) s := by
  refine keeps_askPlain rfl rfl ?_
  intro t b t' t'' _ ht hsql hlater
  cases hsql with
  | locked hidle hfree =>
      have hholding : Holding run t.rows [] .idle { t with lock := some run } :=
        ⟨List.prefix_rfl, fun v hv => absurd hv List.not_mem_nil, fun _ => ⟨rfl, rfl, hidle⟩⟩
      exact ⟨t.rows, ht.chain, hholding.later hlater⟩

theorem keeps_createTable (h : Holding run rows mine .idle s) :
    Keeps d run (ask (.createTable run)) (fun s _ => Holding run rows mine .idle s) s := by
  refine keeps_askPlain rfl rfl ?_
  intro t b t' t'' ht _ hsql hlater
  cases hsql with
  | tableThere hidle => exact (h.later ht).later hlater

theorem keeps_selectVersions (h : Holding run rows mine .idle s) :
    Keeps d run (ask (.selectVersions run))
      (fun s versions => List.Perm versions rows ∧ Holding run rows mine .idle s) s := by
  refine keeps_askPlain rfl rfl ?_
  intro t versions t' t'' ht _ hsql hlater
  cases hsql with
  | selected hidle hperm =>
      have halive := alive_of_eq hidle fun heq => by cases heq
      obtain ⟨-, rfl, -⟩ := (h.later ht).alive halive
      exact ⟨hperm, (h.later ht).later hlater⟩

theorem Holding.goesTo {session' : Session V} (h : Holding run rows mine session s)
    (halive : s.sessions run ≠ .dead) :
    Holding run rows mine session' (s.session run session') := by
  obtain ⟨hlock, hrows, -⟩ := h.alive halive
  exact ⟨h.past, h.mine, fun _ => ⟨hlock, hrows, Function.update_self ..⟩⟩

theorem keeps_beginTransaction (h : Holding run rows mine .idle s) :
    Keeps d run (ask (.beginTransaction run))
      (fun s _ => Holding run rows mine (.inTransaction {}) s) s := by
  refine keeps_ask rfl (fun t ht i heq halive => ?_) (fun _ _ _ _ heq => by cases heq) ?_
  · cases heq
    exact ((h.later ht).alive halive).1
  · intro t b t' t'' ht _ hsql hlater
    cases hsql with
    | began hidle =>
        have halive := alive_of_eq hidle fun heq => by cases heq
        exact ((h.later ht).goesTo halive).later hlater

/-- The transaction a run knows of is the one its session has. -/
theorem Holding.transaction {tx tx' : Transaction V}
    (h : Holding run rows mine (.inTransaction tx) s)
    (hsession : s.sessions run = .inTransaction tx') : s.sessions run ≠ .dead ∧ tx' = tx := by
  have halive := alive_of_eq hsession fun heq => by cases heq
  have hsame := hsession.symm.trans (h.alive halive).2.2
  cases hsame
  exact ⟨halive, rfl⟩

variable {version : V}

theorem keeps_exec {tx : Transaction V} (h : Holding run rows mine (.inTransaction tx) s) :
    Keeps d run (ask (.exec run version)) (fun s _ =>
        Holding run rows mine (.inTransaction { tx with ran := tx.ran ++ [version] }) s) s := by
  refine keeps_askPlain rfl rfl ?_
  intro t b t' t'' ht _ hsql hlater
  cases hsql with
  | ran hsession =>
      obtain ⟨halive, rfl⟩ := (h.later ht).transaction hsession
      exact ((h.later ht).goesTo halive).later hlater

theorem keeps_insert {tx : Transaction V} (h : Holding run rows mine (.inTransaction tx) s) :
    Keeps d run (ask (.insert run version)) (fun s _ =>
        Holding run rows mine (.inTransaction { tx with inserted := tx.inserted ++ [version] }) s)
      s := by
  refine keeps_askPlain rfl rfl ?_
  intro t b t' t'' ht _ hsql hlater
  cases hsql with
  | inserted hsession hnew hothers =>
      obtain ⟨halive, rfl⟩ := (h.later ht).transaction hsession
      exact ((h.later ht).goesTo halive).later hlater

theorem keeps_commit (h : Holding run rows mine (.inTransaction ⟨[version], [version]⟩) s)
    (hnext : rows ++ [version] <+: d.chain) :
    Keeps d run (ask (.commit run))
      (fun s _ => Holding run (rows ++ [version]) (mine ++ [version]) .idle s) s := by
  refine keeps_ask rfl (fun _ _ _ heq => by cases heq) (fun t ht i tx heq hsession => ?_) ?_
  · cases heq
    obtain ⟨halive, rfl⟩ := (h.later ht).transaction hsession
    obtain ⟨-, rfl, -⟩ := (h.later ht).alive halive
    exact ⟨version, rfl, hnext⟩
  · intro t b t' t'' ht _ hsql hlater
    cases hsql with
    | committed hsession =>
        obtain ⟨halive, rfl⟩ := (h.later ht).transaction hsession
        obtain ⟨hlock, rfl, -⟩ := (h.later ht).alive halive
        have hholding : Holding run (t.rows ++ [version]) (mine ++ [version]) .idle
            (t.commit d.script run ⟨[version], [version]⟩) := by
          refine ⟨List.prefix_rfl, fun v hv => ?_, fun _ => ⟨hlock, rfl, Function.update_self ..⟩⟩
          show (run, v) ∈ t.commits ++ [(run, version)]
          rcases List.mem_append.mp hv with hv | hv
          · exact List.mem_append_left _ ((h.later ht).mine v hv)
          · rw [List.mem_singleton.mp hv]
            exact List.mem_append_right _ List.mem_cons_self
        exact hholding.later hlater
    | committedNothing hsession =>
        have halive := alive_of_eq hsession fun heq => by cases heq
        have hsame := hsession.symm.trans ((h.later ht).alive halive).2.2
        cases hsame

/-- **One migration**: under the lock, the next of the chain becomes the last row. -/
theorem keeps_applyOne (hs : Sound d s)
    (h : Holding run rows mine .idle s) (hnext : rows ++ [version] <+: d.chain) :
    Keeps d run (applyOne run version)
      (fun s _ => Holding run (rows ++ [version]) (mine ++ [version]) .idle s) s := by
  apply (keeps_beginTransaction h).andThen hs
  intro t _ ht hbegun
  have hscript : Keeps d run (ask (.exec run version) >>= fun _ =>
        ask (.insert run version) >>= fun _ => ask (.commit run)).attempt
      (Caught fun s _ => Holding run (rows ++ [version]) (mine ++ [version]) .idle s) t := by
    apply Keeps.attempt
    apply (keeps_exec hbegun).andThen ht
    intro t _ ht hran
    apply (keeps_insert hran).andThen ht
    intro t _ ht hinserted
    exact keeps_commit hinserted hnext
  apply hscript.andThen ht
  intro t outcome ht houtcome
  cases outcome with
  | ok _ => exact keeps_ret fun t' ht' => (houtcome () rfl).later ht'
  | error e =>
      have hrollback : Keeps d run (ask (.rollback run)) (fun _ _ => True) t :=
        keeps_quiet rfl rfl
      exact hrollback.andThen ht fun _ _ _ _ => keeps_throw

/-! ### The pending versions -/

section

variable [DecidableEq V] {alreadyApplied there pending : List V}

/-- What is applied already is passed by. -/
theorem applyPending_append (h : ∀ v ∈ there, v ∈ alreadyApplied) :
    (applyPending run alreadyApplied (there ++ pending) : Migrating V D (List V)) =
      applyPending run alreadyApplied pending := by
  induction there with
  | nil => rfl
  | cons version there ih =>
      obtain ⟨hhead, htail⟩ := List.forall_mem_cons.mp h
      rw [List.cons_append, applyPending, if_pos hhead, ih htail]

theorem keeps_applyPending (hs : Sound d s)
    (h : Holding run rows mine .idle s) (hnext : rows ++ pending <+: d.chain)
    (hnew : ∀ v ∈ pending, v ∉ alreadyApplied) :
    Keeps d run (applyPending run alreadyApplied pending) (fun s applied => applied = pending ∧
        Holding run (rows ++ pending) (mine ++ pending) .idle s) s := by
  induction pending generalizing rows mine s with
  | nil =>
      rw [List.append_nil, List.append_nil]
      exact keeps_ret fun t ht => ⟨rfl, h.later ht⟩
  | cons version pending ih =>
      obtain ⟨hhead, htail⟩ := List.forall_mem_cons.mp hnew
      rw [applyPending, if_neg hhead, List.append_cons rows, List.append_cons mine]
      rw [List.append_cons] at hnext
      have hone := keeps_applyOne hs h ((List.prefix_append _ _).trans hnext)
      apply hone.andThen hs
      intro t _ ht hholding
      apply (ih ht hholding hnext htail).andThen ht
      rintro t' applied ht' ⟨rfl, hholding'⟩
      exact keeps_ret fun u hu => ⟨rfl, hholding'.later hu⟩

end

/-! ### A run -/

section

variable [LinearOrder V]

variable {build alreadyApplied : List V} {highestKnown : V}

theorem le_of_refuseNewer (h : refuseNewer highestKnown alreadyApplied = .ok ()) :
    ∀ v ∈ alreadyApplied, v ≤ highestKnown := by
  intro v hv
  unfold refuseNewer at h
  split at h
  · rename_i highestApplied hmax
    split at h
    · cases h
    · rename_i hle
      exact ((List.max?_eq_some_iff.mp hmax).2 v hv).trans (not_lt.mp hle)
  · rename_i hnone
    rw [List.max?_eq_none_iff.mp hnone] at hv
    cases hv

/-- Past the downgrade guard, the rows there are begin the build. -/
theorem prefix_of_refuseNewer (hchain : d.chain.Pairwise (· < ·)) (hbuild : build <+: d.chain)
    (hlast : build.getLast? = some highestKnown) (hrows : rows <+: d.chain)
    (hperm : alreadyApplied.Perm rows) (h : refuseNewer highestKnown alreadyApplied = .ok ()) :
    rows <+: build := by
  rcases List.prefix_or_prefix_of_prefix hrows hbuild with hle | ⟨newer, rfl⟩
  · exact hle
  · cases newer with
    | nil => exact ⟨[], by rw [List.append_nil, List.append_nil]⟩
    | cons v newer =>
        have hle : v ≤ highestKnown :=
          le_of_refuseNewer h v (hperm.mem_iff.mpr (List.mem_append_right _ List.mem_cons_self))
        have hsorted := hchain.sublist hrows.sublist
        have hlt := (List.pairwise_append.mp hsorted).2.2 highestKnown
          (List.mem_of_getLast? hlast) v List.mem_cons_self
        exact absurd hlt (not_lt.mpr hle)

/-- The highest of a sorted list, in whatever order it comes. -/
theorem max?_of_perm {versions : List V} (hbuild : build.Pairwise (· < ·))
    (hperm : versions.Perm build) : versions.max? = build.getLast? := by
  rcases List.eq_nil_or_concat' build with rfl | ⟨before, last, rfl⟩
  · rw [hperm.eq_nil]
    rfl
  · rw [List.getLast?_concat]
    refine List.max?_eq_some_iff.mpr ⟨hperm.mem_iff.mpr (by simp), fun v hv => ?_⟩
    rcases List.mem_append.mp (hperm.mem_iff.mp hv) with hv | hv
    · exact le_of_lt ((List.pairwise_append.mp hbuild).2.2 v hv last List.mem_cons_self)
    · exact le_of_eq (List.mem_singleton.mp hv)

variable (hchain : d.chain.Pairwise (· < ·)) (hbuilds : ∀ i, d.builds i <+: d.chain)

include hchain hbuilds

theorem keeps_underLock (hs : Sound d s)
    (hlast : (d.builds run).getLast? = some highestKnown) (hrows : rows <+: d.chain)
    (h : Holding run rows [] .idle s) :
    Keeps d run (underLock run (d.builds run) highestKnown)
      (fun s result => Exact d.builds run result ∧
        Happened d.builds run result s.rows s.commits) s := by
  apply (keeps_createTable h).andThen hs
  intro t _ ht h
  apply (keeps_selectVersions h).andThen ht
  rintro t alreadyApplied ht ⟨hperm, h⟩
  have hguard : Keeps d run (.ofExcept (refuseNewer highestKnown alreadyApplied))
      (fun s _ => rows <+: d.builds run ∧ Holding run rows [] .idle s) t := by
    refine Prog.relies_ofExcept fun u hu _ => ?_
    cases hrefuse : refuseNewer highestKnown alreadyApplied with
    | error e => exact trivial
    | ok _ => exact ⟨prefix_of_refuseNewer hchain (hbuilds run) hlast hrows hperm hrefuse, h.later hu⟩
  apply hguard.andThen ht
  rintro t _ ht ⟨⟨pending, hbuild⟩, h⟩
  have hsorted := hchain.sublist (hbuilds run).sublist
  rw [← hbuild, applyPending_append fun v hv => hperm.mem_iff.mpr hv]
  have hnew : ∀ v ∈ pending, v ∉ alreadyApplied := by
    intro v hv happlied
    rw [← hbuild] at hsorted
    have hlt := (List.pairwise_append.mp hsorted).2.2 v (hperm.mem_iff.mp happlied) v hv
    exact lt_irrefl v hlt
  apply (keeps_applyPending ht h (hbuild ▸ hbuilds run) hnew).andThen ht
  rintro t applied ht ⟨rfl, h⟩
  have hversions : (alreadyApplied ++ applied).Perm (d.builds run) := hbuild ▸ hperm.append_right applied
  refine keeps_ret fun u hu => ⟨⟨hversions, max?_of_perm hsorted hversions⟩, ?_, ?_⟩
  · rw [← hbuild]
    exact (h.later hu).past
  · exact (h.later hu).mine

omit [LinearOrder V] hchain hbuilds in
/-- Ending the session's work takes nothing back. -/
theorem keeps_happened {o : SqlOp V} {result : RunMigrationsResult V} (ho : o.session = run)
    (hplain : o.plain = true) (hsame : ∀ (t t' : Server V D) b, Sql d.script t o (.ok b) t' →
      t'.rows = t.rows ∧ t'.commits = t.commits)
    (h : Exact d.builds run result ∧ Happened d.builds run result s.rows s.commits) :
    Keeps d run (ask o)
      (fun s _ => Exact d.builds run result ∧ Happened d.builds run result s.rows s.commits) s := by
  refine keeps_askPlain ho hplain fun t b t' t'' ht _ hsql hlater => ⟨h.1, ?_⟩
  obtain ⟨hrows, hcommits⟩ := hsame t t' b hsql
  apply h.2.later
  · exact (ht.rows.trans (hrows ▸ List.prefix_rfl)).trans hlater.rows
  · exact (ht.commits.trans (hcommits ▸ List.prefix_rfl)).trans hlater.commits

theorem keeps_runMigrations (hs : Sound d s) : Keeps d run (runMigrations run (d.builds run))
      (fun s result => Exact d.builds run result ∧ Happened d.builds run result s.rows s.commits) s := by
  unfold runMigrations
  split
  · exact keeps_throw
  · rename_i highestKnown hlast
    apply keeps_lock.andThen hs
    rintro t _ ht ⟨rows, hrows, h⟩
    apply (keeps_underLock hchain hbuilds ht hlast hrows h).attempt.andThen ht
    intro t outcome ht houtcome
    cases outcome with
    | error e =>
        have hunlock : Keeps d run (ask (.unlock run)) (fun _ _ => True) t :=
          keeps_quiet rfl rfl
        apply hunlock.andThen ht
        intro t _ ht _
        have hreset : Keeps d run (ask (.resetAll run)) (fun _ _ => True) t :=
          keeps_quiet rfl rfl
        exact hreset.andThen ht fun _ _ _ _ => keeps_throw
    | ok result =>
        have hunlock : Keeps d run (ask (.unlock run)) (fun s _ => Exact d.builds run result ∧
              Happened d.builds run result s.rows s.commits) t := by
          refine keeps_happened rfl rfl
            (fun u u' b hsql => ?_) (houtcome result rfl)
          cases hsql with
          | unlocked h => exact ⟨rfl, rfl⟩
        apply hunlock.andThen ht
        intro t _ ht h
        have hreset : Keeps d run (ask (.resetAll run)) (fun s _ => Exact d.builds run result ∧
              Happened d.builds run result s.rows s.commits) t := by
          refine keeps_happened rfl rfl
            (fun u u' b hsql => ?_) h
          cases hsql with
          | wasReset h => exact ⟨rfl, rfl⟩
        apply hreset.andThen ht
        intro t _ _ h
        exact keeps_ret fun u hu => ⟨h.1, h.2.later hu.rows hu.commits⟩

theorem keeps_startup (hs : Sound d s) :
    Keeps d run (startup run (d.builds run)) (fun _ _ => True) s := by
  apply (keeps_runMigrations hchain hbuilds hs).attempt.andThen hs
  intro t outcome ht houtcome
  cases outcome with
  | error e => exact keeps_ret fun _ _ => trivial
  | ok result =>
      obtain ⟨hexact, hhappened⟩ := houtcome result rfl
      intro u hu hI
      refine ⟨⟨hI.chain, hI.rows, hI.contents, hI.transactions, hI.alive, fun e he => ?_⟩,
        fun other _ => ⟨.inl rfl, fun _ => Iff.rfl, fun hlock => ⟨hlock, rfl⟩, List.prefix_rfl,
          List.prefix_rfl⟩, fun _ _ _ => trivial⟩
      rcases List.mem_append.mp he with he | he
      · exact hI.results e he
      · rw [List.mem_singleton.mp he]
        exact ⟨hexact, hhappened.later hu.rows hu.commits⟩

/-! ### All the runs -/

variable {n limit : Nat} {pl : Pool (Server V D) (SqlOp V) SqlOp.Ans (MigrateError V)}

theorem sound_reached (hrows : d.rows <+: d.chain)
    (h : Pool.Reaches (Effects d.script) limit ((List.range n).map fun i => startup i (d.builds i))
      (.at d.contents d.rows) pl s) : Sound d s := by
  have h₀ : Sound d (.at d.contents d.rows) :=
    ⟨hrows, (List.append_nil _).symm, rfl, fun _ _ h => (by cases h), fun _ h => (by cases h),
      fun _ h => absurd h List.not_mem_nil⟩
  have htasks : ∀ (i : Nat) p, ((List.range n).map fun i => startup i (d.builds i))[i]? = some p →
      Keeps d i p (fun _ _ => True) (.at d.contents d.rows) := by
    intro i p hp
    rw [List.getElem?_map] at hp
    obtain ⟨j, hj, rfl⟩ := Option.map_eq_some_iff.mp hp
    obtain ⟨hlt, rfl⟩ := List.getElem?_eq_some_iff.mp hj
    rw [List.getElem_range]
    exact keeps_startup hchain hbuilds h₀
  exact (Pool.relies Unmoved.refl Unmoved.trans (fun i j hne a b hG => hG j hne) h₀ htasks h).1

end

/-! ### Two builds that start one after the other -/

variable {script : V → D → D} {chain rows₀ : List V} {contents₀ : D} {builds : Nat → List V}

def whenIdle {β : Type} (s : Server V D) (run : Nat) (answer : β) : Option β :=
  match s.sessions run with
  | .idle => some answer
  | _ => none

def whenOpen {β : Type} (s : Server V D) (run : Nat) (answer : Transaction V → Option β) : Option β :=
  match s.sessions run with
  | .inTransaction tx => answer tx
  | _ => none

theorem of_whenIdle {β : Type} {answer b : β} (h : whenIdle s run answer = some b) :
    s.sessions run = .idle ∧ answer = b := by
  unfold whenIdle at h
  split at h
  · exact ⟨‹_›, Option.some.inj h⟩
  · cases h

theorem of_whenOpen {β : Type} {answer : Transaction V → Option β} {b : β}
    (h : whenOpen s run answer = some b) :
    ∃ tx, s.sessions run = .inTransaction tx ∧ answer tx = some b := by
  unfold whenOpen at h
  split at h
  · exact ⟨_, ‹_›, h⟩
  · cases h

theorem kill_none (s : Server V D) : s.kill (fun _ => false) = s := by
  have hlock : s.lock.filter (fun _ => true) = s.lock := by
    cases s.lock <;> rfl
  show { s with lock := s.lock.filter fun _ => true } = s
  rw [hlock]

theorem Effects.of_sql {o : SqlOp V} {a : o.Ans} (h : Sql script s o a s') :
    Effects script s o a s' :=
  ⟨fun _ => false, (kill_none s).symm ▸ h⟩

section

variable [DecidableEq V]

/-- The other sessions that are inserting the version. -/
def rivals (s : Server V D) (run : Nat) (version : V) (other : Nat) : Bool :=
  match s.sessions other with
  | .inTransaction tx => decide (other ≠ run) && decide (version ∈ tx.inserted)
  | _ => false

/-- A database that answers every statement it can. -/
def sampleWorld (script : V → D → D) (s : Server V D) :
    (o : SqlOp V) → Option (o.Ans × Server V D)
  | .lock run => whenIdle s run () >>= fun _ =>
    if s.lock = none then some (.ok (), { s with lock := some run }) else none
  | .createTable run => whenIdle s run (.ok (), s)
  | .selectVersions run => whenIdle s run (.ok s.rows, s)
  | .beginTransaction run => whenIdle s run (.ok (), s.session run (.inTransaction {}))
  | .exec run version => whenOpen s run fun tx =>
    some (.ok (), s.session run (.inTransaction { tx with ran := tx.ran ++ [version] }))
  | .insert run version => whenOpen s run fun tx =>
    if version ∈ s.rows ++ tx.inserted then none
    else
      some (.ok (), (s.kill (rivals s run version)).session run
        (.inTransaction { tx with inserted := tx.inserted ++ [version] }))
  | .commit run => whenOpen s run fun tx => some (.ok (), s.commit script run tx)
  | .rollback _ => none
  | .unlock run => whenIdle s run (.ok (), { s with lock := s.lock.filter fun i => i ≠ run })
  | .resetAll run => whenIdle s run (.ok (), s)

theorem effects_sample (s : Server V D) (o : SqlOp V) (a : o.Ans) (s' : Server V D)
    (h : sampleWorld script s o = some (a, s')) : Effects script s o a s' := by
  cases o with
  | rollback => cases h
  | lock run =>
      obtain ⟨_, hidle, hlock⟩ := Option.bind_eq_some_iff.mp h
      split at hlock
      · rename_i hfree
        cases hlock
        exact .of_sql (.locked (of_whenIdle hidle).1 hfree)
      · cases hlock
  | createTable run =>
      obtain ⟨hidle, heq⟩ := of_whenIdle h
      cases heq
      exact .of_sql (.tableThere hidle)
  | selectVersions run =>
      obtain ⟨hidle, heq⟩ := of_whenIdle h
      cases heq
      exact .of_sql (.selected hidle (List.Perm.refl _))
  | beginTransaction run =>
      obtain ⟨hidle, heq⟩ := of_whenIdle h
      cases heq
      exact .of_sql (.began hidle)
  | exec run version =>
      obtain ⟨tx, hopen, heq⟩ := of_whenOpen h
      cases heq
      exact .of_sql (.ran hopen)
  | commit run =>
      obtain ⟨tx, hopen, heq⟩ := of_whenOpen h
      cases heq
      exact .of_sql (.committed hopen)
  | unlock run =>
      obtain ⟨hidle, heq⟩ := of_whenIdle h
      cases heq
      exact .of_sql (.unlocked hidle)
  | resetAll run =>
      obtain ⟨hidle, heq⟩ := of_whenIdle h
      cases heq
      exact .of_sql (.wasReset hidle)
  | insert run version =>
      obtain ⟨tx, hopen, heq⟩ := of_whenOpen h
      split at heq
      · cases heq
      · rename_i hnew
        cases heq
        refine ⟨rivals s run version, .inserted ?_ hnew fun i tx' hne hother hmem => ?_⟩
        · have hself : rivals s run version run = false := by
            simp [rivals, hopen]
          exact (if_neg (by simp [hself])).trans hopen
        · dsimp only [Server.kill] at hother
          split at hother
          · cases hother
          · rename_i hrival
            exact hrival (by simp [rivals, hother, hne, hmem])

end

/-- The first build has two migrations, every other one three. -/
def sampleBuilds (run : Nat) : List Nat := if run = 0 then [1, 2] else [1, 2, 3]

def sampleScript (version : Nat) (contents : List Nat) : List Nat := contents ++ [10 * version]

theorem sampleBuilds_prefix (run : Nat) : sampleBuilds run <+: [1, 2, 3] := by
  unfold sampleBuilds
  split
  · exact ⟨[3], rfl⟩
  · exact List.prefix_rfl

theorem sample_run : ∃ pl s, Pool.Reaches (Effects sampleScript) 2
    ((List.range 2).map fun i => startup i (sampleBuilds i)) (.at [10] [1]) pl s ∧
    s.rows = [1, 2, 3] ∧ s.results = [(0, ⟨[2], [1], some 2⟩), (1, ⟨[3], [1, 2], some 3⟩)] := by
  have hrun : (Pool.execAll (sampleWorld sampleScript)
      ((List.range 2).map fun i => startup i (sampleBuilds i)) (.at [10] [1])).map
        (fun done => (done.2.rows, done.2.results)) =
      some ([1, 2, 3], [(0, ⟨[2], [1], some 2⟩), (1, ⟨[3], [1, 2], some 3⟩)]) := by
    decide +kernel
  obtain ⟨⟨_, s⟩, hs, hdone⟩ := Option.map_eq_some_iff.mp hrun
  obtain ⟨hrows, hresults⟩ := Prod.mk.inj hdone
  obtain ⟨pl, hr, -, -⟩ := Pool.reaches_execAll effects_sample hs
  exact ⟨pl, s, hr, hrows, hresults⟩

/-! ### The results -/

section

variable [LinearOrder V] (hchain : chain.Pairwise (· < ·)) (hbuilds : ∀ i, builds i <+: chain)
variable {n limit : Nat} {pl : Pool (Server V D) (SqlOp V) SqlOp.Ans (MigrateError V)}

include hchain hbuilds

/-- **The chain, in order and once.**  However the runs go on together, whatever fails and
whichever sessions end, the rows are those there were and then the next of the chain, and the
database contains what exactly their scripts made of it. -/
theorem migrations_in_order (hrows : rows₀ <+: chain)
    (h : Pool.Reaches (Effects script) limit ((List.range n).map fun i => startup i (builds i))
      (.at contents₀ rows₀) pl s) :
    ∃ applied, s.rows = rows₀ ++ applied ∧ s.rows <+: chain ∧
      s.contents = applied.foldl (fun d v => script v d) contents₀ := by
  have hs : Sound ⟨script, chain, rows₀, contents₀, builds⟩ s :=
    sound_reached hchain hbuilds hrows h
  exact ⟨s.commits.map Prod.snd, hs.rows, hs.chain, hs.contents⟩

omit hchain hbuilds in
theorem migrations_in_order_sample : ∃ pl s, Pool.Reaches (Effects sampleScript) 2
    ((List.range 2).map fun i => startup i (sampleBuilds i)) (.at [10] [1]) pl s ∧
    s.rows = [1, 2, 3] ∧ ∃ applied, s.rows = [1] ++ applied ∧ s.rows <+: [1, 2, 3] ∧
      s.contents = applied.foldl (fun d v => sampleScript v d) [10] := by
  obtain ⟨pl, s, hr, hrows, -⟩ := sample_run
  exact ⟨pl, s, hr, hrows,
    migrations_in_order (by decide) sampleBuilds_prefix ⟨[2, 3], rfl⟩ hr⟩

/-- **A run that returns left the database at its build**, and no version was applied by two. -/
theorem run_applies_its_build (hrows : rows₀ <+: chain)
    (h : Pool.Reaches (Effects script) limit ((List.range n).map fun i => startup i (builds i))
      (.at contents₀ rows₀) pl s) :
    ∀ e ∈ s.results, builds e.1 <+: s.rows ∧
      (e.2.alreadyApplied ++ e.2.applied).Perm (builds e.1) ∧
      e.2.currentVersion = (builds e.1).getLast? ∧
      ∀ e' ∈ s.results, ∀ v ∈ e.2.applied, v ∈ e'.2.applied → e.1 = e'.1 := by
  have hs : Sound ⟨script, chain, rows₀, contents₀, builds⟩ s :=
    sound_reached hchain hbuilds hrows h
  intro e he
  obtain ⟨hexact, hhappened⟩ := hs.results e he
  refine ⟨hhappened.build, hexact.versions, hexact.current, fun e' he' v hv hv' => ?_⟩
  have hnodup : (s.commits.map Prod.snd).Nodup := by
    have hsorted := hchain.sublist hs.chain.sublist
    rw [hs.rows] at hsorted
    have hnew := (List.pairwise_append.mp hsorted).2.1
    exact hnew.imp ne_of_lt
  have hsame := List.inj_on_of_nodup_map hnodup (hhappened.commits v hv)
    ((hs.results e' he').2.commits v hv') rfl
  exact (Prod.mk.inj hsame).1

omit hchain hbuilds in
theorem run_applies_its_build_sample : ∃ pl s, Pool.Reaches (Effects sampleScript) 2
    ((List.range 2).map fun i => startup i (sampleBuilds i)) (.at [10] [1]) pl s ∧
    s.results.length = 2 ∧ ∀ e ∈ s.results, sampleBuilds e.1 <+: s.rows ∧
      (e.2.alreadyApplied ++ e.2.applied).Perm (sampleBuilds e.1) ∧
      e.2.currentVersion = (sampleBuilds e.1).getLast? ∧
      ∀ e' ∈ s.results, ∀ v ∈ e.2.applied, v ∈ e'.2.applied → e.1 = e'.1 := by
  obtain ⟨pl, s, hr, -, hresults⟩ := sample_run
  exact ⟨pl, s, hr, by rw [hresults]; rfl,
    run_applies_its_build (by decide) sampleBuilds_prefix ⟨[2, 3], rfl⟩ hr⟩

end

end Ownpace.Migrate
