/-
Ownpace/Tenant/Isolated.lean

Any number of tenant scopes at once over one pool of connections, each with any work, whatever
fails: a statement sees the role and the tenant of its own scope, a scope commits exactly what
its own work ran, and what it held until then runs only when it has (`scopes_isolated`,
`scopes_whole`).

A scope knows the connection it holds, which nobody else moves (`Unmoved`).  It gives it back
clean or not at all, so the pool never hands out what another tenant left (`Sound.free`).
-/
import Mathlib.Data.List.Nodup
import Ownpace.Tenant.Scope

namespace Ownpace.Tenant

open Await

variable {K : Kinds}

/-! ### What is kept -/

/-- The statements that a scope has run. -/
def ran (scope : Nat) (log : List (Seen K)) : List (Nat × K.Statement) :=
  (log.filter (·.scope = scope)).map fun x => (scope, x.statement)

def Committed (s : World K) (scope : Nat) : Prop := scope ∈ s.commits.map Prod.fst

def Over (s : World K) (scope : Nat) : Prop := scope ∈ s.outcomes.map Prod.fst

structure Sound (role : Option K.Role) (tenants : Nat → K.TenantId) (s : World K) : Prop where
  free : ∀ c, s.owner c = none → s.conns c = .idle ∨ s.conns c = .dead
  log : ∀ x ∈ s.log, x.role = role ∧ x.tenant = some (tenants x.scope)
  commits : ∀ e ∈ s.commits, e.2 = ran e.1 s.log
  once : (s.commits.map Prod.fst).Nodup
  lines : ∀ e ∈ s.lines, Committed s e.1 ∨ e.1 ∈ s.nothing
  outcomes : ∀ e ∈ s.outcomes, (e.2 = true → Committed s e.1 ∨ e.1 ∈ s.nothing) ∧
    (e.2 = false → Committed s e.1 → e.1 ∈ s.unheard)

/-- What the others leave a scope: its connections, and what it ran and committed. -/
structure Unmoved (scope : Nat) (s s' : World K) : Prop where
  owner : ∀ c, s'.owner c = some scope ↔ s.owner c = some scope
  conns : ∀ c, s.owner c = some scope → s'.conns c = s.conns c
  ran : ran scope s'.log = ran scope s.log
  commits : Committed s' scope ↔ Committed s scope
  ended : Over s' scope ↔ Over s scope
  nothing : s.nothing ⊆ s'.nothing
  unheard : s.unheard ⊆ s'.unheard

def Others (scope : Nat) (s s' : World K) : Prop := ∀ other, scope ≠ other → Unmoved other s s'

variable {s s' s'' : World K} {scope other c : Nat}

theorem Unmoved.refl (scope : Nat) (s : World K) : Unmoved scope s s :=
  ⟨fun _ => Iff.rfl, fun _ _ => rfl, rfl, Iff.rfl, Iff.rfl, List.Subset.refl _, List.Subset.refl _⟩

theorem Unmoved.trans (scope : Nat) (s s' s'' : World K) (h : Unmoved scope s s')
    (h' : Unmoved scope s' s'') : Unmoved scope s s'' := by
  refine ⟨fun c => (h'.owner c).trans (h.owner c), fun c hc => ?_, h'.ran.trans h.ran,
    h'.commits.trans h.commits, h'.ended.trans h.ended, List.Subset.trans h.nothing h'.nothing,
    List.Subset.trans h.unheard h'.unheard⟩
  exact (h'.conns c ((h.owner c).mpr hc)).trans (h.conns c hc)

/-! ### What a scope ran -/

theorem ran_append_self (x : Seen K) (log : List (Seen K)) :
    ran x.scope (log ++ [x]) = ran x.scope log ++ [(x.scope, x.statement)] := by
  simp [ran]

theorem ran_append_ne {x : Seen K} (h : x.scope ≠ scope) (log : List (Seen K)) :
    ran scope (log ++ [x]) = ran scope log := by
  simp [ran, h]

/-! ### One step -/

variable {role : Option K.Role} {tenants : Nat → K.TenantId} {conn : Conn K}

theorem Sound.put (hs : Sound role tenants s) (hc : s.owner c = some scope) :
    Sound role tenants (s.put c conn) := by
  refine ⟨fun c' hfree => ?_, hs.log, hs.commits, hs.once, hs.lines, hs.outcomes⟩
  have hne : c' ≠ c := by
    rintro rfl
    have hnone : s.owner c' = none := hfree
    rw [hc] at hnone
    cases hnone
  have hsame : (s.put c conn).conns c' = s.conns c' := Function.update_of_ne hne _ _
  rw [hsame]
  exact hs.free c' hfree

theorem others_put (hc : s.owner c = some scope) : Others scope s (s.put c conn) := by
  intro other hne
  refine ⟨fun _ => Iff.rfl, fun c' hc' => ?_, rfl, Iff.rfl, Iff.rfl, List.Subset.refl _,
    List.Subset.refl _⟩
  have hother : c' ≠ c := by
    rintro rfl
    exact hne (Option.some.inj (hc.symm.trans hc'))
  exact Function.update_of_ne hother _ _

/-- A scope that has not ended commits what it ran, for the first time. -/
theorem Sound.commit (hs : Sound role tenants s) {work : List (Nat × K.Statement)}
    (hwork : work = ran scope s.log) (hnew : ¬ Committed s scope) (hgoing : ¬ Over s scope) :
    Sound role tenants { s with commits := s.commits ++ [(scope, work)] } := by
  have hmono : ∀ i, Committed s i → Committed { s with commits := s.commits ++ [(scope, work)] } i := by
    intro i hi
    show i ∈ (s.commits ++ [(scope, work)]).map Prod.fst
    rw [List.map_append]
    exact List.mem_append_left _ hi
  refine ⟨hs.free, hs.log, fun e he => ?_, ?_, fun e he => (hs.lines e he).imp (hmono _) id,
    fun e he => ⟨fun hok => ((hs.outcomes e he).1 hok).imp (hmono _) id, fun hfailed hcommitted => ?_⟩⟩
  · rcases List.mem_append.mp he with he | he
    · exact hs.commits e he
    · rw [List.mem_singleton.mp he]
      exact hwork
  · rw [List.map_append]
    refine List.nodup_append.mpr ⟨hs.once, List.nodup_singleton scope, fun a ha b hb heq => hnew ?_⟩
    obtain rfl := List.mem_singleton.mp hb
    exact heq ▸ ha
  · have hcommitted : e.1 ∈ (s.commits ++ [(scope, work)]).map Prod.fst := hcommitted
    rw [List.map_append] at hcommitted
    rcases List.mem_append.mp hcommitted with hcommitted | hcommitted
    · exact (hs.outcomes e he).2 hfailed hcommitted
    · have hsame : e.1 = scope := List.mem_singleton.mp hcommitted
      exact absurd (List.mem_map.mpr ⟨e, he, hsame⟩) hgoing

theorem others_commit {work : List (Nat × K.Statement)} :
    Others scope s { s with commits := s.commits ++ [(scope, work)] } := by
  intro other hne
  refine ⟨fun _ => Iff.rfl, fun _ _ => rfl, rfl, ?_, Iff.rfl, List.Subset.refl _, List.Subset.refl _⟩
  show other ∈ (s.commits ++ [(scope, work)]).map Prod.fst ↔ _
  simp [Committed, hne.symm]

/-- A scope's statement, seen as its scope must be. -/
theorem Sound.see (hs : Sound role tenants s) {x : Seen K} (hscope : x.scope = scope)
    (hrole : x.role = role) (htenant : x.tenant = some (tenants scope)) (hnew : ¬ Committed s scope) :
    Sound role tenants { s with log := s.log ++ [x] } := by
  refine ⟨hs.free, fun y hy => ?_, fun e he => ?_, hs.once, hs.lines, hs.outcomes⟩
  · rcases List.mem_append.mp hy with hy | hy
    · exact hs.log y hy
    · rw [List.mem_singleton.mp hy]
      exact ⟨hrole, hscope ▸ htenant⟩
  · have hne : x.scope ≠ e.1 := by
      rw [hscope]
      rintro rfl
      exact hnew (List.mem_map_of_mem he)
    exact (hs.commits e he).trans (ran_append_ne hne s.log).symm

theorem others_see {x : Seen K} (hscope : x.scope = scope) :
    Others scope s { s with log := s.log ++ [x] } := by
  intro other hne
  exact ⟨fun _ => Iff.rfl, fun _ _ => rfl, ran_append_ne (hscope ▸ hne) s.log, Iff.rfl, Iff.rfl,
    List.Subset.refl _, List.Subset.refl _⟩

theorem Sound.of_ended (hs : Sound role tenants s) {nothing unheard : List Nat}
    (hnothing : s.nothing ⊆ nothing) (hunheard : s.unheard ⊆ unheard) :
    Sound role tenants { s with nothing, unheard } :=
  ⟨hs.free, hs.log, hs.commits, hs.once, fun e he => (hs.lines e he).imp id (hnothing ·), fun e he =>
    ⟨fun hok => ((hs.outcomes e he).1 hok).imp id (hnothing ·),
      fun hfailed hcommitted => hunheard ((hs.outcomes e he).2 hfailed hcommitted)⟩⟩

theorem others_ended {nothing unheard : List Nat} (hnothing : s.nothing ⊆ nothing)
    (hunheard : s.unheard ⊆ unheard) : Others scope s { s with nothing, unheard } :=
  fun _ _ => ⟨fun _ => Iff.rfl, fun _ _ => rfl, rfl, Iff.rfl, Iff.rfl, hnothing, hunheard⟩

theorem Others.trans (h : Others scope s s') (h' : Others scope s' s'') : Others scope s s'' :=
  fun other hne => (h other hne).trans _ _ _ _ (h' other hne)

/-! ### What a scope knows -/

/-- What a scope knows of its connection and of itself, until it commits. -/
structure Holding (scope c : Nat) (conn : Conn K) (work : List (Nat × K.Statement)) (s : World K) :
    Prop where
  owner : s.owner c = some scope
  conn_eq : s.conns c = conn
  ran_eq : ran scope s.log = work
  uncommitted : ¬ Committed s scope
  going : ¬ Over s scope

variable {work : List (Nat × K.Statement)} {α β : Type}

theorem Holding.later (h : Holding scope c conn work s) (hu : Unmoved scope s s') :
    Holding scope c conn work s' :=
  ⟨(hu.owner c).mpr h.owner, (hu.conns c h.owner).trans h.conn_eq, hu.ran.trans h.ran_eq,
    fun h' => h.uncommitted (hu.commits.mp h'), fun h' => h.going (hu.ended.mp h')⟩

/-- A scope that goes no further: its connection in whatever state, and nothing of it committed
but by a COMMIT that was not answered. -/
structure Failed (scope c : Nat) (s : World K) : Prop where
  owner : s.owner c = some scope
  commits : Committed s scope → scope ∈ s.unheard
  going : ¬ Over s scope

theorem Failed.later (h : Failed scope c s) (hu : Unmoved scope s s') : Failed scope c s' :=
  ⟨(hu.owner c).mpr h.owner, fun h' => hu.unheard (h.commits (hu.commits.mp h')),
    fun h' => h.going (hu.ended.mp h')⟩

theorem Holding.failed (h : Holding scope c conn work s) : Failed scope c s :=
  ⟨h.owner, fun h' => absurd h' h.uncommitted, h.going⟩

/-- A result as `A` says, or an error as `E` does. -/
def Ends (A : World K → α → Prop) (E : World K → Prop) (s : World K) :
    Except (ScopeError K) α → Prop
  | .ok a => A s a
  | .error _ => E s

abbrev Keeps (role : Option K.Role) (tenants : Nat → K.TenantId) (scope : Nat) (p : Scoped K α)
    (A : World K → α → Prop) (E : World K → Prop) (s : World K) : Prop :=
  p.Relies (Sound role tenants) (Unmoved scope) (Others scope) Effects (Ends A E) s

variable {A : World K → α → Prop} {B : World K → β → Prop} {E : World K → Prop}

theorem Keeps.andThen {p : Scoped K α} {f : α → Scoped K β} (hs : Sound role tenants s)
    (hp : Keeps role tenants scope p A E s)
    (hok : ∀ t a, Sound role tenants t → A t a → Keeps role tenants scope (f a) B E t) :
    Keeps role tenants scope (p >>= f) B E s :=
  hp.bind (Unmoved.refl scope) hs hok fun _ _ _ he => he

theorem keeps_ret {a : α} (h : ∀ t, Unmoved scope s t → A t a) :
    Keeps role tenants scope (.ret a : Scoped K α) A E s :=
  fun t ht _ => h t ht

/-- What a statement on a scope's own connection may come to. -/
theorem Effects.cases_sent {o : DbOp K} {a : o.Ans} (ho : o.sentOn = some (scope, c))
    (h : Effects s o a s') :
    (∃ b, a = .ok b ∧ (s.conns c).answers o = true ∧ s' = s.carryOut o) ∨
    (∃ e conn, a = .error e ∧ (conn = o.fail (s.conns c) ∨ conn = .dead) ∧ s' = s.put c conn) ∨
    ∃ e tx, o = .commit scope c ∧ s.conns c = .inTransaction tx ∧ a = .error e ∧
      s' = { s.put c .dead with
        commits := s.commits ++ [(scope, tx.work)]
        unheard := s.unheard ++ [scope] } := by
  cases h with
  | acquired | refused => cases ho
  | @answered o b scope' c' ho' hanswers =>
      obtain ⟨rfl, rfl⟩ := Prod.mk.inj (Option.some.inj (ho'.symm.trans ho))
      exact .inl ⟨b, rfl, hanswers, rfl⟩
  | @failed o scope' c' e ho' =>
      obtain ⟨rfl, rfl⟩ := Prod.mk.inj (Option.some.inj (ho'.symm.trans ho))
      exact .inr (.inl ⟨e, _, rfl, .inl rfl, rfl⟩)
  | @lost o scope' c' e ho' =>
      obtain ⟨rfl, rfl⟩ := Prod.mk.inj (Option.some.inj (ho'.symm.trans ho))
      exact .inr (.inl ⟨e, _, rfl, .inr rfl, rfl⟩)
  | @unheard scope' c' tx e h =>
      obtain ⟨rfl, rfl⟩ := Prod.mk.inj (Option.some.inj ho)
      exact .inr (.inr ⟨e, tx, rfl, h, rfl, rfl⟩)

/-- The state that a statement puts its connection in. -/
theorem Holding.put (h : Holding scope c conn work s) {conn' : Conn K} :
    Holding scope c conn' work (s.put c conn') :=
  ⟨h.owner, Function.update_self .., h.ran_eq, h.uncommitted, h.going⟩

/-- A statement that the scope sends, but for the COMMIT. -/
theorem keeps_sent {o : DbOp K} {A : World K → o.Reply → Prop} (ho : o.sentOn = some (scope, c))
    (hcommit : o ≠ .commit scope c) (h : Holding scope c conn work s)
    (hok : ∀ t b, Sound role tenants t → Holding scope c conn work t → conn.answers o = true →
      Sound role tenants (t.carryOut o) ∧ Others scope t (t.carryOut o) ∧
        ∀ t', Unmoved scope (t.carryOut o) t' → A t' b) :
    Keeps role tenants scope (ask o) A (Failed scope c) s := by
  apply Prog.relies_awaitWith
  intro t ht hs a t' heffects
  have hhere := h.later ht
  rcases heffects.cases_sent ho with ⟨b, rfl, hanswers, rfl⟩ | ⟨e, conn', rfl, -, rfl⟩ | ⟨_, _, heq, -⟩
  · rw [hhere.conn_eq] at hanswers
    obtain ⟨hsound, hothers, hA⟩ := hok t b hs hhere hanswers
    exact ⟨hsound, hothers, fun t' ht' _ => hA t' ht'⟩
  · exact ⟨hs.put hhere.owner, others_put hhere.owner,
      fun t' ht' _ => hhere.put.failed.later ht'⟩
  · exact absurd heq hcommit

/-- The same, of a statement that only moves the connection. -/
theorem keeps_moved {o : DbOp K} {conn' : Conn K} (ho : o.sentOn = some (scope, c))
    (hcommit : o ≠ .commit scope c) (h : Holding scope c conn work s)
    (hcarry : ∀ t : World K, t.conns c = conn → conn.answers o = true →
      t.carryOut o = t.put c conn') :
    Keeps role tenants scope (ask o) (fun t _ => Holding scope c conn' work t) (Failed scope c) s := by
  refine keeps_sent ho hcommit h fun t b hs ht hanswers => ?_
  rw [hcarry t ht.conn_eq hanswers]
  exact ⟨hs.put ht.owner, others_put ht.owner, fun t' ht' => ht.put.later ht'⟩

/-! ### The transaction -/

/-- Its statements run in the scope's own transaction, until one of them has failed. -/
def Working (role : Option K.Role) (tenantId : K.TenantId) (scope c : Nat) (s : World K) : Prop :=
  ∃ conn work, Holding scope c conn work s ∧
    (conn = .inTransaction ⟨role, some tenantId, work⟩ ∨ conn = .aborted ∨ conn = .dead)

theorem Working.later {tenantId : K.TenantId} (h : Working role tenantId scope c s)
    (hu : Unmoved scope s s') : Working role tenantId scope c s' := by
  obtain ⟨conn, work, hholding, hconn⟩ := h
  exact ⟨conn, work, hholding.later hu, hconn⟩

theorem keeps_begin (hconn : conn = .idle ∨ conn = .dead) (h : Holding scope c conn [] s) :
    Keeps role tenants scope (ask (.beginTransaction scope c))
      (fun t _ => Holding scope c (.inTransaction {}) [] t) (Failed scope c) s := by
  refine keeps_moved rfl (fun heq => by cases heq) h fun t ht hanswers => ?_
  rcases hconn with rfl | rfl
  · simp only [World.carryOut, ht]
  · cases hanswers

theorem keeps_setRole (h : Holding scope c (.inTransaction {}) [] s) :
    Keeps role tenants scope (setRoleIfGiven scope c role)
      (fun t _ => Holding scope c (.inTransaction { role }) [] t) (Failed scope c) s := by
  cases role with
  | none => exact keeps_ret fun t ht => h.later ht
  | some r =>
      refine keeps_moved rfl (fun heq => by cases heq) h fun t ht _ => ?_
      show t.put c ((t.conns c).setLocal _) = _
      rw [ht]
      rfl

theorem keeps_setTenant {tenantId : K.TenantId}
    (h : Holding scope c (.inTransaction { role }) [] s) :
    Keeps role tenants scope (ask (.setTenant scope c tenantId))
      (fun t _ => Working role tenantId scope c t) (Failed scope c) s := by
  have hmoved : Keeps role tenants scope (ask (.setTenant scope c tenantId))
      (fun t _ => Holding scope c (.inTransaction ⟨role, some tenantId, []⟩) [] t)
      (Failed scope c) s := by
    refine keeps_moved rfl (fun heq => by cases heq) h fun t ht _ => ?_
    show t.put c ((t.conns c).setLocal _) = _
    rw [ht]
    rfl
  refine hmoved.mono fun t r _ hr => ?_
  cases r with
  | ok _ => exact ⟨_, _, hr, .inl rfl⟩
  | error e => exact hr

/-- **The work**: each statement sees its scope's role and tenant. -/
theorem keeps_work {held : List K.Line} (w : Work K) (hs : Sound role tenants s)
    (h : Working role (tenants scope) scope c s) :
    Keeps role tenants scope (w.run scope c held)
      (fun t _ => Working role (tenants scope) scope c t) (Failed scope c) s := by
  induction w generalizing s held with
  | done result => exact keeps_ret fun t ht => h.later ht
  | fails e =>
      intro t ht _
      obtain ⟨conn, work, hholding, -⟩ := h.later ht
      exact hholding.failed
  | afterCommit line next ih => exact ih hs h
  | statement st next ih =>
      intro t ht hs a t' heffects
      obtain ⟨conn, work, hhere, hconn⟩ := h.later ht
      rcases heffects.cases_sent rfl with
        ⟨rows, rfl, hanswers, rfl⟩ | ⟨e, conn', rfl, hfail, rfl⟩ | ⟨_, _, heq, -⟩
      · rw [hhere.conn_eq] at hanswers
        rcases hconn with rfl | rfl | rfl
        · have hcarry : t.carryOut (.run scope c st) =
              { (t.put c (.inTransaction ⟨role, some (tenants scope), work ++ [(scope, st)]⟩)) with
                log := t.log ++ [⟨scope, st, role, some (tenants scope)⟩] } := by
            simp only [World.carryOut, hhere.conn_eq]
            rfl
          rw [hcarry]
          have hput : Sound role tenants (t.put c
              (.inTransaction ⟨role, some (tenants scope), work ++ [(scope, st)]⟩)) :=
            hs.put hhere.owner
          have hsee := hput.see (x := ⟨scope, st, role, some (tenants scope)⟩) rfl rfl rfl
            hhere.uncommitted
          refine ⟨hsee, (others_put hhere.owner).trans (others_see rfl), ih _ hsee ?_⟩
          refine ⟨_, work ++ [(scope, st)], ⟨hhere.owner, Function.update_self .., ?_,
            hhere.uncommitted, hhere.going⟩, .inl rfl⟩
          have hran := ran_append_self ⟨scope, st, role, some (tenants scope)⟩ t.log
          exact hran.trans (congrArg (· ++ [(scope, st)]) hhere.ran_eq)
        · cases hanswers
        · cases hanswers
      · refine ⟨hs.put hhere.owner, others_put hhere.owner, ih _ (hs.put hhere.owner) ?_⟩
        refine ⟨conn', work, hhere.put, .inr ?_⟩
        rw [hhere.conn_eq] at hfail
        rcases hfail with rfl | rfl
        · rcases hconn with rfl | rfl | rfl
          · exact .inl rfl
          · exact .inl rfl
          · exact .inr rfl
        · exact .inr rfl
      · cases heq

/-- A scope whose COMMIT was answered. -/
structure Done (scope c : Nat) (s : World K) : Prop where
  owner : s.owner c = some scope
  conn_eq : s.conns c = .idle
  commits : Committed s scope ∨ scope ∈ s.nothing
  going : ¬ Over s scope

theorem Done.later (h : Done scope c s) (hu : Unmoved scope s s') : Done scope c s' :=
  ⟨(hu.owner c).mpr h.owner, (hu.conns c h.owner).trans h.conn_eq,
    h.commits.imp hu.commits.mpr (hu.nothing ·), fun h' => h.going (hu.ended.mp h')⟩

theorem committed_append {i : Nat} {s : World K} :
    i ∈ (s.commits ++ [(scope, work)]).map Prod.fst ↔ Committed s i ∨ i = scope := by
  simp [Committed]

theorem keeps_commit (h : Working role (tenants scope) scope c s) :
    Keeps role tenants scope (ask (.commit scope c)) (fun t _ => Done scope c t)
      (Failed scope c) s := by
  apply Prog.relies_awaitWith
  intro t ht hs a t' heffects
  obtain ⟨conn, work, hhere, hconn⟩ := h.later ht
  have hsound : Sound role tenants (t.put c .idle) := hs.put hhere.owner
  have hothers : Others scope t (t.put c .idle) := others_put hhere.owner
  rcases heffects.cases_sent rfl with
    ⟨b, rfl, hanswers, rfl⟩ | ⟨e, conn', rfl, -, rfl⟩ | ⟨e, tx, -, htx, rfl, rfl⟩
  · rw [hhere.conn_eq] at hanswers
    rcases hconn with rfl | rfl | rfl
    · have hcarry : t.carryOut (.commit scope c) =
          { t.put c .idle with commits := t.commits ++ [(scope, work)] } := by
        simp only [World.carryOut, hhere.conn_eq]
      rw [hcarry]
      refine ⟨hsound.commit hhere.ran_eq.symm hhere.uncommitted hhere.going,
        hothers.trans others_commit, fun u hu _ => Done.later ?_ hu⟩
      exact ⟨hhere.owner, Function.update_self .., .inl (committed_append.mpr (.inr rfl)), hhere.going⟩
    · have hcarry : t.carryOut (.commit scope c) =
          { t.put c .idle with nothing := t.nothing ++ [scope] } := by
        simp only [World.carryOut, hhere.conn_eq]
      rw [hcarry]
      refine ⟨hsound.of_ended (List.subset_append_left _ _) (List.Subset.refl _),
        hothers.trans (others_ended (List.subset_append_left _ _) (List.Subset.refl _)),
        fun u hu _ => Done.later ?_ hu⟩
      exact ⟨hhere.owner, Function.update_self ..,
        .inr (List.mem_append_right _ List.mem_cons_self), hhere.going⟩
    · cases hanswers
  · exact ⟨hs.put hhere.owner, others_put hhere.owner, fun u hu _ => hhere.put.failed.later hu⟩
  · -- done, and not answered
    have hwork : tx.work = ran scope t.log := by
      rw [hhere.conn_eq] at htx
      rcases hconn with rfl | rfl | rfl
      · cases htx
        exact hhere.ran_eq.symm
      · cases htx
      · cases htx
    have hput : Sound role tenants (t.put c .dead) := hs.put hhere.owner
    have hcommit := hput.commit hwork hhere.uncommitted hhere.going
    refine ⟨hcommit.of_ended (List.Subset.refl _) (List.subset_append_left _ _),
      ((others_put hhere.owner).trans others_commit).trans
        (others_ended (List.Subset.refl _) (List.subset_append_left _ _)),
      fun u hu _ => Failed.later ?_ hu⟩
    exact ⟨hhere.owner, fun _ => List.mem_append_right _ List.mem_cons_self, hhere.going⟩

theorem keeps_transaction {w : Work K} (hs : Sound role tenants s)
    (hconn : conn = .idle ∨ conn = .dead) (h : Holding scope c conn [] s) :
    Keeps role tenants scope (transaction scope c role (tenants scope) w)
      (fun t _ => Done scope c t) (Failed scope c) s := by
  apply (keeps_begin hconn h).andThen hs
  intro t _ ht h
  apply (keeps_setRole h).andThen ht
  intro t _ ht h
  apply (keeps_setTenant h).andThen ht
  intro t _ ht h
  apply (keeps_work w ht h).andThen ht
  intro t done ht h
  apply (keeps_commit h).andThen ht
  intro t _ _ h
  exact keeps_ret fun u hu => h.later hu

/-! ### The scope -/

theorem Sound.release (hs : Sound role tenants s) {releaseError : Bool}
    (hclean : releaseError = false → s.conns c = .idle) :
    Sound role tenants (s.release c releaseError) := by
  refine ⟨fun c' hfree => ?_, hs.log, hs.commits, hs.once, hs.lines, hs.outcomes⟩
  dsimp only [World.release] at hfree ⊢
  rcases eq_or_ne c' c with rfl | hne
  · cases releaseError with
    | false => exact .inl (hclean rfl)
    | true => exact .inr (Function.update_self ..)
  · rw [Function.update_of_ne hne] at hfree
    cases releaseError with
    | false => exact hs.free c' hfree
    | true =>
        rw [if_pos rfl, Function.update_of_ne hne]
        exact hs.free c' hfree

theorem others_release (hc : s.owner c = some scope) {releaseError : Bool} :
    Others scope s (s.release c releaseError) := by
  intro other hne
  have hother : ∀ c', s.owner c' = some other → c' ≠ c := by
    rintro c' hc' rfl
    exact hne (Option.some.inj (hc.symm.trans hc'))
  refine ⟨fun c' => ?_, fun c' hc' => ?_, rfl, Iff.rfl, Iff.rfl, List.Subset.refl _,
    List.Subset.refl _⟩
  · show Function.update s.owner c none c' = some other ↔ _
    rcases eq_or_ne c' c with rfl | hne'
    · rw [Function.update_self, hc]
      constructor
      · intro heq
        cases heq
      · intro heq
        exact absurd (Option.some.inj heq) hne
    · rw [Function.update_of_ne hne']
  · dsimp only [World.release]
    split
    · exact Function.update_of_ne (hother c' hc') _ _
    · rfl

/-- A scope that has given its connection back. -/
structure Left (scope : Nat) (ok : Bool) (s : World K) : Prop where
  commits : ok = true → Committed s scope ∨ scope ∈ s.nothing
  failed : ok = false → Committed s scope → scope ∈ s.unheard
  going : ¬ Over s scope

theorem Left.later {ok : Bool} (h : Left scope ok s) (hu : Unmoved scope s s') : Left scope ok s' :=
  ⟨fun hok => (h.commits hok).imp hu.commits.mpr (hu.nothing ·),
    fun hok hcommitted => hu.unheard (h.failed hok (hu.commits.mp hcommitted)),
    fun h' => h.going (hu.ended.mp h')⟩

/-- A scope that has not begun. -/
structure Fresh (scope : Nat) (s : World K) : Prop where
  ran_eq : ran scope s.log = []
  uncommitted : ¬ Committed s scope
  going : ¬ Over s scope

theorem Fresh.later (h : Fresh scope s) (hu : Unmoved scope s s') : Fresh scope s' :=
  ⟨hu.ran.trans h.ran_eq, fun h' => h.uncommitted (hu.commits.mp h'),
    fun h' => h.going (hu.ended.mp h')⟩

theorem keeps_acquire (h : Fresh scope s) :
    Keeps role tenants scope (ask (.acquire scope))
      (fun t c => ∃ conn, (conn = .idle ∨ conn = .dead) ∧ Holding scope c conn [] t)
      (Left scope false) s := by
  apply Prog.relies_awaitWith
  intro t ht hs a t' heffects
  have hfresh := h.later ht
  cases heffects with
  | answered ho => cases ho
  | failed e ho => cases ho
  | lost e ho => cases ho
  | refused e =>
      refine ⟨hs, fun other _ => .refl other t, fun u hu _ => Left.later ?_ hu⟩
      exact ⟨fun heq => absurd heq Bool.false_ne_true,
        fun _ hcommitted => absurd hcommitted hfresh.uncommitted, hfresh.going⟩
  | @acquired _ c hfree =>
      refine ⟨⟨fun c' hc' => ?_, hs.log, hs.commits, hs.once, hs.lines, hs.outcomes⟩,
        fun other hne => ?_, fun u hu _ => ⟨t.conns c, hs.free c hfree, Holding.later ?_ hu⟩⟩
      · have hc' : Function.update t.owner c (some scope) c' = none := hc'
        rcases eq_or_ne c' c with rfl | hne
        · rw [Function.update_self] at hc'
          cases hc'
        · rw [Function.update_of_ne hne] at hc'
          exact hs.free c' hc'
      · refine ⟨fun c' => ?_, fun _ _ => rfl, rfl, Iff.rfl, Iff.rfl, List.Subset.refl _,
          List.Subset.refl _⟩
        show Function.update t.owner c (some scope) c' = some other ↔ _
        rcases eq_or_ne c' c with rfl | hne'
        · rw [Function.update_self, hfree]
          constructor
          · intro heq
            exact absurd (Option.some.inj heq) hne
          · intro heq
            cases heq
        · rw [Function.update_of_ne hne']
      · exact ⟨Function.update_self .., rfl, hfresh.ran_eq, hfresh.uncommitted, hfresh.going⟩

theorem keeps_rollback (h : Failed scope c s) :
    Keeps role tenants scope (ask (.rollback scope c)).attempt
      (fun t (rolledBack : Except (ScopeError K) Unit) => Failed scope c t ∧
        (rolledBack.isOk = true → t.conns c = .idle)) (fun _ => False) s := by
  apply Prog.relies_attempt.mpr
  apply Prog.relies_awaitWith
  intro t ht hs a t' heffects
  have hhere := h.later ht
  have hput : ∀ conn : Conn K, Failed scope c (t.put c conn) :=
    fun conn => ⟨hhere.owner, hhere.commits, hhere.going⟩
  rcases heffects.cases_sent rfl with
    ⟨b, rfl, -, rfl⟩ | ⟨e, conn, rfl, -, rfl⟩ | ⟨_, _, heq, -⟩
  · refine ⟨hs.put hhere.owner, others_put hhere.owner, fun u hu _ => ⟨(hput _).later hu, fun _ => ?_⟩⟩
    exact (hu.conns c hhere.owner).trans (Function.update_self ..)
  · exact ⟨hs.put hhere.owner, others_put hhere.owner,
      fun u hu _ => ⟨(hput conn).later hu, fun hok => absurd hok Bool.false_ne_true⟩⟩
  · cases heq

theorem keeps_inTenantScope {w : Work K} (hs : Sound role tenants s) (h : Fresh scope s) :
    Keeps role tenants scope (inTenantScope scope role (tenants scope) w)
      (fun t _ => Left scope true t) (Left scope false) s := by
  apply (keeps_acquire h).andThen hs
  rintro t c ht ⟨conn, hconn, h⟩
  have htransaction : Keeps role tenants scope (transaction scope c role (tenants scope) w).attempt
      (Ends (fun t _ => Done scope c t) (Failed scope c))
      (Left scope false) t := by
    refine Prog.relies_attempt.mpr ?_
    exact keeps_transaction ht hconn h
  apply htransaction.andThen ht
  intro t outcome ht houtcome
  cases outcome with
  | ok done =>
      have hdone : Done scope c t := houtcome
      have hended : Keeps role tenants scope
          (Prog.modify fun s => (s.release c false).ended scope done.2)
          (fun t _ => Left scope true t) (Left scope false) t := by
        intro u hu hs
        have hhere := hdone.later hu
        have hrelease : Sound role tenants (u.release c false) := hs.release fun _ => hhere.conn_eq
        refine ⟨⟨hrelease.free, hrelease.log, hrelease.commits, hrelease.once, fun e he => ?_,
          hrelease.outcomes⟩, fun other hne => ?_, fun v hv _ => Left.later ?_ hv⟩
        · rcases List.mem_append.mp he with he | he
          · exact hrelease.lines e he
          · obtain ⟨line, -, rfl⟩ := List.mem_map.mp he
            exact hhere.commits
        · have hmoved : Unmoved other u (u.release c false) := others_release hhere.owner other hne
          exact ⟨hmoved.owner, hmoved.conns, hmoved.ran, hmoved.commits, hmoved.ended,
            hmoved.nothing, hmoved.unheard⟩
        · exact ⟨fun _ => hhere.commits, fun heq => absurd heq.symm Bool.false_ne_true, hhere.going⟩
      apply hended.andThen ht
      intro u _ _ hleft
      exact keeps_ret fun v hv => hleft.later hv
  | error e =>
      have hfailed : Failed scope c t := houtcome
      have hrollback : Keeps role tenants scope (ask (.rollback scope c)).attempt
          (fun t (rolledBack : Except (ScopeError K) Unit) => Failed scope c t ∧
            (rolledBack.isOk = true → t.conns c = .idle)) (Left scope false) t := by
        refine (keeps_rollback hfailed).mono fun u r _ hr => ?_
        cases r with
        | ok rolledBack => exact hr
        | error e => exact hr.elim
      apply hrollback.andThen ht
      rintro u rolledBack hu ⟨hfailed, hidle⟩
      have hreleased : Keeps role tenants scope (Prog.modify (World.release c (!rolledBack.isOk)))
          (fun t _ => Left scope false t) (Left scope false) u := by
        intro v hv hs
        have hhere := hfailed.later hv
        refine ⟨hs.release fun hok => ?_, others_release hhere.owner, fun w hw _ => Left.later ?_ hw⟩
        · exact (hv.conns c hfailed.owner).trans (hidle (by simpa using hok))
        · exact ⟨fun heq => absurd heq Bool.false_ne_true, fun _ => hhere.commits, hhere.going⟩
      apply hreleased.andThen hu
      intro v _ _ hleft
      exact fun w hw _ => hleft.later hw

theorem keeps_caller {work : Nat → Work K} (hs : Sound role tenants s) (h : Fresh scope s) :
    Keeps role tenants scope (caller role tenants work scope) (fun _ _ => True) (fun _ => True) s := by
  have hscope : Keeps role tenants scope
      (inTenantScope scope role (tenants scope) (work scope)).attempt
      (fun t (outcome : Except (ScopeError K) K.Result) => Left scope outcome.isOk t)
      (fun _ => True) s := by
    refine Prog.relies_attempt.mpr ((keeps_inTenantScope hs h).mono fun t r _ hr => ?_)
    cases r with
    | ok result => exact hr
    | error e => exact hr
  apply hscope.andThen hs
  intro t outcome _ hleft u hu hs
  have hhere := hleft.later hu
  refine ⟨⟨hs.free, hs.log, hs.commits, hs.once, hs.lines, fun e he => ?_⟩, fun other hne => ?_,
    fun _ _ _ => trivial⟩
  · rcases List.mem_append.mp he with he | he
    · exact hs.outcomes e he
    · rw [List.mem_singleton.mp he]
      exact ⟨hhere.commits, hhere.failed⟩
  · refine ⟨fun _ => Iff.rfl, fun _ _ => rfl, rfl, Iff.rfl, ?_, List.Subset.refl _, List.Subset.refl _⟩
    show other ∈ (u.outcomes ++ [(scope, outcome.isOk)]).map Prod.fst ↔ _
    simp [Over, hne.symm]

/-! ### All the scopes -/

variable {n limit : Nat} {callers : Nat → Work K}
variable {pl : Pool (World K) (DbOp K) DbOp.Ans (ScopeError K)}

theorem sound_reached (h : Pool.Reaches Effects limit
    ((List.range n).map (caller role tenants callers)) .fresh pl s) : Sound role tenants s := by
  have h₀ : Sound role tenants (.fresh : World K) :=
    ⟨fun _ _ => .inl rfl, fun _ hx => absurd hx List.not_mem_nil,
      fun _ he => absurd he List.not_mem_nil, List.nodup_nil,
      fun _ he => absurd he List.not_mem_nil, fun _ he => absurd he List.not_mem_nil⟩
  have htasks : ∀ (i : Nat) p, ((List.range n).map (caller role tenants callers))[i]? = some p →
      Keeps role tenants i p (fun _ _ => True) (fun _ => True) .fresh := by
    intro i p hp
    rw [List.getElem?_map] at hp
    obtain ⟨j, hj, rfl⟩ := Option.map_eq_some_iff.mp hp
    obtain ⟨hlt, rfl⟩ := List.getElem?_eq_some_iff.mp hj
    rw [List.getElem_range]
    exact keeps_caller h₀ ⟨rfl, List.not_mem_nil, List.not_mem_nil⟩
  exact (Pool.relies Unmoved.refl Unmoved.trans (fun i j hne a b hG => hG j hne) h₀ htasks h).1

/-! ### Two tenants on one connection -/

@[reducible] def sampleKinds : Kinds where
  Role := String
  TenantId := Nat
  Statement := Nat
  Rows := Unit
  Line := String
  Result := Unit
  Failure := String

/-- A statement that is answered, where its connection answers it. -/
def answered (s : World sampleKinds) (conn : Nat) (o : DbOp sampleKinds) (b : o.Reply) :
    Option (o.Ans × World sampleKinds) :=
  if (s.conns conn).answers o then some (.ok b, s.carryOut o) else none

theorem effects_answered {s s' : World sampleKinds} {o : DbOp sampleKinds} {a : o.Ans} {b : o.Reply}
    {scope conn : Nat} (ho : o.sentOn = some (scope, conn))
    (h : answered s conn o b = some (a, s')) : Effects s o a s' := by
  unfold answered at h
  split at h
  · rename_i hanswers
    cases h
    exact .answered ho hanswers
  · cases h

/-- A pool of one connection; the statement 9 fails. -/
def sampleWorld (s : World sampleKinds) :
    (o : DbOp sampleKinds) → Option (o.Ans × World sampleKinds)
  | .acquire scope =>
    if s.owner 0 = none then
      some (.ok 0, { s with owner := Function.update s.owner 0 (some scope) })
    else none
  | .run scope conn statement =>
    if statement = (9 : Nat) then
      some (.error "failed",
        s.put conn ((DbOp.run scope conn statement).fail (s.conns conn)))
    else answered s conn (.run scope conn statement) ()
  | .beginTransaction scope conn => answered s conn (.beginTransaction scope conn) ()
  | .setRole scope conn role => answered s conn (.setRole scope conn role) ()
  | .setTenant scope conn tenant => answered s conn (.setTenant scope conn tenant) ()
  | .commit scope conn => answered s conn (.commit scope conn) ()
  | .rollback scope conn => answered s conn (.rollback scope conn) ()

theorem effects_sample (s : World sampleKinds) (o : DbOp sampleKinds) (a : o.Ans)
    (s' : World sampleKinds) (h : sampleWorld s o = some (a, s')) : Effects s o a s' := by
  cases o with
  | acquire scope =>
      dsimp only [sampleWorld] at h
      split at h
      · rename_i hfree
        cases h
        exact .acquired hfree
      · cases h
  | run scope conn statement =>
      dsimp only [sampleWorld] at h
      split at h
      · cases h
        exact .failed "failed" rfl
      · exact effects_answered rfl h
  | beginTransaction | setRole | setTenant | commit | rollback => exact effects_answered rfl h

/-- The first scope commits, with a line that waited; the second one's statement fails. -/
def sampleWork (scope : Nat) : Work sampleKinds :=
  if scope = 0 then .statement (1 : Nat) fun _ => .afterCommit "opened" (.done ())
  else .statement (2 : Nat) fun _ => .statement (9 : Nat) fun answer =>
    match answer with
    | .ok _ => .done ()
    | .error e => .fails (.sql e)

def sampleTenants (scope : Nat) : sampleKinds.TenantId := (100 + scope : Nat)

abbrev sampleTasks : List (Scoped sampleKinds Unit) :=
  (List.range 2).map (caller (some "app_user") sampleTenants sampleWork)

theorem sample_run : ∃ pl s, Pool.Reaches Effects 2 sampleTasks .fresh pl s ∧
    s.log.length = 2 ∧ s.lines.length = 1 ∧ s.outcomes = [(0, true), (1, false)] := by
  have hrun : ∃ s, Pool.execAll sampleWorld sampleTasks .fresh = some (.ok (), s) ∧
      s.log.length = 2 ∧ s.lines.length = 1 ∧ s.outcomes = [(0, true), (1, false)] := by
    refine ⟨_, rfl, ?_, ?_, ?_⟩
    · rfl
    · rfl
    · decide +kernel
  obtain ⟨s, hs, hlog, hlines, houtcomes⟩ := hrun
  obtain ⟨pl, hr, -, -⟩ := Pool.reaches_execAll effects_sample hs
  exact ⟨pl, s, hr, hlog, hlines, houtcomes⟩

/-! ### The results -/

/-- **No statement under another tenant.**  However the scopes go on together over the pool's
connections, and whatever fails or is lost, each statement of a scope's work ran under the
driver's role and the scope's own tenant. -/
theorem scopes_isolated (h : Pool.Reaches Effects limit
    ((List.range n).map (caller role tenants callers)) .fresh pl s) :
    ∀ x ∈ s.log, x.role = role ∧ x.tenant = some (tenants x.scope) :=
  (sound_reached h).log

theorem scopes_isolated_sample : ∃ pl s, Pool.Reaches Effects 2 sampleTasks .fresh pl s ∧
    s.log.length = 2 ∧
    ∀ x ∈ s.log, x.role = some "app_user" ∧ x.tenant = some (sampleTenants x.scope) := by
  obtain ⟨pl, s, hr, hlog, -⟩ := sample_run
  exact ⟨pl, s, hr, hlog, scopes_isolated hr⟩

/-- **Whole or not at all.**  What a scope commits is what its own work ran, once; work held
until the commit ran only where the COMMIT was answered; and a scope that threw committed
nothing, unless its COMMIT was done and not answered. -/
theorem scopes_whole (h : Pool.Reaches Effects limit
    ((List.range n).map (caller role tenants callers)) .fresh pl s) :
    (s.commits.map Prod.fst).Nodup ∧
    (∀ e ∈ s.commits, e.2 = (s.log.filter (·.scope = e.1)).map fun x => (e.1, x.statement)) ∧
    (∀ e ∈ s.lines, e.1 ∈ s.commits.map Prod.fst ∨ e.1 ∈ s.nothing) ∧
    ∀ e ∈ s.outcomes, (e.2 = true → e.1 ∈ s.commits.map Prod.fst ∨ e.1 ∈ s.nothing) ∧
      (e.2 = false → e.1 ∈ s.commits.map Prod.fst → e.1 ∈ s.unheard) := by
  have hs := sound_reached h
  exact ⟨hs.once, hs.commits, hs.lines, hs.outcomes⟩

theorem scopes_whole_sample : ∃ pl s, Pool.Reaches Effects 2 sampleTasks .fresh pl s ∧
    s.outcomes = [(0, true), (1, false)] ∧
    (s.commits.map Prod.fst).Nodup ∧
    (∀ e ∈ s.commits, e.2 = (s.log.filter (·.scope = e.1)).map fun x => (e.1, x.statement)) ∧
    (∀ e ∈ s.lines, e.1 ∈ s.commits.map Prod.fst ∨ e.1 ∈ s.nothing) ∧
    ∀ e ∈ s.outcomes, (e.2 = true → e.1 ∈ s.commits.map Prod.fst ∨ e.1 ∈ s.nothing) ∧
      (e.2 = false → e.1 ∈ s.commits.map Prod.fst → e.1 ∈ s.unheard) := by
  obtain ⟨pl, s, hr, -, -, houtcomes⟩ := sample_run
  exact ⟨pl, s, hr, houtcomes, scopes_whole hr⟩

end Ownpace.Tenant
