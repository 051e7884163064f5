/-
Ownpace/Await/Pool.lean

Programs that run at the same time over one state.

A `Pool` is a list of programs of which at most a given number are in flight
at once, started in order, each step an atomic step of one of them; after the
first one that throws no other is started, and the pool is joined once
everything in flight has ended.

`Pool.rule` is the rule of the pool.  Each program is walked on its own
(`Always`, one justification `J i` and one description of the end `D i` per
program).  What is left is that a step of one program, justified by its own
path, keeps the invariant.
-/
import Mathlib.Logic.Function.Basic
import Ownpace.Await.Run

namespace Await

variable {S Op : Type} {Ans : Op → Type} {ε α : Type}

namespace Prog

/-- Is this program still running? -/
def running : Prog S Op Ans ε α → Bool
  | ret _ => false
  | throw _ => false
  | sync _ _ => true
  | call _ _ => true

/-- The error this program has thrown, if it has. -/
def thrown : Prog S Op Ans ε α → Option ε
  | throw e => some e
  | ret _ => none
  | sync _ _ => none
  | call _ _ => none

end Prog

/-! ### The pool -/

/-- A program that was started, and the events of its own path so far. -/
structure Task (S Op : Type) (Ans : Op → Type) (ε : Type) where
  prog : Prog S Op Ans ε Unit
  path : List (Event S Op Ans)

/-- The programs not started yet, those started (in order, the ended ones
among them), and the first error thrown. -/
structure Pool (S Op : Type) (Ans : Op → Type) (ε : Type) where
  waiting : List (Prog S Op Ans ε Unit)
  started : List (Task S Op Ans ε)
  firstError : Option ε

namespace Pool

def init (tasks : List (Prog S Op Ans ε Unit)) : Pool S Op Ans ε :=
  ⟨tasks, [], none⟩

def inFlight (pl : Pool S Op Ans ε) : Nat :=
  (pl.started.filter fun t => t.prog.running).length

/-- One step of the pool: the next program is started, or one program takes a
step of its own.  The label says which event it was, and whose. -/
inductive Step (W : S → (o : Op) → Ans o → S → Prop) (limit : Nat) :
    Pool S Op Ans ε → S → Option (Nat × Event S Op Ans) → Pool S Op Ans ε → S → Prop
  | start {p ps ts s} : inFlight ⟨p :: ps, ts, none⟩ < max 1 limit →
      Step W limit ⟨p :: ps, ts, none⟩ s none ⟨ps, ts ++ [⟨p, []⟩], p.thrown⟩ s
  | task {ps ts₁ p h ts₂ err s e p' s'} : Prog.Step W p s e p' s' →
      Step W limit ⟨ps, ts₁ ++ ⟨p, h⟩ :: ts₂, err⟩ s (some (ts₁.length, e))
        ⟨ps, ts₁ ++ ⟨p', h ++ [e]⟩ :: ts₂, err <|> p'.thrown⟩ s'

/-- The pools reachable from the one that has started nothing. -/
inductive Reaches (W : S → (o : Op) → Ans o → S → Prop) (limit : Nat)
    (tasks : List (Prog S Op Ans ε Unit)) (s₀ : S) : Pool S Op Ans ε → S → Prop
  | refl : Reaches W limit tasks s₀ (init tasks) s₀
  | tail {pl s l pl' s'} : Reaches W limit tasks s₀ pl s → Step W limit pl s l pl' s' →
      Reaches W limit tasks s₀ pl' s'

/-- Everything started has ended, and nothing more will be started. -/
def Joined (pl : Pool S Op Ans ε) : Prop :=
  (∀ t ∈ pl.started, t.prog.running = false) ∧
    (pl.waiting = [] ∨ pl.firstError ≠ none)

def result (pl : Pool S Op Ans ε) : Except ε Unit :=
  pl.firstError.elim (.ok ()) .error

/-- The path of the `i`-th program, empty while it has not started. -/
def path (pl : Pool S Op Ans ε) (i : Nat) : List (Event S Op Ans) :=
  (pl.started[i]?).elim [] Task.path

theorem path_of_getElem {pl : Pool S Op Ans ε} {i : Nat} {t : Task S Op Ans ε}
    (h : pl.started[i]? = some t) : pl.path i = t.path := by
  simp [path, h]

/-! ### The rule of the pool -/

section Rule

variable {W : S → (o : Op) → Ans o → S → Prop} {limit : Nat}
variable {tasks : List (Prog S Op Ans ε Unit)}
variable {J : Nat → List (Event S Op Ans) → Event S Op Ans → Prop}
variable {D : Nat → List (Event S Op Ans) → Except ε Unit → Prop}
variable {I : (Nat → List (Event S Op Ans)) → S → Prop}

/-- What holds of a reachable pool: the invariant, of every path; each started
program is still on one of its own paths; those waiting are the rest of the
list; and a thrown error has been noted. -/
structure Ok (tasks : List (Prog S Op Ans ε Unit))
    (J : Nat → List (Event S Op Ans) → Event S Op Ans → Prop)
    (D : Nat → List (Event S Op Ans) → Except ε Unit → Prop)
    (I : (Nat → List (Event S Op Ans)) → S → Prop)
    (pl : Pool S Op Ans ε) (s : S) : Prop where
  inv : I pl.path s
  walks : ∀ i (t : Task S Op Ans ε), pl.started[i]? = some t →
    t.prog.Always (J i) (D i) t.path
  waiting : pl.waiting = tasks.drop pl.started.length
  started_le : pl.started.length ≤ tasks.length
  noted : ∀ t : Task S Op Ans ε, t ∈ pl.started → ∀ e, t.prog = .throw e →
    pl.firstError ≠ none

/-- A task of the pool once another has been started. -/
theorem of_started {ts : List (Task S Op Ans ε)} {new t : Task S Op Ans ε} {i : Nat}
    (h : (ts ++ [new])[i]? = some t) : ts[i]? = some t ∨ i = ts.length ∧ t = new := by
  rcases Nat.lt_or_ge i ts.length with hi | hi
  · rw [List.getElem?_append_left hi] at h
    exact .inl h
  · obtain rfl : i = ts.length := by
      have := (List.getElem?_eq_some_iff.mp h).1
      simp at this
      omega
    rw [List.getElem?_concat_length] at h
    exact .inr ⟨rfl, (Option.some.inj h).symm⟩

/-- A task of the pool once one of them has taken a step. -/
theorem of_stepped {ts₁ ts₂ : List (Task S Op Ans ε)} (old : Task S Op Ans ε)
    {new t : Task S Op Ans ε} {i : Nat} (h : (ts₁ ++ new :: ts₂)[i]? = some t) :
    i = ts₁.length ∧ t = new ∨ i ≠ ts₁.length ∧ (ts₁ ++ old :: ts₂)[i]? = some t := by
  rcases Nat.lt_trichotomy i ts₁.length with hi | rfl | hi
  · rw [List.getElem?_append_left hi] at h
    exact .inr ⟨Nat.ne_of_lt hi, by rwa [List.getElem?_append_left hi]⟩
  · rw [List.getElem?_append_right (Nat.le_refl _), Nat.sub_self] at h
    exact .inl ⟨rfl, (Option.some.inj h).symm⟩
  · obtain ⟨j, rfl⟩ := Nat.exists_eq_add_of_lt hi
    refine .inr ⟨by omega, ?_⟩
    rw [List.getElem?_append_right (by omega)] at h ⊢
    simpa [show ts₁.length + j + 1 - ts₁.length = j + 1 by omega] using h

theorem path_start (pl : Pool S Op Ans ε) (p : Prog S Op Ans ε Unit)
    (ps : List (Prog S Op Ans ε Unit)) (err : Option ε) :
    path ⟨ps, pl.started ++ [⟨p, []⟩], err⟩ = pl.path := by
  funext i
  simp only [path]
  rcases Nat.lt_trichotomy i pl.started.length with hlt | rfl | hgt
  · rw [List.getElem?_append_left hlt]
  · simp
  · rw [List.getElem?_eq_none (by simp; omega), List.getElem?_eq_none (by omega)]

theorem path_task (ps : List (Prog S Op Ans ε Unit))
    (ts₁ ts₂ : List (Task S Op Ans ε)) (p p' : Prog S Op Ans ε Unit)
    (h : List (Event S Op Ans)) (e : Event S Op Ans) (err err' : Option ε) :
    path ⟨ps, ts₁ ++ ⟨p', h ++ [e]⟩ :: ts₂, err'⟩ =
      Function.update (path ⟨ps, ts₁ ++ ⟨p, h⟩ :: ts₂, err⟩) ts₁.length
        (path ⟨ps, ts₁ ++ ⟨p, h⟩ :: ts₂, err⟩ ts₁.length ++ [e]) := by
  funext i
  by_cases hi : i = ts₁.length
  · subst hi
    simp [path]
  · rw [Function.update_of_ne hi]
    simp only [path]
    rcases Nat.lt_or_gt_of_ne hi with hlt | hgt
    · rw [List.getElem?_append_left hlt, List.getElem?_append_left hlt]
    · obtain ⟨j, rfl⟩ : ∃ j, i = ts₁.length + (j + 1) := ⟨i - ts₁.length - 1, by omega⟩
      simp [List.getElem?_append_right]

/-- **The rule of the pool.**  If every program on its own keeps to `J` and
ends as `D` says, and every justified event of any one of them keeps the
invariant, then the invariant holds of every reachable pool. -/
theorem rule (hspec : ∀ i (p : Prog S Op Ans ε Unit), tasks[i]? = some p → p.Always (J i) (D i) [])
    (hstep : ∀ paths s i e s', i < tasks.length → I paths s → J i (paths i) e →
      Fires W s e s' → I (Function.update paths i (paths i ++ [e])) s')
    {s₀ : S} (h₀ : I (fun _ => []) s₀) {pl : Pool S Op Ans ε} {s : S}
    (hr : Reaches W limit tasks s₀ pl s) : Ok tasks J D I pl s := by
  induction hr with
  | refl =>
      refine ⟨h₀, ?_, ?_, ?_, ?_⟩ <;> simp [init]
  | @tail pl s l pl' s' hreach hs ih =>
      cases hs with
      | @start p ps ts s hlim =>
          have hwait := ih.waiting
          dsimp only at hwait
          have hlt : ts.length < tasks.length := by
            rw [← Nat.not_le, ← List.drop_eq_nil_iff, ← hwait]
            exact List.cons_ne_nil _ _
          have hget : tasks[ts.length]? = some p := by
            have h0 := congrArg (·[0]?) hwait
            simpa using h0.symm
          refine ⟨?_, ?_, ?_, ?_, ?_⟩
          · rw [path_start ⟨p :: ps, ts, none⟩]
            exact ih.inv
          · intro i t ht
            rcases of_started ht with ht | ⟨rfl, rfl⟩
            · exact ih.walks i t ht
            · exact hspec _ _ hget
          · have htail := congrArg List.tail hwait
            simpa [List.tail_drop] using htail
          · rw [List.length_append, List.length_singleton]
            exact hlt
          · intro t ht e he
            rcases List.mem_append.mp ht with ht | ht
            · exact absurd rfl (ih.noted t ht e he)
            · obtain rfl := List.mem_singleton.mp ht
              dsimp only at he ⊢
              rw [he]
              exact Option.some_ne_none _
      | @task ps ts₁ p h ts₂ err s e p' s' hp =>
          have hlt : ts₁.length < tasks.length := by
            have hle := ih.started_le
            simp at hle
            omega
          have hhere : (ts₁ ++ ⟨p, h⟩ :: ts₂ : List (Task S Op Ans ε))[ts₁.length]? =
              some ⟨p, h⟩ := by simp
          have hpath : path ⟨ps, ts₁ ++ ⟨p, h⟩ :: ts₂, err⟩ ts₁.length = h := by
            rw [path_of_getElem hhere]
          obtain ⟨hJ, hnext⟩ := hp.always (ih.walks _ _ hhere)
          refine ⟨?_, ?_, ?_, ?_, ?_⟩
          · rw [path_task ps ts₁ ts₂ p p' h e err]
            refine hstep _ _ _ _ _ hlt ih.inv ?_ hp.fires
            rw [hpath]
            exact hJ
          · intro i t ht
            rcases of_stepped ⟨p, h⟩ ht with ⟨rfl, rfl⟩ | ⟨-, ht⟩
            · exact hnext
            · exact ih.walks i t ht
          · have hw := ih.waiting
            simpa using hw
          · have hle := ih.started_le
            simpa using hle
          · intro t ht e' he'
            rcases List.mem_append.mp ht with ht | ht
            · have := ih.noted t (by simp [ht]) e' he'
              cases err with
              | none => exact absurd rfl this
              | some _ => simp
            · rcases List.mem_cons.mp ht with rfl | ht
              · dsimp only at he'
                rw [he']
                cases err <;> simp [Prog.thrown]
              · have := ih.noted t (by simp [ht]) e' he'
                cases err with
                | none => exact absurd rfl this
                | some _ => simp

end Rule

end Pool

end Await
