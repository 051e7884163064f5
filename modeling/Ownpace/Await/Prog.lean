/-
Ownpace/Await/Prog.lean

Programs of awaited calls over a shared state.

A program is a finite tree: it returns, throws, runs a piece of synchronous
code (which reads and rewrites the shared state in one atomic step), or
awaits a call to the outside and goes on with whatever that call answered.
What a call does is no part of the program; it is given later, by the
relation a run is taken over.

Two readings of a program are developed here.

* `Always J D p h`: along every path of `p`, whatever the state is when a
  synchronous step runs and whatever every call answers, each event is
  justified by the events before it (`J`), and the end is described by the
  whole path (`D`).  Nothing about the state is assumed, so a fact proved
  this way survives any interference between two steps.
* `eval`: the program run alone against a deterministic world.
-/
import Mathlib.Logic.Relation

namespace Await

/-- A program over the shared state `S` that awaits calls `o : Op`, answered
by values of type `Ans o`, and ends in a value or a thrown error. -/
inductive Prog (S Op : Type) (Ans : Op → Type) (ε α : Type) : Type
  | ret (a : α)
  | throw (e : ε)
  | sync (upd : S → S) (k : S → Prog S Op Ans ε α)
  | call (o : Op) (k : Ans o → Prog S Op Ans ε α)

/-- One step of a program as its own path records it. -/
inductive Event (S Op : Type) (Ans : Op → Type) : Type
  | sync (before after : S)
  | call (o : Op) (a : Ans o)

variable {S Op : Type} {Ans : Op → Type} {ε ε' α β γ : Type}

namespace Prog

/-! ### The monad -/

def bind : Prog S Op Ans ε α → (α → Prog S Op Ans ε β) → Prog S Op Ans ε β
  | ret a, f => f a
  | throw e, _ => throw e
  | sync upd k, f => sync upd fun s => (k s).bind f
  | call o k, f => call o fun a => (k a).bind f

instance : Monad (Prog S Op Ans ε) where
  pure := ret
  bind := bind

/-- Run a program and hand its outcome on as a value: the `try` half of a
`try … catch`. -/
def attempt : Prog S Op Ans ε α → Prog S Op Ans ε' (Except ε α)
  | ret a => ret (.ok a)
  | throw e => ret (.error e)
  | sync upd k => sync upd fun s => (k s).attempt
  | call o k => call o fun a => (k a).attempt

/-- The same program, its thrown error read another way. -/
def mapError (f : ε → ε') : Prog S Op Ans ε α → Prog S Op Ans ε' α
  | ret a => ret a
  | throw e => throw (f e)
  | sync upd k => sync upd fun s => (k s).mapError f
  | call o k => call o fun a => (k a).mapError f

/-- A value, or an error to throw. -/
def ofExcept : Except ε α → Prog S Op Ans ε α
  | .ok a => ret a
  | .error e => throw e

/-- Read the state. -/
def read : Prog S Op Ans ε S := sync id ret

/-- Rewrite the state. -/
def modify (upd : S → S) : Prog S Op Ans ε Unit := sync upd fun _ => ret ()

/-- Await a call that answers with a value or rejects with an error; a
rejection is thrown, as `onError` turns it into this program's error. -/
def awaitWith {Reply : Op → Type} {ε₀ : Type} (onError : ε₀ → ε) (o : Op) :
    Prog S Op (fun o => Except ε₀ (Reply o)) ε (Reply o) :=
  call o fun
    | .ok a => ret a
    | .error e => throw (onError e)

@[simp] theorem pure_eq (a : α) : (pure a : Prog S Op Ans ε α) = ret a := rfl

@[simp] theorem bind_eq (p : Prog S Op Ans ε α) (f : α → Prog S Op Ans ε β) :
    p >>= f = p.bind f := rfl

@[simp] theorem ret_bind (a : α) (f : α → Prog S Op Ans ε β) :
    (ret a).bind f = f a := rfl

@[simp] theorem throw_bind (e : ε) (f : α → Prog S Op Ans ε β) :
    (throw e : Prog S Op Ans ε α).bind f = throw e := rfl

theorem bind_assoc (p : Prog S Op Ans ε α) (f : α → Prog S Op Ans ε β)
    (g : β → Prog S Op Ans ε γ) : (p >>= f) >>= g = p >>= fun a => f a >>= g := by
  show (p.bind f).bind g = p.bind fun a => (f a).bind g
  induction p with
  | ret a => rfl
  | throw e => rfl
  | sync upd k ih => exact congrArg (sync upd) (funext fun s => ih s)
  | call o k ih => exact congrArg (call o) (funext fun a => ih a)

/-! ### Every path of a program -/

/-- Along every path of the program that continues the events `h`, each event
is justified by those before it and the end satisfies `D`. -/
def Always (J : List (Event S Op Ans) → Event S Op Ans → Prop)
    (D : List (Event S Op Ans) → Except ε α → Prop) :
    Prog S Op Ans ε α → List (Event S Op Ans) → Prop
  | ret a, h => D h (.ok a)
  | throw e, h => D h (.error e)
  | sync upd k, h =>
      ∀ s, J h (.sync s (upd s)) ∧ (k s).Always J D (h ++ [.sync s (upd s)])
  | call o k, h =>
      ∀ a, J h (.call o a) ∧ (k a).Always J D (h ++ [.call o a])

variable {J : List (Event S Op Ans) → Event S Op Ans → Prop}
variable {D D' : List (Event S Op Ans) → Except ε α → Prop}

@[simp] theorem always_ret {a : α} {h : List (Event S Op Ans)} :
    (ret a : Prog S Op Ans ε α).Always J D h ↔ D h (.ok a) := Iff.rfl

@[simp] theorem always_throw {e : ε} {h : List (Event S Op Ans)} :
    (throw e : Prog S Op Ans ε α).Always J D h ↔ D h (.error e) := Iff.rfl

theorem Always.mono {p : Prog S Op Ans ε α} {h : List (Event S Op Ans)}
    (hp : p.Always J D h) (hD : ∀ h' r, h <+: h' → D h' r → D' h' r) :
    p.Always J D' h := by
  induction p generalizing h with
  | ret a => exact hD h _ List.prefix_rfl hp
  | throw e => exact hD h _ List.prefix_rfl hp
  | sync upd k ih =>
      intro s
      obtain ⟨hJ, hk⟩ := hp s
      refine ⟨hJ, ih s hk fun h' r hpre => ?_⟩
      exact hD h' r ((List.prefix_append _ _).trans hpre)
  | call o k ih =>
      intro a
      obtain ⟨hJ, hk⟩ := hp a
      refine ⟨hJ, ih a hk fun h' r hpre => ?_⟩
      exact hD h' r ((List.prefix_append _ _).trans hpre)

/-- Sequencing: what the second program starts from is how the first one
ended. -/
theorem always_bind {p : Prog S Op Ans ε α} {f : α → Prog S Op Ans ε β}
    {D : List (Event S Op Ans) → Except ε β → Prop} {h : List (Event S Op Ans)} :
    (p.bind f).Always J D h ↔ p.Always J (fun h' r => match r with
      | .ok a => (f a).Always J D h'
      | .error e => D h' (.error e)) h := by
  induction p generalizing h with
  | ret a => rfl
  | throw e => rfl
  | sync upd k ih =>
      constructor
      · intro hp s
        exact ⟨(hp s).1, (ih s).mp (hp s).2⟩
      · intro hp s
        exact ⟨(hp s).1, (ih s).mpr (hp s).2⟩
  | call o k ih =>
      constructor
      · intro hp a
        exact ⟨(hp a).1, (ih a).mp (hp a).2⟩
      · intro hp a
        exact ⟨(hp a).1, (ih a).mpr (hp a).2⟩

/-- Catching: the outcome is handed on, thrown or not. -/
theorem always_attempt {p : Prog S Op Ans ε α}
    {D : List (Event S Op Ans) → Except ε' (Except ε α) → Prop}
    {h : List (Event S Op Ans)} :
    p.attempt.Always J D h ↔ p.Always J (fun h' r => D h' (.ok r)) h := by
  induction p generalizing h with
  | ret a => rfl
  | throw e => rfl
  | sync upd k ih =>
      constructor
      · intro hp s
        exact ⟨(hp s).1, (ih s).mp (hp s).2⟩
      · intro hp s
        exact ⟨(hp s).1, (ih s).mpr (hp s).2⟩
  | call o k ih =>
      constructor
      · intro hp a
        exact ⟨(hp a).1, (ih a).mp (hp a).2⟩
      · intro hp a
        exact ⟨(hp a).1, (ih a).mpr (hp a).2⟩

theorem always_mapError {f : ε → ε'} {p : Prog S Op Ans ε α}
    {D : List (Event S Op Ans) → Except ε' α → Prop} {h : List (Event S Op Ans)} :
    (p.mapError f).Always J D h ↔ p.Always J (fun h' r => D h' (r.mapError f)) h := by
  induction p generalizing h with
  | ret a => rfl
  | throw e => rfl
  | sync upd k ih =>
      constructor
      · intro hp s
        exact ⟨(hp s).1, (ih s).mp (hp s).2⟩
      · intro hp s
        exact ⟨(hp s).1, (ih s).mpr (hp s).2⟩
  | call o k ih =>
      constructor
      · intro hp a
        exact ⟨(hp a).1, (ih a).mp (hp a).2⟩
      · intro hp a
        exact ⟨(hp a).1, (ih a).mpr (hp a).2⟩

/-- The rule of sequencing, from where the path has got to. -/
theorem Always.andThen {D' : List (Event S Op Ans) → Except ε β → Prop}
    {p : Prog S Op Ans ε α} {f : α → Prog S Op Ans ε β} {h : List (Event S Op Ans)}
    (hp : p.Always J D h)
    (hok : ∀ h' a, h <+: h' → D h' (.ok a) → (f a).Always J D' h')
    (herr : ∀ h' e, h <+: h' → D h' (.error e) → D' h' (.error e)) :
    (p >>= f).Always J D' h := by
  rw [bind_eq, always_bind]
  refine hp.mono fun h' r hpre hr => ?_
  cases r with
  | ok a => exact hok h' a hpre hr
  | error e => exact herr h' e hpre hr

/-- Every event of this path is justified by those before it. -/
def Justified (J : List (Event S Op Ans) → Event S Op Ans → Prop)
    (h : List (Event S Op Ans)) : Prop :=
  ∀ h₁ e h₂, h = h₁ ++ e :: h₂ → J h₁ e

theorem justified_nil : Justified J [] := by
  intro h₁ e h₂ heq
  simp at heq

theorem Justified.concat {h : List (Event S Op Ans)} {e : Event S Op Ans}
    (hh : Justified J h) (he : J h e) : Justified J (h ++ [e]) := by
  intro h₁ e' h₂ heq
  rcases List.eq_nil_or_concat h₂ with rfl | ⟨h₂', e₂, rfl⟩
  · obtain ⟨rfl, hone⟩ := List.append_inj' heq rfl
    obtain rfl := List.singleton_inj.mp hone
    exact he
  · rw [List.concat_eq_append, ← List.cons_append, ← List.append_assoc] at heq
    obtain ⟨rfl, -⟩ := List.append_inj' heq rfl
    exact hh _ _ _ rfl

/-- A walk under a laxer justification, with a property each event has by the
stricter one. -/
theorem Always.collect {J' : List (Event S Op Ans) → Event S Op Ans → Prop}
    {Q : Event S Op Ans → Prop} {p : Prog S Op Ans ε α} {h : List (Event S Op Ans)}
    (hp : p.Always J D h) (hJ : ∀ h e, J h e → J' h e ∧ Q e) (hh : ∀ e ∈ h, Q e) :
    p.Always J' (fun h' r => D h' r ∧ ∀ e ∈ h', Q e) h := by
  have concat {h : List (Event S Op Ans)} {e : Event S Op Ans} (hh : ∀ e ∈ h, Q e) (he : Q e) :
      ∀ e' ∈ h ++ [e], Q e' := fun e' hmem => by
    rcases List.mem_append.mp hmem with hmem | hmem
    · exact hh e' hmem
    · exact List.mem_singleton.mp hmem ▸ he
  induction p generalizing h with
  | ret a => exact ⟨hp, hh⟩
  | throw e => exact ⟨hp, hh⟩
  | sync upd k ih =>
      intro s
      exact ⟨(hJ _ _ (hp s).1).1, ih s (hp s).2 (concat hh (hJ _ _ (hp s).1).2)⟩
  | call o k ih =>
      intro a
      exact ⟨(hJ _ _ (hp a).1).1, ih a (hp a).2 (concat hh (hJ _ _ (hp a).1).2)⟩

/-- Two walks of one program. -/
theorem Always.and {J' : List (Event S Op Ans) → Event S Op Ans → Prop} {p : Prog S Op Ans ε α}
    {h : List (Event S Op Ans)} (hp : p.Always J D h) (hp' : p.Always J' D' h) :
    p.Always (fun h e => J h e ∧ J' h e) (fun h r => D h r ∧ D' h r) h := by
  induction p generalizing h with
  | ret a => exact ⟨hp, hp'⟩
  | throw e => exact ⟨hp, hp'⟩
  | sync upd k ih => exact fun s => ⟨⟨(hp s).1, (hp' s).1⟩, ih s (hp s).2 (hp' s).2⟩
  | call o k ih => exact fun a => ⟨⟨(hp a).1, (hp' a).1⟩, ih a (hp a).2 (hp' a).2⟩

/-- A program walked from nothing, walked from where another one has got to. -/
theorem Always.after {J' : List (Event S Op Ans) → Event S Op Ans → Prop}
    {D' : List (Event S Op Ans) → Except ε α → Prop} {p : Prog S Op Ans ε α}
    {h t : List (Event S Op Ans)} (hp : p.Always J D t)
    (hJ : ∀ t e, J t e → J' (h ++ t) e) (hD : ∀ t r, D t r → D' (h ++ t) r) :
    p.Always J' D' (h ++ t) := by
  induction p generalizing t with
  | ret a => exact hD _ _ hp
  | throw e => exact hD _ _ hp
  | sync upd k ih =>
      intro s
      refine ⟨hJ _ _ (hp s).1, ?_⟩
      rw [List.append_assoc]
      exact ih s (hp s).2
  | call o k ih =>
      intro a
      refine ⟨hJ _ _ (hp a).1, ?_⟩
      rw [List.append_assoc]
      exact ih a (hp a).2

/-- And back: a walk from where another program has got to, on its own events. -/
theorem Always.since {p : Prog S Op Ans ε α} {h t : List (Event S Op Ans)}
    (hp : p.Always J D (h ++ t)) :
    p.Always (fun t => J (h ++ t)) (fun t => D (h ++ t)) t := by
  induction p generalizing t with
  | ret a => exact hp
  | throw e => exact hp
  | sync upd k ih =>
      intro s
      obtain ⟨hJ, hk⟩ := hp s
      rw [List.append_assoc] at hk
      exact ⟨hJ, ih s hk⟩
  | call o k ih =>
      intro a
      obtain ⟨hJ, hk⟩ := hp a
      rw [List.append_assoc] at hk
      exact ⟨hJ, ih a hk⟩

/-- The rule of sequencing: the first program by its own walk, and then the
second from wherever the first one ended. -/
theorem Always.seq {J' : List (Event S Op Ans) → Event S Op Ans → Prop}
    {D' : List (Event S Op Ans) → Except ε β → Prop} {p : Prog S Op Ans ε α}
    {f : α → Prog S Op Ans ε β} {h : List (Event S Op Ans)} (hp : p.Always J D [])
    (hJ : ∀ t e, J t e → J' (h ++ t) e)
    (hok : ∀ t a, D t (.ok a) → (f a).Always J' D' (h ++ t))
    (herr : ∀ t e, D t (.error e) → D' (h ++ t) (.error e)) :
    (p >>= f).Always J' D' h := by
  rw [bind_eq, always_bind, ← List.append_nil h]
  refine hp.after hJ fun t r hr => ?_
  cases r with
  | ok a => exact hok t a hr
  | error e => exact herr t e hr

theorem always_awaitWith {Reply : Op → Type} {ε₀ : Type} {onError : ε₀ → ε} {o : Op}
    {J : List (Event S Op fun o => Except ε₀ (Reply o)) → Event S Op _ → Prop}
    {D : List (Event S Op fun o => Except ε₀ (Reply o)) → Except ε (Reply o) → Prop}
    {h : List (Event S Op fun o => Except ε₀ (Reply o))} :
    (awaitWith onError o).Always J D h ↔
      (∀ a, J h (.call o (.ok a)) ∧ D (h ++ [.call o (.ok a)]) (.ok a)) ∧
      ∀ e, J h (.call o (.error e)) ∧
        D (h ++ [.call o (.error e)]) (.error (onError e)) := by
  constructor
  · intro hp
    exact ⟨fun a => hp (.ok a), fun e => hp (.error e)⟩
  · rintro ⟨hok, herr⟩ (e | a)
    · exact herr e
    · exact hok a

theorem always_awaitWith_bind {Reply : Op → Type} {ε₀ : Type} {onError : ε₀ → ε} {o : Op}
    {f : Reply o → Prog S Op (fun o => Except ε₀ (Reply o)) ε β}
    {J : List (Event S Op fun o => Except ε₀ (Reply o)) → Event S Op _ → Prop}
    {D : List (Event S Op fun o => Except ε₀ (Reply o)) → Except ε β → Prop}
    {h : List (Event S Op fun o => Except ε₀ (Reply o))} :
    (awaitWith onError o >>= f).Always J D h ↔
      (∀ a, J h (.call o (.ok a)) ∧ (f a).Always J D (h ++ [.call o (.ok a)])) ∧
      ∀ e, J h (.call o (.error e)) ∧
        D (h ++ [.call o (.error e)]) (.error (onError e)) := by
  rw [bind_eq, always_bind, always_awaitWith]

/-! ### A program run alone -/

/-- Run a program alone in a deterministic world: `world s o` is what the call
`o` answers in the state `s`, and the state it leaves. -/
def eval (world : S → (o : Op) → Ans o × S) :
    Prog S Op Ans ε α → S → Except ε α × S
  | ret a, s => (.ok a, s)
  | throw e, s => (.error e, s)
  | sync upd k, s => (k s).eval world (upd s)
  | call o k, s => (k (world s o).1).eval world (world s o).2

variable {world : S → (o : Op) → Ans o × S}

@[simp] theorem eval_ret {a : α} {s : S} :
    (ret a : Prog S Op Ans ε α).eval world s = (.ok a, s) := rfl

@[simp] theorem eval_throw {e : ε} {s : S} :
    (throw e : Prog S Op Ans ε α).eval world s = (.error e, s) := rfl

theorem eval_bind (p : Prog S Op Ans ε α) (f : α → Prog S Op Ans ε β) (s : S) :
    (p.bind f).eval world s = match p.eval world s with
      | (.ok a, s') => (f a).eval world s'
      | (.error e, s') => (.error e, s') := by
  induction p generalizing s with
  | ret a => rfl
  | throw e => rfl
  | sync upd k ih => exact ih s (upd s)
  | call o k ih => exact ih _ _

theorem eval_bind_ok {p : Prog S Op Ans ε α} {s s' : S} {a : α}
    (hp : p.eval world s = (.ok a, s')) (f : α → Prog S Op Ans ε β) :
    (p >>= f).eval world s = (f a).eval world s' := by
  rw [bind_eq, eval_bind, hp]

theorem eval_attempt (p : Prog S Op Ans ε α) (s : S) :
    (p.attempt : Prog S Op Ans ε' _).eval world s =
      (.ok (p.eval world s).1, (p.eval world s).2) := by
  induction p generalizing s with
  | ret a => rfl
  | throw e => rfl
  | sync upd k ih => exact ih s (upd s)
  | call o k ih => exact ih _ _

end Prog

end Await
