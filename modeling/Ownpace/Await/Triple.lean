/-
Ownpace/Await/Triple.lean

Programs that run alone, over states that are known.

`Wp W O Q p s`: from the state `s`, the program `p` makes every call in a state
where `O` allows it, whatever the calls answer (`W` says what they may), and
ends as `Q` says.  `Triple` is the same with a precondition, for programs whose
thrown errors nobody asks about; its rules are those of Hoare's logic.

`Wp.run` takes a precondition along a run.  `Always.wp` brings a walked program
here: what its events do to a state is then all that is left to say.
-/
import Ownpace.Await.Run

namespace Await

variable {S Op : Type} {Ans : Op → Type} {ε ε' α β : Type}

namespace Prog

variable {W : S → (o : Op) → Ans o → S → Prop} {O : S → Op → Prop}

/-- The weakest precondition of a program that runs alone. -/
def Wp (W : S → (o : Op) → Ans o → S → Prop) (O : S → Op → Prop)
    (Q : S → Except ε α → Prop) : Prog S Op Ans ε α → S → Prop
  | ret a, s => Q s (.ok a)
  | throw e, s => Q s (.error e)
  | sync upd k, s => (k s).Wp W O Q (upd s)
  | call o k, s => O s o ∧ ∀ a s', W s o a s' → (k a).Wp W O Q s'

variable {Q Q' : S → Except ε α → Prop}

theorem Wp.mono {p : Prog S Op Ans ε α} {s : S} (hp : p.Wp W O Q s)
    (hQ : ∀ s r, Q s r → Q' s r) : p.Wp W O Q' s := by
  induction p generalizing s with
  | ret a => exact hQ s _ hp
  | throw e => exact hQ s _ hp
  | sync upd k ih => exact ih s hp
  | call o k ih => exact ⟨hp.1, fun a s' hw => ih a (hp.2 a s' hw)⟩

theorem Wp.calls_mono {O' : S → Op → Prop} {p : Prog S Op Ans ε α} {s : S}
    (hp : p.Wp W O Q s) (hO : ∀ s o, O s o → O' s o) : p.Wp W O' Q s := by
  induction p generalizing s with
  | ret a => exact hp
  | throw e => exact hp
  | sync upd k ih => exact ih s hp
  | call o k ih => exact ⟨hO s o hp.1, fun a s' hw => ih a (hp.2 a s' hw)⟩

theorem wp_bind {p : Prog S Op Ans ε α} {f : α → Prog S Op Ans ε β}
    {Q : S → Except ε β → Prop} {s : S} :
    (p.bind f).Wp W O Q s ↔ p.Wp W O (fun s' r => match r with
      | .ok a => (f a).Wp W O Q s'
      | .error e => Q s' (.error e)) s := by
  induction p generalizing s with
  | ret a => rfl
  | throw e => rfl
  | sync upd k ih => exact ih s
  | call o k ih =>
      constructor
      · intro hp
        exact ⟨hp.1, fun a s' hw => (ih a).mp (hp.2 a s' hw)⟩
      · intro hp
        exact ⟨hp.1, fun a s' hw => (ih a).mpr (hp.2 a s' hw)⟩

theorem wp_attempt {p : Prog S Op Ans ε α} {Q : S → Except ε' (Except ε α) → Prop} {s : S} :
    p.attempt.Wp W O Q s ↔ p.Wp W O (fun s' r => Q s' (.ok r)) s := by
  induction p generalizing s with
  | ret a => rfl
  | throw e => rfl
  | sync upd k ih => exact ih s
  | call o k ih =>
      constructor
      · intro hp
        exact ⟨hp.1, fun a s' hw => (ih a).mp (hp.2 a s' hw)⟩
      · intro hp
        exact ⟨hp.1, fun a s' hw => (ih a).mpr (hp.2 a s' hw)⟩

/-- A walked program, over a state: each justified event keeps `I`. -/
theorem Always.wp {J : List (Event S Op Ans) → Event S Op Ans → Prop}
    {D : List (Event S Op Ans) → Except ε α → Prop} {I : List (Event S Op Ans) → S → Prop}
    {p : Prog S Op Ans ε α} {h : List (Event S Op Ans)} {s : S} (hp : p.Always J D h)
    (hI : I h s)
    (hstep : ∀ h s e s', I h s → J h e → Fires W s e s' → I (h ++ [e]) s')
    (hcall : ∀ h s o, I h s → (∀ a, J h (.call o a)) → O s o)
    (hend : ∀ h s r, I h s → D h r → Q s r) : p.Wp W O Q s := by
  induction p generalizing h s with
  | ret a => exact hend h s _ hI hp
  | throw e => exact hend h s _ hI hp
  | sync upd k ih => exact ih s (hp s).2 (hstep _ _ _ _ hI (hp s).1 ⟨rfl, rfl⟩)
  | call o k ih =>
      refine ⟨hcall h s o hI fun a => (hp a).1, fun a s' hw => ?_⟩
      exact ih a (hp a).2 (hstep _ _ _ _ hI (hp a).1 hw)

/-- A run of a program alone stays where its precondition led. -/
theorem Wp.run {p₀ p : Prog S Op Ans ε α} {s₀ s : S} {h : List (Event S Op Ans)}
    (hr : Run (fun _ _ => False) W p₀ s₀ p h s) (h₀ : p₀.Wp W O Q s₀) : p.Wp W O Q s := by
  induction hr with
  | refl => exact h₀
  | env _ hf _ => exact hf.elim
  | step _ hs ih =>
      cases hs with
      | sync => exact ih
      | call _ hw => exact ih.2 _ _ hw

/-! ### Programs of calls alone -/

/-- Nothing but calls: the state is changed by what they do. -/
def Quiet : Prog S Op Ans ε α → Prop
  | ret _ => True
  | throw _ => True
  | sync _ _ => False
  | call _ k => ∀ a, (k a).Quiet

theorem Quiet.bind {p : Prog S Op Ans ε α} {f : α → Prog S Op Ans ε β} (hp : p.Quiet)
    (hf : ∀ a, (f a).Quiet) : (p >>= f).Quiet := by
  show (p.bind f).Quiet
  induction p with
  | ret a => exact hf a
  | throw e => exact trivial
  | sync upd k ih => exact hp.elim
  | call o k ih => exact fun a => ih a (hp a)

theorem Quiet.attempt {p : Prog S Op Ans ε α} (hp : p.Quiet) :
    (p.attempt : Prog S Op Ans ε' _).Quiet := by
  induction p with
  | ret a => exact trivial
  | throw e => exact trivial
  | sync upd k ih => exact hp.elim
  | call o k ih => exact fun a => ih a (hp a)

theorem quiet_awaitWith {Reply : Op → Type} {ε₀ : Type} {onError : ε₀ → ε} {o : Op} :
    (awaitWith onError o : Prog S Op (fun o => Except ε₀ (Reply o)) ε (Reply o)).Quiet := by
  intro a
  cases a <;> exact trivial

/-- What every call keeps where it may be made holds throughout the run of a
program of calls. -/
theorem Wp.keeps {I : S → Prop} {p₀ p : Prog S Op Ans ε α} {s₀ s : S} {h : List (Event S Op Ans)}
    (hr : Run (fun _ _ => False) W p₀ s₀ p h s) (hq : p₀.Quiet) (h₀ : p₀.Wp W O Q s₀) (hI : I s₀)
    (hcall : ∀ s o a s', I s → O s o → W s o a s' → I s') : I s := by
  suffices hsuf : p.Quiet ∧ I s from hsuf.2
  induction hr with
  | refl => exact ⟨hq, hI⟩
  | env _ hf _ => exact hf.elim
  | step hrun hs ih =>
      have hwp := h₀.run hrun
      cases hs with
      | sync => exact ih.1.elim
      | call _ hw => exact ⟨ih.1 _, hcall _ _ _ _ ih.2 hwp.1 hw⟩

/-! ### Triples -/

/-- From any state with `Pre`, every call is made where `O` allows it, and a
value is returned in a state with `Post`. -/
def Triple (W : S → (o : Op) → Ans o → S → Prop) (O : S → Op → Prop) (Pre : S → Prop)
    (p : Prog S Op Ans ε α) (Post : α → S → Prop) : Prop :=
  ∀ s, Pre s → p.Wp W O (fun s' r => ∀ a, r = .ok a → Post a s') s

variable {Pre Pre' : S → Prop} {Post Post' : α → S → Prop}

theorem triple_ret {a : α} (ha : ∀ s, Pre s → Post a s) :
    Triple W O Pre (ret a : Prog S Op Ans ε α) Post := by
  rintro s hs _ ⟨⟩
  exact ha s hs

theorem triple_throw {e : ε} : Triple W O Pre (throw e : Prog S Op Ans ε α) Post :=
  fun _ _ => nofun

theorem Triple.bind {p : Prog S Op Ans ε α} {f : α → Prog S Op Ans ε β} {Post' : β → S → Prop}
    (hp : Triple W O Pre p Post) (hf : ∀ a, Triple W O (Post a) (f a) Post') :
    Triple W O Pre (p >>= f) Post' := by
  intro s hs
  refine wp_bind.mpr ((hp s hs).mono fun s' r hr => ?_)
  cases r with
  | ok a => exact hf a s' (hr a rfl)
  | error e => exact nofun

/-- The same, what holds in between being named. -/
theorem Triple.seq (Post : α → S → Prop) {p : Prog S Op Ans ε α} {f : α → Prog S Op Ans ε β}
    {Post' : β → S → Prop} (hp : Triple W O Pre p Post)
    (hf : ∀ a, Triple W O (Post a) (f a) Post') : Triple W O Pre (p >>= f) Post' :=
  hp.bind hf

theorem Triple.mono {P P' : S → Prop} {Q Q' : α → S → Prop} {p : Prog S Op Ans ε α}
    (hp : Triple W O P p Q)
    (hpre : ∀ s, P' s → P s) (hpost : ∀ a s, Q a s → Q' a s) :
    Triple W O P' p Q' :=
  fun s hs => (hp s (hpre s hs)).mono fun s' _ hr a ha => hpost a s' (hr a ha)

/-- The same, every call being made where it may be by `O'` as well. -/
theorem Triple.calls_mono {O' : S → Op → Prop} {p : Prog S Op Ans ε α}
    (hp : Triple W O Pre p Post) (hO : ∀ s o, O s o → O' s o) : Triple W O' Pre p Post :=
  fun s hs => (hp s hs).calls_mono hO

theorem triple_awaitWith {Reply : Op → Type} {ε₀ : Type}
    {W : S → (o : Op) → Except ε₀ (Reply o) → S → Prop} {onError : ε₀ → ε} {o : Op}
    {Q : Reply o → S → Prop} (hO : ∀ s, Pre s → O s o)
    (hW : ∀ s a s', Pre s → W s o (.ok a) s' → Q a s') :
    Triple W O Pre (awaitWith onError o) Q := by
  refine fun s hs => ⟨hO s hs, fun a s' hw => ?_⟩
  cases a with
  | ok a =>
      rintro _ ⟨⟩
      exact hW s a s' hs hw
  | error e => exact nofun

/-- A call whose rejection is not thrown on. -/
theorem triple_attempt {Reply : Op → Type} {ε₀ : Type}
    {W : S → (o : Op) → Except ε₀ (Reply o) → S → Prop} {onError : ε₀ → ε} {o : Op}
    {Post : Except ε (Reply o) → S → Prop} (hO : ∀ s, Pre s → O s o)
    (hok : ∀ s a s', Pre s → W s o (.ok a) s' → Post (.ok a) s')
    (herr : ∀ s e s', Pre s → W s o (.error e) s' → Post (.error (onError e)) s') :
    Triple W O Pre ((awaitWith onError o).attempt : Prog S Op _ ε' _) Post := by
  refine fun s hs => wp_attempt.mpr ⟨hO s hs, fun a s' hw => ?_⟩
  cases a with
  | ok a =>
      rintro _ ⟨⟩
      exact hok s a s' hs hw
  | error e =>
      rintro _ ⟨⟩
      exact herr s e s' hs hw

end Prog

end Await
