/-
Ownpace/Await/Run.lean

A program among others.

`W s o a s'` says what the calls do: in the state `s` the call `o` may answer
`a` and leave `s'`.  `Prog.Run` is one program's run over `W`, step by step,
while between any two of its steps the rest of the world may change the state
by `R`, which is anything at all.

`Run.rule` is the rule of a run: with the program walked (`Always`), an
invariant of its path and the state holds throughout if the rest of the world
keeps it and every justified event keeps it.  `Run.split` goes back from an
event of the path to the moment it happened.
-/
import Ownpace.Await.Prog

namespace Await

variable {S Op : Type} {Ans : Op → Type} {ε α : Type}

/-- What an event does to the state, where `W s o a s'` says that the call `o`
may answer `a` in `s` and leave `s'`. -/
def Fires (W : S → (o : Op) → Ans o → S → Prop) (s : S) : Event S Op Ans → S → Prop
  | .sync before after, s' => s = before ∧ s' = after
  | .call o a, s' => W s o a s'

namespace Prog

variable {W : S → (o : Op) → Ans o → S → Prop}

/-- One step of a program. -/
inductive Step (W : S → (o : Op) → Ans o → S → Prop) :
    Prog S Op Ans ε α → S → Event S Op Ans → Prog S Op Ans ε α → S → Prop
  | sync (upd : S → S) (k : S → Prog S Op Ans ε α) (s : S) :
      Step W (.sync upd k) s (.sync s (upd s)) (k s) (upd s)
  | call {o : Op} {a : Ans o} {s s' : S} (k : Ans o → Prog S Op Ans ε α) :
      W s o a s' → Step W (.call o k) s (.call o a) (k a) s'

theorem Step.fires {p p' : Prog S Op Ans ε α} {s s' : S} {e : Event S Op Ans}
    (h : Step W p s e p' s') : Fires W s e s' := by
  cases h with
  | sync => exact ⟨rfl, rfl⟩
  | call _ hw => exact hw

theorem Step.always {J : List (Event S Op Ans) → Event S Op Ans → Prop}
    {D : List (Event S Op Ans) → Except ε α → Prop} {p p' : Prog S Op Ans ε α}
    {s s' : S} {e : Event S Op Ans} {h : List (Event S Op Ans)}
    (hs : Step W p s e p' s') (hp : p.Always J D h) :
    J h e ∧ p'.Always J D (h ++ [e]) := by
  cases hs with
  | sync => exact hp s
  | call _ _ => exact hp _

/-- The program that has ended in this. -/
def outcome : Except ε α → Prog S Op Ans ε α
  | .ok a => .ret a
  | .error e => .throw e

/-- A run of one program, from no events at all, while the rest of the world
changes the state by `R`. -/
inductive Run (R : S → S → Prop) (W : S → (o : Op) → Ans o → S → Prop)
    (p₀ : Prog S Op Ans ε α) (s₀ : S) :
    Prog S Op Ans ε α → List (Event S Op Ans) → S → Prop
  | refl : Run R W p₀ s₀ p₀ [] s₀
  | env {p h s s'} : Run R W p₀ s₀ p h s → R s s' → Run R W p₀ s₀ p h s'
  | step {p h s e p' s'} : Run R W p₀ s₀ p h s → Step W p s e p' s' →
      Run R W p₀ s₀ p' (h ++ [e]) s'

theorem Run.always {R : S → S → Prop}
    {J : List (Event S Op Ans) → Event S Op Ans → Prop}
    {D : List (Event S Op Ans) → Except ε α → Prop} {p₀ p : Prog S Op Ans ε α}
    {s₀ s : S} {h : List (Event S Op Ans)} (hr : Run R W p₀ s₀ p h s)
    (h₀ : p₀.Always J D []) : p.Always J D h := by
  induction hr with
  | refl => exact h₀
  | env _ _ ih => exact ih
  | step _ hs ih => exact (hs.always ih).2

theorem Run.rule {R : S → S → Prop}
    {J : List (Event S Op Ans) → Event S Op Ans → Prop}
    {D : List (Event S Op Ans) → Except ε α → Prop} {I : List (Event S Op Ans) → S → Prop}
    {p₀ p : Prog S Op Ans ε α} {s₀ s : S} {h : List (Event S Op Ans)}
    (hspec : p₀.Always J D []) (h₀ : I [] s₀)
    (henv : ∀ h s s', I h s → R s s' → I h s')
    (hstep : ∀ h s e s', I h s → J h e → Fires W s e s' → I (h ++ [e]) s')
    (hr : Run R W p₀ s₀ p h s) : I h s := by
  induction hr with
  | refl => exact h₀
  | env _ hR ih => exact henv _ _ _ ih hR
  | step hrun hs ih => exact hstep _ _ _ _ ih (hs.always (hrun.always hspec)).1 hs.fires

/-- The moment an event of the path happened. -/
theorem Run.split {R : S → S → Prop} {p₀ p : Prog S Op Ans ε α} {s₀ s : S}
    {h h₁ h₂ : List (Event S Op Ans)} {e : Event S Op Ans} (hr : Run R W p₀ s₀ p h s)
    (hh : h = h₁ ++ e :: h₂) :
    ∃ p₁ s₁ p₂ s₂, Run R W p₀ s₀ p₁ h₁ s₁ ∧ Step W p₁ s₁ e p₂ s₂ := by
  induction hr generalizing h₂ with
  | refl => simp at hh
  | env _ _ ih => exact ih hh
  | @step p h s e' p' s' hrun hs ih =>
      rcases List.eq_nil_or_concat h₂ with rfl | ⟨h₂', e₂, rfl⟩
      · obtain ⟨rfl, heq⟩ := List.append_inj' hh rfl
        obtain rfl := List.singleton_inj.mp heq
        exact ⟨p, s, p', s', hrun, hs⟩
      · rw [List.concat_eq_append, ← List.cons_append, ← List.append_assoc] at hh
        obtain ⟨rfl, -⟩ := List.append_inj' hh rfl
        exact ih rfl

/-- A program run alone is one of its runs, where the world it is run against
does what `W` allows. -/
theorem exists_run_eval {R : S → S → Prop} {world : S → (o : Op) → Ans o × S}
    (hworld : ∀ s o, W s o (world s o).1 (world s o).2) (p : Prog S Op Ans ε α) (s : S) :
    ∃ h, Run R W p s (outcome (p.eval world s).1) h (p.eval world s).2 := by
  suffices hsuf : ∀ p₀ s₀ h₀, Run R W p₀ s₀ p h₀ s →
      ∃ h, Run R W p₀ s₀ (outcome (p.eval world s).1) h (p.eval world s).2 from
    hsuf p s [] .refl
  intro p₀ s₀ h₀ hr
  induction p generalizing s h₀ with
  | ret a => exact ⟨h₀, hr⟩
  | throw e => exact ⟨h₀, hr⟩
  | sync upd k ih => exact ih s (upd s) _ (hr.step (.sync upd k s))
  | call o k ih => exact ih _ _ _ (hr.step (.call k (hworld s o)))

end Prog

end Await
