/-
Ownpace/Await/Among.lean

Programs over a state that only moves on.

`R` is a relation between a state and what may become of it, and `I` holds of every state.
`Among I R W Q p s`: whatever becomes of `s` by `R` before each step, each step of `p` keeps
`I` and goes by `R` itself, and `p` ends as `Q` says, then and ever after.

What is so stays so, and so programs that are each among the others run together
(`Pool.among`): one walk of each program is all there is to prove.
-/
import Ownpace.Await.Rely

namespace Await

variable {S Op : Type} {Ans : Op → Type} {ε ε' α β : Type}

namespace Prog

/-- The program, among others that move the state on by `R`. -/
def Among (I : S → Prop) (R : S → S → Prop) (W : S → (o : Op) → Ans o → S → Prop)
    (Q : S → Except ε α → Prop) : Prog S Op Ans ε α → S → Prop
  | ret a, s => ∀ s', R s s' → I s' → Q s' (.ok a)
  | throw e, s => ∀ s', R s s' → I s' → Q s' (.error e)
  | sync upd k, s =>
      ∀ s', R s s' → I s' → I (upd s') ∧ R s' (upd s') ∧ (k s').Among I R W Q (upd s')
  | call o k, s => ∀ s', R s s' → I s' → ∀ a s'', W s' o a s'' →
      I s'' ∧ R s' s'' ∧ (k a).Among I R W Q s''

variable {I : S → Prop} {R : S → S → Prop} {W : S → (o : Op) → Ans o → S → Prop}
variable {Q Q' : S → Except ε α → Prop} {s s' : S}

/-- It promises what it relies on. -/
theorem among_iff_relies {p : Prog S Op Ans ε α} :
    p.Among I R W Q s ↔ p.Relies I R R W Q s := by
  induction p generalizing s with
  | ret | throw => rfl
  | sync upd k ih => simp only [Among, Relies, ih]
  | call o k ih => simp only [Among, Relies, ih]

theorem Among.mono {p : Prog S Op Ans ε α} (hp : p.Among I R W Q s)
    (hQ : ∀ s r, I s → Q s r → Q' s r) : p.Among I R W Q' s :=
  among_iff_relies.mpr ((among_iff_relies.mp hp).mono hQ)

/-- Sequencing: the second program goes on from wherever the first one ended. -/
theorem Among.bind (hrefl : ∀ s, R s s) (htrans : ∀ a b c, R a b → R b c → R a c)
    {Q' : S → Except ε β → Prop} {p : Prog S Op Ans ε α} {f : α → Prog S Op Ans ε β} (hI : I s)
    (hp : p.Among I R W Q s)
    (hok : ∀ t a, R s t → I t → Q t (.ok a) → (f a).Among I R W Q' t)
    (herr : ∀ t e, R s t → I t → Q t (.error e) → Q' t (.error e)) :
    (p >>= f).Among I R W Q' s := by
  show (p.bind f).Among I R W Q' s
  induction p generalizing s with
  | ret a => exact hok s a (hrefl s) hI (hp s (hrefl s) hI)
  | throw e => exact fun t ht hI => herr t e ht hI (hp t ht hI)
  | sync upd k ih =>
      intro t ht hI
      obtain ⟨hI', hR', hk⟩ := hp t ht hI
      have hpast := htrans _ _ _ ht hR'
      exact ⟨hI', hR', ih t hI' hk (fun t' a ht' => hok t' a (htrans _ _ _ hpast ht'))
        fun t' e ht' => herr t' e (htrans _ _ _ hpast ht')⟩
  | call o k ih =>
      intro t ht hI a t' hW
      obtain ⟨hI', hR', hk⟩ := hp t ht hI a t' hW
      have hpast := htrans _ _ _ ht hR'
      exact ⟨hI', hR', ih a hI' hk (fun t' a ht' => hok t' a (htrans _ _ _ hpast ht'))
        fun t' e ht' => herr t' e (htrans _ _ _ hpast ht')⟩

/-- Catching: the outcome is handed on, thrown or not. -/
theorem among_attempt {p : Prog S Op Ans ε α} {Q : S → Except ε' (Except ε α) → Prop} :
    p.attempt.Among I R W Q s ↔ p.Among I R W (fun s r => Q s (.ok r)) s := by
  rw [among_iff_relies, relies_attempt, among_iff_relies]

end Prog

namespace Pool

variable {I : S → Prop} {R : S → S → Prop} {W : S → (o : Op) → Ans o → S → Prop} {limit : Nat}
variable {tasks : List (Prog S Op Ans ε Unit)} {s₀ s : S} {pl : Pool S Op Ans ε}
variable {Q : Nat → S → Except ε Unit → Prop}

/-- **Each among the others, all together.** -/
theorem among (hrefl : ∀ s, R s s) (htrans : ∀ a b c, R a b → R b c → R a c) (h₀ : I s₀)
    (htasks : ∀ i (p : Prog S Op Ans ε Unit), tasks[i]? = some p → p.Among I R W (Q i) s₀)
    (h : Reaches W limit tasks s₀ pl s) :
    I s ∧ R s₀ s ∧ pl.waiting = tasks.drop pl.started.length ∧
      ∀ i (t : Task S Op Ans ε), pl.started[i]? = some t → t.prog.Among I R W (Q i) s := by
  obtain ⟨hI, hwaiting, hlater, hstarted⟩ := @relies _ _ _ _ I (fun _ => R) (fun _ => R) W _ _ _ _ _ _
    (fun _ => hrefl) (fun _ => htrans) (fun _ _ _ _ _ hR => hR) h₀
    (fun i p hp => Prog.among_iff_relies.mp (htasks i p hp)) h
  exact ⟨hI, hlater _ (Nat.le_refl _), hwaiting,
    fun i t ht => Prog.among_iff_relies.mpr (hstarted i t ht)⟩

end Pool

end Await
