/-
Ownpace/Await/Rely.lean

Programs that each rely on what the others do and promise what they do themselves.

`Relies I R G W Q p s`: whatever becomes of `s` by `R` before each step of `p`, each step keeps
`I` and goes by `G`, and `p` ends as `Q` says, then and ever after.  Where the promise of every
program is among what the others rely on, they run together (`Pool.relies`).  A program may so
know what nobody else changes, such as what it holds a lock on.
-/
import Ownpace.Await.Pool

namespace Await

variable {S Op : Type} {Ans : Op → Type} {ε ε' α β : Type}

/-- Nothing is claimed of an error. -/
def Answers (A : S → α → Prop) (s : S) : Except ε α → Prop
  | .ok a => A s a
  | .error _ => True

/-- Of a result handed on as a value, as of the result. -/
def Caught (A : S → α → Prop) (s : S) (r : Except ε α) : Prop := ∀ a, r = .ok a → A s a

namespace Prog

/-- The program, among others that go by `R`, going by `G` itself. -/
def Relies (I : S → Prop) (R G : S → S → Prop) (W : S → (o : Op) → Ans o → S → Prop)
    (Q : S → Except ε α → Prop) : Prog S Op Ans ε α → S → Prop
  | ret a, s => ∀ s', R s s' → I s' → Q s' (.ok a)
  | throw e, s => ∀ s', R s s' → I s' → Q s' (.error e)
  | sync upd k, s =>
      ∀ s', R s s' → I s' → I (upd s') ∧ G s' (upd s') ∧ (k s').Relies I R G W Q (upd s')
  | call o k, s => ∀ s', R s s' → I s' → ∀ a s'', W s' o a s'' →
      I s'' ∧ G s' s'' ∧ (k a).Relies I R G W Q s''

variable {I : S → Prop} {R G : S → S → Prop} {W : S → (o : Op) → Ans o → S → Prop}
variable {Q Q' : S → Except ε α → Prop} {s s' : S}

theorem Relies.later (htrans : ∀ a b c, R a b → R b c → R a c) {p : Prog S Op Ans ε α}
    (hp : p.Relies I R G W Q s) (hR : R s s') : p.Relies I R G W Q s' := by
  cases p with
  | ret a => exact fun t ht hI => hp t (htrans _ _ _ hR ht) hI
  | throw e => exact fun t ht hI => hp t (htrans _ _ _ hR ht) hI
  | sync upd k => exact fun t ht hI => hp t (htrans _ _ _ hR ht) hI
  | call o k => exact fun t ht hI => hp t (htrans _ _ _ hR ht) hI

theorem Relies.mono {p : Prog S Op Ans ε α} (hp : p.Relies I R G W Q s)
    (hQ : ∀ s r, I s → Q s r → Q' s r) : p.Relies I R G W Q' s := by
  induction p generalizing s with
  | ret a => exact fun t ht hI => hQ t _ hI (hp t ht hI)
  | throw e => exact fun t ht hI => hQ t _ hI (hp t ht hI)
  | sync upd k ih =>
      intro t ht hI
      obtain ⟨hI', hG, hk⟩ := hp t ht hI
      exact ⟨hI', hG, ih t hk⟩
  | call o k ih =>
      intro t ht hI a t' hW
      obtain ⟨hI', hG, hk⟩ := hp t ht hI a t' hW
      exact ⟨hI', hG, ih a hk⟩

/-- Sequencing: the second program goes on from wherever the first one ended. -/
theorem Relies.bind {Q' : S → Except ε β → Prop} {p : Prog S Op Ans ε α}
    {f : α → Prog S Op Ans ε β} (hrefl : ∀ s, R s s) (hI : I s) (hp : p.Relies I R G W Q s)
    (hok : ∀ t a, I t → Q t (.ok a) → (f a).Relies I R G W Q' t)
    (herr : ∀ t e, I t → Q t (.error e) → Q' t (.error e)) :
    (p >>= f).Relies I R G W Q' s := by
  show (p.bind f).Relies I R G W Q' s
  induction p generalizing s with
  | ret a => exact hok s a hI (hp s (hrefl s) hI)
  | throw e => exact fun t ht hI => herr t e hI (hp t ht hI)
  | sync upd k ih =>
      intro t ht hI
      obtain ⟨hI', hG, hk⟩ := hp t ht hI
      exact ⟨hI', hG, ih t hI' hk⟩
  | call o k ih =>
      intro t ht hI a t' hW
      obtain ⟨hI', hG, hk⟩ := hp t ht hI a t' hW
      exact ⟨hI', hG, ih a hI' hk⟩

/-- Catching: the outcome is handed on, thrown or not. -/
theorem relies_attempt {p : Prog S Op Ans ε α} {Q : S → Except ε' (Except ε α) → Prop} :
    p.attempt.Relies I R G W Q s ↔ p.Relies I R G W (fun s r => Q s (.ok r)) s := by
  induction p generalizing s with
  | ret a => rfl
  | throw e => rfl
  | sync upd k ih =>
      show (∀ t, R s t → I t → I (upd t) ∧ G t (upd t) ∧
        (k t).attempt.Relies I R G W Q (upd t)) ↔ _
      simp only [ih]
      rfl
  | call o k ih =>
      show (∀ t, R s t → I t → ∀ a t', W t o a t' → I t' ∧ G t t' ∧
        (k a).attempt.Relies I R G W Q t') ↔ _
      simp only [ih]
      rfl

theorem relies_ofExcept {r : Except ε α} (h : ∀ t, R s t → I t → Q t r) :
    (ofExcept r : Prog S Op Ans ε α).Relies I R G W Q s := by
  cases r with
  | ok a => exact h
  | error e => exact h

theorem relies_ret {A : S → α → Prop} {a : α} (h : ∀ t, R s t → I t → A t a) :
    (ret a : Prog S Op Ans ε α).Relies I R G W (Answers A) s := h

theorem Relies.andThen {A : S → α → Prop} {B : S → β → Prop} {p : Prog S Op Ans ε α}
    {f : α → Prog S Op Ans ε β} (hrefl : ∀ s, R s s) (hs : I s)
    (hp : p.Relies I R G W (Answers A) s)
    (hok : ∀ t a, I t → A t a → (f a).Relies I R G W (Answers B) t) :
    (p >>= f).Relies I R G W (Answers B) s :=
  hp.bind hrefl hs hok fun _ _ _ _ => trivial

/-- The program's outcome, caught: described where it is a value. -/
theorem Relies.caught {A : S → α → Prop} {p : Prog S Op Ans ε α}
    (hp : p.Relies I R G W (Answers A) s) :
    (p.attempt : Prog S Op Ans ε' (Except ε α)).Relies I R G W (Answers (Caught A)) s := by
  refine relies_attempt.mpr (hp.mono fun t r _ hr => ?_)
  rintro a rfl
  exact hr

/-- A call that answers with a value or rejects. -/
theorem relies_awaitWith {Reply : Op → Type} {ε₀ : Type} {onError : ε₀ → ε} {o : Op}
    {W : S → (o : Op) → Except ε₀ (Reply o) → S → Prop} {Q : S → Except ε (Reply o) → Prop}
    (h : ∀ t, R s t → I t → ∀ a t', W t o a t' → I t' ∧ G t t' ∧
      ∀ t'', R t' t'' → I t'' → Q t'' (a.mapError onError)) :
    (awaitWith onError o : Prog S Op _ ε (Reply o)).Relies I R G W Q s := by
  intro t ht hI a t' hW
  obtain ⟨hI', hG, hQ⟩ := h t ht hI a t' hW
  cases a with
  | ok a => exact ⟨hI', hG, hQ⟩
  | error e => exact ⟨hI', hG, hQ⟩

/-- **One program in a world of its own**, that goes by what the program relies on. -/
theorem Run.relies {E : S → S → Prop} (hrefl : ∀ s, R s s)
    (htrans : ∀ a b c, R a b → R b c → R a c) (henv : ∀ s s', I s → E s s' → I s' ∧ R s s')
    {p₀ p : Prog S Op Ans ε α} {s₀ s : S} {h : List (Event S Op Ans)} (h₀ : I s₀)
    (hp₀ : p₀.Relies I R G W Q s₀) (hr : Run E W p₀ s₀ p h s) : I s ∧ p.Relies I R G W Q s := by
  induction hr with
  | refl => exact ⟨h₀, hp₀⟩
  | env _ hE ih =>
      obtain ⟨hI, hp⟩ := ih
      obtain ⟨hI', hR⟩ := henv _ _ hI hE
      exact ⟨hI', hp.later htrans hR⟩
  | step _ hs ih =>
      obtain ⟨hI, hp⟩ := ih
      cases hs with
      | sync upd k =>
          obtain ⟨hI', -, hk⟩ := hp _ (hrefl _) hI
          exact ⟨hI', hk⟩
      | call k hW =>
          obtain ⟨hI', -, hk⟩ := hp _ (hrefl _) hI _ _ hW
          exact ⟨hI', hk⟩

end Prog

namespace Pool

variable {I : S → Prop} {R G : Nat → S → S → Prop} {W : S → (o : Op) → Ans o → S → Prop}
variable {tasks : List (Prog S Op Ans ε Unit)} {s₀ s : S} {pl : Pool S Op Ans ε} {limit : Nat}
variable {Q : Nat → S → Except ε Unit → Prop}

/-- **Each relying on the others, all together**: what one program promises is what each of the
others relies on. -/
theorem relies (hrefl : ∀ i s, R i s s) (htrans : ∀ i a b c, R i a b → R i b c → R i a c)
    (hothers : ∀ i j, i ≠ j → ∀ a b, G i a b → R j a b) (h₀ : I s₀)
    (htasks : ∀ (i : Nat) p, tasks[i]? = some p → p.Relies I (R i) (G i) W (Q i) s₀)
    (h : Reaches W limit tasks s₀ pl s) :
    I s ∧ pl.waiting = tasks.drop pl.started.length ∧
      (∀ i, pl.started.length ≤ i → R i s₀ s) ∧
      ∀ (i : Nat) (t : Task S Op Ans ε), pl.started[i]? = some t →
        t.prog.Relies I (R i) (G i) W (Q i) s := by
  induction h with
  | refl => exact ⟨h₀, rfl, fun i _ => hrefl i s₀, fun i t ht => by cases ht⟩
  | @tail pl s l pl' s' _ hs ih =>
      obtain ⟨hI, hwaiting, hlater, hstarted⟩ := ih
      cases hs with
      | @start p ps ts _ hlim =>
          dsimp only at hwaiting hlater hstarted
          have hget : tasks[ts.length]? = some p := by
            have h0 := congrArg (·[0]?) hwaiting
            simpa using h0.symm
          refine ⟨hI, ?_, fun i hi => ?_, fun i t ht => ?_⟩
          · have htail := congrArg List.tail hwaiting
            simpa [List.tail_drop] using htail
          · rw [List.length_append] at hi
            exact hlater i (by omega)
          · rcases of_started ht with ht | ⟨rfl, rfl⟩
            · exact hstarted i t ht
            · exact (htasks _ p hget).later (htrans _) (hlater _ (Nat.le_refl _))
      | @task ps ts₁ p past ts₂ err _ e p' _ hp =>
          have hhere := hstarted ts₁.length ⟨p, past⟩ (by simp)
          have hnext : I s' ∧ G ts₁.length s s' ∧
              p'.Relies I (R ts₁.length) (G ts₁.length) W (Q ts₁.length) s' := by
            cases hp with
            | sync upd k => exact hhere s (hrefl _ s) hI
            | call k hW => exact hhere s (hrefl _ s) hI _ _ hW
          obtain ⟨hI', hG, hp'⟩ := hnext
          refine ⟨hI', by simpa using hwaiting, fun i hi => ?_, fun i t ht => ?_⟩
          · simp only [List.length_append, List.length_cons] at hi hlater
            exact htrans i _ _ _ (hlater i hi) (hothers _ i (by omega) _ _ hG)
          · rcases of_stepped ⟨p, past⟩ ht with ⟨rfl, rfl⟩ | ⟨hne, ht⟩
            · exact hp'
            · exact (hstarted i t ht).later (htrans i) (hothers _ i (Ne.symm hne) _ _ hG)

end Pool

end Await
