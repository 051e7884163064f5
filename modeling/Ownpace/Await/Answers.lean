/-
Ownpace/Await/Answers.lean

What a program among others answers, where nothing is claimed of how it fails.

`Answers A` is the outcome of a program of which only the values returned are described, by
`A`, now and whatever becomes of the state.  Such programs are put together one after the other
(`Among.andThen`) and in a list (`among_each`).
-/
import Ownpace.Await.Among

namespace Await

variable {S Op : Type} {Ans : Op → Type} {ε ε' α β γ : Type}
variable {I : S → Prop} {R : S → S → Prop} {W : S → (o : Op) → Ans o → S → Prop}

namespace Prog

variable {s : S} {A A' : S → α → Prop} {B : S → β → Prop}

theorem among_ret {a : α} (h : ∀ t, R s t → I t → A t a) :
    (ret a : Prog S Op Ans ε α).Among I R W (Answers A) s := h

theorem among_throw {e : ε} : (throw e : Prog S Op Ans ε α).Among I R W (Answers A) s :=
  fun _ _ _ => trivial

theorem among_ofExcept {r : Except ε α} (h : ∀ t a, R s t → I t → r = .ok a → A t a) :
    (ofExcept r : Prog S Op Ans ε α).Among I R W (Answers A) s := by
  cases r with
  | ok a => exact fun t hR hI => h t a hR hI rfl
  | error e => exact among_throw

theorem Among.imp {p : Prog S Op Ans ε α} (hp : p.Among I R W (Answers A) s)
    (h : ∀ t a, A t a → A' t a) : p.Among I R W (Answers A') s :=
  hp.mono fun t r _ hr => by
    cases r with
    | ok a => exact h t a hr
    | error e => trivial

/-- The program's outcome, caught: described where it is a value. -/
theorem Among.caught {p : Prog S Op Ans ε α} (hp : p.Among I R W (Answers A) s) :
    (p.attempt : Prog S Op Ans ε' (Except ε α)).Among I R W (Answers (Caught A)) s := by
  refine among_attempt.mpr (hp.mono fun t r _ hr => ?_)
  rintro a rfl
  exact hr

theorem Among.andThen (hrefl : ∀ s, R s s) (htrans : ∀ a b c, R a b → R b c → R a c)
    {p : Prog S Op Ans ε α} {f : α → Prog S Op Ans ε β} (hs : I s)
    (hp : p.Among I R W (Answers A) s)
    (hok : ∀ t a, R s t → I t → A t a → (f a).Among I R W (Answers B) t) :
    (p >>= f).Among I R W (Answers B) s :=
  hp.bind hrefl htrans hs hok fun _ _ _ _ _ => trivial

/-- A step of the program's own. -/
theorem among_step {upd : S → S} (h : ∀ t, R s t → I t → I (upd t) ∧ R t (upd t)) :
    (modify upd : Prog S Op Ans ε Unit).Among I R W (Answers fun _ _ => True) s := by
  intro t hR hI
  obtain ⟨hI', hR'⟩ := h t hR hI
  exact ⟨hI', hR', fun _ _ _ => trivial⟩

/-- One program for each element, one after the other. -/
theorem among_each (hrefl : ∀ s, R s s) (htrans : ∀ a b c, R a b → R b c → R a c)
    {run : γ → Prog S Op Ans ε Unit} {l : List γ}
    (h : ∀ c ∈ l, ∀ t, I t → (run c).Among I R W (Answers fun _ _ => True) t) (hs : I s) :
    (l.foldr (fun c rest => run c >>= fun _ => rest) (ret ())).Among I R W
      (Answers fun _ _ => True) s := by
  induction l generalizing s with
  | nil => exact among_ret fun _ _ _ => trivial
  | cons c l ih =>
      apply (h c List.mem_cons_self s hs).andThen hrefl htrans hs
      intro t _ _ ht _
      exact ih (fun c' hc' => h c' (List.mem_cons_of_mem c hc')) ht

end Prog

end Await
