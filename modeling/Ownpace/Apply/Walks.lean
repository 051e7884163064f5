/-
Ownpace/Apply/Walks.lean

The reading half of the apply functions, walked.

`Reads p P`: the program `p` only ever awaits calls that read, and what it
returns is described by `P` and the answers it got.  Each gate has one such
spec; the walks of the apply functions cite them and never open a gate.
-/
import Ownpace.Await.Run
import Ownpace.Apply.Agreement

namespace Ownpace

open Await Store

/-- One step of an apply function, as its path records it. -/
abbrev ApplyEvent (S : Type) : Type := Event S ApplyOp ApplyOp.Ans

/-- The event of an answered call. -/
abbrev answered {S : Type} (o : ApplyOp) (a : o.Reply) : ApplyEvent S := .call o (.ok a)

/-- The step of a call that reads. -/
def IsRead {S : Type} (e : ApplyEvent S) : Prop :=
  ∃ o a, e = .call o a ∧ o.reads = true

section Reads

variable {S α β : Type} {deps : ApplyDeletionDeps}

/-- A program that only reads, and what is known of its result. -/
def Reads (p : Apply S α) (P : List (ApplyEvent S) → α → Prop) : Prop :=
  p.Always (fun _ e => IsRead e)
    (fun t r => (∀ e ∈ t, IsRead e) ∧ ∀ a, r = .ok a → P t a) []

theorem Reads.seq {p : Apply S α} {P : List (ApplyEvent S) → α → Prop}
    {f : α → Apply S β} {J : List (ApplyEvent S) → ApplyEvent S → Prop}
    {D : List (ApplyEvent S) → Except String β → Prop} {h : List (ApplyEvent S)}
    (hp : Reads p P) (hJ : ∀ h e, IsRead e → J h e)
    (herr : ∀ t e, (∀ e ∈ t, IsRead e) → D (h ++ t) (.error e))
    (hok : ∀ t a, (∀ e ∈ t, IsRead e) → P t a → (f a).Always J D (h ++ t)) :
    (p >>= f).Always J D h :=
  Prog.Always.seq hp (fun _ _ he => hJ _ _ he)
    (fun t a ht => hok t a ht.1 (ht.2 a rfl)) fun t e ht => herr t e ht.1

theorem Reads.bind {p : Apply S α} {P : List (ApplyEvent S) → α → Prop}
    {Q : List (ApplyEvent S) → β → Prop} {f : α → Apply S β} (hp : Reads p P)
    (hf : ∀ t a, P t a → Reads (f a) fun t' b => Q (t ++ t') b) : Reads (p >>= f) Q := by
  refine hp.seq (fun _ _ he => he) (fun t e ht => ⟨ht, nofun⟩) fun t a ht hP => ?_
  rw [List.nil_append, ← List.append_nil t]
  refine Prog.Always.after (hf t a hP) (fun _ _ he => he) fun t' r hr => ?_
  exact ⟨fun e he => (List.mem_append.mp he).elim (ht e) (hr.1 e), hr.2⟩

/-- The deletion breaker let the press through: the corpus is small, or the
pending deletions are within the fraction. -/
def BreakerPassed (deps : ApplyDeletionDeps) (h : List (ApplyEvent S)) : Prop :=
  ∃ placed, answered (.ledger (.placedItems deps.domain)) placed ∈ h ∧
    (placed.length < MASS_DELETION_MIN_ITEMS ∨
      ∃ deletions, answered (.ledger (.listDeletions (some deps.domain))) deletions ∈ h ∧
        withinFraction
          (deletions.filter fun d => d.confirmed && d.acknowledgedAt.isNone).length
          placed.length = true)

theorem BreakerPassed.mono {h h' : List (ApplyEvent S)} (hp : BreakerPassed deps h)
    (hsub : h ⊆ h') : BreakerPassed deps h' := by
  obtain ⟨placed, hmem, hrest⟩ := hp
  refine ⟨placed, hsub hmem, hrest.imp id ?_⟩
  rintro ⟨deletions, hmem', hw⟩
  exact ⟨deletions, hsub hmem', hw⟩

end Reads

end Ownpace
