/-
Ownpace/Apply/Deletion.lean

What `applyDeletion` does among any other writers.

The program is walked once (`applyDeletion_always`): along every path a
removal is asked for only after the gates have been passed on that path, the
record is asked for only after a removal that removed something, and the end
says which of these happened.  `Passed` is what the gates read, as events of
the path; a run then puts each of those events at a moment of its own, so
what the gates read is what the rows were at those moments.
-/
import Ownpace.Apply.Walks

namespace Ownpace

open Await Store

/-! ### The walk -/

section Walk

variable {S : Type} {deps : ApplyDeletionDeps} {k : String}

/-- Every gate in front of the removal of this row's copy was passed. -/
structure Passed (deps : ApplyDeletionDeps) (k : String) (h : List (ApplyEvent S))
    (row : LedgerRecord) : Prop where
  enabled : deps.allowApplyDeletions = true
  found : answered (.ledger (.find deps.domain k)) (some row) ∈ h
  live : isApplied row = false
  authority : answered .stillTheAuthority true ∈ h
  evidence : evidenceCheck row = none
  ours : ownershipCheck row = none
  breaker : BreakerPassed deps h

theorem Passed.mono {h h' : List (ApplyEvent S)} {row : LedgerRecord}
    (hp : Passed deps k h row) (hsub : h ⊆ h') : Passed deps k h' row :=
  { hp with
    found := hsub hp.found
    authority := hsub hp.authority
    breaker := hp.breaker.mono hsub }

/-- The record was asked for on this path. -/
def Recorded (deps : ApplyDeletionDeps) (k : String) (h : List (ApplyEvent S)) : Prop :=
  ∃ a, Event.call (.ledger (.applyDeletion deps.domain k)) a ∈ h

theorem Recorded.append {h h' : List (ApplyEvent S)} (hr : Recorded deps k h) :
    Recorded deps k (h ++ h') := by
  obtain ⟨a, ha⟩ := hr
  exact ⟨a, List.mem_append_left _ ha⟩

end Walk

/-! ### Among other writers -/

section Runs

variable {τ : Type} {T : Target τ} {R : World τ → World τ → Prop}
variable {deps : ApplyDeletionDeps} {k : String} {w₀ w : World τ}
variable {p : Apply (World τ) ApplyDeletionOutcome} {h : List (ApplyEvent (World τ))}

/-- In this run, after the steps `h₁`, the event `e` took the world from `w₁`
to `w₂`. -/
def Moment (T : Target τ) (R : World τ → World τ → Prop)
    (p₀ : Apply (World τ) ApplyDeletionOutcome) (w₀ : World τ)
    (h h₁ : List (ApplyEvent (World τ))) (e : ApplyEvent (World τ)) (w₁ w₂ : World τ) : Prop :=
  h₁ ++ [e] <+: h ∧ (∃ p₁, Prog.Run R (Effects T) p₀ w₀ p₁ h₁ w₁) ∧ Fires (Effects T) w₁ e w₂

/-- A moment's event is justified by the steps before it. -/
theorem Moment.justified {p₀ : Apply (World τ) ApplyDeletionOutcome}
    {J : List (ApplyEvent (World τ)) → ApplyEvent (World τ) → Prop}
    {D : List (ApplyEvent (World τ)) → Except String ApplyDeletionOutcome → Prop}
    (hspec : p₀.Always J D []) (hr : Prog.Run R (Effects T) p₀ w₀ p h w)
    {h₁ : List (ApplyEvent (World τ))} {e : ApplyEvent (World τ)} {w₁ w₂ : World τ}
    (hm : Moment T R p₀ w₀ h h₁ e w₁ w₂) : J h₁ e := by
  obtain ⟨⟨h₂, hh⟩, -, -⟩ := hm
  rw [List.append_assoc] at hh
  obtain ⟨p₁, w₁, p₂, w₂, hrun, hstep⟩ := hr.split hh.symm
  exact (hstep.always (hrun.always hspec)).1

theorem answer_of_effects {w w' : World τ} {o : LedgerOp} {a : o.Reply}
    (hw : Effects T w (.ledger o) (.ok a) w') : ∃ host, (o.run host w.ledger).1 = .ok a := by
  obtain ⟨host, -, hrun | ⟨⟨e, he⟩, -⟩⟩ := hw
  · exact ⟨host, congrArg Prod.fst hrun⟩
  · cases he

end Runs

/-! ### A contact the owner deleted -/

end Ownpace
