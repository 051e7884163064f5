/-
Ownpace/Await/Exec.lean

Programs run step by step against a world that answers every call.

`exec` runs a program until it ends or is about to make a call that `stop`
picks, and gives the program and the state it got to; a call the world has no
answer for ends it in `none`.  What `exec` computes is a run (`run_exec`), and
programs executed one after the other are one way a pool can go
(`reaches_execAll`): a statement about every run can so be tried on one.  `trace` is what
happens on the way.
-/
import Ownpace.Await.Pool

namespace Await

variable {S Op : Type} {Ans : Op → Type} {ε α : Type}
variable {W : S → (o : Op) → Ans o → S → Prop} {world : S → (o : Op) → Option (Ans o × S)}

namespace Prog

def exec (world : S → (o : Op) → Option (Ans o × S)) (stop : Op → Bool) :
    Prog S Op Ans ε α → S → Option (Prog S Op Ans ε α × S)
  | ret a, s => some (ret a, s)
  | throw e, s => some (throw e, s)
  | sync upd k, s => (k s).exec world stop (upd s)
  | call o k, s =>
    if stop o then some (call o k, s)
    else (world s o).bind fun (a, s') => (k a).exec world stop s'

/-- The call a program is about to make. -/
def next : Prog S Op Ans ε α → Option Op
  | call o _ => some o
  | ret _ => none
  | throw _ => none
  | sync _ _ => none

theorem next_eq_some {p : Prog S Op Ans ε α} {o : Op} (h : p.next = some o) :
    ∃ k, p = call o k := by
  cases p with
  | call o' k =>
      cases h
      exact ⟨k, rfl⟩
  | ret | throw | sync => cases h

theorem run_exec {R : S → S → Prop} {stop : Op → Bool}
    (hworld : ∀ s o a s', world s o = some (a, s') → W s o a s')
    {p₀ p p' : Prog S Op Ans ε α} {s₀ s s' : S} {h : List (Event S Op Ans)}
    (hr : Run R W p₀ s₀ p h s) (he : p.exec world stop s = some (p', s')) :
    ∃ h', Run R W p₀ s₀ p' h' s' := by
  induction p generalizing s h with
  | ret a | throw e =>
      cases he
      exact ⟨h, hr⟩
  | sync upd k ih => exact ih s (hr.step (.sync upd k s)) he
  | call o k ih =>
      rw [exec] at he
      split at he
      · cases he
        exact ⟨h, hr⟩
      · obtain ⟨⟨a, s₁⟩, hw, he⟩ := Option.bind_eq_some_iff.mp he
        exact ih a (hr.step (.call k (hworld _ _ _ _ hw))) he

/-- What happens as a program is run to its end. -/
def trace (world : S → (o : Op) → Option (Ans o × S)) : Prog S Op Ans ε α → S → List (Event S Op Ans)
  | ret _, _ => []
  | throw _, _ => []
  | sync upd k, s => .sync s (upd s) :: (k s).trace world (upd s)
  | call o k, s => (world s o).elim [] fun (a, s') => .call o a :: (k a).trace world s'

theorem run_trace {R : S → S → Prop} (hworld : ∀ s o a s', world s o = some (a, s') → W s o a s')
    {p₀ p p' : Prog S Op Ans ε α} {s₀ s s' : S} {h : List (Event S Op Ans)}
    (hr : Run R W p₀ s₀ p h s) (he : p.exec world (fun _ => false) s = some (p', s')) :
    Run R W p₀ s₀ p' (h ++ p.trace world s) s' := by
  induction p generalizing s h with
  | ret a | throw e =>
      cases he
      rwa [trace, List.append_nil]
  | sync upd k ih =>
      rw [trace, List.append_cons]
      exact ih s (hr.step (.sync upd k s)) he
  | call o k ih =>
      rw [exec, if_neg (by simp)] at he
      obtain ⟨⟨a, s₁⟩, hw, he⟩ := Option.bind_eq_some_iff.mp he
      rw [trace, hw, Option.elim_some, List.append_cons]
      exact ih a (hr.step (.call k (hworld _ _ _ _ hw))) he

/-- What is true of all that the world answers is true of all that happens. -/
theorem of_mem_trace {Q : Event S Op Ans → Prop} (hsync : ∀ s s', Q (.sync s s'))
    (hcall : ∀ s o a s', world s o = some (a, s') → Q (.call o a)) {p : Prog S Op Ans ε α} {s : S}
    {e : Event S Op Ans} (he : e ∈ p.trace world s) : Q e := by
  induction p generalizing s with
  | ret | throw => cases he
  | sync upd k ih =>
      obtain rfl | he := List.mem_cons.mp he
      · exact hsync s (upd s)
      · exact ih s he
  | call o k ih =>
      rw [trace] at he
      cases hw : world s o with
      | none =>
          rw [hw] at he
          cases he
      | some r =>
          rw [hw] at he
          obtain rfl | he := List.mem_cons.mp he
          · exact hcall s o r.1 r.2 hw
          · exact ih r.1 he

end Prog

namespace Pool

/-- The programs one after the other, until one throws. -/
def execAll (world : S → (o : Op) → Option (Ans o × S)) :
    List (Prog S Op Ans ε Unit) → S → Option (Except ε Unit × S)
  | [], s => some (.ok (), s)
  | p :: ps, s => (p.exec world (fun _ => false) s).bind fun
    | (.ret _, s') => execAll world ps s'
    | (.throw e, s') => some (.error e, s')
    | _ => none

variable {limit : Nat} {tasks : List (Prog S Op Ans ε Unit)} {s₀ : S}

/-- The last program started, run by itself. -/
theorem reaches_exec (hworld : ∀ s o a s', world s o = some (a, s') → W s o a s')
    {ps : List (Prog S Op Ans ε Unit)} {ts : List (Task S Op Ans ε)}
    {p p' : Prog S Op Ans ε Unit} {h : List (Event S Op Ans)} {s s' : S}
    (hr : Reaches W limit tasks s₀ ⟨ps, ts ++ [⟨p, h⟩], p.thrown⟩ s)
    (he : p.exec world (fun _ => false) s = some (p', s')) :
    ∃ h', Reaches W limit tasks s₀ ⟨ps, ts ++ [⟨p', h'⟩], p'.thrown⟩ s' := by
  induction p generalizing s h with
  | ret a | throw e =>
      cases he
      exact ⟨h, hr⟩
  | sync upd k ih => exact ih s (hr.tail (.task (.sync upd k s))) he
  | call o k ih =>
      rw [Prog.exec, if_neg (by simp)] at he
      obtain ⟨⟨a, s₁⟩, hw, he⟩ := Option.bind_eq_some_iff.mp he
      exact ih a (hr.tail (.task (.call k (hworld _ _ _ _ hw)))) he

/-- **One after the other** is one way a pool can go. -/
theorem reaches_execAll (hworld : ∀ s o a s', world s o = some (a, s') → W s o a s')
    {r : Except ε Unit} {s s' : S} (he : execAll world tasks s = some (r, s')) :
    ∃ pl, Reaches W limit tasks s pl s' ∧ pl.Joined ∧ r = pl.result := by
  suffices hsuf : ∀ ps ts s₁, (∀ t ∈ ts, ∃ a, (t : Task S Op Ans ε).prog = .ret a) →
      Reaches W limit tasks s ⟨ps, ts, none⟩ s₁ → execAll world ps s₁ = some (r, s') →
      ∃ pl, Reaches W limit tasks s pl s' ∧ pl.Joined ∧ r = pl.result from
    hsuf tasks [] s nofun .refl he
  intro ps
  induction ps with
  | nil =>
      intro ts s₁ hts hr he
      cases he
      refine ⟨_, hr, ⟨fun t ht => ?_, .inl rfl⟩, rfl⟩
      obtain ⟨a, ha⟩ := hts t ht
      rw [ha]
      rfl
  | cons p ps ih =>
      intro ts s₁ hts hr he
      have hidle : inFlight ⟨p :: ps, ts, none⟩ = 0 := by
        refine List.length_eq_zero_iff.mpr (List.filter_eq_nil_iff.mpr fun t ht => ?_)
        obtain ⟨a, ha⟩ := hts t ht
        rw [ha]
        simp [Prog.running]
      have hstart := hr.tail (.start (by rw [hidle]; exact Nat.lt_of_lt_of_le Nat.one_pos (Nat.le_max_left _ _)))
      rw [execAll] at he
      obtain ⟨⟨p', s₂⟩, hexec, he⟩ := Option.bind_eq_some_iff.mp he
      obtain ⟨h', hr'⟩ := reaches_exec hworld hstart hexec
      cases p' with
      | ret a =>
          refine ih (ts ++ [⟨.ret a, h'⟩]) s₂ (fun t ht => ?_) hr' he
          rcases List.mem_append.mp ht with ht | ht
          · exact hts t ht
          · exact ⟨a, by rw [List.mem_singleton.mp ht]⟩
      | throw e =>
          cases he
          refine ⟨_, hr', ⟨fun t ht => ?_, .inr (Option.some_ne_none _)⟩, rfl⟩
          rcases List.mem_append.mp ht with ht | ht
          · obtain ⟨a, ha⟩ := hts t ht
            rw [ha]
            rfl
          · rw [List.mem_singleton.mp ht]
            rfl
      | sync | call => cases he

end Pool

end Await
