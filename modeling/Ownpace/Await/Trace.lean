/-
Ownpace/Await/Trace.lean

The events of a pool in the order they happened.

`Traced` is `Pool.Reaches` that writes down each event and whose it was.  A
program's own path is its part of the trace (`Traced.path`), an event of the
trace is a step of the pool that was traced up to it (`Traced.moment`), and the
rule of the pool holds of the trace (`Traced.rule`): what one justified event
keeps, of all that has happened and of the state, every run keeps.
-/
import Mathlib.Data.List.Induction
import Ownpace.Await.Exec

namespace Await

namespace Pool

variable {S Op : Type} {Ans : Op → Type} {ε : Type}
variable {W : S → (o : Op) → Ans o → S → Prop} {limit : Nat}
variable {tasks : List (Prog S Op Ans ε Unit)} {s₀ s : S} {pl : Pool S Op Ans ε}

/-- An event, and whose it was. -/
abbrev Label (S Op : Type) (Ans : Op → Type) : Type := Nat × Event S Op Ans

/-- One program's own events. -/
def own (i : Nat) (trace : List (Label S Op Ans)) : List (Event S Op Ans) :=
  (trace.filter fun l => l.1 = i).map Prod.snd

@[simp] theorem own_nil (i : Nat) : own i ([] : List (Label S Op Ans)) = [] := rfl

theorem own_append (i : Nat) (trace trace' : List (Label S Op Ans)) :
    own i (trace ++ trace') = own i trace ++ own i trace' := by
  rw [own, List.filter_append, List.map_append]
  rfl

theorem own_concat (i j : Nat) (trace : List (Label S Op Ans)) (e : Event S Op Ans) :
    own i (trace ++ [(j, e)]) = if j = i then own i trace ++ [e] else own i trace := by
  rw [own_append]
  by_cases h : j = i
  · rw [if_pos h]
    simp [own, h]
  · rw [if_neg h]
    simp [own, h]

theorem mem_own {i : Nat} {trace : List (Label S Op Ans)} {e : Event S Op Ans} :
    e ∈ own i trace ↔ (i, e) ∈ trace := by
  simp only [own, List.mem_map, List.mem_filter, decide_eq_true_eq]
  constructor
  · rintro ⟨⟨j, e'⟩, ⟨hmem, rfl⟩, rfl⟩
    exact hmem
  · intro h
    exact ⟨(i, e), ⟨h, rfl⟩, rfl⟩

/-- The last of one program's events, in the trace. -/
theorem own_eq_concat {i : Nat} {trace : List (Label S Op Ans)} {past : List (Event S Op Ans)}
    {e : Event S Op Ans} (h : own i trace = past ++ [e]) :
    ∃ before after, trace = before ++ (i, e) :: after ∧ own i before = past ∧ own i after = [] := by
  induction trace using List.reverseRecOn generalizing past e with
  | nil => simp at h
  | append_singleton trace l ih =>
      obtain ⟨j, e'⟩ := l
      rw [own_concat] at h
      by_cases hj : j = i
      · rw [if_pos hj] at h
        obtain ⟨rfl, he⟩ := List.append_inj' h rfl
        obtain rfl := List.singleton_inj.mp he
        subst hj
        exact ⟨trace, [], rfl, rfl, rfl⟩
      · rw [if_neg hj] at h
        obtain ⟨before, after, rfl, hbefore, hafter⟩ := ih h
        refine ⟨before, after ++ [(j, e')], by simp, hbefore, ?_⟩
        rw [own_concat, if_neg hj, hafter]

/-- The pools reachable from the one that has started nothing, with all that happened. -/
inductive Traced (W : S → (o : Op) → Ans o → S → Prop) (limit : Nat)
    (tasks : List (Prog S Op Ans ε Unit)) (s₀ : S) :
    Pool S Op Ans ε → S → List (Label S Op Ans) → Prop
  | refl : Traced W limit tasks s₀ (init tasks) s₀ []
  | start {pl s pl' s' trace} : Traced W limit tasks s₀ pl s trace →
      Step W limit pl s none pl' s' → Traced W limit tasks s₀ pl' s' trace
  | task {pl s l pl' s' trace} : Traced W limit tasks s₀ pl s trace →
      Step W limit pl s (some l) pl' s' → Traced W limit tasks s₀ pl' s' (trace ++ [l])

variable {trace : List (Label S Op Ans)}

theorem Traced.reaches (h : Traced W limit tasks s₀ pl s trace) :
    Reaches W limit tasks s₀ pl s := by
  induction h with
  | refl => exact .refl
  | start _ hs ih => exact ih.tail hs
  | task _ hs ih => exact ih.tail hs

/-- **A program's path is its part of the trace.** -/
theorem Traced.path (h : Traced W limit tasks s₀ pl s trace) (i : Nat) :
    pl.path i = own i trace := by
  induction h with
  | refl => rfl
  | @start pl s pl' s' trace _ hs ih =>
      rw [← ih]
      cases hs with
      | @start p ps ts s hlim =>
          exact congrFun (path_start ⟨p :: ps, ts, none⟩ p ps p.thrown) i
  | @task pl s l pl' s' trace _ hs ih =>
      cases hs with
      | @task ps ts₁ p hpast ts₂ err s e p' s' hp =>
          rw [own_concat, ← ih, path_task ps ts₁ ts₂ p p' hpast e err]
          rcases eq_or_ne i ts₁.length with rfl | hne
          · simp
          · simp [hne, Ne.symm hne]

/-- The moment an event of the trace happened. -/
theorem Traced.split {past rest : List (Label S Op Ans)} {l : Label S Op Ans}
    (h : Traced W limit tasks s₀ pl s trace) (heq : trace = past ++ l :: rest) :
    ∃ pl₁ s₁ pl₂ s₂, Traced W limit tasks s₀ pl₁ s₁ past ∧ Step W limit pl₁ s₁ (some l) pl₂ s₂ := by
  induction h generalizing rest with
  | refl => simp at heq
  | start _ _ ih => exact ih heq
  | @task pl s l' pl' s' trace htraced hs ih =>
      rcases List.eq_nil_or_concat rest with rfl | ⟨rest', l₂, rfl⟩
      · obtain ⟨rfl, hone⟩ := List.append_inj' heq rfl
        obtain rfl := List.singleton_inj.mp hone
        exact ⟨pl, s, pl', s', htraced, hs⟩
      · rw [List.concat_eq_append, ← List.cons_append, ← List.append_assoc] at heq
        obtain ⟨rfl, -⟩ := List.append_inj' heq rfl
        exact ih rfl

section Rule

variable {J : Nat → List (Event S Op Ans) → Event S Op Ans → Prop}
variable {D : Nat → List (Event S Op Ans) → Except ε Unit → Prop}

theorem Traced.ok
    (hspec : ∀ i (p : Prog S Op Ans ε Unit), tasks[i]? = some p → p.Always (J i) (D i) [])
    (h : Traced W limit tasks s₀ pl s trace) : Ok tasks J D (fun _ _ => True) pl s :=
  rule hspec (fun _ _ _ _ _ _ _ _ _ => trivial) trivial h.reaches

/-- What a step of the pool is, of programs that keep to `J`. -/
theorem Traced.justified
    (hspec : ∀ i (p : Prog S Op Ans ε Unit), tasks[i]? = some p → p.Always (J i) (D i) [])
    (h : Traced W limit tasks s₀ pl s trace) {l : Label S Op Ans} {pl' : Pool S Op Ans ε} {s' : S}
    (hs : Step W limit pl s (some l) pl' s') :
    l.1 < tasks.length ∧ J l.1 (own l.1 trace) l.2 ∧ Fires W s l.2 s' := by
  have hok := h.ok hspec
  cases hs with
  | @task ps ts₁ p hpast ts₂ err s e p' s' hp =>
      have hhere : (ts₁ ++ ⟨p, hpast⟩ :: ts₂ : List (Task S Op Ans ε))[ts₁.length]? =
          some ⟨p, hpast⟩ := by simp
      have hpath : own ts₁.length trace = hpast := by
        rw [← h.path, path_of_getElem hhere]
      refine ⟨?_, ?_, hp.fires⟩
      · have hle := hok.started_le
        simp at hle
        omega
      · show J ts₁.length (own ts₁.length trace) e
        rw [hpath]
        exact (hp.always (hok.walks _ _ hhere)).1

/-- An event of the trace, the moment it happened. -/
theorem Traced.moment
    (hspec : ∀ i (p : Prog S Op Ans ε Unit), tasks[i]? = some p → p.Always (J i) (D i) [])
    (h : Traced W limit tasks s₀ pl s trace) {past rest : List (Label S Op Ans)}
    {l : Label S Op Ans} (heq : trace = past ++ l :: rest) :
    ∃ pl₁ s₁ s₂, Traced W limit tasks s₀ pl₁ s₁ past ∧ l.1 < tasks.length ∧
      J l.1 (own l.1 past) l.2 ∧ Fires W s₁ l.2 s₂ := by
  obtain ⟨pl₁, s₁, pl₂, s₂, hpast, hs⟩ := h.split heq
  obtain ⟨hlt, hJ, hfires⟩ := hpast.justified hspec hs
  exact ⟨pl₁, s₁, s₂, hpast, hlt, hJ, hfires⟩

/-- **The rule of the pool, of the trace.** -/
theorem Traced.rule {I : List (Label S Op Ans) → S → Prop}
    (hspec : ∀ i (p : Prog S Op Ans ε Unit), tasks[i]? = some p → p.Always (J i) (D i) [])
    (h₀ : I [] s₀)
    (hstep : ∀ trace s i e s', i < tasks.length → I trace s → J i (own i trace) e →
      Fires W s e s' → I (trace ++ [(i, e)]) s')
    (h : Traced W limit tasks s₀ pl s trace) : I trace s := by
  induction h with
  | refl => exact h₀
  | start _ hs ih =>
      cases hs with
      | start => exact ih
  | @task pl s l pl' s' trace htraced hs ih =>
      obtain ⟨hlt, hJ, hfires⟩ := htraced.justified hspec hs
      exact hstep trace s l.1 l.2 s' hlt ih hJ hfires

/-- Programs none of which can throw leave no error behind. -/
theorem Traced.firstError
    (hspec : ∀ i (p : Prog S Op Ans ε Unit), tasks[i]? = some p → p.Always (J i) (D i) [])
    (hnever : ∀ i path e, ¬ D i path (.error e)) (h : Traced W limit tasks s₀ pl s trace) :
    pl.firstError = none := by
  have hquiet {i : Nat} {p : Prog S Op Ans ε Unit} {path : List (Event S Op Ans)}
      (hp : p.Always (J i) (D i) path) : p.thrown = none := by
    cases p with
    | throw e => exact (hnever i path e hp).elim
    | ret | sync | call => rfl
  induction h with
  | refl => rfl
  | start htraced hs ih =>
      have hnext := (htraced.start hs).ok hspec
      cases hs with
      | @start p ps ts s hlim =>
          exact hquiet (hnext.walks ts.length ⟨p, []⟩ List.getElem?_concat_length)
  | task htraced hs ih =>
      have hnext := (htraced.task hs).ok hspec
      cases hs with
      | @task ps ts₁ p path ts₂ err s e p' s' hp =>
          obtain rfl : err = none := ih
          exact hquiet (hnext.walks ts₁.length ⟨p', path ++ [e]⟩ (by simp))

/-- **What a joined pool leaves**: every program has ended, none of them by throwing. -/
theorem Traced.ended
    (hspec : ∀ i (p : Prog S Op Ans ε Unit), tasks[i]? = some p → p.Always (J i) (D i) [])
    (hnever : ∀ i path e, ¬ D i path (.error e)) (h : Traced W limit tasks s₀ pl s trace)
    (hjoined : pl.Joined) {i : Nat} (hi : i < tasks.length) : D i (own i trace) (.ok ()) := by
  have hok := h.ok hspec
  have hwaiting : pl.waiting = [] := by
    rcases hjoined.2 with hwaiting | herror
    · exact hwaiting
    · exact absurd (h.firstError hspec hnever) herror
  have hlt : i < pl.started.length := by
    have hdrop := hok.waiting.symm.trans hwaiting
    exact Nat.lt_of_lt_of_le hi (List.drop_eq_nil_iff.mp hdrop)
  have hget : pl.started[i]? = some pl.started[i] := List.getElem?_eq_getElem hlt
  have hwalk := hok.walks i _ hget
  have hidle := hjoined.1 _ (List.getElem_mem hlt)
  rw [← h.path, path_of_getElem hget]
  revert hwalk hidle
  generalize pl.started[i] = t
  obtain ⟨p, path⟩ := t
  intro hwalk hidle
  cases p with
  | ret a => exact hwalk
  | throw e => exact (hnever i path e hwalk).elim
  | sync | call => cases hidle

end Rule

/-- One program alone, run to its end. -/
theorem traced_exec {world : S → (o : Op) → Option (Ans o × S)}
    (hworld : ∀ s o a s', world s o = some (a, s') → W s o a s')
    {p p' : Prog S Op Ans ε Unit} {s s' : S}
    (he : p.exec world (fun _ => false) s = some (p', s')) :
    Traced W limit [p] s ⟨[], [⟨p', p.trace world s⟩], p'.thrown⟩ s'
      ((p.trace world s).map fun e => (0, e)) := by
  suffices hsuf : ∀ (p₀ : Prog S Op Ans ε Unit) (s₀ : S) (path : List (Event S Op Ans)),
      Traced W limit [p₀] s₀ ⟨[], [⟨p, path⟩], p.thrown⟩ s (path.map fun e => (0, e)) →
      Traced W limit [p₀] s₀ ⟨[], [⟨p', path ++ p.trace world s⟩], p'.thrown⟩ s'
        ((path ++ p.trace world s).map fun e => (0, e)) by
    have hstart : Step W limit ⟨[p], [], none⟩ s none ⟨[], [⟨p, []⟩], p.thrown⟩ s :=
      .start (Nat.lt_of_lt_of_le Nat.one_pos (Nat.le_max_left _ _))
    exact hsuf p s [] (.start .refl hstart)
  intro p₀ s₀
  -- One more event of the program that runs.
  have hone {q q' : Prog S Op Ans ε Unit} {t t' : S} {path : List (Event S Op Ans)}
      {e : Event S Op Ans} (hq : q.thrown = none) (hs : Prog.Step W q t e q' t')
      (h : Traced W limit [p₀] s₀ ⟨[], [⟨q, path⟩], q.thrown⟩ t (path.map fun e => (0, e))) :
      Traced W limit [p₀] s₀ ⟨[], [⟨q', path ++ [e]⟩], q'.thrown⟩ t'
        ((path ++ [e]).map fun e => (0, e)) := by
    rw [hq] at h
    have htask : Step W limit ⟨[], [] ++ ⟨q, path⟩ :: [], none⟩ t (some (0, e))
        ⟨[], [] ++ ⟨q', path ++ [e]⟩ :: [], none <|> q'.thrown⟩ t' := .task hs
    have hnone : (none <|> q'.thrown) = q'.thrown := by
      cases q'.thrown <;> rfl
    rw [hnone] at htask
    rw [List.map_append]
    exact h.task htask
  induction p generalizing s with
  | ret a | throw e =>
      intro path h
      cases he
      rwa [Prog.trace, List.append_nil]
  | sync upd k ih =>
      intro path h
      rw [Prog.trace, List.append_cons]
      exact ih s he _ (hone rfl (.sync upd k s) h)
  | call o k ih =>
      intro path h
      rw [Prog.exec, if_neg (by simp)] at he
      obtain ⟨⟨a, s₁⟩, hw, he⟩ := Option.bind_eq_some_iff.mp he
      rw [Prog.trace, hw, Option.elim_some, List.append_cons]
      exact ih a he _ (hone rfl (.call k (hworld _ _ _ _ hw)) h)

end Pool

end Await
