/-
Ownpace/Store/Walk.lean

A walk with a queue: look at what was seen and not yet looked at, in the order
it was seen, until nothing is left.

Each thing is looked at once (`walk_spec`), and those are what is reached from
where the walk began.  In a finite universe the walk ends (`walk_ends`).
-/
import Mathlib.Data.List.Perm.Subperm
import Mathlib.Logic.Relation

namespace Store

variable {α β ε : Type*} [DecidableEq α]

/-- Those of a list not seen before, each once. -/
def fresh (seen : List α) : List α → List α
  | [] => []
  | a :: found => if a ∈ seen then fresh seen found else a :: fresh (a :: seen) found

/-- Look at each of a queue.  What is found there goes behind the queue, if it
was not seen before; `spent` is answered where the steps given do not do. -/
def walk (look : α → Except ε (List α × β)) (spent : ε) :
    Nat → List α → List α → Except ε (List (α × β))
  | _, [], _ => .ok []
  | 0, _ :: _, _ => .error spent
  | steps + 1, a :: queue, seen =>
    match look a with
    | .error e => .error e
    | .ok (found, here) =>
      match walk look spent steps (queue ++ fresh seen found) (fresh seen found ++ seen) with
      | .error e => .error e
      | .ok visits => .ok ((a, here) :: visits)

/-- One is found where the other is looked at. -/
def Leads (look : α → Except ε (List α × β)) (a b : α) : Prop :=
  ∃ found here, look a = .ok (found, here) ∧ b ∈ found

variable {look : α → Except ε (List α × β)} {spent : ε} {seen found queue : List α}
  {visits : List (α × β)} {a : α}

theorem mem_fresh : a ∈ fresh seen found ↔ a ∈ found ∧ a ∉ seen := by
  induction found generalizing seen with
  | nil => simp [fresh]
  | cons b found ih =>
      unfold fresh
      split
      · next hb =>
          rw [ih, List.mem_cons]
          constructor
          · rintro ⟨hmem, hnew⟩
            exact ⟨.inr hmem, hnew⟩
          · rintro ⟨rfl | hmem, hnew⟩
            · exact absurd hb hnew
            · exact ⟨hmem, hnew⟩
      · next hb =>
          rw [List.mem_cons, ih, List.mem_cons, List.mem_cons, not_or]
          constructor
          · rintro (rfl | ⟨hmem, -, hnew⟩)
            · exact ⟨.inl rfl, hb⟩
            · exact ⟨.inr hmem, hnew⟩
          · rintro ⟨rfl | hmem, hnew⟩
            · exact .inl rfl
            · by_cases heq : a = b
              · exact .inl heq
              · exact .inr ⟨hmem, heq, hnew⟩

theorem nodup_fresh : (fresh seen found).Nodup := by
  induction found generalizing seen with
  | nil => exact List.nodup_nil
  | cons b found ih =>
      unfold fresh
      split
      · exact ih
      · refine List.nodup_cons.mpr ⟨fun hmem => ?_, ih⟩
        exact (mem_fresh.mp hmem).2 List.mem_cons_self

theorem walk_cons {steps : Nat} (h : walk look spent steps (a :: queue) seen = .ok visits) :
    ∃ less found here rest, steps = less + 1 ∧ look a = .ok (found, here) ∧
      walk look spent less (queue ++ fresh seen found) (fresh seen found ++ seen) = .ok rest ∧
      visits = (a, here) :: rest := by
  cases steps with
  | zero => cases h
  | succ less =>
      unfold walk at h
      cases hlook : look a with
      | error e =>
          rw [hlook] at h
          cases h
      | ok answer =>
          rw [hlook] at h
          dsimp only at h
          cases hrest : walk look spent less (queue ++ fresh seen answer.1) (fresh seen answer.1 ++ seen) with
          | error e =>
              rw [hrest] at h
              cases h
          | ok rest =>
              rw [hrest] at h
              cases h
              exact ⟨less, answer.1, answer.2, rest, rfl, rfl, hrest, rfl⟩

/-- What a walk looks at, from a queue of things seen. -/
structure Visited (look : α → Except ε (List α × β)) (queue seen : List α) (visits : List (α × β)) :
    Prop where
  once : (visits.map (·.1)).Nodup
  queued : ∀ a ∈ queue, a ∈ visits.map (·.1)
  unseen : ∀ a ∈ visits.map (·.1), a ∈ queue ∨ a ∉ seen
  looked : ∀ v ∈ visits, ∃ found, look v.1 = .ok (found, v.2) ∧
    ∀ b ∈ found, b ∈ seen ∨ b ∈ visits.map (·.1)
  reached : ∀ b ∈ visits.map (·.1), ∃ a ∈ queue, Relation.ReflTransGen (Leads look) a b

/-- **A walk looks once at each thing it reaches.** -/
theorem walk_spec {steps : Nat} (hqueue : queue.Nodup) (hseen : ∀ a ∈ queue, a ∈ seen)
    (h : walk look spent steps queue seen = .ok visits) : Visited look queue seen visits := by
  induction steps generalizing queue seen visits with
  | zero =>
      cases queue with
      | nil =>
          cases h
          exact ⟨List.nodup_nil, nofun, nofun, nofun, nofun⟩
      | cons a queue => cases h
  | succ steps ih =>
      cases queue with
      | nil =>
          cases h
          exact ⟨List.nodup_nil, nofun, nofun, nofun, nofun⟩
      | cons a queue =>
          obtain ⟨less, found, here, rest, hsteps, hlook, hrest, rfl⟩ := walk_cons h
          obtain rfl : steps = less := by omega
          obtain ⟨ha, hnodup⟩ := List.nodup_cons.mp hqueue
          have hfresh : (queue ++ fresh seen found).Nodup := by
            refine List.nodup_append.mpr ⟨hnodup, nodup_fresh, ?_⟩
            rintro b hb c hc rfl
            exact (mem_fresh.mp hc).2 (hseen b (List.mem_cons_of_mem _ hb))
          have hsub : ∀ b ∈ queue ++ fresh seen found, b ∈ fresh seen found ++ seen := by
            intro b hb
            rcases List.mem_append.mp hb with hb | hb
            · exact List.mem_append_right _ (hseen b (List.mem_cons_of_mem _ hb))
            · exact List.mem_append_left _ hb
          have hih := ih hfresh hsub hrest
          have hnot : a ∉ rest.map (·.1) := by
            intro hmem
            have hin := hseen a List.mem_cons_self
            rcases hih.unseen a hmem with hq | hnew
            · rcases List.mem_append.mp hq with hq | hq
              · exact ha hq
              · exact (mem_fresh.mp hq).2 hin
            · exact hnew (List.mem_append_right _ hin)
          refine ⟨List.nodup_cons.mpr ⟨hnot, hih.once⟩, ?_, ?_, ?_, ?_⟩
          · intro b hb
            rcases List.mem_cons.mp hb with rfl | hb
            · exact List.mem_cons_self
            · exact List.mem_cons_of_mem _ (hih.queued b (List.mem_append_left _ hb))
          · intro b hb
            rcases List.mem_cons.mp hb with rfl | hb
            · exact .inl List.mem_cons_self
            · rcases hih.unseen b hb with hq | hnew
              · rcases List.mem_append.mp hq with hq | hq
                · exact .inl (List.mem_cons_of_mem _ hq)
                · exact .inr (mem_fresh.mp hq).2
              · exact .inr fun hin => hnew (List.mem_append_right _ hin)
          · intro v hv
            rcases List.mem_cons.mp hv with rfl | hv
            · refine ⟨found, hlook, fun b hb => ?_⟩
              by_cases hin : b ∈ seen
              · exact .inl hin
              · have hq := hih.queued b (List.mem_append_right _ (mem_fresh.mpr ⟨hb, hin⟩))
                exact .inr (List.mem_cons_of_mem _ hq)
            · obtain ⟨next, hnext, hclosed⟩ := hih.looked v hv
              refine ⟨next, hnext, fun b hb => ?_⟩
              rcases hclosed b hb with hin | hin
              · rcases List.mem_append.mp hin with hin | hin
                · exact .inr (List.mem_cons_of_mem _ (hih.queued b (List.mem_append_right _ hin)))
                · exact .inl hin
              · exact .inr (List.mem_cons_of_mem _ hin)
          · intro b hb
            rcases List.mem_cons.mp hb with rfl | hb
            · exact ⟨b, List.mem_cons_self, .refl⟩
            · obtain ⟨c, hc, hreach⟩ := hih.reached b hb
              rcases List.mem_append.mp hc with hc | hc
              · exact ⟨c, List.mem_cons_of_mem _ hc, hreach⟩
              · have hstep : Leads look a c := ⟨found, here, hlook, (mem_fresh.mp hc).1⟩
                exact ⟨a, List.mem_cons_self, .head hstep hreach⟩

/-- **A walk ends** in a universe it does not leave. -/
theorem walk_ends {whole : List α} (hwhole : whole.Nodup)
    (hlook : ∀ a ∈ whole, ∃ found here, look a = .ok (found, here) ∧ ∀ b ∈ found, b ∈ whole)
    {steps : Nat} (hqueue : ∀ a ∈ queue, a ∈ whole)
    (hsteps : queue.length + (whole.filter (· ∉ seen)).length ≤ steps) :
    ∃ visits, walk look spent steps queue seen = .ok visits := by
  induction steps generalizing queue seen with
  | zero =>
      cases queue with
      | nil => exact ⟨[], rfl⟩
      | cons a queue => simp at hsteps
  | succ steps ih =>
      cases queue with
      | nil => exact ⟨[], rfl⟩
      | cons a queue =>
          obtain ⟨found, here, ha, hfound⟩ := hlook a (hqueue a List.mem_cons_self)
          have hless : (fresh seen found).length +
              (whole.filter (· ∉ fresh seen found ++ seen)).length ≤
                (whole.filter (· ∉ seen)).length := by
            rw [← List.length_append]
            refine (List.Nodup.subperm ?_ ?_).length_le
            · refine List.nodup_append.mpr ⟨nodup_fresh, hwhole.filter _, ?_⟩
              rintro b hb c hc rfl
              have hnot := of_decide_eq_true (List.mem_filter.mp hc).2
              exact hnot (List.mem_append_left _ hb)
            · intro b hb
              rcases List.mem_append.mp hb with hb | hb
              · obtain ⟨hmem, hnew⟩ := mem_fresh.mp hb
                exact List.mem_filter.mpr ⟨hfound b hmem, decide_eq_true hnew⟩
              · obtain ⟨hmem, hnew⟩ := List.mem_filter.mp hb
                refine List.mem_filter.mpr ⟨hmem, decide_eq_true fun hin => ?_⟩
                exact of_decide_eq_true hnew (List.mem_append_right _ hin)
          have hmore : ∀ b ∈ queue ++ fresh seen found, b ∈ whole := by
            intro b hb
            rcases List.mem_append.mp hb with hb | hb
            · exact hqueue b (List.mem_cons_of_mem _ hb)
            · exact hfound b (mem_fresh.mp hb).1
          have hspent : (queue ++ fresh seen found).length +
              (whole.filter (· ∉ fresh seen found ++ seen)).length ≤ steps := by
            rw [List.length_cons] at hsteps
            rw [List.length_append]
            omega
          obtain ⟨rest, hrest⟩ := ih hmore hspent
          refine ⟨(a, here) :: rest, ?_⟩
          unfold walk
          rw [ha]
          dsimp only
          rw [hrest]

end Store
