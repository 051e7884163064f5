/-
Ownpace/Concurrency/Runners.lean

`mapWithConcurrency`: runners that share one counter and one error flag, over every order in
which the workers end and the runners are resumed.

A worker ends before its runner is resumed, and in between other runners may be: the ends
wait in the order in which they came.  `Kept` is what a step keeps, and the claim about a
call is read from it (`keeps_iff`): it holds for every limit that is a number, and of one
that is not there are no runners at all.
-/
import Mathlib.Data.List.Perm.Basic
import Ownpace.Number.Binary64

namespace Ownpace.Concurrency

open Binary64

/-! ### The limit -/

/-- The length that `Array.from({ length })` takes: `NaN` is none. -/
def toLength : Number → Nat
  | .finite q => Min.min ⌊q⌋.toNat (2 ^ 53 - 1)
  | .infinity => 2 ^ 53 - 1
  | .negativeInfinity => 0
  | .nan => 0

/-- `Math.max(1, Math.min(Math.floor(limit), n))` -/
def maxOf (limit : Number) (n : Nat) : Number :=
  .max (.finite 1) (.min limit.floor (.finite n))

/-- At most one, or at most the limit. -/
def Allows : Number → Nat → Prop
  | .finite q, k => k ≤ 1 ∨ (k : ℚ) ≤ q
  | .infinity, _ => True
  | .negativeInfinity, k => k ≤ 1
  | .nan, k => k ≤ 1

/-! ### The call -/

inductive Runner where
  | working (i : Nat)
  /-- Its worker has ended, and it is still to be resumed. -/
  | resuming
  | returned
  deriving DecidableEq

variable {T ε : Type}

inductive Happened (T ε : Type) where
  | started (item : T) (i : Nat)
  | settled (i : Nat) (outcome : Except ε Unit)
  | resumed (i : Nat) (outcome : Except ε Unit)

structure Call (T ε : Type) where
  toLaunch : Nat
  next : Nat := 0
  firstError : Option ε := none
  runners : List Runner := []
  /-- Which runner, of which item, and how its worker ended. -/
  resumptions : List (Nat × Nat × Except ε Unit) := []
  log : List (Happened T ε) := []

section

variable (items : List T)

/-- For no items the call returns before it has any. -/
def runnersOf (limit : Number) : Nat :=
  if items.isEmpty then 0 else toLength (maxOf limit items.length)

def begin (limit : Number) : Call T ε := { toLaunch := runnersOf items limit }

/-- One turn of the loop: what the runner is then doing. -/
def pull (s : Call T ε) : Runner × Call T ε :=
  if s.firstError.isSome then (.returned, s)
  else
    match items[s.next]? with
    | none => (.returned, { s with next := s.next + 1 })
    | some item => (.working s.next,
        { s with next := s.next + 1, log := s.log ++ [.started item s.next] })

/-- The runner `r` goes round the loop. -/
def goRound (s : Call T ε) (r : Nat) : Call T ε :=
  { (pull items s).2 with runners := s.runners.set r (pull items s).1 }

inductive Step : Call T ε → Call T ε → Prop
  /-- All are launched before anything else is resumed. -/
  | launch {s : Call T ε} {k : Nat} (hk : s.toLaunch = k + 1) :
      Step s (goRound items { s with toLaunch := k, runners := s.runners ++ [.resuming] } s.runners.length)
  | settle {s : Call T ε} {r i : Nat} (hr : s.runners[r]? = some (.working i))
      (outcome : Except ε Unit) :
      Step s { s with
        runners := s.runners.set r .resuming
        resumptions := s.resumptions ++ [(r, i, outcome)]
        log := s.log ++ [.settled i outcome] }
  | resume {s : Call T ε} {r i : Nat} {rest : List (Nat × Nat × Except ε Unit)}
      (hlaunched : s.toLaunch = 0) (hq : s.resumptions = (r, i, .ok ()) :: rest) :
      Step s (goRound items { s with resumptions := rest, log := s.log ++ [.resumed i (.ok ())] } r)
  | fail {s : Call T ε} {r i : Nat} {e : ε} {rest : List (Nat × Nat × Except ε Unit)}
      (hlaunched : s.toLaunch = 0) (hq : s.resumptions = (r, i, .error e) :: rest) :
      Step s { s with
        runners := s.runners.set r .returned
        resumptions := rest
        log := s.log ++ [.resumed i (.error e)]
        firstError := s.firstError.or (some e) }

inductive Reaches (limit : Number) : Call T ε → Prop
  | begin : Reaches limit (begin items limit)
  | step {s s' : Call T ε} : Reaches limit s → Step items s s' → Reaches limit s'

/-- How the call has settled, if it has. -/
def Call.outcome (s : Call T ε) : Option (Except ε Unit) :=
  if items.isEmpty then some (.ok ())
  else if s.toLaunch = 0 ∧ s.runners.all (· = .returned) then
    some (s.firstError.elim (.ok ()) .error)
  else none

end

/-! ### What happened -/

def Happened.start? : Happened T ε → Option (T × Nat)
  | started item i => some (item, i)
  | settled .. => none
  | resumed .. => none

def Happened.settlement? : Happened T ε → Option (Nat × Except ε Unit)
  | started .. => none
  | settled i outcome => some (i, outcome)
  | resumed .. => none

def Happened.resumption? : Happened T ε → Option (Nat × Except ε Unit)
  | started .. => none
  | settled .. => none
  | resumed i outcome => some (i, outcome)

def Runner.item? : Runner → Option Nat
  | working i => some i
  | resuming => none
  | returned => none

def Call.starts (s : Call T ε) : List (T × Nat) := s.log.filterMap Happened.start?

def Call.settlements (s : Call T ε) : List (Nat × Except ε Unit) := s.log.filterMap Happened.settlement?

def Call.resumed (s : Call T ε) : List (Nat × Except ε Unit) := s.log.filterMap Happened.resumption?

/-- The items that a worker is in flight for. -/
def Call.inFlight (s : Call T ε) : List Nat := s.runners.filterMap Runner.item?

def failure? : Except ε Unit → Option ε
  | .ok () => none
  | .error e => some e

/-- The error of the worker that failed first. -/
def firstFailure (ends : List (Nat × Except ε Unit)) : Option ε := ends.findSome? (failure? ·.2)

/-- What the function is for, at any moment of a call. -/
structure Keeps (items : List T) (limit : Number) (s : Call T ε) : Prop where
  bounded : Allows limit s.inFlight.length
  /-- In order, and each at most once. -/
  in_order : s.starts <+: items.zipIdx
  /-- No worker is started once a runner has been told of a failure. -/
  halted : ∀ before i e after, s.log = before ++ .resumed i (.error e) :: after →
    after.filterMap Happened.start? = []
  settles : ∀ r, s.outcome items = some r →
    s.inFlight = [] ∧ r = (firstFailure s.settlements).elim (.ok ()) .error
  once : (s.outcome items).isSome → firstFailure s.settlements = none →
    s.starts = items.zipIdx ∧ s.settlements.Perm ((List.range items.length).map fun i => (i, .ok ()))
  /-- It settles as soon as there is nothing left to wait for. -/
  not_stuck : s.toLaunch = 0 → s.inFlight = [] → s.resumptions = [] → (s.outcome items).isSome

/-! ### What a step keeps -/

/-- `round` is the runner that is going round the loop. -/
structure Kept (items : List T) (limit : Number) (round : Option Nat) (s : Call T ε) : Prop where
  launched : s.runners.length + s.toLaunch = runnersOf items limit
  starts : s.starts = (items.take s.next).zipIdx
  /-- Each item that a worker was started for is in flight, or has ended, once. -/
  ends : (s.inFlight ++ s.settlements.map Prod.fst).Perm (List.range (min s.next items.length))
  going : ∀ r, round = some r → s.runners[r]? = some .resuming ∧ r ∉ s.resumptions.map Prod.fst
  queued : ∀ r ∈ s.resumptions.map Prod.fst, s.runners[r]? = some .resuming
  nodup : (s.resumptions.map Prod.fst).Nodup
  waiting : ∀ r, s.runners[r]? = some .resuming → round = some r ∨ r ∈ s.resumptions.map Prod.fst
  /-- Runners are resumed in the order in which their workers ended. -/
  fifo : s.settlements = s.resumed ++ s.resumptions.map Prod.snd
  error : s.firstError = firstFailure s.resumed
  halted : ∀ before i e after, s.log = before ++ .resumed i (.error e) :: after →
    after.filterMap Happened.start? = []
  finished : s.firstError = none → .returned ∈ s.runners → items.length ≤ s.next

variable {items : List T} {limit : Number} {s s' : Call T ε}

/-- Another value in one place of a list. -/
theorem filterMap_set_perm {α β : Type} (f : α → Option β) {l : List α} {r : Nat} {x y : α}
    (h : l[r]? = some x) :
    ((f x).toList ++ (l.set r y).filterMap f).Perm ((f y).toList ++ l.filterMap f) := by
  induction l generalizing r with
  | nil => cases h
  | cons a l ih =>
      have hcons (a : α) (l : List α) : (a :: l).filterMap f = (f a).toList ++ l.filterMap f := by
        cases hf : f a <;> simp [hf]
      cases r with
      | zero =>
          obtain rfl : a = x := Option.some.inj h
          rw [List.set_cons_zero, hcons, hcons, ← List.append_assoc, ← List.append_assoc]
          exact List.perm_append_comm.append_right _
      | succ r =>
          rw [List.set_cons_succ, hcons, hcons]
          calc
            _ = (f x).toList ++ (f a).toList ++ (l.set r y).filterMap f := (List.append_assoc ..).symm
            _ |>.Perm ((f a).toList ++ ((f x).toList ++ (l.set r y).filterMap f)) := by
                rw [← List.append_assoc]
                exact List.perm_append_comm.append_right _
            _ |>.Perm ((f a).toList ++ ((f y).toList ++ l.filterMap f)) := (ih h).append_left _
            _ |>.Perm _ := by
                rw [← List.append_assoc, ← List.append_assoc]
                exact List.perm_append_comm.append_right _

/-- A failure that a runner was told of is the first one told of, or comes after it. -/
theorem firstFailure_ne_none {log : List (Happened T ε)} {i : Nat} {e : ε}
    (hmem : .resumed i (.error e) ∈ log) : firstFailure (log.filterMap Happened.resumption?) ≠ none := by
  intro hnone
  have hin : (i, .error e) ∈ log.filterMap Happened.resumption? := List.mem_filterMap.mpr ⟨_, hmem, rfl⟩
  cases List.findSome?_eq_none_iff.mp hnone _ hin

/-- One more event: a start only where no runner was told of a failure. -/
theorem halted_concat {log : List (Happened T ε)} {happened : Happened T ε}
    (hh : ∀ before i e after, log = before ++ .resumed i (.error e) :: after →
      after.filterMap Happened.start? = [])
    (hstart : firstFailure (log.filterMap Happened.resumption?) ≠ none → happened.start? = none) :
    ∀ before i e after, log ++ [happened] = before ++ .resumed i (.error e) :: after →
      after.filterMap Happened.start? = [] := by
  intro before i e after heq
  obtain rfl | ⟨after, last, rfl⟩ := List.eq_nil_or_concat after
  · rfl
  · rw [List.concat_eq_append, ← List.cons_append, ← List.append_assoc] at heq
    obtain ⟨hlog, hlast⟩ := List.append_inj' heq rfl
    obtain rfl := List.singleton_inj.mp hlast
    rw [List.concat_eq_append, List.filterMap_append, hh before i e after hlog, List.nil_append]
    have hnone := hstart (firstFailure_ne_none (i := i) (e := e) (by rw [hlog]; simp))
    rw [List.filterMap_cons_none hnone]
    rfl

theorem zipIdx_take_succ {item : T} {n : Nat} (h : items[n]? = some item) :
    (items.take (n + 1)).zipIdx = (items.take n).zipIdx ++ [(item, n)] := by
  have hn : n < items.length := (List.getElem?_eq_some_iff.mp h).1
  rw [List.take_add_one, h, List.zipIdx_append, List.length_take, Nat.min_eq_left (Nat.le_of_lt hn)]
  simp

/-- The runner goes round: it returns, or has the next item's worker in flight. -/
theorem Kept.goRound {r : Nat} (hk : Kept items limit (some r) s) :
    Kept items limit none (goRound items s r) := by
  obtain ⟨hr, hnot⟩ := hk.going r rfl
  have hother {r' : Nat} {x : Runner} (hne : r' ≠ r) : (s.runners.set r x)[r']? = s.runners[r']? :=
    List.getElem?_set_ne (Ne.symm hne)
  have hlt : r < s.runners.length := (List.getElem?_eq_some_iff.mp hr).1
  have hqueued (x : Runner) : ∀ r' ∈ s.resumptions.map Prod.fst, (s.runners.set r x)[r']? = some .resuming := by
    intro r' hr'
    rw [hother fun heq => hnot (heq ▸ hr')]
    exact hk.queued r' hr'
  have hwaiting {x : Runner} (hx : x ≠ .resuming) : ∀ r', (s.runners.set r x)[r']? = some .resuming →
      (none : Option Nat) = some r' ∨ r' ∈ s.resumptions.map Prod.fst := by
    intro r' hr'
    by_cases hne : r' = r
    · subst hne
      rw [List.getElem?_set_self hlt] at hr'
      exact absurd (Option.some.inj hr') hx
    · rw [hother hne] at hr'
      exact .inr ((hk.waiting r' hr').resolve_left fun heq => hne (Option.some.inj heq).symm)
  have hreturned : ((s.runners.set r .returned).filterMap Runner.item?).Perm s.inFlight :=
    filterMap_set_perm Runner.item? (y := Runner.returned) hr
  by_cases herr : s.firstError.isSome = true
  · have hpull : Concurrency.goRound items s r = { s with runners := s.runners.set r .returned } := by
      rw [Concurrency.goRound, pull, if_pos herr]
    rw [hpull]
    refine ⟨?_, hk.starts, ?_, (fun _ hnone => by cases hnone), hqueued _, hk.nodup,
      hwaiting (by simp), hk.fifo, hk.error, hk.halted, fun hnone => ?_⟩
    · rw [List.length_set]
      exact hk.launched
    · exact (hreturned.append_right _).trans hk.ends
    · have hno : s.firstError = none := hnone
      rw [hno] at herr
      cases herr
  have hno : s.firstError = none := Option.not_isSome_iff_eq_none.mp herr
  cases hitem : items[s.next]? with
  | none =>
      have hlen : items.length ≤ s.next := List.getElem?_eq_none_iff.mp hitem
      have hpull : Concurrency.goRound items s r =
          { s with runners := s.runners.set r .returned, next := s.next + 1 } := by
        rw [Concurrency.goRound, pull, if_neg herr, hitem]
      rw [hpull]
      refine ⟨?_, ?_, ?_, (fun _ hnone => by cases hnone), hqueued _, hk.nodup,
        hwaiting (by simp), hk.fifo, hk.error, hk.halted, fun _ _ => Nat.le_succ_of_le hlen⟩
      · rw [List.length_set]
        exact hk.launched
      · show s.starts = _
        rw [hk.starts, List.take_of_length_le hlen, List.take_of_length_le (Nat.le_succ_of_le hlen)]
      · show ((s.runners.set r .returned).filterMap Runner.item? ++ s.settlements.map Prod.fst).Perm _
        rw [Nat.min_eq_right (Nat.le_succ_of_le hlen), ← Nat.min_eq_right hlen]
        exact (hreturned.append_right _).trans hk.ends
  | some item =>
      have hlen : s.next < items.length := (List.getElem?_eq_some_iff.mp hitem).1
      have hpull : Concurrency.goRound items s r = { s with
          runners := s.runners.set r (.working s.next)
          next := s.next + 1
          log := s.log ++ [.started item s.next] } := by
        rw [Concurrency.goRound, pull, if_neg herr, hitem]
      have hsame : (s.log ++ [Happened.started item s.next]).filterMap Happened.settlement? = s.settlements := by
        rw [List.filterMap_append]
        exact List.append_nil _
      have hresumed : (s.log ++ [Happened.started item s.next]).filterMap Happened.resumption? = s.resumed := by
        rw [List.filterMap_append]
        exact List.append_nil _
      rw [hpull]
      refine ⟨?_, ?_, ?_, (fun _ hnone => by cases hnone), hqueued _, hk.nodup,
        hwaiting (by simp), ?_, ?_, ?_, fun _ hmem => ?_⟩
      · rw [List.length_set]
        exact hk.launched
      · show (s.log ++ [Happened.started item s.next]).filterMap Happened.start? = _
        rw [zipIdx_take_succ hitem, ← hk.starts, List.filterMap_append]
        rfl
      · show ((s.runners.set r (.working s.next)).filterMap Runner.item? ++
          ((s.log ++ [Happened.started item s.next]).filterMap Happened.settlement?).map Prod.fst).Perm _
        rw [hsame, Nat.min_eq_left hlen, List.range_succ]
        have hends := hk.ends
        rw [Nat.min_eq_left (Nat.le_of_lt hlen)] at hends
        have hset := filterMap_set_perm Runner.item? (y := Runner.working s.next) hr
        have hmore : (s.next :: s.inFlight ++ s.settlements.map Prod.fst).Perm
            (s.next :: List.range s.next) := hends.cons _
        exact ((hset.append_right _).trans hmore).trans (List.perm_append_singleton _ _).symm
      · show (s.log ++ [Happened.started item s.next]).filterMap Happened.settlement? =
          (s.log ++ [Happened.started item s.next]).filterMap Happened.resumption? ++ _
        rw [hsame, hresumed]
        exact hk.fifo
      · show s.firstError = firstFailure ((s.log ++ [Happened.started item s.next]).filterMap Happened.resumption?)
        rw [hresumed]
        exact hk.error
      · refine halted_concat hk.halted fun hfailed => absurd ?_ hfailed
        rw [← hno]
        exact hk.error.symm
      · obtain hmem | heq := List.mem_or_eq_of_mem_set hmem
        · exact Nat.le_succ_of_le (hk.finished hno hmem)
        · cases heq

theorem Kept.launch {k : Nat} (hk : Kept items limit none s) (hlaunch : s.toLaunch = k + 1) :
    Kept items limit (some s.runners.length)
      { s with toLaunch := k, runners := s.runners ++ [.resuming] } := by
  have hqueued : ∀ r ∈ s.resumptions.map Prod.fst, r < s.runners.length :=
    fun r hr => (List.getElem?_eq_some_iff.mp (hk.queued r hr)).1
  refine ⟨?_, hk.starts, ?_, fun r hr => ?_, fun r hr => ?_, hk.nodup, fun r hr => ?_, hk.fifo, hk.error,
    hk.halted, fun hno hmem => ?_⟩
  · have hlaunched := hk.launched
    show (s.runners ++ [Runner.resuming]).length + k = _
    rw [List.length_append, List.length_singleton]
    omega
  · show ((s.runners ++ [Runner.resuming]).filterMap Runner.item? ++ _).Perm _
    rw [List.filterMap_append]
    show (s.inFlight ++ [] ++ s.settlements.map Prod.fst).Perm _
    rw [List.append_nil]
    exact hk.ends
  · obtain rfl := Option.some.inj hr
    exact ⟨List.getElem?_concat_length, fun hmem => Nat.lt_irrefl _ (hqueued _ hmem)⟩
  · show (s.runners ++ [Runner.resuming])[r]? = _
    rw [List.getElem?_append_left (hqueued r hr)]
    exact hk.queued r hr
  · have hr' : (s.runners ++ [Runner.resuming])[r]? = some .resuming := hr
    obtain hlt | hle := Nat.lt_or_ge r s.runners.length
    · rw [List.getElem?_append_left hlt] at hr'
      obtain hnone | hmem := hk.waiting r hr'
      · cases hnone
      · exact .inr hmem
    · have hlt := (List.getElem?_eq_some_iff.mp hr').1
      rw [List.length_append, List.length_singleton] at hlt
      exact .inl (congrArg some (by omega))
  · obtain hmem | hmem := List.mem_append.mp hmem
    · exact hk.finished hno hmem
    · cases List.mem_singleton.mp hmem

theorem Kept.settle {r i : Nat} {outcome : Except ε Unit} (hk : Kept items limit none s)
    (hr : s.runners[r]? = some (.working i)) : Kept items limit none { s with
      runners := s.runners.set r .resuming
      resumptions := s.resumptions ++ [(r, i, outcome)]
      log := s.log ++ [.settled i outcome] } := by
  have hlt : r < s.runners.length := (List.getElem?_eq_some_iff.mp hr).1
  have hmap : (s.resumptions ++ [(r, i, outcome)]).map Prod.fst = s.resumptions.map Prod.fst ++ [r] := by
    rw [List.map_append]
    rfl
  have hnot : r ∉ s.resumptions.map Prod.fst := by
    intro hmem
    cases (hk.queued r hmem).symm.trans hr
  have hstarts : (s.log ++ [Happened.settled i outcome]).filterMap Happened.start? = s.starts := by
    rw [List.filterMap_append]
    exact List.append_nil _
  have hsettled : (s.log ++ [Happened.settled i outcome]).filterMap Happened.settlement? =
      s.settlements ++ [(i, outcome)] := by
    rw [List.filterMap_append]
    rfl
  have hresumed : (s.log ++ [Happened.settled i outcome]).filterMap Happened.resumption? = s.resumed := by
    rw [List.filterMap_append]
    exact List.append_nil _
  refine ⟨?_, hstarts.trans hk.starts, ?_, (fun _ hnone => by cases hnone), fun r' hr' => ?_, ?_,
    fun r' hr' => ?_, ?_, ?_, ?_, fun hno hmem => ?_⟩
  · rw [List.length_set]
    exact hk.launched
  · show ((s.runners.set r .resuming).filterMap Runner.item? ++
      ((s.log ++ [Happened.settled i outcome]).filterMap Happened.settlement?).map Prod.fst).Perm _
    rw [hsettled, List.map_append]
    have hset := filterMap_set_perm Runner.item? (y := Runner.resuming) hr
    have hfront : ((s.runners.set r .resuming).filterMap Runner.item? ++ [i]).Perm s.inFlight :=
      (List.perm_append_singleton _ _).trans hset
    refine List.Perm.trans ?_ hk.ends
    refine List.Perm.trans ?_ (hfront.append_right _)
    rw [List.append_assoc]
    exact List.perm_append_comm.append_left _
  · show (s.runners.set r .resuming)[r']? = _
    rw [hmap] at hr'
    by_cases hne : r = r'
    · rw [← hne, List.getElem?_set_self hlt]
    · rw [List.getElem?_set_ne hne]
      obtain hmem | hmem := List.mem_append.mp hr'
      · exact hk.queued r' hmem
      · exact absurd (List.mem_singleton.mp hmem).symm hne
  · rw [hmap]
    exact List.nodup_append.mpr ⟨hk.nodup, by simp, fun a ha b hb heq =>
      hnot (List.mem_singleton.mp hb ▸ heq ▸ ha)⟩
  · rw [hmap]
    have hset : (s.runners.set r .resuming)[r']? = some .resuming := hr'
    by_cases hne : r = r'
    · exact .inr (List.mem_append_right _ (List.mem_singleton.mpr hne.symm))
    · rw [List.getElem?_set_ne hne] at hset
      exact .inr (List.mem_append_left _ ((hk.waiting r' hset).resolve_left (by simp)))
  · show (s.log ++ [Happened.settled i outcome]).filterMap Happened.settlement? =
      (s.log ++ [Happened.settled i outcome]).filterMap Happened.resumption? ++ _
    rw [hsettled, hresumed, List.map_append, ← List.append_assoc, ← hk.fifo]
    rfl
  · show s.firstError = firstFailure ((s.log ++ [Happened.settled i outcome]).filterMap Happened.resumption?)
    rw [hresumed]
    exact hk.error
  · exact halted_concat hk.halted fun _ => rfl
  · obtain hmem | heq := List.mem_or_eq_of_mem_set hmem
    · exact hk.finished hno hmem
    · cases heq

/-- The first of those waiting is told how its worker ended. -/
theorem Kept.resume {r i : Nat} {outcome : Except ε Unit} {rest : List (Nat × Nat × Except ε Unit)}
    (hk : Kept items limit none s) (hq : s.resumptions = (r, i, outcome) :: rest) :
    Kept items limit (some r) { s with
      resumptions := rest
      log := s.log ++ [.resumed i outcome]
      firstError := s.firstError.or (failure? outcome) } := by
  have hnodup := hk.nodup
  rw [hq, List.map_cons, List.nodup_cons] at hnodup
  have hstarts : (s.log ++ [Happened.resumed i outcome]).filterMap Happened.start? = s.starts := by
    rw [List.filterMap_append]
    exact List.append_nil _
  have hsettled : (s.log ++ [Happened.resumed i outcome]).filterMap Happened.settlement? =
      s.settlements := by
    rw [List.filterMap_append]
    exact List.append_nil _
  have hresumed : (s.log ++ [Happened.resumed i outcome]).filterMap Happened.resumption? =
      s.resumed ++ [(i, outcome)] := by
    rw [List.filterMap_append]
    rfl
  refine ⟨hk.launched, hstarts.trans hk.starts, ?_, fun r' hr' => ?_, fun r' hr' => ?_, hnodup.2,
    fun r' hr' => ?_, ?_, ?_, ?_, fun hno hmem => ?_⟩
  · show (s.inFlight ++
      ((s.log ++ [Happened.resumed i outcome]).filterMap Happened.settlement?).map Prod.fst).Perm _
    rw [hsettled]
    exact hk.ends
  · obtain rfl := Option.some.inj hr'
    refine ⟨hk.queued r ?_, hnodup.1⟩
    rw [hq]
    exact List.mem_cons_self
  · refine hk.queued r' ?_
    rw [hq]
    exact List.mem_cons_of_mem _ hr'
  · have hmem := (hk.waiting r' hr').resolve_left (by simp)
    rw [hq, List.map_cons] at hmem
    obtain rfl | hmem := List.mem_cons.mp hmem
    · exact .inl rfl
    · exact .inr hmem
  · show (s.log ++ [Happened.resumed i outcome]).filterMap Happened.settlement? =
      (s.log ++ [Happened.resumed i outcome]).filterMap Happened.resumption? ++ _
    rw [hsettled, hresumed, hk.fifo, hq, List.append_assoc]
    rfl
  · show s.firstError.or (failure? outcome) =
      firstFailure ((s.log ++ [Happened.resumed i outcome]).filterMap Happened.resumption?)
    rw [hresumed, hk.error, firstFailure, firstFailure, List.findSome?_append]
    simp
  · exact halted_concat hk.halted fun _ => rfl
  · exact hk.finished (Option.or_eq_none_iff.mp hno).1 hmem

theorem Kept.step (hk : Kept items limit none s) (hstep : Step items s s') :
    Kept items limit none s' := by
  cases hstep with
  | launch hlaunch => exact (hk.launch hlaunch).goRound
  | settle hr outcome => exact hk.settle hr
  | @resume r i rest _ hq =>
      have hround := (hk.resume hq).goRound
      rwa [failure?, Option.or_none] at hround
  | @fail r i e rest _ hq =>
      have hround := (hk.resume hq).goRound
      rwa [Concurrency.goRound, pull, if_pos (by simp [failure?])] at hround

theorem kept_begin : Kept items limit none (begin items limit : Call T ε) := by
  refine ⟨Nat.zero_add _, ?_, ?_, (fun _ hnone => by cases hnone), (fun _ hr => by cases hr),
    List.nodup_nil, (fun _ hr => by cases hr), rfl, rfl, fun before i e after heq => ?_, fun _ hmem => ?_⟩
  · show [] = (items.take 0).zipIdx
    rw [List.take_zero]
    rfl
  · show ([] : List Nat).Perm (List.range (min 0 items.length))
    rw [Nat.zero_min]
    exact .nil
  · cases before <;> cases heq
  · cases hmem

theorem Reaches.kept (hr : Reaches items limit s) : Kept items limit none s := by
  induction hr with
  | begin => exact kept_begin
  | step _ hstep ih => exact ih.step hstep

/-! ### What the call is for -/

theorem maxOf_finite (q : ℚ) (n : Nat) :
    maxOf (.finite q) n = .finite ((max 1 (min ⌊q⌋ (n : ℤ)) : ℤ) : ℚ) := by
  show Number.finite (max 1 (min (⌊q⌋ : ℚ) (n : ℚ))) = _
  push_cast
  rfl

/-- At most the limit, or one. -/
theorem allows_of_le {n k : Nat} (hk : k ≤ toLength (maxOf limit n)) : Allows limit k := by
  cases limit with
  | finite q =>
      rw [maxOf_finite, toLength, Int.floor_intCast] at hk
      by_cases hone : k ≤ 1
      · exact .inl hone
      · have hfloor : (k : ℤ) ≤ ⌊q⌋ := by omega
        exact .inr (by exact_mod_cast Int.le_floor.mp hfloor)
  | infinity => exact trivial
  | negativeInfinity =>
      have hone : toLength (maxOf .negativeInfinity n) ≤ 1 := by
        show min ⌊(1 : ℚ)⌋.toNat _ ≤ 1
        rw [Int.floor_one]
        exact Nat.min_le_left _ _
      exact Nat.le_trans hk hone
  | nan => exact Nat.le_trans hk (Nat.zero_le 1)

/-- A limit that is a number gives a runner. -/
theorem runnersOf_pos (hitems : items ≠ []) (hlimit : limit ≠ .nan) : 0 < runnersOf items limit := by
  have hn : 1 ≤ items.length := List.length_pos_iff.mpr hitems
  rw [runnersOf, if_neg (by simpa using hitems)]
  cases limit with
  | finite q =>
      rw [maxOf_finite, toLength, Int.floor_intCast]
      omega
  | infinity =>
      have hmax : maxOf .infinity items.length = .finite ((max 1 (items.length : ℤ) : ℤ) : ℚ) := by
        show Number.finite (max 1 (items.length : ℚ)) = _
        push_cast
        rfl
      rw [hmax, toLength, Int.floor_intCast]
      omega
  | negativeInfinity =>
      show 0 < min ⌊(1 : ℚ)⌋.toNat _
      rw [Int.floor_one]
      decide
  | nan => exact absurd rfl hlimit

theorem Kept.inFlight_le (hk : Kept items limit none s) : Allows limit s.inFlight.length := by
  have hle : s.inFlight.length ≤ s.runners.length := List.length_filterMap_le _ _
  have hlaunched := hk.launched
  refine allows_of_le (n := items.length) ?_
  have hrunners : runnersOf items limit ≤ toLength (maxOf limit items.length) := by
    rw [runnersOf]
    split
    · exact Nat.zero_le _
    · exact Nat.le_refl _
  omega

theorem inFlight_of_returned (hall : ∀ r ∈ s.runners, r = .returned) : s.inFlight = [] := by
  refine List.filterMap_eq_nil_iff.mpr fun r hr => ?_
  rw [hall r hr]
  rfl

/-- With nothing in flight and nobody waiting, every runner has returned. -/
theorem Kept.all_returned (hk : Kept items limit none s) (hidle : s.inFlight = [])
    (hnone : s.resumptions = []) : ∀ r ∈ s.runners, r = .returned := by
  intro r hr
  obtain ⟨j, hj⟩ := List.getElem?_of_mem hr
  cases r with
  | working i => cases List.filterMap_eq_nil_iff.mp hidle _ hr
  | resuming =>
      have hmem := (hk.waiting j hj).resolve_left (by simp)
      rw [hnone] at hmem
      cases hmem
  | returned => rfl

/-- What a call that has settled says of its runners. -/
theorem Kept.of_outcome {r : Except ε Unit} (hk : Kept items limit none s)
    (hr : s.outcome items = some r) : (∀ r ∈ s.runners, r = .returned) ∧ s.toLaunch = 0 ∧
      r = s.firstError.elim (.ok ()) .error := by
  have hlaunched := hk.launched
  rw [Call.outcome] at hr
  by_cases hempty : items.isEmpty = true
  · rw [if_pos hempty] at hr
    rw [runnersOf, if_pos hempty] at hlaunched
    have hrunners : s.runners = [] := List.length_eq_zero_iff.mp (by omega)
    refine ⟨fun r hmem => absurd (hrunners ▸ hmem) List.not_mem_nil, by omega, ?_⟩
    have hfifo := hk.fifo
    have hends := hk.ends
    rw [List.isEmpty_iff.mp hempty, List.length_nil, Nat.min_zero] at hends
    have hsettled : s.settlements = [] := List.map_eq_nil_iff.mp (List.append_eq_nil_iff.mp hends.eq_nil).2
    rw [hsettled] at hfifo
    rw [hk.error, (List.append_eq_nil_iff.mp hfifo.symm).1]
    exact (Option.some.inj hr).symm
  · rw [if_neg hempty] at hr
    by_cases hdone : s.toLaunch = 0 ∧ s.runners.all (· = .returned)
    · rw [if_pos hdone] at hr
      exact ⟨fun r hmem => of_decide_eq_true (List.all_eq_true.mp hdone.2 r hmem), hdone.1,
        (Option.some.inj hr).symm⟩
    · rw [if_neg hdone] at hr
      cases hr

theorem Kept.settles (hk : Kept items limit none s) (hall : ∀ r ∈ s.runners, r = .returned) :
    s.firstError = firstFailure s.settlements := by
  have hnone : s.resumptions = [] := by
    cases hq : s.resumptions with
    | nil => rfl
    | cons entry rest =>
        have hwaits := hk.queued entry.1 (by rw [hq]; exact List.mem_cons_self)
        cases hall _ (List.mem_of_getElem? hwaits)
  rw [hk.fifo, hnone, List.map_nil, List.append_nil]
  exact hk.error

theorem keeps_of_kept (hk : Kept items limit none s) (hlimit : limit = .nan → items = []) :
    Keeps items limit s := by
  refine ⟨hk.inFlight_le, ?_, hk.halted, fun r hr => ?_, fun hsome hnone => ?_, fun hlaunched hidle hq => ?_⟩
  · rw [hk.starts]
    have htake : items.take s.next <+: items := List.take_prefix _ _
    obtain ⟨rest, hrest⟩ := htake
    rw [← hrest, List.zipIdx_append, hrest]
    exact List.prefix_append _ _
  · obtain ⟨hall, -, hr⟩ := hk.of_outcome hr
    rw [← hk.settles hall]
    exact ⟨inFlight_of_returned hall, hr⟩
  · obtain ⟨r, hr⟩ := Option.isSome_iff_exists.mp hsome
    obtain ⟨hall, hlaunched, -⟩ := hk.of_outcome hr
    have hreached : items.length ≤ s.next := by
      by_cases hitems : items = []
      · rw [hitems]
        exact Nat.zero_le _
      · have hpos := runnersOf_pos hitems fun hnan => hitems (hlimit hnan)
        rw [← hk.launched, hlaunched] at hpos
        obtain ⟨runner, hrunner⟩ := List.exists_mem_of_length_pos hpos
        exact hk.finished ((hk.settles hall).trans hnone) (hall runner hrunner ▸ hrunner)
    have hends := hk.ends
    rw [inFlight_of_returned hall, List.nil_append, Nat.min_eq_right hreached] at hends
    have hok : s.settlements = (s.settlements.map Prod.fst).map fun i => (i, .ok ()) := by
      rw [List.map_map]
      refine (List.map_id _).symm.trans (List.map_congr_left fun settled hmem => ?_)
      obtain ⟨i, outcome⟩ := settled
      have hend := List.findSome?_eq_none_iff.mp hnone _ hmem
      cases outcome with
      | ok => rfl
      | error => cases hend
    refine ⟨?_, ?_⟩
    · rw [hk.starts, List.take_of_length_le hreached]
    · rw [hok]
      exact hends.map _
  · have hall := hk.all_returned hidle hq
    rw [Call.outcome]
    split
    · rfl
    · rw [if_pos ⟨hlaunched, List.all_eq_true.mpr fun r hr => decide_eq_true (hall r hr)⟩]
      rfl

/-- The call does what it is for in every order of events, but for a limit that is no number. -/
theorem keeps_iff (items : List T) (limit : Number) :
    (∀ s : Call T ε, Reaches items limit s → Keeps items limit s) ↔ (limit = .nan → items = []) := by
  constructor
  · rintro hall rfl
    by_contra hitems
    have hzero : runnersOf items .nan = 0 := by
      rw [runnersOf, if_neg (by simpa using hitems)]
      rfl
    have hkeeps := hall _ .begin
    have hdone : (begin items .nan : Call T ε).outcome items = some (.ok ()) := by
      rw [Call.outcome, if_neg (by simpa using hitems), if_pos ⟨hzero, rfl⟩]
      rfl
    have hstarts := (hkeeps.once (by rw [hdone]; rfl) rfl).1
    exact hitems (List.zipIdx_eq_nil_iff.mp hstarts.symm)
  · exact fun hlimit s hr => keeps_of_kept hr.kept hlimit

/-- For a limit that is not a number, a call over one item resolves and has run nothing. -/
theorem nan_runs_nothing : ¬ ∀ (items : List Nat) (limit : Number) (s : Call Nat String),
    Reaches items limit s → Keeps items limit s := by
  intro hall
  have hstarts := ((hall [0] .nan _ .begin).once rfl rfl).1
  cases hstarts

end Ownpace.Concurrency
