/-
Ownpace/Cutover/Halves.lean

The ledger and the lifecycle beside it, over runs in which steps are cut off
between their two writes and run again.

The lifecycle is written first, so what a cut-off step leaves is a lifecycle
that has moved beside a ledger that has not.  For a cutover step that is a
lifecycle past its cutover too early, which contradicts nothing.  For a
rollback it is a source that is the authority again beside a ledger still in
its cutover, until the rollback is run again: `Traced.setBack` says so.
-/
import Mathlib.Logic.Relation
import Ownpace.Cutover.Steps

namespace Ownpace.Cutover

open CutoverState Lifecycle

/-- The ledgers of a migration, and the lifecycle beside the one that moves. -/
structure World where
  ledgers : CutoverLedgers
  status : MappingLifecycle

/-- A write of a step. -/
inductive Write where
  | setStatus (toState : MappingLifecycle)
  | transitionState (toState : CutoverState) (metadata : TransitionMetadata)

/-- The lifecycle first, the ledger second. -/
def StepPlan.writes (p : StepPlan) : List Write :=
  (p.setStatus.map Write.setStatus).toList ++ [.transitionState p.toState p.metadata]

/-- Make a write: the ledger's of `ledger`, `none` for the whole migration's. -/
def Write.apply (ledger : Option DiscoveryDomain) (now : Nat) (w : World) : Write → World
  | setStatus toState => { w with status := toState }
  | transitionState toState metadata =>
    match w.ledgers.transitionState now toState (.metadata metadata) ledger with
    | .ok (ledgers, _) => { w with ledgers }
    | .error _ => w

/-- How far a step came. -/
inductive Progress where
  | refused
  | cutOff
  | finished
  deriving DecidableEq

/-- Run a step, cut off after `cut` writes if it makes more. -/
def attempt (ledger : Option DiscoveryDomain) (s : Step) (cut now : Nat) (w : World) :
    World × Progress :=
  match s.plan (w.ledgers.loadCutoverState ledger) w.status.state with
  | .error _ => (w, .refused)
  | .ok p =>
    ((p.writes.take cut).foldl (Write.apply ledger now) w,
      if cut < p.writes.length then .cutOff else .finished)

/-- A lifecycle whose source is no longer the authority. -/
def World.PastCutover (w : World) : Prop := isAfterCutover w.status.state = true

/-- A world, and what it came from. -/
structure Traced where
  world : World
  /-- A rollback was cut off after it wrote the lifecycle, and no step has
  finished since. -/
  setBack : Bool
  /-- A status update or a finish took the lifecycle past its cutover, and no
  rollback has finished since. -/
  declared : Bool

/-- What happens to the ledger and the lifecycle. -/
inductive Event where
  /-- A step, cut off after `cut` writes if it makes more. -/
  | attempt (s : Step) (cut now : Nat)
  /-- A call to the store: a verification, an approval, the grace period, a
  failure, a beginning, another ledger's move. -/
  | store (c : Call) (now : Nat)
  | start
  | update (toState : MappingLifecycle)
  | finish (unresolvedFailures : Nat) (force : Bool)

/-- The states only a step moves a ledger to. -/
def stepStates : List CutoverState := [CUTOVER_IN_PROGRESS, COMPLETED, ROLLED_BACK]

/-- The states `stepStates` are a step's alone, and a move goes where it says. -/
def Event.Proper (ledger : Option DiscoveryDomain) : Event → Prop
  | store (.transitionState toState m domain) _ =>
    domain = ledger → toState ∉ stepStates ∧ m.named.state = none
  | _ => True

/-- The lifecycle moves to `toState` by another door than a step's. -/
def Traced.move (t : Traced) (toState : MappingLifecycle) : Traced where
  world := { t.world with status := toState }
  setBack := t.setBack
  declared := t.declared ||
    (isAfterCutover toState.state && !isAfterCutover t.world.status.state)

def Event.run (ledger : Option DiscoveryDomain) (t : Traced) : Event → Traced
  | attempt s cut now =>
    let r := Cutover.attempt ledger s cut now t.world
    { world := r.1
      setBack := match r.2 with
        | .refused => t.setBack
        | .cutOff => t.setBack || (s.toState = ROLLED_BACK && r.1.status ≠ t.world.status)
        | .finished => false
      declared := t.declared && !(r.2 = .finished && s.toState = ROLLED_BACK) }
  | store c now => { t with world := { t.world with ledgers := c.run t.world.ledgers now } }
  | start => if startTransition t.world.status = .activate true then t.move .active else t
  | update toState =>
    match updateTransition t.world.status toState with
    | .apply _ next => t.move next
    | _ => t
  | finish unresolvedFailures force =>
    if finishTransition t.world.status unresolvedFailures force = .finish then t.move .done else t

def run (ledger : Option DiscoveryDomain) (t : Traced) (events : List Event) : Traced :=
  events.foldl (Event.run ledger) t

/-- The ledger and the lifecycle beside it agree, as far as what cut a step off
or moved the lifecycle apart from it allows. -/
structure Agree (ledger : Option DiscoveryDomain) (t : Traced) : Prop where
  /-- A data type is on a ledger of its own. -/
  own : ledger ≠ none → t.world.ledgers.rows ledger ≠ none
  underWay : ∀ row, t.world.ledgers.rows ledger = some row →
    row.state = CUTOVER_IN_PROGRESS ∨ row.state = GRACE_PERIOD →
    t.world.PastCutover ∨ t.setBack = true
  completed : ∀ row, t.world.ledgers.rows ledger = some row → row.state = COMPLETED →
    t.world.PastCutover
  rolledBack : ∀ row, t.world.ledgers.rows ledger = some row → row.state = ROLLED_BACK →
    ¬ t.world.PastCutover ∨ t.declared = true

/-! ### One attempt -/

variable {ledger : Option DiscoveryDomain}

theorem load_own {s : CutoverLedgers} {row : CutoverRow} (h : s.rows ledger = some row) :
    s.loadCutoverState ledger = some (mapRowToStatus ledger row) := by
  unfold CutoverLedgers.loadCutoverState
  rw [h]

theorem updateCutoverStatus_valid (now : Nat) {status : CutoverStatus} {newState : CutoverState}
    (reason : Option String) (hvalid : isValidTransition status.state newState = true) :
    ∃ updated, updateCutoverStatus now status newState reason = .ok updated := by
  unfold updateCutoverStatus
  rw [hvalid, Bool.not_true, if_neg Bool.false_ne_true]
  dsimp only
  split
  · exact ⟨_, rfl⟩
  · split
    · exact ⟨_, rfl⟩
    · exact ⟨_, rfl⟩

/-- A transition of a ledger's own row along the table, other than to begin
again, is not refused. -/
theorem transitionState_own {s : CutoverLedgers} {row : CutoverRow} (now : Nat)
    {toState : CutoverState} (m : MetadataOrReason) (hrow : s.rows ledger = some row)
    (hvalid : isValidTransition row.state toState = true) (hto : toState ≠ PREPARING) :
    ∃ s' status row', s.transitionState now toState m ledger = .ok (s', status) ∧
      s'.rows = Function.update s.rows ledger (some row') ∧
      Written (mapRowToStatus ledger row) toState m.named row' := by
  have hmay : s.whoseLedgerMayMove (mapRowToStatus ledger row) toState ledger = none := by
    unfold CutoverLedgers.whoseLedgerMayMove
    cases ledger with
    | none => exact if_neg hto
    | some d => rfl
  have hstate : isValidTransition (mapRowToStatus ledger row).state toState = true := hvalid
  have hok : ∃ p, s.transitionState now toState m ledger = .ok p := by
    obtain ⟨updated, hup⟩ := updateCutoverStatus_valid now m.extractReason hstate
    unfold CutoverLedgers.transitionState
    rw [load_own hrow]
    dsimp only
    rw [hmay]
    dsimp only
    rw [hstate, Bool.not_true, if_neg Bool.false_ne_true, hup]
    exact ⟨_, rfl⟩
  obtain ⟨⟨s', status⟩, hok⟩ := hok
  obtain ⟨current, row', hload, _, _, hrows, hwritten⟩ := CutoverLedgers.transitionState_ok hok
  rw [load_own hrow] at hload
  cases hload
  exact ⟨s', status, row', hok, hrows, hwritten⟩

/-- What an attempt leaves: nothing written, the lifecycle alone, or both. -/
inductive Left (ledger : Option DiscoveryDomain) (s : Step) (row : CutoverRow) (w : World) :
    World × Progress → Prop
  | refused : (∀ p, s.plan (w.ledgers.loadCutoverState ledger) w.status.state ≠ .ok p) →
      Left ledger s row w (w, .refused)
  | nothing {p} : Planned s row.state w.status.state p → Left ledger s row w (w, .cutOff)
  | lifecycle {p toState} : Planned s row.state w.status.state p → p.setStatus = some toState →
      Left ledger s row w ({ w with status := toState }, .cutOff)
  | both {p} {ledgers : CutoverLedgers} {row'} : Planned s row.state w.status.state p →
      ledgers.rows = Function.update w.ledgers.rows ledger (some row') →
      Written (mapRowToStatus ledger row) s.toState p.metadata row' →
      Left ledger s row w (⟨ledgers, p.setStatus.getD w.status⟩, .finished)

theorem left_of_attempt (s : Step) (cut now : Nat) {w : World} {row : CutoverRow}
    (hrow : w.ledgers.rows ledger = some row) : Left ledger s row w (attempt ledger s cut now w) := by
  unfold attempt
  cases hplan : s.plan (w.ledgers.loadCutoverState ledger) w.status.state with
  | error e =>
      refine .refused fun p hp => ?_
      rw [hplan] at hp
      cases hp
  | ok p =>
      obtain ⟨state, hload, hp⟩ := planned hplan
      rw [load_own hrow] at hload
      cases hload
      dsimp only
      have hto : p.toState ≠ PREPARING := hp.toState ▸ s.toState_ne_preparing
      have hvalid : isValidTransition row.state p.toState = true := by
        rw [hp.toState]
        exact hp.valid
      -- The ledger's half, on whatever lifecycle stands beside it.
      have hboth (w₁ : World) (h₁ : w₁.ledgers = w.ledgers) : ∃ ledgers row',
          Write.apply ledger now w₁ (.transitionState p.toState p.metadata) =
            { w₁ with ledgers } ∧
          ledgers.rows = Function.update w.ledgers.rows ledger (some row') ∧
          Written (mapRowToStatus ledger row) s.toState p.metadata row' := by
        obtain ⟨ledgers, status, row', hok, hrows, hwritten⟩ :=
          transitionState_own now (.metadata p.metadata) (h₁ ▸ hrow) hvalid hto
        refine ⟨ledgers, row', ?_, h₁ ▸ hrows, hp.toState ▸ hwritten⟩
        simp only [Write.apply, hok]
      cases hset : p.setStatus with
      | none =>
          have hwrites : p.writes = [.transitionState p.toState p.metadata] := by
            rw [StepPlan.writes, hset]
            rfl
          rw [hwrites]
          obtain ⟨ledgers, row', happly, hrows, hwritten⟩ := hboth w rfl
          have hleft := Left.both hp hrows hwritten
          rw [hset] at hleft
          rcases cut with - | n
          · exact .nothing hp
          · have hall : ¬ n + 1 < [Write.transitionState p.toState p.metadata].length :=
              Nat.not_lt.mpr (Nat.le_add_left 1 n)
            rw [if_neg hall, List.take_succ_cons, List.take_nil, List.foldl_cons, List.foldl_nil, happly]
            exact hleft
      | some toState =>
          have hwrites : p.writes = [.setStatus toState, .transitionState p.toState p.metadata] := by
            rw [StepPlan.writes, hset]
            rfl
          rw [hwrites]
          obtain ⟨ledgers, row', happly, hrows, hwritten⟩ :=
            hboth { w with status := toState } rfl
          have hleft := Left.both hp hrows hwritten
          rw [hset] at hleft
          rcases cut with - | - | n
          · exact .nothing hp
          · exact .lifecycle hp hset
          · have hall : ¬ n + 2 <
                [Write.setStatus toState, .transitionState p.toState p.metadata].length :=
              Nat.not_lt.mpr (Nat.le_add_left 2 n)
            rw [if_neg hall, List.take_succ_cons, List.take_succ_cons, List.take_nil]
            show Left ledger s row w (Write.apply ledger now { w with status := toState }
              (.transitionState p.toState p.metadata), _)
            rw [happly]
            exact hleft

/-! ### What an event keeps -/

variable {t : Traced}

theorem attempt_no_row {s : Step} {cut now : Nat} {w : World} (hown : ledger = none)
    (hrow : w.ledgers.rows ledger = none) : attempt ledger s cut now w = (w, .refused) := by
  have hload : w.ledgers.loadCutoverState ledger = none := by
    unfold CutoverLedgers.loadCutoverState
    rw [hrow, ← hown, hrow]
    rfl
  unfold attempt
  cases hplan : s.plan (w.ledgers.loadCutoverState ledger) w.status.state with
  | error e => rfl
  | ok p =>
      obtain ⟨state, hsome, _⟩ := planned hplan
      rw [hload] at hsome
      cases hsome

/-- A cutover step leaves the lifecycle past its cutover. -/
theorem Planned.past {s : Step} {fromState : CutoverState} {status : MappingLifecycle}
    {p : StepPlan} (h : Planned s fromState status.state p) (hs : s.toState ≠ ROLLED_BACK) :
    isAfterCutover (p.setStatus.getD status).state = true := by
  rcases h.cutover hs with ⟨hset, _⟩ | ⟨hset, hafter⟩
  · rw [hset]
    rfl
  · rw [hset]
    exact hafter

/-- A rollback leaves it before its cutover. -/
theorem Planned.before {s : Step} {fromState : CutoverState} {status : MappingLifecycle}
    {p : StepPlan} (h : Planned s fromState status.state p) (hs : s.toState = ROLLED_BACK) :
    isAfterCutover (p.setStatus.getD status).state = false := by
  rcases h.rollback hs with ⟨hset, _⟩ | ⟨hset, hst | hst⟩
  · rw [hset]
    rfl
  · rw [hset]
    show isAfterCutover status.state = false
    rw [hst]
    rfl
  · rw [hset]
    show isAfterCutover status.state = false
    rw [hst]
    rfl

theorem Written.at_toState {current : CutoverStatus} {toState : CutoverState}
    {m : TransitionMetadata} {row : CutoverRow} (h : Written current toState m row)
    (hm : m.state = none) : row.state = toState := by
  rw [h.state, hm]
  rfl

theorem agree_attempt (h : Agree ledger t) (s : Step) (cut now : Nat) :
    Agree ledger (Event.run ledger t (.attempt s cut now)) := by
  cases hrow : t.world.ledgers.rows ledger with
  | none =>
      have hown : ledger = none := by
        by_contra hne
        exact h.own hne hrow
      simp only [Event.run, attempt_no_row hown hrow]
      simpa using h
  | some row =>
      have hleft := left_of_attempt s cut now hrow
      simp only [Event.run]
      generalize attempt ledger s cut now t.world = r at hleft ⊢
      cases hleft with
      | refused => simpa using h
      | nothing => simpa using h
      | @lifecycle p toState hp hset =>
          have hvalid := hp.valid
          constructor
          case own => exact h.own
          case underWay =>
            intro row' hrow' hstate
            by_cases hs : s.toState = ROLLED_BACK
            · -- The rollback was cut off, and the lifecycle is before its cutover.
              refine .inr ?_
              have hmoved : toState ≠ t.world.status := by
                rintro rfl
                have hbefore := hp.before hs
                rw [hset] at hbefore
                rcases hp.rollback hs with ⟨_, hst | hst⟩ | ⟨hnone, _⟩
                · change isAfterCutover t.world.status.state = false at hbefore
                  rw [hst] at hbefore
                  cases hbefore
                · change isAfterCutover t.world.status.state = false at hbefore
                  rw [hst] at hbefore
                  cases hbefore
                · rw [hset] at hnone
                  cases hnone
              simp [hs, hmoved]
            · have hpast := hp.past hs
              rw [hset] at hpast
              exact .inl hpast
          case completed =>
            intro row' hrow' hstate
            rw [hrow] at hrow'
            cases hrow'
            rw [hstate] at hvalid
            cases hvalid
          case rolledBack =>
            intro row' hrow' hstate
            rw [hrow] at hrow'
            cases hrow'
            rw [hstate] at hvalid
            revert hvalid
            cases s <;> exact nofun
      | @both p ledgers row' hp hrows hwritten =>
          have hself : ledgers.rows ledger = some row' := by rw [hrows, Function.update_self]
          have hat := hwritten.at_toState hp.state
          constructor
          case own =>
            intro _ hnone
            rw [hself] at hnone
            cases hnone
          case underWay =>
            intro r hr hstate
            rw [hself] at hr
            cases hr
            refine .inl (hp.past ?_)
            intro hs
            rw [hat, hs] at hstate
            rcases hstate with hstate | hstate <;> cases hstate
          case completed =>
            intro r hr hstate
            rw [hself] at hr
            cases hr
            refine hp.past ?_
            intro hs
            rw [hat, hs] at hstate
            cases hstate
          case rolledBack =>
            intro r hr hstate
            rw [hself] at hr
            cases hr
            refine .inl ?_
            have hbefore := hp.before (hat.symm.trans hstate)
            unfold World.PastCutover
            rw [hbefore]
            exact Bool.false_ne_true

/-- Another door leaves the ledger, and takes no lifecycle back before its cutover. -/
theorem agree_move (h : Agree ledger t) {toState : MappingLifecycle}
    (hafter : t.world.PastCutover → isAfterCutover toState.state = true) :
    Agree ledger (t.move toState) where
  own := h.own
  underWay row hrow hstate := (h.underWay row hrow hstate).imp hafter id
  completed row hrow hstate := hafter (h.completed row hrow hstate)
  rolledBack row hrow hstate := by
    rcases h.rolledBack row hrow hstate with hbefore | hdeclared
    · cases hto : isAfterCutover toState.state with
      | false =>
          refine .inl ?_
          show ¬ isAfterCutover toState.state = true
          rw [hto]
          exact Bool.false_ne_true
      | true =>
          have hfrom : isAfterCutover t.world.status.state = false := Bool.not_eq_true _ ▸ hbefore
          exact .inr (by simp [Traced.move, hto, hfrom])
    · exact .inr (by simp [Traced.move, hdeclared])

/-- A call to the store leaves the ledger's row, or moves it along the table to
a state that is no step's. -/
theorem call_row {s : CutoverLedgers} {c : Call} {now : Nat}
    (hc : (Event.store c now).Proper ledger) :
    (c.run s now).rows ledger = s.rows ledger ∨
      ∃ row', (c.run s now).rows ledger = some row' ∧ row'.state ∉ stepStates ∧
        (row'.state = PREPARING ∨
          ∃ row, s.rows ledger = some row ∧ isValidTransition row.state row'.state = true) := by
  cases c with
  | loadCutoverState domain => exact .inl rfl
  | initializeCutover targetMailServer startedBy domain =>
      cases hrun : s.initializeCutover now targetMailServer startedBy domain with
      | error e =>
          simp only [Call.run, hrun]
          exact .inl trivial
      | ok p =>
          obtain ⟨s', status⟩ := p
          simp only [Call.run, hrun]
          rcases CutoverLedgers.initializeCutover_ok hrun with rfl | ⟨_, _, row', hrows, hstate, _⟩
          · exact .inl rfl
          · by_cases hdomain : ledger = domain
            · subst hdomain
              refine .inr ⟨row', by rw [hrows, Function.update_self], ?_, .inl hstate⟩
              rw [hstate]
              decide
            · exact .inl (by rw [hrows, Function.update_of_ne hdomain])
  | transitionState toState m domain =>
      cases hrun : s.transitionState now toState m domain with
      | error e =>
          simp only [Call.run, hrun]
          exact .inl trivial
      | ok p =>
          obtain ⟨s', status⟩ := p
          simp only [Call.run, hrun]
          obtain ⟨current, row', hload, hmay, hvalid, hrows, hwritten⟩ :=
            CutoverLedgers.transitionState_ok hrun
          by_cases hdomain : domain = ledger
          · subst hdomain
            obtain ⟨hto, hm⟩ := hc rfl
            have hat := hwritten.at_toState hm
            refine .inr ⟨row', by rw [hrows, Function.update_self], hat ▸ hto, ?_⟩
            obtain ⟨row, hcurrent, ⟨hrow, _⟩ | ⟨hnone, hwhole, hdom⟩⟩ := loadCutoverState_eq hload
            · refine .inr ⟨row, hrow, ?_⟩
              rw [hat]
              rw [hcurrent] at hvalid
              exact hvalid
            · refine .inl ?_
              cases domain with
              | none => rw [hnone] at hwhole; cases hwhole
              | some d => exact hat.trans (CutoverLedgers.begins_of_leaves hdom hmay).2
          · exact .inl (by rw [hrows, Function.update_of_ne (Ne.symm hdomain)])

theorem agree_store (h : Agree ledger t) {c : Call} {now : Nat}
    (hc : (Event.store c now).Proper ledger) : Agree ledger (Event.run ledger t (.store c now)) := by
  simp only [Event.run]
  rcases call_row (s := t.world.ledgers) hc with hsame | ⟨row', hrow', hstep, hfrom⟩
  · exact ⟨by rw [hsame]; exact h.own, by rw [hsame]; exact h.underWay,
      by rw [hsame]; exact h.completed, by rw [hsame]; exact h.rolledBack⟩
  · constructor
    case own =>
      intro _ hnone
      rw [hrow'] at hnone
      cases hnone
    case underWay =>
      intro r hr hstate
      rw [hrow'] at hr
      cases hr
      rcases hstate with hstate | hstate
      · rw [hstate] at hstep
        exact absurd List.mem_cons_self hstep
      · -- GRACE_PERIOD is entered from CUTOVER_IN_PROGRESS.
        rcases hfrom with hfrom | ⟨row, hrow, hvalid⟩
        · rw [hstate] at hfrom
          cases hfrom
        · refine h.underWay row hrow (.inl ?_)
          rw [hstate] at hvalid
          revert hvalid
          cases row.state <;> decide
    case completed =>
      intro r hr hstate
      rw [hrow'] at hr
      cases hr
      rw [hstate] at hstep
      exact absurd (by decide) hstep
    case rolledBack =>
      intro r hr hstate
      rw [hrow'] at hr
      cases hr
      rw [hstate] at hstep
      exact absurd (by decide) hstep

theorem agree_step (h : Agree ledger t) {e : Event} (he : e.Proper ledger) :
    Agree ledger (Event.run ledger t e) := by
  cases e with
  | attempt s cut now => exact agree_attempt h s cut now
  | store c now => exact agree_store h he
  | start =>
      simp only [Event.run]
      split
      · next hstart =>
          refine agree_move h fun hpast => ?_
          unfold World.PastCutover at hpast
          rw [startTransition_activate hstart] at hpast
          cases hpast
      · exact h
  | update toState =>
      simp only [Event.run]
      split
      · next fromState next hupdate =>
          obtain ⟨_, hnext, _, _, hafter⟩ := updateTransition_apply hupdate
          rw [hnext]
          exact agree_move h hafter
      · exact h
  | finish unresolvedFailures force =>
      simp only [Event.run]
      split
      · exact agree_move h fun _ => rfl
      · exact h

theorem agree_run (h : Agree ledger t) {events : List Event}
    (hproper : ∀ e ∈ events, e.Proper ledger) : Agree ledger (run ledger t events) := by
  induction events generalizing t with
  | nil => exact h
  | cons e events ih =>
      exact ih (agree_step h (hproper e List.mem_cons_self))
        fun e' he' => hproper e' (List.mem_cons_of_mem _ he')

/-! ### A step that is run again -/

/-- `w'` is what attempts of one step, each of them cut off, make of `w`. -/
def Interrupted (ledger : Option DiscoveryDomain) (s : Step) : World → World → Prop :=
  Relation.ReflTransGen fun w w' => ∃ cut now, attempt ledger s cut now w = (w', .cutOff)

/-- The lifecycle a step leaves, from the one it found. -/
def Step.leaves (s : Step) (status : MappingLifecycle) : MappingLifecycle :=
  if s.toState = ROLLED_BACK then
    if status = .cutover ∨ status = .continuous then .active else status
  else if isAfterCutover status.state then status else .cutover

theorem Step.leaves_leaves (s : Step) (status : MappingLifecycle) :
    s.leaves (s.leaves status) = s.leaves status := by
  cases s <;> cases status <;> rfl

theorem Step.leaves_not_active {s : Step} (hs : s.toState ≠ ROLLED_BACK) (status : MappingLifecycle) :
    s.leaves status ≠ .active := by
  unfold Step.leaves
  rw [if_neg hs]
  cases status <;> decide

theorem Planned.leaves {s : Step} {fromState : CutoverState} {status : MappingLifecycle}
    {p : StepPlan} (h : Planned s fromState status.state p) :
    p.setStatus.getD status = s.leaves status := by
  unfold Step.leaves
  by_cases hs : s.toState = ROLLED_BACK
  · rw [if_pos hs]
    rcases h.rollback hs with ⟨hset, hst⟩ | ⟨hset, hst⟩ <;> rw [hset] <;>
      revert hst <;> cases status <;> decide
  · rw [if_neg hs]
    rcases h.cutover hs with ⟨hset, hst⟩ | ⟨hset, hst⟩ <;> rw [hset] <;>
      revert hst <;> cases status <;> decide

/-- A step that is not refused is not refused on the lifecycle it leaves. -/
theorem plan_again {s : Step} {state : Option CutoverStatus} {status : MappingLifecycle}
    {p : StepPlan} (h : s.plan state status.state = .ok p) :
    ∃ p', s.plan state (s.leaves status).state = .ok p' := by
  obtain ⟨read, rfl, hp⟩ := planned h
  have hready : (s.leaves status).state ≠ .ready := by cases s.leaves status <;> exact nofun
  cases s with
  | enterCutover => exact step_of_valid hp.valid hready
  | closeCutover => exact step_of_valid hp.valid hready
  | performRollback reason =>
      have hleft : ((Step.performRollback reason).leaves status).state = .active ∨
          ((Step.performRollback reason).leaves status).state = .paused := by
        have hleaves : (Step.performRollback reason).leaves status =
            if status = .cutover ∨ status = .continuous then .active else status := rfl
        rw [hleaves]
        have hst := (hp.rollback rfl).imp And.right And.right
        clear * - hst
        revert hst
        cases status <;> decide
      exact performRollback_of_valid hp.valid
        (by rcases hleft with h | h <;> rw [h] <;> decide) (by rcases hleft with h | h <;> rw [h] <;> decide)

/-- A cut-off step has written nothing, or the lifecycle. -/
theorem interrupted_left {s : Step} {w w' : World} {row : CutoverRow}
    (hrow : w.ledgers.rows ledger = some row) (h : Interrupted ledger s w w') :
    w'.ledgers = w.ledgers ∧ (w'.status = w.status ∨ w'.status = s.leaves w.status) := by
  induction h with
  | refl => exact ⟨rfl, .inl rfl⟩
  | @tail w₁ w₂ _ hstep ih =>
      obtain ⟨cut, now, hstep⟩ := hstep
      obtain ⟨hledgers, hstatus⟩ := ih
      have hleft := left_of_attempt s cut now (hledgers ▸ hrow)
      rw [hstep] at hleft
      cases hleft with
      | nothing => exact ⟨hledgers, hstatus⟩
      | @lifecycle p toState hp hset =>
          have hleaves := hp.leaves
          rw [hset] at hleaves
          refine ⟨hledgers, .inr ?_⟩
          show toState = s.leaves w.status
          rcases hstatus with hstatus | hstatus
          · rw [← hstatus]
            exact hleaves
          · rw [← s.leaves_leaves, ← hstatus]
            exact hleaves

theorem writes_length (p : StepPlan) : p.writes.length ≤ 2 := by
  unfold StepPlan.writes
  cases p.setStatus with
  | none => simp
  | some toState => simp

/-- An attempt that is not cut off finishes where the step is not refused. -/
theorem finished_iff {s : Step} {now : Nat} {w : World} :
    (attempt ledger s 2 now w).2 = .finished ↔
      ∃ p, s.plan (w.ledgers.loadCutoverState ledger) w.status.state = .ok p := by
  unfold attempt
  cases s.plan (w.ledgers.loadCutoverState ledger) w.status.state with
  | error e =>
      dsimp only
      constructor
      · intro h
        cases h
      · rintro ⟨p, hp⟩
        cases hp
  | ok p =>
      dsimp only
      rw [if_neg (Nat.not_lt.mpr (writes_length p))]
      exact ⟨fun _ => ⟨p, rfl⟩, fun _ => rfl⟩

/-- Two worlds a step ended in, from a lifecycle that was `found`. -/
structure SameEnd (ledger : Option DiscoveryDomain) (s : Step) (found : MappingLifecycle)
    (w₁ w₂ : World) : Prop where
  status : w₂.status = w₁.status
  state : (w₂.ledgers.rows ledger).map (·.state) = (w₁.ledgers.rows ledger).map (·.state)
  /-- What `execute` found `active` has no part in this. -/
  copiesThroughGrace : ¬ (s.toState = CUTOVER_IN_PROGRESS ∧ found = .active) →
    (w₂.ledgers.rows ledger).map (·.copiesThroughGrace) =
      (w₁.ledgers.rows ledger).map (·.copiesThroughGrace)

/-- A step run to its end: what it leaves on the ledger and the lifecycle. -/
theorem finished_left {s : Step} {now : Nat} {w : World} {row : CutoverRow}
    (hrow : w.ledgers.rows ledger = some row)
    (hfin : (attempt ledger s 2 now w).2 = .finished) :
    (attempt ledger s 2 now w).1.status = s.leaves w.status ∧
      ∃ row', (attempt ledger s 2 now w).1.ledgers.rows ledger = some row' ∧
        row'.state = s.toState ∧
        row'.copiesThroughGrace =
          if s.toState = CUTOVER_IN_PROGRESS then decide (w.status.state = .active)
          else row.copiesThroughGrace := by
  have hleft := left_of_attempt s 2 now hrow
  generalize attempt ledger s 2 now w = r at hleft hfin ⊢
  cases hleft with
  | refused => cases hfin
  | nothing => cases hfin
  | lifecycle => cases hfin
  | @both p ledgers row' hp hrows hwritten =>
      refine ⟨hp.leaves, row', by rw [hrows, Function.update_self], hwritten.at_toState hp.state, ?_⟩
      rw [hwritten.copiesThroughGrace, hp.copies]
      by_cases hs : s.toState = CUTOVER_IN_PROGRESS
      · simp [hs]
      · simp [hs, mapRowToStatus]

theorem rerun {s : Step} {now₁ now₂ : Nat} {w w' : World} {row : CutoverRow}
    (hrow : w.ledgers.rows ledger = some row)
    (hfin : (attempt ledger s 2 now₁ w).2 = .finished) (h : Interrupted ledger s w w') :
    (attempt ledger s 2 now₂ w').2 = .finished ∧
      SameEnd ledger s w.status (attempt ledger s 2 now₁ w).1 (attempt ledger s 2 now₂ w').1 := by
  obtain ⟨hledgers, hstatus⟩ := interrupted_left hrow h
  have hfin' : (attempt ledger s 2 now₂ w').2 = .finished := by
    obtain ⟨p, hplan⟩ := finished_iff.mp hfin
    rw [finished_iff, hledgers]
    rcases hstatus with hstatus | hstatus
    · exact ⟨p, hstatus ▸ hplan⟩
    · exact hstatus ▸ plan_again hplan
  obtain ⟨hend, row₁, hrow₁, hstate₁, hcopies₁⟩ := finished_left hrow hfin
  obtain ⟨hend', row₂, hrow₂, hstate₂, hcopies₂⟩ := finished_left (hledgers ▸ hrow) hfin'
  refine ⟨hfin', ?_⟩
  constructor
  case status =>
    rw [hend, hend']
    rcases hstatus with hstatus | hstatus
    · rw [hstatus]
    · rw [hstatus, s.leaves_leaves]
  case state => rw [hrow₁, hrow₂, Option.map_some, Option.map_some, hstate₁, hstate₂]
  case copiesThroughGrace =>
    intro hactive
    rw [hrow₁, hrow₂, Option.map_some, Option.map_some, hcopies₁, hcopies₂]
    by_cases hs : s.toState = CUTOVER_IN_PROGRESS
    · have hstill : w.status ≠ .active := fun hst => hactive ⟨hs, hst⟩
      have hstill' : w'.status ≠ .active := by
        rcases hstatus with hstatus | hstatus
        · rw [hstatus]
          exact hstill
        · rw [hstatus]
          exact s.leaves_not_active (by rw [hs]; decide) w.status
      have hnot (status : MappingLifecycle) (hst : status ≠ .active) : status.state ≠ .active :=
        fun h => hst (MappingLifecycle.state_injective h)
      rw [if_pos hs, if_pos hs, decide_eq_false (hnot _ hstill), decide_eq_false (hnot _ hstill')]
    · rw [if_neg hs, if_neg hs]

theorem attempt_refused {s : Step} {cut now : Nat} {w : World}
    (h : (attempt ledger s cut now w).2 = .refused) : (attempt ledger s cut now w).1 = w := by
  revert h
  unfold attempt
  cases s.plan (w.ledgers.loadCutoverState ledger) w.status.state with
  | error e => exact fun _ => rfl
  | ok p =>
      dsimp only
      split
      · exact nofun
      · exact nofun

/-- **The two halves of a step.**  A refused step writes neither.  Over every
run from a world that agrees, whatever was cut off where and run again, ledger
and lifecycle agree as far as `Agree` says.  And a step that was cut off any
number of times and is run again ends as it would have at once. -/
theorem halves_of_run {w₀ : World} (h : Agree ledger ⟨w₀, false, false⟩) {events : List Event}
    (hproper : ∀ e ∈ events, e.Proper ledger) :
    (∀ s cut now w, (attempt ledger s cut now w).2 = .refused →
      (attempt ledger s cut now w).1 = w) ∧
    Agree ledger (run ledger ⟨w₀, false, false⟩ events) ∧
    ∀ s w w' row now₁ now₂, w.ledgers.rows ledger = some row →
      (attempt ledger s 2 now₁ w).2 = .finished → Interrupted ledger s w w' →
      (attempt ledger s 2 now₂ w').2 = .finished ∧
        SameEnd ledger s w.status (attempt ledger s 2 now₁ w).1 (attempt ledger s 2 now₂ w').1 :=
  ⟨fun _ _ _ _ => attempt_refused, agree_run h hproper, fun _ _ _ _ _ _ => rerun⟩

/-- A whole migration's cutover, approved. -/
def approved : List Event :=
  [.store (.initializeCutover none none none) 0,
    .store (.transitionState READY_FOR_CUTOVER .nothing none) 1,
    .store (.transitionState APPROVED .nothing none) 2]

/-- Its rollback, cut off in the grace period. -/
def setBackInGrace : List Event :=
  approved ++ [.attempt .enterCutover 2 3, .store (.transitionState GRACE_PERIOD .nothing none) 4,
    .attempt (.performRollback "the new server is down") 1 5]

/-- A migration before anything of its cutover. -/
def beforeApproval (status : MappingLifecycle) : Traced := ⟨⟨.empty, status⟩, false, false⟩

theorem halves_of_setBackInGrace :
    (run none (beforeApproval .active) setBackInGrace).setBack = true ∧
    ∃ row, ((run none (beforeApproval .paused) approved).world.ledgers.rows none) = some row ∧
      (attempt none .enterCutover 2 8
        (attempt none .enterCutover 1 7 (run none (beforeApproval .paused) approved).world).1).2 =
          .finished := by
  have hbegin (status : MappingLifecycle) : Agree none (beforeApproval status) :=
    ⟨fun h => absurd rfl h, fun _ => nofun, fun _ => nofun, fun _ => nofun⟩
  have hproper : ∀ e ∈ setBackInGrace, e.Proper none := by
    simp [setBackInGrace, approved, Event.Proper, stepStates, MetadataOrReason.named,
      MetadataOrReason.given]
  have hall := halves_of_run (hbegin .active) hproper
  refine ⟨?_, _, rfl, ?_⟩
  · exact (hall.2.1.underWay _ rfl (.inr rfl)).resolve_left (by unfold World.PastCutover; decide)
  · exact (hall.2.2 .enterCutover (run none (beforeApproval .paused) approved).world _ _ 6 8 rfl
      (by decide) (.single ⟨1, 7, rfl⟩)).1

/-- A rollback cut off after its first write leaves GRACE_PERIOD beside a source
that is the authority; and an `execute` cut off there and run again no longer
knows that the migration was `active`. -/
theorem grace_beside_active :
    (∀ e ∈ setBackInGrace, e.Proper none) ∧
    let t := run none (beforeApproval .active) setBackInGrace
    (t.world.ledgers.rows none).map (·.state) = some GRACE_PERIOD ∧ t.world.status = .active ∧
    let w := (run none (beforeApproval .active) approved).world
    ((attempt none .enterCutover 2 3 w).1.ledgers.rows none).map (·.copiesThroughGrace) = some true ∧
    ((attempt none .enterCutover 2 4 (attempt none .enterCutover 1 3 w).1).1.ledgers.rows none).map
      (·.copiesThroughGrace) = some false := by
  refine ⟨?_, by decide, by decide, by decide, by decide⟩
  simp [setBackInGrace, approved, Event.Proper, stepStates, MetadataOrReason.named,
    MetadataOrReason.given]

end Ownpace.Cutover
