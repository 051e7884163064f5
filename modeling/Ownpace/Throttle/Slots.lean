/-
Ownpace/Throttle/Slots.lean

The slots of a throttle limiter.

The count of active requests is the number of calls that hold a slot
(`Pass.Counted`), whatever order the calls, the answers and the errors come in:
each step of a call gives back what it held and takes what it goes on holding
(`Call.Moves`).  From that, and from the attempts each call has begun, come the
limits of `slots_kept`.
-/
import Ownpace.Throttle.Limiter

namespace Ownpace.Throttle

variable {cfg : ThrottleConfig} {shared : Bool} {c c' : Call} {l l' : Limiter} {p p' : Pass}

/-! ### One call -/

/-- The slots a phase holds. -/
def Phase.slots (phase : Phase) : Int := if phase.holds then 1 else 0

/-- A call went on: the count follows what it holds, and a slot it did not hold
before was free. -/
structure Call.Moves (cfg : ThrottleConfig) (before : Phase) (l : Limiter) (r : Call × Limiter) :
    Prop where
  count : r.2.activeRequests - l.activeRequests = r.1.phase.slots - before.slots
  free : r.1.phase.holds = true → before.holds = true ∨ l.activeRequests < cfg.maxConcurrent

theorem Phase.slots_of_not_holds {phase : Phase} (h : phase.holds = false) : phase.slots = 0 := by
  unfold Phase.slots
  rw [h]
  rfl

/-- A slot is taken where one is free, and waited for otherwise. -/
theorem Call.waitForSlot_moves {before : Phase} (hbefore : before.holds = false) (c : Call)
    (l : Limiter) : Moves cfg before l (waitForSlot cfg c l) := by
  have hzero := Phase.slots_of_not_holds hbefore
  unfold waitForSlot
  split
  · refine ⟨?_, fun hholds => by cases hholds⟩
    rw [hzero, Int.sub_self]
    rfl
  · next hfull =>
      refine ⟨?_, fun _ => .inr (by omega)⟩
      rw [hzero]
      show l.activeRequests + 1 - l.activeRequests = 1 - 0
      omega

/-- What a caught error leaves: a wait or an end, and no slot. -/
theorem Call.catchError_moves (c : Call) (e : Thrown) (random : ℚ) (l : Limiter) :
    (catchError cfg c e random l).1.phase.holds = false ∧
      (catchError cfg c e random l).2.activeRequests = l.activeRequests := by
  unfold catchError
  dsimp only
  split
  · exact ⟨rfl, rfl⟩
  · split
    · exact ⟨rfl, rfl⟩
    · exact ⟨rfl, rfl⟩

theorem Call.throttled_moves (c : Call) (response : Response) (random : ℚ) (l : Limiter) :
    (throttled cfg c response random l).1.phase.holds = false ∧
      (throttled cfg c response random l).2.activeRequests = l.activeRequests := by
  unfold throttled
  dsimp only
  split
  · exact catchError_moves _ _ _ _
  · split
    · exact ⟨rfl, rfl⟩
    · exact catchError_moves _ _ _ _

theorem Call.nextAttempt_moves {before : Phase} (hbefore : before.holds = false) (c : Call)
    (attempt : Nat) (l : Limiter) : Moves cfg before l (nextAttempt cfg c attempt l) := by
  unfold nextAttempt
  split
  · exact waitForSlot_moves hbefore _ l
  · refine ⟨?_, fun hholds => by cases hholds⟩
    rw [Phase.slots_of_not_holds hbefore, Int.sub_self]
    rfl

/-- A slot is given back, and the call goes on without one. -/
theorem Call.Moves.released {before : Phase} (hbefore : before.holds = true) {r : Call × Limiter}
    (h : r.1.phase.holds = false ∧ r.2.activeRequests = (releaseSlot l).activeRequests) :
    Moves cfg before l r := by
  refine ⟨?_, fun hholds => ?_⟩
  · rw [h.2, Phase.slots_of_not_holds h.1]
    unfold Phase.slots
    rw [hbefore]
    show l.activeRequests - 1 - l.activeRequests = 0 - 1
    omega
  · rw [h.1] at hholds
    cases hholds

/-- A slot is kept. -/
theorem Call.Moves.kept {before : Phase} (hbefore : before.holds = true) (hafter : c'.phase.holds = true) :
    Moves cfg before l (c', l) := by
  refine ⟨?_, fun _ => .inl hbefore⟩
  unfold Phase.slots
  rw [hbefore, hafter, Int.sub_self, Int.sub_self]

/-- **A call that goes on** gives back what it held and holds what it took. -/
theorem Call.resume_moves {input : Input} (h : resume cfg shared c input l = some (c', l')) :
    Moves cfg c.phase l (c', l') := by
  cases hphase : c.phase with
  | slotWait =>
      cases input <;> simp only [resume, hphase, Option.some.injEq, reduceCtorEq] at h
      rw [← h]
      exact waitForSlot_moves rfl c l
  | localToken =>
      cases input <;> simp only [resume, hphase, Option.some.injEq, Prod.mk.injEq, reduceCtorEq] at h
      obtain ⟨rfl, rfl⟩ := h
      refine Moves.kept rfl ?_
      split <;> rfl
  | sharedToken =>
      cases input with
      | sharedToken refused random =>
          cases refused with
          | none =>
              simp only [resume, hphase, Option.some.injEq, Prod.mk.injEq] at h
              obtain ⟨rfl, rfl⟩ := h
              exact Moves.kept rfl rfl
          | some e =>
              simp only [resume, hphase, Option.some.injEq] at h
              rw [← h]
              exact Moves.released rfl (catchError_moves c e random _)
      | _ => simp only [resume, hphase, reduceCtorEq] at h
  | request =>
      cases input with
      | answer response random =>
          simp only [resume, hphase, Option.some.injEq] at h
          rw [← h]
          split
          · exact Moves.released rfl (throttled_moves c response random _)
          · exact Moves.released rfl ⟨rfl, rfl⟩
      | failure e random =>
          simp only [resume, hphase, Option.some.injEq] at h
          rw [← h]
          exact Moves.released rfl (catchError_moves c e random _)
      | _ => simp only [resume, hphase, reduceCtorEq] at h
  | pause attempt =>
      cases input <;> simp only [resume, hphase, Option.some.injEq, reduceCtorEq] at h
      rw [← h]
      exact nextAttempt_moves rfl c attempt l
  | returned response => cases input <;> simp only [resume, hphase, reduceCtorEq] at h
  | threw e => cases input <;> simp only [resume, hphase, reduceCtorEq] at h

/-! ### The attempts of a call -/

/-- In an attempt: begun, and its request not made. -/
structure Call.Begun (cfg : ThrottleConfig) (c : Call) : Prop where
  attempts : c.attempts = c.attempt + 1
  within : (c.attempt : Int) ≤ cfg.maxRetries
  requests : c.requests ≤ c.attempt

/-- Between attempts, or done. -/
structure Call.Made (cfg : ThrottleConfig) (c : Call) : Prop where
  attempts : (c.attempts : Int) ≤ max 0 (cfg.maxRetries + 1)
  requests : c.requests ≤ c.attempts
  paused : ∀ n, c.phase = .pause n → c.attempts = n

/-- What a call has done, by where it is. -/
def Call.Fits (cfg : ThrottleConfig) (c : Call) : Prop :=
  match c.phase with
  | .slotWait | .localToken | .sharedToken => c.Begun cfg
  | .request => c.attempts = c.attempt + 1 ∧ (c.attempt : Int) ≤ cfg.maxRetries ∧ c.requests ≤ c.attempts
  | .pause _ | .returned _ | .threw _ => c.Made cfg

theorem Call.Fits.limits (h : c.Fits cfg) :
    c.requests ≤ c.attempts ∧ (c.attempts : Int) ≤ max 0 (cfg.maxRetries + 1) := by
  unfold Fits at h
  split at h
  case h_4 => exact ⟨h.2.2, by omega⟩
  case h_5 | h_6 | h_7 => exact ⟨h.requests, h.attempts⟩
  all_goals
    obtain ⟨hattempts, hwithin, hrequests⟩ := h
    exact ⟨by omega, by omega⟩

theorem Call.waitForSlot_fits (h : c.Begun cfg) : (waitForSlot cfg c l).1.Fits cfg := by
  unfold waitForSlot
  split
  · exact ⟨h.attempts, h.within, h.requests⟩
  · exact ⟨h.attempts, h.within, h.requests⟩

theorem Call.nextAttempt_fits {n : Nat} (hattempts : c.attempts = n) (hrequests : c.requests ≤ n)
    (hmade : (c.attempts : Int) ≤ max 0 (cfg.maxRetries + 1)) :
    (nextAttempt cfg c n l).1.Fits cfg := by
  unfold nextAttempt
  split
  · next hwithin =>
      exact waitForSlot_fits ⟨congrArg (· + 1) hattempts, hwithin, hrequests⟩
  · exact ⟨hmade, hattempts ▸ hrequests, fun n hn => by cases hn⟩

/-- An attempt that has ended, with or without its request. -/
theorem Call.catchError_fits {e : Thrown} {random : ℚ} (hattempts : c.attempts = c.attempt + 1)
    (hwithin : (c.attempt : Int) ≤ cfg.maxRetries) (hrequests : c.requests ≤ c.attempts) :
    (catchError cfg c e random l).1.Fits cfg := by
  have hmade : (c.attempts : Int) ≤ max 0 (cfg.maxRetries + 1) := by omega
  unfold catchError
  dsimp only
  split
  · exact ⟨hmade, hrequests, fun n hn => by cases hn⟩
  · split
    · exact ⟨hmade, hrequests, fun n hn => by cases hn⟩
    · refine ⟨hmade, hrequests, fun n hn => ?_⟩
      cases hn
      exact hattempts

theorem Call.throttled_fits {response : Response} {random : ℚ} (hattempts : c.attempts = c.attempt + 1)
    (hwithin : (c.attempt : Int) ≤ cfg.maxRetries) (hrequests : c.requests ≤ c.attempts) :
    (throttled cfg c response random l).1.Fits cfg := by
  unfold throttled
  dsimp only
  split
  · exact catchError_fits hattempts hwithin hrequests
  · split
    · refine ⟨by show (c.attempts : Int) ≤ _; omega, hrequests, fun n hn => ?_⟩
      cases hn
      exact hattempts
    · exact catchError_fits hattempts hwithin hrequests

/-- **A call that goes on** begins an attempt only while it has one left, and
makes one request in each. -/
theorem Call.resume_fits {input : Input} (hc : c.Fits cfg)
    (h : resume cfg shared c input l = some (c', l')) : c'.Fits cfg := by
  unfold Fits at hc
  cases hphase : c.phase with
  | slotWait =>
      rw [hphase] at hc
      cases input <;> simp only [resume, hphase, Option.some.injEq, reduceCtorEq] at h
      have hfits : (waitForSlot cfg c l).1.Fits cfg := waitForSlot_fits hc
      rwa [h] at hfits
  | localToken =>
      rw [hphase] at hc
      cases input <;> simp only [resume, hphase, Option.some.injEq, Prod.mk.injEq, reduceCtorEq] at h
      obtain ⟨rfl, rfl⟩ := h
      split
      · exact ⟨hc.attempts, hc.within, hc.requests⟩
      · exact ⟨hc.attempts, hc.within, hc.attempts ▸ Nat.succ_le_succ hc.requests⟩
  | sharedToken =>
      rw [hphase] at hc
      cases input with
      | sharedToken refused random =>
          cases refused with
          | none =>
              simp only [resume, hphase, Option.some.injEq, Prod.mk.injEq] at h
              obtain ⟨rfl, rfl⟩ := h
              exact ⟨hc.attempts, hc.within, hc.attempts ▸ Nat.succ_le_succ hc.requests⟩
          | some e =>
              simp only [resume, hphase, Option.some.injEq] at h
              have hrequests : c.requests ≤ c.attempts :=
                hc.attempts ▸ Nat.le_succ_of_le hc.requests
              have hfits : (catchError cfg c e random (releaseSlot l)).1.Fits cfg :=
                catchError_fits hc.attempts hc.within hrequests
              rwa [h] at hfits
      | _ => simp only [resume, hphase, reduceCtorEq] at h
  | request =>
      rw [hphase] at hc
      obtain ⟨hattempts, hwithin, hrequests⟩ := hc
      cases input with
      | answer response random =>
          simp only [resume, hphase, Option.some.injEq] at h
          split at h
          · have hfits : (throttled cfg c response random (releaseSlot l)).1.Fits cfg :=
              throttled_fits hattempts hwithin hrequests
            rwa [h] at hfits
          · cases h
            exact ⟨by show (c.attempts : Int) ≤ _; omega, hrequests, fun n hn => by cases hn⟩
      | failure e random =>
          simp only [resume, hphase, Option.some.injEq] at h
          have hfits : (catchError cfg c e random (releaseSlot l)).1.Fits cfg :=
            catchError_fits hattempts hwithin hrequests
          rwa [h] at hfits
      | _ => simp only [resume, hphase, reduceCtorEq] at h
  | pause attempt =>
      rw [hphase] at hc
      cases input <;> simp only [resume, hphase, Option.some.injEq, reduceCtorEq] at h
      have hpaused := hc.paused attempt hphase
      have hfits : (nextAttempt cfg c attempt l).1.Fits cfg :=
        nextAttempt_fits hpaused (hpaused ▸ hc.requests) hc.attempts
      rwa [h] at hfits
  | returned response => cases input <;> simp only [resume, hphase, reduceCtorEq] at h
  | threw e => cases input <;> simp only [resume, hphase, reduceCtorEq] at h

theorem Call.begin_fits : (begin cfg l).1.Fits cfg :=
  nextAttempt_fits rfl (Nat.le_refl _) (Int.le_max_left _ _)

/-! ### All calls -/

/-- The count is of the calls that hold a slot, and each call keeps to its
attempts. -/
structure Pass.Counted (cfg : ThrottleConfig) (p : Pass) : Prop where
  count : p.limiter.activeRequests = p.holders
  bound : p.limiter.activeRequests ≤ max 0 cfg.maxConcurrent
  fits : ∀ c ∈ p.calls, c.Fits cfg

theorem Pass.holders_append (p : Pass) (c : Call) (l : Limiter) :
    ((holders ⟨l, p.calls ++ [c]⟩ : Nat) : Int) = p.holders + c.phase.slots := by
  unfold holders Phase.slots
  rw [List.countP_append, List.countP_singleton]
  split <;> simp

theorem Pass.holders_set {i : Nat} (hi : p.calls[i]? = some c) (c' : Call) (l : Limiter) :
    ((holders ⟨l, p.calls.set i c'⟩ : Nat) : Int) = p.holders - c.phase.slots + c'.phase.slots := by
  obtain ⟨hlt, hget⟩ := List.getElem?_eq_some_iff.mp hi
  have hmem : c ∈ p.calls := List.mem_of_getElem? hi
  unfold holders Phase.slots
  rw [List.countP_set hlt, hget]
  by_cases hholds : c.phase.holds = true
  · have hpos : 0 < p.calls.countP (·.phase.holds) := List.countP_pos_iff.mpr ⟨c, hmem, hholds⟩
    rw [if_pos hholds, if_pos hholds]
    split <;> omega
  · rw [if_neg hholds, if_neg hholds]
    split <;> omega

/-- What goes on keeps within the bound. -/
theorem Call.Moves.bound {before : Phase} {r : Call × Limiter} (h : Moves cfg before l r)
    (hl : l.activeRequests ≤ max 0 cfg.maxConcurrent) :
    r.2.activeRequests ≤ max 0 cfg.maxConcurrent := by
  have hcount := h.count
  unfold Phase.slots at hcount
  by_cases hholds : r.1.phase.holds = true
  · rw [if_pos hholds] at hcount
    rcases h.free hholds with hbefore | hfree
    · rw [if_pos hbefore] at hcount
      omega
    · split at hcount <;> omega
  · rw [if_neg hholds] at hcount
    split at hcount <;> omega

theorem Pass.Counted.step (hp : p.Counted cfg) (h : Pass.Step cfg shared p p') : p'.Counted cfg := by
  cases h with
  | call =>
      have hmoves : Call.Moves cfg .slotWait p.limiter (Call.begin cfg p.limiter) :=
        Call.nextAttempt_moves rfl _ _ _
      refine ⟨?_, hmoves.bound hp.bound, fun c hc => ?_⟩
      · have hcount := hmoves.count
        rw [Pass.holders_append, ← hp.count]
        rw [show Phase.slots .slotWait = 0 by rfl] at hcount
        show (Call.begin cfg p.limiter).2.activeRequests = _
        omega
      · rcases List.mem_append.mp hc with hc | hc
        · exact hp.fits c hc
        · rw [List.mem_singleton.mp hc]
          exact Call.begin_fits
  | @resume i c c' l input hi hresume =>
      have hmoves := Call.resume_moves hresume
      refine ⟨?_, hmoves.bound hp.bound, fun d hd => ?_⟩
      · have hcount := hmoves.count
        rw [Pass.holders_set hi, ← hp.count]
        dsimp only at hcount ⊢
        omega
      · rcases List.mem_or_eq_of_mem_set hd with hd | rfl
        · exact hp.fits d hd
        · exact Call.resume_fits (hp.fits c (List.mem_of_getElem? hi)) hresume

theorem Pass.Reached.counted (h : p.Reached cfg shared) : p.Counted cfg := by
  induction h with
  | refl => exact ⟨rfl, Int.le_max_left _ _, fun c hc => absurd hc List.not_mem_nil⟩
  | tail _ hstep ih => exact ih.step hstep

theorem Phase.holds_of_sent {phase : Phase} (h : phase.sent = true) : phase.holds = true := by
  cases phase <;> first | rfl | cases h

theorem Pass.inFlight_le (p : Pass) : p.inFlight ≤ p.holders :=
  List.countP_mono_left fun _ _ hsent => Phase.holds_of_sent hsent

theorem Phase.not_holds_of_settled {phase : Phase} (h : phase.settled = true) :
    ¬ phase.holds = true ∧ ¬ phase.waits = true := by
  cases phase with
  | returned response => exact ⟨Bool.false_ne_true, Bool.false_ne_true⟩
  | threw e => exact ⟨Bool.false_ne_true, Bool.false_ne_true⟩
  | slotWait => cases h
  | localToken => cases h
  | sharedToken => cases h
  | request => cases h
  | pause n => cases h

/-- **The slots of a limiter are kept**, in every order of calls, answers, errors
and retries: the count stays within its limit, and so do the requests in flight;
no call makes more than its attempts; and when every call has settled nothing is
held and nobody waits. -/
theorem slots_kept (h : p.Reached cfg shared) :
    (0 ≤ p.limiter.activeRequests ∧ p.limiter.activeRequests ≤ max 0 cfg.maxConcurrent) ∧
      (p.inFlight : Int) ≤ max 0 cfg.maxConcurrent ∧
      (∀ c ∈ p.calls, c.requests ≤ c.attempts ∧ (c.attempts : Int) ≤ max 0 (cfg.maxRetries + 1)) ∧
      ((∀ c ∈ p.calls, c.phase.settled = true) → p.limiter.activeRequests = 0 ∧ p.waiters = 0) := by
  obtain ⟨hcount, hbound, hfits⟩ := h.counted
  have hflight := p.inFlight_le
  refine ⟨⟨by omega, hbound⟩, by omega, fun c hc => (hfits c hc).limits, fun hsettled => ?_⟩
  have hholders : p.holders = 0 :=
    List.countP_eq_zero.mpr fun c hc => (Phase.not_holds_of_settled (hsettled c hc)).1
  refine ⟨?_, List.countP_eq_zero.mpr fun c hc => (Phase.not_holds_of_settled (hsettled c hc)).2⟩
  rw [hcount, hholders]
  rfl

/-- One slot and no retries. -/
def oneSlot : ThrottleConfig := ⟨1, 0, 1000, 60000, 500⟩

/-- A call that was throttled once and threw. -/
def afterThrottled : Pass where
  limiter := ⟨0, ⟨1, 1, 0 + 5, 1⟩⟩
  calls := [⟨.threw (some (rateLimited oneSlot 429)), 0, some (rateLimited oneSlot 429), 1, 1⟩]

theorem reached_throttled : afterThrottled.Reached oneSlot false := by
  have hbegun : (Pass.mk ⟨1, ⟨0, 0, 0, 0⟩⟩ [⟨.localToken, 0, none, 1, 0⟩]).Reached oneSlot false :=
    .tail .refl (.call Pass.init)
  have hsent : (Pass.mk ⟨1, ⟨0, 0, 0, 0⟩⟩ [⟨.request, 0, none, 1, 1⟩]).Reached oneSlot false :=
    .tail hbegun (.resume (i := 0) .token rfl rfl)
  refine .tail hsent (.resume (i := 0) (.answer ⟨429, .ok (some 5)⟩ 0) rfl ?_)
  rfl

theorem slots_kept_throttled :
    afterThrottled.limiter.activeRequests = 0 ∧ afterThrottled.waiters = 0 := by
  refine (slots_kept reached_throttled).2.2.2 fun c hc => ?_
  rw [List.mem_singleton.mp hc]
  rfl

end Ownpace.Throttle
