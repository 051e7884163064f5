/-
Ownpace/Throttle/Limiter.lean

The throttle limiter of a pass (`throttling.ts`): `executeWithThrottling`, cut
at its awaits.

A call is where it awaits, and what it goes on with there; what the limiter
itself keeps is one count of active requests and its statistics.  Between two
awaits nothing else runs, so a step takes one call from an await to the next
(`Call.resume`).  The tokens, the server's answers, the errors, the clock and
the random jitter are the step's input: every one of them may be anything.
-/
import Mathlib.Algebra.Order.Ring.Rat
import Mathlib.Logic.Relation

namespace Ownpace.Throttle

/-! ### Data -/

structure ThrottleConfig where
  maxConcurrent : Int
  maxRetries : Int
  baseBackoffMs : Int
  maxBackoffMs : Int
  jitterMs : Int

structure ThrottleStats where
  throttleEvents : Nat
  retryAttempts : Nat
  totalWaitTimeMs : ℚ
  exceededMaxRetries : Nat

/-- What was thrown: an `Error` or another value, with the codes it and its
cause carry, and its message in lower case. -/
structure Thrown where
  isError : Bool
  code : Option String
  causeCode : Option String
  message : List Char

/-- A response, as far as it is read here; `retryAfter` is the wait its header
asks for in ms, and reading it may throw. -/
structure Response where
  status : Nat
  retryAfter : Except Thrown (Option ℚ)

def transientCodes : List String :=
  ["ECONNRESET", "ECONNREFUSED", "ETIMEDOUT", "EPIPE", "EAI_AGAIN", "UND_ERR_SOCKET",
    "UND_ERR_CONNECT_TIMEOUT", "UND_ERR_HEADERS_TIMEOUT", "UND_ERR_BODY_TIMEOUT"]

def transientWords : List String :=
  ["timeout", "network", "connection", "econn", "etimedout", "epipe", "socket hang up"]

/-- `includes` -/
def includes (text word : List Char) : Bool := text.tails.any word.isPrefixOf

def isTransientError (e : Thrown) : Bool :=
  [e.code, e.causeCode].any (·.any (· ∈ transientCodes)) ||
    transientWords.any fun word => includes e.message word.toList

/-- The error of a call that was throttled to the end. -/
def rateLimited (cfg : ThrottleConfig) (status : Nat) : Thrown where
  isError := true
  code := none
  causeCode := none
  message := "rate limited after ".toList ++ (toString cfg.maxRetries).toList ++
    " retries. status: ".toList ++ (toString status).toList

/-- `min(base * (2^attempt) + random * jitter, max)` -/
def calculateBackoff (cfg : ThrottleConfig) (random : ℚ) (attempt : Nat) : ℚ :=
  min (cfg.baseBackoffMs * 2 ^ attempt + random * cfg.jitterMs) cfg.maxBackoffMs

/-- Where a call awaits. -/
inductive Phase where
  /-- Every slot was taken: look again in 10 ms. -/
  | slotWait
  /-- `bucket.acquire()`, holding a slot -/
  | localToken
  /-- `shared.acquire(…)`, holding a slot -/
  | sharedToken
  /-- `requestFn()`, holding a slot -/
  | request
  /-- The wait before this attempt. -/
  | pause (attempt : Nat)
  | returned (response : Response)
  | threw (error : Option Thrown)

/-- A call of `executeWithThrottling`. -/
structure Call where
  phase : Phase
  attempt : Nat
  lastError : Option Thrown
  /-- Attempts begun, and requests made. -/
  attempts : Nat
  requests : Nat

/-- What the limiter keeps. -/
structure Limiter where
  activeRequests : Int
  stats : ThrottleStats

namespace Phase

/-- Is a slot held? -/
def holds : Phase → Bool
  | localToken => true
  | sharedToken => true
  | request => true
  | slotWait => false
  | pause _ => false
  | returned _ => false
  | threw _ => false

def sent : Phase → Bool
  | request => true
  | slotWait => false
  | localToken => false
  | sharedToken => false
  | pause _ => false
  | returned _ => false
  | threw _ => false

def waits : Phase → Bool
  | slotWait => true
  | localToken => false
  | sharedToken => false
  | request => false
  | pause _ => false
  | returned _ => false
  | threw _ => false

def settled : Phase → Bool
  | returned _ => true
  | threw _ => true
  | slotWait => false
  | localToken => false
  | sharedToken => false
  | request => false
  | pause _ => false

end Phase

/-! ### From one await to the next -/

/-- What an await ended with. -/
inductive Input where
  /-- A timer that ran out. -/
  | timer
  | token
  | sharedToken (refused : Option Thrown) (random : ℚ)
  | answer (response : Response) (random : ℚ)
  | failure (error : Thrown) (random : ℚ)

variable (cfg : ThrottleConfig) (shared : Bool)

/-- The loop of `waitForSlot`. -/
def Call.waitForSlot (c : Call) (l : Limiter) : Call × Limiter :=
  if cfg.maxConcurrent ≤ l.activeRequests then ({ c with phase := .slotWait }, l)
  else ({ c with phase := .localToken }, { l with activeRequests := l.activeRequests + 1 })

/-- The head of the loop of attempts. -/
def Call.nextAttempt (c : Call) (attempt : Nat) (l : Limiter) : Call × Limiter :=
  if (attempt : Int) ≤ cfg.maxRetries then
    Call.waitForSlot cfg { c with attempt := attempt, attempts := c.attempts + 1 } l
  else ({ c with attempt := attempt, phase := .threw c.lastError }, l)

def releaseSlot (l : Limiter) : Limiter := { l with activeRequests := l.activeRequests - 1 }

/-- The `catch` of an attempt; the slot, if one was held, is back. -/
def Call.catchError (c : Call) (e : Thrown) (random : ℚ) (l : Limiter) : Call × Limiter :=
  let c := { c with lastError := some { e with isError := true } }
  if e.isError && !isTransientError e then ({ c with phase := .threw (some e) }, l)
  else
    let c := { c with attempt := c.attempt + 1 }
    if cfg.maxRetries < c.attempt then
      ({ c with phase := .threw c.lastError },
        { l with stats := { l.stats with exceededMaxRetries := l.stats.exceededMaxRetries + 1 } })
    else
      ({ c with phase := .pause c.attempt },
        { l with stats :=
          { l.stats with
            totalWaitTimeMs := l.stats.totalWaitTimeMs + calculateBackoff cfg random (c.attempt - 1)
            retryAttempts := l.stats.retryAttempts + 1 } })

/-- A 429 or a 503. -/
def Call.throttled (c : Call) (response : Response) (random : ℚ) (l : Limiter) : Call × Limiter :=
  let l := { l with stats := { l.stats with retryAttempts := l.stats.retryAttempts + 1 } }
  match response.retryAfter with
  | .error e => Call.catchError cfg c e random l
  | .ok retryAfter =>
    let waitTime := retryAfter.getD (calculateBackoff cfg random 0)
    let l :=
      { l with stats :=
        { l.stats with
          throttleEvents := l.stats.throttleEvents + 1
          totalWaitTimeMs := l.stats.totalWaitTimeMs + waitTime } }
    if (c.attempt : Int) < cfg.maxRetries then ({ c with phase := .pause (c.attempt + 1) }, l)
    else
      Call.catchError cfg c (rateLimited cfg response.status) random
        { l with stats := { l.stats with exceededMaxRetries := l.stats.exceededMaxRetries + 1 } }

/-- A call goes on; `none` where this is not what it awaits. -/
def Call.resume (c : Call) (input : Input) (l : Limiter) : Option (Call × Limiter) :=
  match c.phase, input with
  | .slotWait, .timer => some (Call.waitForSlot cfg c l)
  | .localToken, .token =>
    some (if shared then { c with phase := .sharedToken }
      else { c with phase := .request, requests := c.requests + 1 }, l)
  | .sharedToken, .sharedToken none _ =>
    some ({ c with phase := .request, requests := c.requests + 1 }, l)
  | .sharedToken, .sharedToken (some e) random =>
    some (Call.catchError cfg c e random (releaseSlot l))
  | .request, .answer response random =>
    let l := releaseSlot l
    some (if response.status = 429 ∨ response.status = 503 then Call.throttled cfg c response random l
      else ({ c with phase := .returned response }, l))
  | .request, .failure e random => some (Call.catchError cfg c e random (releaseSlot l))
  | .pause attempt, .timer => some (Call.nextAttempt cfg c attempt l)
  | _, _ => none

/-- A call as it is made, up to its first await. -/
def Call.begin (l : Limiter) : Call × Limiter :=
  Call.nextAttempt cfg ⟨.slotWait, 0, none, 0, 0⟩ 0 l

/-! ### A limiter and its calls -/

structure Pass where
  limiter : Limiter
  calls : List Call

def Pass.init : Pass := ⟨⟨0, ⟨0, 0, 0, 0⟩⟩, []⟩

inductive Pass.Step : Pass → Pass → Prop
  | call (p : Pass) : Step p ⟨(Call.begin cfg p.limiter).2, p.calls ++ [(Call.begin cfg p.limiter).1]⟩
  | resume {p : Pass} {i : Nat} {c c' : Call} {l : Limiter} (input : Input) :
      p.calls[i]? = some c → Call.resume cfg shared c input p.limiter = some (c', l) →
        Step p ⟨l, p.calls.set i c'⟩

/-- The limiters reached from a new one, by calls and what their awaits end
with, in any order. -/
def Pass.Reached (p : Pass) : Prop := Relation.ReflTransGen (Pass.Step cfg shared) Pass.init p

namespace Pass

/-- Requests sent and not answered. -/
def inFlight (p : Pass) : Nat := p.calls.countP (·.phase.sent)

/-- Calls that hold a slot. -/
def holders (p : Pass) : Nat := p.calls.countP (·.phase.holds)

/-- Calls that wait for one. -/
def waiters (p : Pass) : Nat := p.calls.countP (·.phase.waits)

end Pass

end Ownpace.Throttle
