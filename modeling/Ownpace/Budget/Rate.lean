import Mathlib.Data.Rat.Floor
import Ownpace.Budget.Bucket

/-!
The rate budget: `InProcessRateBudget`, which keeps its buckets in a map of one
process, and `PgRateBudget`, which keeps them in a table that every process
shares.

The numbers of the code are rationals here, and instants are milliseconds.
What a division by a rate of zero gives is kept apart (`Wait.endless`), as the
code goes on with it.
-/

namespace Ownpace.Budget

/-! ### What both are made of -/

structure RateBudgetConfig where
  requestsPerSecond : ℚ
  burst : Option ℚ

/-- The burst, which defaults to one second's worth. -/
def RateBudgetConfig.burstSize (config : RateBudgetConfig) : ℚ :=
  config.burst.getD config.requestsPerSecond

/-- How long to wait: whole milliseconds, or `Infinity`. -/
inductive Wait
  | ms (n : ℤ)
  | endless
deriving DecidableEq

/-- `wait <= 0`: the request may proceed. -/
def Wait.isOver : Wait → Bool
  | .ms n => decide (n ≤ 0)
  | .endless => false

/-- What a timer makes of it: a delay it cannot hold becomes one millisecond. -/
def Wait.timer : Wait → ℕ
  | .ms n => if 2147483647 < n then 1 else n.toNat
  | .endless => 1

/-! ### The single-process budget -/

structure Stored where
  tokens : ℚ
  since : ℚ

structure InProcessRateBudget where
  rate : ℚ
  burst : ℚ
  buckets : String → Option Stored

namespace InProcessRateBudget

/-- The constructor, which accepts every configuration. -/
def new (config : RateBudgetConfig) : InProcessRateBudget where
  rate := config.requestsPerSecond
  burst := config.burstSize
  buckets := fun _ => none

def key (tenantId provider : String) : String := tenantId ++ ":" ++ provider

/-- What the bucket holds when it is read. -/
def refilled (b : InProcessRateBudget) (key : String) (now : ℚ) : ℚ :=
  let bucket := (b.buckets key).getD { tokens := b.burst, since := now }
  min b.burst (bucket.tokens + ((now - bucket.since) / 1000) * b.rate)

/-- Take a token if one is available; otherwise say how long to wait. -/
def take (b : InProcessRateBudget) (key : String) (now : ℚ) : Wait × InProcessRateBudget :=
  if 1 ≤ b.refilled key now then
    (.ms 0, { b with
      buckets := Function.update b.buckets key
        (some { tokens := b.refilled key now - 1, since := now }) })
  else
    -- the refill is stored even when denied
    (if b.rate = 0 then .endless else .ms ⌈((1 - b.refilled key now) / b.rate) * 1000⌉, { b with
      buckets := Function.update b.buckets key
        (some { tokens := b.refilled key now, since := now }) })

end InProcessRateBudget

/-- One turn of the loop of an `acquire`. -/
structure Attempt where
  acquire : ℕ
  tenantId : String
  provider : String
  now : ℚ

def Attempt.key (a : Attempt) : String := InProcessRateBudget.key a.tenantId a.provider

namespace InProcessRateBudget

/-- The turns of any number of acquires, in the order in which they were made. -/
def answers (b : InProcessRateBudget) : List Attempt → List (Attempt × Wait)
  | [] => []
  | a :: rest => (a, (b.take a.key a.now).1) :: (b.take a.key a.now).2.answers rest

def after (b : InProcessRateBudget) (attempts : List Attempt) : InProcessRateBudget :=
  attempts.foldl (fun b a => (b.take a.key a.now).2) b

/-- The instants at which a key was granted a request. -/
def grantsOf (key : String) (answers : List (Attempt × Wait)) : List ℚ :=
  (answers.filter fun answer => decide (answer.1.key = key) && answer.2.isOver).map (·.1.now)

/-- An acquire as a queue sees it, with the timer it sets when it is denied. -/
def attempt (key : String) : Bucket.Attempt InProcessRateBudget := fun b now =>
  (if (b.take key now).1.isOver then none else some (b.take key now).1.timer, (b.take key now).2)

end InProcessRateBudget

/-! ### The budget in the database -/

structure BudgetRow where
  tokens : ℚ
  refilledAt : ℚ

/-- `rate_budget`, by its primary key: the tenant's uuid and the provider. -/
abbrev RateBudgetTable := String × String → Option BudgetRow

/-- `/^[0-9a-f]{8}-[0-9a-f]{4}-[0-9a-f]{4}-[0-9a-f]{4}-[0-9a-f]{12}$/i` -/
def isUuid (id : String) : Bool :=
  let groups := id.toList.splitOn '-'
  decide (groups.map List.length = [8, 4, 4, 4, 12]) &&
    groups.all fun group => group.all fun c =>
      ('0' ≤ c && c ≤ '9') || ('a' ≤ c && c ≤ 'f') || ('A' ≤ c && c ≤ 'F')

/-- `::uuid` reads an id whatever its case. -/
def asUuid (id : String) : String := id.toLower

inductive Refusal
  | requestsPerSecondNotPositive (got : ℚ)
  | notATenantId (got : String)
deriving DecidableEq

/-- A budget that its constructor let through. -/
structure PgRateBudget where
  rate : ℚ
  burst : ℚ
  tenantId : String
  rate_pos : 0 < rate
  tenantId_isUuid : isUuid tenantId = true

def FALLBACK_WAIT_MS : ℤ := 50

def MAX_WAIT_MS : ℤ := 2000

/-- What `clock_timestamp()` gives each time a statement asks for it, in the
order in which it asks: for the row to insert, for the `WHERE`, for the tokens
and for `refilled_at`. -/
structure Readings where
  values : ℚ
  guard : ℚ
  tokens : ℚ
  stamp : ℚ
  guard_le_tokens : guard ≤ tokens
  tokens_le_stamp : tokens ≤ stamp

/-- A clock that stands still while the statement runs. -/
def Readings.same (now : ℚ) : Readings where
  values := now
  guard := now
  tokens := now
  stamp := now
  guard_le_tokens := le_refl now
  tokens_le_stamp := le_refl now

namespace PgRateBudget

def new (config : RateBudgetConfig) (tenantId : String) : Except Refusal PgRateBudget :=
  if hrate : 0 < config.requestsPerSecond then
    if hid : isUuid tenantId then
      .ok { rate := config.requestsPerSecond, burst := config.burstSize, tenantId,
            rate_pos := hrate, tenantId_isUuid := hid }
    else .error (.notATenantId tenantId)
  else .error (.requestsPerSecondNotPositive config.requestsPerSecond)

/-- The row of the tenant that was bound at construction: the scope the caller names is unused. -/
def key (p : PgRateBudget) (provider : String) : String × String := (asUuid p.tenantId, provider)

/-- `LEAST(burst, tokens + EXTRACT(EPOCH FROM (clock - refilled_at)) * rate)` -/
def refilled (p : PgRateBudget) (row : BudgetRow) (clock : ℚ) : ℚ :=
  min p.burst (row.tokens + ((clock - row.refilledAt) / 1000) * p.rate)

/-- The one statement of `take`: was a row returned, and the table behind it. -/
def upsert (p : PgRateBudget) (provider : String) (clock : Readings) (table : RateBudgetTable) :
    Option ℚ × RateBudgetTable :=
  match table (p.key provider) with
  | none =>
      (some clock.values, Function.update table (p.key provider)
        (some { tokens := p.burst - 1, refilledAt := clock.values }))
  | some row =>
      if 1 ≤ p.refilled row clock.guard then
        (some clock.stamp, Function.update table (p.key provider)
          (some { tokens := p.refilled row clock.tokens - 1, refilledAt := clock.stamp }))
      -- the `WHERE` refused, and nothing is written
      else (none, table)

/-- How long until one token exists, in ms; `none` when the row is not there. -/
def deficit (p : PgRateBudget) (provider : String) (clock : ℚ) (table : RateBudgetTable) :
    Option ℤ :=
  (table (p.key provider)).map fun row =>
    max 1 ⌈max 0 ((1 - p.refilled row clock) / p.rate) * 1000⌉

/-- What `take` answers when it is denied, and what the loop then sleeps. -/
def sleep (p : PgRateBudget) (provider : String) (clock : ℚ) (table : RateBudgetTable) : ℤ :=
  min ((p.deficit provider clock table).getD FALLBACK_WAIT_MS) MAX_WAIT_MS

end PgRateBudget

/-- The statements that acquires run against the table. -/
inductive Statement
  | upsert (provider : String) (clock : Readings)
  | deficit (provider : String) (clock : ℚ)

namespace PgRateBudget

/-- The instant at which a statement granted a request of the provider. -/
def grantBy (p : PgRateBudget) (provider : String) (table : RateBudgetTable) :
    Statement → Option ℚ
  | .upsert asked clock => if asked = provider then (p.upsert asked clock table).1 else none
  | .deficit _ _ => none

def step (p : PgRateBudget) (table : RateBudgetTable) : Statement → RateBudgetTable
  | .upsert asked clock => (p.upsert asked clock table).2
  | .deficit _ _ => table

def after (p : PgRateBudget) (table : RateBudgetTable) (statements : List Statement) :
    RateBudgetTable :=
  statements.foldl p.step table

/-- The instants at which a provider was granted a request. -/
def grantsOf (p : PgRateBudget) (provider : String) :
    RateBudgetTable → List Statement → List ℚ
  | _, [] => []
  | table, s :: rest =>
      (p.grantBy provider table s).toList ++ p.grantsOf provider (p.step table s) rest

/-- An acquire as a queue sees it, with what it sleeps when it is denied. -/
def attempt (p : PgRateBudget) (provider : String) : Bucket.Attempt RateBudgetTable :=
  fun table now =>
    match p.upsert provider (.same now) table with
    | (some _, written) => (none, written)
    | (none, written) => (some (p.sleep provider now written).toNat, written)

end PgRateBudget

end Ownpace.Budget
