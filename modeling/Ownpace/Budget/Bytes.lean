import Ownpace.Budget.Rate

/-!
The daily byte meter: `InProcessByteBudget` in one process, `PgByteBudget` in
the database.

`spend` never refuses and never waits.  Both are compared with what a meter is
for (`Meter`): the spends of a key fall into windows of a day, each opened by
the first one after the window before it ended, and what is reported is the sum
of those since.
-/

namespace Ownpace.Budget

/-- A number of the code: not every one is a number of bytes. -/
inductive Amount
  | finite (n : ℚ)
  | notFinite

/-- Garbage in, zero recorded. -/
def countableBytes : Amount → ℚ
  | .finite n => if 0 < n then n else 0
  | .notFinite => 0

/-- The bytes as the column counts them: `Math.round` rounds a half up. -/
def wholeBytes : Amount → ℤ
  | .finite n => if 0 < n then ⌊n + 1 / 2⌋ else 0
  | .notFinite => 0

/-- No fraction of a byte. -/
def Amount.IsWhole : Amount → Prop
  | .finite n => ∃ k : ℤ, n = k
  | .notFinite => True

def DAY_MS : ℤ := 24 * 60 * 60 * 1000

structure ByteBudgetState where
  spentBytes : ℚ
  ceilingBytes : ℚ
  remainingBytes : ℚ
  windowResetsAt : Option ℤ
deriving DecidableEq

/-- Nothing spent yet, or the last window has ended. -/
def ByteBudgetState.untouched (ceiling : ℚ) : ByteBudgetState where
  spentBytes := 0
  ceilingBytes := ceiling
  remainingBytes := ceiling
  windowResetsAt := none

/-- A window that runs. -/
def ByteBudgetState.running (ceiling : ℚ) (startedAt : ℤ) (spent : ℚ) : ByteBudgetState where
  spentBytes := spent
  ceilingBytes := ceiling
  remainingBytes := max 0 (ceiling - spent)
  windowResetsAt := some (startedAt + DAY_MS)

/-- The id of a tenant, in the one spelling that the database answers with. -/
@[ext] structure TenantId where
  text : String
  valid : isUuid text = true
  spelled : asUuid text = text

/-- A call of either meter, and what the clock reads then. -/
inductive MeterCall
  | spend (tenant : TenantId) (provider : String) (bytes : Amount) (now : ℤ)
  | state (tenant : TenantId) (provider : String) (now : ℤ)

/-- The call spends no fraction of a byte. -/
def MeterCall.IsWhole : MeterCall → Prop
  | .spend _ _ bytes _ => bytes.IsWhole
  | .state _ _ _ => True

/-- The constructors refuse a ceiling that is not positive. -/
inductive CeilingRefused
  | bytesPerDayNotPositive (got : ℚ)
deriving DecidableEq

/-! ### The single-process meter -/

structure Window where
  startedAt : ℤ
  spent : ℚ

structure InProcessByteBudget where
  ceiling : ℚ
  windows : String → Option Window
  ceiling_pos : 0 < ceiling

namespace InProcessByteBudget

def new (bytesPerDay : ℚ) : Except CeilingRefused InProcessByteBudget :=
  if h : 0 < bytesPerDay then
    .ok { ceiling := bytesPerDay, windows := fun _ => none, ceiling_pos := h }
  else .error (.bytesPerDayNotPositive bytesPerDay)

def describe (b : InProcessByteBudget) (window : Window) : ByteBudgetState :=
  .running b.ceiling window.startedAt window.spent

/-- The window after a spend. -/
def opened (current : Option Window) (bytes : Amount) (now : ℤ) : Window :=
  match current with
  | some current =>
      if now < current.startedAt + DAY_MS then
        { startedAt := current.startedAt, spent := current.spent + countableBytes bytes }
      else { startedAt := now, spent := countableBytes bytes }
  | none => { startedAt := now, spent := countableBytes bytes }

def spend (b : InProcessByteBudget) (tenantId provider : String) (bytes : Amount) (now : ℤ) :
    ByteBudgetState × InProcessByteBudget :=
  let key := InProcessRateBudget.key tenantId provider
  (b.describe (opened (b.windows key) bytes now),
    { b with windows := Function.update b.windows key (some (opened (b.windows key) bytes now)) })

def state (b : InProcessByteBudget) (tenantId provider : String) (now : ℤ) : ByteBudgetState :=
  match b.windows (InProcessRateBudget.key tenantId provider) with
  | some current =>
      if current.startedAt + DAY_MS ≤ now then .untouched b.ceiling else b.describe current
  | none => .untouched b.ceiling

def call (b : InProcessByteBudget) : MeterCall → ByteBudgetState × InProcessByteBudget
  | .spend tenant provider bytes now => b.spend tenant.text provider bytes now
  | .state tenant provider now => (b.state tenant.text provider now, b)

def reports (b : InProcessByteBudget) : List MeterCall → List ByteBudgetState
  | [] => []
  | c :: rest => (b.call c).1 :: (b.call c).2.reports rest

end InProcessByteBudget

/-! ### The meter in the database -/

structure ByteRow where
  windowStartedAt : ℤ
  spentBytes : ℤ

/-- `byte_budget`, by its primary key. -/
abbrev ByteBudgetTable := String × String → Option ByteRow

structure PgByteBudget where
  ceiling : ℚ
  ceiling_pos : 0 < ceiling

/-- What `clock_timestamp()` gives each time the statement of a spend asks for
it: for the row to insert, in the two `CASE`s, and for a new window. -/
structure SpendReadings where
  values : ℤ
  spentBytes : ℤ
  window : ℤ
  stamp : ℤ

/-- One reading for the whole statement. -/
def SpendReadings.same (now : ℤ) : SpendReadings where
  values := now
  spentBytes := now
  window := now
  stamp := now

namespace PgByteBudget

def new (bytesPerDay : ℚ) : Except CeilingRefused PgByteBudget :=
  if h : 0 < bytesPerDay then .ok { ceiling := bytesPerDay, ceiling_pos := h }
  else .error (.bytesPerDayNotPositive bytesPerDay)

def describe (p : PgByteBudget) (row : ByteRow) : ByteBudgetState :=
  .running p.ceiling row.windowStartedAt row.spentBytes

/-- `INSERT … ON CONFLICT DO UPDATE`. -/
def upserted (current : Option ByteRow) (bytes : Amount) (clock : SpendReadings) : ByteRow :=
  match current with
  | some row =>
      { spentBytes :=
          if row.windowStartedAt + DAY_MS ≤ clock.spentBytes then wholeBytes bytes
          else row.spentBytes + wholeBytes bytes
        windowStartedAt :=
          if row.windowStartedAt + DAY_MS ≤ clock.window then clock.stamp
          else row.windowStartedAt }
  | none => { windowStartedAt := clock.values, spentBytes := wholeBytes bytes }

def spend (p : PgByteBudget) (tenantId provider : String) (bytes : Amount) (clock : SpendReadings)
    (table : ByteBudgetTable) : ByteBudgetState × ByteBudgetTable :=
  let key := (asUuid tenantId, provider)
  (p.describe (upserted (table key) bytes clock),
    Function.update table key (some (upserted (table key) bytes clock)))

def state (p : PgByteBudget) (tenantId provider : String) (now : ℤ) (table : ByteBudgetTable) :
    ByteBudgetState :=
  match table (asUuid tenantId, provider) with
  | some row =>
      if row.windowStartedAt + DAY_MS ≤ now then .untouched p.ceiling else p.describe row
  | none => .untouched p.ceiling

def call (p : PgByteBudget) (table : ByteBudgetTable) :
    MeterCall → ByteBudgetState × ByteBudgetTable
  | .spend tenant provider bytes now => p.spend tenant.text provider bytes (.same now) table
  | .state tenant provider now => (p.state tenant.text provider now table, table)

def reports (p : PgByteBudget) (table : ByteBudgetTable) : List MeterCall → List ByteBudgetState
  | [] => []
  | c :: rest => (p.call table c).1 :: p.reports (p.call table c).2 rest

end PgByteBudget

end Ownpace.Budget
