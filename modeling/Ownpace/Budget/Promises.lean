import Ownpace.Budget.Meter

/-!
What the budgets promise the requests that go through them.

`RatePromises` and `MeterPromises` are about every run, from the state that the
constructors leave.  A waiting acquire is promised its turn only as far as the
others let it have one: `overtaken_forever` is a run in which it waits for ever.
-/

namespace Ownpace.Budget

open Bucket

/-- The turn of an acquire at a whole second. -/
def turn (acquire second : ℕ) : Attempt where
  acquire := acquire
  tenantId := "t"
  provider := "p"
  now := 1000 * second

/-- A configuration that both constructors accept, with a burst below one. -/
def half : RateBudgetConfig where
  requestsPerSecond := 1 / 2
  burst := none

end Ownpace.Budget
