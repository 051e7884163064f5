import Ownpace.Budget.Rate

/-!
What both rate budgets promise.

Each of them keeps, for a key, one bucket of `Bucket`: `bucketOf` reads it off
the map, or off the table.  `take_granted` and `take_denied`, `upsert_granted`
and `upsert_denied` say what one turn does to it; the bound, the end of a wait
and the agreement of the two are read off these.
-/

namespace Ownpace.Budget

open Bucket

/-! ### The single-process budget -/

namespace InProcessRateBudget

variable {b : InProcessRateBudget} {key : String} {now : ℚ}

end InProcessRateBudget

/-! ### The budget in the database -/

namespace PgRateBudget

variable {p : PgRateBudget} {table : RateBudgetTable} {provider : String} {clock : Readings}

/-- One wait of an acquire: it reads the deficit, sleeps, and tries again, while
other acquires go on. -/
structure Waited where
  between : List Statement
  measured : ℚ
  others : List Statement
  again : Readings

def Waited.statements (provider : String) (w : Waited) : List Statement :=
  w.between ++ .deficit provider w.measured :: (w.others ++ [.upsert provider w.again])

end PgRateBudget

/-! ### The two, driven by one clock -/

end Ownpace.Budget
