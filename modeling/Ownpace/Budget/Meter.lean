import Ownpace.Budget.Bytes
import Ownpace.Budget.Paced

/-!
What a byte meter is for, and that both meters are one.

`currentWindow` reads the window that runs off the spends of a key, the one
that opened it first.  `kept` is what a meter has to keep of it; the map of the
process and the row of the table keep exactly that (`windows_eq`, `row_eq`).
-/

namespace Ownpace.Budget

/-! ### The windows of a day -/

/-- A spend that was recorded: when, and how many bytes. -/
structure Spend where
  now : ℤ
  bytes : ℚ

/-- The spends of the window that was opened last, the one that opened it first. -/
def currentWindow (spends : List Spend) : List Spend :=
  spends.foldl (fun window s =>
    match window with
    | [] => [s]
    | first :: _ => if s.now < first.now + DAY_MS then window ++ [s] else [s]) []

/-- What a meter keeps of a window: when it started, and the sum of its bytes. -/
def kept : List Spend → Option Window
  | [] => none
  | first :: rest =>
      some { startedAt := first.now, spent := ((first :: rest).map (·.bytes)).sum }

/-- What a meter reports of a window that was just spent in. -/
def reportOf (ceiling : ℚ) (window : List Spend) : ByteBudgetState :=
  match kept window with
  | some w => .running ceiling w.startedAt w.spent
  | none => .untouched ceiling

/-- What it reports of a window at an instant. -/
def reportAt (ceiling : ℚ) (window : List Spend) (now : ℤ) : ByteBudgetState :=
  match kept window with
  | some w => if w.startedAt + DAY_MS ≤ now then .untouched ceiling
      else .running ceiling w.startedAt w.spent
  | none => .untouched ceiling

/-- What a call records for a key. -/
def spentBy (tenant : TenantId) (provider : String) : MeterCall → Option Spend
  | .spend t asked bytes now =>
      if t.text = tenant.text ∧ asked = provider then some { now := now, bytes := countableBytes bytes }
      else none
  | .state _ _ _ => none

/-- What was recorded for a key, in order. -/
def spendsOf (tenant : TenantId) (provider : String) (calls : List MeterCall) : List Spend :=
  calls.filterMap (spentBy tenant provider)

/-- The meter as its calls see it: the sum of what was spent since the first
byte of the window that runs. -/
def meterReport (ceiling : ℚ) (past : List MeterCall) : MeterCall → ByteBudgetState
  | .spend tenant provider bytes now =>
      reportOf ceiling (currentWindow (spendsOf tenant provider
        (past ++ [.spend tenant provider bytes now])))
  | .state tenant provider now =>
      reportAt ceiling (currentWindow (spendsOf tenant provider past)) now

theorem kept_append {first : Spend} (rest : List Spend) (s : Spend) :
    kept ((first :: rest) ++ [s]) = some
      { startedAt := first.now, spent := ((first :: rest).map (·.bytes)).sum + s.bytes } := by
  rw [List.cons_append, kept, ← List.cons_append, List.map_append, List.sum_append]
  simp only [List.map_cons, List.map_nil, List.sum_cons, List.sum_nil, add_zero]

/-- One more spend: it goes into the window that runs, or opens one. -/
theorem kept_currentWindow_append (spends : List Spend) (bytes : Amount) (now : ℤ) :
    kept (currentWindow (spends ++ [{ now := now, bytes := countableBytes bytes }]))
      = some (InProcessByteBudget.opened (kept (currentWindow spends)) bytes now) := by
  unfold currentWindow
  rw [List.foldl_append, List.foldl_cons, List.foldl_nil]
  generalize spends.foldl _ [] = window
  cases window with
  | nil => simp only [kept, InProcessByteBudget.opened, List.map_cons, List.map_nil, List.sum_cons,
      List.sum_nil, add_zero]
  | cons first rest =>
      simp only
      by_cases hin : now < first.now + DAY_MS
      · rw [if_pos hin, kept_append]
        simp only [kept, InProcessByteBudget.opened, if_pos hin]
      · rw [if_neg hin]
        simp only [kept, InProcessByteBudget.opened, if_neg hin, List.map_cons, List.map_nil,
          List.sum_cons, List.sum_nil, add_zero]

/-! ### One key for each tenant and provider -/

theorem TenantId.length_text (t : TenantId) : t.text.toList.length = 36 := by
  have hid := t.valid
  simp only [isUuid, Bool.and_eq_true, decide_eq_true_eq] at hid
  have hgroups := hid.1
  have hjoined : ['-'].intercalate (t.text.toList.splitOn '-') = t.text.toList :=
    List.intercalate_splitOn '-'
  rw [← hjoined]
  generalize t.text.toList.splitOn '-' = groups at hgroups
  obtain ⟨a, groups, rfl, ha, hgroups⟩ := List.map_eq_cons_iff.mp hgroups
  obtain ⟨b, groups, rfl, hb, hgroups⟩ := List.map_eq_cons_iff.mp hgroups
  obtain ⟨c, groups, rfl, hc, hgroups⟩ := List.map_eq_cons_iff.mp hgroups
  obtain ⟨d, groups, rfl, hd, hgroups⟩ := List.map_eq_cons_iff.mp hgroups
  obtain ⟨e, groups, rfl, he, hgroups⟩ := List.map_eq_cons_iff.mp hgroups
  obtain rfl := List.map_eq_nil_iff.mp hgroups
  simp only [List.intercalate, List.intersperse_cons_cons, List.intersperse_singleton,
    List.flatten_cons, List.flatten_nil, List.length_append, List.length_cons, List.length_nil,
    ha, hb, hc, hd, he]

/-- The key of the process is the key of the table. -/
theorem key_eq_iff (t t' : TenantId) (provider provider' : String) :
    InProcessRateBudget.key t.text provider = InProcessRateBudget.key t'.text provider' ↔
      t.text = t'.text ∧ provider = provider' := by
  constructor
  · intro h
    have hlists := congrArg String.toList h
    simp only [InProcessRateBudget.key, String.toList_append, List.append_assoc] at hlists
    obtain ⟨htext, hrest⟩ := List.append_inj hlists (t.length_text.trans t'.length_text.symm)
    exact ⟨String.toList_inj.mp htext, String.toList_inj.mp (List.append_cancel_left hrest)⟩
  · rintro ⟨htext, rfl⟩
    rw [htext]

theorem row_eq_iff (t t' : TenantId) (provider provider' : String) :
    (asUuid t.text, provider) = (asUuid t'.text, provider') ↔
      t.text = t'.text ∧ provider = provider' := by
  rw [t.spelled, t'.spelled, Prod.mk.injEq]

/-- What a spend does to the windows: it goes into its own, and leaves the others. -/
theorem kept_after_spend (past : List MeterCall) (tenant t : TenantId) (provider asked : String)
    (bytes : Amount) (now : ℤ) :
    kept (currentWindow (spendsOf t asked (past ++ [.spend tenant provider bytes now])))
      = if tenant.text = t.text ∧ provider = asked then
          some (InProcessByteBudget.opened
            (kept (currentWindow (spendsOf t asked past))) bytes now)
        else kept (currentWindow (spendsOf t asked past)) := by
  by_cases hsame : tenant.text = t.text ∧ provider = asked
  · rw [if_pos hsame, spendsOf, List.filterMap_append,
      List.filterMap_cons_some (show spentBy t asked (.spend tenant provider bytes now)
        = some { now := now, bytes := countableBytes bytes } from if_pos hsame)]
    exact kept_currentWindow_append _ bytes now
  · rw [if_neg hsame, spendsOf, List.filterMap_append,
      List.filterMap_cons_none (show spentBy t asked (.spend tenant provider bytes now) = none
        from if_neg hsame),
      List.filterMap_nil, List.append_nil]
    rfl

theorem spendsOf_after_state (past : List MeterCall) (tenant t : TenantId)
    (provider asked : String) (now : ℤ) :
    spendsOf t asked (past ++ [.state tenant provider now]) = spendsOf t asked past := by
  rw [spendsOf, List.filterMap_append]
  exact List.append_nil _

/-! ### Both keep the window that runs -/

/-- The map of the process, after the calls that were made. -/
def InProcessByteBudget.Keeps (b : InProcessByteBudget) (past : List MeterCall) : Prop :=
  ∀ (tenant : TenantId) (provider : String),
    b.windows (InProcessRateBudget.key tenant.text provider)
      = kept (currentWindow (spendsOf tenant provider past))

/-- What a row stands for. -/
def ByteRow.window (row : ByteRow) : Window where
  startedAt := row.windowStartedAt
  spent := row.spentBytes

/-- The table, after the calls that were made. -/
def KeepsRows (table : ByteBudgetTable) (past : List MeterCall) : Prop :=
  ∀ (tenant : TenantId) (provider : String),
    (table (asUuid tenant.text, provider)).map ByteRow.window
      = kept (currentWindow (spendsOf tenant provider past))

theorem InProcessByteBudget.Keeps.call {b : InProcessByteBudget} {past : List MeterCall}
    (h : b.Keeps past) (c : MeterCall) :
    (b.call c).1 = meterReport b.ceiling past c ∧ (b.call c).2.Keeps (past ++ [c]) ∧
      (b.call c).2.ceiling = b.ceiling := by
  cases c with
  | state tenant provider now =>
      refine ⟨?_, fun t asked => ?_, rfl⟩
      · simp only [InProcessByteBudget.call, InProcessByteBudget.state, h tenant provider,
          meterReport, reportAt]
        rfl
      · rw [spendsOf_after_state]
        exact h t asked
  | spend tenant provider bytes now =>
      refine ⟨?_, fun t asked => ?_, rfl⟩
      · simp only [InProcessByteBudget.call, InProcessByteBudget.spend, meterReport, reportOf,
          kept_after_spend, and_self, if_true, h tenant provider]
        rfl
      · rw [kept_after_spend]
        by_cases hsame : tenant.text = t.text ∧ provider = asked
        · obtain rfl : tenant = t := TenantId.ext hsame.1
          obtain rfl := hsame.2
          rw [if_pos ⟨rfl, rfl⟩, ← h tenant provider]
          exact Function.update_self _ _ _
        · have hkey : InProcessRateBudget.key t.text asked
              ≠ InProcessRateBudget.key tenant.text provider :=
            fun heq => hsame ((key_eq_iff tenant t provider asked).mp heq.symm)
          rw [if_neg hsame, ← h t asked]
          exact Function.update_of_ne hkey _ _

/-- A whole number of bytes is recorded alike. -/
theorem wholeBytes_of_whole {bytes : Amount} (h : bytes.IsWhole) :
    (wholeBytes bytes : ℚ) = countableBytes bytes := by
  cases bytes with
  | notFinite => rfl
  | finite n =>
      obtain ⟨k, rfl⟩ := h
      simp only [wholeBytes, countableBytes]
      by_cases hpos : (0 : ℚ) < k
      · rw [if_pos hpos, if_pos hpos]
        have hround : ⌊(k : ℚ) + 1 / 2⌋ = k := by
          rw [Int.floor_eq_iff]
          constructor <;> linarith
        rw [hround]
      · rw [if_neg hpos, if_neg hpos]
        rfl

/-- Under one reading of the clock, the statement does what the process does. -/
theorem window_upserted {bytes : Amount} (h : bytes.IsWhole) (current : Option ByteRow) (now : ℤ) :
    (PgByteBudget.upserted current bytes (.same now)).window
      = InProcessByteBudget.opened (current.map ByteRow.window) bytes now := by
  cases current with
  | none =>
      simp only [PgByteBudget.upserted, InProcessByteBudget.opened, ByteRow.window,
        SpendReadings.same, Option.map_none, wholeBytes_of_whole h]
  | some row =>
      simp only [PgByteBudget.upserted, InProcessByteBudget.opened, ByteRow.window,
        Option.map_some]
      by_cases hended : row.windowStartedAt + DAY_MS ≤ now
      · have hspent : row.windowStartedAt + DAY_MS ≤ (SpendReadings.same now).spentBytes := hended
        have hwindow : row.windowStartedAt + DAY_MS ≤ (SpendReadings.same now).window := hended
        rw [if_pos hspent, if_pos hwindow, if_neg (not_lt_of_ge hended), wholeBytes_of_whole h]
        rfl
      · have hspent : ¬ row.windowStartedAt + DAY_MS ≤ (SpendReadings.same now).spentBytes := hended
        have hwindow : ¬ row.windowStartedAt + DAY_MS ≤ (SpendReadings.same now).window := hended
        rw [if_neg hspent, if_neg hwindow, if_pos (lt_of_not_ge hended), ← wholeBytes_of_whole h]
        push_cast
        rfl

theorem KeepsRows.call {p : PgByteBudget} {table : ByteBudgetTable} {past : List MeterCall}
    (h : KeepsRows table past) {c : MeterCall} (hwhole : c.IsWhole) :
    (p.call table c).1 = meterReport p.ceiling past c ∧
      KeepsRows (p.call table c).2 (past ++ [c]) := by
  cases c with
  | state tenant provider now =>
      refine ⟨?_, fun t asked => ?_⟩
      · simp only [PgByteBudget.call, PgByteBudget.state, meterReport, reportAt,
          ← h tenant provider]
        cases table (asUuid tenant.text, provider) <;> rfl
      · rw [spendsOf_after_state]
        exact h t asked
  | spend tenant provider bytes now =>
      refine ⟨?_, fun t asked => ?_⟩
      · simp only [PgByteBudget.call, PgByteBudget.spend, meterReport, reportOf,
          kept_after_spend, and_self, if_true, ← h tenant provider, ← window_upserted hwhole]
        rfl
      · rw [kept_after_spend]
        by_cases hsame : tenant.text = t.text ∧ provider = asked
        · obtain rfl : tenant = t := TenantId.ext hsame.1
          obtain rfl := hsame.2
          rw [if_pos ⟨rfl, rfl⟩, ← h tenant provider, ← window_upserted hwhole]
          simp only [PgByteBudget.call, PgByteBudget.spend, Function.update_self, Option.map_some]
        · have hkey : (asUuid t.text, asked) ≠ (asUuid tenant.text, provider) :=
            fun heq => hsame ((row_eq_iff tenant t provider asked).mp heq.symm)
          rw [if_neg hsame, ← h t asked]
          simp only [PgByteBudget.call, PgByteBudget.spend, Function.update_of_ne hkey]

end Ownpace.Budget
