/-
Ownpace/Confirm/Csv.lean

The confirmed list (`confirmed-list.ts`): the bounded list of the screen
(`confirmedListOf`) and the whole one of the file (`confirmedListCsv`).

Both account for every row: the list counts those it does not keep, and the file, read
by RFC 4180, has a record for each.
-/
import Mathlib.Algebra.Order.Ring.Rat
import Mathlib.Data.List.Induction
import Ownpace.Confirm.Row
import Ownpace.Format.Rfc4180

namespace Ownpace.Confirm

/-! ### The list of the screen -/

/-- A number of the code, as a limit: no length is below one that is not a number. -/
inductive Limit : Type
  | finite (n : ℚ)
  | infinite
  | minusInfinite
  | notANumber

/-- `length < limit` -/
def Limit.admits : Limit → Nat → Bool
  | .finite n, length => decide ((length : ℚ) < n)
  | .infinite, _ => true
  | .minusInfinite, _ | .notANumber, _ => false

/-- `limit === undefined || length < limit` -/
def admits (limit : Option Limit) (length : Nat) : Bool :=
  limit.all fun limit => limit.admits length

structure ConfirmedList (Row : Type) where
  verified : Nat
  total : Nat
  rows : List Row
  byState : RowState → Nat
  truncated : Option Bool

/-- What `confirmedListOf` keeps between two calls of `add`. -/
structure ListSoFar (Row : Type) where
  rows : List Row := []
  byState : RowState → Nat := fun _ => 0
  verified : Nat := 0
  total : Nat := 0
  dropped : Nat := 0

section

variable {Row : Type} (limit : Option Limit) (shown : Row → ConfirmedRow)

def ListSoFar.add (list : ListSoFar Row) (row : Row) : ListSoFar Row :=
  -- Counted before the branches: the breakdown covers the rows that are not kept.
  let list := { list with
    total := list.total + 1
    byState := fun state =>
      if state = (shown row).state then list.byState state + 1 else list.byState state }
  if countsAsVerified (shown row) then { list with verified := list.verified + 1 }
  else if admits limit list.rows.length then { list with rows := list.rows ++ [row] }
  else { list with dropped := list.dropped + 1 }

def ListSoFar.result (list : ListSoFar Row) : ConfirmedList Row where
  verified := list.verified
  total := list.total
  rows := list.rows
  byState := list.byState
  truncated := if 0 < list.dropped then some true else none

/-- `confirmedListOf` with every row added, in order. -/
def confirmedListOf (rows : List Row) : ListSoFar Row :=
  rows.foldl (fun list row => list.add limit shown row) {}

def confirmedList (rows : List Row) : ConfirmedList Row := (confirmedListOf limit shown rows).result

/-- The rows a person must read. -/
def notVerified (rows : List Row) : List Row :=
  rows.filter fun row => !countsAsVerified (shown row)

/-- What has been kept and dropped of the rows added so far: the longest beginning of the
rows that are not verified which the limit admits. -/
structure ListSoFar.Holds (rows : List Row) (list : ListSoFar Row) : Prop where
  byState : ∀ state, list.byState state = rows.countP fun row => (shown row).state = state
  verified : list.verified = rows.countP fun row => countsAsVerified (shown row)
  total : list.total = rows.length
  kept : ∃ dropped, notVerified shown rows = list.rows ++ dropped ∧ list.dropped = dropped.length
  within : ∀ length < list.rows.length, admits limit length = true
  full : 0 < list.dropped → admits limit list.rows.length = false

/-- A row of the list in one state more. -/
theorem countP_state_concat (rows : List Row) (row : Row) (state : RowState) :
    (rows ++ [row]).countP (fun row => (shown row).state = state) =
      if state = (shown row).state then rows.countP (fun row => (shown row).state = state) + 1
      else rows.countP fun row => (shown row).state = state := by
  rw [List.countP_append, List.countP_singleton]
  by_cases hstate : state = (shown row).state
  · simp [hstate]
  · have hother : (shown row).state ≠ state := fun h => hstate h.symm
    simp [hstate, hother]

theorem ListSoFar.Holds.add {rows : List Row} {list : ListSoFar Row}
    (h : list.Holds limit shown rows) (row : Row) :
    (list.add limit shown row).Holds limit shown (rows ++ [row]) := by
  obtain ⟨dropped, hkept, hdropped⟩ := h.kept
  have hstates (state : RowState) :
      (if state = (shown row).state then list.byState state + 1 else list.byState state) =
        (rows ++ [row]).countP fun row => (shown row).state = state := by
    rw [countP_state_concat, h.byState]
  have htotal : list.total + 1 = (rows ++ [row]).length := by
    rw [h.total, List.length_append, List.length_singleton]
  by_cases hverified : countsAsVerified (shown row) = true
  · have hfilter : notVerified shown (rows ++ [row]) = notVerified shown rows := by
      simp [notVerified, hverified]
    have hcount : list.verified + 1 = (rows ++ [row]).countP fun row => countsAsVerified (shown row) := by
      rw [h.verified, List.countP_append, List.countP_singleton, if_pos hverified]
    simp only [ListSoFar.add, hverified, if_true]
    exact ⟨hstates, hcount, htotal, ⟨dropped, hfilter ▸ hkept, hdropped⟩, h.within, h.full⟩
  · have hfilter : notVerified shown (rows ++ [row]) = notVerified shown rows ++ [row] := by
      simp [notVerified, hverified]
    have hcount : list.verified = (rows ++ [row]).countP fun row => countsAsVerified (shown row) := by
      rw [h.verified, List.countP_append, List.countP_singleton, if_neg hverified, Nat.add_zero]
    by_cases hadmits : admits limit list.rows.length = true
    · -- The limit admits one more: no row was dropped so far.
      have hnone : dropped = [] := by
        by_contra hsome
        have hfull := h.full (hdropped ▸ List.length_pos_iff.mpr hsome)
        rw [hadmits] at hfull
        exact absurd hfull (by decide)
      subst hnone
      rw [List.append_nil] at hkept
      simp only [ListSoFar.add, hverified, hadmits, if_true, Bool.false_eq_true, if_false]
      refine ⟨hstates, hcount, htotal, ⟨[], ?_, hdropped⟩, fun length hlength => ?_, fun hpos => ?_⟩
      · rw [hfilter, hkept, List.append_nil]
      · obtain hlt | heq := Nat.lt_or_eq_of_le (Nat.le_of_lt_succ (by simpa using hlength))
        · exact h.within length hlt
        · rw [heq, hadmits]
      · exact absurd (hdropped ▸ hpos) (by simp)
    · simp only [ListSoFar.add, hverified, hadmits, Bool.false_eq_true, if_false]
      refine ⟨hstates, hcount, htotal, ⟨dropped ++ [row], ?_, ?_⟩, h.within, fun _ => ?_⟩
      · rw [hfilter, hkept, List.append_assoc]
      · show list.dropped + 1 = _
        rw [hdropped, List.length_append, List.length_singleton]
      · exact Bool.eq_false_iff.mpr hadmits

theorem confirmedListOf_holds (rows : List Row) :
    (confirmedListOf limit shown rows).Holds limit shown rows := by
  induction rows using List.reverseRecOn with
  | nil =>
      refine ⟨fun _ => rfl, rfl, rfl, ⟨[], rfl, rfl⟩, fun length hlength => ?_, fun hpos => ?_⟩
      · exact absurd hlength (Nat.not_lt_zero _)
      · exact absurd hpos (Nat.lt_irrefl _)
  | append_singleton rows row ih =>
      have hadd := ih.add limit shown row
      rwa [confirmedListOf, List.foldl_append]

end

/-! ### The file -/

def RowState.text : RowState → Text
  | .verified => "verified".toList
  | .differs => "differs".toList
  | .present => "present".toList
  | .yours => "yours".toList
  | .missing => "missing".toList
  | .neverPlaced => "never-placed".toList
  | .removed => "removed".toList
  | .unchecked => "unchecked".toList

def ClaimKind.text : ClaimKind → Text
  | .byteHash => "byte-hash".toList
  | .fingerprint => "fingerprint".toList
  | .containerParts => "container-parts".toList
  | .none => "none".toList

structure ConfirmedRowView extends ConfirmedRow where
  domain : DiscoveryDomain
  collection : Text
  naturalKey : Text
  displayName : Option Text := none
  /-- In ISO 8601; never asked is `none`. -/
  confirmedAt : Option Text

/-- `FORMULA_LEAD`: what a spreadsheet reads as a formula begins with one of these. -/
def isFormulaLead (c : Char) : Bool :=
  c = '=' || c = '+' || c = '-' || c = '@' || c = '\t' || c = '\r'

def FORMULA_LEAD (value : Text) : Bool := value.head?.any isFormulaLead

/-- `value.replace(/"/g, '""')` -/
def doubled : Text → Text
  | [] => []
  | c :: value => if c = '"' then '"' :: '"' :: doubled value else c :: doubled value

def defanged (value : Text) : Text := if FORMULA_LEAD value then '\'' :: value else value

/-- `/[",\r\n]/` -/
def mustQuote (value : Text) : Bool :=
  value.any fun c => c = '"' || c = ',' || c = '\r' || c = '\n'

/-- De-fanged first, then quoted. -/
def csvField (value : Text) : Text :=
  if mustQuote (defanged value) then '"' :: doubled (defanged value) ++ ['"'] else defanged value

def HEADER : List Text :=
  ["domain".toList, "collection".toList, "item".toList, "name".toList, "state".toList,
    "claim".toList, "checked_at".toList]

/-- The texts of a row, in the order of the header. -/
def ConfirmedRowView.texts (r : ConfirmedRowView) : List Text :=
  [r.domain.text.toList, r.collection, r.naturalKey, r.displayName.getD [], r.state.text,
    r.claim.text, r.confirmedAt.getD []]

def BOM : Char := '\uFEFF'

def csvLine (texts : List Text) : Text := [','].intercalate (texts.map csvField)

def csvLines (rows : List ConfirmedRowView) : List Text :=
  csvLine HEADER :: rows.map fun r => csvLine r.texts

def confirmedListCsv (rows : List ConfirmedRowView) : Text :=
  BOM :: ['\r', '\n'].intercalate (csvLines rows) ++ ['\r', '\n']

theorem escaped_doubled (value : Text) : Rfc4180.Escaped (doubled value) value := by
  induction value with
  | nil => exact .nil
  | cons c value ih =>
      by_cases hc : c = '"'
      · subst hc
        exact .quote ih
      · rw [doubled, if_neg hc]
        exact .char hc ih

theorem field_csvField (value : Text) : Rfc4180.Field (csvField value) (defanged value) := by
  by_cases hquote : mustQuote (defanged value) = true
  · rw [csvField, if_pos hquote]
    exact .escaped (escaped_doubled _)
  · rw [csvField, if_neg hquote]
    refine .plain fun c hc => ?_
    have hplain := List.any_eq_false.mp (Bool.eq_false_iff.mpr hquote) c hc
    simp only [Bool.or_eq_true, decide_eq_true_eq, not_or] at hplain
    obtain ⟨⟨⟨hdquote, hcomma⟩, hcr⟩, hlf⟩ := hplain
    simp [Rfc4180.isTextData, hdquote, hcomma, hcr, hlf]

theorem record_csvLine {texts : List Text} (h : texts ≠ []) :
    Rfc4180.Record (csvLine texts) (texts.map defanged) := by
  induction texts with
  | nil => exact absurd rfl h
  | cons text texts ih =>
      cases texts with
      | nil =>
          have hline : csvLine [text] = csvField text := by simp [csvLine]
          rw [hline]
          exact .single (field_csvField text)
      | cons next texts =>
          have hline : csvLine (text :: next :: texts) =
              csvField text ++ ',' :: csvLine (next :: texts) := by
            simp [csvLine]
          rw [hline]
          exact .cons (field_csvField text) (ih (List.cons_ne_nil _ _))

/-- Lines that are records make a file, each with a break after it. -/
theorem file_csvLines {lines : List (List Text)} (h : lines ≠ []) (hne : ∀ line ∈ lines, line ≠ []) :
    Rfc4180.File (['\r', '\n'].intercalate (lines.map csvLine) ++ ['\r', '\n'])
      (lines.map fun line => line.map defanged) := by
  induction lines with
  | nil => exact absurd rfl h
  | cons line lines ih =>
      have hline := record_csvLine (hne line List.mem_cons_self)
      cases lines with
      | nil =>
          have hfile := Rfc4180.File.ended hline
          simpa [Rfc4180.CRLF] using hfile
      | cons next lines =>
          have hrest := ih (List.cons_ne_nil _ _) fun line hmem =>
            hne line (List.mem_cons_of_mem _ hmem)
          have hfile := Rfc4180.File.cons hline hrest
          simpa [Rfc4180.CRLF] using hfile

theorem defanged_or (value : Text) : defanged value = value ∨ defanged value = '\'' :: value := by
  unfold defanged
  split_ifs
  · exact .inr rfl
  · exact .inl rfl

theorem not_formulaLead_defanged (value : Text) : FORMULA_LEAD (defanged value) = false := by
  unfold defanged
  split_ifs with hlead
  · rfl
  · exact Bool.eq_false_iff.mpr hlead

theorem defanged_header : HEADER.map defanged = HEADER := by decide +kernel

theorem parse_csvLines (rows : List ConfirmedRowView) :
    Rfc4180.parse (['\r', '\n'].intercalate (csvLines rows) ++ ['\r', '\n']) =
      some (HEADER :: rows.map fun r => r.texts.map defanged) := by
  have hlines : csvLines rows = (HEADER :: rows.map ConfirmedRowView.texts).map csvLine := by
    simp [csvLines]
  have hwide : ∀ line ∈ HEADER :: rows.map ConfirmedRowView.texts, line.length = 7 := by
    simp [HEADER, ConfirmedRowView.texts]
  have hfile := file_csvLines (List.cons_ne_nil _ _) fun line hmem =>
    List.ne_nil_of_length_eq_add_one (hwide line hmem)
  rw [hlines]
  refine (Rfc4180.parse_of_file hfile fun record hmem => ?_).trans ?_
  · obtain ⟨line, hline, rfl⟩ := List.mem_map.mp hmem
    rw [List.length_map, hwide line hline]
    decide
  · rw [List.map_cons, defanged_header, List.map_map]
    rfl

/-! ### Both account for every row -/

/-- A record for each row, in order, with its texts; one that a spreadsheet would run has
an apostrophe before it. -/
structure FileComplete (rows : List ConfirmedRowView) (file : Text) : Prop where
  parsed : ∃ body records, file = BOM :: body ∧
    Rfc4180.parse body = some (HEADER :: records) ∧
    List.Forall₂ (fun row record => List.Forall₂ (fun text field =>
      field = text ∨ field = '\'' :: text) (ConfirmedRowView.texts row) record) rows records ∧
    ∀ record ∈ HEADER :: records, ∀ field ∈ record, FORMULA_LEAD field = false

/-- Every row is counted in its state and no other; what is kept are the first rows that
are not verified, as many as the limit admits. -/
structure ListComplete {Row : Type} (limit : Option Limit) (shown : Row → ConfirmedRow)
    (rows : List Row) (list : ConfirmedList Row) : Prop where
  byState : ∀ state, list.byState state = rows.countP fun row => (shown row).state = state
  addsUp : (ROW_STATES.map list.byState).sum = rows.length
  verified : list.verified = rows.countP fun row => countsAsVerified (shown row)
  total : list.total = rows.length
  kept : list.rows <+: notVerified shown rows
  within : ∀ length < list.rows.length, admits limit length = true
  full : list.rows ≠ notVerified shown rows → admits limit list.rows.length = false
  truncated : list.truncated = some true ↔ list.rows ≠ notVerified shown rows

theorem fileComplete_csv (rows : List ConfirmedRowView) :
    FileComplete rows (confirmedListCsv rows) := by
  refine ⟨_, rows.map fun r => r.texts.map defanged, rfl, parse_csvLines rows, ?_, ?_⟩
  · rw [List.forall₂_map_right_iff]
    apply List.forall₂_same.mpr
    intro row _
    rw [List.forall₂_map_right_iff]
    exact List.forall₂_same.mpr fun text _ => defanged_or text
  · intro record hrecord field hfield
    have hall : ∃ texts : List Text, record = texts.map defanged := by
      obtain rfl | hmem := List.mem_cons.mp hrecord
      · exact ⟨HEADER, defanged_header.symm⟩
      · obtain ⟨r, -, rfl⟩ := List.mem_map.mp hmem
        exact ⟨r.texts, rfl⟩
    obtain ⟨texts, rfl⟩ := hall
    obtain ⟨text, -, rfl⟩ := List.mem_map.mp hfield
    exact not_formulaLead_defanged text

/-- Each row is in one of the eight states. -/
theorem sum_countP_state {Row : Type} (shown : Row → ConfirmedRow) (rows : List Row) :
    (ROW_STATES.map fun state => rows.countP fun row => (shown row).state = state).sum =
      rows.length := by
  induction rows with
  | nil => rfl
  | cons row rows ih =>
      simp only [ROW_STATES, List.map_cons, List.map_nil, List.sum_cons, List.sum_nil] at ih
      simp only [ROW_STATES, List.map_cons, List.map_nil, List.sum_cons, List.sum_nil,
        List.countP_cons, List.length_cons]
      cases (shown row).state <;> simp <;> omega

theorem listComplete_confirmedList {Row : Type} (limit : Option Limit) (shown : Row → ConfirmedRow)
    (rows : List Row) : ListComplete limit shown rows (confirmedList limit shown rows) := by
  have h := confirmedListOf_holds limit shown rows
  obtain ⟨dropped, hkept, hdropped⟩ := h.kept
  have hmore : 0 < (confirmedListOf limit shown rows).dropped ↔
      (confirmedListOf limit shown rows).rows ≠ notVerified shown rows := by
    rw [hdropped, hkept, List.length_pos_iff, ne_eq, ne_eq, List.self_eq_append_right]
  have hstates : (confirmedListOf limit shown rows).byState =
      fun state => rows.countP fun row => (shown row).state = state := funext h.byState
  refine ⟨h.byState, ?_, h.verified, h.total, ⟨dropped, hkept.symm⟩, h.within,
    fun hne => h.full (hmore.mpr hne), ?_⟩
  · show (ROW_STATES.map (confirmedListOf limit shown rows).byState).sum = _
    rw [hstates]
    exact sum_countP_state shown rows
  · refine Iff.trans ?_ hmore
    show (if 0 < (confirmedListOf limit shown rows).dropped then some true else none) = some true ↔ _
    split_ifs with hpos
    · exact ⟨fun _ => hpos, fun _ => rfl⟩
    · exact ⟨fun h => absurd h (by simp), fun h => absurd h hpos⟩

/-- The file has a record for every row and the list of the screen counts every row,
whatever the limit. -/
theorem confirmed_complete (rows : List ConfirmedRowView) (limit : Option Limit) :
    FileComplete rows (confirmedListCsv rows) ∧
      ListComplete limit ConfirmedRowView.toConfirmedRow rows
        (confirmedList limit ConfirmedRowView.toConfirmedRow rows) :=
  ⟨fileComplete_csv rows, listComplete_confirmedList limit _ rows⟩

end Ownpace.Confirm
