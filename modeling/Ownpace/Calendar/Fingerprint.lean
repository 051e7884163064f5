/-
Ownpace/Calendar/Fingerprint.lean

The fingerprint of a calendar and of a card: `calendarFingerprint` and
`contactFingerprint` of `dav-canonical.ts`.

It unfolds the text on its own, with three replacements over the whole of it.  On
a folding these come to the unfolded text of each property: `unfold_text`.
-/
import Mathlib.Data.List.Lex
import Ownpace.Calendar.Folded
import Ownpace.Keys.Text

namespace Ownpace.Calendar

open Keys FoldedText

/-! ### Unfolding -/

/-- `replace(/\r\n/g, '\n')` -/
def crlfToLf : List Char → List Char
  | [] => []
  | c :: s => if c = '\r' ∧ s.head? = some '\n' then crlfToLf s else c :: crlfToLf s

/-- `replace(/\r/g, '\n')` -/
def crToLf (s : List Char) : List Char := s.map fun c => if c = '\r' then '\n' else c

/-- `replace(/\n[ \t]/g, '')`; `inFold` where the blank of a fold is next. -/
def dropFolds (inFold : Bool) : List Char → List Char
  | [] => []
  | c :: s =>
    if inFold then dropFolds false s
    else if c = '\n' ∧ continues s = true then dropFolds true s
    else c :: dropFolds false s

def unfoldText (source : List Char) : List Char := dropFolds false (crToLf (crlfToLf source))

def unfold (source : List Char) : List (List Char) :=
  ((unfoldText source).splitOn '\n').filter fun line => trim line ≠ []

/-! ### The canonical lines -/

/-- Undo `\n`, `\,`, `\;` and `\\`. -/
def unescapeText : List Char → List Char
  | [] => []
  | [c] => [c]
  | c :: d :: s =>
    if c = '\\' then
      if d = 'n' ∨ d = 'N' then '\n' :: unescapeText s
      else if d ∈ [',', ';', '\\'] then d :: unescapeText s
      else c :: unescapeText (d :: s)
    else c :: unescapeText (d :: s)

/-- `toUpperCase`, by the tables of Unicode, which keep ASCII to itself. -/
structure UpperCasing where
  toUpperCase : List Char → List Char
  ascii : ∀ s, (∀ c ∈ s, c.toNat < 128) → toUpperCase s = s.map Char.toUpper

/-- The code units a sort compares. -/
def codeUnits (s : List Char) : List Nat :=
  s.flatMap fun c =>
    if c.toNat < 0x10000 then [c.toNat]
    else [0xd800 + (c.toNat - 0x10000) / 1024, 0xdc00 + (c.toNat - 0x10000) % 1024]

/-- `sort()` -/
def sorted (lines : List (List Char)) : List (List Char) :=
  lines.mergeSort fun a b => decide (codeUnits a ≤ codeUnits b)

def calendarProperties : List (List Char) :=
  [['U', 'I', 'D'], ['S', 'U', 'M', 'M', 'A', 'R', 'Y'],
    ['D', 'E', 'S', 'C', 'R', 'I', 'P', 'T', 'I', 'O', 'N'], ['L', 'O', 'C', 'A', 'T', 'I', 'O', 'N']]

def contactProperties : List (List Char) :=
  [['U', 'I', 'D'], ['F', 'N'], ['N'], ['E', 'M', 'A', 'I', 'L'], ['T', 'E', 'L'], ['O', 'R', 'G'],
    ['T', 'I', 'T', 'L', 'E'], ['N', 'O', 'T', 'E']]

variable (casing : UpperCasing)

/-- The name of a line in front of its first colon, its parameters left out. -/
def UpperCasing.lineName (line : List Char) : List Char :=
  casing.toUpperCase (trim ((line.takeWhile fun c => c ≠ ':').takeWhile fun c => c ≠ ';'))

/-- What one unfolded line gives: `NAME:value`. -/
def UpperCasing.canonicalLine (properties : List (List Char)) (line : List Char) : Option (List Char) :=
  let colon := line.findIdx fun c => c = ':'
  let value := trim (unescapeText (line.drop (colon + 1)))
  if line.length ≤ colon ∨ colon = 0 then none
  else if casing.lineName line ∉ properties then none
  else if value = [] then none
  else some (casing.lineName line ++ ':' :: value)

def UpperCasing.canonicalLines (source : List Char) (properties : List (List Char)) : List Char :=
  List.intercalate ['\n'] (sorted ((unfold source).filterMap (casing.canonicalLine properties)))

/-- A versioned fingerprint of an iCalendar object. -/
def UpperCasing.calendarFingerprint (digest : List Char → List Char) (icalendar : List Char) : List Char :=
  ['c', 'a', 'l', '1', ':'] ++ digest (casing.canonicalLines icalendar calendarProperties)

/-- A versioned fingerprint of a vCard. -/
def UpperCasing.contactFingerprint (digest : List Char → List Char) (vcard : List Char) : List Char :=
  ['c', 'a', 'r', 'd', '1', ':'] ++ digest (casing.canonicalLines vcard contactProperties)

/-! ### Unfolding a folding -/

variable {a s : List Char}

theorem continues_cons_iff {c : Char} : continues (c :: s) = true ↔ c = ' ' ∨ c = '\t' := by
  simp [continues]

theorem crlfToLf_plain (ha : Plain a) (s : List Char) : crlfToLf (a ++ s) = a ++ crlfToLf s := by
  induction a with
  | nil => rfl
  | cons c a ih =>
      obtain ⟨hc, ha⟩ := plain_cons.mp ha
      rw [List.cons_append, crlfToLf, if_neg fun h => hc.2 h.1, ih ha]
      rfl

theorem crToLf_plain (ha : Plain a) : crToLf a = a := by
  rw [crToLf]
  refine (List.map_congr_left fun c hc => ?_).trans (List.map_id a)
  exact if_neg (ha c hc).2

theorem dropFolds_plain (ha : Plain a) (s : List Char) :
    dropFolds false (a ++ s) = a ++ dropFolds false s := by
  induction a with
  | nil => rfl
  | cons c a ih =>
      obtain ⟨hc, ha⟩ := plain_cons.mp ha
      rw [List.cons_append, dropFolds, if_neg (by decide), if_neg fun h => hc.1 h.1, ih ha]
      rfl

theorem unfoldText_plain (ha : Plain a) (s : List Char) : unfoldText (a ++ s) = a ++ unfoldText s := by
  have hmap : crToLf (a ++ crlfToLf s) = crToLf a ++ crToLf (crlfToLf s) := List.map_append
  rw [unfoldText, crlfToLf_plain ha, hmap, crToLf_plain ha, dropFolds_plain ha]
  rfl

/-- Blanks stay where they are while line breaks are made alike. -/
theorem continues_normal (s : List Char) : continues (crToLf (crlfToLf s)) = continues s := by
  cases s with
  | nil => rfl
  | cons c s =>
      rw [crlfToLf]
      split
      · next h =>
        obtain ⟨t, rfl⟩ : ∃ t, s = '\n' :: t := ⟨s.tail, List.eq_cons_of_mem_head? h.2⟩
        rw [h.1, crlfToLf, if_neg fun hcr => absurd hcr.1 (by decide)]
        rfl
      · show continues ((if c = '\r' then '\n' else c) :: crToLf (crlfToLf s)) = continues (c :: s)
        split
        · next h =>
          rw [h]
          rfl
        · rfl

/-- Behind a line break either the property goes on, or the next one begins. -/
theorem unfoldText_break {e : List Char} (he : e = ['\n'] ∨ e = ['\r', '\n']) (s : List Char) :
    unfoldText (e ++ s) = if continues s = true then unfoldText (s.drop 1) else '\n' :: unfoldText s := by
  have hbreak : crToLf (crlfToLf (e ++ s)) = '\n' :: crToLf (crlfToLf s) := by
    rcases he with rfl | rfl
    · rfl
    · rfl
  rw [unfoldText, hbreak, dropFolds, if_neg (by decide), continues_normal]
  by_cases hs : continues s = true
  · rw [if_pos ⟨rfl, hs⟩, if_pos hs]
    cases s with
    | nil => cases hs
    | cons c s =>
        have hc : c ≠ '\r' := by
          rintro rfl
          cases hs
        rw [crlfToLf, if_neg fun h => hc h.1]
        show dropFolds true ((if c = '\r' then '\n' else c) :: crToLf (crlfToLf s)) = _
        rw [dropFolds, if_pos rfl]
        rfl
  · rw [if_neg fun h => hs h.2, if_neg hs]
    rfl

/-- A continuation line without its blank. -/
theorem full_tail {c : Char} {l : List Char} (hc : Plain [c]) (h : Full (c :: l)) :
    Full l ∧ (chomp (c :: l)).drop 1 = chomp l := by
  obtain ⟨t, ht, hl, hchomp⟩ := full_cut_front hc h
  have hend := h.cut.2.2
  rw [show [c] ++ l = c :: l from rfl] at hl hchomp
  have hfull : Full (t ++ lineEnd (c :: l)) := full_append ht hend
  have hcut : chomp (t ++ lineEnd (c :: l)) = t := chomp_append (lineEnd_append ht hend)
  rw [← hl] at hfull hcut
  exact ⟨hfull, by rw [hchomp, hcut]; rfl⟩

/-- The unfolded text of one property, and how it ends. -/
theorem unfoldText_property {f : List Char} {more tail : List (List Char)}
    (hf : Full f ∨ Plain f ∧ more ++ tail = []) (hlines : Lines (more ++ tail))
    (hmore : ∀ l ∈ more, continues l = true) (htail : continues tail.flatten = false) :
    ∃ e, (e = ['\n'] ∨ e = [] ∧ tail = []) ∧
      unfoldText (f ++ (more ++ tail).flatten) =
        chomp f ++ (more.map fun l => (chomp l).drop 1).flatten ++ e ++ unfoldText tail.flatten := by
  induction more generalizing f with
  | nil =>
      rcases hf with hf | ⟨hf, hnil⟩
      · obtain ⟨hplain, hcut, hbreak⟩ := hf.cut
        refine ⟨['\n'], .inl rfl, ?_⟩
        show unfoldText (f ++ tail.flatten) = _
        rw [hcut, List.append_assoc, unfoldText_plain hplain, unfoldText_break hbreak,
          if_neg (by rw [htail]; decide), ← hcut]
        simp
      · obtain rfl : tail = [] := hnil
        refine ⟨[], .inr ⟨rfl, rfl⟩, ?_⟩
        show unfoldText (f ++ []) = _
        rw [unfoldText_plain hf, chomp_plain hf]
        simp
  | cons m more ih =>
      obtain ⟨hm, hms⟩ := List.forall_mem_cons.mp hmore
      have hfull : Full f := by
        rcases hf with hf | ⟨-, hnil⟩
        · exact hf
        · cases hnil
      obtain ⟨hplain, hcut, hbreak⟩ := hfull.cut
      cases m with
      | nil => cases hm
      | cons c m =>
          have hc : Plain [c] := by
            refine plain_cons.mpr ⟨?_, plain_nil⟩
            rcases continues_cons_iff.mp hm with rfl | rfl <;> decide
          -- without its blank the continuation line is a line in front of the rest
          have hrest : (Full m ∨ Plain m ∧ more ++ tail = []) ∧ Lines (more ++ tail) ∧
              (chomp (c :: m)).drop 1 = chomp m := by
            rw [List.cons_append] at hlines
            generalize more ++ tail = rest at hlines ⊢
            cases hlines with
            | last hlast _ =>
                have hm := (plain_cons.mp hlast).2
                exact ⟨.inr ⟨hm, rfl⟩, .nil, by rw [chomp_plain hlast, chomp_plain hm]; rfl⟩
            | cons hline hrest =>
                obtain ⟨hm, hchomp⟩ := full_tail hc hline
                exact ⟨.inl hm, hrest, hchomp⟩
          obtain ⟨hm', hlines', hchomp⟩ := hrest
          obtain ⟨e, he, hunfold⟩ := ih hm' hlines' hms
          refine ⟨e, he, ?_⟩
          show unfoldText (f ++ (c :: m ++ (more ++ tail).flatten)) = _
          have hcont : continues (c :: m ++ (more ++ tail).flatten) = true := continues_cons_iff.mpr
            (continues_cons_iff.mp hm)
          rw [hcut, List.append_assoc, unfoldText_plain hplain, unfoldText_break hbreak, if_pos hcont, ← hcut]
          show chomp f ++ unfoldText (m ++ (more ++ tail).flatten) = _
          rw [hunfold, List.map_cons, List.flatten_cons, hchomp]
          simp

theorem continues_flatten {ls : List (List Char)} (hlines : Lines ls)
    (h : ∀ l ∈ ls.head?, continues l = false) : continues ls.flatten = false := by
  cases hlines with
  | nil => rfl
  | last _ _ => exact (List.flatten_singleton ▸ h _ rfl)
  | @cons l ls hl _ =>
      have hfirst := h l rfl
      cases l with
      | nil =>
          obtain ⟨-, hcut, hbreak⟩ := hl.cut
          rcases hbreak with hbreak | hbreak <;> simp [hbreak] at hcut
      | cons c l => exact hfirst

/-- **The fingerprint reads the unfolded text of each property.** -/
theorem unfold_text {gs : List Folded} (h : IsFolding gs) :
    unfold (text gs) = (gs.map Folded.logical).filter fun line => trim line ≠ [] := by
  have hmore := h.more
  have hfirst := h.first
  have hlines := h.lines
  clear h
  rw [unfold, text]
  induction gs with
  | nil => rfl
  | cons g gs ih =>
      have hhead : ∀ l ∈ (gs.flatMap Folded.lines).head?, continues l = false := by
        cases gs with
        | nil => exact fun l hl => absurd hl (by simp)
        | cons d gs =>
            intro l hl
            obtain rfl := Option.some.inj hl
            exact hfirst d List.mem_cons_self
      have hcut : Lines (g.first :: (g.more ++ gs.flatMap Folded.lines)) := hlines
      have hrest : Lines (gs.flatMap Folded.lines) := (List.flatMap_cons ▸ hlines).of_append.1
      have hbehind := ih (fun d hd => hmore d (List.mem_cons_of_mem _ hd))
        (fun d hd => hfirst d (List.mem_of_mem_tail hd)) hrest
      have hf : (Full g.first ∨ Plain g.first ∧ g.more ++ gs.flatMap Folded.lines = []) ∧
          Lines (g.more ++ gs.flatMap Folded.lines) := by
        generalize g.more ++ gs.flatMap Folded.lines = rest at hcut ⊢
        cases hcut with
        | last hplain _ => exact ⟨.inr ⟨hplain, rfl⟩, .nil⟩
        | cons hfull hrest => exact ⟨.inl hfull, hrest⟩
      obtain ⟨e, he, hunfold⟩ := unfoldText_property hf.1 hf.2 (hmore g List.mem_cons_self)
        (continues_flatten hrest hhead)
      have hlogical : Plain g.logical := plain_logical (lines_of_mem hlines g List.mem_cons_self)
      have hno : '\n' ∉ g.logical := fun hmem => (hlogical _ hmem).1 rfl
      show ((unfoldText (g.first ++ (g.more ++ gs.flatMap Folded.lines).flatten)).splitOn '\n').filter _ = _
      rw [hunfold]
      show ((g.logical ++ e ++ unfoldText (gs.flatMap Folded.lines).flatten).splitOn '\n').filter _ = _
      rcases he with rfl | ⟨rfl, hnil⟩
      · rw [List.append_assoc, List.singleton_append, List.splitOn_append_cons_self_of_not_mem hno]
        rw [List.map_cons, List.filter_cons, List.filter_cons, hbehind]
      · rw [hnil] at hbehind ⊢
        rw [List.append_nil, show unfoldText ([] : List (List Char)).flatten = [] from rfl,
          List.append_nil, List.splitOn_eq_singleton hno]
        rw [List.map_cons, List.filter_cons, List.filter_cons, ← hbehind]
        rfl

end Ownpace.Calendar
