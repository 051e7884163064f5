/-
Ownpace/Keys/Text.lean

The string operations a natural key is made with, on sequences of characters:
trimming, taking off a pair of angle brackets, and lower-casing.

Lower-casing follows the default case conversion of Unicode, whose tables are a
parameter (`CaseTable`).  Its one context rule looks past case-ignorable
characters to a cased one, so a character that is neither stops it: on the two
sides of a `|`, text is lower-cased independently (`toLowerCase_append_bar`).
-/
import Mathlib.Data.List.DropRight

namespace Ownpace.Keys

/-! ### Trimming -/

/-- The white space and the line terminators that `trim` removes. -/
def isWhiteSpace (c : Char) : Bool :=
  c ∈ ['\t', '\n', '\x0b', '\x0c', '\r', ' ', '\u00a0', '\u1680', '\u2028', '\u2029', '\u202f',
    '\u205f', '\u3000', '\ufeff'] || ('\u2000' ≤ c && c ≤ '\u200a')

def trim (s : List Char) : List Char := (s.dropWhile isWhiteSpace).rdropWhile isWhiteSpace

/-- Nothing but white space. -/
def Blank (s : List Char) : Prop := ∀ c ∈ s, isWhiteSpace c = true

/-- No white space at either end. -/
structure Trimmed (s : List Char) : Prop where
  head : ∀ c ∈ s.head?, isWhiteSpace c = false
  last : ∀ c ∈ s.getLast?, isWhiteSpace c = false

theorem dropWhile_blank_append {w : List Char} (hw : Blank w) (s : List Char) :
    (w ++ s).dropWhile isWhiteSpace = s.dropWhile isWhiteSpace := by
  induction w with
  | nil => rfl
  | cons c w ih =>
      rw [List.cons_append, List.dropWhile_cons_of_pos (hw c List.mem_cons_self)]
      exact ih fun d hd => hw d (List.mem_cons_of_mem _ hd)

theorem rdropWhile_append_blank {w : List Char} (hw : Blank w) (s : List Char) :
    (s ++ w).rdropWhile isWhiteSpace = s.rdropWhile isWhiteSpace := by
  unfold List.rdropWhile
  rw [List.reverse_append, dropWhile_blank_append fun c hc => hw c (List.mem_reverse.mp hc)]

theorem trim_of_trimmed {s : List Char} (h : Trimmed s) : trim s = s := by
  have hhead : s.dropWhile isWhiteSpace = s := by
    cases s with
    | nil => rfl
    | cons c s =>
        rw [List.dropWhile_cons_of_neg]
        rw [h.head c rfl]
        decide
  rw [trim, hhead, List.rdropWhile_eq_self_iff]
  intro hne
  rw [h.last _ (List.getLast_mem_getLast? hne)]
  decide

theorem trim_padded {w₁ w₂ : List Char} (h₁ : Blank w₁) (h₂ : Blank w₂) {s : List Char}
    (h : Trimmed s) : trim (w₁ ++ s ++ w₂) = s := by
  cases hs : s with
  | nil =>
      rw [List.append_nil, trim, dropWhile_blank_append h₁, ← List.append_nil w₂,
        dropWhile_blank_append h₂]
      rfl
  | cons c t =>
      -- The white space in front ends at the first character of `s`.
      have hfront : (c :: t ++ w₂).dropWhile isWhiteSpace = c :: t ++ w₂ := by
        rw [List.cons_append, List.dropWhile_cons_of_neg]
        rw [h.head c (by rw [hs]; rfl)]
        decide
      have hself := trim_of_trimmed h
      rw [trim, List.append_assoc, dropWhile_blank_append h₁, hfront, rdropWhile_append_blank h₂]
      rw [hs, trim, List.dropWhile_cons_of_neg] at hself
      · exact hself
      · rw [h.head c (by rw [hs]; rfl)]
        decide

theorem trimmed_trim (s : List Char) : Trimmed (trim s) where
  head := by
    intro c hc
    have hfirst : (s.dropWhile isWhiteSpace).head? = some c := by
      obtain ⟨t, ht⟩ := List.rdropWhile_prefix isWhiteSpace (l := s.dropWhile isWhiteSpace)
      rw [← ht, List.head?_append_of_ne_nil, ← trim]
      · exact hc
      · intro hnil
        rw [trim, hnil] at hc
        cases hc
    cases hd : s.dropWhile isWhiteSpace with
    | nil => rw [hd] at hfirst; cases hfirst
    | cons d t =>
        rw [hd] at hfirst
        cases hfirst
        have hne : s.dropWhile isWhiteSpace ≠ [] := by rw [hd]; exact List.cons_ne_nil _ _
        have hnot := List.head_dropWhile_not isWhiteSpace hne
        simpa [hd] using hnot
  last := by
    intro c hc
    have hne : (s.dropWhile isWhiteSpace).rdropWhile isWhiteSpace ≠ [] := by
      intro hnil
      rw [trim, hnil] at hc
      cases hc
    have hnot := List.rdropWhile_last_not isWhiteSpace _ hne
    have hlast : ((s.dropWhile isWhiteSpace).rdropWhile isWhiteSpace).getLast? = some c := hc
    rw [List.getLast?_eq_some_getLast hne] at hlast
    rw [Option.some.inj hlast] at hnot
    simpa using hnot

/-- Trimming takes blanks off both ends, and nothing else. -/
theorem exists_padding (s : List Char) : ∃ w₁ w₂, Blank w₁ ∧ Blank w₂ ∧ s = w₁ ++ trim s ++ w₂ := by
  refine ⟨s.takeWhile isWhiteSpace, (s.dropWhile isWhiteSpace).rtakeWhile isWhiteSpace,
    fun c hc => List.mem_takeWhile_imp hc, fun c hc => List.mem_rtakeWhile_imp hc, ?_⟩
  rw [trim, List.append_assoc, List.rdropWhile_append_rtakeWhile, List.takeWhile_append_dropWhile]

theorem length_trim_le (s : List Char) : (trim s).length ≤ s.length := by
  obtain ⟨w₁, w₂, _, _, hs⟩ := exists_padding s
  have hlen := congrArg List.length hs
  rw [List.length_append, List.length_append] at hlen
  omega

theorem isWhiteSpace_of_isDigit {c : Char} (h : c.isDigit = true) : isWhiteSpace c = false := by
  simp only [Char.isDigit, Bool.and_eq_true, decide_eq_true_eq, ge_iff_le] at h
  have hlow : 48 ≤ c.toNat := h.1
  have hhigh : c.toNat ≤ 57 := h.2
  simp only [isWhiteSpace, Bool.or_eq_false_iff, decide_eq_false_iff_not, List.mem_cons,
    List.not_mem_nil, or_false, Bool.and_eq_false_iff, not_or, decide_eq_false_iff_not]
  refine ⟨?_, Or.inl fun hc => ?_⟩
  · refine ⟨?_, ?_, ?_, ?_, ?_, ?_, ?_, ?_, ?_, ?_, ?_, ?_, ?_, ?_⟩ <;>
      · rintro rfl
        revert hlow hhigh
        decide
  · have : (8192 : Nat) ≤ c.toNat := hc
    omega

/-! ### A pair of angle brackets -/

/-- What `.` of a regular expression does not match. -/
def isLineTerminator (c : Char) : Bool := c ∈ ['\n', '\r', '\u2028', '\u2029']

def OneLine (s : List Char) : Prop := ∀ c ∈ s, isLineTerminator c = false

/-- The group that `/^<(.*)>$/` captures. -/
def capturedBetweenBrackets : List Char → Option (List Char)
  | '<' :: rest =>
    if rest.getLast? = some '>' ∧ rest.dropLast.all (fun c => !isLineTerminator c) then
      some rest.dropLast
    else none
  | _ => none

/-- `replace(/^<(.*)>$/, '$1')`. -/
def stripBrackets (s : List Char) : List Char := (capturedBetweenBrackets s).getD s

def inBrackets (s : List Char) : List Char := '<' :: (s ++ ['>'])

theorem captured_eq_some {s inner : List Char} :
    capturedBetweenBrackets s = some inner ↔ s = inBrackets inner ∧ OneLine inner := by
  constructor
  · intro h
    unfold capturedBetweenBrackets at h
    split at h
    · next rest =>
        split at h
        · next hrest =>
            cases h
            refine ⟨?_, ?_⟩
            · rw [inBrackets, List.dropLast_append_getLast? _ hrest.1]
            · intro c hc
              have hall := List.all_eq_true.mp hrest.2 c hc
              simpa using hall
        · cases h
    · cases h
  · rintro ⟨rfl, hline⟩
    have hall : inner.all (fun c => !isLineTerminator c) = true := by
      rw [List.all_eq_true]
      intro c hc
      rw [hline c hc]
      rfl
    simp only [inBrackets, capturedBetweenBrackets, List.getLast?_append, List.getLast?_singleton,
      Option.some_or, List.dropLast_concat, hall, and_self, if_true]

theorem trimmed_inBrackets (s : List Char) : Trimmed (inBrackets s) where
  head := by
    intro c hc
    cases hc
    decide
  last := by
    intro c hc
    rw [inBrackets, ← List.cons_append, List.getLast?_concat] at hc
    cases hc
    decide

/-! ### Lower-casing -/

theorem toNat_toLower (x : Char) :
    x.toLower.toNat = if 65 ≤ x.toNat ∧ x.toNat ≤ 90 then x.toNat + 32 else x.toNat := by
  delta Char.toLower
  simp only [ge_iff_le, UInt32.le_iff_toNat_le]
  split
  · next h =>
    have hrange : 65 ≤ x.toNat ∧ x.toNat ≤ 90 := h
    rw [if_pos hrange]
    show (x.val + _).toNat = _
    rw [UInt32.toNat_add]
    show (x.toNat + 32) % 4294967296 = _
    omega
  · next h =>
    have hrange : ¬ (65 ≤ x.toNat ∧ x.toNat ≤ 90) := h
    rw [if_neg hrange]

/-- The tables of the default case conversion: the full lower-case mapping of a
character, and the two properties the rule for a final sigma looks at. -/
structure CaseTable where
  lower : Char → List Char
  cased : Char → Bool
  caseIgnorable : Char → Bool
  /-- A `|` is its own lower case. -/
  lower_bar : lower '|' = ['|']
  cased_bar : cased '|' = false
  caseIgnorable_bar : caseIgnorable '|' = false

namespace CaseTable

variable (t : CaseTable)

/-- A cased character, after case-ignorable ones only. -/
def reachesCased : List Char → Bool
  | [] => false
  | c :: rest => t.cased c || (t.caseIgnorable c && reachesCased rest)

/-- Lower-case a text whose characters in front are given nearest first. -/
def lowerAfter : List Char → List Char → List Char
  | _, [] => []
  | before, c :: rest =>
    (if c = 'Σ' && t.reachesCased before && !t.reachesCased rest then ['ς'] else t.lower c) ++
      lowerAfter (c :: before) rest

def toLowerCase (s : List Char) : List Char := t.lowerAfter [] s

theorem reachesCased_append_bar (s r : List Char) :
    t.reachesCased (s ++ '|' :: r) = t.reachesCased s := by
  induction s with
  | nil => simp [reachesCased, t.cased_bar, t.caseIgnorable_bar]
  | cons c s ih => rw [List.cons_append, reachesCased, reachesCased, ih]

theorem lowerAfter_bar (before after s : List Char) :
    t.lowerAfter (before ++ '|' :: after) s = t.lowerAfter before s := by
  induction s generalizing before with
  | nil => rfl
  | cons c rest ih =>
      rw [lowerAfter, lowerAfter, reachesCased_append_bar, ← List.cons_append, ih]

theorem lowerAfter_append_bar (before s r : List Char) :
    t.lowerAfter before (s ++ '|' :: r) = t.lowerAfter before s ++ '|' :: t.toLowerCase r := by
  induction s generalizing before with
  | nil =>
      have hne : ¬ (('|' : Char) = 'Σ') := by decide
      rw [List.nil_append, lowerAfter.eq_2, decide_eq_false hne, Bool.false_and, Bool.false_and,
        if_neg Bool.false_ne_true, t.lower_bar]
      show '|' :: t.lowerAfter ([] ++ '|' :: before) r = '|' :: t.toLowerCase r
      rw [lowerAfter_bar]
      rfl
  | cons c rest ih =>
      rw [List.cons_append, lowerAfter, lowerAfter, reachesCased_append_bar, ih,
        List.append_assoc]

/-- A `|` separates two texts that are lower-cased independently. -/
theorem toLowerCase_append_bar (s r : List Char) :
    t.toLowerCase (s ++ '|' :: r) = t.toLowerCase s ++ '|' :: t.toLowerCase r :=
  t.lowerAfter_append_bar [] s r

end CaseTable

end Ownpace.Keys
