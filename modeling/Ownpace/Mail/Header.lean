/-
Ownpace/Mail/Header.lean

Reading one header out of a message: `mail-headers.ts`.

A message is bytes.  What is read of it is its header section, decoded as latin1
(one character a byte), unfolded, and searched line by line.  A line here ends
where `^` and `$` of a multi-line pattern say it does.
-/
import Ownpace.Keys.Text

namespace Ownpace.Mail

open Keys

abbrev Bytes := List UInt8

/-! ### Bytes and text -/

/-- Decode as latin1. -/
def latin1 (b : Bytes) : List Char := b.map fun x => Char.ofNat x.toNat

/-- Encode as latin1: a character above it keeps its low byte. -/
def ofLatin1 (s : List Char) : Bytes := s.map fun c => UInt8.ofNat c.toNat

/-- `new TextEncoder().encode(s)` -/
def textEncode (s : List Char) : Bytes := s.flatMap String.utf8EncodeChar

def IsAscii (s : List Char) : Prop := ∀ c ∈ s, c.toNat < 128

theorem latin1_append (a b : Bytes) : latin1 (a ++ b) = latin1 a ++ latin1 b := List.map_append

theorem utf8EncodeChar_of_ascii {c : Char} (hc : c.toNat < 128) :
    String.utf8EncodeChar c = [UInt8.ofNat c.toNat] := by
  have hle : c.val.toNat ≤ 127 := Nat.le_of_lt_succ hc
  simp only [String.utf8EncodeChar, hle, if_true]
  rfl

theorem textEncode_of_ascii {s : List Char} (hs : IsAscii s) : textEncode s = ofLatin1 s := by
  induction s with
  | nil => rfl
  | cons c s ih =>
      rw [textEncode, List.flatMap_cons, utf8EncodeChar_of_ascii (hs c List.mem_cons_self)]
      exact congrArg (UInt8.ofNat c.toNat :: ·) (ih fun d hd => hs d (List.mem_cons_of_mem _ hd))

theorem latin1_ofLatin1 {s : List Char} (hs : IsAscii s) : latin1 (ofLatin1 s) = s := by
  rw [latin1, ofLatin1, List.map_map]
  refine (List.map_congr_left fun c hc => ?_).trans (List.map_id s)
  have hlt : c.toNat < 256 := Nat.lt_trans (hs c hc) (by decide)
  show Char.ofNat (UInt8.ofNat c.toNat).toNat = c
  rw [UInt8.toNat_ofNat_of_lt' hlt, Char.ofNat_toNat]

/-! ### The header section -/

/-- Offset of the blank line between headers and body, or the whole length. -/
def findHeaderEnd : Bytes → Nat
  | [] => 0
  | b :: rest =>
    if [0x0d, 0x0a, 0x0d, 0x0a].isPrefixOf (b :: rest) || [0x0a, 0x0a].isPrefixOf (b :: rest) then 0
    else findHeaderEnd rest + 1

def headerSection (rfc822 : Bytes) : List Char :=
  latin1 (rfc822.take (findHeaderEnd rfc822))

/-! ### One header of a section -/

/-- `[ \t]` -/
def isSpaceOrTab (c : Char) : Bool := c = ' ' || c = '\t'

/-- Does a line break that `\n` ends go on with `[ \t]`? -/
def foldsAfter : List Char → Bool
  | c :: _ => isSpaceOrTab c
  | [] => false

/-- `replace(/\r?\n[ \t]+/g, ' ')`; `inFold` while the blanks of a fold are passed. -/
def unfoldedFrom (inFold : Bool) : List Char → List Char
  | [] => []
  | c :: rest =>
    if inFold && isSpaceOrTab c then unfoldedFrom true rest
    else if c = '\r' && rest.head? = some '\n' && foldsAfter rest.tail then unfoldedFrom false rest
    else if c = '\n' && foldsAfter rest then ' ' :: unfoldedFrom true rest
    else c :: unfoldedFrom false rest

def unfolded (headers : List Char) : List Char := unfoldedFrom false headers

/-- What a line has after this name, the two compared without regard to case. -/
def afterName : List Char → List Char → Option (List Char)
  | [], line => some line
  | _ :: _, [] => none
  | n :: name, c :: line => if n.toLower = c.toLower then afterName name line else none

/-- `[ \t]*:(.*)` -/
def afterColon (line : List Char) : Option (List Char) :=
  match line.dropWhile isSpaceOrTab with
  | ':' :: value => some value
  | _ => none

def fieldValue (name line : List Char) : Option (List Char) := (afterName name line).bind afterColon

/-- A value that says something. -/
def nonEmptyText (s : List Char) : Option (List Char) := if s = [] then none else some s

/-- One header's value, trimmed: the first line of that name. -/
def headerValueIn (headers name : List Char) : Option (List Char) :=
  (((unfolded headers).splitOnP isLineTerminator).findSome? (fieldValue name)).bind
    fun value => nonEmptyText (trim value)

def headerValue (rfc822 : Bytes) (name : List Char) : Option (List Char) :=
  headerValueIn (headerSection rfc822) name

/-! ### A section that begins with this line -/

/-- The text up to the first line terminator. -/
def firstLine (s : List Char) : List Char := s.takeWhile fun c => !isLineTerminator c

theorem splitOnP_eq_firstLine (s : List Char) :
    ∃ more, s.splitOnP isLineTerminator = firstLine s :: more := by
  induction s with
  | nil => exact ⟨[], rfl⟩
  | cons c s ih =>
      obtain ⟨more, hmore⟩ := ih
      rw [List.splitOnP_cons_eq_if_modifyHead, firstLine, List.takeWhile_cons]
      cases hc : isLineTerminator c with
      | true => exact ⟨_, rfl⟩
      | false =>
          rw [hmore]
          exact ⟨more, rfl⟩

/-- The first line has the name, so the value is what it has after the colon. -/
theorem headerValueIn_of_firstLine {headers name value : List Char}
    (h : fieldValue name (firstLine (unfolded headers)) = some value) :
    headerValueIn headers name = nonEmptyText (trim value) := by
  obtain ⟨more, hmore⟩ := splitOnP_eq_firstLine (unfolded headers)
  rw [headerValueIn, hmore, List.findSome?_cons, h]
  rfl

theorem nonEmptyText_eq_some {s t : List Char} : nonEmptyText s = some t ↔ s = t ∧ t ≠ [] := by
  unfold nonEmptyText
  split <;> grind

/-- Text without a line break is unfolded as it stands. -/
theorem unfoldedFrom_append {s : List Char} (hs : ∀ c ∈ s, c ≠ '\n' ∧ c ≠ '\r') (hne : s ≠ [])
    (rest : List Char) : unfoldedFrom false (s ++ rest) = s ++ unfoldedFrom false rest := by
  induction s with
  | nil => exact absurd rfl hne
  | cons c s ih =>
      obtain ⟨hn, hr⟩ := hs c List.mem_cons_self
      have hstep : unfoldedFrom false (c :: (s ++ rest)) = c :: unfoldedFrom false (s ++ rest) := by
        simp [unfoldedFrom, hn, hr]
      rw [List.cons_append, hstep]
      by_cases hs' : s = []
      · subst hs'
        rfl
      · rw [ih (fun d hd => hs d (List.mem_cons_of_mem _ hd)) hs', List.cons_append]

theorem unfoldedFrom_true_eq (s : List Char) :
    unfoldedFrom true s = unfoldedFrom false (s.dropWhile isSpaceOrTab) := by
  induction s with
  | nil => rfl
  | cons c s ih =>
      cases hc : isSpaceOrTab c with
      | true =>
          rw [List.dropWhile_cons_of_pos hc, ← ih]
          simp [unfoldedFrom, hc]
      | false =>
          rw [List.dropWhile_cons_of_neg (by rw [hc]; decide)]
          simp [unfoldedFrom, hc]

/-- Blanks in front of a text are its own. -/
theorem unfoldedFrom_dropWhile (s : List Char) :
    unfolded s = s.takeWhile isSpaceOrTab ++ unfoldedFrom false (s.dropWhile isSpaceOrTab) := by
  induction s with
  | nil => rfl
  | cons c s ih =>
      cases hc : isSpaceOrTab c with
      | true =>
          have hn : c ≠ '\n' := by rintro rfl; cases hc
          have hr : c ≠ '\r' := by rintro rfl; cases hc
          have hstep : unfolded (c :: s) = c :: unfolded s := by
            simp [unfolded, unfoldedFrom, hn, hr]
          rw [hstep, ih, List.takeWhile_cons_of_pos hc, List.dropWhile_cons_of_pos hc,
            List.cons_append]
      | false =>
          rw [List.takeWhile_cons_of_neg (by rw [hc]; decide),
            List.dropWhile_cons_of_neg (by rw [hc]; decide)]
          rfl

end Ownpace.Mail
