/-
Ownpace/Format/Rfc4180.lean

Comma-separated files after RFC 4180, over arbitrary texts: the grammar, a parser, and
that the parser gives back what the grammar reads in a file.

The grammar leaves open whether the break after the last record opens a record of one
empty field; where every record has two fields or more, there is one reading.  Plain
text is any character but the quote, the comma and the two of a line break, since the
grammar's own range is that of ASCII.
-/
import Mathlib.Init

namespace Ownpace.Rfc4180

abbrev Text := List Char

def COMMA : Char := ','
def DQUOTE : Char := '"'
def CRLF : Text := ['\r', '\n']

def isTextData (c : Char) : Bool := c ≠ '"' && c ≠ ',' && c ≠ '\r' && c ≠ '\n'

/-! ### The grammar -/

/-- What stands between the quotes, with the text that it stands for. -/
inductive Escaped : Text → Text → Prop
  | nil : Escaped [] []
  | char {c : Char} {t v : Text} (hc : c ≠ DQUOTE) (h : Escaped t v) : Escaped (c :: t) (c :: v)
  | quote {t v : Text} (h : Escaped t v) : Escaped (DQUOTE :: DQUOTE :: t) (DQUOTE :: v)

inductive Field : Text → Text → Prop
  | plain {v : Text} (hv : ∀ c ∈ v, isTextData c = true) : Field v v
  | escaped {t v : Text} (h : Escaped t v) : Field (DQUOTE :: t ++ [DQUOTE]) v

inductive Record : Text → List Text → Prop
  | single {t v : Text} (h : Field t v) : Record t [v]
  | cons {t ts v : Text} {vs : List Text} (h : Field t v) (hs : Record ts vs) :
      Record (t ++ COMMA :: ts) (v :: vs)

/-- Records parted by line breaks; the last may end in one. -/
inductive File : Text → List (List Text) → Prop
  | last {t : Text} {r : List Text} (h : Record t r) : File t [r]
  | ended {t : Text} {r : List Text} (h : Record t r) : File (t ++ CRLF) [r]
  | cons {t ts : Text} {r : List Text} {rs : List (List Text)} (h : Record t r) (hs : File ts rs) :
      File (t ++ (CRLF ++ ts)) (r :: rs)

/-! ### The parser -/

/-- Where the parser stands: before a field, in a plain one, between quotes, after a quote
that was opened, after a carriage return. -/
inductive Mode : Type
  | start | plain | quoted | closed | broken
  deriving DecidableEq

/-- A character before the rest of the field. -/
def push (c : Char) : List (List Text) → List (List Text)
  | (field :: r) :: rs => ((c :: field) :: r) :: rs
  | rs => rs

/-- An empty field before the rest of the record. -/
def newField : List (List Text) → List (List Text)
  | r :: rs => ([] :: r) :: rs
  | [] => []

/-- What the rest of a file holds, its first field being the rest of the current one. -/
def read : Mode → Text → Option (List (List Text))
  | .start, [] | .plain, [] | .closed, [] => some [[[]]]
  | .quoted, [] | .broken, [] => none
  | .quoted, c :: t =>
    if c = DQUOTE then read .closed t else (read .quoted t).map (push c)
  | .broken, c :: t =>
    if c = '\n' then
      if t = [] then some [[[]]] else (read .start t).map fun rs => [[]] :: rs
    else none
  | mode, c :: t =>
    if c = COMMA then (read .start t).map newField
    else if c = '\r' then read .broken t
    else if c = '\n' then none
    else if c = DQUOTE then
      if mode = .start then read .quoted t
      else if mode = .closed then (read .quoted t).map (push c)
      else none
    else if mode = .closed then none
    else (read .plain t).map (push c)

def parse (t : Text) : Option (List (List Text)) := read .start t

/-! ### The parser reads what the grammar does -/

variable {t v rest : Text} {r vs : List Text} {rs tail : List (List Text)}

/-- A field has come to its end: at the end of the file, a comma or a line break. -/
def Ends (rest : Text) : Prop := ∀ c ∈ rest.head?, c = COMMA ∨ c = '\r'

theorem Ends.read_eq (h : Ends rest) {mode : Mode} (hmode : mode ≠ .quoted ∧ mode ≠ .broken) :
    read mode rest = read .closed rest := by
  obtain ⟨hquoted, hbroken⟩ := hmode
  cases rest with
  | nil => cases mode <;> first | rfl | contradiction
  | cons c t =>
      obtain rfl | rfl := h c rfl
      · cases mode <;> first | rfl | contradiction
      · cases mode <;> first | rfl | contradiction

theorem read_plain (hv : ∀ c ∈ v, isTextData c = true) (hrest : Ends rest)
    (h : read .closed rest = some (([] :: r) :: tail)) {mode : Mode}
    (hmode : mode = .start ∨ mode = .plain) :
    read mode (v ++ rest) = some ((v :: r) :: tail) := by
  induction v generalizing mode with
  | nil =>
      rw [List.nil_append, hrest.read_eq, h]
      rcases hmode with rfl | rfl <;> exact ⟨by decide, by decide⟩
  | cons c v ih =>
      have hc := hv c List.mem_cons_self
      have hread := ih (fun d hd => hv d (List.mem_cons_of_mem _ hd)) (.inr rfl)
      simp only [isTextData, Bool.and_eq_true, decide_eq_true_eq] at hc
      obtain ⟨⟨⟨hquote, hcomma⟩, hcr⟩, hlf⟩ := hc
      rcases hmode with rfl | rfl
      · simp [read, COMMA, DQUOTE, hquote, hcomma, hcr, hlf, hread, push]
      · simp [read, COMMA, DQUOTE, hquote, hcomma, hcr, hlf, hread, push]

theorem read_escaped (ht : Escaped t v)
    (h : read .closed rest = some (([] :: r) :: tail)) :
    read .quoted (t ++ DQUOTE :: rest) = some ((v :: r) :: tail) := by
  induction ht with
  | nil => simp [read, h]
  | char hc _ ih => simp [read, hc, ih, push]
  | quote _ ih => simp [read, COMMA, DQUOTE, push] at ih ⊢; exact ⟨_, ih, rfl⟩

theorem read_field (ht : Field t v) (hrest : Ends rest)
    (h : read .closed rest = some (([] :: r) :: tail)) :
    read .start (t ++ rest) = some ((v :: r) :: tail) := by
  cases ht with
  | plain hv => exact read_plain hv hrest h (.inl rfl)
  | escaped ht =>
      have hread := read_escaped ht h
      simpa [read, COMMA, DQUOTE] using hread

theorem read_record (ht : Record t vs) (hrest : rest = [] ∨ rest.head? = some '\r')
    (h : read .closed rest = some ([[]] :: tail)) :
    read .start (t ++ rest) = some (vs :: tail) := by
  induction ht with
  | single hf =>
      refine read_field hf (fun c hc => .inr ?_) h
      rcases hrest with rfl | hrest
      · cases hc
      · exact (Option.mem_some.mp (hrest ▸ hc)).symm
  | @cons t ts v vs hf _ ih =>
      have hclosed : read .closed (COMMA :: (ts ++ rest)) = some (([] :: vs) :: tail) := by
        simp [read, ih, newField]
      have hends : Ends (COMMA :: (ts ++ rest)) := fun c hc => .inl (Option.mem_some.mp hc).symm
      rw [List.append_assoc]
      exact read_field hf hends hclosed

theorem Record.ne_nil (ht : Record t vs) (hwide : 2 ≤ vs.length) : t ≠ [] := by
  cases ht with
  | single _ => exact absurd hwide (by simp)
  | cons _ _ => simp

theorem File.ne_nil (ht : File t rs) (hwide : ∀ r ∈ rs, 2 ≤ r.length) : t ≠ [] := by
  cases ht with
  | last h => exact h.ne_nil (hwide _ List.mem_cons_self)
  | ended _ => simp [CRLF]
  | cons _ _ => simp [CRLF]

/-- Where the grammar reads records of two fields or more in a file, the parser gives
these records: no file has two such readings. -/
theorem parse_of_file (ht : File t rs) (hwide : ∀ r ∈ rs, 2 ≤ r.length) : parse t = some rs := by
  induction ht with
  | @last t r h =>
      have hread : read .start (t ++ []) = some [r] := read_record h (.inl rfl) rfl
      rwa [List.append_nil] at hread
  | ended h => exact read_record h (.inr rfl) rfl
  | @cons t ts r rs h hs ih =>
      have hts := ih fun r hr => hwide r (List.mem_cons_of_mem _ hr)
      have hne := hs.ne_nil fun r hr => hwide r (List.mem_cons_of_mem _ hr)
      refine read_record h (.inr rfl) ?_
      have hread : read .start ts = some rs := hts
      simp [read, CRLF, COMMA, hne, hread]

end Ownpace.Rfc4180
