/-
Ownpace/Calendar/Carried.lean

What an object carries, and what its fingerprint reads of it.

An object is a text of content lines.  Of a compared property it carries the value,
without its escapes and the blanks around it, whatever its parameters are and
whatever group it is in.  The fingerprint looks for the first colon of the line, and
for the name as it stands: `canonicalLine_clear` says when it reads what the line
carries, `canonicalLine_withColon` what a colon in a parameter does to it.
-/
import Ownpace.Calendar.Joined
import Ownpace.Calendar.Neutral

namespace Ownpace.Calendar

open Keys FoldedText

/-! ### Objects -/

/-- A letter, a digit or a hyphen. -/
def nameChar (x : Char) : Bool := x.isAlphanum || x = '-'

/-- A content line with a name; in a card, there may be a group in front of the name. -/
structure ContentLine.Legal (grouped : Bool) (c : ContentLine) : Prop where
  closed : c.Closed
  named : c.name ≠ []
  name : ∀ x ∈ c.name, nameChar x = true ∨ grouped = true ∧ x = '.'

/-- Lines that end with LF or CRLF; those that are not blank are content lines. -/
structure IsObject (grouped : Bool) (s : List Char) : Prop where
  ends : LineEnds s
  lines : ∀ g ∈ properties s, trim g.logical ≠ [] →
    ∃ c, contentLine g.logical = some c ∧ c.Legal grouped

def contents (s : List Char) : List ContentLine := (properties s).filterMap fun g => contentLine g.logical

/-- The name without its group, in capitals. -/
def ContentLine.property (c : ContentLine) : List Char :=
  (if '.' ∈ c.name then (c.name.dropWhile fun x => x ≠ '.').drop 1 else c.name).map Char.toUpper

/-- What a line says of a compared property. -/
def ContentLine.said (compared : List (List Char)) (c : ContentLine) :
    Option (List Char × List Char) :=
  if compared.contains c.property then some (c.property, unescapeText c.value) else none

def said (compared : List (List Char)) (s : List Char) : List (List Char × List Char) :=
  (contents s).filterMap fun c => c.said compared

/-- A value without the blanks around it, unless it is blank. -/
def evidence (p : List Char × List Char) : Option (List Char × List Char) :=
  if trim p.2 = [] then none else some (p.1, trim p.2)

/-- What an object carries: the compared properties with their values. -/
def carried (compared : List (List Char)) (s : List Char) : List (List Char × List Char) :=
  (said compared s).filterMap evidence

/-- The line is read as it is meant: no group, no colon in a parameter, and no line of its value
reads like a compared property. -/
structure ContentLine.Clear (compared : List (List Char)) (c : ContentLine) : Prop where
  ungrouped : '.' ∉ c.name
  params : ∀ q ∈ c.params, ':' ∉ q
  value : ∀ n ∈ compared, ¬ '\n' :: (n ++ [':']) <:+: trim (unescapeText c.value)

def AllClear (compared : List (List Char)) (s : List Char) : Prop :=
  ∀ c ∈ contents s, c.property ∈ compared → c.Clear compared

/-! ### Blanks and escapes -/

theorem isWhiteSpace_colon : isWhiteSpace ':' = false := by decide

theorem nameChar_range {x : Char} (h : nameChar x = true ∨ x = '.') :
    45 ≤ x.toNat ∧ x.toNat < 128 ∧ x ≠ ';' ∧ x ≠ ':' := by
  rcases h with h | rfl
  · rw [nameChar, Bool.or_eq_true, decide_eq_true_eq] at h
    rcases h with h | rfl
    · delta Char.isAlphanum Char.isAlpha Char.isUpper Char.isLower Char.isDigit at h
      simp only [Bool.or_eq_true, Bool.and_eq_true, decide_eq_true_eq, ge_iff_le, UInt32.le_iff_toNat_le] at h
      have hrange : (65 ≤ x.toNat ∧ x.toNat ≤ 90 ∨ 97 ≤ x.toNat ∧ x.toNat ≤ 122) ∨
          48 ≤ x.toNat ∧ x.toNat ≤ 57 := h
      refine ⟨by omega, by omega, ?_, ?_⟩
      · rintro rfl
        exact absurd hrange (by decide)
      · rintro rfl
        exact absurd hrange (by decide)
    · decide
  · decide

theorem trim_ne_nil {s : List Char} {x : Char} (hx : x ∈ s) (hspace : isWhiteSpace x = false) :
    trim s ≠ [] := by
  intro hnil
  obtain ⟨w₁, w₂, h₁, h₂, hs⟩ := exists_padding s
  rw [hnil, List.append_nil] at hs
  rw [hs] at hx
  rcases List.mem_append.mp hx with hx | hx
  · exact absurd (h₁ x hx) (by rw [hspace]; decide)
  · exact absurd (h₂ x hx) (by rw [hspace]; decide)

/-- With more in front of it, and a colon between, a text is longer also when trimmed. -/
theorem length_trim_lt (u v : List Char) : (trim v).length < (trim (u ++ ':' :: v)).length := by
  -- `w` is what is trimmed off in front
  obtain ⟨w, u', hw, hu, hhead⟩ : ∃ w u', Blank w ∧ u = w ++ u' ∧
      ∀ c ∈ u'.head?, isWhiteSpace c = false := by
    refine ⟨u.takeWhile isWhiteSpace, u.dropWhile isWhiteSpace, ?_, ?_, ?_⟩
    · intro c hc
      exact List.mem_takeWhile_imp hc
    · exact List.takeWhile_append_dropWhile.symm
    · intro c hc
      have hnot := List.head?_dropWhile_not isWhiteSpace u
      rw [Option.mem_def.mp hc] at hnot
      simpa using hnot
  have hcore (r : List Char) (hr : r.getLast?.all fun c => !isWhiteSpace c) :
      Trimmed (u' ++ ':' :: r) := by
    constructor
    · intro c hc
      cases u' with
      | nil =>
          obtain rfl := Option.some.inj hc
          exact isWhiteSpace_colon
      | cons d u' => exact hhead c hc
    · intro c hc
      cases r with
      | nil =>
          rw [List.getLast?_concat] at hc
          obtain rfl := Option.some.inj hc
          exact isWhiteSpace_colon
      | cons d r =>
          have hlast : (u' ++ ':' :: d :: r).getLast? = (d :: r).getLast? := by
            rw [List.getLast?_append_of_ne_nil _ (List.cons_ne_nil _ _), List.getLast?_cons_cons]
          rw [hlast] at hc
          rw [Option.mem_def.mp hc] at hr
          simpa using hr
  obtain ⟨w₁, w₂, h₁, h₂, hv⟩ := exists_padding v
  by_cases hnil : trim v = []
  · have hblank : Blank v := by
      rw [hv, hnil, List.append_nil]
      exact List.forall_mem_append.mpr ⟨h₁, h₂⟩
    have hpadded := trim_padded hw hblank (hcore [] rfl)
    have hsame : u ++ ':' :: v = w ++ (u' ++ [':']) ++ v := by rw [hu]; simp
    rw [hsame, hpadded, hnil, List.length_append]
    exact Nat.lt_add_left _ Nat.one_pos
  · have hlast : (w₁ ++ trim v).getLast?.all fun c => !isWhiteSpace c := by
      rw [List.getLast?_append_of_ne_nil _ hnil]
      cases hl : (trim v).getLast? with
      | none => rfl
      | some c => exact congrArg (! ·) ((trimmed_trim v).last c hl)
    have hpadded := trim_padded hw h₂ (hcore _ hlast)
    have hsame : u ++ ':' :: v = w ++ (u' ++ ':' :: (w₁ ++ trim v)) ++ w₂ := by
      rw [hu]
      nth_rewrite 1 [hv]
      simp
    rw [hsame, hpadded, List.length_append, List.length_cons, List.length_append]
    omega

theorem unescapeText_two (c d : Char) (s : List Char) :
    unescapeText (c :: d :: s) = if c = '\\' then
      if d = 'n' ∨ d = 'N' then '\n' :: unescapeText s
      else if d ∈ [',', ';', '\\'] then d :: unescapeText s
      else c :: unescapeText (d :: s)
    else c :: unescapeText (d :: s) := by
  rw [unescapeText]

/-- No escape reaches over a colon. -/
theorem unescapeText_colon (a b : List Char) :
    unescapeText (a ++ ':' :: b) = unescapeText a ++ ':' :: unescapeText b := by
  have hcolon (b : List Char) : unescapeText (':' :: b) = ':' :: unescapeText b := by
    cases b with
    | nil => rfl
    | cons d b => rw [unescapeText_two, if_neg (by decide)]
  induction a using unescapeText.induct with
  | case1 => exact hcolon b
  | case2 c =>
      show unescapeText (c :: ':' :: b) = [c] ++ ':' :: unescapeText b
      rw [unescapeText_two, hcolon]
      split
      · rw [if_neg (by decide), if_neg (by decide)]
        rfl
      · rfl
  | case3 d s hd ih =>
      show unescapeText ('\\' :: d :: (s ++ ':' :: b)) = _
      rw [unescapeText_two, unescapeText_two, if_pos rfl, if_pos rfl, if_pos hd, if_pos hd, ih]
      rfl
  | case4 d s hd hd' ih =>
      show unescapeText ('\\' :: d :: (s ++ ':' :: b)) = _
      rw [unescapeText_two, unescapeText_two, if_pos rfl, if_pos rfl, if_neg hd, if_neg hd,
        if_pos hd', if_pos hd', ih]
      rfl
  | case5 d s hd hd' ih =>
      show unescapeText ('\\' :: d :: (s ++ ':' :: b)) = _
      rw [unescapeText_two, unescapeText_two, if_pos rfl, if_pos rfl, if_neg hd, if_neg hd,
        if_neg hd', if_neg hd']
      exact congrArg ('\\' :: ·) ih
  | case6 c d s hc ih =>
      show unescapeText (c :: d :: (s ++ ':' :: b)) = _
      rw [unescapeText_two, unescapeText_two, if_neg hc, if_neg hc]
      exact congrArg (c :: ·) ih

/-! ### The line that is read -/

/-- What is between the name and the value. -/
def ContentLine.between (c : ContentLine) : List Char := c.params.flatMap fun q => ';' :: q

theorem written_between (part : List Char) (ps : List (List Char)) (v : List Char) :
    written part ps v = part ++ ps.flatMap (fun q => ';' :: q) ++ ':' :: v := by
  induction ps generalizing part with
  | nil => simp [written]
  | cons q ps ih =>
      show part ++ ';' :: written q ps v = _
      rw [ih, List.flatMap_cons]
      simp

theorem ContentLine.text_eq (c : ContentLine) : c.text = c.name ++ (c.between ++ ':' :: c.value) := by
  rw [ContentLine.text, written_between, List.append_assoc]
  rfl

theorem ContentLine.between_starts (c : ContentLine) :
    startsPart (c.between ++ ':' :: c.value) = true := by
  rw [ContentLine.between]
  cases c.params with
  | nil => rfl
  | cons q ps => rfl

theorem ContentLine.colon_mem_between {c : ContentLine} :
    ':' ∈ c.between ↔ ∃ q ∈ c.params, ':' ∈ q := by
  rw [ContentLine.between, List.mem_flatMap]
  constructor
  · rintro ⟨q, hq, hmem⟩
    rcases List.mem_cons.mp hmem with h | h
    · cases h
    · exact ⟨q, hq, h⟩
  · rintro ⟨q, hq, hmem⟩
    exact ⟨q, hq, List.mem_cons_of_mem _ hmem⟩

variable {grouped : Bool} {c : ContentLine} {compared : List (List Char)} (casing : UpperCasing)

theorem ContentLine.Legal.char (h : c.Legal grouped) {x : Char} (hx : x ∈ c.name) :
    isWhiteSpace x = false ∧ x.toNat < 128 ∧ x ≠ ';' ∧ x ≠ ':' := by
  have hrange : 45 ≤ x.toNat ∧ x.toNat < 128 ∧ x ≠ ';' ∧ x ≠ ':' := by
    apply nameChar_range
    rcases h.name x hx with h | h
    · exact Or.inl h
    · exact Or.inr h.2
  exact ⟨not_isWhiteSpace ⟨hrange.1, hrange.2.1⟩, hrange.2⟩

theorem findIdx_colon {front : List Char} (h : ∀ x ∈ front, x ≠ ':') (raw : List Char) :
    (front ++ ':' :: raw).findIdx (fun x => x = ':') = front.length := by
  induction front with
  | nil => rfl
  | cons x front ih =>
      obtain ⟨hx, hfront⟩ := List.forall_mem_cons.mp h
      rw [List.cons_append, List.findIdx_cons, decide_eq_false hx, cond_false, ih hfront]
      rfl

/-- The name is all that is read in front of the first separator. -/
theorem lineName_text (h : c.Legal grouped) {r : List Char} (hr : startsPart r = true) :
    casing.lineName (c.name ++ r) = c.name.map Char.toUpper := by
  have hcolon : ∀ x ∈ c.name, (decide (x ≠ ':')) = true := fun x hx =>
    decide_eq_true (h.char hx).2.2.2
  have hsemi : ∀ x ∈ c.name, (decide (x ≠ ';')) = true := fun x hx =>
    decide_eq_true (h.char hx).2.2.1
  have hcut : ((c.name ++ r).takeWhile fun c => c ≠ ':').takeWhile (fun c => c ≠ ';') = c.name := by
    obtain ⟨x, t, rfl, hx⟩ := startsPart_iff.mp hr
    rw [List.takeWhile_append_of_pos hcolon, List.takeWhile_append_of_pos hsemi]
    rcases hx with rfl | rfl
    · rw [List.takeWhile_cons_of_pos (by decide), List.takeWhile_cons_of_neg (by decide), List.append_nil]
    · rw [List.takeWhile_cons_of_neg (by decide), List.takeWhile_nil, List.append_nil]
  have htrim : trim c.name = c.name := by
    refine trim_of_trimmed ⟨fun x hx => ?_, fun x hx => ?_⟩
    · exact (h.char (List.mem_of_mem_head? hx)).1
    · exact (h.char (List.mem_of_getLast? hx)).1
  rw [UpperCasing.lineName, hcut, htrim, casing.ascii _ fun x hx => (h.char hx).2.1]

/-- A line of the canonical text. -/
def canonical (p : List Char × List Char) : List Char := p.1 ++ ':' :: p.2

/-- What is read of a line: the name, and what is behind the first colon. -/
theorem canonicalLine_split (h : c.Legal grouped) {r raw : List Char} (hcolon : ':' ∉ r)
    (hr : startsPart (r ++ ':' :: raw) = true) :
    casing.canonicalLine compared (c.name ++ (r ++ ':' :: raw)) =
      if c.name.map Char.toUpper ∈ compared then
        (evidence (c.name.map Char.toUpper, unescapeText raw)).map canonical
      else none := by
  have hfront : ∀ x ∈ c.name ++ r, x ≠ ':' := by
    intro x hx
    rcases List.mem_append.mp hx with hx | hx
    · exact (h.char hx).2.2.2
    · rintro rfl
      exact hcolon hx
  have hassoc : c.name ++ (r ++ ':' :: raw) = c.name ++ r ++ ':' :: raw := by simp
  have hfind : (c.name ++ (r ++ ':' :: raw)).findIdx (fun x => x = ':') = (c.name ++ r).length := by
    rw [hassoc, findIdx_colon hfront]
  have hvalue : (c.name ++ (r ++ ':' :: raw)).drop ((c.name ++ r).length + 1) = raw := by
    rw [hassoc, ← List.drop_drop, List.drop_left]
    rfl
  have hname := lineName_text casing h hr
  have hlength : ¬ ((c.name ++ (r ++ ':' :: raw)).length ≤ (c.name ++ r).length ∨
      (c.name ++ r).length = 0) := by
    have := List.length_pos_of_ne_nil h.named
    simp only [List.length_append, List.length_cons]
    omega
  rw [UpperCasing.canonicalLine, hfind, if_neg hlength, hname, hvalue, evidence]
  by_cases hcompared : c.name.map Char.toUpper ∈ compared
  · rw [if_neg (not_not_intro hcompared), if_pos hcompared]
    by_cases hnil : trim (unescapeText raw) = []
    · rw [if_pos hnil, if_pos hnil]
      rfl
    · rw [if_neg hnil, if_neg hnil]
      rfl
  · rw [if_pos hcompared, if_neg hcompared]

/-- A line whose whole name is not among the compared ones is not read. -/
theorem canonicalLine_unlisted (h : c.Legal grouped) (hnot : c.name.map Char.toUpper ∉ compared) :
    casing.canonicalLine compared c.text = none := by
  rw [c.text_eq]
  have hstart := c.between_starts
  by_cases hcolon : ':' ∈ c.between
  · obtain ⟨r, raw, hbetween, hr⟩ := List.eq_append_cons_of_mem hcolon
    rw [hbetween, List.append_assoc, List.cons_append] at hstart ⊢
    rw [canonicalLine_split casing h hr hstart, if_neg hnot]
  · rw [canonicalLine_split casing h hcolon hstart, if_neg hnot]

theorem canonicalLine_other (hcompared : ∀ n ∈ compared, '.' ∉ n) (h : c.Legal grouped)
    (hother : c.property ∉ compared) : casing.canonicalLine compared c.text = none := by
  apply canonicalLine_unlisted casing h
  intro hmem
  apply hother
  have hdot : '.' ∉ c.name := by
    intro hdot
    exact hcompared _ hmem (List.mem_map.mpr ⟨'.', hdot, by decide⟩)
  rw [ContentLine.property, if_neg hdot]
  exact hmem

/-- **What is read of a line without a group, and without a colon in a parameter, is what it
says.** -/
theorem canonicalLine_clear (hcompared : ∀ n ∈ compared, '.' ∉ n) (h : c.Legal grouped)
    (hclear : c.property ∈ compared → '.' ∉ c.name ∧ ∀ q ∈ c.params, ':' ∉ q) :
    casing.canonicalLine compared c.text = ((c.said compared).bind evidence).map canonical := by
  by_cases hmem : c.property ∈ compared
  · obtain ⟨hdot, hparams⟩ := hclear hmem
    have hcolon : ':' ∉ c.between := by
      rw [ContentLine.colon_mem_between]
      rintro ⟨q, hq, hcolon⟩
      exact hparams q hq hcolon
    have hproperty : c.property = c.name.map Char.toUpper := by rw [ContentLine.property, if_neg hdot]
    rw [ContentLine.said, if_pos (List.contains_iff_mem.mpr hmem), c.text_eq, canonicalLine_split casing h hcolon c.between_starts,
      ← hproperty, if_pos hmem]
    rfl
  · rw [canonicalLine_other casing hcompared h hmem, ContentLine.said,
      if_neg (mt List.contains_iff_mem.mp hmem)]
    rfl

/-- A colon in a parameter is read, and what is behind it. -/
theorem canonicalLine_colon (h : c.Legal grouped) (hmem : c.name.map Char.toUpper ∈ compared)
    (hcolon : ∃ q ∈ c.params, ':' ∈ q) : casing.canonicalLine compared c.text ≠ none := by
  obtain ⟨r, raw, hbetween, hr⟩ := List.eq_append_cons_of_mem (ContentLine.colon_mem_between.mpr hcolon)
  have hstart := c.between_starts
  rw [c.text_eq]
  rw [hbetween, List.append_assoc, List.cons_append] at hstart ⊢
  have hsome : trim (unescapeText (raw ++ ':' :: c.value)) ≠ [] := by
    rw [unescapeText_colon]
    exact trim_ne_nil (List.mem_append_right _ List.mem_cons_self) isWhiteSpace_colon
  rw [canonicalLine_split casing h hr hstart, if_pos hmem, evidence, if_neg hsome]
  exact Option.some_ne_none _

/-- The line with one more parameter, whose quoted value is a colon. -/
def ContentLine.withColon (c : ContentLine) : ContentLine :=
  { c with params := ['X', '=', '"', ':', '"'] :: c.params }

/-- How much a line adds to the canonical text. -/
def weight (line : Option (List Char)) : Nat := line.elim 0 fun l => l.length + 1

/-- **The line is read as saying more than it does**: the value is what is behind the first
colon, and that one is now in the parameter. -/
theorem canonicalLine_withColon (h : c.Legal grouped) (hmem : c.name.map Char.toUpper ∈ compared) :
    weight (casing.canonicalLine compared c.text) <
      weight (casing.canonicalLine compared c.withColon.text) := by
  -- what is read of the line as it is
  obtain ⟨r, raw, hr, htext⟩ : ∃ r raw, ':' ∉ r ∧ c.between ++ ':' :: c.value = r ++ ':' :: raw :=
    by
      by_cases hcolon : ':' ∈ c.between
      · obtain ⟨r, raw, hbetween, hr⟩ := List.eq_append_cons_of_mem hcolon
        exact ⟨r, raw ++ ':' :: c.value, hr, by rw [hbetween]; simp⟩
      · exact ⟨c.between, c.value, hcolon, rfl⟩
  have hstart := c.between_starts
  rw [htext] at hstart
  have hread : casing.canonicalLine compared (c.name ++ (r ++ ':' :: raw)) = _ :=
    canonicalLine_split casing h hr hstart
  rw [← htext, ← c.text_eq, if_pos hmem] at hread
  -- what is read of it with the parameter
  have htext' : c.withColon.text = c.name ++
      ([';', 'X', '=', '"'] ++ ':' :: ('"' :: r ++ ':' :: raw)) := by
    rw [c.withColon.text_eq]
    have hbetween : c.withColon.between = [';', 'X', '=', '"', ':', '"'] ++ c.between := by
      rw [ContentLine.between, ContentLine.withColon, List.flatMap_cons]
      rfl
    show c.name ++ (c.withColon.between ++ ':' :: c.value) = _
    rw [hbetween, List.append_assoc, htext]
    rfl
  have hread' : casing.canonicalLine compared
      (c.name ++ ([';', 'X', '=', '"'] ++ ':' :: ('"' :: r ++ ':' :: raw))) = _ :=
    canonicalLine_split casing h (by decide) rfl
  rw [← htext', if_pos hmem, unescapeText_colon] at hread'
  have hlonger := length_trim_lt (unescapeText ('"' :: r)) (unescapeText raw)
  have hsome : trim (unescapeText ('"' :: r) ++ ':' :: unescapeText raw) ≠ [] := by
    intro hnil
    rw [hnil] at hlonger
    exact absurd hlonger (Nat.not_lt_zero _)
  rw [hread, hread', evidence, evidence, if_neg hsome]
  by_cases hnil : trim (unescapeText raw) = []
  · rw [if_pos hnil]
    exact Nat.succ_pos _
  · rw [if_neg hnil]
    show (c.name.map Char.toUpper ++ ':' :: trim (unescapeText raw)).length + 1 <
      (c.name.map Char.toUpper ++
        ':' :: trim (unescapeText ('"' :: r) ++ ':' :: unescapeText raw)).length + 1
    rw [List.length_append, List.length_append, List.length_cons, List.length_cons]
    omega

end Ownpace.Calendar
