/-
Ownpace/Calendar/Scheduling.lean

The mail a migration must not send: `calendar-scheduling.ts`.

`neutraliseScheduling` goes over the physical lines of a calendar; where a line
starts an `ATTENDEE` or an `ORGANIZER` it takes the continuation lines with it.
On a folding it rewrites property by property: `neutraliseScheduling_text`.
-/
import Ownpace.Calendar.ContentLine
import Ownpace.Calendar.Folded

namespace Ownpace.Calendar

open Mail FoldedText

/-! ### The rewriting -/

def attendee : List Char := ['A', 'T', 'T', 'E', 'N', 'D', 'E', 'E']

def organizer : List Char := ['O', 'R', 'G', 'A', 'N', 'I', 'Z', 'E', 'R']

/-- `SCHEDULE-AGENT=` -/
def scheduleAgent : List Char :=
  ['S', 'C', 'H', 'E', 'D', 'U', 'L', 'E', '-', 'A', 'G', 'E', 'N', 'T', '=']

/-- `SCHEDULE-AGENT=SERVER` -/
def serverAgent : List Char := scheduleAgent ++ ['S', 'E', 'R', 'V', 'E', 'R']

/-- `SCHEDULE-AGENT=CLIENT` -/
def clientAgent : List Char := scheduleAgent ++ ['C', 'L', 'I', 'E', 'N', 'T']

/-- `(?=[;:])` -/
def startsPart : List Char → Bool
  | c :: _ => c = ';' || c = ':'
  | [] => false

/-- The line cut behind this name, where a separator follows. -/
def startNamed (name line : List Char) : Option (List Char × List Char) :=
  ((afterName name line).filter startsPart).map fun rest => (line.take name.length, rest)

/-- `PROPERTY_START`: the name it matches, and what is behind it. -/
def propertyStart (line : List Char) : Option (List Char × List Char) :=
  (startNamed attendee line).or (startNamed organizer line)

/-- One property that starts with this name: the lines it becomes. -/
def rewritten (start : List Char × List Char) (span : Folded) : Folded :=
  if occurs serverAgent span.logical then
    ⟨replaceFirst serverAgent clientAgent span.logical ++ lineEnd span.last, []⟩
  else if occurs scheduleAgent span.logical then span
  else ⟨start.1 ++ ';' :: clientAgent ++ start.2, span.more⟩

def neutraliseLines : List (List Char) → List (List Char)
  | [] => []
  | line :: lines =>
    match propertyStart line with
    | none => line :: neutraliseLines lines
    | some start =>
      (rewritten start ⟨line, lines.takeWhile continues⟩).lines ++
        neutraliseLines (lines.dropWhile continues)
termination_by lines => lines.length
decreasing_by
  · exact Nat.lt_succ_self _
  · exact Nat.lt_succ_of_le (List.dropWhile_sublist _).length_le

/-- `split(/(?<=\n)/)`: a text that is empty is one empty line. -/
def splitLines (s : List Char) : List (List Char) := if s = [] then [[]] else pieces s

/-- Set `SCHEDULE-AGENT=CLIENT` on every `ATTENDEE` and `ORGANIZER`. -/
def neutraliseScheduling (icalendar : List Char) : List Char :=
  (neutraliseLines (splitLines icalendar)).flatten

/-! ### The names it looks for -/

def IsScheduling (n : List Char) : Prop := SameText n attendee ∨ SameText n organizer

instance : DecidablePred IsScheduling := fun n =>
  inferInstanceAs (Decidable (SameText n attendee ∨ SameText n organizer))

variable {n s line : List Char} {w : List Char × List Char}

theorem separates_of_all {p : List Char} {x : Char}
    (h : (p.all fun n => decide (n.toLower ≠ x.toLower)) = true) : Separates p x := by
  intro n hn
  exact of_decide_eq_true (List.all_eq_true.mp h n hn)

theorem not_mem_of_sameText {p : List Char} {x : Char} (h : SameText n p) (hx : Separates p x) :
    x ∉ n := by
  intro hmem
  have hlow : x.toLower ∈ p.map Char.toLower := by
    rw [← h]
    exact List.mem_map_of_mem hmem
  obtain ⟨m, hm, heq⟩ := List.mem_map.mp hlow
  exact hx m hm heq

/-- The characters no such name has. -/
theorem IsScheduling.not_mem (h : IsScheduling n) {x : Char}
    (hx : x ∈ [';', ':', '"', '\n', '\r', ' ', '\t']) : x ∉ n := by
  have hseparates : Separates attendee x ∧ Separates organizer x := by
    simp only [List.mem_cons, List.not_mem_nil, or_false] at hx
    rcases hx with rfl | rfl | rfl | rfl | rfl | rfl | rfl <;>
      exact ⟨separates_of_all (by decide), separates_of_all (by decide)⟩
  rcases h with h | h
  · exact not_mem_of_sameText h hseparates.1
  · exact not_mem_of_sameText h hseparates.2

theorem IsScheduling.isName (h : IsScheduling n) : IsName n := by
  intro c hc
  have hne {x : Char} (hx : x ∈ [';', ':', '"', '\n', '\r', ' ', '\t']) : c ≠ x := by
    rintro rfl
    exact h.not_mem hx hc
  exact ⟨hne (by simp), hne (by simp), hne (by simp)⟩

theorem IsScheduling.plain (h : IsScheduling n) : Plain n := by
  intro c hc
  have hne {x : Char} (hx : x ∈ [';', ':', '"', '\n', '\r', ' ', '\t']) : c ≠ x := by
    rintro rfl
    exact h.not_mem hx hc
  exact ⟨hne (by simp), hne (by simp)⟩

theorem IsScheduling.ne_nil (h : IsScheduling n) : n ≠ [] := by
  rintro rfl
  rcases h with h | h <;> cases h

theorem IsScheduling.not_continues (h : IsScheduling n) (r : List Char) : continues (n ++ r) = false := by
  cases n with
  | nil => exact absurd rfl h.ne_nil
  | cons c n =>
      have hblank {x : Char} (hx : x ∈ [';', ':', '"', '\n', '\r', ' ', '\t']) : c ≠ x := by
        rintro rfl
        exact h.not_mem hx List.mem_cons_self
      simp [continues, hblank]

theorem startsPart_iff : startsPart s = true ↔ ∃ c r, s = c :: r ∧ (c = ';' ∨ c = ':') := by
  cases s with
  | nil => simp [startsPart]
  | cons c r => simp [startsPart]

theorem startNamed_eq_some {name : List Char} :
    startNamed name line = some w ↔ line = w.1 ++ w.2 ∧ SameText w.1 name ∧ startsPart w.2 = true := by
  rw [startNamed, Option.map_eq_some_iff]
  simp only [Option.filter_eq_some_iff]
  constructor
  · rintro ⟨rest, ⟨hafter, hpart⟩, rfl⟩
    obtain ⟨m, rfl, hm⟩ := afterName_eq_some hafter
    have hlength : m.length = name.length := by
      have h := congrArg List.length hm
      rwa [List.length_map, List.length_map] at h
    have htake : (m ++ rest).take name.length = m := List.take_left' hlength
    show m ++ rest = (m ++ rest).take name.length ++ rest ∧ _
    rw [htake]
    exact ⟨rfl, hm, hpart⟩
  · rintro ⟨rfl, hname, hpart⟩
    have hlength : w.1.length = name.length := by
      have h := congrArg List.length hname
      rwa [List.length_map, List.length_map] at h
    exact ⟨w.2, ⟨afterName_append hname w.2, hpart⟩, by rw [List.take_left' hlength]⟩

theorem propertyName_of_start (hname : IsScheduling n) {r : List Char} (hr : startsPart r = true) :
    propertyName (n ++ r) = n := by
  obtain ⟨c, r, rfl, hc⟩ := startsPart_iff.mp hr
  refine propertyName_append hname.isName fun d hd => ?_
  obtain rfl := Option.some.inj hd
  exact hc

theorem propertyStart_eq_some :
    propertyStart line = some w ↔ line = w.1 ++ w.2 ∧ IsScheduling w.1 ∧ startsPart w.2 = true := by
  rw [propertyStart, Option.or_eq_some_iff, startNamed_eq_some, startNamed_eq_some]
  constructor
  · rintro (⟨hline, hname, hpart⟩ | ⟨-, hline, hname, hpart⟩)
    · exact ⟨hline, .inl hname, hpart⟩
    · exact ⟨hline, .inr hname, hpart⟩
  · rintro ⟨hline, hname, hpart⟩
    cases hfirst : startNamed attendee line with
    | none =>
        rcases hname with hname | hname
        · have hsome := startNamed_eq_some.mpr ⟨hline, hname, hpart⟩
          rw [hfirst] at hsome
          cases hsome
        · exact .inr ⟨rfl, hline, hname, hpart⟩
    | some v =>
        -- a name in front of a separator is the name of the line
        obtain ⟨hline', hname', hpart'⟩ := startNamed_eq_some.mp hfirst
        have hv : v.1 = propertyName line := by
          rw [hline', propertyName_of_start (.inl hname') hpart']
        have hw : w.1 = propertyName line := by rw [hline, propertyName_of_start hname hpart]
        exact .inl ⟨hline, hw.trans hv.symm ▸ hname', hpart⟩

theorem propertyStart_of_continues (h : continues line = true) : propertyStart line = none := by
  cases hstart : propertyStart line with
  | none => rfl
  | some w =>
      obtain ⟨hline, hname, -⟩ := propertyStart_eq_some.mp hstart
      rw [hline, hname.not_continues] at h
      cases h

/-! ### Property by property -/

/-- What becomes of one property. -/
def neutralised (g : Folded) : Folded := (propertyStart g.first).elim g fun start => rewritten start g

theorem neutralised_of_none {g : Folded} (h : propertyStart g.first = none) : neutralised g = g := by
  rw [neutralised, h]
  rfl

theorem neutralised_of_some {g : Folded} (h : propertyStart g.first = some w) :
    neutralised g = rewritten w g := by
  rw [neutralised, h]
  rfl

theorem neutraliseLines_cons_none {lines : List (List Char)} (h : propertyStart line = none) :
    neutraliseLines (line :: lines) = line :: neutraliseLines lines := by
  rw [neutraliseLines, h]

theorem neutraliseLines_continuing {a : List (List Char)} (ha : ∀ l ∈ a, continues l = true)
    (rest : List (List Char)) : neutraliseLines (a ++ rest) = a ++ neutraliseLines rest := by
  induction a with
  | nil => rfl
  | cons l a ih =>
      obtain ⟨hl, ha⟩ := List.forall_mem_cons.mp ha
      rw [List.cons_append, neutraliseLines_cons_none (propertyStart_of_continues hl), ih ha]
      rfl

/-- The lines of a property, and what begins behind them. -/
theorem neutraliseLines_property {g : Folded} (hmore : ∀ l ∈ g.more, continues l = true)
    {rest : List (List Char)} (hrest : ∀ l ∈ rest.head?, continues l = false) :
    neutraliseLines (g.lines ++ rest) = (neutralised g).lines ++ neutraliseLines rest := by
  show neutraliseLines (g.first :: (g.more ++ rest)) = _
  cases hstart : propertyStart g.first with
  | none =>
      rw [neutraliseLines_cons_none hstart, neutraliseLines_continuing hmore, neutralised_of_none hstart]
      rfl
  | some start =>
      have hnot : ∀ l ∈ rest.head?, ¬ continues l = true := by
        intro l hl
        rw [hrest l hl]
        decide
      have htake : (g.more ++ rest).takeWhile continues = g.more := by
        rw [List.takeWhile_append_of_pos hmore]
        cases rest with
        | nil => exact List.append_nil _
        | cons l rest => rw [List.takeWhile_cons_of_neg (hnot l rfl), List.append_nil]
      have hdrop : (g.more ++ rest).dropWhile continues = rest := by
        rw [List.dropWhile_append_of_pos hmore]
        cases rest with
        | nil => rfl
        | cons l rest => rw [List.dropWhile_cons_of_neg (hnot l rfl)]
      rw [neutraliseLines, hstart]
      show (rewritten start ⟨g.first, (g.more ++ rest).takeWhile continues⟩).lines ++
        neutraliseLines ((g.more ++ rest).dropWhile continues) = _
      rw [htake, hdrop, neutralised_of_some hstart]

theorem neutraliseLines_folding {gs : List Folded} (hmore : ∀ g ∈ gs, ∀ l ∈ g.more, continues l = true)
    (hfirst : ∀ g ∈ gs.tail, continues g.first = false) :
    neutraliseLines (gs.flatMap Folded.lines) = (gs.map neutralised).flatMap Folded.lines := by
  induction gs with
  | nil => rw [List.flatMap_nil, neutraliseLines, List.map_nil, List.flatMap_nil]
  | cons g gs ih =>
      have hhead : ∀ l ∈ (gs.flatMap Folded.lines).head?, continues l = false := by
        cases gs with
        | nil => exact fun l hl => absurd hl (by simp)
        | cons d gs =>
            intro l hl
            obtain rfl := Option.some.inj hl
            exact hfirst d List.mem_cons_self
      rw [List.flatMap_cons, neutraliseLines_property (hmore g List.mem_cons_self) hhead,
        ih (fun d hd => hmore d (List.mem_cons_of_mem _ hd))
          (fun d hd => hfirst d (List.mem_of_mem_tail hd)),
        List.map_cons, List.flatMap_cons]

/-- **On a folding, each property is rewritten on its own.** -/
theorem neutraliseScheduling_text {gs : List Folded} (h : IsFolding gs) :
    neutraliseScheduling (text gs) = text (gs.map neutralised) := by
  have hlines : (neutraliseLines (splitLines (text gs))).flatten =
      (neutraliseLines (gs.flatMap Folded.lines)).flatten := by
    rw [splitLines]
    split
    · next hempty =>
      have hpieces : gs.flatMap Folded.lines = [] := by
        rw [← pieces_flatten h.lines]
        show pieces (text gs) = []
        rw [hempty]
        rfl
      rw [hpieces, neutraliseLines_cons_none (by decide), neutraliseLines]
      rfl
    · rw [text, pieces_flatten h.lines]
  rw [neutraliseScheduling, hlines, neutraliseLines_folding h.more h.first]
  rfl

/-! ### The lines stay in shape -/

theorem plain_replaceFirst {p new : List Char} (hs : Plain s) (hnew : Plain new) :
    Plain (replaceFirst p new s) := by
  cases hsearch : search p s with
  | none => rwa [replaceFirst, hsearch]
  | some w =>
      obtain ⟨m, hm, -⟩ := search_eq_some hsearch
      rw [hm] at hs
      obtain ⟨hfront, hback⟩ := plain_append.mp hs
      rw [replaceFirst, hsearch]
      exact plain_append.mpr ⟨plain_append.mpr ⟨(plain_append.mp hfront).1, hnew⟩, hback⟩

theorem replaceFirst_ne_nil {p new : List Char} (hnew : new ≠ []) (h : occurs p s = true) :
    replaceFirst p new s ≠ [] := by
  obtain ⟨w, hw⟩ := Option.isSome_iff_exists.mp h
  rw [replaceFirst, hw]
  simp [hnew]

theorem clientAgent_ne_nil : clientAgent ≠ [] := by decide

theorem plain_clientAgent : Plain clientAgent := by
  intro c hc
  have hall : (clientAgent.all fun c => c ≠ '\n' && c ≠ '\r') = true := by decide
  simpa using List.all_eq_true.mp hall c hc

/-- What a scheduling name does not have in common with the parameter. -/
theorem IsScheduling.not_occurs (h : IsScheduling n) : occurs scheduleAgent n = false := by
  rw [← Bool.not_eq_true]
  intro hocc
  obtain ⟨w, hw⟩ := Option.isSome_iff_exists.mp hocc
  obtain ⟨m, hm, hsame⟩ := search_eq_some hw
  -- the parameter has an equals sign
  have hequals : '=' ∈ m.map Char.toLower := by
    rw [show m.map Char.toLower = scheduleAgent.map Char.toLower from hsame]
    decide
  obtain ⟨c, hc, hlow⟩ := List.mem_map.mp hequals
  have hcn : c ∈ n := by
    rw [hm]
    exact List.mem_append_left _ (List.mem_append_right _ hc)
  have hmem {p : List Char} (hp : SameText n p) : '=' ∈ p.map Char.toLower := by
    rw [← show n.map Char.toLower = p.map Char.toLower from hp, ← hlow]
    exact List.mem_map_of_mem hcn
  rcases h with h | h
  · exact absurd (hmem h) (by decide)
  · exact absurd (hmem h) (by decide)

theorem occurs_scheduleAgent (h : occurs serverAgent s = true) : occurs scheduleAgent s = true :=
  occurs_of_append h

/-- A property that starts with such a name: its unfolded text. -/
theorem logical_of_start {g : Folded} (hlines : Lines g.lines) (h : propertyStart g.first = some w) :
    ∃ r, chomp g.first = w.1 ++ r ∧ startsPart r = true ∧
      g.logical = w.1 ++ (r ++ (g.more.map fun l => (chomp l).drop 1).flatten) := by
  obtain ⟨hline, hname, hpart⟩ := propertyStart_eq_some.mp h
  obtain ⟨c, t, hrest, hc⟩ := startsPart_iff.mp hpart
  -- the separator is no part of a line break
  have hfront : Plain (w.1 ++ [c]) := by
    refine plain_append.mpr ⟨hname.plain, plain_cons.mpr ⟨?_, plain_nil⟩⟩
    rcases hc with rfl | rfl <;> decide
  have hfirst : g.first = (w.1 ++ [c]) ++ t := by
    rw [hline, hrest, List.append_assoc]
    rfl
  have hchomp : ∃ r, chomp g.first = (w.1 ++ [c]) ++ r := by
    rcases hlines.full_or_plain g.first List.mem_cons_self with hfull | hplain
    · rw [hfirst] at hfull ⊢
      obtain ⟨r, -, -, hr⟩ := full_cut_front hfront hfull
      exact ⟨r, hr⟩
    · exact ⟨t, by rw [chomp_plain hplain, hfirst]⟩
  obtain ⟨r, hr⟩ := hchomp
  refine ⟨c :: r, by rw [hr, List.append_assoc]; rfl, by simp [startsPart, hc], ?_⟩
  show chomp g.first ++ _ = _
  rw [hr]
  simp

theorem separates_semicolon : Separates scheduleAgent ';' ∧ Separates serverAgent ';' :=
  ⟨separates_of_all (by decide), separates_of_all (by decide)⟩

theorem separates_colon : Separates scheduleAgent ':' ∧ Separates serverAgent ':' :=
  ⟨separates_of_all (by decide), separates_of_all (by decide)⟩

theorem separates_startsPart {c : Char} (hc : c = ';' ∨ c = ':') :
    Separates scheduleAgent c ∧ Separates serverAgent c := by
  rcases hc with rfl | rfl
  · exact separates_semicolon
  · exact separates_colon

theorem IsScheduling.not_occurs_server (h : IsScheduling n) : occurs serverAgent n = false := by
  rw [← Bool.not_eq_true]
  intro hocc
  exact absurd (occurs_scheduleAgent hocc) (by rw [h.not_occurs]; decide)

/-- The name stays in front of what is replaced. -/
theorem replaceFirst_behind_name (new : List Char) (h : IsScheduling n) {r : List Char}
    (hr : startsPart r = true) :
    ∃ t, replaceFirst serverAgent new (n ++ r) = n ++ t ∧ startsPart t = true := by
  obtain ⟨c, t, rfl, hc⟩ := startsPart_iff.mp hr
  refine ⟨c :: replaceFirst serverAgent new t, ?_, by simp [startsPart, hc]⟩
  exact replaceFirst_separated_right (separates_startsPart hc).2 t h.not_occurs_server

theorem keeps_of_eq {g : Folded} (hmore : ∀ l ∈ g.more, continues l = true) (hlines : Lines g.lines)
    (h : neutralised g = g) : Keeps neutralised g where
  more := by rwa [h]
  first := by
    rw [h]
    exact id
  full := by
    rw [h]
    exact id
  lines := by rwa [h]

/-- A property that becomes one line, with the break of its last one. -/
theorem keeps_of_joined {g : Folded} (hlines : Lines g.lines) (hs : Plain s) (hne : s ≠ [])
    (hfirst : continues (s ++ lineEnd g.last) = false) (h : neutralised g = ⟨s ++ lineEnd g.last, []⟩) :
    Keeps neutralised g where
  more := by
    rw [h]
    exact fun l hl => absurd hl List.not_mem_nil
  first := by
    rw [h]
    exact fun _ => hfirst
  full := by
    intro hfull
    rw [h]
    intro l hl
    rw [List.mem_singleton.mp hl]
    exact full_append hs (hfull g.last g.last_mem).cut.2.2
  lines := by
    rw [h]
    show Lines [s ++ lineEnd g.last]
    rcases hlines.full_or_plain g.last g.last_mem with hfull | hplain
    · exact .cons (full_append hs hfull.cut.2.2) .nil
    · rw [lineEnd_plain hplain, List.append_nil]
      exact .last hs hne

/-- A property with text put in behind its name. -/
theorem keeps_of_inserted {g : Folded} (hmore : ∀ l ∈ g.more, continues l = true)
    (hlines : Lines g.lines) (h : propertyStart g.first = some w) {t : List Char} (ht : Plain t)
    (heq : neutralised g = ⟨w.1 ++ t ++ w.2, g.more⟩) : Keeps neutralised g := by
  obtain ⟨hline, hname, hpart⟩ := propertyStart_eq_some.mp h
  constructor
  · rw [heq]
    exact hmore
  · intro _
    rw [heq]
    show continues (w.1 ++ t ++ w.2) = false
    rw [List.append_assoc, hname.not_continues]
  · intro hfull
    rw [heq]
    obtain ⟨hfirst, hrest⟩ := List.forall_mem_cons.mp hfull
    rw [hline] at hfirst
    exact List.forall_mem_cons.mpr ⟨(full_insert hname.plain ht hfirst).1, hrest⟩
  · rw [heq]
    have hcut : Lines (g.first :: g.more) := hlines
    show Lines ((w.1 ++ t ++ w.2) :: g.more)
    rw [hline] at hcut
    generalize g.more = more at hcut ⊢
    cases hcut with
    | last hplain _ =>
        obtain ⟨hfront, hback⟩ := plain_append.mp hplain
        refine .last (plain_append.mpr ⟨plain_append.mpr ⟨hfront, ht⟩, hback⟩) ?_
        simp [hname.ne_nil]
    | cons hfull hrest => exact .cons (full_insert hname.plain ht hfull).1 hrest

theorem plain_inserted : Plain (';' :: clientAgent) :=
  plain_cons.mpr ⟨by decide, plain_clientAgent⟩

/-- **A property keeps its lines in shape.** -/
theorem keeps_neutralised {g : Folded} (hmore : ∀ l ∈ g.more, continues l = true)
    (hlines : Lines g.lines) : Keeps neutralised g := by
  cases hstart : propertyStart g.first with
  | none => exact keeps_of_eq hmore hlines (neutralised_of_none hstart)
  | some w =>
      obtain ⟨-, hname, -⟩ := propertyStart_eq_some.mp hstart
      have heq := neutralised_of_some hstart
      rw [rewritten] at heq
      split at heq
      · next hserver =>
        obtain ⟨r, -, hr, hlogical⟩ := logical_of_start hlines hstart
        have hpart : startsPart (r ++ (g.more.map fun l => (chomp l).drop 1).flatten) = true := by
          obtain ⟨c, t, rfl, hc⟩ := startsPart_iff.mp hr
          simp [startsPart, hc]
        obtain ⟨t, ht, -⟩ := replaceFirst_behind_name clientAgent hname hpart
        refine keeps_of_joined hlines (plain_replaceFirst (plain_logical hlines) plain_clientAgent)
          (replaceFirst_ne_nil clientAgent_ne_nil hserver) ?_ heq
        rw [hlogical, ht, List.append_assoc, hname.not_continues]
      · split at heq
        · exact keeps_of_eq hmore hlines heq
        · exact keeps_of_inserted hmore hlines hstart plain_inserted heq

end Ownpace.Calendar
