/-
Ownpace/Calendar/Telling.lean

Fingerprints tell apart what objects carry.

Between two objects whose compared lines are read as they are meant, the fingerprints
agree exactly if they carry the same values of the same properties, each as often
(`calendars_told_apart`, `contacts_told_apart`).  A colon in a parameter, a group in
front of a name and a line break in a value are not read so.  An object of which no
rewriting changes the fingerprint and which no other object is taken for, must say
nothing of the compared properties, and for a card even that is not enough.
-/
import Ownpace.Calendar.Carried

namespace Ownpace.Calendar

open Keys FoldedText

variable {grouped : Bool} {s t : List Char} {c : ContentLine} {compared : List (List Char)}
  (casing : UpperCasing)

/-! ### The lines of an object -/

theorem colon_mem_text (c : ContentLine) : ':' ∈ c.text := by
  rw [c.text_eq]
  simp

theorem exists_of_mem_contents (h : IsObject grouped s) (hc : c ∈ contents s) :
    c.Legal grouped ∧ Plain c.text := by
  obtain ⟨g, hg, hread⟩ := List.mem_filterMap.mp hc
  have htext : g.logical = c.text := (contentLine_eq_some.mp hread).1
  have hblank : trim g.logical ≠ [] := by
    rw [htext]
    exact trim_ne_nil (colon_mem_text c) isWhiteSpace_colon
  obtain ⟨d, hd, hlegal⟩ := h.lines g hg hblank
  obtain rfl := Option.some.inj (hread.symm.trans hd)
  rw [← htext]
  exact ⟨hlegal, plain_logical (lines_of_mem (isFolding_properties h.ends).lines g hg)⟩

/-- The unfolded lines of an object are its content lines. -/
theorem lines_read (h : IsObject grouped s) :
    (unfold s).filterMap (casing.canonicalLine compared) =
      (contents s).filterMap fun c => casing.canonicalLine compared c.text := by
  have hunfold := unfold_text (isFolding_properties h.ends)
  rw [text_properties] at hunfold
  rw [hunfold, contents, List.filterMap_filterMap]
  have hlines := h.lines
  generalize properties s = gs at hlines ⊢
  clear hunfold h
  induction gs with
  | nil => rfl
  | cons g gs ih =>
      obtain ⟨hg, hgs⟩ := List.forall_mem_cons.mp hlines
      have hrest := ih hgs
      rw [List.map_cons, List.filter_cons]
      by_cases hblank : trim g.logical = []
      · have hnone : contentLine g.logical = none := by
          cases hread : contentLine g.logical with
          | none => rfl
          | some c =>
              rw [(contentLine_eq_some.mp hread).1] at hblank
              exact absurd hblank (trim_ne_nil (colon_mem_text c) isWhiteSpace_colon)
        rw [if_neg (by rw [hblank]; decide), hrest, List.filterMap_cons, hnone]
        rfl
      · obtain ⟨c, hread, -⟩ := hg hblank
        have htext : g.logical = c.text := (contentLine_eq_some.mp hread).1
        rw [if_pos (decide_eq_true hblank), List.filterMap_cons, List.filterMap_cons, hread, hrest,
          htext]
        rfl

/-! ### Objects written line by line -/

/-- Each line on one line of its own. -/
def unfolded (cs : List ContentLine) : List Folded := cs.map fun c => ⟨c.text ++ ['\r', '\n'], []⟩

theorem nameChar_not_continues {c : ContentLine} (h : c.Legal grouped) (r : List Char) :
    continues (c.text ++ r) = false := by
  rw [c.text_eq]
  cases hname : c.name with
  | nil => exact absurd hname h.named
  | cons x n =>
      have hx := (h.char (hname ▸ List.mem_cons_self)).1
      show (decide (x = ' ') || decide (x = '\t')) = false
      rw [Bool.or_eq_false_iff, decide_eq_false_iff_not, decide_eq_false_iff_not]
      constructor
      · rintro rfl
        exact absurd hx (by decide)
      · rintro rfl
        exact absurd hx (by decide)

theorem lineEnds_append {a b : List Char} (ha : Plain a) (hb : LineEnds b) :
    LineEnds (a ++ '\r' :: '\n' :: b) := by
  induction a with
  | nil =>
      refine lineEnds_cons.mpr ⟨fun _ => rfl, lineEnds_cons.mpr ⟨fun h => ?_, hb⟩⟩
      exact absurd h (by decide)
  | cons c a ih =>
      obtain ⟨hc, ha⟩ := plain_cons.mp ha
      exact lineEnds_cons.mpr ⟨fun h => absurd h hc.2, ih ha⟩

theorem logical_unfolded (c : ContentLine) :
    (⟨c.text ++ ['\r', '\n'], []⟩ : Folded).logical = c.text := by
  show chomp (c.text ++ ['\r', '\n']) ++ [] = c.text
  rw [chomp_append (lineEnd_crlf _), List.append_nil]

section Unfolded

variable {cs : List ContentLine} (hlegal : ∀ c ∈ cs, c.Legal grouped ∧ Plain c.text)
include hlegal

theorem isFolding_unfolded : IsFolding (unfolded cs) where
  more := by
    intro g hg l hl
    obtain ⟨c, -, rfl⟩ := List.mem_map.mp hg
    cases hl
  first := by
    intro g hg
    obtain ⟨c, hc, rfl⟩ := List.mem_map.mp (List.mem_of_mem_tail hg)
    exact nameChar_not_continues (hlegal c hc).1 _
  lines := by
    apply lines_of_full
    intro l hl
    obtain ⟨g, hg, hl⟩ := List.mem_flatMap.mp hl
    obtain ⟨c, hc, rfl⟩ := List.mem_map.mp hg
    rw [List.mem_singleton.mp hl]
    exact .crlf (hlegal c hc).2

theorem lineEnds_unfolded : LineEnds (text (unfolded cs)) := by
  induction cs with
  | nil => decide
  | cons c cs ih =>
      obtain ⟨hc, hcs⟩ := List.forall_mem_cons.mp hlegal
      have htext : text (unfolded (c :: cs)) = c.text ++ '\r' :: '\n' :: text (unfolded cs) := by
        simp [text, unfolded, Folded.lines]
      rw [htext]
      exact lineEnds_append hc.2 (ih hcs)

theorem contents_unfolded : contents (text (unfolded cs)) = cs := by
  rw [contents, properties_text (isFolding_unfolded hlegal), unfolded, List.filterMap_map]
  have hread : ∀ c ∈ cs, contentLine (⟨c.text ++ ['\r', '\n'], []⟩ : Folded).logical = some c := by
    intro c hc
    rw [logical_unfolded]
    exact contentLine_text (hlegal c hc).1.closed
  clear hlegal
  induction cs with
  | nil => rfl
  | cons c cs ih =>
      obtain ⟨hc, hcs⟩ := List.forall_mem_cons.mp hread
      rw [List.filterMap_cons, Function.comp_apply, hc, ih hcs]

theorem isObject_unfolded : IsObject grouped (text (unfolded cs)) where
  ends := lineEnds_unfolded hlegal
  lines := by
    rw [properties_text (isFolding_unfolded hlegal)]
    intro g hg _
    obtain ⟨c, hc, rfl⟩ := List.mem_map.mp hg
    rw [logical_unfolded]
    exact ⟨c, contentLine_text (hlegal c hc).1.closed, (hlegal c hc).1⟩

end Unfolded

/-! ### What is read of objects that are clear -/

/-- The names of compared properties are letters. -/
structure Names (compared : List (List Char)) : Prop where
  dot : ∀ n ∈ compared, '.' ∉ n
  colon : ∀ n ∈ compared, ':' ∉ n
  line : ∀ n ∈ compared, '\n' ∉ n

theorem names_calendar : Names calendarProperties := ⟨by decide, by decide, by decide⟩

theorem names_contact : Names contactProperties := ⟨by decide, by decide, by decide⟩

/-- A piece that begins like a compared property. -/
def marked (compared : List (List Char)) (piece : List Char) : Bool :=
  compared.any fun n => (n ++ [':']).isPrefixOf piece

theorem mem_carried {p : List Char × List Char} (h : p ∈ carried compared s) :
    ∃ c ∈ contents s, c.property ∈ compared ∧ p = (c.property, trim (unescapeText c.value)) := by
  obtain ⟨q, hq, hp⟩ := List.mem_filterMap.mp h
  obtain ⟨c, hc, hsaid⟩ := List.mem_filterMap.mp hq
  rw [ContentLine.said] at hsaid
  split at hsaid
  · next hmem =>
    obtain rfl := Option.some.inj hsaid
    rw [evidence] at hp
    split at hp
    · cases hp
    · exact ⟨c, hc, List.contains_iff_mem.mp hmem, (Option.some.inj hp).symm⟩
  · cases hsaid

/-- What is read of an object that is clear is what it carries. -/
theorem lines_clear (hnames : Names compared) (h : IsObject grouped s) (hclear : AllClear compared s) :
    (unfold s).filterMap (casing.canonicalLine compared) = (carried compared s).map canonical := by
  rw [lines_read casing h, carried, said, List.filterMap_filterMap, List.map_filterMap]
  apply List.filterMap_congr
  intro c hc
  have hlegal := (exists_of_mem_contents h hc).1
  exact canonicalLine_clear casing hnames.dot hlegal fun hmem =>
    ⟨(hclear c hc hmem).ungrouped, (hclear c hc hmem).params⟩

theorem splitOn_append_of_not_mem {a : List Char} (ha : '\n' ∉ a) (b : List Char) :
    ∃ p ps, b.splitOn '\n' = p :: ps ∧ (a ++ b).splitOn '\n' = (a ++ p) :: ps := by
  by_cases hb : '\n' ∈ b
  · obtain ⟨p, rest, rfl, hp⟩ := List.eq_append_cons_of_mem hb
    have hap : '\n' ∉ a ++ p := by
      rw [List.mem_append, not_or]
      exact ⟨ha, hp⟩
    refine ⟨p, rest.splitOn '\n', List.splitOn_append_cons_self_of_not_mem hp _, ?_⟩
    rw [← List.append_assoc, List.splitOn_append_cons_self_of_not_mem hap]
  · have hab : '\n' ∉ a ++ b := by
      rw [List.mem_append, not_or]
      exact ⟨ha, hb⟩
    exact ⟨b, [], List.splitOn_eq_singleton hb, List.splitOn_eq_singleton hab⟩

/-- A piece behind the first one, with the line feed in front of it. -/
theorem infix_joined {q p : List Char} {ps : List (List Char)} (hp : p ∈ ps) :
    '\n' :: p <:+: ['\n'].intercalate (q :: ps) := by
  induction ps generalizing q with
  | nil => cases hp
  | cons m ps ih =>
      have hjoin : ['\n'].intercalate (q :: m :: ps) = q ++ '\n' :: ['\n'].intercalate (m :: ps) := by
        simp
      rw [hjoin]
      rcases List.mem_cons.mp hp with rfl | hp
      · obtain ⟨more, hmore⟩ : p <+: ['\n'].intercalate (p :: ps) := by
          cases ps with
          | nil => simp
          | cons r ps =>
              refine ⟨'\n' :: ['\n'].intercalate (r :: ps), ?_⟩
              simp
        exact ⟨q, more, by rw [← hmore]; simp⟩
      · obtain ⟨front, more, h⟩ := @ih m hp
        exact ⟨q ++ '\n' :: front, more, by rw [← h]; simp⟩

theorem infix_of_mem_tail {b p q : List Char} {ps : List (List Char)}
    (h : b.splitOn '\n' = q :: ps) (hp : p ∈ ps) : '\n' :: p <:+: b := by
  have hjoined := @infix_joined q p ps hp
  rwa [← h, List.intercalate_splitOn] at hjoined

/-- The lines of what is carried can be told apart when they are joined. -/
theorem block_canonical (hnames : Names compared) (hclear : AllClear compared s) :
    ∀ l ∈ (carried compared s).map canonical, Block (marked compared) (l.splitOn '\n') := by
  intro l hl
  obtain ⟨p, hp, rfl⟩ := List.mem_map.mp hl
  obtain ⟨c, hc, hmem, rfl⟩ := mem_carried hp
  have hfront : '\n' ∉ c.property ++ [':'] := by
    rw [List.mem_append, not_or]
    exact ⟨hnames.line _ hmem, by decide⟩
  obtain ⟨q, ps, hvalue, hsplit⟩ := splitOn_append_of_not_mem hfront (trim (unescapeText c.value))
  have hline : canonical (c.property, trim (unescapeText c.value)) =
      c.property ++ [':'] ++ trim (unescapeText c.value) := by
    simp [canonical]
  rw [hline, hsplit]
  constructor
  · rw [marked, List.any_eq_true]
    exact ⟨c.property, hmem, List.isPrefixOf_iff_prefix.mpr (List.prefix_append _ _)⟩
  · -- what begins like a property would be in the value
    intro piece hpiece
    rw [marked, List.any_eq_false]
    intro n hn hprefix
    have hprefix := List.isPrefixOf_iff_prefix.mp hprefix
    obtain ⟨more, hmore⟩ := hprefix
    apply (hclear c hc hmem).value n hn
    have hinfix := infix_of_mem_tail hvalue hpiece
    rw [← hmore] at hinfix
    refine List.IsInfix.trans ?_ hinfix
    exact ⟨[], more, rfl⟩

/-- The pair a line of the canonical text was made of. -/
def pairOf (l : List Char) : List Char × List Char :=
  (l.takeWhile fun x => x ≠ ':', (l.dropWhile fun x => x ≠ ':').drop 1)

theorem pairOf_canonical {p : List Char × List Char} (h : ':' ∉ p.1) : pairOf (canonical p) = p := by
  have hall : ∀ x ∈ p.1, decide (x ≠ ':') = true := by
    intro x hx
    rw [decide_eq_true_eq]
    rintro rfl
    exact h hx
  rw [pairOf, canonical, List.takeWhile_append_of_pos hall, List.dropWhile_append_of_pos hall,
    List.takeWhile_cons_of_neg (by decide), List.dropWhile_cons_of_neg (by decide), List.append_nil]
  rfl

theorem map_pairOf (hnames : Names compared) (s : List Char) :
    ((carried compared s).map canonical).map pairOf = carried compared s := by
  rw [List.map_map]
  refine (List.map_congr_left fun p hp => ?_).trans (List.map_id _)
  obtain ⟨c, -, hmem, rfl⟩ := mem_carried hp
  exact pairOf_canonical (hnames.colon _ hmem)

/-- **Objects that are clear have the same canonical text exactly if they carry the same.** -/
theorem canonicalLines_eq_iff (hnames : Names compared) (hs : IsObject grouped s)
    (ht : IsObject grouped t) (hsclear : AllClear compared s) (htclear : AllClear compared t) :
    casing.canonicalLines s compared = casing.canonicalLines t compared ↔
      (carried compared s).Perm (carried compared t) := by
  rw [UpperCasing.canonicalLines, UpperCasing.canonicalLines, lines_clear casing hnames hs hsclear,
    lines_clear casing hnames ht htclear]
  have hnil : marked compared [] = false := by
    rw [marked, List.any_eq_false]
    intro n _ hprefix
    have := List.isPrefixOf_iff_prefix.mp hprefix
    exact absurd (List.prefix_nil.mp this) (by simp)
  have hblocks {s : List Char} (hclear : AllClear compared s) :
      ∀ l ∈ sorted ((carried compared s).map canonical), Block (marked compared) (l.splitOn '\n') :=
    fun l hl => block_canonical hnames hclear l ((sorted_perm _).mem_iff.mp hl)
  constructor
  · intro heq
    have hsorted := joined_inj (hblocks hsclear) (hblocks htclear) hnil heq
    have hperm := (sorted_eq_iff.mp hsorted).map pairOf
    rwa [map_pairOf hnames, map_pairOf hnames] at hperm
  · intro hperm
    rw [sorted_eq_iff.mpr (hperm.map canonical)]

/-! ### How much is read -/

/-- How much lines add to the canonical text. -/
def total (ls : List (List Char)) : Nat := (ls.map fun l => l.length + 1).sum

theorem total_eq_of_joined {ls ms : List (List Char)} (hl : ∀ l ∈ ls, l ≠ []) (hm : ∀ m ∈ ms, m ≠ [])
    (h : ['\n'].intercalate ls = ['\n'].intercalate ms) : total ls = total ms := by
  have hnil {ls : List (List Char)} (hl : ∀ l ∈ ls, l ≠ []) (h : ['\n'].intercalate ls = []) :
      ls = [] := by
    by_contra hne
    have hlength := length_joined hne
    rw [h] at hlength
    cases ls with
    | nil => exact hne rfl
    | cons l ls =>
        have hpos := List.length_pos_of_ne_nil (hl l List.mem_cons_self)
        rw [List.map_cons, List.sum_cons] at hlength
        simp only [List.length_nil] at hlength
        omega
  by_cases hls : ls = []
  · rw [hls] at h ⊢
    rw [hnil hm h.symm]
  · by_cases hms : ms = []
    · rw [hms] at h ⊢
      rw [hnil hl h]
    · rw [total, total, ← length_joined hls, ← length_joined hms, h]

theorem total_filterMap {α : Type} (f : α → Option (List Char)) (l : List α) :
    total (l.filterMap f) = (l.map fun a => weight (f a)).sum := by
  induction l with
  | nil => rfl
  | cons a l ih =>
      rw [List.filterMap_cons, List.map_cons, List.sum_cons, ← ih]
      cases f a with
      | none => exact (Nat.zero_add _).symm
      | some l => rfl

theorem canonicalLine_ne_nil {line l : List Char} (h : casing.canonicalLine compared line = some l) :
    l ≠ [] := by
  rw [UpperCasing.canonicalLine] at h
  split at h
  · cases h
  · split at h
    · cases h
    · split at h
      · cases h
      · rw [← Option.some.inj h]
        simp

/-- Canonical texts that are the same were read of as much. -/
theorem total_of_canonicalLines (hs : IsObject grouped s) (ht : IsObject grouped t)
    (h : casing.canonicalLines s compared = casing.canonicalLines t compared) :
    ((contents s).map fun c => weight (casing.canonicalLine compared c.text)).sum =
      ((contents t).map fun c => weight (casing.canonicalLine compared c.text)).sum := by
  have hne (s : List Char) :
      ∀ l ∈ sorted ((unfold s).filterMap (casing.canonicalLine compared)), l ≠ [] := by
    intro l hl
    obtain ⟨line, -, hline⟩ := List.mem_filterMap.mp ((sorted_perm _).mem_iff.mp hl)
    exact canonicalLine_ne_nil casing hline
  have hsum (s : List Char) :
      total (sorted ((unfold s).filterMap (casing.canonicalLine compared))) =
        total ((unfold s).filterMap (casing.canonicalLine compared)) :=
    ((sorted_perm _).map _).sum_nat
  have htotal := total_eq_of_joined (hne s) (hne t) h
  rw [hsum, hsum, lines_read casing hs, lines_read casing ht, total_filterMap, total_filterMap] at htotal
  exact htotal

/-! ### All rewritings, and all other objects -/

/-- No object that says the same of the compared properties has another fingerprint, and none
that carries anything else has the same. -/
structure Faithful (fingerprint : List Char → List Char) (compared : List (List Char))
    (grouped : Bool) (s : List Char) : Prop where
  rewritten : ∀ t, IsObject grouped t → (said compared t).Perm (said compared s) →
    fingerprint t = fingerprint s
  told : ∀ t, IsObject grouped t → fingerprint t = fingerprint s →
    (carried compared t).Perm (carried compared s)

theorem carried_eq (compared : List (List Char)) (s : List Char) :
    carried compared s = (contents s).filterMap fun c => (c.said compared).bind evidence := by
  rw [carried, said, List.filterMap_filterMap]

/-- A parameter with a quoted colon is added to a compared property: nothing else is said, and the
canonical text is another one. -/
theorem exists_rewritten (hs : IsObject grouped s) (hc : c ∈ contents s)
    (hmem : c.name.map Char.toUpper ∈ compared) :
    ∃ t, IsObject grouped t ∧ said compared t = said compared s ∧
      casing.canonicalLines t compared ≠ casing.canonicalLines s compared := by
  obtain ⟨front, back, hcontents⟩ := List.append_of_mem hc
  have hall : ∀ d ∈ contents s, d.Legal grouped ∧ Plain d.text := fun d hd =>
    exists_of_mem_contents hs hd
  obtain ⟨hlegal, hplain⟩ := hall c hc
  have hwith : c.withColon.Legal grouped ∧ Plain c.withColon.text := by
    refine ⟨⟨⟨hlegal.closed.name, ?_⟩, hlegal.named, hlegal.name⟩, ?_⟩
    · exact List.forall_mem_cons.mpr ⟨by decide, hlegal.closed.params⟩
    · have htext : c.withColon.text = c.name ++ [';', 'X', '=', '"', ':', '"'] ++
          (c.between ++ ':' :: c.value) := by
        rw [c.withColon.text_eq, ContentLine.between, ContentLine.withColon, List.flatMap_cons]
        simp [ContentLine.between]
      rw [c.text_eq] at hplain
      obtain ⟨hname, hrest⟩ := plain_append.mp hplain
      rw [htext]
      refine plain_append.mpr ⟨plain_append.mpr ⟨hname, ?_⟩, hrest⟩
      intro x hx
      have hx := List.all_eq_true.mp (show [';', 'X', '=', '"', ':', '"'].all
        (fun x => x ≠ '\n' && x ≠ '\r') = true by decide) x hx
      simpa using hx
  have hnew : ∀ d ∈ front ++ c.withColon :: back, d.Legal grouped ∧ Plain d.text := by
    intro d hd
    rcases List.mem_append.mp hd with hd | hd
    · exact hall d (by rw [hcontents]; exact List.mem_append_left _ hd)
    · rcases List.mem_cons.mp hd with rfl | hd
      · exact hwith
      · exact hall d (by rw [hcontents]; exact List.mem_append_right _ (List.mem_cons_of_mem _ hd))
  have ht := isObject_unfolded hnew
  refine ⟨text (unfolded (front ++ c.withColon :: back)), ht, ?_, ?_⟩
  · have hsaid : c.withColon.said compared = c.said compared := rfl
    rw [said, said, contents_unfolded hnew, hcontents, List.filterMap_append, List.filterMap_append,
      List.filterMap_cons, List.filterMap_cons, hsaid]
  · intro heq
    have htotal := total_of_canonicalLines casing ht hs heq
    have hless := canonicalLine_withColon casing hlegal hmem
    rw [contents_unfolded hnew, hcontents] at htotal
    simp only [List.map_append, List.map_cons, List.sum_append, List.sum_cons] at htotal
    omega

variable {digest : List Char → List Char}

theorem calendarFingerprint_eq_iff (hdigest : Function.Injective digest) :
    casing.calendarFingerprint digest s = casing.calendarFingerprint digest t ↔
      casing.canonicalLines s calendarProperties = casing.canonicalLines t calendarProperties := by
  rw [UpperCasing.calendarFingerprint, UpperCasing.calendarFingerprint, List.append_right_inj,
    hdigest.eq_iff]

theorem contactFingerprint_eq_iff (hdigest : Function.Injective digest) :
    casing.contactFingerprint digest s = casing.contactFingerprint digest t ↔
      casing.canonicalLines s contactProperties = casing.canonicalLines t contactProperties := by
  rw [UpperCasing.contactFingerprint, UpperCasing.contactFingerprint, List.append_right_inj,
    hdigest.eq_iff]

theorem name_of_property (hdot : '.' ∉ c.name) (h : c.property ∈ compared) :
    c.name.map Char.toUpper ∈ compared := by
  rwa [ContentLine.property, if_neg hdot] at h

/-- In a calendar no name has a group. -/
theorem dot_not_mem (h : c.Legal false) : '.' ∉ c.name := by
  intro hdot
  rcases h.name '.' hdot with h | ⟨h, -⟩
  · exact absurd h (by decide)
  · cases h

/-- Of an object that says nothing of the compared properties, nothing is read. -/
theorem canonicalLines_of_said_nil (hnames : Names compared) (hs : IsObject grouped s)
    (h : said compared s = []) : casing.canonicalLines s compared = [] := by
  have hnone : (contents s).filterMap (fun c => casing.canonicalLine compared c.text) = [] := by
    rw [List.filterMap_eq_nil_iff]
    intro c hc
    apply canonicalLine_other casing hnames.dot (exists_of_mem_contents hs hc).1
    intro hmem
    have hsaid := List.filterMap_eq_nil_iff.mp h c hc
    rw [ContentLine.said, if_pos (List.contains_iff_mem.mpr hmem)] at hsaid
    cases hsaid
  rw [UpperCasing.canonicalLines, lines_read casing hs, hnone, sorted, List.mergeSort_nil]
  rfl

/-- A calendar of which nothing is read carries nothing. -/
theorem carried_nil_of_canonicalLines (hnames : Names compared) (hs : IsObject false s)
    (h : casing.canonicalLines s compared = []) : carried compared s = [] := by
  have hnone : ∀ c ∈ contents s, casing.canonicalLine compared c.text = none := by
    rw [← List.filterMap_eq_nil_iff, ← lines_read casing hs]
    by_contra hne
    have hsorted : sorted ((unfold s).filterMap (casing.canonicalLine compared)) ≠ [] := by
      intro hnil
      exact hne (List.nil_perm.mp (hnil ▸ sorted_perm _))
    obtain ⟨l, hl⟩ := List.exists_mem_of_ne_nil _ hsorted
    obtain ⟨line, -, hline⟩ := List.mem_filterMap.mp ((sorted_perm _).mem_iff.mp hl)
    have hlength := length_joined hsorted
    obtain ⟨front, back, hsplit⟩ := List.append_of_mem hl
    have hpos := List.length_pos_of_ne_nil (canonicalLine_ne_nil casing hline)
    rw [UpperCasing.canonicalLines] at h
    rw [h, hsplit] at hlength
    simp only [List.length_nil, List.map_append, List.map_cons, List.sum_append, List.sum_cons] at hlength
    omega
  rw [carried_eq, List.filterMap_eq_nil_iff]
  intro c hc
  have hlegal := (exists_of_mem_contents hs hc).1
  have hclear : c.property ∈ compared → '.' ∉ c.name ∧ ∀ q ∈ c.params, ':' ∉ q := by
    intro hmem
    refine ⟨dot_not_mem hlegal, ?_⟩
    by_contra hcolon
    push Not at hcolon
    exact canonicalLine_colon casing hlegal (name_of_property (dot_not_mem hlegal) hmem) hcolon
      (hnone c hc)
  have hread := canonicalLine_clear casing hnames.dot hlegal hclear
  rw [hnone c hc] at hread
  exact Option.map_eq_none_iff.mp hread.symm

theorem calendar_faithful_iff (hdigest : Function.Injective digest) (hs : IsObject false s) :
    Faithful (casing.calendarFingerprint digest) calendarProperties false s ↔
      said calendarProperties s = [] := by
  constructor
  · intro hfaithful
    by_contra hsaid
    obtain ⟨p, hp⟩ := List.exists_mem_of_ne_nil _ hsaid
    obtain ⟨c, hc, hcsaid⟩ := List.mem_filterMap.mp hp
    have hmem : c.property ∈ calendarProperties := by
      by_contra hnot
      rw [ContentLine.said, if_neg (mt List.contains_iff_mem.mp hnot)] at hcsaid
      cases hcsaid
    have hname := name_of_property (dot_not_mem (exists_of_mem_contents hs hc).1) hmem
    obtain ⟨t, ht, hsame, hne⟩ := exists_rewritten casing hs hc hname
    apply hne
    rw [← calendarFingerprint_eq_iff casing hdigest]
    exact hfaithful.rewritten t ht (List.Perm.of_eq hsame)
  · intro hsaid
    have hnone := canonicalLines_of_said_nil casing names_calendar hs hsaid
    constructor
    · intro t ht hperm
      rw [hsaid] at hperm
      rw [calendarFingerprint_eq_iff casing hdigest, hnone]
      exact canonicalLines_of_said_nil casing names_calendar ht (List.perm_nil.mp hperm)
    · intro t ht heq
      rw [calendarFingerprint_eq_iff casing hdigest, hnone] at heq
      rw [carried_nil_of_canonicalLines casing names_calendar ht heq, carried, hsaid]
      exact List.Perm.refl _

/-- A note in a group. -/
def groupedNote : ContentLine := ⟨['a', '.', 'N', 'O', 'T', 'E'], [], ['x']⟩

/-- A note in a group is not read: with it a card carries more, and has the fingerprint it had. -/
theorem not_faithful_contact (hdigest : Function.Injective digest) (hs : IsObject true s) :
    ¬ Faithful (casing.contactFingerprint digest) contactProperties true s := by
  intro hfaithful
  have hname : ∀ x ∈ groupedNote.name, nameChar x = true ∨ true = true ∧ x = '.' := by
    intro x hx
    have hx := List.all_eq_true.mp (show groupedNote.name.all
      (fun x => nameChar x || x == '.') = true by decide) x hx
    simpa using hx
  have hlegal : groupedNote.Legal true := ⟨⟨by decide, by decide⟩, by decide, hname⟩
  have hplain : Plain groupedNote.text := by
    intro x hx
    have hx := List.all_eq_true.mp (show groupedNote.text.all
      (fun x => x ≠ '\n' && x ≠ '\r') = true by decide) x hx
    simpa using hx
  -- the note goes in front of the last line
  let front := (contents s).dropLast
  let back := (contents s).getLast?.toList
  have hcontents : contents s = front ++ back := by
    show contents s = (contents s).dropLast ++ (contents s).getLast?.toList
    cases hlast : (contents s).getLast? with
    | none =>
        rw [List.getLast?_eq_none_iff] at hlast
        rw [hlast]
        rfl
    | some c => exact (List.dropLast_append_getLast? c hlast).symm
  have hall : ∀ d ∈ front ++ groupedNote :: back, d.Legal true ∧ Plain d.text := by
    intro d hd
    have hd : d ∈ contents s ∨ d = groupedNote := by
      rw [hcontents, List.mem_append]
      rcases List.mem_append.mp hd with hd | hd
      · exact Or.inl (Or.inl hd)
      · rcases List.mem_cons.mp hd with hd | hd
        · exact Or.inr hd
        · exact Or.inl (Or.inr hd)
    rcases hd with hd | rfl
    · exact exists_of_mem_contents hs hd
    · exact ⟨hlegal, hplain⟩
  have ht := isObject_unfolded hall
  have hnone : casing.canonicalLine contactProperties groupedNote.text = none :=
    canonicalLine_unlisted casing hlegal (by decide)
  have hlines : (unfold (text (unfolded (front ++ groupedNote :: back)))).filterMap
      (casing.canonicalLine contactProperties) =
        (unfold s).filterMap (casing.canonicalLine contactProperties) := by
    rw [lines_read casing ht, lines_read casing hs, contents_unfolded hall, hcontents,
      List.filterMap_append, List.filterMap_append, List.filterMap_cons, hnone]
  have hsame : casing.contactFingerprint digest (text (unfolded (front ++ groupedNote :: back))) =
      casing.contactFingerprint digest s := by
    rw [contactFingerprint_eq_iff casing hdigest, UpperCasing.canonicalLines, UpperCasing.canonicalLines,
      hlines]
  have hlength := (hfaithful.told _ ht hsame).length_eq
  have hnote : (groupedNote.said contactProperties).bind evidence = some (['N', 'O', 'T', 'E'], ['x']) := by
    decide
  rw [carried_eq, carried_eq, contents_unfolded hall, hcontents, List.filterMap_append,
    List.filterMap_append, List.filterMap_cons, hnote] at hlength
  simp only [List.length_append, List.length_cons] at hlength
  omega

/-- **What fingerprints tell apart.**  Objects whose compared lines are clear have the same
fingerprint exactly if they carry the same.  Of a calendar no rewriting changes the fingerprint,
and no other calendar is taken for it, exactly if it says nothing of the compared properties; of
a card this never holds. -/
theorem fingerprints_tell_apart (hdigest : Function.Injective digest) :
    (∀ s t, IsObject false s → IsObject false t →
      AllClear calendarProperties s → AllClear calendarProperties t →
      (casing.calendarFingerprint digest s = casing.calendarFingerprint digest t ↔
        (carried calendarProperties s).Perm (carried calendarProperties t))) ∧
    (∀ s t, IsObject true s → IsObject true t →
      AllClear contactProperties s → AllClear contactProperties t →
      (casing.contactFingerprint digest s = casing.contactFingerprint digest t ↔
        (carried contactProperties s).Perm (carried contactProperties t))) ∧
    (∀ s, IsObject false s →
      (Faithful (casing.calendarFingerprint digest) calendarProperties false s ↔
        said calendarProperties s = [])) ∧
    ∀ s, IsObject true s →
      ¬ Faithful (casing.contactFingerprint digest) contactProperties true s := by
  refine ⟨?_, ?_, ?_, ?_⟩
  · intro s t hs ht hsclear htclear
    rw [calendarFingerprint_eq_iff casing hdigest]
    exact canonicalLines_eq_iff casing names_calendar hs ht hsclear htclear
  · intro s t hs ht hsclear htclear
    rw [contactFingerprint_eq_iff casing hdigest]
    exact canonicalLines_eq_iff casing names_contact hs ht hsclear htclear
  · intro s hs
    exact calendar_faithful_iff casing hdigest hs
  · intro s hs
    exact not_faithful_contact casing hdigest hs

/-! ### An address in a parameter -/

/-- `UID:1` and `SUMMARY:Hi`. -/
def greeting : List ContentLine :=
  [⟨['U', 'I', 'D'], [], ['1']⟩, ⟨['S', 'U', 'M', 'M', 'A', 'R', 'Y'], [], ['H', 'i']⟩]

/-- `SUMMARY;LANGUAGE=en:Hi` and `UID:1`. -/
def greetingInEnglish : List ContentLine :=
  [⟨['S', 'U', 'M', 'M', 'A', 'R', 'Y'], ["LANGUAGE=en".toList], ['H', 'i']⟩,
    ⟨['U', 'I', 'D'], [], ['1']⟩]

/-- `UID:1` and `SUMMARY;ALTREP="http://a":Hi`. -/
def greetingWithAddress : List ContentLine :=
  [⟨['U', 'I', 'D'], [], ['1']⟩,
    ⟨['S', 'U', 'M', 'M', 'A', 'R', 'Y'], ["ALTREP=\"http://a\"".toList], ['H', 'i']⟩]

instance (grouped : Bool) (c : ContentLine) : Decidable (c.Legal grouped ∧ Plain c.text) :=
  decidable_of_iff
    (((closes false c.name = true ∧ ∀ q ∈ c.params, closes false q = true) ∧ c.name ≠ [] ∧
      c.name.all (fun x => nameChar x || grouped && x == '.') = true) ∧
      c.text.all (fun x => x != '\n' && x != '\r') = true)
    (by
      rw [List.all_eq_true, List.all_eq_true]
      constructor
      · rintro ⟨⟨⟨hname, hparams⟩, hnamed, hchars⟩, hplain⟩
        exact ⟨⟨⟨hname, hparams⟩, hnamed, fun x hx => by simpa using hchars x hx⟩,
          fun x hx => by simpa using hplain x hx⟩
      · rintro ⟨⟨⟨hname, hparams⟩, hnamed, hchars⟩, hplain⟩
        exact ⟨⟨⟨hname, hparams⟩, hnamed, fun x hx => by simpa using hchars x hx⟩,
          fun x hx => by simpa using hplain x hx⟩)

theorem legal_greeting : ∀ c ∈ greeting, c.Legal false ∧ Plain c.text := by decide

theorem legal_greetingInEnglish : ∀ c ∈ greetingInEnglish, c.Legal false ∧ Plain c.text := by
  decide +kernel

theorem legal_greetingWithAddress : ∀ c ∈ greetingWithAddress, c.Legal false ∧ Plain c.text := by
  decide +kernel

/-- **A parameter with an address in it changes the fingerprint**: the event says the same as
before, and looks damaged. -/
theorem address_changes_fingerprint :
    IsObject false (text (unfolded greeting)) ∧ IsObject false (text (unfolded greetingWithAddress)) ∧
    said calendarProperties (text (unfolded greetingWithAddress)) =
      said calendarProperties (text (unfolded greeting)) ∧
    ∀ digest, Function.Injective digest →
      asciiCasing.calendarFingerprint digest (text (unfolded greetingWithAddress)) ≠
        asciiCasing.calendarFingerprint digest (text (unfolded greeting)) := by
  have hs := isObject_unfolded legal_greeting
  have ht := isObject_unfolded legal_greetingWithAddress
  refine ⟨hs, ht, ?_, ?_⟩
  · rw [said, said, contents_unfolded legal_greeting, contents_unfolded legal_greetingWithAddress]
    decide
  · intro digest hdigest heq
    have htotal := total_of_canonicalLines asciiCasing ht hs
      ((calendarFingerprint_eq_iff asciiCasing hdigest).mp heq)
    rw [contents_unfolded legal_greeting, contents_unfolded legal_greetingWithAddress] at htotal
    revert htotal
    decide +kernel

/-- SHA-256 at the canonical text of the greeting, and no collision anywhere. -/
def greetingDigest (s : List Char) : List Char :=
  if s = "SUMMARY:Hi\nUID:1".toList then
    "4a3ab0919406a21e3996274f0bfa3073a2b3aed4787cdd2feb5376bff3f264d2".toList
  else 'x' :: s

theorem greetingDigest_injective : Function.Injective greetingDigest := by
  intro s t h
  have hhex : "4a3ab0919406a21e3996274f0bfa3073a2b3aed4787cdd2feb5376bff3f264d2".toList.head? ≠
      some 'x' := by
    rw [String.toList_ofList]
    decide
  rw [greetingDigest, greetingDigest] at h
  by_cases hs : s = "SUMMARY:Hi\nUID:1".toList
  · by_cases ht : t = "SUMMARY:Hi\nUID:1".toList
    · rw [hs, ht]
    · rw [if_pos hs, if_neg ht] at h
      exact absurd (congrArg List.head? h) hhex
  · by_cases ht : t = "SUMMARY:Hi\nUID:1".toList
    · rw [if_neg hs, if_pos ht] at h
      exact absurd (congrArg List.head? h).symm hhex
    · rw [if_neg hs, if_neg ht] at h
      exact (List.cons.inj h).2

theorem allClear_unfolded {cs : List ContentLine} (hlegal : ∀ c ∈ cs, c.Legal grouped ∧ Plain c.text)
    (h : ∀ c ∈ cs, '.' ∉ c.name ∧ (∀ q ∈ c.params, ':' ∉ q) ∧
      ∀ n ∈ compared, ¬ '\n' :: (n ++ [':']) <:+: trim (unescapeText c.value)) :
    AllClear compared (text (unfolded cs)) := by
  intro c hc _
  rw [contents_unfolded hlegal] at hc
  obtain ⟨hdot, hparams, hvalue⟩ := h c hc
  exact ⟨hdot, hparams, hvalue⟩

/-- In another order, and with a language, the greeting has the same fingerprint. -/
theorem greeting_in_english :
    asciiCasing.calendarFingerprint greetingDigest (text (unfolded greeting)) =
      asciiCasing.calendarFingerprint greetingDigest (text (unfolded greetingInEnglish)) := by
  refine ((fingerprints_tell_apart asciiCasing greetingDigest_injective).1 _ _
    (isObject_unfolded legal_greeting) (isObject_unfolded legal_greetingInEnglish)
    (allClear_unfolded legal_greeting (by decide))
    (allClear_unfolded legal_greetingInEnglish (by decide +kernel))).mpr ?_
  rw [carried, carried, said, said, contents_unfolded legal_greeting,
    contents_unfolded legal_greetingInEnglish]
  decide

end Ownpace.Calendar
