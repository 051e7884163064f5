/-
Ownpace/Calendar/Folded.lean

A text of folded properties: physical lines, each with its own line break, of
which a line that begins with a blank goes on with the line before.

`pieces` cuts a text behind each line feed, `fold` puts the lines of one property
together.  A text whose carriage returns all stand before a line feed is cut into
a folding (`isFolding_properties`), a folding is read back from its text
(`properties_text`), and a rewriting that keeps the lines of each property in
shape makes a folding of a folding (`IsFolding.map`).
-/
import Mathlib.Data.List.Basic

namespace FoldedText

/-! ### Physical lines -/

/-- A character put in front of the first line. -/
def onto (c : Char) : List (List Char) → List (List Char)
  | [] => [[c]]
  | l :: ls => (c :: l) :: ls

/-- A text cut behind each line feed. -/
def pieces : List Char → List (List Char)
  | [] => []
  | c :: s => if c = '\n' then [c] :: pieces s else onto c (pieces s)

/-- No line break in it. -/
def Plain (s : List Char) : Prop := ∀ c ∈ s, c ≠ '\n' ∧ c ≠ '\r'

/-- A line and the break that ends it. -/
inductive Full : List Char → Prop
  | lf {s} : Plain s → Full (s ++ ['\n'])
  | crlf {s} : Plain s → Full (s ++ ['\r', '\n'])

/-- The lines of a text: only the last one may lack its break. -/
inductive Lines : List (List Char) → Prop
  | nil : Lines []
  | last {l} : Plain l → l ≠ [] → Lines [l]
  | cons {l ls} : Full l → Lines ls → Lines (l :: ls)

/-- Every carriage return has a line feed after it. -/
def LineEnds (s : List Char) : Prop := ∀ a b, s = a ++ '\r' :: b → b.head? = some '\n'

theorem plain_nil : Plain [] := by
  intro c hc
  cases hc

theorem plain_cons {c : Char} {s : List Char} :
    Plain (c :: s) ↔ (c ≠ '\n' ∧ c ≠ '\r') ∧ Plain s :=
  List.forall_mem_cons

theorem plain_append {s t : List Char} : Plain (s ++ t) ↔ Plain s ∧ Plain t :=
  List.forall_mem_append

theorem Full.cons {c : Char} {l : List Char} (hc : c ≠ '\n' ∧ c ≠ '\r') (h : Full l) :
    Full (c :: l) := by
  cases h with
  | lf hs => exact .lf (plain_cons.mpr ⟨hc, hs⟩)
  | crlf hs => exact .crlf (plain_cons.mpr ⟨hc, hs⟩)

theorem LineEnds.tail {c : Char} {s : List Char} (h : LineEnds (c :: s)) : LineEnds s := by
  intro a b hs
  exact h (c :: a) b (by rw [hs, List.cons_append])

theorem lineEnds_cons {c : Char} {s : List Char} :
    LineEnds (c :: s) ↔ (c = '\r' → s.head? = some '\n') ∧ LineEnds s := by
  constructor
  · intro h
    exact ⟨fun hc => h [] s (by rw [hc, List.nil_append]), h.tail⟩
  · rintro ⟨hc, hs⟩ a b heq
    cases a with
    | nil =>
        obtain ⟨rfl, rfl⟩ := List.cons.inj heq
        exact hc rfl
    | cons d a => exact hs a b (List.cons.inj heq).2

instance decidableLineEnds : (s : List Char) → Decidable (LineEnds s)
  | [] => isTrue fun a b h => absurd h (by simp)
  | _ :: s =>
    have := decidableLineEnds s
    decidable_of_iff' _ lineEnds_cons

theorem lines_onto {c : Char} {ls : List (List Char)} (hc : c ≠ '\n' ∧ c ≠ '\r') (h : Lines ls) :
    Lines (onto c ls) := by
  cases h with
  | nil => exact .last (plain_cons.mpr ⟨hc, plain_nil⟩) (List.cons_ne_nil _ _)
  | last hl _ => exact .last (plain_cons.mpr ⟨hc, hl⟩) (List.cons_ne_nil _ _)
  | cons hl hls => exact .cons (hl.cons hc) hls

theorem lines_pieces {s : List Char} (h : LineEnds s) : Lines (pieces s) := by
  induction s with
  | nil => exact .nil
  | cons c s ih =>
      have hs := ih h.tail
      rw [pieces]
      by_cases hlf : c = '\n'
      · rw [if_pos hlf, hlf]
        exact .cons (.lf plain_nil) hs
      · rw [if_neg hlf]
        by_cases hcr : c = '\r'
        · -- the line feed that follows has begun a line of its own
          obtain ⟨t, rfl⟩ : ∃ t, s = '\n' :: t := by
            have hhead := h [] s (by rw [hcr, List.nil_append])
            exact ⟨s.tail, List.eq_cons_of_mem_head? hhead⟩
          rw [pieces, if_pos rfl] at hs ⊢
          rw [hcr]
          generalize pieces t = ps at hs ⊢
          cases hs with
          | last hplain _ => exact absurd rfl (hplain '\n' List.mem_cons_self).1
          | cons _ hls => exact .cons (.crlf plain_nil) hls
        · exact lines_onto ⟨hlf, hcr⟩ hs

theorem flatten_onto (c : Char) (ls : List (List Char)) : (onto c ls).flatten = c :: ls.flatten := by
  cases ls with
  | nil => rfl
  | cons l ls => rfl

theorem flatten_pieces (s : List Char) : (pieces s).flatten = s := by
  induction s with
  | nil => rfl
  | cons c s ih =>
      rw [pieces]
      split
      · rw [List.flatten_cons, ih]
        rfl
      · rw [flatten_onto, ih]

/-- Up to its first line feed a text is one line. -/
theorem pieces_append_lf {s : List Char} (hs : ∀ c ∈ s, c ≠ '\n') (r : List Char) :
    pieces (s ++ '\n' :: r) = (s ++ ['\n']) :: pieces r := by
  induction s with
  | nil => rfl
  | cons c s ih =>
      rw [List.cons_append, pieces, if_neg (hs c List.mem_cons_self),
        ih fun d hd => hs d (List.mem_cons_of_mem _ hd)]
      rfl

theorem pieces_of_no_lf {s : List Char} (hs : ∀ c ∈ s, c ≠ '\n') (hne : s ≠ []) : pieces s = [s] := by
  induction s with
  | nil => exact absurd rfl hne
  | cons c s ih =>
      rw [pieces, if_neg (hs c List.mem_cons_self)]
      cases s with
      | nil => rfl
      | cons d s =>
          rw [ih (fun e he => hs e (List.mem_cons_of_mem _ he)) (List.cons_ne_nil _ _)]
          rfl

theorem pieces_flatten {ls : List (List Char)} (h : Lines ls) : pieces ls.flatten = ls := by
  induction h with
  | nil => rfl
  | last hl hne =>
      rw [List.flatten_singleton]
      exact pieces_of_no_lf (fun c hc => (hl c hc).1) hne
  | @cons l ls hl _ ih =>
      rw [List.flatten_cons]
      cases hl with
      | @lf s hs =>
          rw [List.append_assoc, List.singleton_append, pieces_append_lf (fun c hc => (hs c hc).1), ih]
      | @crlf s hs =>
          have hcr : ∀ c ∈ s ++ ['\r'], c ≠ '\n' := by
            intro c hc
            rcases List.mem_append.mp hc with hc | hc
            · exact (hs c hc).1
            · rw [List.mem_singleton.mp hc]
              decide
          have h := pieces_append_lf hcr ls.flatten
          rw [ih] at h
          simpa using h

/-- Lines before others all have their break. -/
theorem Lines.append {a b : List (List Char)} (ha : ∀ l ∈ a, Full l) (hb : Lines b) : Lines (a ++ b) := by
  induction a with
  | nil => exact hb
  | cons l a ih =>
      exact .cons (ha l List.mem_cons_self) (ih fun m hm => ha m (List.mem_cons_of_mem _ hm))

theorem Lines.of_append {a b : List (List Char)} (h : Lines (a ++ b)) :
    Lines b ∧ (b ≠ [] → ∀ l ∈ a, Full l) := by
  induction a with
  | nil => exact ⟨h, fun _ l hl => absurd hl List.not_mem_nil⟩
  | cons l a ih =>
      rw [List.cons_append] at h
      generalize hab : a ++ b = ab at h
      cases h with
      | last _ _ =>
          obtain ⟨ha, hb⟩ := List.append_eq_nil_iff.mp hab
          exact ⟨hb ▸ .nil, fun hne => absurd hb hne⟩
      | cons hl hls =>
          obtain ⟨hb, hfull⟩ := ih (hab ▸ hls)
          exact ⟨hb, fun hne => List.forall_mem_cons.mpr ⟨hl, hfull hne⟩⟩

/-! ### A line without its break -/

/-- The line break a line ends with. -/
def lineEnd (l : List Char) : List Char :=
  if ['\r', '\n'].isSuffixOf l then ['\r', '\n'] else if ['\n'].isSuffixOf l then ['\n'] else []

/-- The line without its break: `replace(/\r?\n$/, '')`. -/
def chomp (l : List Char) : List Char := l.take (l.length - (lineEnd l).length)

theorem lineEnd_crlf (s : List Char) : lineEnd (s ++ ['\r', '\n']) = ['\r', '\n'] := by
  simp [lineEnd]

theorem lineEnd_lf {s : List Char} (hs : Plain s) : lineEnd (s ++ ['\n']) = ['\n'] := by
  have hcr : ¬ ['\r', '\n'] <:+ s ++ ['\n'] := by
    rintro ⟨t, ht⟩
    have ht : t ++ ['\r'] ++ ['\n'] = s ++ ['\n'] := by simpa using ht
    have h : t ++ ['\r'] = s := List.append_cancel_right ht
    exact (hs '\r' (h ▸ List.mem_append_right t List.mem_cons_self)).2 rfl
  simp [lineEnd, hcr]

theorem lineEnd_plain {s : List Char} (hs : Plain s) : lineEnd s = [] := by
  have hlf (t : List Char) : ¬ t ++ ['\n'] <:+ s := by
    rintro ⟨u, hu⟩
    have hmem : '\n' ∈ s := hu ▸ List.mem_append_right u (List.mem_append_right t List.mem_cons_self)
    exact (hs '\n' hmem).1 rfl
  have h₁ := hlf ['\r']
  have h₂ := hlf []
  simp_all [lineEnd]

theorem chomp_append {s e : List Char} (h : lineEnd (s ++ e) = e) : chomp (s ++ e) = s := by
  rw [chomp, h, List.length_append, Nat.add_sub_cancel, List.take_left']
  rfl

theorem chomp_plain {s : List Char} (hs : Plain s) : chomp s = s := by
  have h := chomp_append (s := s) (e := []) (by rw [List.append_nil, lineEnd_plain hs])
  rwa [List.append_nil] at h

/-- A line is its text and its break. -/
theorem Full.cut {l : List Char} (h : Full l) :
    Plain (chomp l) ∧ l = chomp l ++ lineEnd l ∧ (lineEnd l = ['\n'] ∨ lineEnd l = ['\r', '\n']) := by
  cases h with
  | lf hs =>
      rw [chomp_append (lineEnd_lf hs), lineEnd_lf hs]
      exact ⟨hs, rfl, .inl rfl⟩
  | crlf hs =>
      rw [chomp_append (lineEnd_crlf _), lineEnd_crlf]
      exact ⟨hs, rfl, .inr rfl⟩

theorem full_append {s e : List Char} (hs : Plain s) (he : e = ['\n'] ∨ e = ['\r', '\n']) :
    Full (s ++ e) := by
  rcases he with rfl | rfl
  · exact .lf hs
  · exact .crlf hs

theorem lineEnd_append {s e : List Char} (hs : Plain s) (he : e = ['\n'] ∨ e = ['\r', '\n']) :
    lineEnd (s ++ e) = e := by
  rcases he with rfl | rfl
  · exact lineEnd_lf hs
  · exact lineEnd_crlf s

/-- A plain front of a line is in front of its break. -/
theorem full_cut_front {a b : List Char} (ha : Plain a) (h : Full (a ++ b)) :
    ∃ s, Plain s ∧ b = s ++ lineEnd (a ++ b) ∧ chomp (a ++ b) = a ++ s := by
  obtain ⟨hplain, hcut, hbreak⟩ := h.cut
  rcases List.append_eq_append_iff.mp hcut with ⟨s, hs, hb⟩ | ⟨e, he, hend⟩
  · rw [hs] at hplain
    exact ⟨s, (plain_append.mp hplain).2, hb, hs⟩
  · -- otherwise the front would reach into the break
    have hnone : e = [] := by
      cases e with
      | nil => rfl
      | cons c e =>
          have hc := ha c (he ▸ List.mem_append_right _ List.mem_cons_self)
          rw [hend] at hbreak
          rcases hbreak with hbreak | hbreak
          · exact absurd (List.cons.inj hbreak).1 hc.1
          · exact absurd (List.cons.inj hbreak).1 hc.2
    rw [hnone, List.append_nil] at he
    rw [hnone, List.nil_append] at hend
    exact ⟨[], plain_nil, hend.symm, he.symm.trans (List.append_nil a).symm⟩

/-- Text put in behind a plain front. -/
theorem full_insert {a b t : List Char} (ha : Plain a) (ht : Plain t) (h : Full (a ++ b)) :
    Full (a ++ t ++ b) ∧ lineEnd (a ++ t ++ b) = lineEnd (a ++ b) := by
  obtain ⟨s, hs, hb, -⟩ := full_cut_front ha h
  have hbreak := h.cut.2.2
  have hplain : Plain (a ++ t ++ s) := plain_append.mpr ⟨plain_append.mpr ⟨ha, ht⟩, hs⟩
  rw [hb, ← List.append_assoc, ← hb]
  exact ⟨full_append hplain hbreak, lineEnd_append hplain hbreak⟩

theorem chomp_insert {a b t : List Char} (ha : Plain a) (ht : Plain t)
    (h : Full (a ++ b) ∨ Plain (a ++ b)) :
    ∃ r, chomp (a ++ b) = a ++ r ∧ chomp (a ++ t ++ b) = a ++ t ++ r := by
  rcases h with h | h
  · obtain ⟨r, -, hb, hr⟩ := full_cut_front ha h
    obtain ⟨hfull, hend⟩ := full_insert ha ht h
    obtain ⟨r', -, hb', hr'⟩ := full_cut_front (plain_append.mpr ⟨ha, ht⟩) hfull
    rw [hend] at hb'
    obtain rfl : r = r' := List.append_cancel_right (hb.symm.trans hb')
    exact ⟨r, hr, hr'⟩
  · obtain ⟨-, hb⟩ := plain_append.mp h
    exact ⟨b, chomp_plain h, chomp_plain (plain_append.mpr ⟨plain_append.mpr ⟨ha, ht⟩, hb⟩)⟩

theorem plain_chomp {l : List Char} (h : Full l ∨ Plain l) : Plain (chomp l) := by
  rcases h with h | h
  · exact h.cut.1
  · rwa [chomp_plain h]

theorem Lines.full_or_plain {ls : List (List Char)} (h : Lines ls) : ∀ l ∈ ls, Full l ∨ Plain l := by
  induction h with
  | nil => exact fun l hl => absurd hl List.not_mem_nil
  | last hl _ =>
      intro l hmem
      rw [List.mem_singleton.mp hmem]
      exact .inr hl
  | cons hl _ ih => exact List.forall_mem_cons.mpr ⟨.inl hl, ih⟩

theorem lines_of_full {ls : List (List Char)} (h : ∀ l ∈ ls, Full l) : Lines ls := by
  have happ := Lines.append h .nil
  rwa [List.append_nil] at happ

/-! ### Properties -/

/-- Does a line go on with the one before: `/^[ \t]/`. -/
def continues : List Char → Bool
  | c :: _ => c = ' ' || c = '\t'
  | [] => false

/-- A property as it is folded: its first line and the lines that go on with it. -/
structure Folded where
  first : List Char
  more : List (List Char)
  deriving DecidableEq

def Folded.lines (g : Folded) : List (List Char) := g.first :: g.more

/-- The unfolded text of a property. -/
def Folded.logical (g : Folded) : List Char :=
  chomp g.first ++ (g.more.map fun l => (chomp l).drop 1).flatten

/-- The last line of a property. -/
def Folded.last (g : Folded) : List Char := g.more.getLast?.getD g.first

theorem Folded.last_mem (g : Folded) : g.last ∈ g.lines := by
  rw [Folded.last]
  cases hlast : g.more.getLast? with
  | none => exact List.mem_cons_self
  | some l => exact List.mem_cons_of_mem _ (List.mem_of_getLast? hlast)

/-- An unfolded property is one line. -/
theorem plain_logical {g : Folded} (h : Lines g.lines) : Plain g.logical := by
  have hall := h.full_or_plain
  refine plain_append.mpr ⟨plain_chomp (hall g.first List.mem_cons_self), ?_⟩
  intro c hc
  obtain ⟨t, ht, hct⟩ := List.mem_flatten.mp hc
  obtain ⟨l, hl, rfl⟩ := List.mem_map.mp ht
  exact plain_chomp (hall l (List.mem_cons_of_mem _ hl)) c (List.mem_of_mem_drop hct)

/-- The continuation lines at the front, and the properties behind them. -/
def gather : List (List Char) → List (List Char) × List Folded
  | [] => ([], [])
  | l :: ls =>
    if continues l then (l :: (gather ls).1, (gather ls).2)
    else ([], ⟨l, (gather ls).1⟩ :: (gather ls).2)

def fold : List (List Char) → List Folded
  | [] => []
  | l :: ls => ⟨l, (gather ls).1⟩ :: (gather ls).2

/-- The properties of a text. -/
def properties (s : List Char) : List Folded := fold (pieces s)

def text (gs : List Folded) : List Char := (gs.flatMap Folded.lines).flatten

/-- Properties that are told apart in their text. -/
structure IsFolding (gs : List Folded) : Prop where
  more : ∀ g ∈ gs, ∀ l ∈ g.more, continues l = true
  first : ∀ g ∈ gs.tail, continues g.first = false
  lines : Lines (gs.flatMap Folded.lines)

theorem lines_of_mem {gs : List Folded} (h : Lines (gs.flatMap Folded.lines)) :
    ∀ g ∈ gs, Lines g.lines := by
  induction gs with
  | nil => exact fun g hg => absurd hg List.not_mem_nil
  | cons d gs ih =>
      rw [List.flatMap_cons] at h
      obtain ⟨hbehind, hfull⟩ := h.of_append
      refine List.forall_mem_cons.mpr ⟨?_, ih hbehind⟩
      cases gs with
      | nil => simpa using h
      | cons e gs => exact lines_of_full (hfull (List.cons_ne_nil _ _))

theorem lines_gather (ls : List (List Char)) :
    (gather ls).1 ++ (gather ls).2.flatMap Folded.lines = ls := by
  induction ls with
  | nil => rfl
  | cons l ls ih =>
      rw [gather]
      split
      · exact congrArg (l :: ·) ih
      · show l :: ((gather ls).1 ++ (gather ls).2.flatMap Folded.lines) = l :: ls
        rw [ih]

theorem lines_fold (ls : List (List Char)) : (fold ls).flatMap Folded.lines = ls := by
  cases ls with
  | nil => rfl
  | cons l ls => exact congrArg (l :: ·) (lines_gather ls)

theorem gather_shape (ls : List (List Char)) :
    (∀ l ∈ (gather ls).1, continues l = true) ∧
      ∀ g ∈ (gather ls).2, continues g.first = false ∧ ∀ l ∈ g.more, continues l = true := by
  induction ls with
  | nil => exact ⟨fun l hl => absurd hl List.not_mem_nil, fun g hg => absurd hg List.not_mem_nil⟩
  | cons l ls ih =>
      rw [gather]
      split
      · next hl => exact ⟨List.forall_mem_cons.mpr ⟨hl, ih.1⟩, ih.2⟩
      · next hl =>
        refine ⟨fun m hm => absurd hm List.not_mem_nil, List.forall_mem_cons.mpr ⟨?_, ih.2⟩⟩
        exact ⟨Bool.eq_false_iff.mpr hl, ih.1⟩

theorem text_properties (s : List Char) : text (properties s) = s := by
  rw [text, properties, lines_fold, flatten_pieces]

/-- **A text of CRLF or LF lines is a folding.** -/
theorem isFolding_properties {s : List Char} (h : LineEnds s) : IsFolding (properties s) := by
  have hlines : Lines ((properties s).flatMap Folded.lines) := by
    rw [properties, lines_fold]
    exact lines_pieces h
  rw [properties] at hlines ⊢
  cases hp : pieces s with
  | nil =>
      exact ⟨fun g hg => absurd hg List.not_mem_nil, fun g hg => absurd hg List.not_mem_nil, .nil⟩
  | cons l ls =>
      rw [hp] at hlines
      have hshape := gather_shape ls
      exact ⟨List.forall_mem_cons.mpr ⟨hshape.1, fun g hg => (hshape.2 g hg).2⟩,
        fun g hg => (hshape.2 g hg).1, hlines⟩

theorem gather_append {a : List (List Char)} (ha : ∀ l ∈ a, continues l = true)
    (gs : List Folded) (hmore : ∀ g ∈ gs, ∀ l ∈ g.more, continues l = true)
    (hfirst : ∀ g ∈ gs, continues g.first = false) :
    gather (a ++ gs.flatMap Folded.lines) = (a, gs) := by
  induction gs generalizing a with
  | nil =>
      induction a with
      | nil => rfl
      | cons l a iha =>
          rw [List.cons_append, gather, if_pos (ha l List.mem_cons_self),
            iha fun m hm => ha m (List.mem_cons_of_mem _ hm)]
  | cons g gs ih =>
      induction a with
      | nil =>
          have hrest := ih (hmore g List.mem_cons_self)
            (fun d hd => hmore d (List.mem_cons_of_mem _ hd))
            (fun d hd => hfirst d (List.mem_cons_of_mem _ hd))
          show gather (g.first :: (g.more ++ gs.flatMap Folded.lines)) = _
          rw [gather, if_neg (by rw [hfirst g List.mem_cons_self]; decide), hrest]
      | cons l a iha =>
          rw [List.cons_append, gather, if_pos (ha l List.mem_cons_self),
            iha fun m hm => ha m (List.mem_cons_of_mem _ hm)]

/-- **A folding is read back from its text.** -/
theorem properties_text {gs : List Folded} (h : IsFolding gs) : properties (text gs) = gs := by
  rw [properties, text, pieces_flatten h.lines]
  cases gs with
  | nil => rfl
  | cons g gs =>
      show fold (g.first :: (g.more ++ gs.flatMap Folded.lines)) = g :: gs
      rw [fold, gather_append (h.more g List.mem_cons_self) gs
        (fun d hd => h.more d (List.mem_cons_of_mem _ hd)) h.first]

/-! ### Rewriting property by property -/

/-- The lines of the property stay in shape. -/
structure Keeps (f : Folded → Folded) (g : Folded) : Prop where
  more : ∀ l ∈ (f g).more, continues l = true
  first : continues g.first = false → continues (f g).first = false
  full : (∀ l ∈ g.lines, Full l) → ∀ l ∈ (f g).lines, Full l
  lines : Lines (f g).lines

theorem lines_map {f : Folded → Folded} {gs : List Folded} (h : ∀ g ∈ gs, Keeps f g)
    (hlines : Lines (gs.flatMap Folded.lines)) : Lines ((gs.map f).flatMap Folded.lines) := by
  induction gs with
  | nil => exact .nil
  | cons g gs ih =>
      have hg := h g List.mem_cons_self
      have hrest := ih fun d hd => h d (List.mem_cons_of_mem _ hd)
      rw [List.flatMap_cons] at hlines
      rw [List.map_cons, List.flatMap_cons]
      cases gs with
      | nil =>
          rw [List.map_nil, List.flatMap_nil, List.append_nil]
          exact hg.lines
      | cons d gs =>
          obtain ⟨hbehind, hfull⟩ := hlines.of_append
          exact .append (hg.full (hfull (List.cons_ne_nil _ _))) (hrest hbehind)

theorem IsFolding.map {f : Folded → Folded} {gs : List Folded} (h : IsFolding gs)
    (hf : ∀ g ∈ gs, Keeps f g) : IsFolding (gs.map f) where
  more := by
    rw [List.forall_mem_map]
    exact fun g hg => (hf g hg).more
  first := by
    rw [← List.map_tail, List.forall_mem_map]
    exact fun g hg => (hf g (List.mem_of_mem_tail hg)).first (h.first g hg)
  lines := lines_map hf h.lines

end FoldedText
