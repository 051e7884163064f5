/-
Ownpace/Format/Words.lean

The words of a sequence: its longest runs of the elements a predicate picks.

Squeezing every other run to one separator and stripping separators off the ends leaves
the words, joined (`strip_squeeze`), and from these the words can be read back
(`joined_inj`).
-/
import Mathlib.Data.List.DropRight

namespace Ownpace.Words

variable {α : Type} (p : α → Bool)

def words (s : List α) : List (List α) := (s.splitOnP (!p ·)).filter (!·.isEmpty)

/-- Words with a separator between them. -/
def joined (sep : α) (ws : List (List α)) : List α := [sep].intercalate ws

/-- One separator for every run of other elements; behind one, for none. -/
def squeeze (sep : α) : Bool → List α → List α
  | _, [] => []
  | behind, a :: s =>
    if p a then a :: squeeze sep false s
    else if behind then squeeze sep true s
    else sep :: squeeze sep true s

def strip [DecidableEq α] (sep : α) (s : List α) : List α :=
  (s.dropWhile (· = sep)).rdropWhile (· = sep)

/-! ### Words -/

variable {p} {s : List α} {w : List α}

theorem ne_nil_of_mem_words (hw : w ∈ words p s) : w ≠ [] := by
  have hlong := (List.mem_filter.mp hw).2
  simpa using hlong

theorem mem_splitOnP (hw : w ∈ s.splitOnP (!p ·)) : ∀ a ∈ w, p a = true := by
  induction s generalizing w with
  | nil =>
      rw [List.splitOnP_nil, List.mem_singleton] at hw
      subst hw
      exact fun a ha => absurd ha List.not_mem_nil
  | cons b s ih =>
      rw [List.splitOnP_cons_eq_if_modifyHead] at hw
      split_ifs at hw with hb
      · obtain rfl | hw := List.mem_cons.mp hw
        · exact fun a ha => absurd ha List.not_mem_nil
        · exact ih hw
      · obtain ⟨h, t, hs⟩ := List.exists_cons_of_ne_nil (List.splitOnP_ne_nil (!p ·) s)
        rw [hs, List.modifyHead_cons, List.mem_cons] at hw
        rw [hs] at ih
        obtain rfl | hw := hw
        · have hpb : p b = true := by simpa using hb
          exact List.forall_mem_cons.mpr ⟨hpb, ih List.mem_cons_self⟩
        · exact ih (List.mem_cons_of_mem _ hw)

theorem of_mem_words (hw : w ∈ words p s) : ∀ a ∈ w, p a = true :=
  mem_splitOnP (List.mem_filter.mp hw).1

/-! ### Joining -/

variable {sep : α} {ws vs : List (List α)}

theorem joined_cons (w : List α) (ws : List (List α)) :
    joined sep (w :: ws) = w ++ ws.flatMap (sep :: ·) := by
  induction ws generalizing w with
  | nil => simp [joined]
  | cons v ws ih =>
      have hrest := ih v
      simp only [joined] at hrest
      simp [joined, hrest]

theorem joined_eq_nil_iff (hws : ∀ w ∈ ws, w ≠ []) : joined sep ws = [] ↔ ws = [] := by
  constructor
  · intro h
    cases ws with
    | nil => rfl
    | cons w ws =>
        rw [joined_cons] at h
        exact absurd (List.append_eq_nil_iff.mp h).1 (hws w List.mem_cons_self)
  · rintro rfl
    rfl

/-- Words without the separator are read back from where they are joined. -/
theorem joined_inj [DecidableEq α] (hws : ∀ w ∈ ws, w ≠ [] ∧ sep ∉ w)
    (hvs : ∀ w ∈ vs, w ≠ [] ∧ sep ∉ w) (h : joined sep ws = joined sep vs) : ws = vs := by
  have hnil : joined sep ws = [] ↔ ws = [] := joined_eq_nil_iff fun w hw => (hws w hw).1
  have hnil' : joined sep vs = [] ↔ vs = [] := joined_eq_nil_iff fun w hw => (hvs w hw).1
  by_cases hempty : ws = []
  · rw [hempty, hnil'.mp (h ▸ hnil.mpr hempty)]
  · have hsome : vs ≠ [] := fun hv => hempty (hnil.mp (h.trans (hnil'.mpr hv)))
    have hback := List.splitOn_intercalate sep (fun w hw => (hws w hw).2) hempty
    have hback' := List.splitOn_intercalate sep (fun w hw => (hvs w hw).2) hsome
    rw [← hback, ← hback']
    exact congrArg (List.splitOn sep) h

/-! ### Squeezing and stripping -/

/-- What is squeezed is the words, joined, with a separator behind them where the sequence
goes on; not behind a separator, the first piece comes first, which may be empty. -/
theorem squeeze_eq (sep : α) (s : List α) :
    (∃ rest, (rest = [] ∨ rest = [sep] ∧ words p s ≠ []) ∧
      squeeze p sep true s = joined sep (words p s) ++ rest) ∧
    ∃ first pieces rest, s.splitOnP (!p ·) = first :: pieces ∧ (rest = [] ∨ rest = [sep]) ∧
      squeeze p sep false s =
        first ++ (pieces.filter (!·.isEmpty)).flatMap (sep :: ·) ++ rest := by
  induction s with
  | nil => exact ⟨⟨[], .inl rfl, rfl⟩, [], [], [], rfl, .inl rfl, rfl⟩
  | cons a s ih =>
      obtain ⟨⟨restBehind, hbehind, hsqueeze⟩, first, pieces, rest, hsplit, hrest, hfalse⟩ := ih
      by_cases ha : p a = true
      · -- The element goes in front of the first piece.
        have hpieces : (a :: s).splitOnP (!p ·) = (a :: first) :: pieces := by
          rw [List.splitOnP_cons_eq_if_modifyHead, if_neg (by simp [ha]), hsplit, List.modifyHead_cons]
        have hwords : words p (a :: s) = (a :: first) :: pieces.filter (!·.isEmpty) := by
          rw [words, hpieces, List.filter_cons_of_pos (by simp)]
        refine ⟨⟨rest, ?_, ?_⟩, a :: first, pieces, rest, hpieces, hrest, ?_⟩
        · exact hrest.imp_right fun h => ⟨h, hwords ▸ List.cons_ne_nil _ _⟩
        · rw [squeeze, if_pos ha, hfalse, hwords, joined_cons]
          rfl
        · rw [squeeze, if_pos ha, hfalse]
          rfl
      · have hpieces : (a :: s).splitOnP (!p ·) = [] :: s.splitOnP (!p ·) := by
          rw [List.splitOnP_cons_eq_if_modifyHead, if_pos (by simp [ha])]
        have hwords : words p (a :: s) = words p s := by
          rw [words, hpieces, List.filter_cons_of_neg (by simp)]
          rfl
        refine ⟨⟨restBehind, hwords.symm ▸ hbehind, ?_⟩, ?_⟩
        · rw [squeeze, if_neg ha, if_pos rfl, hsqueeze, hwords]
        · have hopened : squeeze p sep false (a :: s) = sep :: squeeze p sep true s := by
            rw [squeeze, if_neg ha, if_neg Bool.false_ne_true]
          cases hs : words p s with
          | nil =>
              have hnone : restBehind = [] := by
                obtain h | ⟨-, h⟩ := hbehind
                · exact h
                · exact absurd hs h
              refine ⟨[], s.splitOnP (!p ·), [sep], hpieces, .inr rfl, ?_⟩
              rw [hopened, hsqueeze, hnone, show (s.splitOnP (!p ·)).filter (!·.isEmpty) = [] from hs, hs]
              rfl
          | cons w ws =>
              refine ⟨[], s.splitOnP (!p ·), restBehind, hpieces, ?_, ?_⟩
              · exact hbehind.imp_right fun h => h.1
              · rw [hopened, hsqueeze, show (s.splitOnP (!p ·)).filter (!·.isEmpty) = w :: ws from hs,
                  hs, joined_cons, List.flatMap_cons]
                rfl

theorem squeeze_false (sep : α) (s : List α) :
    squeeze p sep false s = squeeze p sep true s ∨
      squeeze p sep false s = sep :: squeeze p sep true s := by
  cases s with
  | nil => exact .inl rfl
  | cons a s =>
      by_cases ha : p a = true
      · left
        rw [squeeze, squeeze, if_pos ha, if_pos ha]
      · right
        rw [squeeze, squeeze, if_neg ha, if_neg ha, if_neg Bool.false_ne_true, if_pos rfl]

/-- What is joined ends in an element of the last word. -/
theorem of_mem_getLast_joined (hne : ∀ w ∈ ws, w ≠ []) (hws : ∀ w ∈ ws, ∀ a ∈ w, p a = true) :
    ∀ a ∈ (joined sep ws).getLast?, p a = true := by
  induction ws with
  | nil => exact fun a ha => absurd ha (by simp [joined])
  | cons w ws ih =>
      have hrest := ih (fun v hv => hne v (List.mem_cons_of_mem _ hv)) fun v hv =>
        hws v (List.mem_cons_of_mem _ hv)
      cases ws with
      | nil =>
          intro a ha
          rw [joined_cons, List.flatMap_nil, List.append_nil] at ha
          exact hws w List.mem_cons_self a (List.mem_of_getLast? ha)
      | cons v ws =>
          have hjoined : joined sep (w :: v :: ws) = w ++ sep :: joined sep (v :: ws) := by
            rw [joined_cons, joined_cons, List.flatMap_cons]
            rfl
          have hlong : joined sep (v :: ws) ≠ [] := fun h =>
            List.cons_ne_nil _ _ ((joined_eq_nil_iff fun u hu =>
              hne u (List.mem_cons_of_mem _ hu)).mp h)
          intro a ha
          rw [hjoined, ← List.singleton_append, List.getLast?_append_of_ne_nil _ (by simp),
            List.getLast?_append_of_ne_nil _ hlong] at ha
          exact hrest a ha

section

variable [DecidableEq α]

theorem dropWhile_joined (hsep : p sep = false) (s rest : List α) (hrest : rest = [] ∨ words p s ≠ []) :
    (joined sep (words p s) ++ rest).dropWhile (· = sep) = joined sep (words p s) ++ rest := by
  cases hs : words p s with
  | nil =>
      obtain rfl | h := hrest
      · rfl
      · exact absurd hs h
  | cons w ws =>
      have hmem : w ∈ words p s := hs ▸ List.mem_cons_self
      obtain ⟨a, w', rfl⟩ := List.exists_cons_of_ne_nil (ne_nil_of_mem_words hmem)
      have ha : a ≠ sep := by
        rintro rfl
        have hpa := of_mem_words hmem a List.mem_cons_self
        exact Bool.false_ne_true (hsep.symm.trans hpa)
      rw [joined_cons, List.cons_append, List.cons_append,
        List.dropWhile_cons_of_neg (by simpa using ha)]

theorem rdropWhile_joined (hsep : p sep = false) (s : List α) :
    (joined sep (words p s)).rdropWhile (· = sep) = joined sep (words p s) := by
  rw [List.rdropWhile_eq_self_iff]
  intro hne hlast
  have hmem : p ((joined sep (words p s)).getLast hne) = true :=
    of_mem_getLast_joined (fun w hw => ne_nil_of_mem_words hw) (fun w hw => of_mem_words hw) _
      (List.getLast_mem_getLast? hne)
  rw [decide_eq_true_eq.mp hlast] at hmem
  exact Bool.false_ne_true (hsep.symm.trans hmem)

theorem strip_squeeze (hsep : p sep = false) (s : List α) :
    strip sep (squeeze p sep false s) = joined sep (words p s) := by
  obtain ⟨⟨rest, hrest, hsqueeze⟩, -⟩ := squeeze_eq (p := p) sep s
  have hfront : (squeeze p sep false s).dropWhile (· = sep) = joined sep (words p s) ++ rest := by
    have hdrop := dropWhile_joined hsep s rest (hrest.imp_right fun h => h.2)
    obtain h | h := squeeze_false (p := p) sep s
    · rw [h, hsqueeze, hdrop]
    · rw [h, hsqueeze, List.dropWhile_cons_of_pos (by simp), hdrop]
  rw [strip, hfront]
  obtain rfl | ⟨rfl, -⟩ := hrest
  · rw [List.append_nil, rdropWhile_joined hsep]
  · rw [List.rdropWhile_concat_pos _ _ _ (by simp), rdropWhile_joined hsep]

end

end Ownpace.Words
