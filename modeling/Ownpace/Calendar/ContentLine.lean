/-
Ownpace/Calendar/ContentLine.lean

A content line is a name, parameters behind semicolons and, behind the first
colon outside quotes, a value.

A search that knows none of this still stays within one of these parts, when no
character of the text it looks for is a semicolon or a colon: `search_separated`.
-/
import Ownpace.Mail.Header

namespace Ownpace.Calendar

open Mail

/-! ### Searching without regard to case -/

/-- Equal but for the case of their letters. -/
def SameText (s t : List Char) : Prop := s.map Char.toLower = t.map Char.toLower

instance : DecidableRel SameText := fun s t => inferInstanceAs (Decidable (s.map Char.toLower = t.map Char.toLower))

/-- The first occurrence of a text: what is before it, and what is behind it. -/
def search (p : List Char) : List Char → Option (List Char × List Char)
  | [] => (afterName p []).map fun v => ([], v)
  | c :: s =>
    ((afterName p (c :: s)).map fun v => ([], v)).or ((search p s).map fun w => (c :: w.1, w.2))

/-- `/p/i.test(s)` -/
def occurs (p s : List Char) : Bool := (search p s).isSome

/-- `s.replace(/p/i, new)` -/
def replaceFirst (p new s : List Char) : List Char :=
  match search p s with
  | some w => w.1 ++ new ++ w.2
  | none => s

/-- The pattern has no letter that could match this character. -/
def Separates (p : List Char) (x : Char) : Prop := ∀ n ∈ p, n.toLower ≠ x.toLower

variable {p new s : List Char} {x : Char}

theorem afterName_eq_some {n s v : List Char} (h : afterName n s = some v) :
    ∃ m, s = m ++ v ∧ SameText m n := by
  induction n generalizing s with
  | nil => exact ⟨[], Option.some.inj h, rfl⟩
  | cons a n ih =>
      cases s with
      | nil => cases h
      | cons c s =>
          rw [afterName] at h
          split at h
          · next heq =>
            obtain ⟨m, rfl, hm⟩ := ih h
            refine ⟨c :: m, rfl, ?_⟩
            show c.toLower :: m.map Char.toLower = a.toLower :: n.map Char.toLower
            rw [heq, hm]
          · cases h

theorem afterName_append {m n : List Char} (h : SameText m n) (v : List Char) :
    afterName n (m ++ v) = some v := by
  induction n generalizing m with
  | nil =>
      rw [List.map_eq_nil_iff.mp h]
      rfl
  | cons a n ih =>
      cases m with
      | nil => cases h
      | cons c m =>
          obtain ⟨hc, hm⟩ := List.cons.inj h
          rw [List.cons_append, afterName, if_pos hc.symm]
          exact ih hm

theorem afterName_separated (hx : Separates p x) (a b : List Char) :
    afterName p (a ++ x :: b) = (afterName p a).map (· ++ x :: b) := by
  induction p generalizing a with
  | nil => rfl
  | cons n p ih =>
      obtain ⟨hn, hp⟩ := List.forall_mem_cons.mp hx
      cases a with
      | nil =>
          show (if n.toLower = x.toLower then afterName p b else none) = none
          rw [if_neg hn]
      | cons c a =>
          show (if n.toLower = c.toLower then afterName p (a ++ x :: b) else none) =
            (if n.toLower = c.toLower then afterName p a else none).map (· ++ x :: b)
          split
          · exact ih hp a
          · rfl

/-- **The first occurrence does not reach over a separator.** -/
theorem search_separated (hx : Separates p x) (a b : List Char) :
    search p (a ++ x :: b) = ((search p a).map fun w => (w.1, w.2 ++ x :: b)).or
      ((search p b).map fun w => (a ++ x :: w.1, w.2)) := by
  induction a with
  | nil =>
      have hnil := afterName_separated hx [] b
      rw [List.nil_append] at hnil ⊢
      show ((afterName p (x :: b)).map fun v => ([], v)).or ((search p b).map fun w => (x :: w.1, w.2)) = _
      rw [hnil, search]
      cases afterName p [] <;> rfl
  | cons c a ih =>
      have hcons := afterName_separated hx (c :: a) b
      rw [List.cons_append] at hcons ⊢
      show ((afterName p (c :: (a ++ x :: b))).map fun v => ([], v)).or
        ((search p (a ++ x :: b)).map fun w => (c :: w.1, w.2)) = _
      rw [hcons, ih, search]
      cases afterName p (c :: a) <;> cases search p a <;> cases search p b <;> rfl

theorem occurs_separated (hx : Separates p x) (a b : List Char) :
    occurs p (a ++ x :: b) = (occurs p a || occurs p b) := by
  rw [occurs, search_separated hx, occurs, occurs]
  cases search p a <;> cases search p b <;> rfl

theorem replaceFirst_separated_left (hx : Separates p x) {a : List Char} (b : List Char)
    (h : occurs p a = true) : replaceFirst p new (a ++ x :: b) = replaceFirst p new a ++ x :: b := by
  obtain ⟨w, hw⟩ := Option.isSome_iff_exists.mp h
  rw [replaceFirst, search_separated hx, replaceFirst, hw]
  simp

theorem replaceFirst_separated_right (hx : Separates p x) {a : List Char} (b : List Char)
    (h : occurs p a = false) : replaceFirst p new (a ++ x :: b) = a ++ x :: replaceFirst p new b := by
  have hnone : search p a = none := by simpa [occurs] using h
  rw [replaceFirst, search_separated hx, replaceFirst, hnone]
  cases search p b with
  | none => rfl
  | some w => simp

theorem search_eq_some {w : List Char × List Char} (h : search p s = some w) :
    ∃ m, s = w.1 ++ m ++ w.2 ∧ SameText m p := by
  induction s generalizing w with
  | nil =>
      obtain ⟨v, hv, rfl⟩ := Option.map_eq_some_iff.mp h
      obtain ⟨m, hm, hsame⟩ := afterName_eq_some hv
      exact ⟨m, by simpa using hm, hsame⟩
  | cons c s ih =>
      rw [search, Option.or_eq_some_iff] at h
      rcases h with h | ⟨-, h⟩
      · obtain ⟨v, hv, rfl⟩ := Option.map_eq_some_iff.mp h
        obtain ⟨m, hm, hsame⟩ := afterName_eq_some hv
        exact ⟨m, by simpa using hm, hsame⟩
      · obtain ⟨u, hu, rfl⟩ := Option.map_eq_some_iff.mp h
        obtain ⟨m, hm, hsame⟩ := ih hu
        exact ⟨m, by rw [hm, List.cons_append, List.cons_append], hsame⟩

/-- A replacement that reads otherwise is seen. -/
theorem replaceFirst_ne (hnew : ¬ SameText new p) (h : occurs p s = true) :
    replaceFirst p new s ≠ s := by
  obtain ⟨w, hw⟩ := Option.isSome_iff_exists.mp h
  obtain ⟨m, hm, hsame⟩ := search_eq_some hw
  intro heq
  rw [replaceFirst, hw] at heq
  have hcut : w.1 ++ (new ++ w.2) = w.1 ++ (m ++ w.2) := by simpa using heq.trans hm
  have hmid : new = m := List.append_cancel_right (List.append_cancel_left hcut)
  exact hnew (hmid ▸ hsame)

theorem occurs_of_afterName (h : (afterName p s).isSome) : occurs p s = true := by
  obtain ⟨v, hv⟩ := Option.isSome_iff_exists.mp h
  cases s with
  | nil => rw [occurs, search, hv]; rfl
  | cons c s => rw [occurs, search, hv]; rfl

theorem afterName_append_name (a b s : List Char) :
    afterName (a ++ b) s = (afterName a s).bind (afterName b) := by
  induction a generalizing s with
  | nil => rfl
  | cons n a ih =>
      cases s with
      | nil => rfl
      | cons c s =>
          show (if n.toLower = c.toLower then afterName (a ++ b) s else none) =
            (if n.toLower = c.toLower then afterName a s else none).bind (afterName b)
          split
          · exact ih s
          · rfl

/-- A longer text occurs only where its front does. -/
theorem occurs_of_append {a b : List Char} (h : occurs (a ++ b) s = true) : occurs a s = true := by
  have hfront {t : List Char} (ht : (afterName (a ++ b) t).isSome) : (afterName a t).isSome := by
    rw [afterName_append_name] at ht
    exact Option.isSome_of_isSome_bind ht
  induction s with
  | nil => exact occurs_of_afterName (hfront (by simpa [occurs, search] using h))
  | cons c s ih =>
      rw [occurs, search, Option.isSome_or, Option.isSome_map, Option.isSome_map,
        Bool.or_eq_true] at h
      rcases h with h | h
      · exact occurs_of_afterName (hfront h)
      · have hs := ih h
        rw [occurs] at hs
        simp [occurs, search, hs]

/-! ### The parts of a content line -/

structure ContentLine where
  name : List Char
  params : List (List Char)
  value : List Char
  deriving DecidableEq

/-- The parameters as they stand behind a part, and the value. -/
def written : List Char → List (List Char) → List Char → List Char
  | part, [], value => part ++ ':' :: value
  | part, q :: ps, value => part ++ ';' :: written q ps value

def ContentLine.text (c : ContentLine) : List Char := written c.name c.params c.value

/-- The quotes of a part are closed, and no separator stands outside them. -/
def closes (quoted : Bool) : List Char → Bool
  | [] => !quoted
  | c :: s =>
    if c = '"' then closes (!quoted) s
    else if !quoted && (c = ';' || c = ':') then false
    else closes quoted s

/-- Text put in front of the first part. -/
def ContentLine.into (s : List Char) (c : ContentLine) : ContentLine := { c with name := s ++ c.name }

/-- A line read up to the first colon outside quotes. -/
def readLine (quoted : Bool) : List Char → Option ContentLine
  | [] => none
  | c :: s =>
    if c = '"' then (readLine (!quoted) s).map (·.into [c])
    else if !quoted && c = ';' then (readLine false s).map fun l => ⟨[], l.name :: l.params, l.value⟩
    else if !quoted && c = ':' then some ⟨[], [], s⟩
    else (readLine quoted s).map (·.into [c])

def contentLine (s : List Char) : Option ContentLine := readLine false s

theorem ContentLine.into_into (s t : List Char) (c : ContentLine) :
    (c.into t).into s = c.into (s ++ t) := by
  simp [ContentLine.into]

theorem readLine_append {quoted : Bool} {a : List Char} (h : closes quoted a = true) (s : List Char) :
    readLine quoted (a ++ s) = (readLine false s).map (·.into a) := by
  induction a generalizing quoted with
  | nil =>
      cases quoted with
      | true => cases h
      | false =>
          show readLine false s = (readLine false s).map id
          rw [Option.map_id_fun, id]
  | cons c a ih =>
      have hstep {q : Bool} (hq : closes q a = true) :
          (readLine q (a ++ s)).map (·.into [c]) = (readLine false s).map (·.into (c :: a)) := by
        rw [ih hq, Option.map_map]
        apply congrArg fun f => Option.map f _
        funext l
        exact l.into_into [c] a
      rw [closes] at h
      rw [List.cons_append, readLine]
      split at h
      · next hc => rw [if_pos hc, hstep h]
      · next hc =>
        split at h
        · cases h
        · next hsep =>
          have hsemi : ¬ (!quoted && decide (c = ';')) = true := fun hs => hsep (by simp_all)
          have hcolon : ¬ (!quoted && decide (c = ':')) = true := fun hs => hsep (by simp_all)
          rw [if_neg hc, if_neg hsemi, if_neg hcolon, hstep h]

theorem readLine_written {part : List Char} {ps : List (List Char)} {v : List Char}
    (hpart : closes false part = true) (hps : ∀ q ∈ ps, closes false q = true) :
    readLine false (written part ps v) = some ⟨part, ps, v⟩ := by
  induction ps generalizing part with
  | nil =>
      show readLine false (part ++ ':' :: v) = _
      rw [readLine_append hpart]
      simp [readLine, ContentLine.into]
  | cons q ps ih =>
      obtain ⟨hq, hps⟩ := List.forall_mem_cons.mp hps
      show readLine false (part ++ ';' :: written q ps v) = _
      rw [readLine_append hpart]
      simp [readLine, ContentLine.into, ih hq hps]

/-- The parts of the line are closed. -/
structure ContentLine.Closed (c : ContentLine) : Prop where
  name : closes false c.name = true
  params : ∀ q ∈ c.params, closes false q = true

theorem contentLine_text {c : ContentLine} (h : c.Closed) : contentLine c.text = some c :=
  readLine_written h.name h.params

theorem written_cons (x : Char) (part : List Char) (ps : List (List Char)) (v : List Char) :
    written (x :: part) ps v = x :: written part ps v := by
  cases ps <;> rfl

theorem readLine_eq_some {quoted : Bool} {s : List Char} {c : ContentLine}
    (h : readLine quoted s = some c) :
    s = c.text ∧ closes quoted c.name = true ∧ ∀ q ∈ c.params, closes false q = true := by
  induction s generalizing quoted c with
  | nil => cases h
  | cons x s ih =>
      rw [readLine] at h
      split at h
      · next hx =>
        obtain ⟨l, hl, rfl⟩ := Option.map_eq_some_iff.mp h
        obtain ⟨hs, hname, hparams⟩ := ih hl
        refine ⟨?_, ?_, hparams⟩
        · show x :: s = written (x :: l.name) l.params l.value
          rw [written_cons, hs]
          rfl
        · show closes quoted (x :: l.name) = true
          rw [closes, if_pos hx, hname]
      · next hx =>
        split at h
        · next hsemi =>
          rw [Bool.and_eq_true, Bool.not_eq_true', decide_eq_true_eq] at hsemi
          obtain ⟨l, hl, rfl⟩ := Option.map_eq_some_iff.mp h
          obtain ⟨hs, hname, hparams⟩ := ih hl
          refine ⟨?_, by rw [hsemi.1]; rfl, List.forall_mem_cons.mpr ⟨hname, hparams⟩⟩
          show x :: s = ';' :: written l.name l.params l.value
          rw [hsemi.2, hs]
          rfl
        · next hsemi =>
          split at h
          · next hcolon =>
            rw [Bool.and_eq_true, Bool.not_eq_true', decide_eq_true_eq] at hcolon
            obtain rfl := Option.some.inj h
            rw [hcolon.1, hcolon.2]
            exact ⟨rfl, rfl, fun q hq => absurd hq List.not_mem_nil⟩
          · next hcolon =>
            obtain ⟨l, hl, rfl⟩ := Option.map_eq_some_iff.mp h
            obtain ⟨hs, hname, hparams⟩ := ih hl
            refine ⟨?_, ?_, hparams⟩
            · show x :: s = written (x :: l.name) l.params l.value
              rw [written_cons, hs]
              rfl
            · show closes quoted (x :: l.name) = true
              rw [closes, if_neg hx, if_neg, hname]
              intro hsep
              rw [Bool.and_eq_true, Bool.or_eq_true] at hsep
              rcases hsep with ⟨hq, hs | hs⟩
              · exact hsemi (by rw [hq, hs]; rfl)
              · exact hcolon (by rw [hq, hs]; rfl)

theorem contentLine_eq_some {s : List Char} {c : ContentLine} :
    contentLine s = some c ↔ s = c.text ∧ c.Closed := by
  constructor
  · intro h
    obtain ⟨hs, hname, hparams⟩ := readLine_eq_some h
    exact ⟨hs, hname, hparams⟩
  · rintro ⟨rfl, hc⟩
    exact contentLine_text hc

/-! ### The name of a line -/

/-- A line up to its first separator. -/
def propertyName (s : List Char) : List Char := s.takeWhile fun c => c ≠ ';' && c ≠ ':'

/-- No separator and no quote in it. -/
def IsName (n : List Char) : Prop := ∀ c ∈ n, c ≠ ';' ∧ c ≠ ':' ∧ c ≠ '"'

theorem closes_of_isName {n : List Char} (h : IsName n) : closes false n = true := by
  induction n with
  | nil => rfl
  | cons c n ih =>
      obtain ⟨⟨hsemi, hcolon, hquote⟩, hn⟩ := List.forall_mem_cons.mp h
      rw [closes, if_neg hquote, if_neg (by simp [hsemi, hcolon])]
      exact ih hn

theorem propertyName_append {n : List Char} (h : IsName n) {r : List Char}
    (hr : ∀ c ∈ r.head?, c = ';' ∨ c = ':') : propertyName (n ++ r) = n := by
  induction n with
  | nil =>
      cases r with
      | nil => rfl
      | cons c r =>
          rcases hr c rfl with rfl | rfl
          · rfl
          · rfl
  | cons c n ih =>
      obtain ⟨⟨hsemi, hcolon, -⟩, hn⟩ := List.forall_mem_cons.mp h
      have hcons := ih hn
      rw [propertyName] at hcons ⊢
      rw [List.cons_append, List.takeWhile_cons_of_pos (by simp [hsemi, hcolon]), hcons]

/-- The name of a line that is read is its first part. -/
theorem name_eq_propertyName {s : List Char} {c : ContentLine} (h : contentLine s = some c)
    (hname : IsName (propertyName s)) : c.name = propertyName s := by
  have hcut : propertyName s ++ s.dropWhile (fun c => c ≠ ';' && c ≠ ':') = s :=
    List.takeWhile_append_dropWhile
  have hread := readLine_append (closes_of_isName hname) (s.dropWhile fun c => c ≠ ';' && c ≠ ':')
  rw [hcut] at hread
  rw [contentLine, hread] at h
  obtain ⟨l, hl, rfl⟩ := Option.map_eq_some_iff.mp h
  have hend : l.name = [] := by
    cases hrest : s.dropWhile fun c => c ≠ ';' && c ≠ ':' with
    | nil =>
        rw [hrest] at hl
        cases hl
    | cons x r =>
        have hx := List.head?_dropWhile_not (fun c : Char => c ≠ ';' && c ≠ ':') s
        rw [hrest] at hx hl
        have hsep : x = ';' ∨ x = ':' := by
          by_contra hne
          rw [not_or] at hne
          simp [hne.1, hne.2] at hx
        rcases hsep with rfl | rfl
        · obtain ⟨k, -, rfl⟩ := Option.map_eq_some_iff.mp hl
          rfl
        · obtain rfl := Option.some.inj hl
          rfl
  show propertyName s ++ l.name = propertyName s
  rw [hend, List.append_nil]

end Ownpace.Calendar
