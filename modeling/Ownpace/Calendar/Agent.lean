/-
Ownpace/Calendar/Agent.lean

The `SCHEDULE-AGENT` parameter of a content line, and what the replacement of
`SCHEDULE-AGENT=SERVER` in the text of a line does to its parts.

The text searched for has no separator in it, so its first occurrence is in one
part, and only that part changes (`replaceFirst_written`).  The line says then
what it should exactly if that part was its one `SCHEDULE-AGENT` parameter and
this text was the whole of it (`settled_replaceFirst_iff`).
-/
import Ownpace.Calendar.Scheduling

namespace Ownpace.Calendar

open Mail FoldedText

/-! ### The parameter -/

/-- A parameter of this name. -/
def isAgent (q : List Char) : Bool := (afterName scheduleAgent q).isSome

/-- A parameter's value without its quotes. -/
def unquoted (v : List Char) : List Char :=
  if v.head? = some '"' ∧ v.getLast? = some '"' then v.tail.dropLast else v

/-- The parameter says `CLIENT` or `NONE`. -/
def Settled (q : List Char) : Prop :=
  SameText (unquoted (q.drop scheduleAgent.length)) ['C', 'L', 'I', 'E', 'N', 'T'] ∨
    SameText (unquoted (q.drop scheduleAgent.length)) ['N', 'O', 'N', 'E']

instance : DecidablePred Settled := fun q =>
  inferInstanceAs (Decidable (SameText (unquoted (q.drop scheduleAgent.length)) _ ∨ SameText _ _))

def ContentLine.agents (c : ContentLine) : List (List Char) := c.params.filter isAgent

def ContentLine.others (c : ContentLine) : List (List Char) := c.params.filter fun q => !isAgent q

/-- One `SCHEDULE-AGENT`, and it is `CLIENT` or `NONE`. -/
def ContentLine.Said (c : ContentLine) : Prop := ∃ q, c.agents = [q] ∧ Settled q

/-- The same line, but for a `SCHEDULE-AGENT` that sends nothing. -/
structure Neutral (c c' : ContentLine) : Prop where
  name : c'.name = c.name
  value : c'.value = c.value
  others : c'.others = c.others
  said : c'.Said

variable {p new s part v : List Char} {ps : List (List Char)}

/-! ### Texts that differ in case -/

theorem SameText.length {s t : List Char} (h : SameText s t) : s.length = t.length := by
  have hmap := congrArg List.length h
  rwa [List.length_map, List.length_map] at hmap

theorem SameText.append {s t s' t' : List Char} (h : SameText s s') (h' : SameText t t') :
    SameText (s ++ t) (s' ++ t') := by
  rw [SameText, List.map_append, List.map_append, h, h']

theorem afterName_congr {s t : List Char} (h : SameText s t) :
    (afterName p s).isSome = (afterName p t).isSome := by
  induction p generalizing s t with
  | nil => rfl
  | cons n p ih =>
      cases s with
      | nil =>
          rw [List.map_eq_nil_iff.mp h.symm]
      | cons c s =>
          cases t with
          | nil => cases h
          | cons d t =>
              obtain ⟨hc, hs⟩ := List.cons.inj h
              show (if n.toLower = c.toLower then afterName p s else none).isSome =
                (if n.toLower = d.toLower then afterName p t else none).isSome
              rw [hc]
              split
              · exact ih hs
              · rfl

theorem afterName_take {s t : List Char} (h : p.length ≤ s.length) :
    (afterName p (s ++ t)).isSome = (afterName p s).isSome := by
  induction p generalizing s with
  | nil => rfl
  | cons n p ih =>
      cases s with
      | nil => cases h
      | cons c s =>
          show (if n.toLower = c.toLower then afterName p (s ++ t) else none).isSome =
            (if n.toLower = c.toLower then afterName p s else none).isSome
          split
          · exact ih (Nat.le_of_succ_le_succ h)
          · rfl

theorem occurs_of_front {m : List Char} (u v : List Char) (h : (afterName p (m ++ v)).isSome) :
    occurs p (u ++ m ++ v) = true := by
  rw [List.append_assoc]
  induction u with
  | nil => exact occurs_of_afterName h
  | cons c u ih =>
      obtain ⟨w, hw⟩ := Option.isSome_iff_exists.mp ih
      rw [occurs, List.cons_append, search, hw]
      cases afterName p (c :: (u ++ (m ++ v))) <;> rfl

/-- Text that is one such parameter. -/
theorem replaceFirst_whole (h : SameText s p) : replaceFirst p new s = new := by
  have hafter : afterName p s = some [] := by
    have happ := afterName_append h []
    rwa [List.append_nil] at happ
  have hsearch : search p s = some ([], []) := by
    cases s with
    | nil =>
        rw [search, hafter]
        rfl
    | cons c s =>
        rw [search, hafter]
        rfl
  rw [replaceFirst, hsearch]
  exact List.append_nil new

/-! ### The parts of a line that is searched -/

section Written

variable (hsemi : Separates p ';') (hcolon : Separates p ':')
include hsemi hcolon

theorem occurs_written :
    occurs p (written part ps v) = (occurs p part || (ps.any (occurs p) || occurs p v)) := by
  induction ps generalizing part with
  | nil =>
      show occurs p (part ++ ':' :: v) = _
      rw [occurs_separated hcolon]
      rfl
  | cons q ps ih =>
      show occurs p (part ++ ';' :: written q ps v) = _
      rw [occurs_separated hsemi, ih, List.any_cons, Bool.or_assoc]

/-- **A replacement changes one part**, the first one with an occurrence. -/
theorem replaceFirst_written (new : List Char) (hpart : occurs p part = false)
    (h : occurs p (written part ps v) = true) :
    (∃ ps₁ q ps₂, ps = ps₁ ++ q :: ps₂ ∧ (∀ r ∈ ps₁, occurs p r = false) ∧ occurs p q = true ∧
      replaceFirst p new (written part ps v) = written part (ps₁ ++ replaceFirst p new q :: ps₂) v) ∨
    occurs p v = true ∧
      replaceFirst p new (written part ps v) = written part ps (replaceFirst p new v) := by
  induction ps generalizing part with
  | nil =>
      right
      show occurs p v = true ∧ replaceFirst p new (part ++ ':' :: v) = part ++ ':' :: replaceFirst p new v
      rw [occurs_written hsemi hcolon, hpart] at h
      exact ⟨by simpa using h, replaceFirst_separated_right hcolon v hpart⟩
  | cons q ps ih =>
      have hskip : replaceFirst p new (written part (q :: ps) v) =
          part ++ ';' :: replaceFirst p new (written q ps v) :=
        replaceFirst_separated_right hsemi _ hpart
      cases hq : occurs p q with
      | true =>
          left
          refine ⟨[], q, ps, rfl, fun r hr => absurd hr List.not_mem_nil, hq, ?_⟩
          have hfirst : replaceFirst p new (written q ps v) = written (replaceFirst p new q) ps v := by
            cases ps with
            | nil => exact replaceFirst_separated_left hcolon v hq
            | cons r ps => exact replaceFirst_separated_left hsemi _ hq
          rw [hskip, hfirst]
          rfl
      | false =>
          have hbehind : occurs p (written q ps v) = true := by
            rw [occurs_written hsemi hcolon, hpart, List.any_cons, hq] at h
            rw [occurs_written hsemi hcolon, hq]
            exact h
          rcases ih hq hbehind with ⟨ps₁, r, ps₂, rfl, hps₁, hr, heq⟩ | ⟨hv, heq⟩
          · left
            refine ⟨q :: ps₁, r, ps₂, rfl, List.forall_mem_cons.mpr ⟨hq, hps₁⟩, hr, ?_⟩
            rw [hskip, heq]
            rfl
          · right
            refine ⟨hv, ?_⟩
            rw [hskip, heq]
            rfl

end Written

/-! ### The part that changes -/

theorem closes_congr {b b' : List Char} (h : ∀ quoted, closes quoted b = closes quoted b')
    (a : List Char) (quoted : Bool) : closes quoted (a ++ b) = closes quoted (a ++ b') := by
  induction a generalizing quoted with
  | nil => exact h quoted
  | cons c a ih =>
      rw [List.cons_append, List.cons_append, closes, closes, ih, ih]

theorem closes_isName {n : List Char} (hn : IsName n) (s : List Char) (quoted : Bool) :
    closes quoted (n ++ s) = closes quoted s := by
  induction n with
  | nil => rfl
  | cons c n ih =>
      obtain ⟨⟨hsemi, hcolon, hquote⟩, hn⟩ := List.forall_mem_cons.mp hn
      rw [List.cons_append, closes, if_neg hquote, if_neg (by simp [hsemi, hcolon])]
      exact ih hn

theorem isName_of_sameText {m : List Char} (h : SameText m serverAgent) : IsName m := by
  have hne {x : Char} (hx : Separates serverAgent x) : ∀ c ∈ m, c ≠ x := by
    rintro c hc rfl
    exact not_mem_of_sameText h hx hc
  intro c hc
  exact ⟨hne separates_semicolon.2 c hc, hne separates_colon.2 c hc,
    hne (separates_of_all (by decide)) c hc⟩

theorem isName_clientAgent : IsName clientAgent := by
  intro c hc
  have hall : (clientAgent.all fun c => c ≠ ';' && (c ≠ ':' && c ≠ '"')) = true := by decide
  simpa using List.all_eq_true.mp hall c hc

variable {q : List Char}

/-- What the replacement makes of a part. -/
theorem replaceFirst_server (h : occurs serverAgent q = true) :
    ∃ u m v, q = u ++ m ++ v ∧ SameText m serverAgent ∧
      replaceFirst serverAgent clientAgent q = u ++ clientAgent ++ v := by
  obtain ⟨w, hw⟩ := Option.isSome_iff_exists.mp h
  obtain ⟨m, hm, hsame⟩ := search_eq_some hw
  refine ⟨w.1, m, w.2, hm, hsame, ?_⟩
  rw [replaceFirst, hw]

theorem closes_replaceFirst (h : occurs serverAgent q = true) :
    closes false (replaceFirst serverAgent clientAgent q) = closes false q := by
  obtain ⟨u, m, v, rfl, hm, heq⟩ := replaceFirst_server h
  rw [heq, List.append_assoc, List.append_assoc]
  apply closes_congr
  intro quoted
  rw [closes_isName isName_clientAgent, closes_isName (isName_of_sameText hm)]

theorem isAgent_replaceFirst (h : occurs serverAgent q = true) :
    isAgent (replaceFirst serverAgent clientAgent q) = isAgent q := by
  obtain ⟨u, m, v, rfl, hm, heq⟩ := replaceFirst_server h
  -- up to the value of the parameter nothing has changed
  have hfront (m' : List Char) : isAgent (u ++ (scheduleAgent ++ m') ++ v) =
      isAgent (u ++ scheduleAgent) := by
    have hlength : scheduleAgent.length ≤ (u ++ scheduleAgent).length := by
      rw [List.length_append]
      exact Nat.le_add_left _ _
    rw [← List.append_assoc, List.append_assoc]
    exact afterName_take hlength
  have hsame : isAgent (u ++ m ++ v) = isAgent (u ++ serverAgent ++ v) :=
    afterName_congr ((SameText.append rfl hm).append rfl)
  rw [heq, hsame]
  exact (hfront _).trans (hfront _).symm

theorem settled_length (h : Settled q) : q.length ≤ scheduleAgent.length + 8 := by
  have hunquoted : (unquoted (q.drop scheduleAgent.length)).length ≤ 6 := by
    rcases h with h | h
    · exact h.length.le
    · exact h.length.le.trans (by decide)
  rw [unquoted] at hunquoted
  split at hunquoted
  · rw [List.length_dropLast, List.length_tail, List.length_drop] at hunquoted
    omega
  · rw [List.length_drop] at hunquoted
    omega

theorem settled_clientAgent : Settled clientAgent := by decide

/-- The name of the parameter does not begin one or two characters into it. -/
theorem front_nil {u v : List Char} (hu : u.length ≤ 2) (h : isAgent (u ++ clientAgent ++ v) = true) :
    u = [] := by
  rcases u with - | ⟨a, - | ⟨b, - | ⟨c, u⟩⟩⟩
  · rfl
  · simp [isAgent, afterName, scheduleAgent, clientAgent] at h
  · simp [isAgent, afterName, scheduleAgent, clientAgent] at h
  · simp at hu

theorem back_nil {v : List Char} (h : Settled ([] ++ clientAgent ++ v)) : v = [] := by
  have hvalue : unquoted (([] ++ clientAgent ++ v).drop scheduleAgent.length) =
      ['C', 'L', 'I', 'E', 'N', 'T'] ++ v := by
    show unquoted (['C', 'L', 'I', 'E', 'N', 'T'] ++ v) = _
    rw [unquoted, if_neg]
    simp
  rw [Settled, hvalue] at h
  rcases h with h | h
  · have hlength := h.length
    rw [List.length_append] at hlength
    exact List.length_eq_zero_iff.mp (by simpa using hlength)
  · have hlength := h.length
    rw [List.length_append] at hlength
    simp at hlength
    omega

/-- **When the replacement settles the parameter**: it was that text and no more. -/
theorem settled_replaceFirst_iff (hocc : occurs serverAgent q = true) (hagent : isAgent q = true) :
    Settled (replaceFirst serverAgent clientAgent q) ↔ SameText q serverAgent := by
  constructor
  · intro hsettled
    have hagent' := isAgent_replaceFirst hocc
    obtain ⟨u, m, v, rfl, hm, heq⟩ := replaceFirst_server hocc
    rw [hagent] at hagent'
    rw [heq] at hsettled hagent'
    have hshort : u.length + v.length ≤ 2 := by
      have hle := settled_length hsettled
      have hclient : clientAgent.length = scheduleAgent.length + 6 := rfl
      rw [List.length_append, List.length_append] at hle
      omega
    obtain rfl : u = [] := front_nil (Nat.le_of_add_right_le hshort) hagent'
    obtain rfl : v = [] := back_nil hsettled
    rw [List.nil_append, List.append_nil]
    exact hm
  · intro hsame
    rw [replaceFirst_whole hsame]
    exact settled_clientAgent

/-! ### The line that is rewritten -/

variable {c : ContentLine}

/-- Its one `SCHEDULE-AGENT` says `SERVER`, and nothing else in it does. -/
def ContentLine.SaysServer (c : ContentLine) : Prop :=
  (∃ q, c.agents = [q] ∧ SameText q serverAgent) ∧
    (∀ r ∈ c.others, occurs serverAgent r = false) ∧ occurs serverAgent c.value = false

theorem ContentLine.Closed.withParams (hc : c.Closed) {ps : List (List Char)}
    (hps : ∀ q ∈ ps, closes false q = true) : ({ c with params := ps } : ContentLine).Closed :=
  ⟨hc.name, hps⟩

theorem not_agent_of_not_occurs (h : occurs scheduleAgent q = false) : isAgent q = false := by
  rw [← Bool.not_eq_true] at h ⊢
  exact fun hagent => h (occurs_of_afterName hagent)

theorem filter_split {α : Type} (p : α → Bool) (a b : List α) (x : α) :
    (a ++ x :: b).filter p = a.filter p ++ (if p x = true then [x] else []) ++ b.filter p := by
  rw [List.filter_append, List.filter_cons]
  split <;> simp

theorem clientAgent_not_server : ¬ SameText clientAgent serverAgent := by decide

/-- A replacement within another parameter is seen. -/
theorem not_neutral_of_other {ps₁ ps₂ : List (List Char)} (hps : c.params = ps₁ ++ q :: ps₂)
    (hocc : occurs serverAgent q = true) (hagent : isAgent q = false) :
    ¬ Neutral c { c with params := ps₁ ++ replaceFirst serverAgent clientAgent q :: ps₂ } := by
  intro h
  have hothers := h.others
  rw [ContentLine.others, ContentLine.others, hps, filter_split, filter_split,
    isAgent_replaceFirst hocc, hagent] at hothers
  have hq := List.append_cancel_left (List.append_cancel_right hothers)
  have hsame : replaceFirst serverAgent clientAgent q = q := by simpa using hq
  exact replaceFirst_ne clientAgent_not_server hocc hsame

theorem agents_split {ps₁ ps₂ : List (List Char)} (hagent : isAgent q = true) (r : List Char) :
    (ps₁ ++ q :: ps₂).filter isAgent = [r] ↔ ps₁.filter isAgent = [] ∧ ps₂.filter isAgent = [] ∧ q = r := by
  rw [filter_split, hagent, if_pos rfl]
  constructor
  · intro h
    have hlength := congrArg List.length h
    simp only [List.length_append, List.length_singleton] at hlength
    have h₁ : ps₁.filter isAgent = [] := List.length_eq_zero_iff.mp (by omega)
    have h₂ : ps₂.filter isAgent = [] := List.length_eq_zero_iff.mp (by omega)
    rw [h₁, h₂] at h
    exact ⟨h₁, h₂, by simpa using h⟩
  · rintro ⟨h₁, h₂, rfl⟩
    rw [h₁, h₂]
    rfl

/-- A replacement within a `SCHEDULE-AGENT`. -/
theorem neutral_of_agent_iff {ps₁ ps₂ : List (List Char)} (hps : c.params = ps₁ ++ q :: ps₂)
    (hocc : occurs serverAgent q = true) (hagent : isAgent q = true) :
    Neutral c { c with params := ps₁ ++ replaceFirst serverAgent clientAgent q :: ps₂ } ↔
      ∃ r, c.agents = [r] ∧ SameText r serverAgent := by
  have hagent' := isAgent_replaceFirst hocc
  rw [hagent] at hagent'
  rw [ContentLine.agents, hps]
  simp only [agents_split hagent]
  constructor
  · intro h
    obtain ⟨r, hr, hsettled⟩ := h.said
    rw [ContentLine.agents, agents_split hagent'] at hr
    obtain ⟨h₁, h₂, rfl⟩ := hr
    exact ⟨q, ⟨h₁, h₂, rfl⟩, (settled_replaceFirst_iff hocc hagent).mp hsettled⟩
  · rintro ⟨r, ⟨h₁, h₂, rfl⟩, hsame⟩
    refine ⟨rfl, rfl, ?_, replaceFirst serverAgent clientAgent q, ?_, ?_⟩
    · rw [ContentLine.others, ContentLine.others, hps, filter_split, filter_split, hagent, hagent']
      rfl
    · rw [ContentLine.agents, agents_split hagent']
      exact ⟨h₁, h₂, rfl⟩
    · exact (settled_replaceFirst_iff hocc hagent).mpr hsame

theorem any_eq_false {ps : List (List Char)} :
    ps.any (occurs serverAgent) = false ↔ ∀ r ∈ ps, occurs serverAgent r = false := by
  simp

/-- **When the rewritten line is the same but for its `SCHEDULE-AGENT`**, and
settled. -/
theorem neutral_replaced_iff (hc : c.Closed) (hname : IsScheduling c.name)
    (hocc : occurs serverAgent c.text = true) :
    ((∃ c', contentLine (replaceFirst serverAgent clientAgent c.text) = some c' ∧ Neutral c c') ∧
        occurs serverAgent (replaceFirst serverAgent clientAgent c.text) = false) ↔ c.SaysServer := by
  have hsemi := separates_semicolon.2
  have hcolon := separates_colon.2
  have hnot := hname.not_occurs_server
  rcases replaceFirst_written hsemi hcolon clientAgent hnot hocc with
    ⟨ps₁, q, ps₂, hps, hps₁, hq, heq⟩ | ⟨hv, heq⟩
  · have hclosed : ({ c with params := ps₁ ++ replaceFirst serverAgent clientAgent q :: ps₂ } :
        ContentLine).Closed := by
      have hparams := hc.params
      rw [hps, List.forall_mem_append, List.forall_mem_cons] at hparams
      refine hc.withParams (List.forall_mem_append.mpr ⟨hparams.1, List.forall_mem_cons.mpr ⟨?_, hparams.2.2⟩⟩)
      rw [closes_replaceFirst hq, hparams.2.1]
    have hread := contentLine_text hclosed
    rw [ContentLine.text, heq]
    cases hagent : isAgent q with
    | false =>
        constructor
        · rintro ⟨⟨c', hc', hneutral⟩, -⟩
          obtain rfl := Option.some.inj (hread.symm.trans hc')
          exact absurd hneutral (not_neutral_of_other hps hq hagent)
        · rintro ⟨-, hothers, -⟩
          have hmem : q ∈ c.others := by
            rw [ContentLine.others, hps]
            simp [hagent]
          rw [hothers q hmem] at hq
          cases hq
    | true =>
        rw [occurs_written hsemi hcolon, hnot, Bool.false_or, Bool.or_eq_false_iff, any_eq_false,
          List.forall_mem_append, List.forall_mem_cons]
        constructor
        · rintro ⟨⟨c', hc', hneutral⟩, ⟨-, -, hps₂⟩, hvalue⟩
          obtain rfl := Option.some.inj (hread.symm.trans hc')
          refine ⟨(neutral_of_agent_iff hps hq hagent).mp hneutral, ?_, hvalue⟩
          intro r hr
          obtain ⟨hr, hother⟩ := List.mem_filter.mp hr
          rw [hps] at hr
          rcases List.mem_append.mp hr with hr | hr
          · exact hps₁ r hr
          · rcases List.mem_cons.mp hr with rfl | hr
            · simp [hagent] at hother
            · exact hps₂ r hr
        · rintro ⟨hserver, hothers, hvalue⟩
          have hneutral := (neutral_of_agent_iff hps hq hagent).mpr hserver
          obtain ⟨r, hr, hsame⟩ := hserver
          rw [ContentLine.agents, hps, agents_split hagent] at hr
          obtain ⟨-, hnone, rfl⟩ := hr
          have hnew : occurs serverAgent (replaceFirst serverAgent clientAgent q) = false := by
            rw [replaceFirst_whole hsame]
            decide
          refine ⟨⟨_, hread, hneutral⟩, ⟨hps₁, hnew, fun r hr => hothers r ?_⟩, hvalue⟩
          refine List.mem_filter.mpr ⟨by simp [hps, hr], ?_⟩
          simpa using List.filter_eq_nil_iff.mp hnone r hr
  · -- the value is another one
    have hread : contentLine (written c.name c.params (replaceFirst serverAgent clientAgent c.value)) =
        some { c with value := replaceFirst serverAgent clientAgent c.value } :=
      readLine_written hc.name hc.params
    rw [ContentLine.text, heq]
    constructor
    · rintro ⟨⟨c', hc', hneutral⟩, -⟩
      obtain rfl := Option.some.inj (hread.symm.trans hc')
      exact absurd hneutral.value (replaceFirst_ne clientAgent_not_server hv)
    · rintro ⟨-, -, hvalue⟩
      rw [hvalue] at hv
      cases hv

/-! ### The line that gets a parameter -/

/-- The line with the parameter in front of its others. -/
def ContentLine.withClient (c : ContentLine) : ContentLine := { c with params := clientAgent :: c.params }

theorem contentLine_withClient (hc : c.Closed) : contentLine c.withClient.text = some c.withClient := by
  refine contentLine_text (hc.withParams (List.forall_mem_cons.mpr ⟨?_, hc.params⟩))
  exact closes_of_isName isName_clientAgent

/-- A line that does not have the text has no such parameter. -/
theorem agents_of_not_occurs (h : occurs scheduleAgent c.text = false) : c.agents = [] := by
  rw [ContentLine.text, occurs_written separates_semicolon.1 separates_colon.1, Bool.or_eq_false_iff,
    Bool.or_eq_false_iff] at h
  refine List.filter_eq_nil_iff.mpr fun q hq => ?_
  have hnot : occurs scheduleAgent q = false := by simpa using List.any_eq_false.mp h.2.1 q hq
  rw [not_agent_of_not_occurs hnot]
  decide

theorem neutral_withClient (h : occurs scheduleAgent c.text = false) : Neutral c c.withClient := by
  have hagent : isAgent clientAgent = true := by decide
  refine ⟨rfl, rfl, ?_, clientAgent, ?_, settled_clientAgent⟩
  · rw [ContentLine.others, ContentLine.others, ContentLine.withClient, List.filter_cons, hagent]
    rfl
  · show (clientAgent :: c.params).filter isAgent = [clientAgent]
    rw [List.filter_cons, hagent, if_pos rfl]
    exact congrArg (clientAgent :: ·) (agents_of_not_occurs h)

theorem not_occurs_withClient (h : occurs serverAgent c.text = false) :
    occurs serverAgent c.withClient.text = false := by
  have hsemi := separates_semicolon.2
  have hcolon := separates_colon.2
  rw [ContentLine.text, occurs_written hsemi hcolon] at h ⊢
  have hnew : occurs serverAgent clientAgent = false := by decide
  show (occurs serverAgent c.name || ((clientAgent :: c.params).any (occurs serverAgent) ||
    occurs serverAgent c.value)) = false
  rw [List.any_cons, hnew]
  exact h

end Ownpace.Calendar
