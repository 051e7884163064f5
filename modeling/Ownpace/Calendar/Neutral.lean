/-
Ownpace/Calendar/Neutral.lean

When `neutraliseScheduling` sends nothing and changes nothing else.

Each property is rewritten on its own, so the question is asked of one property
(`property_iff`) and answered for the text (`sendsNothing_iff`).  The fingerprint
does not take part: no line it reads is one that is rewritten.
-/
import Mathlib.Data.List.Forall2
import Ownpace.Calendar.Agent
import Ownpace.Calendar.Fingerprint

namespace Ownpace.Calendar

open Mail Keys FoldedText

/-! ### What the rewriting is for -/

/-- What a property may become: an `ATTENDEE` or an `ORGANIZER` the same line with a
`SCHEDULE-AGENT` that sends nothing, every other property itself. -/
structure Silenced (g g' : Folded) : Prop where
  scheduling : IsScheduling (propertyName g.logical) →
    ∃ c c', contentLine g.logical = some c ∧ contentLine g'.logical = some c' ∧ Neutral c c'
  other : ¬ IsScheduling (propertyName g.logical) → g' = g

/-- No mail is sent, and nothing else is lost. -/
structure SendsNothing (casing : UpperCasing) (digest : List Char → List Char) (s : List Char) : Prop where
  silenced : List.Forall₂ Silenced (properties s) (properties (neutraliseScheduling s))
  again : neutraliseScheduling (neutraliseScheduling s) = neutraliseScheduling s
  fingerprint :
    casing.calendarFingerprint digest (neutraliseScheduling s) = casing.calendarFingerprint digest s

/-- Lines that end with LF or CRLF, in which every `ATTENDEE` and `ORGANIZER` is a
content line. -/
structure ICalendar (s : List Char) : Prop where
  ends : LineEnds s
  lines : ∀ g ∈ properties s, IsScheduling (propertyName g.logical) →
    (contentLine g.logical).isSome = true

/-- The properties the rewriting is right about: it finds the name with what follows
it on one line, and the text it looks for is either nowhere, or the line's own one
`SCHEDULE-AGENT`. -/
inductive Fits (g : Folded) (c : ContentLine) : Prop
  | said : c.Said → propertyStart g.first = none ∨ occurs serverAgent g.logical = false → Fits g c
  | silent : propertyStart g.first ≠ none → occurs scheduleAgent g.logical = false → Fits g c
  | server : propertyStart g.first ≠ none → c.SaysServer → Fits g c

variable {g : Folded} {c : ContentLine} {s : List Char} {w : List Char × List Char}

/-! ### One property -/

theorem propertyName_logical (hlines : Lines g.lines) (h : propertyStart g.first = some w) :
    propertyName g.logical = w.1 ∧ IsScheduling w.1 := by
  obtain ⟨-, hname, -⟩ := propertyStart_eq_some.mp h
  obtain ⟨r, -, hr, hlogical⟩ := logical_of_start hlines h
  refine ⟨?_, hname⟩
  rw [hlogical, propertyName_of_start hname]
  obtain ⟨x, t, rfl, hx⟩ := startsPart_iff.mp hr
  simp [startsPart, hx]

/-- A property of another name stays as it is. -/
theorem neutralised_other (hlines : Lines g.lines) (h : ¬ IsScheduling (propertyName g.logical)) :
    neutralised g = g := by
  cases hstart : propertyStart g.first with
  | none => exact neutralised_of_none hstart
  | some w =>
      obtain ⟨hname, hscheduling⟩ := propertyName_logical hlines hstart
      exact absurd (hname ▸ hscheduling) h

theorem silenced_self_iff (hscheduling : IsScheduling (propertyName g.logical))
    (hc : contentLine g.logical = some c) : Silenced g g ↔ c.Said := by
  constructor
  · intro h
    obtain ⟨d, d', hd, hd', hneutral⟩ := h.scheduling hscheduling
    obtain rfl := Option.some.inj (hc.symm.trans hd)
    obtain rfl := Option.some.inj (hc.symm.trans hd')
    exact hneutral.said
  · intro h
    exact ⟨fun _ => ⟨c, c, hc, hc, rfl, rfl, rfl, h⟩, fun hnot => absurd hscheduling hnot⟩

/-- A line on its own, with the break of a property's last line. -/
theorem joined_line (hlines : Lines g.lines) (hs : Plain s) :
    lineEnd (s ++ lineEnd g.last) = lineEnd g.last ∧ chomp (s ++ lineEnd g.last) = s := by
  have hend : lineEnd (s ++ lineEnd g.last) = lineEnd g.last := by
    rcases hlines.full_or_plain g.last g.last_mem with hfull | hplain
    · exact lineEnd_append hs hfull.cut.2.2
    · rw [lineEnd_plain hplain, List.append_nil, lineEnd_plain hs]
  exact ⟨hend, chomp_append hend⟩

theorem logical_joined (hlines : Lines g.lines) (hs : Plain s) :
    (⟨s ++ lineEnd g.last, []⟩ : Folded).logical = s := by
  show chomp (s ++ lineEnd g.last) ++ [] = s
  rw [(joined_line hlines hs).2, List.append_nil]

/-- The parts of a line behind its name. -/
theorem written_eq (part : List Char) (ps : List (List Char)) (v : List Char) :
    written part ps v = part ++ written [] ps v := by
  cases ps <;> rfl

theorem startsPart_append (h : startsPart s = true) (e : List Char) : startsPart (s ++ e) = true := by
  obtain ⟨x, t, rfl, hx⟩ := startsPart_iff.mp h
  simp [startsPart, hx]

/-- A rewritten line is rewritten again exactly if it still says `SERVER`. -/
theorem joined_again_iff {n t e : List Char} (hname : IsScheduling n) (hpart : startsPart t = true)
    (hs : s = n ++ t) (he : lineEnd (s ++ e) = e) (hlogical : (⟨s ++ e, []⟩ : Folded).logical = s)
    (hagent : occurs scheduleAgent s = true) :
    neutralised ⟨s ++ e, []⟩ = ⟨s ++ e, []⟩ ↔ occurs serverAgent s = false := by
  have hstart : propertyStart (s ++ e) = some (n, t ++ e) := by
    refine propertyStart_eq_some.mpr ⟨?_, hname, startsPart_append hpart e⟩
    rw [hs, List.append_assoc]
  have hline : neutralised ⟨s ++ e, []⟩ = rewritten (n, t ++ e) ⟨s ++ e, []⟩ := neutralised_of_some hstart
  rw [hline, rewritten, hlogical]
  cases hserver : occurs serverAgent s with
  | true =>
      rw [if_pos rfl]
      refine iff_of_false (fun h => ?_) (by decide)
      have hfirst : replaceFirst serverAgent clientAgent s ++ lineEnd (s ++ e) = s ++ e :=
        congrArg Folded.first h
      rw [he] at hfirst
      exact replaceFirst_ne clientAgent_not_server hserver (List.append_cancel_right hfirst)
  | false =>
      rw [if_neg (by decide), if_pos hagent]
      exact iff_of_true rfl rfl

/-- The parameter is in the line, and so is its text. -/
theorem ContentLine.SaysServer.occurs (h : c.SaysServer) (hc : contentLine s = some c) :
    occurs serverAgent s = true := by
  obtain ⟨⟨q, hq, hsame⟩, -⟩ := h
  obtain ⟨rfl, -⟩ := contentLine_eq_some.mp hc
  have hmem : q ∈ c.agents := by
    rw [hq]
    exact List.mem_cons_self
  have hocc : Calendar.occurs serverAgent q = true := by
    have happ := afterName_append hsame []
    rw [List.append_nil] at happ
    exact occurs_of_afterName (by rw [happ]; rfl)
  have hany : c.params.any (Calendar.occurs serverAgent) = true :=
    List.any_eq_true.mpr ⟨q, (List.mem_filter.mp hmem).1, hocc⟩
  rw [ContentLine.text, occurs_written separates_semicolon.2 separates_colon.2, hany]
  simp

/-- **A property that says `SCHEDULE-AGENT=SERVER` somewhere.** -/
theorem property_iff_server (hlines : Lines g.lines) (hstart : propertyStart g.first = some w)
    (hc : contentLine g.logical = some c) (hserver : occurs serverAgent g.logical = true) :
    Silenced g (neutralised g) ∧ neutralised (neutralised g) = neutralised g ↔ c.SaysServer := by
  obtain ⟨htext, hclosed⟩ := contentLine_eq_some.mp hc
  obtain ⟨hname, hscheduling⟩ := propertyName_logical hlines hstart
  have hcname : c.name = w.1 := by
    rw [name_eq_propertyName hc (hname ▸ hscheduling.isName), hname]
  have hplain := plain_replaceFirst (p := serverAgent) (plain_logical hlines) plain_clientAgent
  have heq : neutralised g =
      ⟨replaceFirst serverAgent clientAgent g.logical ++ lineEnd g.last, []⟩ := by
    rw [neutralised_of_some hstart, rewritten, if_pos hserver]
  have hjoined := joined_line hlines hplain
  have hlogical : (neutralised g).logical = replaceFirst serverAgent clientAgent g.logical := by
    rw [heq, logical_joined hlines hplain]
  have hagent : occurs scheduleAgent (replaceFirst serverAgent clientAgent g.logical) = true := by
    obtain ⟨u, m, v, -, -, hnew⟩ := replaceFirst_server hserver
    rw [hnew]
    exact occurs_of_front u v (by rw [clientAgent, List.append_assoc, afterName_append rfl]; rfl)
  -- the second pass finds the same name
  obtain ⟨t, hstart', hpart⟩ : ∃ t, replaceFirst serverAgent clientAgent g.logical = w.1 ++ t ∧
      startsPart t = true := by
    obtain ⟨r, -, hr, hcut⟩ := logical_of_start hlines hstart
    rw [hcut]
    refine replaceFirst_behind_name clientAgent hscheduling ?_
    obtain ⟨x, t, rfl, hx⟩ := startsPart_iff.mp hr
    simp [startsPart, hx]
  have hagain : neutralised (neutralised g) = neutralised g ↔
      occurs serverAgent (replaceFirst serverAgent clientAgent g.logical) = false := by
    rw [heq]
    exact joined_again_iff hscheduling hpart hstart' hjoined.1 (logical_joined hlines hplain) hagent
  rw [hagain, ← neutral_replaced_iff hclosed (hcname ▸ hscheduling) (htext ▸ hserver), ← htext]
  refine and_congr_left fun _ => ?_
  constructor
  · intro h
    obtain ⟨d, d', hd, hd', hneutral⟩ := h.scheduling (hname ▸ hscheduling)
    obtain rfl := Option.some.inj (hc.symm.trans hd)
    exact ⟨d', hlogical ▸ hd', hneutral⟩
  · rintro ⟨d', hd', hneutral⟩
    exact ⟨fun _ => ⟨c, d', hc, hlogical ▸ hd', hneutral⟩, fun hnot => absurd (hname ▸ hscheduling) hnot⟩

/-- **A property without the parameter's name in it.** -/
theorem property_silent (hlines : Lines g.lines) (hstart : propertyStart g.first = some w)
    (hc : contentLine g.logical = some c) (hno : occurs scheduleAgent g.logical = false) :
    Silenced g (neutralised g) ∧ neutralised (neutralised g) = neutralised g := by
  obtain ⟨htext, hclosed⟩ := contentLine_eq_some.mp hc
  obtain ⟨hname, hscheduling⟩ := propertyName_logical hlines hstart
  obtain ⟨hline, -, -⟩ := propertyStart_eq_some.mp hstart
  have hcname : c.name = w.1 := by
    rw [name_eq_propertyName hc (hname ▸ hscheduling.isName), hname]
  have hserver : occurs serverAgent g.logical = false := by
    rw [← Bool.not_eq_true]
    intro h
    rw [occurs_scheduleAgent h] at hno
    cases hno
  have heq : neutralised g = ⟨w.1 ++ ';' :: clientAgent ++ w.2, g.more⟩ := by
    rw [neutralised_of_some hstart, rewritten, if_neg (by rw [hserver]; decide),
      if_neg (by rw [hno]; decide)]
  have hlogical : (neutralised g).logical = c.withClient.text := by
    have hshape := hlines.full_or_plain g.first List.mem_cons_self
    rw [hline] at hshape
    obtain ⟨r, hr, hr'⟩ := chomp_insert hscheduling.plain plain_inserted hshape
    -- what is behind the name is behind the parameter now
    have hbehind : r ++ (g.more.map fun l => (chomp l).drop 1).flatten = written [] c.params c.value := by
      have hcut : w.1 ++ (r ++ (g.more.map fun l => (chomp l).drop 1).flatten) =
          w.1 ++ written [] c.params c.value := by
        rw [← List.append_assoc, ← hr, ← hline, ← hcname, ← written_eq]
        exact htext
      exact List.append_cancel_left hcut
    rw [heq]
    show chomp (w.1 ++ ';' :: clientAgent ++ w.2) ++ _ = c.name ++ ';' :: written clientAgent c.params c.value
    rw [hr', List.append_assoc, hbehind, written_eq clientAgent, hcname, List.append_assoc]
    rfl
  have hread := contentLine_withClient hclosed
  refine ⟨⟨fun _ => ⟨c, c.withClient, hc, hlogical ▸ hread, neutral_withClient (htext ▸ hno)⟩,
    fun hnot => absurd (hname ▸ hscheduling) hnot⟩, ?_⟩
  have hstart' : propertyStart (neutralised g).first = some (w.1, ';' :: clientAgent ++ w.2) := by
    rw [heq]
    refine propertyStart_eq_some.mpr ⟨?_, hscheduling, rfl⟩
    exact List.append_assoc _ _ _
  have hagain : occurs serverAgent (neutralised g).logical = false := by
    rw [hlogical]
    exact not_occurs_withClient (htext ▸ hserver)
  have hclient : occurs scheduleAgent (neutralised g).logical = true := by
    rw [hlogical, ContentLine.text, occurs_written separates_semicolon.1 separates_colon.1,
      ContentLine.withClient, List.any_cons, show occurs scheduleAgent clientAgent = true by decide]
    simp
  rw [neutralised_of_some hstart', rewritten, if_neg (by rw [hagain]; decide), if_pos hclient]

theorem property_iff (hlines : Lines g.lines) (hscheduling : IsScheduling (propertyName g.logical))
    (hc : contentLine g.logical = some c) :
    Silenced g (neutralised g) ∧ neutralised (neutralised g) = neutralised g ↔ Fits g c := by
  have hself (heq : neutralised g = g) :
      Silenced g (neutralised g) ∧ neutralised (neutralised g) = neutralised g ↔ c.Said := by
    rw [heq, heq, silenced_self_iff hscheduling hc]
    exact and_iff_left rfl
  cases hstart : propertyStart g.first with
  | none =>
      rw [hself (neutralised_of_none hstart)]
      constructor
      · exact fun h => .said h (.inl hstart)
      · intro h
        cases h with
        | said h _ => exact h
        | silent hsome _ => exact absurd hstart hsome
        | server hsome _ => exact absurd hstart hsome
  | some w =>
      have hsome : propertyStart g.first ≠ none := by
        rw [hstart]
        exact Option.some_ne_none w
      cases hserver : occurs serverAgent g.logical with
      | true =>
          rw [property_iff_server hlines hstart hc hserver]
          constructor
          · exact fun h => .server hsome h
          · intro h
            cases h with
            | said _ hnot =>
                rcases hnot with hnone | hnot
                · exact absurd hnone hsome
                · rw [hserver] at hnot
                  cases hnot
            | silent _ hnot =>
                rw [occurs_scheduleAgent hserver] at hnot
                cases hnot
            | server _ h => exact h
      | false =>
          cases hagent : occurs scheduleAgent g.logical with
          | true =>
              have hkept : neutralised g = g := by
                rw [neutralised_of_some hstart, rewritten, if_neg (by rw [hserver]; decide), if_pos hagent]
              rw [hself hkept]
              constructor
              · exact fun h => .said h (.inr hserver)
              · intro h
                cases h with
                | said h _ => exact h
                | silent _ hnot =>
                    rw [hagent] at hnot
                    cases hnot
                | server _ h =>
                    rw [h.occurs hc] at hserver
                    cases hserver
          | false =>
              exact iff_of_true (property_silent hlines hstart hc hagent) (.silent hsome hagent)

/-! ### The fingerprint -/

theorem toNat_toUpper (x : Char) :
    x.toUpper.toNat = if 97 ≤ x.toNat ∧ x.toNat ≤ 122 then x.toNat - 32 else x.toNat := by
  delta Char.toUpper
  simp only [UInt32.le_iff_toNat_le]
  split
  · next h =>
    have hrange : 97 ≤ x.toNat ∧ x.toNat ≤ 122 := h
    rw [if_pos hrange]
    show (x.val + _).toNat = _
    rw [UInt32.toNat_add]
    show (x.toNat + 4294967264) % 4294967296 = _
    omega
  · next h =>
    have hrange : ¬ (97 ≤ x.toNat ∧ x.toNat ≤ 122) := h
    rw [if_neg hrange]

/-- A letter of either case, next to the capital. -/
theorem toUpper_of_capital {x y : Char} (hy : 65 ≤ y.toNat ∧ y.toNat ≤ 90) (h : x.toLower = y.toLower) :
    x.toUpper = y ∧ (x.toNat = y.toNat ∨ x.toNat = y.toNat + 32) := by
  have hx := toNat_toLower x
  rw [h, toNat_toLower, if_pos hy] at hx
  have hcase : x.toNat = y.toNat ∨ x.toNat = y.toNat + 32 := by
    split at hx <;> omega
  refine ⟨Char.toNat_inj.mp ?_, hcase⟩
  rw [toNat_toUpper]
  split <;> omega

theorem sameText_capitals {n p : List Char} (hp : (p.all fun y => 65 ≤ y.toNat && y.toNat ≤ 90) = true)
    (h : SameText n p) :
    n.map Char.toUpper = p ∧ ∀ x ∈ n, 65 ≤ x.toNat ∧ x.toNat < 128 := by
  induction p generalizing n with
  | nil =>
      rw [List.map_eq_nil_iff.mp h]
      exact ⟨rfl, fun x hx => absurd hx List.not_mem_nil⟩
  | cons y p ih =>
      cases n with
      | nil => cases h
      | cons x n =>
          rw [List.all_cons, Bool.and_eq_true, Bool.and_eq_true, decide_eq_true_eq, decide_eq_true_eq] at hp
          obtain ⟨hx, hn⟩ := List.cons.inj h
          obtain ⟨hupper, hcase⟩ := toUpper_of_capital hp.1 hx
          obtain ⟨hmap, hrange⟩ := ih hp.2 hn
          exact ⟨by rw [List.map_cons, hupper, hmap], List.forall_mem_cons.mpr ⟨by omega, hrange⟩⟩

theorem IsScheduling.capitals {n : List Char} (h : IsScheduling n) :
    (n.map Char.toUpper = attendee ∨ n.map Char.toUpper = organizer) ∧
      ∀ x ∈ n, 65 ≤ x.toNat ∧ x.toNat < 128 := by
  rcases h with h | h
  · obtain ⟨hmap, hrange⟩ := sameText_capitals (by decide) h
    exact ⟨.inl hmap, hrange⟩
  · obtain ⟨hmap, hrange⟩ := sameText_capitals (by decide) h
    exact ⟨.inr hmap, hrange⟩

theorem not_isWhiteSpace {x : Char} (h : 45 ≤ x.toNat ∧ x.toNat < 128) : isWhiteSpace x = false := by
  rw [← Bool.not_eq_true]
  intro hspace
  rw [isWhiteSpace, Bool.or_eq_true, Bool.and_eq_true] at hspace
  rcases hspace with hspace | ⟨hlow, -⟩
  · simp only [List.mem_cons, List.not_mem_nil, or_false, decide_eq_true_eq] at hspace
    rcases hspace with rfl | rfl | rfl | rfl | rfl | rfl | rfl | rfl | rfl | rfl | rfl | rfl | rfl | rfl <;>
      exact absurd h (by decide)
  · have hle : (0x2000 : Nat) ≤ x.toNat := of_decide_eq_true hlow
    omega

variable (casing : UpperCasing)

/-- The line of an attendee or organizer is not one the fingerprint reads. -/
theorem canonicalLine_scheduling {n r : List Char} (hname : IsScheduling n) (hr : startsPart r = true) :
    casing.canonicalLine calendarProperties (n ++ r) = none := by
  obtain ⟨hmap, hrange⟩ := hname.capitals
  have hcolon : ∀ x ∈ n, (decide (x ≠ ':')) = true := fun x hx => decide_eq_true (hname.isName x hx).2.1
  have hsemi : ∀ x ∈ n, (decide (x ≠ ';')) = true := fun x hx => decide_eq_true (hname.isName x hx).1
  have hcut : ((n ++ r).takeWhile fun c => c ≠ ':').takeWhile (fun c => c ≠ ';') = n := by
    obtain ⟨x, t, rfl, hx⟩ := startsPart_iff.mp hr
    rw [List.takeWhile_append_of_pos hcolon, List.takeWhile_append_of_pos hsemi]
    rcases hx with rfl | rfl
    · rw [List.takeWhile_cons_of_pos (by decide), List.takeWhile_cons_of_neg (by decide), List.append_nil]
    · rw [List.takeWhile_cons_of_neg (by decide), List.takeWhile_nil, List.append_nil]
  have htrim : trim n = n := by
    refine trim_of_trimmed ⟨fun x hx => ?_, fun x hx => ?_⟩
    · exact not_isWhiteSpace ((hrange x (List.mem_of_mem_head? hx)).imp_left (Nat.le_trans (by decide)))
    · exact not_isWhiteSpace ((hrange x (List.mem_of_getLast? hx)).imp_left (Nat.le_trans (by decide)))
  have hupper : casing.lineName (n ++ r) = n.map Char.toUpper := by
    rw [UpperCasing.lineName, hcut, htrim, casing.ascii n fun x hx => (hrange x hx).2]
  have hnot : casing.lineName (n ++ r) ∉ calendarProperties := by
    rw [hupper]
    rcases hmap with hmap | hmap
    · rw [hmap]
      decide
    · rw [hmap]
      decide
  rw [UpperCasing.canonicalLine, if_pos hnot]
  split <;> rfl

/-- A rewritten property starts with the name it had. -/
theorem start_neutralised (hlines : Lines g.lines) (hstart : propertyStart g.first = some w) :
    ∃ r, propertyStart (neutralised g).first = some (w.1, r) := by
  obtain ⟨-, hname, -⟩ := propertyStart_eq_some.mp hstart
  have heq := neutralised_of_some hstart
  rw [rewritten] at heq
  split at heq
  · obtain ⟨r, -, hr, hcut⟩ := logical_of_start hlines hstart
    obtain ⟨t, ht, hpart⟩ := replaceFirst_behind_name clientAgent hname
      (startsPart_append hr (g.more.map fun l => (chomp l).drop 1).flatten)
    refine ⟨t ++ lineEnd g.last, ?_⟩
    rw [heq]
    refine propertyStart_eq_some.mpr ⟨?_, hname, startsPart_append hpart _⟩
    show replaceFirst serverAgent clientAgent g.logical ++ lineEnd g.last = w.1 ++ (t ++ lineEnd g.last)
    rw [hcut, ht, List.append_assoc]
  · split at heq
    · exact ⟨w.2, by rw [heq, hstart]⟩
    · refine ⟨';' :: clientAgent ++ w.2, ?_⟩
      rw [heq]
      exact propertyStart_eq_some.mpr ⟨List.append_assoc _ _ _, hname, rfl⟩

theorem canonicalLine_neutralised (hmore : ∀ l ∈ g.more, continues l = true) (hlines : Lines g.lines) :
    neutralised g = g ∨ casing.canonicalLine calendarProperties (neutralised g).logical = none ∧
      casing.canonicalLine calendarProperties g.logical = none := by
  cases hstart : propertyStart g.first with
  | none => exact .inl (neutralised_of_none hstart)
  | some w =>
      right
      obtain ⟨-, hname, -⟩ := propertyStart_eq_some.mp hstart
      have hskipped {d : Folded} (hd : Lines d.lines) {r : List Char}
          (hstart : propertyStart d.first = some (w.1, r)) :
          casing.canonicalLine calendarProperties d.logical = none := by
        obtain ⟨r', -, hr', hcut⟩ := logical_of_start hd hstart
        rw [hcut]
        exact canonicalLine_scheduling casing hname (startsPart_append hr' _)
      obtain ⟨r, hr⟩ := start_neutralised hlines hstart
      exact ⟨hskipped (keeps_neutralised hmore hlines).lines hr, hskipped hlines hstart⟩

/-! ### The text -/

theorem properties_neutraliseScheduling (h : LineEnds s) :
    IsFolding ((properties s).map neutralised) ∧
      neutraliseScheduling s = text ((properties s).map neutralised) := by
  have hfolding := isFolding_properties h
  have hlines := lines_of_mem hfolding.lines
  refine ⟨hfolding.map fun g hg => keeps_neutralised (hfolding.more g hg) (hlines g hg), ?_⟩
  have htext := neutraliseScheduling_text hfolding
  rwa [text_properties] at htext

/-- **The fingerprint does not see the rewriting.** -/
theorem calendarFingerprint_neutraliseScheduling (digest : List Char → List Char) (h : LineEnds s) :
    casing.calendarFingerprint digest (neutraliseScheduling s) = casing.calendarFingerprint digest s := by
  have hfolding := isFolding_properties h
  have hlines := lines_of_mem hfolding.lines
  obtain ⟨hnew, htext⟩ := properties_neutraliseScheduling h
  have hunfold : (unfold (neutraliseScheduling s)).filterMap (casing.canonicalLine calendarProperties) =
      (unfold s).filterMap (casing.canonicalLine calendarProperties) := by
    have hold := unfold_text hfolding
    rw [text_properties] at hold
    rw [htext, unfold_text hnew, hold, List.filterMap_filter, List.filterMap_filter, List.map_map,
      List.filterMap_map, List.filterMap_map]
    apply List.filterMap_congr
    intro g hg
    show (if _ then casing.canonicalLine calendarProperties (neutralised g).logical else none) =
      if _ then casing.canonicalLine calendarProperties g.logical else none
    rcases canonicalLine_neutralised casing (hfolding.more g hg) (hlines g hg) with hself | ⟨hnone, hnone'⟩
    · show (if decide (trim (neutralised g).logical ≠ []) then _ else _) = _
      rw [hself]
    · rw [hnone, hnone', ite_self, ite_self]
  rw [UpperCasing.calendarFingerprint, UpperCasing.canonicalLines, hunfold]
  rfl

/-- **When a migration sends no mail and changes nothing else**: exactly if every
`ATTENDEE` and `ORGANIZER` is one the rewriting is right about. -/
theorem sendsNothing_iff (digest : List Char → List Char) (h : ICalendar s) :
    SendsNothing casing digest s ↔ ∀ g ∈ properties s, ∀ c,
      IsScheduling (propertyName g.logical) → contentLine g.logical = some c → Fits g c := by
  have hfolding := isFolding_properties h.ends
  have hlines := lines_of_mem hfolding.lines
  obtain ⟨hnew, htext⟩ := properties_neutraliseScheduling h.ends
  have hsilenced : List.Forall₂ Silenced (properties s) (properties (neutraliseScheduling s)) ↔
      ∀ g ∈ properties s, Silenced g (neutralised g) := by
    rw [htext, properties_text hnew, List.forall₂_map_right_iff, List.forall₂_same]
  have hagain : neutraliseScheduling (neutraliseScheduling s) = neutraliseScheduling s ↔
      ∀ g ∈ properties s, neutralised (neutralised g) = neutralised g := by
    have hnewlines := lines_of_mem hnew.lines
    have htwice := hnew.map fun g hg => keeps_neutralised (hnew.more g hg) (hnewlines g hg)
    rw [htext, neutraliseScheduling_text hnew]
    constructor
    · intro heq
      have hlists := congrArg properties heq
      rw [properties_text hnew, properties_text htwice, List.map_map] at hlists
      exact List.map_inj_left.mp hlists
    · intro heq
      rw [List.map_map]
      exact congrArg text (List.map_inj_left.mpr heq)
  have hone (g : Folded) (hg : g ∈ properties s) :
      (Silenced g (neutralised g) ∧ neutralised (neutralised g) = neutralised g) ↔
        ∀ c, IsScheduling (propertyName g.logical) → contentLine g.logical = some c → Fits g c := by
    by_cases hscheduling : IsScheduling (propertyName g.logical)
    · obtain ⟨c, hc⟩ := Option.isSome_iff_exists.mp (h.lines g hg hscheduling)
      rw [property_iff (hlines g hg) hscheduling hc]
      constructor
      · intro hfits d _ hd
        obtain rfl := Option.some.inj (hc.symm.trans hd)
        exact hfits
      · exact fun hall => hall c hscheduling hc
    · have hself := neutralised_other (hlines g hg) hscheduling
      rw [hself, hself]
      refine iff_of_true ⟨⟨fun hs => absurd hs hscheduling, fun _ => rfl⟩, rfl⟩ ?_
      exact fun c hs _ => absurd hs hscheduling
  constructor
  · intro hsends g hg
    exact (hone g hg).mp ⟨hsilenced.mp hsends.silenced g hg, hagain.mp hsends.again g hg⟩
  · intro hfits
    have hall (g : Folded) (hg : g ∈ properties s) := (hone g hg).mpr (hfits g hg)
    exact ⟨hsilenced.mpr fun g hg => (hall g hg).1, hagain.mpr fun g hg => (hall g hg).2,
      calendarFingerprint_neutraliseScheduling casing digest h.ends⟩

/-- Letters of ASCII, and no others, in capitals. -/
def asciiCasing : UpperCasing := ⟨List.map Char.toUpper, fun _ _ => rfl⟩

/-- `ORGANIZER:a` and `ATTENDEE;B=c:d`, its parameter folded. -/
def invitation : List Char :=
  organizer ++ [':', 'a', '\r', '\n'] ++ attendee ++ [';', 'B', '\n', '\t', '=', 'c', ':', 'd', '\n']

theorem sendsNothing_invitation : SendsNothing asciiCasing id invitation := by
  have hproperties : properties invitation =
      [⟨organizer ++ [':', 'a', '\r', '\n'], []⟩,
        ⟨attendee ++ [';', 'B', '\n'], [['\t', '=', 'c', ':', 'd', '\n']]⟩] := by
    decide
  have hlegal : ICalendar invitation := by
    refine ⟨by decide, ?_⟩
    rw [hproperties, List.forall_mem_cons, List.forall_mem_singleton]
    exact ⟨fun _ => by decide, fun _ => by decide⟩
  refine (sendsNothing_iff asciiCasing id hlegal).mpr ?_
  rw [hproperties, List.forall_mem_cons, List.forall_mem_singleton]
  exact ⟨fun c _ _ => .silent (by decide) (by decide), fun c _ _ => .silent (by decide) (by decide)⟩

/-- **What the rewriting leaves alone**, in any calendar: every other property where and as it
stands, and the fingerprint. -/
theorem neutraliseScheduling_others (digest : List Char → List Char) (h : LineEnds s) :
    List.Forall₂ (fun g g' => ¬ IsScheduling (propertyName g.logical) → g' = g)
      (properties s) (properties (neutraliseScheduling s)) ∧
    casing.calendarFingerprint digest (neutraliseScheduling s) =
      casing.calendarFingerprint digest s := by
  have hlines := lines_of_mem (isFolding_properties h).lines
  obtain ⟨hnew, htext⟩ := properties_neutraliseScheduling h
  refine ⟨?_, calendarFingerprint_neutraliseScheduling casing digest h⟩
  rw [htext, properties_text hnew, List.forall₂_map_right_iff, List.forall₂_same]
  exact fun g hg hother => neutralised_other (hlines g hg) hother

theorem neutraliseScheduling_others_invitation :
    List.Forall₂ (fun g g' => ¬ IsScheduling (propertyName g.logical) → g' = g)
      (properties invitation) (properties (neutraliseScheduling invitation)) ∧
    asciiCasing.calendarFingerprint id (neutraliseScheduling invitation) =
      asciiCasing.calendarFingerprint id invitation :=
  neutraliseScheduling_others asciiCasing id (by decide)

/-- `ATTENDEE;CN="SCHEDULE-AGENT=CLIENT":mailto:a` -/
def quotedAgent : List Char :=
  attendee ++ [';', 'C', 'N', '=', '"'] ++ clientAgent ++ ['"', ':', 'm', 'a', 'i', 'l', 't', 'o', ':', 'a']

/-- **An attendee is missed**: what is in the quotes of another parameter counts. -/
theorem quotedAgent_sends : ICalendar quotedAgent ∧
    (∀ g ∈ properties quotedAgent, propertyName g.logical <+: g.first) ∧
    ¬ SendsNothing asciiCasing id quotedAgent := by
  have hproperties : properties quotedAgent = [⟨quotedAgent, []⟩] := by decide
  have hkept : neutralised ⟨quotedAgent, []⟩ = ⟨quotedAgent, []⟩ := by decide
  have hname : IsScheduling (propertyName (⟨quotedAgent, []⟩ : Folded).logical) := by decide
  have hread : contentLine (⟨quotedAgent, []⟩ : Folded).logical =
      some ⟨attendee, [['C', 'N', '=', '"'] ++ clientAgent ++ ['"']], ['m', 'a', 'i', 'l', 't', 'o', ':', 'a']⟩ := by
    decide
  have hends : LineEnds quotedAgent := by decide
  refine ⟨⟨hends, ?_⟩, ?_, fun hsends => ?_⟩
  · rw [hproperties, List.forall_mem_singleton, hread]
    exact fun _ => rfl
  · rw [hproperties, List.forall_mem_singleton]
    decide
  · obtain ⟨hnew, htext⟩ := properties_neutraliseScheduling hends
    have hsilenced := hsends.silenced
    rw [htext, properties_text hnew, hproperties, List.map_singleton, hkept] at hsilenced
    have hone : Silenced ⟨quotedAgent, []⟩ ⟨quotedAgent, []⟩ := by
      cases hsilenced with
      | cons h _ => exact h
    obtain ⟨q, hq, -⟩ := (silenced_self_iff hname hread).mp hone
    have hnone : ([] : List (List Char)) = [q] := hq
    cases hnone

end Ownpace.Calendar
