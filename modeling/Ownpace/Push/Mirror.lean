/-
Ownpace/Push/Mirror.lean

The row of an invoice draft against the invoice that Moneybird numbered.

  `row_mirrors` — over any order of pushes, crashes and lost answers: one
  invoice under the reference as long as two pushes never hold the draft at
  once, a draft is sent only at the sum of the lines of the attempt that sends
  it, and the row that leaves draft says what the numbered invoice was made
  from, where no push goes on with an invoice found that was made from another
  treatment, rate or lines than its own.
-/
import Ownpace.Push.Attempt

namespace Ownpace.Push

open Billing (InvoiceStatus)

variable {settings : Settings} {number : String → Option Rat} {tenantId reference : String}

/-! ### What is claimed of a run -/

/-- The row's columns are those of the invoice. -/
structure Issued.Mirrors (number : String → Option Rat) (w : Issued) (d : Doc) : Prop where
  id : w.moneybirdId = d.id
  numbered : d.number = some w.invoiceNumber
  treatment : w.vatTreatment = d.made.treatment
  rate : w.taxRateId = d.made.taxRateId
  lines : w.lines.map (fun line => (⟨line.description, line.cents⟩ : PricedLine)) = d.made.lines
  totals : ∀ t ∈ w.totals, t.subtotal = d.totalExclTaxCents ∧ t.total = d.totalInclTaxCents ∧
    t.taxAmount = d.totalInclTaxCents - d.totalExclTaxCents ∧
    fractionOf number d.made.taxPercentage = some t.taxRate

structure Plane.Mirrored (number : String → Option Rat) (p : Plane) : Prop where
  /-- At most one invoice is made, and sent once, where no two pushes held the
  draft at once. -/
  one : p.overlapped = false → p.books.length ≤ 1 ∧ p.sends.length ≤ 1
  checked : ∀ s ∈ p.sends, s.doc.ownTotal = s.expectedCents
  row : p.row.status ≠ .draft →
    ∃ w, p.row.issued = some w ∧ ∃ d ∈ p.books, w.Mirrors number d

/-- A push does not go on with an invoice that was made from something else than
it has planned itself. -/
def MadeAlike (p : Plane) (label : Option (Attempt × String × MoneybirdSalesInvoice)) : Prop :=
  ∀ a contactId invoice, label = some (a, contactId, invoice) →
    afterLookup a contactId invoice ≠ .over → ∀ d ∈ p.books, d.id = invoice.id → d.made = a.priced

/-- The states of the runs whose steps all meet a condition. -/
inductive Reached (settings : Settings) (number : String → Option Rat) (tenantId reference : String)
    (Meets : Plane → Option (Attempt × String × MoneybirdSalesInvoice) → Prop) : Plane → Prop
  | start (lines : List RawLine) : Reached settings number tenantId reference Meets (.start lines)
  | step {p q : Plane} {label} : Reached settings number tenantId reference Meets p →
      Step settings number tenantId reference p label q → Meets p label →
      Reached settings number tenantId reference Meets q

/-! ### Invoices only get numbered -/

def Doc.Later (d d' : Doc) : Prop :=
  d' = d ∨ d.number = none ∧ ∃ n, d' = { d with number := some n }

def Grows (books books' : List Doc) : Prop := ∀ d ∈ books, ∃ d' ∈ books', d.Later d'

variable {books books' : List Doc} {d d' : Doc} {w : Issued}

theorem grows_append : Grows books (books ++ books') :=
  fun d hd => ⟨d, List.mem_append_left _ hd, .inl rfl⟩

theorem Doc.Later.id (h : d.Later d') : d'.id = d.id := by
  rcases h with rfl | ⟨-, n, rfl⟩ <;> rfl

theorem Doc.Later.made (h : d.Later d') : d'.made = d.made := by
  rcases h with rfl | ⟨-, n, rfl⟩ <;> rfl

theorem Doc.Later.ownTotal (h : d.Later d') : d'.ownTotal = d.ownTotal := by
  rcases h with rfl | ⟨-, n, rfl⟩ <;> rfl

/-- A numbered invoice stays as it is. -/
theorem Grows.numbered (hg : Grows books books') (hd : d ∈ books) (hn : d.number ≠ none) :
    d ∈ books' := by
  obtain ⟨d', hd', rfl | ⟨hnone, -⟩⟩ := hg d hd
  · exact hd'
  · exact absurd hnone hn

/-! ### What every step keeps -/

def Attempt.Sound (a : Attempt) : Prop := a.priced.treatment = a.invoice.treatment

/-- An invoice that this attempt goes by. -/
structure Attempt.Has (a : Attempt) (books : List Doc) (id : String) (d : Doc) : Prop where
  sound : a.Sound
  mem : d ∈ books
  id : d.id = id
  made : d.made = a.priced

def Phase.Kept (books : List Doc) : Phase → Prop
  | .priced a => a.Sound
  | .contacted a _ => a.Sound
  | .missing a _ => a.Sound
  | .sending a invoice _ => ∃ d, a.Has books invoice.id d ∧ d.ownTotal = a.priced.expectedCents
  | .reading a id _ => ∃ d, a.Has books id d
  | .issued a outcome => ∃ d, a.Has books outcome.invoice.id d ∧ d.Shows outcome.invoice ∧
      outcome.invoice.invoiceNumber ≠ none
  | _ => True

/-- No two pushes hold the draft, and one that is about to make its invoice
finds none. -/
structure Plane.Alone (p : Plane) : Prop where
  holder : ∀ (i j : Nat) (phase phase' : Phase), p.pushes[i]? = some phase → p.pushes[j]? = some phase' →
    phase.holds = true → phase'.holds = true → i = j
  one : p.books.length ≤ 1
  missing : ∀ (i : Nat) (a : Attempt) (contactId : String),
    p.pushes[i]? = some (Phase.missing a contactId) → p.books = []

structure Plane.Kept (number : String → Option Rat) (p : Plane) : Prop where
  phases : ∀ (i : Nat) (phase : Phase), p.pushes[i]? = some phase → phase.Kept p.books
  ids : (p.books.map Doc.id).Nodup
  row : ∀ w, p.row.issued = some w → ∃ d ∈ p.books, w.Mirrors number d
  left : p.row.status ≠ .draft → ∃ w, p.row.issued = some w
  checked : ∀ s ∈ p.sends, s.doc.ownTotal = s.expectedCents
  sent : ∀ s ∈ p.sends, ∃ d ∈ p.books, d.id = s.doc.id ∧ d.number ≠ none
  once : (p.sends.map (·.doc.id)).Nodup
  alone : p.overlapped = false → p.Alone

theorem Attempt.Has.grows {a : Attempt} {id : String} (h : a.Has books id d)
    (hg : Grows books books') : ∃ d', a.Has books' id d' ∧ d.Later d' := by
  obtain ⟨d', hd', hlater⟩ := hg d h.mem
  exact ⟨d', ⟨h.sound, hd', hlater.id.trans h.id, hlater.made.trans h.made⟩, hlater⟩

theorem Phase.Kept.grows {phase : Phase} (h : phase.Kept books) (hg : Grows books books') :
    phase.Kept books' := by
  cases phase with
  | sending a invoice adopted =>
    obtain ⟨d, hhas, htotal⟩ := h
    obtain ⟨d', hhas', hlater⟩ := hhas.grows hg
    exact ⟨d', hhas', hlater.ownTotal.trans htotal⟩
  | reading a id adopted =>
    obtain ⟨d, hhas⟩ := h
    obtain ⟨d', hhas', -⟩ := hhas.grows hg
    exact ⟨d', hhas'⟩
  | issued a outcome =>
    obtain ⟨d, hhas, hshows, hnumber⟩ := h
    obtain ⟨n, hn⟩ := Option.ne_none_iff_exists'.mp hnumber
    have hnumbered : d.number ≠ none := by
      rw [hshows.number n hn]
      exact Option.some_ne_none n
    exact ⟨d, ⟨hhas.sound, hg.numbered hhas.mem hnumbered, hhas.id, hhas.made⟩, hshows, hnumber⟩
  | _ => exact h

/-! ### One push goes on -/

section Push

variable {p : Plane} {i : Nat} {old phase : Phase}

theorem getElem?_setPush {j : Nat} {phase' : Phase}
    (h : (p.setPush i phase).pushes[j]? = some phase') :
    (j = i ∧ phase' = phase ∧ ∃ old, p.pushes[i]? = some old) ∨
      j ≠ i ∧ p.pushes[j]? = some phase' := by
  by_cases hij : j = i
  · subst hij
    have hlt : j < p.pushes.length := by
      have := (List.getElem?_eq_some_iff.mp h).1
      simpa [Plane.setPush] using this
    rw [Plane.setPush, List.getElem?_set_self hlt] at h
    cases h
    exact .inl ⟨rfl, rfl, p.pushes[j], List.getElem?_eq_getElem hlt⟩
  · rw [Plane.setPush, List.getElem?_set_ne (Ne.symm hij)] at h
    exact .inr ⟨hij, h⟩

/-- The pushes after one of them went on: what holds the draft held it before. -/
theorem Plane.Kept.setPush (h : p.Kept number) (hphase : phase.Kept p.books)
    (hholds : phase.holds = true → ∃ old, p.pushes[i]? = some old ∧ old.holds = true)
    (hmissing : ∀ a contactId, phase = .missing a contactId → p.books = []) :
    (p.setPush i phase).Kept number :=
  { h with
    phases := fun j phase' hj => by
      rcases getElem?_setPush hj with ⟨-, rfl, -⟩ | ⟨-, hj⟩
      · exact hphase
      · exact h.phases j phase' hj
    alone := fun hover => {
      holder := fun j k phase₁ phase₂ hj hk hholds₁ hholds₂ => by
        have held {j : Nat} {phase' : Phase} (hj : (p.setPush i phase).pushes[j]? = some phase')
            (hh : phase'.holds = true) : ∃ old, p.pushes[j]? = some old ∧ old.holds = true := by
          rcases getElem?_setPush hj with ⟨rfl, rfl, -⟩ | ⟨-, hj⟩
          · exact hholds hh
          · exact ⟨phase', hj, hh⟩
        obtain ⟨old₁, hold₁, hh₁⟩ := held hj hholds₁
        obtain ⟨old₂, hold₂, hh₂⟩ := held hk hholds₂
        exact (h.alone hover).holder j k old₁ old₂ hold₁ hold₂ hh₁ hh₂
      one := (h.alone hover).one
      missing := fun j a contactId hj => by
        rcases getElem?_setPush hj with ⟨-, heq, -⟩ | ⟨-, hj⟩
        · exact hmissing a contactId heq.symm
        · exact (h.alone hover).missing j a contactId hj } }

/-- Moneybird's invoices grow, and nobody is about to make one. -/
theorem Plane.Kept.grow (h : p.Kept number) {books' : List Doc} {sends' : List Send}
    (hg : Grows p.books books') (hids : (books'.map Doc.id).Nodup)
    (hchecked : ∀ s ∈ sends', s.doc.ownTotal = s.expectedCents)
    (hsent : ∀ s ∈ sends', ∃ d ∈ books', d.id = s.doc.id ∧ d.number ≠ none)
    (honce : (sends'.map (·.doc.id)).Nodup)
    (hone : p.overlapped = false → books'.length ≤ 1)
    (hmissing : p.overlapped = false → books' = [] ∨
      ∀ (j : Nat) (a : Attempt) (contactId : String), p.pushes[j]? ≠ some (Phase.missing a contactId)) :
    Plane.Kept number { p with books := books', sends := sends' } where
  phases := fun j phase hj => (h.phases j phase hj).grows hg
  ids := hids
  row := fun w hw => by
    obtain ⟨d, hd, hmirrors⟩ := h.row w hw
    refine ⟨d, hg.numbered hd ?_, hmirrors⟩
    rw [hmirrors.numbered]
    exact Option.some_ne_none _
  left := h.left
  checked := hchecked
  sent := hsent
  once := honce
  alone := fun hover => {
    holder := (h.alone hover).holder
    one := hone hover
    missing := fun j a contactId hj => (hmissing hover).resolve_right fun hno => hno j a contactId hj }

/-! ### Claiming -/

theorem Plane.Kept.claim (h : p.Kept number) (lines : List DraftLine) (lease : Option Int) :
    Plane.Kept number
      { p with
        row := { p.row with pushLeaseUntil := lease }
        pushes := p.pushes ++ [.claimed lines]
        overlapped := p.overlapped || p.pushes.any Phase.holds } := by
  have hpush {j : Nat} {phase : Phase} (hj : (p.pushes ++ [.claimed lines])[j]? = some phase) :
      p.pushes[j]? = some phase ∨ j = p.pushes.length ∧ phase = .claimed lines := by
    rcases Nat.lt_or_ge j p.pushes.length with hlt | hge
    · rw [List.getElem?_append_left hlt] at hj
      exact .inl hj
    · rw [List.getElem?_append_right hge, List.getElem?_singleton] at hj
      split at hj
      · cases hj
        exact .inr ⟨by omega, rfl⟩
      · cases hj
  exact {
    phases := fun j phase hj => by
      rcases hpush hj with hj | ⟨-, rfl⟩
      · exact h.phases j phase hj
      · trivial
    ids := h.ids
    row := h.row
    left := h.left
    checked := h.checked
    sent := h.sent
    once := h.once
    alone := fun hover => by
      rw [Bool.or_eq_false_iff] at hover
      have halone := h.alone hover.1
      have hnone : ∀ (j : Nat) (phase : Phase), p.pushes[j]? = some phase → phase.holds = false :=
        fun j phase hj => by
          have := List.any_eq_false.mp hover.2 phase (List.mem_of_getElem? hj)
          exact Bool.eq_false_iff.mpr this
      exact {
        holder := fun j k phase₁ phase₂ hj hk hh₁ hh₂ => by
          rcases hpush hj with hj | ⟨rfl, -⟩
          · rw [hnone j _ hj] at hh₁
            cases hh₁
          rcases hpush hk with hk | ⟨rfl, -⟩
          · rw [hnone k _ hk] at hh₂
            cases hh₂
          rfl
        one := halone.one
        missing := fun j a contactId hj => by
          rcases hpush hj with hj | ⟨-, heq⟩
          · exact halone.missing j a contactId hj
          · cases heq } }

end Push

/-! ### What the answers tell -/

section Answers

variable {p : Plane} {a : Attempt} {invoice : MoneybirdSalesInvoice}

theorem priceInvoice_treatment {plan : InvoiceToPush} {rates : List MoneybirdTaxRate} {priced : Priced}
    (h : priceInvoice settings plan rates = .ok priced) : priced.treatment = plan.treatment := by
  unfold priceInvoice at h
  cases hrate : resolveTaxRateId plan.treatment settings.taxRates rates with
  | error e =>
    rw [hrate] at h
    cases h
  | ok rate =>
    rw [hrate] at h
    simp only [bind, Except.bind] at h
    split at h
    · cases h
    · cases h
      rfl

/-- A draft that passes the check has the total of the lines, in its own setting. -/
theorem ownTotal_of_agrees (hmade : d.made = a.priced) (hshows : d.Shows invoice)
    (hagrees : draftDisagrees invoice a.priced.pricesAreInclTax a.priced.expectedCents = false) :
    d.ownTotal = a.priced.expectedCents := by
  have htotal := (Bool.or_eq_false_iff.mp hagrees).2
  simp only [ne_eq, decide_not, Bool.not_eq_false', decide_eq_true_eq] at htotal
  unfold Doc.ownTotal
  rw [hmade]
  split
  · next hincl =>
    rw [if_pos hincl] at htotal
    exact (hshows.incl _ htotal).symm
  · next hexcl =>
    rw [if_neg hexcl] at htotal
    exact (hshows.excl _ htotal).symm

theorem afterEnsured_kept {adopted : Bool} (hsound : a.Sound) (hmem : d ∈ books)
    (hmade : d.made = a.priced) (hshows : d.Shows invoice) :
    (afterEnsured a invoice adopted).Kept books := by
  have hhas : a.Has books invoice.id d := ⟨hsound, hmem, hshows.id.symm, hmade⟩
  unfold afterEnsured
  split
  · split
    · trivial
    · next hagrees =>
      exact ⟨d, hhas, ownTotal_of_agrees hmade hshows (Bool.eq_false_iff.mpr hagrees)⟩
  · exact ⟨d, hhas⟩

theorem afterEnsured_not_missing {adopted : Bool} {b : Attempt} {contactId : String} :
    afterEnsured a invoice adopted ≠ .missing b contactId := by
  unfold afterEnsured
  split
  · split <;> exact nofun
  · exact nofun

theorem afterLookup_cases (a : Attempt) (invoice : MoneybirdSalesInvoice) (contactId : String) :
    afterLookup a contactId invoice = .over ∨
      afterLookup a contactId invoice = afterEnsured a invoice true := by
  unfold afterLookup
  split
  · exact .inl rfl
  · exact .inr rfl

theorem afterRead_kept {adopted : Bool} {id : String} (hhas : a.Has books id d)
    (hshows : d.Shows invoice) : (afterRead a adopted invoice).Kept books := by
  unfold afterRead
  split
  · trivial
  · next hissued =>
    exact ⟨d, ⟨hhas.sound, hhas.mem, hshows.id.symm, hhas.made⟩, hshows, fun h => hissued (.inl h)⟩

theorem afterRead_not_missing {adopted : Bool} {b : Attempt} {contactId : String} :
    afterRead a adopted invoice ≠ .missing b contactId := by
  unfold afterRead
  split <;> exact nofun

theorem issuedLines_priced (a : Attempt) :
    (issuedLines a).map (fun line => (⟨line.description, line.cents⟩ : PricedLine)) =
      a.priced.lines := by
  rw [issuedLines, List.map_map]
  exact List.zipIdx_map_fst 0 a.priced.lines

theorem totalsOf_eq_some {percentage : Option String} {totals : Option Totals} {t : Totals}
    (hshows : d.Shows invoice) (h : totalsOf number invoice percentage = some totals)
    (ht : t ∈ totals) :
    t.subtotal = d.totalExclTaxCents ∧ t.total = d.totalInclTaxCents ∧
      t.taxAmount = d.totalInclTaxCents - d.totalExclTaxCents ∧
      fractionOf number percentage = some t.taxRate := by
  unfold totalsOf at h
  split at h
  · next incl excl hincl hexcl =>
    obtain ⟨rate, hrate, rfl⟩ := Option.map_eq_some_iff.mp h
    obtain rfl := Option.some.inj ht
    rw [← hshows.incl incl hincl, ← hshows.excl excl hexcl]
    exact ⟨rfl, rfl, rfl, hrate⟩
  · cases h
    cases ht

/-- The row that `recordIssued` writes. -/
theorem recordIssued_mirrors {row row' : Row} {outcome : IssuedOutcome} (hmade : d.made = a.priced)
    (hsound : a.Sound) (hshows : d.Shows outcome.invoice)
    (h : recordIssued number row a outcome = some row') :
    row' = row ∨ row.status = .draft ∧ row'.status = .sent ∧
      ∃ w, row'.issued = some w ∧ w.Mirrors number d := by
  unfold recordIssued at h
  simp only [Option.bind_eq_bind, Option.bind_eq_some_iff] at h
  obtain ⟨n, hn, date, hdate, totals, htotals, h⟩ := h
  split at h
  · cases h
    exact .inl rfl
  · next hdraft =>
    cases h
    refine .inr ⟨not_not.mp hdraft, rfl, _, rfl, ?_⟩
    exact {
      id := hshows.id
      numbered := hshows.number n hn
      treatment := by rw [hmade, ← hsound]
      rate := by rw [hmade]
      lines := by rw [hmade, issuedLines_priced]
      totals := fun t ht => by
        rw [hmade]
        exact totalsOf_eq_some hshows htotals ht }

end Answers

/-! ### One step -/

section Steps

variable {p q : Plane} {label : Option (Attempt × String × MoneybirdSalesInvoice)}

theorem send_pushes {id n : String} {expectedCents : Int} :
    (p.send id n expectedCents).pushes = p.pushes := by
  unfold Plane.send
  split
  · rfl
  · split <;> rfl

theorem eq_of_id (h : p.Kept number) {d d' : Doc} (hd : d ∈ p.books) (hd' : d' ∈ p.books)
    (hid : d.id = d'.id) : d = d' :=
  List.inj_on_of_nodup_map h.ids hd hd' hid

/-- An invoice is made by a push that found none. -/
theorem Plane.Kept.create (h : p.Kept number) {i : Nat} {a : Attempt} {contactId : String}
    {phase : Phase} {d : Doc} (hphase : p.pushes[i]? = some (.missing a contactId))
    (hfresh : ∀ e ∈ p.books, e.id ≠ d.id) (hnew : phase.Kept (p.books ++ [d]))
    (hnot : ∀ b contactId, phase ≠ .missing b contactId) :
    Plane.Kept number { p.setPush i phase with books := p.books ++ [d] } := by
  -- while no two overlap, only this push holds the draft
  have honly {j : Nat} {phase' : Phase} (hover : p.overlapped = false)
      (hj : (p.setPush i phase).pushes[j]? = some phase') (hholds : phase'.holds = true) : j = i := by
    rcases getElem?_setPush hj with ⟨hji, -, -⟩ | ⟨-, hj⟩
    · exact hji
    · exact (h.alone hover).holder j i _ _ hj hphase hholds rfl
  exact {
    phases := fun j phase' hj => by
      rcases getElem?_setPush hj with ⟨-, rfl, -⟩ | ⟨-, hj⟩
      · exact hnew
      · exact (h.phases j phase' hj).grows grows_append
    ids := by
      rw [List.map_append]
      refine List.nodup_append.mpr ⟨h.ids, List.nodup_singleton _, fun x hx y hy => ?_⟩
      obtain ⟨e, he, rfl⟩ := List.mem_map.mp hx
      rw [List.mem_singleton.mp hy]
      exact hfresh e he
    row := fun w hw => by
      obtain ⟨e, he, hmirrors⟩ := h.row w hw
      exact ⟨e, List.mem_append_left _ he, hmirrors⟩
    left := h.left
    checked := h.checked
    sent := fun s hs => by
      obtain ⟨e, he, hid, hn⟩ := h.sent s hs
      exact ⟨e, List.mem_append_left _ he, hid, hn⟩
    once := h.once
    alone := fun hover => {
      holder := fun j k phase₁ phase₂ hj hk hh₁ hh₂ =>
        (honly hover hj hh₁).trans (honly hover hk hh₂).symm
      one := by
        rw [(h.alone hover).missing i a contactId hphase]
        exact le_refl 1
      missing := fun j b c hj => by
        rcases getElem?_setPush hj with ⟨-, heq, -⟩ | ⟨hne, -⟩
        · exact absurd heq.symm (hnot b c)
        · exact absurd (honly hover hj rfl) hne } }

/-- Moneybird sends a draft that was checked. -/
theorem Plane.Kept.send (h : p.Kept number) {i : Nat} {a : Attempt} {invoice : MoneybirdSalesInvoice}
    {adopted : Bool} (hphase : p.pushes[i]? = some (.sending a invoice adopted)) (n : String) :
    (p.send invoice.id n a.priced.expectedCents).Kept number := by
  obtain ⟨d₀, hhas, htotal⟩ := h.phases i _ hphase
  unfold Plane.send
  split
  · exact h
  · next d hfind =>
    have hmem := List.mem_of_find?_eq_some hfind
    have hfound := List.find?_some hfind
    have hid : d.id = invoice.id := of_decide_eq_true hfound
    obtain rfl : d = d₀ := eq_of_id h hmem hhas.mem (hid.trans hhas.id.symm)
    split
    · exact h
    · next hdraft =>
      rw [Option.not_isSome_iff_eq_none] at hdraft
      have hids : (p.books.map fun d => if d.id = invoice.id then { d with number := some n } else d).map
          Doc.id = p.books.map Doc.id := by
        rw [List.map_map]
        refine List.map_congr_left fun e _ => ?_
        show (if e.id = invoice.id then { e with number := some n } else e).id = e.id
        split <;> rfl
      have hlater : ∀ e ∈ p.books,
          e.Later (if e.id = invoice.id then { e with number := some n } else e) := by
        intro e he
        split
        · next heq =>
          obtain rfl : e = d := eq_of_id h he hmem (heq.trans hid.symm)
          exact .inr ⟨hdraft, n, rfl⟩
        · exact .inl rfl
      refine h.grow (fun e he => ⟨_, List.mem_map_of_mem he, hlater e he⟩) (hids ▸ h.ids) ?_ ?_ ?_
        (fun hover => ?_) (fun hover => .inr ?_)
      · intro s hs
        rcases List.mem_append.mp hs with hs | hs
        · exact h.checked s hs
        · rw [List.mem_singleton.mp hs]
          exact htotal
      · intro s hs
        rcases List.mem_append.mp hs with hs | hs
        · obtain ⟨e, he, hse, hn⟩ := h.sent s hs
          refine ⟨_, List.mem_map_of_mem he, (hlater e he).id.trans hse, ?_⟩
          split
          · exact Option.some_ne_none n
          · exact hn
        · refine ⟨_, List.mem_map_of_mem hmem, ?_, ?_⟩
          · rw [List.mem_singleton.mp hs]
            exact (hlater d hmem).id
          · rw [if_pos hid]
            exact Option.some_ne_none n
      · rw [List.map_append]
        refine List.nodup_append.mpr ⟨h.once, List.nodup_singleton _, fun x hx y hy => ?_⟩
        obtain ⟨s, hs, rfl⟩ := List.mem_map.mp hx
        rw [List.mem_singleton.mp hy]
        -- an invoice that was sent before has its number
        intro heq
        obtain ⟨e, he, hse, hn⟩ := h.sent s hs
        obtain rfl := eq_of_id h he hmem (hse.trans heq)
        exact hn hdraft
      · rw [List.length_map]
        exact (h.alone hover).one
      · intro j b c hj
        rw [(h.alone hover).missing j b c hj] at hmem
        cases hmem

theorem Plane.Kept.step (h : p.Kept number) (hmeets : MadeAlike p label)
    (hstep : Step settings number tenantId reference p label q) : q.Kept number := by
  cases hstep with
  | claim hclaim hlines => exact h.claim _ _
  | unreadable hclaim hlines =>
    exact { h with alone := fun hover => { h.alone hover with } }
  | ends => exact h.setPush trivial (fun h => by cases h) (fun _ _ h => by cases h)
  | plan hphase hplan =>
    exact h.setPush trivial (fun _ => ⟨_, hphase, rfl⟩) (fun _ _ h => by cases h)
  | rates hphase hlines hpriced =>
    exact h.setPush (priceInvoice_treatment hpriced) (fun _ => ⟨_, hphase, rfl⟩)
      (fun _ _ h => by cases h)
  | contact hphase =>
    have hsound := h.phases _ _ hphase
    exact h.setPush hsound (fun _ => ⟨_, hphase, rfl⟩) (fun _ _ h => by cases h)
  | lookupMissing hphase hnone =>
    have hsound := h.phases _ _ hphase
    exact h.setPush hsound (fun _ => ⟨_, hphase, rfl⟩) (fun _ _ _ => hnone)
  | @lookup i a contactId d invoice hphase hdoc hshows =>
    rcases afterLookup_cases a invoice contactId with hover | hgoes
    · rw [hover]
      exact h.setPush trivial (fun h => by cases h) (fun _ _ h => by cases h)
    · by_cases hover : afterLookup a contactId invoice = .over
      · rw [hover]
        exact h.setPush trivial (fun h => by cases h) (fun _ _ h => by cases h)
      · have hmade := hmeets a contactId invoice rfl hover d hdoc hshows.id.symm
        have hsound := h.phases _ _ hphase
        rw [hgoes]
        exact h.setPush (afterEnsured_kept hsound hdoc hmade hshows) (fun _ => ⟨_, hphase, rfl⟩)
          (fun _ _ h => absurd h afterEnsured_not_missing)
  | createLost hphase hfresh hmade hcontact hdraft =>
    exact h.create hphase hfresh trivial (fun _ _ h => by cases h)
  | create hphase hfresh hmade hcontact hdraft hshows =>
    exact h.create hphase hfresh
      (afterEnsured_kept (h.phases _ _ hphase) (List.mem_append_right _ (List.mem_singleton_self _))
        hmade hshows)
      fun _ _ => afterEnsured_not_missing
  | sendLost hphase =>
    exact (h.send hphase _).setPush trivial (fun h => by cases h) (fun _ _ h => by cases h)
  | @send i a invoice adopted n hphase =>
    have hsent := h.send hphase n
    have hpushes : (p.send invoice.id n a.priced.expectedCents).pushes = p.pushes := send_pushes
    have hold : (p.send invoice.id n a.priced.expectedCents).pushes[i]? = some (.sending a invoice adopted) := by
      rw [hpushes]
      exact hphase
    obtain ⟨d, hhas, -⟩ := hsent.phases i _ hold
    exact hsent.setPush ⟨d, hhas⟩ (fun _ => ⟨_, hold, rfl⟩) (fun _ _ h => by cases h)
  | @read i a id adopted d invoice hphase hdoc hid hshows =>
    obtain ⟨d', hhas⟩ := h.phases i _ hphase
    obtain rfl : d = d' := eq_of_id h hdoc hhas.mem (hid.trans hhas.id.symm)
    exact h.setPush (afterRead_kept hhas hshows) (fun _ => ⟨_, hphase, rfl⟩)
      (fun _ _ h => absurd h afterRead_not_missing)
  | @record i a outcome row hphase hrecord =>
    obtain ⟨d, hhas, hshows, -⟩ := h.phases i _ hphase
    have hended : (p.setPush i .over).Kept number :=
      h.setPush trivial (fun h => by cases h) (fun _ _ h => by cases h)
    rcases recordIssued_mirrors hhas.made hhas.sound hshows hrecord with rfl | ⟨-, -, w, hw, hmirrors⟩
    · exact hended
    · exact { hended with
        row := fun w' hw' => by
          rw [hw] at hw'
          cases hw'
          exact ⟨d, hhas.mem, hmirrors⟩
        left := fun _ => ⟨w, hw⟩
        alone := fun hover => { hended.alone hover with } }

end Steps

/-! ### Every run -/

variable {p : Plane}

theorem Plane.start_kept (lines : List RawLine) : (Plane.start lines).Kept number where
  phases := fun _ _ hj => by cases hj
  ids := List.nodup_nil
  row := fun _ hw => by cases hw
  left := fun hleft => absurd rfl hleft
  checked := fun _ hs => by cases hs
  sent := fun _ hs => by cases hs
  once := List.nodup_nil
  alone := fun _ => {
    holder := fun _ _ _ _ hj => by cases hj
    one := Nat.zero_le 1
    missing := fun _ _ _ hj => by cases hj }

theorem Reached.kept (h : Reached settings number tenantId reference MadeAlike p) :
    p.Kept number := by
  induction h with
  | start lines => exact Plane.start_kept lines
  | step _ hstep hmeets ih => exact ih.step hmeets hstep

/-- A draft is sent once. -/
theorem Plane.Kept.sends_le (h : p.Kept number) : p.sends.length ≤ p.books.length := by
  have hsub : p.sends.map (·.doc.id) ⊆ p.books.map Doc.id := by
    intro id hid
    obtain ⟨s, hs, rfl⟩ := List.mem_map.mp hid
    obtain ⟨d, hd, hds, -⟩ := h.sent s hs
    exact List.mem_map.mpr ⟨d, hd, hds⟩
  have hle := (List.subperm_of_subset h.once hsub).length_le
  rw [List.length_map, List.length_map] at hle
  exact hle

/-- **The row mirrors the invoice that Moneybird numbered**, over any order of
claims, crashes and lost answers, where no push goes on with an invoice that was
made from another treatment, rate or lines than its own. -/
theorem row_mirrors (h : Reached settings number tenantId reference MadeAlike p) :
    p.Mirrored number where
  one := fun hover => ⟨(h.kept.alone hover).one, h.kept.sends_le.trans (h.kept.alone hover).one⟩
  checked := h.kept.checked
  row := fun hleft => by
    obtain ⟨w, hw⟩ := h.kept.left hleft
    exact ⟨w, hw, h.kept.row w hw⟩

/-! ### A push whose send was answered with silence, and the next one -/

section Retry

variable {Meets : Plane → Option (Attempt × String × MoneybirdSalesInvoice) → Prop}
variable {a : Attempt} {now : Int} {lines : List DraftLine} {standing : BuyerStanding}
variable {rates : List MoneybirdTaxRate}

/-- Another push has claimed the draft. -/
def Plane.claimedBy (p : Plane) (now : Int) (phase : Phase) : Plane :=
  { p with
    row := { p.row with pushLeaseUntil := some (now + pushLease) }
    pushes := p.pushes ++ [phase]
    overlapped := p.overlapped || p.pushes.any Phase.holds }

theorem setPush_claimedBy (phase phase' : Phase) :
    (p.claimedBy now phase).setPush p.pushes.length phase' = p.claimedBy now phase' := by
  simp [Plane.claimedBy, Plane.setPush]

theorem getElem?_claimedBy (phase : Phase) :
    (p.claimedBy now phase).pushes[p.pushes.length]? = some phase := by
  simp [Plane.claimedBy]

/-- A push that has got as far as its contact. -/
theorem Reached.contacted (h : Reached settings number tenantId reference Meets p)
    (hmeets : ∀ p, Meets p none) (now : Int) (hclaim : p.row.claimable now = true)
    (hlines : linesOf p.row.lines = some lines)
    (hplan : planPush settings tenantId reference lines standing = .ok a.invoice)
    (hne : a.invoice.lines ≠ []) (hpriced : priceInvoice settings a.invoice rates = .ok a.priced)
    (contactId : String) :
    Reached settings number tenantId reference Meets (p.claimedBy now (.contacted a contactId)) := by
  have hclaimed := h.step (.claim hclaim hlines) (hmeets p)
  have hplanned := hclaimed.step (.plan (getElem?_claimedBy _) hplan) (hmeets _)
  rw [← Plane.claimedBy, setPush_claimedBy] at hplanned
  have hpriced' := hplanned.step (.rates (getElem?_claimedBy _) hne hpriced) (hmeets _)
  rw [setPush_claimedBy] at hpriced'
  have hstep : Step settings number tenantId reference (p.claimedBy now (.priced a)) none
      ((p.claimedBy now (.priced a)).setPush p.pushes.length (.contacted a contactId)) :=
    .contact (getElem?_claimedBy _)
  rw [setPush_claimedBy] at hstep
  exact hpriced'.step hstep (hmeets _)

end Retry

def dutch : Settings := ⟨"NL", false, .manual, ⟨"1", "2", none⟩⟩

def percentages (text : String) : Option Rat := if text = "21.0" then some 21 else none

def medium : List RawLine := [⟨some "Medium", some 1200⟩]

def salesRates : List MoneybirdTaxRate :=
  [⟨"1", "21%", some "21.0", some "sales_invoice", true⟩, ⟨"2", "0%", none, some "sales_invoice", true⟩]

/-- The buyer, once with an address at home and once with one in Germany and
VIES's answer. -/
def atHome : BuyerStanding :=
  ⟨some ⟨.business, "Jansen", "Street 1", none, "1000 AA", "Town", "NL", none, none⟩, none⟩

def abroad : BuyerStanding :=
  ⟨some ⟨.business, "Jansen", "Street 1", none, "10115", "Town", "DE", some "1", none⟩,
    some ⟨"DE", "1", true, some "2026-01-01", none, "2026-01-01"⟩⟩

def attemptOf (standing : BuyerStanding) : Attempt :=
  let invoice := ((planPush dutch "t" "r" [⟨"Medium", 1200⟩] standing).toOption).getD ⟨"", .outsideEu, ⟨"", none, none, "", none, "", "", "", none, none⟩, []⟩
  ⟨invoice, ((priceInvoice dutch invoice salesRates).toOption).getD ⟨.outsideEu, "", none, true, []⟩⟩

/-- The invoice as it was made for the buyer at home, and as it was sent. -/
def madeAtHome (number : Option String) : Doc :=
  ⟨"7", "c", (attemptOf atHome).priced, 1200, 992, number⟩

def seenAtHome (number : Option String) : MoneybirdSalesInvoice :=
  ⟨"7", number, some (if number = none then "draft" else "open"), some "c",
    number.map fun _ => "2026-01-02", none, some true, some 1200, some 992⟩

/-- What the attempts come to. -/
theorem attempts_priced : (∀ standing ∈ [atHome, abroad],
      planPush dutch "t" "r" [⟨"Medium", 1200⟩] standing = .ok (attemptOf standing).invoice ∧
        (attemptOf standing).invoice.lines ≠ [] ∧
        priceInvoice dutch (attemptOf standing).invoice salesRates = .ok (attemptOf standing).priced) ∧
    (attemptOf atHome).priced.pricesAreInclTax = true ∧
    (attemptOf atHome).priced.treatment = .domesticStandard ∧
    (attemptOf atHome).priced.expectedCents = 1200 ∧
    afterEnsured (attemptOf atHome) (seenAtHome none) false =
      .sending (attemptOf atHome) (seenAtHome none) false := by
  decide +kernel

theorem shows_seenAtHome (number : Option String) : (madeAtHome number).Shows (seenAtHome number) where
  id := rfl
  contact := fun _ hc => (Option.some.inj hc).symm
  draft := fun h => by
    by_cases hn : number = none
    · exact hn
    · have hopen : (seenAtHome number).state = some "open" := by rw [seenAtHome, if_neg hn]
      rw [hopen] at h
      exact absurd h (by decide)
  number := fun _ hn => hn
  setting := fun b hb => (Option.some.inj hb).symm.trans attempts_priced.2.1.symm
  incl := fun _ hc => (Option.some.inj hc).symm
  excl := fun _ hc => (Option.some.inj hc).symm

/-- The invoice was made and sent by a push that then died, and the lease has run
out. -/
def sentOnce : Plane :=
  { row := ⟨.draft, some pushLease, medium, none⟩
    books := [madeAtHome (some "2026-1")]
    pushes := [.over]
    overlapped := false
    sends := [⟨madeAtHome none, 1200⟩] }

section Retry

variable {Meets : Plane → Option (Attempt × String × MoneybirdSalesInvoice) → Prop}

theorem sentOnce_reached (hmeets : ∀ p, Meets p none) :
    Reached dutch percentages "t" "r" Meets sentOnce := by
  obtain ⟨hplan, hlines, hpriced⟩ := attempts_priced.1 atHome List.mem_cons_self
  have hstart : Reached dutch percentages "t" "r" Meets (.start medium) := .start medium
  have hcontacted := hstart.contacted hmeets 0 rfl rfl hplan hlines hpriced "c"
  have hmissing := hcontacted.step (.lookupMissing (i := 0) rfl rfl) (hmeets _)
  have hcreated := hmissing.step (.create (i := 0) (d := madeAtHome none) rfl (fun _ h => by cases h) rfl rfl rfl
    (shows_seenAtHome none)) (hmeets _)
  rw [attempts_priced.2.2.2.2] at hcreated
  have hsent := hcreated.step (.sendLost (i := 0) (n := "2026-1") rfl) (hmeets _)
  rw [attempts_priced.2.2.2.1] at hsent
  exact hsent

variable (Meets) in
/-- The next push finds the invoice sent, reads it back and writes the row. -/
theorem adopted_reached {a : Attempt} (standing : BuyerStanding) {row : Row} (hmeets : ∀ p, Meets p none)
    (hplan : planPush dutch "t" "r" [⟨"Medium", 1200⟩] standing = .ok a.invoice)
    (hne : a.invoice.lines ≠ []) (hpriced : priceInvoice dutch a.invoice salesRates = .ok a.priced)
    (hadopts : ∀ p, p.books = sentOnce.books → Meets p (some (a, "c", seenAtHome (some "2026-1"))))
    (hrecord : recordIssued percentages
      { sentOnce.row with pushLeaseUntil := some (pushLease + 1 + pushLease) } a
      ⟨seenAtHome (some "2026-1"), true⟩ = some row) :
    ∃ p, Reached dutch percentages "t" "r" Meets p ∧ p.row = row ∧ p.books = sentOnce.books := by
  have hcontacted := (sentOnce_reached hmeets).contacted hmeets (pushLease + 1) rfl rfl hplan hne hpriced "c"
  have hdoc : madeAtHome (some "2026-1") ∈ sentOnce.books := List.mem_singleton_self _
  have hfound := hcontacted.step
    (.lookup (i := 1) rfl hdoc (shows_seenAtHome _)) (hadopts _ rfl)
  have hread := hfound.step (.read (i := 1) rfl hdoc rfl (shows_seenAtHome _)) (hmeets _)
  exact ⟨_, hread.step (.record (i := 1) rfl hrecord) (hmeets _), rfl, rfl⟩

end Retry

/-- The row that the push after it writes. -/
def recordedFor (standing : BuyerStanding) : Option Row :=
  recordIssued percentages { sentOnce.row with pushLeaseUntil := some (pushLease + 1 + pushLease) }
    (attemptOf standing) ⟨seenAtHome (some "2026-1"), true⟩

/-- It says that the invoice was sent, and for the buyer abroad that the tax is reversed. -/
theorem recordedFor_sent : (recordedFor atHome).any (fun row => row.status = .sent) = true ∧
    (recordedFor abroad).any (fun row => row.status = .sent &&
      row.issued.any (·.vatTreatment = .reverseCharge)) = true := by
  decide +kernel

theorem row_mirrors_retried : ∃ p : Plane, p.row.status = .sent ∧ p.Mirrored percentages := by
  obtain ⟨row, hrecord, hsent⟩ := (Option.any_eq_true _ _).mp recordedFor_sent.1
  obtain ⟨hplan, hlines, hpriced⟩ := attempts_priced.1 atHome List.mem_cons_self
  obtain ⟨p, hp, rfl, -⟩ := adopted_reached MadeAlike atHome
    (fun _ _ _ _ h => by cases h) hplan hlines hpriced
    (fun p hbooks a contactId invoice hlabel _ d hd _ => by
      cases hlabel
      rw [hbooks] at hd
      rw [List.mem_singleton.mp hd]
      rfl) hrecord
  exact ⟨p, of_decide_eq_true hsent, row_mirrors hp⟩

/-- The buyer has moved abroad since, and the row says so of an invoice that was
made for a buyer at home. -/
theorem row_says_other_treatment :
    ¬ ∀ p, Reached dutch percentages "t" "r" (fun _ _ => True) p → p.Mirrored percentages := by
  intro h
  obtain ⟨row, hrecord, hrow⟩ := (Option.any_eq_true _ _).mp recordedFor_sent.2
  obtain ⟨hplan, hlines, hpriced⟩ :=
    attempts_priced.1 abroad (List.mem_cons_of_mem _ List.mem_cons_self)
  rw [Bool.and_eq_true] at hrow
  obtain ⟨p, hp, rfl, hbooks⟩ := adopted_reached (fun _ _ => True) abroad (fun _ => trivial)
    hplan hlines hpriced (fun _ _ => trivial) hrecord
  have hleft : p.row.status ≠ .draft := by
    rw [of_decide_eq_true hrow.1]
    decide
  obtain ⟨w, hw, d, hd, hmirrors⟩ := (h p hp).row hleft
  rw [hw] at hrow
  have htreatment : w.vatTreatment = .reverseCharge := of_decide_eq_true hrow.2
  rw [hbooks] at hd
  rw [hmirrors.treatment, List.mem_singleton.mp hd] at htreatment
  have hmade : (madeAtHome (some "2026-1")).made.treatment = .domesticStandard :=
    attempts_priced.2.2.1
  rw [hmade] at htreatment
  cases htreatment

end Ownpace.Push
