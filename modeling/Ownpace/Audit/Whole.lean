/-
Ownpace/Audit/Whole.lean

What a log store holds that downloads the audit log page by page, while the log goes on: every
event once, in order, and none missing up to its cursor (`download_whole`).

An event becomes visible late by no more than its transaction runs for, so one that has settled
at a reading has everything before it in the log (`Ledger.Later`).  That makes a page of one
view whole.  A page of several organisations is read at several moments, and is whole where its
events had settled at each of them.
-/
import Mathlib.Data.List.Nodup
import Ownpace.Audit.Download
import Ownpace.Await.Exec

namespace Ownpace.Audit

open Await

variable {I T : Type} {runsFor settle limit : Nat}

/-! ### The log goes on -/

structure Ledger.Sound (l : Ledger I T) : Prop where
  ids : (l.committed.map (·.id)).Nodup
  times : ∀ tx ∈ l.transactions, ∀ e ∈ tx.2, e.time = tx.1

/-- What is committed stays, and what is committed later has not settled now. -/
structure Ledger.Later (settle : Nat) (l l' : Ledger I T) : Prop where
  now : l.now ≤ l'.now
  committed : l.committed ⊆ l'.committed
  unsettled : ∀ e ∈ l'.committed, e ∈ l.committed ∨ l.now ≤ e.time + settle

variable {l l' l'' : Ledger I T}

theorem Ledger.Later.refl (l : Ledger I T) : Ledger.Later settle l l :=
  ⟨Nat.le_refl _, List.Subset.refl _, fun _ he => .inl he⟩

theorem Ledger.Later.trans (h : Ledger.Later settle l l') (h' : Ledger.Later settle l' l'') :
    Ledger.Later settle l l'' := by
  refine ⟨h.now.trans h'.now, List.Subset.trans h.committed h'.committed, fun e he => ?_⟩
  rcases h'.unsettled e he with he | hnow
  · exact h.unsettled e he
  · exact .inr (h.now.trans hnow)

theorem Ledger.Later.of_eq (hnow : l.now ≤ l'.now) (hcommitted : l'.committed = l.committed) :
    Ledger.Later settle l l' :=
  ⟨hnow, hcommitted ▸ List.Subset.refl _, fun _ he => .inl (hcommitted ▸ he)⟩

theorem mem_split {α : Type} {l before after : List α} {tx tx' : α}
    (h : l = before ++ tx :: after) (htx : tx' ∈ before ++ after) : tx' ∈ l := by
  rw [h]
  rcases List.mem_append.mp htx with htx | htx
  · exact List.mem_append_left _ htx
  · exact List.mem_append_right _ (List.mem_cons_of_mem _ htx)

theorem Ledger.Step.sound (hl : l.Sound) (h : Ledger.Step runsFor l l') : l'.Sound := by
  cases h with
  | tick => exact ⟨hl.ids, hl.times⟩
  | began =>
      refine ⟨hl.ids, fun tx htx e he => ?_⟩
      rcases List.mem_append.mp htx with htx | htx
      · exact hl.times tx htx e he
      · rw [List.mem_singleton.mp htx] at he
        cases he
  | @recorded before after start events e₀ h he₀ =>
      refine ⟨hl.ids, fun tx htx e he => ?_⟩
      have hold := hl.times (start, events) (h ▸ List.mem_append_right _ List.mem_cons_self)
      rcases List.mem_append.mp htx with htx | htx
      · exact hl.times tx (mem_split h (List.mem_append_left _ htx)) e he
      · rcases List.mem_cons.mp htx with rfl | htx
        · rcases List.mem_append.mp he with he | he
          · exact hold e he
          · exact List.mem_singleton.mp he ▸ he₀
        · exact hl.times tx (mem_split h (List.mem_append_right _ htx)) e he
  | committed h hruns hids => exact ⟨hids, fun tx htx => hl.times tx (mem_split h htx)⟩
  | rolledBack h => exact ⟨hl.ids, fun tx htx => hl.times tx (mem_split h htx)⟩

theorem Ledger.Step.later (hsettle : runsFor ≤ settle) (hl : l.Sound)
    (h : Ledger.Step runsFor l l') : Ledger.Later settle l l' := by
  cases h with
  | tick h => exact .of_eq h rfl
  | began | recorded | rolledBack => exact .of_eq (Nat.le_refl _) rfl
  | @committed before after start events h hruns hids =>
      refine ⟨Nat.le_refl _, List.subset_append_left _ _, fun e he => ?_⟩
      rcases List.mem_append.mp he with he | he
      · exact .inl he
      · have htime : e.time = start :=
          hl.times (start, events) (h ▸ List.mem_append_right _ List.mem_cons_self) e he
        exact .inr (by omega)

/-! ### One reading -/

section

variable [LinearOrder I] [DecidableEq T]
variable {view : View T} {views : List (View T)} {after : Option (Nat ×ₗ I)}
variable {rows events : List (AuditExportEvent I T)} {e x : AuditExportEvent I T} {now : Nat}

theorem selected_iff : selected settle now view after e = true ↔
    e.time + settle < now ∧ view.covers e = true ∧ ∀ c, after = some c → c < e.key := by
  cases after <;> simp [selected, and_assoc]

omit [DecidableEq T] in
theorem time_le_of_key_le (h : e.key ≤ x.key) : e.time ≤ x.time := by
  rcases Prod.Lex.le_iff.mp h with hlt | ⟨heq, -⟩
  · exact Nat.le_of_lt hlt
  · exact Nat.le_of_eq heq

omit [LinearOrder I] [DecidableEq T] in
/-- Events of the log with one key are one event. -/
theorem eq_of_key (hl : l.Sound) (he : e ∈ l.committed) (hx : x ∈ l.committed)
    (h : e.key = x.key) : e = x :=
  List.inj_on_of_nodup_map hl.ids he hx (congrArg (fun k => (ofLex k).2) h)

/-- What a page of one view was, as long as the log goes on. -/
structure Reading (settle limit : Nat) (view : View T) (after : Option (Nat ×ₗ I)) (now : Nat)
    (rows : List (AuditExportEvent I T)) (l : Ledger I T) : Prop where
  now_le : now ≤ l.now
  sub : ∀ e ∈ rows, e ∈ l.committed ∧ selected settle now view after e = true
  sorted : rows.Pairwise fun a b => a.key < b.key
  length_le : rows.length ≤ limit
  misses : ∀ e ∈ l.committed, selected settle now view after e = true →
    e ∈ rows ∨ rows.length = limit ∧ ∀ x ∈ rows, x.key < e.key

theorem Reading.nodup (h : Reading settle limit view after now rows l) : rows.Nodup :=
  h.sorted.imp fun hlt heq => absurd (congrArg AuditExportEvent.key heq) hlt.ne

theorem reading_of_page (hl : l.Sound) : Reading settle limit view after l.now
    (auditExportPage settle view after limit l) l := by
  have hinj : ∀ a ∈ l.committed, ∀ b ∈ l.committed, a.key = b.key → a = b :=
    fun a ha b hb => eq_of_key hl ha hb
  have hkeys : ((l.committed.filter (selected settle l.now view after)).map
      AuditExportEvent.key).Nodup := by
    apply List.Nodup.map_on
    · intro a ha b hb
      exact hinj a (List.mem_filter.mp ha).1 b (List.mem_filter.mp hb).1
    · exact (List.Nodup.of_map _ hl.ids).filter _
  have hsub : ∀ e ∈ auditExportPage settle view after limit l,
      e ∈ l.committed ∧ selected settle l.now view after e = true :=
    fun e he => List.mem_filter.mp (Store.mem_of_mem_firsts he)
  refine ⟨Nat.le_refl _, hsub, Store.pairwise_firsts hkeys, Store.length_firsts_le,
    fun e he hselected => ?_⟩
  rcases Store.mem_firsts_or AuditExportEvent.key limit (List.mem_filter.mpr ⟨he, hselected⟩) with
    hmem | ⟨hfull, hle⟩
  · exact .inl hmem
  · by_cases hmem : e ∈ auditExportPage settle view after limit l
    · exact .inl hmem
    · refine .inr ⟨hfull, fun x hx => lt_of_le_of_ne (hle x hx) fun heq => hmem ?_⟩
      exact hinj x (hsub x hx).1 e he heq ▸ hx

theorem Reading.later (h : Reading settle limit view after now rows l)
    (hl : Ledger.Later settle l l') : Reading settle limit view after now rows l' := by
  refine ⟨h.now_le.trans hl.now, fun e he => ⟨hl.committed (h.sub e he).1, (h.sub e he).2⟩,
    h.sorted, h.length_le, fun e he hselected => ?_⟩
  rcases hl.unsettled e he with he | hunsettled
  · exact h.misses e he hselected
  · have hsettled := (selected_iff.mp hselected).1
    have hnow := h.now_le
    omega

/-! ### A page -/

/-- The event is one of the download's. -/
def Covered (views : List (View T)) (e : AuditExportEvent I T) : Prop :=
  ∃ view ∈ views, view.covers e = true

omit [LinearOrder I] in
theorem Covered.exists_time {times : List Nat} (h : Covered views e) (hne : views ≠ [] → times ≠ []) :
    ∃ now, now ∈ times := by
  obtain ⟨view, hview, -⟩ := h
  exact List.exists_mem_of_ne_nil _ (hne (List.ne_nil_of_mem hview))

/-- What a page was, read at these moments. -/
structure Page (settle limit : Nat) (views : List (View T)) (after : Option (Nat ×ₗ I))
    (times : List Nat) (events : List (AuditExportEvent I T)) (l : Ledger I T) : Prop where
  times_le : ∀ now ∈ times, now ≤ l.now
  times_of : views ≠ [] → times ≠ []
  sorted : events.Pairwise fun a b => a.key < b.key
  sub : ∀ e ∈ events, e ∈ l.committed ∧ Covered views e ∧ ∀ c, after = some c → c < e.key
  one : views.length ≤ 1 → ∀ e ∈ events, ∀ now ∈ times, e.time + settle < now
  full : (∀ e ∈ events, ∀ now ∈ times, e.time + settle < now) → ∀ e ∈ l.committed,
    Covered views e → (∀ c, after = some c → c < e.key) →
    ∀ last, events.getLast? = some last → e.key ≤ last.key → e ∈ events
  caughtUp : events.length < limit → ∀ e ∈ l.committed, Covered views e →
    (∀ c, after = some c → c < e.key) → (∀ now ∈ times, e.time + settle < now) → e ∈ events

theorem Page.later {times : List Nat} (h : Page settle limit views after times events l)
    (hl : Ledger.Later settle l l') : Page settle limit views after times events l' := by
  refine ⟨fun now hnow => (h.times_le now hnow).trans hl.now, h.times_of, h.sorted,
    fun e he => ⟨hl.committed (h.sub e he).1, (h.sub e he).2⟩, h.one,
    fun hwhole e he hcovered hafter last hlast hle => ?_,
    fun hshort e he hcovered hafter hsettled => ?_⟩
  · rcases hl.unsettled e he with he | hunsettled
    · exact h.full hwhole e he hcovered hafter last hlast hle
    · obtain ⟨now, hnow⟩ := hcovered.exists_time h.times_of
      have hsettled := hwhole last (List.mem_of_getLast? hlast) now hnow
      have hle := time_le_of_key_le hle
      have hnow := h.times_le now hnow
      omega
  · rcases hl.unsettled e he with he | hunsettled
    · exact h.caughtUp hshort e he hcovered hafter hsettled
    · obtain ⟨now, hnow⟩ := hcovered.exists_time h.times_of
      have hsettled := hsettled now hnow
      have hnow := h.times_le now hnow
      omega

/-- The readings of one page: which view, when, and the rows. -/
abbrev Readings (I T : Type) : Type := List (View T × Nat × List (AuditExportEvent I T))

/-- The readings that a page is merged from. -/
structure Read (settle limit : Nat) (views : List (View T)) (after : Option (Nat ×ₗ I))
    (readings : Readings I T) (l : Ledger I T) : Prop where
  views_eq : readings.map Prod.fst = views
  each : ∀ r ∈ readings, Reading settle limit r.1 after r.2.1 r.2.2 l

def gathered (readings : Readings I T) : List (AuditExportEvent I T) :=
  readings.flatMap fun r => r.2.2

variable {readings : Readings I T}

theorem mem_gathered (h : Read settle limit views after readings l) (he : e ∈ gathered readings) :
    e ∈ l.committed ∧ Covered views e ∧ ∀ c, after = some c → c < e.key := by
  obtain ⟨r, hr, he⟩ := List.mem_flatMap.mp he
  obtain ⟨hmem, hselected⟩ := (h.each r hr).sub e he
  obtain ⟨-, hview, hafter⟩ := selected_iff.mp hselected
  exact ⟨hmem, ⟨r.1, h.views_eq ▸ List.mem_map_of_mem hr, hview⟩, hafter⟩

/-- Two views of one page share no event. -/
def Apart (views : List (View T)) : Prop :=
  ∀ view ∈ views, ∀ view' ∈ views, ∀ e : AuditExportEvent I T,
    view.covers e = true → view'.covers e = true → view = view'

theorem nodup_gathered (hviews : views.Nodup) (hapart : Apart (I := I) views)
    (h : Read settle limit views after readings l) : (gathered readings).Nodup := by
  apply List.nodup_flatMap.mpr
  constructor
  · exact fun r hr => (h.each r hr).nodup
  · have hdistinct : readings.Pairwise fun r r' => r.1 ≠ r'.1 :=
      List.pairwise_map.mp (h.views_eq ▸ hviews)
    refine List.Pairwise.imp_of_mem (fun {r r'} hr hr' hne => ?_) hdistinct
    intro e he he'
    have hcovers := (selected_iff.mp ((h.each r hr).sub e he).2).2.1
    have hcovers' := (selected_iff.mp ((h.each r' hr').sub e he').2).2.1
    have hmem : r.1 ∈ views := h.views_eq ▸ List.mem_map_of_mem hr
    have hmem' : r'.1 ∈ views := h.views_eq ▸ List.mem_map_of_mem hr'
    exact hne (hapart r.1 hmem r'.1 hmem' e hcovers hcovers')

/-- **The page merged from its readings.** -/
theorem page_of_read (hl : l.Sound) (hviews : views.Nodup) (hapart : Apart (I := I) views)
    (h : Read settle limit views after readings l) :
    Page settle limit views after (readings.map fun r => r.2.1)
      (Store.firsts AuditExportEvent.key limit (gathered readings)) l := by
  have hinj : ∀ a ∈ gathered readings, ∀ b ∈ l.committed, a.key = b.key → a = b :=
    fun a ha b hb => eq_of_key hl (mem_gathered h ha).1 hb
  have hkeys : ((gathered readings).map AuditExportEvent.key).Nodup :=
    (nodup_gathered hviews hapart h).map_on fun a ha b hb =>
      hinj a ha b (mem_gathered h hb).1
  have hreading : ∀ e : AuditExportEvent I T, Covered views e → ∃ r ∈ readings, r.1.covers e = true := by
    rintro e ⟨view, hview, hcovers⟩
    rw [← h.views_eq] at hview
    obtain ⟨r, hr, rfl⟩ := List.mem_map.mp hview
    exact ⟨r, hr, hcovers⟩
  refine ⟨fun now hnow => ?_, fun hne htimes => ?_, Store.pairwise_firsts hkeys,
    fun e he => mem_gathered h (Store.mem_of_mem_firsts he), fun hone e he now hnow => ?_,
    fun hwhole e he hcovered hafter last hlast hle => ?_,
    fun hshort e he hcovered hafter hsettled => ?_⟩
  · obtain ⟨r, hr, rfl⟩ := List.mem_map.mp hnow
    exact (h.each r hr).now_le
  · have hnil := List.map_eq_nil_iff.mp htimes
    rw [hnil] at h
    exact hne h.views_eq.symm
  · -- with one view, the moment is the one that the event was read at
    obtain ⟨r, hr, hrow⟩ := List.mem_flatMap.mp (Store.mem_of_mem_firsts he)
    obtain ⟨r', hr', rfl⟩ := List.mem_map.mp hnow
    rw [← h.views_eq, List.length_map] at hone
    obtain rfl : r = r' := by
      obtain ⟨i, hi, rfl⟩ := List.mem_iff_getElem.mp hr
      obtain ⟨j, hj, rfl⟩ := List.mem_iff_getElem.mp hr'
      congr 1
      omega
    exact (selected_iff.mp ((h.each r hr).sub e hrow).2).1
  · obtain ⟨r, hr, hcovers⟩ := hreading e hcovered
    have hlastmem := List.mem_of_getLast? hlast
    have hsettled := hwhole last hlastmem r.2.1 (List.mem_map_of_mem hr)
    have htime := time_le_of_key_le hle
    have hselected : selected settle r.2.1 r.1 after e = true :=
      selected_iff.mpr ⟨by omega, hcovers, hafter⟩
    have hsub : r.2.2 ⊆ gathered readings := fun x hx => List.mem_flatMap.mpr ⟨r, hr, hx⟩
    exact Store.mem_firsts_of_reading hsub (h.each r hr).nodup ((h.each r hr).misses e he hselected)
      (fun x hx => hinj x hx e he) hlastmem hle
  · obtain ⟨r, hr, hcovers⟩ := hreading e hcovered
    have hselected : selected settle r.2.1 r.1 after e = true :=
      selected_iff.mpr ⟨hsettled r.2.1 (List.mem_map_of_mem hr), hcovers, hafter⟩
    -- a page that is not full left nothing of any reading out
    have hin : ∀ x ∈ gathered readings,
        x ∈ Store.firsts AuditExportEvent.key limit (gathered readings) := by
      intro x hx
      rcases Store.mem_firsts_or AuditExportEvent.key limit hx with hmem | ⟨hfull, -⟩
      · exact hmem
      · omega
    rcases (h.each r hr).misses e he hselected with hmem | ⟨hfull, -⟩
    · exact hin e (List.mem_flatMap.mpr ⟨r, hr, hmem⟩)
    · have hsub : r.2.2 ⊆ Store.firsts AuditExportEvent.key limit (gathered readings) :=
        fun x hx => hin x (List.mem_flatMap.mpr ⟨r, hr, hx⟩)
      have hle := (List.subperm_of_subset (h.each r hr).nodup hsub).length_le
      omega

/-! ### The log store -/

/-- What the store holds is the log up to its cursor, where its pages were whole. -/
structure Sound (settle : Nat) (views : List (View T)) (s : World I T) : Prop where
  ledger : s.ledger.Sound
  sorted : s.got.Pairwise fun a b => a.key < b.key
  sub : ∀ e ∈ s.got, e ∈ s.ledger.committed ∧ Covered views e
  after : s.after = s.got.getLast?.map AuditExportEvent.key
  one : views.length ≤ 1 → s.whole = true
  settled : s.whole = true → ∀ last, s.got.getLast? = some last → last.time + settle < s.ledger.now
  whole : s.whole = true → ∀ e ∈ s.ledger.committed, Covered views e →
    ∀ last, s.got.getLast? = some last → e.key ≤ last.key → e ∈ s.got
  times : ∀ times, s.caughtUp = some times →
    (views ≠ [] → times ≠ []) ∧ ∀ now ∈ times, now ≤ s.ledger.now
  caughtUp : s.whole = true → ∀ times, s.caughtUp = some times → ∀ e ∈ s.ledger.committed,
    Covered views e → (∀ now ∈ times, e.time + settle < now) → e ∈ s.got

/-- The log went on, and the store did nothing. -/
structure Later (settle : Nat) (s s' : World I T) : Prop where
  ledger : Ledger.Later settle s.ledger s'.ledger
  same : s' = { s with ledger := s'.ledger }

variable {s s' s'' : World I T}

omit [LinearOrder I] [DecidableEq T] in
theorem Later.refl (s : World I T) : Later settle s s := ⟨.refl _, rfl⟩

omit [LinearOrder I] [DecidableEq T] in
theorem Later.trans (s s' s'' : World I T) (h : Later settle s s') (h' : Later settle s' s'') :
    Later settle s s'' := by
  refine ⟨h.ledger.trans h'.ledger, ?_⟩
  rw [h'.same, h.same]

theorem Sound.evolves (hs : Sound settle views s) {ledger : Ledger I T} (hledger : ledger.Sound)
    (hl : Ledger.Later settle s.ledger ledger) : Sound settle views { s with ledger } := by
  refine ⟨hledger, hs.sorted, fun e he => ⟨hl.committed (hs.sub e he).1, (hs.sub e he).2⟩, hs.after,
    hs.one, fun hwhole last hlast => (hs.settled hwhole last hlast).trans_le hl.now,
    fun hwhole e he hcovered last hlast hle => ?_, fun times htimes => ?_,
    fun hwhole times htimes e he hcovered hsettled => ?_⟩
  · rcases hl.unsettled e he with he | hunsettled
    · exact hs.whole hwhole e he hcovered last hlast hle
    · have hlate := hs.settled hwhole last hlast
      have htime := time_le_of_key_le hle
      omega
  · obtain ⟨hne, hle⟩ := hs.times times htimes
    exact ⟨hne, fun now hnow => (hle now hnow).trans hl.now⟩
  · rcases hl.unsettled e he with he | hunsettled
    · exact hs.caughtUp hwhole times htimes e he hcovered hsettled
    · obtain ⟨hne, hle⟩ := hs.times times htimes
      obtain ⟨now, hnow⟩ := hcovered.exists_time hne
      have hsettled := hsettled now hnow
      have hle := hle now hnow
      omega

/-- What the store makes of a page. -/
theorem Sound.received (hs : Sound settle views s)
    (hpage : Page settle limit views s.after s.readAt events s.ledger) :
    Sound settle views (s.received settle limit events) := by
  have hbefore : ∀ a ∈ s.got, ∀ b ∈ events, a.key < b.key := by
    intro a ha b hb
    obtain ⟨last, hlast⟩ : ∃ last, s.got.getLast? = some last :=
      Option.isSome_iff_exists.mp (List.getLast?_isSome.mpr (List.ne_nil_of_mem ha))
    have hafter : s.after = some last.key := by rw [hs.after, hlast]; rfl
    have hle : a.key ≤ last.key := by
      obtain ⟨before, hgot⟩ := List.getLast?_eq_some_iff.mp hlast
      have hsorted := hs.sorted
      rw [hgot] at ha hsorted
      rcases List.mem_append.mp ha with ha | ha
      · exact le_of_lt ((List.pairwise_append.mp hsorted).2.2 a ha last List.mem_cons_self)
      · exact le_of_eq (congrArg _ (List.mem_singleton.mp ha))
    exact hle.trans_lt ((hpage.sub b hb).2.2 last.key hafter)
  have hwhole : (s.received settle limit events).whole = true →
      s.whole = true ∧ ∀ e ∈ events, ∀ now ∈ s.readAt, e.time + settle < now := by
    intro h
    simpa [World.received] using h
  -- what is not after the cursor, the store has
  have hpast : s.whole = true → ∀ e ∈ s.ledger.committed, Covered views e →
      (¬ ∀ c, s.after = some c → c < e.key) → e ∈ s.got := by
    intro hwhole e he hcovered hnot
    push Not at hnot
    obtain ⟨c, hc, hle⟩ := hnot
    rw [hs.after] at hc
    obtain ⟨last, hlast, rfl⟩ := Option.map_eq_some_iff.mp hc
    exact hs.whole hwhole e he hcovered last hlast hle
  have hlast : ∀ last, (s.received settle limit events).got.getLast? = some last →
      events.getLast? = some last ∨ events = [] ∧ s.got.getLast? = some last := by
    intro last h
    rw [World.received, List.getLast?_append] at h
    cases hevents : events.getLast? with
    | none =>
        rw [hevents] at h
        exact .inr ⟨List.getLast?_eq_none_iff.mp hevents, h⟩
    | some last' =>
        rw [hevents] at h
        exact .inl h
  refine ⟨hs.ledger, List.pairwise_append.mpr ⟨hs.sorted, hpage.sorted, hbefore⟩, fun e he => ?_, ?_,
    fun hone => ?_, fun h last hl => ?_, fun h e he hcovered last hl hle => ?_, fun times htimes => ?_,
    fun h times htimes e he hcovered hsettled => ?_⟩
  · rcases List.mem_append.mp he with he | he
    · exact hs.sub e he
    · exact ⟨(hpage.sub e he).1, (hpage.sub e he).2.1⟩
  · show (events.getLast?.map _).or s.after = (s.got ++ events).getLast?.map _
    rw [List.getLast?_append, hs.after]
    cases events.getLast? <;> rfl
  · have hall := hpage.one hone
    simpa [World.received, hs.one hone] using hall
  · obtain ⟨hwhole, hall⟩ := hwhole h
    rcases hlast last hl with hl | ⟨-, hl⟩
    · have hmem := List.mem_of_getLast? hl
      obtain ⟨now, hnow⟩ := (hpage.sub last hmem).2.1.exists_time hpage.times_of
      exact (hall last hmem now hnow).trans_le (hpage.times_le now hnow)
    · exact hs.settled hwhole last hl
  · obtain ⟨hwhole, hall⟩ := hwhole h
    by_cases hafter : ∀ c, s.after = some c → c < e.key
    · rcases hlast last hl with hl | ⟨-, hl⟩
      · exact List.mem_append_right _ (hpage.full hall e he hcovered hafter last hl hle)
      · have hc : s.after = some last.key := by rw [hs.after, hl]; rfl
        exact absurd hle (not_le.mpr (hafter _ hc))
    · exact List.mem_append_left _ (hpast hwhole e he hcovered hafter)
  · dsimp only [World.received] at htimes
    split at htimes
    · obtain rfl := Option.some.inj htimes
      exact ⟨hpage.times_of, hpage.times_le⟩
    · exact hs.times times htimes
  · obtain ⟨hwhole, -⟩ := hwhole h
    dsimp only [World.received] at htimes
    split at htimes
    · rename_i hshort
      obtain rfl := Option.some.inj htimes
      by_cases hafter : ∀ c, s.after = some c → c < e.key
      · exact List.mem_append_right _ (hpage.caughtUp hshort e he hcovered hafter hsettled)
      · exact List.mem_append_left _ (hpast hwhole e he hcovered hafter)
    · exact List.mem_append_left _ (hs.caughtUp hwhole times htimes e he hcovered hsettled)

/-! ### The download -/

/-- A program that keeps the store in order while the log goes on. -/
abbrev Keeps (settle : Nat) (views : List (View T)) {α : Type} (p : Downloading I T α)
    (A : World I T → α → Prop) (s : World I T) : Prop :=
  p.Relies (Sound settle views) (Later settle) (fun _ _ => True) (Effects settle) (Answers A) s

/-- Only the log has gone on since the page began, and these of its views were read. -/
structure Reads (settle limit : Nat) (begun : World I T) (read : List (View T))
    (readings : Readings I T) (s : World I T) : Prop where
  read : Read settle limit read begun.after readings s.ledger
  same : s = { begun with ledger := s.ledger, readAt := readings.map fun r => r.2.1 }

variable {begun : World I T} {read : List (View T)}

theorem Reads.later (h : Reads settle limit begun read readings s) (hl : Later settle s s') :
    Reads settle limit begun read readings s' := by
  refine ⟨⟨h.read.views_eq, fun r hr => (h.read.each r hr).later hl.ledger⟩, ?_⟩
  rw [hl.same, h.same]

theorem keeps_ask (h : Reads settle limit begun read readings s) :
    Keeps settle views (ask view begun.after limit) (fun t rows => ∃ now,
      Reads settle limit begun (read ++ [view]) (readings ++ [(view, now, rows)]) t) s := by
  intro t ht hs a t' heffects
  cases heffects with
  | failed e => exact ⟨hs, trivial, fun _ _ _ => trivial⟩
  | read =>
      have hsound : Sound settle views { t with readAt := t.readAt ++ [t.ledger.now] } :=
        ⟨hs.ledger, hs.sorted, hs.sub, hs.after, hs.one, hs.settled, hs.whole, hs.times, hs.caughtUp⟩
      refine ⟨hsound, trivial, fun u hu _ => ⟨t.ledger.now, ?_⟩⟩
      have hread := h.later ht
      have hhere : Reads settle limit begun (read ++ [view])
          (readings ++ [(view, t.ledger.now, auditExportPage settle view begun.after limit t.ledger)])
          { t with readAt := t.readAt ++ [t.ledger.now] } := by
        refine ⟨⟨by rw [List.map_append, hread.read.views_eq]; rfl, fun r hr => ?_⟩, ?_⟩
        · rcases List.mem_append.mp hr with hr | hr
          · exact hread.read.each r hr
          · rw [List.mem_singleton.mp hr]
            exact reading_of_page hs.ledger
        · rw [hread.same, List.map_append]
          rfl
      exact hhere.later hu

theorem keeps_readViews {rest : List (View T)} (hs : Sound settle views s)
    (h : Reads settle limit begun read readings s) :
    Keeps settle views (readViews begun.after limit rest) (fun t events => ∃ readings',
      events = gathered readings' ∧
        Reads settle limit begun (read ++ rest) (readings ++ readings') t) s := by
  induction rest generalizing read readings s with
  | nil =>
      refine Prog.relies_ret fun t ht _ => ⟨[], rfl, ?_⟩
      rw [List.append_nil, List.append_nil]
      exact h.later ht
  | cons view rest ih =>
      apply (keeps_ask h).andThen Later.refl hs
      rintro t rows ht ⟨now, hread⟩
      apply (ih ht hread).andThen Later.refl ht
      rintro t' events ht' ⟨readings', rfl, hread'⟩
      refine Prog.relies_ret fun u hu _ => ⟨(view, now, rows) :: readings', rfl, ?_⟩
      rw [List.append_cons, List.append_cons readings]
      exact hread'.later hu

variable {edition : Edition T}

theorem nodup_views (edition : Edition T) : edition.views.Nodup := by
  cases edition with
  | managed => exact List.nodup_singleton none
  | appliance tenantIds => exact (Store.nodup_eraseDups tenantIds).map (Option.some_injective T)

omit [LinearOrder I] in
theorem apart_views (edition : Edition T) : Apart (I := I) edition.views := by
  cases edition with
  | managed =>
      intro view hview view' hview' e _ _
      rw [List.mem_singleton.mp hview, List.mem_singleton.mp hview']
  | appliance tenantIds =>
      intro view hview view' hview' e hcovers hcovers'
      obtain ⟨tenantId, -, rfl⟩ := List.mem_map.mp hview
      obtain ⟨tenantId', -, rfl⟩ := List.mem_map.mp hview'
      have htenant : e.tenantId = tenantId := of_decide_eq_true hcovers
      have htenant' : e.tenantId = tenantId' := of_decide_eq_true hcovers'
      rw [← htenant, ← htenant']

theorem page_later (h : Page settle limit views s.after s.readAt events s.ledger)
    (hl : Later settle s s') : Page settle limit views s'.after s'.readAt events s'.ledger := by
  have hpage := h.later hl.ledger
  rw [hl.same]
  exact hpage

/-- A page of a download, from the readings of all its views. -/
theorem page_of_reads (hs : Sound settle edition.views s)
    (h : Reads settle limit begun edition.views readings s) :
    Page settle limit edition.views s.after s.readAt
      (Store.firsts AuditExportEvent.key limit (gathered readings)) s.ledger := by
  have hpage := page_of_read hs.ledger (nodup_views edition) (apart_views edition) h.read
  rw [h.same]
  exact hpage

theorem keeps_page (hs : Sound settle edition.views s)
    (h : Reads settle limit begun [] [] s) :
    Keeps settle edition.views (edition.page begun.after limit)
      (fun t events => Page settle limit edition.views t.after t.readAt events t.ledger) s := by
  cases edition with
  | managed =>
      refine (keeps_ask h).mono fun t r ht hr => ?_
      cases r with
      | error e => exact trivial
      | ok rows =>
          obtain ⟨now, hreads⟩ := hr
          have hone := hreads.read.each (none, now, rows) List.mem_cons_self
          have hself : Store.firsts AuditExportEvent.key limit (gathered [(none, now, rows)]) = rows := by
            rw [show gathered [((none : View T), now, rows)] = rows from List.append_nil rows]
            exact Store.firsts_eq_self (hone.sorted.imp le_of_lt) hone.length_le
          exact hself ▸ page_of_reads ht hreads
  | appliance tenantIds =>
      apply (keeps_readViews hs h).andThen Later.refl hs
      rintro t events ht ⟨readings, rfl, hreads⟩
      exact Prog.relies_ret fun u hu _ => page_later (page_of_reads ht hreads) hu

theorem keeps_download {limits : List Nat} (hs : Sound settle edition.views s) :
    Keeps settle edition.views (download settle edition limits) (fun _ _ => True) s := by
  induction limits generalizing s with
  | nil => exact Prog.relies_ret fun _ _ _ => trivial
  | cons limit limits ih =>
      intro t _ ht
      have hbegun : Sound settle edition.views { t with readAt := [] } :=
        ⟨ht.ledger, ht.sorted, ht.sub, ht.after, ht.one, ht.settled, ht.whole, ht.times, ht.caughtUp⟩
      refine ⟨hbegun, trivial, ?_⟩
      have hreads : Reads settle limit t [] [] { t with readAt := [] } :=
        ⟨⟨rfl, fun r hr => absurd hr List.not_mem_nil⟩, rfl⟩
      apply ((keeps_page hbegun hreads).caught).andThen Later.refl hbegun
      intro u outcome hu houtcome
      cases outcome with
      | error e => exact ih hu
      | ok events =>
          have hpage := houtcome events rfl
          have hkeep : Keeps settle edition.views (Prog.modify (World.received settle limit events))
              (fun _ _ => True) u :=
            fun v hv hsound => ⟨hsound.received (page_later hpage hv), trivial, fun _ _ _ => trivial⟩
          exact hkeep.andThen Later.refl hu fun v _ hv _ => ih hv

end

/-! ### Two organisations' events, of one moment -/

def sampleEvents : List (AuditExportEvent Nat Nat) := [⟨3, 2, 7, "opened"⟩, ⟨3, 1, 8, "closed"⟩]

def sampleLedger : Ledger Nat Nat where
  now := 100
  committed := sampleEvents

def sampleWorld (s : World Nat Nat) : (o : DownloadOp Nat Nat) → Option (o.Ans × World Nat Nat)
  | .page view after limit =>
    some (.ok (auditExportPage 5 view after limit s.ledger),
      { s with readAt := s.readAt ++ [s.ledger.now] })

theorem effects_sample (s : World Nat Nat) (o : DownloadOp Nat Nat) (a : o.Ans)
    (s' : World Nat Nat) (h : sampleWorld s o = some (a, s')) : Effects 5 s o a s' := by
  cases o
  cases h
  exact .read

theorem sample_log {p₀ : Downloading Nat Nat Unit} :
    Prog.Run (World.Evolves 5) (Effects 5) p₀ {} p₀ [] { ledger := sampleLedger } := by
  have hticked : Prog.Run (World.Evolves 5) (Effects 5) p₀ {} p₀ [] { ledger := { now := 3 } } :=
    .env .refl ⟨_, .tick (Nat.zero_le 3), rfl⟩
  have hbegan := hticked.env ⟨_, .began, rfl⟩
  have hopened := hbegan.env
    ⟨_, @Ledger.Step.recorded _ _ 5 _ [] [] 3 [] ⟨3, 2, 7, "opened"⟩ rfl rfl, rfl⟩
  have hclosed := hopened.env
    ⟨_, @Ledger.Step.recorded _ _ 5 _ [] [] 3 _ ⟨3, 1, 8, "closed"⟩ rfl rfl, rfl⟩
  have hcommitted := hclosed.env
    ⟨_, @Ledger.Step.committed _ _ 5 _ [] [] 3 _ rfl (by decide) (by decide), rfl⟩
  exact hcommitted.env ⟨_, .tick (by decide), rfl⟩

theorem sample_run : ∃ p h s, Prog.Run (World.Evolves 5) (Effects 5)
    (download 5 (.appliance [7, 8, 7]) [1, 2]) {} p h s ∧ s.whole = true ∧
    s.got.map (·.id) = [1, 2] ∧ s.caughtUp = some [100, 100] := by
  have hexec : ∃ s, (download 5 (.appliance [7, 8, 7]) [1, 2]).exec sampleWorld (fun _ => false)
      { ledger := sampleLedger } = some (.ret (), s) ∧ s.whole = true ∧
      s.got.map (·.id) = [1, 2] ∧ s.caughtUp = some [100, 100] := by
    refine ⟨_, rfl, ?_, ?_, ?_⟩
    · decide +kernel
    · decide +kernel
    · decide +kernel
  obtain ⟨s, he, hwhole, hgot, hcaughtUp⟩ := hexec
  obtain ⟨h, hr⟩ := Prog.run_exec effects_sample sample_log he
  exact ⟨_, h, s, hr, hwhole, hgot, hcaughtUp⟩

section

variable [LinearOrder I] [DecidableEq T] {edition : Edition T} {s : World I T}

/-! ### The result -/

/-- **Nothing missing and nothing twice.**  While the log goes on between any two statements of
the download, with pages failing and asked for again: what the store holds is in order and of
the log, and, with one view or pages whose events had settled at each reading, every event of
the download up to the store's last one is in it, and every one that had settled when a page
last caught up. -/
theorem download_whole {limits : List Nat} (hruns : runsFor ≤ settle)
    {p : Downloading I T Unit} {h : List (Event (World I T) (DownloadOp I T) DownloadOp.Ans)}
    (hr : Prog.Run (World.Evolves runsFor) (Effects settle) (download settle edition limits) {} p h s)
    (hwhole : edition.views.length ≤ 1 ∨ s.whole = true) :
    s.got.Pairwise (fun a b => a.key < b.key) ∧
    (∀ e ∈ s.got, e ∈ s.ledger.committed ∧ Covered edition.views e) ∧
    (∀ e ∈ s.ledger.committed, Covered edition.views e →
      ∀ last, s.got.getLast? = some last → e.key ≤ last.key → e ∈ s.got) ∧
    ∀ times, s.caughtUp = some times → ∀ e ∈ s.ledger.committed, Covered edition.views e →
      (∀ now ∈ times, e.time + settle < now) → e ∈ s.got := by
  have h₀ : Sound settle edition.views ({} : World I T) := by
    refine ⟨⟨List.nodup_nil, fun _ htx => absurd htx List.not_mem_nil⟩, List.Pairwise.nil,
      fun _ he => absurd he List.not_mem_nil, rfl, fun _ => rfl, fun _ last hl => ?_,
      fun _ e he => absurd he List.not_mem_nil, fun times ht => ?_, fun _ times ht => ?_⟩
    · cases hl
    · cases ht
    · cases ht
  have henv : ∀ a b : World I T, Sound settle edition.views a → World.Evolves runsFor a b →
      Sound settle edition.views b ∧ Later settle a b := by
    rintro a b ha ⟨ledger, hstep, rfl⟩
    have hl := hstep.later hruns ha.ledger
    exact ⟨ha.evolves (hstep.sound ha.ledger) hl, hl, rfl⟩
  obtain ⟨hs, -⟩ := Prog.Run.relies Later.refl Later.trans henv h₀ (keeps_download h₀) hr
  have hwhole := hwhole.elim hs.one id
  exact ⟨hs.sorted, hs.sub, hs.whole hwhole, hs.caughtUp hwhole⟩

end

theorem download_whole_sample : ∃ s : World Nat Nat, s.got.map (·.id) = [1, 2] ∧
    s.got.Pairwise (fun a b => a.key < b.key) ∧
    (∀ e ∈ s.got, e ∈ s.ledger.committed ∧ Covered (Edition.appliance [7, 8, 7]).views e) ∧
    (∀ e ∈ s.ledger.committed, Covered (Edition.appliance [7, 8, 7]).views e →
      ∀ last, s.got.getLast? = some last → e.key ≤ last.key → e ∈ s.got) ∧
    ∀ times, s.caughtUp = some times → ∀ e ∈ s.ledger.committed,
      Covered (Edition.appliance [7, 8, 7]).views e → (∀ now ∈ times, e.time + 5 < now) →
      e ∈ s.got := by
  obtain ⟨p, h, s, hr, hwhole, hgot, -⟩ := sample_run
  exact ⟨s, hgot, download_whole (Nat.le_refl 5) hr (.inr hwhole)⟩

end Ownpace.Audit
