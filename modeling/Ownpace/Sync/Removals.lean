/-
Ownpace/Sync/Removals.lean

Where a removal the source reported ends up, before the cursor of the listing
that reported it is set.

A removal is an href; the row it is about is looked up by it
(`findBySourceRef`, one row, in no order).  Where no second row carries the
href, the row it was copied from is the one that is found, and it is recorded as
reported before any cursor moves past the report (`removal_recorded`).  Where a
second one does, the wrong row may be found: `removal_lost` is such a pass.

The walk is of the cursors alone: one waits with its listing (`Waiting`), the
removals are read (`Resolving`), and the cursors are set (`Resolved`).
-/
import Ownpace.Sync.Cursor
import Ownpace.Sync.Unset

namespace Ownpace.Sync

open Await Ownpace Store

variable {Item Raw Folder τ α : Type}

/-! ### The row a removal is about -/

section Rows

variable (deps : DomainSyncDeps Item Raw Folder)

/-- This row's copy was made from this href.  A blank href says that none was
recorded. -/
structure CopiedFrom (href : String) (r : ItemRow) : Prop where
  domain : r.domain = deps.domain
  ref : r.sourceRefHref = some href
  recorded : href ≠ ""

/-- A row copied from this href, on the target and seen nowhere, is recorded as
reported, unless a second row carries the href. -/
def Recorded (seen : Vars Item) (l : Ledger) (href : String) : Prop :=
  ∀ r ∈ l.rows, CopiedFrom deps href r → isOnTarget (some r.status) = true →
    seen.seenAnywhere r.naturalKeyHash = false →
    (∀ r' ∈ l.rows, CopiedFrom deps href r' → r' = r) → r.deletionReportedAt.isSome

/-- The row of this key, if it is of the domain, is recorded as reported. -/
def Marked (l : Ledger) (key : String) : Prop :=
  ∀ r ∈ l.rows, r.domain = deps.domain → r.naturalKeyHash = key → r.deletionReportedAt.isSome

variable {deps} {seen : Vars Item} {l : Ledger} {href key : String}

theorem recorded_of_row {r₀ : ItemRow} (hmem : r₀ ∈ l.rows) (hfrom : CopiedFrom deps href r₀)
    (h : isOnTarget (some r₀.status) = false ∨ seen.seenAnywhere r₀.naturalKeyHash = true ∨
      r₀.deletionReportedAt.isSome) : Recorded deps seen l href := by
  intro r hr hcopied hon hunseen hone
  obtain rfl : r₀ = r := hone r₀ hmem hfrom
  rcases h with hoff | hseen | hsome
  · rw [hon] at hoff
    cases hoff
  · rw [hunseen] at hseen
    cases hseen
  · exact hsome

/-- The lookup found nothing: no row carries the href. -/
theorem recorded_of_none (h : l.findBySourceRef deps.domain href = none) :
    Recorded deps seen l href := by
  intro r hr hcopied
  unfold Ledger.findBySourceRef at h
  rw [if_neg hcopied.recorded, Option.map_eq_none_iff, List.find?_eq_none] at h
  refine absurd ?_ (h r hr)
  simp [hcopied.domain, hcopied.ref]

/-- The lookup found a row: one that carries the href. -/
theorem copiedFrom_of_found {row : LedgerRecord}
    (h : l.findBySourceRef deps.domain href = some row) :
    ∃ r₀ ∈ l.rows, CopiedFrom deps href r₀ ∧ mapRowToRecord r₀ = row := by
  unfold Ledger.findBySourceRef at h
  split at h
  · cases h
  · next hne =>
      obtain ⟨r₀, hfind, hrow⟩ := Option.map_eq_some_iff.mp h
      have hp := List.find?_some hfind
      rw [Bool.and_eq_true, decide_eq_true_eq, decide_eq_true_eq] at hp
      exact ⟨r₀, List.mem_of_find?_eq_some hfind, ⟨hp.1, hp.2, hne⟩, hrow⟩

/-! What recording one report does to the rows. -/

/-- The row of this key, reported at `now` unless it was before. -/
def reportedRow (now : Nat) (domain : DiscoveryDomain) (key : String) (r : ItemRow) : ItemRow :=
  bif r.naturalKeyHash = key && (r.domain = domain && r.deletionReportedAt.isNone)
    then { r with deletionReportedAt := some now } else r

theorem rows_recordReportedDeletion (now : Nat) (domain : DiscoveryDomain) :
    (l.recordReportedDeletion now domain key).2.rows = l.rows.map (reportedRow now domain key) :=
  rfl

theorem reportedRow_fields (now : Nat) (domain : DiscoveryDomain) (key : String) (r : ItemRow) :
    (reportedRow now domain key r).naturalKeyHash = r.naturalKeyHash ∧
      (reportedRow now domain key r).domain = r.domain ∧
      (reportedRow now domain key r).sourceRefHref = r.sourceRefHref ∧
      (reportedRow now domain key r).status = r.status := by
  unfold reportedRow
  cases r.naturalKeyHash = key && (r.domain = domain && r.deletionReportedAt.isNone) <;>
    exact ⟨rfl, rfl, rfl, rfl⟩

theorem reportedRow_keeps {now : Nat} {domain : DiscoveryDomain} {r : ItemRow}
    (h : r.deletionReportedAt.isSome) : (reportedRow now domain key r).deletionReportedAt.isSome := by
  have hno : r.deletionReportedAt.isNone = false := by
    rw [Option.isNone_eq_false_iff]
    exact h
  unfold reportedRow
  rw [hno, Bool.and_false, Bool.and_false]
  exact h

theorem reportedRow_marks {now : Nat} {r : ItemRow} (hkey : r.naturalKeyHash = key)
    (hdom : r.domain = deps.domain) :
    (reportedRow now deps.domain key r).deletionReportedAt.isSome := by
  cases hr : r.deletionReportedAt with
  | some before => exact reportedRow_keeps (by rw [hr]; rfl)
  | none => simp [reportedRow, hkey, hdom, hr]

theorem copiedFrom_reportedRow {now : Nat} {domain : DiscoveryDomain} {r : ItemRow} :
    CopiedFrom deps href (reportedRow now domain key r) ↔ CopiedFrom deps href r := by
  obtain ⟨-, hdom, href, -⟩ := reportedRow_fields now domain key r
  constructor
  · rintro ⟨h₁, h₂, h₃⟩
    exact ⟨hdom ▸ h₁, href ▸ h₂, h₃⟩
  · rintro ⟨h₁, h₂, h₃⟩
    exact ⟨hdom.trans h₁, href.trans h₂, h₃⟩

theorem Recorded.report (h : Recorded deps seen l href) (now : Nat) (domain : DiscoveryDomain)
    (key : String) : Recorded deps seen (l.recordReportedDeletion now domain key).2 href := by
  intro r' hr' hcopied hon hunseen hone
  rw [rows_recordReportedDeletion] at hr' hone
  obtain ⟨r, hr, rfl⟩ := List.mem_map.mp hr'
  obtain ⟨hkey, -, -, hstatus⟩ := reportedRow_fields now domain key r
  rw [hstatus] at hon
  rw [hkey] at hunseen
  refine reportedRow_keeps (h r hr (copiedFrom_reportedRow.mp hcopied) hon hunseen ?_)
  intro r₁ hr₁ hcopied₁
  have heq := hone _ (List.mem_map_of_mem hr₁) (copiedFrom_reportedRow.mpr hcopied₁)
  have hkey₁ : r₁.naturalKeyHash = r.naturalKeyHash := by
    rw [← (reportedRow_fields now domain key r₁).1, heq, hkey]
  have hget := Table.get_of_mem hr₁
  rw [hkey₁, Table.get_of_mem hr] at hget
  exact (Option.some.inj hget).symm

theorem Marked.report {k : String} (h : Marked deps l k) (now : Nat) (domain : DiscoveryDomain)
    (key : String) : Marked deps (l.recordReportedDeletion now domain key).2 k := by
  intro r' hr' hdom hkey
  rw [rows_recordReportedDeletion] at hr'
  obtain ⟨r, hr, rfl⟩ := List.mem_map.mp hr'
  obtain ⟨hkey', hdom', -, -⟩ := reportedRow_fields now domain key r
  exact reportedRow_keeps (h r hr (hdom' ▸ hdom) (hkey' ▸ hkey))

theorem marked_report (now : Nat) :
    Marked deps (l.recordReportedDeletion now deps.domain key).2 key := by
  intro r' hr' hdom hkey
  rw [rows_recordReportedDeletion] at hr'
  obtain ⟨r, hr, rfl⟩ := List.mem_map.mp hr'
  obtain ⟨hkey', hdom', -, -⟩ := reportedRow_fields now deps.domain key r
  exact reportedRow_marks (hkey' ▸ hkey) (hdom' ▸ hdom)

end Rows

/-! ### The cursors, and the removals they wait for -/

section Cursors

variable {deps : DomainSyncDeps Item Raw Folder} {out : Outside Item Raw Folder τ}
variable {s₀ s s' : PassState Item Raw Folder τ} {path cursor : String}
variable {folder : Folder} {prev : Option String} {listing : Listing Item}

variable (deps s₀) in
/-- In this pass the folder's listing was answered, for this path and with this
cursor. -/
structure ListedAs (s : PassState Item Raw Folder τ) (path cursor : String) (folder : Folder)
    (prev : Option String) (listing : Listing Item) : Prop where
  answered : ⟨.listSince folder prev, .ok listing⟩ ∈ callsSince s₀ s
  path : deps.collectionPathOf folder = path
  cursor : listing.nextCursor = cursor

variable (deps s₀) in
/-- The cursor of a listing, all of whose removals are recorded. -/
def Heeded (s : PassState Item Raw Folder τ) (path cursor : String) : Prop :=
  ∃ folder prev listing, ListedAs deps s₀ s path cursor folder prev listing ∧
    ∀ href ∈ listing.removed, Recorded deps s.vars s.world.ledger href

variable (deps s₀) in
/-- A cursor is set, unless the source was found to decide no more, where it is
heeded. -/
def Allowed (s : PassState Item Raw Folder τ) (o : SyncOp Item Raw Folder) : Prop :=
  ∀ path cursor, o = .cursorSet path cursor →
    ⟨.stillTheAuthority, .ok false⟩ ∉ callsSince s₀ s → Heeded deps s₀ s path cursor

variable (deps s₀) in
/-- Before the removals are read: what a waiting cursor's listing reported is
among them. -/
structure Waiting (s : PassState Item Raw Folder τ) : Prop where
  log : s₀.world.log <+: s.world.log
  held : ∀ path cursor, (path, cursor) ∈ s.vars.cursorsHeldForRemovals →
    ∃ folder prev listing, ListedAs deps s₀ s path cursor folder prev listing ∧
      listing.removed ⊆ s.vars.reportedRemovals

variable (deps out s₀) in
/-- From a state with `Pre`, every cursor is set where it may be. -/
abbrev Watched (Pre : PassState Item Raw Folder τ → Prop) (p : Pass Item Raw Folder τ α)
    (Post : α → PassState Item Raw Folder τ → Prop) : Prop :=
  Prog.Triple (Effects deps out) (Allowed deps s₀) Pre p Post

/-- An assertion that what comes later keeps. -/
def Carried (A : PassState Item Raw Folder τ → Prop) : Prop :=
  ∀ s s', A s → Later s s' → A s'

theorem ListedAs.later (h : ListedAs deps s₀ s path cursor folder prev listing)
    (hlog : s₀.world.log <+: s.world.log) (hl : Later s s') :
    ListedAs deps s₀ s' path cursor folder prev listing :=
  ⟨callsSince_subset hlog hl h.answered, h.path, h.cursor⟩

theorem carried_waiting : Carried (Waiting deps s₀) := by
  intro s s' hw hl
  refine ⟨hw.log.trans hl.log, fun path cursor hmem => ?_⟩
  rw [hl.held] at hmem
  obtain ⟨folder, prev, listing, hlisted, hsub⟩ := hw.held path cursor hmem
  exact ⟨folder, prev, listing, hlisted.later hw.log hl, List.Subset.trans hsub hl.removals⟩

variable (deps s₀ folder prev listing) in
/-- The listing that is read just now, and what it reported. -/
structure Reading (s : PassState Item Raw Folder τ) : Prop where
  waiting : Waiting deps s₀ s
  listed : ListedAs deps s₀ s (deps.collectionPathOf folder) listing.nextCursor folder prev listing
  removals : listing.removed ⊆ s.vars.reportedRemovals

theorem carried_reading : Carried (Reading deps s₀ folder prev listing) := fun s s' h hl =>
  ⟨carried_waiting s s' h.waiting hl, h.listed.later h.waiting.log hl,
    List.Subset.trans h.removals hl.removals⟩

theorem watched_onVars {β : Type} {P : PassState Item Raw Folder τ → Prop}
    {Q : β → PassState Item Raw Folder τ → Prop} {f : Vars Item → Vars Item × β}
    (hf : ∀ s, P s → Q (f s.vars).2 { s with vars := (f s.vars).1 }) :
    Watched deps out s₀ P (onVars f) Q := by
  rintro s hs _ ⟨⟩
  exact hf s hs

/-- What a program that sets no cursor keeps. -/
theorem Unset.triple {p : Pass Item Raw Folder τ α} (hp : Unset p)
    {A : PassState Item Raw Folder τ → Prop} (hA : Carried A) :
    Watched deps out s₀ A p fun _ => A := by
  intro s hs
  refine Prog.Always.wp (hp []) (I := fun _ s => A s) hs ?_ ?_ ?_
  · intro h s e s' hs he hf
    refine hA s s' hs ?_
    cases he with
    | vars hr hc =>
        obtain ⟨rfl, rfl⟩ := hf
        exact .vars hr hc
    | call ho => exact later_effects hf
  · intro h s o hs hcall path cursor heq
    cases hcall (.error { message := "" }) with
    | call ho => exact absurd heq (ho path cursor)
  · intro h s r hs _ a _
    exact hs

/-- The same, of a call whose answer is kept. -/
theorem triple_listSince :
    Watched deps out s₀ (Waiting deps s₀)
      (ask (.listSince folder prev)).attempt fun (answer : Except Err (Listing Item)) s =>
        Waiting deps s₀ s ∧ ∀ listing, answer = .ok listing →
          ListedAs deps s₀ s (deps.collectionPathOf folder) listing.nextCursor folder prev listing := by
  refine Prog.triple_attempt (fun s hs path cursor heq => (by cases heq)) ?_ ?_
  · rintro s listing s' hs hw
    refine ⟨carried_waiting s s' hs (later_effects hw), ?_⟩
    rintro _ ⟨⟩
    exact ⟨mem_callsSince_call (o := .listSince folder prev) hs.log hw, rfl, rfl⟩
  · rintro s e s' hs hw
    exact ⟨carried_waiting s s' hs (later_effects hw), nofun⟩

variable (hauth : deps.sourceIsAuthorityOnExistence = true)
include hauth

theorem triple_decideCursor (heldBefore : Nat) :
    Watched deps out s₀ (Reading deps s₀ folder prev listing)
      (decideCursor deps (deps.collectionPathOf folder) prev listing heldBefore)
      fun _ => Waiting deps s₀ := by
  refine Prog.Triple.bind (watched_onVars (Q := fun advances s => Waiting deps s₀ s ∧
    (advances = true → listing.removed = [] ∧
      ListedAs deps s₀ s (deps.collectionPathOf folder) listing.nextCursor folder prev listing))
    fun s hs => ?_) fun advances => ?_
  · split
    · split
      · refine ⟨⟨hs.waiting.log, fun path cursor hmem => ?_⟩, nofun⟩
        rcases List.mem_append.mp hmem with hmem | hmem
        · obtain ⟨folder', prev', listing', hlisted, hsub⟩ := hs.waiting.held path cursor hmem
          exact ⟨folder', prev', listing', ⟨hlisted.answered, hlisted.path, hlisted.cursor⟩, hsub⟩
        · cases List.mem_singleton.mp hmem
          exact ⟨folder, prev, listing, ⟨hs.listed.answered, rfl, rfl⟩, hs.removals⟩
      · next hno =>
          rw [hauth, Bool.true_and, Bool.not_eq_true, Bool.not_eq_false', List.isEmpty_iff] at hno
          exact ⟨hs.waiting, fun _ => ⟨hno, hs.listed⟩⟩
    · exact ⟨hs.waiting, nofun⟩
  cases advances with
  | false => exact Prog.triple_ret fun s hs => hs.1
  | true =>
      refine Prog.triple_awaitWith (fun s hs path cursor heq _ => ?_) fun s a s' hs hw => ?_
      · cases heq
        obtain ⟨hnone, hlisted⟩ := hs.2 rfl
        refine ⟨folder, prev, listing, hlisted, fun href hmem => ?_⟩
        rw [hnone] at hmem
        cases hmem
      · exact carried_waiting s s' hs.1 (later_effects hw)

theorem triple_readCollection :
    Watched deps out s₀
      (fun s => Waiting deps s₀ s ∧ ListedAs deps s₀ s (deps.collectionPathOf folder)
        listing.nextCursor folder prev listing)
      (readCollection deps folder prev listing) fun _ => Waiting deps s₀ := by
  refine Prog.Triple.bind (watched_onVars
    (Q := fun _ => Reading deps s₀ folder prev listing) fun s hs => ?_) fun p => ?_
  · obtain ⟨hs, hlisted⟩ := hs
    have hremovals : (beginVisit deps (deps.collectionPathOf folder) listing s.vars).1.reportedRemovals
        = s.vars.reportedRemovals ++ listing.removed := by
      show (if deps.sourceIsAuthorityOnExistence then _ else _) = _
      rw [if_pos hauth]
    have hlater : Later s
        { s with vars := (beginVisit deps (deps.collectionPathOf folder) listing s.vars).1 } := by
      refine .vars ?_ rfl
      rw [hremovals]
      exact List.subset_append_left _ _
    refine ⟨carried_waiting _ _ hs hlater, hlisted.later hs.log hlater, ?_⟩
    show listing.removed ⊆ (beginVisit deps _ listing s.vars).1.reportedRemovals
    rw [hremovals]
    exact List.subset_append_right _ _
  refine Prog.Triple.bind ((unset_enumerateKeys folder prev).triple carried_reading) fun _ => ?_
  refine Prog.Triple.bind ((Unset.ask (o := .mapItems p.1 folder listing.items) nofun).triple
    carried_reading) fun _ => ?_
  exact triple_decideCursor hauth p.2

theorem triple_syncCollection (folder : Folder) :
    Watched deps out s₀ (Waiting deps s₀) (syncCollection deps folder)
      fun _ => Waiting deps s₀ := by
  refine Prog.Triple.bind ((Unset.quiet fun _ => walk_stopTakingNewWork).triple carried_waiting)
    fun stop => ?_
  cases stop with
  | true => exact Unset.triple (by exact .modify (fun _ => rfl) fun _ => rfl) carried_waiting
  | false =>
      have hcursor : Unset (storedCursor deps (deps.collectionPathOf folder) :
          Pass Item Raw Folder τ _) := by
        unfold storedCursor
        split
        · exact .ask nofun
        · exact .ret
      refine Prog.Triple.bind (hcursor.triple carried_waiting) fun prev => ?_
      refine Prog.Triple.bind (Unset.triple (.modify (f := openCollection) (fun _ => rfl)
        fun _ => rfl) carried_waiting) fun _ => ?_
      refine Prog.Triple.bind ((Unset.doIf (.bind (.quiet fun _ => walk_collectionIdOf folder)
        fun _ => .ret)).triple carried_waiting) fun _ => ?_
      refine Prog.Triple.bind triple_listSince fun answer => ?_
      cases answer with
      | error err =>
          exact Prog.Triple.mono ((unset_leaveUnread folder err).triple carried_waiting)
            (fun _ hs => hs.1) fun _ _ => id
      | ok listing =>
          exact Prog.Triple.mono (triple_readCollection hauth) (fun _ hs => ⟨hs.1, hs.2 _ rfl⟩)
            fun _ _ => id

theorem triple_syncCollections (folders : List Folder) :
    Watched deps out s₀ (Waiting deps s₀)
      (syncCollections deps folders) fun _ => Waiting deps s₀ := by
  induction folders with
  | nil => exact Prog.triple_ret fun _ hs => hs
  | cons folder rest ih => exact Prog.Triple.bind (triple_syncCollection hauth folder) fun _ => ih

omit hauth

/-! ### The end of the pass -/

variable (deps s₀) in
/-- The removals are being read, by the variables `v`: those in `past` are
recorded, and the keys in `done` are marked. -/
structure Resolving (v : Vars Item) (done past : List String) (s : PassState Item Raw Folder τ) :
    Prop where
  waiting : Waiting deps s₀ s
  vars : s.vars = v
  marked : ∀ key ∈ done, Marked deps s.world.ledger key
  recorded : ∀ href ∈ past, Recorded deps v s.world.ledger href

variable {v : Vars Item} {done past : List String}

theorem Resolving.ledger (h : Resolving deps s₀ v done past s) (hl : Later s s')
    (hv : s'.vars = s.vars) (hledger : s'.world.ledger = s.world.ledger) :
    Resolving deps s₀ v done past s' where
  waiting := carried_waiting s s' h.waiting hl
  vars := hv.trans h.vars
  marked := by
    rw [hledger]
    exact h.marked
  recorded := by
    rw [hledger]
    exact h.recorded

/-- One more removal is settled. -/
theorem Resolving.settles {href : String} (h : Resolving deps s₀ v done past s)
    (hr : Recorded deps v s.world.ledger href) : Resolving deps s₀ v done (href :: past) s where
  waiting := h.waiting
  vars := h.vars
  marked := h.marked
  recorded := by
    intro href' hmem
    rcases List.mem_cons.mp hmem with rfl | hmem
    · exact hr
    · exact h.recorded href' hmem

theorem triple_findBySourceRef (href : String) :
    Watched deps out s₀ (Resolving deps s₀ v done past)
      (askLedger (.findBySourceRef deps.domain href)) fun row s =>
        Resolving deps s₀ v done past s ∧
          s.world.ledger.findBySourceRef deps.domain href = row := by
  refine Prog.triple_awaitWith (fun s hs path cursor heq => (by cases heq)) ?_
  intro s row s' hs hw
  have hw : out.Effects s (.ledger (.findBySourceRef deps.domain href)) (.ok row) s' := hw
  obtain ⟨host, hrun⟩ := ran_of_ok hw
  obtain ⟨hrow, hledger⟩ := Prod.ext_iff.mp hrun
  have hledger : s.world.ledger = s'.world.ledger := hledger
  refine ⟨hs.ledger (.call hw) (effects_vars hw) hledger.symm, ?_⟩
  rw [← hledger]
  exact Except.ok.inj hrow

/-- The row that was found is recorded, and its removal with it. -/
theorem triple_recordReported {href : String} {row : LedgerRecord} :
    Watched deps out s₀
      (fun s => Resolving deps s₀ v done past s ∧
        s.world.ledger.findBySourceRef deps.domain href = some row)
      (askLedger (.recordReportedDeletion deps.domain row.naturalKeyHash))
      fun _ => Resolving deps s₀ v (row.naturalKeyHash :: done) (href :: past) := by
  refine Prog.triple_awaitWith (fun s hs path cursor heq => (by cases heq)) ?_
  rintro s recorded s' ⟨hs, hfound⟩ hw
  have hw : out.Effects s (.ledger (.recordReportedDeletion deps.domain row.naturalKeyHash))
    (.ok recorded) s' := hw
  obtain ⟨host, hrun⟩ := ran_of_ok hw
  have hledger : (s.world.ledger.recordReportedDeletion host.now deps.domain
      row.naturalKeyHash).2 = s'.world.ledger := (Prod.ext_iff.mp hrun).2
  obtain ⟨r₀, hmem, hfrom, rfl⟩ := copiedFrom_of_found hfound
  refine ⟨carried_waiting s s' hs.waiting (.call hw), (effects_vars hw).trans hs.vars, ?_, ?_⟩
  · intro key hkey
    rw [← hledger]
    rcases List.mem_cons.mp hkey with rfl | hkey
    · exact marked_report host.now
    · exact (hs.marked key hkey).report host.now deps.domain _
  · intro href' hmem'
    rw [← hledger]
    rcases List.mem_cons.mp hmem' with rfl | hmem'
    · have hrow := List.mem_map_of_mem (f := reportedRow host.now deps.domain r₀.naturalKeyHash) hmem
      refine recorded_of_row hrow (copiedFrom_reportedRow.mpr hfrom) (.inr (.inr ?_))
      exact reportedRow_marks rfl hfrom.domain
    · exact (hs.recorded href' hmem').report host.now deps.domain _

theorem triple_resolveReported (v : Vars Item) (done past hrefs : List String) :
    Watched deps out s₀ (Resolving deps s₀ v done past) (resolveReported deps v done hrefs)
      fun _ s => Waiting deps s₀ s ∧ s.vars = v ∧
        ∀ href, href ∈ past ∨ href ∈ hrefs → Recorded deps v s.world.ledger href := by
  induction hrefs generalizing done past with
  | nil =>
      refine Prog.triple_ret fun s hs => ⟨hs.waiting, hs.vars, ?_⟩
      rintro href (hmem | hmem)
      · exact hs.recorded href hmem
      · cases hmem
  | cons href rest ih =>
      have hskip : Watched deps out s₀ (Resolving deps s₀ v done (href :: past))
          (resolveReported deps v done rest) fun _ s => Waiting deps s₀ s ∧ s.vars = v ∧
            ∀ href', href' ∈ past ∨ href' ∈ href :: rest →
              Recorded deps v s.world.ledger href' := by
        refine Prog.Triple.mono (ih done (href :: past)) (fun _ => id) ?_
        rintro found s ⟨hw, hv, hr⟩
        refine ⟨hw, hv, fun href' hmem => hr href' ?_⟩
        grind
      refine Prog.Triple.bind (triple_findBySourceRef href) fun row => ?_
      cases row with
      | none =>
          exact Prog.Triple.mono hskip (fun s hs => hs.1.settles (recorded_of_none hs.2))
            fun _ _ => id
      | some row =>
          dsimp only
          split
          · next hno =>
              refine Prog.Triple.mono hskip (fun s hs => hs.1.settles ?_) fun _ _ => id
              obtain ⟨r₀, hmem, hfrom, rfl⟩ := copiedFrom_of_found hs.2
              refine recorded_of_row hmem hfrom ?_
              rw [Bool.or_eq_true, Bool.or_eq_true, Bool.not_eq_true', List.contains_iff_mem] at hno
              rcases hno with (hoff | hseen) | hdone
              · exact .inl hoff
              · exact .inr (.inl hseen)
              · exact .inr (.inr (hs.1.marked _ hdone r₀ hmem hfrom.domain rfl))
          · refine Prog.Triple.bind triple_recordReported fun recorded => ?_
            refine Prog.Triple.bind (ih _ (href :: past)) fun found => Prog.triple_ret ?_
            rintro s ⟨hw, hv, hr⟩
            refine ⟨hw, hv, fun href' hmem => hr href' ?_⟩
            grind

variable (deps s₀) in
/-- The removals were read, by the variables `v`: they are all recorded, if the
source decides. -/
structure Resolved (v : Vars Item) (s : PassState Item Raw Folder τ) : Prop where
  waiting : Waiting deps s₀ s
  removals : s.vars.reportedRemovals = v.reportedRemovals
  held : s.vars.cursorsHeldForRemovals = v.cursorsHeldForRemovals
  seen : s.vars.seenByCollection = v.seenByCollection
  recorded : ⟨.stillTheAuthority, .ok false⟩ ∉ callsSince s₀ s →
    ∀ href ∈ v.reportedRemovals, Recorded deps v s.world.ledger href

theorem Recorded.of_seen {w : Vars Item} {l : Ledger} {href : String}
    (h : Recorded deps v l href) (hseen : w.seenByCollection = v.seenByCollection) :
    Recorded deps w l href := by
  intro r hr hfrom hon hunseen
  refine h r hr hfrom hon ?_
  rw [← hunseen, Vars.seenAnywhere, Vars.seenAnywhere, hseen]

theorem triple_concludeReported :
    Watched deps out s₀ (fun s => Waiting deps s₀ s ∧ s.vars = v) (concludeReported deps v)
      fun _ => Resolved deps s₀ v := by
  have hstart (s : PassState Item Raw Folder τ) (hs : Waiting deps s₀ s ∧ s.vars = v) :
      Resolving deps s₀ v [] [] s :=
    ⟨hs.1, hs.2, fun _ hmem => (by cases hmem), fun _ hmem => (by cases hmem)⟩
  refine Prog.Triple.bind (Prog.Triple.mono (triple_resolveReported v [] []
    v.reportedRemovals.eraseDups) hstart fun _ _ => id) fun found => watched_onVars ?_
  rintro s ⟨hw, rfl, hr⟩
  refine ⟨carried_waiting _ _ hw (.vars (List.Subset.refl _) rfl), rfl, rfl, rfl, ?_⟩
  exact fun _ href hmem => hr href (.inr (List.mem_eraseDups.mpr hmem))

theorem triple_setCursors (cursors : List (String × String))
    (hsub : cursors ⊆ v.cursorsHeldForRemovals) :
    Watched deps out s₀ (Resolved deps s₀ v) (setCursors cursors) fun _ => Resolved deps s₀ v := by
  induction cursors with
  | nil => exact Prog.triple_ret fun _ hs => hs
  | cons entry rest ih =>
      obtain ⟨path, cursor⟩ := entry
      obtain ⟨hmem, hrest⟩ := List.cons_subset.mp hsub
      refine Prog.Triple.bind (Prog.triple_awaitWith (Q := fun _ => Resolved deps s₀ v)
        (fun s hs => ?_) fun s a s' hs hw => ?_) fun _ => ih hrest
      · rintro _ _ ⟨⟩ hstill
        obtain ⟨folder, prev, listing, hlisted, hremoved⟩ :=
          hs.waiting.held path cursor (hs.held ▸ hmem)
        refine ⟨folder, prev, listing, hlisted, fun href hhref => ?_⟩
        exact (hs.recorded hstill href (hs.removals ▸ hremoved hhref)).of_seen hs.seen
      · have hw : out.Effects s (.cursorSet path cursor) (.ok a) s' := hw
        have hledger : s'.world.ledger = s.world.ledger := by
          rcases effects_ledger hw with hl | ⟨o, host, hwrites, -⟩
          · exact hl
          · cases hwrites
        have hvars := effects_vars hw
        refine ⟨carried_waiting s s' hs.waiting (.call hw), ?_, ?_, ?_, fun hstill => ?_⟩
        · rw [hvars, hs.removals]
        · rw [hvars, hs.held]
        · rw [hvars, hs.seen]
        · rw [hledger]
          exact hs.recorded fun h =>
            hstill (callsSince_subset hs.waiting.log (.call hw) h)

/-- The removals, then the cursors that waited. -/
theorem triple_concludeRemovals (decides : Bool) :
    Watched deps out s₀
      (fun s => Waiting deps s₀ s ∧
        (decides = false → ⟨.stillTheAuthority, .ok false⟩ ∈ callsSince s₀ s))
      (concludeRemovals deps decides) fun _ _ => True := by
  have hread (v : Vars Item) : Watched deps out s₀
      (fun s => (Waiting deps s₀ s ∧
        (decides = false → ⟨.stillTheAuthority, .ok false⟩ ∈ callsSince s₀ s)) ∧ s.vars = v)
      (doIf (decides && !v.reportedRemovals.isEmpty) (concludeReported deps v))
      fun _ => Resolved deps s₀ v := by
    unfold doIf
    split
    · exact Prog.Triple.mono triple_concludeReported (fun s hs => ⟨hs.1.1, hs.2⟩) fun _ _ => id
    · next hno =>
        refine Prog.triple_ret ?_
        rintro s ⟨⟨hw, htold⟩, rfl⟩
        refine ⟨hw, rfl, rfl, rfl, fun hstill href hmem => ?_⟩
        cases decides with
        | false => exact absurd (htold rfl) hstill
        | true =>
            rw [Bool.true_and, Bool.not_eq_true, Bool.not_eq_false', List.isEmpty_iff] at hno
            rw [hno] at hmem
            cases hmem
  intro s hs
  show ((doIf _ _ : Pass Item Raw Folder τ Unit).bind fun _ => doIf _ _).Wp _ _ _ _
  refine Prog.Triple.bind (hread s.vars) (fun _ => ?_) s ⟨hs, rfl⟩
  unfold doIf
  split
  · exact Prog.Triple.mono (triple_setCursors _ (List.Subset.refl _)) (fun _ => id)
      fun _ _ _ => trivial
  · exact Prog.triple_ret fun _ _ => trivial

include hauth

theorem triple_askStillDecides :
    Watched deps out s₀ (Waiting deps s₀) (askStillDecides deps) fun decides s =>
      Waiting deps s₀ s ∧
        (decides = false → ⟨.stillTheAuthority, .ok false⟩ ∈ callsSince s₀ s) := by
  unfold askStillDecides
  rw [if_pos hauth]
  refine Prog.triple_awaitWith (fun s hs path cursor heq => (by cases heq)) ?_
  intro s decides s' hs hw
  have hw : out.Effects s .stillTheAuthority (.ok decides) s' := hw
  refine ⟨carried_waiting s s' hs (.call hw), ?_⟩
  rintro rfl
  exact mem_callsSince_call (o := .stillTheAuthority) hs.log hw

theorem triple_conclude (listedNothing : Bool) :
    Watched deps out s₀ (Waiting deps s₀) (conclude deps listedNothing) fun _ _ => True := by
  have hany : Carried fun _ : PassState Item Raw Folder τ => True := fun _ _ _ _ => trivial
  have hrest (decides : Bool) (v : Vars Item) : Unset (do
      doIf (decides && deps.listDiscardedKeys && reachedEvery listedNothing v) (concludeBin deps)
      doIf (v.fullyEnumerated && reachedEvery listedNothing v) (concludeFormerNames deps)
      doIf (deps.domain = .file && v.fullyEnumerated && decides) (concludeMoves deps) :
      Pass Item Raw Folder τ Unit) :=
    .bind (.doIf unset_concludeBin) fun _ => .bind (.doIf unset_concludeFormerNames) fun _ =>
      .doIf unset_concludeMoves
  refine Prog.Triple.bind (unset_readVars.triple carried_waiting) fun v => ?_
  split
  · exact Prog.triple_throw
  · refine Prog.Triple.bind (triple_askStillDecides hauth) fun decides => ?_
    refine Prog.Triple.seq (fun _ _ => True) ?_ fun _ => (hrest decides v).triple hany
    unfold doIf
    split
    · exact triple_concludeRemovals decides
    · exact Prog.triple_ret fun _ _ => trivial

/-- **The pass**: every cursor of its own is set where its listing's removals
are recorded. -/
theorem triple_runDomainSync :
    Watched deps out s₀ (Waiting deps s₀) (runDomainSync deps) fun _ _ => True := by
  have hany : Carried fun _ : PassState Item Raw Folder τ => True := fun _ _ _ _ => trivial
  refine Prog.Triple.bind (unset_opening.triple carried_waiting) fun _ => ?_
  refine Prog.Triple.bind ((Unset.onVars (fun _ => List.Subset.refl _) fun _ => rfl).triple
    carried_waiting) fun listedNothing => ?_
  cases listedNothing with
  | true =>
      refine Prog.Triple.bind (Unset.triple (by exact .modify (fun _ => rfl) fun _ => rfl)
        carried_waiting) fun _ => ?_
      refine Prog.Triple.bind (triple_conclude hauth true) fun _ => ?_
      exact (Unset.bind unset_readVars fun v => .ret).triple hany
  | false =>
      refine Prog.Triple.bind ((Unset.ask (o := .listFolders) nofun).triple carried_waiting)
        fun folders => ?_
      refine Prog.Triple.bind (triple_syncCollections hauth folders) fun _ => ?_
      refine Prog.Triple.bind (triple_conclude hauth false) fun _ => ?_
      exact (Unset.bind unset_readVars fun v => .ret).triple hany

end Cursors

end Ownpace.Sync

namespace Ownpace

open Await Sync

variable {Item Raw Folder τ : Type} {deps : DomainSyncDeps Item Raw Folder}
variable {out : Outside Item Raw Folder τ} {s₀ s : PassState Item Raw Folder τ}

/-- **Where a pass sets a cursor**, and the old system still decides what
exists: the cursor is that of a listing, and of every href that listing reported
as removed, the row that was copied from it, on the target and seen nowhere in
this pass, is recorded as deleted with reported evidence, provided that no
second row carries the href. -/
theorem removal_recorded (hstart : s₀.vars = {})
    (hauth : deps.sourceIsAuthorityOnExistence = true) {path cursor : String}
    (hset : Issues deps out s₀ s (.cursorSet path cursor))
    (hstill : ⟨.stillTheAuthority, .ok false⟩ ∉ callsSince s₀ s) :
    ∃ folder prev listing, ListedAs deps s₀ s path cursor folder prev listing ∧
      ∀ href ∈ listing.removed, ∀ r ∈ s.world.ledger.rows, CopiedFrom deps href r →
        isOnTarget (some r.status) = true → s.vars.seenAnywhere r.naturalKeyHash = false →
        (∀ r' ∈ s.world.ledger.rows, CopiedFrom deps href r' → r' = r) →
        r.deletionReportedAt.isSome := by
  have hwaiting : Waiting deps s₀ s₀ := by
    refine ⟨List.prefix_rfl, fun path cursor hmem => ?_⟩
    rw [hstart] at hmem
    cases hmem
  cases hset with
  | pass hrun =>
      have hallowed := (Prog.Wp.run hrun (triple_runDomainSync hauth s₀ hwaiting)).1
      exact hallowed path cursor rfl hstill
  | item hrun hreach hmem hprog => exact absurd hprog (task_sets_no_cursor hreach hmem)

/-! ### A calendar whose server reports one removal -/

/-- The server reports the href as removed, and the old system still decides. -/
def removalWorld : Unit → (o : SyncOp Unit String Unit) → Option (o.Ans × Unit)
  | t, .now => some (.ok 0, t)
  | t, .listFolders => some (.ok [()], t)
  | t, .listSince .. =>
      some (.ok { items := [], nextCursor := "next", removed := ["/home/a.ics"] }, t)
  | t, .stillTheAuthority => some (.ok true, t)
  | _, _ => none

/-- The event that was copied from the href. -/
def copiedEvent : ItemRow where
  domain := .calendar
  naturalKeyHash := "new"
  collection := "home"
  status := .copied
  sourceRefHref := some "/home/a.ics"

/-- The event that was there before it, and whose copy was removed since. -/
def removedEvent : ItemRow where
  domain := .calendar
  naturalKeyHash := "old"
  collection := "home"
  status := .tombstoned
  sourceRefHref := some "/home/a.ics"
  deletionAppliedAt := some 1

/-- A pass about to begin over these rows. -/
def removalState (ledger : Ledger) : PassState Unit String Unit Unit where
  world := { ledger := ledger, target := (), cursors := [("home", "before")] }

def oneRow : Ledger := ⟨[copiedEvent], by decide⟩

def twoRows : Ledger := ⟨[removedEvent, copiedEvent], by decide⟩

/-- What the server answered, and that nothing was listed. -/
def saysRemoved : Made Unit String Unit → Bool
  | ⟨.listSince .., .ok listing⟩ => listing.removed = ["/home/a.ics"]
  | ⟨.stillTheAuthority, .ok decides⟩ => decides
  | _ => true

/-- The pass gets to its cursor, having seen nothing, over such rows. -/
def arrivesOver (rows : List ItemRow → Bool) (s : PassState Unit String Unit Unit) : Bool :=
  s.world.log.all saysRemoved && s.vars.seenByCollection.isEmpty && rows s.world.ledger.rows

theorem sets_cursor_over (ledger : Ledger) (rows : List ItemRow → Bool)
    (h : finds eventHost removalWorld eventDeps setsCursor (arrivesOver rows)
      (removalState ledger) = true) :
    ∃ s, Issues eventDeps (Outside.ofAnswer removalWorld) (removalState ledger) s
        (.cursorSet "home" "next") ∧
      (∀ made ∈ callsSince (removalState ledger) s, saysRemoved made = true) ∧
      (∀ key, s.vars.seenAnywhere key = false) ∧ rows s.world.ledger.rows = true := by
  obtain ⟨s, o, hissues, ho, hcheck⟩ := issues_of_finds h
  simp only [arrivesOver, Bool.and_eq_true, List.all_eq_true, List.isEmpty_iff] at hcheck
  obtain ⟨⟨hlog, hseen⟩, hrows⟩ := hcheck
  refine ⟨s, setsCursor_iff.mp ho ▸ hissues, fun made hmem => hlog made ?_, fun key => ?_, hrows⟩
  · exact List.mem_of_mem_drop hmem
  · rw [Vars.seenAnywhere, hseen]
    rfl

/-- One row, of an event copied from the href. -/
def isOneCopy : List ItemRow → Bool
  | [r] => r.domain = .calendar && r.sourceRefHref = some "/home/a.ics" && r.status = .copied
  | _ => false

theorem removal_recorded_event :
    ∃ s, Issues eventDeps (Outside.ofAnswer removalWorld) (removalState oneRow) s
        (.cursorSet "home" "next") ∧
      ∃ r, s.world.ledger.rows = [r] ∧ r.deletionReportedAt.isSome := by
  obtain ⟨s, hissues, hspoken, hunseen, hrows⟩ := sets_cursor_over oneRow isOneCopy
    (by decide +kernel)
  refine ⟨s, hissues, ?_⟩
  obtain ⟨r, hr⟩ : ∃ r, s.world.ledger.rows = [r] := by
    unfold isOneCopy at hrows
    split at hrows
    · next r hr => exact ⟨r, hr⟩
    · cases hrows
  rw [hr] at hrows
  simp only [isOneCopy, Bool.and_eq_true, decide_eq_true_eq] at hrows
  obtain ⟨⟨hdomain, href⟩, hstatus⟩ := hrows
  have hmem : r ∈ s.world.ledger.rows := hr ▸ List.mem_singleton_self r
  obtain ⟨folder, prev, listing, hlisted, hrecorded⟩ := removal_recorded rfl rfl hissues
    fun htold => Bool.false_ne_true (hspoken _ htold)
  refine ⟨r, hr, hrecorded "/home/a.ics" ?_ r hmem ⟨hdomain, href, (by decide)⟩ ?_ (hunseen _) ?_⟩
  · have hremoved := hspoken _ hlisted.answered
    simp only [saysRemoved, decide_eq_true_eq] at hremoved
    rw [hremoved]
    exact List.mem_singleton_self _
  · rw [hstatus]
    rfl
  · intro r' hmem' _
    rw [hr] at hmem'
    exact List.mem_singleton.mp hmem'

/-- The row that is found is the one whose copy was removed: the cursor moves
past the report, and the copied event is not recorded. -/
theorem removal_lost :
    ¬ ∀ s path cursor, Issues eventDeps (Outside.ofAnswer removalWorld) (removalState twoRows) s
        (.cursorSet path cursor) →
      ∃ folder prev listing,
        ListedAs eventDeps (removalState twoRows) s path cursor folder prev listing ∧
        ∀ href ∈ listing.removed, ∀ r ∈ s.world.ledger.rows, CopiedFrom eventDeps href r →
          isOnTarget (some r.status) = true → s.vars.seenAnywhere r.naturalKeyHash = false →
          r.deletionReportedAt.isSome := by
  intro hall
  obtain ⟨s, hissues, hspoken, hunseen, hrows⟩ := sets_cursor_over twoRows
    (fun rows => rows.contains copiedEvent) (by decide +kernel)
  obtain ⟨folder, prev, listing, hlisted, hrecorded⟩ := hall s _ _ hissues
  have hremoved := hspoken _ hlisted.answered
  simp only [saysRemoved, decide_eq_true_eq] at hremoved
  have hsome := hrecorded "/home/a.ics" (hremoved ▸ List.mem_singleton_self _) copiedEvent
    (List.contains_iff_mem.mp hrows) ⟨rfl, rfl, (by decide)⟩ rfl (hunseen _)
  cases hsome

end Ownpace
