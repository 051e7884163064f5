/-
Ownpace/Sync/FalseMoves.lean

When no pass says a false move.

`MovePass` is a pass, up to any moment of it.  It lists an item in two collections
at once only where its source does.  Where such an item's row rests
(`RestsAt`), the pass says no move of it and leaves its row's columns; of all other
items each is listed in one collection, which is not the one its row records.
-/
import Ownpace.Sync.Resting
import Ownpace.Sync.Exec

namespace Ownpace.Sync

open Await Ownpace Store

variable {Item Raw Folder τ : Type}

/-! ### The passes -/

/-- A pass over the items of one domain, up to any moment of it. -/
structure MovePass (Item Raw Folder τ : Type) (domain : DiscoveryDomain) where
  deps : DomainSyncDeps Item Raw Folder
  domain_eq : deps.domain = domain
  out : Outside Item Raw Folder τ
  start : PassWorld Item Raw Folder τ
  stop : PassState Item Raw Folder τ
  stands : Stands deps out { world := start } stop

/-- What the row of a key says of its place, and of a move from there. -/
structure Placing where
  collection : String
  movedToCollection : Option String
  movedToNaturalKeyHash : Option String
  moveAcknowledgedAt : Option Nat
deriving DecidableEq

def placing (l : Ledger) (key : String) : Option Placing :=
  (l.get key).map fun r =>
    ⟨r.collection, r.movedToCollection, r.movedToNaturalKeyHash, r.moveAcknowledgedAt⟩

namespace MovePass

variable {domain : DiscoveryDomain}

/-- The calls of the pass. -/
def made (p : MovePass Item Raw Folder τ domain) : List (Made Item Raw Folder) :=
  callsSince { world := p.start } p.stop

/-- The pass listed an item of this key in this collection. -/
def Lists (p : MovePass Item Raw Folder τ domain) (collection key : String) : Prop :=
  ListedIn p.deps p.stop.vars collection key

/-- The pass listed the item in two collections. -/
def ListsTwice (p : MovePass Item Raw Folder τ domain) (key : String) : Prop :=
  ∃ c c', c ≠ c' ∧ p.Lists c key ∧ p.Lists c' key

/-- A call that records a move of the row under this key. -/
def Records (p : MovePass Item Raw Folder τ domain) (key : String) : Prop :=
  ∃ dest toKey pairedBy a, ⟨.ledger (.recordMove p.deps.domain key dest toKey pairedBy), a⟩ ∈ p.made

/-- No false move: what is said to have moved was not listed where its row records
it, and of an item in two collections nothing is said and its row stays. -/
structure NoFalseMove (p : MovePass Item Raw Folder τ domain) : Prop where
  reported : ∀ m ∈ p.stop.vars.moves, RowSaid p.deps p.made m.naturalKeyHash m.fromCollection ∧
    ¬ p.Lists m.fromCollection m.naturalKeyHash
  recorded : ∀ key, p.Records key → ∃ collection, RowSaid p.deps p.made key collection ∧
    ¬ p.Lists collection key
  twice : ∀ key, p.ListsTwice key → (∀ m ∈ p.stop.vars.moves, m.naturalKeyHash ≠ key) ∧
    ¬ p.Records key ∧ placing p.stop.world.ledger key = placing p.start.ledger key

/-- No item is in two collections, but one whose row rests and whose key its listing
states. -/
def Meets (p : MovePass Item Raw Folder τ domain) : Prop :=
  ∀ key, p.ListsTwice key →
    (∀ item, MayHaveKey p.deps item key → p.deps.naturalKey item = some key) ∧
      ∃ collection, RestsAt domain p.start.ledger key collection False

/-- The next pass begins with what this one left. -/
def Follows (p q : MovePass Item Raw Folder τ domain) : Prop :=
  q.start = p.stop.world

variable {p q : MovePass Item Raw Folder τ domain} {key collection : String}

theorem said : MovesSaid p.deps (NotHere p.deps) { world := p.start } p.stop :=
  movesSaid_of_stands rfl p.stands

/-- At rest at its start, the row of an item rests at its end. -/
theorem stays (hstated : ∀ item, MayHaveKey p.deps item key → p.deps.naturalKey item = some key)
    (hrow : RestsAt domain p.start.ledger key collection False) :
    StaysResting p.deps { world := p.start } key collection True p.stop :=
  staysResting_of_stands rfl hstated (p.domain_eq.symm ▸ hrow) p.stands

end MovePass

theorem placing_of_restsAt {domain : DiscoveryDomain} {l : Ledger} {key collection : String} {late : Prop}
    (h : RestsAt domain l key collection late) :
    placing l key = some ⟨collection, none, none, none⟩ := by
  obtain ⟨r, hget, -, rfl, hrest⟩ := h
  rw [placing, hget, Option.map_some, hrest.unmarked, hrest.unkeyed, hrest.unacknowledged]

namespace MovePass

variable {domain : DiscoveryDomain} {p q : MovePass Item Raw Folder τ domain} {key collection : String}

/-- Of a row at rest no move is said. -/
theorem not_rowSaid_of_stays (h : StaysResting p.deps { world := p.start } key collection True p.stop)
    {c : String} : ¬ RowSaid p.deps p.made key c := by
  intro hsaid
  cases hsaid with
  | read _ _ _ hmove => exact h.unrecorded _ _ _ _ hmove
  | placed hplaced hrow hlive hkey _ =>
      have happlied := h.unplaced _ hplaced _ hrow hkey
      rw [hlive] at happlied
      cases happlied

/-- Where a pass meets the condition, an item that is not here was not listed here. -/
theorem not_lists_of_notHere (h : p.Meets) (hsaid : RowSaid p.deps p.made key collection)
    (hnot : NotHere p.deps p.stop.vars collection key) : ¬ p.Lists collection key := by
  intro hlists
  rcases hnot with ⟨other, hne, hseen⟩ | ⟨hunseen, hfinished, hall⟩
  · obtain ⟨hstated, c, hrow⟩ := h key ⟨other, collection, hne, .noted hseen, hlists⟩
    exact not_rowSaid_of_stays (stays hstated hrow) hsaid
  · cases hlists with
    | noted hseen => exact hunseen hseen
    | listing hvisit hc hitem hkey =>
        rcases hall _ hvisit _ hitem key hkey with hseen | hun
        · exact hunseen (hc ▸ hseen)
        · exact hfinished (hc ▸ hun)

theorem records_said (h : p.Records key) :
    ∃ c, RowSaid p.deps p.made key c ∧ NotHere p.deps p.stop.vars c key := by
  obtain ⟨dest, toKey, pairedBy, a, hmem⟩ := h
  exact p.said.recorded key dest toKey pairedBy a hmem

/-- **A pass that meets the condition says no false move.** -/
theorem noFalseMove_of_meets (h : p.Meets) : p.NoFalseMove where
  reported := by
    intro m hm
    obtain ⟨hsaid, hnot⟩ := p.said.reported m hm
    exact ⟨hsaid, not_lists_of_notHere h hsaid hnot⟩
  recorded := by
    intro key hrecords
    obtain ⟨c, hsaid, hnot⟩ := records_said hrecords
    exact ⟨c, hsaid, not_lists_of_notHere h hsaid hnot⟩
  twice := by
    intro key htwice
    obtain ⟨hstated, c, hrow⟩ := h key htwice
    have hstays := stays hstated hrow
    refine ⟨fun m hm hkey => ?_, fun hrecords => ?_, ?_⟩
    · subst hkey
      exact not_rowSaid_of_stays hstays (p.said.reported m hm).1
    · obtain ⟨c', hsaid, -⟩ := records_said hrecords
      exact not_rowSaid_of_stays hstays hsaid
    · have hrow' := hstays.row
      rw [p.domain_eq] at hrow'
      rw [placing_of_restsAt hrow', placing_of_restsAt hrow]

end MovePass

/-! ### Passes over such a source -/

section Passes

variable {domain : DiscoveryDomain} {key : String}

/-- Through every pass, what an item's row says of its place stays. -/
theorem placing_of_chain {p : MovePass Item Raw Folder τ domain}
    {ps : List (MovePass Item Raw Folder τ domain)} (hchain : (p :: ps).IsChain MovePass.Follows)
    (hkept : ∀ q ∈ p :: ps, placing q.stop.world.ledger key = placing q.start.ledger key) :
    ∀ q ∈ p :: ps, placing q.stop.world.ledger key = placing p.start.ledger key := by
  induction ps generalizing p with
  | nil => exact fun q hq => List.mem_singleton.mp hq ▸ hkept p (List.mem_singleton_self p)
  | cons q ps ih =>
      obtain ⟨hfollows, hchain⟩ := List.isChain_cons_cons.mp hchain
      obtain ⟨hp, hrest⟩ := List.forall_mem_cons.mp hkept
      refine List.forall_mem_cons.mpr ⟨hp, fun q' hq' => ?_⟩
      have hstart : q.start = p.stop.world := hfollows
      rw [ih hchain hrest q' hq', hstart, hp]

/-- **No false move**, in any sequence of passes that meet the condition: and through
repeated passes over an item in two collections, its row stays as it was. -/
theorem no_false_move {p : MovePass Item Raw Folder τ domain}
    {ps : List (MovePass Item Raw Folder τ domain)} (hchain : (p :: ps).IsChain MovePass.Follows)
    (hmeets : ∀ q ∈ p :: ps, q.Meets) :
    (∀ q ∈ p :: ps, q.NoFalseMove) ∧
      ∀ key, (∀ q ∈ p :: ps, q.ListsTwice key) →
        ∀ q ∈ p :: ps, placing q.stop.world.ledger key = placing p.start.ledger key := by
  have hno : ∀ q ∈ p :: ps, q.NoFalseMove := fun q hq => MovePass.noFalseMove_of_meets (hmeets q hq)
  refine ⟨hno, fun key htwice => placing_of_chain hchain fun q hq => ?_⟩
  exact ((hno q hq).twice key (htwice q hq)).2.2

end Passes

/-! ### Two mailboxes -/

section Post

theorem movePass_of_exec {host : Host} {answer : τ → (o : SyncOp Item Raw Folder) → Option (o.Ans × τ)}
    {deps : DomainSyncDeps Item Raw Folder} {start : PassWorld Item Raw Folder τ}
    {stop : PassState Item Raw Folder τ} {result : DomainSyncResult Item}
    (h : execPass host answer deps (fun _ => false) { world := start } = some (.ret result, stop)) :
    ∃ p : MovePass Item Raw Folder τ deps.domain, p.deps = deps ∧ p.start = start ∧ p.stop = stop := by
  obtain ⟨path, hrun⟩ := passRun_exec h
  exact ⟨⟨deps, rfl, _, start, stop, .ended hrun⟩, rfl, rfl, rfl⟩

def mailboxDeps : DomainSyncDeps String Unit String where
  domain := .email
  cursors := true
  folderPath := some
  naturalKey := some
  contentHash := fun _ => .ok ""
  sourceIsAuthorityOnExistence := true

/-- The source lists these messages in its inbox and its archive. -/
def mailboxes (inbox archive : List String) :
    Unit → (o : SyncOp String Unit String) → Option (o.Ans × Unit)
  | t, .now => some (.ok 0, t)
  | t, .listFolders => some (.ok ["Inbox", "Archive"], t)
  | t, .listSince folder _ =>
    some (.ok { items := if folder = "Inbox" then inbox else archive, nextCursor := "next" }, t)
  | t, .ensureCollection folder => some (.ok folder, t)
  | t, .stillTheAuthority => some (.ok true, t)
  | _, _ => none

/-- The row of a message in the inbox. -/
def inboxRow (key : String) (status : ItemStatus) : ItemRow where
  domain := .email
  naturalKeyHash := key
  collection := "Inbox"
  status := status

/-- One message is copied, another was left behind. -/
def inboxWorld : PassWorld String Unit String Unit where
  ledger := ⟨[inboxRow "a" .copied, inboxRow "b" .leftBehind], by decide⟩
  target := ()

/-- What a pass over these mailboxes comes to. -/
def inboxPass (inbox archive : List String) :=
  execPass Ledger.removalHost (mailboxes inbox archive) mailboxDeps (fun _ => false) { world := inboxWorld }

def hasEnded : Pass String Unit String Unit (DomainSyncResult String) → Bool
  | .ret _ => true
  | _ => false

/-- Has a pass over them ended, with this seen and these moves reported? -/
def endsWith (inbox archive : List String) (seen : List (String × String)) (moves : List ReportedMove) :
    Bool :=
  (inboxPass inbox archive).any fun r =>
    hasEnded r.1 && (r.2.vars.listed.all (fun v => v.items.all fun key => seen.contains (v.collection, key)) &&
      (r.2.vars.seenByCollection = seen && r.2.vars.moves = moves))

theorem movePass_of_endsWith {inbox archive : List String} {seen : List (String × String)}
    {moves : List ReportedMove} (h : endsWith inbox archive seen moves = true) :
    ∃ p : MovePass String Unit String Unit .email, p.start = inboxWorld ∧ p.deps = mailboxDeps ∧
      p.stop.vars.moves = moves ∧ ∀ c key, p.Lists c key ↔ (c, key) ∈ seen := by
  obtain ⟨⟨prog, stop⟩, hexec, h⟩ := (Option.any_eq_true _ _).mp h
  simp only [Bool.and_eq_true, decide_eq_true_eq] at h
  obtain ⟨hended, hlisted, hseen, hmoves⟩ := h
  cases prog with
  | ret result =>
      obtain ⟨p, hdeps, hstart, rfl⟩ := movePass_of_exec hexec
      refine ⟨p, hstart, hdeps, hmoves, fun c key => ⟨fun hlists => ?_, fun hmem => .noted (hseen ▸ hmem)⟩⟩
      cases hlists with
      | noted hmem => exact hseen ▸ hmem
      | @listing visit item hvisit hc hitem hkey =>
          rw [hdeps] at hkey
          obtain rfl := Option.some.inj hkey
          have hall := List.all_eq_true.mp (List.all_eq_true.mp hlisted visit hvisit) _ hitem
          exact hc ▸ List.contains_iff_mem.mp hall
  | _ => cases hended

/-- A message is moved to the archive, and another, left behind, is in both. -/
theorem no_false_move_of_left_behind :
    ∃ p : MovePass String Unit String Unit .email, p.stop.vars.moves ≠ [] ∧ p.ListsTwice "b" ∧
      (∀ q ∈ [p], q.NoFalseMove) ∧ ∀ key, (∀ q ∈ [p], q.ListsTwice key) →
        ∀ q ∈ [p], placing q.stop.world.ledger key = placing p.start.ledger key := by
  obtain ⟨p, hstart, hdeps, hmoves, hlists⟩ := @movePass_of_endsWith ["b"] ["a", "b"]
    [("Archive", "b"), ("Archive", "a"), ("Inbox", "b")] [⟨.email, "a", "Inbox", "Archive", none⟩]
    (by decide +kernel)
  refine ⟨p, ?_, ⟨"Inbox", "Archive", by decide, ?_, ?_⟩, ?_⟩
  · rw [hmoves]
    exact List.cons_ne_nil _ _
  · exact (hlists _ _).mpr (by decide)
  · exact (hlists _ _).mpr (by decide)
  · refine no_false_move (List.IsChain.singleton p) (List.forall_mem_singleton.mpr ?_)
    rintro key ⟨c, c', hne, hc, hc'⟩
    have hkey : key = "b" := by
      have hc := (hlists c key).mp hc
      have hc' := (hlists c' key).mp hc'
      grind
    subst hkey
    refine ⟨fun item hmay => ?_, "Inbox", inboxRow "b" .leftBehind, ?_, rfl, rfl, ⟨rfl, rfl, rfl, .inl rfl⟩⟩
    · rw [hdeps] at hmay ⊢
      rcases hmay with hmay | ⟨hnone, -⟩
      · exact hmay
      · cases hnone
    · rw [hstart]
      decide

/-- A copied message is in the inbox and in the archive, and is said to have moved. -/
theorem copied_twice_is_moved :
    ¬ ∀ (p : MovePass String Unit String Unit .email) (ps : List (MovePass String Unit String Unit .email)),
      (p :: ps).IsChain MovePass.Follows → (∀ q ∈ p :: ps, q.NoFalseMove) ∧
        ∀ key, (∀ q ∈ p :: ps, q.ListsTwice key) →
          ∀ q ∈ p :: ps, placing q.stop.world.ledger key = placing p.start.ledger key := by
  intro hall
  obtain ⟨p, -, -, hmoves, hlists⟩ := @movePass_of_endsWith ["a"] ["a"]
    [("Archive", "a"), ("Inbox", "a")] [⟨.email, "a", "Inbox", "Archive", none⟩] (by decide +kernel)
  have hno := (hall p [] (List.IsChain.singleton p)).1 p (List.mem_singleton_self p)
  exact (hno.reported _ (hmoves ▸ List.mem_singleton_self _)).2 ((hlists _ _).mpr (by decide))

end Post

end Ownpace.Sync
