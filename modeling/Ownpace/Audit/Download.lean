/-
Ownpace/Audit/Download.lean

The audit log read back for the export's download (`audit-export-read.ts`), and the log store
that downloads it page by page from the cursor it was handed.

An event's time is the start of its transaction, not its commit: a time may become visible
behind one that is there already.  The log, its open transactions and the clock are the
`Ledger`; they go on between any two statements of the download.
-/
import Mathlib.Data.Prod.Lex
import Ownpace.Await.Rely
import Ownpace.Store.Filed
import Ownpace.Store.Keyset

namespace Ownpace.Audit

open Await

variable {I T : Type}

/-! ### The log -/

/-- An audit event: its time (`at`, its transaction's start, in microseconds) and its id. -/
structure AuditExportEvent (I T : Type) where
  time : Nat
  id : I
  tenantId : T
  action : String
  deriving DecidableEq

/-- The order that the download serves events in: by time and then id. -/
def AuditExportEvent.key (e : AuditExportEvent I T) : Nat ×ₗ I := toLex (e.time, e.id)

structure Ledger (I T : Type) where
  /-- The database's clock. -/
  now : Nat := 0
  committed : List (AuditExportEvent I T) := []
  /-- The open transactions: when each started, and what it has written. -/
  transactions : List (Nat × List (AuditExportEvent I T)) := []

/-- What goes on in the log.  A transaction that writes audit events runs for `runsFor` at
most; ids are a primary key. -/
inductive Ledger.Step (runsFor : Nat) : Ledger I T → Ledger I T → Prop
  | tick {l : Ledger I T} {now : Nat} (h : l.now ≤ now) : Step runsFor l { l with now }
  | began {l : Ledger I T} :
      Step runsFor l { l with transactions := l.transactions ++ [(l.now, [])] }
  | recorded {l : Ledger I T} {before after : List (Nat × List (AuditExportEvent I T))}
      {start : Nat} {events : List (AuditExportEvent I T)} {e : AuditExportEvent I T}
      (h : l.transactions = before ++ (start, events) :: after) (he : e.time = start) :
      Step runsFor l { l with transactions := before ++ (start, events ++ [e]) :: after }
  | committed {l : Ledger I T} {before after : List (Nat × List (AuditExportEvent I T))}
      {start : Nat} {events : List (AuditExportEvent I T)}
      (h : l.transactions = before ++ (start, events) :: after) (hruns : l.now ≤ start + runsFor)
      (hids : ((l.committed ++ events).map (·.id)).Nodup) :
      Step runsFor l
        { l with committed := l.committed ++ events, transactions := before ++ after }
  | rolledBack {l : Ledger I T} {before after : List (Nat × List (AuditExportEvent I T))}
      {start : Nat} {events : List (AuditExportEvent I T)}
      (h : l.transactions = before ++ (start, events) :: after) :
      Step runsFor l { l with transactions := before ++ after }

/-! ### The page -/

section

variable [LinearOrder I] [DecidableEq T]

/-- One organisation under its policy, or the operator's view of every one. -/
abbrev View (T : Type) : Type := Option T

def View.covers (view : View T) (e : AuditExportEvent I T) : Bool :=
  view.elim true fun tenantId => decide (e.tenantId = tenantId)

/-- The `WHERE` of `auditExportPageQuery`: settled, of the view, and after the cursor. -/
def selected (settle now : Nat) (view : View T) (after : Option (Nat ×ₗ I))
    (e : AuditExportEvent I T) : Bool :=
  decide (e.time + settle < now) && view.covers e && after.elim true fun c => decide (c < e.key)

def auditExportPage (settle : Nat) (view : View T) (after : Option (Nat ×ₗ I)) (limit : Nat)
    (l : Ledger I T) : List (AuditExportEvent I T) :=
  Store.firsts AuditExportEvent.key limit (l.committed.filter (selected settle l.now view after))

/-! ### The download -/

/-- The log, and what the log store holds. -/
structure World (I T : Type) where
  ledger : Ledger I T := {}
  got : List (AuditExportEvent I T) := []
  after : Option (Nat ×ₗ I) := none
  /-- When the views of this page were read. -/
  readAt : List Nat := []
  /-- Every page's events had settled at each of its readings. -/
  whole : Bool := true
  /-- When the views of the last page that caught up were read. -/
  caughtUp : Option (List Nat) := none

inductive DownloadOp (I T : Type) : Type
  | page (view : View T) (after : Option (Nat ×ₗ I)) (limit : Nat)

abbrev DownloadOp.Ans (_ : DownloadOp I T) : Type := Except String (List (AuditExportEvent I T))

abbrev Downloading (I T α : Type) : Type :=
  Prog (World I T) (DownloadOp I T) DownloadOp.Ans String α

/-- A page is read at one moment, or the reading fails. -/
inductive Effects (settle : Nat) : World I T → (o : DownloadOp I T) → o.Ans → World I T → Prop
  | read {s : World I T} {view : View T} {after : Option (Nat ×ₗ I)} {limit : Nat} :
      Effects settle s (.page view after limit)
        (.ok (auditExportPage settle view after limit s.ledger))
        { s with readAt := s.readAt ++ [s.ledger.now] }
  | failed {s : World I T} {o : DownloadOp I T} (e : String) : Effects settle s o (.error e) s

def ask (view : View T) (after : Option (Nat ×ₗ I)) (limit : Nat) :
    Downloading I T (List (AuditExportEvent I T)) :=
  .call (.page view after limit) .ofExcept

def readViews (after : Option (Nat ×ₗ I)) (limit : Nat) :
    List (View T) → Downloading I T (List (AuditExportEvent I T))
  | [] => .ret []
  | view :: views =>
    ask view after limit >>= fun rows =>
    readViews after limit views >>= fun events => .ret (rows ++ events)

/-- The events after the cursor, oldest first: each organisation's page, merged. -/
def readAuditExport (tenantIds : List T) (after : Option (Nat ×ₗ I)) (limit : Nat) :
    Downloading I T (List (AuditExportEvent I T)) :=
  readViews after limit (tenantIds.eraseDups.map some) >>= fun events =>
  .ret (Store.firsts AuditExportEvent.key limit events)

/-- Where an edition reads its download: the organisations that an appliance serves, or the
operator's view. -/
inductive Edition (T : Type) : Type
  | appliance (tenantIds : List T)
  | managed

def Edition.views : Edition T → List (View T)
  | appliance tenantIds => tenantIds.eraseDups.map some
  | managed => [none]

def Edition.page (after : Option (Nat ×ₗ I)) (limit : Nat) :
    Edition T → Downloading I T (List (AuditExportEvent I T))
  | appliance tenantIds => readAuditExport tenantIds after limit
  | managed => ask none after limit

/-- A page received: the store keeps its lines, and the cursor it was handed. -/
def World.received (settle limit : Nat) (events : List (AuditExportEvent I T)) (s : World I T) :
    World I T :=
  { s with
    got := s.got ++ events
    after := (events.getLast?.map AuditExportEvent.key).or s.after
    whole := s.whole && events.all fun e => s.readAt.all fun now => decide (e.time + settle < now)
    caughtUp := if events.length < limit then some s.readAt else s.caughtUp }

/-- The log store: one page after the other, from where the last one ended. -/
def download (settle : Nat) (edition : Edition T) : List Nat → Downloading I T Unit
  | [] => .ret ()
  | limit :: limits =>
    .sync (fun s => { s with readAt := [] }) fun s =>
      (edition.page s.after limit).attempt >>= fun
      | .ok events =>
        Prog.modify (World.received settle limit events) >>= fun _ => download settle edition limits
      | .error _ => download settle edition limits

end

/-- The log goes on. -/
def World.Evolves (runsFor : Nat) (s s' : World I T) : Prop :=
  ∃ ledger, s.ledger.Step runsFor ledger ∧ s' = { s with ledger }

end Ownpace.Audit
