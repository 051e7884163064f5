/-
Ownpace/Migrate/Run.lean

The startup migration runner (`migrate.ts`) and the database it runs against: a session for each
run, one advisory lock, the bookkeeping table, and what the database contains.

A session may end at any moment, with its transaction and its lock; the answer to a COMMIT may
be lost with the commit done.
-/
import Mathlib.Data.List.Sort
import Mathlib.Order.Basic
import Ownpace.Await.Exec
import Ownpace.Await.Rely

namespace Ownpace.Migrate

open Await

variable {V D : Type}

/-! ### The database -/

/-- The scripts run and the rows inserted by an open transaction. -/
structure Transaction (V : Type) where
  ran : List V := []
  inserted : List V := []

inductive Session (V : Type) : Type
  | idle
  | inTransaction (tx : Transaction V)
  -- a statement of the transaction failed
  | aborted
  | dead

structure RunMigrationsResult (V : Type) where
  /-- Versions applied during this run. -/
  applied : List V
  /-- Versions already present before this run. -/
  alreadyApplied : List V
  currentVersion : Option V
  deriving DecidableEq

structure Server (V D : Type) where
  contents : D
  /-- The versions in the bookkeeping table, in the order they were committed. -/
  rows : List V
  lock : Option Nat := none
  sessions : Nat → Session V
  /-- Which run committed which version. -/
  commits : List (Nat × V) := []
  results : List (Nat × RunMigrationsResult V) := []

def Server.at (contents : D) (rows : List V) : Server V D where
  contents
  rows
  sessions _ := .idle

/-! ### The statements -/

inductive SqlOp (V : Type) : Type
  -- `pg_advisory_lock`, which waits for the lock
  | lock (run : Nat)
  | createTable (run : Nat)
  | selectVersions (run : Nat)
  | beginTransaction (run : Nat)
  | exec (run : Nat) (version : V)
  | insert (run : Nat) (version : V)
  | commit (run : Nat)
  | rollback (run : Nat)
  | unlock (run : Nat)
  | resetAll (run : Nat)
  deriving DecidableEq

def SqlOp.session : SqlOp V → Nat
  | lock run => run
  | createTable run => run
  | selectVersions run => run
  | beginTransaction run => run
  | exec run _ => run
  | insert run _ => run
  | commit run => run
  | rollback run => run
  | unlock run => run
  | resetAll run => run

abbrev SqlOp.Reply : SqlOp V → Type
  | selectVersions _ => List V
  | lock _ => Unit
  | createTable _ => Unit
  | beginTransaction _ => Unit
  | exec .. => Unit
  | insert .. => Unit
  | commit _ => Unit
  | rollback _ => Unit
  | unlock _ => Unit
  | resetAll _ => Unit

abbrev SqlOp.Ans (o : SqlOp V) : Type := Except String o.Reply

/-- Sessions that end take their transactions and their lock with them. -/
def Server.kill (gone : Nat → Bool) (s : Server V D) : Server V D :=
  { s with
    sessions := fun i => if gone i then .dead else s.sessions i
    lock := s.lock.filter fun i => !gone i }

def Server.session (run : Nat) (session : Session V) (s : Server V D) : Server V D :=
  { s with sessions := Function.update s.sessions run session }

/-- What a statement that fails does to its session. -/
def afterFailure : SqlOp V → Session V → Session V
  | .commit _, .inTransaction _ => .idle
  | _, .inTransaction _ => .aborted
  | _, session => session

def Server.commit (script : V → D → D) (run : Nat) (tx : Transaction V) (s : Server V D) :
    Server V D :=
  { s with
    contents := tx.ran.foldl (fun d version => script version d) s.contents
    rows := s.rows ++ tx.inserted
    sessions := Function.update s.sessions run .idle
    commits := s.commits ++ tx.inserted.map fun version => (run, version) }

/-- What a statement may answer, and the database it leaves. -/
inductive Sql (script : V → D → D) : Server V D → (o : SqlOp V) → o.Ans → Server V D → Prop
  | lost {s : Server V D} {o : SqlOp V} (e : String) (h : s.sessions o.session = .dead) :
      Sql script s o (.error e) s
  | failed {s : Server V D} {o : SqlOp V} (e : String) (h : s.sessions o.session ≠ .dead) :
      Sql script s o (.error e) (s.session o.session (afterFailure o (s.sessions o.session)))
  | locked {s : Server V D} {run : Nat} (h : s.sessions run = .idle) (hfree : s.lock = none) :
      Sql script s (.lock run) (.ok ()) { s with lock := some run }
  | tableThere {s : Server V D} {run : Nat} (h : s.sessions run = .idle) :
      Sql script s (.createTable run) (.ok ()) s
  | selected {s : Server V D} {run : Nat} {versions : List V} (h : s.sessions run = .idle)
      (hversions : versions.Perm s.rows) : Sql script s (.selectVersions run) (.ok versions) s
  | began {s : Server V D} {run : Nat} (h : s.sessions run = .idle) :
      Sql script s (.beginTransaction run) (.ok ()) (s.session run (.inTransaction {}))
  | ran {s : Server V D} {run : Nat} {tx : Transaction V} {version : V}
      (h : s.sessions run = .inTransaction tx) :
      Sql script s (.exec run version) (.ok ())
        (s.session run (.inTransaction { tx with ran := tx.ran ++ [version] }))
  | inserted {s : Server V D} {run : Nat} {tx : Transaction V} {version : V}
      (h : s.sessions run = .inTransaction tx) (hnew : version ∉ s.rows ++ tx.inserted)
      (hothers : ∀ i tx', i ≠ run → s.sessions i = .inTransaction tx' → version ∉ tx'.inserted) :
      Sql script s (.insert run version) (.ok ())
        (s.session run (.inTransaction { tx with inserted := tx.inserted ++ [version] }))
  | committed {s : Server V D} {run : Nat} {tx : Transaction V}
      (h : s.sessions run = .inTransaction tx) :
      Sql script s (.commit run) (.ok ()) (s.commit script run tx)
  | committedUnheard {s : Server V D} {run : Nat} {tx : Transaction V} (e : String)
      (h : s.sessions run = .inTransaction tx) :
      Sql script s (.commit run) (.error e) ((s.commit script run tx).kill fun i => i = run)
  -- COMMIT of a transaction that is aborted rolls it back, and says nothing
  | committedNothing {s : Server V D} {run : Nat} (h : s.sessions run = .aborted) :
      Sql script s (.commit run) (.ok ()) (s.session run .idle)
  | rolledBack {s : Server V D} {run : Nat} (h : s.sessions run ≠ .dead) :
      Sql script s (.rollback run) (.ok ()) (s.session run .idle)
  | unlocked {s : Server V D} {run : Nat} (h : s.sessions run = .idle) :
      Sql script s (.unlock run) (.ok ()) { s with lock := s.lock.filter fun i => i ≠ run }
  | wasReset {s : Server V D} {run : Nat} (h : s.sessions run = .idle) :
      Sql script s (.resetAll run) (.ok ()) s

/-- Any sessions may have ended when a statement arrives. -/
def Effects (script : V → D → D) (s : Server V D) (o : SqlOp V) (a : o.Ans) (s' : Server V D) :
    Prop :=
  ∃ gone, Sql script (s.kill gone) o a s'

/-! ### The runner -/

inductive MigrateError (V : Type) : Type
  | noMigrationFiles
  -- the database is newer than this build
  | newer (highestApplied highestKnown : V)
  | failed (version : V) (e : String)
  | sql (e : String)
  deriving DecidableEq

abbrev Migrating (V D α : Type) : Type := Prog (Server V D) (SqlOp V) SqlOp.Ans (MigrateError V) α

def ask (o : SqlOp V) : Migrating V D o.Reply := Prog.awaitWith .sql o

def MigrateError.message : MigrateError V → String
  | sql e => e
  | noMigrationFiles => "No migration files found"
  | newer .. => "Refusing to start rather than guess."
  | failed _ e => e

/-- Apply a single migration file and record it, atomically. -/
def applyOne (run : Nat) (version : V) : Migrating V D Unit :=
  ask (.beginTransaction run) >>= fun _ =>
  (ask (.exec run version) >>= fun _ =>
    ask (.insert run version) >>= fun _ => ask (.commit run)).attempt >>= fun
  | .ok _ => .ret ()
  | .error e => ask (.rollback run) >>= fun _ => .throw (.failed version e.message)

def applyPending [DecidableEq V] (run : Nat) (alreadyApplied : List V) :
    List V → Migrating V D (List V)
  | [] => .ret []
  | version :: versions =>
    if version ∈ alreadyApplied then applyPending run alreadyApplied versions
    else
      applyOne run version >>= fun _ =>
      applyPending run alreadyApplied versions >>= fun applied => .ret (version :: applied)

section

variable [LinearOrder V]

/-- The downgrade guard. -/
def refuseNewer (highestKnown : V) (alreadyApplied : List V) : Except (MigrateError V) Unit :=
  match alreadyApplied.max? with
  | some highestApplied =>
    if highestKnown < highestApplied then .error (.newer highestApplied highestKnown) else .ok ()
  | none => .ok ()

def underLock (run : Nat) (versions : List V) (highestKnown : V) :
    Migrating V D (RunMigrationsResult V) :=
  ask (.createTable run) >>= fun _ =>
  ask (.selectVersions run) >>= fun alreadyApplied =>
  .ofExcept (refuseNewer highestKnown alreadyApplied) >>= fun _ =>
  applyPending run alreadyApplied versions >>= fun applied =>
  .ret { applied, alreadyApplied, currentVersion := (alreadyApplied ++ applied).max? }

def runMigrations (run : Nat) (versions : List V) : Migrating V D (RunMigrationsResult V) :=
  match versions.getLast? with
  | none => .throw .noMigrationFiles
  | some highestKnown =>
    ask (.lock run) >>= fun _ =>
    (underLock run versions highestKnown).attempt >>= fun outcome =>
    ask (.unlock run) >>= fun _ =>
    ask (.resetAll run) >>= fun _ => .ofExcept outcome

/-- A process that starts, on a build with these versions. -/
def startup (run : Nat) (versions : List V) : Migrating V D Unit :=
  (runMigrations run versions).attempt >>= fun
  | .ok result => Prog.modify fun s => { s with results := s.results ++ [(run, result)] }
  | .error _ => .ret ()

end

end Ownpace.Migrate
