/-
Ownpace/Tenant/Scope.lean

The one place that a tenant is set (`inTenantScope` of `db.ts`), over the connections of a pool
(`pgDriver`), and what waits for its transaction to commit (`after-commit.ts`).

A connection keeps whatever its last holder left it in: that the next one finds it clean is to
be proved, not assumed.  What a statement saw of its connection is noted as it runs.
-/
import Mathlib.Logic.Function.Basic
import Ownpace.Await.Exec
import Ownpace.Await.Rely

namespace Ownpace.Tenant

open Await

/-- The kinds of things that the scopes handle: roles, tenants, statements and their rows, the
work held until a commit, results, and what the caller's work throws. -/
structure Kinds where
  Role : Type
  TenantId : Type
  Statement : Type
  Rows : Type
  Line : Type
  Result : Type
  Failure : Type

variable {K : Kinds}

/-! ### The connections -/

/-- An open transaction: the role and the tenant set in it, and the statements run, each with
the scope that ran it. -/
structure Transaction (K : Kinds) where
  role : Option K.Role := none
  tenant : Option K.TenantId := none
  work : List (Nat × K.Statement) := []

inductive Conn (K : Kinds) : Type
  | idle
  | inTransaction (tx : Transaction K)
  | aborted
  | dead

/-- A statement of a scope, and what it saw. -/
structure Seen (K : Kinds) where
  scope : Nat
  statement : K.Statement
  role : Option K.Role
  tenant : Option K.TenantId

structure World (K : Kinds) where
  conns : Nat → Conn K
  /-- The scope that holds a connection. -/
  owner : Nat → Option Nat
  log : List (Seen K) := []
  /-- What was committed, and by which scope's statement. -/
  commits : List (Nat × List (Nat × K.Statement)) := []
  /-- The scopes whose COMMIT ended a transaction that was aborted. -/
  nothing : List Nat := []
  /-- The scopes whose COMMIT was done and not answered. -/
  unheard : List Nat := []
  /-- The work that ran after its scope had committed. -/
  lines : List (Nat × K.Line) := []
  outcomes : List (Nat × Bool) := []

def World.fresh : World K where
  conns _ := .idle
  owner _ := none

/-- What the statement of a scope saw on its connection. -/
def Conn.sees (scope : Nat) (statement : K.Statement) : Conn K → Seen K
  | inTransaction tx => { scope, statement, role := tx.role, tenant := tx.tenant }
  | _ => { scope, statement, role := none, tenant := none }

/-! ### What is awaited -/

inductive DbOp (K : Kinds) : Type
  | acquire (scope : Nat)
  | beginTransaction (scope conn : Nat)
  | setRole (scope conn : Nat) (role : K.Role)
  | setTenant (scope conn : Nat) (tenant : K.TenantId)
  | run (scope conn : Nat) (statement : K.Statement)
  | commit (scope conn : Nat)
  | rollback (scope conn : Nat)

/-- A statement that fails aborts the transaction it was in; a COMMIT that fails ends it. -/
def DbOp.fail : DbOp K → Conn K → Conn K
  | commit .., .inTransaction _ => .idle
  | _, .inTransaction _ => .aborted
  | _, conn => conn

/-- The connection that a statement goes to, and the scope it is of. -/
def DbOp.sentOn : DbOp K → Option (Nat × Nat)
  | acquire _ => none
  | beginTransaction scope conn => some (scope, conn)
  | setRole scope conn _ => some (scope, conn)
  | setTenant scope conn _ => some (scope, conn)
  | run scope conn _ => some (scope, conn)
  | commit scope conn => some (scope, conn)
  | rollback scope conn => some (scope, conn)

abbrev DbOp.Reply : DbOp K → Type
  | acquire _ => Nat
  | beginTransaction .. => Unit
  | setRole .. => Unit
  | setTenant .. => Unit
  | run .. => K.Rows
  | commit .. => Unit
  | rollback .. => Unit

abbrev DbOp.Ans (o : DbOp K) : Type := Except String o.Reply

def World.put (conn : Nat) (state : Conn K) (s : World K) : World K :=
  { s with conns := Function.update s.conns conn state }

/-- `SET LOCAL`, which outside a transaction does nothing but warn. -/
def Conn.setLocal (f : Transaction K → Transaction K) : Conn K → Conn K
  | inTransaction tx => inTransaction (f tx)
  | conn => conn

/-- What a statement does to its connection and to the database, where it is answered. -/
def World.carryOut : DbOp K → World K → World K
  | .acquire _, s => s
  | .beginTransaction _ conn, s =>
    -- BEGIN in a transaction does nothing but warn
    match s.conns conn with
    | .idle => s.put conn (.inTransaction {})
    | _ => s
  | .setRole _ conn role, s =>
    s.put conn ((s.conns conn).setLocal fun tx => { tx with role := some role })
  | .setTenant _ conn tenant, s =>
    s.put conn ((s.conns conn).setLocal fun tx => { tx with tenant := some tenant })
  | .run scope conn statement, s =>
    match s.conns conn with
    | .inTransaction tx =>
      { s.put conn (.inTransaction { tx with work := tx.work ++ [(scope, statement)] }) with
        log := s.log ++ [(s.conns conn).sees scope statement] }
    | _ =>
      { s with
        log := s.log ++ [(s.conns conn).sees scope statement]
        commits := s.commits ++ [(scope, [(scope, statement)])] }
  | .commit scope conn, s =>
    match s.conns conn with
    | .inTransaction tx => { s.put conn .idle with commits := s.commits ++ [(scope, tx.work)] }
    -- COMMIT of a transaction that is aborted rolls it back, and says nothing
    | .aborted => { s.put conn .idle with nothing := s.nothing ++ [scope] }
    | _ => s
  | .rollback _ conn, s => s.put conn .idle

/-- Is this answered on a connection that is so? -/
def Conn.answers : Conn K → DbOp K → Bool
  | dead, _ => false
  | aborted, .commit .. => true
  | aborted, .rollback .. => true
  | aborted, _ => false
  | _, _ => true

/-- What a call may answer, and the world it leaves.  A statement may fail, and may lose the
connection with it; the COMMIT that is not answered may have been done. -/
inductive Effects : World K → (o : DbOp K) → o.Ans → World K → Prop
  | acquired {s : World K} {scope conn : Nat} (hfree : s.owner conn = none) :
      Effects s (.acquire scope) (.ok conn)
        { s with owner := Function.update s.owner conn (some scope) }
  | refused {s : World K} {scope : Nat} (e : String) : Effects s (.acquire scope) (.error e) s
  | answered {s : World K} {o : DbOp K} {a : o.Reply} {scope conn : Nat}
      (ho : o.sentOn = some (scope, conn)) (h : (s.conns conn).answers o = true) :
      Effects s o (.ok a) (s.carryOut o)
  | failed {s : World K} {o : DbOp K} {scope conn : Nat} (e : String)
      (ho : o.sentOn = some (scope, conn)) : Effects s o (.error e) (s.put conn (o.fail (s.conns conn)))
  | lost {s : World K} {o : DbOp K} {scope conn : Nat} (e : String)
      (ho : o.sentOn = some (scope, conn)) : Effects s o (.error e) (s.put conn .dead)
  | unheard {s : World K} {scope conn : Nat} {tx : Transaction K} (e : String)
      (h : s.conns conn = .inTransaction tx) :
      Effects s (.commit scope conn) (.error e)
        { s.put conn .dead with
          commits := s.commits ++ [(scope, tx.work)]
          unheard := s.unheard ++ [scope] }

/-! ### The scope -/

inductive ScopeError (K : Kinds) : Type
  | sql (e : String)
  | work (e : K.Failure)

abbrev Scoped (K : Kinds) (α : Type) : Type := Prog (World K) (DbOp K) DbOp.Ans (ScopeError K) α

def ask (o : DbOp K) : Scoped K o.Reply := Prog.awaitWith .sql o

/-- The caller's work: any statements, one after the other, each going by what the ones before
answered, or failed with; and what it hands `afterCommit` on the way. -/
inductive Work (K : Kinds) : Type
  | done (result : K.Result)
  | fails (e : ScopeError K)
  | statement (st : K.Statement) (next : Except String K.Rows → Work K)
  | afterCommit (line : K.Line) (next : Work K)

/-- The work on the transaction's connection, and what it holds until the commit. -/
def Work.run (scope conn : Nat) (held : List K.Line) : Work K → Scoped K (K.Result × List K.Line)
  | done result => .ret (result, held)
  | fails e => .throw e
  | statement st next => .call (.run scope conn st) fun answer => (next answer).run scope conn held
  | afterCommit line next => next.run scope conn (held ++ [line])

/-- Back to the pool, or, after a rollback that failed, discarded: its session ends. -/
def World.release (conn : Nat) (releaseError : Bool) (s : World K) : World K :=
  { s with
    owner := Function.update s.owner conn none
    conns := if releaseError then Function.update s.conns conn .dead else s.conns }

/-- What waited runs once the transaction has committed. -/
def World.ended (scope : Nat) (held : List K.Line) (s : World K) : World K :=
  { s with lines := s.lines ++ held.map fun line => (scope, line) }

def setRoleIfGiven (scope conn : Nat) (role : Option K.Role) : Scoped K Unit :=
  role.elim (.ret ()) fun role => ask (.setRole scope conn role)

def transaction (scope conn : Nat) (role : Option K.Role) (tenantId : K.TenantId) (fn : Work K) :
    Scoped K (K.Result × List K.Line) :=
  ask (.beginTransaction scope conn) >>= fun _ =>
  setRoleIfGiven scope conn role >>= fun _ =>
  ask (.setTenant scope conn tenantId) >>= fun _ =>
  fn.run scope conn [] >>= fun done =>
  ask (.commit scope conn) >>= fun _ => .ret done

def inTenantScope (scope : Nat) (role : Option K.Role) (tenantId : K.TenantId) (fn : Work K) :
    Scoped K K.Result :=
  ask (.acquire scope) >>= fun conn =>
  (transaction scope conn role tenantId fn).attempt >>= fun
  | .ok (result, held) =>
    Prog.modify (fun s => (s.release conn false).ended scope held) >>= fun _ => .ret result
  | .error e =>
    (ask (.rollback scope conn)).attempt >>= fun (rolledBack : Except (ScopeError K) Unit) =>
    Prog.modify (World.release conn (!rolledBack.isOk)) >>= fun _ => .throw e

/-- A caller of the scope. -/
def caller (role : Option K.Role) (tenants : Nat → K.TenantId) (work : Nat → Work K) (scope : Nat) :
    Scoped K Unit :=
  (inTenantScope scope role (tenants scope) (work scope)).attempt >>= fun
    (outcome : Except (ScopeError K) K.Result) =>
  Prog.modify fun s => { s with outcomes := s.outcomes ++ [(scope, outcome.isOk)] }

end Ownpace.Tenant
