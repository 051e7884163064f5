/-
Ownpace/Sync/Exec.lean

A pass run against a world that answers every call: `answer` says what the
source, the target and the other services answer, the ledger and the stored
cursors are the model's own, and the items of a listing are taken one after the
other.  What is computed here is a run of the pass (`passRun_exec`).
-/
import Ownpace.Await.Exec
import Ownpace.Sync.Pass

namespace Ownpace.Sync

open Await Ownpace

variable {Item Raw Folder τ : Type}

/-- What lies outside, as one function; its writer records no row of its own. -/
def Outside.ofAnswer
    (answer : τ → (o : SyncOp Item Raw Folder) → Option (o.Ans × τ)) :
    Outside Item Raw Folder τ where
  answers t o a t' := answer t o = some (a, t')
  records := fun _ _ _ _ _ => False

section World

variable (host : Host) (answer : τ → (o : SyncOp Item Raw Folder) → Option (o.Ans × τ))

/-- What a call that is no `mapItems` does to the world. -/
def callWorld (s : PassState Item Raw Folder τ) : (o : SyncOp Item Raw Folder) →
    Option (o.Ans × PassWorld Item Raw Folder τ)
  | .ledger o =>
    some ((o.run host s.world.ledger).1.mapError fun message => { message := message },
      { s.world with ledger := (o.run host s.world.ledger).2 })
  | .cursorGet c => some (.ok (s.world.cursors.lookup c), s.world)
  | .cursorSet c value =>
    some (.ok (), { s.world with cursors := (c, value) :: s.world.cursors })
  | .writerRecords .. => some (.ok (), s.world)
  | .recordAppEvent event => some (.ok event, s.world)
  | .awaitAsking n => (s.vars.askings.lookup n).map fun a => (a, s.world)
  | .awaitCollection => (s.vars.targetCollection.bind id).map fun a => (a, s.world)
  | .awaitRows n => (s.vars.windows.lookup n).map fun rows => (.ok rows, s.world)
  | .mapItems .. => none
  | o => (answer s.world.target o).map fun (a, t) => (a, { s.world with target := t })

def callState (s : PassState Item Raw Folder τ) (o : SyncOp Item Raw Folder) :
    Option (o.Ans × PassState Item Raw Folder τ) :=
  (callWorld host answer s o).map fun (a, w) =>
    (a, { s with world := { w with log := s.world.log ++ [⟨o, a⟩] } })

/-- What a call of the pass does. -/
def passState (deps : DomainSyncDeps Item Raw Folder) (s : PassState Item Raw Folder τ) :
    (o : SyncOp Item Raw Folder) → Option (o.Ans × PassState Item Raw Folder τ)
  | .mapItems visit folder items =>
    Pool.execAll (callState host answer) (workers deps visit folder items) s
  | o => callState host answer s o

/-- A pass, until it ends or is about to make a call that `stop` picks. -/
def execPass (deps : DomainSyncDeps Item Raw Folder) (stop : SyncOp Item Raw Folder → Bool)
    (s : PassState Item Raw Folder τ) :=
  (runDomainSync deps).exec (passState host answer deps) stop s

end World

variable {host : Host} {answer : τ → (o : SyncOp Item Raw Folder) → Option (o.Ans × τ)}
variable {deps : DomainSyncDeps Item Raw Folder} {s s' : PassState Item Raw Folder τ}

theorem effects_callState {o : SyncOp Item Raw Folder} {a : o.Ans}
    (h : callState host answer s o = some (a, s')) : (Outside.ofAnswer answer).Effects s o a s' := by
  obtain ⟨⟨a, w⟩, hw, heq⟩ := Option.map_eq_some_iff.mp h
  cases heq
  refine ⟨w, ?_, rfl⟩
  cases o with
  | ledger o =>
      cases hw
      exact ⟨⟨host, .inl ⟨rfl, rfl⟩⟩, rfl⟩
  | cursorGet c =>
      cases hw
      exact ⟨rfl, .inl rfl⟩
  | cursorSet c value =>
      cases hw
      exact .inl rfl
  | writerRecords raw item options result =>
      cases hw
      exact .inl rfl
  | recordAppEvent event =>
      cases hw
      exact ⟨rfl, event, rfl⟩
  | awaitAsking n =>
      obtain ⟨a', hl, heq⟩ := Option.map_eq_some_iff.mp hw
      cases heq
      exact ⟨rfl, hl⟩
  | awaitCollection =>
      obtain ⟨a', hl, heq⟩ := Option.map_eq_some_iff.mp hw
      cases heq
      obtain ⟨answer, ht, rfl⟩ := Option.bind_eq_some_iff.mp hl
      exact ⟨rfl, ht⟩
  | awaitRows n =>
      obtain ⟨rows, hl, heq⟩ := Option.map_eq_some_iff.mp hw
      cases heq
      exact ⟨rfl, rows, hl, rfl⟩
  | mapItems => cases hw
  | _ =>
      obtain ⟨⟨a', t⟩, ha, heq⟩ := Option.map_eq_some_iff.mp hw
      cases heq
      exact ⟨ha, rfl⟩

theorem effects_passState {o : SyncOp Item Raw Folder} {a : o.Ans}
    (h : passState host answer deps s o = some (a, s')) :
    Effects deps (Outside.ofAnswer answer) s o a s' := by
  cases o with
  | mapItems visit folder items =>
      have hworld : ∀ s o a s', callState host answer s o = some (a, s') →
          (Outside.ofAnswer answer).Effects s o a s' := fun _ _ _ _ => effects_callState
      exact Pool.reaches_execAll hworld h
  | _ => exact effects_callState h

/-- **What is computed is a run.** -/
theorem passRun_exec {stop : SyncOp Item Raw Folder → Bool}
    {p : Pass Item Raw Folder τ (DomainSyncResult Item)}
    (h : execPass host answer deps stop s = some (p, s')) :
    ∃ path, PassRun deps (Outside.ofAnswer answer) s p path s' := by
  have hworld : ∀ s o a s', passState host answer deps s o = some (a, s') →
      Effects deps (Outside.ofAnswer answer) s o a s' := fun _ _ _ _ => effects_passState
  exact Prog.run_exec hworld .refl h

/-- A pass of nothing yet, over no rows. -/
def newPass (target : τ) : PassState Item Raw Folder τ where
  world := { ledger := Store.Table.empty, target := target }

section Finds

variable (host answer deps)

/-- Does the pass get to such a call, in a state that passes the check? -/
def finds (isOp : SyncOp Item Raw Folder → Bool) (check : PassState Item Raw Folder τ → Bool)
    (s : PassState Item Raw Folder τ) : Bool :=
  (execPass host answer deps isOp s).any fun r => r.1.next.any isOp && check r.2

end Finds

/-- A call that the pass is found to make, in a state that was looked at. -/
theorem issues_of_finds {isOp : SyncOp Item Raw Folder → Bool}
    {check : PassState Item Raw Folder τ → Bool}
    (h : finds host answer deps isOp check s = true) :
    ∃ s' o, Issues deps (Outside.ofAnswer answer) s s' o ∧ isOp o = true ∧ check s' = true := by
  obtain ⟨⟨p, s'⟩, hexec, hp⟩ := (Option.any_eq_true _ _).mp h
  rw [Bool.and_eq_true] at hp
  obtain ⟨o, hnext, ho⟩ := (Option.any_eq_true _ _).mp hp.1
  obtain ⟨k, rfl⟩ := Prog.next_eq_some hnext
  obtain ⟨path, hrun⟩ := passRun_exec hexec
  exact ⟨s', o, .pass hrun, ho, hp.2⟩

end Ownpace.Sync
