/-
Ownpace/Orchestration/DomainPass.lean

A pass over all data types (`runAllDomains`): the status rows, then the lanes at the same
time, and in each lane one data type after the other.

Every port may fail at every call.  What a pass counted is passed through as it is (`C`).
A lane that fails ends, and the others go on.
-/
import Ownpace.Await.Trace
import Ownpace.Cutover.Machine
import Ownpace.Orchestration.Apart

namespace Ownpace.Orchestration

open Await Store

/-- `PassStopReason` -/
inductive StopReason : Type
  | noLongerRuns
  | grantWithdrawn
  | organisationClosed
  | dataTypeNoLongerRuns
  | stoppedByItsOwner
  deriving DecidableEq

/-- What one data type's pass answers. -/
structure PassResult (C : Type) where
  counts : C
  /-- The day's ceiling, as the reason that is stored. -/
  budgetPause : Option String := none
  haltPause : Option StopReason := none
  /-- The collections that could not be listed. -/
  unread : List String := []

structure DomainSyncResult (C : Type) where
  domain : DiscoveryDomain
  counts : C
  disabled : Bool := false
  haltedBecause : Option StopReason := none
  error : Option String := none

/-! ### What is awaited -/

inductive PassOp : Type
  | initDomainStatus (domain : DiscoveryDomain)
  | markSwitchedOff (domain : DiscoveryDomain)
  | whyItStops (domain : DiscoveryDomain)
  | markInProgress (domain : DiscoveryDomain)
  | phasesNow (domain : DiscoveryDomain)
  | buildDeps (domain : DiscoveryDomain)
  | runPass (domain : DiscoveryDomain)
  | autoApplyRelocations
  | close (domain : DiscoveryDomain)
  | markPaused (domain : DiscoveryDomain) (reason : String)
  | markCompleted (domain : DiscoveryDomain)
  | noteUnreadCollections (domain : DiscoveryDomain) (unread : List String)
  | markFailed (domain : DiscoveryDomain) (message : String)
  deriving DecidableEq

abbrev PassOp.Reply (C : Type) : PassOp → Type
  | whyItStops _ => Option StopReason
  | runPass _ => PassResult C
  | initDomainStatus _ | markSwitchedOff _ | markInProgress _ | phasesNow _ | buildDeps _
  | autoApplyRelocations | close _ | markPaused .. | markCompleted _ | noteUnreadCollections ..
  | markFailed .. => Unit

abbrev PassOp.Ans (C : Type) (o : PassOp) : Type := Except String (o.Reply C)

/-- The data type a call is for; moves are applied for files. -/
def PassOp.domain : PassOp → DiscoveryDomain
  | initDomainStatus d | markSwitchedOff d | whyItStops d | markInProgress d | phasesNow d
  | buildDeps d | runPass d | close d | markPaused d _ | markCompleted d
  | noteUnreadCollections d _ | markFailed d _ => d
  | autoApplyRelocations => .file

/-- The results so far are shared by the lanes. -/
abbrev Results (C : Type) : Type := List (DomainSyncResult C)

abbrev PassEvent (C : Type) : Type := Event (Results C) PassOp (PassOp.Ans C)

abbrev DomainPass (C α : Type) : Type := Prog (Results C) PassOp (PassOp.Ans C) String α

variable {C : Type}

def ask (o : PassOp) : DomainPass C (o.Reply C) := Prog.awaitWith (fun e : String => e) o

def push (r : DomainSyncResult C) : DomainPass C Unit := Prog.modify (· ++ [r])

/-! ### One data type -/

/-- What the mapping, and whoever called, hands to the pass. -/
structure PassSetup (C : Type) where
  enabled : DiscoveryDomain → Bool
  runsNow : DiscoveryDomain → Bool
  /-- Somebody handed in `whyItStops`. -/
  asked : Bool
  autoApplyRelocations : Bool
  /-- Nothing scanned, nothing created. -/
  zero : C

namespace PassSetup

variable (setup : PassSetup C)

def whyItStops (d : DiscoveryDomain) : DomainPass C (Option StopReason) :=
  if setup.asked then ask (.whyItStops d) else .ret none

/-- Moves are applied by themselves after a pass of files that was not told to stop. -/
def autoApply (haltPause : Option StopReason) : DomainPass C Unit :=
  if setup.autoApplyRelocations then
    (match haltPause with
      | some reason => .ret (some reason)
      | none => setup.whyItStops .file) >>= fun toldToStop =>
    if toldToStop.isNone then ask .autoApplyRelocations else .ret ()
  else .ret ()

def passOf (d : DiscoveryDomain) : DomainPass C (PassResult C) :=
  ask (.runPass d) >>= fun result =>
  (if d = .file then setup.autoApply result.haltPause else .ret ()) >>= fun _ => .ret result

/-- Built, run, and closed however it ended. -/
def withDeps (d : DiscoveryDomain) : DomainPass C (PassResult C) :=
  ask (.buildDeps d) >>= fun _ =>
  (setup.passOf d).attempt >>= fun (ended : Except String (PassResult C)) =>
  ask (.close d) >>= fun _ => .ofExcept ended

/-- What a pass that returned is marked as: told to stop, paused, or completed. -/
def markEnded (d : DiscoveryDomain) (result : PassResult C) : DomainPass C Unit :=
  match result.haltPause, result.budgetPause with
  | some _, _ => .ret ()
  | none, some reason => ask (.markPaused d reason)
  | none, none => if result.unread = [] then ask (.markCompleted d) else .ret ()

def concluded (d : DiscoveryDomain) (result : PassResult C) : DomainSyncResult C where
  domain := d
  counts := result.counts
  haltedBecause := result.haltPause

def conclude (d : DiscoveryDomain) (result : PassResult C) : DomainPass C Unit :=
  push (concluded d result) >>= fun _ =>
  markEnded d result >>= fun _ =>
  ask (.noteUnreadCollections d result.unread)

/-- Asked first, before anything is built. -/
def tryDomain (d : DiscoveryDomain) : DomainPass C Unit :=
  setup.whyItStops d >>= fun before =>
  if before.isSome then .ret ()
  else
    ask (.markInProgress d) >>= fun _ =>
    ask (.phasesNow d) >>= fun _ =>
    setup.withDeps d >>= fun result => conclude d result

def failed (d : DiscoveryDomain) (message : String) : DomainSyncResult C where
  domain := d
  counts := setup.zero
  error := some message

def recordFailure (d : DiscoveryDomain) (message : String) : DomainPass C Unit :=
  ask (.markFailed d message) >>= fun _ => push (setup.failed d message)

def runOneDomain (d : DiscoveryDomain) : DomainPass C Unit :=
  (setup.tryDomain d).attempt >>= fun (ended : Except String Unit) =>
  match ended with
  | .ok _ => .ret ()
  | .error message => setup.recordFailure d message

/-! ### All of them -/

def runLane : List DiscoveryDomain → DomainPass C Unit
  | [] => .ret ()
  | d :: lane => setup.runOneDomain d >>= fun _ => runLane lane

def switchedOff (d : DiscoveryDomain) : DomainSyncResult C where
  domain := d
  counts := setup.zero
  disabled := true

/-- Every data type gets a status row before any work starts. -/
def startRows : List DiscoveryDomain → DomainPass C Unit
  | [] => .ret ()
  | d :: domains =>
    ask (.initDomainStatus d) >>= fun _ =>
    (if setup.enabled d then .ret ()
      else ask (.markSwitchedOff d) >>= fun _ => push (setup.switchedOff d)) >>= fun _ =>
    startRows domains

/-- One that no longer runs is moved past. -/
def running : List DiscoveryDomain :=
  discoveryDomains.filter fun d => setup.enabled d && setup.runsNow d

/-- `Promise.allSettled(lanes.map(runLane))`: a lane that throws cancels no other. -/
def lanePrograms (lanes : List (List DiscoveryDomain)) : List (DomainPass C Unit) :=
  lanes.map fun lane => (setup.runLane lane).attempt >>= fun (_ : Except String Unit) => .ret ()

end PassSetup

/-- In the fixed order, not in the order the lanes ended. -/
def inOrder (results : Results C) : Results C :=
  sortBy (fun a b => byRank discoveryDomains a.domain b.domain) results

end Ownpace.Orchestration
