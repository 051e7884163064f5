/-
Ownpace/Archive/RangeSource.lean

Files of the target read in place by `Range` requests (`openRangeSource` of
`webdav-archive-store.ts`): each source keeps the last window it fetched and knows the fetch on
its way, and the sources of a store share one budget.

The promise of a window is a number: what became of it is in `fetches`.  A window's end is
written exclusively, where the header spells it inclusively.
-/
import Ownpace.Archive.RangeBudget
import Ownpace.Await.Among
import Ownpace.Await.Exec

namespace Ownpace.Archive

open Await

/-! ### Bytes -/

/-- Where an index of `Uint8Array.slice` falls: from the end if it is negative, and clamped. -/
def clampIndex (length : Nat) (index : Int) : Nat :=
  if index < 0 then (length + index).toNat else min index.toNat length

/-- `Uint8Array.slice` -/
def slice (bytes : List UInt8) (start stop : Int) : List UInt8 :=
  (bytes.take (clampIndex bytes.length stop)).drop (clampIndex bytes.length start)

/-- A stretch of the file, fetched whole and sliced by the reads it covers. -/
structure RangeWindow where
  offset : Nat
  bytes : List UInt8
  deriving DecidableEq

/-- Whether a window (held or promised) can answer a read of `length` at `offset`. -/
def covers (start stop offset length : Nat) : Bool :=
  decide (start ≤ offset) && decide (offset + length ≤ stop)

/-! ### The sources and what they share -/

inductive ReadError : Type
  /-- The whole file for an answer to a range request. -/
  | wholeFile
  | answered (status : Nat)
  | notTheSize (got asked : Nat)
  | beyond (length offset size : Nat)
  | rejected (e : String)
  deriving DecidableEq

/-- What a source is opened with. -/
structure Opened where
  size : Nat
  windowBytes : Nat
  inBudget : Bool
  deriving DecidableEq

/-- A fetch begun: the extent asked for, and what became of it. -/
structure Fetch where
  source : Nat
  offset : Nat
  stop : Nat
  outcome : Option (Except ReadError RangeWindow) := none

/-- A read that was answered. -/
structure Answer where
  source : Nat
  offset : Nat
  length : Nat
  bytes : List UInt8
  deriving DecidableEq

structure World where
  held : Nat → Option RangeWindow
  onItsWay : Nat → Option Nat
  fetches : List Fetch := []
  budget : RangeBudget Nat
  /-- What was answered, the latest last. -/
  answers : List Answer := []

/-- A store that no source was opened of. -/
def World.opened (limitBytes : Nat) : World where
  held _ := none
  onItsWay _ := none
  budget := { limitBytes }

inductive RangeOp : Type
  /-- `GET` with `Range: bytes=offset-(stop - 1)` -/
  | request (source offset stop : Nat)
  /-- a promise of a window -/
  | settled (fetch : Nat)
  deriving DecidableEq

structure Response where
  status : Nat
  bytes : List UInt8
  deriving DecidableEq

abbrev RangeOp.Ans : RangeOp → Type
  | request .. => Except String Response
  | settled _ => Except ReadError RangeWindow

abbrev Reading (α : Type) : Type := Prog World RangeOp RangeOp.Ans ReadError α

section

variable (sources : Nat → Opened)

/-- Keep the window a fetch brought, and count it: what the budget drops is held no longer. -/
def World.keep (source : Nat) (window : RangeWindow) (s : World) : World :=
  let held := Function.update s.held source (some window)
  if (sources source).inBudget then
    { s with
      held := fun i => if i ∈ s.budget.dropped source window.bytes.length then none else held i
      budget := s.budget.hold source window.bytes.length }
  else { s with held }

/-- One request for the extent. -/
def fetch (source offset stop : Nat) : Reading RangeWindow :=
  .call (.request source offset stop) fun
    | .error e => .throw (.rejected e)
    | .ok response =>
      if response.status = 200 then .throw .wholeFile
      else if response.status ≠ 206 then .throw (.answered response.status)
      else if response.bytes.length ≠ stop - offset then
        .throw (.notTheSize response.bytes.length (stop - offset))
      else .sync (World.keep sources source ⟨offset, response.bytes⟩)
        fun _ => .ret ⟨offset, response.bytes⟩

/-- A promise settles once. -/
def World.settle (promise : Nat) (outcome : Except ReadError RangeWindow) (s : World) : World :=
  { s with
    fetches := s.fetches.modify promise fun f => { f with outcome := f.outcome.or (some outcome) } }

def World.arrived (source promise : Nat) (s : World) : World :=
  if s.onItsWay source = some promise then
    { s with onItsWay := Function.update s.onItsWay source none }
  else s

def awaitWindow (promise : Nat) : Reading RangeWindow := .call (.settled promise) .ofExcept

/-- A fetch that was begun, up to its end. -/
def fetchWindow (source offset stop promise : Nat) : Reading RangeWindow :=
  (fetch sources source offset stop).attempt >>= fun outcome =>
  Prog.modify (World.settle promise outcome) >>= fun _ =>
  (awaitWindow promise).attempt >>= fun arrived =>
  Prog.modify (World.arrived source promise) >>= fun _ => .ofExcept arrived

/-- Where a read's window comes from. -/
inductive Way : Type
  | cached (window : RangeWindow)
  | coming (promise : Nat)
  | fetching (stop : Nat)

/-- The fetch on its way to a source. -/
def World.comingTo (source : Nat) (s : World) : Option (Nat × Fetch) :=
  (s.onItsWay source).bind fun promise => s.fetches[promise]?.map fun f => (promise, f)

def World.wayOut (source offset length : Nat) (s : World) : Way :=
  let fresh := .fetching
    (min (sources source).size (offset + max length (sources source).windowBytes))
  match s.comingTo source with
  | some (promise, f) => if covers f.offset f.stop offset length then .coming promise else fresh
  | none => fresh

def World.way (source offset length : Nat) (s : World) : Way :=
  match s.held source with
  | some window =>
    if covers window.offset (window.offset + window.bytes.length) offset length then .cached window
    else s.wayOut sources source offset length
  | none => s.wayOut sources source offset length

/-- A fetch is put on its way. -/
def World.begun (source offset stop : Nat) (s : World) : World :=
  { s with
    fetches := s.fetches ++ [{ source, offset, stop }]
    onItsWay := Function.update s.onItsWay source (some s.fetches.length) }

/-- The read that is served from memory is its source's latest use. -/
def World.taken (source offset length : Nat) (s : World) : World :=
  match s.way sources source offset length with
  | .cached _ =>
    if (sources source).inBudget then { s with budget := s.budget.touch source } else s
  | .coming _ => s
  | .fetching stop => s.begun source offset stop

def windowFor (source offset length : Nat) : Reading RangeWindow :=
  .sync (World.taken sources source offset length) fun s =>
    match s.way sources source offset length with
    | .cached window => .ret window
    | .coming promise => awaitWindow promise
    | .fetching stop => fetchWindow sources source offset stop s.fetches.length

def read (source offset length : Nat) : Reading (List UInt8) :=
  if offset + length > (sources source).size then
    .throw (.beyond length offset (sources source).size)
  else
    windowFor sources source offset length >>= fun window =>
    let start : Int := offset - window.offset
    .ret (slice window.bytes start (start + length))

def World.close (source : Nat) (s : World) : World :=
  { s with
    held := Function.update s.held source none
    onItsWay := Function.update s.onItsWay source none
    budget := if (sources source).inBudget then s.budget.release source else s.budget }

/-! ### The readers -/

inductive Use : Type
  | read (source offset length : Nat)
  | close (source : Nat)
  deriving DecidableEq

def World.note (answer : Answer) (s : World) : World := { s with answers := s.answers ++ [answer] }

def Use.run : Use → Reading Unit
  | read source offset length =>
    (Archive.read sources source offset length).attempt >>= fun
      | .ok bytes => Prog.modify (World.note { source, offset, length, bytes })
      | .error _ => .ret ()
  | close source => Prog.modify (World.close sources source)

/-- One reader of the store, with all it does one after the other. -/
def reader (uses : List Use) : Reading Unit :=
  uses.foldr (fun use rest => use.run sources >>= fun _ => rest) (.ret ())

end

end Ownpace.Archive
