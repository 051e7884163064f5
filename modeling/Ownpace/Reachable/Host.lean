/-
Ownpace/Reachable/Host.lean

A host we are asked to reach (`reachable-host.ts`): the ranges that are refused, the host as
it is typed, the operator's list, and the sockets that are opened with the rule on.

What `isIP` and `BlockList` read a text as, and the tables of lower-casing, are a parameter
(`Net`).  A lookup answers anything, at any time.
-/
import Mathlib.Data.List.Infix
import Ownpace.Await.Trace
import Ownpace.Ip.Network
import Ownpace.Keys.Text

namespace Ownpace.Reachable

open Await Ip
open Ownpace.Keys (CaseTable isWhiteSpace trim)

abbrev Text := List Char

/-! ### The refused ranges -/

def REFUSED_RANGES : List Text :=
  ["0.0.0.0/8".toList, "10.0.0.0/8".toList, "100.64.0.0/10".toList, "127.0.0.0/8".toList,
    "169.254.0.0/16".toList, "172.16.0.0/12".toList, "192.168.0.0/16".toList,
    "224.0.0.0/4".toList, "240.0.0.0/4".toList, "::/128".toList, "::1/128".toList,
    "fc00::/7".toList, "fe80::/10".toList, "ff00::/8".toList]

/-- `cidr.split('/')`, its first two parts as a network; none where `addSubnet` throws. -/
def subnetOf (read : Text → Option Address) (cidr : Text) : Option Network :=
  match cidr.splitOn '/' with
  | network :: len :: _ => (read network).map fun a => ⟨a, Nat.ofDigitChars 10 len 0⟩
  | _ => none

/-- What the module takes from `node:net`, and lower-casing. -/
structure Net where
  /-- The address a text is, in whatever spelling. -/
  read : Text → Option Address
  /-- The module loads. -/
  loads : ∀ cidr ∈ REFUSED_RANGES, (subnetOf read cidr).isSome = true
  table : CaseTable
  lower_ascii : ∀ c : Char, c.toNat < 128 → table.lower c = [c.toLower]

namespace Net

variable (net : Net)

/-- 4, 6, or none for 0. -/
def isIP (s : Text) : Option Family := (net.read s).map Address.family

/-- The networks `refused` was given. -/
def refused : List Network := REFUSED_RANGES.filterMap (subnetOf net.read)

def isRefusedAddress (address : Text) : Bool :=
  match net.read address with
  | none => true
  | some a => net.refused.any (·.has a)

/-- The groups of `/^([^/]+)\/(\d{1,3})$/`, the second as a number. -/
def cidrParts (cidr : Text) : Option (Text × Nat) :=
  match cidr.splitOn '/' with
  | [network, len] =>
    if network ≠ [] ∧ len ≠ [] ∧ len.length ≤ 3 ∧ len.all Char.isDigit then
      some (network, Nat.ofDigitChars 10 len 0)
    else none
  | _ => none

/-- The network that a text in CIDR form is. -/
def networkOf (cidr : Text) : Option Network :=
  match cidrParts (trim cidr) with
  | none => none
  | some (network, len) =>
    match net.read network with
    | none => none
    | some a => if len > a.width then none else some ⟨a, len⟩

def networkInsideRefusedRanges (cidr : Text) : Bool :=
  match net.networkOf cidr with
  | none => false
  | some n => net.refused.any fun range =>
      range.network.family == n.network.family && range.len ≤ n.len && range.has n.network

end Net

/-! ### A host as it is typed -/

def unbracket (host : Text) : Text :=
  match host with
  | '[' :: rest => if rest.getLast? = some ']' then rest.dropLast else host
  | _ => host

/-- `replace(/\.$/, '')` -/
def dropDot (s : Text) : Text := if s.getLast? = some '.' then s.dropLast else s

inductive Shape : Type
  | notAHostName
  | singleLabel
  deriving DecidableEq

/-- `/[a-z0-9.-]/i` -/
def isHostChar (c : Char) : Bool := c.isAlphanum || c = '.' || c = '-'

def refusedHostShape (net : Net) (host : Text) : Option Shape :=
  let bare := unbracket host
  if (net.isIP bare).isSome then none
  else if (bare = [] ∨ ¬ bare.all isHostChar) ∨ bare.head? = some '.' ∨ ['.', '.'] <:+: bare then
    some .notAHostName
  else
    let name := dropDot bare
    if name = [] ∨ ¬ name.contains '.' then some .singleLabel else none

/-- `toLowerCase().replace(/\.$/, '')` -/
def Net.nameOf (net : Net) (s : Text) : Text := dropDot (net.table.toLowerCase s)

/-! ### The operator's list -/

/-- `[a-z0-9](?:[a-z0-9-]{0,61}[a-z0-9])?`, in any case. -/
def isLabel (s : Text) : Bool :=
  s ≠ [] && s.length ≤ 63 && s.all (fun c => c.isAlphanum || c = '-') &&
    s.head?.any Char.isAlphanum && s.getLast?.any Char.isAlphanum

/-- `LISTED_NAME`: labels with dots between them, and perhaps one behind. -/
def isListedName (s : Text) : Bool := ((dropDot s).splitOnP (· = '.')).all isLabel

/-- `split(/[\s,]+/)`, without the empty ones. -/
def entriesOf (value : Option Text) : List Text :=
  ((value.getD []).splitOnP fun c => isWhiteSpace c || c = ',').filter (· ≠ [])

/-- The names the list admits, or the entry it is refused for. -/
def reachableHostsFrom (net : Net) (value : Option Text) : Except Text (List Text) :=
  match (entriesOf value).find? fun entry =>
      (net.isIP (unbracket entry)).isSome || !isListedName entry with
  | some entry => .error entry
  | none => .ok ((entriesOf value).map net.nameOf)

/-- The rule, switched on; what it resolves with is awaited. -/
structure ReachableHostRule where
  allow : List Text
  deriving DecidableEq

def refuseInternalAddresses (net : Net) (allow : List Text) : ReachableHostRule :=
  ⟨allow.map net.nameOf⟩

def refuseInternalAddressesFromEnv (net : Net) (value : Option Text) :
    Except Text ReachableHostRule :=
  (reachableHostsFrom net value).map (refuseInternalAddresses net)

/-! ### What is awaited -/

/-- One address a lookup answers. -/
structure Answer where
  address : Text
  family : Nat
  deriving DecidableEq

inductive NetOp : Type
  | resolve (name : Text)
  | connect (hostname : Text)

abbrev NetOp.Reply : NetOp → Type
  | resolve _ => List Answer
  | connect _ => Unit

abbrev NetOp.Ans (o : NetOp) : Type := Except String o.Reply

inductive HostError : Type
  | hostInsideOurNetwork (host : Text)
  | didNotResolve (host : Text)
  /-- What the lookup or the socket failed with. -/
  | rejected (message : String)

variable {S : Type}

abbrev NetEvent (S : Type) : Type := Event S NetOp NetOp.Ans

abbrev Reaching (S α : Type) : Type := Prog S NetOp NetOp.Ans HostError α

def ask (o : NetOp) : Reaching S o.Reply := Prog.awaitWith HostError.rejected o

/-! ### The address to connect to -/

/-- The first answer, where every one of them passes or the name is allowed. -/
def checkedAnswer (net : Net) (host : Text) (allowed : Bool) :
    List Answer → Except HostError (Text × Family)
  | [] => .error (.didNotResolve host)
  | first :: rest =>
    if !allowed && (first :: rest).any fun answer => net.isRefusedAddress answer.address then
      .error (.hostInsideOurNetwork host)
    else .ok (first.address, if first.family = 6 then .ipv6 else .ipv4)

def reachableAddress (net : Net) (host : Text) (rule : ReachableHostRule) :
    Reaching S (Text × Family) :=
  let bare := unbracket host
  match net.isIP bare with
  | some literal =>
    if net.isRefusedAddress bare then .throw (.hostInsideOurNetwork host) else .ret (bare, literal)
  | none =>
    let name := net.nameOf bare
    let allowed := rule.allow.contains name
    if !allowed && (refusedHostShape net bare).isSome then .throw (.hostInsideOurNetwork host)
    else ask (.resolve name) >>= fun answers => .ofExcept (checkedAnswer net host allowed answers)

/-- Undici's way to a socket: what its callback is given. -/
def checkedConnector (net : Net) (rule : ReachableHostRule) (hostname : Text) :
    Reaching S (Except HostError Unit) :=
  (reachableAddress net hostname rule >>= fun checked => ask (.connect checked.1)).attempt

/-- Where a client that opens its own socket connects to, and the TLS name. -/
def reachableHost (net : Net) (active : Option ReachableHostRule) (host : Text) :
    Reaching S (Text × Option Text) :=
  match active with
  | none => .ret (host, none)
  | some rule => reachableAddress net host rule >>= fun checked =>
      .ret (checked.1, if (net.isIP (unbracket host)).isSome then none else some (unbracket host))

/-- The two ways a socket is opened to a host a tenant typed. -/
inductive Door : Type
  | request (hostname : Text)
  | imap (host : Text)

def Door.host : Door → Text
  | request hostname => hostname
  | imap host => host

/-- Each call fails on its own. -/
def Door.opens (net : Net) (rule : ReachableHostRule) : Door → Reaching S Unit
  | request hostname => checkedConnector net rule hostname >>= fun _ => .ret ()
  | imap host =>
    (reachableHost net (some rule) host >>= fun reached => ask (.connect reached.1)).attempt >>=
      fun (_ : Except HostError Unit) => .ret ()

end Ownpace.Reachable
