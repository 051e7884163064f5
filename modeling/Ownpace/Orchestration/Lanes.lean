/-
Ownpace/Orchestration/Lanes.lean

The lanes in which a pass copies its data types: `planDomainLanes` of
`orchestration.ts`.

The hosts of each data type decide which lanes it may not stand beside; where its
hosts are claimed by several, they become one.  `RightLanes` says what the lanes
are for.
-/
import Ownpace.Ledger.Row
import Ownpace.Store.Chains
import Ownpace.Store.Filed

namespace Ownpace.Orchestration

open Store

/-! ### The hosts -/

/-- What `endpointHost` reads of an endpoint. -/
structure Endpoint where
  url : Option String
  baseUrl : Option String
  host : Option String

structure DomainConfig where
  source : Option Endpoint
  target : Option Endpoint

structure MappingConfig where
  source : Option Endpoint
  target : Option Endpoint
  /-- By the data type, as `DOMAIN_CONFIG_KEY` names its key. -/
  domains : DiscoveryDomain → Option DomainConfig

variable (urlHost : String → Option String)

/-- `urlHost` is `new URL(raw).host`, none where it throws. -/
def endpointHost (endpoint : Option Endpoint) : Option String :=
  match (endpoint.bind fun e => e.url.or e.baseUrl).filter (· ≠ "") with
  | some raw => urlHost raw
  | none => endpoint.bind Endpoint.host

def hostsOf (config : MappingConfig) (domain : DiscoveryDomain) : List String :=
  let domainConfig := config.domains domain
  [endpointHost urlHost ((domainConfig.bind DomainConfig.source).or config.source),
    endpointHost urlHost ((domainConfig.bind DomainConfig.target).or config.target)].filterMap id

/-! ### The lanes -/

structure Lanes where
  lanes : List (List DiscoveryDomain)
  /-- The lane that claimed a host. -/
  laneOfHost : String → Option Nat

/-- Lane `other` goes into lane `lane`, and those behind it move up. -/
def Lanes.mergeInto (lane : Nat) (s : Lanes) (other : Nat) : Lanes where
  lanes := (s.lanes.modify lane (· ++ s.lanes.getD other [])).eraseIdx other
  laneOfHost host := (s.laneOfHost host).map fun idx =>
    if idx = other then lane else if idx > other then idx - 1 else idx

/-- `lanes[lane].push(domain)`, and its hosts are this lane's. -/
def Lanes.push (hosts : List String) (lane : Nat) (s : Lanes) (domain : DiscoveryDomain) : Lanes where
  lanes := s.lanes.modify lane (· ++ [domain])
  laneOfHost host := if hosts.contains host then some lane else s.laneOfHost host

/-- `lanes.push([])` -/
def Lanes.opened (s : Lanes) : Lanes := { s with lanes := s.lanes ++ [[]] }

def Lanes.place (hosts : DiscoveryDomain → List String) (s : Lanes) (domain : DiscoveryDomain) :
    Lanes :=
  let s := if (hosts domain).isEmpty && s.lanes.isEmpty then s.opened else s
  let claimed := if (hosts domain).isEmpty then [0] else (hosts domain).filterMap s.laneOfHost
  match sortBy (fun a b : Nat => (a : Int) - b) claimed.eraseDups with
  | [] => s.opened.push (hosts domain) s.lanes.length domain
  | lane :: others => (others.reverse.foldl (Lanes.mergeInto lane) s).push (hosts domain) lane domain

def Lanes.empty : Lanes := ⟨[], fun _ => none⟩

/-- `rank.get(a) - rank.get(b)`; the data types are distinct. -/
def byRank (domains : List DiscoveryDomain) (a b : DiscoveryDomain) : Int :=
  domains.idxOf a - domains.idxOf b

def planLanes (hosts : DiscoveryDomain → List String) (domains : List DiscoveryDomain) :
    List (List DiscoveryDomain) :=
  ((domains.foldl (Lanes.place hosts) Lanes.empty).lanes.map (sortBy (byRank domains))).filter
    fun lane => lane.length > 0

def planDomainLanes (config : MappingConfig) (domains : List DiscoveryDomain) :
    List (List DiscoveryDomain) :=
  planLanes (hostsOf urlHost config) domains

/-! ### What they are for -/

variable (hosts : DiscoveryDomain → List String) (domains : List DiscoveryDomain)

def Share (a b : DiscoveryDomain) : Prop := ∃ host ∈ hosts a, host ∈ hosts b

/-- Lanes that may run at the same time, and as many as there can be. -/
structure RightLanes (lanes : List (List DiscoveryDomain)) : Prop where
  once : lanes.flatten.Perm domains
  filled : ∀ lane ∈ lanes, lane ≠ []
  apart : lanes.Pairwise fun lane lane' => ∀ a ∈ lane, ∀ b ∈ lane', ¬ Share hosts a b
  /-- Beside a data type without a host nothing runs. -/
  unknown : ∀ lane ∈ lanes, ∀ a ∈ lane, hosts a = [] → ∀ b ∈ domains, b ∈ lane
  order : ∀ lane ∈ lanes, lane.Sublist domains
  /-- Only a chain of shared or unknown hosts puts two into one. -/
  asMany : ∀ lane ∈ lanes, ∀ a ∈ lane, ∀ b ∈ lane,
    Chain domains (fun a b => Share hosts a b ∨ hosts a = [] ∨ hosts b = []) a b

end Ownpace.Orchestration
