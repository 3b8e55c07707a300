import Metralectl.Protocol.Messages

/-!
The vocabulary for a fleet: nodes, the links between them, and what each node
says about itself. Display names are text that was sanitised where it came in.
-/
namespace Metralectl
namespace Fleet

inductive LinkClass where
  | roce
  | infiniBand
  | ethernet
  | wireless
  | virtual
  | loopback
  | unverified
deriving DecidableEq, Repr

namespace LinkClass

def rank : LinkClass → Nat
  | infiniBand => 5
  | roce => 4
  | ethernet => 3
  | wireless => 2
  | unverified => 1
  | virtual | loopback => 0

def usableForCluster : LinkClass → Bool
  | infiniBand | roce | ethernet | unverified => true
  | wireless | virtual | loopback => false

def usableForControl : LinkClass → Bool
  | infiniBand | roce | ethernet | wireless | unverified => true
  | virtual | loopback => false

def warns : LinkClass → Bool
  | infiniBand | roce | unverified => false
  | ethernet | wireless | virtual | loopback => true

def label : LinkClass → String
  | roce => "RoCE"
  | infiniBand => "InfiniBand"
  | ethernet => "Ethernet"
  | wireless => "Wi-Fi"
  | virtual => "virtual"
  | loopback => "loopback"
  | unverified => "link unverified"

def rdma : LinkClass → Bool
  | roce | infiniBand => true
  | ethernet | wireless | virtual | loopback | unverified => false

end LinkClass

/-- One address a node can be reached on. A prefix length of zero is an unknown
subnet. -/
structure NodeAddress where
  iface : String
  addr : String
  prefixLen : Nat
  link : LinkClass
  speedMbps : Option Nat
  rdma : Bool
deriving DecidableEq, Repr

def NodeAddress.weight (a : NodeAddress) : Nat × Nat := (a.link.rank, a.speedMbps.getD 0)

/-- Whether the weight of `a` is at most that of `b`. -/
def NodeAddress.noBetter (a b : NodeAddress) : Bool :=
  a.weight.1 < b.weight.1 || (a.weight.1 = b.weight.1 && a.weight.2 ≤ b.weight.2)

/-- The best address there is; the last of those that are equally good. -/
def bestAddress : List NodeAddress → Option NodeAddress
  | [] => none
  | a :: rest => some (rest.foldl (fun best b => if best.noBetter b then b else best) a)

structure Launchability where
  canLaunch : Bool
  reason : String
deriving DecidableEq, Repr

namespace Launchability

def yes : Launchability := ⟨true, ""⟩

def no (reason : String) : Launchability := ⟨false, reason⟩

end Launchability

inductive PairingState where
  | discovered
  | pairing
  | paired
  | unreachable
  | vouched
deriving DecidableEq, Repr

/-- A reading; none where the hardware cannot answer. -/
abbrev Metric := Option F64

structure NodeVitals where
  acceleratorUtil : Metric
  smClockMhz : Metric
  smClockHealthyMhz : Option Nat
  temperatureC : Metric
  powerW : Metric
  memoryUsedFrac : Metric
  memoryTotalBytes : Metric
  diskFreeBytes : Metric
  dockerOk : Option Bool
  agentUptimeS : Option Nat
deriving DecidableEq

inductive AlertKind where
  | smClockClamped
  | thermalThrottle
  | memoryPressure
  | diskLow
  | dockerUnreachable
  | peerLost
  | restartLoop
deriving DecidableEq

inductive Severity where
  | info
  | warning
  | critical
deriving DecidableEq

structure NodeAlert where
  kind : AlertKind
  severity : Severity
  detail : String
deriving DecidableEq

/-- Everything there is to show of one node. `vouchedBy` says how its identity is
known, `reachedVia` how a control verb aimed at it would be routed. -/
structure NodeDescriptor where
  id : NodeId
  name : String
  isLocal : Bool
  pairing : PairingState
  addresses : List NodeAddress
  launchability : Launchability
  agentVersion : String
  accelerator : String
  os : String
  vitals : Option NodeVitals
  alerts : List NodeAlert
  running : Option String
  vouchedBy : Option NodeId
  reachedVia : Option NodeId
deriving DecidableEq

/-- The address a collective should use, which is the best usable link. -/
def NodeDescriptor.preferredAddress (n : NodeDescriptor) : Option NodeAddress :=
  bestAddress (n.addresses.filter (·.link.usableForCluster))

/-- Every node an agent knows about, the local one first. -/
structure Listing where
  here : NodeDescriptor
  others : List NodeDescriptor
  here_local : here.isLocal = true
  others_remote : ∀ n ∈ others, n.isLocal = false

namespace Listing

def nodes (l : Listing) : List NodeDescriptor := l.here :: l.others

def find (l : Listing) (id : NodeId) : Option NodeDescriptor := l.nodes.find? (·.id = id)

/-- The row found under an id is the local one exactly for the local id. -/
theorem find_local {l : Listing} {id : NodeId} {n : NodeDescriptor} (h : l.find id = some n) :
    n.id = id ∧ (n.isLocal = true ↔ id = l.here.id) := by
  rw [find, nodes, List.find?_cons] at h
  by_cases here : l.here.id = id
  · rw [decide_eq_true here, Option.some.injEq] at h
    subst h
    exact ⟨here, by simp [here, l.here_local]⟩
  · rw [decide_eq_false here] at h
    have other := l.others_remote n (List.mem_of_find?_eq_some h)
    exact ⟨by simpa using List.find?_some h, by simp [other, Ne.symm here]⟩

end Listing

end Fleet
end Metralectl
