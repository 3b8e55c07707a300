import Metralectl.Cluster.ClusterDriver
import Metralectl.Core.Net
import Metralectl.Fleet.LocalFleet

/-!
How a control verb reaches another machine, and what the fleet lists: two readers
of the same tables. A pin store that cannot be read is an error to the one and an
empty store to the other.
-/
namespace Metralectl
namespace Fleet
open Cluster Tables Trust

inductive ControlRoute where
  /-- The target is pinned: dial it ourselves. -/
  | direct (addr : SocketAddr)
  /-- The target is only vouched for: ask its voucher, dialled at `addr`. -/
  | via (relay : NodeId) (addr : SocketAddr)
deriving DecidableEq

def toSocket (addr : String) (port : Nat) : Option SocketAddr :=
  (Net.parseIp addr).map fun _ => ⟨addr, port⟩

namespace LocalFleet

/-- The best address this agent itself knows for a peer: what it reported, or else
what the pin remembers. -/
def controlAddress (f : LocalFleet) (pins : Except String Pins) (node : NodeId) : Option String :=
  let reported := (f.reports.get? node).bind fun (report, _) =>
    (bestAddress report.addresses).map (·.addr)
  reported <|> (pins.toOption.bind (get? · node)).bind (·.lastAddress)

def peerVersionMax (f : LocalFleet) (node : NodeId) : Option Nat :=
  (f.reports.get? node).map (·.1.peerVersionMax)

def incapable (target hop : NodeId) (version : Nat) : AgentError :=
  .notRoutable target
    s!"{hop.short} speaks peer protocol {version}, which has no control frames; upgrade it"

def requireControlCapable (f : LocalFleet) (target hop : NodeId) : Except AgentError Unit :=
  match f.peerVersionMax hop with
  | some v => if v < 2 then .error (incapable target hop v) else .ok ()
  | none => .ok ()

def noRoute (f : LocalFleet) (target : NodeId) : AgentError :=
  .notRoutable target <|
    match f.vouchOf target with
    | some (voucher, _) =>
        s!"not paired with this machine, and {voucher.short}, which vouches for it, " ++
          "is not answering"
    | none =>
        "not paired with this machine, and no reachable peer vouches for it; " ++
          "pair with it directly"

def planControlRoute (f : LocalFleet) (pins : Except String Pins) (target : NodeId) (port : Nat) :
    Except AgentError ControlRoute :=
  match pins with
  | .error e => .error (.notRoutable target s!"this agent's pin store could not be read: {e}")
  | .ok pinned =>
      if (get? pinned target).isSome then
        match f.requireControlCapable target target with
        | .error e => .error e
        | .ok () =>
            match (f.controlAddress pins target).bind (toSocket · port) with
            | some addr => .ok (.direct addr)
            | none => .error (.notRoutable target
                ("it is paired with this machine but has no known address yet; " ++
                  "wait for it to be seen, or re-add it with `metralectl peer add`"))
      else
        match f.chooseVoucher target with
        | none => .error (f.noRoute target)
        | some relay =>
            match f.requireControlCapable target relay with
            | .error e => .error e
            | .ok () =>
                match (f.controlAddress pins relay).bind (toSocket · port) with
                | some addr => .ok (.via relay addr)
                | none => .error (.notRoutable target
                    s!"{relay.short}, which vouches for it, has no known address")

def asLaunchability (canLaunch : Bool) : Launchability :=
  if canLaunch then .yes else .no "this node reports it cannot run models"

/-- Addresses a beacon advertised. Their link is not established. -/
def addressesOf (beacon : Beacon) : List NodeAddress :=
  beacon.addresses.map fun a => ⟨"", a, 0, .unverified, none, false⟩

def localNode (f : LocalFleet) : NodeDescriptor where
  id := f.id
  name := f.name
  isLocal := true
  pairing := .paired
  addresses := f.localAddresses
  launchability := f.launchability
  agentVersion := f.agentVersion
  accelerator := f.accelerator
  os := f.os
  vitals := some f.vitals
  alerts := (f.alerts.get? f.id).getD []
  running := f.running
  vouchedBy := none
  reachedVia := none

/-- Where a paired machine is: by its own word, else where it was reached, else
where it was last seen or known to be. -/
def pinnedAddresses (pin : Pin) (report : Option PeerReport) (sighting : Option Seen) :
    List NodeAddress :=
  match report with
  | some r =>
      if !r.addresses.isEmpty then r.addresses
      else [⟨"", pin.lastAddress.getD "", 0, r.link, none, r.link.rdma⟩]
  | none =>
      match sighting with
      | some s => addressesOf s.beacon
      | none => (pin.lastAddress.map fun a => ⟨"", a, 0, .unverified, none, false⟩).toList

/-- A paired machine, also while it is switched off. A vouch for it is a label. -/
def pinnedRow (f : LocalFleet) (now : Nat) (pin : Pin) : NodeDescriptor :=
  let sighting := f.seen.get? pin.id
  let report := (f.reports.get? pin.id).map (·.1)
  let fresh := report.isSome || sighting.any fun s => now - s.at_ < unreachableAfter
  { id := pin.id
    name := (sighting.map (·.beacon.name)).getD pin.name
    isLocal := false
    pairing := if fresh then .paired else .unreachable
    addresses := pinnedAddresses pin report sighting
    launchability :=
      match report, sighting with
      | some r, _ => asLaunchability r.canLaunch
      | none, some s => asLaunchability s.beacon.canLaunch
      | none, none => .no "not reachable right now"
    agentVersion := ""
    accelerator :=
      ((report.map (·.accelerator)) <|> sighting.map (·.beacon.accelerator)).getD ""
    os := (report.map (·.os)).getD ""
    vitals := report.bind (·.vitals)
    alerts := (f.alerts.get? pin.id).getD []
    running := none
    vouchedBy := (f.vouchOf pin.id).map (·.1)
    reachedVia := none }

/-- A machine that was seen and is trusted by nobody. -/
def seenRow (f : LocalFleet) (id : NodeId) (s : Seen) : NodeDescriptor where
  id := id
  name := s.beacon.name
  isLocal := false
  pairing := .discovered
  addresses := addressesOf s.beacon
  launchability := asLaunchability s.beacon.canLaunch
  agentVersion := ""
  accelerator := s.beacon.accelerator
  os := ""
  vitals := none
  alerts := []
  running := none
  vouchedBy := (f.vouchOf id).map (·.1)
  reachedVia := none

/-- A machine known only through a voucher's claim, which is all there is to show. -/
def vouchedRow (f : LocalFleet) (target voucher : NodeId) (claim : VouchedPeer) :
    NodeDescriptor where
  id := target
  name := claim.name
  isLocal := false
  pairing := .vouched
  addresses := claim.addresses
  launchability := asLaunchability claim.canLaunch
  agentVersion := ""
  accelerator := claim.accelerator
  os := claim.os
  vitals := claim.vitals.filter fun _ => claim.vitalsAgeS.any (· ≤ unreachableAfter / second)
  alerts := []
  running := none
  vouchedBy := some voucher
  reachedVia := f.chooseVoucher target

def onlyVouched (f : LocalFleet) (pinned : Pins) (target : NodeId) : Bool :=
  (get? pinned target).isNone && (f.seen.get? target).isNone && target ≠ f.id

/-- Paired machines, then seen ones, then those that are only vouched for. -/
def rows (f : LocalFleet) (pinned : Pins) (now : Nat) : List NodeDescriptor :=
  let paired := pinned.insertionSort fun a b => a.id ≤ b.id
  let seen := f.seen.entries.insertionSort fun a b => a.1 ≤ b.1
  paired.map (f.pinnedRow now) ++
    (seen.filter fun e => (get? pinned e.1).isNone).map (fun e => f.seenRow e.1 e.2) ++
    (f.vouchedTargets.filter (f.onlyVouched pinned)).filterMap fun target =>
      (f.vouchOf target).map fun vouch => f.vouchedRow target vouch.1 vouch.2

def nodes (f : LocalFleet) (pins : Except String Pins) (now : Nat) : Listing where
  here := f.localNode
  others := f.rows (pins.toOption.getD []) now
  here_local := rfl
  others_remote := by
    intro n hn
    simp only [rows, List.mem_append, List.mem_map, List.mem_filterMap,
      Option.map_eq_some_iff] at hn
    cases hn with
    | inl hn =>
        cases hn with
        | inl paired =>
            obtain ⟨_, _, rfl⟩ := paired
            rfl
        | inr seen =>
            obtain ⟨_, _, rfl⟩ := seen
            rfl
    | inr vouched =>
        obtain ⟨_, _, _, _, rfl⟩ := vouched
        rfl

end LocalFleet
end Fleet
end Metralectl
