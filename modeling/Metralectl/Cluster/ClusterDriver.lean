import Metralectl.Rank.RankService

/-!
The head of a cluster launch: what it keeps between a prepare and a commit and
between a commit and a stop, and the pieces its ceremonies are made of. A target
without an address is this machine.
-/
namespace Metralectl
namespace Cluster

structure SocketAddr where
  ip : String
  port : Nat
deriving DecidableEq

def SocketAddr.text (a : SocketAddr) : String :=
  if a.ip.toList.contains ':' then s!"[{a.ip}]:{a.port}" else s!"{a.ip}:{a.port}"

/-- One rank, resolved to somewhere reachable. -/
structure Target where
  assignment : RankAssignment
  addr : Option SocketAddr
  name : String
deriving DecidableEq

def Target.node (t : Target) : NodeId := t.assignment.node

structure RankStarted where
  node : NodeId
  name : String
  rank : Nat
  container : String
  endpoint : Option String
deriving DecidableEq

structure RankPrepare where
  node : NodeId
  name : String
  rank : Nat
  prepared : Bool
  reason : String
deriving DecidableEq

/-- A prepare that every rank accepted, waiting to be committed. -/
structure Pending where
  epoch : String
  port : Nat
  targets : List Target
deriving DecidableEq

/-- A cluster that started, kept so it can be stopped again. -/
structure Running where
  targets : List Target
  started : List RankStarted
deriving DecidableEq

def alreadyRunning (r : Running) : String :=
  let names := ", ".intercalate (r.started.map (·.name))
  s!"a cluster is already running on {names}; stop it before starting another"

/-- What a rank's answer to a prepare becomes on the head. -/
def rankPrepare (t : Target) (reply : PrepareReply) : RankPrepare :=
  match reply with
  | .prepared => ⟨t.node, t.name, t.assignment.rank, true, ""⟩
  | .refused reason => ⟨t.node, t.name, t.assignment.rank, false, reason⟩

/-- The critical section of a commit: it consumes the prepare of its epoch. -/
def takePending (slot : Option Pending) (epoch : String) : Except String Pending :=
  match slot with
  | some p =>
      if p.epoch = epoch then .ok p
      else .error s!"this agent is holding a prepare for {p.epoch}, not {epoch}"
  | none => .error s!"no prepare is outstanding for {epoch}"

/-- Only rank 0 serves the API. -/
def rankStarted (port : Nat) (t : Target) (container : String) : RankStarted :=
  ⟨t.node, t.name, t.assignment.rank, container,
    if t.assignment.rank = 0 then some s!"http://{t.assignment.masterAddr}:{port}" else none⟩

/-- The started ranks a stop is sent to, each with the target that reaches it.
One with no target on its node is passed over. -/
def reachable (started : List RankStarted) (targets : List Target) :
    List (RankStarted × Target) :=
  started.filterMap fun r => (targets.find? (fun t => t.node = r.node)).map (r, ·)

def startedTargets (targets : List Target) (started : List RankStarted) :
    List (RankStarted × Target) :=
  targets.filterMap fun t => (started.find? (fun r => r.node = t.node)).map (·, t)

def couldNotStart (t : Target) (reason : String) : String :=
  s!"{t.name} could not start: {reason}"

def stoppedEarly (dead : List String) (settleSecs : Nat) : String :=
  let names := " and ".intercalate dead
  let secs := max settleSecs 1
  s!"{names} stopped within {secs}s of starting. " ++
    "The whole cluster has been shut down; check that machine's container logs."

def notStarted : String := "this agent did not start a cluster"

def couldNotStop (failures : List String) : String :=
  let each := "; ".intercalate failures
  s!"could not stop {each}"

def tornDown (dead : List String) : String :=
  let names := " and ".intercalate dead
  s!"{names} stopped, so the cluster was torn down. A half cluster waits at a " ++
    "rendezvous that will never complete while its survivors hold their GPUs."

/-- The record after a stop: nothing, or exactly the ranks whose stop failed. -/
def afterStop (r : Running) (failures : List String) (stillRunning : List RankStarted) :
    Option Running :=
  if failures.isEmpty then none else some { r with started := stillRunning }

section Fixed

def onHead (recipe : String) : Target :=
  ⟨⟨1, 0, 2, "10.0.0.1", 29500, recipe, "f00d", []⟩, none, "head"⟩

def onPeer (recipe : String) : Target :=
  ⟨⟨2, 1, 2, "10.0.0.1", 29500, recipe, "f00d", []⟩, some ⟨"10.0.0.2", 7443⟩, "peer"⟩

def twoRanks (epoch recipe : String) : Pending := ⟨epoch, 8888, [onHead recipe, onPeer recipe]⟩

end Fixed

end Cluster
end Metralectl
