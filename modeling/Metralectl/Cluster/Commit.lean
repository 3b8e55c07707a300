import Mathlib.Logic.Function.Basic
import Metralectl.Cluster.ClusterDriver

/-!
One commit, followed on the head and on the machines of its ranks. Each machine
holds a reservation and runs containers, each of which remembers the epoch that
started it; what the runtime comes to and whether an answer makes it back to the
head is settled beforehand, by machine. Every stop and every abort the head
sends is delivered.
-/
namespace Metralectl
namespace Launch
open Cluster

structure Container where
  name : String
  epoch : String
deriving DecidableEq

structure Machine where
  reserved : Option Reservation
  containers : List Container
deriving DecidableEq

/-- What becomes of a commit frame sent to a peer: it is not delivered, it is
executed and answered, or it is executed and the answer is lost. -/
inductive Delivery where
  | undelivered (why : String)
  | answered
  | replyLost (why : String)
deriving DecidableEq

structure Fate where
  delivery : Delivery
  /-- Whether a previous container of the name could be removed. -/
  cleared : Bool
  outcome : RunOutcome
  /-- Whether the container outlives the settling window, and the question
  whether it did is answered. -/
  survives : Bool
  asked : Bool
deriving DecidableEq

namespace Machine

def remove (m : Machine) (name : String) : Machine :=
  { m with containers := m.containers.filter (·.name ≠ name) }

/-- A committed reservation is spent, and a previous container of its name
removed, if the runtime can. -/
def spend (m : Machine) (name : String) (cleared : Bool) : Machine :=
  let spent := { m with reserved := none }
  if cleared then spent.remove name else spent

def ran (m : Machine) (name epoch : String) : RunOutcome → Machine
  | .ran => { m with containers := ⟨name, epoch⟩ :: m.containers }
  | .unstartable _ | .failed _ _ => m

def commit (m : Machine) (epoch : String) (fate : Fate) : Machine × Except String String :=
  match takeReserved m.reserved epoch with
  | .error e => (m, .error e)
  | .ok r =>
      ((m.spend r.plan.name fate.cleared).ran r.plan.name epoch fate.outcome,
        commitReply r.plan fate.outcome)

/-- `LocalRankService::stop`: only a container this fleet could have created. -/
def stop (m : Machine) (container : String) : Machine :=
  if isOurContainer container then m.remove container else m

def abort (m : Machine) (epoch : String) : Machine :=
  { m with reserved := releaseReserved m.reserved epoch }

/-- `LocalRankService::alive`, when the runtime answers. -/
def alive (m : Machine) (container : String) : Bool :=
  isOurContainer container && m.containers.any (·.name = container)

/-- What the settling window does to the container an epoch has started. -/
def settle (m : Machine) (epoch : String) (fate : Fate) : Machine :=
  if fate.survives then m else { m with containers := m.containers.filter (·.epoch ≠ epoch) }

end Machine

abbrev World := NodeId → Machine

def World.on (w : World) (n : NodeId) (m : Machine) : World := Function.update w n m

/-- Asking one rank to start. A local call always comes back. -/
def startRank (w : World) (epoch : String) (t : Target) (fate : Fate) :
    World × Except String String :=
  let (m, reply) := (w t.node).commit epoch fate
  match t.addr with
  | none => (w.on t.node m, reply)
  | some _ =>
      match fate.delivery with
      | .undelivered why => (w, .error why)
      | .answered => (w.on t.node m, reply)
      | .replyLost why => (w.on t.node m, .error why)

/-- Where the loop over the ranks stopped: what has started, on which targets,
and the target that failed with those after it. -/
structure Failure where
  started : List RankStarted
  done : List Target
  rest : List Target
  why : String

def startRanks (epoch : String) (port : Nat) (fates : NodeId → Fate) (w : World)
    (done : List Target) (started : List RankStarted) :
    List Target → World × Except Failure (List RankStarted)
  | [] => (w, .ok started)
  | t :: rest =>
      match startRank w epoch t (fates t.node) with
      | (w', .ok container) =>
          startRanks epoch port fates w' (done ++ [t]) (started ++ [rankStarted port t container])
            rest
      | (w', .error reason) => (w', .error ⟨started, done, t :: rest, couldNotStart t reason⟩)

def stopEach (w : World) (ranks : List (RankStarted × Target)) : World :=
  ranks.foldl (fun w rt => w.on rt.2.node ((w rt.2.node).stop rt.1.container)) w

def stopStarted (w : World) (started : List RankStarted) (targets : List Target) : World :=
  stopEach w (reachable started targets)

def rollBack (w : World) (epoch : String) (targets : List Target) : World :=
  targets.foldl (fun w t => w.on t.node ((w t.node).abort epoch)) w

def settle (w : World) (epoch : String) (fates : NodeId → Fate) : World :=
  fun n => (w n).settle epoch (fates n)

/-- The ranks that are not found alive after it. -/
def deadRanks (w : World) (fates : NodeId → Fate) (ranks : List (RankStarted × Target)) :
    List String :=
  (ranks.filter fun rt =>
    !((fates rt.2.node).asked && (w rt.2.node).alive rt.1.container)).map (·.2.name)

/-- `commit_inner`, from a prepare it has taken. -/
def commitTaken (settleSecs : Nat) (pending : Pending) (fates : NodeId → Fate) (w : World) :
    World × Except String (List RankStarted) :=
  match startRanks pending.epoch pending.port fates w [] [] pending.targets with
  | (w, .error failure) =>
      (rollBack (stopStarted w failure.started failure.done) pending.epoch failure.rest,
        .error failure.why)
  | (w, .ok started) =>
      let w := settle w pending.epoch fates
      let dead := deadRanks w fates (startedTargets pending.targets started)
      if dead.isEmpty then (w, .ok started)
      else (stopStarted w started pending.targets, .error (stoppedEarly dead settleSecs))

def commit (settleSecs : Nat) (slot : Option Pending) (epoch : String) (fates : NodeId → Fate)
    (w : World) : World × Except String (List RankStarted) :=
  match takePending slot epoch with
  | .error e => (w, .error e)
  | .ok pending => commitTaken settleSecs pending fates w

end Launch
end Metralectl
