import Metralectl.Library.Interleaving
import Metralectl.Cluster.ClusterDriver

/-!
The ceremonies of one driver, cut at their awaits. What a rank is asked to do
leaves the head as a request and is done by the machine at any later moment, or
never; what the head hears back is any answer at all. Beside the two slots the
state keeps what is being talked about and the code does not record: which
cluster a container belongs to, which clusters were committed and not yet
stopped, and what a teardown went on to hit.
-/
namespace Metralectl
namespace Cluster
open Runs Interleaving

/-- A stop that a teardown of the record sends carries the clusters that had been
committed when that call read its roster; one that undoes a failed commit does not. -/
inductive Request where
  | start (cluster : Nat) (node : NodeId)
  | stop (seen : Option (List Nat)) (node : NodeId) (container : String)
deriving DecidableEq

structure Container where
  node : NodeId
  name : String
  cluster : Nat
deriving DecidableEq

/-- The record in the running slot, with the cluster it is of. -/
structure Record where
  cluster : Nat
  running : Running
deriving DecidableEq

structure Shared where
  pending : Option Pending
  running : Option Record
  /-- How many commits have taken a prepare; the next one's cluster. -/
  clusters : Nat
  committed : List Nat
  unstopped : List Nat
  sent : List Request
  fleet : List Container
  /-- Containers a teardown removed: what it had seen committed, and whose it was. -/
  hits : List (List Nat × Nat)
  /-- Records a teardown replaced, likewise. -/
  writes : List (List Nat × Nat)
deriving DecidableEq

structure Torn where
  nodes : List NodeId
  why : String
deriving DecidableEq

inductive Answer where
  | prepared (reply : Except String (String × List RankPrepare × Bool))
  | committed (reply : Except String (List RankStarted))
  | aborted
  | stopped (reply : Except String (List RankStarted))
  | supervised (torn : Option Torn)
  | executed
deriving DecidableEq

inductive Call where
  | prepare (resolved : Except String Pending)
  | commit (epoch : String)
  | abort (epoch : String)
  | stopCluster
  | supervise
  /-- A machine does what request `k` asks; a rank names its own container. -/
  | execute (k : Nat) (name : String)
deriving DecidableEq

/-- What an awaited call comes back with. -/
inductive Reply where
  | prepared (reply : PrepareReply)
  | released
  | started (result : Except String String)
  | alive (alive : Bool)
  | stopped (outcome : Except String Unit)
deriving DecidableEq

/-- A call under way, named by what it awaits. The target or rank it awaits
stands before the ones still to come. -/
inductive Task where
  | preparing (pending : Pending) (target : Target) (rest accepted : List Target)
      (answers : List RankPrepare)
  | releasing (epoch : String) (target : Target) (rest : List Target) (answer : Answer)
  | starting (cluster : Nat) (pending : Pending) (done : List Target) (target : Target)
      (rest : List Target) (started : List RankStarted)
  | settling (cluster : Nat) (pending : Pending) (started : List RankStarted)
      (rank : RankStarted × Target) (rest : List (RankStarted × Target)) (dead : List String)
  | undoing (epoch : String) (rank : RankStarted × Target) (rest : List (RankStarted × Target))
      (release : List Target) (why : String)
  | judging (seen : List Nat) (rank : RankStarted × Target) (rest : List (RankStarted × Target))
      (dead : List (NodeId × String))
  | stopping (seen : List Nat) (record : Record) (rank : RankStarted × Target)
      (rest : List (RankStarted × Target)) (failures : List String)
      (stillRunning : List RankStarted) (torn : Option (List (NodeId × String)))
  | answered (answer : Answer)
deriving DecidableEq

namespace Shared

def ask (s : Shared) (q : Request) : Shared := { s with sent := s.sent ++ [q] }

def take (s : Shared) : Shared := { s with pending := none, clusters := s.clusters + 1 }

def store (s : Shared) (cluster : Nat) (r : Running) : Shared :=
  { s with
    running := some ⟨cluster, r⟩
    committed := cluster :: s.committed
    unstopped := cluster :: s.unstopped }

/-- What a teardown of `cluster` leaves in the slot, whatever is there. -/
def close (s : Shared) (seen : List Nat) (cluster : Nat) (slot : Option Running) : Shared :=
  { s with
    running := slot.map (⟨cluster, ·⟩)
    unstopped := if slot.isNone then s.unstopped.filter (· ≠ cluster) else s.unstopped
    writes := s.running.toList.map (fun r => (seen, r.cluster)) ++ s.writes }

/-- A machine starts a rank, in place of any container of that name, or removes
a container. -/
def execute (s : Shared) (k : Nat) (name : String) : Option Shared :=
  match s.sent[k]? with
  | some (.start cluster node) =>
      some { s with
        sent := s.sent.eraseIdx k
        fleet := ⟨node, name, cluster⟩ :: s.fleet.filter (fun c => ¬ (c.node = node ∧ c.name = name)) }
  | some (.stop seen node container) =>
      let gone := s.fleet.filter (fun c => c.node = node ∧ c.name = container)
      some { s with
        sent := s.sent.eraseIdx k
        fleet := s.fleet.filter (fun c => ¬ (c.node = node ∧ c.name = container))
        hits := (match seen with
          | some seen => gone.map (fun c => (seen, c.cluster))
          | none => []) ++ s.hits }
  | none => none

end Shared

/-- `roll_back`: a local abort is not awaited. -/
def rollBack (s : Shared) (epoch : String) (targets : List Target) (answer : Answer) :
    Shared × Task :=
  match targets.dropWhile (fun t => t.addr.isNone) with
  | [] => (s, .answered answer)
  | t :: rest => (s, .releasing epoch t rest answer)

/-- The ranks not yet asked to prepare, and the end of the ceremony. -/
def prepareRest (s : Shared) (pending : Pending) (accepted : List Target)
    (answers : List RankPrepare) : List Target → Shared × Task
  | t :: rest => (s, .preparing pending t rest accepted answers)
  | [] =>
      if answers.all (·.prepared) then
        ({ s with pending := some pending },
          .answered (.prepared (.ok (pending.epoch, answers, true))))
      else rollBack s pending.epoch accepted (.prepared (.ok (pending.epoch, answers, false)))

/-- `stop_started`, then `roll_back`, then the reason. -/
def undo (s : Shared) (epoch : String) (release : List Target) (why : String) :
    List (RankStarted × Target) → Shared × Task
  | (r, t) :: rest =>
      (s.ask (.stop none t.node r.container), .undoing epoch (r, t) rest release why)
  | [] => rollBack s epoch release (.committed (.error why))

/-- The ranks not yet asked whether they survived, and the end of a commit. -/
def settleRest (settleSecs : Nat) (s : Shared) (cluster : Nat) (pending : Pending)
    (started : List RankStarted) (dead : List String) :
    List (RankStarted × Target) → Shared × Task
  | rt :: rest => (s, .settling cluster pending started rt rest dead)
  | [] =>
      if dead.isEmpty then
        (s.store cluster ⟨pending.targets, started⟩, .answered (.committed (.ok started)))
      else
        undo s pending.epoch [] (stoppedEarly dead settleSecs) (reachable started pending.targets)

def startRest (settleSecs : Nat) (s : Shared) (cluster : Nat) (pending : Pending)
    (done : List Target) (started : List RankStarted) : List Target → Shared × Task
  | t :: rest =>
      (s.ask (.start cluster t.node), .starting cluster pending done t rest started)
  | [] =>
      settleRest settleSecs s cluster pending started [] (startedTargets pending.targets started)

def torn (dead : List (NodeId × String)) : Answer :=
  .supervised (some ⟨dead.map (·.1), tornDown (dead.map (·.2))⟩)

/-- The ranks not yet asked to stop, and the end of a stop. Supervision clears
the record whatever the stop came to. -/
def stopRest (s : Shared) (seen : List Nat) (record : Record) (failures : List String)
    (stillRunning : List RankStarted) (torn? : Option (List (NodeId × String))) :
    List (RankStarted × Target) → Shared × Task
  | (r, t) :: rest =>
      (s.ask (.stop (some seen) t.node r.container),
        .stopping seen record (r, t) rest failures stillRunning torn?)
  | [] =>
      match torn? with
      | some dead => (s.close seen record.cluster none, .answered (torn dead))
      | none =>
          (s.close seen record.cluster (afterStop record.running failures stillRunning),
            .answered (.stopped (if failures.isEmpty then .ok record.running.started
              else .error (couldNotStop failures))))

/-- `stop_cluster_inner` on what the slot holds now. -/
def stopAll (s : Shared) (seen : List Nat) (torn? : Option (List (NodeId × String)))
    (record : Record) : Shared × Task :=
  stopRest s seen record [] [] torn?
    (reachable record.running.started record.running.targets)

/-- The ranks not yet asked whether they are alive, and what follows: nothing, or
a stop of whatever the slot holds by then. -/
def judgeRest (s : Shared) (seen : List Nat) (dead : List (NodeId × String)) :
    List (RankStarted × Target) → Shared × Task
  | rt :: rest => (s, .judging seen rt rest dead)
  | [] =>
      if dead.isEmpty then (s, .answered (.supervised none))
      else
        match s.running with
        | some record => stopAll s seen (some dead) record
        | none => (s, .answered (torn dead))

def verdict (dead : List (NodeId × String)) (t : Target) (alive : Bool) :
    List (NodeId × String) :=
  if alive then dead else dead ++ [(t.node, t.name)]

def enter (settleSecs : Nat) (s : Shared) : Call → Option (Shared × Task)
  | .prepare resolved =>
      match s.running with
      | some r => some (s, .answered (.prepared (.error (alreadyRunning r.running))))
      | none =>
          match resolved with
          | .error e => some (s, .answered (.prepared (.error e)))
          | .ok pending => some (prepareRest s pending [] [] pending.targets)
  | .commit epoch =>
      match takePending s.pending epoch with
      | .error e => some (s, .answered (.committed (.error e)))
      | .ok pending => some (startRest settleSecs s.take s.clusters pending [] [] pending.targets)
  | .abort epoch =>
      match takePending s.pending epoch with
      | .error _ => some (s, .answered .aborted)
      | .ok pending => some (rollBack { s with pending := none } epoch pending.targets .aborted)
  | .stopCluster =>
      match s.running with
      | none => some (s, .answered (.stopped (.error notStarted)))
      | some record => some (stopAll s s.committed none record)
  | .supervise =>
      match s.running with
      | none => some (s, .answered (.supervised none))
      | some record =>
          some (judgeRest s s.committed []
            (reachable record.running.started record.running.targets))
  | .execute k name => (s.execute k name).map (·, .answered .executed)

def resume (settleSecs : Nat) (s : Shared) : Task → Reply → Option (Shared × Task)
  | .preparing pending t rest accepted answers, .prepared reply =>
      some (prepareRest s pending (if reply = .prepared then accepted ++ [t] else accepted)
        (answers ++ [rankPrepare t reply]) rest)
  | .releasing epoch _ rest answer, .released => some (rollBack s epoch rest answer)
  | .starting cluster pending done t rest started, .started result =>
      match result with
      | .ok container =>
          some (startRest settleSecs s cluster pending (done ++ [t])
            (started ++ [rankStarted pending.port t container]) rest)
      | .error reason =>
          some (undo s pending.epoch (t :: rest) (couldNotStart t reason) (reachable started done))
  | .settling cluster pending started (_, t) rest dead, .alive alive =>
      some (settleRest settleSecs s cluster pending started
        (if alive then dead else dead ++ [t.name]) rest)
  | .undoing epoch _ rest release why, .stopped _ => some (undo s epoch release why rest)
  | .judging seen (_, t) rest dead, .alive alive =>
      some (judgeRest s seen (verdict dead t alive) rest)
  | .stopping seen record (r, t) rest failures stillRunning torn?, .stopped outcome =>
      match outcome with
      | .ok () => some (stopRest s seen record failures stillRunning torn? rest)
      | .error e =>
          some (stopRest s seen record (failures ++ [s!"{t.name}: {e}"]) (stillRunning ++ [r])
            torn? rest)
  | _, _ => none

def driver (settleSecs : Nat) : Object Shared Task Call Reply :=
  ⟨enter settleSecs, resume settleSecs⟩

abbrev State := Pool Shared Task
abbrev Action := Act Call Reply

def idle : State := Pool.start ⟨none, none, 0, [], [], [], [], [], []⟩

section Fixed

/-- Call `i` is a prepare that both machines accept. -/
def prepared (i : Nat) (epoch recipe : String) : List Action :=
  [.enter (.prepare (.ok (twoRanks epoch recipe))), .resume i (.prepared .prepared),
    .resume i (.prepared .prepared)]

/-- The rank that commit `i` waits for answers that it started. -/
def started (i : Nat) (rank : String) : Action := .resume i (.started (.ok rank))

def survived (i : Nat) : List Action := [.resume i (.alive true), .resume i (.alive true)]

end Fixed

end Cluster
end Metralectl
