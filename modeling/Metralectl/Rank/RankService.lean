import Metralectl.Core.Text
import Metralectl.Protocol.Messages

/-!
One machine acting as a rank of somebody else's cluster. `prepare` renders a
command and keeps it; `commit` runs what was kept, and takes only an epoch. The
critical sections of the reservation are functions of their own, since other
calls come between them. Times are nanoseconds.
-/
namespace Metralectl

structure RankAssignment where
  node : NodeId
  rank : Nat
  worldSize : Nat
  masterAddr : String
  masterPort : Nat
  recipe : String
  recipeHash : String
  settings : Settings
deriving DecidableEq

inductive PrepareReply where
  | prepared
  | refused (reason : String)
deriving DecidableEq

inductive RankRefusal where
  | reserved (recipe : String) (expiresInS : Nat)
  | rendezvousUnreachable (why : String)
  | dockerUnavailable
  | notLaunchable (why : String)
deriving DecidableEq

def RankRefusal.text : RankRefusal → String
  | .reserved recipe expiresInS =>
      s!"this node is already reserved for a launch of {recipe}; " ++
        s!"abort that launch, or wait {expiresInS}s for the reservation to " ++
        "lapse, before starting another"
  | .rendezvousUnreachable why => why
  | .dockerUnavailable => "the container runtime is not answering on this node"
  | .notLaunchable why => s!"this node cannot run models: {why}"

/-- What a rendered rank is kept for: its container's name and its command line. -/
structure LaunchPlan where
  name : String
  argv : List String
deriving DecidableEq

/-- A rendered rank, held between prepare and commit, until `expires`. -/
structure Reservation where
  epoch : String
  recipe : String
  plan : LaunchPlan
  expires : Nat
deriving DecidableEq

def second : Nat := 1000000000

def reservationTtl : Nat := 600 * second

/-- What the machine brings to every call: whether it can run models at all, how
it renders an assignment, and how it explains an address it cannot reach. -/
structure RankHost where
  canLaunch : Except String Unit
  planFor : RankAssignment → Except String LaunchPlan
  explain : String → String

def refuse (r : RankRefusal) : PrepareReply := .refused r.text

namespace RankHost

/-- The first critical section of `prepare`. A reservation of another epoch
refuses it, unless it has lapsed, and is then released. -/
def checkReserved (slot : Option Reservation) (now : Nat) (epoch : String) :
    Except PrepareReply (Option Reservation) :=
  match slot with
  | some r =>
      if r.epoch ≠ epoch then
        if r.expires ≤ now then .ok none
        else .error (refuse (.reserved r.recipe ((r.expires - now) / second)))
      else .ok slot
  | none => .ok slot

/-- Everything `prepare` decides before and inside its first critical section. -/
def check (host : RankHost) (slot : Option Reservation) (now : Nat) (epoch : String) :
    Except PrepareReply (Option Reservation) :=
  match host.canLaunch with
  | .error why => .error (refuse (.notLaunchable why))
  | .ok () => checkReserved slot now epoch

/-- What follows outside any lock: the runtime, the rendezvous, the rendering. -/
def probe (host : RankHost) (assignment : RankAssignment) (dockerOk canReach : Bool) :
    Except PrepareReply LaunchPlan :=
  if !dockerOk then .error (refuse .dockerUnavailable)
  else if !canReach then
    .error (refuse (.rendezvousUnreachable (host.explain assignment.masterAddr)))
  else
    match host.planFor assignment with
    | .ok plan => .ok plan
    | .error e => .error (.refused e)

end RankHost

/-- The second critical section of `prepare` stores this, whatever the slot holds. -/
def reserve (epoch : String) (assignment : RankAssignment) (plan : LaunchPlan) (now : Nat) :
    Reservation :=
  ⟨epoch, assignment.recipe, plan, now + reservationTtl⟩

/-- The critical section of `commit`: a committed reservation is spent. -/
def takeReserved (slot : Option Reservation) (epoch : String) : Except String Reservation :=
  match slot with
  | some r =>
      if r.epoch = epoch then .ok r
      else .error s!"this node is holding a reservation for {r.epoch}, not {epoch}"
  | none => .error s!"this node has no reservation for {epoch}; prepare first"

/-- The critical section of `abort`: only the named reservation is released. -/
def releaseReserved (slot : Option Reservation) (epoch : String) : Option Reservation :=
  if slot.any (fun r => r.epoch = epoch) then none else slot

inductive RunOutcome where
  | unstartable (why : String)
  | failed (status : Int) (stderr : String)
  | ran
deriving DecidableEq

def commitReply (plan : LaunchPlan) : RunOutcome → Except String String
  | .unstartable why => .error s!"starting the rank: {why}"
  | .failed status stderr => .error s!"docker run exited {status}: {trim stderr}"
  | .ran => .ok plan.name

/-- Whether a container name is one this fleet could have created. -/
def isOurContainer (container : String) : Bool :=
  match stripPrefix "metrale-" container with
  | none => false
  | some rest =>
      !rest.toList.isEmpty &&
        rest.toList.all (fun c => c.isLower || c.isDigit || c == '.' || c == '-')

/-- What a command that could be started came back with. -/
structure Output where
  status : Int
  stdout : String
  stderr : String
deriving DecidableEq

def Output.success (out : Output) : Bool := out.status = 0

/-- What `stop` answers once `docker rm` has come back: a container that is
already gone is the outcome the caller wanted. -/
def stopReply (container : String) (rm : Except String Output) : Except String Unit :=
  if isOurContainer container then
    match rm with
    | .error why => .error s!"stopping the rank: {why}"
    | .ok out =>
        if !out.success && !occursIn "No such container" out.stderr.toList then
          .error s!"docker rm exited {out.status}: {trim out.stderr}"
        else .ok ()
  else
    .error ("refusing to stop `" ++ container ++ "`: a rank may only stop a container this " ++
      "fleet launched, and that name is not one")

/-- What `alive` answers: a container that is not ours, or is gone, is not running. -/
def aliveReply (container : String) (inspect : Except String Output) : Except String Bool :=
  if isOurContainer container then
    match inspect with
    | .error why => .error s!"asking the container runtime about a rank: {why}"
    | .ok out => .ok (out.success && trim out.stdout = "true")
  else .ok false

end Metralectl
