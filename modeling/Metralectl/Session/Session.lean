import Metralectl.Control.Launcher
import Metralectl.Cluster.ClusterDriver
import Metralectl.Fleet.Node
import Metralectl.Pairing.JoinWindow
import Mathlib.Data.List.Sort

/-!
One client connection, as a state machine over decoded messages. What a message
makes the session ask of its dependencies is recorded beside the replies, in the
order it is asked; what they answer is given for each message. Times are
nanoseconds.
-/
namespace Metralectl
namespace Browser
open Fleet Cluster

def protocolVersion : Nat := 4

/-- How long a completed exchange waits for a human decision. -/
def pendingPairingTtl : Nat := 10 * 60 * 1000000000

/-- The client messages; `target` is the machine a control verb is aimed at. -/
inductive ClientMsg where
  | hello (protocolVersion : Nat) (token : String)
  | listRecipes (id : Nat) (target : Option NodeId)
  | preview (id : Nat) (recipe : RecipeId) (settings : Settings) (target : Option NodeId)
  | launch (id : Nat) (recipe : RecipeId) (settings : Settings) (target : Option NodeId)
  | stop (id : Nat) (recipe : RecipeId) (target : Option NodeId)
  | status (id : Nat) (target : Option NodeId)
  | listNodes (id : Nat)
  | watchFleet (id : Nat) (vitals : Bool)
  | pairPeer (id : Nat) (node : NodeId) (code : String)
  | pairPeerAt (id : Nat) (address code : String)
  | mintJoinCode (id : Nat) (allowControl : Bool)
  | confirmPairing (id : Nat) (node : NodeId) (allowControl : Bool)
  | rejectPairing (id : Nat) (node : NodeId)
  | revokeJoinCode (id : Nat)
  | unpairPeer (id : Nat) (node : NodeId)
  | previewCluster (id : Nat) (recipe : RecipeId) (nodes : List NodeId) (head : NodeId)
      (settings : Settings)
  | prepareCluster (id : Nat) (recipe : RecipeId) (nodes : List NodeId) (head : NodeId)
      (settings : Settings)
  | commitCluster (id : Nat) (epoch : String)
  | abortCluster (id : Nat) (epoch : String)
  | stopCluster (id : Nat)
  | launchStats (id : Nat) (recipe : RecipeId) (target : Option NodeId)
  | launchLogs (id : Nat) (recipe : RecipeId) (lines : Nat) (target : Option NodeId)
deriving DecidableEq

structure RankPreview where
  node : NodeId
  name : String
  rank : Nat
  masterAddr : String
  command : String
  unmapped : List String
deriving DecidableEq

inductive ServerMsg where
  | ready (protocolVersion : Nat) (recipes : List RecipeInfo) (canLaunch : Bool)
      (reason : Option String)
  | recipes (id : Nat) (recipes : List RecipeInfo) (on_ via : Option NodeId)
  | preview (id : Nat) (command : String) (unapplied : List String) (on_ via : Option NodeId)
  | started (id : Nat) (recipe : RecipeId) (container : String) (endpoint : Option String)
      (on_ via : Option NodeId)
  | status (id : Nat) (running : List RunningLaunch) (on_ via : Option NodeId)
  | stopped (id : Nat) (recipe : RecipeId) (on_ via : Option NodeId)
  | nodes (id : Nat) (nodes : List NodeDescriptor)
  | pairAtResult (id : Nat) (node : Option NodeId) (name address : String) (exchanged : Bool)
      (verification : Option String) (detail : String)
  | pairResult (id : Nat) (node : NodeId) (exchanged : Bool) (verification : Option String)
      (detail : String)
  | pairDecision (id : Nat) (node : NodeId) (trusted : Bool) (detail : String)
  | joinInvitation (id : Nat) (code : Option String) (addresses : List String) (expiresInS : Nat)
  | clusterPreview (id : Nat) (ranks : List RankPreview) (linkWarning : Option String)
  | clusterPrepared (id : Nat) (epoch : String) (ranks : List RankPrepare) (mayCommit : Bool)
  | clusterStarted (id : Nat) (epoch : String) (ranks : List RankStarted)
  | clusterStopped (id : Nat) (ranks : List RankStarted)
  | stats (id : Nat) (recipe : RecipeId) (stats : LaunchReading) (on_ via : Option NodeId)
  | logs (id : Nat) (recipe : RecipeId) (container : String) (lines : List String)
      (running : Bool) (on_ via : Option NodeId)
  | error (id : Option Nat) (error : AgentError)
deriving DecidableEq

/-- A completed exchange, not yet trusted. -/
structure PairOutcome where
  node : NodeId
  publicKey : String
  name : String
  address : String
  /-- Short words both humans compare before trusting. -/
  verification : String
deriving DecidableEq

/-- What a session asks of its dependencies. An exchange is kept with its result. -/
inductive Call where
  | token (presented : String)
  | control (req : ControlReq)
  | nodes
  | pair (node : NodeId) (code : String) (result : Except String PairOutcome)
  | pairAt (address code : String) (result : Except String PairOutcome)
  | trust (outcome : PairOutcome) (allowControl : Bool)
  | unpair (node : NodeId)
  | mint (allowControl : Bool)
  | revoke
  | clusterPreview (recipe : RecipeId) (nodes : List NodeId) (head : NodeId) (settings : Settings)
  | clusterPrepare (recipe : RecipeId) (nodes : List NodeId) (head : NodeId) (settings : Settings)
  | clusterCommit (epoch : String)
  | clusterAbort (epoch : String)
  | clusterStop
  | relay (target : NodeId) (req : ControlReq)

/-- What the session was given: the expected token, whether this machine can launch,
and which of the optional dependencies there are. -/
structure SessionDeps where
  token : String
  canLaunch : Except String Unit
  fleet : Bool
  cluster : Bool
  joining : Bool
  relay : Bool
  /-- The debug rendering of an answer, which an error quotes. -/
  debug : ControlRep → String

structure Preview where
  command : String
  unapplied : List String

structure LogTail where
  container : String
  lines : List String
  running : Bool

/-- What the dependencies answer while one message is handled. -/
structure World where
  recipes : List RecipeInfo
  preview : RecipeId → Settings → Except AgentError Preview
  launch : RecipeId → Settings → LaunchFor → Except AgentError Started
  stop : RecipeId → Except AgentError Unit
  status : Except AgentError (List RunningLaunch)
  stats : RecipeId → Except AgentError LaunchReading
  logs : RecipeId → Nat → Except AgentError LogTail
  nodes : List NodeDescriptor
  pair : NodeId → String → Except String PairOutcome
  pairAt : String → String → Except String PairOutcome
  trust : PairOutcome → Bool → Except String Unit
  unpair : NodeId → Except String Bool
  mint : Bool → Option String
  clusterPreview : RecipeId → List NodeId → NodeId → Settings →
    Except String (List RankPreview × Option String)
  clusterPrepare : RecipeId → List NodeId → NodeId → Settings →
    Except String (String × List RankPrepare × Bool)
  clusterCommit : String → Except String (List RankStarted)
  clusterStop : Except String (List RankStarted)
  relay : NodeId → ControlReq → Except AgentError (ControlRep × Option NodeId)

inductive Phase where
  | awaitingHello
  | ready
  | closed
deriving DecidableEq

/-- An exchange that completed and is waiting to be accepted or refused. -/
structure PendingPairing where
  outcome : PairOutcome
  expiresAt : Nat
deriving DecidableEq

structure Session where
  phase : Phase
  /-- The one exchange this session is holding, if any. -/
  pendingPairing : Option PendingPairing
  deniedAttempts : List String
deriving DecidableEq

/-- The session after a message, what it asked, and what it answers. -/
structure Handled where
  session : Session
  calls : List Call
  replies : List ServerMsg

def Session.new : Session := ⟨.awaitingHello, none, []⟩

def Session.close (s : Session) : Session := { s with phase := .closed }

/-- Record denied-key attempts carried inside a settings refusal. -/
def Session.noteDenied (s : Session) : AgentError → Session
  | .badSettings errors =>
      { s with deniedAttempts := s.deniedAttempts ++ errors.filterMap fun e =>
          match e with
          | .denied key _ => some key
          | _ => none }
  | _ => s

def err (id : Option Nat) (error : AgentError) : List ServerMsg := [.error id error]

def decision (id : Nat) (node : NodeId) (trusted : Bool) (detail : String) : List ServerMsg :=
  [.pairDecision id node trusted detail]

/-- A frame that failed to deserialize ends the session. -/
def onMalformed (s : Session) (detail : String) : Handled :=
  ⟨s.close, [], err none (.invalidMessage detail)⟩

/-- The seven forwardable verbs, mapped onto the closed control vocabulary. -/
def asRemote : ClientMsg → Option (Nat × NodeId × ControlReq)
  | .listRecipes id (some n) => some (id, n, .listRecipes)
  | .preview id recipe settings (some n) => some (id, n, .preview recipe settings)
  | .launch id recipe settings (some n) => some (id, n, .launch recipe settings)
  | .stop id recipe (some n) => some (id, n, .stop recipe)
  | .status id (some n) => some (id, n, .status)
  | .launchStats id recipe (some n) => some (id, n, .stats recipe)
  | .launchLogs id recipe lines (some n) => some (id, n, .logs recipe lines)
  | _ => none

/-- Wrap the target's answer for the browser. It must have the shape that was asked
for. -/
def repToMsg (d : SessionDeps) (id : Nat) (target : NodeId) (via : Option NodeId) :
    ControlReq → ControlRep → List ServerMsg
  | .listRecipes, .recipes recipes => [.recipes id recipes (some target) via]
  | .preview _ _, .previewed command unapplied => [.preview id command unapplied (some target) via]
  | .launch _ _, .started recipe container endpoint =>
      [.started id recipe container endpoint (some target) via]
  | .stop _, .stopped recipe => [.stopped id recipe (some target) via]
  | .status, .status running => [.status id running (some target) via]
  | .stats _, .stats recipe stats => [.stats id recipe stats (some target) via]
  | .logs _ _, .logs recipe container lines running =>
      [.logs id recipe container lines running (some target) via]
  | _, .refused _ error => err (some id) error
  | _, other =>
      err (some id) (.invalidMessage (s!"the answer relayed for {target.short} did not match " ++
        s!"the request: {d.debug other}"))

section Handling
variable (d : SessionDeps) (w : World) (now : Nat) (s : Session)

/-- Whether `node` is this machine, by the fleet's own account. -/
def isLocalNode (node : NodeId) : Bool :=
  d.fleet && w.nodes.any fun n => n.isLocal && n.id = node

def askLocal : List Call := if d.fleet then [.nodes] else []

def forward (id : Nat) (target : NodeId) (req : ControlReq) : List Call × List ServerMsg :=
  if !d.relay then
    ([], err (some id) (.notRoutable target "this agent has no way to reach other machines"))
  else
    ([.relay target req],
      match w.relay target req with
      | .ok (rep, via) => repToMsg d id target via req rep
      | .error e => err (some id) e)

def hello (version : Nat) (presented : String) : Handled :=
  if version ≠ protocolVersion then
    ⟨s.close, [], err none (.unsupportedProtocol protocolVersion protocolVersion version)⟩
  else if d.token ≠ presented then ⟨s.close, [.token presented], err none .notPaired⟩
  else
    let reason := match d.canLaunch with
      | .ok () => none
      | .error why => some why
    ⟨{ s with phase := .ready }, [.token presented, .control .listRecipes],
      [.ready protocolVersion w.recipes reason.isNone reason]⟩

/-- One verb of this machine's own control core, answered by no other machine. -/
def core {α : Type} (id : Nat) (req : ControlReq) (answer : Except AgentError α)
    (reply : α → ServerMsg) : Handled :=
  match answer with
  | .ok a => ⟨s, [.control req], [reply a]⟩
  | .error e => ⟨s, [.control req], err (some id) e⟩

/-- The same for a verb with settings, whose refusals may name denied keys. -/
def coreWith {α : Type} (id : Nat) (req : ControlReq) (answer : Except AgentError α)
    (reply : α → ServerMsg) : Handled :=
  match answer with
  | .ok a => ⟨s, [.control req], [reply a]⟩
  | .error e => ⟨s.noteDenied e, [.control req], err (some id) e⟩

def nodes (id : Nat) : Handled :=
  ⟨s, askLocal d, [.nodes id (if d.fleet then w.nodes else [])]⟩

/-- A verb of an optional dependency, refused where there is none. -/
def given (there : Bool) (id : Nat) (handled : Handled) : Handled :=
  if there then handled else ⟨s, [], err (some id) .notReady⟩

def hold (outcome : PairOutcome) : Session :=
  { s with pendingPairing := some ⟨outcome, now + pendingPairingTtl⟩ }

def drop : Session := { s with pendingPairing := none }

/-- A success replaces the exchange that is held, a failure clears it. -/
def pair (id : Nat) (node : NodeId) (code : String) : Handled :=
  let calls := [.pair node code (w.pair node code)]
  given s d.fleet id <|
    match w.pair node code with
    | .ok outcome =>
        ⟨hold now s outcome, calls, [.pairResult id node true (some outcome.verification) ""]⟩
    | .error e => ⟨drop s, calls, [.pairResult id node false none e]⟩

def pairAt (id : Nat) (address code : String) : Handled :=
  let calls := [.pairAt address code (w.pairAt address code)]
  given s d.fleet id <|
    match w.pairAt address code with
    | .ok outcome =>
        ⟨hold now s outcome, calls, [.pairAtResult id (some outcome.node) outcome.name
          outcome.address true (some outcome.verification) ""]⟩
    | .error e => ⟨drop s, calls, [.pairAtResult id none "" "" false none e]⟩

/-- The exchange is spent first, whatever the answer. -/
def confirmPairing (id : Nat) (node : NodeId) (allowControl : Bool) : Handled :=
  match s.pendingPairing with
  | none =>
      ⟨drop s, [], decision id node false ("there is no exchange waiting on this connection. " ++
        "Pair again — the words are only meaningful for the exchange that produced them.")⟩
  | some pending =>
      if pending.outcome.node ≠ node then
        ⟨drop s, [], decision id node false
          "that is not the machine this connection just paired with. Nothing was trusted."⟩
      else if pending.expiresAt ≤ now then
        ⟨drop s, [], decision id node false "those words are too old to act on. Pair again."⟩
      else
        given (drop s) d.fleet id ⟨drop s, [.trust pending.outcome allowControl],
          match w.trust pending.outcome allowControl with
          | .ok () => decision id node true ""
          | .error e => decision id node false (s!"the exchange completed but the pin could " ++
              s!"not be written: {e}. This machine does not trust {node.short} — pair again " ++
              "once that is fixed.")⟩

def rejectPairing (id : Nat) (node : NodeId) : Handled :=
  ⟨drop s, [], decision id node false
    (if s.pendingPairing.isSome then "" else
      "there was no exchange waiting; nothing was trusted.")⟩

def unpair (id : Nat) (node : NodeId) : Handled :=
  given s d.fleet id ⟨s, [.unpair node],
    match w.unpair node with
    | .ok wasPinned =>
        decision id node false (if wasPinned then "" else "that node was not paired")
    | .error e => err (some id) (.invalidMessage e)⟩

/-- Where a joining machine should dial this one, best link first. -/
def dialableAddresses : List String :=
  if d.fleet then
    let addresses := ((w.nodes.find? (·.isLocal)).map (·.addresses)).getD []
    ((addresses.filter (·.link.usableForControl)).insertionSort
      fun a b => b.link.rank ≤ a.link.rank).map (·.addr)
  else []

def mintJoin (id : Nat) (allowControl : Bool) : Handled :=
  given s d.joining id <|
    match w.mint allowControl with
    | some code =>
        ⟨s, .mint allowControl :: askLocal d, [.joinInvitation id (some code)
          (dialableAddresses d w) (Joining.joinTtl / 1000000000)]⟩
    | none => ⟨s, [.mint allowControl], err (some id) .notReady⟩

def revokeJoin (id : Nat) : Handled :=
  ⟨s, if d.joining then [.revoke] else [], [.joinInvitation id none [] 0]⟩

def clusterPreview (id : Nat) (recipe : RecipeId) (nodes : List NodeId) (head : NodeId)
    (settings : Settings) : Handled :=
  given s d.cluster id ⟨s, [.clusterPreview recipe nodes head settings],
    match w.clusterPreview recipe nodes head settings with
    | .ok (ranks, warning) => [.clusterPreview id ranks warning]
    | .error reason => err (some id) (.notLaunchable recipe reason)⟩

def clusterPrepare (id : Nat) (recipe : RecipeId) (nodes : List NodeId) (head : NodeId)
    (settings : Settings) : Handled :=
  given s d.cluster id ⟨s, [.clusterPrepare recipe nodes head settings],
    match w.clusterPrepare recipe nodes head settings with
    | .ok (epoch, ranks, mayCommit) => [.clusterPrepared id epoch ranks mayCommit]
    | .error reason => err (some id) (.notLaunchable recipe reason)⟩

def commitCluster (id : Nat) (epoch : String) : Handled :=
  given s d.cluster id ⟨s, [.clusterCommit epoch],
    match w.clusterCommit epoch with
    | .ok ranks => [.clusterStarted id epoch ranks]
    | .error detail => err (some id) (.launchFailed detail)⟩

def abortCluster (id : Nat) (epoch : String) : Handled :=
  given s d.cluster id ⟨s, [.clusterAbort epoch], [.clusterPrepared id epoch [] false]⟩

def stopCluster (id : Nat) : Handled :=
  given s d.cluster id ⟨s, [.clusterStop],
    match w.clusterStop with
    | .ok ranks => [.clusterStopped id ranks]
    | .error detail => err (some id) (.launchFailed detail)⟩

/-- A message of a session that is ready, and that is for this machine. -/
def dispatch : ClientMsg → Handled
  | .hello _ _ => ⟨s, [], err none (.invalidMessage "already greeted")⟩
  | .listRecipes id _ => ⟨s, [.control .listRecipes], [.recipes id w.recipes none none]⟩
  | .preview id recipe settings _ =>
      coreWith s id (.preview recipe settings) (w.preview recipe settings) fun p =>
        .preview id p.command p.unapplied none none
  | .launch id recipe settings _ =>
      -- A browser launch is outside any deployment.
      coreWith s id (.launch recipe settings) (w.launch recipe settings ⟨none, none, none⟩)
        fun started => .started id recipe started.container started.endpoint none none
  | .stop id recipe _ =>
      core s id (.stop recipe) (w.stop recipe) fun _ => .stopped id recipe none none
  | .status id _ => core s id .status w.status fun running => .status id running none none
  | .listNodes id => nodes d w s id
  | .watchFleet id _ => nodes d w s id
  | .pairPeer id node code => pair d w now s id node code
  | .pairPeerAt id address code => pairAt d w now s id address code
  | .mintJoinCode id allowControl => mintJoin d w s id allowControl
  | .confirmPairing id node allowControl => confirmPairing d w now s id node allowControl
  | .rejectPairing id node => rejectPairing s id node
  | .revokeJoinCode id => revokeJoin d s id
  | .unpairPeer id node => unpair d w s id node
  | .previewCluster id recipe nodes head settings =>
      clusterPreview d w s id recipe nodes head settings
  | .prepareCluster id recipe nodes head settings =>
      clusterPrepare d w s id recipe nodes head settings
  | .commitCluster id epoch => commitCluster d w s id epoch
  | .abortCluster id epoch => abortCluster d s id epoch
  | .stopCluster id => stopCluster d w s id
  | .launchStats id recipe _ =>
      core s id (.stats recipe) (w.stats recipe) fun stats => .stats id recipe stats none none
  | .launchLogs id recipe lines _ =>
      core s id (.logs recipe lines) (w.logs recipe lines) fun tail =>
        .logs id recipe tail.container tail.lines tail.running none none

/-- A verb aimed at another machine is routed before dispatch. -/
def route (msg : ClientMsg) : Handled :=
  match asRemote msg with
  | none => dispatch d w now s msg
  | some (id, target, req) =>
      if isLocalNode d w target then
        let handled := dispatch d w now s msg
        { handled with calls := askLocal d ++ handled.calls }
      else
        let (calls, replies) := forward d w id target req
        ⟨s, askLocal d ++ calls, replies⟩

/-- Handle one decoded message. -/
def handle (msg : ClientMsg) : Handled :=
  match s.phase with
  | .closed => ⟨s, [], []⟩
  | .ready => route d w now s msg
  | .awaitingHello =>
      match msg with
      | .hello version token => hello d w s version token
      | _ => ⟨s.close, [], err none .notReady⟩

end Handling

end Browser
end Metralectl
