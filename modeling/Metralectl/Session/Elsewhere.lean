import Metralectl.Fleet.Routing
import Metralectl.Peer.RankChannel
import Metralectl.Session.Session

/-!
A control verb that is aimed at another machine: what a session sends for it, and what
it makes of the answer. A verb is the same request wherever it runs.
-/
namespace Metralectl
namespace Browser
open Fleet Cluster Trust Peer

namespace ClientMsg

/-- The machine a message is aimed at. -/
def on : ClientMsg → Option NodeId
  | .listRecipes _ target | .preview _ _ _ target | .launch _ _ _ target | .stop _ _ target
  | .status _ target | .launchStats _ _ target | .launchLogs _ _ _ target => target
  | _ => none

/-- What a control verb asks, of whichever machine. -/
def request : ClientMsg → Option (Nat × ControlReq)
  | .listRecipes id _ => some (id, .listRecipes)
  | .preview id recipe settings _ => some (id, .preview recipe settings)
  | .launch id recipe settings _ => some (id, .launch recipe settings)
  | .stop id recipe _ => some (id, .stop recipe)
  | .status id _ => some (id, .status)
  | .launchStats id recipe _ => some (id, .stats recipe)
  | .launchLogs id recipe lines _ => some (id, .logs recipe lines)
  | _ => none

end ClientMsg

inductive Verb where
  | listRecipes
  | preview
  | launch
  | stop
  | status
  | stats
  | logs
deriving DecidableEq

def verb : ControlReq → Verb
  | .listRecipes => .listRecipes
  | .preview _ _ => .preview
  | .launch _ _ => .launch
  | .stop _ => .stop
  | .status => .status
  | .stats _ => .stats
  | .logs _ _ => .logs

/-- The verb a reply is of the kind for; a refusal is of none. -/
def answered : ControlRep → Option Verb
  | .recipes _ => some .listRecipes
  | .previewed _ _ => some .preview
  | .started _ _ _ => some .launch
  | .stopped _ => some .stop
  | .status _ => some .status
  | .stats _ _ => some .stats
  | .logs _ _ _ _ => some .logs
  | .refused _ _ => none

/-- The reply a message was made of, and the machine and relay it names. -/
def carried : ServerMsg → Option (Nat × ControlRep × Option NodeId × Option NodeId)
  | .recipes id recipes on_ via => some (id, .recipes recipes, on_, via)
  | .preview id command unapplied on_ via => some (id, .previewed command unapplied, on_, via)
  | .started id recipe container endpoint on_ via =>
      some (id, .started recipe container endpoint, on_, via)
  | .stopped id recipe on_ via => some (id, .stopped recipe, on_, via)
  | .status id running on_ via => some (id, .status running, on_, via)
  | .stats id recipe stats on_ via => some (id, .stats recipe stats, on_, via)
  | .logs id recipe container lines running on_ via =>
      some (id, .logs recipe container lines running, on_, via)
  | _ => none

/-- What the relay of a session writes to whom on one attempt: the route is planned
afresh for each. -/
def attempt (f : LocalFleet) (pins : Except String Pins) (port : Nat) (target : NodeId)
    (req : ControlReq) (trace : ControlTrace) : Except AgentError (NodeId × SocketAddr × PeerFrame) :=
  match f.planControlRoute pins target port with
  | .error e => .error e
  | .ok (.direct addr) => .ok (target, addr, .control req (some trace))
  | .ok (.via relay addr) => .ok (relay, addr, .controlTo target req (some trace))

/-- A reply of the kind that answers the verb, told as it is; else an error, which is
the refusal's own if the reply is one. -/
structure ToldAs (id : Nat) (target : NodeId) (via : Option NodeId) (req : ControlReq)
    (rep : ControlRep) (replies : List ServerMsg) : Prop where
  matching : answered rep = some (verb req) →
    ∃ m, replies = [m] ∧ carried m = some (id, rep, some target, via)
  other : answered rep ≠ some (verb req) → ∃ e, replies = err (some id) e
  refused : ∀ by_ e, rep = .refused by_ e → replies = err (some id) e

/-- A control verb for another machine, handled: nothing runs here, the request goes to
the relay of a session that is ready and has one, and else to nobody. -/
structure SentElsewhere (d : SessionDeps) (w : World) (s : Session) (target : NodeId) (id : Nat)
    (req : ControlReq) (h : Handled) : Prop where
  notHere : ∀ r, Call.control r ∉ h.calls
  sent : s.phase = .ready → d.relay = true → h.calls = askLocal d ++ [.relay target req] ∧
    match w.relay target req with
    | .ok (rep, via) => ToldAs id target via req rep h.replies
    | .error e => h.replies = err (some id) e
  unsent : s.phase ≠ .ready ∨ d.relay = false →
    (∀ n r, Call.relay n r ∉ h.calls) ∧ ∀ m ∈ h.replies, ∃ i e, m = .error i e

section Routing
variable {d : SessionDeps} {w : World} {now : Nat} {s : Session} {msg : ClientMsg} {target : NodeId}

theorem asRemote_eq (msg : ClientMsg) : asRemote msg =
    msg.request.bind fun asked => msg.on.map fun target => (asked.1, target, asked.2) := by
  cases msg with
  | listRecipes _ target | preview _ _ _ target | launch _ _ _ target | stop _ _ target
  | status _ target | launchStats _ _ target | launchLogs _ _ _ target => cases target <;> rfl
  | _ => rfl

/-- Only a control verb has a target. -/
theorem request_of_on (aimed : msg.on = some target) : ∃ id req, msg.request = some (id, req) := by
  cases msg with
  | listRecipes | preview | launch | stop | status | launchStats | launchLogs => exact ⟨_, _, rfl⟩
  | _ => cases aimed

/-- Here, the same request goes to the control core of this machine. -/
theorem dispatch_request {id : Nat} {req : ControlReq} (asked : msg.request = some (id, req)) :
    (dispatch d w now s msg).calls = [.control req] := by
  cases msg with
  | listRecipes =>
      cases asked
      rfl
  | preview id recipe settings =>
      cases asked
      simp only [dispatch, coreWith]
      cases w.preview recipe settings <;> rfl
  | launch id recipe settings =>
      cases asked
      simp only [dispatch, coreWith]
      cases w.launch recipe settings ⟨none, none, none⟩ <;> rfl
  | stop id recipe =>
      cases asked
      simp only [dispatch, core]
      cases w.stop recipe <;> rfl
  | status =>
      cases asked
      simp only [dispatch, core]
      cases w.status <;> rfl
  | launchStats id recipe =>
      cases asked
      simp only [dispatch, core]
      cases w.stats recipe <;> rfl
  | launchLogs id recipe lines =>
      cases asked
      simp only [dispatch, core]
      cases w.logs recipe lines <;> rfl
  | _ => cases asked

theorem repToMsg_told (d : SessionDeps) (id : Nat) (target : NodeId) (via : Option NodeId)
    (req : ControlReq) (rep : ControlRep) :
    ToldAs id target via req rep (repToMsg d id target via req rep) := by
  constructor
  case matching =>
    intro kind
    cases req <;> cases rep <;> first | exact ⟨_, rfl, rfl⟩ | cases kind
  case other =>
    intro kind
    cases req <;> cases rep <;> first | exact ⟨_, rfl⟩ | exact absurd rfl kind
  case refused =>
    rintro by_ e rfl
    cases req <;> rfl

theorem isLocalNode_eq_false (elsewhere : ∀ n ∈ w.nodes, n.isLocal = true → n.id ≠ target) :
    isLocalNode d w target = false := by
  rw [isLocalNode, Bool.and_eq_false_imp]
  intro _
  rw [List.any_eq_false]
  intro n listed same
  obtain ⟨here, id⟩ := Bool.and_eq_true_iff.mp same
  exact elsewhere n listed here (of_decide_eq_true id)

/-- A request is carried to its target: by a dial of it, or in its name. -/
theorem attempt_carries {f : LocalFleet} {pins : Except String Pins} {port : Nat} {req : ControlReq}
    {trace : ControlTrace} {hop : NodeId} {addr : SocketAddr} {frame : PeerFrame}
    (sent : attempt f pins port target req trace = .ok (hop, addr, frame)) :
    f.planControlRoute pins target port = .ok (.direct addr) ∧ hop = target ∧
        frame = .control req (some trace) ∨
      f.planControlRoute pins target port = .ok (.via hop addr) ∧
        frame = .controlTo target req (some trace) := by
  unfold attempt at sent
  cases planned : f.planControlRoute pins target port with
  | error e => simp [planned] at sent
  | ok route =>
      cases route with
      | direct a =>
          simp only [planned, Except.ok.injEq, Prod.mk.injEq] at sent
          obtain ⟨rfl, rfl, rfl⟩ := sent
          exact .inl ⟨rfl, rfl, rfl⟩
      | via relay a =>
          simp only [planned, Except.ok.injEq, Prod.mk.injEq] at sent
          obtain ⟨rfl, rfl, rfl⟩ := sent
          exact .inr ⟨rfl, rfl⟩

theorem not_mem_askLocal {c : Call} (other : c ≠ .nodes) : c ∉ askLocal d := by
  unfold askLocal
  cases d.fleet with
  | false => exact List.not_mem_nil
  | true => exact fun there => other (List.mem_singleton.mp there)

theorem handle_ready {id : Nat} {req : ControlReq} (ready : s.phase = .ready)
    (aimed : msg.on = some target) (asked : msg.request = some (id, req))
    (elsewhere : ∀ n ∈ w.nodes, n.isLocal = true → n.id ≠ target) :
    handle d w now s msg = ⟨s, askLocal d ++ (forward d w id target req).1,
      (forward d w id target req).2⟩ := by
  have remote : asRemote msg = some (id, target, req) := by
    rw [asRemote_eq, asked, aimed]
    rfl
  simp [handle, ready, route, remote, isLocalNode_eq_false elsewhere]

theorem handle_elsewhere {id : Nat} {req : ControlReq} (aimed : msg.on = some target)
    (asked : msg.request = some (id, req))
    (elsewhere : ∀ n ∈ w.nodes, n.isLocal = true → n.id ≠ target) :
    SentElsewhere d w s target id req (handle d w now s msg) := by
  cases phase : s.phase with
  | closed =>
      have nothing : handle d w now s msg = ⟨s, [], []⟩ := by
        unfold handle
        rw [phase]
      rw [nothing]
      exact ⟨fun _ => List.not_mem_nil, fun ready => by simp [phase] at ready,
        fun _ => ⟨fun _ _ => List.not_mem_nil, fun m hm => absurd hm List.not_mem_nil⟩⟩
  | awaitingHello =>
      have refused : handle d w now s msg = ⟨s.close, [], err none .notReady⟩ := by
        unfold handle
        rw [phase]
        cases msg with
        | hello => cases aimed
        | _ => rfl
      rw [refused]
      exact ⟨fun _ => List.not_mem_nil, fun ready => by simp [phase] at ready,
        fun _ => ⟨fun _ _ => List.not_mem_nil, fun m hm => ⟨none, _, List.mem_singleton.mp hm⟩⟩⟩
  | ready =>
      rw [handle_ready phase aimed asked elsewhere]
      cases relayed : d.relay with
      | false =>
          have refused : forward d w id target req = ([], err (some id)
              (.notRoutable target "this agent has no way to reach other machines")) := by
            simp [forward, relayed]
          rw [refused, List.append_nil]
          exact ⟨fun _ => not_mem_askLocal nofun, fun _ relay => by simp [relayed] at relay,
            fun _ => ⟨fun _ _ => not_mem_askLocal nofun,
              fun m hm => ⟨some id, _, List.mem_singleton.mp hm⟩⟩⟩
      | true =>
          have onward : (forward d w id target req).1 = [.relay target req] := by
            simp [forward, relayed]
          rw [onward]
          constructor
          case notHere =>
            intro r there
            cases List.mem_append.mp there with
            | inl fleet => exact not_mem_askLocal (c := .control r) nofun fleet
            | inr relay => cases List.mem_singleton.mp relay
          case sent =>
            refine fun _ _ => ⟨rfl, ?_⟩
            cases relayedTo : w.relay target req with
            | ok answer =>
                have told := repToMsg_told d id target answer.2 req answer.1
                simpa [forward, relayed, relayedTo] using told
            | error e => simp [forward, relayed, relayedTo]
          case unsent =>
            intro either
            cases either with
            | inl unready => exact absurd phase unready
            | inr none => simp [relayed] at none

/-- A verb aimed at another machine never runs here, in whatever phase the session is. A
session that is ready and can relay sends the very request it would have made here, and
tells only an answer of its kind; any other sends nothing and has only errors to tell. -/
theorem targeted_elsewhere (aimed : msg.on = some target)
    (elsewhere : ∀ n ∈ w.nodes, n.isLocal = true → n.id ≠ target) :
    ∃ id req, msg.request = some (id, req) ∧
      (∀ w now s, (dispatch d w now s msg).calls = [.control req]) ∧
      SentElsewhere d w s target id req (handle d w now s msg) ∧
      ∀ f pins port trace hop addr frame,
        attempt f pins port target req trace = .ok (hop, addr, frame) →
          f.planControlRoute pins target port = .ok (.direct addr) ∧ hop = target ∧
              frame = .control req (some trace) ∨
            f.planControlRoute pins target port = .ok (.via hop addr) ∧
              frame = .controlTo target req (some trace) := by
  obtain ⟨id, req, asked⟩ := request_of_on aimed
  exact ⟨id, req, asked, fun _ _ _ => dispatch_request asked, handle_elsewhere aimed asked elsewhere,
    fun _ _ _ _ _ _ _ => attempt_carries⟩

end Routing

section Fixed

def relayDeps : SessionDeps where
  token := "secret"
  canLaunch := .ok ()
  fleet := true
  cluster := false
  joining := false
  relay := true
  debug _ := ""

/-- Another machine answers a status, and nothing else is there. -/
def relayWorld : World where
  recipes := []
  preview _ _ := .error .notReady
  launch _ _ _ := .error .notReady
  stop _ := .error .notReady
  status := .ok []
  stats _ := .error .notReady
  logs _ _ := .error .notReady
  nodes := []
  pair _ _ := .error ""
  pairAt _ _ := .error ""
  trust _ _ := .ok ()
  unpair _ := .ok false
  mint _ := none
  clusterPreview _ _ _ _ := .error ""
  clusterPrepare _ _ _ _ := .error ""
  clusterCommit _ := .error ""
  clusterStop := .error ""
  relay _ _ := .ok (.status [⟨"metrale-m", none, "Up 2 minutes"⟩], none)

theorem targeted_elsewhere_status :
    (handle relayDeps relayWorld 0 ⟨.ready, none, []⟩ (.status 7 (some 2))).calls =
      [.nodes, .relay 2 .status] := by
  obtain ⟨id, req, asked, _, sent, _⟩ := @targeted_elsewhere relayDeps relayWorld 0
    ⟨.ready, none, []⟩ (.status 7 (some 2)) 2 rfl fun n hn => absurd hn List.not_mem_nil
  cases asked
  exact (sent.sent rfl rfl).1

/-- A client that has not greeted is refused, and nothing is sent for it. -/
theorem targeted_elsewhere_ungreeted :
    ¬ ∀ (d : SessionDeps) (w : World) (now : Nat) (s : Session) (msg : ClientMsg) (target : NodeId),
      msg.on = some target → (∀ n ∈ w.nodes, n.isLocal = true → n.id ≠ target) →
        ∃ id req, msg.request = some (id, req) ∧
          Call.relay target req ∈ (handle d w now s msg).calls := by
  intro always
  obtain ⟨id, req, _, sent⟩ := always relayDeps relayWorld 0 Session.new (.status 7 (some 2)) 2 rfl
    fun n hn => absurd hn List.not_mem_nil
  cases sent

end Fixed
end Browser
end Metralectl
