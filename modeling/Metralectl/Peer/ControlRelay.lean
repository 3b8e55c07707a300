import Mathlib.Logic.Relation
import Metralectl.Fleet.Gossip
import Metralectl.Peer.RankChannel

/-!
Control requests between agents. One that is terminal is executed where it is read;
one that names a target is forwarded to it, as a terminal one, by a relay that
speaks for itself. Whose authority either rests on is read from the file of pins
when the frame is served, while any other process may write that file.

Each read of a file is a step, together with what follows from it up to the next
read or wait: nothing is awaited between the grant and the execution.
-/
namespace Metralectl
namespace Peer
open Fleet Cluster Trust Runs
open Fleet.Gossip (Hello)

def grantRefusal (sender here : NodeId) : String :=
  s!"{sender.short} is paired with {here.short} but not granted control of it. Run " ++
    s!"`metralectl peer grant-control {sender.short}` ON {here.short} to allow it."

/-- The grant check of both verbs. Pins that cannot be read refuse. -/
def grantOf (pins : Except String Pins) (sender here : NodeId) : Except String Unit :=
  match pins with
  | .error _ => .error "this agent's pin store could not be read; refusing control"
  | .ok loaded =>
      match get? loaded sender with
      | some pin => if pin.controller then .ok () else .error (grantRefusal sender here)
      | none => .error s!"{sender.short} is not paired with this machine"

abbrev Execute (σ : Type) := σ → ControlReq → Option ControlTrace → σ × Except AgentError ControlRep

def terminalControl {σ : Type} (execute : Execute σ) (s : σ) (pins : Except String Pins)
    (sender here : NodeId) (req : ControlReq) (trace : Option ControlTrace) : σ × ControlRep :=
  match grantOf pins sender here with
  | .error refusal => (s, .refused here (.controlRefused here refusal))
  | .ok () =>
      match execute s req trace with
      | (s, .ok rep) => (s, rep)
      | (s, .error error) => (s, .refused here error)

/-- A peer that did not say its highest version speaks the one it was accepted for. -/
def ensureControlCapable (hello : Hello) (peer : NodeId) : Except String Unit :=
  let versionMax := hello.versionMax.getD peerProtocolVersion
  if versionMax < 2 then
    .error (s!"{hello.name} ({peer.short}) speaks peer protocol {versionMax} and cannot carry " ++
      s!"control frames (this build speaks up to {peerProtocolMax}); upgrade it")
  else .ok ()

/-- A frame on its way from an authenticated sender. The relays a request has crossed
are a history, and are not in the frame. -/
structure Envelope where
  sender : NodeId
  receiver : NodeId
  frame : PeerFrame
  relays : List NodeId
deriving DecidableEq

/-- Where a forward has come to: each stage waits for its own read or answer. -/
inductive Stage where
  /-- The sender's grant was found. -/
  | granted
  /-- The target was found among the pins. -/
  | known
  | addressed (addr : SocketAddr)
  /-- The terminal request was written to the target. -/
  | waiting
  | answered (rep : ControlRep)
deriving DecidableEq

/-- A request for `node` that its receiver is forwarding. -/
structure Forward where
  relay : NodeId
  sender : NodeId
  node : NodeId
  req : ControlReq
  trace : Option ControlTrace
  relays : List NodeId
  stage : Stage
deriving DecidableEq

namespace Forward

def refusal (f : Forward) (detail : String) (transient : Bool) : Stage :=
  .answered (.refused f.relay (.relayRefused f.node (some f.relay) detail transient))

/-- The request this is the forward of, as it was read. -/
def received (f : Forward) : Envelope :=
  ⟨f.sender, f.relay, .controlTo f.node f.req f.trace, f.relays⟩

/-- The one frame that is ever written onward, in the relay's own name. -/
def onward (f : Forward) : Envelope :=
  ⟨f.relay, f.node, .control f.req f.trace, f.relays ++ [f.relay]⟩

/-- The target has to be a pin of the relay. -/
def afterLoad (f : Forward) : Except String Pins → Stage
  | .error _ => f.refusal "this agent's pin store could not be read" false
  | .ok pinned =>
      if (get? pinned f.node).isSome then .known
      else f.refusal (s!"{f.node.short} is not a peer of this agent; a relay only forwards to " ++
        "machines it has itself pinned") false

/-- The address is the relay's own knowledge; the frame has none. -/
def afterAddress (f : Forward) (fleet : LocalFleet) (pins : Except String Pins) (port : Nat) :
    Stage :=
  match (fleet.controlAddress pins f.node).bind (toSocket · port) with
  | some addr => .addressed addr
  | none => f.refusal s!"this agent has no known address for {f.node.short}" false

/-- A dial that failed, or reached a target that cannot carry the request, leaves
the target's state unknown. -/
def afterDial (f : Forward) (outcome : Except String Hello) : Stage :=
  match outcome.bind (ensureControlCapable · f.node) with
  | .ok () => .waiting
  | .error why => f.refusal why true

def afterAnswer (f : Forward) : Except String ControlRep → Stage
  | .ok rep => .answered rep
  | .error why => f.refusal why true

end Forward

inductive Event where
  | executed (e : Envelope)
  | forwarded (f : Forward)
  | replied (e : Envelope) (rep : ControlRep)
deriving DecidableEq

structure Machine (σ : Type) where
  file : Pins
  fleet : LocalFleet
  control : σ

structure Network (σ : Type) where
  machines : NodeId → Machine σ
  flight : List Envelope
  forwards : List Forward
  log : List Event

inductive Move where
  /-- Any peer says anything to any other. -/
  | send (sender receiver : NodeId) (frame : PeerFrame)
  /-- A frame is served, with what the read of the pins has failed with. -/
  | serve (i : Nat) (read : Option String)
  | load (i : Nat) (read : Option String)
  | address (i : Nat) (read : Option String)
  /-- A dial of the target ends, in a handshake and a hello or without them. -/
  | dial (i : Nat) (outcome : Except String Hello)
  | heard (i : Nat) (answer : Except String ControlRep)
  /-- The file and the tables of a machine become something else. -/
  | change (id : NodeId) (file : Pins) (fleet : LocalFleet)

section Steps
variable {σ : Type}

/-- What a load of the pins gives: the file, or why it could not be read. -/
def Machine.read (m : Machine σ) : Option String → Except String Pins
  | none => .ok m.file
  | some e => .error e

namespace Network

def set (net : Network σ) (id : NodeId) (m : Machine σ) : NodeId → Machine σ :=
  fun other => if other = id then m else net.machines other

/-- A forward reaches its next stage. If that is an answer, it is written back. -/
def advance (net : Network σ) (i : Nat) (f : Forward) (stage : Stage) : Network σ :=
  { net with
    forwards := net.forwards.set i { f with stage := stage }
    log := match stage with
      | .answered rep => net.log ++ [.replied f.received rep]
      | _ => net.log }

end Network

/-- A control core that leaves a trace of what it was made to execute. -/
def recorded (execute : Execute σ) (e : Envelope) : Execute (σ × List Event) :=
  fun (s, log) req trace =>
    let (s, outcome) := execute s req trace
    ((s, log ++ [.executed e]), outcome)

variable (execute : NodeId → Execute σ) (port : Nat)

/-- A frame is read by its receiver. Frames of other kinds do nothing here. -/
def serve (net : Network σ) (e : Envelope) (read : Option String) : Network σ :=
  let m := net.machines e.receiver
  match e.frame with
  | .control req trace =>
      let ((control, log), rep) := terminalControl (recorded (execute e.receiver) e)
        (m.control, net.log) (m.read read) e.sender e.receiver req trace
      { net with
        machines := net.set e.receiver { m with control := control }
        log := log ++ [.replied e rep] }
  | .controlTo node req trace =>
      let f : Forward := ⟨e.receiver, e.sender, node, req, trace, e.relays, .granted⟩
      match grantOf (m.read read) e.sender e.receiver with
      | .ok () => { net with forwards := net.forwards ++ [f] }
      | .error why =>
          let rep := .refused e.receiver (.relayRefused node (some e.receiver) why false)
          { net with
            forwards := net.forwards ++ [{ f with stage := .answered rep }]
            log := net.log ++ [.replied e rep] }
  | _ => net

/-- A dial of the target ends. The handshake finds the target pinned, or fails. -/
def dialEnds (net : Network σ) (i : Nat) (f : Forward) (outcome : Except String Hello) :
    Option (Network σ) :=
  let stage := f.afterDial outcome
  if outcome.isOk && (get? (net.machines f.relay).file f.node).isNone then none
  else if stage = .waiting then
    let net' := net.advance i f stage
    some { net' with flight := net.flight ++ [f.onward], log := net'.log ++ [.forwarded f] }
  else some (net.advance i f stage)

def step (net : Network σ) : Move → Option (Network σ)
  | .send sender receiver frame =>
      some { net with flight := net.flight ++ [⟨sender, receiver, frame, []⟩] }
  | .serve i read =>
      net.flight[i]?.map fun e => serve execute { net with flight := net.flight.eraseIdx i } e read
  | .load i read =>
      net.forwards[i]?.bind fun f =>
        match f.stage with
        | .granted => some (net.advance i f (f.afterLoad ((net.machines f.relay).read read)))
        | _ => none
  | .address i read =>
      net.forwards[i]?.bind fun f =>
        let m := net.machines f.relay
        match f.stage with
        | .known => some (net.advance i f (f.afterAddress m.fleet (m.read read) port))
        | _ => none
  | .dial i outcome =>
      net.forwards[i]?.bind fun f =>
        match f.stage with
        | .addressed _ => dialEnds net i f outcome
        | _ => none
  | .heard i answer =>
      net.forwards[i]?.bind fun f =>
        match f.stage with
        | .waiting => some (net.advance i f (f.afterAnswer answer))
        | _ => none
  | .change id file fleet =>
      some { net with machines := net.set id { net.machines id with file := file, fleet := fleet } }

def quiet (machines : NodeId → Machine σ) : Network σ := ⟨machines, [], [], []⟩

end Steps

section Authority
variable {σ : Type} (execute : NodeId → Execute σ) (port : Nat)

/-- At some moment of a run, a move is made on a network of which `P` holds. -/
def Moment (start : Network σ) (as : List Move) (P : Move → Network σ → Prop) : Prop :=
  ∃ pre a post m, as = pre ++ a :: post ∧ Run (step execute port) Free start pre m ∧ P a m

def Controls (file : Pins) (peer : NodeId) : Prop := shows file peer .controller = true

/-- This very frame is served, and its sender may control the machine that serves it. -/
def Granted (e : Envelope) (a : Move) (m : Network σ) : Prop :=
  ∃ i, a = .serve i none ∧ m.flight[i]? = some e ∧ Controls (m.machines e.receiver).file e.sender

/-- The request of the forward at a place is served at the moment the place is taken,
and its sender may control the relay. -/
def Began (i : Nat) (f : Forward) (a : Move) (m : Network σ) : Prop :=
  m.forwards.length = i ∧ Granted f.received a m

/-- The forward at a place looks for its target in the pins of its relay, and it is there. -/
def Known (i : Nat) (f : Forward) (a : Move) (m : Network σ) : Prop :=
  a = .load i none ∧ m.forwards[i]? = some { f with stage := .granted } ∧
    shows (m.machines f.relay).file f.node .pinned = true

/-- The forward at a place has reached its target, which is still pinned. -/
def Reached (i : Nat) (f : Forward) (a : Move) (m : Network σ) : Prop :=
  ∃ hello, a = .dial i (.ok hello) ∧ m.forwards[i]? = some f ∧
    shows (m.machines f.relay).file f.node .pinned = true

/-- The move that adds an event to what has happened before is made on a network of
which `P` holds. -/
def Logged (start : Network σ) (as : List Move) (before : List Event) (ev : Event)
    (P : Move → Network σ → Prop) : Prop :=
  ∃ pre a post m n rest, as = pre ++ a :: post ∧ Run (step execute port) Free start pre m ∧
    step execute port m a = some n ∧ m.log = before ∧ n.log = before ++ ev :: rest ∧ P a m

/-- One relay has forwarded what another had forwarded before. -/
def Passes (log : List Event) (first second : NodeId) : Prop :=
  ∃ f, .forwarded f ∈ log ∧ first ∈ f.relays ∧ f.relay = second

/-- What is executed is granted to its sender by the step that executes it. What is
forwarded was granted to its sender by the step that served the request it is the
forward of, its target was found among the pins of the relay after that, and is
among them when it is written. What has crossed a relay is a terminal request in
its name, from which no forward begins. -/
structure NoConfusedDeputy (start : Network σ) (as : List Move) (net : Network σ) : Prop where
  executed : ∀ before e after, net.log = before ++ Event.executed e :: after →
    Logged execute port start as before (.executed e) (Granted e) ∧
      ∃ req trace, e.frame = .control req trace
  forwarded : ∀ before f after, net.log = before ++ Event.forwarded f :: after → ∃ i,
    Moment execute port start as (Began i f) ∧ Moment execute port start as (Known i f) ∧
      Logged execute port start as before (.forwarded f) (Reached i f)
  first : ∀ f, .forwarded f ∈ net.log → f.relays = []
  onward : ∀ e, e ∈ net.flight ∨ .executed e ∈ net.log →
    e.relays = [] ∨ ∃ f, .forwarded f ∈ net.log ∧ e = f.onward
  crossed : ∀ e, e ∈ net.flight ∨ .executed e ∈ net.log → e.relays.length ≤ 1
  acyclic : ∀ relay, ¬ Relation.TransGen (Passes net.log) relay relay

/-- What each stage of the forward at a place has behind it. -/
def Forward.Checked (start : Network σ) (as : List Move) (i : Nat) (f : Forward) : Prop :=
  match f.stage with
  | .granted => Moment execute port start as (Began i f)
  | .known | .addressed _ =>
      Moment execute port start as (Began i f) ∧ Moment execute port start as (Known i f)
  | .waiting | .answered _ => True

structure Lawful (start : Network σ) (as : List Move) (net : Network σ) : Prop where
  flight : ∀ e ∈ net.flight, e.relays = [] ∨ ∃ f, .forwarded f ∈ net.log ∧ e = f.onward
  forwards : ∀ (i : Nat) f, net.forwards[i]? = some f →
    f.relays = [] ∧ f.Checked execute port start as i
  executed : ∀ before e after, net.log = before ++ Event.executed e :: after →
    (Logged execute port start as before (.executed e) (Granted e) ∧
      ∃ req trace, e.frame = .control req trace) ∧
      (e.relays = [] ∨ ∃ f, .forwarded f ∈ net.log ∧ e = f.onward)
  forwarded : ∀ before f after, net.log = before ++ Event.forwarded f :: after → f.relays = [] ∧
    ∃ i, Moment execute port start as (Began i f) ∧ Moment execute port start as (Known i f) ∧
      Logged execute port start as before (.forwarded f) (Reached i f)

section Moments
variable {execute port} {start net : Network σ} {as : List Move} {a : Move}
  {P : Move → Network σ → Prop}

theorem Moment.later (h : Moment execute port start as P) :
    Moment execute port start (as ++ [a]) P := by
  obtain ⟨pre, b, post, m, rfl, run, holds⟩ := h
  exact ⟨pre, b, post ++ [a], m, by simp, run, holds⟩

theorem Moment.now (run : Run (step execute port) Free start as net) (holds : P a net) :
    Moment execute port start (as ++ [a]) P :=
  ⟨as, a, [], net, rfl, run, holds⟩

theorem Logged.later {before : List Event} {ev : Event}
    (h : Logged execute port start as before ev P) :
    Logged execute port start (as ++ [a]) before ev P := by
  obtain ⟨pre, b, post, m, n, rest, rfl, run, holds⟩ := h
  exact ⟨pre, b, post ++ [a], m, n, rest, by simp, run, holds⟩

theorem Forward.Checked.later {i : Nat} {f : Forward} (h : f.Checked execute port start as i) :
    f.Checked execute port start (as ++ [a]) i := by
  unfold Forward.Checked at h ⊢
  split at h
  · exact Moment.later h
  · exact ⟨Moment.later h.1, Moment.later h.2⟩
  · exact ⟨Moment.later h.1, Moment.later h.2⟩
  · trivial
  · trivial

/-- An event of a longer log is one of the log, or of what it has got since. -/
theorem occurs_append {old new before after : List Event} {ev : Event}
    (h : old ++ new = before ++ ev :: after) :
    (∃ rest, old = before ++ ev :: rest) ∨
      ∃ front, before = old ++ front ∧ new = front ++ ev :: after := by
  rcases List.append_eq_append_iff.mp h with ⟨front, rfl, rfl⟩ | ⟨rest, rfl, same⟩
  · exact Or.inr ⟨front, rfl, rfl⟩
  · cases rest with
    | nil => exact Or.inr ⟨[], by simp, by simpa using same.symm⟩
    | cons head rest =>
        cases same
        exact Or.inl ⟨rest, rfl⟩

end Moments

section Invariant
variable {execute port} {start net n : Network σ} {as : List Move} {a : Move}

/-- A grant is found in the file that was read, at the moment it is read. -/
theorem grantOf_ok {m : Machine σ} {read : Option String} {sender here : NodeId}
    (h : grantOf (m.read read) sender here = .ok ()) :
    read = none ∧ Controls m.file sender := by
  cases read with
  | some e => cases h
  | none =>
      refine ⟨rfl, ?_⟩
      cases found : get? m.file sender with
      | none => simp [grantOf, Machine.read, found] at h
      | some pin =>
          simp only [grantOf, Machine.read, found] at h
          split at h
          · next controls => simpa [Controls, shows, found, Right.of] using controls
          · cases h

/-- A terminal request leaves a trace only if its sender was granted. -/
theorem terminalControl_log (run : Execute σ) (e : Envelope) (s : σ) (log : List Event)
    (pins : Except String Pins) (sender here : NodeId) (req : ControlReq)
    (trace : Option ControlTrace) :
    (terminalControl (recorded run e) (s, log) pins sender here req trace).1.2 = log ∨
      grantOf pins sender here = .ok () ∧
        (terminalControl (recorded run e) (s, log) pins sender here req trace).1.2 =
          log ++ [Event.executed e] := by
  cases granted : grantOf pins sender here with
  | error why =>
      left
      simp only [terminalControl, granted]
  | ok _ =>
      right
      cases outcome : (run s req trace).2 with
      | ok rep => simp [terminalControl, granted, recorded, outcome]
      | error why => simp [terminalControl, granted, recorded, outcome]

/-- A move keeps everything lawful if what it adds is. Of what it logs only the first
event may be an execution or a forward. -/
theorem Lawful.grow (run : Run (step execute port) Free start as net)
    (hs : step execute port net a = some n) (h : Lawful execute port start as net)
    (added : List Event) (log : n.log = net.log ++ added)
    (flight : ∀ e ∈ n.flight, e ∈ net.flight ∨ e.relays = [] ∨
      ∃ f, .forwarded f ∈ n.log ∧ e = f.onward)
    (forwards : ∀ (i : Nat) f, n.forwards[i]? = some f → net.forwards[i]? = some f ∨
      f.relays = [] ∧ f.Checked execute port start (as ++ [a]) i)
    (executed : ∀ (front : List Event) (e : Envelope) (after : List Event),
      added = front ++ Event.executed e :: after → front = [] ∧ Granted e a net ∧
        (∃ req trace, e.frame = .control req trace) ∧ e ∈ net.flight)
    (forwarded : ∀ (front : List Event) (f : Forward) (after : List Event),
      added = front ++ Event.forwarded f :: after → front = [] ∧ f.relays = [] ∧
        ∃ i, Moment execute port start (as ++ [a]) (Began i f) ∧
          Moment execute port start (as ++ [a]) (Known i f) ∧ Reached i f a net) :
    Lawful execute port start (as ++ [a]) n := by
  have older : ∀ e : Envelope, (e.relays = [] ∨ ∃ f, .forwarded f ∈ net.log ∧ e = f.onward) →
      e.relays = [] ∨ ∃ f, .forwarded f ∈ n.log ∧ e = f.onward := by
    intro e he
    cases he with
    | inl direct => exact Or.inl direct
    | inr relayed =>
        obtain ⟨f, logged, same⟩ := relayed
        exact Or.inr ⟨f, log ▸ List.mem_append_left _ logged, same⟩
  have logged {ev : Event} {after : List Event} {P : Move → Network σ → Prop}
      (is : added = [] ++ ev :: after) (holds : P a net) :
      Logged execute port start (as ++ [a]) (net.log ++ []) ev P :=
    ⟨as, a, [], net, n, after, rfl, run, hs, by simp, by rw [log, is]; simp, holds⟩
  refine ⟨fun e member => ?_, fun i f there => ?_, fun before e after has => ?_,
    fun before f after has => ?_⟩
  · cases flight e member with
    | inl old => exact older e (h.flight e old)
    | inr new => exact new
  · cases forwards i f there with
    | inl old => exact ⟨(h.forwards i f old).1, (h.forwards i f old).2.later⟩
    | inr new => exact new
  · obtain ⟨rest, old⟩ | ⟨front, rfl, new⟩ := occurs_append (log.symm.trans has)
    · obtain ⟨⟨granted, terminal⟩, from_⟩ := h.executed before e rest old
      exact ⟨⟨granted.later, terminal⟩, older e from_⟩
    · obtain ⟨rfl, granted, terminal, flying⟩ := executed front e after new
      exact ⟨⟨logged new granted, terminal⟩, older e (h.flight e flying)⟩
  · obtain ⟨rest, old⟩ | ⟨front, rfl, new⟩ := occurs_append (log.symm.trans has)
    · obtain ⟨first, i, began, known, reached⟩ := h.forwarded before f rest old
      exact ⟨first, i, began.later, known.later, reached.later⟩
    · obtain ⟨rfl, first, i, began, known, reached⟩ := forwarded front f after new
      exact ⟨first, i, began, known, logged new reached⟩

/-- Nothing that is logged besides the replies. -/
theorem Lawful.quiet (run : Run (step execute port) Free start as net)
    (hs : step execute port net a = some n) (h : Lawful execute port start as net)
    (added : List Event) (log : n.log = net.log ++ added) (replies : ∀ ev ∈ added, ∃ e rep, ev = .replied e rep)
    (flight : ∀ e ∈ n.flight, e ∈ net.flight ∨ e.relays = [])
    (forwards : ∀ (i : Nat) f, n.forwards[i]? = some f → net.forwards[i]? = some f ∨
      f.relays = [] ∧ f.Checked execute port start (as ++ [a]) i) :
    Lawful execute port start (as ++ [a]) n := by
  refine h.grow run hs added log (fun e member => (flight e member).imp id Or.inl) forwards ?_ ?_
  · rintro front e after rfl
    obtain ⟨_, _, is⟩ := replies (.executed e) (by simp)
    cases is
  · rintro front f after rfl
    obtain ⟨_, _, is⟩ := replies (.forwarded f) (by simp)
    cases is

/-- Serving a terminal request executes it for a sender that is granted, or not at all. -/
theorem serve_control {i : Nat} {read : Option String} {e : Envelope} {req : ControlReq}
    {trace : Option ControlTrace} (run : Run (step execute port) Free start as net)
    (hs : step execute port net (.serve i read) =
      some (serve execute { net with flight := net.flight.eraseIdx i } e read))
    (h : Lawful execute port start as net) (there : net.flight[i]? = some e)
    (terminal : e.frame = .control req trace) :
    Lawful execute port start (as ++ [Move.serve i read])
      (serve execute { net with flight := net.flight.eraseIdx i } e read) := by
  have fewer : ∀ e' ∈ net.flight.eraseIdx i, e' ∈ net.flight := fun _ => List.mem_of_mem_eraseIdx
  let ended := terminalControl (recorded (execute e.receiver) e)
    ((net.machines e.receiver).control, net.log) ((net.machines e.receiver).read read) e.sender
    e.receiver req trace
  cases terminalControl_log (execute e.receiver) e (net.machines e.receiver).control net.log
    ((net.machines e.receiver).read read) e.sender e.receiver req trace with
  | inl same =>
      refine h.quiet run hs [.replied e ended.2] ?_ (by simp) ?_ ?_
      · simp only [serve, terminal, same, ended]
      · simp only [serve, terminal]
        exact fun e' member => Or.inl (fewer e' member)
      · simp only [serve, terminal]
        exact fun j f at_ => Or.inl at_
  | inr more =>
      obtain ⟨rfl, controls⟩ := grantOf_ok more.1
      refine h.grow run hs [.executed e, .replied e ended.2] ?_ ?_ ?_ ?_ ?_
      · simp only [serve, terminal, more.2, ended, List.append_assoc, List.cons_append,
          List.nil_append]
      · simp only [serve, terminal]
        exact fun e' member => Or.inl (fewer e' member)
      · simp only [serve, terminal]
        exact fun j f at_ => Or.inl at_
      · intro front e' after has
        obtain ⟨rfl, rfl⟩ : front = [] ∧ e = e' := by
          cases front with
          | nil => simpa using (List.cons.inj has).1
          | cons _ front => cases front <;> simp at has
        exact ⟨rfl, ⟨i, rfl, there, controls⟩, ⟨req, trace, terminal⟩, List.mem_of_getElem? there⟩
      · intro front f after has
        rcases front with _ | ⟨_, _ | ⟨_, front⟩⟩ <;> simp at has

/-- Serving a request for another machine begins a forward for a sender that is
granted, of a request that has crossed no relay. -/
theorem serve_controlTo {i : Nat} {read : Option String} {e : Envelope} {node : NodeId}
    {req : ControlReq} {trace : Option ControlTrace}
    (run : Run (step execute port) Free start as net)
    (hs : step execute port net (.serve i read) =
      some (serve execute { net with flight := net.flight.eraseIdx i } e read))
    (h : Lawful execute port start as net) (there : net.flight[i]? = some e)
    (relayed : e.frame = .controlTo node req trace) :
    Lawful execute port start (as ++ [Move.serve i read])
      (serve execute { net with flight := net.flight.eraseIdx i } e read) := by
  have fewer : ∀ e' ∈ net.flight.eraseIdx i, e' ∈ net.flight := fun _ => List.mem_of_mem_eraseIdx
  have first : e.relays = [] := by
    cases h.flight e (List.mem_of_getElem? there) with
    | inl direct => exact direct
    | inr onward =>
        obtain ⟨f, _, rfl⟩ := onward
        cases relayed
  cases granted : grantOf ((net.machines e.receiver).read read) e.sender e.receiver with
  | ok _ =>
      obtain ⟨rfl, controls⟩ := grantOf_ok granted
      refine h.quiet run hs [] ?_ (by simp) ?_ ?_
      · simp only [serve, relayed, granted, List.append_nil]
      · simp only [serve, relayed, granted]
        exact fun e' member => Or.inl (fewer e' member)
      · intro j f at_
        simp only [serve, relayed, granted, List.getElem?_append] at at_
        split at at_
        · exact Or.inl at_
        · next full =>
            obtain ⟨inside, is⟩ := List.getElem?_eq_some_iff.mp at_
            obtain rfl : j = net.forwards.length := by
              simp only [List.length_singleton] at inside
              omega
            simp only [Nat.sub_self, List.getElem_cons_zero] at is
            subst is
            refine Or.inr ⟨first, .now run ⟨rfl, i, rfl, ?_, controls⟩⟩
            rw [there, Forward.received, ← relayed]
  | error why =>
      refine h.quiet run hs [.replied e
        (.refused e.receiver (.relayRefused node (some e.receiver) why false))] ?_ (by simp) ?_ ?_
      · simp only [serve, relayed, granted]
      · simp only [serve, relayed, granted]
        exact fun e' member => Or.inl (fewer e' member)
      · intro j f at_
        simp only [serve, relayed, granted, List.getElem?_append] at at_
        split at at_
        · exact Or.inl at_
        · obtain ⟨inside, is⟩ := List.getElem?_eq_some_iff.mp at_
          simp only [List.getElem_singleton] at is
          subst is
          exact Or.inr ⟨first, trivial⟩

theorem getElem?_advance {i j : Nat} {f g : Forward} {stage : Stage}
    (at_ : (net.advance i f stage).forwards[j]? = some g) :
    net.forwards[j]? = some g ∨ (j = i ∧ g = { f with stage := stage }) := by
  simp only [Network.advance, List.getElem?_set] at at_
  split at at_
  · next same =>
      split at at_
      · exact Or.inr ⟨same.symm, (Option.some.inj at_).symm⟩
      · cases at_
  · exact Or.inl at_

theorem advance_lawful {i : Nat} {f : Forward} {stage : Stage}
    (run : Run (step execute port) Free start as net)
    (hs : step execute port net a = some (net.advance i f stage))
    (h : Lawful execute port start as net) (there : net.forwards[i]? = some f)
    (checked : Forward.Checked execute port start (as ++ [a]) i { f with stage := stage }) :
    Lawful execute port start (as ++ [a]) (net.advance i f stage) := by
  have forwards : ∀ (j : Nat) g, (net.advance i f stage).forwards[j]? = some g →
      net.forwards[j]? = some g ∨ g.relays = [] ∧ g.Checked execute port start (as ++ [a]) j := by
    intro j g at_
    cases getElem?_advance at_ with
    | inl old => exact Or.inl old
    | inr new =>
        obtain ⟨rfl, rfl⟩ := new
        exact Or.inr ⟨(h.forwards j f there).1, checked⟩
  cases stage with
  | answered rep =>
      exact h.quiet run hs [.replied f.received rep] rfl (by simp)
        (fun _ old => Or.inl old) forwards
  | granted | known | addressed | waiting =>
      exact h.quiet run hs [] (List.append_nil _).symm (by simp)
        (fun _ old => Or.inl old) forwards

theorem afterDial_waiting {f : Forward} {outcome : Except String Hello}
    (h : f.afterDial outcome = .waiting) : ∃ hello, outcome = .ok hello := by
  cases outcome with
  | error e => cases h
  | ok hello => exact ⟨hello, rfl⟩

/-- Only a forward whose checks are behind it, and whose target is still pinned, has
its request written onward. -/
theorem dialEnds_lawful {i : Nat} {f : Forward} {addr : SocketAddr}
    {outcome : Except String Hello} (run : Run (step execute port) Free start as net)
    (hs : step execute port net (.dial i outcome) = some n)
    (h : Lawful execute port start as net) (there : net.forwards[i]? = some f)
    (addressed : f.stage = .addressed addr) (hd : dialEnds net i f outcome = some n) :
    Lawful execute port start (as ++ [.dial i outcome]) n := by
  obtain ⟨first, checked⟩ := h.forwards i f there
  rw [Forward.Checked, addressed] at checked
  simp only [dialEnds] at hd
  split at hd
  · cases hd
  · next handshake =>
      split at hd
      · next waiting =>
          obtain ⟨hello, rfl⟩ := afterDial_waiting waiting
          rw [waiting] at hd
          have pinned : shows (net.machines f.relay).file f.node .pinned = true := by
            have known : get? (net.machines f.relay).file f.node ≠ none := by
              simpa [Except.isOk, Except.toBool] using handshake
            simpa [shows, Right.of] using Option.isSome_iff_ne_none.mpr known
          cases hd
          refine h.grow run hs [Event.forwarded f] rfl ?_ ?_ ?_ ?_
          · intro e at_
            cases List.mem_append.mp at_ with
            | inl old => exact Or.inl old
            | inr new =>
                exact Or.inr (Or.inr ⟨f, List.mem_append_right _ List.mem_cons_self,
                  List.mem_singleton.mp new⟩)
          · intro j g at_
            cases getElem?_advance at_ with
            | inl old => exact Or.inl old
            | inr new =>
                obtain ⟨rfl, rfl⟩ := new
                exact Or.inr ⟨first, trivial⟩
          · intro front e after has
            rcases front with _ | ⟨_, front⟩ <;> simp at has
          · intro front g after has
            obtain ⟨rfl, rfl⟩ : front = [] ∧ f = g := by
              cases front with
              | nil => simpa using (List.cons.inj has).1
              | cons _ front => simp at has
            exact ⟨rfl, first, i, checked.1.later, checked.2.later, hello, rfl, there, pinned⟩
      · next stopped =>
          cases hd
          refine advance_lawful run hs h there ?_
          cases outcome with
          | error why => trivial
          | ok hello =>
              cases capable : ensureControlCapable hello f.node with
              | error why =>
                  simp [Forward.Checked, Forward.afterDial, Except.bind, capable, Forward.refusal]
              | ok _ => simp [Forward.afterDial, Except.bind, capable] at stopped

theorem Lawful.step (run : Run (Peer.step execute port) Free start as net)
    (h : Lawful execute port start as net) (hs : Peer.step execute port net a = some n) :
    Lawful execute port start (as ++ [a]) n := by
  have made := hs
  cases a with
  | send sender receiver frame =>
      cases hs
      refine h.quiet run made [] (List.append_nil _).symm (by simp) ?_
        (fun _ _ old => Or.inl old)
      intro e member
      cases List.mem_append.mp member with
      | inl old => exact Or.inl old
      | inr new => exact Or.inr (List.mem_singleton.mp new ▸ rfl)
  | serve i read =>
      obtain ⟨e, there, rfl⟩ := Option.map_eq_some_iff.mp hs
      cases frame : e.frame with
      | control req trace => exact serve_control run made h there frame
      | controlTo node req trace => exact serve_controlTo run made h there frame
      | previewRank | rankPreviewed | rankRefused | prepare | prepared | commit | committed
      | abort | aborted | isRankAlive | rankLiveness | stopRank | rankStopped | vitals
      | controlReply | other =>
          refine h.quiet run made [] ?_ (by simp) ?_ ?_
          · simp only [serve, frame, List.append_nil]
          · simp only [serve, frame]
            exact fun _ member => Or.inl (List.mem_of_mem_eraseIdx member)
          · simp only [serve, frame]
            exact fun _ _ old => Or.inl old
  | load i read =>
      obtain ⟨f, there, hs⟩ := Option.bind_eq_some_iff.mp hs
      cases stage : f.stage with
      | known | addressed | waiting | answered => simp [stage] at hs
      | granted =>
          simp only [stage, Option.some.injEq] at hs
          subst hs
          have checked := (h.forwards i f there).2
          rw [Forward.Checked, stage] at checked
          refine advance_lawful run made h there ?_
          cases read with
          | some e => trivial
          | none =>
              simp only [Machine.read, Forward.afterLoad]
              split
              · next pinned =>
                  have same : { f with stage := .granted } = f := by rw [← stage]
                  refine ⟨Moment.later checked, .now run ⟨rfl, same ▸ there, ?_⟩⟩
                  simpa [shows, Right.of] using pinned
              · trivial
  | address i read =>
      obtain ⟨f, there, hs⟩ := Option.bind_eq_some_iff.mp hs
      cases stage : f.stage with
      | granted | addressed | waiting | answered => simp [stage] at hs
      | known =>
          simp only [stage, Option.some.injEq] at hs
          subst hs
          have checked := (h.forwards i f there).2
          rw [Forward.Checked, stage] at checked
          refine advance_lawful run made h there ?_
          unfold Forward.afterAddress
          split
          · exact ⟨Moment.later checked.1, Moment.later checked.2⟩
          · trivial
  | dial i outcome =>
      obtain ⟨f, there, hs⟩ := Option.bind_eq_some_iff.mp hs
      cases stage : f.stage with
      | granted | known | waiting | answered => simp [stage] at hs
      | addressed addr =>
          simp only [stage] at hs
          exact dialEnds_lawful run made h there stage hs
  | heard i answer =>
      obtain ⟨f, there, hs⟩ := Option.bind_eq_some_iff.mp hs
      cases stage : f.stage with
      | granted | known | addressed | answered => simp [stage] at hs
      | waiting =>
          simp only [stage, Option.some.injEq] at hs
          subst hs
          refine advance_lawful run made h there ?_
          cases answer <;> trivial
  | change id file fleet =>
      cases hs
      exact h.quiet run made [] (List.append_nil _).symm (by simp)
        (fun _ old => Or.inl old) (fun _ _ old => Or.inl old)

theorem Lawful.deputies (h : Lawful execute port start as net) :
    NoConfusedDeputy execute port start as net := by
  have first : ∀ f, .forwarded f ∈ net.log → f.relays = [] := by
    intro f logged
    obtain ⟨before, after, has⟩ := List.append_of_mem logged
    exact (h.forwarded before f after has).1
  have onward : ∀ e, e ∈ net.flight ∨ .executed e ∈ net.log →
      e.relays = [] ∨ ∃ f, .forwarded f ∈ net.log ∧ e = f.onward := by
    intro e he
    cases he with
    | inl flying => exact h.flight e flying
    | inr executed =>
        obtain ⟨before, after, has⟩ := List.append_of_mem executed
        exact (h.executed before e after has).2
  have unpassed : ∀ earlier later, ¬ Passes net.log earlier later := by
    rintro earlier later ⟨f, logged, before, _⟩
    rw [first f logged] at before
    cases before
  refine ⟨fun before e after has => (h.executed before e after has).1,
    fun before f after has => (h.forwarded before f after has).2, first, onward, fun e he => ?_,
    fun relay cycle => ?_⟩
  · cases onward e he with
    | inl direct => simp [direct]
    | inr relayed =>
        obtain ⟨f, logged, rfl⟩ := relayed
        simp [Forward.onward, first f logged]
  · cases cycle with
    | single once => exact unpassed _ _ once
    | tail _ last => exact unpassed _ _ last

end Invariant

/-- No confused deputy, in any network that starts with nothing said. -/
theorem noConfusedDeputy {machines : NodeId → Machine σ} {as : List Move} {net : Network σ}
    (run : Run (step execute port) Free (quiet machines) as net) :
    NoConfusedDeputy execute port (quiet machines) as net := by
  have lawful : Lawful execute port (quiet machines) as net := by
    refine Path.history run ⟨?_, ?_, ?_, ?_⟩ fun pre m a n before here hstep =>
      here.step before hstep.2
    · exact fun _ nothing => nomatch nothing
    · exact fun _ _ nothing => nomatch nothing
    · intro before e after has
      cases before <;> cases has
    · intro before f after has
      cases before <;> cases has
  exact lawful.deputies

end Authority

section Fixed

def idle (_ : NodeId) : Execute Unit := fun s _ _ => (s, .ok (.status []))

/-- The second machine lets the first control it, and the third lets the second. -/
def chain (id : NodeId) : Machine Unit :=
  let file : Pins :=
    if id = 1 then
      [⟨0, "", "laptop", 0, none, true, false⟩, ⟨2, "", "dgx2", 0, some "10.0.0.2", false, false⟩]
    else if id = 2 then [⟨1, "", "dgx1", 0, none, true, false⟩]
    else []
  ⟨file, { LocalFleet.alone with id := id }, ()⟩

/-- A request of the first reaches the third over the second. -/
def oneHop : List Move :=
  [.send 0 1 (.controlTo 2 .status none), .serve 0 none, .load 0 none, .address 0 none,
    .dial 0 (.ok ⟨"dgx2", true, "", "linux", [], some 3, none⟩), .serve 0 none]

theorem noConfusedDeputy_oneHop : ∃ net,
    Run (step idle 34334) Free (quiet chain) oneHop net ∧
      .executed ⟨1, 2, .control .status none, [1]⟩ ∈ net.log ∧
        NoConfusedDeputy idle 34334 (quiet chain) oneHop net := by
  have run : ∃ net, Run (step idle 34334) Free (quiet chain) oneHop net ∧
      .executed ⟨1, 2, .control .status none, [1]⟩ ∈ net.log :=
    ⟨_, .cons ⟨trivial, rfl⟩ (.cons ⟨trivial, rfl⟩ (.cons ⟨trivial, rfl⟩ (.cons ⟨trivial, rfl⟩
      (.cons ⟨trivial, rfl⟩ (.cons ⟨trivial, rfl⟩ (.nil _)))))), by decide⟩
  obtain ⟨net, run, executed⟩ := run
  exact ⟨net, run, executed, noConfusedDeputy idle 34334 run⟩

end Fixed

end Peer
end Metralectl
