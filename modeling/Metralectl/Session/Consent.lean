import Metralectl.Library.Runs
import Metralectl.Session.Session

/-!
Consent to a pairing, over everything a client may send on one connection. The
slot of the session is tied to the history: it holds the outcome of the newest
exchange, and only as long as nothing was decided since.
-/
namespace Metralectl
namespace Browser
open Runs

inductive Frame where
  | msg (m : ClientMsg)
  | malformed (detail : String)

/-- A frame as it arrives, with what the dependencies answer to it and when. -/
structure Input where
  world : World
  now : Nat
  frame : Frame

structure Entry where
  now : Nat
  frame : Frame
  calls : List Call

/-- A session and, of every frame so far, what it made the session ask. -/
structure Conversation where
  session : Session
  log : List Entry

def react (d : SessionDeps) (s : Session) (i : Input) : Handled :=
  match i.frame with
  | .msg m => handle d i.world i.now s m
  | .malformed detail => onMalformed s detail

def receive (d : SessionDeps) (c : Conversation) (i : Input) : Option Conversation :=
  let handled := react d c.session i
  some ⟨handled.session, c.log ++ [⟨i.now, i.frame, handled.calls⟩]⟩

def opened : Conversation := ⟨.new, []⟩

/-- The messages that begin an exchange or decide on one. -/
def ClientMsg.decides : ClientMsg → Bool
  | .pairPeer _ _ _ | .pairPeerAt _ _ _ | .confirmPairing _ _ _ | .rejectPairing _ _ => true
  | _ => false

def Frame.Decides : Frame → Prop
  | .msg m => m.decides = true
  | .malformed _ => False

/-- The session was told of an exchange that completed, with this outcome. -/
def Exchanged (calls : List Call) (o : PairOutcome) : Prop :=
  (∃ node code, .pair node code (.ok o) ∈ calls) ∨
    ∃ address code, .pairAt address code (.ok o) ∈ calls

/-- The newest exchange of a history ended in this outcome, and nothing was begun or
decided since. -/
def Latest (log : List Entry) (o : PairOutcome) (at_ : Nat) : Prop :=
  ∃ (early : List Entry) (p : Entry) (mid : List Entry),
    log = early ++ p :: mid ∧ Exchanged p.calls o ∧ p.now = at_ ∧
    ∀ q ∈ mid, ¬ q.frame.Decides

/-- What consent asks of a history. -/
structure Consented (d : SessionDeps) (log : List Entry) : Prop where
  /-- Trust is a client's own confirmation of the newest exchange, in time. -/
  trusted : ∀ (pre : List Entry) (e : Entry) (post : List Entry) (o : PairOutcome) (allow : Bool),
    log = pre ++ e :: post → Call.trust o allow ∈ e.calls →
    (∃ id, e.frame = .msg (.confirmPairing id o.node allow)) ∧ e.calls = [.trust o allow] ∧
      ∃ at_, Latest pre o at_ ∧ e.now < at_ + pendingPairingTtl
  /-- Between two of them an exchange completes. -/
  once : ∀ (pre : List Entry) (e : Entry) (mid : List Entry) (e' : Entry) (post : List Entry)
    (o o' : PairOutcome) (allow allow' : Bool), log = pre ++ e :: (mid ++ e' :: post) →
    Call.trust o allow ∈ e.calls → Call.trust o' allow' ∈ e'.calls →
    ∃ p ∈ mid, Exchanged p.calls o'
  /-- Before the right hello nothing is asked but what a hello asks. -/
  silent : ∀ (pre : List Entry) (e : Entry) (post : List Entry), log = pre ++ e :: post →
    e.calls ≠ [] →
    (∃ version token, e.frame = .msg (.hello version token)) ∨
      ∃ p ∈ pre, p.frame = .msg (.hello protocolVersion d.token)

section Steps
variable {d : SessionDeps} {w : World} {now : Nat} {s : Session} {h : Handled}

/-- Nothing is decided: the phase and the slot stay, and nobody is trusted. -/
structure Quiet (s : Session) (h : Handled) : Prop where
  phase : h.session.phase = s.phase
  slot : h.session.pendingPairing = s.pendingPairing
  calls : ∀ o allow, .trust o allow ∉ h.calls

theorem Quiet.given (quiet : Quiet s h) (there : Bool) (id : Nat) :
    Quiet s (given s there id h) := by
  cases there with
  | true => exact quiet
  | false => exact ⟨rfl, rfl, fun _ _ member => by cases member⟩

theorem core_quiet {α : Type} (id : Nat) (req : ControlReq) (answer : Except AgentError α)
    (reply : α → ServerMsg) : Quiet s (core s id req answer reply) := by
  cases answer <;> exact ⟨rfl, rfl, by simp [core]⟩

theorem noteDenied_phase (e : AgentError) : (s.noteDenied e).phase = s.phase := by
  unfold Session.noteDenied
  split <;> rfl

theorem noteDenied_slot (e : AgentError) :
    (s.noteDenied e).pendingPairing = s.pendingPairing := by
  unfold Session.noteDenied
  split <;> rfl

theorem coreWith_quiet {α : Type} (id : Nat) (req : ControlReq) (answer : Except AgentError α)
    (reply : α → ServerMsg) : Quiet s (coreWith s id req answer reply) := by
  cases answer with
  | ok a => exact ⟨rfl, rfl, by simp [coreWith]⟩
  | error e => exact ⟨noteDenied_phase e, noteDenied_slot e, by simp [coreWith]⟩

theorem askLocal_calls {o : PairOutcome} {allow : Bool} : .trust o allow ∉ askLocal d := by
  unfold askLocal
  split <;> simp

theorem mintJoin_quiet (id : Nat) (allow : Bool) : Quiet s (mintJoin d w s id allow) := by
  unfold mintJoin
  refine Quiet.given ?_ _ _
  cases w.mint allow with
  | none => exact ⟨rfl, rfl, by simp⟩
  | some code => exact ⟨rfl, rfl, fun o allow => by simp [askLocal_calls]⟩

/-- A message that decides nothing leaves the exchange as it is. -/
theorem dispatch_quiet {m : ClientMsg} (plain : m.decides = false) :
    Quiet s (dispatch d w now s m) := by
  cases m with
  | pairPeer _ _ _ | pairPeerAt _ _ _ | confirmPairing _ _ _ | rejectPairing _ _ => cases plain
  | hello _ _ | listRecipes _ _ => exact ⟨rfl, rfl, by simp [dispatch]⟩
  | preview _ _ _ _ | launch _ _ _ _ => exact coreWith_quiet _ _ _ _
  | stop _ _ _ | status _ _ | launchStats _ _ _ | launchLogs _ _ _ _ =>
      exact core_quiet _ _ _ _
  | listNodes _ | watchFleet _ _ => exact ⟨rfl, rfl, fun _ _ => askLocal_calls⟩
  | mintJoinCode id allow => exact mintJoin_quiet id allow
  | revokeJoinCode _ =>
      refine ⟨rfl, rfl, ?_⟩
      simp only [dispatch, revokeJoin]
      split <;> simp
  | unpairPeer _ _ | previewCluster _ _ _ _ _ | prepareCluster _ _ _ _ _ | commitCluster _ _
  | abortCluster _ _ | stopCluster _ =>
      refine Quiet.given ?_ _ _
      exact ⟨rfl, rfl, by simp⟩

theorem forward_calls (id : Nat) (target : NodeId) (req : ControlReq) {o : PairOutcome}
    {allow : Bool} : .trust o allow ∉ (forward d w id target req).1 := by
  unfold forward
  split <;> simp

theorem asRemote_plain {m : ClientMsg} (decides : m.decides = true) : asRemote m = none := by
  cases m <;> first | rfl | cases decides

theorem route_quiet {m : ClientMsg} (plain : m.decides = false) :
    Quiet s (route d w now s m) := by
  unfold route
  cases asRemote m with
  | none => exact dispatch_quiet plain
  | some aimed =>
      obtain ⟨id, target, req⟩ := aimed
      by_cases here : isLocalNode d w target = true
      · simp only [here, if_true]
        have quiet : Quiet s (dispatch d w now s m) := dispatch_quiet plain
        exact ⟨quiet.phase, quiet.slot, fun o allow => by
          simp [askLocal_calls, quiet.calls o allow]⟩
      · simp only [here]
        exact ⟨rfl, rfl, fun o allow => by
          simp [askLocal_calls, forward_calls id target req]⟩

theorem route_decides {m : ClientMsg} (decides : m.decides = true) :
    route d w now s m = dispatch d w now s m := by
  simp only [route, asRemote_plain decides]

/-- What a message does to the exchange that is held, and what it is trusted for. -/
inductive Outcome (d : SessionDeps) (now : Nat) (s : Session) : ClientMsg → Handled → Prop
  | quiet {m h} : m.decides = false → Quiet s h → Outcome d now s m h
  /-- There is no fleet to pair with. -/
  | unavailable {m h} : d.fleet = false → Quiet s h → Outcome d now s m h
  | exchanged {m h} (o : PairOutcome) : d.fleet = true → h.session.phase = s.phase →
      h.session.pendingPairing = some ⟨o, now + pendingPairingTtl⟩ → Exchanged h.calls o →
      (∀ o allow, .trust o allow ∉ h.calls) → Outcome d now s m h
  | spent {m h} : h.session.phase = s.phase → h.session.pendingPairing = none →
      (∀ o allow, .trust o allow ∉ h.calls) → Outcome d now s m h
  | trusted {id allow h} (pending : PendingPairing) : s.pendingPairing = some pending →
      now < pending.expiresAt → h.session.phase = s.phase → h.session.pendingPairing = none →
      h.calls = [.trust pending.outcome allow] →
      Outcome d now s (.confirmPairing id pending.outcome.node allow) h

theorem pair_outcome (id : Nat) (node : NodeId) (code : String) :
    Outcome d now s (.pairPeer id node code) (pair d w now s id node code) := by
  cases fleet : d.fleet with
  | false =>
      refine .unavailable fleet ?_
      simp only [pair, given, fleet]
      exact ⟨rfl, rfl, by simp⟩
  | true =>
      cases result : w.pair node code with
      | ok o =>
          simp only [pair, given, fleet, result]
          exact .exchanged o fleet rfl rfl (Or.inl ⟨node, code, List.mem_cons_self⟩) (by simp)
      | error e =>
          simp only [pair, given, fleet, result]
          exact .spent rfl rfl (by simp)

theorem pairAt_outcome (id : Nat) (address code : String) :
    Outcome d now s (.pairPeerAt id address code) (pairAt d w now s id address code) := by
  cases fleet : d.fleet with
  | false =>
      refine .unavailable fleet ?_
      simp only [pairAt, given, fleet]
      exact ⟨rfl, rfl, by simp⟩
  | true =>
      cases result : w.pairAt address code with
      | ok o =>
          simp only [pairAt, given, fleet, result]
          exact .exchanged o fleet rfl rfl (Or.inr ⟨address, code, List.mem_cons_self⟩) (by simp)
      | error e =>
          simp only [pairAt, given, fleet, result]
          exact .spent rfl rfl (by simp)

theorem confirmPairing_outcome (id : Nat) (node : NodeId) (allow : Bool) :
    Outcome d now s (.confirmPairing id node allow) (confirmPairing d w now s id node allow) := by
  unfold confirmPairing
  cases held : s.pendingPairing with
  | none => exact .spent rfl rfl (by simp)
  | some pending =>
      simp only
      split
      · exact .spent rfl rfl (by simp)
      · next same =>
          split
          · exact .spent rfl rfl (by simp)
          · next live =>
              obtain rfl := not_not.mp same
              cases fleet : d.fleet with
              | false => exact .spent rfl rfl (by simp [given])
              | true => exact .trusted pending held (Nat.not_le.mp live) rfl rfl rfl

theorem route_outcome (m : ClientMsg) : Outcome d now s m (route d w now s m) := by
  cases decides : m.decides with
  | false => exact .quiet decides (route_quiet decides)
  | true =>
      rw [route_decides decides]
      cases m with
      | pairPeer id node code => exact pair_outcome id node code
      | pairPeerAt id address code => exact pairAt_outcome id address code
      | confirmPairing id node allow => exact confirmPairing_outcome id node allow
      | rejectPairing id node => exact .spent rfl rfl (by simp [dispatch, rejectPairing])
      | _ => cases decides

end Steps

section Histories
variable {d : SessionDeps} {log pre post : List Entry} {e : Entry} {c c' : Conversation}

/-- The last of a history is the new entry, or was there before it. -/
theorem split_append {x : Entry} (h : log ++ [e] = pre ++ x :: post) :
    (pre = log ∧ x = e ∧ post = []) ∨ ∃ rest, post = rest ++ [e] ∧ log = pre ++ x :: rest := by
  cases List.eq_nil_or_concat post with
  | inl none =>
      subst none
      obtain ⟨rfl, last⟩ := List.append_inj' h rfl
      cases last
      exact Or.inl ⟨rfl, rfl, rfl⟩
  | inr more =>
      obtain ⟨rest, y, rfl⟩ := more
      rw [List.concat_eq_append, ← List.cons_append, ← List.append_assoc] at h
      obtain ⟨rfl, last⟩ := List.append_inj' h rfl
      cases last
      exact Or.inr ⟨rest, List.concat_eq_append, rfl⟩

theorem Latest.quiet {o : PairOutcome} {at_ : Nat} (latest : Latest log o at_)
    (plain : ¬ e.frame.Decides) : Latest (log ++ [e]) o at_ := by
  obtain ⟨early, p, mid, rfl, exchanged, clock, undecided⟩ := latest
  refine ⟨early, p, mid ++ [e], by simp, exchanged, clock, ?_⟩
  intro q member
  cases List.mem_append.mp member with
  | inl old => exact undecided q old
  | inr new => exact List.mem_singleton.mp new ▸ plain

theorem Latest.new {o : PairOutcome} (exchanged : Exchanged e.calls o) :
    Latest (log ++ [e]) o e.now :=
  ⟨log, e, [], rfl, exchanged, rfl, by simp⟩

/-- An exchange does not itself trust anybody, so it came after an entry that did and
that decided. -/
theorem exchange_between {o o' : PairOutcome} {allow : Bool} {at_ : Nat} {mid : List Entry}
    (latest : Latest (pre ++ e :: mid) o' at_) (calls : e.calls = [.trust o allow])
    (decides : e.frame.Decides) : ∃ p ∈ mid, Exchanged p.calls o' := by
  obtain ⟨early, p, later, same, exchanged, _, undecided⟩ := latest
  obtain shorter | longer := List.append_eq_append_iff.mp same
  · obtain ⟨between, rfl, rest⟩ := shorter
    cases between with
    | nil =>
        cases rest
        simp [Exchanged, calls] at exchanged
    | cons x xs =>
        cases rest
        exact ⟨p, by simp, exchanged⟩
  · obtain ⟨between, rfl, rest⟩ := longer
    cases between with
    | nil =>
        cases rest
        simp [Exchanged, calls] at exchanged
    | cons x xs =>
        cases rest
        exact absurd decides (undecided e (by simp))

/-- The exchange that is held is the newest one, nothing was decided since, and a
session that is ready was greeted. -/
structure Faithful (d : SessionDeps) (c : Conversation) : Prop where
  fresh : c.session.phase = .awaitingHello → c.session.pendingPairing = none
  greeted : c.session.phase = .ready → ∃ p ∈ c.log, p.frame = .msg (.hello protocolVersion d.token)
  held : ∀ pending, c.session.phase = .ready → c.session.pendingPairing = some pending →
    d.fleet = true ∧ ∃ at_, Latest c.log pending.outcome at_ ∧
      pending.expiresAt = at_ + pendingPairingTtl
  consented : Consented d c.log

/-- One more entry, judged on its own against what came before it. -/
theorem Consented.snoc (h : Consented d log)
    (trusted : ∀ o allow, .trust o allow ∈ e.calls →
      (∃ id, e.frame = .msg (.confirmPairing id o.node allow)) ∧ e.calls = [.trust o allow] ∧
        ∃ at_, Latest log o at_ ∧ e.now < at_ + pendingPairingTtl)
    (silent : e.calls ≠ [] → (∃ version token, e.frame = .msg (.hello version token)) ∨
      ∃ p ∈ log, p.frame = .msg (.hello protocolVersion d.token)) :
    Consented d (log ++ [e]) := by
  refine ⟨?_, ?_, ?_⟩
  · intro pre x post o allow same member
    cases split_append same with
    | inl new =>
        obtain ⟨rfl, rfl, _⟩ := new
        exact trusted o allow member
    | inr old =>
        obtain ⟨rest, _, before⟩ := old
        exact h.trusted pre x rest o allow before member
  · intro pre x mid x' post o o' allow allow' same first second
    rw [← List.cons_append, ← List.append_assoc] at same
    cases split_append same with
    | inl new =>
        obtain ⟨before, rfl, _⟩ := new
        obtain ⟨_, _, at_, latest, _⟩ := trusted o' allow' second
        rw [← before] at latest
        obtain ⟨confirmed, calls, _⟩ := h.trusted pre x mid o allow before.symm first
        obtain ⟨id, frame⟩ := confirmed
        refine exchange_between latest calls ?_
        rw [frame]
        exact rfl
    | inr old =>
        obtain ⟨rest, _, before⟩ := old
        rw [List.append_assoc, List.cons_append] at before
        exact h.once pre x mid x' rest o o' allow allow' before first second
  · intro pre x post same asked
    cases split_append same with
    | inl new =>
        obtain ⟨rfl, rfl, _⟩ := new
        exact silent asked
    | inr old =>
        obtain ⟨rest, _, before⟩ := old
        exact h.silent pre x rest before asked

/-- An entry that asks nothing has nothing to answer for. -/
theorem Consented.idle (h : Consented d log) (idle : e.calls = []) : Consented d (log ++ [e]) :=
  h.snoc (by simp [idle]) (by simp [idle])

theorem opened_faithful (d : SessionDeps) : Faithful d opened :=
  ⟨fun _ => rfl, by simp [opened, Session.new], by simp [opened, Session.new],
    ⟨by simp [opened], by simp [opened], by simp [opened]⟩⟩

/-- A session that has ended asks for nothing more. -/
theorem Faithful.closed (h : Faithful d c) (ended : c'.session.phase = .closed)
    (log : c'.log = c.log ++ [e]) (idle : e.calls = []) : Faithful d c' := by
  refine ⟨?_, ?_, ?_, log ▸ h.consented.idle idle⟩
  · simp [ended]
  · simp [ended]
  · simp [ended]

variable {i : Input}

theorem hello_faithful {version : Nat} {token : String} (h : Faithful d c)
    (waiting : c.session.phase = .awaitingHello) :
    let handled := hello d i.world c.session version token
    Faithful d ⟨handled.session,
      c.log ++ [⟨i.now, .msg (.hello version token), handled.calls⟩]⟩ := by
  have empty := h.fresh waiting
  have consented : ∀ calls : List Call, (∀ o allow, .trust o allow ∉ calls) →
      Consented d (c.log ++ [⟨i.now, .msg (.hello version token), calls⟩]) := by
    intro calls untrusting
    exact h.consented.snoc (fun o allow member => absurd member (untrusting o allow))
      fun _ => Or.inl ⟨version, token, rfl⟩
  simp only [hello]
  split
  · exact ⟨by simp [Session.close], by simp [Session.close], by simp [Session.close],
      consented _ (by simp)⟩
  · next current =>
      split
      · exact ⟨by simp [Session.close], by simp [Session.close], by simp [Session.close],
          consented _ (by simp)⟩
      · next paired =>
          obtain rfl := not_not.mp current
          obtain rfl := not_not.mp paired
          exact ⟨by simp, fun _ => ⟨_, List.mem_append_right _ List.mem_cons_self, rfl⟩,
            by simp [empty], consented _ (by simp)⟩

/-- In a ready session every message keeps the slot tied to the history. -/
theorem route_faithful {m : ClientMsg} (h : Faithful d c) (ready : c.session.phase = .ready) :
    let handled := route d i.world i.now c.session m
    Faithful d ⟨handled.session, c.log ++ [⟨i.now, .msg m, handled.calls⟩]⟩ := by
  have outcome : Outcome d i.now c.session m (route d i.world i.now c.session m) := route_outcome m
  generalize route d i.world i.now c.session m = handled at outcome
  obtain ⟨p, greeting, right⟩ := h.greeted ready
  have greeted : ∃ p : Entry, p ∈ c.log ++ [⟨i.now, .msg m, handled.calls⟩] ∧
      p.frame = .msg (.hello protocolVersion d.token) :=
    ⟨p, List.mem_append_left _ greeting, right⟩
  have silent : handled.calls ≠ [] → (∃ version token,
        Frame.msg m = .msg (.hello version token)) ∨
      ∃ p ∈ c.log, p.frame = .msg (.hello protocolVersion d.token) :=
    fun _ => Or.inr ⟨p, greeting, right⟩
  have untrusting (none : ∀ o allow, .trust o allow ∉ handled.calls) :
      Consented d (c.log ++ [⟨i.now, .msg m, handled.calls⟩]) :=
    h.consented.snoc (fun o allow member => absurd member (none o allow)) silent
  cases outcome with
  | quiet plain quiet =>
      refine ⟨by simp [quiet.phase, ready], fun _ => greeted, ?_, untrusting quiet.calls⟩
      intro pending _ holding
      obtain ⟨fleet, at_, latest, expires⟩ := h.held pending ready (quiet.slot ▸ holding)
      exact ⟨fleet, at_, latest.quiet (by simp [Frame.Decides, plain]), expires⟩
  | unavailable fleet quiet =>
      refine ⟨by simp [quiet.phase, ready], fun _ => greeted, ?_, untrusting quiet.calls⟩
      intro pending _ holding
      have there := (h.held pending ready (quiet.slot ▸ holding)).1
      rw [fleet] at there
      cases there
  | exchanged o fleet phase slot exchanged none =>
      refine ⟨by simp [phase, ready], fun _ => greeted, ?_, untrusting none⟩
      intro pending _ holding
      rw [slot] at holding
      cases holding
      exact ⟨fleet, i.now, Latest.new exchanged, rfl⟩
  | spent phase slot none =>
      exact ⟨by simp [phase, ready], fun _ => greeted, by simp [slot], untrusting none⟩
  | @trusted id allow h' pending holding live phase slot calls =>
      refine ⟨by simp [phase, ready], fun _ => greeted, by simp [slot], ?_⟩
      refine h.consented.snoc ?_ silent
      intro o allow' member
      rw [calls] at member
      cases List.mem_singleton.mp member
      obtain ⟨_, at_, latest, expires⟩ := h.held pending ready holding
      exact ⟨⟨id, rfl⟩, calls, at_, latest, expires ▸ live⟩

theorem receive_faithful (h : Faithful d c) (received : receive d c i = some c') :
    Faithful d c' := by
  obtain rfl := Option.some.inj received
  unfold react
  cases i.frame with
  | malformed detail => exact h.closed rfl rfl rfl
  | msg m =>
      cases phase : c.session.phase with
      | closed =>
          simp only [handle, phase]
          exact h.closed phase rfl rfl
      | ready =>
          simp only [handle, phase]
          exact route_faithful h phase
      | awaitingHello =>
          simp only [handle, phase]
          cases m with
          | hello version token => exact hello_faithful h phase
          | _ => exact h.closed rfl rfl rfl

/-- Whatever a client sends, whenever, and whatever is answered: trust is only ever
written for the newest exchange, on a confirmation that names its machine, in time
and once; and a client that has not said the right hello reaches nothing. -/
theorem pairing_consented {d : SessionDeps} {c : Conversation} {inputs : List Input}
    (run : Run (receive d) Free opened inputs c) : Consented d c.log :=
  (run.invariant (opened_faithful d) fun _ _ _ h _ received =>
    receive_faithful h received).consented

end Histories

section Fixed

def fleetDeps : SessionDeps where
  token := "secret"
  canLaunch := .ok ()
  fleet := true
  cluster := false
  joining := false
  relay := false
  debug _ := ""

def answering : PairOutcome := ⟨7, "key", "dgx7", "10.0.0.7", "apple bread"⟩

/-- The peer completes every exchange, and nothing else is there. -/
def pairingWorld : World where
  recipes := []
  preview _ _ := .error .notReady
  launch _ _ _ := .error .notReady
  stop _ := .error .notReady
  status := .error .notReady
  stats _ := .error .notReady
  logs _ _ := .error .notReady
  nodes := []
  pair _ _ := .ok answering
  pairAt _ _ := .ok answering
  trust _ _ := .ok ()
  unpair _ := .ok false
  mint _ := none
  clusterPreview _ _ _ _ := .error ""
  clusterPrepare _ _ _ _ := .error ""
  clusterCommit _ := .error ""
  clusterStop := .error ""
  relay _ _ := .error .notReady

def ceremony : List Input :=
  [⟨pairingWorld, 0, .msg (.hello 4 "secret")⟩,
    ⟨pairingWorld, 1, .msg (.pairPeer 1 7 "12345678")⟩,
    ⟨pairingWorld, 2, .msg (.confirmPairing 2 7 false)⟩]

theorem pairing_consented_ceremony : ∃ c, Run (receive fleetDeps) Free opened ceremony c ∧
    (c.log.map (·.calls)).getLast? = some [.trust answering false] ∧ Consented fleetDeps c.log := by
  have run : Run (receive fleetDeps) Free opened ceremony _ :=
    .cons ⟨trivial, rfl⟩ (.cons ⟨trivial, rfl⟩ (.cons ⟨trivial, rfl⟩ (.nil _)))
  exact ⟨_, run, rfl, pairing_consented run⟩

end Fixed

end Browser
end Metralectl
