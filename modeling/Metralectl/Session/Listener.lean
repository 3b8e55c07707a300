import Metralectl.Core.Net
import Metralectl.Library.Simulation
import Metralectl.Session.Consent

/-!
The loopback listener: who is given a websocket, and the loop that serves one. What
the fleet pushes is taken up between the client's frames, in any order.
-/
namespace Metralectl
namespace Browser
open Runs

section Guard

def allowedOrigins : List String := ["https://metrale.ai"]

def devOrigins : List String :=
  ["http://localhost:5173", "http://127.0.0.1:5173", "http://localhost:4173",
    "http://127.0.0.1:4173"]

/-- What a loopback connection may call this machine. -/
def loopbackNames : List String := ["127.0.0.1", "localhost", "[::1]"]

def hostAllowed (host : String) (port : Nat) : Bool :=
  (loopbackNames.map fun name => s!"{name}:{port}").any (· = host)

inductive Refusal where
  | missingOrigin
  | foreignOrigin (origin : String)
  | missingHost
  | foreignHost (host : String)
deriving DecidableEq

def Refusal.text : Refusal → String
  | .missingOrigin => "no Origin header; refusing a connection whose origin cannot be established"
  | .foreignOrigin origin => s!"origin `{origin}` is not allowed to drive this agent"
  | .missingHost => "no Host header"
  | .foreignHost host =>
      s!"host `{host}` is not this agent's loopback address (possible DNS rebinding)"

def check (origin host : Option String) (port : Nat) (allowDev : Bool) : Except Refusal Unit :=
  match host with
  | none => .error .missingHost
  | some host =>
      if !hostAllowed host port then .error (.foreignHost host)
      else
        match origin with
        | none => .error .missingOrigin
        | some origin =>
            if (allowedOrigins ++ if allowDev then devOrigins else []).any (· = origin) then .ok ()
            else .error (.foreignOrigin origin)

/-- A request to upgrade, and its headers by lower-case name. -/
structure Request where
  peer : Net.IpAddr
  headers : List (String × List UInt8)

/-- The text of a header, when it is visible ASCII. -/
def headerText (value : List UInt8) : Option String :=
  if value.all fun b => (32 ≤ b && b < 127) || b = 9 then
    some (String.ofList (value.map fun b => Char.ofNat b.toNat))
  else none

def Request.header (r : Request) (name : String) : Option String :=
  (r.headers.lookup name).bind headerText

def isLoopback : Net.IpAddr → Bool
  | .v4 bits => bits.toNat / 2 ^ 24 = 127
  | .v6 bits => bits = 1

/-- Why a connection is refused before it has a websocket. -/
def upgrade (port : Nat) (allowDev : Bool) (r : Request) : Except String Unit :=
  if !isLoopback r.peer then .error "not a loopback connection"
  else
    match check (r.header "origin") (r.header "host") port allowDev with
    | .error refusal => .error refusal.text
    | .ok () => .ok ()

/-- A connection from this machine, of a page of ours, that was meant for this port. -/
structure Vetted (port : Nat) (allowDev : Bool) (r : Request) : Prop where
  here : isLoopback r.peer = true
  host : ∃ name ∈ loopbackNames, r.header "host" = some s!"{name}:{port}"
  origin : ∃ origin, r.header "origin" = some origin ∧
    (origin ∈ allowedOrigins ∨ allowDev = true ∧ origin ∈ devOrigins)

variable {port port' : Nat} {allowDev allowDev' : Bool} {r : Request}

theorem hostAllowed_iff {host : String} :
    hostAllowed host port = true ↔ ∃ name ∈ loopbackNames, host = s!"{name}:{port}" := by
  rw [hostAllowed, List.any_map, List.any_eq_true]
  refine exists_congr fun name => and_congr_right fun _ => ?_
  rw [Function.comp_apply, decide_eq_true_iff]
  exact eq_comm

theorem check_ok {origin host : Option String} :
    check origin host port allowDev = .ok () ↔
      (∃ name ∈ loopbackNames, host = some s!"{name}:{port}") ∧
        ∃ page, origin = some page ∧ (page ∈ allowedOrigins ∨ allowDev = true ∧ page ∈ devOrigins) := by
  have listed {page : String} :
      (allowedOrigins ++ if allowDev then devOrigins else []).any (· = page) = true ↔
        page ∈ allowedOrigins ∨ allowDev = true ∧ page ∈ devOrigins := by
    cases allowDev <;> simp
  cases host with
  | none => simp [check]
  | some host =>
      simp only [check, Option.some.injEq]
      rw [← hostAllowed_iff]
      cases hostAllowed host port with
      | false => simp
      | true =>
          cases origin with
          | none => simp
          | some page =>
              simp only [Bool.not_true, Bool.false_eq_true, if_false, Option.some.injEq, true_and,
                exists_eq_left']
              rw [← listed]
              generalize (allowedOrigins ++ if allowDev then devOrigins else []).any (· = page) = ours
              cases ours <;> simp

theorem upgrade_ok : upgrade port allowDev r = .ok () ↔ Vetted port allowDev r := by
  unfold upgrade
  cases here : isLoopback r.peer with
  | false =>
      constructor
      · intro granted
        cases granted
      · intro vetted
        rw [vetted.here] at here
        cases here
  | true =>
      simp only [Bool.not_true, Bool.false_eq_true, if_false]
      cases checked : check (r.header "origin") (r.header "host") port allowDev with
      | error refusal =>
          constructor
          · intro granted
            cases granted
          · intro vetted
            rw [check_ok.mpr ⟨vetted.host, vetted.origin⟩] at checked
            cases checked
      | ok _ =>
          obtain ⟨host, origin⟩ := check_ok.mp checked
          exact ⟨fun _ => ⟨here, host, origin⟩, fun _ => rfl⟩

/-- The name of a machine and a port are told apart by what stands before the last colon. -/
theorem Vetted.one_port (vetted : Vetted port allowDev r) (other : Vetted port' allowDev' r) :
    port = port' := by
  obtain ⟨name, listed, host⟩ := vetted.host
  obtain ⟨name', listed', host'⟩ := other.host
  have chars := congrArg String.toList (Option.some.inj (host.symm.trans host'))
  have first {name : String} (listed : name ∈ loopbackNames) (port : Nat) :
      s!"{name}:{port}".toList.head? = name.toList.head? := by
    have some_ : name.toList ≠ [] :=
      (by decide : ∀ n ∈ loopbackNames, n.toList ≠ []) name listed
    obtain ⟨c, cs, name_⟩ := List.exists_cons_of_ne_nil some_
    rw [String.toList_append, String.toList_append]
    change ((name.toList ++ _) ++ _).head? = _
    rw [name_]
    rfl
  have heads := congrArg List.head? chars
  rw [first listed, first listed'] at heads
  obtain rfl : name = name' := (by decide : ∀ n ∈ loopbackNames, ∀ m ∈ loopbackNames,
    n.toList.head? = m.toList.head? → n = m) name listed name' listed' heads
  simp only [String.toList_append, List.append_cancel_left_eq] at chars
  exact toString_inj (String.toList_inj.mp chars)

end Guard

section Serving

/-- What a client sends, as far as the loop tells it apart, or the end of its socket. -/
inductive Received where
  | frame (f : Frame)
  | binary
  | close
  | control
  | gone

/-- What the loop takes up next. -/
inductive Arrival (ε : Type) where
  | pushed (event : ε)
  | lagged
  | ended
  | incoming (received : Received)

/-- An arrival, what the dependencies answer to it and when, and how many messages the
socket takes before a send fails. -/
structure Turn (ε : Type) where
  arrival : Arrival ε
  world : World
  now : Nat
  fits : Nat

inductive Sent (ε : Type) where
  | welcome
  | event (event : ε)
  | reply (msg : ServerMsg)
  | close
deriving DecidableEq

/-- A connection: its session, what that asked so far, what was sent and what was logged. -/
structure Socket (ε : Type) where
  session : Session
  calls : List Call
  sent : List (Sent ε)
  logged : List String
  running : Bool

variable {ε : Type}

def Socket.accept (fits : Nat) : Socket ε where
  session := .new
  calls := []
  sent := [Sent.welcome].take fits
  logged := []
  running := 0 < fits

/-- A connection that is not refused opens with a welcome. -/
def connect (port : Nat) (allowDev : Bool) (r : Request) (fits : Nat) : Except String (Socket ε) :=
  (upgrade port allowDev r).map fun _ => .accept fits

/-- The loop ends, and says so if it still can. -/
def Socket.leave (s : Socket ε) (fits : Nat) : Socket ε :=
  { s with running := false, sent := s.sent ++ [Sent.close].take fits }

def Socket.tell (s : Socket ε) (h : Handled) (fits : Nat) : Socket ε :=
  { s with
    session := h.session
    calls := s.calls ++ h.calls
    sent := s.sent ++ (h.replies.map Sent.reply).take fits }

/-- Denied keys are logged, not merely refused. -/
def Socket.drain (s : Socket ε) : Socket ε :=
  { s with
    session := { s.session with deniedAttempts := [] }
    logged := s.logged ++ s.session.deniedAttempts.map fun key =>
      s!"metralectl agent: client attempted to set the denied key `{key}`" }

def Socket.step (d : SessionDeps) (s : Socket ε) (t : Turn ε) : Option (Socket ε) :=
  if !s.running then none
  else
    match t.arrival with
    | .pushed event =>
        if s.session.phase = .ready then
          if 0 < t.fits then some { s with sent := s.sent ++ [.event event] } else some (s.leave 0)
        else some s
    | .lagged => some s
    | .ended => some (s.leave t.fits)
    | .incoming .control => some s
    | .incoming .close => some (s.leave t.fits)
    | .incoming .gone => some (s.leave t.fits)
    | .incoming .binary =>
        let refused := onMalformed s.session "binary frames are not accepted"
        some ((s.tell refused t.fits).leave (t.fits - refused.replies.length))
    | .incoming (.frame f) =>
        let handled := react d s.session ⟨t.world, t.now, f⟩
        let told := s.tell handled t.fits
        -- a reply that cannot be sent ends the loop at once
        if t.fits < handled.replies.length then some { told with running := false }
        else if handled.session.phase = .closed then
          some (told.drain.leave (t.fits - handled.replies.length))
        else some told.drain

/-- The client greets with the version and the token this machine expects. -/
def Turn.Greets (d : SessionDeps) (t : Turn ε) : Prop :=
  match t.arrival with
  | .incoming (.frame (.msg (.hello version token))) => version = protocolVersion ∧ token = d.token
  | _ => False

instance (d : SessionDeps) (t : Turn ε) : Decidable (t.Greets d) := by
  unfold Turn.Greets
  split <;> infer_instance

/-- What a turn is to the client: all but what is pushed, and what the machine answers. -/
def Turn.own (t : Turn ε) : Option (Option Received × Nat) :=
  match t.arrival with
  | .pushed _ => none
  | .lagged => none
  | .ended => some (none, t.fits)
  | .incoming received => some (some received, t.fits)

end Serving

section Strangers
variable {ε : Type}

/-- What a client hears that never greets rightly: an answer to its own first frame,
whatever machine it is. -/
structure Stranger (ε : Type) where
  sent : List (Sent ε)
  running : Bool

def strangerRefusal : Frame → AgentError
  | .msg (.hello version _) =>
      if version ≠ protocolVersion then .unsupportedProtocol protocolVersion protocolVersion version
      else .notPaired
  | .msg _ => .notReady
  | .malformed detail => .invalidMessage detail

def Stranger.dismiss (x : Stranger ε) (last : List (Sent ε)) (fits : Nat) : Stranger ε :=
  ⟨x.sent ++ last.take fits, false⟩

def Stranger.step (x : Stranger ε) (own : Option Received × Nat) : Option (Stranger ε) :=
  if !x.running then none
  else
    match own.1 with
    | some .control => some x
    | none => some (x.dismiss [.close] own.2)
    | some .close => some (x.dismiss [.close] own.2)
    | some .gone => some (x.dismiss [.close] own.2)
    | some .binary =>
        some (x.dismiss [.reply (.error none (.invalidMessage "binary frames are not accepted")),
          .close] own.2)
    | some (.frame f) => some (x.dismiss [.reply (.error none (strangerRefusal f)), .close] own.2)

/-- The connection is what a stranger hears, and asked nothing but whether a token is the one. -/
structure Blind (s : Socket ε) (x : Stranger ε) : Prop where
  sent : s.sent = x.sent
  running : s.running = x.running
  waiting : s.running = true → s.session.phase = .awaitingHello
  asked : ∀ c ∈ s.calls, ∃ presented, c = .token presented
  unpushed : ∀ event, Sent.event event ∉ s.sent

variable {d : SessionDeps} {s s' : Socket ε} {x : Stranger ε} {t : Turn ε} {fits : Nat}

theorem react_stranger {session : Session} (w : World) (now : Nat) {f : Frame}
    (waiting : session.phase = .awaitingHello)
    (strange : f ≠ .msg (.hello protocolVersion d.token)) :
    (react d session ⟨w, now, f⟩).session.phase = .closed ∧
      (react d session ⟨w, now, f⟩).replies = [.error none (strangerRefusal f)] ∧
        ∀ c ∈ (react d session ⟨w, now, f⟩).calls, ∃ presented, c = .token presented := by
  cases f with
  | malformed detail => exact ⟨rfl, rfl, List.forall_mem_nil _⟩
  | msg m =>
      simp only [react, handle, waiting]
      split
      · next version token =>
          unfold hello
          split
          · next other => exact ⟨rfl, by simp [strangerRefusal, other, err], List.forall_mem_nil _⟩
          · next same =>
              obtain rfl := not_not.mp same
              split
              · exact ⟨rfl, by simp [strangerRefusal, err], by simp⟩
              · next right => exact absurd (by rw [not_not.mp right]) strange
      · next other =>
          refine ⟨rfl, ?_, List.forall_mem_nil _⟩
          rw [strangerRefusal.eq_2 _ other]
          rfl

theorem blind_accept (fits : Nat) :
    Blind (.accept fits : Socket ε) ⟨[Sent.welcome].take fits, 0 < fits⟩ where
  sent := rfl
  running := rfl
  waiting := fun _ => rfl
  asked := List.forall_mem_nil _
  unpushed := fun event there => by cases List.mem_singleton.mp (List.mem_of_mem_take there)

/-- The loop is left, with a last word or none. -/
theorem Blind.dismissed (blind : Blind s x) {last : List (Sent ε)} (ended : s'.running = false)
    (sent : s'.sent = s.sent ++ last.take fits) (quiet : ∀ event, Sent.event event ∉ last)
    (asked : ∀ c ∈ s'.calls, c ∈ s.calls ∨ ∃ presented, c = .token presented) :
    Blind s' (x.dismiss last fits) where
  sent := by rw [sent, blind.sent]; rfl
  running := ended
  waiting := fun runs => by rw [ended] at runs; cases runs
  asked := fun c there => (asked c there).elim (blind.asked c) id
  unpushed := by
    intro event there
    rw [sent, List.mem_append] at there
    exact there.elim (blind.unpushed event) fun late => quiet event (List.mem_of_mem_take late)

theorem Blind.left (blind : Blind s x) : Blind (s.leave fits) (x.dismiss [.close] fits) :=
  blind.dismissed rfl rfl (by simp) fun _ there => .inl there

/-- One answer, and the loop is left. -/
theorem Blind.refused (blind : Blind s x) (fits : Nat) {h : Handled} {e : AgentError}
    (replies : h.replies = [.error none e]) (asked : ∀ c ∈ h.calls, ∃ presented, c = .token presented) :
    Blind ((s.tell h fits).leave (fits - h.replies.length))
      (x.dismiss [.reply (.error none e), .close] fits) := by
  refine blind.dismissed rfl ?_ (by simp) fun c there => ?_
  · cases fits <;> simp [Socket.tell, Socket.leave, replies]
  · exact (List.mem_append.mp there).imp_right (asked c)

theorem blind_step (blind : Blind s x) (strange : ¬t.Greets d) (hstep : s.step d t = some s') :
    match t.own with
    | none => Blind s' x
    | some own => ∃ y, x.step own = some y ∧ Blind s' y := by
  unfold Socket.step at hstep
  cases runs : s.running with
  | false => simp [runs] at hstep
  | true =>
      have waiting := blind.waiting runs
      have going : x.running = true := blind.running.symm.trans runs
      simp only [runs, Bool.not_true, Bool.false_eq_true, if_false] at hstep
      obtain ⟨arrival, world, now, fits⟩ := t
      cases arrival with
      | pushed event =>
          simp only [waiting, reduceCtorEq, if_false, Option.some.injEq] at hstep
          exact hstep ▸ blind
      | lagged =>
          cases hstep
          exact blind
      | ended =>
          cases hstep
          exact ⟨_, by simp [Stranger.step, going], blind.left⟩
      | incoming received =>
          cases received with
          | control =>
              cases hstep
              exact ⟨x, by simp [Stranger.step, going], blind⟩
          | close =>
              cases hstep
              exact ⟨_, by simp [Stranger.step, going], blind.left⟩
          | gone =>
              cases hstep
              exact ⟨_, by simp [Stranger.step, going], blind.left⟩
          | binary =>
              cases hstep
              exact ⟨_, by simp [Stranger.step, going],
                blind.refused _ rfl (List.forall_mem_nil _)⟩
          | frame f =>
              have other : f ≠ .msg (.hello protocolVersion d.token) := by
                rintro rfl
                exact strange ⟨rfl, rfl⟩
              obtain ⟨closed, replies, asked⟩ := react_stranger world now waiting other
              refine ⟨x.dismiss [.reply (.error none (strangerRefusal f)), .close] fits,
                by simp [Stranger.step, going], ?_⟩
              simp only [closed, if_true] at hstep
              split at hstep
              · next short =>
                  cases hstep
                  have none_ : fits = 0 := by
                    rw [replies] at short
                    exact Nat.lt_one_iff.mp short
                  refine blind.dismissed rfl (by simp [Socket.tell, none_]) (by simp) fun c there => ?_
                  exact (List.mem_append.mp there).imp_right (asked c)
              · cases hstep
                have left := blind.refused fits replies asked
                exact ⟨left.sent, left.running, left.waiting, left.asked, left.unpushed⟩

/-- A connection is served as a stranger, for as long as nobody greets it rightly. -/
theorem blind_simulates (d : SessionDeps) :
    Simulates (Guarded (Socket.step d) fun _ t => ¬t.Greets d) (Guarded Stranger.step Free)
      Turn.own (Blind (ε := ε)) where
  seen := by
    intro s t s' x own blind hstep shown
    have after := blind_step blind hstep.1 hstep.2
    rw [shown] at after
    obtain ⟨y, next_, blind⟩ := after
    exact ⟨y, ⟨trivial, next_⟩, blind⟩
  unseen := by
    intro s t s' x blind hstep shown
    have after := blind_step blind hstep.1 hstep.2
    rwa [shown] at after

end Strangers

/-- Before a client has greeted with the token, what it hears is of its own frames alone: it
is the same at any two machines, with whatever they know, answer and push meanwhile. -/
theorem stranger_learns_nothing {ε : Type} {d d' : SessionDeps} {port port' : Nat}
    {allowDev allowDev' : Bool} {r : Request} {fits : Nat} {start start' s s' : Socket ε}
    {turns turns' : List (Turn ε)} (opened : connect port allowDev r fits = .ok start)
    (opened' : connect port' allowDev' r fits = .ok start')
    (run : Run (Socket.step d) (fun _ t => ¬t.Greets d) start turns s)
    (run' : Run (Socket.step d') (fun _ t => ¬t.Greets d') start' turns' s')
    (same : turns.filterMap Turn.own = turns'.filterMap Turn.own) :
    (Vetted port allowDev r ∧ port = port') ∧
      (s.sent = s'.sent ∧ s.running = s'.running) ∧
        (∀ event, Sent.event event ∉ s.sent) ∧ ∀ c ∈ s.calls, ∃ presented, c = .token presented := by
  have vetted {port : Nat} {allowDev : Bool} {start : Socket ε}
      (opened : connect port allowDev r fits = .ok start) :
      Vetted port allowDev r ∧ start = .accept fits := by
    cases granted : upgrade port allowDev r with
    | error why => rw [connect, granted] at opened; cases opened
    | ok _ =>
        rw [connect, granted] at opened
        cases opened
        exact ⟨upgrade_ok.mp granted, rfl⟩
  obtain ⟨ours, rfl⟩ := vetted opened
  obtain ⟨theirs, rfl⟩ := vetted opened'
  obtain ⟨x, blind, blind'⟩ := (blind_simulates d).same (blind_simulates d') run run'
    (blind_accept fits) (blind_accept fits) same
  exact ⟨⟨ours, ours.one_port theirs⟩,
    ⟨blind.sent.trans blind'.sent.symm, blind.running.trans blind'.running.symm⟩,
    blind.unpushed, blind.asked⟩

section Instances

def asciiBytes (text : String) : List UInt8 := text.toList.map fun c => UInt8.ofNat c.toNat

def localPage : Request where
  peer := .v4 0x7F000001
  headers := [("host", asciiBytes "localhost:80"), ("origin", asciiBytes "https://metrale.ai")]

def taking (arrival : Arrival Nat) (fits : Nat) : Turn Nat := ⟨arrival, pairingWorld, 0, fits⟩

def guess : Arrival Nat := .incoming (.frame (.msg (.hello protocolVersion "guess")))

/-- A machine that cannot launch, with another token. -/
def idleDeps : SessionDeps := { fleetDeps with token := "other", canLaunch := .error "no docker" }

/-- One machine has news meanwhile; a guess of the token tells it from neither. -/
theorem stranger_learns_nothing_guess :
    ∃ s s' : Socket Nat,
      Run (Socket.step fleetDeps) (fun _ t => ¬t.Greets fleetDeps) (.accept 1) [taking guess 2] s ∧
      Run (Socket.step idleDeps) (fun _ t => ¬t.Greets idleDeps) (.accept 1)
        [taking (.pushed 7) 1, taking guess 2] s' ∧
      s.sent = s'.sent ∧ s.sent.length = 3 := by
  have granted : upgrade 80 false localPage = .ok () := by decide +kernel
  have opened : connect 80 false localPage 1 = .ok (.accept 1 : Socket Nat) := by
    rw [connect, granted]
    rfl
  have run : Run (Socket.step fleetDeps) (fun _ t => ¬t.Greets fleetDeps) (.accept 1)
      [taking guess 2] _ := .of_replay rfl
  have run' : Run (Socket.step idleDeps) (fun _ t => ¬t.Greets idleDeps) (.accept 1)
      [taking (.pushed 7) 1, taking guess 2] _ := .of_replay rfl
  have same := (stranger_learns_nothing opened opened run run' rfl).2.1.1
  exact ⟨_, _, run, run', same, rfl⟩

end Instances

end Browser
end Metralectl
