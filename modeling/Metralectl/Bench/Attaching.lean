import Metralectl.Bench.Answers
import Metralectl.Library.Runs
import Metralectl.Trust.PinStore

/-!
The stream of one attached client: what the serving loop does between two moments at which
others act, and what it sends once the client has lost its right.
-/
namespace Metralectl
namespace Bench
open Runs

/-- The remedy, naming the machine it must be run on. -/
def benchGrantRefusal (sender node : NodeId) : BenchRefusal :=
  .notGranted s!"metralectl peer grant-bench {sender.short} ON {node.short}"

/-- What a sender is refused for by what the pin store holds. -/
def grantOf (pins : Except String Trust.Pins) (sender node : NodeId) : Option BenchRefusal :=
  match pins with
  | .error _ => some (.notConfigured "this agent's pin store could not be read"
      "check the config directory's permissions on the node")
  | .ok pins =>
      match Trust.get? pins sender with
      | some pin => if pin.bench then none else some (benchGrantRefusal sender node)
      | none => some (.notConfigured s!"{sender.short} is not paired with this machine"
          "pair first (\x60metralectl agent pair\x60 on the node, \x60metralectl peer add\x60 here)")

/-- What the serving loop can read at a moment. -/
structure Sight where
  pins : Except String Trust.Pins
  configured : Bool
  /-- Where the job is, if its record can be read. -/
  record : Option JobState
  opened : Bool
  replay : UInt64 → Option (List BenchEvent)
  high : UInt64
  nowS : UInt64

inductive Frame where
  | refused (by_ : NodeId) (refusal : BenchRefusal)
  | event (e : BenchEvent)
deriving DecidableEq

def Frame.isRefusal : Frame → Bool
  | .refused _ _ => true
  | .event _ => false

/-- Where the loop is. -/
inductive Serving where
  | entering
  | checking
  | reading
  | writing (batch : List BenchEvent)
  | measuring (state : JobState)
  | judging (state : JobState) (heartbeat : BenchEvent)
  | waiting (heartbeat : BenchEvent)
  | over_
deriving DecidableEq

/-- How the loop goes on: a write may last too long, and a wait is ended by the journal, by
the heartbeat's interval or by the client. -/
inductive Wake where
  | go (late : Bool)
  | changed
  | tick (late : Bool)
  | hangup
deriving DecidableEq

structure Stream where
  node : NodeId
  sender : NodeId
  job : JobId
  next_ : UInt64
  /-- The number the journal's watch was last seen at. -/
  seen : UInt64
  stage : Serving
deriving DecidableEq

namespace Stream

def attach (node sender : NodeId) (job : JobId) (fromSeq : UInt64) : Stream where
  node := node
  sender := sender
  job := job
  next_ := max fromSeq 1
  seen := 0
  stage := .entering

def to_ (s : Stream) (stage : Serving) : Stream := { s with stage := stage }

def refuse (s : Stream) (refusal : BenchRefusal) : Stream × Option Frame :=
  (s.to_ .over_, some (.refused s.node refusal))

/-- One step, and the frame whose write it starts. -/
def step (s : Stream) (v : Sight) : Wake → Option (Stream × Option Frame)
  | .go late =>
      match s.stage with
      | .entering =>
          match grantOf v.pins s.sender s.node with
          | some refusal => some (s.refuse refusal)
          | none =>
              if !v.configured then
                some (s.refuse (.notConfigured "no bench.yaml" "configure bench on the node"))
              else if v.record = none || !v.opened then some (s.refuse (.unknownJob s.job))
              else some ({ s with seen := v.high, stage := .checking }, none)
      | .checking =>
          match grantOf v.pins s.sender s.node with
          | some refusal => some (s.refuse refusal)
          | none => some (s.to_ .reading, none)
      | .reading =>
          match v.replay s.next_ with
          | none => some (s.to_ .over_, none)
          | some events => some (s.to_ (.writing events), none)
      | .writing (e :: rest) =>
          some ({ s with
            next_ := e.seq + 1
            stage := if late || e.kind.isDone then .over_ else .writing rest }, some (.event e))
      -- A record that cannot be read counts as one that is done.
      | .writing [] => some (s.to_ (.measuring (v.record.getD .done)), none)
      | .measuring state =>
          some (s.to_ (.judging state
            ⟨s.job, v.high, v.nowS * 1000, .heartbeat state v.high⟩), none)
      | .judging state heartbeat =>
          if state.isTerminal && v.high < s.next_ then
            some (s.to_ .over_, some (.event heartbeat))
          else some (s.to_ (.waiting heartbeat), none)
      | .waiting _ | .over_ => none
  | .changed =>
      match s.stage with
      | .waiting _ =>
          if s.seen = v.high then none
          else some ({ s with seen := v.high, stage := .checking }, none)
      | _ => none
  | .tick late =>
      match s.stage with
      | .waiting heartbeat =>
          some (s.to_ (if late then .over_ else .checking), some (.event heartbeat))
      | _ => none
  | .hangup =>
      match s.stage with
      | .waiting _ => some (s.to_ .over_, none)
      | _ => none

/-- The events read in this pass and not yet written. -/
def unsent (s : Stream) : List BenchEvent :=
  match s.stage with
  | .writing batch => batch
  | _ => []

/-- Before its next check the stream has nothing to write, and at the check the right is
not there. -/
def idle (s : Stream) (v : Sight) : Bool :=
  match s.stage with
  | .checking => (grantOf v.pins s.sender s.node).isSome
  | .reading => (v.replay s.next_).all (·.isEmpty)
  | .judging state _ => !(state.isTerminal && decide (v.high < s.next_))
  | _ => true

/-- What one step can be. -/
inductive Goes (s : Stream) (v : Sight) : Wake → Stream → Option Frame → Prop
  | refused {late : Bool} {refusal : BenchRefusal} :
      s.stage = .entering ∨ s.stage = .checking →
      Goes s v (.go late) (s.to_ .over_) (some (.refused s.node refusal))
  | entered {late : Bool} :
      s.stage = .entering → v.record ≠ none →
      Goes s v (.go late) { s with seen := v.high, stage := .checking } none
  | passed {late : Bool} :
      s.stage = .checking → grantOf v.pins s.sender s.node = none →
      Goes s v (.go late) (s.to_ .reading) none
  | unread {late : Bool} :
      s.stage = .reading → v.replay s.next_ = none → Goes s v (.go late) (s.to_ .over_) none
  | read {late : Bool} {events : List BenchEvent} :
      s.stage = .reading → v.replay s.next_ = some events →
      Goes s v (.go late) (s.to_ (.writing events)) none
  | wrote {late : Bool} {e : BenchEvent} {rest : List BenchEvent} :
      s.stage = .writing (e :: rest) →
      Goes s v (.go late) { s with
        next_ := e.seq + 1
        stage := if late || e.kind.isDone then .over_ else .writing rest } (some (.event e))
  | looked {late : Bool} :
      s.stage = .writing [] →
      Goes s v (.go late) (s.to_ (.measuring (v.record.getD .done))) none
  | measured {late : Bool} {state : JobState} :
      s.stage = .measuring state →
      Goes s v (.go late) (s.to_ (.judging state
        ⟨s.job, v.high, v.nowS * 1000, .heartbeat state v.high⟩)) none
  | closed {late : Bool} {state : JobState} {heartbeat : BenchEvent} :
      s.stage = .judging state heartbeat → state.isTerminal = true → v.high < s.next_ →
      Goes s v (.go late) (s.to_ .over_) (some (.event heartbeat))
  | settled {late : Bool} {state : JobState} {heartbeat : BenchEvent} :
      s.stage = .judging state heartbeat → ¬(state.isTerminal = true ∧ v.high < s.next_) →
      Goes s v (.go late) (s.to_ (.waiting heartbeat)) none
  | woken {heartbeat : BenchEvent} :
      s.stage = .waiting heartbeat → s.seen ≠ v.high →
      Goes s v .changed { s with seen := v.high, stage := .checking } none
  | beat {late : Bool} {heartbeat : BenchEvent} :
      s.stage = .waiting heartbeat →
      Goes s v (.tick late) (s.to_ (if late then .over_ else .checking)) (some (.event heartbeat))
  | hung {heartbeat : BenchEvent} :
      s.stage = .waiting heartbeat → Goes s v .hangup (s.to_ .over_) none

theorem step_goes {s s' : Stream} {v : Sight} {wake : Wake} {frame : Option Frame}
    (h : s.step v wake = some (s', frame)) : Goes s v wake s' frame := by
  cases wake with
  | go late =>
      simp only [step] at h
      split at h
      · next stage =>
          split at h
          · cases h
            exact .refused (.inl stage)
          · split at h
            · cases h
              exact .refused (.inl stage)
            · split at h
              · cases h
                exact .refused (.inl stage)
              · next kept =>
                  cases h
                  simp only [Bool.or_eq_true, decide_eq_true_eq, not_or] at kept
                  exact .entered stage kept.1
      · next stage =>
          split at h
          · cases h
            exact .refused (.inr stage)
          · next granted =>
              cases h
              exact .passed stage granted
      · next stage =>
          split at h
          · next unread =>
              cases h
              exact .unread stage unread
          · next events read =>
              cases h
              exact .read stage read
      · next e rest stage =>
          cases h
          exact .wrote stage
      · next stage =>
          cases h
          exact .looked stage
      · next state stage =>
          cases h
          exact .measured stage
      · next state heartbeat stage =>
          split at h
          · next ended =>
              cases h
              rw [Bool.and_eq_true, decide_eq_true_eq] at ended
              exact .closed stage ended.1 ended.2
          · next going =>
              cases h
              rw [Bool.and_eq_true, decide_eq_true_eq] at going
              exact .settled stage going
      · cases h
      · cases h
  | changed =>
      simp only [step] at h
      split at h
      · next heartbeat stage =>
          split at h
          · cases h
          · next moved =>
              cases h
              exact .woken stage moved
      · cases h
  | tick late =>
      simp only [step] at h
      split at h
      · next heartbeat stage =>
          cases h
          exact .beat stage
      · cases h
  | hangup =>
      simp only [step] at h
      split at h
      · next heartbeat stage =>
          cases h
          exact .hung stage
      · cases h

theorem Goes.sender {s s' : Stream} {v : Sight} {wake : Wake} {frame : Option Frame}
    (h : Goes s v wake s' frame) : s'.sender = s.sender := by
  cases h <;> rfl

/-- A stream that is over goes no further. -/
theorem Goes.going {s s' : Stream} {v : Sight} {wake : Wake} {frame : Option Frame}
    (h : Goes s v wake s' frame) : s.stage ≠ .over_ := by
  intro over_
  cases h with
  | refused at_ => rw [over_] at at_; simp at at_
  | entered at_ | passed at_ | unread at_ | read at_ | wrote at_ | looked at_ | measured at_
  | closed at_ | settled at_ | woken at_ | beat at_ | hung at_ => rw [over_] at at_; cases at_

end Stream

/-- A stream while everything it reads may change between its steps. -/
structure Attended where
  stream : Stream
  sight : Sight
  /-- The store has shown the sender without the right. -/
  withdrawn : Bool
  /-- The frames whose writes were started, each with whether that was so by then. -/
  started : List (Frame × Bool)

inductive Attending where
  | see (sight : Sight)
  | serve (wake : Wake)

/-- The store can be read and shows the sender unpaired or without the right. -/
def Sight.bars (v : Sight) (sender : NodeId) : Bool :=
  match v.pins with
  | .error _ => false
  | .ok pins => !Trust.shows pins sender .bench

namespace Attended

def start (node sender : NodeId) (job : JobId) (fromSeq : UInt64) (v : Sight) : Attended where
  stream := .attach node sender job fromSeq
  sight := v
  withdrawn := v.bars sender
  started := []

def step (w : Attended) : Attending → Option Attended
  | .see v => some { w with sight := v, withdrawn := w.withdrawn || v.bars w.stream.sender }
  | .serve wake =>
      (w.stream.step w.sight wake).map fun (stream, frame) =>
        { w with
          stream := stream
          started := w.started ++ frame.toList.map (·, w.withdrawn) }

/-- After the right was withdrawn no write was started but of one refusal. -/
structure Cut (w : Attended) : Prop where
  quiet : ∀ p ∈ w.started, p.2 = true → p.1.isRefusal = true
  once : w.started.countP (·.1.isRefusal) ≤ 1

/-- The right is withdrawn when nothing that was read waits to be written. From then on a
pass that was checked before finds nothing to read and the job not at its end, a wait is
not ended by the heartbeat's interval, and the right is not back at the next check. -/
def Spent (w : Attended) : Attending → Prop
  | .see v => v.bars w.stream.sender = true → w.stream.unsent = []
  | .serve (.go _) => w.withdrawn = true → w.stream.idle w.sight = true
  | .serve (.tick _) => w.withdrawn = false
  | .serve _ => True

variable {w m : Attended} {move : Attending}

/-- What a run keeps whose steps all meet the condition. -/
structure Kept (w : Attended) : Prop where
  quiet : ∀ p ∈ w.started, p.2 = true → p.1.isRefusal = true
  spent : w.withdrawn = true → w.stream.unsent = []
  refusals : w.started.countP (·.1.isRefusal) = 0 ∨
    w.stream.stage = .over_ ∧ w.started.countP (·.1.isRefusal) = 1

theorem Kept.silent (h : Kept w) {stream : Stream} (going : w.stream.stage ≠ .over_)
    (spent : w.withdrawn = true → stream.unsent = []) :
    Kept { w with stream := stream, started := w.started ++ [] } where
  quiet := by rw [List.append_nil]; exact h.quiet
  spent := spent
  refusals := by
    rw [List.append_nil]
    exact .inl (h.refusals.resolve_right fun over_ => going over_.1)

theorem Kept.sends (h : Kept w) {stream : Stream} (going : w.stream.stage ≠ .over_)
    (e : BenchEvent) (before : w.withdrawn = false) :
    Kept { w with stream := stream, started := w.started ++ [(.event e, w.withdrawn)] } where
  quiet := fun p member after => by
    rw [List.mem_append, List.mem_singleton] at member
    obtain member | rfl := member
    · exact h.quiet p member after
    · exact absurd (before.symm.trans after) nofun
  spent := fun after => absurd (before.symm.trans after) nofun
  refusals := .inl (by
    rw [List.countP_append, h.refusals.resolve_right fun over_ => going over_.1]
    rfl)

theorem Kept.refuses (h : Kept w) (going : w.stream.stage ≠ .over_) (refusal : BenchRefusal) :
    Kept { w with
      stream := w.stream.to_ .over_
      started := w.started ++ [(.refused w.stream.node refusal, w.withdrawn)] } where
  quiet := fun p member after => by
    rw [List.mem_append, List.mem_singleton] at member
    obtain member | rfl := member
    · exact h.quiet p member after
    · rfl
  spent := fun _ => rfl
  refusals := .inr ⟨rfl, by
    rw [List.countP_append, h.refusals.resolve_right fun over_ => going over_.1]
    rfl⟩

theorem Kept.step (h : Kept w) (spent : Spent w move) (hstep : w.step move = some m) :
    Kept m := by
  cases move with
  | see v =>
      cases hstep
      refine ⟨h.quiet, fun after => ?_, h.refusals⟩
      rw [Bool.or_eq_true] at after
      exact after.elim h.spent spent
  | serve wake =>
      obtain ⟨⟨stream, frame⟩, moved, rfl⟩ := Option.map_eq_some_iff.mp hstep
      have goes := Stream.step_goes moved
      have going := goes.going
      cases goes with
      | refused _ => exact h.refuses going _
      | entered _ _ | passed _ _ | unread _ _ | looked _ | measured _ | settled _ _ | woken _ _
      | hung _ => exact h.silent going fun _ => rfl
      | read at_ read =>
          refine h.silent going fun after => ?_
          have nothing := spent after
          simp only [Stream.idle, at_, read, Option.all_some, List.isEmpty_iff] at nothing
          exact nothing
      | wrote at_ =>
          refine h.sends going _ (Bool.eq_false_iff.mpr fun after => ?_)
          have unsent := h.spent after
          rw [Stream.unsent, at_] at unsent
          cases unsent
      | closed at_ terminal short =>
          refine h.sends going _ (Bool.eq_false_iff.mpr fun after => ?_)
          have open_ := spent after
          simp [Stream.idle, at_, terminal, short] at open_
      | beat _ => exact h.sends going _ spent

/-- Where every step meets the condition, nothing is sent after the right is withdrawn but
one refusal. -/
theorem revoked_stream_cut {node sender : NodeId} {job : JobId} {fromSeq : UInt64} {v : Sight}
    {moves : List Attending}
    (run : Run step Spent (start node sender job fromSeq v) moves m) : Cut m := by
  have first : Kept (start node sender job fromSeq v) := ⟨nofun, fun _ => rfl, .inl rfl⟩
  have kept := Run.invariant run first fun _ _ _ h spent hstep => h.step spent hstep
  refine ⟨kept.quiet, ?_⟩
  obtain none_ | ⟨-, one⟩ := kept.refusals
  · exact none_ ▸ Nat.zero_le 1
  · exact Nat.le_of_eq one

instance (w : Attended) (move : Attending) : Decidable (w.Spent move) :=
  match move with
  | .see _ => inferInstanceAs (Decidable (_ → _))
  | .serve (.go _) => inferInstanceAs (Decidable (_ → _))
  | .serve (.tick _) => inferInstanceAs (Decidable (_ = _))
  | .serve .changed | .serve .hangup => .isTrue trivial

theorem sampleJob_accepted : checkToken "jb-1-0" 64 ['-'] = .ok () := by decide

def sampleJob : JobId := ⟨"jb-1-0", sampleJob_accepted⟩

/-- One journaled event, a job that runs, and a sender with the right or without. -/
def sampleSight (granted : Bool) (high : UInt64) : Sight where
  pins := .ok [⟨7, "ab", "laptop", 0, none, true, granted⟩]
  configured := true
  record := some .running
  opened := true
  replay start := some (if start ≤ 1 then [⟨sampleJob, 1, 0, .queued 1⟩] else [])
  high := high
  nowS := 0

def goOn (n : Nat) : List Attending := List.replicate n (.serve (.go false))

/-- The right is withdrawn in a wait that the journal ends. -/
theorem revoked_waiting_cut : ∃ m,
    Run step Spent (start 1 7 sampleJob 1 (sampleSight true 1))
      (goOn 7 ++ [Attending.see (sampleSight false 2), Attending.serve .changed,
        Attending.serve (.go false)]) m ∧
      Cut m ∧ m.started.map (fun p => (p.1.isRefusal, p.2)) = [(false, false), (true, true)] := by
  have runs : (replay step Spent (start 1 7 sampleJob 1 (sampleSight true 1))
      (goOn 7 ++ [Attending.see (sampleSight false 2), Attending.serve .changed,
        Attending.serve (.go false)])).map
        (fun m => m.started.map fun p => (p.1.isRefusal, p.2)) =
      some [(false, false), (true, true)] := by decide +kernel
  obtain ⟨m, there, sent⟩ := Option.map_eq_some_iff.mp runs
  exact ⟨m, .of_replay there, revoked_stream_cut (.of_replay there), sent⟩

/-- The right is withdrawn when an event was read and is not yet written. -/
theorem revoked_reading_sent : ∃ m,
    Run step Free (start 1 7 sampleJob 1 (sampleSight true 1))
      (goOn 3 ++ .see (sampleSight false 1) :: goOn 1) m ∧ ¬Cut m := by
  have runs : (replay step Free (start 1 7 sampleJob 1 (sampleSight true 1))
      (goOn 3 ++ .see (sampleSight false 1) :: goOn 1)).map (·.started) =
      some [(.event ⟨sampleJob, 1, 0, .queued 1⟩, true)] := by decide +kernel
  obtain ⟨m, there, sent⟩ := Option.map_eq_some_iff.mp runs
  refine ⟨m, .of_replay there, fun cut => ?_⟩
  have sends : (.event ⟨sampleJob, 1, 0, .queued 1⟩, true) ∈ m.started := by
    rw [sent]
    exact List.mem_singleton_self _
  cases cut.quiet _ sends rfl

end Attended

end Bench
end Metralectl
