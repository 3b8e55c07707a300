import Metralectl.Bench.Attaching
import Metralectl.Bench.Fetching
import Metralectl.Bench.Journal

/-!
Following a job over dropped links: the journal that grows, the loop that serves it, the
frames under way, and the follower that attaches again from where it was.
-/
namespace Metralectl
namespace Bench
open Runs Utf8

def maxFrame : Nat := 2 ^ 20

/-- The frame an event is sent in. -/
def BenchEvent.frame (e : BenchEvent) : Text :=
  "\x7b\"type\":\"bench_event\",\"event\":".toList ++ e.text ++ ['}']

/-- Writing a frame is refused where it is too long. -/
def BenchEvent.fits (e : BenchEvent) : Bool := (encode e.frame).length ≤ maxFrame

def Frame.fits : Frame → Bool
  | .event e => e.fits
  | .refused _ _ => true

/-- What a frame is for the reader of an attached stream that has seen the events to a number. -/
inductive Heard where
  | skip
  | event (e : BenchEvent)
  /-- The job is over and no more is to come. -/
  | ended
  | gap (seq : UInt64)
  | refused (by_ : NodeId) (refusal : BenchRefusal)

def heard (lastSeq : UInt64) : Frame → Heard
  | .refused by_ refusal => .refused by_ refusal
  | .event e =>
      match e.kind with
      | .heartbeat state seqHigh =>
          if state.isTerminal && seqHigh ≤ lastSeq then .ended else .skip
      | _ =>
          if e.seq ≤ lastSeq then .skip
          else if lastSeq ≠ 0 ∧ e.seq ≠ lastSeq + 1 then .gap e.seq
          else .event e

/-- What a followed job left behind. -/
structure Followed where
  outcome : Outcome
  lastSeq : UInt64
  verdict : Option Verdict
  artifacts : List ArtifactMeta
deriving DecidableEq

inductive FollowError where
  | link (e : BenchError)
  | refused (by_ : NodeId) (refusal : BenchRefusal)
deriving DecidableEq

inductive Phase where
  | dialling
  | attached (lastSeq : UInt64)
  /-- The stream was ended on purpose; the outcome is asked for. -/
  | asking
  | returned (left : Followed)
  | failed (e : FollowError)
deriving DecidableEq

/-- To which node, of which job, from which number on, and how many seconds of an outage
are waited out. -/
structure Following where
  given : String
  addr : SocketAddr
  node : NodeId
  sender : NodeId
  job : JobId
  fromSeq : UInt64
  budgetS : Nat

structure Follower where
  next_ : UInt64
  emitted : List BenchEvent
  verdict : Option Verdict
  artifacts : List ArtifactMeta
  /-- When the outage began, and how often it was tried again. -/
  outage : Option (Nat × Nat)
  phase : Phase
deriving DecidableEq

def BenchError.streamLost (message : String) : BenchError :=
  { BenchError.new .streamLost "stream_lost" message with retryable := true }

/-- Whether to try again, and how many seconds to wait first. -/
def nextAttempt (budgetS droppedAt now attempt : Nat) : Option Nat :=
  if budgetS = 0 ∨ budgetS ≤ now - droppedAt then none else some (min (2 * 2 ^ min attempt 4) 30)

namespace Follower

def start (w : Following) : Follower := ⟨max w.fromSeq 1, [], none, [], none, .dialling⟩

def fail (f : Follower) (e : FollowError) : Follower := { f with phase := .failed e }

def retryOr (w : Following) (f : Follower) (now : Nat) (err : BenchError) : Follower :=
  if err.retryable then
    let outage := f.outage.getD (now, 0)
    match nextAttempt w.budgetS outage.1 now outage.2 with
    | some _ => { f with outage := some (outage.1, outage.2 + 1), phase := .dialling }
    | none =>
        { f with outage := some outage }.fail (.link ((BenchError.streamLost
          s!"{err.message} (gave up after {w.budgetS}s of re-attaching)").at_
            (err.node.getD "?")))
  else f.fail (.link err)

/-- Fold an event into what the caller keeps. -/
def note (f : Follower) (e : BenchEvent) : Follower :=
  match e.kind with
  | .verdict v => { f with verdict := some v }
  | .artifact info => { f with artifacts := f.artifacts ++ [info] }
  | .done outcome =>
      { f with phase := .returned ⟨outcome, e.seq, f.verdict, f.artifacts⟩ }
  | _ => f

/-- An event is emitted, and is the last or moves the position on. -/
def take (f : Follower) (e : BenchEvent) : Follower :=
  { f with
    outage := none, next_ := e.seq + 1, emitted := f.emitted ++ [e]
    phase := .attached e.seq }.note e

/-- What a frame makes of the follower. -/
def on (w : Following) (f : Follower) (lastSeq : UInt64) (now : Nat) : Heard → Follower
  | .skip => f
  | .event e => f.take e
  | .ended => { f with phase := .asking }
  | .gap seq => f.retryOr w now ((BenchError.streamLost
      s!"{w.addr} skipped from seq {lastSeq.toNat} to {seq.toNat} — re-attach from {lastSeq.toNat + 1}").at_
        w.given)
  | .refused by_ refusal => f.fail (.refused by_ refusal)

/-- The status of a job that was over. -/
def answer (w : Following) (f : Follower) : Option Outcome → Follower
  | some outcome =>
      { f with phase := .returned ⟨outcome, f.next_ - 1, f.verdict, f.artifacts⟩ }
  | none => f.fail (.link ((BenchError.streamLost
      s!"{w.given} ended the stream for {w.job.text} (last seq {(f.next_ - 1).toNat}) but reports no outcome").at_
        w.given))

end Follower

/-- A job, its journal, the connection to its follower, and the follower. -/
structure Scene where
  /-- The events of the journal's file. -/
  events : List BenchEvent
  /-- The number the journal that is written through has come to. -/
  high : UInt64
  /-- A line is written whose number is not yet published. -/
  pending : Bool
  state : JobState
  outcome : Option Outcome
  stream : Option Stream
  /-- The number of the stream's own journal, if that is another. -/
  stale : Option UInt64
  /-- The frames that are under way, and whether those sent from now on are lost. -/
  wire : List Frame
  cut : Bool
  follower : Follower

/-- What a step of the serving loop meets. -/
structure Moment where
  pins : Except String Trust.Pins
  configured : Bool
  opened : Bool
  /-- The record can be read, and the journal. -/
  readable : Bool
  replays : Bool
  nowS : UInt64
  /-- Its frame is written whole. -/
  arrives : Bool

inductive Happening where
  | append (kind : EventKind) (atMs : UInt64)
  | publish
  | save (state : JobState) (outcome : Option Outcome)
  /-- The journal is closed and opened again. -/
  | reopen
  /-- The agent dies and starts again. -/
  | restart
  | serve (wake : Wake) (moment : Moment)
  | drop
  | attach (error : Option BenchError) (now : Nat)
  | receive (now : Nat)
  /-- The link is silent, broken or closed. -/
  | lose (text : String) (now : Nat)
  | ask (error : Option BenchError)

namespace Scene

def start (w : Following) (events : List BenchEvent) (state : JobState)
    (outcome : Option Outcome) : Scene where
  events := events
  high := .ofNat events.length
  pending := false
  state := state
  outcome := outcome
  stream := none
  stale := none
  wire := []
  cut := false
  follower := .start w

def sight (s : Scene) (m : Moment) : Sight where
  pins := m.pins
  configured := m.configured
  record := if m.readable then some s.state else none
  opened := m.opened
  replay := fun start =>
    if m.replays then some (s.events.filter fun e => decide (start ≤ e.seq)) else none
  high := s.stale.getD s.high
  nowS := m.nowS

/-- A frame too long is not written, and the stream goes on. -/
def send (s : Scene) (arrives : Bool) : Option Frame → Scene
  | none => s
  | some frame =>
      if frame.fits then
        if s.cut then s
        else if arrives then { s with wire := s.wire ++ [frame] }
        else { s with cut := true }
      else s

def hangUp (s : Scene) : Scene := { s with stream := none, wire := [], cut := true }

def step (w : Following) (s : Scene) : Happening → Option Scene
  | .append kind atMs =>
      if s.pending || kind.isHeartbeat then none
      else some { s with
        events := s.events ++ [⟨w.job, s.high + 1, atMs, kind⟩], pending := true }
  | .publish =>
      if s.pending then some { s with high := s.high + 1, pending := false } else none
  | .save state outcome => some { s with state := state, outcome := outcome }
  | .reopen =>
      some { s with
        stale := some (s.stale.getD s.high), high := .ofNat s.events.length, pending := false }
  | .restart =>
      some { s with
        stream := none, cut := true, high := .ofNat s.events.length, pending := false }
  | .serve wake m =>
      s.stream.bind fun stream =>
        (stream.step (s.sight m) wake).map fun (stream', frame) =>
          { s with stream := some stream' }.send m.arrives frame
  | .drop => some { s with cut := true }
  | .attach error now =>
      if s.follower.phase = .dialling then
        match error with
        | some e => some { s with follower := s.follower.retryOr w now e }
        | none => some { s with
            stream := some (.attach w.node w.sender w.job s.follower.next_)
            stale := none
            wire := []
            cut := false
            follower := { s.follower with phase := .attached (s.follower.next_ - 1) } }
      else none
  | .receive now =>
      match s.follower.phase, s.wire with
      | .attached lastSeq, frame :: rest =>
          let f := s.follower.on w lastSeq now (heard lastSeq frame)
          let s := { s with wire := rest, follower := f }
          if f.phase = .dialling then some s.hangUp else some s
      | _, _ => none
  | .lose text now =>
      match s.follower.phase with
      | .attached _ => some { s.hangUp with
          follower := s.follower.retryOr w now ((BenchError.streamLost text).at_ w.given) }
      | _ => none
  | .ask error =>
      match s.follower.phase, error with
      | .asking, some e => some { s with follower := s.follower.fail (.link e) }
      | .asking, none => some { s with follower := s.follower.answer w s.outcome }
      | _, _ => none

/-- The number the stream's journal shows. -/
def shown (s : Scene) : UInt64 := s.stale.getD s.high

def Served (s : Scene) : Prop := ∃ st ∈ s.stream, st.stage ≠ .over_

/-- The job's record is done, or its journal. -/
def Ended (s : Scene) : Prop := s.state = .done ∨ ∃ e ∈ s.events, e.kind.isDone = true

/-- Nothing is appended once the job has ended, nor past a stream that watches another
journal; the record is not done before what was appended is published, and then stays so;
the loop finds no record unreadable that is not done; and the first event can be sent, if it
is not the last. -/
def Orderly (w : Following) (s : Scene) : Happening → Prop
  | .append kind atMs =>
      s.events.length + 2 < 2 ^ 64 ∧ ¬s.Ended ∧ (s.Served → s.stale = none) ∧
        (s.events = [] → kind.isDone = true ∨ BenchEvent.fits ⟨w.job, s.high + 1, atMs, kind⟩ = true)
  | .save state _ => (s.state = .done → state = .done) ∧ (state = .done → s.pending = false)
  | .reopen => s.pending = false
  | .serve (.go _) m =>
      m.readable = false → (∃ st ∈ s.stream, st.stage = .writing []) → s.state = .done
  | _ => True

end Scene

/-- The events up to the end of the job. -/
def upToDone : List BenchEvent → List BenchEvent
  | [] => []
  | e :: es => if e.kind.isDone then [e] else e :: upToDone es

/-- What a follower from a number on is to see: nothing where the job was over before. -/
def owed (events : List BenchEvent) (start : UInt64) : List BenchEvent :=
  if events.any (fun e => e.kind.isDone && e.seq < start) then []
  else upToDone (events.filter (start ≤ ·.seq))

section Numbers
variable {es : List BenchEvent} {e : BenchEvent} {i : Nat}

abbrev Numbered (es : List BenchEvent) : Prop :=
  es.map (·.seq.toNat) = List.range' 1 es.length

theorem toNat_succ {a : UInt64} (h : a.toNat + 1 < 2 ^ 64) : (a + 1).toNat = a.toNat + 1 := by
  rw [UInt64.toNat_add]
  exact Nat.mod_eq_of_lt h

theorem toNat_max (a b : UInt64) : (max a b).toNat = max a.toNat b.toNat := by
  rw [show max a b = if a ≤ b then b else a from rfl]
  split
  · next low => exact (Nat.max_eq_right (UInt64.le_iff_toNat_le.mp low)).symm
  · next high =>
      rw [UInt64.le_iff_toNat_le] at high
      exact (Nat.max_eq_left (Nat.le_of_not_le high)).symm

theorem seq_at (h : Numbered es) (there : es[i]? = some e) : e.seq.toNat = i + 1 := by
  have at_ : (es.map (·.seq.toNat))[i]? = some e.seq.toNat := by
    rw [List.getElem?_map, there]
    rfl
  rw [h] at at_
  obtain ⟨_, same⟩ := List.getElem?_eq_some_iff.mp at_
  rw [List.getElem_range'] at same
  omega

theorem at_seq (h : Numbered es) (member : e ∈ es) :
    1 ≤ e.seq.toNat ∧ es[e.seq.toNat - 1]? = some e := by
  obtain ⟨i, there⟩ := List.mem_iff_getElem?.mp member
  have seq := seq_at h there
  rw [seq]
  exact ⟨Nat.le_add_left _ _, there⟩

theorem filter_from (h : Numbered es) (start : UInt64) :
    es.filter (fun e => decide (start ≤ e.seq)) = es.drop (start.toNat - 1) := by
  have early : ∀ e ∈ es.take (start.toNat - 1), ¬decide (start ≤ e.seq) = true := by
    intro e member
    obtain ⟨i, there⟩ := List.mem_iff_getElem?.mp member
    rw [List.getElem?_take] at there
    split at there
    · next low =>
        rw [decide_eq_true_eq, UInt64.le_iff_toNat_le, seq_at h there]
        omega
    · cases there
  have late : ∀ e ∈ es.drop (start.toNat - 1), decide (start ≤ e.seq) = true := by
    intro e member
    obtain ⟨i, there⟩ := List.mem_iff_getElem?.mp member
    rw [List.getElem?_drop] at there
    rw [decide_eq_true_eq, UInt64.le_iff_toNat_le, seq_at h there]
    omega
  conv_lhs => rw [← List.take_append_drop (start.toNat - 1) es]
  rw [List.filter_append, List.filter_eq_nil_iff.mpr early, List.filter_eq_self.mpr late,
    List.nil_append]

/-- Of a journal that ends where the job does, all is owed from the number on. -/
theorem owed_eq (h : Numbered es)
    (last : ∀ i e, es[i]? = some e → e.kind.isDone = true → i + 1 = es.length)
    (start : UInt64) : owed es start = es.drop (start.toNat - 1) := by
  have whole : ∀ front : List BenchEvent,
      (∀ i e, front[i]? = some e → e.kind.isDone = true → i + 1 = front.length) →
      upToDone front = front := by
    intro front
    induction front with
    | nil => exact fun _ => rfl
    | cons e rest ih =>
        intro last
        rw [upToDone]
        split
        · next done =>
            have one := last 0 e rfl done
            rw [List.length_cons] at one
            rw [List.eq_nil_of_length_eq_zero (by omega : rest.length = 0)]
        · rw [ih fun i e there done => by
            have one := last (i + 1) e there done
            rw [List.length_cons] at one
            omega]
  rw [owed]
  split
  · next over_ =>
      obtain ⟨e, member, done⟩ := List.any_eq_true.mp over_
      rw [Bool.and_eq_true, decide_eq_true_eq] at done
      obtain ⟨one, there⟩ := at_seq h member
      have at_ := last _ e there done.1
      have low := UInt64.lt_iff_toNat_lt.mp done.2
      rw [List.drop_eq_nil_of_le (by omega)]
  · rw [filter_from h, whole]
    intro i e there done
    rw [List.getElem?_drop] at there
    have at_ := last _ e there done
    rw [List.length_drop]
    omega

end Numbers

namespace Scene
variable {w : Following} {s t : Scene} {st : Stream}

/-- The journal: numbered from one, with the job's end last. -/
structure Log (s : Scene) : Prop where
  numbered : Numbered s.events
  room : s.events.length + 1 < 2 ^ 64
  high : s.high.toNat + (if s.pending then 1 else 0) = s.events.length
  plain : ∀ e ∈ s.events, e.kind.isHeartbeat = false
  last : ∀ (i : Nat) (e : BenchEvent), s.events[i]? = some e → e.kind.isDone = true → i + 1 = s.events.length
  closed : s.state = .done → s.pending = false
  first : ∀ e : BenchEvent, s.events[0]? = some e → e.kind.isDone = true ∨ e.fits = true

/-- A heartbeat that says the job is over is right, and came after the last event; any other
event is journaled. -/
def Truthful (s : Scene) : Frame → Prop
  | .refused _ _ => True
  | .event e =>
      match e.kind with
      | .heartbeat state seqHigh =>
          state = .done → s.state = .done ∧ s.events.length ≤ seqHigh.toNat
      | _ => e ∈ s.events

/-- A heartbeat the loop holds. -/
def Beating (s : Scene) (e : BenchEvent) : Prop :=
  ∃ state seqHigh, e.kind = .heartbeat state seqHigh ∧ s.Truthful (.event e)

/-- Where the loop is against the journal: what it read reaches at least as far as its watch
has seen, and once that is sent its position is past it. -/
structure Abreast (s : Scene) (st : Stream) : Prop where
  stale : ∀ high, s.stale = some high → high.toNat = s.events.length ∧ s.pending = false
  seen : st.stage ≠ .entering → st.seen.toNat ≤ s.shown.toNat
  one : 1 ≤ st.next_.toNat
  stage : match st.stage with
    | .writing batch => ∃ upto, batch = (s.events.take upto).drop (st.next_.toNat - 1) ∧
        st.seen.toNat ≤ upto ∧ upto ≤ s.events.length
    | .measuring state => st.seen.toNat < st.next_.toNat ∧ (state = .done → s.state = .done)
    | .judging state heartbeat => st.seen.toNat < st.next_.toNat ∧
        (state = .done → s.state = .done) ∧ s.Beating heartbeat
    | .waiting heartbeat => st.seen.toNat < st.next_.toNat ∧ s.Beating heartbeat
    | _ => True

/-- The numbers of the journaled events under way. -/
def underWay (wire : List Frame) : List Nat :=
  wire.filterMap fun
    | .refused _ _ => none
    | .event e => if e.kind.isHeartbeat then none else some e.seq.toNat

/-- A follower that has seen no event will first see the first. -/
def Leads (s : Scene) : Prop :=
  (underWay s.wire).head? = some 1 ∨ underWay s.wire = [] ∧
    (s.cut = true ∨ ∀ st, s.stream = some st → st.stage ≠ .over_ → st.next_.toNat = 1)

/-- What the follower has emitted, and what its phase says of the rest. -/
structure Placed (w : Following) (s : Scene) : Prop where
  low : (max w.fromSeq 1).toNat ≤ s.follower.next_.toNat
  reach : s.follower.next_ = max w.fromSeq 1 ∨ s.follower.next_.toNat ≤ s.events.length + 1
  emitted : s.follower.emitted =
    (s.events.take (s.follower.next_.toNat - 1)).drop ((max w.fromSeq 1).toNat - 1)
  phase : match s.follower.phase with
    | .attached lastSeq => lastSeq.toNat + 1 = s.follower.next_.toNat ∧
        (lastSeq = 0 → s.Leads)
    | .asking => s.state = .done ∧ s.events.length < s.follower.next_.toNat
    | .returned _ => s.Ended ∧ s.events.length < s.follower.next_.toNat
    | _ => True

structure Tracks (w : Following) (s : Scene) : Prop where
  log : s.Log
  stream : ∀ st, s.stream = some st → st.stage ≠ .over_ → s.Abreast st
  wire : ∀ frame ∈ s.wire, s.Truthful frame
  placed : s.Placed w

/-- The journal grows while the job has not ended, and the job stays ended. -/
structure Grows (s t : Scene) : Prop where
  events : s.events <+: t.events
  done : s.state = .done → t.state = .done
  ended : s.Ended → t.events = s.events

theorem Grows.refl (s : Scene) : Grows s s := ⟨List.prefix_rfl, id, fun _ => rfl⟩

theorem Grows.same (events : t.events = s.events) (state : t.state = s.state) : Grows s t :=
  ⟨events ▸ List.prefix_rfl, fun done => state ▸ done, fun _ => events⟩

theorem Grows.still (h : Grows s t) (ended : s.Ended) : t.Ended := by
  obtain done | there := ended
  · exact .inl (h.done done)
  · obtain ⟨e, member, done⟩ := there
    exact .inr ⟨e, h.events.subset member, done⟩

theorem Grows.truthful (h : Grows s t) {frame : Frame} (truth : s.Truthful frame) :
    t.Truthful frame := by
  cases frame with
  | refused _ _ => trivial
  | event e =>
      simp only [Truthful] at truth ⊢
      split at truth
      · next state seqHigh _ =>
          intro done
          obtain ⟨over_, high⟩ := truth done
          exact ⟨h.done over_, (h.ended (.inl over_)) ▸ high⟩
      · exact h.events.subset truth

theorem Grows.beating (h : Grows s t) {e : BenchEvent} (beat : s.Beating e) : t.Beating e := by
  obtain ⟨state, seqHigh, kind, truth⟩ := beat
  exact ⟨state, seqHigh, kind, h.truthful truth⟩

theorem Grows.take (h : Grows s t) {n : Nat} (within : n ≤ s.events.length) :
    t.events.take n = s.events.take n := by
  obtain ⟨more, grown⟩ := h.events
  rw [← grown, List.take_append_of_le_length within]

theorem Grows.abreast (h : Grows s t) (abreast : s.Abreast st)
    (stale : ∀ high, t.stale = some high → high.toNat = t.events.length ∧ t.pending = false)
    (shown : s.shown.toNat ≤ t.shown.toNat) : t.Abreast st where
  stale := stale
  seen := fun entered => (abreast.seen entered).trans shown
  one := abreast.one
  stage := by
    have here := abreast.stage
    split at here
    · next batch _ =>
        obtain ⟨upto, read, seen, within⟩ := here
        exact ⟨upto, by rw [h.take within]; exact read, seen,
          within.trans h.events.length_le⟩
    · exact ⟨here.1, fun done => h.done (here.2 done)⟩
    · exact ⟨here.1, fun done => h.done (here.2.1 done), h.beating here.2.2⟩
    · exact ⟨here.1, h.beating here.2⟩
    · trivial

theorem Grows.placed (h : Grows s t) (placed : s.Placed w) (follower : t.follower = s.follower)
    (leads : s.Leads → t.Leads) : t.Placed w where
  low := follower ▸ placed.low
  reach := by
    rw [follower]
    exact placed.reach.imp_right fun reach => reach.trans (Nat.succ_le_succ h.events.length_le)
  emitted := by
    rw [follower, placed.emitted]
    obtain at_ | reach := placed.reach
    · rw [at_, List.drop_eq_nil_of_le (by rw [List.length_take]; exact Nat.min_le_left _ _),
        List.drop_eq_nil_of_le (by rw [List.length_take]; exact Nat.min_le_left _ _)]
    · rw [h.take (by omega)]
  phase := by
    rw [follower]
    have here := placed.phase
    revert here
    cases s.follower.phase with
    | attached lastSeq => exact fun here => ⟨here.1, fun none_ => leads (here.2 none_)⟩
    | asking => exact fun here => ⟨h.done here.1, h.ended (.inl here.1) ▸ here.2⟩
    | returned _ => exact fun here => ⟨h.still here.1, h.ended here.1 ▸ here.2⟩
    | _ => exact id

section World
variable {kind : EventKind} {atMs : UInt64}

theorem Log.shown (log : s.Log) (abreast : s.Abreast st) : s.shown.toNat ≤ s.events.length := by
  rw [Scene.shown]
  cases other : s.stale with
  | none =>
      have high := log.high
      rw [Option.getD_none]
      omega
  | some high => exact (abreast.stale high other).1.le

theorem Tracks.append (h : s.Tracks w) (orderly : s.Orderly w (.append kind atMs))
    (hstep : s.step w (.append kind atMs) = some t) : t.Tracks w := by
  simp only [step] at hstep
  split at hstep
  · cases hstep
  · next free =>
      cases hstep
      simp only [Bool.or_eq_true, not_or, Bool.not_eq_true] at free
      obtain ⟨room, going, shared, small⟩ := orderly
      have high := h.log.high
      rw [free.1] at high
      have number : (s.high + 1).toNat = s.events.length + 1 := by
        rw [toNat_succ (by simp at high; omega)]
        simp at high
        omega
      have grows : Grows s { s with
          events := s.events ++ [⟨w.job, s.high + 1, atMs, kind⟩], pending := true } :=
        ⟨List.prefix_append _ _, id, fun ended => absurd ended going⟩
      refine ⟨?_, fun st here run => ?_, fun frame under => grows.truthful (h.wire frame under),
        grows.placed h.placed rfl id⟩
      · constructor
        · simp only [Numbered, List.map_append, List.map_cons, List.map_nil, List.length_append,
            List.length_singleton, List.range'_1_concat]
          rw [number, h.log.numbered, Nat.add_comm 1]
        · simp only [List.length_append, List.length_singleton]
          omega
        · simp only [List.length_append, List.length_singleton]
          simp at high ⊢
          exact high
        · intro e member
          rw [List.mem_append, List.mem_singleton] at member
          obtain old | rfl := member
          · exact h.log.plain e old
          · exact free.2
        · intro i e there done
          rw [List.getElem?_append] at there
          split at there
          · exact absurd (.inr ⟨e, List.mem_of_getElem? there, done⟩) going
          · next past =>
              obtain ⟨within, -⟩ := List.getElem?_eq_some_iff.mp there
              simp only [List.length_append, List.length_singleton] at within ⊢
              omega
        · exact fun done => absurd (.inl done) going
        · intro e there
          cases events : s.events with
          | nil =>
              simp only [events, List.nil_append, List.getElem?_cons_zero] at there
              cases there
              exact small events
          | cons first rest =>
              simp only [events, List.cons_append, List.getElem?_cons_zero] at there
              cases there
              exact h.log.first _ (by rw [events]; rfl)
      · have abreast := h.stream st here run
        refine grows.abreast abreast (fun high other => ?_) (Nat.le_refl _)
        have none_ := shared ⟨st, here, run⟩
        exact absurd (none_.symm.trans other) nofun

theorem Tracks.publish (h : s.Tracks w) (hstep : s.step w .publish = some t) : t.Tracks w := by
  simp only [step] at hstep
  split at hstep
  · next pending =>
      cases hstep
      have high := h.log.high
      rw [if_pos pending] at high
      have number : (s.high + 1).toNat = s.events.length := by
        rw [toNat_succ (by have := h.log.room; omega), high]
      have grows : Grows s { s with high := s.high + 1, pending := false } := .same rfl rfl
      have log : Log { s with high := s.high + 1, pending := false } :=
        ⟨h.log.numbered, h.log.room, by simpa using number, h.log.plain, h.log.last,
          fun _ => rfl, h.log.first⟩
      refine ⟨log, fun st here run => ?_, fun frame under => grows.truthful (h.wire frame under),
        grows.placed h.placed rfl id⟩
      refine grows.abreast (h.stream st here run)
        (fun high other => ⟨((h.stream st here run).stale high other).1, rfl⟩) ?_
      rw [Scene.shown, Scene.shown]
      cases s.stale with
      | none =>
          simp only [Option.getD_none, number]
          omega
      | some _ => exact Nat.le_refl _
  · cases hstep

theorem Tracks.save (h : s.Tracks w) {state : JobState} {outcome : Option Outcome}
    (orderly : s.Orderly w (.save state outcome)) :
    Tracks w { s with state := state, outcome := outcome } := by
  have grows : Grows s { s with state := state, outcome := outcome } :=
    ⟨List.prefix_rfl, orderly.1, fun _ => rfl⟩
  refine ⟨⟨h.log.numbered, h.log.room, h.log.high, h.log.plain, h.log.last, orderly.2,
    h.log.first⟩, fun st here run => ?_, fun frame under => grows.truthful (h.wire frame under),
    grows.placed h.placed rfl id⟩
  exact grows.abreast (h.stream st here run) (h.stream st here run).stale (Nat.le_refl _)

theorem ofNat_events (log : s.Log) : (UInt64.ofNat s.events.length).toNat = s.events.length := by
  rw [UInt64.toNat_ofNat']
  exact Nat.mod_eq_of_lt (by have := log.room; omega)

theorem Log.reopened (log : s.Log) :
    Log { s with high := .ofNat s.events.length, pending := false } :=
  ⟨log.numbered, log.room, ofNat_events log, log.plain, log.last, fun _ => rfl, log.first⟩

theorem Tracks.reopen (h : s.Tracks w) (published : s.pending = false) :
    Tracks w { s with
      stale := some (s.stale.getD s.high), high := .ofNat s.events.length, pending := false } := by
  have grows : Grows s { s with
      stale := some (s.stale.getD s.high), high := .ofNat s.events.length, pending := false } :=
    .same rfl rfl
  have log := h.log.reopened
  refine ⟨⟨log.numbered, log.room, log.high, log.plain, log.last, log.closed, log.first⟩,
    fun st here run => ?_, fun frame under => grows.truthful (h.wire frame under),
    grows.placed h.placed rfl id⟩
  refine grows.abreast (h.stream st here run) (fun high other => ⟨?_, rfl⟩) (Nat.le_refl _)
  cases other
  cases before : s.stale with
  | none =>
      have high := h.log.high
      rw [published] at high
      simpa using high
  | some high => exact ((h.stream st here run).stale high before).1

theorem Tracks.restart (h : s.Tracks w) :
    Tracks w { s with
      stream := none, cut := true, high := .ofNat s.events.length, pending := false } := by
  have grows : Grows s { s with
      stream := none, cut := true, high := .ofNat s.events.length, pending := false } :=
    .same rfl rfl
  have log := h.log.reopened
  refine ⟨⟨log.numbered, log.room, log.high, log.plain, log.last, log.closed, log.first⟩,
    fun st here _ => absurd here.symm (Option.some_ne_none st),
    fun frame under => grows.truthful (h.wire frame under),
    grows.placed h.placed rfl fun leads => ?_⟩
  exact leads.imp_right fun none_ => ⟨none_.1, .inl rfl⟩

theorem Tracks.drop (h : s.Tracks w) : Tracks w { s with cut := true } := by
  have grows : Grows s { s with cut := true } := .same rfl rfl
  refine ⟨⟨h.log.numbered, h.log.room, h.log.high, h.log.plain, h.log.last, h.log.closed,
    h.log.first⟩, fun st here run => ?_, fun frame under => grows.truthful (h.wire frame under),
    grows.placed h.placed rfl fun leads => ?_⟩
  · exact grows.abreast (h.stream st here run) (h.stream st here run).stale (Nat.le_refl _)
  · exact leads.imp_right fun none_ => ⟨none_.1, .inl rfl⟩

end World

theorem Log.same (log : s.Log) (events : t.events = s.events) (high : t.high = s.high)
    (pending : t.pending = s.pending) (state : t.state = s.state) : t.Log where
  numbered := events ▸ log.numbered
  room := events ▸ log.room
  high := by rw [events, high, pending]; exact log.high
  plain := events ▸ log.plain
  last := events ▸ log.last
  closed := by rw [state, pending]; exact log.closed
  first := events ▸ log.first

section Server

/-- What becomes of a frame. -/
inductive Sent (s : Scene) : Option Frame → List Frame → Bool → Prop
  | nothing : Sent s none s.wire s.cut
  | lost {frame : Frame} : Sent s (some frame) s.wire true
  | refused {frame : Frame} : frame.fits = false → Sent s (some frame) s.wire s.cut
  | arrived {frame : Frame} : s.cut = false → Sent s (some frame) (s.wire ++ [frame]) s.cut

theorem send_sent (arrives : Bool) (frame : Option Frame) :
    ∃ wire cut, s.send arrives frame = { s with wire := wire, cut := cut } ∧
      s.Sent frame wire cut := by
  cases frame with
  | none => exact ⟨_, _, rfl, .nothing⟩
  | some frame =>
      simp only [send]
      split
      · split
        · next cut => exact ⟨s.wire, true, by rw [← cut], .lost⟩
        · next open_ =>
            rw [Bool.not_eq_true] at open_
            split
            · exact ⟨_, _, rfl, .arrived open_⟩
            · exact ⟨_, _, rfl, .lost⟩
      · next long => exact ⟨_, _, rfl, .refused (Bool.eq_false_iff.mpr long)⟩

theorem Sent.mem {wire : List Frame} {cut : Bool} {frame : Option Frame}
    (sent : s.Sent frame wire cut) {f : Frame} (under : f ∈ wire) : f ∈ s.wire ∨ frame = some f := by
  cases sent with
  | nothing | lost | refused _ => exact .inl under
  | arrived _ =>
      rw [List.mem_append, List.mem_singleton] at under
      exact under.imp_right fun same => congrArg some same.symm

/-- The head of what was read is the event at the position, and the rest is what comes after. -/
theorem Abreast.head {e : BenchEvent} {rest : List BenchEvent} (abreast : s.Abreast st)
    (stage : st.stage = .writing (e :: rest)) :
    s.events[st.next_.toNat - 1]? = some e ∧ ∃ upto, rest = (s.events.take upto).drop st.next_.toNat ∧
      st.seen.toNat ≤ upto ∧ upto ≤ s.events.length := by
  have here := abreast.stage
  rw [stage] at here
  obtain ⟨upto, batch, seen, within⟩ := here
  have one := abreast.one
  have at_ : (s.events.take upto)[st.next_.toNat - 1]? = some e := by
    have head := congrArg (·[0]?) batch
    simpa [List.getElem?_drop] using head.symm
  rw [List.getElem?_take] at at_
  split at at_
  · refine ⟨at_, upto, ?_, seen, within⟩
    have tail := congrArg List.tail batch
    rw [List.tail_cons, List.tail_drop, Nat.sub_add_cancel one] at tail
    exact tail
  · cases at_

theorem number_at (log : s.Log) {e : BenchEvent} {i : Nat} (there : s.events[i]? = some e) :
    e.seq.toNat = i + 1 ∧ (e.seq + 1).toNat = i + 2 ∧ i < s.events.length := by
  have seq := seq_at log.numbered there
  obtain ⟨within, -⟩ := List.getElem?_eq_some_iff.mp there
  refine ⟨seq, ?_, within⟩
  rw [toNat_succ (by have := log.room; omega), seq]

variable {m : Moment} {wake : Wake} {st' : Stream} {frame : Option Frame}

/-- A heartbeat taken when the record was read before is truthful. -/
theorem beating_measured (log : s.Log) (abreast : s.Abreast st) {state : JobState}
    (over_ : state = .done → s.state = .done) :
    s.Beating ⟨st.job, (s.sight m).high, (s.sight m).nowS * 1000,
      .heartbeat state (s.sight m).high⟩ := by
  refine ⟨state, _, rfl, fun done => ⟨over_ done, ?_⟩⟩
  rw [show (s.sight m).high = s.stale.getD s.high from rfl]
  cases other : s.stale with
  | none =>
      have high := log.high
      rw [log.closed (over_ done)] at high
      simp at high
      rw [Option.getD_none, high]
  | some high => exact (abreast.stale high other).1.ge

theorem abreast_goes (log : s.Log) (abreast : s.Abreast st)
    (goes : st.Goes (s.sight m) wake st' frame)
    (orderly : ∀ late, wake = .go late → m.readable = false → st.stage = .writing [] →
      s.state = .done) : st'.stage ≠ .over_ → s.Abreast st' := by
  intro run
  have one := abreast.one
  have seen := abreast.seen
  have shown := log.shown abreast
  cases goes with
  | refused _ | unread _ _ | closed _ _ _ | hung _ => exact absurd rfl run
  | entered _ _ | woken _ _ => exact ⟨abreast.stale, fun _ => Nat.le_refl _, one, trivial⟩
  | passed at_ _ => exact ⟨abreast.stale, fun _ => seen (by rw [at_]; nofun), one, trivial⟩
  | read at_ read =>
      have seen := seen (by rw [at_]; nofun)
      refine ⟨abreast.stale, fun _ => seen, one, s.events.length, ?_, seen.trans shown, le_rfl⟩
      simp only [sight] at read
      split at read
      · cases read
        rw [List.take_length, filter_from log.numbered]
        rfl
      · cases read
  | @wrote late e rest at_ =>
      have seen := seen (by rw [at_]; nofun)
      obtain ⟨there, upto, rest_, seen_, within⟩ := abreast.head at_
      obtain ⟨seq, next_, _⟩ := number_at log there
      refine ⟨abreast.stale, fun _ => seen, by simp only [next_]; omega, ?_⟩
      simp only at run ⊢
      split at run
      · exact absurd rfl run
      · next going =>
          rw [if_neg going]
          refine ⟨upto, ?_, seen_, within⟩
          rw [rest_, next_]
          congr 1
          omega
  | looked at_ =>
      have seen := seen (by rw [at_]; nofun)
      have here := abreast.stage
      rw [at_] at here
      obtain ⟨upto, read, seen_, within⟩ := here
      have past := List.drop_eq_nil_iff.mp read.symm
      rw [List.length_take, Nat.min_eq_left within] at past
      refine ⟨abreast.stale, fun _ => seen, one, ?_, fun done => ?_⟩
      · change st.seen.toNat < st.next_.toNat
        omega
      · simp only [sight] at done
        cases readable : m.readable with
        | true =>
            rw [readable, if_pos rfl, Option.getD_some] at done
            exact done
        | false => exact orderly _ rfl readable at_
  | @measured late state at_ =>
      have seen := seen (by rw [at_]; nofun)
      have here := abreast.stage
      rw [at_] at here
      exact ⟨abreast.stale, fun _ => seen, one, here.1, here.2,
        beating_measured log abreast here.2⟩
  | settled at_ _ =>
      have seen := seen (by rw [at_]; nofun)
      have here := abreast.stage
      rw [at_] at here
      exact ⟨abreast.stale, fun _ => seen, one, here.1, here.2.2⟩
  | @beat late heartbeat at_ =>
      have seen := seen (by rw [at_]; nofun)
      cases late with
      | true => exact absurd rfl run
      | false => exact ⟨abreast.stale, fun _ => seen, one, trivial⟩

theorem truthful_goes (log : s.Log) (abreast : s.Abreast st)
    (goes : st.Goes (s.sight m) wake st' frame) {f : Frame} (sent : frame = some f) :
    s.Truthful f := by
  have beating {e : BenchEvent} (beat : s.Beating e) : s.Truthful (.event e) := by
    obtain ⟨_, _, _, truth⟩ := beat
    exact truth
  have here := abreast.stage
  cases goes with
  | refused _ =>
      cases sent
      trivial
  | entered _ _ | passed _ _ | unread _ _ | read _ _ | looked _ | measured _ | settled _ _
  | woken _ _ | hung _ => cases sent
  | wrote at_ =>
      cases sent
      obtain ⟨there, -⟩ := abreast.head at_
      have member := List.mem_of_getElem? there
      have plain := log.plain _ member
      simp only [Truthful]
      split
      · next kind =>
          rw [kind] at plain
          cases plain
      · exact member
  | closed at_ _ _ =>
      cases sent
      rw [at_] at here
      exact beating here.2.2
  | beat at_ =>
      cases sent
      rw [at_] at here
      exact beating here.2

theorem underWay_append (wire : List Frame) (f : Frame) :
    underWay (wire ++ [f]) = underWay wire ++ underWay [f] := List.filterMap_append

theorem underWay_beat {e : BenchEvent} (beat : s.Beating e) : underWay [.event e] = [] := by
  obtain ⟨_, _, kind, _⟩ := beat
  simp [underWay, kind, EventKind.isHeartbeat]

theorem leads_goes (log : s.Log) (abreast : s.Abreast st) (here : s.stream = some st)
    (goes : st.Goes (s.sight m) wake st' frame) {wire : List Frame} {cut : Bool}
    (sent : s.Sent frame wire cut) (h : s.Leads) :
    Leads { s with stream := some st', wire := wire, cut := cut } := by
  have going := goes.going
  -- The head of what is under way stays; where there is none and no link is cut, the loop
  -- stands at the first event.
  obtain head | ⟨none_, open_⟩ := h
  · cases sent with
    | nothing | lost | refused _ => exact .inl head
    | arrived _ =>
        refine .inl ?_
        rw [underWay_append, List.head?_append, head]
        rfl
  · cases cutBefore : s.cut with
    | true =>
        cases sent with
        | nothing | refused _ => exact .inr ⟨none_, .inl cutBefore⟩
        | lost => exact .inr ⟨none_, .inl rfl⟩
        | arrived stays => exact absurd (cutBefore.symm.trans stays) nofun
    | false =>
        have first : st.next_.toNat = 1 :=
          (open_.resolve_left (by rw [cutBefore]; nofun)) st here going
        have stays {stage : Serving} {seen : UInt64} (wire' : List Frame)
            (silent : underWay wire' = []) : Leads { s with
              stream := some { st with stage := stage, seen := seen }, wire := wire', cut := cut } :=
          .inr ⟨silent, .inr fun _ same _ => by cases same; exact first⟩
        have ends {stream : Stream} (over_ : stream.stage = .over_) (wire' : List Frame)
            (silent : underWay wire' = []) :
            Leads { s with stream := some stream, wire := wire', cut := cut } :=
          .inr ⟨silent, .inr fun _ same run => by cases same; exact absurd over_ run⟩
        have stage := abreast.stage
        cases goes with
        | refused _ =>
            cases sent with
            | lost | refused _ => exact ends rfl _ none_
            | arrived _ => exact ends rfl _ (by rw [underWay_append, none_]; rfl)
        | entered _ _ | passed _ _ | read _ _ | looked _ | measured _ | settled _ _
        | woken _ _ =>
            cases sent
            exact stays _ none_
        | unread _ _ | hung _ =>
            cases sent
            exact ends rfl _ none_
        | @wrote late e rest at_ =>
            obtain ⟨there, -⟩ := abreast.head at_
            rw [first] at there
            cases sent with
            | lost => exact .inr ⟨none_, .inl rfl⟩
            | refused long =>
                have done := (log.first e there).resolve_right (by
                  rw [show e.fits = false from long]
                  nofun)
                exact ends (by simp [done]) _ none_
            | arrived _ =>
                refine .inl ?_
                have seq := (number_at log there).1
                have plain := log.plain e (List.mem_of_getElem? there)
                rw [underWay_append, none_]
                simp [underWay, plain, seq]
        | closed at_ _ _ =>
            rw [at_] at stage
            cases sent with
            | lost | refused _ => exact ends rfl _ none_
            | arrived _ =>
                exact ends rfl _ (by rw [underWay_append, none_, underWay_beat stage.2.2]; rfl)
        | beat at_ =>
            rw [at_] at stage
            cases sent with
            | lost => exact .inr ⟨none_, .inl rfl⟩
            | refused _ => exact stays _ none_
            | arrived _ =>
                exact stays _ (by rw [underWay_append, none_, underWay_beat stage.2]; rfl)

theorem Tracks.serve (h : s.Tracks w) (orderly : s.Orderly w (.serve wake m))
    (hstep : s.step w (.serve wake m) = some t) : t.Tracks w := by
  obtain ⟨st, here, hstep⟩ := Option.bind_eq_some_iff.mp hstep
  obtain ⟨⟨st', frame⟩, moved, rfl⟩ := Option.map_eq_some_iff.mp hstep
  have goes := Stream.step_goes moved
  have abreast := h.stream st here goes.going
  obtain ⟨wire, cut, same, sent⟩ :=
    send_sent (s := { s with stream := some st' }) m.arrives frame
  change Tracks w ({ s with stream := some st' }.send m.arrives frame)
  rw [same]
  have grows : Grows s { s with stream := some st', wire := wire, cut := cut } := .same rfl rfl
  have sent : s.Sent frame wire cut := by
    cases sent with
    | nothing => exact .nothing
    | lost => exact .lost
    | refused long => exact .refused long
    | arrived open_ => exact .arrived open_
  refine ⟨h.log.same rfl rfl rfl rfl, fun stream run_ run => ?_, fun f under => ?_,
    grows.placed h.placed rfl (leads_goes h.log abreast here goes sent)⟩
  · cases run_
    have after := abreast_goes h.log abreast goes (fun late is_ readable at_ => by
      subst is_
      exact orderly readable ⟨st, here, at_⟩) run
    exact grows.abreast after after.stale (Nat.le_refl _)
  · exact grows.truthful ((sent.mem under).elim (h.wire f)
      fun is_ => truthful_goes h.log abreast goes is_)

end Server

section Client
variable {now : Nat} {f : Follower}

/-- Trying again and failing leave what was emitted. -/
structure Resting (f g : Follower) : Prop where
  next_ : g.next_ = f.next_
  emitted : g.emitted = f.emitted
  phase : g.phase = .dialling ∨ ∃ e, g.phase = .failed e

theorem resting_retry (f : Follower) (now : Nat) (e : BenchError) :
    Resting f (f.retryOr w now e) := by
  simp only [Follower.retryOr]
  split
  · split
    · exact ⟨rfl, rfl, .inl rfl⟩
    · exact ⟨rfl, rfl, .inr ⟨_, rfl⟩⟩
  · exact ⟨rfl, rfl, .inr ⟨_, rfl⟩⟩

theorem Placed.rests (h : s.Placed w) (events : t.events = s.events)
    (rests : Resting s.follower t.follower) : t.Placed w where
  low := rests.next_ ▸ h.low
  reach := by rw [rests.next_, events]; exact h.reach
  emitted := by rw [rests.next_, rests.emitted, events]; exact h.emitted
  phase := by
    obtain phase | ⟨e, phase⟩ := rests.phase
    · rw [phase]; trivial
    · rw [phase]; trivial

theorem Tracks.attach (h : s.Tracks w) {error : Option BenchError}
    (hstep : s.step w (.attach error now) = some t) : t.Tracks w := by
  simp only [step] at hstep
  split at hstep
  · next dialling =>
      cases error with
      | some e =>
          cases hstep
          have grows : Grows s { s with follower := s.follower.retryOr w now e } := .same rfl rfl
          refine ⟨h.log.same rfl rfl rfl rfl, fun st here run => ?_,
            fun frame under => grows.truthful (h.wire frame under),
            h.placed.rests rfl (resting_retry _ _ _)⟩
          have abreast := h.stream st here run
          exact grows.abreast abreast abreast.stale (Nat.le_refl _)
      | none =>
          cases hstep
          have one : UInt64.toNat 1 ≤ s.follower.next_.toNat := by
            have low := h.placed.low
            rw [toNat_max] at low
            exact (Nat.le_max_right _ _).trans low
          have same : max s.follower.next_ 1 = s.follower.next_ := by
            rw [← UInt64.toNat_inj, toNat_max]
            exact Nat.max_eq_left one
          refine ⟨h.log.same rfl rfl rfl rfl, fun st here run => ?_, List.forall_mem_nil _,
            ⟨h.placed.low, h.placed.reach, h.placed.emitted, ?_, fun none_ => ?_⟩⟩
          · cases here
            exact ⟨nofun, fun entered => absurd rfl entered, by
              simp only [Stream.attach, same]; exact one, trivial⟩
          · simp only
            rw [UInt64.toNat_sub_of_le _ _ (UInt64.le_iff_toNat_le.mpr one)]
            exact Nat.sub_add_cancel one
          · refine .inr ⟨rfl, .inr fun st here _ => ?_⟩
            cases here
            simp only [Stream.attach, same]
            have zero := congrArg UInt64.toNat none_
            rw [UInt64.toNat_sub_of_le _ _ (UInt64.le_iff_toNat_le.mpr one)] at zero
            change s.follower.next_.toNat - 1 = 0 at zero
            change 1 ≤ s.follower.next_.toNat at one
            change s.follower.next_.toNat = 1
            omega
  · cases hstep

theorem Tracks.hangUp (h : s.Tracks w) {g : Follower} (rests : Resting s.follower g) :
    Tracks w { s.hangUp with follower := g } :=
  ⟨h.log.same rfl rfl rfl rfl, fun st here _ => absurd here.symm (Option.some_ne_none st),
    List.forall_mem_nil _, h.placed.rests rfl rests⟩

theorem Tracks.lose (h : s.Tracks w) {text : String}
    (hstep : s.step w (.lose text now) = some t) : t.Tracks w := by
  simp only [step] at hstep
  split at hstep
  · cases hstep
    exact h.hangUp (resting_retry _ _ _)
  · cases hstep

theorem Tracks.ask (h : s.Tracks w) {error : Option BenchError}
    (hstep : s.step w (.ask error) = some t) : t.Tracks w := by
  have follows {g : Follower} (placed : Placed w { s with follower := g }) :
      Tracks w { s with follower := g } := by
    have grows : Grows s { s with follower := g } := .same rfl rfl
    refine ⟨h.log.same rfl rfl rfl rfl, fun st here run => ?_,
      fun frame under => grows.truthful (h.wire frame under), placed⟩
    have abreast := h.stream st here run
    exact grows.abreast abreast abreast.stale (Nat.le_refl _)
  simp only [step] at hstep
  split at hstep
  · cases hstep
    exact follows (h.placed.rests rfl ⟨rfl, rfl, .inr ⟨_, rfl⟩⟩)
  · next asking =>
      cases hstep
      have here := h.placed.phase
      rw [asking] at here
      refine follows ?_
      cases s.outcome with
      | some outcome =>
          exact ⟨h.placed.low, h.placed.reach, h.placed.emitted, .inl here.1, here.2⟩
      | none => exact h.placed.rests rfl ⟨rfl, rfl, .inr ⟨_, rfl⟩⟩
  · cases hstep

theorem heard_ended {lastSeq : UInt64} {frame : Frame} (h : heard lastSeq frame = .ended)
    (truth : s.Truthful frame) : s.state = .done ∧ s.events.length ≤ lastSeq.toNat := by
  cases frame with
  | refused _ _ => cases h
  | event e =>
      simp only [heard] at h
      simp only [Truthful] at truth
      split at h
      · next state seqHigh kind =>
          rw [kind] at truth
          split at h
          · next over_ =>
              rw [Bool.and_eq_true, decide_eq_true_eq] at over_
              obtain ⟨done, high⟩ := truth (by
                have terminal := over_.1
                rw [JobState.isTerminal, decide_eq_true_eq] at terminal
                exact terminal)
              exact ⟨done, high.trans (UInt64.le_iff_toNat_le.mp over_.2)⟩
          · cases h
      · split at h
        · cases h
        · split at h
          · cases h
          · cases h

theorem heard_event {lastSeq : UInt64} {frame : Frame} {e : BenchEvent}
    (h : heard lastSeq frame = .event e) (truth : s.Truthful frame) :
    frame = .event e ∧ e ∈ s.events ∧ (lastSeq = 0 ∨ e.seq = lastSeq + 1) := by
  cases frame with
  | refused _ _ => cases h
  | event e' =>
      simp only [heard] at h
      simp only [Truthful] at truth
      split at h
      · split at h
        · cases h
        · cases h
      · next plain =>
          split at h
          · cases h
          · split at h
            · cases h
            · next near =>
                cases h
                refine ⟨rfl, ?_, ?_⟩
                · split at truth
                  · next kind => exact absurd kind (plain _ _)
                  · exact truth
                · by_cases zero : lastSeq = 0
                  · exact .inl zero
                  · by_contra apart
                    exact near ⟨zero, fun same => apart (.inr same)⟩

/-- What is skipped before anything was seen is no event. -/
theorem heard_skip {frame : Frame} (log : s.Log) (h : heard 0 frame = .skip)
    (truth : s.Truthful frame) (wire : List Frame) : underWay (frame :: wire) = underWay wire := by
  cases frame with
  | refused _ _ => cases h
  | event e =>
      simp only [heard] at h
      simp only [Truthful] at truth
      split at h
      · next kind => simp [underWay, kind, EventKind.isHeartbeat]
      · next plain =>
          split at h
          · next low =>
              have member : e ∈ s.events := by
                split at truth
                · next kind => exact absurd kind (plain _ _)
                · exact truth
              have one := (at_seq log.numbered member).1
              have zero := UInt64.le_iff_toNat_le.mp low
              simp at zero
              omega
          · split at h
            · cases h
            · cases h

theorem take_taken (f : Follower) (e : BenchEvent) :
    (f.take e).next_ = e.seq + 1 ∧ (f.take e).emitted = f.emitted ++ [e] ∧
      (e.kind.isDone = false ∧ (f.take e).phase = .attached e.seq ∨
        e.kind.isDone = true ∧ ∃ left, (f.take e).phase = .returned left) := by
  simp only [Follower.take, Follower.note]
  split
  · next kind => exact ⟨rfl, rfl, .inl ⟨by rw [kind]; rfl, rfl⟩⟩
  · next kind => exact ⟨rfl, rfl, .inl ⟨by rw [kind]; rfl, rfl⟩⟩
  · next kind => exact ⟨rfl, rfl, .inr ⟨by rw [kind]; rfl, _, rfl⟩⟩
  · next other =>
      refine ⟨rfl, rfl, .inl ⟨?_, rfl⟩⟩
      cases kind : e.kind with
      | done outcome => exact absurd kind (other outcome)
      | _ => rfl

/-- The event at the position is emitted. -/
theorem Placed.taken (log : s.Log) (h : s.Placed w) {e : BenchEvent} (wire : List Frame)
    (there : s.events[s.follower.next_.toNat - 1]? = some e) (one : 1 ≤ s.follower.next_.toNat) :
    Placed w { s with wire := wire, follower := s.follower.take e } := by
  obtain ⟨seq, next_, within⟩ := number_at log there
  obtain ⟨position, emitted, phase⟩ := take_taken s.follower e
  have low := h.low
  refine ⟨?_, .inr ?_, ?_, ?_⟩
  · simp only [position, next_]
    omega
  · simp only [position, next_]
    omega
  · simp only [position, next_, emitted, h.emitted]
    rw [show s.follower.next_.toNat - 1 + 2 - 1 = s.follower.next_.toNat - 1 + 1 by omega,
      List.take_add_one, there, Option.toList_some, List.drop_append_of_le_length]
    rw [List.length_take]
    omega
  · obtain ⟨-, attached⟩ | ⟨done, left, returned⟩ := phase
    · simp only [attached, position]
      refine ⟨by rw [next_]; omega, fun zero => ?_⟩
      rw [zero] at seq
      simp at seq
    · simp only [returned, position]
      refine ⟨.inr ⟨e, List.mem_of_getElem? there, done⟩, ?_⟩
      have at_ := log.last _ e there done
      change s.events.length < (e.seq + 1).toNat
      omega

theorem Tracks.receive (h : s.Tracks w) (hstep : s.step w (.receive now) = some t) :
    t.Tracks w := by
  simp only [step] at hstep
  split at hstep
  · next lastSeq frame rest attached under =>
      have here := h.placed.phase
      rw [attached] at here
      obtain ⟨last, leads⟩ := here
      have truth := h.wire frame (by rw [under]; exact List.mem_cons_self)
      have follows {g : Follower} (placed : Placed w { s with wire := rest, follower := g }) :
          Tracks w { s with wire := rest, follower := g } := by
        have grows : Grows s { s with wire := rest, follower := g } := .same rfl rfl
        refine ⟨h.log.same rfl rfl rfl rfl, fun st here run => ?_, fun frame later =>
          grows.truthful (h.wire frame (by rw [under]; exact List.mem_cons_of_mem _ later)), placed⟩
        have abreast := h.stream st here run
        exact grows.abreast abreast abreast.stale (Nat.le_refl _)
      have resting {g : Follower} (rests : Resting s.follower g)
          (hstep : (if g.phase = .dialling then
            some (Scene.hangUp { s with wire := rest, follower := g })
            else some { s with wire := rest, follower := g }) = some t) : t.Tracks w := by
        split at hstep
        · cases hstep
          exact h.hangUp rests
        · cases hstep
          exact follows (h.placed.rests rfl rests)
      cases sound : heard lastSeq frame with
      | refused by_ refusal =>
          rw [sound] at hstep
          exact resting (g := s.follower.fail (.refused by_ refusal))
            ⟨rfl, rfl, .inr ⟨_, rfl⟩⟩ hstep
      | gap seq =>
          rw [sound] at hstep
          exact resting (resting_retry _ _ _) hstep
      | ended =>
          rw [sound] at hstep
          cases hstep
          obtain ⟨done, short⟩ := heard_ended sound truth
          refine follows ⟨h.placed.low, h.placed.reach, h.placed.emitted, done, ?_⟩
          change s.events.length < s.follower.next_.toNat
          omega
      | skip =>
          rw [sound] at hstep
          simp only [Follower.on, attached] at hstep
          cases hstep
          refine follows ⟨h.placed.low, h.placed.reach, h.placed.emitted, ?_⟩
          simp only [attached]
          refine ⟨last, fun zero => ?_⟩
          rw [zero] at sound
          have same := heard_skip h.log sound truth rest
          have before := leads zero
          rw [Leads, under, same] at before
          exact before
      | event e =>
          rw [sound] at hstep
          obtain ⟨rfl, member, near⟩ := heard_event sound truth
          obtain ⟨one, at_⟩ := at_seq h.log.numbered member
          have position : e.seq.toNat = s.follower.next_.toNat := by
            obtain zero | after := near
            · have first := leads zero
              have plain := h.log.plain e member
              rw [zero] at last
              simp at last
              rw [Leads, under] at first
              simp [underWay, plain] at first
              omega
            · rw [after, toNat_succ (by
                have := s.follower.next_.toNat_lt
                omega), last]
          rw [position] at at_
          have placed := h.placed.taken h.log rest at_ (position ▸ one)
          have on : (s.follower.take e).phase ≠ .dialling := by
            obtain ⟨-, -, ⟨-, phase⟩ | ⟨-, left, phase⟩⟩ := take_taken s.follower e
            · rw [phase]; nofun
            · rw [phase]; nofun
          split at hstep
          · next back => exact absurd back on
          · cases hstep
            exact follows placed
  · cases hstep

end Client

/-- The follower of a job that ended was told what it was owed, each event once and in order;
and the loop's wait ends where there is more to send. -/
structure Told (w : Following) (s : Scene) : Prop where
  whole : ∀ left, s.follower.phase = .returned left →
    s.follower.emitted = owed s.events w.fromSeq
  ordered : s.follower.emitted.Pairwise fun a b => a.seq < b.seq
  woken : ∀ st heartbeat, s.stream = some st → st.stage = .waiting heartbeat →
    (∃ e ∈ s.events, st.next_ ≤ e.seq ∧ e.seq ≤ s.high) →
    ∀ m, (st.step (s.sight m) .changed).isSome = true

theorem Tracks.told (h : s.Tracks w) : s.Told w where
  whole := fun left returned => by
    have here := h.placed.phase
    rw [returned] at here
    have same : (max w.fromSeq 1).toNat - 1 = w.fromSeq.toNat - 1 := by
      rw [toNat_max, show UInt64.toNat 1 = 1 from rfl]
      omega
    rw [owed_eq h.log.numbered h.log.last, h.placed.emitted, same,
      List.take_of_length_le (by omega)]
  ordered := by
    have rising : s.events.Pairwise fun a b => a.seq < b.seq := by
      have numbers := List.pairwise_lt_range' (s := 1) (n := s.events.length)
      rw [← h.log.numbered, List.pairwise_map] at numbers
      exact numbers.imp UInt64.lt_iff_toNat_lt.mpr
    rw [h.placed.emitted]
    exact (rising.sublist (List.take_sublist _ _)).sublist (List.drop_sublist _ _)
  woken := fun st heartbeat here waiting ⟨e, member, due, published⟩ m => by
    have abreast := h.stream st here (by rw [waiting]; nofun)
    have stage := abreast.stage
    rw [waiting] at stage
    have due := UInt64.le_iff_toNat_le.mp due
    have shown : e.seq.toNat ≤ s.shown.toNat := by
      rw [Scene.shown]
      cases other : s.stale with
      | none => exact UInt64.le_iff_toNat_le.mp published
      | some high =>
          rw [Option.getD_some, (abreast.stale high other).1]
          have := (number_at h.log (at_seq h.log.numbered member).2).2.2
          have := (at_seq h.log.numbered member).1
          omega
    have moved : st.seen ≠ (s.sight m).high := by
      intro same
      have same : st.seen.toNat = s.shown.toNat := congrArg UInt64.toNat same
      omega
    simp only [Stream.step, waiting, if_neg moved, Option.isSome_some]

theorem Tracks.start (w : Following) : Tracks w (start w [] .queued none) := by
  refine ⟨⟨rfl, Nat.one_lt_two_pow (by decide), rfl, List.forall_mem_nil _,
      fun i e there => absurd there (Option.some_ne_none e).symm, nofun,
      fun e there => absurd there (Option.some_ne_none e).symm⟩,
    fun st here _ => absurd here.symm (Option.some_ne_none st), List.forall_mem_nil _,
    ⟨le_rfl, .inl rfl, ?_, trivial⟩⟩
  simp [Scene.start, Follower.start]

theorem Tracks.step {a : Happening} (h : s.Tracks w) (orderly : s.Orderly w a)
    (hstep : s.step w a = some t) : t.Tracks w := by
  cases a with
  | append kind atMs => exact h.append orderly hstep
  | publish => exact h.publish hstep
  | save state outcome => cases hstep; exact h.save orderly
  | reopen => cases hstep; exact h.reopen orderly
  | restart => cases hstep; exact h.restart
  | serve wake m => exact h.serve orderly hstep
  | drop => cases hstep; exact h.drop
  | attach error now => exact h.attach hstep
  | receive now => exact h.receive hstep
  | lose text now => exact h.lose hstep
  | ask error => exact h.ask hstep

/-- Over every run of a job, its journal, the loops that serve it, the links and the follower
whose steps are all orderly. -/
theorem followed_exactly (w : Following) {as : List Happening}
    (run : Run (step w) (Orderly w) (start w [] .queued none) as t) : t.Told w :=
  (Run.invariant run (Tracks.start w) fun _ _ _ h orderly hstep => h.step orderly hstep).told

section Sample

instance (s : Scene) : Decidable s.Ended := inferInstanceAs (Decidable (_ ∨ _))
instance (s : Scene) : Decidable s.Served := inferInstanceAs (Decidable (∃ st ∈ s.stream, _))

instance (w : Following) (s : Scene) (a : Happening) : Decidable (s.Orderly w a) :=
  match a with
  | .append _ _ => inferInstanceAs (Decidable (_ ∧ _))
  | .save _ _ => inferInstanceAs (Decidable (_ ∧ _))
  | .reopen => inferInstanceAs (Decidable (_ = _))
  | .serve (.go _) _ => inferInstanceAs (Decidable (_ → _ → _))
  | .publish | .restart | .serve .changed _ | .serve (.tick _) _ | .serve .hangup _ | .drop
  | .attach _ _ | .receive _ | .lose _ _ | .ask _ => .isTrue trivial

def sampleFollowing : Following := ⟨"box", "10.0.0.2:7000", 1, 7, Attended.sampleJob, 1, 0⟩

def seen (readable : Bool) : Moment where
  pins := .ok [⟨7, "ab", "laptop", 0, none, true, true⟩]
  configured := true
  opened := true
  readable := readable
  replays := true
  nowS := 0
  arrives := true

def served (n : Nat) : List Happening := List.replicate n (.serve (.go false) (seen true))

def over_ : Outcome := .orphaned "the agent restarted mid-job"

def finishing : List Happening := [.append (.done over_) 0, .publish, .save .done (some over_)]

/-- What is left to say of the end of a run. -/
def report (s : Scene) : Option Followed × Nat × Bool :=
  (match s.follower.phase with
    | .returned left => some left
    | _ => none, s.follower.emitted.length, decide (s.follower.emitted = owed s.events 1))

/-- A job is followed from its first event and ends while the loop waits. -/
def endedWaiting : List Happening :=
  [Happening.append (.queued 1) 0, .publish, .attach none 0] ++ served 7 ++ finishing ++
    [Happening.serve .changed (seen true)] ++ served 3 ++ [Happening.receive 0, .receive 0]

theorem followed_waiting : ∃ s, Run (step sampleFollowing) (Orderly sampleFollowing)
      (start sampleFollowing [] .queued none) endedWaiting s ∧
    s.Told sampleFollowing ∧ s.report = (some ⟨over_, 2, none, []⟩, 2, true) := by
  have runs : (replay (step sampleFollowing) (Orderly sampleFollowing)
      (start sampleFollowing [] .queued none) endedWaiting).map report =
      some (some ⟨over_, 2, none, []⟩, 2, true) := by decide +kernel
  obtain ⟨s, there, said⟩ := Option.map_eq_some_iff.mp runs
  have run := Run.of_replay there
  exact ⟨s, run, followed_exactly sampleFollowing run, said⟩

/-- The record of a job that runs cannot be read once, and the job ends before its status is
asked for: its last event is never seen. -/
def endedUnread : List Happening :=
  [Happening.append (.queued 1) 0, .publish, .attach none 0] ++ served 4 ++
    [Happening.serve (.go false) (seen false)] ++ served 2 ++ [Happening.receive 0, .receive 0] ++
    finishing ++ [Happening.ask none]

theorem followed_unread : ∃ s, Run (step sampleFollowing) Free
    (start sampleFollowing [] .queued none) endedUnread s ∧ ¬s.Told sampleFollowing := by
  have runs : (replay (step sampleFollowing) Free (start sampleFollowing [] .queued none)
      endedUnread).map report = some (some ⟨over_, 1, none, []⟩, 1, false) := by
    decide +kernel
  obtain ⟨s, there, said⟩ := Option.map_eq_some_iff.mp runs
  have run := Run.of_replay there
  refine ⟨s, run, fun told => ?_⟩
  simp only [report, Prod.mk.injEq, decide_eq_false_iff_not] at said
  obtain ⟨left, -, short⟩ := said
  split at left
  · next left' returned => exact short (told.whole left' returned)
  · cases left

end Sample

end Scene

end Bench
end Metralectl
