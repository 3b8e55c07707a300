import Metralectl.Library.Arrivals
import Metralectl.Library.Utf8

/-!
How a frame crosses the channel between two agents: its text after the length of
it in four bytes. How a frame is written as a text and read back is a parameter.
-/
namespace Metralectl
namespace Peer
open Framing Arrivals

/-- Largest frame accepted. -/
def maxFrame : Nat := 2 ^ 20

/-- The JSON of a frame. -/
structure Codec (Frame : Type) where
  toVec : Frame → Option Bytes
  fromSlice : Bytes → Option Frame

/-- Whatever is written is read back as it was. -/
def Codec.Exact {Frame : Type} (c : Codec Frame) : Prop :=
  ∀ f body, c.toVec f = some body → c.fromSlice body = some f

/-- A socket that is written to: what it took, how much it still takes before it
breaks, and whether it can be flushed after so many bytes. -/
structure Sink where
  written : Bytes
  room : Option Nat
  flush : Nat → Bool

/-- All of it, or what still went through. -/
def Sink.writeAll (s : Sink) (data : Bytes) : Bool × Sink :=
  match s.room with
  | none => (true, { s with written := s.written ++ data })
  | some room =>
      (decide (data.length ≤ room),
        { s with written := s.written ++ data.take room, room := some (room - data.length) })

inductive WriteError where
  | serialising
  | absurdlyLarge
  | refusing (len : Nat)
  | socket
deriving DecidableEq

inductive ReadError where
  | length
  | announced (len : Nat)
  | body
  | decoding
deriving DecidableEq

/-- What is still to be read, and the buffers reserved so far for bodies. -/
structure Incoming where
  source : Source
  reserved : List Nat

section Frames
variable {Frame : Type} (c : Codec Frame)

def writeFrame (w : Sink) (frame : Frame) : Except WriteError Unit × Sink :=
  match c.toVec frame with
  | none => (.error .serialising, w)
  | some body =>
      if 2 ^ 32 ≤ body.length then (.error .absurdlyLarge, w)
      else if body.length ≤ maxFrame then
        match w.writeAll (bigEndian 4 body.length) with
        | (false, w) => (.error .socket, w)
        | (true, w) =>
            match w.writeAll body with
            | (false, w) => (.error .socket, w)
            | (true, w) => (if w.flush w.written.length then .ok () else .error .socket, w)
      else (.error (.refusing body.length), w)

/-- One frame after another, until one is not accepted. -/
def writeFrames (w : Sink) : List Frame → Except WriteError Unit × Sink
  | [] => (.ok (), w)
  | f :: rest =>
      match writeFrame c w f with
      | (.ok (), w) => writeFrames w rest
      | (.error e, w) => (.error e, w)

def readFrame (r : Incoming) : Except ReadError Frame × Incoming :=
  match readExact 4 r.source with
  | (none, source) => (.error .length, { r with source })
  | (some lenBuf, source) =>
      let len := ofBigEndian lenBuf
      if maxFrame < len then (.error (.announced len), { r with source })
      else
        let r : Incoming := ⟨source, r.reserved ++ [len]⟩
        match readExact len r.source with
        | (none, source) => (.error .body, { r with source })
        | (some body, source) =>
            match c.fromSlice body with
            | none => (.error .decoding, { r with source })
            | some frame => (.ok frame, { r with source })

/-- What so many reads return, and the error that stopped them before. -/
def readFrames : Nat → Incoming → List Frame × Option ReadError
  | 0, _ => ([], none)
  | turns + 1, r =>
      match readFrame c r with
      | (.error e, _) => ([], some e)
      | (.ok f, r) =>
          let (later, stopped) := readFrames turns r
          (f :: later, stopped)

/-- The bytes of an accepted frame. -/
def wire (f : Frame) : Bytes :=
  match c.toVec f with
  | none => []
  | some body => bigEndian 4 body.length ++ body

/-- The frames that are complete before the cut. -/
def whole : List Frame → Nat → List Frame
  | [], _ => []
  | f :: rest, cut =>
      if (wire c f).length ≤ cut then f :: whole rest (cut - (wire c f).length) else []

section Written

/-- A frame that one side accepts to write. -/
def Accepted (f : Frame) : Prop := ∃ body, c.toVec f = some body ∧ body.length ≤ maxFrame

variable {c}

theorem Sink.writeAll_ok {w w' : Sink} {data : Bytes} (ok : w.writeAll data = (true, w')) :
    w'.written = w.written ++ data := by
  unfold writeAll at ok
  cases limit : w.room with
  | none =>
      rw [limit] at ok
      cases ok
      rfl
  | some room =>
      rw [limit] at ok
      obtain ⟨fits, rfl⟩ := Prod.mk.inj ok
      rw [List.take_of_length_le (of_decide_eq_true fits)]

theorem writeFrame_ok {w w' : Sink} {f : Frame} (ok : writeFrame c w f = (.ok (), w')) :
    Accepted c f ∧ w'.written = w.written ++ wire c f := by
  unfold writeFrame at ok
  cases serialised : c.toVec f with
  | none => simp [serialised] at ok
  | some body =>
      simp only [serialised] at ok
      by_cases absurdly : 2 ^ 32 ≤ body.length
      · rw [if_pos absurdly] at ok
        cases ok
      · rw [if_neg absurdly] at ok
        by_cases small : body.length ≤ maxFrame
        · rw [if_pos small] at ok
          cases head : w.writeAll (bigEndian 4 body.length) with
          | mk first u =>
          cases tail : u.writeAll body with
          | mk second v =>
          cases first with
          | false => simp [head] at ok
          | true =>
              cases second with
              | false => simp [head, tail] at ok
              | true =>
                  simp only [head, tail, Prod.mk.injEq] at ok
                  refine ⟨⟨body, serialised, small⟩, ?_⟩
                  rw [← ok.2, Sink.writeAll_ok tail, Sink.writeAll_ok head, wire, serialised,
                    List.append_assoc]
        · simp [small] at ok

theorem writeFrames_ok {frames : List Frame} {w w' : Sink}
    (ok : writeFrames c w frames = (.ok (), w')) :
    (∀ f ∈ frames, Accepted c f) ∧ w'.written = w.written ++ frames.flatMap (wire c) := by
  induction frames generalizing w with
  | nil =>
      cases ok
      exact ⟨fun f hf => absurd hf List.not_mem_nil, by simp⟩
  | cons f rest ih =>
      rw [writeFrames] at ok
      cases first : writeFrame c w f with
      | mk result u =>
      cases result with
      | error e => simp [first] at ok
      | ok done =>
          rw [first] at ok
          obtain ⟨accepted, written⟩ := writeFrame_ok first
          obtain ⟨later, all⟩ := ih ok
          refine ⟨List.forall_mem_cons.mpr ⟨accepted, later⟩, ?_⟩
          rw [all, written, List.append_assoc, List.flatMap_cons]

end Written

section Read
variable {c}

theorem length_wire {f : Frame} {body : Bytes} (serialised : c.toVec f = some body) :
    (wire c f).length = 4 + body.length := by
  rw [wire, serialised]
  simp

/-- The length of an accepted frame is read as it was written. -/
theorem ofBigEndian_length {body : Bytes} (small : body.length ≤ maxFrame) :
    ofBigEndian (bigEndian 4 body.length) = body.length :=
  ofBigEndian_bigEndian (Nat.lt_of_le_of_lt small (by decide))

/-- A complete frame in front is the one that is read, and no byte after it. -/
theorem readFrame_whole (exact_ : c.Exact) {f : Frame} (accepted : Accepted c f) {r : Incoming}
    {after : Bytes} (arrives : bytes r.source = wire c f ++ after) :
    ∃ left, readFrame c r = (.ok f, left) ∧ bytes left.source = after := by
  obtain ⟨body, serialised, small⟩ := accepted
  have front : bytes r.source = bigEndian 4 body.length ++ (body ++ after) := by
    rw [arrives, wire, serialised, List.append_assoc]
  obtain ⟨s, head, rest⟩ := @readExact_of_le 4 r.source (by simp [front])
  have length : (bytes r.source).take 4 = bigEndian 4 body.length := by
    rw [front, List.take_append_of_le_length (by simp), List.take_of_length_le (by simp)]
  have behind : bytes s = body ++ after := by
    rw [rest, front, List.drop_append_of_le_length (by simp), List.drop_of_length_le (by simp),
      List.nil_append]
  obtain ⟨t, tail, last⟩ := @readExact_of_le body.length s (by simp [behind])
  have text : (bytes s).take body.length = body := by
    rw [behind, List.take_append_of_le_length (Nat.le_refl _), List.take_of_length_le (Nat.le_refl _)]
  refine ⟨⟨t, r.reserved ++ [body.length]⟩, ?_, ?_⟩
  · simp [readFrame, head, length, ofBigEndian_length small, Nat.not_lt.mpr small, tail, text,
      exact_ f body serialised]
  · rw [last, behind, List.drop_append_of_le_length (Nat.le_refl _),
      List.drop_of_length_le (Nat.le_refl _), List.nil_append]

/-- A frame that is cut, even before its first byte, is an error. -/
theorem readFrame_cut {f : Frame} (accepted : Accepted c f) {r : Incoming} {cut : Nat}
    (short : cut < (wire c f).length) (arrives : bytes r.source = (wire c f).take cut) :
    ∃ e left, readFrame c r = (.error e, left) := by
  obtain ⟨body, serialised, small⟩ := accepted
  rw [length_wire serialised] at short
  have there : (bytes r.source).length = cut := by
    rw [arrives, List.length_take, length_wire serialised]
    exact Nat.min_eq_left (Nat.le_of_lt short)
  by_cases head : cut < 4
  · have none := @readExact_of_lt 4 r.source (by rw [there]; exact head)
    exact ⟨.length, { r with source := [] }, by simp [readFrame, none]⟩
  · have four : 4 ≤ cut := Nat.not_lt.mp head
    obtain ⟨s, got, rest⟩ := @readExact_of_le 4 r.source (by rw [there]; exact four)
    have length : (bytes r.source).take 4 = bigEndian 4 body.length := by
      rw [arrives, List.take_take, Nat.min_eq_left four, wire, serialised]
      exact List.take_left' (length_bigEndian 4 _)
    have few : (bytes s).length < body.length := by
      rw [rest, List.length_drop, there]
      omega
    exact ⟨.body, ⟨[], r.reserved ++ [body.length]⟩, by
      simp [readFrame, got, length, ofBigEndian_length small, Nat.not_lt.mpr small,
        readExact_of_lt few]⟩

theorem readFrame_end {r : Incoming} (ended : bytes r.source = []) :
    ∃ e left, readFrame c r = (.error e, left) := by
  have none := @readExact_of_lt 4 r.source (by simp [ended])
  exact ⟨.length, { r with source := [] }, by simp [readFrame, none]⟩

/-- Whatever else is there, a length above the limit is refused with no byte of the
body read and no buffer reserved; -/
theorem readFrame_refuses {r : Incoming} (four : 4 ≤ (bytes r.source).length)
    (large : maxFrame < ofBigEndian ((bytes r.source).take 4)) :
    ∃ left, readFrame c r =
        (.error (.announced (ofBigEndian ((bytes r.source).take 4))), ⟨left, r.reserved⟩) ∧
      bytes left = (bytes r.source).drop 4 := by
  obtain ⟨s, got, rest⟩ := readExact_of_le four
  exact ⟨s, by simp [readFrame, got, large], rest⟩

theorem whole_all (frames : List Frame) {cut : Nat}
    (complete : (frames.flatMap (wire c)).length ≤ cut) : whole c frames cut = frames := by
  induction frames generalizing cut with
  | nil => rfl
  | cons f rest ih =>
      rw [List.flatMap_cons, List.length_append] at complete
      rw [whole, if_pos (by omega), ih (by omega)]

/-- The frames before the cut, in order, and then an error. -/
theorem readFrames_whole (exact_ : c.Exact) (turns : Nat) {frames : List Frame}
    (accepted : ∀ f ∈ frames, Accepted c f) {cut : Nat} {r : Incoming}
    (arrives : bytes r.source = (frames.flatMap (wire c)).take cut) :
    (readFrames c turns r).1 = (whole c frames cut).take turns ∧
      ((readFrames c turns r).2 = none ↔ turns ≤ (whole c frames cut).length) := by
  induction turns generalizing frames cut r with
  | zero => simp [readFrames]
  | succ turns ih =>
      cases frames with
      | nil =>
          obtain ⟨e, left, stopped⟩ := readFrame_end (c := c) (by simpa using arrives)
          simp [readFrames, stopped, whole]
      | cons f rest =>
          have here := accepted f List.mem_cons_self
          by_cases complete : (wire c f).length ≤ cut
          · have behind : bytes r.source =
                wire c f ++ (rest.flatMap (wire c)).take (cut - (wire c f).length) := by
              rw [arrives, List.flatMap_cons, List.take_append, List.take_of_length_le complete]
            obtain ⟨left, got, after⟩ := readFrame_whole exact_ here behind
            obtain ⟨same, stops⟩ := ih (fun g hg => accepted g (List.mem_cons_of_mem _ hg)) after
            simp only [readFrames, got, whole, if_pos complete, List.take_succ_cons, same, stops,
              List.length_cons, Nat.add_le_add_iff_right, and_self]
          · have short : cut < (wire c f).length := Nat.not_le.mp complete
            have part : bytes r.source = (wire c f).take cut := by
              rw [arrives, List.flatMap_cons, List.take_append_of_le_length (Nat.le_of_lt short)]
            obtain ⟨e, left, stopped⟩ := readFrame_cut here short part
            simp [readFrames, stopped, whole, complete]

end Read

/-- Frames that were accepted are read as they were sent, however the stream is cut
into reads. Of a stream that ends early the complete frames are, and then there is
an error. A length that no frame has is refused at once. -/
theorem frames_cross (exact_ : c.Exact) :
    (∀ (frames : List Frame) (w w' : Sink), w.written = [] →
      writeFrames c w frames = (.ok (), w') →
      ∀ (cut : Nat) (r : Incoming), bytes r.source = w'.written.take cut →
        (w'.written.length ≤ cut → whole c frames cut = frames) ∧
        ∀ turns, (readFrames c turns r).1 = (whole c frames cut).take turns ∧
          ((readFrames c turns r).2 = none ↔ turns ≤ (whole c frames cut).length)) ∧
    ∀ r : Incoming, 4 ≤ (bytes r.source).length →
      maxFrame < ofBigEndian ((bytes r.source).take 4) →
      ∃ left, readFrame c r =
          (.error (.announced (ofBigEndian ((bytes r.source).take 4))), ⟨left, r.reserved⟩) ∧
        bytes left = (bytes r.source).drop 4 := by
  refine ⟨fun frames w w' fresh ok cut r arrives => ?_, fun r => readFrame_refuses⟩
  obtain ⟨accepted, written⟩ := writeFrames_ok ok
  rw [fresh, List.nil_append] at written
  rw [written] at arrives ⊢
  exact ⟨whole_all frames, fun turns => readFrames_whole exact_ turns accepted arrives⟩

end Frames

/-- Whether one rank runs, as its agent answers. -/
def livenessBody (running : Bool) : Bytes :=
  Utf8.encode ("\x7b\"type\":\"rank_liveness\",\"container\":\"m\",\"running\":".toList ++
    (if running then "true" else "false").toList ++ "\x7d".toList)

def liveness : Codec Bool where
  toVec running := some (livenessBody running)
  fromSlice body :=
    if body = livenessBody true then some true
    else if body = livenessBody false then some false
    else none

theorem liveness_exact : liveness.Exact := by
  intro f body written
  cases written
  cases f <;> decide +kernel

theorem frames_cross_liveness :
    (writeFrames liveness ⟨[], none, fun _ => true⟩ [true, false]).2.written.length = 119 ∧
      ∀ r : Incoming,
        bytes r.source =
          (writeFrames liveness ⟨[], none, fun _ => true⟩ [true, false]).2.written.take 90 →
        (readFrames liveness 3 r).1 = [true] ∧ (readFrames liveness 3 r).2 ≠ none := by
  refine ⟨by decide +kernel, fun r arrives => ?_⟩
  have accepted : writeFrames liveness ⟨[], none, fun _ => true⟩ [true, false] =
      (.ok (), (writeFrames liveness ⟨[], none, fun _ => true⟩ [true, false]).2) := rfl
  have crossed := ((frames_cross liveness liveness_exact).1 [true, false] _ _ rfl accepted 90 r
    arrives).2 3
  have complete : whole liveness [true, false] 90 = [true] := by decide +kernel
  rw [complete] at crossed
  exact ⟨crossed.1, fun none => absurd (crossed.2.mp none) (by decide)⟩

end Peer
end Metralectl
