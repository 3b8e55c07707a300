import Metralectl.Bench.Events
import Metralectl.Library.Runs

/-!
The event journal of one job: a file of lines that is appended to and read back. A crash
leaves the start of a line, which the next reader drops and the next writer goes on with.
-/
namespace Metralectl
namespace Bench
open JsonText Runs Utf8

/-- One event, in one line. -/
def BenchEvent.line (e : BenchEvent) : Bytes := encode e.text ++ [newline]

inductive ReplayError where
  /-- A line is not UTF-8. -/
  | notText
  /-- A line that is not the last is no event. -/
  | corrupt
deriving DecidableEq

/-- The events of the lines, from a sequence number on. -/
def replayLines (start : UInt64) : List Bytes → Except ReplayError (List BenchEvent)
  | [] => .ok []
  | line :: rest =>
      match decode line with
      | none => .error .notText
      | some text =>
          match BenchEvent.ofText text with
          | some e =>
              (replayLines start rest).map fun es => if start ≤ e.seq then e :: es else es
          -- A torn tail: whoever wrote it died in the middle.
          | none => if rest = [] then .ok [] else .error .corrupt

/-- A file that is missing reads as an empty one. -/
def replayFile (file : Bytes) (start : UInt64) : Except ReplayError (List BenchEvent) :=
  replayLines start (readLines [] file)

/-- A journal that is open: the job, and the highest number given. -/
structure Journal where
  job : JobId
  seq : UInt64
deriving DecidableEq

namespace Journal

/-- Opened at a file, numbering goes on from what is there. -/
def reopen (file : Bytes) (job : JobId) : Except ReplayError Journal :=
  (replayFile file 0).map fun es => ⟨job, (es.getLast?.map (·.seq)).getD 0⟩

def event (j : Journal) (kind : EventKind) (atMs : UInt64) : BenchEvent :=
  ⟨j.job, j.seq + 1, atMs, kind⟩

/-- Heartbeats are refused. -/
def append (j : Journal) (file : Bytes) (kind : EventKind) (atMs : UInt64) :
    Option (Journal × Bytes × BenchEvent) :=
  if kind.isHeartbeat then none
  else
    let e := j.event kind atMs
    some (⟨j.job, e.seq⟩, file ++ e.line, e)

/-- What is on disk of an append that did not come to its end. -/
def torn (j : Journal) (kind : EventKind) (atMs : UInt64) (left : Nat) : Bytes :=
  if kind.isHeartbeat then [] else (j.event kind atMs).line.dropLast.take left

end Journal

/-- A journal over its crashes; `written` records the events whose line was written whole. -/
structure JournalWorld where
  file : Bytes
  journal : Except ReplayError Journal
  written : List BenchEvent

inductive JournalAct where
  | append (kind : EventKind) (atMs : UInt64)
  /-- The agent dies appending, so much of the line is left, and the journal is opened
  again. With nothing left it is only opened again. -/
  | crash (kind : EventKind) (atMs : UInt64) (left : Nat)

namespace JournalWorld

def start (job : JobId) : JournalWorld := ⟨[], Journal.reopen [] job, []⟩

def step (w : JournalWorld) : JournalAct → Option JournalWorld
  | .append kind atMs =>
      match w.journal with
      | .error _ => none
      | .ok j => (j.append w.file kind atMs).map fun (j, file, e) => ⟨file, .ok j, w.written ++ [e]⟩
  | .crash kind atMs left =>
      match w.journal with
      | .error _ => none
      | .ok j =>
          let file := w.file ++ j.torn kind atMs left
          some ⟨file, Journal.reopen file j.job, w.written⟩

/-- The journal is open and goes on from what was written; it reads back exactly that,
numbered from one. -/
structure Survived (w : JournalWorld) : Prop where
  opened : ∃ j, w.journal = .ok j ∧ j.seq.toNat = w.written.length
  replayed : replayFile w.file 1 = .ok w.written
  numbered : w.written.map (·.seq.toNat) = List.range' 1 w.written.length

/-- Nothing, or a line that ended. -/
def Ended (file : Bytes) : Prop := ∀ b ∈ file.getLast?, b = newline

/-- A line is appended after the end of one, while numbers are left; a crash leaves text,
and no event without the end of its line. -/
def Sound (w : JournalWorld) : JournalAct → Prop
  | .append _ _ => Ended w.file ∧ w.written.length + 1 < 2 ^ 64
  | .crash kind atMs left => ∀ j, w.journal = .ok j →
      (decode (j.torn kind atMs left)).isSome = true ∧
        (Ended w.file → j.torn kind atMs left ≠ encode (j.event kind atMs).text)

end JournalWorld

section Lines
variable {es : List BenchEvent} {tail : Bytes} {start : UInt64}

theorem ends_of_printed {t : Text} (h : Printed t) :
    newline ∉ encode t ∧ carriageReturn ∉ encode t := by
  have other {byte : UInt8} (small : byte.toNat < 0x20) : byte ∉ encode t := by
    intro there
    obtain ⟨c, hc, hb⟩ := List.mem_flatMap.mp there
    have printed := h c hc
    rw [mem_encodeChar (by omega) hb] at printed
    omega
  exact ⟨other (by decide), other (by decide)⟩

/-- The lines of a file of whole texts, and what is left after them. -/
theorem readLines_texts {ts : List Text} (printed : ∀ t ∈ ts, Printed t) (h : newline ∉ tail) :
    readLines [] (ts.flatMap (fun t => encode t ++ [newline]) ++ tail) =
      ts.map encode ++ if tail = [] then [] else [tail] := by
  have lines := @readLines_lines tail (ts.map encode)
    (fun line hl => by
      obtain ⟨t, ht, rfl⟩ := List.mem_map.mp hl
      exact (ends_of_printed (printed t ht)).1)
    (fun line hl => by
      obtain ⟨t, ht, rfl⟩ := List.mem_map.mp hl
      exact (ends_of_printed (printed t ht)).2) h
  rw [List.flatMap_map] at lines
  exact lines

theorem readLines_written (h : newline ∉ tail) :
    readLines [] (es.flatMap BenchEvent.line ++ tail) =
      es.map (fun e => encode e.text) ++ if tail = [] then [] else [tail] := by
  have lines := @readLines_texts tail (es.map BenchEvent.text) (fun t ht => by
    obtain ⟨e, _, rfl⟩ := List.mem_map.mp ht
    exact e.printed) h
  rw [List.flatMap_map, List.map_map] at lines
  exact lines

theorem replayLines_written (rest : List Bytes) :
    replayLines start (es.map (fun e => encode e.text) ++ rest) =
      (replayLines start rest).map fun later => es.filter (start ≤ ·.seq) ++ later := by
  induction es with
  | nil => cases h : replayLines start rest <;> simp [Except.map, h]
  | cons e es ih =>
      rw [List.map_cons, List.cons_append, replayLines, decode_encode]
      simp only [BenchEvent.ofText_text, ih]
      cases replayLines start rest with
      | error _ => rfl
      | ok later =>
          by_cases from_ : start ≤ e.seq <;> simp [Except.map, from_]

/-- The tail of a file is nothing, or the start of a line that is never read. -/
def Leftover (tail : Bytes) : Prop :=
  tail = [] ∨ ∃ t, tail = encode t ∧ t ≠ [] ∧ Torn t ∧ Printed t

theorem Leftover.ends (h : Leftover tail) : newline ∉ tail := by
  cases h with
  | inl none_ => rw [none_]; exact List.not_mem_nil
  | inr torn =>
      obtain ⟨t, rfl, _, _, printed⟩ := torn
      exact (ends_of_printed printed).1

theorem unread_of_torn {t : Text} (h : Torn t) : BenchEvent.ofText t = none := by
  rw [BenchEvent.ofText, h.not_read, Option.bind_none]

theorem replayFile_leftover (h : Leftover tail) :
    replayFile (es.flatMap BenchEvent.line ++ tail) start = .ok (es.filter (start ≤ ·.seq)) := by
  rw [replayFile, readLines_written h.ends, replayLines_written]
  cases h with
  | inl none_ => simp [none_, replayLines, Except.map]
  | inr torn =>
      obtain ⟨t, rfl, some_, torn, _⟩ := torn
      rw [if_neg (mt encode_eq_nil.mp some_), replayLines, decode_encode]
      simp [unread_of_torn torn, Except.map]

end Lines

namespace JournalWorld

/-- What the file holds: whole lines, and after them at most the start of one. -/
structure Inv (w : JournalWorld) (j : Journal) (tail : Bytes) : Prop where
  opened : w.journal = .ok j
  file : w.file = w.written.flatMap BenchEvent.line ++ tail
  leftover : Leftover tail
  count : j.seq.toNat = w.written.length
  numbered : w.written.map (·.seq.toNat) = List.range' 1 w.written.length

section Steps
variable {w m : JournalWorld} {j : Journal} {tail : Bytes} {kind : EventKind} {atMs : UInt64}
  {left : Nat}

theorem filter_numbered {es : List BenchEvent} (h : es.map (·.seq.toNat) = List.range' 1 es.length)
    {start : UInt64} (low : start.toNat ≤ 1) : es.filter (start ≤ ·.seq) = es := by
  refine List.filter_eq_self.mpr fun e he => decide_eq_true ?_
  have seq : e.seq.toNat ∈ List.range' 1 es.length := h ▸ List.mem_map_of_mem he
  have one := (List.mem_range'_1.mp seq).1
  exact UInt64.le_iff_toNat_le.mpr (low.trans one)

theorem last_numbered {es : List BenchEvent} (h : es.map (·.seq.toNat) = List.range' 1 es.length) :
    ((es.getLast?.map BenchEvent.seq).getD 0).toNat = es.length := by
  cases List.eq_nil_or_concat es with
  | inl none_ => rw [none_]; rfl
  | inr more =>
      obtain ⟨front, last, rfl⟩ := more
      rw [List.concat_eq_append] at h ⊢
      rw [List.getLast?_concat]
      rw [List.map_append, List.length_append, List.length_singleton, List.range'_1_concat] at h
      have same := List.append_inj_right' h rfl
      rw [List.map_singleton, List.singleton_inj] at same
      rw [List.length_append, List.length_singleton, Nat.add_comm]
      exact same

theorem Inv.survived (h : Inv w j tail) : Survived w := by
  refine ⟨⟨j, h.opened, h.count⟩, ?_, h.numbered⟩
  rw [h.file, replayFile_leftover h.leftover, filter_numbered h.numbered (by decide)]

/-- Opened again at such a file, numbering goes on. -/
theorem reopen_written {es : List BenchEvent} (job : JobId) (leftover : Leftover tail)
    (h : es.map (·.seq.toNat) = List.range' 1 es.length) :
    ∃ j, Journal.reopen (es.flatMap BenchEvent.line ++ tail) job = .ok j ∧
      j.job = job ∧ j.seq.toNat = es.length := by
  refine ⟨⟨job, (es.getLast?.map BenchEvent.seq).getD 0⟩, ?_, rfl, last_numbered h⟩
  rw [Journal.reopen, replayFile_leftover leftover, filter_numbered h (Nat.zero_le _)]
  rfl

theorem ended_iff (h : Inv w j tail) : Ended w.file ↔ tail = [] := by
  constructor
  · intro ended
    cases List.eq_nil_or_concat tail with
    | inl none_ => exact none_
    | inr more =>
        obtain ⟨front, last, rfl⟩ := more
        have same : last = newline := ended last (by
          rw [h.file, List.concat_eq_append, ← List.append_assoc, List.getLast?_concat]
          rfl)
        exact absurd (by simp [same]) h.leftover.ends
  · intro none_ b hb
    rw [h.file, none_, List.append_nil] at hb
    cases List.eq_nil_or_concat w.written with
    | inl empty => rw [empty] at hb; cases hb
    | inr more =>
        obtain ⟨front, last, written⟩ := more
        rw [written, List.concat_eq_append, List.flatMap_append, List.flatMap_singleton,
          BenchEvent.line, ← List.append_assoc, List.getLast?_concat] at hb
        exact (Option.some.inj hb).symm

theorem torn_eq (j : Journal) (whole : kind.isHeartbeat = false) :
    j.torn kind atMs left = (encode (j.event kind atMs).text).take left := by
  rw [Journal.torn, whole, BenchEvent.line, List.dropLast_concat]
  rfl

theorem torn_ends : newline ∉ j.torn kind atMs left := by
  cases whole : kind.isHeartbeat with
  | true => rw [Journal.torn, whole, if_pos rfl]; exact List.not_mem_nil
  | false =>
      rw [torn_eq j whole]
      exact fun there => (ends_of_printed (j.event kind atMs).printed).1 (List.mem_of_mem_take there)

/-- What is left of a line that is cut between two characters. -/
theorem torn_text {t : Text} (h : decode (j.torn kind atMs left) = some t) :
    t <+: (j.event kind atMs).text := by
  refine prefix_of_decode h ?_
  cases whole : kind.isHeartbeat with
  | true => rw [Journal.torn, whole, if_pos rfl]; exact List.nil_prefix
  | false => rw [torn_eq j whole]; exact List.take_prefix _ _

theorem torn_append {t q : Text} (torn : Torn t) (e : BenchEvent) (front : q <+: e.text) :
    Torn (t ++ q) := by
  obtain ⟨more, start⟩ := e.text_start
  exact torn.append e.braced front start fun _ => rfl

theorem Torn.leftover {t q : Text} (torn : Torn t) (some_ : t ≠ []) (printed : Printed t)
    (e : BenchEvent) (front : q <+: e.text) : Leftover (encode (t ++ q)) := by
  have later : Printed q := fun c hc => e.printed c (front.subset hc)
  exact .inr ⟨t ++ q, rfl, List.append_ne_nil_of_left_ne_nil some_ q, torn_append torn e front,
    printed.append later⟩

/-- A sound crash leaves the file with at most the start of a line at its end. -/
theorem leftover_torn (h : Inv w j tail) (sound : Sound w (.crash kind atMs left)) :
    Leftover (tail ++ j.torn kind atMs left) := by
  obtain ⟨valid, cut⟩ := sound j h.opened
  obtain ⟨q, text⟩ := Option.isSome_iff_exists.mp valid
  have front := torn_text text
  rw [← encode_of_decode text] at cut ⊢
  cases h.leftover with
  | inr torn =>
      obtain ⟨t, rfl, some_, torn, printed⟩ := torn
      rw [← encode_append]
      exact Torn.leftover torn some_ printed _ front
  | inl none_ =>
      rw [none_, List.nil_append]
      by_cases empty : q = []
      · exact .inl (encode_eq_nil.mpr empty)
      · have short : q ≠ (j.event kind atMs).text :=
          fun same => cut ((ended_iff h).mpr none_) (congrArg encode same)
        have printed : Printed q := fun c hc => (j.event kind atMs).printed c (front.subset hc)
        exact .inr ⟨q, rfl, empty, torn_of_prefix (j.event kind atMs).braced front empty short,
          printed⟩

theorem Inv.step {act : JournalAct} (h : Inv w j tail) (sound : Sound w act)
    (hstep : w.step act = some m) : ∃ j tail, Inv m j tail := by
  cases act with
  | append kind atMs =>
      obtain ⟨ended, room⟩ := sound
      obtain rfl := (ended_iff h).mp ended
      simp only [JournalWorld.step, h.opened, Journal.append] at hstep
      split at hstep
      · cases hstep
      · obtain rfl := Option.some.inj hstep
        have seq : (j.seq + 1).toNat = w.written.length + 1 := by
          rw [UInt64.toNat_add, h.count]
          exact Nat.mod_eq_of_lt room
        refine ⟨_, [], rfl, ?_, .inl rfl, ?_, ?_⟩
        · rw [h.file, List.append_nil, List.append_nil, List.flatMap_append, List.flatMap_singleton]
        · rw [List.length_append, List.length_singleton]
          exact seq
        · rw [List.map_append, h.numbered, List.length_append, List.length_singleton,
            List.range'_1_concat, List.map_singleton, Nat.add_comm 1]
          exact congrArg (_ ++ [·]) seq
  | crash kind atMs left =>
      simp only [JournalWorld.step, h.opened] at hstep
      obtain rfl := Option.some.inj hstep
      have leftover := leftover_torn h sound
      obtain ⟨k, opened, _, count⟩ := reopen_written j.job leftover h.numbered
      have file : w.file ++ j.torn kind atMs left =
          w.written.flatMap BenchEvent.line ++ (tail ++ j.torn kind atMs left) := by
        rw [h.file, List.append_assoc]
      exact ⟨k, _, by rw [← opened, ← file], file, leftover, count, h.numbered⟩

theorem inv_start (job : JobId) : ∃ j tail, Inv (start job) j tail := by
  obtain ⟨j, opened, _, count⟩ := @reopen_written [] [] job (.inl rfl) rfl
  exact ⟨j, [], opened, rfl, .inl rfl, count, rfl⟩

/-- An event written after what is left of another is lost with it. -/
theorem replay_merged {es : List BenchEvent} {t : Text} {start : UInt64} (torn : Torn t)
    (printed : Printed t) (e : BenchEvent) :
    replayFile (es.flatMap BenchEvent.line ++ (encode t ++ e.line)) start =
      .ok (es.filter (start ≤ ·.seq)) := by
  have lines := @readLines_texts [] (es.map BenchEvent.text ++ [t ++ e.text]) (fun u hu => by
    cases List.mem_append.mp hu with
    | inl old =>
        obtain ⟨e, _, rfl⟩ := List.mem_map.mp old
        exact e.printed
    | inr new =>
        rw [List.mem_singleton.mp new]
        exact printed.append e.printed) List.not_mem_nil
  have file : es.flatMap BenchEvent.line ++ (encode t ++ e.line) =
      (es.map BenchEvent.text ++ [t ++ e.text]).flatMap (fun t => encode t ++ [newline]) ++ [] := by
    rw [List.append_nil, List.flatMap_append, List.flatMap_map, List.flatMap_singleton,
      encode_append, List.append_assoc]
    rfl
  rw [replayFile, file, lines, if_pos rfl, List.append_nil, List.map_append, List.map_map,
    List.map_singleton]
  refine (replayLines_written [encode (t ++ e.text)]).trans ?_
  rw [replayLines, decode_encode]
  simp [unread_of_torn (torn_append torn e (List.prefix_refl _)), Except.map]

theorem sound_append (h : Inv w j tail) (hstep : w.step (.append kind atMs) = some m)
    (survived : Survived m) : Sound w (.append kind atMs) := by
  simp only [JournalWorld.step, h.opened, Journal.append] at hstep
  split at hstep
  · cases hstep
  · obtain rfl := Option.some.inj hstep
    constructor
    · rw [ended_iff h]
      cases h.leftover with
      | inl none_ => exact none_
      | inr torn =>
          obtain ⟨t, rfl, _, torn, printed⟩ := torn
          have replayed := survived.replayed
          simp only [h.file, List.append_assoc, replay_merged torn printed,
            filter_numbered h.numbered (show (1 : UInt64).toNat ≤ 1 by decide)] at replayed
          have lengths := congrArg List.length (Except.ok.inj replayed)
          simp at lengths
    · have numbered := survived.numbered
      rw [List.map_append, List.length_append, List.length_singleton, List.range'_1_concat] at numbered
      have same := List.append_inj_right' numbered rfl
      rw [List.map_singleton, List.singleton_inj, Nat.add_comm] at same
      rw [← same]
      exact UInt64.toNat_lt _

/-- Bytes that are no text make the whole file unreadable. -/
theorem replay_cut {es : List BenchEvent} {start : UInt64} {bytes : Bytes} (h : Leftover tail)
    (ends : newline ∉ bytes) (cut : decode bytes = none) :
    replayFile (es.flatMap BenchEvent.line ++ (tail ++ bytes)) start = .error .notText := by
  have some_ : tail ++ bytes ≠ [] := by
    intro none_
    rw [(List.append_eq_nil_iff.mp none_).2] at cut
    exact Option.some_ne_none _ ((decode_encode []).symm.trans cut)
  have invalid : decode (tail ++ bytes) = none := by
    cases h with
    | inl none_ => rwa [none_, List.nil_append]
    | inr torn =>
        obtain ⟨t, rfl, _⟩ := torn
        rw [decode_append, cut, Option.map_none]
  have all : newline ∉ tail ++ bytes := by
    rw [List.mem_append, not_or]
    exact ⟨h.ends, ends⟩
  rw [replayFile, readLines_written all, replayLines_written, if_neg some_, replayLines, invalid]
  rfl

/-- A line that lacks its end only is read like one that does not. -/
theorem reopen_whole {es : List BenchEvent} (e : BenchEvent) (job : JobId) :
    Journal.reopen (es.flatMap BenchEvent.line ++ encode e.text) job = .ok ⟨job, e.seq⟩ := by
  have some_ : encode e.text ≠ [] := by
    obtain ⟨more, start⟩ := e.text_start
    rw [Ne, encode_eq_nil, start]
    exact List.cons_ne_nil _ _
  have replayed : replayFile (es.flatMap BenchEvent.line ++ encode e.text) 0 =
      .ok (es.filter (0 ≤ ·.seq) ++ [e]) := by
    rw [replayFile, readLines_written (ends_of_printed e.printed).1, replayLines_written,
      if_neg some_, replayLines, decode_encode]
    simp [BenchEvent.ofText_text, replayLines, Except.map]
  rw [Journal.reopen, replayed, Except.map, List.getLast?_concat]
  rfl

theorem sound_crash (h : Inv w j tail) (hstep : w.step (.crash kind atMs left) = some m)
    (survived : Survived m) : Sound w (.crash kind atMs left) := by
  simp only [JournalWorld.step, h.opened] at hstep
  obtain rfl := Option.some.inj hstep
  intro k opened
  obtain rfl := Except.ok.inj (h.opened.symm.trans opened)
  constructor
  · rw [Option.isSome_iff_ne_none]
    intro cut
    have replayed := survived.replayed
    simp only [h.file, List.append_assoc, replay_cut h.leftover torn_ends cut] at replayed
    cases replayed
  · intro ended whole
    obtain ⟨k, reopened, count⟩ := survived.opened
    have file : w.file ++ j.torn kind atMs left =
        w.written.flatMap BenchEvent.line ++ encode (j.event kind atMs).text := by
      rw [h.file, (ended_iff h).mp ended, List.append_nil, whole]
    simp only [file, reopen_whole] at reopened
    obtain rfl := Except.ok.inj reopened
    have same : j.seq + 1 = j.seq := UInt64.toNat_inj.mp (count.trans h.count.symm)
    simp at same

theorem sound_of_survived {act : JournalAct} (h : Inv w j tail) (hstep : w.step act = some m)
    (survived : Survived m) : Sound w act := by
  cases act with
  | append kind atMs => exact sound_append h hstep survived
  | crash kind atMs left => exact sound_crash h hstep survived

/-- In a run every state reached reads back what was written exactly when every step of it
is sound. -/
theorem journal_survives_iff {job : JobId} {acts : List JournalAct} (run : Run step Free (start job) acts m) :
    (∀ pre n, pre <+: acts → Run step Free (start job) pre n → Survived n) ↔
      Run step Sound (start job) acts m := by
  have inv {pre : List JournalAct} {n : JournalWorld} (sound : Run step Sound (start job) pre n) :
      ∃ j tail, Inv n j tail :=
    Run.invariant (I := fun w => ∃ j tail, Inv w j tail) sound (inv_start job)
      fun w act m ⟨j, tail, h⟩ sound hstep => h.step sound hstep
  constructor
  · intro survives
    refine Run.strengthen run fun pre act post w m split_ before hstep => ?_
    obtain ⟨j, tail, h⟩ := inv before
    refine sound_of_survived h hstep (survives (pre ++ [act]) m ?_ ?_)
    · exact ⟨post, by rw [split_, List.append_assoc]; rfl⟩
    · exact before.free.append (.cons ⟨trivial, hstep⟩ (.nil m))
  · intro sound pre n front free
    obtain ⟨post, rfl⟩ := front
    obtain ⟨k, before, _⟩ := Run.split sound
    obtain rfl := Run.deterministic free before
    obtain ⟨j, tail, h⟩ := inv before
    exact h.survived

end Steps

def queuedJob : JobId := ⟨"jb-1-deadbeef", by decide +kernel⟩

theorem journal_survives_torn : ∃ m,
    (∀ pre n, pre <+: [.append (.queued 1) 1, .crash (.queued 0) 2 5] →
      Run step Free (start queuedJob) pre n → Survived n) ↔
        Run step Sound (start queuedJob) [.append (.queued 1) 1, .crash (.queued 0) 2 5] m :=
  ⟨_, journal_survives_iff (.cons ⟨trivial, rfl⟩ (.cons ⟨trivial, rfl⟩ (.nil _)))⟩

/-- One event, the start of another, then one more: the last is lost. -/
theorem append_after_torn_lost :
    ¬∀ acts m, Run step Free (start queuedJob) acts m → Survived m := by
  intro all
  obtain ⟨j, tail, h⟩ := inv_start queuedJob
  obtain ⟨one, first⟩ : ∃ one, (start queuedJob).step (.append (.queued 1) 1) = some one := ⟨_, rfl⟩
  have run : Run step Free (start queuedJob) [.append (.queued 1) 1] one :=
    .cons ⟨trivial, first⟩ (.nil one)
  obtain ⟨j, tail, h⟩ := h.step (sound_of_survived h first (all _ _ run)) first
  let two : JournalWorld :=
    ⟨one.file ++ j.torn (.queued 0) 2 5, Journal.reopen (one.file ++ j.torn (.queued 0) 2 5) j.job,
      one.written⟩
  have second : one.step (.crash (.queued 0) 2 5) = some two := by
    simp only [JournalWorld.step, h.opened]
    rfl
  have run : Run step Free (start queuedJob) [.append (.queued 1) 1, .crash (.queued 0) 2 5] two :=
    run.append (.cons ⟨trivial, second⟩ (.nil two))
  obtain ⟨k, _, h'⟩ := h.step (sound_of_survived h second (all _ _ run)) second
  obtain ⟨three, third⟩ : ∃ three, two.step (.append (.queued 0) 3) = some three := by
    simp only [JournalWorld.step, h'.opened]
    exact ⟨_, rfl⟩
  have ended := (sound_append h' third (all _ _ (run.append (.cons ⟨trivial, third⟩ (.nil three))))).1
  -- What is left of the second event ends no line.
  have torn : j.torn (.queued 0) 2 5 ≠ [] := by
    rw [torn_eq j rfl, Ne, List.take_eq_nil_iff, encode_eq_nil]
    obtain ⟨more, start⟩ := (j.event (.queued 0) 2).text_start
    simp [start]
  have last := List.getLast?_eq_some_getLast torn
  refine torn_ends (?_ : newline ∈ j.torn (.queued 0) 2 5)
  rw [← ended _ ((List.getLast?_append_of_ne_nil _ torn).trans last)]
  exact List.getLast_mem torn

end JournalWorld

end Bench
end Metralectl
