import Metralectl.Bench.Answers
import Metralectl.Library.Runs

/-!
The wait for a child: its log is read a line at a time while the child writes, what is read
is reported, and each tail is followed by a look whether the child is gone.
-/
namespace Metralectl
namespace Bench
open Runs Utf8

def maxLogLinesPerEvent : Nat := 64
def maxLogLineBytes : Nat := 2000

/-- The characters that fit into so many bytes. -/
def takeBytes : Nat → List Char → List Char
  | _, [] => []
  | room, c :: cs => if c.utf8Size ≤ room then c :: takeBytes (room - c.utf8Size) cs else []

def sanitize (line : String) : String :=
  let kept := line.toList.filter fun c => !isControl c || c = '\t'
  if maxLogLineBytes < (String.ofList kept).utf8ByteSize then
    String.ofList (takeBytes maxLogLineBytes kept ++ ['…'])
  else String.ofList kept

def trimStart (s : String) : String := String.ofList (s.toList.dropWhile isWhitespace)

/-- The verdict line the engine prints. -/
def parseVerdict (line : String) : Option Verdict :=
  [("Pass: ", VerdictKind.pass), ("Fail: ", .fail), ("Info: ", .info)].findSome? fun p =>
    (stripPrefix p.1 (trimStart line)).map fun rest => ⟨p.2, sanitize rest⟩

/-- What follows the first mark of the seconds. -/
def afterSeconds : List Char → Option (List Char)
  | 's' :: ']' :: rest => some rest
  | _ :: rest => afterSeconds rest
  | [] => none

/-- `[  12.3s] phase` is of a progress. -/
def parseProgress (line : String) : Option EventKind := do
  let rest ← stripPrefix "[" (trimStart line)
  let after ← afterSeconds rest.toList
  let phase := trim (String.ofList after)
  if phase = "" then none else some (.progress (sanitize phase) "")

/-- Why a child is killed. -/
inductive Killing where
  | cancelled
  | timedOut (afterS : UInt64)
  | stalled (afterS : UInt64)

def Killing.ended : Killing → RunEnd
  | .cancelled => .cancelled
  | .timedOut s => .timedOut s
  | .stalled s => .stalled s

inductive Stage where
  | reading
  | polling
  | over_ (ended : RunEnd)
deriving DecidableEq

/-- The child's log and whether it is gone, and how far the wait is. -/
structure Tail where
  log : Utf8.Bytes
  exited : Option Int32
  offset : Nat
  verdict : Option Verdict
  pending : List String
  emitted : List EventKind
  killing : Option Killing
  stage : Stage
  /-- What was written since the last tail came to an end, at first all there is. -/
  fresh : Utf8.Bytes

inductive Beat where
  | write (bytes : Utf8.Bytes)
  | exit (code : Int32)
  /-- The log cannot be opened this time. -/
  | skip
  | read
  | poll (kill : Option Killing)

namespace Tail

def start (log : Utf8.Bytes) (exited : Option Int32) : Tail where
  log := log
  exited := exited
  offset := 0
  verdict := none
  pending := []
  emitted := []
  killing := none
  stage := .reading
  fresh := log

def flush (t : Tail) : Tail :=
  { t with
    emitted := t.emitted ++ [.log .run t.pending]
    pending := [] }

/-- A line is whole and a text. -/
def take (t : Tail) (text : Text) (bytes : Nat) : Tail :=
  let clean := sanitize (String.ofList text)
  { t with
    offset := t.offset + bytes
    verdict := (parseVerdict clean).or t.verdict
    emitted := t.emitted ++
      if (parseVerdict clean).isSome then [] else (parseProgress clean).toList
    pending := t.pending ++ [clean] }

def note (t : Tail) (text : Text) (bytes : Nat) : Tail :=
  let t := t.take text bytes
  if maxLogLinesPerEvent ≤ t.pending.length then t.flush else t

/-- There is no more to read for now. -/
def rest (t : Tail) : Tail :=
  let t := if t.pending = [] then t else t.flush
  { t with stage := .polling }

def step (t : Tail) : Beat → Option Tail
  | .write bytes =>
      if t.exited = none then some { t with log := t.log ++ bytes, fresh := t.fresh ++ bytes }
      else none
  | .exit code => if t.exited = none then some { t with exited := some code } else none
  | .skip =>
      match t.stage with
      | .reading => if t.pending = [] then some t.rest else none
      | _ => none
  | .read =>
      match t.stage with
      | .reading =>
          match splitLine (t.log.drop t.offset) with
          | some (line, _) =>
              match decode line with
              | some text => some (t.note text (line.length + 1))
              -- A line that is no text is not read, and none after it.
              | none => some { t.rest with fresh := [] }
          | none => some { t.rest with fresh := [] }
      | _ => none
  | .poll kill =>
      match t.stage with
      | .polling =>
          match t.exited with
          | some code =>
              some { t with stage := .over_ ((t.killing.map Killing.ended).getD (.exited code t.verdict)) }
          | none => some { t with killing := t.killing.or kill, stage := .reading }
      | _ => none

/-- The lines that are reported of the log. -/
def logged (events : List EventKind) : List String :=
  events.flatMap fun | .log _ lines => lines | _ => []

/-- The verdict that stands last. -/
def lastVerdict (lines : List String) : Option Verdict := lines.reverse.findSome? parseVerdict

/-- All whole lines of the log are texts and are reported, each once and in their order, and
the verdict is the last of them that is one. -/
def Whole (log : Utf8.Bytes) (emitted : List EventKind) (verdict : Option Verdict) : Prop :=
  ∃ texts : List Text, wholeLines [] log = texts.map encode ∧
    logged emitted = texts.map (fun t => sanitize (String.ofList t)) ∧
    verdict = lastVerdict (texts.map fun t => sanitize (String.ofList t))

/-- Every whole line the child writes is a text, and none is finished between the end of a
tail and the look that finds the child gone. -/
def Heard (t : Tail) : Beat → Prop
  | .write bytes => ∀ line ∈ wholeLines [] (t.log ++ bytes), (decode line).isSome = true
  | .poll _ => t.exited ≠ none → newline ∉ t.fresh
  | _ => True

/-- What the lines of the texts are in the log. -/
def written (texts : List Text) : Utf8.Bytes := (texts.map encode).flatMap (· ++ [newline])

/-- The lines as they are reported. -/
def clean (texts : List Text) : List String := texts.map fun t => sanitize (String.ofList t)

/-- So many lines are read, and all of them are reported or about to be. -/
structure Read (t : Tail) (texts : List Text) (unread : Utf8.Bytes) : Prop where
  log : t.log = written texts ++ unread
  ends : ∀ line ∈ texts.map encode, newline ∉ line
  offset : t.offset = (written texts).length
  reported : logged t.emitted ++ t.pending = clean texts
  verdict : t.verdict = lastVerdict (clean texts)
  fresh : newline ∈ unread → newline ∈ t.fresh
  readable : ∀ line ∈ wholeLines [] t.log, (decode line).isSome = true

/-- How the wait stands: outside a tail nothing is pending, and it ends with an exit only where
no whole line is left. -/
def Stands (t : Tail) : Prop :=
  ∃ texts unread, t.Read texts unread ∧
    match t.stage with
    | .reading => True
    | .polling => t.pending = []
    | .over_ (.exited _ verdict) =>
        t.exited ≠ none ∧ t.pending = [] ∧ newline ∉ unread ∧ verdict = t.verdict
    | .over_ _ => True

section Steps
variable {t u : Tail} {texts : List Text} {unread : Utf8.Bytes}

theorem logged_append (a b : List EventKind) : logged (a ++ b) = logged a ++ logged b :=
  List.flatMap_append

theorem logged_progress (line : String) : logged (parseProgress line).toList = [] := by
  unfold parseProgress
  cases stripPrefix "[" (trimStart line) with
  | none => rfl
  | some rest =>
      cases h : afterSeconds rest.toList with
      | none => simp [h, logged]
      | some after =>
          simp only [h, Option.bind_eq_bind, Option.bind_some]
          split <;> rfl

theorem lastVerdict_snoc (lines : List String) (line : String) :
    lastVerdict (lines ++ [line]) = (parseVerdict line).or (lastVerdict lines) := by
  simp [lastVerdict, List.findSome?_cons]
  cases parseVerdict line <;> rfl

theorem Read.flush (read : t.Read texts unread) : t.flush.Read texts unread where
  log := read.log
  ends := read.ends
  offset := read.offset
  reported := by
    rw [← read.reported]
    simp [Tail.flush, logged]
  verdict := read.verdict
  fresh := read.fresh
  readable := read.readable

theorem written_snoc (texts : List Text) (text : Text) :
    written (texts ++ [text]) = written texts ++ (encode text ++ [newline]) := by
  simp [written, List.flatMap_append]

theorem clean_snoc (texts : List Text) (text : Text) :
    clean (texts ++ [text]) = clean texts ++ [sanitize (String.ofList text)] := by
  simp [clean]

theorem Read.note (read : t.Read texts unread) {text : Text} {after : Utf8.Bytes}
    (line : unread = encode text ++ newline :: after) (free : newline ∉ encode text) :
    (t.note text ((encode text).length + 1)).Read (texts ++ [text]) after := by
  have log : t.log = written (texts ++ [text]) ++ after := by
    rw [read.log, line, written_snoc, List.append_assoc, List.append_assoc]
    rfl
  have ends : ∀ line ∈ (texts ++ [text]).map encode, newline ∉ line := by
    intro l hl
    rw [List.map_append, List.mem_append] at hl
    cases hl with
    | inl old => exact read.ends l old
    | inr new => rw [List.mem_singleton.mp new]; exact free
  have offset : t.offset + ((encode text).length + 1) = (written (texts ++ [text])).length := by
    rw [written_snoc, List.length_append, List.length_append, ← read.offset]
    rfl
  have fresh (later : newline ∈ after) : newline ∈ t.fresh := by
    refine read.fresh ?_
    rw [line]
    exact List.mem_append_right _ List.mem_cons_self
  have taken : (t.take text ((encode text).length + 1)).Read (texts ++ [text]) after := by
    refine ⟨log, ends, offset, ?_, ?_, fresh, read.readable⟩
    · have silent : logged (if (parseVerdict (sanitize (String.ofList text))).isSome then []
          else (parseProgress (sanitize (String.ofList text))).toList) = [] := by
        split
        · rfl
        · exact logged_progress _
      simp only [take]
      rw [logged_append, silent, List.append_nil, clean_snoc, ← read.reported, List.append_assoc]
    · simp only [take]
      rw [clean_snoc, lastVerdict_snoc, read.verdict]
  rw [Tail.note]
  split
  · exact taken.flush
  · exact taken

theorem stage_note (text : Text) (bytes : Nat) : (t.note text bytes).stage = t.stage := by
  rw [Tail.note]
  split <;> rfl

theorem Read.rest (read : t.Read texts unread) :
    t.rest.Read texts unread ∧ t.rest.pending = [] ∧ t.rest.stage = .polling := by
  unfold Tail.rest
  split
  · next none_ =>
      exact ⟨⟨read.log, read.ends, read.offset, read.reported, read.verdict, read.fresh,
        read.readable⟩, none_, rfl⟩
  · have flushed := read.flush
    exact ⟨⟨flushed.log, flushed.ends, flushed.offset, flushed.reported, flushed.verdict,
      flushed.fresh, flushed.readable⟩, rfl, rfl⟩

/-- A tail comes to an end where no whole line is left. -/
theorem Read.ended (read : t.Read texts unread) (free : newline ∉ unread) :
    Stands { t.rest with fresh := [] } := by
  obtain ⟨rested, none_, polling⟩ := read.rest
  refine ⟨texts, unread, ⟨rested.log, rested.ends, rested.offset, rested.reported,
    rested.verdict, fun line => absurd line free, rested.readable⟩, ?_⟩
  rw [polling]
  exact none_

theorem step_stands {beat : Beat} (stands : t.Stands) (heard : t.Heard beat)
    (step : t.step beat = some u) : u.Stands := by
  obtain ⟨texts, unread, read, stage⟩ := stands
  have drop : t.log.drop t.offset = unread := by
    rw [read.log, read.offset, List.drop_left]
  cases beat with
  | write bytes =>
      simp only [Tail.step] at step
      split at step
      · next alive =>
          cases step
          refine ⟨texts, unread ++ bytes, ⟨?_, read.ends, read.offset, read.reported,
            read.verdict, fun line => ?_, heard⟩, ?_⟩
          · rw [read.log, List.append_assoc]
          · exact List.mem_append.mpr ((List.mem_append.mp line).imp_left read.fresh)
          · dsimp only
            split <;> simp_all
      · cases step
  | exit code =>
      simp only [Tail.step] at step
      split at step
      · next alive =>
          cases step
          refine ⟨texts, unread, ⟨read.log, read.ends, read.offset, read.reported, read.verdict,
            read.fresh, read.readable⟩, ?_⟩
          dsimp only
          split <;> simp_all
      · cases step
  | skip =>
      simp only [Tail.step] at step
      split at step
      · split at step
        · cases step
          obtain ⟨rested, none_, polling⟩ := read.rest
          refine ⟨texts, unread, rested, ?_⟩
          rw [polling]
          exact none_
        · cases step
      · cases step
  | read =>
      simp only [Tail.step] at step
      split at step
      · next reading =>
          rw [drop] at step
          split at step
          · next line after split_ =>
              obtain ⟨whole, free⟩ := splitLine_eq_some split_
              have mem : line ∈ wholeLines [] t.log := by
                rw [read.log, written, wholeLines_lines read.ends, whole, wholeLines_line free]
                exact List.mem_append_right _ List.mem_cons_self
              split at step
              · next text decoded =>
                  rw [← encode_of_decode decoded] at whole free step
                  rw [← Option.some.inj step]
                  refine ⟨_, _, read.note whole free, ?_⟩
                  rw [stage_note, reading]
                  trivial
              · next broken =>
                  have valid := read.readable line mem
                  rw [broken] at valid
                  cases valid
          · next none_ =>
              cases step
              exact read.ended (splitLine_eq_none.mp none_)
      · cases step
  | poll kill =>
      simp only [Tail.step] at step
      split at step
      · next polling =>
          rw [polling] at stage
          split at step
          · next code gone =>
              cases step
              refine ⟨texts, unread, ⟨read.log, read.ends, read.offset, read.reported,
                read.verdict, read.fresh, read.readable⟩, ?_⟩
              have free : newline ∉ unread := fun line =>
                heard (by rw [gone]; exact nofun) (read.fresh line)
              cases killing : t.killing with
              | none => exact ⟨by rw [gone]; exact nofun, stage, free, rfl⟩
              | some k => cases k <;> trivial
          · cases step
            exact ⟨texts, unread, ⟨read.log, read.ends, read.offset, read.reported,
              read.verdict, read.fresh, read.readable⟩, trivial⟩
      · cases step

end Steps

/-- When a wait says that the child exited, its log is reported whole. -/
theorem exited_whole {log : Utf8.Bytes} {gone : Option Int32} {beats : List Beat} {t : Tail}
    (readable : ∀ line ∈ wholeLines [] log, (decode line).isSome = true)
    (run : Run step Heard (start log gone) beats t) {code : Int32} {verdict : Option Verdict}
    (exited : t.stage = .over_ (.exited code verdict)) : Whole t.log t.emitted verdict := by
  have first : Stands (start log gone) :=
    ⟨[], log, ⟨rfl, nofun, rfl, rfl, rfl, id, readable⟩, trivial⟩
  obtain ⟨texts, unread, read, stage⟩ : Stands t :=
    run.invariant first fun t beat u stands heard step => step_stands stands heard step
  rw [exited] at stage
  obtain ⟨_, none_, free, same⟩ := stage
  refine ⟨texts, ?_, ?_, same.trans read.verdict⟩
  · rw [read.log, written, wholeLines_lines read.ends, wholeLines_none free, List.append_nil]
  · have reported := read.reported
    rwa [none_, List.append_nil] at reported

section Instances

def passLine : Utf8.Bytes := encode "Pass: ok".toList ++ [newline]

def passed : Verdict := ⟨.pass, "ok"⟩

instance (t : Tail) (beat : Beat) : Decidable (t.Heard beat) :=
  match beat with
  | .write bytes => inferInstanceAs
      (Decidable (∀ line ∈ wholeLines [] (t.log ++ bytes), (decode line).isSome = true))
  | .poll _ => inferInstanceAs (Decidable (t.exited ≠ none → newline ∉ t.fresh))
  | .exit _ | .skip | .read => isTrue trivial

/-- The line is read before the child is gone. -/
theorem pass_heard : ∃ t, Run step Heard (start [] none)
      [.write passLine, .read, .read, .exit 0, .poll none] t ∧
    t.stage = .over_ (.exited 0 (some passed)) ∧ Whole t.log t.emitted (some passed) := by
  have run : (replay step Heard (start [] none)
      [.write passLine, .read, .read, .exit 0, .poll none]).map Tail.stage =
        some (.over_ (.exited 0 (some passed))) := by
    decide +kernel
  obtain ⟨t, run, over_⟩ := Option.map_eq_some_iff.mp run
  exact ⟨t, Run.of_replay run, over_, exited_whole (by decide) (Run.of_replay run) over_⟩

/-- The verdict is printed between the end of a tail and the look at the child; or after a line
that is no text. -/
theorem verdict_lost :
    (∃ t, Run step Free (start [] none) [.read, .write passLine, .exit 0, .poll none] t ∧
      t.stage = .over_ (.exited 0 none) ∧ ¬Whole t.log t.emitted none) ∧
    ∃ t, Run step Free (start [] none)
        [.write (0xFF :: newline :: passLine), .read, .exit 0, .poll none] t ∧
      t.stage = .over_ (.exited 0 none) ∧ ¬Whole t.log t.emitted none := by
  have lost {beats : List Beat} (run : (replay step Free (start [] none) beats).map
      (fun t => (t.stage, t.emitted, (wholeLines [] t.log).isEmpty)) =
        some (.over_ (.exited 0 none), [], false)) :
      ∃ t, Run step Free (start [] none) beats t ∧
        t.stage = .over_ (.exited 0 none) ∧ ¬Whole t.log t.emitted none := by
    obtain ⟨t, run, facts⟩ := Option.map_eq_some_iff.mp run
    simp only [Prod.mk.injEq] at facts
    refine ⟨t, Run.of_replay run, facts.1, ?_⟩
    rintro ⟨texts, whole, reported, _⟩
    rw [facts.2.1] at reported
    have none_ : texts = [] := List.map_eq_nil_iff.mp reported.symm
    rw [none_] at whole
    rw [whole] at facts
    cases facts.2.2
  exact ⟨lost (by decide +kernel), lost (by decide +kernel)⟩

end Instances

end Tail

end Bench
end Metralectl
