import Metralectl.Library.Ascii
import Metralectl.Library.Nesting
import Metralectl.Library.Utf8
import Metralectl.Protocol.Ids

/-!
The vocabulary of benchmark jobs: validated identifiers, where a job is in its life, the
events it produces, and the JSON text of an event with how one is read back.
-/
namespace Metralectl
namespace Bench
open JsonText

inductive BenchIdError where
  | empty
  | length (bytes max : Nat)
  | charset (c : Char)
  | notASha
  | flagShaped
deriving DecidableEq

def isAsciiAlphanumeric (c : Char) : Bool := c.isAlphanum

def checkToken (s : String) (max : Nat) (extra : List Char) : Except BenchIdError Unit :=
  if s = "" then .error .empty
  else if max < s.utf8ByteSize then .error (.length s.utf8ByteSize max)
  else if s.toList.head? = some '-' then .error .flagShaped
  else
    match s.toList.find? fun c => !(isAsciiAlphanumeric c || extra.contains c) with
    | some c => .error (.charset c)
    | none => .ok ()

instance (s : String) (max : Nat) (extra : List Char) :
    Decidable (checkToken s max extra = .ok ()) :=
  match checkToken s max extra with
  | .ok () => .isTrue rfl
  | .error _ => .isFalse nofun

/-- A name of the alphabet, in at most 64 bytes. -/
@[ext] structure Token (extra : List Char) where
  text : String
  accepted : checkToken text 64 extra = .ok ()
deriving DecidableEq

def Token.parse (extra : List Char) (s : String) : Option (Token extra) :=
  if h : checkToken s 64 extra = .ok () then some ⟨s, h⟩ else none

/-- The submitter's idempotency key. -/
abbrev JobKey := Token ['.', '_', '-']
/-- The job identifier the node mints. -/
abbrev JobId := Token ['-']
/-- A benchmark id as its registry spells it. -/
abbrev GateId := Token ['.', '_', '-']

theorem utf8Size_alphanum {c : Char} (h : c.isAlphanum = true) : c.utf8Size = 1 := by
  rw [Char.utf8Size_eq_one_iff]
  have range := Ascii.alphanum_range h
  exact UInt32.le_iff_toNat_le.mpr (show c.toNat ≤ 127 by omega)

theorem Token.plain {extra : List Char} (t : Token extra) :
    ∀ c ∈ t.text.toList, c.isAlphanum = true ∨ c ∈ extra := by
  have accepted := t.accepted
  unfold checkToken at accepted
  split at accepted
  · cases accepted
  · split at accepted
    · cases accepted
    · split at accepted
      · cases accepted
      · split at accepted
        · cases accepted
        · next all =>
            intro c hc
            have kept := List.find?_eq_none.mp all c hc
            simp only [isAsciiAlphanumeric, Bool.not_eq_true, Bool.not_eq_false',
              Bool.or_eq_true, List.contains_iff_mem] at kept
            exact kept

theorem Token.unflagged {extra : List Char} (t : Token extra) :
    t.text ≠ "" ∧ t.text.toList.head? ≠ some '-' := by
  have accepted := t.accepted
  unfold checkToken at accepted
  split at accepted
  · cases accepted
  · next filled =>
      split at accepted
      · cases accepted
      · split at accepted
        · cases accepted
        · next unflagged => exact ⟨filled, unflagged⟩

def isSha (s : String) : Bool :=
  s.utf8ByteSize = 40 && s.toList.all fun c => c.isDigit || ('a' ≤ c && c ≤ 'f')

/-- A full commit id: a job pins a tree, and a prefix is not a tree. -/
structure Sha where
  text : String
  accepted : isSha text = true
deriving DecidableEq

def Sha.parse (s : String) : Option Sha := if h : isSha s = true then some ⟨s, h⟩ else none

/-- Where a job is in its life. -/
inductive JobState where
  | queued
  | preparing
  | building
  | running
  | collecting
  | done
deriving DecidableEq

def JobState.isTerminal (s : JobState) : Bool := s = .done

inductive LogStream where
  | build
  | run
deriving DecidableEq

inductive VerdictKind where
  | pass
  | fail
  | info
deriving DecidableEq

structure Verdict where
  kind : VerdictKind
  text : String
deriving DecidableEq

inductive ArtifactKind where
  | record
  | signature
  | runLog
  | extra
deriving DecidableEq

/-- One artifact, as listed and as fetched. -/
structure ArtifactMeta where
  name : String
  relativePath : String
  bytes : UInt64
  sha256 : String
  kind : ArtifactKind
deriving DecidableEq

/-- How a job ended. -/
inductive Outcome where
  | completed (exitCode : Int32) (verdict : Option Verdict) (record signature : Option String)
  | failed (stage : JobState) (reason : String)
  | timedOut (stage : JobState) (afterS : UInt64)
  | cancelled (by_ : NodeId)
  | orphaned (reason : String)
deriving DecidableEq

/-- What happened. -/
inductive EventKind where
  | queued (position : UInt32)
  | preparing (sha : Sha) (fetched : Bool)
  | build (cached : Bool) (reason : String)
  | built (binarySha256 : String) (cached : Bool) (secs : UInt64)
  | running (pid : UInt32) (argv : List String)
  | progress (phase detail : String)
  | log (stream : LogStream) (lines : List String)
  | logTruncated (droppedBytes : UInt64)
  | verdict (verdict : Verdict)
  | artifact (info : ArtifactMeta)
  | done (outcome : Outcome)
  /-- Never journaled. -/
  | heartbeat (state : JobState) (seqHigh : UInt64)
deriving DecidableEq

def EventKind.isHeartbeat : EventKind → Bool
  | .heartbeat _ _ => true
  | _ => false

def EventKind.isDone : EventKind → Bool
  | .done _ => true
  | _ => false

/-- One event of one job. -/
structure BenchEvent where
  job : JobId
  seq : UInt64
  atMs : UInt64
  kind : EventKind
deriving DecidableEq

section Writing

/-- A number that is no integer is its own text. -/
abbrev Value := Json String
abbrev Members := List (String × Value)

def int (n : Int) : Value := .number (.int n)
def texts (ts : List String) : Value := .array (ts.map .string)
def optionText (t : Option String) : Value := t.elim .null .string

def nodeText (id : NodeId) : String := String.ofList (hexDigits 64 id.toNat)

def JobState.name : JobState → String
  | .queued => "queued"
  | .preparing => "preparing"
  | .building => "building"
  | .running => "running"
  | .collecting => "collecting"
  | .done => "done"

def LogStream.name : LogStream → String
  | .build => "build"
  | .run => "run"

def VerdictKind.name : VerdictKind → String
  | .pass => "pass"
  | .fail => "fail"
  | .info => "info"

def ArtifactKind.name : ArtifactKind → String
  | .record => "record"
  | .signature => "signature"
  | .runLog => "run_log"
  | .extra => "extra"

def Verdict.toJson (v : Verdict) : Value :=
  .object [("kind", .string v.kind.name), ("text", .string v.text)]

def ArtifactMeta.toJson (a : ArtifactMeta) : Value :=
  .object [("name", .string a.name), ("relative_path", .string a.relativePath),
    ("bytes", int a.bytes.toNat), ("sha256", .string a.sha256), ("kind", .string a.kind.name)]

def Outcome.members : Outcome → Members
  | .completed exitCode verdict record signature =>
      [("outcome", .string "completed"), ("exit_code", int exitCode.toInt),
        ("verdict", verdict.elim .null Verdict.toJson), ("record", optionText record),
        ("signature", optionText signature)]
  | .failed stage reason =>
      [("outcome", .string "failed"), ("stage", .string stage.name), ("reason", .string reason)]
  | .timedOut stage afterS =>
      [("outcome", .string "timed_out"), ("stage", .string stage.name),
        ("after_s", int afterS.toNat)]
  | .cancelled by_ => [("outcome", .string "cancelled"), ("by", .string (nodeText by_))]
  | .orphaned reason => [("outcome", .string "orphaned"), ("reason", .string reason)]

def EventKind.members : EventKind → Members
  | .queued position => [("kind", .string "queued"), ("position", int position.toNat)]
  | .preparing sha fetched =>
      [("kind", .string "preparing"), ("sha", .string sha.text), ("fetched", .bool fetched)]
  | .build cached reason =>
      [("kind", .string "build"), ("cached", .bool cached), ("reason", .string reason)]
  | .built binarySha256 cached secs =>
      [("kind", .string "built"), ("binary_sha256", .string binarySha256),
        ("cached", .bool cached), ("secs", int secs.toNat)]
  | .running pid argv =>
      [("kind", .string "running"), ("pid", int pid.toNat), ("argv", texts argv)]
  | .progress phase detail =>
      [("kind", .string "progress"), ("phase", .string phase), ("detail", .string detail)]
  | .log stream lines =>
      [("kind", .string "log"), ("stream", .string stream.name), ("lines", texts lines)]
  | .logTruncated droppedBytes =>
      [("kind", .string "log_truncated"), ("dropped_bytes", int droppedBytes.toNat)]
  | .verdict v => [("kind", .string "verdict"), ("verdict", v.toJson)]
  | .artifact info => [("kind", .string "artifact"), ("meta", info.toJson)]
  | .done outcome => ("kind", .string "done") :: outcome.members
  | .heartbeat state seqHigh =>
      [("kind", .string "heartbeat"), ("state", .string state.name),
        ("seq_high", int seqHigh.toNat)]

/-- The kind's members stand beside the event's own. -/
def BenchEvent.toJson (e : BenchEvent) : Value :=
  .object (("job", .string e.job.text) :: ("seq", int e.seq.toNat) ::
    ("at_ms", int e.atMs.toNat) :: e.kind.members)

/-- The text of a value, in one line. -/
def compact (v : Value) : List Char := render String.toList v

def BenchEvent.text (e : BenchEvent) : List Char := compact e.toJson

end Writing

section Reading

/-- The member of that name. -/
def field (key : String) : Members → Option Value
  | [] => none
  | (name, v) :: rest => if name = key then some v else field key rest

def asText : Value → Option String
  | .string s => some s
  | _ => none

def asFlag : Value → Option Bool
  | .bool b => some b
  | _ => none

def asInt : Value → Option Int
  | .number (.int n) => some n
  | _ => none

/-- Of each width, the integers it holds. -/
def asU64 (v : Value) : Option UInt64 :=
  (asInt v).bind fun n =>
    let held := UInt64.ofNat n.toNat
    if (held.toNat : Int) = n then some held else none

def asU32 (v : Value) : Option UInt32 :=
  (asInt v).bind fun n =>
    let held := UInt32.ofNat n.toNat
    if (held.toNat : Int) = n then some held else none

def asI32 (v : Value) : Option Int32 :=
  (asInt v).bind fun n =>
    let held := Int32.ofInt n
    if held.toInt = n then some held else none

def asTexts : Value → Option (List String)
  | .array items => items.mapM asText
  | _ => none

def asMembers : Value → Option Members
  | .object members => some members
  | _ => none

/-- What may be absent, as what may be null. -/
def orNull {α : Type} (read : Value → Option α) : Option Value → Option (Option α)
  | none => some none
  | some .null => some none
  | some v => (read v).map some

/-- A name of the enumeration. -/
def asName {α : Type} (all : List α) (name : α → String) (v : Value) : Option α :=
  (asText v).bind fun s => all.find? (name · = s)

def asState : Value → Option JobState :=
  asName [.queued, .preparing, .building, .running, .collecting, .done] JobState.name

/-- A fingerprint of 64 hex digits. -/
def NodeId.parse (s : String) : Option NodeId :=
  if s.utf8ByteSize = 64 then
    (s.toList.mapM hexValue).map fun digits =>
      BitVec.ofNat 256 (digits.foldl (fun n d => 16 * n + d) 0)
  else none

def Verdict.ofJson (v : Value) : Option Verdict := do
  let m ← asMembers v
  let kind ← (field "kind" m).bind (asName [.pass, .fail, .info] VerdictKind.name)
  let text ← (field "text" m).bind asText
  some ⟨kind, text⟩

def ArtifactMeta.ofJson (v : Value) : Option ArtifactMeta := do
  let m ← asMembers v
  let name ← (field "name" m).bind asText
  let relativePath ← (field "relative_path" m).bind asText
  let bytes ← (field "bytes" m).bind asU64
  let sha256 ← (field "sha256" m).bind asText
  let kind ← (field "kind" m).bind
    (asName [.record, .signature, .runLog, .extra] ArtifactKind.name)
  some ⟨name, relativePath, bytes, sha256, kind⟩

def Outcome.ofMembers (m : Members) : Option Outcome := do
  match ← (field "outcome" m).bind asText with
  | "completed" =>
      let exitCode ← (field "exit_code" m).bind asI32
      let verdict ← orNull Verdict.ofJson (field "verdict" m)
      let record ← orNull asText (field "record" m)
      let signature ← orNull asText (field "signature" m)
      some (.completed exitCode verdict record signature)
  | "failed" =>
      let stage ← (field "stage" m).bind asState
      let reason ← (field "reason" m).bind asText
      some (.failed stage reason)
  | "timed_out" =>
      let stage ← (field "stage" m).bind asState
      let afterS ← (field "after_s" m).bind asU64
      some (.timedOut stage afterS)
  | "cancelled" =>
      let by_ ← ((field "by" m).bind asText).bind NodeId.parse
      some (.cancelled by_)
  | "orphaned" => ((field "reason" m).bind asText).map .orphaned
  | _ => none

def EventKind.ofMembers (m : Members) : Option EventKind := do
  match ← (field "kind" m).bind asText with
  | "queued" => ((field "position" m).bind asU32).map .queued
  | "preparing" =>
      let sha ← ((field "sha" m).bind asText).bind Sha.parse
      let fetched ← (field "fetched" m).bind asFlag
      some (.preparing sha fetched)
  | "build" =>
      let cached ← (field "cached" m).bind asFlag
      let reason ← (field "reason" m).bind asText
      some (.build cached reason)
  | "built" =>
      let binarySha256 ← (field "binary_sha256" m).bind asText
      let cached ← (field "cached" m).bind asFlag
      let secs ← (field "secs" m).bind asU64
      some (.built binarySha256 cached secs)
  | "running" =>
      let pid ← (field "pid" m).bind asU32
      let argv ← (field "argv" m).bind asTexts
      some (.running pid argv)
  | "progress" =>
      let phase ← (field "phase" m).bind asText
      let detail ← (field "detail" m).bind asText
      some (.progress phase detail)
  | "log" =>
      let stream ← (field "stream" m).bind (asName [.build, .run] LogStream.name)
      let lines ← (field "lines" m).bind asTexts
      some (.log stream lines)
  | "log_truncated" => ((field "dropped_bytes" m).bind asU64).map .logTruncated
  | "verdict" => ((field "verdict" m).bind Verdict.ofJson).map .verdict
  | "artifact" => ((field "meta" m).bind ArtifactMeta.ofJson).map .artifact
  | "done" => (Outcome.ofMembers m).map .done
  | "heartbeat" =>
      let state ← (field "state" m).bind asState
      let seqHigh ← (field "seq_high" m).bind asU64
      some (.heartbeat state seqHigh)
  | _ => none

def BenchEvent.ofJson (v : Value) : Option BenchEvent := do
  let m ← asMembers v
  let job ← ((field "job" m).bind asText).bind (Token.parse _)
  let seq ← (field "seq" m).bind asU64
  let atMs ← (field "at_ms" m).bind asU64
  let kind ← EventKind.ofMembers m
  some ⟨job, seq, atMs, kind⟩

/-- The reader gives up at so many arrays and objects inside one another. -/
def recursionLimit : Nat := 127

def BenchEvent.ofText (text : List Char) : Option BenchEvent :=
  (parseWithin (fun t => some (String.ofList t)) recursionLimit text).bind BenchEvent.ofJson

end Reading

section RoundTrip

theorem asU64_int (n : UInt64) : asU64 (int n.toNat) = some n := by
  simp only [asU64, int, asInt, Option.bind_some, Int.toNat_natCast, UInt64.ofNat_toNat, if_true]

theorem asU32_int (n : UInt32) : asU32 (int n.toNat) = some n := by
  simp only [asU32, int, asInt, Option.bind_some, Int.toNat_natCast, UInt32.ofNat_toNat, if_true]

theorem asI32_int (n : Int32) : asI32 (int n.toInt) = some n := by
  simp [asI32, int, asInt]

theorem asTexts_texts (ts : List String) : asTexts (texts ts) = some ts := by
  induction ts with
  | nil => rfl
  | cons t ts ih =>
      change (ts.map Json.string).mapM asText = some ts at ih
      change ((t :: ts).map Json.string).mapM asText = _
      rw [List.map_cons, List.mapM_cons, ih]
      rfl

theorem orNull_optionText (t : Option String) : orNull asText (some (optionText t)) = some t := by
  cases t <;> rfl

theorem hexValue_digits (digits n : Nat) :
    (hexDigits digits n).mapM hexValue =
      some ((List.range digits).map fun i => n / 16 ^ (digits - 1 - i) % 16) := by
  rw [hexDigits, List.mapM_map]
  generalize List.range digits = places
  induction places with
  | nil => rfl
  | cons i places ih =>
      have digit : hexValue (n / 16 ^ (digits - 1 - i) % 16).digitChar =
          some (n / 16 ^ (digits - 1 - i) % 16) :=
        hexValue_digitChar _ (Nat.mod_lt _ (by decide))
      rw [List.mapM_cons, ih, Function.comp_apply, digit]
      rfl

/-- The digits of a number, most significant first, come to the number again. -/
theorem foldl_digits (digits n : Nat) :
    ((List.range digits).map fun i => n / 16 ^ (digits - 1 - i) % 16).foldl
      (fun n d => 16 * n + d) 0 = n % 16 ^ digits := by
  induction digits generalizing n with
  | zero => simp [Nat.mod_one]
  | succ digits ih =>
      have fronts : (List.range digits).map (fun i => n / 16 ^ (digits + 1 - 1 - i) % 16) =
          (List.range digits).map fun i => n / 16 / 16 ^ (digits - 1 - i) % 16 := by
        apply List.map_congr_left
        intro i hi
        have room := List.mem_range.mp hi
        rw [Nat.div_div_eq_div_mul, ← Nat.pow_succ', show digits + 1 - 1 - i = digits - 1 - i + 1 by omega]
      have last : n / 16 ^ (digits + 1 - 1 - digits) = n := by simp
      rw [List.range_succ, List.map_append, List.foldl_append, fronts, ih, List.map_singleton, last,
        Nat.pow_succ', Nat.mod_mul, List.foldl_cons, List.foldl_nil]
      omega

theorem hexDigits_ascii {digits n : Nat} {c : Char} (h : c ∈ hexDigits digits n) :
    c.utf8Size = 1 ∧ hexValue c ≠ none := by
  obtain ⟨i, _, rfl⟩ := List.mem_map.mp h
  have small : n / 16 ^ (digits - 1 - i) % 16 < 16 := Nat.mod_lt _ (by decide)
  generalize n / 16 ^ (digits - 1 - i) % 16 = d at small
  revert d
  decide

theorem nodeText_bytes (id : NodeId) : (nodeText id).utf8ByteSize = 64 := by
  have ascii := @Utf8.length_encode_ascii (hexDigits 64 id.toNat) fun c hc =>
    (hexDigits_ascii hc).1
  rw [nodeText, Utf8.utf8ByteSize_ofList, ascii, hexDigits, List.length_map, List.length_range]

theorem NodeId.parse_text (id : NodeId) : NodeId.parse (nodeText id) = some id := by
  have bits : (16 : Nat) ^ 64 = 2 ^ 256 := by decide +kernel
  rw [NodeId.parse, if_pos (nodeText_bytes id), nodeText, String.toList_ofList, hexValue_digits,
    Option.map_some, foldl_digits, bits, Nat.mod_eq_of_lt id.isLt, BitVec.ofNat_toNat,
    BitVec.setWidth_eq]

theorem asState_name (s : JobState) : asState (.string s.name) = some s := by cases s <;> decide

theorem asVerdict_name (k : VerdictKind) :
    asName [.pass, .fail, .info] VerdictKind.name (.string k.name) = some k := by
  cases k <;> decide

theorem asStream_name (k : LogStream) :
    asName [.build, .run] LogStream.name (.string k.name) = some k := by
  cases k <;> decide

theorem asArtifact_name (k : ArtifactKind) :
    asName [.record, .signature, .runLog, .extra] ArtifactKind.name (.string k.name) = some k := by
  cases k <;> decide

theorem Token.parse_text {extra : List Char} (t : Token extra) : Token.parse extra t.text = some t :=
  dif_pos t.accepted

theorem Sha.parse_text (s : Sha) : Sha.parse s.text = some s := dif_pos s.accepted

theorem Verdict.ofJson_toJson (v : Verdict) : Verdict.ofJson v.toJson = some v := by
  simp [Verdict.ofJson, Verdict.toJson, asMembers, field, asVerdict_name, asText]

theorem ArtifactMeta.ofJson_toJson (a : ArtifactMeta) : ArtifactMeta.ofJson a.toJson = some a := by
  simp [ArtifactMeta.ofJson, ArtifactMeta.toJson, asMembers, field, asArtifact_name, asText,
    asU64_int]

theorem orNull_verdict (v : Option Verdict) :
    orNull Verdict.ofJson (some (v.elim .null Verdict.toJson)) = some v := by
  cases v with
  | none => rfl
  | some v =>
      have back := v.ofJson_toJson
      rw [Verdict.toJson] at back
      simp [orNull, Verdict.toJson, back]

theorem field_append {key : String} {front : Members} (other : ∀ m ∈ front, m.1 ≠ key)
    (rest : Members) : field key (front ++ rest) = field key rest := by
  induction front with
  | nil => rfl
  | cons m front ih =>
      rw [List.cons_append, field, if_neg (other m List.mem_cons_self),
        ih fun n hn => other n (List.mem_cons_of_mem _ hn)]

/-- What stands beside an outcome where it is written. -/
def besideOutcome : List String := ["job", "seq", "at_ms", "kind"]

theorem Outcome.ofMembers_beside {front : Members} (other : ∀ m ∈ front, m.1 ∈ besideOutcome)
    (rest : Members) : Outcome.ofMembers (front ++ rest) = Outcome.ofMembers rest := by
  have skip {key : String} (own : key ∉ besideOutcome) :
      field key (front ++ rest) = field key rest := by
    refine field_append (fun m hm same => own ?_) rest
    exact same ▸ other m hm
  simp only [Outcome.ofMembers, @skip "outcome" (by decide), @skip "exit_code" (by decide),
    @skip "verdict" (by decide), @skip "record" (by decide), @skip "signature" (by decide),
    @skip "stage" (by decide), @skip "reason" (by decide), @skip "after_s" (by decide),
    @skip "by" (by decide)]

theorem Outcome.ofMembers_members (o : Outcome) : Outcome.ofMembers o.members = some o := by
  cases o <;>
    simp [Outcome.ofMembers, members, field, asText, asI32_int, orNull_verdict,
      orNull_optionText, asState_name, asU64_int, NodeId.parse_text]

/-- What stands beside a kind where it is written. -/
def besideKind : List String := ["job", "seq", "at_ms"]

theorem EventKind.ofMembers_beside {front : Members} (other : ∀ m ∈ front, m.1 ∈ besideKind)
    (rest : Members) : EventKind.ofMembers (front ++ rest) = EventKind.ofMembers rest := by
  have skip {key : String} (own : key ∉ besideKind) :
      field key (front ++ rest) = field key rest := by
    refine field_append (fun m hm same => own ?_) rest
    exact same ▸ other m hm
  have outcome : Outcome.ofMembers (front ++ rest) = Outcome.ofMembers rest := by
    refine Outcome.ofMembers_beside (fun m hm => ?_) rest
    exact List.mem_append_left ["kind"] (other m hm)
  simp only [EventKind.ofMembers, outcome, @skip "kind" (by decide), @skip "position" (by decide),
    @skip "sha" (by decide), @skip "fetched" (by decide), @skip "cached" (by decide),
    @skip "reason" (by decide), @skip "binary_sha256" (by decide), @skip "secs" (by decide),
    @skip "pid" (by decide), @skip "argv" (by decide), @skip "phase" (by decide),
    @skip "detail" (by decide), @skip "stream" (by decide), @skip "lines" (by decide),
    @skip "dropped_bytes" (by decide), @skip "verdict" (by decide), @skip "meta" (by decide),
    @skip "state" (by decide), @skip "seq_high" (by decide)]

theorem EventKind.ofMembers_members (k : EventKind) : EventKind.ofMembers k.members = some k := by
  cases k with
  | done outcome =>
      have tag : Outcome.ofMembers (("kind", .string "done") :: outcome.members) = some outcome :=
        (@Outcome.ofMembers_beside [("kind", .string "done")]
          (fun m hm => by rw [List.mem_singleton.mp hm]; decide) _).trans outcome.ofMembers_members
      simp [EventKind.ofMembers, members, field, asText, tag]
  | _ =>
      simp [EventKind.ofMembers, members, field, asText, asFlag, asU32_int, asU64_int,
        asTexts_texts, asStream_name, asState_name, Sha.parse_text, Verdict.ofJson_toJson,
        ArtifactMeta.ofJson_toJson]

theorem BenchEvent.ofJson_toJson (e : BenchEvent) : BenchEvent.ofJson e.toJson = some e := by
  have own : ∀ m ∈ ([("job", .string e.job.text), ("seq", int e.seq.toNat),
      ("at_ms", int e.atMs.toNat)] : Members), m.1 ∈ besideKind := by
    intro m hm
    simp only [List.mem_cons, List.not_mem_nil, or_false] at hm
    obtain rfl | rfl | rfl := hm <;> simp [besideKind]
  have kind := (EventKind.ofMembers_beside own _).trans e.kind.ofMembers_members
  simp only [List.cons_append, List.nil_append] at kind
  simp [BenchEvent.ofJson, BenchEvent.toJson, asMembers, field, asText, asU64_int, kind,
    Token.parse_text]

end RoundTrip

section Texts

/-- A number is an integer that is kept exactly. -/
def Kept (v : Value) : Prop := ∀ n, v = .number n → ∃ i, n = .int i ∧ Admitted i

/-- A value without arrays or objects below its own, all of whose numbers are kept. -/
structure Shallow (v : Value) : Prop where
  kept : v.Everywhere Kept
  within : v.Within 1

theorem shallow_leaf {v : Value} (leaf : v.parts = [v]) (within : v.Within 1) (kept : Kept v) :
    Shallow v := by
  refine ⟨fun w hw => ?_, within⟩
  rw [leaf, List.mem_singleton] at hw
  exact hw ▸ kept

@[simp] theorem shallow_string (s : String) : Shallow (.string s) :=
  shallow_leaf rfl trivial fun _ h => by cases h

@[simp] theorem shallow_bool (b : Bool) : Shallow (.bool b) :=
  shallow_leaf rfl trivial fun _ h => by cases h

theorem within_int (n : Int) : (int n).Within 0 := trivial

theorem shallow_int {n : Int} (h : Admitted n) : Shallow (int n) :=
  shallow_leaf rfl trivial fun _ same => ⟨n, (Json.number.inj same).symm, h⟩

@[simp] theorem shallow_u64 (n : UInt64) : Shallow (int n.toNat) := by
  have bound : (n.toNat : Int) < 2 ^ 64 := by exact_mod_cast n.toNat_lt
  exact shallow_int ⟨Int.le_trans (by decide) (Int.natCast_nonneg _), bound⟩

@[simp] theorem shallow_u32 (n : UInt32) : Shallow (int n.toNat) := by
  have bound : (n.toNat : Int) < 2 ^ 32 := by exact_mod_cast n.toNat_lt
  exact shallow_int ⟨Int.le_trans (by decide) (Int.natCast_nonneg _), bound.trans (by decide)⟩

@[simp] theorem shallow_i32 (n : Int32) : Shallow (int n.toInt) := by
  have low := n.le_toInt
  have high := n.toInt_lt
  exact shallow_int ⟨Int.le_trans (by decide) low, high.trans (by decide)⟩

@[simp] theorem shallow_optionText (t : Option String) : Shallow (optionText t) := by
  cases t with
  | none => exact shallow_leaf rfl trivial fun _ h => by cases h
  | some s => exact shallow_string s

theorem shallow_object {members : Members} (h : ∀ m ∈ members, Shallow m.2 ∧ m.2.Within 0) :
    Shallow (.object members) := by
  constructor
  · exact Json.everywhere_object.mpr ⟨fun _ same => (by cases same), fun m hm => (h m hm).1.kept⟩
  · exact fun m hm => (h m hm).2

@[simp] theorem shallow_texts (ts : List String) : Shallow (texts ts) := by
  constructor
  · refine Json.everywhere_array.mpr ⟨fun _ same => (by cases same), fun v hv => ?_⟩
    obtain ⟨t, _, rfl⟩ := List.mem_map.mp hv
    exact (shallow_string t).kept
  · intro v hv
    obtain ⟨t, _, rfl⟩ := List.mem_map.mp hv
    trivial

@[simp] theorem shallow_verdict (v : Verdict) : Shallow v.toJson :=
  shallow_object (by simp [Json.Within])

@[simp] theorem shallow_meta (a : ArtifactMeta) : Shallow a.toJson :=
  shallow_object (by simp [Json.Within, within_int])

@[simp] theorem shallow_optionVerdict (v : Option Verdict) :
    Shallow (v.elim .null Verdict.toJson) := by
  cases v with
  | none => exact shallow_leaf rfl trivial fun _ h => by cases h
  | some v => exact shallow_verdict v

theorem Outcome.shallow (o : Outcome) : ∀ m ∈ o.members, Shallow m.2 := by
  cases o <;> simp [members]

theorem EventKind.shallow (k : EventKind) : ∀ m ∈ k.members, Shallow m.2 := by
  cases k with
  | done outcome => simpa [members] using outcome.shallow
  | _ => simp [members]

theorem BenchEvent.shallow (e : BenchEvent) : e.toJson.Everywhere Kept ∧ e.toJson.Within 2 := by
  have all : ∀ m ∈ (("job", .string e.job.text) :: ("seq", int e.seq.toNat) ::
      ("at_ms", int e.atMs.toNat) :: e.kind.members : Members), Shallow m.2 := by
    simpa using e.kind.shallow
  constructor
  · exact Json.everywhere_object.mpr ⟨fun _ same => (by cases same), fun m hm => (all m hm).kept⟩
  · exact fun m hm => (all m hm).within

theorem Kept.readable {v : Value} (h : v.Everywhere Kept) :
    Readable String.toList (fun t => some (String.ofList t)) v := by
  intro w hw n number
  obtain ⟨i, rfl, admitted⟩ := h w hw n number
  exact admitted.reads String.toList

theorem BenchEvent.ofText_text (e : BenchEvent) : BenchEvent.ofText e.text = some e := by
  have back : parseWithin (fun t => some (String.ofList t)) recursionLimit e.text = some e.toJson :=
    parseWithin_render (Kept.readable e.shallow.1) (e.shallow.2.mono (by decide))
  rw [BenchEvent.ofText, back, Option.bind_some, ofJson_toJson]

theorem printed_int (n : Int) : Printed (writeNumber String.toList (.int n)) := by
  have digits (m : Nat) : Printed (Nat.toDigits 10 m) := by
    intro c hc
    have digit : c.isDigit = true := Nat.isDigit_of_mem_toDigits (by decide) (by decide) hc
    simp only [Char.isDigit, ge_iff_le, Bool.and_eq_true, decide_eq_true_eq] at digit
    exact Nat.le_trans (by decide) (UInt32.le_iff_toNat_le.mp digit.1)
  rw [writeNumber, toList_int]
  split
  · exact digits _
  · exact .cons (by decide) (digits _)

theorem BenchEvent.printed (e : BenchEvent) : Printed e.text := by
  refine printed_render _ fun w hw n number => ?_
  obtain ⟨i, rfl, _⟩ := e.shallow.1 w hw n number
  exact printed_int i

theorem BenchEvent.braced (e : BenchEvent) : Braced e.text :=
  braced_object (Kept.readable e.shallow.1)

/-- Every event's text begins with the job it is of. -/
theorem BenchEvent.text_start (e : BenchEvent) : ∃ more, e.text = '{' :: '"' :: 'j' :: more := by
  have key : quoted "job" = ['"', 'j', 'o', 'b', '"'] := by decide
  rw [text, compact, toJson, render, renderMembers_eq, List.map_cons, List.map_cons,
    commaSeparated_cons _ (by simp), writeMember, key]
  exact ⟨_, rfl⟩

end Texts

end Bench
end Metralectl
