import Metralectl.Bench.Machine

/-!
What a peer may ask of a benchmark node and what the node answers, and the checks a
submission passes before anything is looked up.
-/
namespace Metralectl
namespace Bench
open SortedMaps

/-- How the standard library quotes a text or a character in a message. -/
structure Quoting where
  text : String → String
  char : Char → String

def maxChunk : Nat := 512 * 1024
def maxParams : Nat := 32
def maxParamKey : Nat := 64
def maxParamValue : Nat := 256
def maxNote : Nat := 200

def BenchIdError.message (q : Quoting) : BenchIdError → String
  | .empty => "empty"
  | .length bytes max => s!"{bytes} bytes, more than {max}"
  | .charset c => s!"character {q.char c} is not allowed"
  | .notASha => "must be exactly 40 lowercase hex digits"
  | .flagShaped => "must not start with \x60-\x60"

def isControl (c : Char) : Bool := c.toNat < 0x20 || (0x7F ≤ c.toNat && c.toNat < 0xA0)

def checkParam (q : Quoting) (p : String × String) : Except String Unit :=
  match checkToken p.1 maxParamKey ['_', '-', '.'] with
  | .error e => .error s!"param key {q.text p.1}: {e.message q}"
  | .ok () =>
      if maxParamValue < p.2.utf8ByteSize then
        .error s!"param {p.1}: value is {p.2.utf8ByteSize} bytes, more than {maxParamValue}"
      else if p.2.toList.any isControl then
        .error s!"param {p.1}: value contains a control character"
      else .ok ()

/-- Validate a parameter map against the size bounds. -/
def checkParams (q : Quoting) (params : SortedMap String String) : Except String Unit :=
  if maxParams < params.entries.length then
    .error s!"{params.entries.length} params, more than {maxParams}"
  else params.entries.forM (checkParam q)

def isCheckpointName (c : String) : Bool :=
  c ≠ "" && c.utf8ByteSize ≤ 128 &&
    c.toList.all fun ch => isAsciiAlphanumeric ch || "._/-".toList.contains ch

/-- Why a node said no: what a node answers of these. -/
inductive BenchRefusal where
  | notGranted (command : String)
  | notConfigured (what fix : String)
  | diskLow (freeBytes requiredBytes : UInt64)
  | queueFull (depth retryAfterS : UInt32)
  | keyConflict (job : JobId)
  | badParams (errors : List String)
  | unknownJob (job : JobId)
  | noSuchArtifact (name : String)
  | rateLimited (retryAfterS : UInt32)
deriving DecidableEq

/-- A job in a status listing. -/
structure JobSummary where
  job : JobId
  jobKey : JobKey
  sha : Sha
  gate : GateId
  state : JobState
  createdAtS : Nat
  updatedAtS : Nat
  seqHigh : UInt64
  outcome : Option Outcome
deriving DecidableEq

def JobRecord.summary (r : JobRecord) : JobSummary where
  job := r.id
  jobKey := r.key
  sha := r.spec.sha
  gate := r.spec.gate
  state := r.state
  createdAtS := r.createdAtS
  updatedAtS := r.updatedAtS
  seqHigh := r.seqHigh
  outcome := r.outcome

/-- The answer to a request. -/
inductive BenchRep where
  | accepted (job : JobId) (existing : Bool) (state : JobState) (position : UInt32)
  | status (jobs : List JobSummary)
  | cancelled (job : JobId) (state : JobState)
  | artifacts (job : JobId) (items : List ArtifactMeta)
  | chunk (job : JobId) (name : String) (offset : UInt64) (data : List UInt8) (eof : Bool)
  | refused (by_ : NodeId) (refusal : BenchRefusal)
deriving DecidableEq

/-- What a submission carries. -/
structure Submission where
  sender : NodeId
  key : JobKey
  sha : Sha
  gate : GateId
  params : SortedMap String String
  checkpoint : Option String
  hardware : Option String
  maxRunS : Option UInt32
  note : Option String
deriving DecidableEq

/-- What of its configuration a node's answers read. -/
structure HostConfig extends Ctx where
  queueDepth : UInt32
  maxRunS : UInt32
  minFreeDiskBytes : UInt64
deriving DecidableEq

/-- What an accepted submission's job is made from. -/
structure Asked where
  sender : NodeId
  key : JobKey
  spec : JobSpec
  note : Option String
deriving DecidableEq

def HostConfig.asked (cfg : HostConfig) (sub : Submission) : Asked where
  sender := sub.sender
  key := sub.key
  spec := {
    sha := sub.sha
    gate := sub.gate
    params := sub.params
    checkpoint := sub.checkpoint
    maxRunS := sub.maxRunS.elim cfg.maxRunS (min · cfg.maxRunS) }
  note := sub.note.map fun n => String.ofList ((n.toList.filter fun c => !isControl c).take maxNote)

/-- What a submission is refused for by itself. -/
def HostConfig.inspect (cfg : HostConfig) (q : Quoting) (sub : Submission) : Option BenchRefusal :=
  match checkParams q sub.params with
  | .error e => some (.badParams [e])
  | .ok () =>
      match sub.checkpoint.filter (!isCheckpointName ·) with
      | some c => some (.badParams [s!"checkpoint {q.text c} is not a checkpoint name"])
      | none =>
          match sub.hardware.filter (· ≠ cfg.hardware) with
          | some h => some (.notConfigured s!"this node's box class is {cfg.hardware}, not {h}"
              "submit for the class the node is, or pick another node")
          | none => none

/-- The record of a job as it is submitted. -/
def Asked.record (a : Asked) (id : JobId) (now : UInt64) : JobRecord where
  id := id
  key := a.key
  sender := a.sender
  spec := a.spec
  note := a.note
  state := .queued
  createdAtS := now.toNat
  updatedAtS := now.toNat
  childPid := none
  childStartTicks := none
  binarySha256 := none
  recordsBefore := .empty
  seqHigh := 0
  outcome := none

end Bench
end Metralectl
