import Metralectl.Bench.Jobs
import Metralectl.Library.Programs

/-!
One job's life as a procedure over ports: Queued → Preparing → Building → Running →
Collecting → Done, and the two entry points a restart needs. Each question is one call of a
port, of the journal or of the store; what they answer is left to the surroundings.
-/
namespace Metralectl
namespace Bench
open Programs

/-- A binary already built for a commit, verified against its provenance. -/
structure CachedBinary where
  path : String
  sha256 : String
deriving DecidableEq

/-- Why a cache lookup did not hit. -/
inductive CacheMiss where
  | noBuild
  | noProvenance
  | wrongSha (sha : String)
  | hashMismatch
deriving DecidableEq

structure BuildResult where
  binary : CachedBinary
  secs : UInt64
deriving DecidableEq

structure ChildHandle where
  pid : UInt32
  startTicks : UInt64
deriving DecidableEq

/-- How the run phase ended. -/
inductive RunEnd where
  | exited (code : Int32) (verdict : Option Verdict)
  | stalled (afterS : UInt64)
  | timedOut (afterS : UInt64)
  | cancelled
deriving DecidableEq

structure RunPlan where
  argv : List String
  cwd : String
  env : List (String × String)
  logPath : String
  stallTimeoutS : Nat
  maxRunS : UInt32
deriving DecidableEq

/-- What a port emits while it waits for a child. -/
inductive Report where
  | log (stream : LogStream) (lines : List String)
  | progress (phase detail : String)
deriving DecidableEq

def Report.kind : Report → EventKind
  | .log stream lines => .log stream lines
  | .progress phase detail => .progress phase detail

/-- A wait: what was emitted during it, and how it ended. -/
structure Watched where
  reports : List Report
  ended : Except String RunEnd

/-- An event can be written and its writing still be called a failure. -/
inductive Appended where
  | ok
  | unsynced
  | failed
deriving DecidableEq

inductive Ask where
  | nowMs
  | hasCommit (sha : Sha)
  | fetch
  | published (sha : Sha)
  | worktree (sha : Sha)
  | cachedBinary (sha : Sha)
  | build (sha : Sha) (worktree : String)
  | ensureRecipes (binary : String)
  | knownGates (binary : String)
  | badParams (binary gate : String) (params : List String)
  | spawn (plan : RunPlan)
  | wait (child : ChildHandle) (plan : RunPlan)
  | recordState (worktree gate : String)
  | collect (worktree gate : String) (before : RecordState) (dest : String)
  | sameProcess (pid : UInt32) (startTicks : UInt64)
  | cancelled
  | append (kind : EventKind) (atMs : UInt64)
  | seqHigh
  | save (job : JobRecord)

/-- An error is the text of its chain. -/
abbrev Answer : Ask → Type
  | .nowMs | .seqHigh => UInt64
  | .hasCommit _ | .published _ | .ensureRecipes _ => Except String Bool
  | .fetch => Except String Unit
  | .worktree _ => Except String String
  | .cachedBinary _ => Except String (Except CacheMiss CachedBinary)
  | .build _ _ => Except String BuildResult
  | .knownGates _ | .badParams _ _ _ => Except String (List String)
  | .spawn _ => Except String ChildHandle
  | .wait _ _ => Watched
  | .recordState _ _ => Except String RecordState
  | .collect _ _ _ _ => Except String (List ArtifactMeta)
  | .sameProcess _ _ | .cancelled | .save _ => Bool
  | .append _ _ => Appended

/-- It stops where the record or the journal cannot be written. -/
abbrev Proc := Prog Ask Answer Unit

abbrev call (q : Ask) : Proc (Answer q) := Prog.call q

/-! The calls of the ports, of the journal and of the store. -/
namespace Ports

abbrev nowMs : Proc UInt64 := call .nowMs
abbrev hasCommit (sha : Sha) : Proc (Except String Bool) := call (.hasCommit sha)
abbrev fetch : Proc (Except String Unit) := call .fetch
abbrev published (sha : Sha) : Proc (Except String Bool) := call (.published sha)
abbrev worktree (sha : Sha) : Proc (Except String String) := call (.worktree sha)
abbrev cachedBinary (sha : Sha) : Proc (Except String (Except CacheMiss CachedBinary)) :=
  call (.cachedBinary sha)
abbrev build (sha : Sha) (worktree : String) : Proc (Except String BuildResult) :=
  call (.build sha worktree)
abbrev ensureRecipes (binary : String) : Proc (Except String Bool) :=
  call (.ensureRecipes binary)
abbrev knownGates (binary : String) : Proc (Except String (List String)) :=
  call (.knownGates binary)
abbrev badParams (binary gate : String) (params : List String) :
    Proc (Except String (List String)) :=
  call (.badParams binary gate params)
abbrev spawn (plan : RunPlan) : Proc (Except String ChildHandle) := call (.spawn plan)
abbrev wait (child : ChildHandle) (plan : RunPlan) : Proc Watched := call (.wait child plan)
abbrev recordState (worktree gate : String) : Proc (Except String RecordState) :=
  call (.recordState worktree gate)
abbrev collect (worktree gate : String) (before : RecordState) (dest : String) :
    Proc (Except String (List ArtifactMeta)) :=
  call (.collect worktree gate before dest)
abbrev sameProcess (pid : UInt32) (startTicks : UInt64) : Proc Bool :=
  call (.sameProcess pid startTicks)
abbrev cancelled : Proc Bool := call .cancelled
abbrev append (kind : EventKind) (atMs : UInt64) : Proc Appended := call (.append kind atMs)
abbrev seqHigh : Proc UInt64 := call .seqHigh
abbrev saved (job : JobRecord) : Proc Bool := call (.save job)

end Ports

/-- The node running a job, and what of its configuration the run reads. -/
structure Ctx where
  node : NodeId
  hardware : String
  childEnv : List (String × String)
  stallTimeoutS : Nat
  allowUnpublished : Bool
  serveReuse : Bool
  pid : UInt32
  jobsDir : String
deriving DecidableEq

def Ctx.childLogPath (ctx : Ctx) (id : JobId) : String := s!"{ctx.jobsDir}/{id.text}/child.log"
def Ctx.artifactsDir (ctx : Ctx) (id : JobId) : String := s!"{ctx.jobsDir}/{id.text}/artifacts"

def Sha.short (sha : Sha) : String := (sha.text.take 10).toString

namespace Machine
open Ports

def save (job : JobRecord) : Proc Unit := do
  if ← saved job then return () else .stop ()

def transition (job : JobRecord) (state : JobState) : Proc JobRecord := do
  let now ← nowMs
  let high ← seqHigh
  let job := { job with state := state, updatedAtS := now.toNat / 1000, seqHigh := high }
  save job
  return job

def emit (job : JobRecord) (kind : EventKind) : Proc JobRecord := do
  let now ← nowMs
  match ← append kind now with
  | .ok =>
      let high ← seqHigh
      return { job with seqHigh := high }
  | .unsynced | .failed => .stop ()

def finish (job : JobRecord) (outcome : Outcome) : Proc Outcome := do
  let job := { job with childPid := none, childStartTicks := none, outcome := some outcome }
  let job ← emit job (.done outcome)
  let _ ← transition job .done
  return outcome

/-- What is emitted during a wait is journaled as it can be. -/
def report : List Report → Proc Unit
  | [] => return ()
  | r :: rest => do
      let now ← nowMs
      let _ ← append r.kind now
      report rest

def emitArtifacts (job : JobRecord) : List ArtifactMeta → Proc JobRecord
  | [] => return job
  | a :: rest => do
      let job ← emit job (.artifact a)
      emitArtifacts job rest

/-- Whether the commit had to be fetched, or why it is not here. -/
def fetching (sha : Sha) : Proc (Except String Bool) := do
  match ← hasCommit sha with
  | .ok true => return .ok false
  | .ok false =>
      match ← fetch with
      | .error e => return .error s!"fetch failed: {e}"
      | .ok () =>
          match ← hasCommit sha with
          | .ok true => return .ok true
          | .ok false => return .error s!"commit {sha.text} is not on the remote"
          | .error e => return .error e
  | .error e => return .error e

def publishing (ctx : Ctx) (sha : Sha) : Proc (Except String Unit) :=
  if ctx.allowUnpublished then return .ok ()
  else do
    match ← published sha with
    | .ok true => return .ok ()
    | .ok false =>
        return .error s!"commit {sha.text} is not reachable from the trusted remote; push it first (or set allow_unpublished_shas on this node)"
    | .error e => return .error e

/-- Collect what the child wrote. One that exited well must have written a record. -/
def collecting (ctx : Ctx) (job : JobRecord) (worktree : String) (exitCode : Int32)
    (verdict : Option Verdict) : Proc Outcome := do
  let job ← transition job .collecting
  match ← collect worktree job.spec.gate.text job.recordsBefore (ctx.artifactsDir job.id) with
  | .error e => finish job (.failed .collecting e)
  | .ok artifacts =>
      let job ← emitArtifacts job artifacts
      let record := (artifacts.find? (·.kind = .record)).map (·.relativePath)
      let signature := (artifacts.find? (·.kind = .signature)).map (·.relativePath)
      if exitCode = 0 ∧ record = none then
        finish job (.failed .collecting "the child exited 0 but wrote no gate record")
      else finish job (.completed exitCode verdict record signature)

def waiting (ctx : Ctx) (job : JobRecord) (worktree : String) (child : ChildHandle)
    (plan : RunPlan) : Proc Outcome := do
  let watched ← wait child plan
  report watched.reports
  let high ← seqHigh
  let job := { job with seqHigh := high }
  match watched.ended with
  | .ok (.exited code verdict) => do
      let job ← match verdict with
        | some v => emit job (.verdict v)
        | none => pure job
      collecting ctx job worktree code verdict
  | .ok (.stalled afterS) | .ok (.timedOut afterS) => finish job (.timedOut .running afterS)
  | .ok .cancelled => finish job (.cancelled ctx.node)
  | .error e => finish job (.failed .running e)

def argv (ctx : Ctx) (job : JobRecord) (binary : CachedBinary) : List String :=
  [binary.path, "benchmark", "run", job.spec.gate.text, "--pull-request-gate", "--hardware",
    ctx.hardware, "--yes"] ++
  (if ctx.serveReuse then ["--serve-reuse", "--serve-lease-owner", toString ctx.pid.toNat] else []) ++
  job.spec.checkpoint.elim [] (fun c => ["--checkpoint", c]) ++
  job.spec.params.entries.flatMap fun p => ["--param", s!"{p.1}={p.2}"]

def plan (ctx : Ctx) (job : JobRecord) (worktree : String) (argv : List String) : RunPlan where
  argv := argv
  cwd := worktree
  env := ctx.childEnv
  logPath := ctx.childLogPath job.id
  stallTimeoutS := ctx.stallTimeoutS
  maxRunS := job.spec.maxRunS

/-- From the spawn of the child on. -/
def started (ctx : Ctx) (job : JobRecord) (worktree : String) (plan : RunPlan)
    (child : ChildHandle) : Proc Outcome := do
  let job := { job with childPid := some child.pid, childStartTicks := some child.startTicks }
  let job ← transition job .running
  let job ← emit job (.running child.pid plan.argv)
  waiting ctx job worktree child plan

def running (ctx : Ctx) (job : JobRecord) (worktree : String) (binary : CachedBinary) :
    Proc Outcome := do
  let plan := plan ctx job worktree (argv ctx job binary)
  match ← recordState worktree job.spec.gate.text with
  | .error e => finish job (.failed .running s!"reading the record dir: {e}")
  | .ok before =>
      let job := { job with recordsBefore := before }
      match ← spawn plan with
      | .error e => finish job (.failed .running s!"spawn: {e}")
      | .ok child => started ctx job worktree plan child

/-- What a binary says against the job's gate and params. -/
def refusal (job : JobRecord) (binary : CachedBinary) : Proc (Except String Unit) := do
  match ← ensureRecipes binary.path with
  | .error e => return .error s!"recipes: {e}"
  | .ok _ =>
      match ← knownGates binary.path with
      | .error e => return .error e
      | .ok known =>
          if job.spec.gate.text ∉ known then
            let names := String.intercalate ", " known
            return .error s!"gate {job.spec.gate.text} is unknown to the binary at {job.spec.sha.short}; it knows: {names}"
          else
            match ← badParams binary.path job.spec.gate.text
              (job.spec.params.entries.map (·.1)) with
            | .error e => return .error e
            | .ok [] => return .ok ()
            | .ok bad =>
                let names := String.intercalate ", " bad
                return .error s!"params not accepted by {job.spec.gate.text}: {names}"

def checking (ctx : Ctx) (job : JobRecord) (worktree : String) (binary : CachedBinary) :
    Proc Outcome := do
  let job := { job with binarySha256 := some binary.sha256 }
  save job
  if ← cancelled then finish job (.cancelled ctx.node)
  else
    match ← refusal job binary with
    | .error reason => finish job (.failed .building reason)
    | .ok () => running ctx job worktree binary

def CacheMiss.reason (sha : Sha) : CacheMiss → String
  | .noBuild => "no build for this commit"
  | .noProvenance => "a build directory with no provenance"
  | .wrongSha other => s!"provenance names {other}, not {sha.short}"
  | .hashMismatch => "binary hash does not match its provenance"

def building (ctx : Ctx) (job : JobRecord) (worktree : String) : Proc Outcome := do
  let job ← transition job .building
  match ← cachedBinary job.spec.sha with
  | .ok (.ok binary) =>
      let job ← emit job (.build true s!"cache hit for {job.spec.sha.short}")
      let job ← emit job (.built binary.sha256 true 0)
      checking ctx job worktree binary
  | .ok (.error miss) =>
      let job ← emit job (.build false (CacheMiss.reason job.spec.sha miss))
      match ← build job.spec.sha worktree with
      | .ok r =>
          let job ← emit job (.built r.binary.sha256 false r.secs)
          checking ctx job worktree r.binary
      | .error e =>
          if ← cancelled then finish job (.cancelled ctx.node)
          else finish job (.failed .building e)
  | .error e => finish job (.failed .building e)

def preparing (ctx : Ctx) (job : JobRecord) : Proc Outcome := do
  match ← fetching job.spec.sha with
  | .error reason => finish job (.failed .preparing reason)
  | .ok fetched =>
      match ← publishing ctx job.spec.sha with
      | .error reason => finish job (.failed .preparing reason)
      | .ok () =>
          let job ← emit job (.preparing job.spec.sha fetched)
          match ← worktree job.spec.sha with
          | .error e => finish job (.failed .preparing s!"worktree: {e}")
          | .ok worktree =>
              if ← cancelled then finish job (.cancelled ctx.node)
              else building ctx job worktree

/-- Run a queued job to its end. -/
def run (ctx : Ctx) (job : JobRecord) : Proc Outcome := do
  let job ← transition job .preparing
  preparing ctx job

/-- Collect what a resumed child wrote. Nothing is asked of it. -/
def resumedCollecting (ctx : Ctx) (job : JobRecord) (worktree : String) (exitCode : Int32)
    (verdict : Option Verdict) : Proc Outcome := do
  let job ← transition job .collecting
  match ← collect worktree job.spec.gate.text job.recordsBefore (ctx.artifactsDir job.id) with
  | .error e => finish job (.failed .collecting e)
  | .ok artifacts =>
      let job ← emitArtifacts job artifacts
      let record := (artifacts.find? (·.kind = .record)).map (·.relativePath)
      let signature := (artifacts.find? (·.kind = .signature)).map (·.relativePath)
      finish job (.completed exitCode verdict record signature)

def resumedWaiting (ctx : Ctx) (job : JobRecord) (worktree : String) (child : ChildHandle)
    (plan : RunPlan) : Proc Outcome := do
  let watched ← wait child plan
  report watched.reports
  let high ← seqHigh
  let job := { job with seqHigh := high }
  match watched.ended with
  | .ok (.exited code verdict) => do
      let job ← match verdict with
        | some v => emit job (.verdict v)
        | none => pure job
      resumedCollecting ctx job worktree code verdict
  | .ok (.stalled afterS) | .ok (.timedOut afterS) => finish job (.timedOut .running afterS)
  | .ok .cancelled => finish job (.cancelled ctx.node)
  | .error e => finish job (.failed .running e)

/-- Resume a job whose child survived a restart. -/
def resumeRunning (ctx : Ctx) (job : JobRecord) : Proc Outcome :=
  match job.childPid, job.childStartTicks with
  | some pid, some startTicks => do
      match ← worktree job.spec.sha with
      | .error e => finish job (.orphaned s!"worktree: {e}")
      | .ok worktree => resumedWaiting ctx job worktree ⟨pid, startTicks⟩ (plan ctx job worktree [])
  | _, _ => finish job (.orphaned "no child recorded")

/-- Mark a job that could not be recovered after a restart. -/
def orphan (job : JobRecord) (reason : String) : Proc Outcome := finish job (.orphaned reason)

/-- Whether a record's child is still the process it was. -/
def alive (job : JobRecord) : Proc Bool :=
  match job.childPid, job.childStartTicks with
  | some pid, some startTicks => sameProcess pid startTicks
  | _, _ => return false

/-- What a restarted agent does about a job it finds: nothing where it is over or still
waits for its turn. -/
def recover (ctx : Ctx) (job : JobRecord) : Option (Proc Outcome) :=
  match job.state with
  | .done | .queued => none
  | .running => some do
      if ← alive job then resumeRunning ctx job
      else orphan job "the agent restarted and the child was gone"
  | .preparing | .building | .collecting => some (orphan job "the agent restarted mid-job")

end Machine

/-- What a record keeps from its submission on. -/
def JobRecord.submission (job : JobRecord) :
    JobId × JobKey × NodeId × JobSpec × Option String × Nat :=
  (job.id, job.key, job.sender, job.spec, job.note, job.createdAtS)

/-- Whether a question may write to the job's files. -/
def Ask.writes : Ask → Bool
  | .append _ _ | .save _ => true
  | _ => false

/-- Whether a question is of neither the child nor what it wrote. -/
def Ask.plain : Ask → Bool
  | .spawn _ | .wait _ _ | .collect _ _ _ _ => false
  | _ => true

/-- A question that writes nothing and is not of the child. -/
def Ask.looks (q : Ask) : Bool := !q.writes && q.plain

/-- A question about the repository or a binary. -/
def Ask.reads : Ask → Bool
  | .hasCommit _ | .fetch | .published _ | .ensureRecipes _ | .knownGates _ | .badParams _ _ _ => true
  | _ => false

theorem Ask.looks_of_reads {q : Ask} (h : q.reads = true) : q.looks = true := by
  cases q <;> first | rfl | cases h

theorem Ask.writes_of_looks {q : Ask} (h : q.looks = true) : q.writes = false := by
  simp only [looks, Bool.and_eq_true, Bool.not_eq_true'] at h
  exact h.1

theorem Ask.plain_of_looks {q : Ask} (h : q.looks = true) : q.plain = true := by
  simp only [looks, Bool.and_eq_true] at h
  exact h.2

def Outcome.isCompleted : Outcome → Bool
  | .completed _ _ _ _ => true
  | _ => false

namespace Machine
open Ports

/-- What a life writes: events that are not the end and records that are neither queued nor
over, until it finishes. It stops where a record or one of its own events is not written;
what is reported to it meanwhile it journals as it can. -/
inductive Lives (sub : JobId × JobKey × NodeId × JobSpec × Option String × Nat) :
    Proc Outcome → Prop
  | look {q : Ask} {k : Answer q → Proc Outcome} :
      q.writes = false → (∀ a, Lives sub (k a)) → Lives sub (.ask q k)
  | event {kind : EventKind} {atMs : UInt64} {k : Appended → Proc Outcome} :
      kind.isDone = false → Lives sub (k .ok) → (∀ a ≠ .ok, k a = .stop ()) →
      Lives sub (.ask (.append kind atMs) k)
  | report {kind : EventKind} {atMs : UInt64} {k : Appended → Proc Outcome} :
      kind.isDone = false → (∀ a, Lives sub (k a)) → Lives sub (.ask (.append kind atMs) k)
  | record {job : JobRecord} {k : Bool → Proc Outcome} :
      job.submission = sub → job.state ≠ .queued → job.state ≠ .done →
      Lives sub (k true) → k false = .stop () → Lives sub (.ask (.save job) k)
  | over_ {job : JobRecord} {outcome : Outcome} :
      job.submission = sub → Lives sub (finish job outcome)

section Pieces
variable {sub : JobId × JobKey × NodeId × JobSpec × Option String × Nat} {job : JobRecord}

theorem Lives.call {q : Ask} {f : Answer q → Proc Outcome} (silent : q.writes = false)
    (rest : ∀ a, Lives sub (f a)) : Lives sub (Bench.call q >>= f) :=
  .look silent rest

theorem Lives.save {f : Unit → Proc Outcome} (same : job.submission = sub)
    (begun : job.state ≠ .queued) (open_ : job.state ≠ .done) (rest : Lives sub (f ())) :
    Lives sub (Machine.save job >>= f) :=
  .record same begun open_ rest rfl

theorem Lives.transition {state : JobState} {f : JobRecord → Proc Outcome}
    (same : job.submission = sub) (begun : state ≠ .queued) (open_ : state ≠ .done)
    (rest : ∀ job' : JobRecord, job'.submission = sub → job'.state = state → Lives sub (f job')) :
    Lives sub (Machine.transition job state >>= f) :=
  .look rfl fun _ => .look rfl fun _ => .record same begun open_ (rest _ same rfl) rfl

theorem Lives.emit {kind : EventKind} {f : JobRecord → Proc Outcome} (same : job.submission = sub)
    (plain : kind.isDone = false)
    (rest : ∀ job' : JobRecord, job'.submission = sub → job'.state = job.state → Lives sub (f job')) :
    Lives sub (Machine.emit job kind >>= f) := by
  refine .look rfl fun now => .event plain (.look rfl fun high => rest _ same rfl) ?_
  rintro (_ | _ | _) failed
  · exact absurd rfl failed
  · rfl
  · rfl

theorem Lives.reports {f : Unit → Proc Outcome} (reports : List Report) (rest : Lives sub (f ())) :
    Lives sub (Machine.report reports >>= f) := by
  induction reports with
  | nil => exact rest
  | cons r reports ih =>
      have plain : r.kind.isDone = false := by cases r <;> rfl
      exact .look rfl fun now => .report plain fun _ => ih

theorem Lives.emitArtifacts {f : JobRecord → Proc Outcome} (artifacts : List ArtifactMeta)
    (same : job.submission = sub)
    (rest : ∀ job' : JobRecord, job'.submission = sub → Lives sub (f job')) :
    Lives sub (Machine.emitArtifacts job artifacts >>= f) := by
  induction artifacts generalizing job with
  | nil => exact rest job same
  | cons a artifacts ih =>
      have step : Machine.emitArtifacts job (a :: artifacts) >>= f =
          Machine.emit job (.artifact a) >>= fun job => Machine.emitArtifacts job artifacts >>= f :=
        Prog.bind_assoc _ _ _
      rw [step]
      exact .emit same rfl fun job' same' _ => ih same'

theorem Lives.quiet {α : Type} {p : Proc α} {f : α → Proc Outcome}
    (h : Asks (fun q : Ask => q.looks = true) p) (rest : ∀ a, Lives sub (f a)) :
    Lives sub (p >>= f) := by
  induction p with
  | ret a => exact rest a
  | stop _ => exact h.elim
  | ask q k ih => exact .look (Ask.writes_of_looks h.1) fun a => ih a (h.2 a)

theorem Lives.reads {α : Type} {p : Proc α} {f : α → Proc Outcome}
    (h : Asks (fun q : Ask => q.reads = true) p) (rest : ∀ a, Lives sub (f a)) :
    Lives sub (p >>= f) :=
  .quiet (h.mono fun _ => Ask.looks_of_reads) rest

theorem quiet_fetching (sha : Sha) : Asks (fun q : Ask => q.reads = true) (fetching sha) := by
  refine ⟨rfl, ?_⟩
  rintro (e | (_ | _))
  · trivial
  · refine ⟨rfl, ?_⟩
    rintro (e | _)
    · trivial
    · refine ⟨rfl, ?_⟩
      rintro (e | (_ | _)) <;> trivial
  · trivial

theorem quiet_publishing (ctx : Ctx) (sha : Sha) :
    Asks (fun q : Ask => q.reads = true) (publishing ctx sha) := by
  unfold publishing
  split
  · trivial
  · refine ⟨rfl, ?_⟩
    rintro (e | (_ | _)) <;> trivial

theorem quiet_refusal (job : JobRecord) (binary : CachedBinary) :
    Asks (fun q : Ask => q.reads = true) (refusal job binary) := by
  refine ⟨rfl, ?_⟩
  rintro (e | _)
  · trivial
  · refine ⟨rfl, ?_⟩
    rintro (e | known)
    · trivial
    · show Asks _ (if _ then _ else _)
      split
      · trivial
      · refine ⟨rfl, ?_⟩
        rintro (e | (_ | _)) <;> trivial

theorem quiet_alive (job : JobRecord) : Asks (fun q : Ask => q.looks = true) (alive job) := by
  unfold alive
  split
  · exact ⟨rfl, fun _ => trivial⟩
  · trivial

end Pieces

section Halves
variable (ctx : Ctx) (job : JobRecord) (worktree : String)

/-- A collection by whether it asks for a record, for what is shown of both alike. -/
def collectingAs (fresh : Bool) (exitCode : Int32) (verdict : Option Verdict) : Proc Outcome := do
  let job ← transition job .collecting
  match ← collect worktree job.spec.gate.text job.recordsBefore (ctx.artifactsDir job.id) with
  | .error e => finish job (.failed .collecting e)
  | .ok artifacts =>
      let job ← emitArtifacts job artifacts
      if fresh ∧ exitCode = 0 ∧
          (artifacts.find? (·.kind = .record)).map (·.relativePath) = none then
        finish job (.failed .collecting "the child exited 0 but wrote no gate record")
      else
        finish job (.completed exitCode verdict
          ((artifacts.find? (·.kind = .record)).map (·.relativePath))
          ((artifacts.find? (·.kind = .signature)).map (·.relativePath)))

/-- What follows a spawn, or a resumption, up to its end. -/
def waitingAs (fresh : Bool) (child : ChildHandle) (plan : RunPlan) : Proc Outcome := do
  let watched ← wait child plan
  report watched.reports
  let high ← seqHigh
  let job := { job with seqHigh := high }
  match watched.ended with
  | .ok (.exited code verdict) => do
      let job ← match verdict with
        | some v => emit job (.verdict v)
        | none => pure job
      collectingAs ctx job worktree fresh code verdict
  | .ok (.stalled afterS) | .ok (.timedOut afterS) => finish job (.timedOut .running afterS)
  | .ok .cancelled => finish job (.cancelled ctx.node)
  | .error e => finish job (.failed .running e)

/-- A fresh run asks for the record of a child that exited well. -/
theorem collecting_eq (code : Int32) (verdict : Option Verdict) :
    collecting ctx job worktree code verdict = collectingAs ctx job worktree true code verdict := by
  simp only [collecting, collectingAs, true_and]

/-- A resumed one does not. -/
theorem resumedCollecting_eq (code : Int32) (verdict : Option Verdict) :
    resumedCollecting ctx job worktree code verdict =
      collectingAs ctx job worktree false code verdict := by
  simp only [resumedCollecting, collectingAs, Bool.false_eq_true, false_and, if_false]

theorem waiting_eq (child : ChildHandle) (plan : RunPlan) :
    waiting ctx job worktree child plan = waitingAs ctx job worktree true child plan := by
  simp only [waiting, waitingAs, collecting_eq]

/-- The two halves differ in that one check. -/
theorem resumedWaiting_eq (child : ChildHandle) (plan : RunPlan) :
    resumedWaiting ctx job worktree child plan = waitingAs ctx job worktree false child plan := by
  simp only [resumedWaiting, waitingAs, resumedCollecting_eq]

end Halves

section Phases
variable {sub : JobId × JobKey × NodeId × JobSpec × Option String × Nat} {job : JobRecord}
variable (ctx : Ctx)

theorem lives_collecting (fresh : Bool) (worktree : String) (exitCode : Int32)
    (verdict : Option Verdict) (same : job.submission = sub) :
    Lives sub (collectingAs ctx job worktree fresh exitCode verdict) := by
  refine .transition same nofun nofun fun job same _ => .look rfl ?_
  rintro (e | artifacts)
  · exact .over_ same
  · refine .emitArtifacts artifacts same fun job same => ?_
    split
    · exact .over_ same
    · exact .over_ same

theorem lives_waiting (fresh : Bool) (worktree : String) (child : ChildHandle) (plan : RunPlan)
    (same : job.submission = sub) : Lives sub (waitingAs ctx job worktree fresh child plan) := by
  refine .look rfl fun watched => .reports watched.reports (.look rfl fun high => ?_)
  dsimp only
  split
  · next code verdict _ =>
      cases verdict with
      | some v => exact .emit same rfl fun job same _ => lives_collecting ctx _ _ _ _ same
      | none => exact lives_collecting ctx _ _ _ _ same
  · exact .over_ same
  · exact .over_ same
  · exact .over_ same
  · exact .over_ same

theorem lives_resumedWaiting (worktree : String) (child : ChildHandle) (plan : RunPlan)
    (same : job.submission = sub) : Lives sub (resumedWaiting ctx job worktree child plan) := by
  rw [resumedWaiting_eq]
  exact lives_waiting ctx _ _ _ _ same

theorem lives_started (worktree : String) (plan : RunPlan) (child : ChildHandle)
    (same : job.submission = sub) : Lives sub (started ctx job worktree plan child) :=
  .transition same nofun nofun fun _ same _ =>
    .emit same rfl fun _ same _ => waiting_eq .. ▸ lives_waiting ctx _ _ _ _ same

theorem lives_running (worktree : String) (binary : CachedBinary) (same : job.submission = sub) :
    Lives sub (running ctx job worktree binary) := by
  refine .look rfl ?_
  rintro (e | before)
  · exact .over_ same
  · refine .look rfl ?_
    rintro (e | child)
    · exact .over_ same
    · exact lives_started ctx _ _ _ same

theorem lives_checking (worktree : String) (binary : CachedBinary) (same : job.submission = sub)
    (begun : job.state = .building) : Lives sub (checking ctx job worktree binary) := by
  refine .save same (by simp [begun]) (by simp [begun]) (.call rfl fun cancelled => ?_)
  split
  · exact .over_ same
  · refine .reads (quiet_refusal _ _) ?_
    rintro (reason | _)
    · exact .over_ same
    · exact lives_running ctx _ _ same

theorem lives_building (worktree : String) (same : job.submission = sub) :
    Lives sub (building ctx job worktree) := by
  refine .transition same nofun nofun fun job same begun => .look rfl ?_
  rintro (e | (miss | binary))
  · exact .over_ same
  · refine .emit same rfl fun job same state => .look rfl ?_
    rintro (e | r)
    · refine .call rfl fun cancelled => ?_
      split
      · exact .over_ same
      · exact .over_ same
    · exact .emit same rfl fun job same state' =>
        lives_checking ctx _ _ same (state'.trans (state.trans begun))
  · refine .emit same rfl fun job same state => ?_
    exact .emit same rfl fun job same state' =>
      lives_checking ctx _ _ same (state'.trans (state.trans begun))

theorem lives_preparing (same : job.submission = sub) : Lives sub (preparing ctx job) := by
  refine .reads (quiet_fetching _) ?_
  rintro (reason | fetched)
  · exact .over_ same
  · refine .reads (quiet_publishing _ _) ?_
    rintro (reason | _)
    · exact .over_ same
    · refine .emit same rfl fun job same _ => .look rfl ?_
      rintro (e | worktree)
      · exact .over_ same
      · refine .call rfl fun cancelled => ?_
        split
        · exact .over_ same
        · exact lives_building ctx _ same

theorem lives_run (same : job.submission = sub) : Lives sub (run ctx job) :=
  .transition same nofun nofun fun _ same _ => lives_preparing ctx same

theorem lives_resumeRunning (same : job.submission = sub) : Lives sub (resumeRunning ctx job) := by
  unfold resumeRunning
  split
  · refine .look rfl ?_
    rintro (e | worktree)
    · exact .over_ same
    · exact lives_resumedWaiting ctx _ _ _ same
  · exact .over_ same

theorem lives_recover {p : Proc Outcome} (same : job.submission = sub)
    (h : recover ctx job = some p) : Lives sub p := by
  unfold recover at h
  split at h
  · cases h
  · cases h
  · cases h
    refine .quiet (quiet_alive _) fun alive => ?_
    split
    · exact lives_resumeRunning ctx same
    · exact .over_ same
  all_goals
    cases h
    exact .over_ same

end Phases

end Machine

namespace Machine
open Ports

section Plain
variable (job : JobRecord)

theorem plain_save : Only (fun q : Ask => q.plain = true) (save job) := by
  refine ⟨rfl, ?_⟩
  rintro (_ | _) <;> trivial

theorem plain_transition (state : JobState) :
    Only (fun q : Ask => q.plain = true) (transition job state) :=
  ⟨rfl, fun _ => ⟨rfl, fun _ => (plain_save _).bind fun _ => trivial⟩⟩

theorem plain_emit (kind : EventKind) : Only (fun q : Ask => q.plain = true) (emit job kind) := by
  refine ⟨rfl, fun now => ⟨rfl, ?_⟩⟩
  rintro (_ | _ | _)
  · exact ⟨rfl, fun _ => trivial⟩
  · trivial
  · trivial

theorem plain_report (reports : List Report) : Only (fun q : Ask => q.plain = true) (report reports) := by
  induction reports with
  | nil => trivial
  | cons r reports ih => exact ⟨rfl, fun _ => ⟨rfl, fun _ => ih⟩⟩

theorem plain_emitArtifacts (artifacts : List ArtifactMeta) :
    Only (fun q : Ask => q.plain = true) (emitArtifacts job artifacts) := by
  induction artifacts generalizing job with
  | nil => trivial
  | cons a artifacts ih => exact (plain_emit _ _).bind ih

end Plain

/-- What a run does before its child: plain questions, until it finishes without one or asks
for the spawn. -/
inductive Heads (ctx : Ctx) : Proc Outcome → Prop
  | stop : Heads ctx (.stop ())
  | look {q : Ask} {k : Answer q → Proc Outcome} :
      q.plain = true → (∀ a, Heads ctx (k a)) → Heads ctx (.ask q k)
  | over_ {job : JobRecord} {outcome : Outcome} :
      outcome.isCompleted = false → Heads ctx (finish job outcome)
  | spawn {job : JobRecord} {worktree : String} {plan : RunPlan} {reason : String → Outcome}
      {k : Except String ChildHandle → Proc Outcome} :
      (∀ e, k (.error e) = finish job (reason e) ∧ (reason e).isCompleted = false) →
      (∀ child, k (.ok child) = started ctx job worktree plan child) →
      Heads ctx (.ask (.spawn plan) k)

section Heads
variable {ctx : Ctx} {α : Type} {job : JobRecord}

theorem Heads.only {p : Proc α} {f : α → Proc Outcome} (h : Only (fun q : Ask => q.plain = true) p)
    (rest : ∀ a, Heads ctx (f a)) : Heads ctx (p >>= f) :=
  h.before (fun _ => .stop) (fun _ _ plain all => .look plain all) rest

theorem Heads.call {q : Ask} {f : Answer q → Proc Outcome} (plain : q.plain = true)
    (rest : ∀ a, Heads ctx (f a)) : Heads ctx (Bench.call q >>= f) :=
  .look plain rest

theorem Heads.reads {p : Proc α} {f : α → Proc Outcome}
    (h : Asks (fun q : Ask => q.reads = true) p) (rest : ∀ a, Heads ctx (f a)) :
    Heads ctx (p >>= f) :=
  .only (h.only.mono fun _ read => Ask.plain_of_looks (Ask.looks_of_reads read)) rest

theorem Heads.transition {state : JobState} {f : JobRecord → Proc Outcome}
    (rest : ∀ a, Heads ctx (f a)) : Heads ctx (Machine.transition job state >>= f) :=
  .only (plain_transition _ _) rest

theorem Heads.emit {kind : EventKind} {f : JobRecord → Proc Outcome}
    (rest : ∀ a, Heads ctx (f a)) : Heads ctx (Machine.emit job kind >>= f) :=
  .only (plain_emit _ _) rest

theorem heads_running (worktree : String) (binary : CachedBinary) :
    Heads ctx (running ctx job worktree binary) := by
  refine .look rfl ?_
  rintro (e | before)
  · exact .over_ rfl
  · exact .spawn (fun _ => ⟨rfl, rfl⟩) fun _ => rfl

theorem heads_checking (worktree : String) (binary : CachedBinary) :
    Heads ctx (checking ctx job worktree binary) := by
  refine .only (plain_save _) fun _ => .call rfl fun cancelled => ?_
  split
  · exact .over_ rfl
  · refine .reads (quiet_refusal _ _) ?_
    rintro (reason | _)
    · exact .over_ rfl
    · exact heads_running _ _

theorem heads_building (worktree : String) : Heads ctx (building ctx job worktree) := by
  refine .transition fun job => .call rfl ?_
  rintro (e | (miss | binary))
  · exact .over_ rfl
  · refine .emit fun job => .call rfl ?_
    rintro (e | r)
    · refine .call rfl fun cancelled => ?_
      split
      · exact .over_ rfl
      · exact .over_ rfl
    · exact .emit fun job => heads_checking _ _
  · exact .emit fun job => .emit fun job => heads_checking _ _

theorem heads_preparing : Heads ctx (preparing ctx job) := by
  refine .reads (quiet_fetching _) ?_
  rintro (reason | fetched)
  · exact .over_ rfl
  · refine .reads (quiet_publishing _ _) ?_
    rintro (reason | _)
    · exact .over_ rfl
    · refine .emit fun job => .call rfl ?_
      rintro (e | worktree)
      · exact .over_ rfl
      · refine .call rfl fun cancelled => ?_
        split
        · exact .over_ rfl
        · exact heads_building _

theorem heads_run (ctx : Ctx) (job : JobRecord) : Heads ctx (run ctx job) :=
  .transition fun _ => heads_preparing

end Heads

end Machine

/-- A node that can write, and whose repository cannot be read. -/
def unreadable : (q : Ask) → Answer q
  | .hasCommit _ => .error "not a git repository"
  | .nowMs | .seqHigh => 0
  | .published _ | .ensureRecipes _ => .ok true
  | .fetch => .ok ()
  | .worktree _ => .ok ""
  | .cachedBinary _ => .ok (.error .noBuild)
  | .build _ _ => .error ""
  | .knownGates _ | .badParams _ _ _ => .ok []
  | .spawn _ => .error ""
  | .wait _ _ => ⟨[], .ok .cancelled⟩
  | .recordState _ _ => .ok .empty
  | .collect _ _ _ _ => .ok []
  | .sameProcess _ _ | .cancelled => false
  | .save _ => true
  | .append _ _ => .ok

/-- A node that can run the gate, whose child ends so and leaves that. -/
def serving (watched : Watched) (artifacts : List ArtifactMeta) : (q : Ask) → Answer q
  | .hasCommit _ | .published _ | .ensureRecipes _ => .ok true
  | .nowMs | .seqHigh => 0
  | .fetch => .ok ()
  | .worktree _ => .ok "w"
  | .cachedBinary _ => .ok (.ok ⟨"met", ""⟩)
  | .build _ _ => .error ""
  | .knownGates _ => .ok ["gate"]
  | .badParams _ _ _ => .ok []
  | .spawn _ => .ok ⟨1, 1⟩
  | .wait _ _ => watched
  | .recordState _ _ => .ok .empty
  | .collect _ _ _ _ => .ok artifacts
  | .sameProcess _ _ | .cancelled => false
  | .save _ => true
  | .append _ _ => .ok

def plainCtx : Ctx := ⟨0, "", [], 0, false, false, 0, ""⟩

end Bench
end Metralectl
