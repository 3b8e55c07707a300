import Metralectl.Bench.Lease
import Metralectl.Bench.Machine
import Metralectl.Bench.Served
import Metralectl.Library.Interference
import Metralectl.Library.Runs

/-!
The worker of a host among what outlives it: the records of its jobs, the children it spawned,
and the directories those write their records to. The agent may die at any question of a job's
procedure and is started again; a child does not die with it.
-/
namespace Metralectl
namespace Bench
open SortedMaps Programs Runs

/-- A file as it was last written: when, in nanoseconds, and what it is attributed by. -/
structure Written where
  mtime : Nat
  bytes : UInt64
  sha256 : String
deriving DecidableEq

abbrev Directory := SortedMap String Written

def isSignatureName (name : String) : Bool := decide (".json.sig".toList <:+ name.toList)

def isRecordName (name : String) : Bool :=
  decide (".json".toList <:+ name.toList) || isSignatureName name

namespace Directory

/-- Every file of a record directory, with when it was last written. -/
def state (d : Directory) : RecordState := (d.keep isRecordName).map Written.mtime

/-- The records absent before, and those written again since. -/
def collect (d : Directory) (gate : String) (before : RecordState) : List ArtifactMeta :=
  (state d).entries.filterMap fun e =>
    if before.get? e.1 = some e.2 then none
    else
      (d.get? e.1).map fun w =>
        ⟨e.1, s!".benchmarks/{gate}/{e.1}", w.bytes, w.sha256,
          if isSignatureName e.1 then .signature else .record⟩

end Directory

/-- What was collected for a job, and the files there were. -/
structure Collection where
  job : JobId
  dir : String
  files : Directory
  artifacts : List ArtifactMeta

/-- What the worker is at: nothing, after what a restart found is recovered; a queued job it read;
or a procedure of a job. -/
inductive Doing where
  | down
  | free (todo : List JobRecord)
  | picked (job : JobRecord)
  | working (id : JobId) (p : Proc Outcome) (todo : List JobRecord)

structure House where
  store : JobStore
  /-- The children that are alive. -/
  live : List (JobId × ChildHandle)
  dirs : String → Directory
  /-- When a file of a directory was last written. -/
  clock : String → Nat
  /-- Whose children were alive when a directory was written to at a time. -/
  writers : String → Nat → List JobId
  /-- The job whose records are being told from what was there before. -/
  watched : Option JobId
  collections : List Collection
  /-- What calls that cancel a queued job will write. -/
  cancels : List JobRecord
  doing : Doing

def worktreeOf (base : String) (sha : Sha) : String := s!"{base}/{sha.text}"

def recordDir (worktree gate : String) : String := s!"{worktree}/.benchmarks/{gate}"

/-- Where a job's records are written. -/
def JobSpec.recordDir (base : String) (spec : JobSpec) : String :=
  Bench.recordDir (worktreeOf base spec.sha) spec.gate.text

def JobRecord.child (job : JobRecord) : Option ChildHandle :=
  match job.childPid, job.childStartTicks with
  | some pid, some startTicks => some ⟨pid, startTicks⟩
  | _, _ => none

namespace House

inductive Move where
  | submit (job : JobRecord)
  | cancel (id : JobId) (node : NodeId) (now : Nat) (high : UInt64)
  | endCancel (i : Nat) (saved : Bool)
  | write (dir name : String) (w : Written)
  | delete (dir name : String)
  | die (i : Nat)
  | crash
  /-- The jobs a restart finds, in the order they are listed. -/
  | restart (found : List JobRecord)
  | recover (ctx : Ctx)
  /-- An orphan could not be recorded: what is left is not recovered. -/
  | abandon
  | pick (job : JobRecord)
  | unpick
  | start (ctx : Ctx) (cfg : Exclusive.Config) (box : Exclusive.Box)
  | answer (oracle : (q : Ask) → Answer q)
  | leave

variable (base : String)

/-- What the ports answer of the worktrees and the record directories. -/
def reply (h : House) : (q : Ask) → Answer q → Answer q
  | .worktree sha, .ok _ => .ok (worktreeOf base sha)
  | .recordState worktree gate, _ => .ok (h.dirs (recordDir worktree gate)).state
  | .collect worktree gate before _, .ok _ =>
      .ok ((h.dirs (recordDir worktree gate)).collect gate before)
  | _, a => a

/-- What is left once a question about a job is answered. -/
def after (h : House) (id : JobId) : (q : Ask) → Answer q → House
  | .save job, true => { h with store := h.store.save job }
  | .spawn _, .ok child => { h with live := h.live ++ [(id, child)] }
  | .recordState _ _, .ok _ | .sameProcess _ _, true => { h with watched := some id }
  | .collect worktree gate _ _, .ok artifacts =>
      let dir := recordDir worktree gate
      { h with
        watched := none
        collections := h.collections ++ [⟨id, dir, h.dirs dir, artifacts⟩] }
  | .collect _ _ _ _, .error _ => { h with watched := none }
  | _, _ => h

def setDir (h : House) (dir : String) (files : Directory) : House :=
  { h with dirs := fun d => if d = dir then files else h.dirs d }

def write (h : House) (dir name : String) (w : Written) : House :=
  { h.setDir dir ((h.dirs dir).insert name w) with
    clock := fun d => if d = dir then w.mtime else h.clock d
    writers := fun d t =>
      if d = dir ∧ t = w.mtime then h.live.map Prod.fst else h.writers d t }

def step (h : House) : Move → Option House
  | .submit job =>
      match h.store.load job.id with
      | .error _ => if job.state = .queued then some { h with store := h.store.save job } else none
      | .ok _ => none
  | .cancel id node now high =>
      match h.store.load id with
      | .ok r =>
          if r.state = .queued then
            some { h with cancels := h.cancels ++ [{ r with
              outcome := some (.cancelled node), state := .done, updatedAtS := now, seqHigh := high }] }
          else none
      | .error _ => none
  | .endCancel i saved =>
      h.cancels[i]?.map fun job =>
        { h with
          store := if saved then h.store.save job else h.store
          cancels := h.cancels.eraseIdx i }
  -- Each write to a directory is later than every other there.
  | .write dir name w => if h.clock dir < w.mtime then some (h.write dir name w) else none
  | .delete dir name => some (h.setDir dir ((h.dirs dir).remove name))
  | .die i => some { h with live := h.live.eraseIdx i }
  | .crash => some { h with doing := .down, watched := none, cancels := [] }
  | .restart found =>
      match h.doing with
      | .down => if found.Perm h.store.records then some { h with doing := .free found } else none
      | _ => none
  | .recover ctx =>
      match h.doing with
      | .free (job :: todo) =>
          match Machine.recover ctx job with
          | none => some { h with doing := .free todo }
          | some p => some { h with doing := .working job.id p todo }
      | _ => none
  | .abandon =>
      match h.doing with
      | .free _ => some { h with doing := .free [] }
      | _ => none
  | .pick job =>
      match h.doing with
      | .free [] =>
          if h.store.load job.id = .ok job ∧ job.state = .queued then
            some { h with doing := .picked job }
          else none
      | _ => none
  -- A box that looks busy, or a journal that cannot be opened: the queue is looked at again.
  | .unpick =>
      match h.doing with
      | .picked _ => some { h with doing := .free [] }
      | _ => none
  -- Each child that is alive is an engine of the box that is looked at before.
  | .start ctx cfg box =>
      match h.doing with
      | .picked job =>
          if (∀ p ∈ h.live, p.2.pid ∈ box.engines) ∧
              Exclusive.judge (Exclusive.probe cfg.me box none) cfg.minFreeFraction
                cfg.minFreeDisk = [] then
            some { h with doing := .working job.id (Machine.run ctx job) [] }
          else none
      | _ => none
  | .answer oracle =>
      match h.doing with
      | .working id (.ask q k) todo =>
          let a := h.reply base q (oracle q)
          some { h.after id q a with doing := .working id (k a) todo }
      | _ => none
  | .leave =>
      match h.doing with
      | .working _ (.ret _) todo | .working _ (.stop _) todo =>
          some { h with doing := .free todo, watched := none }
      | _ => none

/-- What a step can be. -/
inductive Goes (h : House) : Move → House → Prop
  | submit {job : JobRecord} :
      (∀ r, h.store.load job.id ≠ .ok r) → job.state = .queued →
      Goes h (.submit job) { h with store := h.store.save job }
  | cancel {id : JobId} {node : NodeId} {now : Nat} {high : UInt64} {r : JobRecord} :
      r.state = .done → Goes h (.cancel id node now high) { h with cancels := h.cancels ++ [r] }
  | dropped {i : Nat} : Goes h (.endCancel i false) { h with cancels := h.cancels.eraseIdx i }
  | cancelled {i : Nat} {job : JobRecord} :
      h.cancels[i]? = some job →
      Goes h (.endCancel i true) { h with
        store := h.store.save job, cancels := h.cancels.eraseIdx i }
  | write {dir name : String} {w : Written} :
      h.clock dir < w.mtime → Goes h (.write dir name w) (h.write dir name w)
  | delete {dir name : String} :
      Goes h (.delete dir name) (h.setDir dir ((h.dirs dir).remove name))
  | die {i : Nat} : Goes h (.die i) { h with live := h.live.eraseIdx i }
  | crash : Goes h .crash { h with doing := .down, watched := none, cancels := [] }
  | restart {found : List JobRecord} :
      h.doing = .down → found.Perm h.store.records →
      Goes h (.restart found) { h with doing := .free found }
  | passed {ctx : Ctx} {job : JobRecord} {todo : List JobRecord} :
      h.doing = .free (job :: todo) → Machine.recover ctx job = none →
      Goes h (.recover ctx) { h with doing := .free todo }
  | recover {ctx : Ctx} {job : JobRecord} {todo : List JobRecord} {p : Proc Outcome} :
      h.doing = .free (job :: todo) → Machine.recover ctx job = some p →
      Goes h (.recover ctx) { h with doing := .working job.id p todo }
  | abandon {todo : List JobRecord} :
      h.doing = .free todo → Goes h .abandon { h with doing := .free [] }
  | pick {job : JobRecord} :
      h.doing = .free [] → h.store.load job.id = .ok job → job.state = .queued →
      Goes h (.pick job) { h with doing := .picked job }
  | unpick {job : JobRecord} :
      h.doing = .picked job → Goes h .unpick { h with doing := .free [] }
  | start {ctx : Ctx} {cfg : Exclusive.Config} {box : Exclusive.Box} {job : JobRecord} :
      h.doing = .picked job → (∀ p ∈ h.live, p.2.pid ∈ box.engines) →
      Exclusive.Alone cfg box none →
      Goes h (.start ctx cfg box) { h with doing := .working job.id (Machine.run ctx job) [] }
  | answer {oracle : (q : Ask) → Answer q} {id : JobId} {q : Ask} {k : Answer q → Proc Outcome}
      {todo : List JobRecord} :
      h.doing = .working id (.ask q k) todo →
      Goes h (.answer oracle) { h.after id q (h.reply base q (oracle q)) with
        doing := .working id (k (h.reply base q (oracle q))) todo }
  | leave {id : JobId} {p : Proc Outcome} {todo : List JobRecord} :
      h.doing = .working id p todo → ((∃ outcome, p = .ret outcome) ∨ p = .stop ()) →
      Goes h .leave { h with doing := .free todo, watched := none }

theorem goes_of_step {h t : House} {m : Move} (hstep : h.step base m = some t) : Goes base h m t := by
  cases m with
  | submit job =>
      simp only [step] at hstep
      split at hstep
      · next missing =>
          split at hstep
          · next queued =>
              cases hstep
              exact .submit (by simp [missing]) queued
          · cases hstep
      · cases hstep
  | cancel id node now high =>
      simp only [step] at hstep
      split at hstep
      · split at hstep
        · cases hstep
          exact .cancel rfl
        · cases hstep
      · cases hstep
  | endCancel i saved =>
      obtain ⟨job, at_, rfl⟩ := Option.map_eq_some_iff.mp hstep
      cases saved with
      | false => exact .dropped
      | true => exact .cancelled at_
  | write dir name w =>
      simp only [step] at hstep
      split at hstep
      · next later =>
          cases hstep
          exact .write later
      · cases hstep
  | delete dir name =>
      cases hstep
      exact .delete
  | die i =>
      cases hstep
      exact .die
  | crash =>
      cases hstep
      exact .crash
  | restart found =>
      simp only [step] at hstep
      split at hstep
      · next down =>
          split at hstep
          · next perm =>
              cases hstep
              exact .restart down perm
          · cases hstep
      · cases hstep
  | recover ctx =>
      simp only [step] at hstep
      split at hstep
      · next job todo free =>
          split at hstep
          · next passes =>
              cases hstep
              exact .passed free passes
          · next p recovers =>
              cases hstep
              exact .recover free recovers
      · cases hstep
  | abandon =>
      simp only [step] at hstep
      split at hstep
      · next free =>
          cases hstep
          exact .abandon free
      · cases hstep
  | pick job =>
      simp only [step] at hstep
      split at hstep
      · next free =>
          split at hstep
          · next there =>
              cases hstep
              exact .pick free there.1 there.2
          · cases hstep
      · cases hstep
  | unpick =>
      simp only [step] at hstep
      split at hstep
      · next picked =>
          cases hstep
          exact .unpick picked
      · cases hstep
  | start ctx cfg box =>
      simp only [step] at hstep
      split at hstep
      · next picked =>
          split at hstep
          · next clear =>
              cases hstep
              exact .start picked clear.1 (Exclusive.judge_eq_nil.mp clear.2)
          · cases hstep
      · cases hstep
  | answer oracle =>
      simp only [step] at hstep
      split at hstep
      · next working =>
          cases hstep
          exact .answer working
      · cases hstep
  | leave =>
      simp only [step] at hstep
      split at hstep
      · next working =>
          cases hstep
          exact .leave working (.inl ⟨_, rfl⟩)
      · next working =>
          cases hstep
          exact .leave working (.inr rfl)
      · cases hstep

end House

/-- Whether a question leaves jobs, children and directories as they are, whatever its answer. -/
def Ask.inert : Ask → Bool
  | .save _ | .spawn _ | .wait _ _ | .recordState _ _ | .collect _ _ _ _ | .sameProcess _ _ => false
  | _ => true

theorem Ask.inert_of_reads {q : Ask} (h : q.reads = true) : q.inert = true := by
  cases q <;> first | rfl | cases h

theorem House.after_inert {q : Ask} (inert : q.inert = true) (h : House) (id : JobId) (a : Answer q) :
    h.after id q a = h := by
  cases q <;> first | rfl | cases inert

theorem House.live_after {h : House} {id : JobId} {q : Ask} {a : Answer q} {p : JobId × ChildHandle}
    (here : p ∈ (h.after id q a).live) : p ∈ h.live ∨ p.1 = id := by
  cases q with
  | spawn plan =>
      cases a with
      | error e => exact .inl here
      | ok child =>
          refine (List.mem_append.mp here).imp_right fun new => ?_
          rw [List.mem_singleton.mp new]
  | save _ | sameProcess _ _ | recordState _ _ | collect _ _ _ _ => cases a <;> exact .inl here
  | _ => exact .inl here

/-- What is looked at of a run: what others do between the worker's questions, which answers it
may get, where it may ask, and what must hold where it leaves a job. -/
structure Rules where
  base : String
  drift : House → House → Prop
  careful : JobId → House → (q : Ask) → Answer q → Prop
  fine : JobId → House → Ask → Prop
  left : JobId → House → Prop
  stays : ∀ id, Stable drift (left id)

namespace Rules
variable (R : Rules)

def Answers (id : JobId) : Surroundings House Ask Answer := fun h q a t =>
  R.careful id h q a ∧ (∃ a₀, a = h.reply R.base q a₀) ∧ t = h.after id q a

/-- The procedure of a job asks where it may, to its end. -/
def Safe (id : JobId) : Proc Outcome → House → Prop :=
  Among R.drift (R.Answers id) (R.fine id) (fun _ => R.left id) (fun _ => R.left id)

/-- What can be relied upon along a part of a procedure that may lose a write. -/
structure Relied (id : JobId) (I : House → Prop) : Prop where
  stable : Stable R.drift I
  inert : ∀ h q, I h → q.inert = true → R.fine id h q
  unsaved : ∀ h job, I h → R.careful id h (.save job) false → R.left id h
  unwritten : ∀ h kind atMs a, I h → a ≠ .ok → R.careful id h (.append kind atMs) a → R.left id h

/-- Where the job may be recorded as over. -/
structure Closes (id : JobId) (I : House → Prop) : Prop extends R.Relied id I where
  done : ∀ h job, I h → job.id = id → job.state = .done →
    R.fine id h (.save job) ∧ R.left id { h with store := h.store.save job }

variable {R} {id : JobId} {I J : House → Prop} {h : House} {job : JobRecord}

theorem Safe.ask {q : Ask} {k : Answer q → Proc Outcome} (stable : Stable R.drift I) (here : I h)
    (fine : ∀ t, I t → R.fine id t q)
    (rest : ∀ t a₀, I t → R.careful id t q (t.reply R.base q a₀) →
      R.Safe id (k (t.reply R.base q a₀)) (t.after id q (t.reply R.base q a₀))) :
    R.Safe id (.ask q k) h := by
  refine Among.ask stable here fine ?_
  rintro t a u held ⟨careful, ⟨a₀, rfl⟩, rfl⟩
  exact rest t a₀ held careful

theorem Safe.stop (left : R.left id h) : R.Safe id (.stop ()) h :=
  Among.stops (R.stays id) left fun _ held => held

theorem Safe.ret {outcome : Outcome} (left : R.left id h) : R.Safe id (.ret outcome) h :=
  Among.returns (R.stays id) left fun _ held => held

namespace Relied
variable {f : JobRecord → Proc Outcome}

theorem look {q : Ask} {k : Answer q → Proc Outcome} (relied : R.Relied id I) (here : I h)
    (inert : q.inert = true) (rest : ∀ a t, I t → R.Safe id (k a) t) : R.Safe id (.ask q k) h := by
  refine .ask relied.stable here (fun t held => relied.inert t q held inert) fun t a₀ held _ => ?_
  rw [House.after_inert inert]
  exact rest _ t held

theorem call {q : Ask} {f : Answer q → Proc Outcome} (relied : R.Relied id I) (here : I h)
    (inert : q.inert = true) (rest : ∀ a t, I t → R.Safe id (f a) t) :
    R.Safe id (Bench.call q >>= f) h :=
  relied.look here inert rest

theorem quiet {α : Type} {p : Proc α} {f : α → Proc Outcome} (relied : R.Relied id I) (here : I h)
    (quiet : Asks (fun q : Ask => q.reads = true) p) (rest : ∀ a t, I t → R.Safe id (f a) t) :
    R.Safe id (p >>= f) h := by
  induction p generalizing h with
  | ret a => exact rest a h here
  | stop _ => exact quiet.elim
  | ask q k ih =>
      exact relied.look here (Ask.inert_of_reads quiet.1) fun a t held => ih a held (quiet.2 a)

/-- A save that fails stops the procedure. -/
theorem saving {k : Bool → Proc Outcome} (relied : R.Relied id I) (here : I h)
    (stops : k false = .stop ()) (fine : ∀ t, I t → R.fine id t (.save job))
    (rest : ∀ t, I t → R.Safe id (k true) { t with store := t.store.save job }) :
    R.Safe id (.ask (.save job) k) h := by
  refine .ask relied.stable here fine fun t a₀ held careful => ?_
  cases a₀ with
  | false =>
      show R.Safe id (k false) t
      rw [stops]
      exact .stop (relied.unsaved t job held careful)
  | true => exact rest t held

theorem save {f : Unit → Proc Outcome} (relied : R.Relied id I) (here : I h)
    (fine : ∀ t, I t → R.fine id t (.save job))
    (rest : ∀ t, I t → R.Safe id (f ()) { t with store := t.store.save job }) :
    R.Safe id (Machine.save job >>= f) h :=
  relied.saving here rfl fine rest

/-- A record is saved in its next state, by the clock and the journal of then. -/
theorem transition {state : JobState} (relied : R.Relied id I) (here : I h)
    (fine : ∀ now high t, I t →
      R.fine id t (.save { job with state := state, updatedAtS := now, seqHigh := high }))
    (rest : ∀ now high t, I t →
      let job := { job with state := state, updatedAtS := now, seqHigh := high }
      R.Safe id (f job) { t with store := t.store.save job }) :
    R.Safe id (Machine.transition job state >>= f) h :=
  relied.look here rfl fun _ _ here => relied.look here rfl fun high _ here =>
    relied.saving here rfl (fine _ high) (rest _ high)

theorem emit {kind : EventKind} (relied : R.Relied id I) (here : I h)
    (rest : ∀ high t, I t → R.Safe id (f { job with seqHigh := high }) t) :
    R.Safe id (Machine.emit job kind >>= f) h := by
  refine relied.look here rfl fun now _ here => ?_
  refine .ask relied.stable here (fun t held => relied.inert t _ held rfl) ?_
  rintro t (_ | _ | _) held careful
  · exact relied.look held rfl rest
  · exact .stop (relied.unwritten t kind now .unsynced held nofun careful)
  · exact .stop (relied.unwritten t kind now .failed held nofun careful)

theorem reports {f : Unit → Proc Outcome} (relied : R.Relied id I) (here : I h)
    (reports : List Report) (rest : ∀ t, I t → R.Safe id (f ()) t) :
    R.Safe id (Machine.report reports >>= f) h := by
  induction reports generalizing h with
  | nil => exact rest h here
  | cons r reports ih =>
      exact relied.look here rfl fun now _ here => relied.look here rfl fun _ _ here => ih here

theorem emitArtifacts (relied : R.Relied id I) (here : I h) (artifacts : List ArtifactMeta)
    (rest : ∀ high t, I t → R.Safe id (f { job with seqHigh := high }) t) :
    R.Safe id (Machine.emitArtifacts job artifacts >>= f) h := by
  induction artifacts generalizing job h with
  | nil => exact rest job.seqHigh h here
  | cons a artifacts ih =>
      have step : Machine.emitArtifacts job (a :: artifacts) >>= f =
          Machine.emit job (.artifact a) >>= fun job => Machine.emitArtifacts job artifacts >>= f :=
        Prog.bind_assoc _ _ _
      rw [step]
      exact relied.emit here fun high t held => ih held rest

end Relied

theorem Closes.finish {outcome : Outcome} (closes : R.Closes id I) (here : I h) (mine : job.id = id) :
    R.Safe id (Machine.finish job outcome) h := by
  refine closes.emit here fun high t held => closes.transition held ?_ ?_
  · intro now high t held
    refine And.left (closes.done t _ held ?_ ?_)
    · exact mine
    · rfl
  · intro now high t held
    refine .ret (And.right (closes.done t _ held ?_ ?_))
    · exact mine
    · rfl

end Rules

section Instances

/-- A host with these jobs on disk. -/
def House.housing (jobs : List JobRecord) : House where
  store := jobs.foldl JobStore.save ⟨.empty, some .empty⟩
  live := []
  dirs := fun _ => .empty
  clock := fun _ => 0
  writers := fun _ _ => []
  watched := none
  collections := []
  cancels := []
  doing := .down

theorem House.filed_housing (jobs : List JobRecord) : Filed (House.housing jobs).store := by
  have all (s : JobStore) (filed : Filed s) : Filed (jobs.foldl JobStore.save s) := by
    induction jobs generalizing s with
    | nil => exact filed
    | cons job jobs ih => exact ih _ (filed_saved filed job)
  refine all _ fun id r there => ?_
  obtain ⟨d, at_, -⟩ := Option.bind_eq_some_iff.mp (JobStore.load_eq_ok.mp there)
  cases at_

def earlier : JobRecord := queuedUnder ⟨"k", k_accepted⟩

def later : JobRecord :=
  { queuedUnder ⟨"m", m_accepted⟩ with id := ⟨"jb-2-00000000", second_accepted⟩ }

/-- The answers of a node whose child exits well. -/
def exiting (pid : UInt32) : (q : Ask) → Answer q
  | .spawn _ => .ok ⟨pid, 1⟩
  | q => serving ⟨[], .ok (.exited 0 none)⟩ [] q

/-- A box with nothing on it. -/
def emptyBox : Exclusive.Box where
  lease := none
  alive _ := false
  engines := []
  gpuApps := []
  pgrep := true
  nvidiaSmi := true
  freeFraction := some (.finite 1)
  diskFree := some 4096

def startOn (box : Exclusive.Box) : House.Move := .start plainCtx Exclusive.sampleConfig box

def answers (n : Nat) (oracle : (q : Ask) → Answer q) : List House.Move :=
  List.replicate n (.answer oracle)

end Instances

end Bench
end Metralectl
