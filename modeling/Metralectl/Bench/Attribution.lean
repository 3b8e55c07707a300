import Metralectl.Bench.House

/-!
Whose a record is. The records of a job are those its snapshot of the directory does not have
as they are: that names what was written while its child ran as long as, from the snapshot to
the collection, nothing but that child is there to write.
-/
namespace Metralectl
namespace Bench
open SortedMaps SortedMap Programs Runs Machine

namespace Collection

/-- A file it names, and when that was written. -/
def Names (c : Collection) (name : String) (t : Nat) : Prop :=
  (∃ a ∈ c.artifacts, a.name = name) ∧ (c.files.get? name).map Written.mtime = some t

/-- It names the records that were written while its job's child ran, and no others. -/
def Exact (c : Collection) (writers : String → Nat → List JobId) : Prop :=
  ∀ name, (∃ a ∈ c.artifacts, a.name = name) ↔
    ∃ w, c.files.get? name = some w ∧ isRecordName name = true ∧ c.job ∈ writers c.dir w.mtime

end Collection

namespace House

/-- Every collection is of its job's records, and no write is in those of two jobs. -/
structure Attributed (h : House) : Prop where
  exact_ : ∀ c ∈ h.collections, c.Exact h.writers
  once : ∀ c ∈ h.collections, ∀ d ∈ h.collections, c.dir = d.dir →
    ∀ name t, c.Names name t → d.Names name t → c.job = d.job

/-- The process that an answer takes for a job's child. -/
def taken (oracle : (q : Ask) → Answer q) : Doing → Option (JobId × ChildHandle)
  | .working id (.ask (.sameProcess pid startTicks) _) _ =>
      if oracle (.sameProcess pid startTicks) then some (id, ⟨pid, startTicks⟩) else none
  | _ => none

/-- A directory is written to while one child is alive, if any; while a job's records are being
told from others, its own is. A process that is taken for a job's child is one. -/
def Undisturbed (h : House) : Move → Prop
  | .write _ _ _ => h.live.length ≤ 1 ∧ ∀ id ∈ h.watched, ∃ p ∈ h.live, p.1 = id
  | .answer oracle => ∀ p ∈ taken oracle h.doing, p ∈ h.live
  | _ => True

section Snapshots
variable {h t : House} {id : JobId} {dir dir' name : String} {before : RecordState} {w : Written}

/-- Every file was written by the time its directory's clock shows. -/
def Stamped (h : House) : Prop :=
  ∀ dir name w, (h.dirs dir).get? name = some w → w.mtime ≤ h.clock dir

/-- A snapshot of a directory tells the job's records in it from the others. -/
structure Tells (h : House) (id : JobId) (dir : String) (before : RecordState) : Prop where
  stamped : ∀ name w, (h.dirs dir).get? name = some w → w.mtime ≤ h.clock dir
  past : ∀ name t, before.get? name = some t → t ≤ h.clock dir
  fair : ∀ name w, (h.dirs dir).get? name = some w → isRecordName name = true →
    (before.get? name ≠ some w.mtime ↔ id ∈ h.writers dir w.mtime)

theorem get?_state {d : Directory} :
    d.state.get? name = if isRecordName name then (d.get? name).map Written.mtime else none := by
  rw [Directory.state, get?_map, get?_keep]
  split <;> rfl

/-- One taken before the job has a child. -/
theorem tells_of_snapshot (stamped : Stamped h) (unwritten : ∀ t, id ∉ h.writers dir t) :
    Tells h id dir (h.dirs dir).state where
  stamped := stamped dir
  past := by
    intro name t at_
    rw [get?_state] at at_
    split at at_
    · obtain ⟨w, there, rfl⟩ := Option.map_eq_some_iff.mp at_
      exact stamped dir name w there
    · cases at_
  fair := by
    intro name w there isRecord
    rw [get?_state, if_pos isRecord, there]
    exact ⟨fun other => absurd rfl other, fun wrote => absurd wrote (unwritten _)⟩

theorem clock_write (later : h.clock dir' < w.mtime) : h.clock dir ≤ (h.write dir' name w).clock dir := by
  show h.clock dir ≤ if dir = dir' then w.mtime else h.clock dir
  split
  · next same =>
      rw [same]
      exact later.le
  · exact le_rfl

/-- What is in a directory after a write: what was written, or what was there. -/
theorem get?_write {other : String} {v : Written}
    (there : ((h.write dir' name w).dirs dir).get? other = some v) :
    (dir = dir' ∧ other = name ∧ v = w) ∨ (h.dirs dir).get? other = some v := by
  have there : (if dir = dir' then (h.dirs dir').insert name w else h.dirs dir).get? other = some v :=
    there
  split at there
  · next same =>
      rw [get?_insert] at there
      split at there
      · next it => exact .inl ⟨same, it, (Option.some.inj there).symm⟩
      · rw [same]
        exact .inr there
  · exact .inr there

theorem Stamped.write (stamped : Stamped h) (later : h.clock dir' < w.mtime) :
    Stamped (h.write dir' name w) := by
  intro dir other v there
  obtain ⟨rfl, -, rfl⟩ | there := get?_write there
  · exact (if_pos rfl).ge
  · exact (stamped dir other v there).trans (clock_write later)

/-- Who wrote what was there before is not changed by a later write. -/
theorem writers_write {t : Nat} (later : h.clock dir' < w.mtime) (past : t ≤ h.clock dir) :
    (h.write dir' name w).writers dir t = h.writers dir t := by
  refine if_neg ?_
  rintro ⟨rfl, rfl⟩
  exact absurd past (Nat.not_le.mpr later)

/-- A snapshot stays good as long as the job's child is there at every write. -/
theorem Tells.write (tells : Tells h id dir before) (later : h.clock dir' < w.mtime)
    (mine : ∃ p ∈ h.live, p.1 = id) : Tells (h.write dir' name w) id dir before where
  stamped := by
    intro other v there
    obtain ⟨rfl, -, rfl⟩ | there := get?_write there
    · exact (if_pos rfl).ge
    · exact (tells.stamped other v there).trans (clock_write later)
  past := fun other t at_ => (tells.past other t at_).trans (clock_write later)
  fair := by
    intro other v there isRecord
    obtain ⟨rfl, -, rfl⟩ | there := get?_write there
    · have wrote : (h.write dir name v).writers dir v.mtime = h.live.map Prod.fst := if_pos ⟨rfl, rfl⟩
      have fresh : before.get? other ≠ some v.mtime :=
        fun at_ => absurd (tells.past other _ at_) (Nat.not_le.mpr later)
      rw [wrote]
      exact iff_of_true fresh (List.mem_map.mpr mine)
    · rw [writers_write later (tells.stamped other v there)]
      exact tells.fair other v there isRecord

theorem get?_delete {other : String} {v : Written}
    (there : ((h.setDir dir' ((h.dirs dir').remove name)).dirs dir).get? other = some v) :
    (h.dirs dir).get? other = some v := by
  have there : (if dir = dir' then (h.dirs dir').remove name else h.dirs dir).get? other = some v :=
    there
  split at there
  · next same =>
      rw [get?_remove] at there
      split at there
      · cases there
      · rwa [same]
  · exact there

theorem Tells.delete (tells : Tells h id dir before) :
    Tells (h.setDir dir' ((h.dirs dir').remove name)) id dir before where
  stamped := fun other v there => tells.stamped other v (get?_delete there)
  past := tells.past
  fair := fun other v there => tells.fair other v (get?_delete there)

/-- What is collected by such a snapshot. -/
theorem exact_of_tells {gate : String} (tells : Tells h id dir before) :
    Collection.Exact ⟨id, dir, h.dirs dir, (h.dirs dir).collect gate before⟩ h.writers := by
  intro name
  constructor
  · rintro ⟨a, named, rfl⟩
    obtain ⟨⟨other, t⟩, listed, made⟩ := List.mem_filterMap.mp named
    rw [mem_entries, get?_state] at listed
    split at listed
    · next isRecord =>
        obtain ⟨w, there, rfl⟩ := Option.map_eq_some_iff.mp listed
        dsimp only at made
        split at made
        · cases made
        · next fresh =>
            rw [there] at made
            cases made
            exact ⟨w, there, isRecord, (tells.fair other w there isRecord).mp fresh⟩
    · cases listed
  · rintro ⟨w, there, isRecord, wrote⟩
    have fresh := (tells.fair name w there isRecord).mpr wrote
    refine ⟨⟨name, s!".benchmarks/{gate}/{name}", w.bytes, w.sha256,
      if isSignatureName name then .signature else .record⟩, ?_, rfl⟩
    refine List.mem_filterMap.mpr ⟨(name, w.mtime), ?_, ?_⟩
    · rw [mem_entries, get?_state, if_pos isRecord, there]
      rfl
    · dsimp only
      rw [if_neg fresh, there]
      rfl

end Snapshots

/-- What others do while the worker is at a job. -/
inductive Others : House → House → Prop
  | turn (h : House) (doing : Doing) : Others h { h with doing := doing }
  | calls (h : House) (cancels : List JobRecord) : Others h { h with cancels := cancels }
  | filed {h : House} {job : JobRecord} :
      job.state = .done ∨ job.state = .queued ∧ (∀ r, h.store.load job.id ≠ .ok r) →
      Others h { h with store := h.store.save job }
  | write {h : House} {dir name : String} {w : Written} :
      h.clock dir < w.mtime → h.Undisturbed (.write dir name w) → Others h (h.write dir name w)
  | delete (h : House) (dir name : String) : Others h (h.setDir dir ((h.dirs dir).remove name))
  | die (h : House) (i : Nat) : Others h { h with live := h.live.eraseIdx i }

section Phases
variable {h t : House} {id : JobId} {dir : String} {before : RecordState} {job : JobRecord}

/-- Its record is past the queue and not of a run. -/
def Unlaunched (id : JobId) (h : House) : Prop :=
  ∃ r, h.store.load id = .ok r ∧ r.state ≠ .queued ∧ r.state ≠ .running

/-- The job has had no child. -/
structure Childless (id : JobId) (h : House) : Prop where
  stamped : Stamped h
  alive : ∀ p ∈ h.live, p.1 ≠ id
  wrote : ∀ dir t, id ∉ h.writers dir t

/-- Its records are being told from others by a snapshot of the directory. -/
def Watching (dir : String) (before : RecordState) (id : JobId) (h : House) : Prop :=
  h.watched = some id ∧ Tells h id dir before

theorem Tells.same (tells : Tells h id dir before) (dirs : t.dirs = h.dirs) (clock : t.clock = h.clock)
    (writers : t.writers = h.writers) : Tells t id dir before := by
  obtain ⟨stamped, past, fair⟩ := tells
  rw [← dirs, ← clock] at stamped
  rw [← clock] at past
  rw [← dirs, ← writers] at fair
  exact ⟨stamped, past, fair⟩

theorem Watching.stored (here : Watching dir before id h) (store : JobStore) :
    Watching dir before id { h with store := store } :=
  ⟨here.1, here.2.same rfl rfl rfl⟩

theorem Childless.stored (here : Childless id h) (store : JobStore) :
    Childless id { h with store := store } :=
  ⟨here.stamped, here.alive, here.wrote⟩

theorem unlaunched_of_save (mine : job.id = id) (past : job.state ≠ .queued)
    (other : job.state ≠ .running) : Unlaunched id { h with store := h.store.save job } :=
  ⟨job, JobStore.load_save.trans (if_pos mine.symm), past, other⟩

/-- Before the job's child. -/
def Ready (id : JobId) (h : House) : Prop := Childless id h ∧ Unlaunched id h

theorem unlaunched_stable : Stable Others (Unlaunched id) := by
  rintro h t ⟨r, there, past, other⟩ step
  cases step with
  | @filed job kind =>
      by_cases same : id = job.id
      · cases kind with
        | inl done => exact unlaunched_of_save same.symm (by simp [done]) (by simp [done])
        | inr new => exact absurd (same ▸ there) (new.2 r)
      · exact ⟨r, JobStore.load_save.trans ((if_neg same).trans there), past, other⟩
  | turn _ | calls _ | write _ _ | delete _ _ | die _ => exact ⟨r, there, past, other⟩

theorem childless_stable : Stable Others (Childless id) := by
  rintro h t ⟨stamped, alive, wrote⟩ step
  cases step with
  | @write dir name w later _ =>
      refine ⟨stamped.write later, alive, fun dir' t => ?_⟩
      show id ∉ if dir' = dir ∧ t = w.mtime then h.live.map Prod.fst else h.writers dir' t
      split
      · intro listed
        obtain ⟨p, here, it⟩ := List.mem_map.mp listed
        exact alive p here it
      · exact wrote dir' t
  | delete dir name => exact ⟨fun dir name w there => stamped dir name w (get?_delete there), alive, wrote⟩
  | die i => exact ⟨stamped, fun p here => alive p (List.mem_of_mem_eraseIdx here), wrote⟩
  | turn _ | calls _ | filed _ => exact ⟨stamped, alive, wrote⟩

theorem ready_stable : Stable Others (Ready id) := childless_stable.and unlaunched_stable

theorem watching_stable : Stable Others (Watching dir before id) := by
  rintro h t ⟨watched, tells⟩ step
  cases step with
  | write later undisturbed => exact ⟨watched, tells.write later (undisturbed.2 id watched)⟩
  | delete dir name => exact ⟨watched, tells.delete⟩
  | turn _ | calls _ | filed _ | die _ => exact ⟨watched, tells.same rfl rfl rfl⟩

end Phases

/-- Where the questions of a job's procedure may be asked. -/
def Fine (base : String) (id : JobId) (h : House) : Ask → Prop
  | .save job => job.id = id ∧ job.state ≠ .queued ∧
      (job.state = .running → Tells h id (job.spec.recordDir base) job.recordsBefore)
  | .spawn _ => Unlaunched id h
  | .collect worktree gate before _ => Tells h id (recordDir worktree gate) before
  | _ => True

/-- The answers that no process of another gave. -/
def Careful (id : JobId) (h : House) : (q : Ask) → Answer q → Prop
  | .sameProcess pid startTicks, true => (id, ⟨pid, startTicks⟩) ∈ h.live
  | _, _ => True

def attribution (base : String) : Rules where
  base := base
  drift := Others
  careful := Careful
  fine := Fine base
  left := fun _ _ => True
  stays := fun _ _ _ _ _ => trivial

section Procedures
variable {base : String} {h t : House} {id : JobId} {dir : String} {before : RecordState}
  {job : JobRecord} {I : House → Prop} (ctx : Ctx)

theorem closes_of_stable (stable : Stable Others I) : (attribution base).Closes id I where
  stable := stable
  inert := by
    intro h q _ inert
    cases q with
    | save _ | spawn _ | collect _ _ _ _ => cases inert
    | _ => trivial
  unsaved := fun _ _ _ _ => trivial
  unwritten := fun _ _ _ _ _ _ _ => trivial
  done := fun h job _ mine done => ⟨⟨mine, by simp [done], by simp [done]⟩, trivial⟩

theorem watches : (attribution base).Closes id (Watching dir before id) :=
  closes_of_stable watching_stable

/-- In no state but the queue's and the run's. -/
theorem fine_save {state : JobState} (mine : job.id = id) (begun : job.state = state)
    (past : state ≠ .queued) (other : state ≠ .running) : Fine base id h (.save job) :=
  ⟨mine, begun ▸ past, fun running => absurd (begun.symm.trans running) other⟩

theorem safe_collecting {fresh : Bool} {code : Int32} {verdict : Option Verdict} (mine : job.id = id)
    (here : Watching (job.spec.recordDir base) job.recordsBefore id h) :
    (attribution base).Safe id
      (collectingAs ctx job (worktreeOf base job.spec.sha) fresh code verdict) h := by
  refine watches.transition here (fun _ _ _ _ => fine_save mine rfl nofun nofun) ?_
  intro now high h here
  have always : (attribution base).Closes id fun _ => True := closes_of_stable fun _ _ _ _ => trivial
  refine .ask watching_stable (here.stored _) (fun t here => here.2) ?_
  rintro t (e | artifacts) here -
  · exact always.finish trivial mine
  · refine always.emitArtifacts trivial _ fun high t _ => ?_
    split
    · exact always.finish trivial mine
    · exact always.finish trivial mine

theorem safe_waiting {fresh : Bool} {child : ChildHandle} {plan : RunPlan} (mine : job.id = id)
    (here : Watching (job.spec.recordDir base) job.recordsBefore id h) :
    (attribution base).Safe id
      (waitingAs ctx job (worktreeOf base job.spec.sha) fresh child plan) h := by
  refine .ask watching_stable here (fun _ _ => trivial) fun t watched here _ => ?_
  refine watches.reports (h := t) here _ fun t here => watches.look here rfl fun high t here => ?_
  dsimp only
  split
  · next code verdict _ =>
      cases verdict with
      | some v => exact watches.emit here fun high t here => safe_collecting ctx mine here
      | none => exact safe_collecting ctx mine here
  · exact watches.finish here mine
  · exact watches.finish here mine
  · exact watches.finish here mine
  · exact watches.finish here mine

theorem safe_resumedWaiting {child : ChildHandle} {plan : RunPlan} (mine : job.id = id)
    (here : Watching (job.spec.recordDir base) job.recordsBefore id h) :
    (attribution base).Safe id
      (resumedWaiting ctx job (worktreeOf base job.spec.sha) child plan) h := by
  rw [resumedWaiting_eq]
  exact safe_waiting ctx mine here

theorem safe_started {child : ChildHandle} {plan : RunPlan} (mine : job.id = id)
    (here : Watching (job.spec.recordDir base) job.recordsBefore id h) :
    (attribution base).Safe id
      (started ctx job (worktreeOf base job.spec.sha) plan child) h := by
  refine watches.transition here (fun now high t here => ⟨mine, nofun, fun _ => here.2⟩) ?_
  intro now high t here
  exact watches.emit (here.stored _) fun high t here => waiting_eq .. ▸ safe_waiting ctx mine here

theorem readies : (attribution base).Closes id (Ready id) := closes_of_stable ready_stable

theorem Ready.saved {state : JobState} (ready : Ready id h) (mine : job.id = id)
    (begun : job.state = state) (past : state ≠ .queued) (other : state ≠ .running) :
    Ready id { h with store := h.store.save job } :=
  ⟨ready.1.stored _, unlaunched_of_save mine (begun ▸ past) (begun ▸ other)⟩

theorem safe_running {binary : CachedBinary} (mine : job.id = id) (ready : Ready id h) :
    (attribution base).Safe id (running ctx job (worktreeOf base job.spec.sha) binary) h := by
  refine .ask ready_stable ready (fun _ _ => trivial) fun t _ ready _ => ?_
  have here : Watching (job.spec.recordDir base) (t.dirs (job.spec.recordDir base)).state id
      { t with watched := some id } :=
    ⟨rfl, (tells_of_snapshot ready.1.stamped (ready.1.wrote _)).same rfl rfl rfl⟩
  have waits : Stable Others fun h => Watching (job.spec.recordDir base)
      (t.dirs (job.spec.recordDir base)).state id h ∧ Unlaunched id h :=
    watching_stable.and unlaunched_stable
  refine .ask waits ⟨here, ready.2⟩ (fun _ here => here.2) ?_
  rintro u (e | child) here -
  · exact (closes_of_stable waits).finish here mine
  · exact safe_started ctx mine ⟨here.1.1, here.1.2.same rfl rfl rfl⟩

theorem safe_checking {binary : CachedBinary} (mine : job.id = id) (begun : job.state = .building)
    (ready : Ready id h) :
    (attribution base).Safe id (checking ctx job (worktreeOf base job.spec.sha) binary) h := by
  refine readies.save ready (fun _ _ => fine_save mine begun nofun nofun) fun t ready => ?_
  refine readies.call (ready.saved mine begun nofun nofun) rfl fun cancelled t ready => ?_
  split
  · exact readies.finish ready mine
  · refine readies.quiet ready (quiet_refusal _ _) ?_
    rintro (reason | _) t ready
    · exact readies.finish ready mine
    · exact safe_running ctx mine ready

theorem safe_building (mine : job.id = id) (ready : Ready id h) :
    (attribution base).Safe id (building ctx job (worktreeOf base job.spec.sha)) h := by
  refine readies.transition ready (fun _ _ _ _ => fine_save mine rfl nofun nofun) ?_
  intro now high t ready
  refine readies.look (ready.saved mine rfl nofun nofun) rfl ?_
  rintro (e | (miss | binary)) t ready
  · exact readies.finish ready mine
  · refine readies.emit ready fun high t ready => readies.look ready rfl ?_
    rintro (e | r) t ready
    · refine readies.call ready rfl fun cancelled t ready => ?_
      split
      · exact readies.finish ready mine
      · exact readies.finish ready mine
    · exact readies.emit ready fun high t ready => safe_checking ctx mine rfl ready
  · refine readies.emit ready fun high t ready => ?_
    exact readies.emit ready fun high t ready => safe_checking ctx mine rfl ready

theorem safe_preparing (mine : job.id = id) (ready : Ready id h) :
    (attribution base).Safe id (preparing ctx job) h := by
  refine readies.quiet ready (quiet_fetching _) ?_
  rintro (reason | fetched) t ready
  · exact readies.finish ready mine
  · refine readies.quiet ready (quiet_publishing _ _) ?_
    rintro (reason | _) t ready
    · exact readies.finish ready mine
    · refine readies.emit ready fun high t ready => ?_
      refine .ask ready_stable ready (fun _ _ => trivial) ?_
      rintro t (e | worktree) ready -
      · exact readies.finish ready mine
      · refine readies.call ready rfl fun cancelled t ready => ?_
        split
        · exact readies.finish ready mine
        · exact safe_building ctx mine ready

theorem safe_run (mine : job.id = id) (childless : Childless id h) :
    (attribution base).Safe id (run ctx job) h := by
  have closes : (attribution base).Closes id (Childless id) := closes_of_stable childless_stable
  refine closes.transition childless (fun _ _ _ _ => fine_save mine rfl nofun nofun) ?_
  intro now high t childless
  exact safe_preparing ctx mine
    ⟨childless.stored _, unlaunched_of_save mine nofun nofun⟩

/-- If it is of a run and its child is still there, its records are told by its snapshot. -/
def Resumable (base : String) (h : House) (r : JobRecord) : Prop :=
  r.state = .running → ∀ child, r.child = some child → (r.id, child) ∈ h.live →
    Tells h r.id (r.spec.recordDir base) r.recordsBefore

theorem resumable_stable : Stable Others fun h => Resumable base h job := by
  intro h t kept step state child has alive
  cases step with
  | write later _ => exact (kept state child has alive).write later ⟨_, alive, rfl⟩
  | delete dir name => exact (kept state child has alive).delete
  | die i => exact (kept state child has (List.mem_of_mem_eraseIdx alive)).same rfl rfl rfl
  | turn _ | calls _ | filed _ => exact (kept state child has alive).same rfl rfl rfl

theorem safe_recover {p : Proc Outcome} (recovers : recover ctx job = some p)
    (kept : Resumable base h job) : (attribution base).Safe job.id p h := by
  have always : (attribution base).Closes job.id fun _ => True := closes_of_stable fun _ _ _ _ => trivial
  unfold recover at recovers
  split at recovers
  · cases recovers
  · cases recovers
  · next running =>
      cases recovers
      unfold alive resumeRunning
      cases has : job.childPid with
      | none => exact always.finish trivial rfl
      | some pid =>
          cases started : job.childStartTicks with
          | none => exact always.finish trivial rfl
          | some ticks =>
              refine .ask resumable_stable kept (fun _ _ => trivial) ?_
              rintro t (_ | _) kept theirs
              · exact always.finish trivial rfl
              · have child : job.child = some ⟨pid, ticks⟩ := by
                  rw [JobRecord.child, has, started]
                have here : Watching (job.spec.recordDir base) job.recordsBefore job.id
                    { t with watched := some job.id } :=
                  ⟨rfl, (kept running _ child theirs).same rfl rfl rfl⟩
                refine .ask watching_stable here (fun _ _ => trivial) ?_
                rintro u (e | worktree) here -
                · exact watches.finish here rfl
                · exact safe_resumedWaiting ctx rfl here
  all_goals
    cases recovers
    exact always.finish trivial rfl

end Procedures

section Worlds
variable {base : String} {h t : House} {id : JobId} {r : JobRecord}

/-- What holds of the records, the children and the directories of a host. -/
structure Sound (base : String) (h : House) : Prop where
  stamped : Stamped h
  filed : Filed h.store
  single : ∀ dir t, (h.writers dir t).length ≤ 1
  /-- A job that has or had a child is past the queue. -/
  begun : ∀ id, ¬Childless id h → ∃ r, h.store.load id = .ok r ∧ r.state ≠ .queued
  kept : ∀ id r, h.store.load id = .ok r → Resumable base h r
  cancels : ∀ r ∈ h.cancels, r.state = .done
  told : ∀ c ∈ h.collections, c.Exact h.writers ∧
    ∀ name w, c.files.get? name = some w → w.mtime ≤ h.clock c.dir

/-- What holds of what the worker is at. -/
def Fits (base : String) (h : House) : Doing → Prop
  | .down => True
  | .free todo => todo.Pairwise (·.id ≠ ·.id) ∧ ∀ r ∈ todo, Resumable base h r
  | .picked job => Childless job.id h
  | .working id p todo => (attribution base).Safe id p h ∧
      todo.Pairwise (·.id ≠ ·.id) ∧ ∀ r ∈ todo, r.id ≠ id ∧ Resumable base h r

theorem Fits.drifted {doing : Doing} (fits : h.Fits base doing) (step : Others h t) :
    t.Fits base doing := by
  cases doing with
  | down => trivial
  | free todo => exact ⟨fits.1, fun r there => resumable_stable h t (fits.2 r there) step⟩
  | picked job => exact childless_stable h t fits step
  | working id p todo =>
      obtain ⟨safe, apart, kept⟩ := fits
      refine ⟨safe.drifted step, apart, fun r there => ?_⟩
      exact ⟨(kept r there).1, resumable_stable h t (kept r there).2 step⟩

theorem Sound.filed_save {job : JobRecord} (sound : Sound base h)
    (past : job.state ≠ .queued ∨ ∀ r, h.store.load job.id ≠ .ok r)
    (kept : Resumable base h job) : Sound base { h with store := h.store.save job } where
  stamped := sound.stamped
  filed := filed_saved sound.filed job
  single := sound.single
  begun := by
    intro id had
    obtain ⟨r, there, begun⟩ := sound.begun id fun childless => had (childless.stored _)
    by_cases same : id = job.id
    · refine ⟨job, JobStore.load_save.trans (if_pos same), ?_⟩
      exact past.resolve_right fun new => new r (same ▸ there)
    · exact ⟨r, JobStore.load_save.trans ((if_neg same).trans there), begun⟩
  kept := by
    intro id r there
    have there := JobStore.load_save.symm.trans there
    intro state child has alive
    refine Tells.same (h := h) ?_ rfl rfl rfl
    split at there
    · cases there
      exact kept state child has alive
    · exact sound.kept id r there state child has alive
  cancels := sound.cancels
  told := sound.told

theorem exact_later {c : Collection} {dir name : String} {w : Written} (exact_ : c.Exact h.writers)
    (past : ∀ name w, c.files.get? name = some w → w.mtime ≤ h.clock c.dir)
    (later : h.clock dir < w.mtime) : c.Exact (h.write dir name w).writers := by
  intro other
  rw [exact_ other]
  refine exists_congr fun v => and_congr_right fun there => and_congr_right fun _ => ?_
  rw [writers_write later (past other v there)]

theorem Sound.drifted (sound : Sound base h) (step : Others h t)
    (cancels : ∀ r ∈ t.cancels, r.state = .done) : Sound base t := by
  have kept (store : t.store = h.store) : ∀ id r, t.store.load id = .ok r → Resumable base t r :=
    fun id r there => resumable_stable h t (sound.kept id r (store ▸ there)) step
  have begun (store : t.store = h.store) : ∀ id, ¬Childless id t →
      ∃ r, t.store.load id = .ok r ∧ r.state ≠ .queued := by
    intro id had
    rw [store]
    exact sound.begun id fun childless => had (childless_stable h t childless step)
  cases step with
  | filed kind =>
      refine sound.filed_save (kind.imp (fun done => by simp [done]) And.right) ?_
      cases kind with
      | inl done => exact fun running => absurd (done.symm.trans running) nofun
      | inr new => exact fun running => absurd (new.1.symm.trans running) nofun
  | @write dir name w later undisturbed =>
      refine ⟨sound.stamped.write later, sound.filed, fun dir' t => ?_, begun rfl, kept rfl, cancels, ?_⟩
      · show (if dir' = dir ∧ t = w.mtime then h.live.map Prod.fst else h.writers dir' t).length ≤ 1
        split
        · rw [List.length_map]
          exact undisturbed.1
        · exact sound.single dir' t
      · intro c listed
        obtain ⟨exact_, past⟩ := sound.told c listed
        exact ⟨exact_later exact_ past later, fun name w there => (past name w there).trans (clock_write later)⟩
  | delete dir name =>
      exact ⟨fun dir name w there => sound.stamped dir name w (get?_delete there), sound.filed,
        sound.single, begun rfl, kept rfl, cancels, sound.told⟩
  | turn _ | calls _ | die _ =>
      exact ⟨sound.stamped, sound.filed, sound.single, begun rfl, kept rfl, cancels, sound.told⟩

theorem Sound.collected {watched : Option JobId} {collections : List Collection}
    {cancels : List JobRecord} {doing : Doing} (sound : Sound base h)
    (told : ∀ c ∈ collections, c.Exact h.writers ∧
      ∀ name w, c.files.get? name = some w → w.mtime ≤ h.clock c.dir)
    (done : ∀ r ∈ cancels, r.state = .done) :
    Sound base { h with
      watched := watched, collections := collections, cancels := cancels, doing := doing } where
  stamped := sound.stamped
  filed := sound.filed
  single := sound.single
  begun := fun id had => sound.begun id fun childless =>
    had ⟨childless.stamped, childless.alive, childless.wrote⟩
  kept := fun id r there state child has alive =>
    (sound.kept id r there state child has alive).same rfl rfl rfl
  cancels := done
  told := told

theorem Sound.spawned (sound : Sound base h) (unlaunched : Unlaunched id h) (child : ChildHandle) :
    Sound base { h with live := h.live ++ [(id, child)] } where
  stamped := sound.stamped
  filed := sound.filed
  single := sound.single
  begun := by
    intro other had
    by_cases same : other = id
    · obtain ⟨r, there, past, -⟩ := unlaunched
      exact ⟨r, same ▸ there, past⟩
    · refine sound.begun other fun childless => had ⟨childless.stamped, fun p here => ?_, childless.wrote⟩
      cases List.mem_append.mp here with
      | inl here => exact childless.alive p here
      | inr new =>
          cases List.mem_singleton.mp new
          exact fun it => same it.symm
  kept := by
    intro other r there state c has alive
    have there : h.store.load other = .ok r := there
    cases List.mem_append.mp alive with
    | inl alive => exact (sound.kept other r there state c has alive).same rfl rfl rfl
    | inr new =>
        obtain ⟨r', there', -, still⟩ := unlaunched
        have mine : r.id = id := (Prod.mk.inj (List.mem_singleton.mp new)).1
        rw [← mine, sound.filed other r there, there] at there'
        cases there'
        exact absurd state still
  cancels := sound.cancels
  told := sound.told

/-- What an answer leaves, where its question may be asked. -/
theorem Sound.answered {q : Ask} (sound : Sound base h) (fine : Fine base id h q) (a₀ : Answer q) :
    Sound base (h.after id q (h.reply base q a₀)) := by
  cases q with
  | save job =>
      cases a₀ with
      | false => exact sound
      | true =>
          refine sound.filed_save (.inl fine.2.1) ?_
          intro state child has alive
          obtain ⟨rfl, -, tells⟩ := fine
          exact tells state
  | spawn plan =>
      cases a₀ with
      | error e => exact sound
      | ok child => exact sound.spawned fine child
  | recordState worktree gate => exact sound.collected sound.told sound.cancels
  | sameProcess pid startTicks =>
      cases a₀ with
      | false => exact sound
      | true => exact sound.collected sound.told sound.cancels
  | collect worktree gate before dest =>
      cases a₀ with
      | error e => exact sound.collected sound.told sound.cancels
      | ok artifacts =>
          refine sound.collected (fun c listed => ?_) sound.cancels
          cases List.mem_append.mp listed with
          | inl old => exact sound.told c old
          | inr new =>
              cases List.mem_singleton.mp new
              exact ⟨exact_of_tells fine, sound.stamped _⟩
  | worktree sha => cases a₀ <;> exact sound
  | _ => exact sound

/-- What was found at a restart is not changed by the procedure of another job. -/
theorem Resumable.answered {q : Ask} (kept : Resumable base h r) (other : r.id ≠ id) (a : Answer q) :
    Resumable base (h.after id q a) r := by
  intro state child has alive
  have tells := kept state child has ((live_after alive).resolve_right other)
  cases q with
  | save _ | spawn _ | sameProcess _ _ | recordState _ _ | collect _ _ _ _ =>
      cases a <;> exact tells.same rfl rfl rfl
  | _ => exact tells

theorem Sound.childless {job : JobRecord} (sound : Sound base h)
    (loads : h.store.load job.id = .ok job) (queued : job.state = .queued) : Childless job.id h := by
  by_contra had
  obtain ⟨r, there, past⟩ := sound.begun job.id had
  rw [loads] at there
  cases there
  exact past queued

/-- The host, whatever the worker is at. -/
structure Orderly (base : String) (h : House) : Prop where
  sound : Sound base h
  fits : h.Fits base h.doing

/-- A step of others, and one that changes only what the worker is at. -/
theorem Orderly.others (orderly : Orderly base h) (step : Others h t) (same : t.doing = h.doing)
    (cancels : ∀ r ∈ t.cancels, r.state = .done) : Orderly base t :=
  ⟨orderly.sound.drifted step cancels, same ▸ orderly.fits.drifted step⟩

theorem Orderly.turned {doing : Doing} (sound : Sound base h) (fits : h.Fits base doing) :
    Orderly base { h with doing := doing } :=
  ⟨sound.drifted (.turn h doing) sound.cancels, fits.drifted (.turn h doing)⟩

theorem careful_of_undisturbed {oracle : (q : Ask) → Answer q} {q : Ask} {k : Answer q → Proc Outcome}
    {todo : List JobRecord} (undisturbed : ∀ p ∈ taken oracle (.working id (.ask q k) todo), p ∈ h.live) :
    Careful id h q (h.reply base q (oracle q)) := by
  cases q with
  | sameProcess pid startTicks =>
      show Careful id h _ (oracle (.sameProcess pid startTicks))
      cases answer : oracle (.sameProcess pid startTicks) with
      | true => exact undisturbed _ (if_pos answer)
      | false => trivial
  | _ => trivial

theorem orderly_step {m : House.Move} (orderly : Orderly base h) (undisturbed : h.Undisturbed m)
    (hstep : h.step base m = some t) : Orderly base t := by
  have sound := orderly.sound
  have fits := orderly.fits
  cases goes_of_step base hstep with
  | submit new queued => exact orderly.others (.filed (.inr ⟨queued, new⟩)) rfl sound.cancels
  | cancel done =>
      refine orderly.others (.calls h _) rfl fun r there => ?_
      cases List.mem_append.mp there with
      | inl there => exact sound.cancels r there
      | inr new =>
          rw [List.mem_singleton.mp new]
          exact done
  | @dropped i =>
      exact orderly.others (.calls h (h.cancels.eraseIdx i)) rfl
        fun r there => sound.cancels r (List.mem_of_mem_eraseIdx there)
  | @cancelled i job at_ =>
      have fewer : ∀ r ∈ h.cancels.eraseIdx i, r.state = .done :=
        fun r there => sound.cancels r (List.mem_of_mem_eraseIdx there)
      have done := sound.cancels job (List.mem_of_getElem? at_)
      have called := orderly.others (.calls h (h.cancels.eraseIdx i)) rfl fewer
      exact called.others (@Others.filed _ job (.inl done)) rfl fewer
  | write later => exact orderly.others (.write later undisturbed) rfl sound.cancels
  | @delete dir name => exact orderly.others (.delete h dir name) rfl sound.cancels
  | @die i => exact orderly.others (.die h i) rfl sound.cancels
  | crash => exact ⟨sound.collected sound.told (List.forall_mem_nil _), trivial⟩
  | restart _ perm =>
      refine .turned sound ⟨?_, fun r there => ?_⟩
      · exact (perm.pairwise_iff fun other => other.symm).mpr (records_distinct sound.filed)
      · obtain ⟨id, loads⟩ := JobStore.mem_records.mp (perm.mem_iff.mp there)
        exact sound.kept id r loads
  | passed doing _ =>
      rw [doing] at fits
      exact .turned sound ⟨fits.1.of_cons, fun r there => fits.2 r (List.mem_cons_of_mem _ there)⟩
  | @recover ctx job todo p doing recovers =>
      rw [doing] at fits
      obtain ⟨apart, kept⟩ := fits
      obtain ⟨first, apart⟩ := List.pairwise_cons.mp apart
      refine .turned sound ⟨safe_recover ctx recovers (kept job List.mem_cons_self), apart, ?_⟩
      exact fun r there => ⟨(first r there).symm, kept r (List.mem_cons_of_mem _ there)⟩
  | abandon _ | unpick _ => exact .turned sound ⟨.nil, List.forall_mem_nil _⟩
  | pick _ loads queued => exact .turned sound (sound.childless loads queued)
  | @start ctx _ _ job doing =>
      rw [doing] at fits
      exact .turned sound ⟨safe_run ctx rfl fits, .nil, List.forall_mem_nil _⟩
  | @answer oracle id q k todo doing =>
      have undisturbed : ∀ p ∈ taken oracle h.doing, p ∈ h.live := undisturbed
      rw [doing] at fits undisturbed
      obtain ⟨safe, apart, kept⟩ := fits
      have careful : Careful id h q (h.reply base q (oracle q)) := careful_of_undisturbed undisturbed
      refine .turned (sound.answered safe.may _) ⟨safe.answered ⟨careful, ⟨_, rfl⟩, rfl⟩, apart, ?_⟩
      exact fun r there => ⟨(kept r there).1, (kept r there).2.answered (kept r there).1 _⟩
  | @leave id p todo doing _ =>
      rw [doing] at fits
      obtain ⟨-, apart, kept⟩ := fits
      refine ⟨sound.collected sound.told sound.cancels, apart, fun r there state child has alive => ?_⟩
      exact ((kept r there).2 state child has alive).same rfl rfl rfl

/-- A host whose agent is not up yet, with no child of any job. -/
structure Starts (h : House) : Prop where
  filed : Filed h.store
  stamped : Stamped h
  childless : h.live = []
  unwritten : ∀ dir t, h.writers dir t = []
  uncollected : h.collections = []
  uncalled : h.cancels = []
  down : h.doing = .down

theorem orderly_of_starts (starts : Starts h) : Orderly base h where
  sound := {
    stamped := starts.stamped
    filed := starts.filed
    single := fun dir t => by simp [starts.unwritten]
    begun := fun id had => absurd ⟨starts.stamped, by simp [starts.childless], by simp [starts.unwritten]⟩ had
    kept := fun id r _ _ child _ alive => by simp [starts.childless] at alive
    cancels := by simp [starts.uncalled]
    told := by simp [starts.uncollected] }
  fits := by rw [starts.down]; trivial

theorem Sound.attributed (sound : Sound base h) : h.Attributed where
  exact_ := fun c listed => (sound.told c listed).1
  once := by
    intro c listed d listed' same name t named named'
    have wrote {c : Collection} (listed : c ∈ h.collections) (named : c.Names name t) :
        c.job ∈ h.writers c.dir t := by
      obtain ⟨w, there, -, wrote⟩ := ((sound.told c listed).1 name).mp named.1
      have at_ := named.2
      rw [there] at at_
      cases at_
      exact wrote
    have one := wrote listed named
    have other := wrote listed' named'
    rw [← same] at other
    cases all : h.writers c.dir t with
    | nil => rw [all] at one; cases one
    | cons id rest =>
        have short := sound.single c.dir t
        rw [all] at short one other
        obtain rfl := List.length_eq_zero_iff.mp (Nat.le_zero.mp (Nat.le_of_succ_le_succ short))
        rw [List.mem_singleton.mp one, List.mem_singleton.mp other]

/-- Over every run of a host whose directories are not disturbed, what is collected for a job is
what was written while its child ran, and is collected for no other. -/
theorem records_attributed {start : House} {moves : List House.Move} (starts : Starts start)
    (run : Run (House.step base) House.Undisturbed start moves t) : t.Attributed := by
  have orderly : Orderly base t := Run.invariant run (orderly_of_starts starts)
    fun s m u orderly undisturbed hstep => orderly_step orderly undisturbed hstep
  exact orderly.sound.attributed

end Worlds

section Instances

instance (h : House) : (m : House.Move) → Decidable (h.Undisturbed m)
  | .write _ _ _ => inferInstanceAs (Decidable (_ ∧ ∀ id ∈ h.watched, ∃ p ∈ h.live, p.1 = id))
  | .answer oracle => inferInstanceAs (Decidable (∀ p ∈ taken oracle h.doing, p ∈ h.live))
  | .submit _ | .cancel _ _ _ _ | .endCancel _ _ | .delete _ _ | .die _ | .crash | .restart _
  | .recover _ | .abandon | .pick _ | .unpick | .start _ _ _ | .leave => .isTrue trivial

theorem starts_housing (jobs : List JobRecord) : Starts (housing jobs) where
  filed := filed_housing jobs
  stamped := fun _ _ _ there => by cases there
  childless := rfl
  unwritten := fun _ _ => rfl
  uncollected := rfl
  uncalled := rfl
  down := rfl

def gateDir : String := recordDir (worktreeOf "" earlier.spec.sha) "gate"

/-- What is collected for each job, and whose children were alive at its writing. -/
def told (h : House) : List (JobId × List (String × Option (List JobId))) :=
  h.collections.map fun c => (c.job, c.artifacts.map fun a =>
    (a.name, (c.files.get? a.name).map fun w => h.writers c.dir w.mtime))

/-- Two jobs are run; the child of each writes the record, and exits. -/
def twoJobs : List House.Move :=
  [Move.restart [earlier, later], .recover plainCtx, .recover plainCtx, .pick earlier,
      startOn emptyBox] ++
    answers 27 (exiting 1) ++ [Move.write gateDir "r.json" ⟨1, 2, "r"⟩, .die 0] ++
    answers 21 (exiting 1) ++ [Move.leave, .pick later, startOn emptyBox] ++
    answers 27 (exiting 2) ++ [Move.write gateDir "r.json" ⟨2, 3, "s"⟩, .die 0] ++
    answers 21 (exiting 2)

theorem records_attributed_two : ∃ t,
    Run (House.step "") House.Undisturbed (housing [earlier, later]) twoJobs t ∧
      told t = [(earlier.id, [("r.json", some [earlier.id])]),
        (later.id, [("r.json", some [later.id])])] ∧ t.Attributed := by
  have ends : (replay (House.step "") House.Undisturbed (housing [earlier, later]) twoJobs).map
      told = some [(earlier.id, [("r.json", some [earlier.id])]),
        (later.id, [("r.json", some [later.id])])] := by decide +kernel
  obtain ⟨t, whole, ends⟩ := Option.map_eq_some_iff.mp ends
  have run : Run (House.step "") House.Undisturbed (housing [earlier, later]) twoJobs t :=
    Run.of_replay whole
  exact ⟨t, run, ends, records_attributed (starts_housing _) run⟩

/-- Another program writes a record after the job's snapshot and before its child is spawned. -/
def meddled : List House.Move :=
  [Move.restart [earlier], .recover plainCtx, .pick earlier, startOn emptyBox] ++
    answers 26 (exiting 1) ++ [Move.write gateDir "r.json" ⟨1, 2, "r"⟩] ++
    answers 1 (exiting 1) ++ [Move.die 0] ++ answers 21 (exiting 1)

theorem foreign_write_credited : ∃ t,
    Run (House.step "") Free (housing [earlier]) meddled t ∧ ¬t.Attributed := by
  have ends : (replay (House.step "") Free (housing [earlier]) meddled).map told =
      some [(earlier.id, [("r.json", some [])])] := by decide +kernel
  obtain ⟨t, whole, ends⟩ := Option.map_eq_some_iff.mp ends
  refine ⟨t, Run.of_replay whole, fun attributed => ?_⟩
  obtain ⟨c, rest, all, tells, -⟩ := List.map_eq_cons_iff.mp ends
  obtain ⟨job, names⟩ := Prod.mk.inj tells
  obtain ⟨a, others, artifacts, wrote, -⟩ := List.map_eq_cons_iff.mp names
  obtain ⟨name, wrote⟩ := Prod.mk.inj wrote
  have named : ∃ a ∈ c.artifacts, a.name = "r.json" := ⟨a, artifacts ▸ List.mem_cons_self, name⟩
  obtain ⟨w, there, -, mine⟩ := (attributed.exact_ c (all ▸ List.mem_cons_self) "r.json").mp named
  rw [name, there] at wrote
  rw [show t.writers c.dir w.mtime = [] from Option.some.inj wrote] at mine
  exact List.not_mem_nil mine

end Instances

end House

end Bench
end Metralectl
