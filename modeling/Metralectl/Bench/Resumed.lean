import Metralectl.Bench.Evidence

/-!
The half of a run that follows its spawn, beside the procedure that resumes it after a
restart: what the two make of the same child.
-/
namespace Metralectl
namespace Bench
open Programs Machine

/-- What there is to be answered once a child is spawned, to whoever asks: where a commit
is checked out, how the wait for a child under a plan ends, what a collection comes to,
and of each write, clock reading and sequence number in its turn, what it gives. -/
structure Rest where
  worktree : Sha → String
  watched : ChildHandle → RunPlan → Watched
  collected : String → String → RecordState → String → Except String (List ArtifactMeta)
  appended : Nat → Appended
  saved : Nat → Bool
  clock : Nat → UInt64
  high : Nat → UInt64

/-- How far the answers are used up, and the events and records written meanwhile. -/
structure Tally where
  appends : Nat
  saves : Nat
  clocks : Nat
  highs : Nat
  events : List EventKind
  records : List JobRecord

def Tally.start : Tally := ⟨0, 0, 0, 0, [], []⟩

/-- The answer to a question after the spawn; others are not asked. A wait does not read
the argv, which was for the spawn. -/
def Rest.serve (b : Rest) (t : Tally) : (q : Ask) → Answer q × Tally
  | .append kind _ =>
      (b.appended t.appends, { t with
        appends := t.appends + 1
        events := if b.appended t.appends = .failed then t.events else t.events ++ [kind] })
  | .save job =>
      (b.saved t.saves, { t with
        saves := t.saves + 1
        records := if b.saved t.saves then t.records ++ [job] else t.records })
  | .nowMs => (b.clock t.clocks, { t with clocks := t.clocks + 1 })
  | .seqHigh => (b.high t.highs, { t with highs := t.highs + 1 })
  | .wait child plan => (b.watched child { plan with argv := [] }, t)
  | .collect worktree gate before dest => (b.collected worktree gate before dest, t)
  | .worktree sha => (.ok (b.worktree sha), t)
  | .hasCommit _ | .published _ | .ensureRecipes _ => (.ok true, t)
  | .fetch => (.ok (), t)
  | .cachedBinary _ => (.ok (.error .noBuild), t)
  | .build _ _ => (.error "", t)
  | .knownGates _ | .badParams _ _ _ => (.ok [], t)
  | .spawn _ => (.error "", t)
  | .recordState _ _ => (.ok .empty, t)
  | .sameProcess _ _ => (true, t)
  | .cancelled => (false, t)

/-- What a collection of a job goes by, besides the worktree. -/
def JobRecord.collects (job : JobRecord) : JobId × JobSpec × RecordState :=
  (job.id, job.spec, job.recordsBefore)

/-- What the job's collection comes to. -/
def Rest.collection (b : Rest) (ctx : Ctx) (job : JobRecord) (worktree : String) :
    Except String (List ArtifactMeta) :=
  b.collected worktree job.spec.gate.text job.recordsBefore (ctx.artifactsDir job.id)

/-- From such a place on, the child exits well and leaves no record, and the record and the
journal can be written up to the end, whose event at least reaches the journal. -/
def Rest.UnrecordedFrom (b : Rest) (collection : Except String (List ArtifactMeta))
    (appends saves : Nat) (code : Int32) : Prop :=
  code = 0 ∧ b.saved saves = true ∧ ∃ artifacts, collection = .ok artifacts ∧
    firstPath .record artifacts = none ∧
    (∀ i < artifacts.length, b.appended (appends + i) = .ok) ∧
    b.appended (appends + artifacts.length) ≠ .failed

/-- How the wait for the job's child ends, in its worktree and under its limits. -/
def Rest.watch (b : Rest) (ctx : Ctx) (job : JobRecord) (child : ChildHandle) : Watched :=
  b.watched child (plan ctx job (b.worktree job.spec.sha) [])

/-- So of the whole wait: what is reported may fail to be journaled, the verdict may not. -/
def Rest.Unrecorded (b : Rest) (ctx : Ctx) (job : JobRecord) (child : ChildHandle) : Prop :=
  let watched := b.watch ctx job child
  ∃ code verdict, watched.ended = .ok (.exited code verdict) ∧
    (∀ i < verdict.toList.length, b.appended (watched.reports.length + i) = .ok) ∧
    b.UnrecordedFrom (b.collection ctx job (b.worktree job.spec.sha))
      (watched.reports.length + verdict.toList.length) 0 code

/-- What is left of a procedure: its outcome, if it comes to one, the events and the
records written. -/
def Rest.leaves (b : Rest) (p : Proc Outcome) (t : Tally) :
    Except Unit Outcome × List EventKind × List JobRecord :=
  ((p.exec b.serve t).1, (p.exec b.serve t).2.events, (p.exec b.serve t).2.records)

section Pieces
variable (b : Rest) (t : Tally) (job : JobRecord)

theorem exec_report (reports : List Report) :
    ∃ u, (report reports).exec b.serve t = (.ok (), u) ∧ u.appends = t.appends + reports.length ∧
      u.saves = t.saves := by
  induction reports generalizing t with
  | nil => exact ⟨t, rfl, rfl, rfl⟩
  | cons r reports ih =>
      obtain ⟨u, run, appends, saves⟩ := ih (b.serve (b.serve t .nowMs).2
        (.append r.kind (b.serve t .nowMs).1)).2
      refine ⟨u, run, ?_, saves⟩
      rw [appends]
      simp only [Rest.serve, List.length_cons]
      omega

theorem exec_emit (kind : EventKind) :
    (b.appended t.appends = .ok ∧ ∃ job' u, (emit job kind).exec b.serve t = (.ok job', u) ∧
        job'.collects = job.collects ∧ u.appends = t.appends + 1 ∧ u.saves = t.saves) ∨
      b.appended t.appends ≠ .ok ∧ ∃ u, (emit job kind).exec b.serve t = (.error (), u) := by
  cases written : b.appended t.appends with
  | ok =>
      refine .inl ⟨rfl, ?_⟩
      simp only [emit, Prog.call_bind, Prog.exec, Rest.serve, written, Prog.pure_eq]
      exact ⟨_, _, rfl, rfl, rfl, rfl⟩
  | unsynced =>
      refine .inr ⟨nofun, ?_⟩
      simp only [emit, Prog.call_bind, Prog.exec, Rest.serve, written]
      exact ⟨_, rfl⟩
  | failed =>
      refine .inr ⟨nofun, ?_⟩
      simp only [emit, Prog.call_bind, Prog.exec, Rest.serve, written]
      exact ⟨_, rfl⟩

theorem exec_emitArtifacts (artifacts : List ArtifactMeta) :
    ((∀ i < artifacts.length, b.appended (t.appends + i) = .ok) ∧
        ∃ job' u, (emitArtifacts job artifacts).exec b.serve t = (.ok job', u) ∧
          u.appends = t.appends + artifacts.length) ∨
      (¬∀ i < artifacts.length, b.appended (t.appends + i) = .ok) ∧
        ∃ u, (emitArtifacts job artifacts).exec b.serve t = (.error (), u) := by
  induction artifacts generalizing t job with
  | nil => exact .inl ⟨nofun, job, t, rfl, rfl⟩
  | cons a artifacts ih =>
      simp only [emitArtifacts, Prog.exec_bind]
      obtain ⟨written, job', u, run, _, appends, _⟩ | ⟨lost, u, run⟩ :=
        exec_emit b t job (.artifact a)
      · rw [run]
        have shifted : (∀ i < (a :: artifacts).length, b.appended (t.appends + i) = .ok) ↔
            ∀ i < artifacts.length, b.appended (u.appends + i) = .ok := by
          rw [appends]
          constructor
          · intro all i hi
            rw [Nat.add_assoc, Nat.add_comm 1 i]
            exact all (i + 1) (Nat.succ_lt_succ hi)
          · rintro all (_ | i) hi
            · exact written
            · rw [Nat.add_comm i 1, ← Nat.add_assoc]
              exact all i (Nat.lt_of_succ_lt_succ hi)
        rw [shifted]
        refine (ih u job').imp ?_ id
        rintro ⟨all, job'', v, run', appends'⟩
        refine ⟨all, job'', v, run', ?_⟩
        rw [appends', appends, List.length_cons]
        omega
      · rw [run]
        exact .inr ⟨fun all => lost (all 0 (Nat.zero_lt_succ _)), u, rfl⟩

theorem exec_transition (state : JobState) :
    (b.saved t.saves = true ∧ ∃ job' u, (transition job state).exec b.serve t = (.ok job', u) ∧
        job'.collects = job.collects ∧ u.appends = t.appends) ∨
      b.saved t.saves = false ∧ ∃ u, (transition job state).exec b.serve t = (.error (), u) := by
  cases written : b.saved t.saves with
  | true =>
      refine .inl ⟨rfl, ?_⟩
      simp only [transition, save, Prog.call_bind, Prog.ask_bind, Prog.exec, Rest.serve, written]
      exact ⟨_, _, rfl, rfl, rfl⟩
  | false =>
      refine .inr ⟨rfl, ?_⟩
      simp only [transition, save, Prog.call_bind, Prog.ask_bind, Prog.exec, Rest.serve, written]
      exact ⟨_, rfl⟩

variable {b t job}

theorem leaves_finish_events (o : Outcome) : (b.leaves (finish job o) t).2.1 =
    if b.appended t.appends = .failed then t.events else t.events ++ [EventKind.done o] := by
  cases written : b.appended t.appends <;> cases saved : b.saved t.saves <;>
    simp [Rest.leaves, finish, emit, transition, save, Prog.exec, Rest.serve, written, saved,
      Prog.pure_eq]

theorem leaves_finish_lost (o : Outcome) (lost : b.appended t.appends = .failed) :
    b.leaves (finish job o) t = (.error (), t.events, t.records) := by
  simp [Rest.leaves, finish, emit, Prog.exec, Rest.serve, lost]

/-- Two ends leave the same just if they are the same, or the last event is not written. -/
theorem leaves_finish_iff (o o' : Outcome) :
    b.leaves (finish job o) t = b.leaves (finish job o') t ↔
      o = o' ∨ b.appended t.appends = .failed := by
  constructor
  · intro same
    by_cases lost : b.appended t.appends = .failed
    · exact .inr lost
    · have events := congrArg (·.2.1) same
      simp only [leaves_finish_events, lost, if_false, List.append_cancel_left_eq, List.cons.injEq,
        EventKind.done.injEq, and_true] at events
      exact .inl events
  · rintro (rfl | lost)
    · rfl
    · rw [leaves_finish_lost o lost, leaves_finish_lost o' lost]

theorem leaves_bind {α : Type} (p : Proc α) (f : α → Proc Outcome) {a : α} {u : Tally}
    (run : p.exec b.serve t = (.ok a, u)) : b.leaves (p >>= f) t = b.leaves (f a) u := by
  simp only [Rest.leaves, Prog.exec_bind, run]

theorem leaves_bind_stop {α : Type} (p : Proc α) (f g : α → Proc Outcome) {u : Tally}
    (run : p.exec b.serve t = (.error (), u)) : b.leaves (p >>= f) t = b.leaves (p >>= g) t := by
  simp only [Rest.leaves, Prog.exec_bind, run]

theorem leaves_call (q : Ask) (f : Answer q → Proc Outcome) :
    b.leaves (call q >>= f) t = b.leaves (f (b.serve t q).1) (b.serve t q).2 := rfl

variable {ctx : Ctx} {worktree : String}

theorem collection_congr {job' : JobRecord} (same : job'.collects = job.collects) :
    b.collection ctx job' worktree = b.collection ctx job worktree := by
  obtain ⟨id, rest⟩ := Prod.mk.inj same
  obtain ⟨spec, before⟩ := Prod.mk.inj rest
  simp only [Rest.collection, id, spec, before]

/-- The one check a resumed collection does not make. -/
theorem leaves_collecting_iff (code : Int32) (verdict : Option Verdict) :
    b.leaves (collecting ctx job worktree code verdict) t =
        b.leaves (resumedCollecting ctx job worktree code verdict) t ↔
      ¬b.UnrecordedFrom (b.collection ctx job worktree) t.appends t.saves code := by
  unfold collecting resumedCollecting
  obtain ⟨saved, job', u, run, same, appends⟩ | ⟨lost, u, run⟩ :=
    exec_transition b t job .collecting
  · rw [leaves_bind _ _ run, leaves_bind _ _ run, leaves_call, leaves_call,
      ← collection_congr same]
    simp only [Rest.UnrecordedFrom, firstPath, Rest.serve, saved, true_and, Rest.collection]
    cases collected : b.collected worktree job'.spec.gate.text job'.recordsBefore
        (ctx.artifactsDir job'.id) with
    | error e => exact iff_of_true rfl (by rintro ⟨_, _, ⟨⟩, _⟩)
    | ok artifacts =>
        simp only [Except.ok.injEq, exists_eq_left', ← appends]
        obtain ⟨all, job, v, run, appends⟩ | ⟨lost, v, run⟩ :=
          exec_emitArtifacts b u job' artifacts
        · rw [leaves_bind _ _ run, leaves_bind _ _ run, ← appends]
          by_cases missing : code = 0 ∧
              (artifacts.find? (·.kind = .record)).map (·.relativePath) = none
          · rw [if_pos missing, leaves_finish_iff]
            simp only [missing, reduceCtorEq, false_or, true_and, ne_eq]
            exact (not_and_not_right.trans (imp_iff_right all)).symm
          · rw [if_neg missing]
            exact iff_of_true rfl fun h => missing ⟨h.1, h.2.1⟩
        · exact iff_of_true (leaves_bind_stop _ _ _ run) fun h => lost h.2.2.1
  · exact iff_of_true (leaves_bind_stop _ _ _ run) fun unrecorded => by
      rw [unrecorded.2.1] at lost
      cases lost

variable (job) in
/-- The two waits for one child, of which the first has kept its argv. -/
theorem leaves_waiting_iff (child : ChildHandle) (argv : List String) :
    b.leaves (waiting ctx job (b.worktree job.spec.sha) child
          (plan ctx job (b.worktree job.spec.sha) argv)) .start =
        b.leaves (resumedWaiting ctx job (b.worktree job.spec.sha) child
          (plan ctx job (b.worktree job.spec.sha) [])) .start ↔
      ¬b.Unrecorded ctx job child := by
  have served (argv : List String) :
      b.serve .start (.wait child (plan ctx job (b.worktree job.spec.sha) argv)) =
        (b.watch ctx job child, .start) := rfl
  unfold waiting resumedWaiting
  rw [leaves_call, leaves_call, served, served]
  simp only [Rest.Unrecorded]
  generalize b.watch ctx job child = watched
  obtain ⟨t, run, appends, saves⟩ := exec_report b .start watched.reports
  rw [leaves_bind _ _ run, leaves_bind _ _ run, leaves_call, leaves_call]
  cases ended : watched.ended with
  | error e => exact iff_of_true rfl fun ⟨_, _, exited, _⟩ => nomatch exited
  | ok ending =>
      cases ending with
      | exited code verdict =>
          simp only [Except.ok.injEq, RunEnd.exited.injEq, and_assoc, exists_and_left,
            exists_eq_left']
          rw [show watched.reports.length = t.appends by
            rw [appends, show Tally.start.appends = 0 from rfl, Nat.zero_add],
            show (0 : Nat) = t.saves from saves.symm]
          cases verdict with
          | none => exact (leaves_collecting_iff code none).trans (not_congr (by
              simp [Rest.serve, Rest.collection]))
          | some v =>
              simp only [Option.toList_some, List.length_singleton, Nat.lt_one_iff, forall_eq,
                Nat.add_zero]
              obtain ⟨written, job', u, run, same, appends, saves⟩ | ⟨lost, u, run⟩ :=
                exec_emit b (b.serve t .seqHigh).2 { job with seqHigh := b.high t.highs } (.verdict v)
              · refine (iff_of_eq (congrArg₂ _ (leaves_bind _ _ run) (leaves_bind _ _ run))).trans
                  ((leaves_collecting_iff code (some v)).trans (not_congr ?_))
                rw [appends, saves, collection_congr same]
                exact (and_iff_right written).symm
              · exact iff_of_true (leaves_bind_stop _ _ _ run) fun h => lost h.1
      | stalled _ => exact iff_of_true rfl fun ⟨_, _, exited, _⟩ => nomatch exited
      | timedOut _ => exact iff_of_true rfl fun ⟨_, _, exited, _⟩ => nomatch exited
      | cancelled => exact iff_of_true rfl fun ⟨_, _, exited, _⟩ => nomatch exited

end Pieces

/-- Resuming a spawned child leaves what running it on would leave, in events, in records
and in its outcome, unless the child exits well with no record: only a run that goes on
asks for one. The wait is for the same process under the same limits, and the collection
of the same gate over the same snapshot into the same place. -/
theorem resumed_as_run_iff (ctx : Ctx) (job : JobRecord) (child : ChildHandle)
    (argv : List String) (high : UInt64) (b : Rest) :
    b.leaves (waiting ctx { job with
        childPid := some child.pid, childStartTicks := some child.startTicks, seqHigh := high }
        (b.worktree job.spec.sha) child (plan ctx job (b.worktree job.spec.sha) argv)) .start =
      b.leaves (resumeRunning ctx { job with
        childPid := some child.pid, childStartTicks := some child.startTicks }) .start ↔
      ¬b.Unrecorded ctx job child := by
  exact leaves_waiting_iff { job with
    childPid := some child.pid, childStartTicks := some child.startTicks } child argv

/-- The child exits 0 and leaves nothing. -/
def bare : Rest where
  worktree := fun _ => "w"
  watched := fun _ _ => ⟨[], .ok (.exited 0 none)⟩
  collected := fun _ _ _ _ => .ok []
  appended := fun _ => .ok
  saved := fun _ => true
  clock := fun _ => 0
  high := fun _ => 0

theorem resumed_without_record :
    let job := { queuedUnder ⟨"k", by decide⟩ with childPid := some 1, childStartTicks := some 1 }
    (bare.leaves (waiting plainCtx job "w" ⟨1, 1⟩ (Machine.plan plainCtx job "w" [])) .start).1 =
        .ok (.failed .collecting "the child exited 0 but wrote no gate record") ∧
      (bare.leaves (resumeRunning plainCtx job) .start).1 = .ok (.completed 0 none none none) :=
  ⟨rfl, rfl⟩

end Bench
end Metralectl
