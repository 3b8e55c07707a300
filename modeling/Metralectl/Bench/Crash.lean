import Metralectl.Bench.Machine
import Metralectl.Library.Runs

/-!
One job under an agent that may die at any question of its procedure and is started again:
how many ends its journal gets.
-/
namespace Metralectl
namespace Bench
open Programs Runs

/-- A job on disk: its record, and the events of its journal. -/
structure JobFiles where
  record : JobRecord
  journal : List EventKind
deriving DecidableEq

namespace JobFiles

/-- What is on disk once a question is answered. -/
def after (d : JobFiles) : (q : Ask) → Answer q → JobFiles
  | .append kind _, .ok | .append kind _, .unsynced => { d with journal := d.journal ++ [kind] }
  | .save job, true => { d with record := job }
  | _, _ => d

def dones (d : JobFiles) : Nat := d.journal.countP EventKind.isDone

/-- The journal's last event is its one end, and it is the record's. -/
def OneOutcome (d : JobFiles) : Prop :=
  ∃ (pre : List EventKind) (outcome : Outcome),
    d.journal = pre ++ [EventKind.done outcome] ∧ (∀ k ∈ pre, k.isDone = false) ∧
    d.record.outcome = some outcome

/-- An end is journaled and the record does not know. -/
def Torn (d : JobFiles) : Prop := d.record.state ≠ .done ∧ ∃ k ∈ d.journal, k.isDone = true

end JobFiles

/-- The agent, and what it is doing about the job. -/
structure Agent where
  files : JobFiles
  work : Option (Proc Outcome)

inductive Turn where
  | start (ctx : Ctx)
  | answer (oracle : (q : Ask) → Answer q)
  | leave

namespace Agent
open Machine

/-- What an agent that finds the job comes to do about it. -/
def life (ctx : Ctx) (job : JobRecord) : Option (Proc Outcome) :=
  if job.state = .queued then some (run ctx job) else recover ctx job

/-- The agent leaves the job where its procedure is over, and where the agent dies. -/
def step (a : Agent) : Turn → Option Agent
  | .start ctx =>
      match a.work with
      | none => (life ctx a.files.record).map fun p => { a with work := some p }
      | some _ => none
  | .answer oracle =>
      match a.work with
      | some (.ask q k) => some ⟨a.files.after q (oracle q), some (k (oracle q))⟩
      | _ => none
  | .leave => a.work.map fun _ => { a with work := none }

/-- The agent does not leave a job whose end is journaled and not recorded. -/
def Whole (a : Agent) : Turn → Prop
  | .leave => ¬a.files.Torn
  | _ => True

end Agent

section Lives
open Machine JobFiles

/-- The surroundings of one life: any answer, and what it leaves on disk. -/
def disk : Surroundings JobFiles Ask Answer := fun d q a t => t = d.after q a

/-- Not over, with so many ends journaled. -/
def Open (n : Nat) (d : JobFiles) : Prop := d.record.state ≠ .done ∧ d.dones = n

/-- Not over, with an end more at most. -/
def Ending (n : Nat) (d : JobFiles) : Prop :=
  d.record.state ≠ .done ∧ (d.dones = n ∨ d.dones = n + 1)

/-- Over, with one end more, the last event and the record's. -/
def Over (n : Nat) (outcome : Outcome) (d : JobFiles) : Prop :=
  d.record.state = .done ∧ d.record.outcome = some outcome ∧
    ∃ pre : List EventKind,
      d.journal = pre ++ [EventKind.done outcome] ∧ pre.countP EventKind.isDone = n

abbrev Brings (n : Nat) : Proc Outcome → JobFiles → Prop :=
  Always disk (fun d _ => Ending n d) (Over n) (fun _ => Ending n)

theorem after_silent {d : JobFiles} {q : Ask} (silent : q.writes = false) (a : Answer q) :
    d.after q a = d := by
  cases q with
  | append _ _ => cases silent
  | save _ => cases silent
  | _ => rfl

theorem Open.ending {n : Nat} {d : JobFiles} (h : Open n d) : Ending n d := ⟨h.1, .inl h.2⟩

theorem Open.after_event {n : Nat} {d : JobFiles} {kind : EventKind} {atMs : UInt64}
    (plain : kind.isDone = false) (h : Open n d) (a : Appended) :
    Open n (d.after (.append kind atMs) a) := by
  have counted : (d.journal ++ [kind]).countP EventKind.isDone = n := by
    rw [List.countP_append, List.countP_singleton, plain]
    exact h.2
  cases a with
  | ok => exact ⟨h.1, counted⟩
  | unsynced => exact ⟨h.1, counted⟩
  | failed => exact h

theorem brings_finish {n : Nat} {d : JobFiles} (job : JobRecord) (outcome : Outcome)
    (h : Open n d) : Brings n (finish job outcome) d := by
  have counted : (d.journal ++ [EventKind.done outcome]).countP EventKind.isDone = n + 1 := by
    rw [List.countP_append]
    exact congrArg (· + 1) h.2
  refine ⟨h.ending, fun now d' served => ?_⟩
  rw [served]
  refine ⟨h.ending, ?_⟩
  rintro (_ | _ | _) d' rfl
  · refine ⟨⟨h.1, .inr counted⟩, fun high d' served => ?_⟩
    rw [served]
    refine ⟨⟨h.1, .inr counted⟩, fun now d' served => ?_⟩
    rw [served]
    refine ⟨⟨h.1, .inr counted⟩, fun high d' served => ?_⟩
    rw [served]
    refine ⟨⟨h.1, .inr counted⟩, ?_⟩
    rintro (_ | _) d' rfl
    · exact ⟨h.1, .inr counted⟩
    · exact ⟨rfl, rfl, d.journal, rfl, h.2⟩
  · exact ⟨h.1, .inr counted⟩
  · exact h.ending

/-- A life that begins with so many ends journaled, and none recorded, brings one more. -/
theorem brings_of_lives {n : Nat} {p : Proc Outcome} {d : JobFiles}
    {sub : JobId × JobKey × NodeId × JobSpec × Option String × Nat} (lives : Lives sub p)
    (h : Open n d) : Brings n p d := by
  induction lives generalizing d with
  | look silent _ ih =>
      refine ⟨h.ending, fun a d' served => ?_⟩
      rw [served, after_silent silent]
      exact ih a h
  | event plain _ stops ih =>
      refine ⟨h.ending, fun a d' served => ?_⟩
      rw [served]
      by_cases ok : a = .ok
      · rw [ok]
        exact ih (h.after_event plain .ok)
      · rw [stops a ok]
        exact (h.after_event plain a).ending
  | report plain _ ih =>
      refine ⟨h.ending, fun a d' served => ?_⟩
      rw [served]
      exact ih a (h.after_event plain a)
  | record _ _ unfinished _ stops ih =>
      refine ⟨h.ending, ?_⟩
      rintro (_ | _) d' rfl
      · rw [stops]
        exact h.ending
      · exact ih ⟨unfinished, h.2⟩
  | over_ _ => exact brings_finish _ _ h

theorem lives_life {ctx : Ctx} {job : JobRecord} {p : Proc Outcome}
    (h : Agent.life ctx job = some p) : Lives job.submission p := by
  unfold Agent.life at h
  split at h
  · cases h
    exact lives_run ctx rfl
  · exact lives_recover ctx rfl h

/-- What there is to do about a job that is not over. -/
theorem life_of_open {ctx : Ctx} {job : JobRecord} (h : job.state ≠ .done) :
    ∃ p, Agent.life ctx job = some p := by
  unfold Agent.life recover
  cases state : job.state with
  | done => exact absurd state h
  | _ => exact ⟨_, rfl⟩

theorem life_of_done {ctx : Ctx} {job : JobRecord} (h : job.state = .done) :
    Agent.life ctx job = none := by
  unfold Agent.life recover
  simp [h]

end Lives

section Standings
open JobFiles Agent
variable {a b : Agent} {turn : Turn} {n : Nat}

/-- Where the agent stands that left the job so many times between its end and its record. -/
def Standing (n : Nat) (a : Agent) : Prop :=
  match a.work with
  | none => Open n a.files ∨ ∃ outcome, Over n outcome a.files
  | some p => Brings n p a.files

theorem standing_left (h : Ending n a.files) : ∃ m, Standing m { a with work := none } ∧
    (m = 0 ↔ n = 0 ∧ ¬a.files.Torn) := by
  have torn : a.files.Torn ↔ 0 < a.files.dones := by
    rw [Torn, dones, List.countP_pos_iff]
    exact ⟨fun h => h.2, fun found => ⟨h.1, found⟩⟩
  rw [torn]
  obtain ⟨unfinished, counted | counted⟩ := h
  · exact ⟨n, .inl ⟨unfinished, counted⟩, by omega⟩
  · exact ⟨n + 1, .inl ⟨unfinished, counted⟩, by omega⟩

theorem standing_step (h : Standing n a) (hstep : a.step turn = some b) :
    ∃ m, Standing m b ∧ (m = 0 ↔ n = 0 ∧ a.Whole turn) := by
  cases turn with
  | start ctx =>
      unfold Agent.step at hstep
      unfold Standing at h
      cases work : a.work with
      | some p =>
          rw [work] at hstep
          cases hstep
      | none =>
          rw [work] at hstep h
          obtain ⟨p, life, rfl⟩ := Option.map_eq_some_iff.mp hstep
          refine ⟨n, ?_, by simp [Whole]⟩
          cases h with
          | inl unfinished => exact brings_of_lives (lives_life life) unfinished
          | inr over_ =>
              obtain ⟨outcome, over_⟩ := over_
              rw [life_of_done over_.1] at life
              cases life
  | answer oracle =>
      simp only [Agent.step] at hstep
      unfold Standing at h
      split at hstep
      · next q k work =>
          rw [work] at h
          cases hstep
          exact ⟨n, h.step rfl, by simp [Whole]⟩
      · cases hstep
  | leave =>
      obtain ⟨p, work, rfl⟩ := Option.map_eq_some_iff.mp hstep
      unfold Standing at h
      rw [work] at h
      cases p with
      | ret outcome =>
          have whole : ¬a.files.Torn := fun torn => torn.1 h.1
          exact ⟨n, .inr ⟨outcome, h⟩, by simp [Whole, whole]⟩
      | stop _ => exact standing_left h
      | ask q k => exact standing_left h.1

/-- Over every run, the count is zero in those alone whose steps all meet the condition. -/
theorem standing_run {start t : Agent} {turns : List Turn} (first : Standing 0 start)
    (run : Run Agent.step Free start turns t) :
    ∃ n, Standing n t ∧ (n = 0 ↔ Run Agent.step Whole start turns t) := by
  refine Path.history (H := fun turns t =>
    ∃ n, Standing n t ∧ (n = 0 ↔ Run Agent.step Whole start turns t)) run
    ⟨0, first, ⟨fun _ => .nil start, fun _ => rfl⟩⟩ ?_
  rintro pre m turn b before ⟨n, stands, whole⟩ ⟨_, hstep⟩
  obtain ⟨n', stands', kept⟩ := standing_step stands hstep
  refine ⟨n', stands', kept.trans ⟨?_, ?_⟩⟩
  · rintro ⟨zero, guard⟩
    exact (whole.mp zero).append (.cons ⟨guard, hstep⟩ (.nil b))
  · intro longer
    obtain ⟨m', first, last⟩ := Run.split longer
    obtain rfl := Run.deterministic before first
    cases last with
    | cons guarded _ => exact ⟨whole.mpr first, guarded.1⟩

theorem over_of_done (h : Standing n a) (done : a.files.record.state = .done) :
    ∃ outcome, Over n outcome a.files := by
  unfold Standing at h
  split at h
  · cases h with
    | inl unfinished => exact absurd done unfinished.1
    | inr over_ => exact over_
  · next p _ =>
      cases p with
      | ret outcome => exact ⟨outcome, h⟩
      | stop _ => exact absurd done h.1
      | ask q k => exact absurd done h.1.1

theorem Over.oneOutcome_iff {outcome : Outcome} {d : JobFiles} (h : Over n outcome d) :
    d.OneOutcome ↔ n = 0 := by
  obtain ⟨_, recorded, pre, journal, counted⟩ := h
  constructor
  · rintro ⟨pre', outcome', journal', plain, _⟩
    have same : pre = pre' := (List.append_inj' (journal.symm.trans journal') rfl).1
    rw [← counted, same]
    exact List.countP_eq_zero.mpr fun k hk => by simp [plain k hk]
  · intro zero
    refine ⟨pre, outcome, journal, fun k hk => ?_, recorded⟩
    have none_ := List.countP_eq_zero.mp (counted.trans zero) k hk
    simpa using none_

end Standings

section Ends
open Machine
variable {a : Agent} {oracle : (q : Ask) → Answer q}

/-- Every write succeeds. -/
def Obliging (oracle : (q : Ask) → Answer q) : Prop :=
  (∀ kind atMs, oracle (.append kind atMs) = .ok) ∧ ∀ job, oracle (.save job) = true

/-- A life comes to its end, as long as it can write. -/
theorem lives_end {sub : JobId × JobKey × NodeId × JobSpec × Option String × Nat}
    {p : Proc Outcome} (lives : Lives sub p) (obliging : Obliging oracle) (d : JobFiles) :
    ∃ n u outcome, Run Agent.step Free ⟨d, some p⟩ (List.replicate n (.answer oracle)) u ∧
      u.work = some (.ret outcome) := by
  have more {q : Ask} {k : Answer q → Proc Outcome} {d : JobFiles}
      (rest : ∀ d, ∃ n u outcome, Run Agent.step Free ⟨d, some (k (oracle q))⟩
        (List.replicate n (.answer oracle)) u ∧ u.work = some (.ret outcome)) :
      ∃ n u outcome, Run Agent.step Free ⟨d, some (.ask q k)⟩
        (List.replicate n (.answer oracle)) u ∧ u.work = some (.ret outcome) := by
    obtain ⟨n, u, outcome, run, over_⟩ := rest (d.after q (oracle q))
    exact ⟨n + 1, u, outcome, .cons ⟨trivial, rfl⟩ run, over_⟩
  induction lives generalizing d with
  | look _ _ ih => exact more fun d => ih _ d
  | event _ _ _ ih =>
      refine more fun d => ?_
      rw [obliging.1]
      exact ih d
  | report _ _ ih => exact more fun d => ih _ d
  | record _ _ _ _ _ ih =>
      refine more fun d => ?_
      rw [obliging.2]
      exact ih d
  | over_ _ =>
      refine more fun d => more fun d => ?_
      rw [obliging.1]
      refine more fun d => more fun d => more fun d => more fun d => ?_
      rw [obliging.2]
      exact ⟨0, _, _, .nil _, rfl⟩

end Ends

/-- A job that is not over can always be brought to its end; once it is over its journal
holds the one outcome of its record just if the agent never left it between its end and its
record. -/
theorem one_outcome_across_crashes {start t : Agent} {turns : List Turn}
    (idle : start.work = none) (unfinished : start.files.record.state ≠ .done)
    (endless : ∀ k ∈ start.files.journal, k.isDone = false)
    (run : Run Agent.step Free start turns t) :
    (t.work = none → t.files.record.state ≠ .done → ∀ ctx oracle, Obliging oracle →
      ∃ n u outcome, Run Agent.step Free t (.start ctx :: List.replicate n (.answer oracle)) u ∧
        u.work = some (.ret outcome)) ∧
    (t.files.record.state = .done →
      (t.files.OneOutcome ↔ Run Agent.step Agent.Whole start turns t)) := by
  constructor
  · intro waits waiting ctx oracle obliging
    obtain ⟨p, life⟩ := @life_of_open ctx _ waiting
    obtain ⟨n, u, outcome, ends, over_⟩ := lives_end (lives_life life) obliging t.files
    refine ⟨n, u, outcome, .cons ⟨trivial, ?_⟩ ends, over_⟩
    rw [Agent.step, waits, life]
    rfl
  · intro done
    have first : Standing 0 start := by
      unfold Standing
      rw [idle]
      refine .inl ⟨unfinished, List.countP_eq_zero.mpr fun k hk => ?_⟩
      simp [endless k hk]
    obtain ⟨n, stands, whole⟩ := standing_run first run
    obtain ⟨outcome, over_⟩ := over_of_done stands done
    exact over_.oneOutcome_iff.trans whole

section Instances
open JobFiles

instance (d : JobFiles) : Decidable d.Torn :=
  inferInstanceAs (Decidable (d.record.state ≠ .done ∧ ∃ k ∈ d.journal, k.isDone = true))

instance (a : Agent) : (turn : Turn) → Decidable (a.Whole turn)
  | .leave => inferInstanceAs (Decidable ¬a.files.Torn)
  | .start _ | .answer _ => .isTrue trivial

/-- The agent has just queued a job. -/
def queuedAgent : Agent := ⟨⟨queuedUnder ⟨"k", k_accepted⟩, [.queued 1]⟩, none⟩

/-- The agent dies while the job is prepared, and the one started after it ends the job. -/
def untilDone : List Turn :=
  Turn.start plainCtx :: List.replicate 4 (Turn.answer unreadable) ++ Turn.leave ::
    Turn.start plainCtx :: List.replicate 6 (Turn.answer unreadable)

theorem one_outcome_when_kept : ∃ t, Run Agent.step Free queuedAgent untilDone t ∧
    t.files.OneOutcome := by
  have ends : (replay Agent.step Agent.Whole queuedAgent untilDone).map (·.files.record.state) =
      some .done := by decide +kernel
  obtain ⟨t, whole, done⟩ := Option.map_eq_some_iff.mp ends
  have run : Run Agent.step Agent.Whole queuedAgent untilDone t := Run.of_replay whole
  exact ⟨t, run.free, ((one_outcome_across_crashes rfl (by decide) (by decide) run.free).2 done).mpr run⟩

/-- The agent dies after the end is journaled; the one started after it journals another. -/
def dyingTurns : List Turn :=
  Turn.start plainCtx :: List.replicate 6 (Turn.answer unreadable) ++ Turn.leave ::
    Turn.start plainCtx :: List.replicate 6 (Turn.answer unreadable)

theorem crash_before_record_ends_twice : ∃ t, Run Agent.step Free queuedAgent dyingTurns t ∧
    t.files.record.state = .done ∧ ¬t.files.OneOutcome := by
  have ends : (replay Agent.step Free queuedAgent dyingTurns).map
      (fun t => (t.files.record.state, t.files.dones)) = some (.done, 2) := by decide +kernel
  obtain ⟨t, run, files⟩ := Option.map_eq_some_iff.mp ends
  refine ⟨t, Run.of_replay run, congrArg Prod.fst files, ?_⟩
  rintro ⟨pre, outcome, journal, plain, _⟩
  have twice : t.files.dones = 2 := congrArg Prod.snd files
  rw [dones, journal, List.countP_append,
    List.countP_eq_zero.mpr fun k hk => by simp [plain k hk]] at twice
  exact absurd twice (by simp [EventKind.isDone])

end Instances

end Bench
end Metralectl
