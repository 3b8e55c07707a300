import Metralectl.Cluster.Phases

/-!
One cluster per head. `prepare` refuses while something is recorded, but tests
that once, and a commit stores what it started without looking again. The slot
holds one cluster at a time in the runs whose commits take their prepare while
no other commit and no teardown is under way and nothing is recorded.
-/
namespace Metralectl
namespace Cluster
open Runs Interleaving

/-- One step of a run keeps to one cluster: what stores finds the slot empty, and
while a rank may start no committed cluster waits to be stopped. -/
structure OneAt (p q : State) : Prop where
  stores : q.shared.committed ≠ p.shared.committed → p.shared.running = none
  starts : ∀ cluster pending done target rest started,
    Task.starting cluster pending done target rest started ∈ q.tasks →
    q.shared.running = none ∧ q.shared.unstopped = []

def OneCluster (settleSecs : Nat) (as : List Action) : Prop :=
  ∀ pre a post p q, as = pre ++ a :: post →
    Run (driver settleSecs).step Free idle pre p → (driver settleSecs).step p a = some q →
    OneAt p q

/-- A commit takes its prepare while nothing is recorded and neither another
commit nor a teardown is under way. -/
def Alone (p : State) (a : Action) : Prop :=
  Takes p a → p.shared.running = none ∧
    p.Idle (fun t => t.phase.Committing) ∧ p.Idle (fun t => t.phase.Stopping)

instance (p : State) (a : Action) : Decidable (Alone p a) :=
  inferInstanceAs (Decidable (_ → _))

def AloneIn (p : Phases) : Prop :=
  p.shared.running = none ∧ p.Idle Phase.Committing ∧ p.Idle Phase.Stopping

/-- The slot and the calls around it, when there is one cluster at a time. -/
structure Single (p : Phases) : Prop where
  /-- At most one commit is under way. -/
  one : ∀ (i j : Nat) c d, p.tasks[i]? = some (.committing c) →
    p.tasks[j]? = some (.committing d) → i = j
  /-- It is so on an empty slot, no teardown beside it. -/
  alone : ∀ (i : Nat) c, p.tasks[i]? = some (.committing c) →
    p.shared.running = none ∧ ∀ (j : Nat) seen d, p.tasks[j]? ≠ some (.stopping seen d)
  /-- What was committed and not stopped is recorded. -/
  kept : ∀ c ∈ p.shared.unstopped, ∃ r, p.shared.running = some r ∧ r.cluster = c
  /-- Teardowns are of what is recorded, if anything is, -/
  same : ∀ (i : Nat) seen d, p.tasks[i]? = some (.stopping seen d) →
    ∀ r, p.shared.running = some r → r.cluster = d
  /-- and all of one cluster. -/
  agree : ∀ (i j : Nat) seen seen' d d', p.tasks[i]? = some (.stopping seen d) →
    p.tasks[j]? = some (.stopping seen' d') → d = d'

namespace Single
variable {p q : Phases}

theorem unstopped_nil (hp : Single p) (empty : p.shared.running = none) :
    p.shared.unstopped = [] := by
  apply List.eq_nil_iff_forall_not_mem.mpr
  intro c hc
  obtain ⟨r, held, _⟩ := hp.kept c hc
  rw [empty] at held
  cases held

/-- A step that leaves the slot alone and begins neither a commit nor a teardown. -/
theorem quiet (hp : Single p) (running : q.shared.running = p.shared.running)
    (unstopped : q.shared.unstopped = p.shared.unstopped)
    (committing : ∀ (i : Nat) c, q.tasks[i]? = some (.committing c) →
      p.tasks[i]? = some (.committing c))
    (stopping : ∀ (i : Nat) seen d, q.tasks[i]? = some (.stopping seen d) →
      p.tasks[i]? = some (.stopping seen d)) : Single q := by
  refine ⟨?_, ?_, ?_, ?_, ?_⟩
  · intro i j c d hi hj
    exact hp.one i j c d (committing i c hi) (committing j d hj)
  · intro i c hi
    obtain ⟨empty, free⟩ := hp.alone i c (committing i c hi)
    exact ⟨running.trans empty, fun j seen d hj => free j seen d (stopping j seen d hj)⟩
  · rw [running, unstopped]
    exact hp.kept
  · intro i seen d hi
    rw [running]
    exact hp.same i seen d (stopping i seen d hi)
  · intro i j seen seen' d d' hi hj
    exact hp.agree i j seen seen' d d' (stopping i seen d hi) (stopping j seen' d' hj)

/-- The resumed call goes on in its phase or leaves it for one that is neither. -/
theorem set (hp : Single p) {i : Nat} {ph ph' : Phase} {s : Shared}
    (at_ : p.tasks[i]? = some ph) (running : s.running = p.shared.running)
    (unstopped : s.unstopped = p.shared.unstopped)
    (phase : ph' = ph ∨ ¬ ph'.Committing ∧ ¬ ph'.Stopping) :
    Single ⟨s, p.tasks.set i ph'⟩ := by
  apply hp.quiet running unstopped
  · intro j c hj
    rcases task_of_set hj with ⟨rfl, new⟩ | ⟨_, old⟩
    · cases phase with
      | inl same => rw [at_, ← same, new]
      | inr leaves => exact absurd ⟨c, new.symm⟩ leaves.1
    · exact old
  · intro j seen d hj
    rcases task_of_set hj with ⟨rfl, new⟩ | ⟨_, old⟩
    · cases phase with
      | inl same => rw [at_, ← same, new]
      | inr leaves => exact absurd ⟨seen, d, new.symm⟩ leaves.2
    · exact old

/-- The commit under way stores: nothing else is. -/
theorem store (hp : Single p) {i c : Nat} {r : Running} (at_ : p.tasks[i]? = some (.committing c)) :
    Single ⟨p.shared.store c r, p.tasks.set i .other⟩ := by
  obtain ⟨empty, free⟩ := hp.alone i c at_
  have uncommitting {j d : Nat} (hj : (p.tasks.set i .other)[j]? = some (Phase.committing d)) :
      False := by
    rcases task_of_set hj with ⟨_, new⟩ | ⟨away, old⟩
    · cases new
    · exact away (hp.one j i d c old at_)
  have unstopping {j d : Nat} {seen : List Nat}
      (hj : (p.tasks.set i .other)[j]? = some (Phase.stopping seen d)) : False := by
    rcases task_of_set hj with ⟨_, new⟩ | ⟨_, old⟩
    · cases new
    · exact free j seen d old
  refine ⟨?_, ?_, ?_, ?_, ?_⟩
  · intro j k d e hj
    exact (uncommitting hj).elim
  · intro j d hj
    exact (uncommitting hj).elim
  · intro d hd
    simp only [Shared.store, hp.unstopped_nil empty, List.mem_singleton] at hd
    exact ⟨⟨c, r⟩, rfl, hd.symm⟩
  · intro j seen d hj
    exact (unstopping hj).elim
  · intro j k seen seen' d d' hj
    exact (unstopping hj).elim

/-- A teardown replaces the record: it is of the same cluster, or gone. -/
theorem close (hp : Single p) {i c : Nat} {seen : List Nat} {slot : Option Running}
    (at_ : p.tasks[i]? = some (.stopping seen c)) :
    Single ⟨p.shared.close seen c slot, p.tasks.set i .other⟩ := by
  have stopping {j d : Nat} {seen' : List Nat}
      (hj : (p.tasks.set i .other)[j]? = some (Phase.stopping seen' d)) :
      p.tasks[j]? = some (.stopping seen' d) := by
    rcases task_of_set hj with ⟨_, new⟩ | ⟨_, old⟩
    · cases new
    · exact old
  have uncommitting {j d : Nat} (hj : (p.tasks.set i .other)[j]? = some (Phase.committing d)) :
      False := by
    rcases task_of_set hj with ⟨_, new⟩ | ⟨_, old⟩
    · cases new
    · exact (hp.alone j d old).2 i seen c at_
  have recorded {d : Nat} (hd : d ∈ p.shared.unstopped) : d = c := by
    obtain ⟨r, held, hr⟩ := hp.kept d hd
    exact hr.symm.trans (hp.same i seen c at_ r held)
  refine ⟨?_, ?_, ?_, ?_, ?_⟩
  · intro j k d e hj
    exact (uncommitting hj).elim
  · intro j d hj
    exact (uncommitting hj).elim
  · intro d hd
    cases slot with
    | none =>
        have left := List.mem_filter.mp hd
        exact absurd (recorded left.1) (by simpa using left.2)
    | some r => exact ⟨⟨c, r⟩, rfl, (recorded hd).symm⟩
  · intro j seen' d hj r held
    cases slot with
    | none => cases held
    | some r' =>
        cases held
        exact hp.agree i j seen seen' c d at_ (stopping hj)
  · intro j k seen' seen'' d d' hj hk
    exact hp.agree j k seen' seen'' d d' (stopping hj) (stopping hk)

theorem effect (hp : Single p) {i : Nat} {ph ph' : Phase} {s : Shared}
    (at_ : p.tasks[i]? = some ph) (h : Effect p.shared ph s ph') :
    Single ⟨s, p.tasks.set i ph'⟩ := by
  have neither : ¬ Phase.other.Committing ∧ ¬ Phase.other.Stopping := by simp
  cases h with
  | rest => exact hp.set at_ rfl rfl (Or.inr neither)
  | pend | undo | start | stop => exact hp.set at_ rfl rfl (Or.inl rfl)
  | store c r => exact hp.store at_
  | judge => exact hp.set at_ rfl rfl (Or.inr (by simp))
  | close seen c slot => exact hp.close at_
  | execute done =>
      refine hp.set at_ ?_ ?_ (Or.inl rfl)
      all_goals
        simp only [Shared.execute] at done
        split at done <;> cases done <;> rfl

/-- A call turns to stopping what the slot holds: no commit is under way. -/
theorem turn (hp : Single p) {q : Phases} {r : Record} (seen : List Nat)
    (held : p.shared.running = some r) (shared : q.shared = p.shared)
    (tasks : ∀ (i : Nat) ph, q.tasks[i]? = some ph →
      p.tasks[i]? = some ph ∨ ph = .stopping seen r.cluster) : Single q := by
  have uncommitting {i d : Nat} (hi : q.tasks[i]? = some (.committing d)) : False := by
    cases tasks i _ hi with
    | inl old =>
        have empty := (hp.alone i d old).1
        rw [held] at empty
        cases empty
    | inr new => cases new
  have of_recorded {i d : Nat} {seen' : List Nat} (hi : q.tasks[i]? = some (.stopping seen' d)) :
      d = r.cluster := by
    cases tasks i _ hi with
    | inl old => exact (hp.same i seen' d old r held).symm
    | inr new =>
        cases new
        rfl
  refine ⟨?_, ?_, ?_, ?_, ?_⟩
  · intro i j c d hi
    exact (uncommitting hi).elim
  · intro i d hi
    exact (uncommitting hi).elim
  · rw [shared]
    exact hp.kept
  · intro i seen' d hi r' held'
    rw [shared, held] at held'
    cases held'
    exact (of_recorded hi).symm
  · intro i j seen' seen'' d d' hi hj
    rw [of_recorded hi, of_recorded hj]

/-- A commit takes its prepare with nothing else under way. -/
theorem take (hp : Single p) (may : AloneIn p) :
    Single ⟨p.shared.take, p.tasks ++ [Phase.committing p.shared.clusters]⟩ := by
  obtain ⟨empty, uncommitting, unstopping⟩ := may
  have committing {i c : Nat}
      (hi : (p.tasks ++ [Phase.committing p.shared.clusters])[i]? = some (Phase.committing c)) :
      i = p.tasks.length := by
    rw [List.getElem?_append] at hi
    split at hi
    · exact absurd ⟨c, rfl⟩ (uncommitting _ (List.mem_of_getElem? hi))
    · have := (List.getElem?_eq_some_iff.mp hi).1
      simp only [List.length_singleton] at this
      omega
  have stopping {i c : Nat} {seen : List Nat}
      (hi : (p.tasks ++ [Phase.committing p.shared.clusters])[i]? = some (Phase.stopping seen c)) :
      False := by
    cases task_of_append hi with
    | inl old => exact unstopping _ (List.mem_of_getElem? old) ⟨seen, c, rfl⟩
    | inr new => cases new
  refine ⟨?_, ?_, ?_, ?_, ?_⟩
  · intro i j c d hi hj
    rw [committing hi, committing hj]
  · intro i c _
    exact ⟨empty, fun j seen d hj => stopping hj⟩
  · exact hp.kept
  · intro i seen d hi
    exact (stopping hi).elim
  · intro i j seen seen' d d' hi
    exact (stopping hi).elim

theorem step {stopping : Phases → List Nat → Prop} (hp : Single p)
    (h : Protocol AloneIn stopping p q) : Single q := by
  cases h with
  | call =>
      refine hp.quiet rfl rfl ?_ ?_
      · intro i c hi
        cases task_of_append hi with
        | inl old => exact old
        | inr new => cases new
      · intro i seen d hi
        cases task_of_append hi with
        | inl old => exact old
        | inr new => cases new
  | effect at_ effect => exact hp.effect at_ effect
  | take may => exact hp.take may
  | stop held may => exact hp.turn p.shared.committed held rfl fun i ph hi => task_of_append hi
  | @tear i seen r at_ held may =>
      refine hp.turn seen held rfl ?_
      intro j ph hj
      rcases task_of_set hj with ⟨_, new⟩ | ⟨_, old⟩
      · exact Or.inr new
      · exact Or.inl old

end Single

theorem single_idle : Single (phases idle) := by
  refine ⟨?_, ?_, ?_, ?_, ?_⟩
  all_goals simp [phases, idle, Pool.start]

theorem aloneIn_phases {p : State} {a : Action} (alone : Alone p a) (takes : Takes p a) :
    AloneIn (phases p) := by
  obtain ⟨empty, uncommitting, unstopping⟩ := alone takes
  exact ⟨empty, idle_phases uncommitting, idle_phases unstopping⟩

section Runs
variable {settleSecs : Nat} {p q : State} {as : List Action}

/-- By induction over the run, a segment at a time. -/
theorem run_single (run : Run (driver settleSecs).step Alone idle as p) : Single (phases p) := by
  have steps : Steps AloneIn (fun _ _ => True) (phases idle) (phases p) :=
    run_steps run (fun _ _ alone takes => aloneIn_phases alone takes) fun _ _ _ _ _ => trivial
  exact steps.invariant single_idle fun _ _ hp h => hp.step h

/-- Only a commit under way commits. -/
theorem Effects.committed {x y : Shared × Phase} (effects : Effects x y)
    (h : ¬ x.2.Committing) : y.1.committed = x.1.committed ∧ ¬ y.2.Committing := by
  induction effects with
  | refl => exact ⟨rfl, h⟩
  | @tail y z _ effect ih =>
      obtain ⟨same, uncommitting⟩ := ih
      obtain ⟨s, ph⟩ := y
      obtain ⟨t, ph'⟩ := z
      cases effect with
      | start c | store c => exact absurd ⟨c, rfl⟩ uncommitting
      | rest | judge | pend | undo | stop | close => exact ⟨same, by simp⟩
      | execute done =>
          refine ⟨Eq.trans ?_ same, by simp⟩
          simp only [Shared.execute] at done
          split at done <;> cases done <;> rfl

/-- What stores is a commit under way, or one that takes its prepare. -/
theorem stores_cases {a : Action} (h : (driver settleSecs).step p a = some q)
    (stores : q.shared.committed ≠ p.shared.committed) :
    Takes p a ∨ ∃ i : Nat, ∃ c, (phases p).tasks[i]? = some (.committing c) := by
  cases a with
  | enter c =>
      obtain ⟨s, t, he, rfl⟩ := Object.step_enter h
      rcases enter_cases he with effects | ⟨takes, _⟩ | ⟨r, _, _, effects⟩
      · exact absurd (effects.committed (by simp)).1 stores
      · exact Or.inl takes
      · exact absurd (effects.committed (by simp)).1 stores
  | resume i rep =>
      obtain ⟨t, s, t', ht, hr, rfl⟩ := Object.step_resume h
      have at_ : (phases p).tasks[i]? = some t.phase := by simp [phases, ht]
      rcases resume_cases ht hr with effects | ⟨seen, r, _, _, _, effects⟩
      · by_cases committing : t.phase.Committing
        · obtain ⟨c, hc⟩ := committing
          exact Or.inr ⟨i, c, by rw [at_, hc]⟩
        · exact absurd (effects.committed committing).1 stores
      · exact absurd (effects.committed (by simp)).1 stores

theorem one_at {a : Action} (hp : Single (phases p)) (hq : Single (phases q)) (alone : Alone p a)
    (h : (driver settleSecs).step p a = some q) : OneAt p q := by
  refine ⟨?_, ?_⟩
  · intro stores
    rcases stores_cases h stores with takes | ⟨i, c, committing⟩
    · exact (alone takes).1
    · exact (hp.alone i c committing).1
  · intro cluster pending done target rest started ht
    obtain ⟨i, hi⟩ := List.mem_iff_getElem?.mp ht
    have committing : (phases q).tasks[i]? = some (.committing cluster) := by
      simp [phases, hi, Task.phase]
    have empty := (hq.alone i cluster committing).1
    exact ⟨empty, hq.unstopped_nil empty⟩

/-- A driver whose commits all take their prepare with nothing recorded and
nothing else under way has one cluster at a time. -/
theorem oneCluster_of_alone (run : Run (driver settleSecs).step Alone idle as p) :
    OneCluster settleSecs as := by
  intro pre a post p' q has first hstep
  subst has
  obtain ⟨m, before, rest⟩ := Run.split run
  obtain rfl : p' = m := first.deterministic before.free
  cases rest with
  | @cons _ q' _ _ _ taken _ =>
      obtain rfl : q = q' := Option.some.inj (hstep.symm.trans taken.2)
      have here : Run (driver settleSecs).step Alone p' [a] q := .cons taken (.nil q)
      exact one_at (run_single before) (run_single (before.append here)) taken.1 hstep

end Runs

section Fixed

/-- A cluster is started and stopped, and then another is started. -/
def inTurn : List Action :=
  prepared 0 "e1" "qwen3" ++ [(.enter (.commit "e1") : Action), started 1 "metrale-qwen3-rank0",
    started 1 "metrale-qwen3-rank1"] ++ survived 1 ++
  ([.enter .stopCluster, .resume 2 (.stopped (.ok ())),
    .resume 2 (.stopped (.ok ()))] : List Action) ++
  prepared 3 "e2" "llama" ++ [(.enter (.commit "e2") : Action), started 4 "metrale-llama-rank0",
    started 4 "metrale-llama-rank1"] ++ survived 4

theorem oneCluster_of_alone_inTurn : OneCluster 5 inTurn := by
  have run : Run (driver 5).step Alone idle inTurn _ := Run.of_replay rfl
  exact oneCluster_of_alone run

/-- While the first commit waits for its second rank, which has spent its
reservation, a second cluster is prepared and committed. -/
def overlapping : List Action :=
  prepared 0 "e1" "qwen3" ++ [(.enter (.commit "e1") : Action), started 1 "metrale-qwen3-rank0"] ++
  prepared 2 "e2" "llama" ++ [(.enter (.commit "e2") : Action)] ++
  [started 1 "metrale-qwen3-rank1"] ++ survived 1 ++
  [started 3 "metrale-llama-rank0", started 3 "metrale-llama-rank1",
    .resume 3 (.alive true)]

/-- Both store: the second one over the record of the first. -/
theorem not_oneCluster_overlapping :
    ∃ q, Run (driver 5).step Free idle (overlapping ++ ([.resume 3 (.alive true)] : List Action)) q ∧
      ¬ OneCluster 5 (overlapping ++ ([.resume 3 (.alive true)] : List Action)) := by
  have before : Run (driver 5).step Free idle overlapping _ := Run.of_replay rfl
  refine ⟨_, Run.of_replay rfl, ?_⟩
  intro one
  have second := (one overlapping _ [] _ _ rfl before rfl).stores (by decide)
  cases second

end Fixed

end Cluster
end Metralectl
