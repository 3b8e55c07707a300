import Mathlib.Logic.Relation
import Metralectl.Cluster.Interleaved

/-!
What the running slot and the records around it see of a call: whether it is a
commit on its way to a store, a supervision weighing a roster, or a teardown.
The driver's segments are sequences of small effects on these phases, and every
invariant of the slot is proved for the effects alone. Two openings carry a
condition: a commit taking its prepare, and a call turning to stopping ranks.
-/
namespace Metralectl
namespace Cluster
open Runs Interleaving

inductive Phase where
  | other
  | committing (cluster : Nat)
  | judging (seen : List Nat)
  | stopping (seen : List Nat) (cluster : Nat)
deriving DecidableEq

def Phase.Committing (ph : Phase) : Prop := ∃ cluster, ph = .committing cluster

def Phase.Stopping (ph : Phase) : Prop := ∃ seen cluster, ph = .stopping seen cluster

instance : DecidablePred Phase.Committing := fun ph =>
  match ph with
  | .committing c => isTrue ⟨c, rfl⟩
  | .other | .judging _ | .stopping _ _ => isFalse fun h => by cases h with | intro _ h => cases h

instance : DecidablePred Phase.Stopping := fun ph =>
  match ph with
  | .stopping seen c => isTrue ⟨seen, c, rfl⟩
  | .other | .judging _ | .committing _ =>
      isFalse fun h => by cases h with | intro _ h => cases h with | intro _ h => cases h

@[simp] theorem Phase.not_committing_other : ¬ Phase.other.Committing := by
  simp [Phase.Committing]

@[simp] theorem Phase.not_committing_judging (seen : List Nat) :
    ¬ (Phase.judging seen).Committing := by
  simp [Phase.Committing]

@[simp] theorem Phase.not_committing_stopping (seen : List Nat) (c : Nat) :
    ¬ (Phase.stopping seen c).Committing := by
  simp [Phase.Committing]

@[simp] theorem Phase.not_stopping_other : ¬ Phase.other.Stopping := by
  simp [Phase.Stopping]

@[simp] theorem Phase.not_stopping_judging (seen : List Nat) :
    ¬ (Phase.judging seen).Stopping := by
  simp [Phase.Stopping]

@[simp] theorem Phase.not_stopping_committing (c : Nat) :
    ¬ (Phase.committing c).Stopping := by
  simp [Phase.Stopping]

def Task.phase : Task → Phase
  | .starting cluster .. => .committing cluster
  | .settling cluster .. => .committing cluster
  | .judging seen .. => .judging seen
  | .stopping seen record .. => .stopping seen record.cluster
  | .preparing .. | .releasing .. | .undoing .. | .answered .. => .other

/-- One effect of one call on the shared value, and the phase it leaves the call in. -/
inductive Effect (s : Shared) : Phase → Shared → Phase → Prop
  | rest (ph : Phase) : Effect s ph s .other
  | pend (pending : Option Pending) : Effect s .other { s with pending := pending } .other
  | start (cluster : Nat) (node : NodeId) :
      Effect s (.committing cluster) (s.ask (.start cluster node)) (.committing cluster)
  | undo (node : NodeId) (name : String) :
      Effect s .other (s.ask (.stop none node name)) .other
  | store (cluster : Nat) (r : Running) :
      Effect s (.committing cluster) (s.store cluster r) .other
  | judge : Effect s .other s (.judging s.committed)
  | stop (seen : List Nat) (cluster : Nat) (node : NodeId) (name : String) :
      Effect s (.stopping seen cluster) (s.ask (.stop (some seen) node name))
        (.stopping seen cluster)
  | close (seen : List Nat) (cluster : Nat) (slot : Option Running) :
      Effect s (.stopping seen cluster) (s.close seen cluster slot) .other
  | execute {k : Nat} {name : String} {t : Shared} (h : s.execute k name = some t) :
      Effect s .other t .other

/-- Several effects of one call, nothing coming between. -/
abbrev Effects (x y : Shared × Phase) : Prop :=
  Relation.ReflTransGen (fun x y => Effect x.1 x.2 y.1 y.2) x y

theorem Effect.one {s t : Shared} {ph ph' : Phase} (h : Effect s ph t ph') :
    Effects (s, ph) (t, ph') :=
  Relation.ReflTransGen.single h

theorem Effect.andThen {s t : Shared} {ph ph' : Phase} {z : Shared × Phase}
    (h : Effect s ph t ph') (more : Effects (t, ph') z) : Effects (s, ph) z :=
  Relation.ReflTransGen.head h more

abbrev Phases := Pool Shared Phase

/-- The calls on one slot. `take` and `stopping` are the conditions under which a
commit takes its prepare, and a call that saw `seen` committed turns to stopping
what the slot holds. -/
inductive Protocol (take : Phases → Prop) (stopping : Phases → List Nat → Prop) (p : Phases) :
    Phases → Prop
  | call : Protocol take stopping p ⟨p.shared, p.tasks ++ [Phase.other]⟩
  | effect {i : Nat} {ph ph' : Phase} {s : Shared} (at_ : p.tasks[i]? = some ph)
      (effect : Effect p.shared ph s ph') : Protocol take stopping p ⟨s, p.tasks.set i ph'⟩
  | take (may : take p) :
      Protocol take stopping p ⟨p.shared.take, p.tasks ++ [Phase.committing p.shared.clusters]⟩
  | stop {r : Record} (held : p.shared.running = some r) (may : stopping p p.shared.committed) :
      Protocol take stopping p
        ⟨p.shared, p.tasks ++ [Phase.stopping p.shared.committed r.cluster]⟩
  | tear {i : Nat} {seen : List Nat} {r : Record} (at_ : p.tasks[i]? = some (.judging seen))
      (held : p.shared.running = some r) (may : stopping p seen) :
      Protocol take stopping p ⟨p.shared, p.tasks.set i (.stopping seen r.cluster)⟩

section Segments
variable {settleSecs : Nat} {s : Shared}

/-- The shared value and the phase after a segment. -/
def left (x : Shared × Task) : Shared × Phase := (x.1, x.2.phase)

theorem rollBack_left (s : Shared) (epoch : String) (targets : List Target) (answer : Answer) :
    left (rollBack s epoch targets answer) = (s, .other) := by
  simp only [rollBack]
  split <;> rfl

theorem undo_effects (s : Shared) (epoch : String) (release : List Target) (why : String)
    (ranks : List (RankStarted × Target)) :
    Effects (s, .other) (left (undo s epoch release why ranks)) := by
  cases ranks with
  | nil =>
      simp only [undo, rollBack_left]
      exact .refl
  | cons rt rest => exact (Effect.undo rt.2.node rt.1.container).one

theorem prepareRest_effects (s : Shared) (pending : Pending) (accepted : List Target)
    (answers : List RankPrepare) (rest : List Target) :
    Effects (s, .other) (left (prepareRest s pending accepted answers rest)) := by
  cases rest with
  | cons t rest => exact .refl
  | nil =>
      simp only [prepareRest]
      split
      · exact (Effect.pend (some pending)).one
      · rw [rollBack_left]

theorem settleRest_effects (settleSecs : Nat) (s : Shared) (cluster : Nat) (pending : Pending)
    (started : List RankStarted) (dead : List String) (ranks : List (RankStarted × Target)) :
    Effects (s, .committing cluster)
      (left (settleRest settleSecs s cluster pending started dead ranks)) := by
  cases ranks with
  | cons rt rest => exact .refl
  | nil =>
      simp only [settleRest]
      split
      · exact (Effect.store cluster _).one
      · exact (Effect.rest _).andThen (undo_effects ..)

theorem startRest_effects (settleSecs : Nat) (s : Shared) (cluster : Nat) (pending : Pending)
    (done : List Target) (started : List RankStarted) (rest : List Target) :
    Effects (s, .committing cluster)
      (left (startRest settleSecs s cluster pending done started rest)) := by
  cases rest with
  | nil => exact settleRest_effects ..
  | cons t rest => exact (Effect.start cluster t.node).one

theorem stopRest_effects (s : Shared) (seen : List Nat) (record : Record)
    (failures : List String) (stillRunning : List RankStarted)
    (torn? : Option (List (NodeId × String))) (ranks : List (RankStarted × Target)) :
    Effects (s, .stopping seen record.cluster)
      (left (stopRest s seen record failures stillRunning torn? ranks)) := by
  cases ranks with
  | cons rt rest => exact (Effect.stop seen record.cluster rt.2.node rt.1.container).one
  | nil =>
      cases torn? with
      | none => exact (Effect.close seen record.cluster _).one
      | some dead => exact (Effect.close seen record.cluster none).one

/-- A supervision goes on to a teardown when all are judged, one is dead and
something is recorded. -/
def Tears (s : Shared) (dead : List (NodeId × String)) (rest : List (RankStarted × Target)) :
    Prop :=
  rest = [] ∧ dead ≠ [] ∧ s.running.isSome = true

instance (s : Shared) (dead : List (NodeId × String)) (rest : List (RankStarted × Target)) :
    Decidable (Tears s dead rest) :=
  inferInstanceAs (Decidable (_ ∧ _ ∧ _))

theorem judgeRest_cases (s : Shared) (seen : List Nat) (dead : List (NodeId × String))
    (ranks : List (RankStarted × Target)) :
    Effects (s, .judging seen) (left (judgeRest s seen dead ranks)) ∨
    Tears s dead ranks ∧ ∃ r, s.running = some r ∧
      Effects (s, .stopping seen r.cluster) (left (judgeRest s seen dead ranks)) := by
  cases ranks with
  | cons rt rest => exact Or.inl .refl
  | nil =>
      simp only [judgeRest]
      cases dead with
      | nil => exact Or.inl (Effect.rest _).one
      | cons d dead =>
          cases held : s.running with
          | none => exact Or.inl (Effect.rest _).one
          | some r =>
              refine Or.inr ⟨⟨rfl, by simp, by simp [held]⟩, r, rfl, ?_⟩
              exact stopRest_effects ..

end Segments

section Refinement
variable {take : Phases → Prop} {stopping : Phases → List Nat → Prop}

/-- The protocol several steps on. -/
abbrev Steps (take : Phases → Prop) (stopping : Phases → List Nat → Prop) :
    Phases → Phases → Prop :=
  Relation.ReflTransGen (Protocol take stopping)

/-- The effects of one call are steps of the protocol. -/
theorem Effects.steps {ts : List Phase} {i : Nat} {x y : Shared × Phase} (effects : Effects x y)
    (at_ : ts[i]? = some x.2) : Steps take stopping ⟨x.1, ts⟩ ⟨y.1, ts.set i y.2⟩ := by
  induction effects with
  | refl =>
      have same : ts.set i x.2 = ts := by
        apply List.ext_getElem?
        intro j
        rw [List.getElem?_set]
        split
        · next hij =>
            subst hij
            split
            · exact at_.symm
            · next out => simp_all
        · rfl
      rw [same]
  | @tail y z _ effect ih =>
      have here : (ts.set i y.2)[i]? = some y.2 := by
        rw [List.getElem?_set_self (List.getElem?_eq_some_iff.mp at_).1]
      refine ih.tail ?_
      have step : Protocol take stopping ⟨y.1, ts.set i y.2⟩ ⟨z.1, (ts.set i y.2).set i z.2⟩ :=
        .effect here effect
      rw [List.set_set] at step
      exact step

/-- The same for a call that has just come in. -/
theorem Effects.fresh (ts : List Phase) {x y : Shared × Phase} (effects : Effects x y) :
    Steps take stopping ⟨x.1, ts ++ [x.2]⟩ ⟨y.1, ts ++ [y.2]⟩ := by
  have steps : Steps take stopping ⟨x.1, ts ++ [x.2]⟩ ⟨y.1, (ts ++ [x.2]).set ts.length y.2⟩ :=
    effects.steps (by simp)
  rwa [List.set_append_right _ _ (Nat.le_refl _), Nat.sub_self] at steps

def phases (p : State) : Phases := ⟨p.shared, p.tasks.map Task.phase⟩

theorem phases_append (ts : List Task) (x : Shared × Task) :
    phases ⟨x.1, ts ++ [x.2]⟩ = ⟨(left x).1, ts.map Task.phase ++ [(left x).2]⟩ := by
  simp [phases, left]

theorem phases_set (ts : List Task) (i : Nat) (x : Shared × Task) :
    phases ⟨x.1, ts.set i x.2⟩ = ⟨(left x).1, (ts.map Task.phase).set i (left x).2⟩ := by
  simp [phases, left, List.map_set]

end Refinement

theorem idle_phases {p : State} {P : Phase → Prop} (h : p.Idle (fun t => P t.phase)) :
    (phases p).Idle P := by
  intro ph hph
  obtain ⟨t, ht, rfl⟩ := List.mem_map.mp hph
  exact h t ht

/-- The commits that take a prepare. -/
def Takes (p : State) : Action → Prop
  | .enter (.commit epoch) => (takePending p.shared.pending epoch).isOk = true
  | _ => False

instance (p : State) : (a : Action) → Decidable (Takes p a)
  | .enter (.commit epoch) =>
      inferInstanceAs (Decidable ((takePending p.shared.pending epoch).isOk = true))
  | .enter (.prepare _) | .enter (.abort _) | .enter .stopCluster | .enter .supervise
  | .enter (.execute _ _) | .resume _ _ => isFalse id

/-- For a segment that turns to stopping what the slot holds, what the call had
seen committed when it read its roster. -/
def turns (p : State) : Action → Option (List Nat)
  | .enter .stopCluster => p.shared.running.map fun _ => p.shared.committed
  | .resume i (.alive alive) =>
      match p.tasks[i]? with
      | some (.judging seen (_, t) rest dead) =>
          if Tears p.shared (verdict dead t alive) rest then some seen else none
      | _ => none
  | _ => none

section Segments
variable {settleSecs : Nat} {p : State}

/-- A call comes in as one among others, as a commit that takes its prepare, or
as a stop of what the slot holds. -/
theorem enter_cases {c : Call} {x : Shared × Task} (h : enter settleSecs p.shared c = some x) :
    Effects (p.shared, .other) (left x) ∨
    Takes p (.enter c) ∧
      Effects (p.shared.take, .committing p.shared.clusters) (left x) ∨
    ∃ r, p.shared.running = some r ∧ turns p (.enter c) = some p.shared.committed ∧
      Effects (p.shared, .stopping p.shared.committed r.cluster) (left x) := by
  cases c with
  | prepare resolved =>
      simp only [enter] at h
      left
      split at h
      · cases h
        exact .refl
      · split at h
        · cases h
          exact .refl
        · cases h
          exact prepareRest_effects ..
  | commit epoch =>
      simp only [enter] at h
      cases taken : takePending p.shared.pending epoch with
      | error e =>
          rw [taken] at h
          cases h
          exact Or.inl .refl
      | ok pending =>
          rw [taken] at h
          cases h
          have takes : Takes p (.enter (.commit epoch)) := by
            simp [Takes, taken, Except.isOk, Except.toBool]
          exact Or.inr (Or.inl ⟨takes, startRest_effects ..⟩)
  | abort epoch =>
      simp only [enter] at h
      left
      split at h
      · cases h
        exact .refl
      · cases h
        rw [rollBack_left]
        exact (Effect.pend none).one
  | stopCluster =>
      simp only [enter] at h
      cases held : p.shared.running with
      | none =>
          rw [held] at h
          cases h
          exact Or.inl .refl
      | some record =>
          rw [held] at h
          cases h
          have turned : turns p (.enter .stopCluster) = some p.shared.committed := by
            simp [turns, held]
          exact Or.inr (Or.inr ⟨record, rfl, turned, stopRest_effects ..⟩)
  | supervise =>
      simp only [enter] at h
      left
      cases held : p.shared.running with
      | none =>
          rw [held] at h
          cases h
          exact .refl
      | some record =>
          rw [held] at h
          cases h
          rcases judgeRest_cases p.shared p.shared.committed []
            (reachable record.running.started record.running.targets) with effects | ⟨tears, _⟩
          · exact Effect.judge.andThen effects
          · exact absurd rfl tears.2.1
  | execute k name =>
      simp only [enter] at h
      left
      cases done : p.shared.execute k name with
      | none =>
          rw [done] at h
          cases h
      | some s =>
          rw [done] at h
          cases h
          exact (Effect.execute done).one

/-- A call goes on in its phase, or turns from judging a roster to stopping what
the slot holds. -/
theorem resume_cases {i : Nat} {t : Task} {r : Reply} {x : Shared × Task}
    (ht : p.tasks[i]? = some t) (h : resume settleSecs p.shared t r = some x) :
    Effects (p.shared, t.phase) (left x) ∨
    ∃ seen record, t.phase = .judging seen ∧ p.shared.running = some record ∧
      turns p (.resume i r) = some seen ∧
      Effects (p.shared, .stopping seen record.cluster) (left x) := by
  cases t with
  | answered answer => cases r <;> cases h
  | preparing pending target rest accepted answers =>
      cases r with
      | prepared reply =>
          cases h
          exact Or.inl (prepareRest_effects ..)
      | released | started | alive | stopped => cases h
  | releasing epoch target rest answer =>
      cases r with
      | released =>
          cases h
          rw [rollBack_left]
          exact Or.inl .refl
      | prepared | started | alive | stopped => cases h
  | starting cluster pending done target rest started =>
      cases r with
      | started result =>
          left
          cases result with
          | ok container =>
              cases h
              exact startRest_effects ..
          | error reason =>
              cases h
              exact (Effect.rest _).andThen (undo_effects ..)
      | prepared | released | alive | stopped => cases h
  | settling cluster pending started rank rest dead =>
      cases r with
      | alive alive =>
          cases h
          exact Or.inl (settleRest_effects ..)
      | prepared | released | started | stopped => cases h
  | undoing epoch rank rest release why =>
      cases r with
      | stopped outcome =>
          cases h
          exact Or.inl (undo_effects ..)
      | prepared | released | started | alive => cases h
  | judging seen rank rest dead =>
      cases r with
      | alive alive =>
          cases h
          rcases judgeRest_cases p.shared seen (verdict dead rank.2 alive) rest with
            effects | ⟨tears, record, held, effects⟩
          · exact Or.inl effects
          · have turned : turns p (.resume i (.alive alive)) = some seen := by
              simp [turns, ht, tears]
            exact Or.inr ⟨seen, record, rfl, held, turned, effects⟩
      | prepared | released | started | stopped => cases h
  | stopping seen record rank rest failures stillRunning torn? =>
      cases r with
      | stopped outcome =>
          left
          cases outcome with
          | ok u =>
              cases h
              exact stopRest_effects ..
          | error e =>
              cases h
              exact stopRest_effects ..
      | prepared | released | started | alive => cases h

end Segments

section Refinement
variable {take : Phases → Prop} {stopping : Phases → List Nat → Prop}

/-- Every segment of the driver is made of steps of the protocol, under whatever
conditions its opening meets. -/
theorem step_steps {settleSecs : Nat} {p q : State} {a : Action}
    (h : (driver settleSecs).step p a = some q) (mayTake : Takes p a → take (phases p))
    (mayStop : ∀ seen ∈ turns p a, stopping (phases p) seen) :
    Steps take stopping (phases p) (phases q) := by
  cases a with
  | enter c =>
      obtain ⟨s, t, he, rfl⟩ := Object.step_enter h
      rw [phases_append p.tasks (s, t)]
      rcases enter_cases he with effects | ⟨takes, effects⟩ | ⟨r, held, turned, effects⟩
      · exact .head .call (effects.fresh _)
      · exact .head (.take (mayTake takes)) (effects.fresh _)
      · exact .head (.stop held (mayStop _ turned)) (effects.fresh _)
  | resume i r =>
      obtain ⟨t, s, t', ht, hr, rfl⟩ := Object.step_resume h
      rw [phases_set p.tasks i (s, t')]
      have at_ : (phases p).tasks[i]? = some t.phase := by simp [phases, ht]
      rcases resume_cases ht hr with effects | ⟨seen, record, judging, held, turned, effects⟩
      · exact effects.steps at_
      · rw [judging] at at_
        have here : ((phases p).tasks.set i (.stopping seen record.cluster))[i]? =
            some (.stopping seen record.cluster) :=
          List.getElem?_set_self (List.getElem?_eq_some_iff.mp at_).1
        have more : Steps take stopping _ _ := effects.steps here
        rw [List.set_set] at more
        exact .head (.tear at_ held (mayStop seen turned)) more

/-- So is every run whose openings all meet the conditions. -/
theorem run_steps {settleSecs : Nat} {p q : State} {as : List Action}
    {G : State → Action → Prop} (run : Run (driver settleSecs).step G p as q)
    (mayTake : ∀ p a, G p a → Takes p a → take (phases p))
    (mayStop : ∀ p a, G p a → ∀ seen ∈ turns p a, stopping (phases p) seen) :
    Steps take stopping (phases p) (phases q) :=
  Run.relates (E := fun p q => Steps take stopping (phases p) (phases q)) run (fun _ => .refl)
    (fun _ _ _ => Relation.ReflTransGen.trans)
    fun p a _ hg h => step_steps h (mayTake p a hg) (mayStop p a hg)

/-- What every step of the protocol keeps, its steps keep. -/
theorem Steps.invariant {I : Phases → Prop} {p q : Phases} (steps : Steps take stopping p q)
    (hp : I p) (keep : ∀ p q, I p → Protocol take stopping p q → I q) : I q := by
  induction steps with
  | refl => exact hp
  | tail _ step ih => exact keep _ _ ih step

end Refinement

end Cluster
end Metralectl
