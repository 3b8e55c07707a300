import Metralectl.Control.Convergence
import Metralectl.Control.DockerLauncher

/-!
Actions of one deployment delivered late, twice or out of order. The node keeps
no memory of the generations it has realised: what it runs is the only record,
so a delayed action is held off by a running workload that is newer, and by
nothing else.
-/
namespace Metralectl
namespace Delivered
open Reconcile Docker Runs

/-- An action as it arrives: the machine it meets, and what the runtime and the
admission gate come to while it is answered. -/
structure Delivery where
  machine : Machine
  conditions : Conditions
  action : DeploymentAction
  target : Target
  maxSteps : Nat
  now : Nat

def Delivery.answered (d : Delivery) (containers : List Container) :
    Session × Except AgentError DeploymentActionResult :=
  answerAction (control d.machine d.conditions) d.machine.node d.action d.target d.maxSteps d.now
    (Session.begin_ containers)

/-- Between two answers anything may happen to what runs. -/
inductive Event where
  | answer (d : Delivery)
  | outside (containers : List Container)

def step (containers : List Container) : Event → Option (List Container)
  | .answer d => some (d.answered containers).1.containers
  | .outside after => some after

/-- The workload runs `deployment`, at generation `g` or a newer one. -/
def Holds (deployment : DeploymentName) (g : Generation) (w : Workload) : Prop :=
  isOurs w.instance_ deployment = true ∧
    ∃ running, generationOf w.instance_ = some running ∧ g ≤ running

def Serves (deployment : DeploymentName) (g : Generation) (containers : List Container) : Prop :=
  ∃ w ∈ workloads (containers.map psRow), Holds deployment g w

/-- An action of a generation older than `g`. -/
def Delivery.Below (d : Delivery) (deployment : DeploymentName) (g : Generation) : Prop :=
  d.action.deployment = deployment ∧ d.action.generation < g

/-- Everything but the older actions leaves a workload running that is at least
as new as `g`. -/
def Keeps (deployment : DeploymentName) (g : Generation) (containers : List Container) :
    Event → Prop
  | .answer d => d.Below deployment g ∨ Serves deployment g (d.answered containers).1.containers
  | .outside after => Serves deployment g after

/-- No action of a generation older than `g` starts a container. -/
def NeverRolledBack (deployment : DeploymentName) (g : Generation) (containers : List Container)
    (events : List Event) : Prop :=
  ∀ (pre : List Event) (d : Delivery) (post : List Event) (here : List Container),
    events = pre ++ Event.answer d :: post → Run step Free containers pre here →
    d.Below deployment g → (d.answered here).1.started = []

section Answers
variable {m : Machine} {cond : Conditions} {desired : Desired} {release : Option VerifiedRelease}
  {trace : Option ControlTrace} {s t : Session} {g : Generation}

theorem releaseFits_desiredFor (action : DeploymentAction) (target : Target) :
    releaseFits (desiredFor action target) (some target.release) = true := by
  cases h : action.action <;> simp [releaseFits, desiredFor, h]

/-- What runs newer holds off everything an older desired state asks for. -/
theorem rounds_held {maxSteps left : Nat} {acted : Bool} {launched : Option RecipeId}
    (serves : Serves desired.deployment g s.containers) (older : desired.generation < g) :
    (rounds (control m cond) desired release trace maxSteps (left + 1) s acted launched).1 =
      s.listed := by
  have round := rounds_cases (control m cond) desired release trace maxSteps left s acted launched
  generalize rounds (control m cond) desired release trace maxSteps (left + 1) s acted launched =
    r at round
  have stale {ws : List Workload} {t : Session}
      (listed : (control m cond).workloads s = (t, .ok ws)) :
      ∃ newest, decide desired (observe (control m cond) desired ws) =
        .refuse (.staleGeneration newest) := by
    obtain ⟨_, _, rfl⟩ := workloads_ok.mp listed
    obtain ⟨w, hw, ours, running, gen, atLeast⟩ := serves
    exact decide_stale (List.mem_map_of_mem hw) ours gen (older.trans_le atLeast)
  cases round with
  | unlisted listed => exact (workloads_error.mp listed).1
  | refused listed _ => exact (workloads_ok.mp listed).2.1
  | converged listed decided
  | exited listed decided _
  | unlaunched listed decided _ _
  | denied listed decided _ _
  | launched listed decided _ _
  | closed listed decided _
  | unstopped listed decided _ _
  | stopped listed decided _ _ =>
      obtain ⟨_, refused⟩ := stale listed
      rw [refused] at decided
      cases decided

/-- An older action leaves the node as it finds it, while something newer runs. -/
theorem Delivery.Below.held {d : Delivery} {deployment : DeploymentName}
    {containers : List Container} (below : d.Below deployment g)
    (serves : Serves deployment g containers) :
    (d.answered containers).1 = (Session.begin_ containers).listed := by
  obtain ⟨rfl, older⟩ := below
  simp only [Delivery.answered, answerAction]
  by_cases here : d.action.nodeId = d.machine.node
  · simp only [here, if_true, converge, releaseFits_desiredFor]
    exact rounds_held serves older
  · simp only [here, if_false]
    exact answerNow_state _ _

/-- An apply that converges leaves its generation running. -/
theorem converge_serves {maxSteps : Nat} {a : Answer} {recipe : RecipeId} {model : String}
    {placement : Reconcile.Placement} (intent : desired.intent = .run recipe model placement)
    (converged : converge (control m cond) desired release trace maxSteps s = (t, .ok a))
    (realised : a.outcome.Realised) : Serves desired.deployment desired.generation t.containers := by
  simp only [converge] at converged
  split at converged
  case isFalse =>
    rw [answerNow_outcome converged] at realised
    exact realised.elim
  obtain ⟨r, ws, listed, decided⟩ := rounds_realised converged realised
  obtain ⟨_, rfl, rfl⟩ := workloads_ok.mp listed
  obtain ⟨w, hw, runs⟩ := List.mem_map.mp ((decide_converged decided).running intent)
  have current : Current desired w.instance_ := current_owner.mpr (by rw [runs])
  exact ⟨w, hw, current.1, desired.generation, current.2, le_rfl⟩

theorem Delivery.serves_of_realised {d : Delivery} {containers : List Container}
    {result : DeploymentActionResult} (apply : d.action.action = .apply)
    (answered : (d.answered containers).2 = .ok result) (realised : result.outcome.Realised) :
    Serves d.action.deployment d.action.generation (d.answered containers).1.containers := by
  simp only [Delivery.answered, answerAction] at answered ⊢
  by_cases here : d.action.nodeId = d.machine.node
  · simp only [here, if_true] at answered ⊢
    generalize converged : converge (control d.machine d.conditions) _ _ _ _ _ = r at answered ⊢
    cases r with
    | mk t a =>
    cases a with
    | error e => cases answered
    | ok a =>
        cases answered
        have intent : (desiredFor d.action d.target).intent =
            .run d.target.recipe d.target.release.model d.target.placement := by
          simp only [desiredFor, apply]
        exact converge_serves intent converged realised
  · simp only [here, if_false] at answered ⊢
    generalize refused : answerNow (control d.machine d.conditions) _ _ _ _ = r at answered
    cases r with
    | mk t a =>
    cases a with
    | error e => cases answered
    | ok a =>
        cases answered
        have outcome := answerNow_outcome refused
        change a.outcome.Realised at realised
        rw [outcome] at realised
        exact realised.elim

end Answers

section Whole
variable {deployment : DeploymentName} {g : Generation} {before after : List Container}
  {events : List Event}

/-- A workload that is new enough stays, or is followed by another. -/
theorem run_serves (serves : Serves deployment g before)
    (run : Run step (Keeps deployment g) before events after) : Serves deployment g after := by
  refine Run.invariant run serves ?_
  intro here event there holds kept taken
  cases event with
  | outside containers =>
      cases taken
      exact kept
  | answer d =>
      cases taken
      cases kept with
      | inr kept => exact kept
      | inl below =>
          rw [below.held holds]
          exact holds

theorem neverRolledBack_of_serves (serves : Serves deployment g before)
    (run : Run step (Keeps deployment g) before events after) :
    NeverRolledBack deployment g before events := by
  intro pre d post here split reached below
  rw [split] at run
  obtain ⟨middle, first, _⟩ := run.split
  obtain rfl := first.deterministic reached
  rw [below.held (run_serves serves first)]
  rfl

/-- Once an apply has been realised, no action of an older generation starts a
container, as long as nothing else leaves the deployment without a workload at
least as new. -/
theorem never_rolled_back (first : Delivery) (before after : List Container)
    (events : List Event) (result : DeploymentActionResult)
    (apply : first.action.action = .apply)
    (answered : (first.answered before).2 = .ok result)
    (realised : result.outcome.Realised)
    (run : Run step (Keeps first.action.deployment first.action.generation)
      (first.answered before).1.containers events after) :
    NeverRolledBack first.action.deployment first.action.generation
      (first.answered before).1.containers events :=
  neverRolledBack_of_serves (first.serves_of_realised apply answered realised) run

end Whole

section Fixed

/-- An action for the deployment, answered where nothing goes wrong. -/
def delivery (kind : ActionKind) (g : Generation) : Delivery where
  machine := plainMachine
  conditions := smooth g.num
  action := ⟨0, 0, chat, g, 7, kind⟩
  target := ⟨qwen, qwenRelease, .thisNode⟩
  maxSteps := 2
  now := 0

/-- The first generation's actions arrive after the second one runs, one of them
twice. -/
theorem never_rolled_back_late :
    NeverRolledBack chat two ((delivery .apply two).answered []).1.containers
      [.answer (delivery .apply one), .answer (delivery .stop one),
        .answer (delivery .apply one)] := by
  have older : one < two := by decide
  have late (kind : ActionKind) : (delivery kind one).Below chat two := ⟨rfl, older⟩
  exact never_rolled_back (delivery .apply two) [] _ _ _ rfl rfl trivial
    (.cons ⟨.inl (late .apply), rfl⟩ (.cons ⟨.inl (late .stop), rfl⟩
      (.cons ⟨.inl (late .apply), rfl⟩ (.nil _))))

/-- The second generation is applied and then stopped: nothing is left to tell
that it ever ran, and the first one's apply, arriving late, starts a container. -/
theorem not_never_rolled_back_stopped :
    ∃ first : Delivery, ∃ before : List Container, ∃ events : List Event,
      ∃ result : DeploymentActionResult,
        (first.answered before).2 = .ok result ∧ result.outcome.Realised ∧
        ¬ NeverRolledBack first.action.deployment first.action.generation
          (first.answered before).1.containers events := by
  refine ⟨delivery .apply two, [], [.answer (delivery .stop three),
    .answer (delivery .apply one)], _, rfl, trivial, ?_⟩
  intro never
  have idle : step ((delivery .apply two).answered []).1.containers
      (.answer (delivery .stop three)) = some [] := by decide
  have started := never [.answer (delivery .stop three)] (delivery .apply one) [] [] rfl
    (.cons ⟨trivial, idle⟩ (.nil [])) ⟨rfl, by decide⟩
  exact absurd started (by decide)

end Fixed

end Delivered
end Metralectl
