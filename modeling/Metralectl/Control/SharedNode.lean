import Metralectl.Control.Convergence
import Metralectl.Control.Runtime

/-!
Convergence on a node others use too. Before every docker command of a
convergence anybody may start, end or remove containers: a browser, the command
line, a rank's commit, the containers themselves. A stop lists the recipe's
containers once more before it stops them, and a launch clears its name before
it runs; what either finds there that the driver had not seen is recorded.
-/
namespace Metralectl
namespace Docker
open Reconcile

/-- What somebody else does to the containers. -/
inductive Other where
  | start (c : Container)
  | exit (id : ContainerId)
  | remove (id : ContainerId)
deriving DecidableEq

namespace Engine

def acted (e : Engine) : Other → Engine
  | .start c => (e.start c).getD e
  | .exit id => e.lower (·.id = id) .exited
  | .remove id => e.lower (·.id = id) .removed

def disturbed (e : Engine) (others : List Other) : Engine := others.foldl acted e

/-- The containers running now that were not running before. -/
def arrived (before now : Engine) : List Container := now.running.filter (· ∉ before.running)

section Known
variable {e : Engine} {c : Container}

theorem known_acted (hc : c ∈ e.known) (o : Other) : c ∈ (e.acted o).known := by
  cases o with
  | start d =>
      simp only [acted]
      cases started : e.start d with
      | none => exact hc
      | some f =>
          rw [Option.getD_some, known_start started]
          exact List.mem_append_left _ hc
  | exit id | remove id =>
      rw [acted, known_lower]
      exact hc

theorem known_disturbed (hc : c ∈ e.known) (others : List Other) :
    c ∈ (e.disturbed others).known := by
  induction others generalizing e with
  | nil => exact hc
  | cons o others ih => exact ih (known_acted hc o)

end Known
end Engine

/-- What a convergence meets: what others do before its n-th question, and what
the runtime and the gate answer to it. -/
structure Surroundings where
  others : Nat → List Other
  conditions : Nat → Conditions
  /-- Whether `docker rm` succeeds. -/
  clears : Nat → Bool
  /-- What docker says when a container's name is taken. -/
  conflict : Nat → String

/-- What a stop met when it listed its recipe, and a launch when it cleared its
name, that had not been there at the listing before. -/
inductive Finding where
  | atStop (recipe : String) (arrived : List Container)
  | atClear (name : String) (arrived left : List Container)
deriving DecidableEq

/-- The node, how much a convergence has asked of it, what its stops and launches
found, and the containers it stopped or removed. -/
structure SharedNode where
  engine : Engine
  asked : Nat
  findings : List Finding
  ended : List Container
deriving DecidableEq

namespace SharedNode

def start (e : Engine) : SharedNode := ⟨e, 0, [], []⟩

/-- Others act, and then the runtime is asked for something. -/
def ask (sur : Surroundings) (n : SharedNode) : SharedNode :=
  { n with engine := n.engine.disturbed (sur.others n.asked), asked := n.asked + 1 }

def found (n : SharedNode) (f : Finding) : SharedNode := { n with findings := f :: n.findings }

/-- `docker stop`, for the running containers that meet `p`. -/
def halt (n : SharedNode) (p : Container → Bool) : SharedNode :=
  { n with engine := n.engine.lower p .exited, ended := n.engine.running.filter p ++ n.ended }

/-- `docker rm -f`, for every container of the name. -/
def clear (n : SharedNode) (name : String) : SharedNode :=
  { n with
    engine := n.engine.lower (·.name = name) .removed
    ended := (n.engine.running ++ n.engine.left).filter (·.name = name) ++ n.ended }

def inspected (n : SharedNode) (id : ContainerId) : Option Container :=
  ((n.engine.held.filter Held.present).map (·.container)).find? (·.id = id)

/-- `docker run`. -/
def run (sur : Surroundings) (n : SharedNode) (plan : DockerCommand) :
    SharedNode × Except AgentError Started :=
  let m := n.ask sur
  match (sur.conditions n.asked).running with
  | .error detail => (m, .error (.launchFailed detail))
  | .ok id =>
      match m.engine.start (Container.of plan id) with
      | none => (m, .error (.launchFailed (sur.conflict n.asked)))
      | some e => ({ m with engine := e }, .ok ⟨plan.name, endpointOf plan.command⟩)

/-- Clear a stopped container of the name, whether or not there is one, and run. -/
def replace (sur : Surroundings) (n : SharedNode) (plan : DockerCommand) :
    SharedNode × Except AgentError Started :=
  let m := n.ask sur
  let seen := m.found (.atClear plan.name (n.engine.arrived m.engine) m.engine.left)
  (if sur.clears n.asked then seen.clear plan.name else seen).run sur plan

def launch (m : Machine) (sur : Surroundings) (n : SharedNode) (recipe : Recipe)
    (overrides : Settings) (launchFor : LaunchFor) : SharedNode × Except AgentError Started :=
  match m.rendering.plan recipe overrides with
  | .error why => (n, .error (.notLaunchable recipe.name why))
  | .ok base =>
      let plan := launchPlan base launchFor
      match unready m plan recipe with
      | some detail => (n, .error (.launchFailed detail))
      | none =>
          let seen := n.ask sur
          match (sur.conditions n.asked).relisting with
          | some e => (seen, .error e.error)
          | none =>
              match runningAs plan.name seen.engine.rows with
              | some row =>
                  let looked := seen.ask sur
                  (looked, adopt (sur.conditions seen.asked) plan recipe launchFor
                    (looked.inspected row.id))
              | none => seen.replace sur plan

/-- `docker stop` of the ids a listing named. -/
def stopIds (sur : Surroundings) (n : SharedNode) (recipe : String) (ids : List ContainerId) :
    SharedNode × Except AgentError Unit :=
  let m := n.ask sur
  let cond := sur.conditions n.asked
  match cond.stopping recipe with
  | none => (m.halt fun c => ids.contains c.id, .ok ())
  | some detail =>
      (m.halt fun c => ids.contains c.id && cond.halted c.id, .error (.launchFailed detail))

/-- A stop of a recipe: list it, and stop what the listing names. -/
def stop (sur : Surroundings) (n : SharedNode) (recipe : String) :
    SharedNode × Except AgentError Unit :=
  let m := n.ask sur
  let seen := m.found (.atStop recipe (n.engine.arrived m.engine))
  match (sur.conditions n.asked).relisting with
  | some e => (seen, .error e.error)
  | none =>
      let ids := stopTargets recipe seen.engine.rows
      if ids.isEmpty then (seen, .ok ()) else seen.stopIds sur recipe ids

def fetchImage (sur : Surroundings) (n : SharedNode) (image : OciImage) :
    SharedNode × Except String Unit :=
  match (sur.conditions n.asked).pulling image with
  | some why => (n.ask sur, .error why)
  | none => (n.ask sur, .ok ())

def listing (sur : Surroundings) (n : SharedNode) :
    SharedNode × Except AgentError (List Workload) :=
  let m := n.ask sur
  (m,
    match (sur.conditions n.asked).listing n.asked with
    | some e => .error e.error
    | none => .ok (workloads m.engine.rows))

/-- The gate is read off this node's own files: nothing is asked of docker. -/
def admission (sur : Surroundings) (n : SharedNode) : SharedNode × Admission :=
  ({ n with asked := n.asked + 1 }, (sur.conditions n.asked).admission n.asked)

def control (m : Machine) (sur : Surroundings) : LocalControl SharedNode where
  resolve := m.resolve
  named := m.named
  launcher :=
    { launch := launch m sur
      fetchImage := fetchImage sur
      stop := stop sur
      workloads := listing sur }
  canLaunch := m.canLaunch
  accelerator := m.accelerator
  admission := admission sur
  schema := m.schema

end SharedNode

/-- Whether a container's labels give it to the deployment. -/
def ownedBy (d : DeploymentName) (c : Container) : Bool :=
  (ownerOf (psRow c).deployment (psRow c).generation).any (·.deployment = d)

/-- Nothing of the recipe, and nothing of the name, was found that is not the
deployment's own. -/
def Finding.ours (d : DeploymentName) : Finding → Bool
  | .atStop recipe arrived =>
      arrived.all fun c => !isStopTarget recipe (psRow c) || ownedBy d c
  | .atClear name arrived left =>
      (arrived ++ left).all fun c => c.name ≠ name || ownedBy d c

namespace SharedNode

/-- If everything found was the deployment's own, so is everything that was
stopped or removed. -/
def Spares (d : DeploymentName) (n : SharedNode) : Prop :=
  n.findings.all (Finding.ours d) = true → ∀ c ∈ n.ended, ownedBy d c = true

section Steps
variable {m : Machine} {sur : Surroundings} {d : DeploymentName} {n : SharedNode}

@[simp] theorem ask_findings : (n.ask sur).findings = n.findings := rfl

@[simp] theorem ask_ended : (n.ask sur).ended = n.ended := rfl

theorem spares_found {f : Finding} (h : n.Spares d) : (n.found f).Spares d := by
  intro ours
  simp only [found, List.all_cons, Bool.and_eq_true] at ours
  exact h ours.2

theorem spares_run {plan : DockerCommand} (h : n.Spares d) : (n.run sur plan).1.Spares d := by
  simp only [run]
  split
  · exact h
  · split
    · exact h
    · exact h

/-- A name nothing listed bears is cleared of what was found there, and of
nothing else. -/
theorem spares_replace {plan : DockerCommand} (h : n.Spares d)
    (free : runningAs plan.name n.engine.rows = none) : (n.replace sur plan).1.Spares d := by
  apply spares_run
  split
  · intro ours c ended
    have own := ours
    simp only [clear, found, List.all_cons, Bool.and_eq_true, Finding.ours, List.all_eq_true,
      Bool.or_eq_true, decide_eq_true_eq] at own
    simp only [clear, found, ask_ended, List.mem_append, List.mem_filter,
      decide_eq_true_eq] at ended
    cases ended with
    | inr before => exact h (List.all_eq_true.mpr own.2) c before
    | inl here =>
        obtain ⟨held, named⟩ := here
        refine (own.1 c (List.mem_append.mpr ?_)).resolve_left (not_not_intro named)
        cases held with
        | inr left => exact .inr left
        | inl running =>
            refine .inl (List.mem_filter.mpr ⟨running, ?_⟩)
            simp only [decide_eq_true_eq]
            intro listed
            have row := List.find?_eq_none.mp free (psRow c) (List.mem_map_of_mem listed)
            exact row (decide_eq_true named)
  · exact spares_found h

theorem spares_launch {recipe : Recipe} {overrides : Settings} {launchFor : LaunchFor}
    (h : n.Spares d) : (n.launch m sur recipe overrides launchFor).1.Spares d := by
  simp only [launch]
  split
  · exact h
  · split
    · exact h
    · split
      · exact h
      · split
        · exact h
        · next free => exact spares_replace h free

/-- A stop reaches what the driver's listing showed of the recipe, and what has
come since. -/
theorem spares_stop {recipe : String} (h : n.Spares d)
    (listed : ∀ c ∈ n.engine.running, isStopTarget recipe (psRow c) = true →
      ownedBy d c = true) : (n.stop sur recipe).1.Spares d := by
  have reached (p : Container → Bool)
      (named : ∀ c, p c = true →
        c.id ∈ stopTargets recipe (n.ask sur).engine.rows) :
      ((((n.ask sur).found (.atStop recipe (n.engine.arrived (n.ask sur).engine))).ask sur).halt
        p).Spares d := by
    intro ours c ended
    simp only [halt, ask_findings, found, List.all_cons, Bool.and_eq_true, Finding.ours,
      List.all_eq_true, Bool.or_eq_true, Bool.not_eq_true'] at ours
    simp only [halt, List.mem_append, List.mem_filter] at ended
    cases ended with
    | inr before => exact h (List.all_eq_true.mpr ours.2) c before
    | inl here =>
        obtain ⟨row, target, id⟩ := List.mem_map.mp (named c here.2)
        obtain ⟨inRows, isTarget⟩ := List.mem_filter.mp target
        obtain ⟨b, running, rfl⟩ := List.mem_map.mp inRows
        obtain rfl : b = c :=
          Engine.known_id (Engine.known_disturbed (Engine.known_of_running running) _)
            (Engine.known_of_running here.1) id
        by_cases before : b ∈ n.engine.running
        · exact listed b before isTarget
        · have new := ours.1 b (List.mem_filter.mpr ⟨running, by simpa using before⟩)
          exact new.resolve_left (by simp [isTarget])
  simp only [stop]
  split
  · exact spares_found h
  · split
    · exact spares_found h
    · simp only [stopIds]
      split
      · exact reached _ fun c hc => by simpa [found] using hc
      · exact reached _ fun c hc => by
          simp only [Bool.and_eq_true] at hc
          simpa [found] using hc.1

end Steps

section Converging
variable {m : Machine} {sur : Surroundings} {desired : Desired}

/-- Every operation spares what is not the deployment's: where `decide` asks for
a stop, all that was listed of the recipe is the deployment's own. -/
theorem kept_spares : Kept (control m sur) desired (Spares desired.deployment) where
  listing _ h := h
  gate _ h := h
  fetching n image h := by
    simp only [LocalControl.fetchImage, control, fetchImage]
    split <;> exact h
  launching _ _ _ _ h := spares_launch h
  stopping n t u ws recipe h listed asked gate := by
    have same : u.engine = t.engine := by
      simp only [stopRefusal, control] at gate
      split at gate
      · have read : (admission sur t).1 = u := congrArg Prod.fst gate
        rw [← read]
        rfl
      · cases gate
        rfl
    have rows : ws = workloads t.engine.rows := by
      simp only [LocalControl.workloads, control, listing] at listed
      split at listed
      · cases listed
      · cases listed
        rfl
    refine spares_stop h ?_
    rw [same]
    intro c running target
    have mem : ⟨(psRow c).id.extractLsb' 128 128,
        recipe, ownerOf (psRow c).deployment (psRow c).generation⟩ ∈ ws := by
      rw [rows]
      refine List.mem_filterMap.mpr ⟨psRow c, List.mem_map_of_mem running, ?_⟩
      simp only [workload, isStopTarget_iff.mp target, Option.map_some]
    exact (decide_stop asked).own _ (List.mem_map_of_mem mem) rfl

/-- Whatever others do on the node, a convergence all of whose stops and launches
found only its deployment's containers ends no other. -/
theorem converge_spares (m : Machine) (sur : Surroundings) (desired : Desired)
    (release : Option VerifiedRelease) (trace : Option ControlTrace) (maxSteps : Nat)
    (e : Engine)
    (ours : (converge (control m sur) desired release trace maxSteps
      (start e)).1.findings.all (Finding.ours desired.deployment) = true) :
    ∀ c ∈ (converge (control m sur) desired release trace maxSteps (start e)).1.ended,
      ownedBy desired.deployment c = true := by
  refine kept_spares.converge maxSteps ?_ ours
  intro _ c ended
  cases ended

end Converging
section Fixed

/-- Another caller's rank of the same recipe: a commit writes no owner on it. -/
def foreignRank (recipe : RecipeId) : Container where
  id := 99
  name := containerName recipe.text (.rank 1)
  image := "metrale:local"
  cmd := ["serve"]
  env := []
  labels := [(labelManaged, "1"), (labelRecipe, recipe.text)]

/-- A runtime that does as it is asked, and at the third question, the listing of
the first stop, starts what another caller asks for. -/
def crowded (c : Container) : Surroundings where
  others n := if n = 2 then [.start c] else []
  conditions _ := smooth 2
  clears _ := true
  conflict _ := "Conflict. The container name is already in use"

def upgrade : Desired := ⟨chat, two, .run qwen "qwen/qwen3" .thisNode⟩

/-- The node runs the deployment's first generation. -/
def firstGeneration : Engine := (Engine.empty.start (serving one)).getD .empty

/-- The deployment is upgraded while a rank of another recipe is committed. -/
theorem converge_spares_upgrade :
    (converge (control plainMachine (crowded (foreignRank ⟨"other", by decide⟩))) upgrade
      (some qwenRelease) none 2 (start firstGeneration)).1.ended.all (ownedBy chat) = true :=
  List.all_eq_true.mpr (converge_spares _ _ upgrade _ _ _ _ (by decide))

/-- The rank is of the recipe the upgrade has just seen run: the stop lists it too,
and it goes with the first generation. -/
theorem not_converge_spares :
    ∃ (m : Machine) (sur : Surroundings) (desired : Desired) (release : Option VerifiedRelease)
      (trace : Option ControlTrace) (maxSteps : Nat) (e : Engine),
      ∃ c ∈ (converge (control m sur) desired release trace maxSteps (start e)).1.ended,
        ownedBy desired.deployment c = false :=
  ⟨plainMachine, crowded (foreignRank qwen), upgrade, some qwenRelease, none, 2, firstGeneration,
    foreignRank qwen, by decide, by decide⟩

end Fixed
end SharedNode

end Docker
end Metralectl
