import Metralectl.Control.ReconcileDriver

/-!
The production launcher over a container runtime. What the machine is stays
fixed; what its runtime and its admission gate come to is settled beforehand for
each convergence, by how often they have been asked. Nothing else starts or
stops a container while one is under way.
-/
namespace Metralectl
namespace Docker
open Reconcile

/-- How a docker command fails: it could not be run at all, or it ran and failed. -/
inductive RuntimeError where
  | unavailable (detail : String)
  | failed (detail : String)
deriving DecidableEq

def RuntimeError.error : RuntimeError → AgentError
  | .unavailable detail => .dockerUnavailable detail
  | .failed detail => .launchFailed detail

/-- The rendering of a recipe on this machine, and its model cache. -/
structure Rendering where
  plan : Recipe → Settings → Except String DockerCommand
  missingWeights : String → Option String
  plan_name : ∀ recipe overrides cmd, plan recipe overrides = .ok cmd →
    cmd.name = containerName recipe.name.text .solo
  plan_labels : ∀ recipe overrides cmd, plan recipe overrides = .ok cmd →
    cmd.labels = [(labelManaged, "1"), (labelRecipe, recipe.name.text)]

structure Machine where
  node : NodeId
  resolve : RecipeId → Option Recipe
  named : ∀ id recipe, resolve id = some recipe → recipe.name = id
  canLaunch : Except String Unit
  accelerator : String
  schema : SettingsSchema
  rendering : Rendering

/-- What the runtime and the admission gate come to, while one action is answered. -/
structure Conditions where
  listing : Nat → Option RuntimeError
  admission : Nat → Admission
  /-- A failing stop may still have stopped some of its containers. -/
  stopping : String → Option String
  halted : ContainerId → Bool
  pulling : OciImage → Option String
  relisting : Option RuntimeError
  inspecting : Option String
  running : Except String ContainerId
  survives : Bool

/-- The running containers, and how often they were listed and the gate read.
Every container a launch has started is kept, whether or not it still runs. -/
structure Session where
  containers : List Container
  listings : Nat
  readings : Nat
  started : List Container
deriving DecidableEq

def Session.rows (s : Session) : List PsRow := s.containers.map psRow

def Session.listed (s : Session) : Session := { s with listings := s.listings + 1 }

def Session.read (s : Session) : Session := { s with readings := s.readings + 1 }

/-- The command a launch runs: the recipe's, with the owner and the trace written
on the container and a release's image in place of the recipe's tag. -/
def launchPlan (base : DockerCommand) (launchFor : LaunchFor) : DockerCommand :=
  { base with
    labels := base.labels ++ (launchFor.owner.map ownerLabels).getD [] ++
      (launchFor.trace.map traceLabels).getD []
    image := (launchFor.release.map (·.image.reference)).getD base.image }

def Container.of (plan : DockerCommand) (id : ContainerId) : Container :=
  ⟨id, plan.name, plan.image, plan.command, plan.env, plan.labels⟩

/-- What a model that is not there is refused with, unless the recipe brings its
own weights. -/
def unready (m : Machine) (plan : DockerCommand) (recipe : Recipe) : Option String :=
  if plan.command.contains "--model-from-path" then none
  else m.rendering.missingWeights recipe.model

/-- A launch of a name that runs already: the same launch is returned as it is,
any other is refused. -/
def adopt (cond : Conditions) (plan : DockerCommand) (recipe : Recipe) (launchFor : LaunchFor)
    (running : Option Container) : Except AgentError Started :=
  match cond.inspecting, running with
  | some detail, _ => .error (.launchFailed detail)
  | none, none => .error (.launchFailed "docker inspect found no such container")
  | none, some c =>
      let owned := launchFor.owner.all (isOwnedBy (launchedAs c))
      if owned && isSameLaunch plan (launchedAs c) then
        .ok ⟨plan.name, endpointOf plan.command⟩
      else .error (.alreadyRunning recipe.name)

/-- `docker run`. -/
def run (cond : Conditions) (s : Session) (plan : DockerCommand) :
    Session × Except AgentError Started :=
  match cond.running with
  | .error detail => (s, .error (.launchFailed detail))
  | .ok id =>
      let c := Container.of plan id
      ({ s with
          containers := if cond.survives then s.containers ++ [c] else s.containers
          started := c :: s.started },
        .ok ⟨plan.name, endpointOf plan.command⟩)

def launch (m : Machine) (cond : Conditions) (s : Session) (recipe : Recipe)
    (overrides : Settings) (launchFor : LaunchFor) : Session × Except AgentError Started :=
  match m.rendering.plan recipe overrides with
  | .error why => (s, .error (.notLaunchable recipe.name why))
  | .ok base =>
      let plan := launchPlan base launchFor
      match unready m plan recipe with
      | some detail => (s, .error (.launchFailed detail))
      | none =>
          match cond.relisting with
          | some e => (s, .error e.error)
          | none =>
              match runningAs plan.name s.rows with
              | some row =>
                  (s, adopt cond plan recipe launchFor (s.containers.find? (·.id = row.id)))
              | none => run cond s plan

/-- A stop by label: every container of the recipe, none being nothing to do. -/
def stop (cond : Conditions) (s : Session) (recipe : String) : Session × Except AgentError Unit :=
  let reached := fun c => isStopTarget recipe (psRow c)
  match cond.stopping recipe with
  | none => ({ s with containers := s.containers.filter (fun c => !reached c) }, .ok ())
  | some detail =>
      ({ s with containers := s.containers.filter (fun c => !(reached c && cond.halted c.id)) },
        .error (.launchFailed detail))

def launcher (m : Machine) (cond : Conditions) : Launcher Session where
  launch := launch m cond
  fetchImage s image :=
    match cond.pulling image with
    | some why => (s, .error why)
    | none => (s, .ok ())
  stop := stop cond
  workloads s :=
    (s.listed,
      match cond.listing s.listings with
      | some e => .error e.error
      | none => .ok (workloads s.rows))

def control (m : Machine) (cond : Conditions) : LocalControl Session where
  resolve := m.resolve
  named := m.named
  launcher := launcher m cond
  canLaunch := m.canLaunch
  accelerator := m.accelerator
  admission s := (s.read, cond.admission s.readings)
  schema := m.schema

/-- A call begins on what runs. -/
def Session.begin_ (containers : List Container) : Session := ⟨containers, 0, 0, []⟩

section Sessions
variable (s : Session)

@[simp] theorem Session.listed_containers : s.listed.containers = s.containers := rfl

@[simp] theorem Session.listed_listings : s.listed.listings = s.listings + 1 := rfl

@[simp] theorem Session.listed_readings : s.listed.readings = s.readings := rfl

@[simp] theorem Session.listed_started : s.listed.started = s.started := rfl

@[simp] theorem Session.listed_rows : s.listed.rows = s.rows := rfl

@[simp] theorem Session.read_containers : s.read.containers = s.containers := rfl

@[simp] theorem Session.read_listings : s.read.listings = s.listings := rfl

@[simp] theorem Session.read_readings : s.read.readings = s.readings + 1 := rfl

@[simp] theorem Session.read_started : s.read.started = s.started := rfl

@[simp] theorem Session.read_rows : s.read.rows = s.rows := rfl

variable (m : Machine) (cond : Conditions)

@[simp] theorem control_canLaunch : (control m cond).canLaunch = m.canLaunch := rfl

@[simp] theorem control_resolve : (control m cond).resolve = m.resolve := rfl

@[simp] theorem control_schema : (control m cond).schema = m.schema := rfl

@[simp] theorem control_admission :
    (control m cond).admission s = (s.read, cond.admission s.readings) := rfl

@[simp] theorem control_launch : (control m cond).launcher.launch = launch m cond := rfl

@[simp] theorem control_stop (id : RecipeId) :
    (control m cond).stop s id = stop cond s id.text := rfl

variable {m cond s} {t : Session}

theorem workloads_ok {ws : List Workload} : (control m cond).workloads s = (t, .ok ws) ↔
    cond.listing s.listings = none ∧ t = s.listed ∧ ws = workloads s.rows := by
  simp only [LocalControl.workloads, control, launcher]
  cases cond.listing s.listings with
  | none => simp [eq_comm]
  | some e => simp

theorem workloads_error {e : AgentError} : (control m cond).workloads s = (t, .error e) ↔
    t = s.listed ∧ ∃ why, cond.listing s.listings = some why ∧ e = why.error := by
  simp only [LocalControl.workloads, control, launcher]
  cases cond.listing s.listings with
  | none => simp
  | some why => simp [eq_comm]

theorem stop_ok {recipe : String} (h : stop cond s recipe = (t, .ok ())) :
    cond.stopping recipe = none ∧
      t = { s with containers := s.containers.filter fun c => !isStopTarget recipe (psRow c) } := by
  simp only [stop] at h
  split at h
  · next stopped =>
      cases h
      exact ⟨stopped, rfl⟩
  · cases h

theorem stop_error {recipe : String} {e : AgentError} (h : stop cond s recipe = (t, .error e)) :
    ∃ detail, cond.stopping recipe = some detail ∧ e = .launchFailed detail := by
  simp only [stop] at h
  split at h
  · cases h
  · next detail failed =>
      cases h
      exact ⟨detail, failed, rfl⟩

variable {desired : Desired}

/-- Looking once more at what runs changes nothing. -/
theorem answerNow_state (outcome : ActionOutcome) (detail : Option String) :
    (answerNow (control m cond) desired s outcome detail).1 = s.listed := by
  cases h : (control m cond).workloads s with
  | mk t listing =>
  cases listing with
  | error e =>
      simp only [answerNow, h]
      exact (workloads_error.mp h).1
  | ok ws =>
      simp only [answerNow, h]
      exact (workloads_ok.mp h).2.1

theorem stopRefusal_run {recipe : RecipeId} {model : String} {placement : Reconcile.Placement}
    (intent : desired.intent = .run recipe model placement) :
    stopRefusal (control m cond) desired s =
      (s.read, admissionRefusal (cond.admission s.readings)) := by
  simp only [stopRefusal, intent, control_admission]

end Sessions

section Launched
variable {m : Machine} {recipe : Recipe} {overrides : Settings} {base : DockerCommand}
  {launchFor : LaunchFor} {owner : Owner}

/-- What a launch starts is read back as a workload of its recipe and its owner. -/
theorem workload_launched (planned : m.rendering.plan recipe overrides = .ok base)
    (owned : launchFor.owner = some owner) (id : ContainerId) :
    workload (psRow (Container.of (launchPlan base launchFor) id)) =
      some ⟨id.extractLsb' 128 128, recipe.name, some owner⟩ := by
  have labels : (Container.of (launchPlan base launchFor) id).labels =
      (labelManaged, "1") :: (labelRecipe, recipe.name.text) ::
        (ownerLabels owner ++ (launchFor.trace.map traceLabels).getD []) := by
    simp [Container.of, launchPlan, owned, m.rendering.plan_labels _ _ _ planned]
  have row : psRow (Container.of (launchPlan base launchFor) id) =
      ⟨id, (launchPlan base launchFor).name, some recipe.name.text,
        some owner.deployment.text, some (toString owner.generation.num)⟩ := by
    simp only [psRow, labels]
    rw [label_eq rfl recipe.name.chars recipe.name.text_ne,
      label_eq rfl owner.deployment.chars owner.deployment.text_ne,
      label_eq rfl digits_recipeChar Nat.repr_ne_empty]
    rfl
  have read : recipeOf ⟨id, (launchPlan base launchFor).name, some recipe.name.text,
      some owner.deployment.text, some (toString owner.generation.num)⟩ = some recipe.name :=
    toOption_parse.mpr rfl
  simp only [workload, row, read, Option.map_some, ownerOf_labels]

end Launched

section Fixed

/-- A machine that has every recipe asked for, all of one model. -/
def plainMachine : Machine where
  node := 7
  resolve id := some ⟨id, "qwen/qwen3", "2", .metrale, [], none⟩
  named := by
    intro id recipe h
    cases h
    rfl
  canLaunch := .ok ()
  accelerator := "NVIDIA GB10"
  schema := ⟨fun settings => .ok settings, fun _ _ _ => none, rfl⟩
  rendering :=
    { plan := fun recipe _ => .ok ⟨containerName recipe.name.text .solo, "metrale:local", ["serve"],
        [], [(labelManaged, "1"), (labelRecipe, recipe.name.text)]⟩
      missingWeights := fun _ => none
      plan_name := by
        intro recipe overrides cmd h
        cases h
        rfl
      plan_labels := by
        intro recipe overrides cmd h
        cases h
        rfl }

/-- A runtime that does what it is asked, giving a new container the id `id`. -/
def smooth (id : ContainerId) : Conditions where
  listing _ := none
  admission _ := .open_
  stopping _ := none
  halted _ := false
  pulling _ := none
  relisting := none
  inspecting := none
  running := .ok id
  survives := true

theorem qwen_accepted : RecipeId.check "qwen3" = .ok () := by decide

def qwen : RecipeId := ⟨"qwen3", qwen_accepted⟩

theorem chat_label : isDnsLabel "chat" = true := by decide

def chat : DeploymentName := ⟨"chat", chat_label⟩

theorem one_fits : 1 < 2 ^ 64 := by decide

def one : Generation := ⟨1, Nat.one_pos, one_fits⟩

theorem two_fits : 2 < 2 ^ 64 := by decide

def two : Generation := ⟨2, Nat.two_pos, two_fits⟩

def three : Generation := ⟨3, by decide, by decide⟩

def qwenRelease : VerifiedRelease := ⟨⟨"ghcr.io/metrale/serve", "sha256:ab"⟩, "qwen/qwen3"⟩

/-- The deployment, running a generation. -/
def serving (g : Generation) : Container where
  id := g.num
  name := containerName qwen.text .solo
  image := qwenRelease.image.reference
  cmd := ["serve"]
  env := []
  labels := (labelManaged, "1") :: (labelRecipe, qwen.text) :: ownerLabels ⟨chat, g⟩

end Fixed

end Docker
end Metralectl
