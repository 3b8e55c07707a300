import Metralectl.Control.Ownership
import Metralectl.Rank.RankService
import Metralectl.Translate.Planned

/-!
The docker launcher as the commands it runs. What docker makes of a command, and what
anybody else does between two of them, is its runner's: it may answer anything.
-/
namespace Metralectl
namespace Commands
open Docker Translate Reconcile

/-- A node, and what runs its commands. A command that is answered with an error could not be
run; how the account of one container is read is given. -/
structure Node (τ : Type) where
  run : τ → List String → τ × Except String Output
  admission : τ → τ × Admission
  parseInspect : String → Except String LaunchedAs
  renderer : NodeRenderer
  resolve : RecipeId → Option Recipe
  named : ∀ id recipe, resolve id = some recipe → recipe.name = id
  canLaunch : Except String Unit
  accelerator : String
  schema : SettingsSchema

/-- Where the runner is, and every command it was asked to run, the last one first. -/
structure Issued (τ : Type) where
  runner : τ
  argvs : List (List String)

def labelColumn (key : String) : String := "\x7b\x7b.Label \"" ++ key ++ "\"\x7d\x7d"

def psFormat : String :=
  "\x7b\x7b.ID\x7d\x7d\t\x7b\x7b.Names\x7d\x7d\t" ++ labelColumn labelRecipe ++ "\t" ++
    labelColumn labelDeployment ++ "\t" ++ labelColumn labelGeneration

def inspectFormat : String := "\x7b\x7bjson .Config\x7d\x7d"

/-- The docker command of a launch: what was planned, with its owner and its trace among the
labels, and a release's image in place of the recipe's tag. -/
def launchRun (planned : DockerRun) (launchFor : LaunchFor) : DockerRun :=
  { planned with
    autoRemove := false
    labels := planned.labels ++ (launchFor.owner.map ownerLabels).getD [] ++
      (launchFor.trace.map traceLabels).getD []
    image := (launchFor.release.map (·.image.reference)).getD planned.image }

namespace Node
variable {τ : Type} (n : Node τ)

def ask (s : Issued τ) (argv : List String) : Issued τ × Except String Output :=
  let (runner, out) := n.run s.runner argv
  (⟨runner, argv :: s.argvs⟩, out)

/-- Every running container, with the full ids. -/
def ps (s : Issued τ) : Issued τ × Except AgentError (List PrintedRow) :=
  match n.ask s ["docker", "ps", "--no-trunc", "--format", psFormat] with
  | (s, .error why) => (s, .error (.dockerUnavailable why))
  | (s, .ok out) =>
      if out.success then (s, (parsePs out.stdout).mapError .launchFailed)
      else (s, .error (.dockerUnavailable (trim out.stderr)))

/-- What a running container was started with. -/
def inspect (s : Issued τ) (id : String) : Issued τ × Except AgentError LaunchedAs :=
  match n.ask s ["docker", "inspect", "--format", inspectFormat, id] with
  | (s, .error why) => (s, .error (.launchFailed why))
  | (s, .ok out) =>
      if out.success then (s, (n.parseInspect out.stdout).mapError .launchFailed)
      else (s, .error (.launchFailed s!"docker inspect exited {out.status}: {trim out.stderr}"))

/-- A model that is not there, unless the recipe brings its own weights. -/
def unready (docker : DockerRun) (recipe : Recipe) : Option String :=
  if docker.command.contains "--model-from-path" then none
  else n.renderer.missingWeights recipe.model

def adopt (docker : DockerRun) (recipe : Recipe) (launchFor : LaunchFor) (launched : LaunchedAs) :
    Except AgentError Started :=
  if !launchFor.owner.all (isOwnedBy launched) || !isSameLaunch docker.launched launched then
    .error (.alreadyRunning recipe.name)
  else .ok ⟨docker.name, endpointOf docker.command⟩

/-- A container of the name is cleared, whether there is one or not, and another one started. -/
def start (s : Issued τ) (docker : DockerRun) : Issued τ × Except AgentError Started :=
  let (s, _) := n.ask s ["docker", "rm", "-f", docker.name]
  match n.ask s docker.toArgv with
  | (s, .error why) => (s, .error (.launchFailed why))
  | (s, .ok out) =>
      if out.success then (s, .ok ⟨docker.name, endpointOf docker.command⟩)
      else (s, .error (.launchFailed s!"docker run exited {out.status}: {trim out.stderr}"))

def launch (s : Issued τ) (recipe : Recipe) (overrides : Settings) (launchFor : LaunchFor) :
    Issued τ × Except AgentError Started :=
  match n.renderer.translated recipe overrides with
  | .error e => (s, .error (.notLaunchable recipe.name e.text))
  | .ok plan =>
      let docker := launchRun plan.docker launchFor
      match n.unready docker recipe with
      | some detail => (s, .error (.launchFailed detail))
      | none =>
          match n.ps s with
          | (s, .error e) => (s, .error e)
          | (s, .ok rows) =>
              match rows.find? (·.name = docker.name) with
              | none => n.start s docker
              | some row =>
                  match n.inspect s row.id with
                  | (s, .error e) => (s, .error e)
                  | (s, .ok launched) => (s, adopt docker recipe launchFor launched)

/-- An image that is there already is not fetched. -/
def fetchImage (s : Issued τ) (image : OciImage) : Issued τ × Except String Unit :=
  let reference := image.reference
  match n.ask s ["docker", "image", "inspect", "--format", "\x7b\x7b.Id\x7d\x7d", reference] with
  | (s, present) =>
      if present.toOption.any (·.success) then (s, .ok ())
      else
        match n.ask s ["docker", "pull", reference] with
        | (s, .error why) => (s, .error s!"docker pull {reference}: {why}")
        | (s, .ok out) =>
            if out.success then (s, .ok ())
            else (s, .error s!"docker pull {reference} exited {out.status}: {trim out.stderr}")

def stop (s : Issued τ) (recipe : String) : Issued τ × Except AgentError Unit :=
  match n.ps s with
  | (s, .error e) => (s, .error e)
  | (s, .ok rows) =>
      let ids := (selected recipe rows).map (·.id)
      if ids.isEmpty then (s, .ok ())
      else
        match n.ask s (["docker", "stop"] ++ ids) with
        | (s, .error why) => (s, .error (.launchFailed why))
        | (s, .ok out) =>
            if out.success then (s, .ok ()) else (s, .error (.launchFailed (trim out.stderr)))

def workloads (s : Issued τ) : Issued τ × Except AgentError (List Workload) :=
  match n.ps s with
  | (s, .error e) => (s, .error e)
  | (s, .ok rows) => (s, (printedWorkloads rows).mapError .launchFailed)

/-- The gate is read off the node's own files: no command is run for it. -/
def gate (s : Issued τ) : Issued τ × Admission :=
  let (runner, admission) := n.admission s.runner
  (⟨runner, s.argvs⟩, admission)

def control : LocalControl (Issued τ) where
  resolve := n.resolve
  named := n.named
  launcher :=
    { launch := n.launch
      fetchImage := n.fetchImage
      stop := n.stop
      workloads := n.workloads }
  canLaunch := n.canLaunch
  accelerator := n.accelerator
  admission := n.gate
  schema := n.schema

end Node

/-- Whether a command starts a container. -/
def startsContainer (argv : List String) : Bool := argv.take 2 = ["docker", "run"]

section Running
variable {τ : Type} {n : Node τ} {s : Issued τ} {release : VerifiedRelease} {docker : DockerRun}

/-- A command that starts a container starts the release's image, by its digest, for a recipe this
node resolves that is of the release's model. -/
def RunsRelease (n : Node τ) (release : VerifiedRelease) (argv : List String) : Prop :=
  ∃ (recipe : Recipe) (plan : Translate.LaunchPlan) (docker : DockerRun), n.resolve recipe.name = some recipe ∧ recipe.model = release.model ∧
    n.renderer.translated recipe [] = .ok plan ∧ docker.command = plan.docker.command ∧
    docker.image = release.image.reference ∧ argv = docker.toArgv

/-- Every container that was started was the release's. -/
def OnlyRelease (n : Node τ) (release : VerifiedRelease) (s : Issued τ) : Prop :=
  ∀ argv ∈ s.argvs, startsContainer argv = true → RunsRelease n release argv

theorem OnlyRelease.ask (h : OnlyRelease n release s) {argv : List String}
    (fits : startsContainer argv = true → RunsRelease n release argv) :
    OnlyRelease n release (n.ask s argv).1 := by
  intro asked member
  cases List.mem_cons.mp member with
  | inl last =>
      rw [last]
      exact fits
  | inr before => exact h asked before

/-- The other commands start nothing. -/
theorem OnlyRelease.look (h : OnlyRelease n release s) {argv : List String}
    (other : startsContainer argv = false) : OnlyRelease n release (n.ask s argv).1 :=
  h.ask fun starts => absurd (other.symm.trans starts) nofun

theorem OnlyRelease.ps (h : OnlyRelease n release s) : OnlyRelease n release (n.ps s).1 := by
  have looked := h.look (show startsContainer
    ["docker", "ps", "--no-trunc", "--format", psFormat] = false by simp [startsContainer])
  unfold Node.ps
  split
  · next asked => rwa [asked] at looked
  · next asked =>
      rw [asked] at looked
      split <;> exact looked

theorem OnlyRelease.inspect (h : OnlyRelease n release s) (id : String) :
    OnlyRelease n release (n.inspect s id).1 := by
  have looked := h.look (show startsContainer
    ["docker", "inspect", "--format", inspectFormat, id] = false by simp [startsContainer])
  unfold Node.inspect
  split
  · next asked => rwa [asked] at looked
  · next asked =>
      rw [asked] at looked
      split <;> exact looked

theorem OnlyRelease.start (h : OnlyRelease n release s)
    (fits : RunsRelease n release docker.toArgv) :
    OnlyRelease n release (n.start s docker).1 := by
  have cleared := h.look (show startsContainer ["docker", "rm", "-f", docker.name] = false by
    simp [startsContainer])
  have ran := @OnlyRelease.ask _ _ _ _ cleared docker.toArgv fun _ => fits
  unfold Node.start
  dsimp only
  split
  · next asked => rwa [asked] at ran
  · next asked =>
      rw [asked] at ran
      split <;> exact ran

/-- A launch for the release, of a recipe of its model, starts nothing else. -/
theorem OnlyRelease.launch (h : OnlyRelease n release s) {recipe : Recipe} {launchFor : LaunchFor}
    (resolved : n.resolve recipe.name = some recipe) (serves : recipe.model = release.model)
    (for_ : launchFor.release = some release) :
    OnlyRelease n release (n.launch s recipe [] launchFor).1 := by
  unfold Node.launch
  split
  · exact h
  · next plan planned =>
      dsimp only
      split
      · exact h
      · have listed := h.ps
        split
        · next asked => rwa [asked] at listed
        · next asked =>
            rw [asked] at listed
            split
            · have image : (launchRun plan.docker launchFor).image = release.image.reference := by
                simp only [launchRun, for_, Option.map_some, Option.getD_some]
              exact listed.start ⟨recipe, plan, launchRun plan.docker launchFor, resolved, serves,
                planned, rfl, image, rfl⟩
            · next row _ =>
                have looked := listed.inspect row.id
                split
                · next seen => rwa [seen] at looked
                · next seen => rwa [seen] at looked

theorem OnlyRelease.fetchImage (h : OnlyRelease n release s) (image : OciImage) :
    OnlyRelease n release (n.fetchImage s image).1 := by
  have looked := h.look (show startsContainer ["docker", "image", "inspect", "--format",
    "\x7b\x7b.Id\x7d\x7d", image.reference] = false by simp [startsContainer])
  have pulled := looked.look (show startsContainer ["docker", "pull", image.reference] = false by
    simp [startsContainer])
  unfold Node.fetchImage
  dsimp only
  split
  · exact looked
  · split
    · next asked => rwa [asked] at pulled
    · next asked =>
        rw [asked] at pulled
        split <;> exact pulled

theorem OnlyRelease.stop (h : OnlyRelease n release s) (recipe : String) :
    OnlyRelease n release (n.stop s recipe).1 := by
  have listed := h.ps
  unfold Node.stop
  split
  · next asked => rwa [asked] at listed
  · next t rows asked =>
      rw [asked] at listed
      dsimp only
      split
      · exact listed
      · have stopped := listed.look (show startsContainer
          (["docker", "stop"] ++ (selected recipe rows).map (·.id)) = false by
            simp [startsContainer])
        split
        · next done => rwa [done] at stopped
        · next done =>
            rw [done] at stopped
            split <;> exact stopped

theorem OnlyRelease.workloads (h : OnlyRelease n release s) :
    OnlyRelease n release (n.workloads s).1 := by
  have listed := h.ps
  unfold Node.workloads
  split
  · next asked => rwa [asked] at listed
  · next asked => rwa [asked] at listed

theorem recipeGate_model {σ : Type} {c : LocalControl σ} {recipe : Recipe}
    (gated : c.recipeGate recipe (some release) = .ok ()) : recipe.model = release.model := by
  unfold LocalControl.recipeGate at gated
  split at gated
  · cases gated
  · split at gated
    · cases gated
    · dsimp only at gated
      split at gated
      · cases gated
      · next same => exact (not_not.mp same).symm

variable {desired : Desired} {trace : Option ControlTrace}

theorem keptFor_onlyRelease :
    KeptFor n.control desired (some release) trace (OnlyRelease n release) where
  listing _ h := h.workloads
  gate _ h := h
  fetching _ image h := h.fetchImage image
  launching _ _ resolved gated h :=
    h.launch resolved (recipeGate_model gated) rfl
  stopping _ _ _ _ recipe h _ _ _ := h.stop recipe.text

end Running

end Commands
end Metralectl
