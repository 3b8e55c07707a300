import Metralectl.Control.Launcher

/-!
The single execution core for launches and stops, over whatever launcher and
admission gate it is given: both may answer differently each time they are
asked, so they pass a state of their own along. Every gate a launch passes is
here, whoever asks.
-/
namespace Metralectl

inductive RuntimeKind where
  | metrale
  | unsupported (runtime : String)
deriving DecidableEq

/-- What the control core reads of a recipe. Its name is the id it was resolved
under. -/
structure Recipe where
  name : RecipeId
  model : String
  recipeVersion : String
  runtime : RuntimeKind
  refusedKeys : List String
  requires : Option HardwareRequirement
deriving DecidableEq

inductive NotLaunchable where
  | executableContent (keys : List String)
  | foreignRuntime (runtime : String)
  | noRuntimeDeclared (version : String)
deriving DecidableEq

def NotLaunchable.text : NotLaunchable → String
  | .executableContent keys =>
      let listed := ", ".intercalate keys
      s!"recipe carries executable-content keys [{listed}]. metralectl never runs " ++
        "recipe-supplied commands — that mechanism is what allowed the tool this " ++
        "replaces to be turned against its users. Move the work into explicit " ++
        "recipe fields, or run it yourself before launching."
  | .foreignRuntime runtime =>
      "recipe targets runtime `" ++ runtime ++
        "`; metralectl launches the `metrale` runtime only"
  | .noRuntimeDeclared version =>
      s!"recipe declares no `runtime:` (schema version {version}). The reference tool " ++
        "guessed one by inspecting the command template; metralectl does not guess " ++
        "what to execute."

/-- Whether a recipe can be launched at all, and if not, why. -/
def Recipe.launchable (r : Recipe) : Except NotLaunchable Unit :=
  if !r.refusedKeys.isEmpty then .error (.executableContent r.refusedKeys)
  else
    match r.runtime with
    | .metrale => .ok ()
    | .unsupported runtime =>
        if runtime.isEmpty then .error (.noRuntimeDeclared r.recipeVersion)
        else .error (.foreignRuntime runtime)

/-- A node's admission state. -/
inductive Admission where
  | open_
  | cordoned (reason : String)
  | draining (reason : String)
deriving DecidableEq

def Admission.admits : Admission → Except String Unit
  | .open_ => .ok ()
  | .cordoned reason =>
      .error s!"this machine is cordoned and takes no new launches: {reason}"
  | .draining reason =>
      .error s!"this machine is draining and takes no new launches: {reason}"

/-- The bounded settings a client may send: their validation, and what a machine
is cautioned against. -/
structure SettingsSchema where
  validate : Settings → Except (List SettingError) Settings
  caution : String → F64 → String → Option String
  validate_nil : validate [] = .ok []

/-- How launches actually happen. -/
structure Launcher (σ : Type) where
  launch : σ → Recipe → Settings → LaunchFor → σ × Except AgentError Started
  fetchImage : σ → OciImage → σ × Except String Unit
  stop : σ → String → σ × Except AgentError Unit
  workloads : σ → σ × Except AgentError (List Workload)

structure LocalControl (σ : Type) where
  resolve : RecipeId → Option Recipe
  named : ∀ id recipe, resolve id = some recipe → recipe.name = id
  launcher : Launcher σ
  canLaunch : Except String Unit
  accelerator : String
  admission : σ → σ × Admission
  schema : SettingsSchema

namespace LocalControl
variable {σ : Type}

/-- What a recipe is refused for on this machine, whatever the settings: it is not
launchable, it needs other hardware, or it serves another model than the release. -/
def recipeGate (c : LocalControl σ) (recipe : Recipe) (release : Option VerifiedRelease) :
    Except String Unit :=
  match recipe.launchable with
  | .error why => .error why.text
  | .ok () =>
      match recipe.requires.map (Hardware.check ·.hardwareClass c.accelerator) with
      | some (.error why) => .error s!"this machine cannot run it: {why}"
      | _ =>
          match release with
          | some r =>
              if r.model ≠ recipe.model then
                .error s!"the release serves {r.model}; this recipe serves {recipe.model}"
              else .ok ()
          | none => .ok ()

/-- The first setting this machine is cautioned against. -/
def cautioned (c : LocalControl σ) (overrides : Settings) : Option SettingError :=
  overrides.findSome? fun (key, value) =>
    match value with
    | .float f => (c.schema.caution key f c.accelerator).map (.denied key)
    | _ => none

def launch (c : LocalControl σ) (s : σ) (id : RecipeId) (requested : Settings)
    (launchFor : LaunchFor) : σ × Except AgentError Started :=
  match c.canLaunch with
  | .error why => (s, .error (.notLaunchable id why))
  | .ok () =>
      let (s, admission) := c.admission s
      match admission.admits with
      | .error reason => (s, .error (.notLaunchable id reason))
      | .ok () =>
          match c.resolve id with
          | none => (s, .error (.unknownRecipe id.text))
          | some recipe =>
              match c.recipeGate recipe launchFor.release with
              | .error why => (s, .error (.notLaunchable id why))
              | .ok () =>
                  match c.schema.validate requested with
                  | .error errors => (s, .error (.badSettings errors))
                  | .ok overrides =>
                      match c.cautioned overrides with
                      | some why => (s, .error (.badSettings [why]))
                      | none => c.launcher.launch s recipe overrides launchFor

def stop (c : LocalControl σ) (s : σ) (id : RecipeId) : σ × Except AgentError Unit :=
  c.launcher.stop s id.text

def fetchImage (c : LocalControl σ) (s : σ) (image : OciImage) : σ × Except String Unit :=
  c.launcher.fetchImage s image

def workloads (c : LocalControl σ) (s : σ) : σ × Except AgentError (List Workload) :=
  c.launcher.workloads s

/-- The model this machine's own copy of a recipe serves. -/
def recipeModel (c : LocalControl σ) (id : RecipeId) : Option String :=
  (c.resolve id).map (·.model)

end LocalControl
end Metralectl
