import Metralectl.Library.SortedMap
import Metralectl.Recipe.Registry
import Mathlib.Data.String.Basic

/-!
A recipe as its file says it: what is read, what is refused, and what is kept. How
a text becomes the raw shape is the YAML reader's, and given.
-/
namespace Metralectl
open SortedMaps

/-- A recipe as YAML presents it. Of the keys the schema does not name only the
names are kept. -/
structure RawRecipe extends RawTopology where
  recipeVersion : Option String
  model : Option String
  modelRevision : Option String
  runtime : Option String
  container : Option String
  defaults : SortedMap String SettingValue
  env : SortedMap String String
  requires : Option HardwareRequirement
  extra : SortedMap String Unit

/-- Keys that carry executable content. -/
def executableKeys : List String :=
  ["pre_exec", "post_exec", "post_commands", "stop_after_post", "mods", "builder",
    "builder_config"]

/-- Keys that alter container isolation, which only the launch profile may set. -/
def isolationKeys : List String := ["executor_config"]

namespace RawRecipe

def refusedKeys (raw : RawRecipe) : List String :=
  (executableKeys ++ isolationKeys).filter fun k => (raw.extra.get? k).isSome

/-- Unknown top-level keys, without the ones that are refused outright. -/
def unknownKeys (raw : RawRecipe) : List String :=
  (raw.extra.entries.map (·.1)).filter fun k => !raw.refusedKeys.contains k

end RawRecipe

/-- A parsed, validated recipe, named by its file. -/
structure ParsedRecipe where
  name : String
  recipeVersion : String
  model : String
  modelRevision : Option String
  runtime : RuntimeKind
  container : String
  topology : Topology
  defaults : SortedMap String SettingValue
  env : SortedMap String String
  requires : Option HardwareRequirement
  unknownKeys : List String
  refusedKeys : List String
deriving DecidableEq

inductive RecipeError where
  | parse (name source : String)
  | missingModel (name : String)
  | missingContainer (name : String)
  | flagShaped (name field value : String)
deriving DecidableEq

/-- Refuse a field that would be read as an option where it lands in an argv. -/
def flagShaped (name field value : String) : Except RecipeError Unit :=
  if (value.toList.dropWhile isWhitespace).head? = some '-' then
    .error (.flagShaped name field value)
  else .ok ()

def RuntimeKind.ofRaw : Option String → RuntimeKind
  | some "metrale" => .metrale
  | some other => .unsupported other
  | none => .unsupported ""

namespace ParsedRecipe

/-- A text that is more than white space. -/
def written (field : Option String) : Option String := field.filter fun s => trim s ≠ ""

def ofRaw (name : String) (raw : RawRecipe) : Except RecipeError ParsedRecipe :=
  match written raw.model with
  | none => .error (.missingModel name)
  | some model => do
      flagShaped name "model" model
      match written raw.container with
      | none => .error (.missingContainer name)
      | some container =>
          flagShaped name "container" container
          return {
            name := name
            recipeVersion := raw.recipeVersion.getD "2"
            model := model
            modelRevision := raw.modelRevision
            runtime := .ofRaw raw.runtime
            container := container
            topology := .fromRaw raw.toRawTopology
            defaults := raw.defaults
            env := raw.env
            requires := raw.requires
            unknownKeys := raw.unknownKeys
            refusedKeys := raw.refusedKeys }

/-- Parse a recipe from YAML text. -/
def parse (yaml : String → Except String RawRecipe) (name text : String) :
    Except RecipeError ParsedRecipe :=
  match yaml text with
  | .error source => .error (.parse name source)
  | .ok raw => ofRaw name raw

/-- The recipe as the control core sees it, under the id it was resolved by. -/
def control (r : ParsedRecipe) (id : RecipeId) : Recipe :=
  ⟨id, r.model, r.recipeVersion, r.runtime, r.refusedKeys, r.requires⟩

/-- Whether the recipe can be launched at all, and if not, why. -/
def launchable (r : ParsedRecipe) : Except NotLaunchable Unit :=
  if !r.refusedKeys.isEmpty then .error (.executableContent r.refusedKeys)
  else
    match r.runtime with
    | .metrale => .ok ()
    | .unsupported runtime =>
        if runtime.isEmpty then .error (.noRuntimeDeclared r.recipeVersion)
        else .error (.foreignRuntime runtime)

theorem control_launchable (r : ParsedRecipe) (id : RecipeId) :
    (r.control id).launchable = r.launchable := rfl

end ParsedRecipe
end Metralectl
