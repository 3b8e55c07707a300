import Metralectl.Protocol.Ids

/-!
The control vocabulary one agent speaks to another: requests, answers and the
errors inside them. The verbs are closed; no variant carries a command line.
A fractional number travels as its IEEE bit pattern and is never computed with
here.
-/
namespace Metralectl

abbrev F64 := BitVec 64

inductive SettingValue where
  | bool (b : Bool)
  | int (i : Int)
  | float (f : F64)
  | str (s : String)
deriving DecidableEq, Repr

abbrev Settings := List (String × SettingValue)

inductive SettingError where
  | unknownKey (key : String)
  | denied (key reason : String)
  | outOfRange (key min max : String)
  | notAVariant (key : String) (allowed : List String)
  | wrongType (key expected : String)
deriving DecidableEq, Repr

def SettingError.text : SettingError → String
  | .unknownKey key => "`" ++ key ++ "` is not a setting this agent understands"
  | .denied key reason => "`" ++ key ++ s!"` cannot be set remotely: {reason}"
  | .outOfRange key min max => "`" ++ key ++ s!"` must be between {min} and {max}"
  | .notAVariant key allowed =>
      let listed := ", ".intercalate allowed
      "`" ++ key ++ s!"` must be one of: {listed}"
  | .wrongType key expected => "`" ++ key ++ s!"` expected {expected}"

inductive AgentError where
  | unsupportedProtocol (min max requested : Nat)
  | notPaired
  | notReady
  | invalidMessage (detail : String)
  | unknownRecipe (recipe : String)
  | notLaunchable (recipe : RecipeId) (reason : String)
  | badSettings (errors : List SettingError)
  | alreadyRunning (recipe : RecipeId)
  | dockerUnavailable (detail : String)
  | launchFailed (detail : String)
  | notRoutable (node : NodeId) (reason : String)
  | relayRefused (node : NodeId) (via : Option NodeId) (detail : String) (transient : Bool)
  | controlRefused (node : NodeId) (reason : String)
deriving DecidableEq

structure RecipeInfo where
  id : RecipeId
  model : String
  nodes : Nat
  runnable : Bool
  reason : Option String
  defaults : Settings
deriving DecidableEq

inductive LaunchPhase where
  | pulling
  | starting
  | loadingWeights
  | ready
  | serving
  | degraded (reason : String)
  | stopping
  | exited (code : Option Int)
deriving DecidableEq

structure LaunchReading where
  requestsTotal : Option F64
  requestsActive : Option F64
  decodeTokensPerS : Option F64
  promptTokensPerS : Option F64
  ttftP50S : Option F64
  ttftP90S : Option F64
  acceptRate : Option F64
  prefixHitRate : Option F64
  islMean : Option F64
  oslMean : Option F64
  windowS : Option F64
  promptTokensTotal : Option Nat
  generationTokensTotal : Option Nat
  tpotP50S : Option F64
  queueTimeP50S : Option F64
  gpuEnergyMjTotal : Option Nat
  phase : Option LaunchPhase
  engineCommit : Option String
deriving DecidableEq

/-- One line of a target's status: the recipe is recovered from the container name. -/
structure RunningLaunch where
  container : String
  recipe : Option RecipeId
  status : String
deriving DecidableEq

inductive ControlReq where
  | listRecipes
  | preview (recipe : RecipeId) (settings : Settings)
  | launch (recipe : RecipeId) (settings : Settings)
  | stop (recipe : RecipeId)
  | status
  | stats (recipe : RecipeId)
  | logs (recipe : RecipeId) (lines : Nat)
deriving DecidableEq

inductive ControlRep where
  | recipes (recipes : List RecipeInfo)
  | previewed (command : String) (unapplied : List String)
  | started (recipe : RecipeId) (container : String) (endpoint : Option String)
  | stopped (recipe : RecipeId)
  | status (running : List RunningLaunch)
  | stats (recipe : RecipeId) (stats : LaunchReading)
  | logs (recipe : RecipeId) (container : String) (lines : List String) (running : Bool)
  | refused (by_ : NodeId) (error : AgentError)
deriving DecidableEq

end Metralectl
