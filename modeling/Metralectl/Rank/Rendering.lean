import Metralectl.Core.Net
import Metralectl.Rank.LocalRank
import Metralectl.Recipe.Registry

/-!
How a machine renders a rank from its own copy of the recipe: the recipe is
resolved, its revision compared, the settings validated against the machine's own
schema, and the whole translated. The command line itself is given; what is
followed here is everything that can refuse one.
-/
namespace Metralectl
namespace Rendering
open Docker LocalRank

/-- One row of the flag table: the key of a setting and the flag it renders. -/
structure FlagSpec where
  key : String
  flag : String
deriving DecidableEq

structure AliasConflict where
  first : String
  second : String
  flag : String
deriving DecidableEq

def AliasConflict.text (c : AliasConflict) : String :=
  "recipe keys " ++ quoted c.first ++ " and " ++ quoted c.second ++ " both render " ++
    quoted c.flag ++
    "; set only one (they are aliases, and emitting the flag twice is not meaningful)"

/-- Two keys of one flag, in the order of the table. -/
def aliasConflict (seen : List FlagSpec) (resolved : Settings) :
    List FlagSpec → Except AliasConflict Unit
  | [] => .ok ()
  | spec :: rest =>
      if (resolved.lookup spec.key).isNone then aliasConflict seen resolved rest
      else
        match seen.find? (·.flag = spec.flag) with
        | some prev => .error ⟨prev.key, spec.key, spec.flag⟩
        | none => aliasConflict (spec :: seen) resolved rest

/-- Which keys are set is all that a conflict is about. -/
theorem aliasConflict_congr {m n : Settings} (same : ∀ k, (m.lookup k).isNone = (n.lookup k).isNone)
    (seen specs : List FlagSpec) : aliasConflict seen m specs = aliasConflict seen n specs := by
  induction specs generalizing seen with
  | nil => rfl
  | cons spec specs ih => simp only [aliasConflict, same, ih]

/-- Overrides beat the recipe's own defaults, and an alias spelling folds onto its
canonical key. -/
def resolveConfig (defaults overrides : Settings) : Settings :=
  let merged := overrides ++ defaults.filter fun kv => (overrides.lookup kv.1).isNone
  match merged.lookup "auth_token" with
  | none => merged
  | some v =>
      let rest := merged.filter (·.1 ≠ "auth_token")
      if (rest.lookup "api_key").isSome then rest else rest ++ [("api_key", v)]

/-- Keys that decide whether a launch may reach the network. -/
def egressEnv : List String := ["HF_HUB_OFFLINE", "TRANSFORMERS_OFFLINE"]

inductive TranslateError where
  | notLaunchable (name : String) (source : NotLaunchable)
  | egressOverride (name key : String)
  | aliasConflict (name : String) (source : AliasConflict)
  | nodeCountMismatch (name : String) (required supplied : Nat)
  | badRendezvousAddress (name addr : String)
deriving DecidableEq

/-- The error with the error it came from behind it. -/
def TranslateError.text : TranslateError → String
  | .notLaunchable name source => s!"{name}: {source.text}: {source.text}"
  | .egressOverride name key =>
      s!"{name}: a recipe may not set {key}. Offline-by-default is the operator's policy, not " ++
        "the recipe's — a recipe that could flip it could also decide, silently, that this " ++
        "launch may reach the network"
  | .aliasConflict name source => s!"{name}: {source.text}: {source.text}"
  | .nodeCountMismatch name required supplied =>
      s!"{name}: recipe requires {required} nodes but placement supplies {supplied}. Launching " ++
        "it on fewer would silently serve a different model than the recipe describes."
  | .badRendezvousAddress name addr =>
      s!"{name}: rendezvous address {addr.quote} is not an IP address. The head chooses it " ++
        "from addresses this fleet actually reported, so anything else means the plan did " ++
        "not come from where it claims."

/-- Refuse a placement that does not match what the recipe needs. -/
def checkNodeCount (recipe : ShippedRecipe) (supplied : Nat) : Except TranslateError Unit :=
  let required := recipe.topology.minNodes
  if supplied < required then .error (.nodeCountMismatch recipe.name.text required supplied)
  else .ok ()

/-- What one machine renders ranks from. -/
structure RankMachine where
  canLaunch : Except String Unit
  registry : RegistrySet
  contentHash : ShippedRecipe → String
  schema : SettingsSchema
  flagTable : List FlagSpec
  argv : ShippedRecipe → Settings → RankAssignment → List String
  explain : String → String

namespace RankMachine

def translate (m : RankMachine) (recipe : ShippedRecipe) (overrides : Settings)
    (a : RankAssignment) : Except TranslateError LaunchPlan := do
  let name := recipe.name.text
  match recipe.launchable with
  | .error source => throw (.notLaunchable name source)
  | .ok () =>
      checkNodeCount recipe a.worldSize
      let resolved := resolveConfig recipe.defaults overrides
      match aliasConflict [] resolved m.flagTable with
      | .error source => throw (.aliasConflict name source)
      | .ok () =>
          if (Net.parseIp a.masterAddr).isNone then
            throw (.badRendezvousAddress name a.masterAddr)
          match recipe.env.find? (·.1 ∈ egressEnv) with
          | some (key, _) => throw (.egressOverride name key)
          | none => return ⟨containerName name (.rank a.rank), m.argv recipe resolved a⟩

def notShipped (recipe : String) (e : ResolveError) : String :=
  s!"this node does not ship recipe {recipe}: {e.text}"

def mismatch (recipe head local_ : String) : String :=
  let stated := if head.isEmpty then "(none sent)" else head
  s!"recipe {recipe} differs between nodes: head has {stated}, this node has {local_}. " ++
    "Update both to the same metralectl before launching."

/-- Resolve, agree on the revision, and translate. -/
def planFor (m : RankMachine) (a : RankAssignment) : Except String LaunchPlan :=
  match m.registry.resolve (.parse a.recipe) with
  | .error e => .error (notShipped a.recipe e)
  | .ok recipe =>
      let local_ := m.contentHash recipe
      if a.recipeHash ≠ local_ then .error (mismatch a.recipe a.recipeHash local_)
      else
        match m.schema.validate a.settings with
        | .error errors =>
            let listed := "; ".intercalate (errors.map (·.text))
            .error s!"this node will not accept those settings: {listed}"
        | .ok overrides =>
            match m.translate recipe overrides a with
            | .error e => .error s!"rendering rank {a.rank} of {a.recipe}: {e.text}"
            | .ok plan => .ok plan

def host (m : RankMachine) : RankHost := ⟨m.canLaunch, m.planFor, m.explain⟩

/-- The port a recipe pins, if it fits one. -/
def recipePort (m : RankMachine) (recipe : String) : Except String (Option Nat) :=
  match m.registry.resolve (.parse recipe) with
  | .error e => .error (notShipped recipe e)
  | .ok r =>
      match r.defaults.lookup "port" with
      | some (.int p) => .ok (if 0 ≤ p ∧ p < 2 ^ 16 then some p.toNat else none)
      | _ => .ok none

/-- Everything that was agreed on by the time a rank is rendered. -/
structure Rendered (m : RankMachine) (a : RankAssignment) (recipe : ShippedRecipe)
    (overrides : Settings) (plan : LaunchPlan) : Prop where
  resolved : m.registry.resolve (.parse a.recipe) = .ok recipe
  revision : a.recipeHash = m.contentHash recipe
  validated : m.schema.validate a.settings = .ok overrides
  launchable : recipe.launchable = .ok ()
  enough : recipe.topology.minNodes ≤ a.worldSize
  unaliased : aliasConflict [] (resolveConfig recipe.defaults overrides) m.flagTable = .ok ()
  meets : (Net.parseIp a.masterAddr).isSome
  offline : recipe.env.find? (·.1 ∈ egressEnv) = none
  plan_eq : plan = ⟨containerName recipe.name.text (.rank a.rank),
    m.argv recipe (resolveConfig recipe.defaults overrides) a⟩

theorem translate_ok {m : RankMachine} {recipe : ShippedRecipe} {overrides : Settings}
    {a : RankAssignment} {plan : LaunchPlan} (h : m.translate recipe overrides a = .ok plan) :
    recipe.launchable = .ok () ∧ recipe.topology.minNodes ≤ a.worldSize ∧
      aliasConflict [] (resolveConfig recipe.defaults overrides) m.flagTable = .ok () ∧
      (Net.parseIp a.masterAddr).isSome ∧ recipe.env.find? (·.1 ∈ egressEnv) = none ∧
      plan = ⟨containerName recipe.name.text (.rank a.rank),
        m.argv recipe (resolveConfig recipe.defaults overrides) a⟩ := by
  simp only [translate, checkNodeCount, bind, Except.bind, pure, Except.pure, throw, throwThe,
    MonadExceptOf.throw] at h
  split at h
  · cases h
  · next able =>
      by_cases few : a.worldSize < recipe.topology.minNodes
      · simp only [if_pos few, reduceCtorEq] at h
      · simp only [if_neg few] at h
        split at h
        · cases h
        · next unaliased =>
            split at h
            · cases h
            · next meets =>
                split at h
                · cases h
                · next offline =>
                    cases h
                    refine ⟨able, Nat.not_lt.mp few, unaliased, ?_, offline, rfl⟩
                    exact Option.isSome_iff_ne_none.mpr (by simpa using meets)

/-- A rank is rendered only when everything is agreed on. -/
theorem planFor_ok {m : RankMachine} {a : RankAssignment} {plan : LaunchPlan} :
    m.planFor a = .ok plan → ∃ recipe overrides, Rendered m a recipe overrides plan := by
  intro h
  unfold planFor at h
  split at h
  · cases h
  · next recipe resolved =>
      simp only at h
      split at h
      · cases h
      · next revision =>
          split at h
          · cases h
          · next overrides validated =>
              split at h
              · cases h
              · next translated =>
                  cases h
                  obtain ⟨able, enough, unaliased, meets, offline, plan_eq⟩ :=
                    translate_ok translated
                  exact ⟨recipe, overrides, resolved, not_not.mp revision, validated, able, enough,
                    unaliased, meets, offline, plan_eq⟩

/-- What a machine starts as a rank it may be asked to stop again. -/
theorem rank_isOurs (recipe : RecipeId) (rank : Nat) :
    isOurContainer (containerName recipe.text (.rank rank)) = true := by
  have name : containerName recipe.text (.rank rank) =
      "metrale-" ++ (recipe.text ++ ("-rank" ++ toString rank)) := by
    simp only [containerName, String.append_assoc]
    rfl
  have chars : ∀ c ∈ (recipe.text ++ ("-rank" ++ toString rank)).toList, recipeChar c = true := by
    intro c hc
    simp only [String.toList_append, List.mem_append] at hc
    cases hc with
    | inl hc => exact recipe.chars c hc
    | inr hc =>
        cases hc with
        | inl hc =>
            have dashed : "-rank".toList.all recipeChar = true := rfl
            exact List.all_eq_true.mp dashed c hc
        | inr hc => exact digits_recipeChar c hc
  unfold isOurContainer
  rw [name, stripPrefix_append]
  simp only [Bool.and_eq_true, List.all_eq_true]
  refine ⟨?_, chars⟩
  simp [String.toList_append]

end RankMachine

section Fixed

theorem qwen_accepted : RecipeId.check "qwen3" = .ok () := by decide

def qwen : RecipeId := ⟨"qwen3", qwen_accepted⟩

def shipped (topology : Topology) (requires : Option HardwareRequirement) (id : RecipeId) :
    ShippedRecipe :=
  ⟨⟨id, "qwen/qwen3", "2", .metrale, [], requires⟩, none, "metrale:local", topology, [], []⟩

theorem kept_nil :
    (fun settings : Settings => (.ok settings : Except (List SettingError) Settings)) [] = .ok [] := rfl

/-- A machine that ships every recipe it is asked for, each for as many machines. -/
def sparkMachine (topology : Topology) (requires : Option HardwareRequirement) : RankMachine where
  canLaunch := .ok ()
  registry :=
    { builtin :=
        { load := fun n => (RecipeId.parse n).toOption.map fun id =>
            .ok (shipped topology requires id)
          named := by
            intro n r h
            cases parsed : RecipeId.parse n with
            | error e => simp [parsed, Except.toOption] at h
            | ok id =>
                simp only [parsed, Except.toOption, Option.map_some, Option.some.injEq,
                  Except.ok.injEq] at h
                subst h
                exact RecipeId.text_of_parse parsed }
      builtinNames := [qwen.text]
      remotes := []
      nearest := fun _ _ => [] }
  contentHash _ := "f00d"
  schema := ⟨fun settings => .ok settings, fun _ _ _ => none, kept_nil⟩
  flagTable := [⟨"port", "--port"⟩]
  argv _ _ _ := ["docker", "run"]
  explain addr := s!"this node cannot reach the rendezvous address {addr}"

end Fixed

end Rendering
end Metralectl
