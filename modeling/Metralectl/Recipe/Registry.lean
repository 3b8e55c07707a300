import Metralectl.Control.LocalControl

/-!
Where recipes come from, how a name resolves to one, and how many machines one is
for. The files themselves and the similarity of names are given; a recipe loads
under the name it was asked for.
-/
namespace Metralectl

/-- What a recipe file says about how many machines it is for. -/
structure RawTopology where
  minNodes : Option Nat
  maxNodes : Option Nat
  soloOnly : Option Bool
  clusterOnly : Option Bool

structure Topology where
  minNodes : Nat
  maxNodes : Option Nat
  one_le : 1 ≤ minNodes
  le_max : ∀ most, maxNodes = some most → minNodes ≤ most
deriving DecidableEq

namespace Topology

def Allows (t : Topology) (n : Nat) : Prop :=
  t.minNodes ≤ n ∧ ∀ most, t.maxNodes = some most → n ≤ most

/-- A maximum below the minimum is a contradiction; the explicit floor stands. -/
def fromRaw (raw : RawTopology) : Topology :=
  let floor := max (raw.minNodes.getD 1) 1
  let fewest := if raw.clusterOnly.getD false then max floor 2 else floor
  let most := if raw.soloOnly.getD false then some 1 else raw.maxNodes
  { minNodes := fewest
    maxNodes := most.map fun m => if m < fewest then fewest else m
    one_le := by
      have least : 1 ≤ floor := Nat.le_max_right _ _
      simp only [fewest]
      split
      · exact least.trans (Nat.le_max_left _ _)
      · exact least
    le_max := by
      intro m h
      obtain ⟨m', _, rfl⟩ := Option.map_eq_some_iff.mp h
      by_cases below : m' < fewest
      · rw [if_pos below]
      · rw [if_neg below]
        exact Nat.not_lt.mp below }

end Topology

/-- A recipe as the registry loads it, beyond what the control core reads. -/
structure ShippedRecipe extends Recipe where
  modelRevision : Option String
  container : String
  topology : Topology
  defaults : Settings
  env : List (String × String)
deriving DecidableEq

inductive RecipeRef where
  | scoped_ (registry name : String)
  | bare (name : String)
  | path (path : String)
deriving DecidableEq, Repr

namespace RecipeRef

def splitOnce (sep : Char) (cs : List Char) : Option (List Char × List Char) :=
  match cs.dropWhile (· ≠ sep) with
  | [] => none
  | _ :: rest => some (cs.takeWhile (· ≠ sep), rest)

def endsWith (tail : String) (cs : List Char) : Bool := tail.toList.isSuffixOf cs

/-- What has a separator or a YAML extension is a path. -/
def unscoped (input : String) : RecipeRef :=
  let cs := input.toList
  if cs.contains '/' || endsWith ".yaml" cs || endsWith ".yml" cs then path input else bare input

/-- `@registry/name` is explicit about where the recipe should come from. -/
def parse (input : String) : RecipeRef :=
  match input.toList with
  | '@' :: rest =>
      match splitOnce '/' rest with
      | some (registry, name) =>
          if registry.isEmpty || name.isEmpty then unscoped input
          else scoped_ (String.ofList registry) (String.ofList name)
      | none => unscoped input
  | _ => unscoped input

end RecipeRef

inductive ResolveError where
  | noSuchRegistry (registry : String) (close : List String)
  | notFound (name registry : String) (close : List String)
  | notFoundAnywhere (name : String) (close : List String)
  | ambiguous (name : String) (registries : List String)
  | recipe (why : String)
deriving DecidableEq

def suggestion (close : List String) : String :=
  if close.isEmpty then ""
  else
    let listed := ", ".intercalate close
    s!". Did you mean {listed}?"

def quoted (name : String) : String := "`" ++ name ++ "`"

def ResolveError.text : ResolveError → String
  | .noSuchRegistry registry close =>
      "no registry named " ++ quoted registry ++ suggestion close
  | .notFound name registry close =>
      "no recipe named " ++ quoted name ++ " in registry " ++ quoted registry ++ suggestion close
  | .notFoundAnywhere name close => "no recipe named " ++ quoted name ++ suggestion close
  | .ambiguous name registries =>
      let listed := " and ".intercalate registries
      let first := registries.head?.getD "registry"
      quoted name ++ s!" is ambiguous — it exists in {listed}. Qualify it, e.g. " ++
        quoted s!"@{first}/{name}" ++ "."
  | .recipe why => why

/-- What a place that recipes come from says about a name: nothing, that it could
not be loaded, or the recipe of that name. -/
structure Source where
  load : String → Option (Except String ShippedRecipe)
  named : ∀ n r, load n = some (.ok r) → r.name.text = n

structure RemoteRegistry extends Source where
  name : String
  recipeNames : List String

structure RegistrySet where
  builtin : Source
  builtinNames : List String
  remotes : List RemoteRegistry
  /-- Which of the names are close to one that was not found. -/
  nearest : String → List String → List String

namespace RegistrySet

def builtinName : String := "metrale"

def closeNames (set : RegistrySet) (name : String) : List String :=
  set.nearest name (set.builtinNames ++ set.remotes.flatMap (·.recipeNames))

/-- A recipe that is there, or the error for one that is not. -/
def found (missing : ResolveError) :
    Option (Except String ShippedRecipe) → Except ResolveError ShippedRecipe
  | some (.ok r) => .ok r
  | some (.error why) => .error (.recipe why)
  | none => .error missing

/-- Bare names resolve built-in first, so no remote can shadow a shipped recipe by
choosing its name. -/
def resolveBare (set : RegistrySet) (name : String) : Except ResolveError ShippedRecipe :=
  match set.builtin.load name with
  | some shipped => found (.recipe "") (some shipped)
  | none =>
      match set.remotes.filter (·.recipeNames.contains name) with
      | [] => .error (.notFoundAnywhere name (set.closeNames name))
      | [one] => found (.notFound name one.name (set.nearest name one.recipeNames)) (one.load name)
      | many => .error (.ambiguous name (many.map (·.name)))

def resolve (set : RegistrySet) : RecipeRef → Except ResolveError ShippedRecipe
  | .scoped_ registry name =>
      if registry = builtinName then
        found (.notFound name registry (set.closeNames name)) (set.builtin.load name)
      else
        match set.remotes.find? (·.name = registry) with
        | none => .error (.noSuchRegistry registry
            (set.nearest registry (builtinName :: set.remotes.map (·.name))))
        | some reg => found (.notFound name registry (set.nearest name reg.recipeNames))
            (reg.load name)
  | .bare name => set.resolveBare name
  | .path path => .error (.notFoundAnywhere path [])

end RegistrySet

/-- The name of a recipe is a bare reference or a path, never a scoped one. -/
theorem RecipeRef.parse_recipeId (id : RecipeId) :
    RecipeRef.parse id.text = .bare id.text ∨ RecipeRef.parse id.text = .path id.text := by
  have chars := id.chars
  have plain : RecipeRef.parse id.text = RecipeRef.unscoped id.text := by
    unfold RecipeRef.parse
    split
    · next rest first =>
        exact absurd (chars '@' (first ▸ List.mem_cons_self)) (by decide)
    · rfl
  rw [plain, RecipeRef.unscoped]
  split
  · exact Or.inr rfl
  · exact Or.inl rfl

theorem RegistrySet.found_ok {missing : ResolveError} {got : Option (Except String ShippedRecipe)}
    {r : ShippedRecipe} (h : RegistrySet.found missing got = .ok r) : got = some (.ok r) := by
  unfold RegistrySet.found at h
  split at h
  · cases h
    rfl
  · cases h
  · cases h

/-- What a bare name resolves to is called that. -/
theorem RegistrySet.resolveBare_named {set : RegistrySet} {name : String} {r : ShippedRecipe}
    (h : set.resolveBare name = .ok r) : r.name.text = name := by
  unfold RegistrySet.resolveBare at h
  split at h
  · next shipped there =>
      exact set.builtin.named name r (found_ok h ▸ there)
  · split at h
    · cases h
    · next one _ => exact one.named name r (found_ok h)
    · cases h

end Metralectl
