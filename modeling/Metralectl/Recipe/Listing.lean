import Mathlib.Data.List.Sort
import Metralectl.Library.Paths
import Metralectl.Recipe.Registry

/-!
What the registries list, and whether it can be resolved. A listing takes the stems of whatever
files there are; the loader reads only what is called like a recipe, and only what is text.
-/
namespace Metralectl
namespace Registries
universe u
variable {α : Type u}

/-- Where a recipe's text came from. -/
inductive Provenance where
  | builtin (path : String)
  | remote (registry url : String)
deriving DecidableEq

/-- All that a recipe is parsed from. -/
structure Given where
  name : String
  yaml : String
  provenance : Provenance
deriving DecidableEq

abbrev Parse (α : Type u) := Given → Except String α

structure EmbeddedRecipe where
  name : String
  path : String
  yaml : String

def EmbeddedRecipe.given (e : EmbeddedRecipe) : Given := ⟨e.name, e.yaml, .builtin e.path⟩

/-- What the registries ask of a file system. -/
structure FileSystem where
  readToString : String → Except String String
  listFiles : String → String → Except String (List String)

structure RemoteRegistry where
  name : String
  url : String
  subpath : String
  path : String
  fs : Option FileSystem

def joinPath (dir rel : String) : String := String.ofList (Paths.join dir.toList rel.toList)

/-- The last part of a path without its extension; a dot in front does not begin one. -/
def fileStem (path : String) : Option String :=
  match (Paths.components path.toList).getLast? with
  | none | some ['.', '.'] => none
  | some name =>
      match name.reverse.dropWhile (· ≠ '.') with
      | [] | ['.'] => some (String.ofList name)
      | _ :: before => some (String.ofList before.reverse)

example : fileStem "/cache/third/recipes/qwen3.6-27b.v2.yaml" = some "qwen3.6-27b.v2" := by
  decide +kernel

/-- Every segment of a remote name is a valid recipe id. -/
def isSafeRecipeName (name : String) : Bool :=
  name ≠ "" && (name.toList.splitOn '/').all fun seg =>
    (RecipeId.parse (String.ofList seg)).toOption.isSome

namespace RemoteRegistry

def recipeDir (r : RemoteRegistry) : String := joinPath r.path r.subpath

/-- The recipe files there are, or none if they cannot be listed. -/
def recipeFiles (r : RemoteRegistry) : List String :=
  match r.fs with
  | none => []
  | some fs => (fs.listFiles r.recipeDir "yaml").toOption.getD []

def recipeNames (r : RemoteRegistry) : List String := r.recipeFiles.filterMap fileStem

/-- The file that is read for a name, if any is: the name decides which. -/
def opens (r : RemoteRegistry) (name : String) : Option String :=
  if isSafeRecipeName name then some (joinPath r.recipeDir (name ++ ".yaml")) else none

/-- The text of the file there. -/
def read (r : RemoteRegistry) (path : String) : Option String :=
  r.fs.bind fun fs => (fs.readToString path).toOption

/-- What is parsed for a name. A file that cannot be read is as if it were not there. -/
def given (r : RemoteRegistry) (name : String) : Option Given :=
  (r.opens name).bind fun path => (r.read path).map fun yaml => ⟨name, yaml, .remote r.name r.url⟩

def load (parse : Parse α) (r : RemoteRegistry) (name : String) : Option (Except String α) :=
  (r.given name).map parse

end RemoteRegistry

structure RecipeEntry where
  name : String
  registry : String
deriving DecidableEq

structure RegistrySet where
  corpus : List EmbeddedRecipe
  remotes : List RemoteRegistry
  /-- Which of the names are close to one that was not found. -/
  nearest : String → List String → List String

namespace RegistrySet

def builtinName : String := "metrale"

/-- The corpus by name; files of one name stay as they were found. -/
def all (set : RegistrySet) : List EmbeddedRecipe :=
  set.corpus.insertionSort fun a b => a.name ≤ b.name

def get (set : RegistrySet) (name : String) : Option EmbeddedRecipe :=
  set.all.find? fun e => e.name = name

/-- Every recipe available, built-in first, then remotes in order. -/
def list (set : RegistrySet) : List RecipeEntry :=
  (set.all.map fun e => ⟨e.name, builtinName⟩) ++
    set.remotes.flatMap fun r => r.recipeNames.map fun name => ⟨name, r.name⟩

def closeNames (set : RegistrySet) (name : String) : List String :=
  set.nearest name (set.list.map (·.name))

def loadBuiltin (set : RegistrySet) (parse : Parse α) (name : String) : Option (Except String α) :=
  (set.get name).map fun e => parse e.given

/-- What was loaded, or the error for what is not there. -/
def answer (missing : ResolveError) : Option (Except String α) → Except ResolveError α
  | some loaded => loaded.mapError .recipe
  | none => .error missing

def carriers (set : RegistrySet) (name : String) : List RemoteRegistry :=
  set.remotes.filter fun r => r.recipeNames.contains name

/-- Bare names resolve built-in first, so no remote can shadow a shipped recipe by choosing its
name. -/
def resolveBare (set : RegistrySet) (parse : Parse α) (name : String) : Except ResolveError α :=
  match set.loadBuiltin parse name with
  | some found => found.mapError .recipe
  | none =>
      match set.carriers name with
      | [] => .error (.notFoundAnywhere name (set.closeNames name))
      | [one] =>
          answer (.notFound name one.name (set.nearest name one.recipeNames)) (one.load parse name)
      | many => .error (.ambiguous name (many.map (·.name)))

def resolve (set : RegistrySet) (parse : Parse α) : RecipeRef → Except ResolveError α
  | .scoped_ registry name =>
      if registry = builtinName then
        answer (.notFound name registry (set.closeNames name)) (set.loadBuiltin parse name)
      else
        match set.remotes.find? (·.name = registry) with
        | none => .error (.noSuchRegistry registry
            (set.nearest registry (builtinName :: set.remotes.map (·.name))))
        | some reg => answer (.notFound name registry (set.nearest name reg.recipeNames))
            (reg.load parse name)
  | .bare name => set.resolveBare parse name
  | .path path => .error (.notFoundAnywhere path [])

/-- What would be parsed for a reference. -/
def locate (set : RegistrySet) : RecipeRef → Except ResolveError Given := set.resolve Except.ok

/-- The file a remote keeps under a name. -/
def fileOf (r : RemoteRegistry) (name : String) : String := joinPath r.recipeDir (name ++ ".yaml")

/-- Whatever is listed is resolved to the file it was listed for; bare names are the corpus's
first, then those of the only remote that has them; and nothing is read that is not below the
directory of the registry that was asked. -/
structure Agrees (set : RegistrySet) : Prop where
  builtin : ∀ e ∈ set.all, ∃ shipped ∈ set.corpus, shipped.name = e.name ∧
    set.locate (.scoped_ builtinName e.name) = .ok shipped.given
  remote : ∀ r ∈ set.remotes, ∀ name ∈ r.recipeNames, ∃ yaml,
    r.read (fileOf r name) = some yaml ∧
      set.locate (.scoped_ r.name name) = .ok ⟨name, yaml, .remote r.name r.url⟩
  listed : ∀ entry ∈ set.list, ∃ given,
    set.locate (.scoped_ entry.registry entry.name) = .ok given
  bare : ∀ name e, set.get name = some e →
    set.locate (.bare name) = .ok e.given
  only : ∀ name r, set.get name = none → set.carriers name = [r] → ∃ yaml,
    r.read (fileOf r name) = some yaml ∧
      set.locate (.bare name) = .ok ⟨name, yaml, .remote r.name r.url⟩
  several : ∀ name, set.get name = none → 2 ≤ (set.carriers name).length →
    set.locate (.bare name) = .error (.ambiguous name ((set.carriers name).map (·.name)))
  below : ∀ r ∈ set.remotes, ∀ name path, r.opens name = some path →
    Paths.Below r.recipeDir.toList path.toList

/-- Each recipe file of each remote is called like a recipe and can be read, and the remote is the
one that is asked under its name: not the corpus, and no other in front of it. -/
def Resolvable (set : RegistrySet) : Prop :=
  ∀ r ∈ set.remotes, ∀ path ∈ r.recipeFiles, ∀ name, fileStem path = some name →
    r.name ≠ builtinName ∧ isSafeRecipeName name = true ∧ ∃ first yaml,
      set.remotes.find? (·.name = r.name) = some first ∧ first.url = r.url ∧
        first.read (fileOf first name) = some yaml ∧ r.read (fileOf r name) = some yaml

theorem answer_map (parse : Parse α) (missing : ResolveError) (given : Option Given) :
    answer missing (given.map parse) =
      (answer missing (given.map Except.ok)).bind fun g => (parse g).mapError .recipe := by
  cases given <;> rfl

theorem loadBuiltin_eq (set : RegistrySet) (parse : Parse α) (name : String) :
    set.loadBuiltin parse name = ((set.get name).map EmbeddedRecipe.given).map parse := by
  rw [loadBuiltin, Option.map_map]
  rfl

/-- A reference decides what is parsed, whatever parsing makes of it. -/
theorem resolve_locate (set : RegistrySet) (parse : Parse α) (ref : RecipeRef) :
    set.resolve parse ref = (set.locate ref).bind fun g => (parse g).mapError .recipe := by
  cases ref with
  | scoped_ registry name =>
      simp only [locate, resolve]
      by_cases own : registry = builtinName
      · rw [if_pos own, if_pos own, loadBuiltin_eq, answer_map, ← loadBuiltin_eq]
      · rw [if_neg own, if_neg own]
        cases set.remotes.find? (·.name = registry) with
        | none => rfl
        | some reg => exact answer_map parse _ (reg.given name)
  | bare name =>
      simp only [locate, resolve, resolveBare, loadBuiltin]
      cases set.get name with
      | some e => rfl
      | none =>
          dsimp only [Option.map_none]
          match set.carriers name with
          | [] => rfl
          | [one] => exact answer_map parse _ (one.given name)
          | _ :: _ :: _ => rfl
  | path path => rfl

/-- What is found for a remote name is the file of that name, and its text. -/
theorem given_eq_some {r : RemoteRegistry} {name : String} {g : Given} :
    r.given name = some g ↔ isSafeRecipeName name = true ∧
      ∃ yaml, r.read (fileOf r name) = some yaml ∧ g = ⟨name, yaml, .remote r.name r.url⟩ := by
  unfold RemoteRegistry.given RemoteRegistry.opens
  cases safe : isSafeRecipeName name with
  | false => simp
  | true => simp [fileOf, eq_comm]

theorem mem_recipeNames {r : RemoteRegistry} {name : String} :
    name ∈ r.recipeNames ↔ ∃ path ∈ r.recipeFiles, fileStem path = some name :=
  List.mem_filterMap

theorem mem_all {set : RegistrySet} {e : EmbeddedRecipe} : e ∈ set.all ↔ e ∈ set.corpus :=
  List.mem_insertionSort _

theorem get_mem {set : RegistrySet} {name : String} {e : EmbeddedRecipe}
    (h : set.get name = some e) : e ∈ set.corpus ∧ e.name = name :=
  ⟨mem_all.mp (List.mem_of_find?_eq_some h), by simpa using List.find?_some h⟩

theorem get_of_mem {set : RegistrySet} {e : EmbeddedRecipe} (h : e ∈ set.all) :
    ∃ shipped, set.get e.name = some shipped :=
  Option.isSome_iff_exists.mp (List.find?_isSome.mpr ⟨e, h, by simp⟩)

theorem locate_builtin {set : RegistrySet} {name : String} {e : EmbeddedRecipe}
    (h : set.get name = some e) : set.locate (.scoped_ builtinName name) = .ok e.given := by
  simp [locate, resolve, loadBuiltin, h, answer, Except.mapError]

theorem locate_bare {set : RegistrySet} {name : String} {e : EmbeddedRecipe}
    (h : set.get name = some e) : set.locate (.bare name) = .ok e.given := by
  simp [locate, resolve, resolveBare, loadBuiltin, h, Except.mapError]

theorem locate_remote {set : RegistrySet} {registry name : String} {first : RemoteRegistry}
    (other : registry ≠ builtinName)
    (found : set.remotes.find? (·.name = registry) = some first) {g : Given} :
    set.locate (.scoped_ registry name) = .ok g ↔ first.given name = some g := by
  simp only [locate, resolve, if_neg other, found, RemoteRegistry.load]
  cases first.given name with
  | none => simp [answer]
  | some g' => simp [answer, Except.mapError]

theorem locate_only {set : RegistrySet} {name : String} {r : RemoteRegistry} {g : Given}
    (absent : set.get name = none) (carried : set.carriers name = [r])
    (given : r.given name = some g) : set.locate (.bare name) = .ok g := by
  simp [locate, resolve, resolveBare, loadBuiltin, absent, carried, RemoteRegistry.load, given,
    answer, Except.mapError]

theorem locate_several {set : RegistrySet} {name : String} (absent : set.get name = none)
    (many : 2 ≤ (set.carriers name).length) :
    set.locate (.bare name) = .error (.ambiguous name ((set.carriers name).map (·.name))) := by
  simp only [locate, resolve, resolveBare, loadBuiltin, absent, Option.map_none]
  match carried : set.carriers name with
  | [] => rw [carried] at many; cases many
  | [_] => rw [carried] at many; exact absurd many (by simp)
  | _ :: _ :: _ => rfl

/-- A recipe id begins with a letter or a digit, so no part of a path that goes elsewhere is one. -/
theorem part_of_recipeId {seg : List Char} {id : RecipeId} (h : id.text = String.ofList seg)
    (tail : List Char) :
    Paths.isPart (seg ++ tail) = true ∧ seg ++ tail ≠ ['.', '.'] := by
  have accepted := id.accepted
  rw [h, RecipeId.check] at accepted
  split at accepted
  · cases accepted
  · split at accepted
    · cases accepted
    · cases seg with
      | nil => simp at accepted
      | cons c rest =>
          have first : c ≠ '.' := by
            rintro rfl
            simp at accepted
          simp [Paths.isPart, first]

theorem below_opens {r : RemoteRegistry} {name path : String} (h : r.opens name = some path) :
    Paths.Below r.recipeDir.toList path.toList := by
  unfold RemoteRegistry.opens at h
  split at h
  · next safe =>
      cases h
      rw [joinPath, String.toList_ofList, String.toList_append]
      have parts : ∀ seg ∈ Paths.segments name.toList,
          ∃ id : RecipeId, id.text = String.ofList seg := by
        intro seg member
        have all := (Bool.and_eq_true_iff.mp safe).2
        have parsed := List.all_eq_true.mp all seg member
        cases here : RecipeId.parse (String.ofList seg) with
        | error e => simp [here, Except.toOption] at parsed
        | ok id => exact ⟨id, RecipeId.text_of_parse here⟩
      obtain ⟨before, last, same, longer⟩ :=
        Paths.segments_extend name.toList (show '/' ∉ ".yaml".toList by decide)
      refine Paths.below_join _ fun seg member => ?_
      rw [longer, List.mem_append, List.mem_singleton] at member
      obtain member | rfl := member
      · obtain ⟨id, text⟩ := parts seg (same ▸ List.mem_append_left _ member)
        simpa using part_of_recipeId text []
      · obtain ⟨id, text⟩ := parts last (same ▸ List.mem_append_right _ (List.mem_singleton.mpr rfl))
        exact part_of_recipeId text _
  · cases h

/-- What each remote has to be for what it lists to be found again. -/
theorem Agrees.resolvable {set : RegistrySet} (agrees : set.Agrees) : set.Resolvable := by
  intro r member path file name stem
  obtain ⟨yaml, text, located⟩ :=
    agrees.remote r member name (mem_recipeNames.mpr ⟨path, file, stem⟩)
  have other : r.name ≠ builtinName := by
    intro own
    rw [own] at located
    cases there : set.get name with
    | none => simp [locate, resolve, loadBuiltin, there, answer] at located
    | some e =>
        rw [locate_builtin there] at located
        simp [EmbeddedRecipe.given] at located
  obtain ⟨first, found⟩ := Option.isSome_iff_exists.mp
    (List.find?_isSome.mpr ⟨r, member, decide_eq_true rfl⟩ :
      (set.remotes.find? (·.name = r.name)).isSome)
  obtain ⟨safe, yaml', read, same⟩ := given_eq_some.mp ((locate_remote other found).mp located)
  simp only [Given.mk.injEq, Provenance.remote.injEq, true_and] at same
  obtain ⟨rfl, _, url⟩ := same
  exact ⟨other, safe, first, yaml, found, url.symm, read, text⟩

theorem Resolvable.located {set : RegistrySet} (resolvable : set.Resolvable) {r : RemoteRegistry}
    (member : r ∈ set.remotes) {name : String} (listed : name ∈ r.recipeNames) :
    ∃ yaml, r.read (fileOf r name) = some yaml ∧
      r.given name = some ⟨name, yaml, .remote r.name r.url⟩ ∧
      set.locate (.scoped_ r.name name) = .ok ⟨name, yaml, .remote r.name r.url⟩ := by
  obtain ⟨path, file, stem⟩ := mem_recipeNames.mp listed
  obtain ⟨other, safe, first, yaml, found, url, read, text⟩ := resolvable r member path file name stem
  have called : first.name = r.name := by simpa using List.find?_some found
  refine ⟨yaml, text, given_eq_some.mpr ⟨safe, yaml, text, rfl⟩, ?_⟩
  refine (locate_remote other found).mpr (given_eq_some.mpr ⟨safe, yaml, read, ?_⟩)
  rw [called, url]

theorem builtin_located {set : RegistrySet} {e : EmbeddedRecipe} (member : e ∈ set.all) :
    ∃ shipped ∈ set.corpus, shipped.name = e.name ∧
      set.locate (.scoped_ builtinName e.name) = .ok shipped.given := by
  obtain ⟨shipped, there⟩ := get_of_mem member
  exact ⟨shipped, (get_mem there).1, (get_mem there).2, locate_builtin there⟩

theorem Resolvable.agrees {set : RegistrySet} (resolvable : set.Resolvable) : set.Agrees where
  builtin _ member := builtin_located member
  remote r member name listed := by
    obtain ⟨yaml, text, _, located⟩ := resolvable.located member listed
    exact ⟨yaml, text, located⟩
  listed entry member := by
    cases List.mem_append.mp member with
    | inl shipped =>
        obtain ⟨e, there, rfl⟩ := List.mem_map.mp shipped
        obtain ⟨found, _, _, located⟩ := builtin_located there
        exact ⟨_, located⟩
    | inr remote =>
        obtain ⟨r, there, names⟩ := List.mem_flatMap.mp remote
        obtain ⟨name, listed, rfl⟩ := List.mem_map.mp names
        obtain ⟨yaml, _, _, located⟩ := resolvable.located there listed
        exact ⟨_, located⟩
  bare _ _ there := locate_bare there
  only name r absent carried := by
    have carrier : r ∈ set.carriers name := carried ▸ List.mem_singleton.mpr rfl
    obtain ⟨member, has⟩ := List.mem_filter.mp carrier
    obtain ⟨yaml, text, given, _⟩ := resolvable.located member (List.contains_iff_mem.mp has)
    exact ⟨yaml, text, locate_only absent carried given⟩
  several _ absent many := locate_several absent many
  below _ _ _ _ opened := below_opens opened

/-- The listing and the resolver agree exactly when all that the remotes have is called like
recipes, can be read, and is asked of the remote it was listed for. -/
theorem listing_resolves (set : RegistrySet) (parse : Parse α) :
    (set.Agrees ↔ set.Resolvable) ∧ ∀ ref, set.resolve parse ref =
      (set.locate ref).bind fun g => (parse g).mapError .recipe :=
  ⟨⟨Agrees.resolvable, Resolvable.agrees⟩, set.resolve_locate parse⟩

/-- One remote, with one recipe file that has a blank in its name. -/
def spaced : RegistrySet where
  corpus := []
  remotes := [{
    name := "third"
    url := "https://example.invalid/third.git"
    subpath := "recipes"
    path := "/cache/third"
    fs := some {
      readToString := fun path =>
        if path = "/cache/third/recipes/My Recipe.yaml" then .ok "model: org/m\n"
        else .error "could not read it"
      listFiles := fun dir extension =>
        if dir = "/cache/third/recipes" ∧ extension = "yaml" then
          .ok ["/cache/third/recipes/My Recipe.yaml"]
        else .ok [] } }]
  nearest := fun _ _ => []

/-- It is listed, and it is not found. -/
theorem spaced_unresolved : spaced.list = [⟨"My Recipe", "third"⟩] ∧
    spaced.locate (.scoped_ "third" "My Recipe") = .error (.notFound "My Recipe" "third" []) ∧
    ¬ spaced.Agrees := by
  have listed : spaced.list = [⟨"My Recipe", "third"⟩] := by decide +kernel
  have missing : spaced.locate (.scoped_ "third" "My Recipe") =
      .error (.notFound "My Recipe" "third" []) := by rfl
  refine ⟨listed, missing, fun agrees => ?_⟩
  obtain ⟨given, located⟩ :=
    agrees.listed ⟨"My Recipe", "third"⟩ (listed ▸ List.mem_singleton.mpr rfl)
  rw [missing] at located
  cases located

/-- A way to parse recipes that leaves a recipe the name it was asked for. -/
structure Loader where
  parse : Parse ShippedRecipe
  named : ∀ g r, parse g = .ok r → r.name.text = g.name

theorem builtin_named {set : RegistrySet} {loader : Loader} {name : String} {r : ShippedRecipe}
    (h : set.loadBuiltin loader.parse name = some (.ok r)) : r.name.text = name := by
  obtain ⟨e, there, parsed⟩ := Option.map_eq_some_iff.mp h
  exact (loader.named _ r parsed).trans (get_mem there).2

theorem remote_named {remote : RemoteRegistry} {loader : Loader} {name : String}
    {r : ShippedRecipe} (h : remote.load loader.parse name = some (.ok r)) : r.name.text = name := by
  obtain ⟨g, given, parsed⟩ := Option.map_eq_some_iff.mp h
  obtain ⟨_, yaml, _, rfl⟩ := given_eq_some.mp given
  exact loader.named _ r parsed

/-- A remote as a launch sees it: the names it has, and what loads under each. -/
def RemoteRegistry.toSource (loader : Loader) (r : RemoteRegistry) : Metralectl.RemoteRegistry where
  load := r.load loader.parse
  named _ _ := remote_named
  name := r.name
  recipeNames := r.recipeNames

def toSources (set : RegistrySet) (loader : Loader) : Metralectl.RegistrySet where
  builtin := ⟨set.loadBuiltin loader.parse, fun _ _ => builtin_named⟩
  builtinNames := set.all.map (·.name)
  remotes := set.remotes.map (RemoteRegistry.toSource loader)
  nearest := set.nearest

theorem found_eq_answer (missing : ResolveError) (loaded : Option (Except String ShippedRecipe)) :
    Metralectl.RegistrySet.found missing loaded = answer missing loaded := by
  cases loaded with
  | none => rfl
  | some r => cases r <;> rfl

theorem toSources_closeNames (set : RegistrySet) (loader : Loader) (name : String) :
    (set.toSources loader).closeNames name = set.closeNames name := by
  unfold Metralectl.RegistrySet.closeNames closeNames list
  simp [toSources, RemoteRegistry.toSource, List.map_flatMap, List.flatMap_map, Function.comp_def]

theorem toSources_carriers (set : RegistrySet) (loader : Loader) (name : String) :
    (set.toSources loader).remotes.filter (·.recipeNames.contains name) =
      (set.carriers name).map (RemoteRegistry.toSource loader) :=
  List.filter_map

theorem toSources_find (set : RegistrySet) (loader : Loader) (registry : String) :
    (set.toSources loader).remotes.find? (·.name = registry) =
      (set.remotes.find? (·.name = registry)).map (RemoteRegistry.toSource loader) :=
  List.find?_map

/-- A launch resolves to what the files of the registries say. -/
theorem toSources_resolve (set : RegistrySet) (loader : Loader) (ref : RecipeRef) :
    (set.toSources loader).resolve ref = set.resolve loader.parse ref := by
  cases ref with
  | scoped_ registry name =>
      simp only [Metralectl.RegistrySet.resolve, resolve, found_eq_answer, toSources_closeNames,
        toSources_find]
      by_cases own : registry = builtinName
      · rw [if_pos own]
        exact if_pos own
      · rw [if_neg own, if_neg (show ¬ registry = Metralectl.RegistrySet.builtinName from own)]
        cases set.remotes.find? (·.name = registry) with
        | none =>
            have names : (set.toSources loader).remotes.map (·.name) = set.remotes.map (·.name) :=
              List.map_map
            simp only [Option.map_none, names]
            rfl
        | some reg => rfl
  | bare name =>
      simp only [Metralectl.RegistrySet.resolve, resolve, Metralectl.RegistrySet.resolveBare,
        resolveBare, found_eq_answer, toSources_closeNames, toSources_carriers]
      simp only [toSources]
      cases set.loadBuiltin loader.parse name with
      | some r => rfl
      | none =>
          dsimp only
          obtain _ | ⟨_, _ | ⟨_, _⟩⟩ := set.carriers name
          · rfl
          · rfl
          · simp [RemoteRegistry.toSource, Function.comp_def]
  | path path => rfl

end RegistrySet
end Registries
end Metralectl
