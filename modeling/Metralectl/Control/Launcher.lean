import Metralectl.Control.Reconcile

/-!
What the container runtime's account of what runs means to a launcher. The
containers it lists are the launcher's only state: a launch writes its recipe
and its owner on the container as labels, and everything that is later decided
about it is read back from there. An id is docker's full one, 64 hex digits.
-/
namespace Metralectl

def Generation.new (n : Nat) : Option Generation :=
  if h : 0 < n ∧ n < 2 ^ 64 then some ⟨n, h.1, h.2⟩ else none

/-- An unsigned 64-bit number as the standard library reads it: digits, and a
plus sign before them if there is one. -/
def parseU64 (s : String) : Option Nat :=
  let digits := match s.toList with
    | '+' :: rest => rest
    | cs => cs
  if !digits.isEmpty && digits.all Char.isDigit then
    let n := Nat.ofDigitChars 10 digits 0
    if n < 2 ^ 64 then some n else none
  else none

section Texts

theorem not_whitespace {c : Char} (h : recipeChar c = true) : isWhitespace c = false := by
  simp only [recipeChar, Bool.or_eq_true, beq_iff_eq] at h
  rcases h with ((lower | digit) | rfl) | rfl
  · have range := Ascii.lower_range lower
    exact isWhitespace_printed (by omega)
  · have range := Ascii.digit_range digit
    exact isWhitespace_printed (by omega)
  · rfl
  · rfl

theorem digits_recipeChar {n : Nat} : ∀ c ∈ (toString n).toList, recipeChar c = true := by
  intro c hc
  simp [recipeChar, toString_isDigit c hc]

theorem parseU64_toString {n : Nat} (h : n < 2 ^ 64) : parseU64 (toString n) = some n := by
  have digits := toList_toString n
  have all : (Nat.toDigits 10 n).all Char.isDigit = true :=
    List.all_eq_true.mpr (digits ▸ toString_isDigit)
  have unsigned : (match Nat.toDigits 10 n with
      | '+' :: rest => rest
      | cs => cs) = Nat.toDigits 10 n := by
    split
    · next rest plus =>
        rw [plus] at all
        cases all
    · rfl
  simp only [parseU64, digits, unsigned, all, Nat.ofDigitChars_ten_toDigits, if_pos h]
  simp [Nat.toDigits_ne_nil]

theorem DeploymentName.text_ne (name : DeploymentName) : name.text ≠ "" := by
  intro empty
  have label := name.label
  rw [empty] at label
  cases label

theorem DeploymentName.chars (name : DeploymentName) :
    ∀ c ∈ name.text.toList, recipeChar c = true := by
  intro c hc
  have label := name.label
  simp only [isDnsLabel, Bool.and_eq_true, List.all_eq_true] at label
  have char := label.1.1.2 c hc
  simp only [Bool.or_eq_true] at char
  simp only [recipeChar, Bool.or_eq_true]
  exact char.imp (fun h => .inl h) id

end Texts

abbrev ContainerId := BitVec 256
abbrev InstanceId := BitVec 128
abbrev AttemptId := BitVec 128
abbrev TraceId := BitVec 128

structure ControlTrace where
  attempt : AttemptId
  traceId : TraceId
deriving DecidableEq

structure OciImage where
  repository : String
  digest : String
deriving DecidableEq

/-- What a container runtime pulls: exactly these bytes. -/
def OciImage.reference (i : OciImage) : String := s!"{i.repository}@{i.digest}"

/-- A manifest that was verified: the image it runs and the model it serves. -/
structure VerifiedRelease where
  image : OciImage
  model : String
deriving DecidableEq

structure LaunchFor where
  owner : Option Owner
  release : Option VerifiedRelease
  trace : Option ControlTrace
deriving DecidableEq

structure Started where
  container : String
  endpoint : Option String
deriving DecidableEq

/-- One running workload; its id is the first half of its container's. -/
structure Workload where
  id : InstanceId
  instance_ : Instance
deriving DecidableEq

namespace Docker

def labelManaged : String := "io.metralectl.managed"
def labelRecipe : String := "io.metralectl.recipe"
def labelDeployment : String := "io.metralectl.deployment"
def labelGeneration : String := "io.metralectl.generation"
def labelAttempt : String := "io.metralectl.attempt"
def labelTrace : String := "io.metralectl.trace"

inductive Placement where
  | solo
  | rank (rank : Nat)
deriving DecidableEq

/-- Deterministic container name, unique per rank. -/
def containerName (recipe : String) : Placement → String
  | .solo => s!"metrale-{recipe}"
  | .rank rank => s!"metrale-{recipe}-rank{rank}"

/-- The command a launch runs, as far as anything later reads it. -/
structure DockerCommand where
  name : String
  image : String
  command : List String
  env : List (String × String)
  labels : List (String × String)
deriving DecidableEq

structure Container where
  id : ContainerId
  name : String
  image : String
  cmd : List String
  env : List (String × String)
  labels : List (String × String)
deriving DecidableEq

structure PsRow where
  id : ContainerId
  name : String
  recipe : Option String
  deployment : Option String
  generation : Option String
deriving DecidableEq

/-- A label column: trimmed, and absent when empty. -/
def label (labels : List (String × String)) (key : String) : Option String :=
  ((labels.lookup key).map trim).filter (· ≠ "")

def psRow (c : Container) : PsRow :=
  ⟨c.id, c.name, label c.labels labelRecipe, label c.labels labelDeployment,
    label c.labels labelGeneration⟩

/-- The running container a launch named `name` would collide with. -/
def runningAs (name : String) (rows : List PsRow) : Option PsRow := rows.find? (·.name = name)

/-- What a running container was started with, as an inspection reports it. -/
structure LaunchedAs where
  image : String
  cmd : List String
  env : List String
  labels : List (String × String)
deriving DecidableEq

def launchedAs (c : Container) : LaunchedAs :=
  ⟨c.image, c.cmd, c.env.map (fun e => s!"{e.1}={e.2}"), c.labels⟩

/-- Whether the running container is the launch `plan` describes: the same
image, the same command, and every variable the plan sets. -/
def isSameLaunch (plan : DockerCommand) (launched : LaunchedAs) : Bool :=
  plan.image = launched.image && launched.cmd = plan.command &&
    plan.env.all (fun e => launched.env.contains s!"{e.1}={e.2}")

def ownerLabels (owner : Owner) : List (String × String) :=
  [(labelDeployment, owner.deployment.text), (labelGeneration, toString owner.generation.num)]

def traceLabels (trace : ControlTrace) : List (String × String) :=
  [(labelAttempt, String.ofList (hexDigits 32 trace.attempt.toNat)),
    (labelTrace, String.ofList (hexDigits 32 trace.traceId.toNat))]

/-- The owner two labels record: both present and both well formed, or none. -/
def ownerOf (deployment generation : Option String) : Option Owner :=
  match deployment.bind DeploymentName.parse,
    (generation.bind parseU64).bind Generation.new with
  | some d, some g => some ⟨d, g⟩
  | _, _ => none

def isOwnedBy (launched : LaunchedAs) (owner : Owner) : Bool :=
  ownerOf (launched.labels.lookup labelDeployment) (launched.labels.lookup labelGeneration) =
    some owner

/-- The recipe a row is a workload of: its label says it, or an older agent
named it so. -/
def recipeOf (row : PsRow) : Option RecipeId :=
  match row.recipe with
  | some label => (RecipeId.parse label).toOption
  | none =>
      ((stripPrefix "metrale-" row.name).bind fun n => (RecipeId.parse n).toOption).filter
        fun id => containerName id.text .solo = row.name

def workload (row : PsRow) : Option Workload :=
  (recipeOf row).map fun recipe =>
    ⟨row.id.extractLsb' 128 128, recipe, ownerOf row.deployment row.generation⟩

/-- Every workload a stop of its recipe would reach. -/
def workloads (rows : List PsRow) : List Workload := rows.filterMap workload

def isStopTarget (recipe : String) (row : PsRow) : Bool :=
  match row.recipe with
  | some label => label = recipe
  | none => row.name = containerName recipe .solo

def stopTargets (recipe : String) (rows : List PsRow) : List ContainerId :=
  (rows.filter (isStopTarget recipe)).map (·.id)

def endpointPort : List String → Option String
  | "--port" :: p :: _ => some p
  | _ :: rest => endpointPort rest
  | [] => none

/-- Where a launch with this in-container command serves, when it serves. -/
def endpointOf (command : List String) : Option String :=
  match endpointPort command with
  | some "0" | none => none
  | some p => some s!"http://localhost:{p}/v1"

section Recipes
variable {row : PsRow} {recipe : RecipeId}

theorem toOption_parse {s : String} :
    (RecipeId.parse s).toOption = some recipe ↔ s = recipe.text := by
  constructor
  · intro h
    cases parsed : RecipeId.parse s with
    | error e =>
        rw [parsed] at h
        cases h
    | ok r =>
        rw [parsed] at h
        cases h
        exact (RecipeId.text_of_parse parsed).symm
  · intro h
    rw [h, RecipeId.parse_text]
    rfl

theorem stripPrefix_append (front s : String) : stripPrefix front (front ++ s) = some s := by
  simp [stripPrefix]

/-- A stop of a recipe reaches the rows that are its workloads, and no others. -/
theorem isStopTarget_iff : isStopTarget recipe.text row = true ↔ recipeOf row = some recipe := by
  simp only [isStopTarget, recipeOf]
  cases row.recipe with
  | some label =>
      simp only [decide_eq_true_eq]
      exact toOption_parse.symm
  | none =>
      simp only [decide_eq_true_eq, Option.filter_eq_some_iff, Option.bind_eq_some_iff]
      constructor
      · intro name
        refine ⟨⟨recipe.text, ?_, toOption_parse.mpr rfl⟩, name.symm⟩
        rw [name]
        exact stripPrefix_append "metrale-" recipe.text
      · intro h
        exact h.2.symm

end Recipes

section Labels

/-- A label whose text is not empty and has nothing to trim is read as it was
written. -/
theorem label_eq {labels : List (String × String)} {key s : String}
    (found : labels.lookup key = some s) (chars : ∀ c ∈ s.toList, recipeChar c = true)
    (some_text : s ≠ "") : label labels key = some s := by
  have plain : trim s = s := trim_self fun c hc => not_whitespace (chars c hc)
  simp [label, found, plain, some_text]

/-- The owner a launch writes on its container is the one read back. -/
theorem ownerOf_labels (owner : Owner) :
    ownerOf (some owner.deployment.text) (some (toString owner.generation.num)) =
      some owner := by
  have generation : Generation.new owner.generation.num = some owner.generation :=
    dif_pos ⟨owner.generation.nonzero, owner.generation.fits⟩
  have deployment : DeploymentName.parse owner.deployment.text = some owner.deployment :=
    dif_pos owner.deployment.label
  simp only [ownerOf, Option.bind_some, parseU64_toString owner.generation.fits, generation,
    deployment]

end Labels

end Docker
end Metralectl
