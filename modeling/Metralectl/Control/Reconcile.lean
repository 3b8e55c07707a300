import Metralectl.Library.Runs
import Metralectl.Core.Hardware
import Metralectl.Protocol.Messages
import Mathlib.Order.Lattice
import Mathlib.Data.Finset.Card

/-!
Per-generation convergence of one deployment on this node. `decide` reads the
desired state and what the node runs, and names the one next step; nothing is
remembered between calls. What follows iterates it against a launcher that
stops by recipe and adds one owned workload for a launch.
-/
namespace Metralectl

structure DeploymentName where
  text : String
  label : isDnsLabel text = true

theorem DeploymentName.text_injective : Function.Injective DeploymentName.text := by
  intro a b h
  cases a
  cases b
  cases h
  rfl

instance : DecidableEq DeploymentName := DeploymentName.text_injective.decidableEq

/-- The text of a rejected name is read by no caller modelled here. -/
def DeploymentName.parse (s : String) : Option DeploymentName :=
  if h : isDnsLabel s = true then some ⟨s, h⟩ else none

/-- One more on every change to what a deployment should run; zero does not exist. -/
structure Generation where
  num : Nat
  nonzero : 0 < num
  fits : num < 2 ^ 64
deriving DecidableEq

theorem Generation.num_injective : Function.Injective Generation.num := by
  intro a b h
  cases a
  cases b
  cases h
  rfl

instance : LinearOrder Generation := LinearOrder.lift' Generation.num Generation.num_injective

structure Owner where
  deployment : DeploymentName
  generation : Generation
deriving DecidableEq

/-- One running workload, as the launcher reports it. -/
structure Instance where
  recipe : RecipeId
  owner : Option Owner
deriving DecidableEq

namespace Reconcile
open Runs

inductive Placement where
  | hardwareClass (c : HardwareClass)
  | thisNode
deriving DecidableEq

inductive Intent where
  | run (recipe : RecipeId) (model : String) (placement : Placement)
  | stopped
deriving DecidableEq

structure Desired where
  deployment : DeploymentName
  generation : Generation
  intent : Intent
deriving DecidableEq

structure Observed where
  instances : List Instance
  accelerator : String
  recipeModel : Option String
deriving DecidableEq

inductive Refusal where
  | staleGeneration (running : Generation)
  | idempotencyConflict (running : RecipeId)
  | releaseUnverified (reason : String)
  | hardwareIncompatible (reason : String)
  | busy (recipe : RecipeId) (owner : Option Owner)
deriving DecidableEq

inductive Step where
  | converged
  | launch (recipe : RecipeId)
  | stop (recipe : RecipeId)
  | refuse (refusal : Refusal)
deriving DecidableEq

def isOurs (i : Instance) (ours : DeploymentName) : Bool :=
  i.owner.any (·.deployment = ours)

/-- A running workload of `recipe` that is not deployment `ours`'s. -/
def foreign (recipe : RecipeId) (instances : List Instance) (ours : DeploymentName) :
    Option Instance :=
  instances.find? (fun i => i.recipe = recipe && !isOurs i ours)

/-- Stop this deployment's recipe, unless that would also stop a workload that
is not this deployment's: every container of the recipe goes. -/
def stop (recipe : RecipeId) (instances : List Instance) (ours : DeploymentName) : Step :=
  match foreign recipe instances ours with
  | some other => .refuse (.busy recipe other.owner)
  | none => .stop recipe

def placementBlocked (placement : Placement) (accelerator : String) : Option Refusal :=
  match placement with
  | .hardwareClass c =>
      match Hardware.check c accelerator with
      | .error reason => some (.hardwareIncompatible reason)
      | .ok () => none
  | .thisNode => none

def modelBlocked (recipe : RecipeId) (model : String) : Option String → Option Refusal
  | none => some (.releaseUnverified s!"this node has no recipe {recipe.text}")
  | some here =>
      if here ≠ model then
        some (.releaseUnverified (s!"the release says {recipe.text} serves {model}; " ++
          s!"this node's {recipe.text} serves {here}"))
      else none

/-- Why `recipe` cannot be launched for this deployment here, if it cannot. -/
def launchBlocked (recipe : RecipeId) (model : String) (placement : Placement)
    (observed : Observed) (ours : DeploymentName) : Option Refusal :=
  match placementBlocked placement observed.accelerator with
  | some refusal => some refusal
  | none =>
      match modelBlocked recipe model observed.recipeModel with
      | some refusal => some refusal
      | none =>
          (foreign recipe observed.instances ours).map fun other => .busy recipe other.owner

def generationOf (i : Instance) : Option Generation := i.owner.map (·.generation)

/-- The newest generation among `mine`, when it is newer than the desired one. -/
def newer (desired : Desired) (mine : List Instance) : Option Generation :=
  (mine.filterMap generationOf).max?.filter (fun running => desired.generation < running)

def decideStopped (desired : Desired) (observed : Observed) (mine : List Instance) : Step :=
  match mine.head? with
  | some own => stop own.recipe observed.instances desired.deployment
  | none => .converged

def decideRun (desired : Desired) (observed : Observed) (mine : List Instance)
    (recipe : RecipeId) (model : String) (placement : Placement) : Step :=
  let current := mine.filter (fun i => generationOf i = some desired.generation)
  let older := mine.filter (fun i => generationOf i ≠ some desired.generation)
  match current.find? (fun i => i.recipe ≠ recipe) with
  | some other => .refuse (.idempotencyConflict other.recipe)
  | none =>
      -- Asked before the older generation is stopped, and only while nothing
      -- of the desired generation runs.
      match if current = [] then
          launchBlocked recipe model placement observed desired.deployment else none with
      | some refusal => .refuse refusal
      | none =>
          match older.head?, current with
          | some old, _ => stop old.recipe observed.instances desired.deployment
          | none, [] => .launch recipe
          | none, _ :: _ => .converged

/-- The next step toward `desired`, given what this node runs. -/
def decide (desired : Desired) (observed : Observed) : Step :=
  let mine := observed.instances.filter (isOurs · desired.deployment)
  match newer desired mine with
  | some running => .refuse (.staleGeneration running)
  | none =>
      match desired.intent with
      | .stopped => decideStopped desired observed mine
      | .run recipe model placement => decideRun desired observed mine recipe model placement

/-- The control request that carries a step out, when it is an action. -/
def Step.request : Step → Option ControlReq
  | .launch recipe => some (.launch recipe [])
  | .stop recipe => some (.stop recipe)
  | .converged => none
  | .refuse _ => none

/-- Ours, and started to realise the desired generation. -/
def Current (desired : Desired) (i : Instance) : Prop :=
  isOurs i desired.deployment = true ∧ generationOf i = some desired.generation

/-- Nothing of ours runs at a newer generation than the desired one. -/
def Fresh (desired : Desired) (is : List Instance) : Prop :=
  ∀ i ∈ is, isOurs i desired.deployment = true → ∀ g, generationOf i = some g →
    g ≤ desired.generation

/-- Ours, and in the way of the desired state. -/
def Outdated (desired : Desired) (i : Instance) : Prop :=
  isOurs i desired.deployment = true ∧ (desired.intent = .stopped ∨ ¬ Current desired i)

/-- What each answer of `decide` says about what it was asked. -/
inductive Decides (desired : Desired) (o : Observed) : Step → Prop
  | stale {i running} : i ∈ o.instances → isOurs i desired.deployment = true →
      generationOf i = some running → desired.generation < running →
      Decides desired o (.refuse (.staleGeneration running))
  | idle : Fresh desired o.instances → desired.intent = .stopped →
      (∀ i ∈ o.instances, isOurs i desired.deployment = false) →
      Decides desired o .converged
  | windDown {i} : Fresh desired o.instances → desired.intent = .stopped →
      i ∈ o.instances → isOurs i desired.deployment = true →
      Decides desired o (stop i.recipe o.instances desired.deployment)
  | conflict {i recipe model placement} : Fresh desired o.instances →
      desired.intent = .run recipe model placement →
      i ∈ o.instances → Current desired i → i.recipe ≠ recipe →
      Decides desired o (.refuse (.idempotencyConflict i.recipe))
  | blocked {recipe model placement refusal} : Fresh desired o.instances →
      desired.intent = .run recipe model placement →
      (∀ i ∈ o.instances, ¬ Current desired i) →
      launchBlocked recipe model placement o desired.deployment = some refusal →
      Decides desired o (.refuse refusal)
  | replace {i recipe model placement} : Fresh desired o.instances →
      desired.intent = .run recipe model placement →
      (∀ j ∈ o.instances, Current desired j → j.recipe = recipe) →
      ((∀ j ∈ o.instances, ¬ Current desired j) →
        launchBlocked recipe model placement o desired.deployment = none) →
      i ∈ o.instances → isOurs i desired.deployment = true → ¬ Current desired i →
      Decides desired o (stop i.recipe o.instances desired.deployment)
  | launch {recipe model placement} : Fresh desired o.instances →
      desired.intent = .run recipe model placement →
      (∀ i ∈ o.instances, isOurs i desired.deployment = false) →
      launchBlocked recipe model placement o desired.deployment = none →
      Decides desired o (.launch recipe)
  | serving {recipe model placement} : Fresh desired o.instances →
      desired.intent = .run recipe model placement →
      (∃ i ∈ o.instances, Current desired i) →
      (∀ i ∈ o.instances, isOurs i desired.deployment = true →
        Current desired i ∧ i.recipe = recipe) →
      Decides desired o .converged

theorem newer_none {desired : Desired} {is : List Instance} :
    newer desired (is.filter (isOurs · desired.deployment)) = none ↔ Fresh desired is := by
  have bound (g : Generation) (gs : List Generation) (h : gs.max? = some g) :
      g ≤ desired.generation ↔ ∀ x ∈ gs, x ≤ desired.generation := by
    obtain ⟨hmem, hle⟩ := List.max?_eq_some_iff.mp h
    exact ⟨fun hg x hx => (hle x hx).trans hg, fun hall => hall g hmem⟩
  have members : Fresh desired is ↔
      ∀ g ∈ (is.filter (isOurs · desired.deployment)).filterMap generationOf,
        g ≤ desired.generation := by
    simp only [Fresh, List.mem_filterMap, List.mem_filter]
    constructor
    · intro h g hg
      obtain ⟨i, ⟨hi, ours⟩, hgen⟩ := hg
      exact h i hi ours g hgen
    · intro h i hi ours g hgen
      exact h g ⟨i, ⟨hi, ours⟩, hgen⟩
  rw [members]
  simp only [newer]
  cases hmax : ((is.filter (isOurs · desired.deployment)).filterMap generationOf).max? with
  | none =>
      have empty := List.max?_eq_none_iff.mp hmax
      simp [empty]
  | some g =>
      rw [← bound g _ hmax]
      simp

theorem newer_some {desired : Desired} {is : List Instance} {running : Generation}
    (h : newer desired (is.filter (isOurs · desired.deployment)) = some running) :
    ∃ i ∈ is, isOurs i desired.deployment = true ∧ generationOf i = some running ∧
      desired.generation < running := by
  simp only [newer, Option.filter_eq_some_iff, decide_eq_true_eq] at h
  have hmem := (List.max?_eq_some_iff.mp h.1).1
  obtain ⟨i, hi, hgen⟩ := List.mem_filterMap.mp hmem
  obtain ⟨hi, ours⟩ := List.mem_filter.mp hi
  exact ⟨i, hi, ours, hgen, h.2⟩

theorem decideStopped_spec {desired : Desired} {o : Observed}
    (fresh : Fresh desired o.instances) (intent : desired.intent = .stopped) :
    Decides desired o
      (decideStopped desired o (o.instances.filter (isOurs · desired.deployment))) := by
  simp only [decideStopped]
  cases hmine : (o.instances.filter (isOurs · desired.deployment)).head? with
  | none =>
      have none_ours := List.filter_eq_nil_iff.mp (List.head?_eq_none_iff.mp hmine)
      exact .idle fresh intent fun i hi => by simpa using none_ours i hi
  | some own =>
      obtain ⟨hmem, ours⟩ := List.mem_filter.mp (List.mem_of_mem_head? hmine)
      exact .windDown fresh intent hmem ours

theorem decideRun_spec {desired : Desired} {o : Observed} {recipe : RecipeId} {model : String}
    {placement : Placement} (fresh : Fresh desired o.instances)
    (intent : desired.intent = .run recipe model placement) :
    Decides desired o (decideRun desired o
      (o.instances.filter (isOurs · desired.deployment)) recipe model placement) := by
  have current_iff (i : Instance) : Current desired i ∧ i ∈ o.instances ↔
      i ∈ (o.instances.filter (isOurs · desired.deployment)).filter
        (fun i => generationOf i = some desired.generation) := by
    simp only [List.mem_filter, decide_eq_true_eq, Current]
    constructor
    · intro h
      exact ⟨⟨h.2, h.1.1⟩, h.1.2⟩
    · intro h
      exact ⟨⟨h.1.2, h.2⟩, h.1.1⟩
  have older_iff (i : Instance) :
      (isOurs i desired.deployment = true ∧ ¬ Current desired i) ∧ i ∈ o.instances ↔
      i ∈ (o.instances.filter (isOurs · desired.deployment)).filter
        (fun i => generationOf i ≠ some desired.generation) := by
    simp only [List.mem_filter, decide_eq_true_eq, Current]
    constructor
    · intro h
      exact ⟨⟨h.2, h.1.1⟩, fun hg => h.1.2 ⟨h.1.1, hg⟩⟩
    · intro h
      exact ⟨⟨h.1.2, fun hc => h.2 hc.2⟩, h.1.1⟩
  simp only [decideRun]
  generalize (o.instances.filter (isOurs · desired.deployment)).filter
    (fun i => generationOf i = some desired.generation) = current at current_iff ⊢
  generalize (o.instances.filter (isOurs · desired.deployment)).filter
    (fun i => generationOf i ≠ some desired.generation) = older at older_iff ⊢
  cases hother : current.find? (fun i => i.recipe ≠ recipe) with
  | some other =>
      have found := (current_iff other).mpr (List.mem_of_find?_eq_some hother)
      have differs : other.recipe ≠ recipe := by simpa using List.find?_some hother
      exact .conflict fresh intent found.2 found.1 differs
  | none =>
      have same : ∀ j ∈ o.instances, Current desired j → j.recipe = recipe := by
        intro j hj hc
        simpa using List.find?_eq_none.mp hother j ((current_iff j).mp ⟨hc, hj⟩)
      have nobody : current = [] ↔ ∀ i ∈ o.instances, ¬ Current desired i := by
        constructor
        · intro h i hi hc
          have := (current_iff i).mp ⟨hc, hi⟩
          rw [h] at this
          cases this
        · intro h
          apply List.eq_nil_iff_forall_not_mem.mpr
          intro i hi
          have := (current_iff i).mpr hi
          exact h i this.2 this.1
      cases hblock : (if current = [] then
          launchBlocked recipe model placement o desired.deployment else none) with
      | some refusal =>
          have empty : current = [] := by
            by_contra h
            simp [h] at hblock
          rw [if_pos empty] at hblock
          exact .blocked fresh intent (nobody.mp empty) hblock
      | none =>
          have clear : (∀ j ∈ o.instances, ¬ Current desired j) →
              launchBlocked recipe model placement o desired.deployment = none := by
            intro h
            rwa [if_pos (nobody.mpr h)] at hblock
          cases hold : older with
          | cons old rest =>
              have first := (older_iff old).mpr (by rw [hold]; exact List.mem_cons_self)
              exact .replace fresh intent same clear first.2 first.1.1 first.1.2
          | nil =>
              have current_of_ours : ∀ i ∈ o.instances, isOurs i desired.deployment = true →
                  Current desired i := by
                intro i hi ours
                by_contra h
                have := (older_iff i).mp ⟨⟨ours, h⟩, hi⟩
                rw [hold] at this
                cases this
              cases hcurrent : current with
              | nil =>
                  have idle := nobody.mp hcurrent
                  refine .launch fresh intent ?_ (clear idle)
                  intro i hi
                  cases ours : isOurs i desired.deployment with
                  | false => rfl
                  | true => exact absurd (current_of_ours i hi ours) (idle i hi)
              | cons c rest =>
                  have first := (current_iff c).mpr (by rw [hcurrent]; exact List.mem_cons_self)
                  refine .serving fresh intent ⟨c, first.2, first.1⟩ ?_
                  intro i hi ours
                  have hc := current_of_ours i hi ours
                  exact ⟨hc, same i hi hc⟩

theorem decide_spec (desired : Desired) (o : Observed) : Decides desired o (decide desired o) := by
  simp only [decide]
  cases hnewer : newer desired (o.instances.filter (isOurs · desired.deployment)) with
  | some running =>
      obtain ⟨i, hi, ours, hgen, hlt⟩ := newer_some hnewer
      exact .stale hi ours hgen hlt
  | none =>
      have fresh := newer_none.mp hnewer
      cases intent : desired.intent with
      | stopped => exact decideStopped_spec fresh intent
      | run recipe model placement => exact decideRun_spec fresh intent

/-- Nothing is done for a generation older than one that runs. -/
theorem decide_stale {desired : Desired} {o : Observed} {i : Instance} {running : Generation}
    (hi : i ∈ o.instances) (ours : isOurs i desired.deployment = true)
    (gen : generationOf i = some running) (older : desired.generation < running) :
    ∃ newest, decide desired o = .refuse (.staleGeneration newest) := by
  have notFresh : ¬ Fresh desired o.instances :=
    fun fresh => absurd (fresh i hi ours running gen) (not_le.mpr older)
  cases hnewer : newer desired (o.instances.filter (isOurs · desired.deployment)) with
  | none => exact absurd (newer_none.mp hnewer) notFresh
  | some newest => exact ⟨newest, by simp only [decide, hnewer]⟩

theorem foreign_none {recipe : RecipeId} {is : List Instance} {ours : DeploymentName} :
    foreign recipe is ours = none ↔ ∀ i ∈ is, i.recipe = recipe → isOurs i ours = true := by
  simp [foreign, List.find?_eq_none]

/-- A stop is asked for only where it reaches nothing foreign. -/
theorem stop_cases (recipe : RecipeId) (is : List Instance) (ours : DeploymentName) :
    (stop recipe is ours = .stop recipe ∧ ∀ i ∈ is, i.recipe = recipe → isOurs i ours = true) ∨
    ∃ other ∈ is, other.recipe = recipe ∧ isOurs other ours = false ∧
      stop recipe is ours = .refuse (.busy recipe other.owner) := by
  cases h : foreign recipe is ours with
  | none => exact Or.inl ⟨by simp [stop, h], foreign_none.mp h⟩
  | some other =>
      have found := List.find?_some h
      simp only [Bool.and_eq_true, decide_eq_true_eq, Bool.not_eq_true'] at found
      exact Or.inr ⟨other, List.mem_of_find?_eq_some h, found.1, found.2, by simp [stop, h]⟩

end Reconcile
end Metralectl
