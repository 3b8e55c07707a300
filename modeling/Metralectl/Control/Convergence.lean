import Metralectl.Control.Reconcile

/-!
Iterating `decide` against a launcher whose stop removes every workload of a
recipe and whose launch adds one workload of the deployment. Which states lead
to convergence is a condition on the state alone, kept by every step in both
directions, so one step decides the whole iteration.
-/
namespace Metralectl
namespace Reconcile
open Runs

def Observed.running (o : Observed) (is : List Instance) : Observed :=
  { o with instances := is }

@[simp] theorem Observed.running_instances (o : Observed) (is : List Instance) :
    (o.running is).instances = is := rfl

def Desired.owner (desired : Desired) : Owner := ⟨desired.deployment, desired.generation⟩

/-- What a launcher does with a step. The next observation may list the
workloads in any order. -/
inductive Carries (desired : Desired) : Step → List Instance → List Instance → Prop
  | stop {recipe is js} : js.Perm (is.filter (fun i => i.recipe ≠ recipe)) →
      Carries desired (.stop recipe) is js
  | launch {recipe is js} : js.Perm (⟨recipe, some desired.owner⟩ :: is) →
      Carries desired (.launch recipe) is js

def Iterates (desired : Desired) (o : Observed) (is : List Instance) (step : Step)
    (js : List Instance) : Prop :=
  decide desired (o.running is) = step ∧ Carries desired step is js

/-- How many recipes the deployment runs. -/
def distinctRecipes (desired : Desired) (is : List Instance) : Nat :=
  ((is.filter (isOurs · desired.deployment)).map (·.recipe)).toFinset.card

def Foreigners (desired : Desired) (is : List Instance) : List Instance :=
  is.filter (fun i => !isOurs i desired.deployment)

/-- The desired state: exactly the desired recipe at the desired generation, or
nothing. -/
def Settled (desired : Desired) (is : List Instance) : Prop :=
  match desired.intent with
  | .stopped => ∀ i ∈ is, isOurs i desired.deployment = false
  | .run recipe _ _ => ⟨recipe, some desired.owner⟩ ∈ is ∧
      ∀ i ∈ is, isOurs i desired.deployment = true → i = ⟨recipe, some desired.owner⟩

/-- The states from which iteration meets no refusal: nothing newer runs, no
recipe that has to go is shared with a foreign workload, and a launch that will
be needed is not blocked. -/
structure Attainable (desired : Desired) (o : Observed) : Prop where
  fresh : Fresh desired o.instances
  unshared : ∀ i ∈ o.instances, Outdated desired i →
    ∀ j ∈ o.instances, j.recipe = i.recipe → isOurs j desired.deployment = true
  agrees : ∀ recipe model placement, desired.intent = .run recipe model placement →
    ∀ i ∈ o.instances, Current desired i → i.recipe = recipe
  startable : ∀ recipe model placement, desired.intent = .run recipe model placement →
    ((∀ i ∈ o.instances, ¬ Current desired i) ∨
      ∃ i ∈ o.instances, Outdated desired i ∧ i.recipe = recipe) →
    launchBlocked recipe model placement o desired.deployment = none

theorem current_owner {desired : Desired} {i : Instance} :
    Current desired i ↔ i.owner = some desired.owner := by
  cases i with
  | mk recipe owner =>
      cases owner with
      | none => simp [Current, isOurs, generationOf]
      | some owner =>
          cases owner
          simp [Current, isOurs, generationOf, Desired.owner]

theorem launchBlocked_none {recipe : RecipeId} {model : String} {placement : Placement}
    {o : Observed} {ours : DeploymentName} :
    launchBlocked recipe model placement o ours = none ↔
      placementBlocked placement o.accelerator = none ∧
      modelBlocked recipe model o.recipeModel = none ∧
      ∀ i ∈ o.instances, i.recipe = recipe → isOurs i ours = true := by
  simp only [launchBlocked]
  cases placementBlocked placement o.accelerator with
  | some _ => simp
  | none =>
      cases modelBlocked recipe model o.recipeModel with
      | some _ => simp
      | none => simp [foreign_none]

section Answers
variable {desired : Desired} {o : Observed}

/-- What a stop says: the state asked about was not refused, something outdated
runs the recipe, and nothing foreign does. -/
structure Stopping (desired : Desired) (o : Observed) (recipe : RecipeId) : Prop where
  fresh : Fresh desired o.instances
  target : ∃ i ∈ o.instances, Outdated desired i ∧ i.recipe = recipe
  own : ∀ i ∈ o.instances, i.recipe = recipe → isOurs i desired.deployment = true
  agrees : ∀ recipe model placement, desired.intent = .run recipe model placement →
    ∀ i ∈ o.instances, Current desired i → i.recipe = recipe
  startable : ∀ recipe model placement, desired.intent = .run recipe model placement →
    (∀ i ∈ o.instances, ¬ Current desired i) →
    launchBlocked recipe model placement o desired.deployment = none

theorem stop_eq {recipe q : RecipeId} {is : List Instance} {ours : DeploymentName}
    (h : stop recipe is ours = .stop q) :
    recipe = q ∧ ∀ i ∈ is, i.recipe = q → isOurs i ours = true := by
  rcases stop_cases recipe is ours with ⟨hs, own⟩ | ⟨other, _, _, _, hs⟩
  · rw [hs] at h
    cases h
    exact ⟨rfl, own⟩
  · rw [hs] at h
    cases h

theorem decide_stop {recipe : RecipeId} (h : decide desired o = .stop recipe) :
    Stopping desired o recipe := by
  have spec := decide_spec desired o
  generalize decide desired o = step at spec h
  cases spec with
  | stale | idle | conflict | blocked | launch | serving => cases h
  | windDown fresh intent hi ours =>
      obtain ⟨rfl, own⟩ := stop_eq h
      refine ⟨fresh, ⟨_, hi, ⟨ours, Or.inl intent⟩, rfl⟩, own, ?_, ?_⟩
      · intro recipe model placement hrun
        rw [intent] at hrun
        cases hrun
      · intro recipe model placement hrun
        rw [intent] at hrun
        cases hrun
  | replace fresh intent same clear hi ours stale =>
      obtain ⟨rfl, own⟩ := stop_eq h
      refine ⟨fresh, ⟨_, hi, ⟨ours, Or.inr stale⟩, rfl⟩, own, ?_, ?_⟩
      · intro recipe model placement hrun
        rw [intent] at hrun
        cases hrun
        exact same
      · intro recipe model placement hrun
        rw [intent] at hrun
        cases hrun
        exact clear

theorem decide_launch {recipe : RecipeId} (h : decide desired o = .launch recipe) :
    Fresh desired o.instances ∧ (∀ i ∈ o.instances, isOurs i desired.deployment = false) ∧
      ∃ model placement, desired.intent = .run recipe model placement ∧
        launchBlocked recipe model placement o desired.deployment = none := by
  have spec := decide_spec desired o
  generalize decide desired o = step at spec h
  cases spec with
  | stale | idle | conflict | blocked | serving => cases h
  | windDown | replace =>
      rcases stop_cases _ o.instances desired.deployment with ⟨hs, _⟩ | ⟨_, _, _, _, hs⟩ <;>
        rw [hs] at h <;> cases h
  | launch fresh intent nobody clear =>
      cases h
      exact ⟨fresh, nobody, _, _, intent, clear⟩

theorem decide_converged (h : decide desired o = .converged) :
    Settled desired o.instances := by
  have spec := decide_spec desired o
  generalize decide desired o = step at spec h
  cases spec with
  | stale | conflict | blocked | launch => cases h
  | windDown | replace =>
      rcases stop_cases _ o.instances desired.deployment with ⟨hs, _⟩ | ⟨_, _, _, _, hs⟩ <;>
        rw [hs] at h <;> cases h
  | idle fresh intent nobody =>
      simp only [Settled, intent]
      exact nobody
  | @serving recipe model placement fresh intent some_current all_current =>
      have exact_owner (i : Instance) (hi : i ∈ o.instances)
          (ours : isOurs i desired.deployment = true) : i = ⟨recipe, some desired.owner⟩ := by
        obtain ⟨hc, hr⟩ := all_current i hi ours
        rw [← hr, ← current_owner.mp hc]
      obtain ⟨i, hi, hc⟩ := some_current
      simp only [Settled, intent]
      refine ⟨?_, exact_owner⟩
      rw [← exact_owner i hi hc.1]
      exact hi

/-- Whatever of ours runs in a settled state is what was asked for. -/
theorem Settled.ours {is : List Instance} (h : Settled desired is) {i : Instance} (hi : i ∈ is)
    (ours : isOurs i desired.deployment = true) :
    ∃ recipe model placement, desired.intent = .run recipe model placement ∧
      i = ⟨recipe, some desired.owner⟩ := by
  cases intent : desired.intent with
  | stopped =>
      simp only [Settled, intent] at h
      rw [h i hi] at ours
      cases ours
  | run recipe model placement =>
      simp only [Settled, intent] at h
      exact ⟨recipe, model, placement, rfl, h.2 i hi ours⟩

theorem Settled.running {is : List Instance} {recipe : RecipeId} {model : String}
    {placement : Placement} (h : Settled desired is)
    (intent : desired.intent = .run recipe model placement) :
    ⟨recipe, some desired.owner⟩ ∈ is := by
  simp only [Settled, intent] at h
  exact h.1

/-- In a settled state there is nothing to do. -/
theorem decide_settled (h : Settled desired o.instances) : decide desired o = .converged := by
  have wanted (recipe : RecipeId) : Current desired ⟨recipe, some desired.owner⟩ :=
    current_owner.mpr rfl
  have current (i : Instance) (hi : i ∈ o.instances)
      (ours : isOurs i desired.deployment = true) : Current desired i := by
    obtain ⟨recipe, _, _, _, rfl⟩ := h.ours hi ours
    exact wanted recipe
  have spec := decide_spec desired o
  generalize decide desired o = step at spec
  cases spec with
  | idle | serving => rfl
  | stale hi ours hgen newer =>
      have := (current _ hi ours).2
      rw [hgen] at this
      cases this
      exact absurd newer (lt_irrefl _)
  | windDown fresh intent hi ours =>
      obtain ⟨_, _, _, hrun, _⟩ := h.ours hi ours
      rw [intent] at hrun
      cases hrun
  | conflict fresh intent hi hc differs =>
      obtain ⟨recipe, _, _, hrun, rfl⟩ := h.ours hi hc.1
      rw [intent] at hrun
      cases hrun
      exact absurd rfl differs
  | blocked fresh intent nobody => exact absurd (wanted _) (nobody _ (h.running intent))
  | replace fresh intent same clear hi ours stale => exact absurd (current _ hi ours) stale
  | launch fresh intent nobody =>
      have ours := nobody _ (h.running intent)
      rw [(wanted _).1] at ours
      cases ours

end Answers

section Rounds
variable {desired : Desired} {o : Observed} {is js : List Instance} {step : Step}

/-- Only a stop or a launch is carried out. -/
theorem Iterates.cases (h : Iterates desired o is step js) :
    (∃ recipe, step = .stop recipe ∧ Stopping desired (o.running is) recipe ∧
      js.Perm (is.filter (fun i => i.recipe ≠ recipe))) ∨
    (∃ recipe model placement, step = .launch recipe ∧
      desired.intent = .run recipe model placement ∧
      (∀ i ∈ is, isOurs i desired.deployment = false) ∧ Fresh desired is ∧
      launchBlocked recipe model placement (o.running is) desired.deployment = none ∧
      js.Perm (⟨recipe, some desired.owner⟩ :: is)) := by
  obtain ⟨hstep, carried⟩ := h
  cases carried with
  | stop perm => exact Or.inl ⟨_, rfl, decide_stop hstep, perm⟩
  | launch perm =>
      obtain ⟨fresh, nobody, model, placement, intent, clear⟩ := decide_launch hstep
      exact Or.inr ⟨_, model, placement, rfl, intent, nobody, fresh, clear, perm⟩

/-- No step touches a workload of another owner. -/
theorem Iterates.foreigners (h : Iterates desired o is step js) :
    (Foreigners desired js).Perm (Foreigners desired is) := by
  rcases h.cases with ⟨recipe, _, stopping, perm⟩ | ⟨recipe, _, _, _, _, _, _, _, perm⟩
  · have kept : (is.filter (fun i => i.recipe ≠ recipe)).filter
        (fun i => !isOurs i desired.deployment) = Foreigners desired is := by
      rw [List.filter_filter]
      apply List.filter_congr
      intro i hi
      cases ours : isOurs i desired.deployment with
      | true => simp
      | false =>
          have other : i.recipe ≠ recipe := by
            intro hr
            rw [stopping.own i hi hr] at ours
            cases ours
          simp [other]
    rw [← kept]
    exact perm.filter _
  · have mine : isOurs ⟨recipe, some desired.owner⟩ desired.deployment = true :=
      (current_owner.mpr rfl).1
    have kept : (⟨recipe, some desired.owner⟩ :: is).filter
        (fun i => !isOurs i desired.deployment) = Foreigners desired is := by
      rw [List.filter_cons_of_neg (by simp [mine])]
      rfl
    rw [← kept]
    exact perm.filter _

/-- A launch is the last step: what it leaves is settled. -/
theorem Iterates.launch_settles {recipe : RecipeId}
    (h : Iterates desired o is (.launch recipe) js) : Settled desired js := by
  rcases h.cases with ⟨_, hstep, _⟩ | ⟨_, _, _, hstep, intent, nobody, _, _, perm⟩
  · cases hstep
  · cases hstep
    simp only [Settled, intent]
    refine ⟨perm.mem_iff.mpr List.mem_cons_self, ?_⟩
    intro i hi ours
    rcases List.mem_cons.mp (perm.mem_iff.mp hi) with rfl | old
    · rfl
    · rw [nobody i old] at ours
      cases ours

/-- A stop takes one recipe away from the deployment for good. -/
theorem Iterates.stop_fewer {recipe : RecipeId} (h : Iterates desired o is (.stop recipe) js) :
    distinctRecipes desired js < distinctRecipes desired is := by
  rcases h.cases with ⟨_, hstep, stopping, perm⟩ | ⟨_, _, _, hstep, _⟩
  · cases hstep
    obtain ⟨i, hi, outdated, hr⟩ := stopping.target
    apply Finset.card_lt_card
    apply Finset.ssubset_iff_subset_ne.mpr
    constructor
    · intro q hq
      simp only [List.mem_toFinset, List.mem_map, List.mem_filter] at hq ⊢
      obtain ⟨j, ⟨hj, ours⟩, hjr⟩ := hq
      exact ⟨j, ⟨(List.mem_filter.mp (perm.mem_iff.mp hj)).1, ours⟩, hjr⟩
    · intro same
      have before : recipe ∈ ((is.filter (isOurs · desired.deployment)).map
          (·.recipe)).toFinset := by
        simp only [List.mem_toFinset, List.mem_map, List.mem_filter]
        exact ⟨i, ⟨hi, outdated.1⟩, hr⟩
      rw [← same] at before
      simp only [List.mem_toFinset, List.mem_map, List.mem_filter] at before
      obtain ⟨j, ⟨hj, _⟩, hjr⟩ := before
      have := (List.mem_filter.mp (perm.mem_iff.mp hj)).2
      simp [hjr] at this
  · cases hstep

theorem Settled.current {is : List Instance} (h : Settled desired is) {i : Instance}
    (hi : i ∈ is) (ours : isOurs i desired.deployment = true) : Current desired i := by
  obtain ⟨_, _, _, _, rfl⟩ := h.ours hi ours
  exact current_owner.mpr rfl

theorem Settled.not_outdated {is : List Instance} (h : Settled desired is) {i : Instance}
    (hi : i ∈ is) : ¬ Outdated desired i := by
  intro outdated
  obtain ⟨_, _, _, intent, _⟩ := h.ours hi outdated.1
  cases outdated.2 with
  | inl stopped =>
      rw [intent] at stopped
      cases stopped
  | inr stale => exact stale (h.current hi outdated.1)

theorem attainable_of_settled (h : Settled desired o.instances) : Attainable desired o := by
  refine ⟨?_, ?_, ?_, ?_⟩
  · intro i hi ours g hg
    rw [(h.current hi ours).2] at hg
    cases hg
    exact le_rfl
  · intro i hi outdated
    exact absurd outdated (h.not_outdated hi)
  · intro recipe model placement intent i hi hc
    obtain ⟨_, _, _, hrun, rfl⟩ := h.ours hi hc.1
    rw [intent] at hrun
    cases hrun
    rfl
  · intro recipe model placement intent premise
    rcases premise with nobody | ⟨i, hi, outdated, _⟩
    · exact absurd (current_owner.mpr rfl) (nobody _ (h.running intent))
    · exact absurd outdated (h.not_outdated hi)

theorem attainable_of_launch {recipe : RecipeId} (h : decide desired o = .launch recipe) :
    Attainable desired o := by
  obtain ⟨fresh, nobody, model, placement, intent, clear⟩ := decide_launch h
  have not_ours {i : Instance} (hi : i ∈ o.instances) :
      ¬ isOurs i desired.deployment = true := by
    rw [nobody i hi]
    exact Bool.false_ne_true
  refine ⟨fresh, ?_, ?_, ?_⟩
  · intro i hi outdated
    exact absurd outdated.1 (not_ours hi)
  · intro _ _ _ _ i hi hc
    exact absurd hc.1 (not_ours hi)
  · intro recipe' model' placement' hrun _
    rw [intent] at hrun
    cases hrun
    exact clear

/-- What a stop leaves: everything of other recipes, nothing of its own. -/
theorem mem_stopped {recipe : RecipeId} (perm : js.Perm (is.filter (fun i => i.recipe ≠ recipe)))
    {i : Instance} : i ∈ js ↔ i ∈ is ∧ i.recipe ≠ recipe := by
  rw [perm.mem_iff, List.mem_filter, decide_eq_true_eq]

/-- A stop asked for changes nothing about whether a launch is blocked: it
reaches no foreign workload. -/
theorem launchBlocked_stopped {recipe other : RecipeId} {model : String} {placement : Placement}
    (stopping : Stopping desired (o.running is) recipe)
    (perm : js.Perm (is.filter (fun i => i.recipe ≠ recipe))) :
    launchBlocked other model placement (o.running js) desired.deployment = none ↔
      launchBlocked other model placement (o.running is) desired.deployment = none := by
  have own : (∀ i ∈ js, i.recipe = other → isOurs i desired.deployment = true) ↔
      ∀ i ∈ is, i.recipe = other → isOurs i desired.deployment = true := by
    constructor
    · intro h i hi hr
      by_cases hq : i.recipe = recipe
      · exact stopping.own i hi hq
      · exact h i ((mem_stopped perm).mpr ⟨hi, hq⟩) hr
    · intro h i hi hr
      exact h i ((mem_stopped perm).mp hi).1 hr
  rw [launchBlocked_none, launchBlocked_none]
  simp only [Observed.running_instances, own]
  rfl

theorem attainable_after_stop {recipe : RecipeId}
    (stopping : Stopping desired (o.running is) recipe)
    (perm : js.Perm (is.filter (fun i => i.recipe ≠ recipe)))
    (h : Attainable desired (o.running is)) : Attainable desired (o.running js) := by
  have before {i : Instance} (hi : i ∈ js) : i ∈ is := ((mem_stopped perm).mp hi).1
  refine ⟨?_, ?_, ?_, ?_⟩
  · intro i hi
    exact h.fresh i (before hi)
  · intro i hi outdated j hj
    exact h.unshared i (before hi) outdated j (before hj)
  · intro recipe' model placement intent i hi
    exact h.agrees recipe' model placement intent i (before hi)
  · intro wanted model placement intent premise
    rw [launchBlocked_stopped stopping perm]
    apply h.startable wanted model placement intent
    rcases premise with nobody | ⟨i, hi, outdated, hr⟩
    · -- A current workload that the stop took had the wanted recipe, and so
      -- had the outdated one the stop was for.
      by_cases stays : ∀ i ∈ is, ¬ Current desired i
      · exact Or.inl stays
      · obtain ⟨c, hc, current⟩ : ∃ c ∈ is, Current desired c := by
          by_contra none
          exact stays fun i hi hcur => none ⟨i, hi, hcur⟩
        have taken : c.recipe = recipe := by
          by_contra kept
          exact nobody c ((mem_stopped perm).mpr ⟨hc, kept⟩) current
        obtain ⟨i, hi, outdated, hr⟩ := stopping.target
        have same := h.agrees wanted model placement intent c hc current
        exact Or.inr ⟨i, hi, outdated, hr.trans (taken.symm.trans same)⟩
    · exact Or.inr ⟨i, before hi, outdated, hr⟩

theorem attainable_before_stop {recipe : RecipeId}
    (stopping : Stopping desired (o.running is) recipe)
    (perm : js.Perm (is.filter (fun i => i.recipe ≠ recipe)))
    (h : Attainable desired (o.running js)) : Attainable desired (o.running is) := by
  have after {i : Instance} (hi : i ∈ is) (hr : i.recipe ≠ recipe) : i ∈ js :=
    (mem_stopped perm).mpr ⟨hi, hr⟩
  refine ⟨stopping.fresh, ?_, stopping.agrees, ?_⟩
  · intro i hi outdated j hj hr
    by_cases hq : i.recipe = recipe
    · exact stopping.own j hj (hr.trans hq)
    · exact h.unshared i (after hi hq) outdated j (after hj (by rwa [hr])) hr
  · intro wanted model placement intent premise
    rcases premise with nobody | ⟨i, hi, outdated, hr⟩
    · exact stopping.startable wanted model placement intent nobody
    · rw [← launchBlocked_stopped stopping perm]
      apply h.startable wanted model placement intent
      by_cases hq : wanted = recipe
      · refine Or.inl ?_
        intro j hj current
        have gone := ((mem_stopped perm).mp hj).2
        have same := h.agrees wanted model placement intent j hj current
        exact gone (same.trans hq)
      · exact Or.inr ⟨i, after hi (by rw [hr]; exact hq), outdated, hr⟩

/-- The condition is kept by every step, in both directions. -/
theorem Iterates.attainable_iff (h : Iterates desired o is step js) :
    Attainable desired (o.running js) ↔ Attainable desired (o.running is) := by
  rcases h.cases with ⟨recipe, _, stopping, perm⟩ | ⟨recipe, _, _, rfl, _⟩
  · exact ⟨attainable_before_stop stopping perm, attainable_after_stop stopping perm⟩
  · have reached : Attainable desired (o.running js) := attainable_of_settled h.launch_settles
    exact ⟨fun _ => attainable_of_launch h.1, fun _ => reached⟩

/-- Where the condition holds, `decide` does not refuse. -/
theorem Attainable.not_refused (h : Attainable desired o) (refusal : Refusal) :
    decide desired o ≠ .refuse refusal := by
  intro refused
  have spec := decide_spec desired o
  generalize decide desired o = step at spec refused
  have stopped (i : Instance) (hi : i ∈ o.instances) (outdated : Outdated desired i) :
      stop i.recipe o.instances desired.deployment ≠ .refuse refusal := by
    rcases stop_cases i.recipe o.instances desired.deployment with
      ⟨hs, _⟩ | ⟨other, hmem, hr, foreigner, _⟩
    · rw [hs]
      exact Step.noConfusion
    · rw [h.unshared i hi outdated other hmem hr] at foreigner
      cases foreigner
  cases spec with
  | idle | launch | serving => cases refused
  | stale hi ours hgen newer => exact absurd (h.fresh _ hi ours _ hgen) (not_le.mpr newer)
  | windDown fresh intent hi ours => exact stopped _ hi ⟨ours, Or.inl intent⟩ refused
  | conflict fresh intent hi hc differs => exact differs (h.agrees _ _ _ intent _ hi hc)
  | blocked fresh intent nobody hblock =>
      rw [h.startable _ _ _ intent (Or.inl nobody)] at hblock
      cases hblock
  | replace fresh intent same clear hi ours stale =>
      exact stopped _ hi ⟨ours, Or.inr stale⟩ refused

end Rounds

def Step.isStop : Step → Bool
  | .stop _ => true
  | _ => false

def Step.isLaunch : Step → Bool
  | .launch _ => true
  | _ => false

section Iteration
variable {desired : Desired} {o : Observed} {is js : List Instance} {steps : List Step}

theorem path_foreigners (path : Path (Iterates desired o) is steps js) :
    (Foreigners desired js).Perm (Foreigners desired is) :=
  path.relates (fun _ => .refl _) (fun _ _ _ first second => second.trans first)
    fun _ _ _ h => h.foreigners

theorem path_attainable (path : Path (Iterates desired o) is steps js) :
    Attainable desired (o.running js) ↔ Attainable desired (o.running is) :=
  path.relates (fun _ => .rfl) (fun _ _ _ first second => second.trans first)
    fun _ _ _ h => h.attainable_iff

theorem settled_converged (o : Observed) (h : Settled desired js) :
    decide desired (o.running js) = .converged :=
  decide_settled h

/-- A converged state has no stop ahead of it; any other has at most one for
each recipe the deployment runs. -/
def stopsLeft (desired : Desired) (o : Observed) (is : List Instance) : Nat :=
  if decide desired (o.running is) = .converged then 0 else distinctRecipes desired is

def launchesLeft (desired : Desired) (o : Observed) (is : List Instance) : Nat :=
  if decide desired (o.running is) = .converged then 0 else 1

theorem Iterates.unconverged {step : Step} (h : Iterates desired o is step js) :
    decide desired (o.running is) ≠ .converged := by
  obtain ⟨hstep, carried⟩ := h
  rw [hstep]
  cases carried <;> exact Step.noConfusion

theorem path_stops (path : Path (Iterates desired o) is steps js) :
    steps.countP Step.isStop ≤ distinctRecipes desired is := by
  have count : steps.countP Step.isStop + stopsLeft desired o js ≤ stopsLeft desired o is := by
    apply path.countP_le (stopsLeft desired o)
    · intro is step js h stops
      cases step with
      | converged | launch | refuse => cases stops
      | stop recipe =>
          have fewer := h.stop_fewer
          simp only [stopsLeft, if_neg h.unconverged]
          split <;> omega
    · intro is step js h stops
      rcases h.cases with ⟨_, rfl, _⟩ | ⟨_, _, _, rfl, _⟩
      · cases stops
      · have done := settled_converged o h.launch_settles
        simp [stopsLeft, done]
  have most : stopsLeft desired o is ≤ distinctRecipes desired is := by
    simp only [stopsLeft]
    split <;> omega
  omega

theorem path_launches (path : Path (Iterates desired o) is steps js) :
    steps.countP Step.isLaunch ≤ 1 := by
  have count : steps.countP Step.isLaunch + launchesLeft desired o js ≤
      launchesLeft desired o is := by
    apply path.countP_le (launchesLeft desired o)
    · intro is step js h launches
      cases step with
      | converged | stop | refuse => cases launches
      | launch recipe =>
          have done := settled_converged o h.launch_settles
          simp [launchesLeft, done, h.unconverged]
    · intro is step js h launches
      simp only [launchesLeft, if_neg h.unconverged]
      split <;> omega
  have most : launchesLeft desired o is ≤ 1 := by
    simp only [launchesLeft]
    split <;> omega
  omega

/-- Where the condition holds there is always a way on. -/
theorem Attainable.progress (h : Attainable desired (o.running is)) :
    decide desired (o.running is) = .converged ∨ ∃ step js, Iterates desired o is step js := by
  cases hstep : decide desired (o.running is) with
  | converged => exact Or.inl rfl
  | refuse refusal => exact absurd hstep (h.not_refused refusal)
  | stop recipe => exact Or.inr ⟨_, _, hstep, .stop (.refl _)⟩
  | launch recipe => exact Or.inr ⟨_, _, hstep, .launch (.refl _)⟩

theorem Attainable.reaches (h : Attainable desired (o.running is)) :
    ∃ steps js, Path (Iterates desired o) is steps js ∧
      decide desired (o.running js) = .converged := by
  generalize count : distinctRecipes desired is = n
  induction n using Nat.strong_induction_on generalizing is with
  | h n ih =>
      rcases h.progress with done | ⟨step, js, hstep⟩
      · exact ⟨[], is, .nil _, done⟩
      · rcases hstep.cases with ⟨recipe, rfl, _⟩ | ⟨recipe, _, _, rfl, _⟩
        · have fewer := hstep.stop_fewer
          rw [count] at fewer
          obtain ⟨steps, ks, path, done⟩ := ih _ fewer (hstep.attainable_iff.mpr h) rfl
          exact ⟨_ :: steps, ks, .cons hstep path, done⟩
        · have done := settled_converged o hstep.launch_settles
          exact ⟨[.launch recipe], js, .cons hstep (.nil _), done⟩

theorem converged_of_perm (done : decide desired (o.running js) = .converged)
    {ks : List Instance} (perm : ks.Perm js) : decide desired (o.running ks) = .converged := by
  have settled := decide_converged done
  apply decide_settled
  simp only [Observed.running_instances, Settled] at settled ⊢
  cases intent : desired.intent with
  | stopped =>
      simp only [intent] at settled
      intro i hi
      exact settled i (perm.mem_iff.mp hi)
  | run recipe model placement =>
      simp only [intent] at settled
      exact ⟨perm.mem_iff.mpr settled.1, fun i hi => settled.2 i (perm.mem_iff.mp hi)⟩

end Iteration

/-- Convergence: from exactly the attainable states iteration reaches a state
`decide` is content with. However far it has come, it has taken at most one stop
for each recipe of the deployment and one launch, and touched nothing foreign;
from an attainable state it can always go on until it has converged; and where
it has, the deployment runs exactly what was asked and asking again changes
nothing. -/
theorem iterate_converges (desired : Desired) (o : Observed) :
    (Attainable desired o ↔ ∃ steps js, Path (Iterates desired o) o.instances steps js ∧
      decide desired (o.running js) = .converged) ∧
    ∀ steps js, Path (Iterates desired o) o.instances steps js →
      steps.countP Step.isStop ≤ distinctRecipes desired o.instances ∧
      steps.countP Step.isLaunch ≤ 1 ∧
      (∀ step ∈ steps, step.isStop = true ∨ step.isLaunch = true) ∧
      (Foreigners desired js).Perm (Foreigners desired o.instances) ∧
      (Attainable desired o → decide desired (o.running js) = .converged ∨
        ∃ step ks, Iterates desired o js step ks) ∧
      (decide desired (o.running js) = .converged → Settled desired js ∧
        ∀ ks, ks.Perm js → decide desired (o.running ks) = .converged) := by
  have here : o.running o.instances = o := rfl
  refine ⟨⟨?_, ?_⟩, ?_⟩
  · intro h
    exact Attainable.reaches (by rwa [here])
  · intro ⟨steps, js, path, done⟩
    rw [← here, ← path_attainable path]
    exact attainable_of_settled (decide_converged done)
  · intro steps js path
    refine ⟨path_stops path, path_launches path, ?_, path_foreigners path, ?_, ?_⟩
    · have one (is : List Instance) (step : Step) (js : List Instance)
          (h : Iterates desired o is step js) : step.isStop = true ∨ step.isLaunch = true := by
        rcases h.cases with ⟨_, rfl, _⟩ | ⟨_, _, _, rfl, _⟩
        · exact Or.inl rfl
        · exact Or.inr rfl
      exact path.labels one
    · intro h
      exact ((path_attainable path).mpr (by rwa [here])).progress
    · intro done
      exact ⟨decide_converged done, fun ks perm => converged_of_perm done perm⟩

/-- Replacing generation 1 of `chat`, which serves two recipes, by generation 2. -/
def upgrade : Desired :=
  ⟨⟨"chat", by decide⟩, ⟨2, by decide, by decide⟩, .run ⟨"qwen3", by decide⟩ "Qwen/Qwen3" .thisNode⟩

def chatOne (recipe : RecipeId) : Instance :=
  ⟨recipe, some ⟨⟨"chat", by decide⟩, ⟨1, by decide, by decide⟩⟩⟩

/-- The older generation alone: the upgrade is attainable, and is reached. -/
theorem iterate_converges_upgrade :
    ∃ steps js, Path (Iterates upgrade ⟨[chatOne ⟨"llama", by decide⟩], "", some "Qwen/Qwen3"⟩)
      [chatOne ⟨"llama", by decide⟩] steps js ∧
      decide upgrade ⟨js, "", some "Qwen/Qwen3"⟩ = .converged := by
  apply (iterate_converges upgrade
    ⟨[chatOne ⟨"llama", by decide⟩], "", some "Qwen/Qwen3"⟩).1.mp
  refine ⟨?_, ?_, ?_, ?_⟩
  · intro i hi _ g hg
    rw [List.mem_singleton.mp hi] at hg
    cases hg
    decide
  · intro i hi _ j hj _
    rw [List.mem_singleton.mp hj]
    rfl
  · intro _ _ _ _ i hi current
    rw [List.mem_singleton.mp hi] at current
    exact absurd current.2 (by decide)
  · intro recipe model placement intent _
    cases intent
    decide

/-- With one of the two recipes also run by hand, `decide` first asks for a stop
and refuses only after it: what it answers first does not tell how it ends. -/
theorem not_refused_first_not_converged :
    ¬ ∀ (desired : Desired) (o : Observed), (∀ refusal, decide desired o ≠ .refuse refusal) →
      ∃ steps js, Path (Iterates desired o) o.instances steps js ∧
        decide desired (o.running js) = .converged := by
  intro claim
  let shared : RecipeId := ⟨"mistral", by decide⟩
  let o : Observed :=
    ⟨[chatOne ⟨"llama", by decide⟩, chatOne shared, ⟨shared, none⟩], "", some "Qwen/Qwen3"⟩
  have first : decide upgrade o = .stop ⟨"llama", by decide⟩ := by decide
  obtain ⟨steps, js, path, done⟩ := claim upgrade o fun refusal h => by
    rw [first] at h
    cases h
  have attainable : Attainable upgrade o :=
    (path_attainable path).mp (attainable_of_settled (decide_converged done))
  have outdated : Outdated upgrade (chatOne shared) :=
    ⟨by decide, Or.inr fun current => absurd current.2 (by decide)⟩
  have own := attainable.unshared (chatOne shared) (by decide) outdated ⟨shared, none⟩
    (by decide) rfl
  cases own

end Reconcile
end Metralectl
