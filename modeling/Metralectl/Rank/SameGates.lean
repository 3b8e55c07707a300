import Metralectl.Rank.Rendering

/-!
Two ways a container is started on one machine, each with its own chain of gates:
a launch through the control core, and a rank through the rank service. Three
gates of the first are not in the second.
-/
namespace Metralectl

/-- What a launch can be refused for before anything is started. -/
inductive Gate where
  | unable
  | admission
  | unknownRecipe
  | notLaunchable
  | hardware
  | release
  | settings
  | caution
deriving DecidableEq

/-- The grounds on which no path is to start what the other would have refused. -/
def Gate.Shared : Gate → Prop
  | .admission | .hardware | .caution => True
  | _ => False

namespace LocalControl
variable {σ : Type} (c : LocalControl σ)

def hardwareOk (recipe : Recipe) : Except String Unit :=
  match recipe.requires with
  | some required => Hardware.check required.hardwareClass c.accelerator
  | none => .ok ()

/-- The first gate a launch does not pass. -/
def stoppedBy (s : σ) (id : RecipeId) (requested : Settings) (launchFor : LaunchFor) :
    Option Gate :=
  match c.canLaunch, (c.admission s).2.admits, c.resolve id with
  | .error _, _, _ => some .unable
  | .ok (), .error _, _ => some .admission
  | .ok (), .ok (), none => some .unknownRecipe
  | .ok (), .ok (), some recipe =>
      match recipe.launchable, c.hardwareOk recipe with
      | .error _, _ => some .notLaunchable
      | .ok (), .error _ => some .hardware
      | .ok (), .ok () =>
          if launchFor.release.any (·.model ≠ recipe.model) then some .release
          else
            match c.schema.validate requested with
            | .error _ => some .settings
            | .ok overrides => if (c.cautioned overrides).isSome then some .caution else none

/-- The three gates that read the recipe alone, one after the other. -/
theorem recipeGate_eq (recipe : Recipe) (release : Option VerifiedRelease) :
    (c.recipeGate recipe release = .ok ()) ↔ recipe.launchable = .ok () ∧
      c.hardwareOk recipe = .ok () ∧ release.any (·.model ≠ recipe.model) = false := by
  unfold recipeGate hardwareOk
  cases recipe.launchable with
  | error why => simp
  | ok _ =>
      cases recipe.requires with
      | none =>
          cases release with
          | none => simp
          | some r => by_cases same : r.model = recipe.model <;> simp [same]
      | some required =>
          cases checked : Hardware.check required.hardwareClass c.accelerator with
          | error why => simp [checked]
          | ok _ =>
              cases release with
              | none => simp [checked]
              | some r => by_cases same : r.model = recipe.model <;> simp [checked, same]

variable {c} {s : σ} {id : RecipeId} {requested : Settings} {launchFor : LaunchFor}

/-- A launch is refused by the first gate it does not pass, -/
theorem launch_stopped {g : Gate} (h : c.stoppedBy s id requested launchFor = some g) :
    ∃ e, (c.launch s id requested launchFor).2 = .error e := by
  unfold stoppedBy at h
  unfold launch
  cases able : c.canLaunch with
  | error why => exact ⟨_, rfl⟩
  | ok _ =>
      cases admits : (c.admission s).2.admits with
      | error reason =>
          simp only [admits]
          exact ⟨_, rfl⟩
      | ok _ =>
          cases known : c.resolve id with
          | none =>
              simp only [admits]
              exact ⟨_, rfl⟩
          | some recipe =>
              simp only [admits]
              cases passed : c.recipeGate recipe launchFor.release with
              | error why => exact ⟨_, rfl⟩
              | ok _ =>
                  obtain ⟨launchable, met, fits⟩ := (c.recipeGate_eq _ _).mp passed
                  simp only [able, admits, known, launchable, met, fits] at h
                  cases valid : c.schema.validate requested with
                  | error errors => exact ⟨_, rfl⟩
                  | ok overrides =>
                      simp only [valid] at h
                      cases warned : c.cautioned overrides with
                      | some why =>
                          simp only [warned]
                          exact ⟨_, rfl⟩
                      | none => simp [warned] at h

/-- and one that passes them all is its launcher's. -/
theorem launch_passed (h : c.stoppedBy s id requested launchFor = none) :
    ∃ recipe overrides, c.resolve id = some recipe ∧ c.schema.validate requested = .ok overrides ∧
      c.launch s id requested launchFor =
        c.launcher.launch (c.admission s).1 recipe overrides launchFor := by
  unfold stoppedBy at h
  unfold launch
  cases able : c.canLaunch with
  | error why => simp [able] at h
  | ok _ =>
      cases admits : (c.admission s).2.admits with
      | error reason => simp [able, admits] at h
      | ok _ =>
          cases known : c.resolve id with
          | none => simp [able, admits, known] at h
          | some recipe =>
              simp only [able, admits, known] at h ⊢
              split at h
              · cases h
              · cases h
              · next launchable met =>
                  split at h
                  · cases h
                  · next fits =>
                      have passed := (c.recipeGate_eq recipe launchFor.release).mpr
                        ⟨launchable, met, by simpa using fits⟩
                      split at h
                      · cases h
                      · next overrides valid =>
                          have unwarned : c.cautioned overrides = none := by simpa using h
                          simp only [passed, valid, unwarned]
                          exact ⟨recipe, overrides, rfl, rfl, rfl⟩

end LocalControl

namespace Rendering
open LocalRank

/-- One machine, as its control core and its rank service are built: from the same
registry, the same schema and the same word on whether it can run models. -/
structure Node (σ : Type) where
  rank : RankMachine
  launcher : Launcher σ
  accelerator : String
  admission : σ → σ × Admission

namespace Node
variable {σ : Type} (n : Node σ)

def control : LocalControl σ where
  resolve id := (n.rank.registry.resolve (.bare id.text)).toOption.map (·.toRecipe)
  named := by
    intro id recipe h
    obtain ⟨r, loaded, rfl⟩ := Option.map_eq_some_iff.mp h
    apply RecipeId.ext_text
    cases resolved : n.rank.registry.resolve (.bare id.text) with
    | error e => simp [resolved, Except.toOption] at loaded
    | ok r' =>
        simp only [resolved, Except.toOption, Option.some.injEq] at loaded
        subst loaded
        exact RegistrySet.resolveBare_named resolved
  launcher := n.launcher
  canLaunch := n.rank.canLaunch
  accelerator := n.accelerator
  admission := n.admission
  schema := n.rank.schema

variable (s : σ) (launchFor : LaunchFor) (conditions : Conditions) (m : Host) (epoch : String)
  (id : RecipeId) (a : RankAssignment)

/-- What a launch refuses on a shared ground, a rank of the same recipe with the
same settings is refused. -/
def SameGates : Prop :=
  ∀ gate, n.control.stoppedBy s id a.settings launchFor = some gate → gate.Shared →
    (prepare n.rank.host conditions m epoch a).2 ≠ .prepared

/-- Nothing this machine refuses a launch for on a shared ground applies. -/
structure Unobjectionable : Prop where
  admits : (n.admission s).2.admits = .ok ()
  hardware : ∀ recipe, n.control.resolve id = some recipe → n.control.hardwareOk recipe = .ok ()
  caution : ∀ recipe overrides, n.control.resolve id = some recipe →
    launchFor.release.any (·.model ≠ recipe.model) = false →
    n.rank.schema.validate a.settings = .ok overrides → n.control.cautioned overrides = none

variable {n s launchFor conditions m epoch id a}

/-- What the rank service's own gates have in common with a launch's. -/
theorem accepts_common (named : a.recipe = id.text)
    (accepts : Accepts n.rank.host conditions m epoch a) :
    n.rank.canLaunch = .ok () ∧ ∃ recipe overrides, n.control.resolve id = some recipe ∧
      recipe.launchable = .ok () ∧ n.rank.schema.validate a.settings = .ok overrides := by
  obtain ⟨⟨slot, checked⟩, plan, probed⟩ := accepts
  have able : n.rank.canLaunch = .ok () := by
    simp only [RankHost.check, RankMachine.host] at checked
    cases can : n.rank.canLaunch with
    | ok _ => rfl
    | error why => simp [can] at checked
  obtain ⟨recipe, overrides, rendered⟩ := RankMachine.planFor_ok (Rank.probe_ok probed)
  refine ⟨able, recipe.toRecipe, overrides, ?_, rendered.launchable, rendered.validated⟩
  have resolved := rendered.resolved
  rw [named] at resolved
  cases RecipeRef.parse_recipeId id with
  | inl bare =>
      rw [bare] at resolved
      simp [control, resolved, Except.toOption]
  | inr path =>
      rw [path] at resolved
      cases resolved

/-- Past the gates both paths have, a launch meets the other three in this order. -/
theorem stoppedBy_common {recipe : Recipe} {overrides : Settings}
    (able : n.rank.canLaunch = .ok ()) (known : n.control.resolve id = some recipe)
    (launchable : recipe.launchable = .ok ())
    (valid : n.rank.schema.validate a.settings = .ok overrides) :
    n.control.stoppedBy s id a.settings launchFor =
      match (n.admission s).2.admits with
      | .error _ => some .admission
      | .ok () =>
          match n.control.hardwareOk recipe with
          | .error _ => some .hardware
          | .ok () =>
              if launchFor.release.any (·.model ≠ recipe.model) then some .release
              else if (n.control.cautioned overrides).isSome then some .caution
              else none := by
  have able' : n.control.canLaunch = .ok () := able
  have valid' : n.control.schema.validate a.settings = .ok overrides := valid
  have same : n.control.admission s = n.admission s := rfl
  unfold LocalControl.stoppedBy
  rw [able', known, same]
  cases (n.admission s).2.admits with
  | error why => rfl
  | ok _ =>
      simp only [launchable, valid']
      cases n.control.hardwareOk recipe <;> rfl

/-- Both paths keep the same gates exactly where the rank service refuses for
reasons of its own, or nothing objects to the launch on a shared ground. -/
theorem sameGates_iff {σ : Type} (n : Node σ) (s : σ) (launchFor : LaunchFor)
    (conditions : Conditions) (m : Host) (epoch : String) (id : RecipeId) (a : RankAssignment)
    (named : a.recipe = id.text) :
    SameGates n s launchFor conditions m epoch id a ↔
      ¬ Accepts n.rank.host conditions m epoch a ∨ Unobjectionable n s launchFor id a := by
  by_cases accepts : Accepts n.rank.host conditions m epoch a
  · obtain ⟨able, recipe, overrides, known, launchable, valid⟩ := accepts_common named accepts
    have prepared := prepare_iff.mpr accepts
    have gate : SameGates n s launchFor conditions m epoch id a ↔
        ∀ gate, n.control.stoppedBy s id a.settings launchFor = some gate → ¬ gate.Shared :=
      forall₂_congr fun g _ => ⟨fun h shared => h shared prepared, fun h shared => absurd shared h⟩
    rw [gate, or_iff_right (not_not.mpr accepts)]
    rw [stoppedBy_common able known launchable valid]
    constructor
    · intro unshared
      cases admits : (n.admission s).2.admits with
      | error why => exact absurd trivial (unshared .admission (by rw [admits]))
      | ok _ =>
          cases met : n.control.hardwareOk recipe with
          | error why => exact absurd trivial (unshared .hardware (by rw [admits, met]))
          | ok _ =>
              refine ⟨admits, ?_, ?_⟩
              · intro r same
                cases known.symm.trans same
                exact met
              · intro r o same fits validated
                cases known.symm.trans same
                cases valid.symm.trans validated
                by_contra warned
                have some_ := Option.isSome_iff_ne_none.mpr warned
                exact unshared .caution (by simp only [admits, met, fits, some_]; rfl) trivial
    · rintro ⟨admits, hardware, caution⟩ g stopped shared
      simp only [admits, hardware recipe known] at stopped
      split at stopped
      · cases stopped
        exact shared
      · next fits =>
          rw [caution recipe overrides known (by simpa using fits) valid] at stopped
          cases stopped
  · exact iff_of_true (fun _ _ _ => mt prepare_iff.mp accepts) (Or.inl accepts)

section Fixed

/-- A machine of the fleet under a given admission state. -/
def sparkNode (admission : Admission) : Node Unit where
  rank := sparkMachine (.fromRaw ⟨none, none, none, none⟩) (some ⟨.gb10⟩)
  launcher :=
    { launch := fun s r _ _ => (s, .ok ⟨Docker.containerName r.name.text .solo, none⟩)
      fetchImage := fun s _ => (s, .ok ())
      stop := fun s _ => (s, .ok ())
      workloads := fun s => (s, .ok []) }
  accelerator := "NVIDIA GB10"
  admission s := (s, admission)

def calm : Conditions := ⟨0, true, true, .ok ⟨0, "", ""⟩, .ran, .ok ⟨0, "true", ""⟩⟩

/-- An open machine of the class the recipe needs takes both. -/
theorem sameGates_iff_open :
    Rank.rankOne.recipe = qwen.text ∧
      SameGates (sparkNode .open_) () ⟨none, none, none⟩ calm ⟨none, []⟩ "e1" qwen Rank.rankOne := by
  refine ⟨rfl, (sameGates_iff _ _ _ _ _ _ _ _ rfl).mpr (Or.inr ⟨rfl, ?_, ?_⟩)⟩
  · intro recipe h
    cases h
    decide
  · intro recipe overrides _ _ valid
    cases valid
    rfl

/-- A cordoned machine refuses the launch and takes the rank. -/
theorem not_sameGates_cordoned :
    ¬ SameGates (sparkNode (.cordoned "maintenance")) () ⟨none, none, none⟩ calm ⟨none, []⟩ "e1" qwen
      Rank.rankOne := by
  intro same
  exact same .admission rfl trivial rfl

end Fixed

end Node
end Rendering
end Metralectl
