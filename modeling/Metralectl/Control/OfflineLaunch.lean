import Metralectl.Control.NoRollback
import Metralectl.Core.HubCache

/-!
What runs on a node has its weights: a launch is offline, and the agent starts nothing that would
have to fetch them. The check is made where a launch is, so it covers whatever asks for one.
-/
namespace Metralectl

namespace LocalControl
variable {σ : Type}

/-- What holds of a state, whatever the control core is asked to do about a recipe it knows. -/
structure Keeps (c : LocalControl σ) (I : σ → Prop) : Prop where
  launch : ∀ s id recipe overrides launchFor, c.resolve id = some recipe → I s →
    I (c.launcher.launch s recipe overrides launchFor).1
  fetchImage : ∀ s image, I s → I (c.launcher.fetchImage s image).1
  stop : ∀ s recipe, I s → I (c.launcher.stop s recipe).1
  workloads : ∀ s, I s → I (c.launcher.workloads s).1
  admission : ∀ s, I s → I (c.admission s).1

theorem Keeps.launched {c : LocalControl σ} {I : σ → Prop} (keeps : c.Keeps I) {s : σ} (hs : I s)
    (id : RecipeId) (requested : Settings) (launchFor : LaunchFor) :
    I (c.launch s id requested launchFor).1 := by
  unfold LocalControl.launch
  split
  · exact hs
  · have read : I (c.admission s).1 := keeps.admission s hs
    dsimp only
    split
    · exact read
    · split
      · exact read
      · next recipe resolved =>
          split
          · exact read
          · split
            · exact read
            · split
              · exact read
              · exact keeps.launch _ id recipe _ launchFor resolved read

end LocalControl

namespace Reconcile
open LocalControl

section Kept
variable {σ : Type} {c : LocalControl σ} {I : σ → Prop} {desired : Desired}
  {release : Option VerifiedRelease} {trace : Option ControlTrace} {s t : σ}

theorem answerNow_keeps (keeps : c.Keeps I) (hs : I s) (outcome : ActionOutcome)
    (detail : Option String) : I (answerNow c desired s outcome detail).1 := by
  have listed : I (c.workloads s).1 := keeps.workloads s hs
  unfold answerNow
  split
  · next same => rwa [same] at listed
  · next same => rwa [same] at listed

theorem attempt_keeps (keeps : c.Keeps I) (hs : I s) (recipe : RecipeId) :
    I (attempt c desired release trace s recipe).1 := by
  have read : I (c.admission s).1 := keeps.admission s hs
  have pulled : I (fetched c release (c.admission s).1).1 := by
    unfold fetched
    split
    · next r => exact keeps.fetchImage _ r.image read
    · exact read
  unfold attempt
  dsimp only
  split
  · exact read
  · split
    · next same => rwa [same] at pulled
    · next t same =>
        rw [same] at pulled
        have launched := keeps.launched pulled recipe []
          ⟨some ⟨desired.deployment, desired.generation⟩, release, trace⟩
        split
        · next same => rwa [same] at launched
        · next u e same =>
            rw [same] at launched
            split
            · exact launched
            · have again : I (c.admission u).1 := keeps.admission u launched
              split
              · exact again
              · exact again
            · exact launched

theorem stopRefusal_keeps (keeps : c.Keeps I) (hs : I s) : I (stopRefusal c desired s).1 := by
  unfold stopRefusal
  split
  · exact keeps.admission s hs
  · exact hs

/-- What the effects of a control core keep, its rounds keep. -/
theorem rounds_keeps (keeps : c.Keeps I) (hs : I s) (maxSteps left : Nat) (acted : Bool)
    (launched : Option RecipeId) :
    I (rounds c desired release trace maxSteps left s acted launched).1 := by
  induction left generalizing s acted launched with
  | zero => exact hs
  | succ left ih =>
      have list {t : σ} {ws : Except AgentError (List Workload)} (same : c.workloads s = (t, ws)) :
          I t := by
        have kept : I (c.workloads s).1 := keeps.workloads s hs
        rwa [same] at kept
      have tried {t u : σ} {recipe : RecipeId}
          {r : Except AgentError (Option (ActionOutcome × Option String))} (ht : I t)
          (same : attempt c desired release trace t recipe = (u, r)) : I u := by
        have kept : I (attempt c desired release trace t recipe).1 := attempt_keeps keeps ht recipe
        rwa [same] at kept
      have gate {t u : σ} {r : Option ActionOutcome} (ht : I t)
          (same : stopRefusal c desired t = (u, r)) : I u := by
        have kept : I (stopRefusal c desired t).1 := stopRefusal_keeps keeps ht
        rwa [same] at kept
      have halted {t u : σ} {recipe : RecipeId} {r : Except AgentError Unit} (ht : I t)
          (same : c.stop t recipe = (u, r)) : I u := by
        have kept : I (c.stop t recipe).1 := keeps.stop t recipe.text ht
        rwa [same] at kept
      have round := rounds_cases c desired release trace maxSteps left s acted launched
      generalize rounds c desired release trace maxSteps (left + 1) s acted launched = r at round
      cases round with
      | unlisted listed => exact list listed
      | converged listed _ => exact list listed
      | refused listed _ => exact list listed
      | exited listed _ _ => exact answerNow_keeps keeps (list listed) _ _
      | unlaunched listed _ _ attempted => exact tried (list listed) attempted
      | denied listed _ _ attempted =>
          exact answerNow_keeps keeps (tried (list listed) attempted) _ _
      | launched listed _ _ attempted => exact ih (tried (list listed) attempted) _ _
      | closed listed _ refusal => exact gate (list listed) refusal
      | unstopped listed _ refusal stopping => exact halted (gate (list listed) refusal) stopping
      | stopped listed _ refusal stopping => exact ih (halted (gate (list listed) refusal) stopping) _ _

/-- So does the answer to a whole action. -/
theorem answerAction_keeps (keeps : c.Keeps I) (hs : I s) (node : NodeId)
    (action : DeploymentAction) (target : Target) (maxSteps now : Nat) :
    I (answerAction c node action target maxSteps now s).1 := by
  unfold answerAction
  dsimp only
  split
  · unfold converge
    split
    · exact rounds_keeps keeps hs _ _ _ _
    · exact answerNow_keeps keeps hs _ _
  · exact answerNow_keeps keeps hs _ _

end Kept

end Reconcile

namespace Docker
open Reconcile

/-- The same machine, had it no cache to look into. -/
def Machine.unchecked (m : Machine) : Machine :=
  { m with rendering := { m.rendering with missingWeights := fun _ => none } }

section Offline
variable (m : Machine) (fs : HubCache.FileSystem) (cacheDir : String)

/-- The machine looks for weights in this cache. -/
def Consults : Prop := m.rendering.missingWeights = HubCache.missingWeights fs cacheDir

/-- A command has the weights it serves: it brings its own, or nothing keeps it from the cached. -/
def Supplied (plan : DockerCommand) (recipe : Recipe) : Prop :=
  plan.command.contains "--model-from-path" = true ∨ HubCache.Servable fs cacheDir recipe.model

/-- A container as a launch on this machine starts it. -/
def Launches (c : Container) : Prop :=
  ∃ recipe overrides base launchFor id, m.resolve recipe.name = some recipe ∧
    m.rendering.plan recipe overrides = .ok base ∧ Supplied fs cacheDir base recipe ∧
    c = Container.of (launchPlan base launchFor) id

/-- Every container there is was there before or has been launched in this call, with its weights. -/
structure Accounted (before : List Container) (s : Session) : Prop where
  started : ∀ c ∈ s.started, Launches m fs cacheDir c
  containers : ∀ c ∈ s.containers, c ∈ before ∨ c ∈ s.started

variable {m fs cacheDir} {cond : Conditions} {before : List Container} {s : Session}
  {recipe : Recipe} {overrides : Settings} {base : DockerCommand} {launchFor : LaunchFor}

theorem unready_none (consults : Consults m fs cacheDir) :
    unready m (launchPlan base launchFor) recipe = none ↔ Supplied fs cacheDir base recipe := by
  have same : (launchPlan base launchFor).command = base.command := rfl
  rw [unready, Supplied, same, consults]
  cases base.command.contains "--model-from-path" with
  | true => simp
  | false => simp [HubCache.missingWeights_none]

theorem launch_accounted (consults : Consults m fs cacheDir) {id : RecipeId}
    (resolved : m.resolve id = some recipe) (accounted : Accounted m fs cacheDir before s) :
    Accounted m fs cacheDir before (launch m cond s recipe overrides launchFor).1 := by
  unfold launch
  split
  · exact accounted
  · next base planned =>
      dsimp only
      split
      · exact accounted
      · next ready =>
          split
          · exact accounted
          · split
            · exact accounted
            · unfold run
              split
              · exact accounted
              · next new _ =>
                  have launched : Launches m fs cacheDir
                      (Container.of (launchPlan base launchFor) new) :=
                    ⟨recipe, overrides, base, launchFor, new, m.named id recipe resolved ▸ resolved,
                      planned, (unready_none consults).mp ready, rfl⟩
                  refine ⟨?_, ?_⟩
                  · intro c hc
                    cases List.mem_cons.mp hc with
                    | inl here => exact here ▸ launched
                    | inr there => exact accounted.started c there
                  · intro c hc
                    dsimp only at hc
                    have among : c ∈ s.containers ++ [Container.of (launchPlan base launchFor) new] := by
                      split at hc
                      · exact hc
                      · exact List.mem_append_left _ hc
                    cases List.mem_append.mp among with
                    | inl there =>
                        exact (accounted.containers c there).imp_right (List.mem_cons_of_mem _)
                    | inr here => exact .inr (List.mem_singleton.mp here ▸ List.mem_cons_self)

theorem accounted_kept (consults : Consults m fs cacheDir) :
    (control m cond).Keeps (Accounted m fs cacheDir before) where
  launch _ _ _ _ _ resolved accounted := launch_accounted consults resolved accounted
  fetchImage s image accounted := by
    simp only [control, launcher]
    split
    · exact accounted
    · exact accounted
  stop s recipe accounted := by
    change Accounted m fs cacheDir before (stop cond s recipe).1
    unfold Docker.stop
    split
    · exact ⟨accounted.started, fun c hc => accounted.containers c (List.mem_of_mem_filter hc)⟩
    · exact ⟨accounted.started, fun c hc => accounted.containers c (List.mem_of_mem_filter hc)⟩
  workloads _ accounted := ⟨accounted.started, accounted.containers⟩
  admission _ accounted := ⟨accounted.started, accounted.containers⟩

/-- A launch without its weights is refused with what is missing, and changes nothing; to any other
the cache makes no difference. -/
theorem launch_supplied (consults : Consults m fs cacheDir)
    (planned : m.rendering.plan recipe overrides = .ok base) :
    (Supplied fs cacheDir base recipe → launch m cond s recipe overrides launchFor =
      launch m.unchecked cond s recipe overrides launchFor) ∧
    (¬ Supplied fs cacheDir base recipe → ∃ detail,
      HubCache.missingWeights fs cacheDir recipe.model = some detail ∧
        launch m cond s recipe overrides launchFor = (s, .error (.launchFailed detail))) := by
  have unplanned : m.unchecked.rendering.plan recipe overrides = .ok base := planned
  have free : unready m.unchecked (launchPlan base launchFor) recipe = none := by
    unfold unready
    exact ite_self none
  refine ⟨?_, ?_⟩
  · intro supplied
    unfold launch
    simp only [planned, unplanned, free, (unready_none consults).mpr supplied]
  · intro bare
    cases missing : unready m (launchPlan base launchFor) recipe with
    | none => exact absurd ((unready_none consults).mp missing) bare
    | some detail =>
        refine ⟨detail, ?_, ?_⟩
        · unfold unready at missing
          split at missing
          · cases missing
          · rw [← consults]
            exact missing
        · unfold launch
          simp only [planned, missing]

end Offline

end Docker

namespace Delivered
open Reconcile Docker Runs

section Weights
variable {before after : List Container} {events : List Event}

theorem Delivery.accounted {d : Delivery} {fs : HubCache.FileSystem} {dir : String}
    (consults : Consults d.machine fs dir) (containers : List Container) :
    Accounted d.machine fs dir containers (d.answered containers).1 := by
  have first : Accounted d.machine fs dir containers (Session.begin_ containers) :=
    ⟨fun _ hc => absurd hc List.not_mem_nil, fun _ hc => .inl hc⟩
  exact answerAction_keeps (accounted_kept consults) first _ _ _ _ _

/-- An action of these events, on what ran when it came, starts the container, with its weights. -/
def StartedBy (disk : Delivery → HubCache.FileSystem) (cacheDir : Delivery → String)
    (before : List Container) (events : List Event) (c : Container) : Prop :=
  ∃ early d late here, events = early ++ Event.answer d :: late ∧ Run step Free before early here ∧
    c ∈ (d.answered here).1.started ∧ Launches d.machine (disk d) (cacheDir d) c

/-- Whatever arrives in whatever order: what runs in the end ran at first, was put there by someone
else, or was started by an action of this run on a machine that had the weights for it. -/
theorem runs_supplied (disk : Delivery → HubCache.FileSystem) (cacheDir : Delivery → String)
    (consults : ∀ d, .answer d ∈ events → Consults d.machine (disk d) (cacheDir d))
    (run : Run step Free before events after) {c : Container} (runs : c ∈ after) :
    c ∈ before ∨ (∃ others, .outside others ∈ events ∧ c ∈ others) ∨
      StartedBy disk cacheDir before events c := by
  induction run with
  | nil _ => exact .inl runs
  | @cons here there _ e later hstep _ ih =>
      have rest := ih (fun d hd => consults d (List.mem_cons_of_mem _ hd)) runs
      rcases rest with now | ⟨others, placed, hc⟩ | ⟨early, d, late, at_, split, came, launched⟩
      · cases e with
        | outside others =>
            obtain rfl : others = there := Option.some.inj hstep.2
            exact .inr (.inl ⟨others, List.mem_cons_self, now⟩)
        | answer d =>
            obtain rfl : (d.answered here).1.containers = there := Option.some.inj hstep.2
            have accounted := Delivery.accounted (consults d List.mem_cons_self) here
            cases accounted.containers c now with
            | inl old => exact .inl old
            | inr new =>
                exact .inr (.inr ⟨[], d, later, here, rfl, .nil _, new, accounted.started c new⟩)
      · exact .inr (.inl ⟨others, List.mem_cons_of_mem _ placed, hc⟩)
      · exact .inr (.inr ⟨e :: early, d, late, at_, congrArg (e :: ·) split, .cons hstep came,
          launched⟩)

end Weights

section Fixed
open HubCache Utf8

/-- A cache that holds one snapshot of one model, its only weight file below a directory of it. -/
def shelf : FileSystem where
  readDir place :=
    if place = snapshots "/c/hub/models--qwen--qwen3".toList then
      some [⟨encode "main".toList, none⟩]
    else if place.names.length = 2 then
      some [⟨encode "config.json".toList, some false⟩, ⟨encode "weights".toList, some true⟩]
    else if place.names.length = 3 then some [⟨encode "model-1.gguf".toList, some false⟩]
    else none
  resolves _ := true

def stocked : Delivery :=
  { delivery .apply one with
    machine := { plainMachine with
      rendering := { plainMachine.rendering with missingWeights := missingWeights shelf "/c" } } }

theorem runs_supplied_stocked : (stocked.answered []).1.containers ≠ [] ∧
    ∀ c ∈ (stocked.answered []).1.containers,
      StartedBy (fun _ => shelf) (fun _ => "/c") [] [.answer stocked] c := by
  refine ⟨by decide +kernel, ?_⟩
  intro c runs
  have run : Run step Free [] [.answer stocked] (stocked.answered []).1.containers :=
    .cons ⟨trivial, rfl⟩ (.nil _)
  have consults : ∀ d, Event.answer d ∈ [.answer stocked] → Consults d.machine shelf "/c" := by
    intro d hd
    cases List.mem_singleton.mp hd
    rfl
  rcases runs_supplied (fun _ => shelf) (fun _ => "/c") consults run runs with
    before | ⟨others, placed, _⟩ | launched
  · cases before
  · cases List.mem_singleton.mp placed
  · exact launched

end Fixed

end Delivered
end Metralectl
