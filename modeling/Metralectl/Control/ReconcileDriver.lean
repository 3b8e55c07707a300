import Metralectl.Control.LocalControl

/-!
The host half of convergence: observe what the launcher runs, ask `decide` for
the next step, carry it out through the control core, and ask again. Nothing
here remembers a decision from one call to the next.
-/
namespace Metralectl
namespace Reconcile

/-- What a deployment runs, as the host resolved it. -/
structure Target where
  recipe : RecipeId
  release : VerifiedRelease
  placement : Placement
deriving DecidableEq

inductive ActionKind where
  | apply
  | stop
deriving DecidableEq

structure DeploymentAction where
  idempotencyKey : BitVec 128
  traceId : TraceId
  deployment : DeploymentName
  generation : Generation
  nodeId : NodeId
  action : ActionKind
deriving DecidableEq

inductive RefusalReason where
  | staleGeneration
  | idempotencyConflict
  | releaseUnverified
  | receiptMissing
  | hardwareIncompatible
  | notHere
  | busy
  | cordoned
  | draining
deriving DecidableEq

inductive FailureReason where
  | imageUnavailable
  | launchFailed
  | notReady
  | exited
deriving DecidableEq

inductive ActionOutcome where
  | applied
  | alreadyApplied
  | refused (reason : RefusalReason)
  | failed (reason : FailureReason)
deriving DecidableEq

def Refusal.reason : Refusal → RefusalReason
  | .staleGeneration _ => .staleGeneration
  | .idempotencyConflict _ => .idempotencyConflict
  | .releaseUnverified _ => .releaseUnverified
  | .hardwareIncompatible _ => .hardwareIncompatible
  | .busy _ _ => .busy

structure DeploymentActionResult where
  idempotencyKey : BitVec 128
  nodeId : NodeId
  outcome : ActionOutcome
  runningGeneration : Option Generation
  instances : List InstanceId
  answeredAtUnixMs : Nat
deriving DecidableEq

/-- The desired state an action asks for. -/
def desiredFor (action : DeploymentAction) (target : Target) : Desired where
  deployment := action.deployment
  generation := action.generation
  intent :=
    match action.action with
    | .apply => .run target.recipe target.release.model target.placement
    | .stop => .stopped

/-- What came of converging one deployment. -/
structure Answer where
  outcome : ActionOutcome
  detail : Option String
  runningGeneration : Option Generation
  instances : List InstanceId
deriving DecidableEq

/-- The answer for `outcome`, from what this deployment runs here. -/
def answer (outcome : ActionOutcome) (desired : Desired) (workloads : List Workload) : Answer :=
  let ours := workloads.filter (fun w => isOurs w.instance_ desired.deployment)
  ⟨outcome, none, (ours.filterMap (fun w => generationOf w.instance_)).max?, ours.map (·.id)⟩

/-- The refusal a cordoned or draining node answers a launch with. -/
def admissionRefusal : Admission → Option ActionOutcome
  | .open_ => none
  | .cordoned _ => some (.refused .cordoned)
  | .draining _ => some (.refused .draining)

/-- The text of the errors a failed launch is reported with. -/
def failureText : AgentError → Option String
  | .launchFailed detail => some s!"launch failed: {detail}"
  | .dockerUnavailable detail => some s!"docker is not available: {detail}"
  | _ => none

def didNotConverge (desired : Desired) (maxSteps : Nat) : AgentError :=
  .launchFailed (s!"deployment {desired.deployment.text} did not converge within " ++
    s!"{maxSteps} launches and stops")

section Driver
variable {σ : Type} (c : LocalControl σ) (desired : Desired) (release : Option VerifiedRelease)
  (trace : Option ControlTrace)

def observe (workloads : List Workload) : Observed where
  instances := workloads.map (·.instance_)
  accelerator := c.accelerator
  recipeModel :=
    match desired.intent with
    | .run recipe _ _ => c.recipeModel recipe
    | .stopped => none

/-- An answer that looks once more at what runs. -/
def answerNow (s : σ) (outcome : ActionOutcome) (detail : Option String) :
    σ × Except AgentError Answer :=
  match c.workloads s with
  | (s, .error e) => (s, .error e)
  | (s, .ok workloads) => (s, .ok { answer outcome desired workloads with detail := detail })

/-- The release's image made present, when there is a release. -/
def fetched (s : σ) : σ × Except String Unit :=
  match release with
  | some r => c.fetchImage s r.image
  | none => (s, .ok ())

/-- One launch: nothing when it started, otherwise the outcome that answers the
action and what the runtime said. -/
def attempt (s : σ) (recipe : RecipeId) :
    σ × Except AgentError (Option (ActionOutcome × Option String)) :=
  let (s, admission) := c.admission s
  match admissionRefusal admission with
  | some closed => (s, .ok (some (closed, none)))
  | none =>
      match fetched c release s with
      | (s, .error why) => (s, .ok (some (.failed .imageUnavailable, some why)))
      | (s, .ok ()) =>
          let owner := ⟨desired.deployment, desired.generation⟩
          match c.launch s recipe [] ⟨some owner, release, trace⟩ with
          | (s, .ok _) => (s, .ok none)
          | (s, .error e) =>
              match failureText e, e with
              | some text, _ => (s, .ok (some (.failed .launchFailed, some text)))
              | none, .notLaunchable _ _ =>
                  -- The node was cordoned between the check above and the launch.
                  let (s, admission) := c.admission s
                  match admissionRefusal admission with
                  | some closed => (s, .ok (some (closed, none)))
                  | none => (s, .error e)
              | none, _ => (s, .error e)

/-- Whether a stop is refused: a node that will not take the launch a stop makes
room for keeps what it serves. -/
def stopRefusal (s : σ) : σ × Option ActionOutcome :=
  match desired.intent with
  | .run _ _ _ =>
      let (s, admission) := c.admission s
      (s, admissionRefusal admission)
  | .stopped => (s, none)

/-- The rounds still allowed, from what has been done in this call. -/
def rounds (maxSteps : Nat) : Nat → σ → Bool → Option RecipeId → σ × Except AgentError Answer
  | 0, s, _, _ => (s, .error (didNotConverge desired maxSteps))
  | left + 1, s, acted, launched =>
      match c.workloads s with
      | (s, .error e) => (s, .error e)
      | (s, .ok workloads) =>
          match decide desired (observe c desired workloads) with
          | .converged =>
              (s, .ok (answer (if acted then .applied else .alreadyApplied) desired workloads))
          | .refuse refusal => (s, .ok (answer (.refused refusal.reason) desired workloads))
          | .launch recipe =>
              -- It was started in this call and is not running now.
              if launched = some recipe then answerNow c desired s (.failed .exited) none
              else
                match attempt c desired release trace s recipe with
                | (s, .error e) => (s, .error e)
                | (s, .ok (some (outcome, detail))) => answerNow c desired s outcome detail
                | (s, .ok none) => rounds maxSteps left s true (some recipe)
          | .stop recipe =>
              match stopRefusal c desired s with
              | (s, some closed) => (s, .ok (answer closed desired workloads))
              | (s, none) =>
                  match c.stop s recipe with
                  | (s, .error e) => (s, .error e)
                  | (s, .ok ()) => rounds maxSteps left s true launched

/-- Whether a release can realise the desired state: serving nothing needs none. -/
def releaseFits : Bool :=
  match desired.intent with
  | .run _ model _ => release.any (fun r => r.model = model)
  | .stopped => true

/-- Converge on this node, taking at most `maxSteps` launches and stops. -/
def converge (maxSteps : Nat) (s : σ) : σ × Except AgentError Answer :=
  if releaseFits desired release then
    rounds c desired release trace maxSteps (maxSteps + 1) s false none
  else answerNow c desired s (.refused .releaseUnverified) none

end Driver

/-- Answer one action addressed to `node`. -/
def answerAction {σ : Type} (c : LocalControl σ) (node : NodeId) (action : DeploymentAction)
    (target : Target) (maxSteps : Nat) (now : Nat) (s : σ) :
    σ × Except AgentError DeploymentActionResult :=
  let desired := desiredFor action target
  let (s, answered) :=
    if action.nodeId = node then
      converge c desired (some target.release) (some ⟨action.idempotencyKey, action.traceId⟩)
        maxSteps s
    else answerNow c desired s (.refused .notHere) none
  (s, answered.map fun a =>
    ⟨action.idempotencyKey, node, a.outcome, a.runningGeneration, a.instances, now⟩)

section Rounds
variable {σ : Type} (c : LocalControl σ) (desired : Desired) (release : Option VerifiedRelease)
  (trace : Option ControlTrace)

/-- What one round can come to. -/
inductive Round (maxSteps left : Nat) (s : σ) (acted : Bool) (launched : Option RecipeId) :
    σ × Except AgentError Answer → Prop
  | unlisted {t e} : c.workloads s = (t, .error e) →
      Round maxSteps left s acted launched (t, .error e)
  | converged {t ws} : c.workloads s = (t, .ok ws) →
      decide desired (observe c desired ws) = .converged →
      Round maxSteps left s acted launched
        (t, .ok (answer (if acted then .applied else .alreadyApplied) desired ws))
  | refused {t ws refusal} : c.workloads s = (t, .ok ws) →
      decide desired (observe c desired ws) = .refuse refusal →
      Round maxSteps left s acted launched (t, .ok (answer (.refused refusal.reason) desired ws))
  | exited {t ws recipe} : c.workloads s = (t, .ok ws) →
      decide desired (observe c desired ws) = .launch recipe → launched = some recipe →
      Round maxSteps left s acted launched (answerNow c desired t (.failed .exited) none)
  | unlaunched {t ws recipe u e} : c.workloads s = (t, .ok ws) →
      decide desired (observe c desired ws) = .launch recipe → launched ≠ some recipe →
      attempt c desired release trace t recipe = (u, .error e) →
      Round maxSteps left s acted launched (u, .error e)
  | denied {t ws recipe u outcome detail} : c.workloads s = (t, .ok ws) →
      decide desired (observe c desired ws) = .launch recipe → launched ≠ some recipe →
      attempt c desired release trace t recipe = (u, .ok (some (outcome, detail))) →
      Round maxSteps left s acted launched (answerNow c desired u outcome detail)
  | launched {t ws recipe u} : c.workloads s = (t, .ok ws) →
      decide desired (observe c desired ws) = .launch recipe → launched ≠ some recipe →
      attempt c desired release trace t recipe = (u, .ok none) →
      Round maxSteps left s acted launched
        (rounds c desired release trace maxSteps left u true (some recipe))
  | closed {t ws recipe u outcome} : c.workloads s = (t, .ok ws) →
      decide desired (observe c desired ws) = .stop recipe →
      stopRefusal c desired t = (u, some outcome) →
      Round maxSteps left s acted launched (u, .ok (answer outcome desired ws))
  | unstopped {t ws recipe u v e} : c.workloads s = (t, .ok ws) →
      decide desired (observe c desired ws) = .stop recipe →
      stopRefusal c desired t = (u, none) → c.stop u recipe = (v, .error e) →
      Round maxSteps left s acted launched (v, .error e)
  | stopped {t ws recipe u v} : c.workloads s = (t, .ok ws) →
      decide desired (observe c desired ws) = .stop recipe →
      stopRefusal c desired t = (u, none) → c.stop u recipe = (v, .ok ()) →
      Round maxSteps left s acted launched
        (rounds c desired release trace maxSteps left v true launched)

theorem rounds_cases (maxSteps left : Nat) (s : σ) (acted : Bool) (launched : Option RecipeId) :
    Round c desired release trace maxSteps left s acted launched
      (rounds c desired release trace maxSteps (left + 1) s acted launched) := by
  simp only [rounds]
  cases listed : c.workloads s with
  | mk t listing =>
  cases listing with
  | error e => exact .unlisted listed
  | ok ws =>
      cases step : decide desired (observe c desired ws) with
      | converged =>
          simp only [step]
          exact .converged listed step
      | refuse refusal =>
          simp only [step]
          exact .refused listed step
      | launch recipe =>
          simp only [step]
          by_cases again : launched = some recipe
          · simp only [again, if_true]
            exact .exited listed step rfl
          · simp only [again, if_false]
            cases attempted : attempt c desired release trace t recipe with
            | mk u result =>
            cases result with
            | error e => exact .unlaunched listed step again attempted
            | ok denied =>
                cases denied with
                | none => exact .launched listed step again attempted
                | some d => exact .denied listed step again attempted
      | stop recipe =>
          simp only [step]
          cases gate : stopRefusal c desired t with
          | mk u refusal =>
          cases refusal with
          | some outcome => exact .closed listed step gate
          | none =>
              cases stopping : c.stop u recipe with
              | mk v result =>
              cases result with
              | error e =>
                  simp only [stopping]
                  exact .unstopped listed step gate stopping
              | ok _ =>
                  simp only [stopping]
                  exact .stopped listed step gate stopping

/-- The outcomes that say the desired state runs. -/
def ActionOutcome.Realised : ActionOutcome → Prop
  | .applied => True
  | .alreadyApplied => True
  | .refused _ => False
  | .failed _ => False

variable {c desired release trace}

theorem answerNow_outcome {s t : σ} {a : Answer} {outcome : ActionOutcome}
    {detail : Option String} (h : answerNow c desired s outcome detail = (t, .ok a)) :
    a.outcome = outcome := by
  simp only [answerNow] at h
  split at h
  · cases h
  · cases h
    rfl

theorem admissionRefusal_not_realised {a : Admission} {outcome : ActionOutcome}
    (h : admissionRefusal a = some outcome) : ¬ outcome.Realised := by
  cases a <;> cases h <;> exact not_false

theorem attempt_not_realised {s t : σ} {recipe : RecipeId} {outcome : ActionOutcome}
    {detail : Option String}
    (h : attempt c desired release trace s recipe = (t, .ok (some (outcome, detail)))) :
    ¬ outcome.Realised := by
  simp only [attempt] at h
  repeat' split at h
  all_goals cases h
  all_goals first
    | exact not_false
    | exact admissionRefusal_not_realised (by assumption)

theorem stopRefusal_not_realised {s t : σ} {outcome : ActionOutcome}
    (h : stopRefusal c desired s = (t, some outcome)) : ¬ outcome.Realised := by
  simp only [stopRefusal] at h
  split at h
  · exact admissionRefusal_not_realised (congrArg Prod.snd h)
  · cases h

/-- An answer that the desired state runs comes from a listing `decide` calls
converged, with nothing done after it. -/
theorem rounds_realised {maxSteps left : Nat} {s t : σ} {acted : Bool}
    {launched : Option RecipeId} {a : Answer}
    (h : rounds c desired release trace maxSteps left s acted launched = (t, .ok a))
    (realised : a.outcome.Realised) :
    ∃ r ws, c.workloads r = (t, .ok ws) ∧
      decide desired (observe c desired ws) = .converged := by
  induction left generalizing s acted launched with
  | zero => cases h
  | succ left ih =>
      have round := rounds_cases c desired release trace maxSteps left s acted launched
      rw [h] at round
      generalize result : (t, Except.ok a) = r at round
      cases round with
      | unlisted | unlaunched | unstopped => cases result
      | converged listed step =>
          cases result
          exact ⟨s, _, listed, step⟩
      | refused =>
          cases result
          exact realised.elim
      | exited =>
          rw [answerNow_outcome result.symm] at realised
          exact realised.elim
      | denied _ _ _ attempted =>
          rw [answerNow_outcome result.symm] at realised
          exact absurd realised (attempt_not_realised attempted)
      | launched => exact ih result.symm
      | closed _ _ gate =>
          cases result
          exact absurd realised (stopRefusal_not_realised gate)
      | stopped => exact ih result.symm

/-- What each operation of the control core keeps, a stop only where `decide`
asked for it, and nothing but the gate has been asked since. -/
structure Kept (c : LocalControl σ) (desired : Desired) (P : σ → Prop) : Prop where
  listing : ∀ s, P s → P (c.workloads s).1
  gate : ∀ s, P s → P (c.admission s).1
  fetching : ∀ s image, P s → P (c.fetchImage s image).1
  launching : ∀ s recipe overrides launchFor, P s →
    P (c.launcher.launch s recipe overrides launchFor).1
  stopping : ∀ s t u ws recipe, P u → c.workloads s = (t, .ok ws) →
    decide desired (observe c desired ws) = .stop recipe →
    stopRefusal c desired t = (u, none) → P (c.stop u recipe).1

/-- The same, where a launch counts only for a recipe that passes the gates, as the
rounds ask for it. -/
structure KeptFor (c : LocalControl σ) (desired : Desired) (release : Option VerifiedRelease)
    (trace : Option ControlTrace) (P : σ → Prop) : Prop where
  listing : ∀ s, P s → P (c.workloads s).1
  gate : ∀ s, P s → P (c.admission s).1
  fetching : ∀ s image, P s → P (c.fetchImage s image).1
  launching : ∀ s recipe, c.resolve recipe.name = some recipe →
    c.recipeGate recipe release = .ok () → P s →
    P (c.launcher.launch s recipe []
      ⟨some ⟨desired.deployment, desired.generation⟩, release, trace⟩).1
  stopping : ∀ s t u ws recipe, P u → c.workloads s = (t, .ok ws) →
    decide desired (observe c desired ws) = .stop recipe →
    stopRefusal c desired t = (u, none) → P (c.stop u recipe).1

section Keeping
variable {P : σ → Prop} {s t : σ}

theorem Kept.keptFor (kept : Kept c desired P) : KeptFor c desired release trace P where
  listing := kept.listing
  gate := kept.gate
  fetching := kept.fetching
  launching s recipe _ _ here := kept.launching s recipe [] _ here
  stopping := kept.stopping

theorem KeptFor.control_launch (kept : KeptFor c desired release trace P) (id : RecipeId)
    (here : P s) : P (c.launch s id []
      ⟨some ⟨desired.deployment, desired.generation⟩, release, trace⟩).1 := by
  have asked := kept.gate s here
  simp only [LocalControl.launch]
  split
  · exact here
  · split
    · exact asked
    · split
      · exact asked
      · next recipe resolved =>
          split
          · exact asked
          · next gated =>
              rw [c.schema.validate_nil]
              dsimp only
              split
              · exact asked
              · exact kept.launching _ recipe (c.named id recipe resolved ▸ resolved) gated asked

theorem KeptFor.attempt (kept : KeptFor c desired release trace P) (recipe : RecipeId)
    (here : P s) : P (attempt c desired release trace s recipe).1 := by
  have fetch (r : σ) (hr : P r) : P (fetched c release r).1 := by
    cases release with
    | none => exact hr
    | some release => exact kept.fetching r release.image hr
  simp only [Reconcile.attempt]
  have asked := kept.gate s here
  split
  · exact asked
  · split
    · next failed =>
        have := fetch _ asked
        rwa [failed] at this
    · next present =>
        have there := fetch _ asked
        rw [present] at there
        have launched := kept.control_launch recipe there
        split
        · next started => rwa [started] at launched
        · next failed =>
            rw [failed] at launched
            split
            · exact launched
            · have again := kept.gate _ launched
              split
              · exact again
              · exact again
            · exact launched

theorem KeptFor.answerNow (kept : KeptFor c desired release trace P) (here : P s)
    (outcome : ActionOutcome) (detail : Option String) :
    P (answerNow c desired s outcome detail).1 := by
  have listed := kept.listing s here
  simp only [Reconcile.answerNow]
  split
  · next failed => rwa [failed] at listed
  · next seen => rwa [seen] at listed

theorem KeptFor.stopRefusal (kept : KeptFor c desired release trace P) (here : P s) :
    P (stopRefusal c desired s).1 := by
  simp only [Reconcile.stopRefusal]
  split
  · exact kept.gate s here
  · exact here

theorem KeptFor.rounds (kept : KeptFor c desired release trace P) {maxSteps left : Nat}
    {acted : Bool} {launched : Option RecipeId} (here : P s) :
    P (rounds c desired release trace maxSteps left s acted launched).1 := by
  induction left generalizing s acted launched with
  | zero => exact here
  | succ left ih =>
      have seen := kept.listing s here
      have round := rounds_cases c desired release trace maxSteps left s acted launched
      generalize rounds c desired release trace maxSteps (left + 1) s acted launched = r at round
      cases round with
      | unlisted listed | converged listed _ | refused listed _ =>
          rwa [listed] at seen
      | exited listed _ _ =>
          rw [listed] at seen
          exact kept.answerNow seen _ _
      | @unlaunched _ _ recipe _ _ listed _ _ attempted =>
          rw [listed] at seen
          have := kept.attempt recipe seen
          rwa [attempted] at this
      | @denied _ _ recipe _ _ _ listed _ _ attempted =>
          rw [listed] at seen
          have there := kept.attempt recipe seen
          rw [attempted] at there
          exact kept.answerNow there _ _
      | @launched _ _ recipe _ listed _ _ attempted =>
          rw [listed] at seen
          have there := kept.attempt recipe seen
          rw [attempted] at there
          exact ih there
      | closed listed _ gate =>
          rw [listed] at seen
          have := kept.stopRefusal seen
          rwa [gate] at this
      | unstopped listed asked gate stopping =>
          rw [listed] at seen
          have there := kept.stopRefusal seen
          rw [gate] at there
          have := kept.stopping _ _ _ _ _ there listed asked gate
          rwa [stopping] at this
      | stopped listed asked gate stopping =>
          rw [listed] at seen
          have there := kept.stopRefusal seen
          rw [gate] at there
          have after := kept.stopping _ _ _ _ _ there listed asked gate
          rw [stopping] at after
          exact ih after

theorem KeptFor.converge (kept : KeptFor c desired release trace P) (maxSteps : Nat)
    (here : P s) : P (converge c desired release trace maxSteps s).1 := by
  simp only [Reconcile.converge]
  split
  · exact kept.rounds here
  · exact kept.answerNow here _ _

theorem Kept.converge (kept : Kept c desired P) (maxSteps : Nat) (here : P s) :
    P (converge c desired release trace maxSteps s).1 :=
  kept.keptFor.converge maxSteps here

end Keeping

end Rounds

end Reconcile
end Metralectl
