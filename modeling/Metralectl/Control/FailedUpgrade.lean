import Metralectl.Control.Convergence
import Metralectl.Control.DockerLauncher

/-!
An upgrade that is turned down. What `decide` can check is checked before the
older generation is stopped; the image, the machine, the recipe and the
admission gate are asked again when the stops are done. Nothing else starts or
stops a container while the upgrade is under way.
-/
namespace Metralectl
namespace Upgrade
open Reconcile Docker

section Conditions
variable (m : Machine) (cond : Conditions) (desired : Desired) (release : Option VerifiedRelease)

/-- What a launch is refused with by the gates that answer the same whenever they
are asked: the machine's, the recipe's, its hardware's and the release's. -/
def gateError (id : RecipeId) : Option AgentError :=
  match m.canLaunch with
  | .error why => some (.notLaunchable id why)
  | .ok () =>
      match (m.resolve id).map ((control m cond).recipeGate · release) with
      | some (.error why) => some (.notLaunchable id why)
      | _ => none

/-- The outcomes that turn an upgrade down. -/
def TurnedDown : ActionOutcome → Prop
  | .refused _ => True
  | .failed .imageUnavailable => True
  | _ => False

/-- The results that turn an upgrade to `recipe` down. -/
def Denied (recipe : RecipeId) : Except AgentError Answer → Prop
  | .ok a => TurnedDown a.outcome
  | .error e => gateError m cond release recipe = some e

/-- A container of an older generation of the deployment. -/
def older (c : Container) : Bool :=
  (workload (psRow c)).any fun w =>
    isOurs w.instance_ desired.deployment &&
      (generationOf w.instance_).any (· < desired.generation)

/-- The next step on what runs. -/
def decision (containers : List Container) : Step :=
  Reconcile.decide desired
    (observe (control m cond) desired (workloads (containers.map psRow)))

/-- What is left when the first `n` decisions were stops, and all of them went
through. -/
def remaining (containers : List Container) : Nat → List Container
  | 0 => containers
  | n + 1 =>
      match decision m cond desired (remaining containers n) with
      | .stop recipe =>
          (remaining containers n).filter fun c => !isStopTarget recipe.text (psRow c)
      | _ => remaining containers n

def shut (n : Nat) : Bool := cond.admission n ≠ .open_

def imageMissing : Bool := release.any fun r => (cond.pulling r.image).isSome

/-- Whether a launch is refused as not launchable, when the admission gate has
been read `n` times: by a gate that always answers the same, or otherwise, and
how often the admission gate has been read by then. -/
def unlaunchable (n : Nat) (id : RecipeId) : Option (Bool × Nat) :=
  match m.canLaunch with
  | .error _ => some (true, n)
  | .ok () =>
      if shut cond n then some (false, n + 1)
      else
        match m.resolve id with
        | none => none
        | some recipe =>
            match (control m cond).recipeGate recipe release with
            | .error _ => some (true, n + 1)
            | .ok () =>
                match m.rendering.plan recipe [] with
                | .error _ => some (false, n + 1)
                | .ok _ => none

/-- Whether a launch in round `n` turns the upgrade down. Its refusal is only
answered when the workloads can be listed once more. -/
def launchDenied (n : Nat) (id : RecipeId) : Bool :=
  let relisted := (cond.listing (n + 1)).isNone
  if shut cond n || imageMissing cond release then relisted
  else
    match unlaunchable m cond release (n + 1) id with
    | some (byGate, later) => if shut cond later then relisted else byGate
    | none => false

/-- Whether round `n` stops something, given what is left. -/
def stopsAt (containers : List Container) (n : Nat) : Bool :=
  match decision m cond desired (remaining m cond desired containers n) with
  | .stop recipe =>
      (cond.listing n).isNone && !shut cond n && (cond.stopping recipe.text).isNone
  | _ => false

/-- Whether round `n` turns the upgrade down, given what is left. -/
def deniedAt (containers : List Container) (n : Nat) : Bool :=
  (cond.listing n).isNone &&
    match decision m cond desired (remaining m cond desired containers n) with
    | .refuse _ => true
    | .stop _ => shut cond n
    | .launch id => launchDenied m cond release n id
    | .converged => false

/-- An upgrade that is turned down leaves every container of an older generation
running. -/
def Spared (trace : Option ControlTrace) (maxSteps : Nat) (recipe : RecipeId)
    (containers : List Container) : Prop :=
  let r := converge (control m cond) desired release trace maxSteps (Session.begin_ containers)
  Denied m cond release recipe r.2 →
    ∀ c ∈ containers, older desired c = true → c ∈ r.1.containers

/-- The upgrade is turned down only after the first stops have gone through. -/
def TornDown (maxSteps : Nat) (containers : List Container) : Prop :=
  releaseFits desired release = true ∧ ∃ n, 0 < n ∧ n ≤ maxSteps ∧
    (∀ j < n, stopsAt m cond desired containers j = true) ∧
    deniedAt m cond desired release containers n = true

end Conditions

section Texts
variable {m : Machine} {cond : Conditions} {release : Option VerifiedRelease}

theorem not_front {front a b : String} (long : front.toList.length ≤ a.toList.length)
    (other : ¬ front.toList <+: a.toList) : ¬ front.toList <+: (a ++ b).toList := by
  intro h
  rw [String.toList_append] at h
  exact other (List.prefix_of_prefix_length_le h (List.prefix_append _ _) long)

theorem admits_text {a : Admission} {reason : String} (h : a.admits = .error reason) :
    "this machine is ".toList <+: reason.toList := by
  cases a with
  | open_ => cases h
  | cordoned why =>
      cases h
      simp [toString]
  | draining why =>
      cases h
      simp [toString]

theorem notLaunchable_text (why : NotLaunchable) :
    ¬ "this machine is ".toList <+: why.text.toList := by
  cases why with
  | executableContent keys =>
      unfold NotLaunchable.text
      simp only [String.append_assoc]
      exact not_front (by decide) (by decide)
  | foreignRuntime runtime =>
      unfold NotLaunchable.text
      simp only [String.append_assoc]
      exact not_front (by decide) (by decide)
  | noRuntimeDeclared version =>
      unfold NotLaunchable.text
      simp only [String.append_assoc]
      exact not_front (by decide) (by decide)

theorem recipeGate_text {recipe : Recipe} {why : String}
    (h : (control m cond).recipeGate recipe release = .error why) :
    ¬ "this machine is ".toList <+: why.toList := by
  simp only [LocalControl.recipeGate] at h
  split at h
  · next refusal _ =>
      cases h
      exact notLaunchable_text refusal
  · split at h
    · cases h
      exact not_front (by decide) (by decide)
    · split at h
      · split at h
        · cases h
          simp only [String.append_assoc]
          exact not_front (by decide) (by decide)
        · cases h
      · cases h

/-- The admission gate's refusals are told apart from the other gates'. -/
theorem admits_not_gateError {a : Admission} {reason : String} {id : RecipeId}
    (launchable : m.canLaunch = .ok ()) (closed : a.admits = .error reason) :
    gateError m cond release id ≠ some (.notLaunchable id reason) := by
  intro h
  simp only [gateError, launchable] at h
  split at h
  · next why gated =>
      cases h
      obtain ⟨recipe, _, refused⟩ := Option.map_eq_some_iff.mp gated
      exact recipeGate_text refused (admits_text closed)
  · cases h

/-- No other error is one of these gates'. -/
theorem gateError_notLaunchable {e : AgentError} {id : RecipeId}
    (h : gateError m cond release id = some e) : ∃ why, e = .notLaunchable id why := by
  simp only [gateError] at h
  split at h
  · next why _ =>
      cases h
      exact ⟨why, rfl⟩
  · split at h
    · next why _ =>
        cases h
        exact ⟨why, rfl⟩
    · cases h

theorem runtimeError_not_gateError {e : RuntimeError} {id : RecipeId} :
    gateError m cond release id ≠ some e.error := by
  intro h
  obtain ⟨why, h⟩ := gateError_notLaunchable h
  cases e <;> cases h

end Texts

section Launches
variable {m : Machine} {cond : Conditions} {desired : Desired} {release : Option VerifiedRelease}
  {trace : Option ControlTrace} {s : Session} {id : RecipeId} {launchFor : LaunchFor}

theorem admits_of_not_shut {n : Nat} (h : shut cond n = false) : cond.admission n = .open_ := by
  simpa [shut] using h

theorem admits_of_shut {n : Nat} (h : shut cond n = true) :
    ∃ reason, (cond.admission n).admits = .error reason := by
  cases a : cond.admission n with
  | open_ => simp [shut, a] at h
  | cordoned why => exact ⟨_, rfl⟩
  | draining why => exact ⟨_, rfl⟩

theorem admissionRefusal_of_shut {n : Nat} (h : shut cond n = true) :
    ∃ reason, admissionRefusal (cond.admission n) = some (.refused reason) := by
  cases a : cond.admission n with
  | open_ => simp [shut, a] at h
  | cordoned why => exact ⟨_, rfl⟩
  | draining why => exact ⟨_, rfl⟩

theorem admissionRefusal_of_not_shut {n : Nat} (h : shut cond n = false) :
    admissionRefusal (cond.admission n) = none := by
  rw [admits_of_not_shut h]
  rfl

theorem not_shut_of_admissionRefusal {n : Nat} (h : admissionRefusal (cond.admission n) = none) :
    shut cond n = false := by
  cases closed : shut cond n with
  | false => rfl
  | true =>
      obtain ⟨reason, refused⟩ := admissionRefusal_of_shut closed
      rw [refused] at h
      cases h

/-- What a launch the reconciler asks for comes to. -/
inductive Launched (m : Machine) (cond : Conditions) (release : Option VerifiedRelease)
    (s : Session) (id : RecipeId) (owner : Option Owner) :
    Session × Except AgentError Started → Prop
  | unlaunchable {t why byGate} :
      unlaunchable m cond release s.readings id = some (byGate, t.readings) →
      t.listings = s.listings → t.containers = s.containers →
      (gateError m cond release id = some (.notLaunchable id why) ↔ byGate = true) →
      Launched m cond release s id owner (t, .error (.notLaunchable id why))
  | failed {t e} : unlaunchable m cond release s.readings id = none →
      t.listings = s.listings → t.containers = s.containers →
      (∀ id why, e ≠ .notLaunchable id why) → Launched m cond release s id owner (t, .error e)
  | adopted {t started} : unlaunchable m cond release s.readings id = none →
      t.listings = s.listings → t.containers = s.containers →
      Launched m cond release s id owner (t, .ok started)
  | started {t started c} : unlaunchable m cond release s.readings id = none →
      t.listings = s.listings → t.containers = s.containers ++ [c] →
      (workload (psRow c)).map (·.instance_) = some ⟨id, owner⟩ →
      Launched m cond release s id owner (t, .ok started)

theorem adopt_not_notLaunchable {plan : DockerCommand} {recipe : Recipe}
    {running : Option Container} {e : AgentError}
    (h : adopt cond plan recipe launchFor running = .error e) (id : RecipeId) (why : String) :
    e ≠ .notLaunchable id why := by
  simp only [adopt] at h
  split at h
  · cases h
    nofun
  · cases h
    nofun
  · split at h
    · cases h
    · cases h
      nofun

theorem launch_planned {recipe : Recipe} {base : DockerCommand} {owner : Owner}
    (planned : m.rendering.plan recipe [] = .ok base) (named : recipe.name = id)
    (launchable : unlaunchable m cond release s.readings id = none) (t : Session)
    (listings : t.listings = s.listings) (containers : t.containers = s.containers) :
    Launched m cond release s id (some owner)
      (Docker.launch m cond t recipe [] ⟨some owner, release, trace⟩) := by
  simp only [Docker.launch, planned]
  split
  · exact .failed launchable listings containers nofun
  · split
    · next e _ => exact .failed launchable listings containers (by cases e <;> nofun)
    · split
      · next row _ =>
          generalize adopted : adopt cond _ recipe _ _ = r
          cases r with
          | ok _ => exact .adopted launchable listings containers
          | error e =>
              exact .failed launchable listings containers (adopt_not_notLaunchable adopted)
      · simp only [run]
        split
        · exact .failed launchable listings containers nofun
        · next container _ =>
            split
            · refine .started launchable listings (by rw [containers]) ?_
              rw [workload_launched planned rfl container, Option.map_some, named]
            · exact .adopted launchable listings containers

theorem launch_cases (owner : Owner) :
    Launched m cond release s id (some owner)
      ((control m cond).launch s id [] ⟨some owner, release, trace⟩) := by
  simp only [LocalControl.launch, control_canLaunch, control_admission, control_resolve,
    control_schema, control_launch, m.schema.validate_nil]
  cases machine : m.canLaunch with
  | error why =>
      have byGate : unlaunchable m cond release s.readings id = some (true, s.readings) := by
        simp only [unlaunchable, machine]
      exact .unlaunchable byGate rfl rfl (by simp only [gateError, machine])
  | ok _ =>
      cases closed : shut cond s.readings with
      | true =>
          obtain ⟨reason, refused⟩ := admits_of_shut closed
          simp only [refused]
          have otherwise : unlaunchable m cond release s.readings id =
              some (false, s.read.readings) := by
            simp only [unlaunchable, machine, closed, if_true, Session.read_readings]
          exact .unlaunchable otherwise rfl rfl (by simp [admits_not_gateError machine refused])
      | false =>
          have admitted : (cond.admission s.readings).admits = .ok () := by
            rw [admits_of_not_shut closed]
            rfl
          simp only [admitted]
          cases resolved : m.resolve id with
          | none =>
              refine .failed ?_ rfl rfl (by simp)
              simp [unlaunchable, machine, closed, resolved]
          | some recipe =>
              cases gated : (control m cond).recipeGate recipe release with
              | error why =>
                  simp only [gated]
                  have byGate : unlaunchable m cond release s.readings id =
                      some (true, s.read.readings) := by
                    simp [unlaunchable, machine, closed, resolved, gated]
                  exact .unlaunchable byGate rfl rfl (by simp [gateError, machine, resolved, gated])
              | ok _ =>
                  simp only [gated]
                  have named := m.named id recipe resolved
                  cases planned : m.rendering.plan recipe [] with
                  | error why =>
                      have result : Docker.launch m cond s.read recipe []
                          ⟨some owner, release, trace⟩ = (s.read, .error (.notLaunchable id why)) := by
                        simp only [Docker.launch, planned, named]
                      change Launched m cond release s id (some owner) (Docker.launch m cond s.read
                        recipe [] ⟨some owner, release, trace⟩)
                      rw [result]
                      have otherwise : unlaunchable m cond release s.readings id =
                          some (false, s.read.readings) := by
                        simp [unlaunchable, machine, closed, resolved, gated, planned]
                      exact .unlaunchable otherwise rfl rfl
                        (by simp [gateError, machine, resolved, gated])
                  | ok base =>
                      refine launch_planned planned named ?_ s.read rfl rfl
                      simp [unlaunchable, machine, closed, resolved, gated, planned]

/-- What the attempt of round `n` comes to: a launch that has begun, or an end
that turns the upgrade down exactly when `launchDenied` says so. -/
inductive Attempted (m : Machine) (cond : Conditions) (desired : Desired)
    (release : Option VerifiedRelease) (n : Nat) (s : Session) (id : RecipeId) :
    Session × Except AgentError (Option (ActionOutcome × Option String)) → Prop
  | denied {t outcome detail} : t.listings = s.listings → t.containers = s.containers →
      TurnedDown outcome →
      launchDenied m cond release n id = (cond.listing (n + 1)).isNone →
      Attempted m cond desired release n s id (t, .ok (some (outcome, detail)))
  | failed {t detail} : launchDenied m cond release n id = false →
      Attempted m cond desired release n s id (t, .ok (some (.failed .launchFailed, detail)))
  | stuck {t e} : t.containers = s.containers →
      (gateError m cond release id = some e ↔ launchDenied m cond release n id = true) →
      Attempted m cond desired release n s id (t, .error e)
  | adopted {t} : launchDenied m cond release n id = false → t.containers = s.containers →
      Attempted m cond desired release n s id (t, .ok none)
  | started {t c} : launchDenied m cond release n id = false →
      t.containers = s.containers ++ [c] →
      (workload (psRow c)).map (·.instance_) = some ⟨id, some desired.owner⟩ →
      Attempted m cond desired release n s id (t, .ok none)

theorem fetched_eq (m : Machine) (cond : Conditions) (release : Option VerifiedRelease)
    (s : Session) : ∃ why, fetched (control m cond) release s =
    (s, if imageMissing cond release then .error why else .ok ()) := by
  cases release with
  | none => exact ⟨"", rfl⟩
  | some r =>
      cases pulled : cond.pulling r.image with
      | none => exact ⟨"", by simp [fetched, LocalControl.fetchImage, Docker.control, launcher,
          imageMissing, pulled]⟩
      | some why => exact ⟨why, by simp [fetched, LocalControl.fetchImage, Docker.control, launcher,
          imageMissing, pulled]⟩

theorem attempt_cases {n : Nat} (readings : s.readings = n) :
    Attempted m cond desired release n s id
      (attempt (control m cond) desired release trace s id) := by
  simp only [attempt, control_admission, readings]
  cases closed : shut cond n with
  | true =>
      obtain ⟨reason, refused⟩ := admissionRefusal_of_shut closed
      simp only [refused]
      exact .denied rfl rfl trivial (by simp [launchDenied, closed])
  | false =>
      simp only [admissionRefusal_of_not_shut closed]
      obtain ⟨why, image⟩ := fetched_eq m cond release s.read
      cases missing : imageMissing cond release with
      | true =>
          simp only [image, missing, if_true]
          exact .denied rfl rfl trivial (by simp [launchDenied, missing])
      | false =>
          simp only [image, missing, Bool.false_eq_true, if_false]
          have denied : launchDenied m cond release n id =
              match unlaunchable m cond release s.read.readings id with
              | some (byGate, later) =>
                  if shut cond later then (cond.listing (n + 1)).isNone else byGate
              | none => false := by
            simp [launchDenied, closed, missing, readings]
          have launched : Launched m cond release s.read id (some desired.owner)
              ((control m cond).launch s.read id [] ⟨some desired.owner, release, trace⟩) :=
            launch_cases desired.owner
          simp only [Desired.owner] at launched
          generalize (control m cond).launch s.read id [] _ = r at launched ⊢
          cases launched with
          | @unlaunchable t why byGate refused listings containers gate =>
              rw [refused] at denied
              simp only [failureText]
              cases again : shut cond t.readings with
              | true =>
                  obtain ⟨reason, shut⟩ := admissionRefusal_of_shut again
                  simp only [shut]
                  exact .denied listings containers trivial (by simp [denied, again])
              | false =>
                  simp only [admissionRefusal_of_not_shut again]
                  refine .stuck containers ?_
                  rw [gate, denied]
                  simp [again]
          | @failed t e launchable listings containers other =>
              rw [launchable] at denied
              cases text : failureText e with
              | some detail =>
                  simp only [text]
                  exact .failed denied
              | none =>
                  simp only [text]
                  refine .stuck containers ?_
                  rw [denied]
                  simp only [Bool.false_eq_true, iff_false]
                  intro gate
                  obtain ⟨why, rfl⟩ := gateError_notLaunchable gate
                  exact other _ _ rfl
          | adopted launchable listings containers =>
              rw [launchable] at denied
              exact .adopted denied containers
          | started launchable listings containers runs =>
              rw [launchable] at denied
              exact .started denied containers runs

end Launches

section Course
variable {m : Machine} {cond : Conditions} {desired : Desired} {release : Option VerifiedRelease}
  {trace : Option ControlTrace} {recipe : RecipeId} {model : String}
  {placement : Reconcile.Placement} {containers : List Container} {n left k : Nat}

theorem answerNow_denied {u : Session} {outcome : ActionOutcome} {detail : Option String}
    (listings : u.listings = n + 1) (down : TurnedDown outcome) :
    Denied m cond release recipe (answerNow (control m cond) desired u outcome detail).2 ↔
      (cond.listing (n + 1)).isNone = true := by
  cases looked : (control m cond).workloads u with
  | mk t listing =>
  cases listing with
  | error e =>
      obtain ⟨_, why, failed, rfl⟩ := workloads_error.mp looked
      rw [listings] at failed
      simp [answerNow, looked, Denied, failed, runtimeError_not_gateError]
  | ok ws =>
      have listed := (workloads_ok.mp looked).1
      rw [listings] at listed
      simp [answerNow, looked, Denied, answer, listed, down]

theorem answerNow_not_denied {u : Session} {outcome : ActionOutcome} {detail : Option String}
    (up : ¬ TurnedDown outcome) :
    ¬ Denied m cond release recipe (answerNow (control m cond) desired u outcome detail).2 := by
  cases looked : (control m cond).workloads u with
  | mk t listing =>
  cases listing with
  | error e =>
      obtain ⟨_, why, _, rfl⟩ := workloads_error.mp looked
      simp [answerNow, looked, Denied, runtimeError_not_gateError]
  | ok ws => simp [answerNow, looked, Denied, answer, up]

/-- Round `k` turns the upgrade down, after nothing but stops from round `n` on. -/
structure Falls (m : Machine) (cond : Conditions) (desired : Desired)
    (release : Option VerifiedRelease) (containers : List Container) (n left k : Nat) : Prop where
  since : n ≤ k
  within : k < n + left
  stops : ∀ j, n ≤ j → j < k → stopsAt m cond desired containers j = true
  denied : deniedAt m cond desired release containers k = true

theorem Falls.here (denied : deniedAt m cond desired release containers n = true) :
    Falls m cond desired release containers n (left + 1) n :=
  ⟨le_rfl, by omega, fun j _ _ => by omega, denied⟩

theorem Falls.later (stops : stopsAt m cond desired containers n = true)
    (falls : Falls m cond desired release containers (n + 1) left k) :
    Falls m cond desired release containers n (left + 1) k := by
  refine ⟨by have := falls.since; omega, by have := falls.within; omega, ?_, falls.denied⟩
  intro j since before
  by_cases first : j = n
  · rw [first]
    exact stops
  · exact falls.stops j (by omega) before

theorem Falls.cases (falls : Falls m cond desired release containers n (left + 1) k) :
    deniedAt m cond desired release containers n = true ∨
      stopsAt m cond desired containers n = true ∧
        Falls m cond desired release containers (n + 1) left k := by
  have since := falls.since
  have within := falls.within
  by_cases first : k = n
  · rw [← first]
    exact .inl falls.denied
  · refine .inr ⟨falls.stops n le_rfl (by omega), by omega, by omega, ?_, falls.denied⟩
    intro j after before
    exact falls.stops j (by omega) before

/-- The result of the rounds from `n` on turns the upgrade down exactly when one
of them does, and leaves what that round found. -/
def Verdict (m : Machine) (cond : Conditions) (desired : Desired)
    (release : Option VerifiedRelease) (recipe : RecipeId) (containers : List Container)
    (n left : Nat) (r : Session × Except AgentError Answer) : Prop :=
  (Denied m cond release recipe r.2 → ∃ k, Falls m cond desired release containers n left k ∧
    r.1.containers = remaining m cond desired containers k) ∧
  ((∃ k, Falls m cond desired release containers n left k) → Denied m cond release recipe r.2)

variable {r : Session × Except AgentError Answer}

theorem Verdict.last (goes : stopsAt m cond desired containers n = false)
    (here : Denied m cond release recipe r.2 ↔
      deniedAt m cond desired release containers n = true)
    (keeps : Denied m cond release recipe r.2 →
      r.1.containers = remaining m cond desired containers n) :
    Verdict m cond desired release recipe containers n (left + 1) r := by
  constructor
  · intro denied
    exact ⟨n, .here (here.mp denied), keeps denied⟩
  · intro ends
    obtain ⟨k, falls⟩ := ends
    cases falls.cases with
    | inl denied => exact here.mpr denied
    | inr later =>
        rw [goes] at later
        cases later.1

theorem Verdict.stop (goes : stopsAt m cond desired containers n = true)
    (not_here : deniedAt m cond desired release containers n = false)
    (rest : Verdict m cond desired release recipe containers (n + 1) left r) :
    Verdict m cond desired release recipe containers n (left + 1) r := by
  constructor
  · intro denied
    obtain ⟨k, falls, kept⟩ := rest.1 denied
    exact ⟨k, falls.later goes, kept⟩
  · intro ends
    obtain ⟨k, falls⟩ := ends
    cases falls.cases with
    | inl denied =>
        rw [not_here] at denied
        cases denied
    | inr later => exact rest.2 ⟨k, later.2⟩

/-- What has been started is the last thing the deployment needs. -/
theorem decision_started {before : List Container} {c : Container}
    (decided : decision m cond desired before = .launch recipe)
    (runs : (workload (psRow c)).map (·.instance_) = some ⟨recipe, some desired.owner⟩) :
    decision m cond desired (before ++ [c]) = .converged := by
  obtain ⟨_, nobody, model, placement, intent, _⟩ := decide_launch decided
  obtain ⟨w, read, runs⟩ := Option.map_eq_some_iff.mp runs
  have instances : (workloads ((before ++ [c]).map psRow)).map (·.instance_) =
      (workloads (before.map psRow)).map (·.instance_) ++ [⟨recipe, some desired.owner⟩] := by
    simp [workloads, read, runs]
  refine decide_settled ?_
  change Settled desired ((workloads ((before ++ [c]).map psRow)).map (·.instance_))
  simp only [instances, Settled, intent]
  constructor
  · simp
  · intro i hi ours
    cases List.mem_append.mp hi with
    | inl old =>
        rw [nobody i old] at ours
        cases ours
    | inr new => exact List.mem_singleton.mp new

/-- Once the new generation has been started the upgrade is not turned down any
more: it runs, or has exited. -/
theorem rounds_launched {maxSteps : Nat} {s : Session} {before : List Container}
    (decided : decision m cond desired before = .launch recipe)
    (runs : s.containers = before ∨ ∃ c, s.containers = before ++ [c] ∧
      (workload (psRow c)).map (·.instance_) = some ⟨recipe, some desired.owner⟩) :
    ¬ Denied m cond release recipe
      (rounds (control m cond) desired release trace maxSteps left s true (some recipe)).2 := by
  cases left with
  | zero =>
      intro denied
      obtain ⟨why, h⟩ := gateError_notLaunchable denied
      cases h
  | succ left =>
      have next : decision m cond desired s.containers = .launch recipe ∨
          decision m cond desired s.containers = .converged := by
        cases runs with
        | inl same => exact .inl (by rw [same, decided])
        | inr started =>
            obtain ⟨c, now, read⟩ := started
            exact .inr (by rw [now, decision_started decided read])
      have round := rounds_cases (control m cond) desired release trace maxSteps left s true
        (some recipe)
      generalize rounds (control m cond) desired release trace maxSteps (left + 1) s true
        (some recipe) = r at round ⊢
      cases round with
      | unlisted listed =>
          obtain ⟨_, why, _, rfl⟩ := workloads_error.mp listed
          exact runtimeError_not_gateError
      | converged => exact not_false
      | exited => exact answerNow_not_denied not_false
      | unlaunched listed step again _
      | denied listed step again _
      | launched listed step again _ =>
          obtain ⟨_, _, rfl⟩ := workloads_ok.mp listed
          cases next with
          | inl launch =>
              cases launch.symm.trans step
              exact absurd rfl again
          | inr converged => cases converged.symm.trans step
      | refused listed step
      | closed listed step _
      | unstopped listed step _ _
      | stopped listed step _ _ =>
          obtain ⟨_, _, rfl⟩ := workloads_ok.mp listed
          cases next with
          | inl launch => cases launch.symm.trans step
          | inr converged => cases converged.symm.trans step

section Round
variable {s u : Session} (answers : cond.listing n = none)
  (left_ : s.containers = remaining m cond desired containers n)

theorem verdict_unlisted {why : RuntimeError} (failed : cond.listing n = some why) :
    Verdict m cond desired release recipe containers n (left + 1) (s, .error why.error) := by
  have not_gate : ¬ Denied m cond release recipe (.error why.error) := runtimeError_not_gateError
  refine .last ?_ ?_ (fun denied => absurd denied not_gate)
  · simp only [stopsAt]
    split <;> simp [failed]
  · simp [not_gate, deniedAt, failed]

theorem verdict_unstopped {target : RecipeId} {detail : String}
    (step : decision m cond desired (remaining m cond desired containers n) = .stop target)
    (admitted : admissionRefusal (cond.admission n) = none)
    (failed : cond.stopping target.text = some detail) :
    Verdict m cond desired release recipe containers n (left + 1)
      (s, .error (.launchFailed detail)) := by
  have not_gate : ¬ Denied m cond release recipe (.error (.launchFailed detail)) := by
    intro denied
    obtain ⟨why, h⟩ := gateError_notLaunchable denied
    cases h
  refine .last (by simp [stopsAt, step, failed]) ?_ (fun denied => absurd denied not_gate)
  simp [not_gate, deniedAt, step, not_shut_of_admissionRefusal admitted]

include left_

theorem verdict_launched {maxSteps : Nat}
    (step : decision m cond desired (remaining m cond desired containers n) = .launch recipe)
    (tried : Attempted m cond desired release n s recipe (u, .ok none)) :
    Verdict m cond desired release recipe containers n (left + 1)
      (rounds (control m cond) desired release trace maxSteps left u true (some recipe)) := by
  have runs : launchDenied m cond release n recipe = false ∧
      (u.containers = remaining m cond desired containers n ∨
        ∃ c, u.containers = remaining m cond desired containers n ++ [c] ∧
          (workload (psRow c)).map (·.instance_) = some ⟨recipe, some desired.owner⟩) := by
    cases tried with
    | adopted said kept => exact ⟨said, .inl (kept.trans left_)⟩
    | @started _ c said now read =>
        exact ⟨said, .inr ⟨c, now.trans (congrArg (· ++ [c]) left_), read⟩⟩
  have not_down : ¬ Denied m cond release recipe (rounds (control m cond) desired release trace
      maxSteps left u true (some recipe)).2 := rounds_launched step runs.2
  refine .last (by simp [stopsAt, step]) ?_ (fun denied => absurd denied not_down)
  simp [not_down, deniedAt, step, runs.1]

include answers

theorem verdict_closed {target : RecipeId} {outcome : ActionOutcome} {ws : List Workload}
    (step : decision m cond desired (remaining m cond desired containers n) = .stop target)
    (gate : admissionRefusal (cond.admission n) = some outcome) :
    Verdict m cond desired release recipe containers n (left + 1)
      (s, .ok (answer outcome desired ws)) := by
  cases closed : shut cond n with
  | false =>
      rw [admissionRefusal_of_not_shut closed] at gate
      cases gate
  | true =>
      obtain ⟨reason, refused⟩ := admissionRefusal_of_shut closed
      rw [refused] at gate
      cases gate
      refine .last (by simp [stopsAt, step, closed]) ?_ (fun _ => left_)
      simp [deniedAt, step, answers, closed, Denied, answer, TurnedDown]

theorem verdict_unlaunched {e : AgentError}
    (step : decision m cond desired (remaining m cond desired containers n) = .launch recipe)
    (tried : Attempted m cond desired release n s recipe (u, .error e)) :
    Verdict m cond desired release recipe containers n (left + 1) (u, .error e) := by
  cases tried with
  | stuck kept gate =>
      refine .last (by simp [stopsAt, step]) ?_ (fun _ => kept.trans left_)
      simp [deniedAt, step, answers, Denied, gate]

theorem verdict_denied {outcome : ActionOutcome} {detail : Option String}
    (listings : s.listings = n + 1)
    (step : decision m cond desired (remaining m cond desired containers n) = .launch recipe)
    (tried : Attempted m cond desired release n s recipe (u, .ok (some (outcome, detail)))) :
    Verdict m cond desired release recipe containers n (left + 1)
      (answerNow (control m cond) desired u outcome detail) := by
  cases tried with
  | denied looked kept down said =>
      refine .last (by simp [stopsAt, step]) ?_ ?_
      · rw [answerNow_denied (looked.trans listings) down]
        simp [deniedAt, step, answers, said]
      · intro _
        rw [answerNow_state]
        exact kept.trans left_
  | failed said =>
      have not_down : ¬ Denied m cond release recipe (answerNow (control m cond) desired u
          (.failed .launchFailed) detail).2 := answerNow_not_denied not_false
      refine .last (by simp [stopsAt, step]) ?_ (fun denied => absurd denied not_down)
      simp [not_down, deniedAt, step, said]

end Round

theorem rounds_verdict {maxSteps : Nat} {s : Session} {acted : Bool}
    (intent : desired.intent = .run recipe model placement) (listings : s.listings = n)
    (readings : s.readings = n)
    (left_ : s.containers = remaining m cond desired containers n) :
    Verdict m cond desired release recipe containers n left
      (rounds (control m cond) desired release trace maxSteps left s acted none) := by
  induction left generalizing n s acted with
  | zero =>
      constructor
      · intro denied
        obtain ⟨why, h⟩ := gateError_notLaunchable denied
        cases h
      · intro ends
        obtain ⟨k, falls⟩ := ends
        have := falls.since
        have := falls.within
        omega
  | succ left ih =>
      have round := rounds_cases (control m cond) desired release trace maxSteps left s acted none
      generalize rounds (control m cond) desired release trace maxSteps (left + 1) s acted none =
        r at round ⊢
      have stepped {t : Session} {ws : List Workload}
          (listed : (control m cond).workloads s = (t, .ok ws)) :
          cond.listing n = none ∧ t = s.listed ∧
            Reconcile.decide desired (observe (control m cond) desired ws) =
              decision m cond desired (remaining m cond desired containers n) := by
        obtain ⟨answers, rfl, rfl⟩ := workloads_ok.mp listed
        rw [listings] at answers
        rw [← left_]
        exact ⟨answers, rfl, rfl⟩
      have wanted {id : RecipeId}
          (step : decision m cond desired (remaining m cond desired containers n) = .launch id) :
          id = recipe := by
        obtain ⟨_, _, _, _, ran, _⟩ := decide_launch step
        rw [intent] at ran
        cases ran
        rfl
      have kept : s.listed.containers = remaining m cond desired containers n := left_
      have looked : s.listed.listings = n + 1 := congrArg (· + 1) listings
      have tried (id : RecipeId) : Attempted m cond desired release n s.listed id
          (attempt (control m cond) desired release trace s.listed id) := attempt_cases readings
      cases round with
      | unlisted listed =>
          obtain ⟨_, why, failed, rfl⟩ := workloads_error.mp listed
          rw [listings] at failed
          exact verdict_unlisted failed
      | converged listed step =>
          obtain ⟨_, rfl, same⟩ := stepped listed
          rw [same] at step
          have not_down : ¬ TurnedDown (if acted then .applied else .alreadyApplied) := by
            cases acted <;> exact not_false
          refine .last (by simp [stopsAt, step]) ?_ (fun denied => absurd denied not_down)
          simp only [deniedAt, step, Bool.and_false, Bool.false_eq_true, iff_false]
          exact not_down
      | refused listed step =>
          obtain ⟨answers, rfl, same⟩ := stepped listed
          rw [same] at step
          refine .last (by simp [stopsAt, step]) ?_ (fun _ => left_)
          simp [deniedAt, step, answers, Denied, answer, TurnedDown]
      | exited listed step started => cases started
      | unlaunched listed step _ attempted =>
          obtain ⟨answers, rfl, same⟩ := stepped listed
          rw [same] at step
          obtain rfl := wanted step
          exact verdict_unlaunched answers kept step (attempted ▸ tried _)
      | denied listed step _ attempted =>
          obtain ⟨answers, rfl, same⟩ := stepped listed
          rw [same] at step
          obtain rfl := wanted step
          exact verdict_denied answers kept looked step (attempted ▸ tried _)
      | launched listed step _ attempted =>
          obtain ⟨_, rfl, same⟩ := stepped listed
          rw [same] at step
          obtain rfl := wanted step
          exact verdict_launched kept step (attempted ▸ tried _)
      | closed listed step gate =>
          obtain ⟨answers, rfl, same⟩ := stepped listed
          rw [same] at step
          rw [stopRefusal_run intent, Session.listed_readings, readings] at gate
          obtain ⟨rfl, closing⟩ := Prod.mk.inj gate
          exact verdict_closed answers kept step closing
      | unstopped listed step gate stopping =>
          obtain ⟨_, rfl, same⟩ := stepped listed
          rw [same] at step
          rw [stopRefusal_run intent, Session.listed_readings, readings] at gate
          obtain ⟨rfl, admitted⟩ := Prod.mk.inj gate
          obtain ⟨detail, failed, rfl⟩ := stop_error stopping
          exact verdict_unstopped step admitted failed
      | stopped listed step gate stopping =>
          obtain ⟨answers, rfl, same⟩ := stepped listed
          rw [same] at step
          rw [stopRefusal_run intent, Session.listed_readings, readings] at gate
          obtain ⟨rfl, admitted⟩ := Prod.mk.inj gate
          obtain ⟨goes, rfl⟩ := stop_ok stopping
          have open_ := not_shut_of_admissionRefusal admitted
          refine .stop (by simp [stopsAt, step, answers, open_, goes])
            (by simp [deniedAt, step, open_]) (ih looked (congrArg (· + 1) readings) ?_)
          simp only [remaining, step, Session.read_containers, kept]

theorem deniedAt_of_stopsAt (stops : stopsAt m cond desired containers n = true) :
    deniedAt m cond desired release containers n = false := by
  simp only [stopsAt] at stops
  split at stops
  case h_2 => cases stops
  next id step =>
  simp only [Bool.and_eq_true, Bool.not_eq_true'] at stops
  simp only [deniedAt, step, stops.1.2, Bool.and_false]

theorem remaining_sublist (n : Nat) :
    (remaining m cond desired containers (n + 1)).Sublist
      (remaining m cond desired containers n) := by
  simp only [remaining]
  split
  · exact List.filter_sublist
  · exact List.Sublist.refl _

theorem remaining_of_pos (later : 0 < k) :
    (remaining m cond desired containers k).Sublist (remaining m cond desired containers 1) := by
  induction k with
  | zero => omega
  | succ k ih =>
      by_cases first : k = 0
      · rw [first]
      · exact (remaining_sublist k).trans (ih (by omega))

/-- The first stop takes a container of an older generation down. -/
theorem first_stop_older (intent : desired.intent = .run recipe model placement)
    (stops : stopsAt m cond desired containers 0 = true) :
    ∃ c ∈ containers, older desired c = true ∧
      c ∉ remaining m cond desired containers 1 := by
  simp only [stopsAt] at stops
  split at stops
  case h_2 => cases stops
  next id step =>
  simp only [remaining] at step
  have stopping := decide_stop step
  obtain ⟨i, hi, outdated, same⟩ := stopping.target
  obtain ⟨w, hw, rfl⟩ := List.mem_map.mp hi
  obtain ⟨row, hrow, read⟩ := List.mem_filterMap.mp hw
  obtain ⟨c, hc, rfl⟩ := List.mem_map.mp hrow
  have reached : isStopTarget id.text (psRow c) = true := by
    obtain ⟨named, runs, rfl⟩ := Option.map_eq_some_iff.mp read
    obtain rfl : named = id := same
    exact isStopTarget_iff.mpr runs
  refine ⟨c, hc, ?_, ?_⟩
  · obtain ⟨ours, stale⟩ := outdated
    have not_current := stale.resolve_left (by rw [intent]; nofun)
    cases owned : w.instance_.owner with
    | none => simp [isOurs, owned] at ours
    | some owner =>
        have gen : generationOf w.instance_ = some owner.generation := by
          simp [generationOf, owned]
        have older_ : owner.generation < desired.generation := by
          refine lt_of_le_of_ne (stopping.fresh _ hi ours _ gen) ?_
          intro current
          exact not_current ⟨ours, by rw [gen, current]⟩
        simp [older, read, ours, gen, older_]
  · simp [remaining, step, reached]

/-- A failed upgrade spares what serves exactly when it is not turned down after
a stop has gone through. -/
theorem spared_iff (m : Machine) (cond : Conditions) (deployment : DeploymentName)
    (generation : Generation) (recipe : RecipeId) (model : String)
    (placement : Reconcile.Placement) (release : Option VerifiedRelease)
    (trace : Option ControlTrace) (maxSteps : Nat) (containers : List Container) :
    Spared m cond ⟨deployment, generation, .run recipe model placement⟩ release trace maxSteps
        recipe containers ↔
      ¬ TornDown m cond ⟨deployment, generation, .run recipe model placement⟩ release maxSteps
        containers := by
  generalize wanted : (⟨deployment, generation, .run recipe model placement⟩ : Desired) = desired
  have intent : desired.intent = .run recipe model placement := by rw [← wanted]
  simp only [Spared, TornDown, converge]
  cases fits : releaseFits desired release with
  | false =>
      simp only [Bool.false_eq_true, if_false, false_and, not_false_eq_true, iff_true]
      intro _ c hc _
      rw [answerNow_state]
      exact hc
  | true =>
      simp only [if_true, true_and]
      have verdict : Verdict m cond desired release recipe containers 0 (maxSteps + 1)
          (rounds (control m cond) desired release trace maxSteps (maxSteps + 1)
            (Session.begin_ containers) false none) := rounds_verdict intent rfl rfl rfl
      constructor
      · intro spared torn
        obtain ⟨n, later, within, stops, denied⟩ := torn
        have down := verdict.2 ⟨n, by omega, by omega, fun j _ => stops j, denied⟩
        obtain ⟨k, falls, left_⟩ := verdict.1 down
        have after : 0 < k := by
          by_contra first
          obtain rfl : k = 0 := by omega
          have denied := falls.denied
          rw [deniedAt_of_stopsAt (stops 0 later)] at denied
          cases denied
        obtain ⟨c, hc, is_older, gone⟩ := first_stop_older intent (stops 0 later)
        have kept := spared down c hc is_older
        rw [left_] at kept
        exact gone ((remaining_of_pos after).subset kept)
      · intro not_torn down c hc _
        obtain ⟨k, falls, left_⟩ := verdict.1 down
        by_cases first : k = 0
        · rw [left_, first]
          exact hc
        · refine absurd ⟨k, by omega, ?_, fun j before => falls.stops j (by omega) before,
            falls.denied⟩ not_torn
          have := falls.within
          omega

end Course

/-- The second generation's image cannot be pulled: the upgrade is turned down
when the first generation has already been stopped. -/
theorem not_spared_imageMissing :
    ¬ Spared plainMachine { smooth 2 with pulling := fun _ => some "manifest unknown" }
      ⟨chat, two, .run qwen "qwen/qwen3" .thisNode⟩ (some qwenRelease) none 2 qwen
      [serving one] := by
  intro spared
  have kept := spared trivial (serving one) List.mem_cons_self (by decide)
  exact absurd kept (by decide)

end Upgrade
end Metralectl
