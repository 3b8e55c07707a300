import Metralectl.Control.FailedUpgrade

/-!
How many launches and stops one call makes. What is bounded is the rounds, of which there is one more
than the acts that are asked for, and the last of them may act as any other.
-/
namespace Metralectl

namespace LocalControl
variable {σ : Type}

/-- The same control core, which counts what its launcher is asked to launch and to stop. -/
def counted (c : LocalControl σ) : LocalControl (σ × Nat) where
  resolve := c.resolve
  named := c.named
  launcher := {
    launch := fun s recipe overrides launchFor =>
      let (t, started) := c.launcher.launch s.1 recipe overrides launchFor
      ((t, s.2 + 1), started)
    fetchImage := fun s image =>
      let (t, fetched) := c.launcher.fetchImage s.1 image
      ((t, s.2), fetched)
    stop := fun s recipe =>
      let (t, stopped) := c.launcher.stop s.1 recipe
      ((t, s.2 + 1), stopped)
    workloads := fun s =>
      let (t, listing) := c.launcher.workloads s.1
      ((t, s.2), listing) }
  canLaunch := c.canLaunch
  accelerator := c.accelerator
  admission s :=
    let (t, admission) := c.admission s.1
    ((t, s.2), admission)
  schema := c.schema

/-- Whether a launch passes every gate before the launcher. -/
def reaches (c : LocalControl σ) (s : σ) (id : RecipeId) (requested : Settings)
    (launchFor : LaunchFor) : Bool :=
  c.canLaunch.isOk && (c.admission s).2.admits.isOk &&
    match c.resolve id with
    | none => false
    | some recipe => (c.recipeGate recipe launchFor.release).isOk &&
        match c.schema.validate requested with
        | .error _ => false
        | .ok overrides => (c.cautioned overrides).isNone

theorem reaches_of_started {c : LocalControl σ} {s t : σ} {id : RecipeId} {requested : Settings}
    {launchFor : LaunchFor} {started : Started}
    (launched : c.launch s id requested launchFor = (t, .ok started)) :
    c.reaches s id requested launchFor = true := by
  unfold LocalControl.launch at launched
  split at launched
  · cases launched
  · next can =>
      dsimp only at launched
      split at launched
      · cases launched
      · next admitted =>
          split at launched
          · cases launched
          · next recipe resolved =>
              split at launched
              · cases launched
              · next gated =>
                  split at launched
                  · cases launched
                  · next overrides validated =>
                      split at launched
                      · cases launched
                      · next uncautioned =>
                          simp only [reaches, can, admitted, resolved, gated, validated,
                            uncautioned]
                          rfl

theorem launch_counted (c : LocalControl σ) (s : σ) (k : Nat) (id : RecipeId) (requested : Settings)
    (launchFor : LaunchFor) : c.counted.launch (s, k) id requested launchFor =
      (((c.launch s id requested launchFor).1, k + (c.reaches s id requested launchFor).toNat),
        (c.launch s id requested launchFor).2) := by
  have gate (recipe : Recipe) : c.counted.recipeGate recipe launchFor.release =
      c.recipeGate recipe launchFor.release := rfl
  have cautions (overrides : Settings) : c.counted.cautioned overrides = c.cautioned overrides := rfl
  unfold LocalControl.launch reaches
  simp only [gate, cautions]
  simp only [counted]
  cases c.canLaunch with
  | error _ => rfl
  | ok _ =>
      cases (c.admission s).2.admits with
      | error _ => rfl
      | ok _ =>
          cases c.resolve id with
          | none => rfl
          | some recipe =>
              cases gated : c.recipeGate recipe launchFor.release with
              | error _ => simp only [gated]; rfl
              | ok _ =>
                  cases validated : c.schema.validate requested with
                  | error _ => simp only [gated]; rfl
                  | ok overrides =>
                      cases cautious : c.cautioned overrides with
                      | some _ => simp only [gated, cautious]; rfl
                      | none => simp only [gated, cautious]; rfl

end LocalControl

namespace Reconcile
open LocalControl

section Rounds
variable {σ : Type} (c : LocalControl σ) (desired : Desired) (release : Option VerifiedRelease)
variable (trace : Option ControlTrace)

/-- Whether an attempt comes as far as the launcher. -/
def launches (s : σ) (recipe : RecipeId) : Bool :=
  let (s, admission) := c.admission s
  (admissionRefusal admission).isNone &&
    match fetched c release s with
    | (_, .error _) => false
    | (s, .ok ()) =>
        c.reaches s recipe [] ⟨some ⟨desired.deployment, desired.generation⟩, release, trace⟩

/-- Whether a round launches or stops: it is decided on, and nothing closes it before. -/
def acts (s : σ) (launched : Option RecipeId) : Bool :=
  match c.workloads s with
  | (_, .error _) => false
  | (s, .ok workloads) =>
      match decide desired (observe c desired workloads) with
      | .launch recipe => launched ≠ some recipe && launches c desired release trace s recipe
      | .stop _ => (stopRefusal c desired s).2.isNone
      | .converged | .refuse _ => false

/-- What the next round starts from, where there is one. -/
def next (s : σ) (launched : Option RecipeId) : Option (σ × Option RecipeId) :=
  match c.workloads s with
  | (_, .error _) => none
  | (s, .ok workloads) =>
      match decide desired (observe c desired workloads) with
      | .launch recipe =>
          if launched = some recipe then none
          else
            match attempt c desired release trace s recipe with
            | (s, .ok none) => some (s, some recipe)
            | _ => none
      | .stop recipe =>
          match stopRefusal c desired s with
          | (_, some _) => none
          | (s, none) =>
              match c.stop s recipe with
              | (s, .ok ()) => some (s, launched)
              | (_, .error _) => none
      | .converged | .refuse _ => none

/-- Where a number of rounds in a row lead that each act and go on. -/
def reached : Nat → σ → Option RecipeId → Option (σ × Option RecipeId)
  | 0, s, launched => some (s, launched)
  | n + 1, s, launched =>
      (next c desired release trace s launched).bind fun (t, last) => reached n t last

/-- The launches and stops of some rounds. -/
def performed : Nat → σ → Option RecipeId → Nat
  | 0, _, _ => 0
  | left + 1, s, launched => (acts c desired release trace s launched).toNat +
      match next c desired release trace s launched with
      | some (t, last) => performed left t last
      | none => 0

variable {c desired release trace}

theorem attempt_counted (s : σ) (k : Nat) (recipe : RecipeId) :
    attempt c.counted desired release trace (s, k) recipe =
      (((attempt c desired release trace s recipe).1,
        k + (launches c desired release trace s recipe).toNat),
        (attempt c desired release trace s recipe).2) := by
  have fetch (s : σ) : fetched c.counted release (s, k) =
      (((fetched c release s).1, k), (fetched c release s).2) := by
    cases release <;> rfl
  unfold attempt launches
  have admission (s : σ) (k : Nat) : c.counted.admission (s, k) =
      (((c.admission s).1, k), (c.admission s).2) := rfl
  simp only [admission]
  cases admissionRefusal (c.admission s).2 with
  | some closed => rfl
  | none =>
      simp only [fetch]
      cases fetched c release (c.admission s).1 with
      | mk t got =>
      cases got with
      | error why => rfl
      | ok _ =>
          simp only [launch_counted]
          cases launch : c.launch t recipe []
            ⟨some ⟨desired.deployment, desired.generation⟩, release, trace⟩ with
          | mk u started =>
          cases started with
          | ok _ => rfl
          | error e =>
              simp only []
              split
              · rfl
              · cases admissionRefusal (c.admission u).2 <;> rfl
              · rfl

theorem answerNow_counted (s : σ) (k : Nat) (outcome : ActionOutcome) (detail : Option String) :
    answerNow c.counted desired (s, k) outcome detail =
      (((answerNow c desired s outcome detail).1, k), (answerNow c desired s outcome detail).2) := by
  have listed : c.counted.workloads (s, k) = (((c.workloads s).1, k), (c.workloads s).2) := rfl
  simp only [answerNow, listed]
  cases c.workloads s with
  | mk t listing => cases listing <;> rfl

theorem stopRefusal_counted (s : σ) (k : Nat) : stopRefusal c.counted desired (s, k) =
    (((stopRefusal c desired s).1, k), (stopRefusal c desired s).2) := by
  unfold stopRefusal
  split <;> rfl

/-- Counting changes no answer, and counts what the rounds perform. -/
theorem rounds_counted {maxSteps : Nat} (left : Nat) (s : σ) (k : Nat) (acted : Bool)
    (launched : Option RecipeId) :
    rounds c.counted desired release trace maxSteps left (s, k) acted launched =
      (((rounds c desired release trace maxSteps left s acted launched).1,
        k + performed c desired release trace left s launched),
        (rounds c desired release trace maxSteps left s acted launched).2) := by
  induction left generalizing s k acted launched with
  | zero => rfl
  | succ left ih =>
      have listed : c.counted.workloads (s, k) = (((c.workloads s).1, k), (c.workloads s).2) := rfl
      have seen (ws : List Workload) : observe c.counted desired ws = observe c desired ws := rfl
      simp only [rounds, performed, acts, next, listed, seen]
      cases c.workloads s with
      | mk t listing =>
      cases listing with
      | error e => rfl
      | ok ws =>
          cases decided : decide desired (observe c desired ws) with
          | converged => simp only [decided]; rfl
          | refuse refusal => simp only [decided]; rfl
          | launch recipe =>
              simp only [decided]
              by_cases again : launched = some recipe
              · simp only [again, if_true, answerNow_counted]
                simp
              · simp only [again, if_false, attempt_counted]
                cases attempt c desired release trace t recipe with
                | mk u result =>
                cases result with
                | error e => simp [again]
                | ok denied =>
                    cases denied with
                    | some d => simp [again, answerNow_counted]
                    | none => simp [again, ih, Nat.add_assoc]
          | stop recipe =>
              have stopping (t : σ) : c.counted.stop (t, k) recipe =
                  (((c.stop t recipe).1, k + 1), (c.stop t recipe).2) := rfl
              simp only [decided, stopRefusal_counted]
              cases stopRefusal c desired t with
              | mk u refusal =>
              cases refusal with
              | some outcome => rfl
              | none =>
                  simp only [stopping]
                  cases c.stop u recipe with
                  | mk v result =>
                  cases result with
                  | error e => rfl
                  | ok _ => simp [ih, Nat.add_assoc]

theorem launches_of_started {s t : σ} {recipe : RecipeId}
    (started : attempt c desired release trace s recipe = (t, .ok none)) :
    launches c desired release trace s recipe = true := by
  unfold attempt at started
  unfold launches
  cases opened : c.admission s with
  | mk u admission =>
  cases closed : admissionRefusal admission with
  | some _ => simp [opened, closed] at started
  | none =>
  cases fetch : fetched c release u with
  | mk v result =>
  cases result with
  | error _ => simp [opened, closed, fetch] at started
  | ok _ =>
      simp only [opened, closed, fetch] at started ⊢
      split at started
      · next launched => exact reaches_of_started launched
      · split at started
        · cases started
        · split at started <;> cases started
        · cases started

/-- A round that goes on has acted. -/
theorem acts_of_next {s t : σ} {launched last : Option RecipeId}
    (on : next c desired release trace s launched = some (t, last)) :
    acts c desired release trace s launched = true := by
  unfold next at on
  unfold acts
  cases listed : c.workloads s with
  | mk u listing =>
  cases listing with
  | error e =>
      rw [listed] at on
      cases on
  | ok ws =>
      simp only [listed] at on ⊢
      cases decided : decide desired (observe c desired ws) with
      | launch recipe =>
          simp only [decided] at on ⊢
          split at on
          · cases on
          · next new =>
              split at on
              · next started =>
                  rw [launches_of_started started, Bool.and_true]
                  exact decide_eq_true new
              · cases on
      | stop recipe =>
          simp only [decided] at on ⊢
          split at on
          · cases on
          · next open_ =>
              rw [open_]
              rfl
      | converged | refuse refusal =>
          rw [decided] at on
          cases on

/-- Of one round more than were counted, the last does not act exactly when no more is performed. -/
theorem performed_le_iff (n : Nat) (s : σ) (launched : Option RecipeId) :
    performed c desired release trace (n + 1) s launched ≤ n ↔
      ∀ t last, reached c desired release trace n s launched = some (t, last) →
        acts c desired release trace t last = false := by
  induction n generalizing s launched with
  | zero =>
      have one : performed c desired release trace 1 s launched =
          (acts c desired release trace s launched).toNat := by
        simp only [performed]
        split <;> rfl
      rw [one]
      simp [reached]
  | succ n ih =>
      rw [performed]
      simp only [reached]
      cases on : next c desired release trace s launched with
      | none =>
          have few := Bool.toNat_le (acts c desired release trace s launched)
          simp only [Option.bind_none]
          exact iff_of_true (by omega) nofun
      | some at_ =>
          obtain ⟨t, last⟩ := at_
          have acted := acts_of_next on
          simp only [acted, Bool.toNat_true, Option.bind_some]
          rw [← ih t last]
          omega

theorem acts_decided {s : σ} {launched : Option RecipeId}
    (acted : acts c desired release trace s launched = true) :
    ∃ t ws recipe, c.workloads s = (t, .ok ws) ∧
      (decide desired (observe c desired ws) = .launch recipe ∨
        decide desired (observe c desired ws) = .stop recipe) := by
  unfold acts at acted
  cases listed : c.workloads s with
  | mk t listing =>
  cases listing with
  | error e =>
      rw [listed] at acted
      cases acted
  | ok ws =>
      simp only [listed] at acted
      cases decided : decide desired (observe c desired ws) with
      | launch recipe => exact ⟨t, ws, recipe, rfl, .inl decided⟩
      | stop recipe => exact ⟨t, ws, recipe, rfl, .inr decided⟩
      | converged | refuse refusal =>
          rw [decided] at acted
          cases acted

/-- Rounds that all go on perform as many acts. -/
theorem le_performed {n : Nat} {s t : σ} {launched last : Option RecipeId}
    (led : reached c desired release trace n s launched = some (t, last)) :
    n ≤ performed c desired release trace (n + 1) s launched := by
  induction n generalizing s launched with
  | zero => exact Nat.zero_le _
  | succ n ih =>
      obtain ⟨⟨u, middle⟩, on, led⟩ := Option.bind_eq_some_iff.mp led
      rw [performed, on, acts_of_next on]
      have rest := ih led
      simp only [Bool.toNat_true]
      omega

theorem reached_last {n : Nat} {s t : σ} {launched last : Option RecipeId}
    (led : reached c desired release trace (n + 1) s launched = some (t, last)) :
    ∃ u middle, reached c desired release trace n s launched = some (u, middle) ∧
      next c desired release trace u middle = some (t, last) := by
  induction n generalizing s launched with
  | zero =>
      obtain ⟨⟨u, middle⟩, on, led⟩ := Option.bind_eq_some_iff.mp led
      cases led
      exact ⟨s, launched, rfl, on⟩
  | succ n ih =>
      obtain ⟨⟨u, middle⟩, on, led⟩ := Option.bind_eq_some_iff.mp led
      obtain ⟨v, before, led, on'⟩ := ih led
      exact ⟨v, before, by rw [reached, on]; exact led, on'⟩

/-- The states a control comes to by what it is asked. -/
inductive Asked (c : LocalControl σ) (s : σ) : σ → Prop
  | start : Asked c s s
  | listed {t : σ} : Asked c s t → Asked c s (c.workloads t).1
  | admitted {t : σ} : Asked c s t → Asked c s (c.admission t).1
  | fetched {t : σ} {image : OciImage} : Asked c s t → Asked c s (c.fetchImage t image).1
  | launched {t : σ} {id : RecipeId} {requested : Settings} {launchFor : LaunchFor} :
      Asked c s t → Asked c s (c.launch t id requested launchFor).1
  | stopped {t : σ} {id : RecipeId} : Asked c s t → Asked c s (c.stop t id).1

/-- An error that the launcher answered a listing or a stop with, in a state the call came to. -/
def Passed (c : LocalControl σ) (s : σ) (e : AgentError) : Prop :=
  ∃ t, Asked c s t ∧ ((c.workloads t).2 = .error e ∨ ∃ id, (c.stop t id).2 = .error e)

variable {s₀ : σ}

theorem Asked.to {α : Type} {x : σ × α} {t : σ} {a : α} (asked : Asked c s₀ x.1)
    (same : x = (t, a)) : Asked c s₀ t := by
  rw [same] at asked
  exact asked

theorem asked_fetched {s : σ} (asked : Asked c s₀ s) : Asked c s₀ (fetched c release s).1 := by
  cases release with
  | none => exact asked
  | some r => exact asked.fetched

theorem asked_attempt {s : σ} {recipe : RecipeId} (asked : Asked c s₀ s) :
    Asked c s₀ (attempt c desired release trace s recipe).1 := by
  have admitted := asked.admitted
  unfold attempt
  generalize c.admission s = admission at admitted
  dsimp only
  split
  · exact admitted
  · have present : Asked c s₀ (fetched c release admission.1).1 := asked_fetched admitted
    split
    · next failed => exact present.to failed
    · next u there =>
        have present := present.to there
        have launched := @Asked.launched _ c s₀ _ recipe []
          ⟨some ⟨desired.deployment, desired.generation⟩, release, trace⟩ present
        split
        · next started => exact launched.to started
        · next failed =>
            have launched := launched.to failed
            split
            · exact launched
            · split
              · exact launched.admitted
              · exact launched.admitted
            · exact launched

theorem asked_stopRefusal {s : σ} (asked : Asked c s₀ s) :
    Asked c s₀ (stopRefusal c desired s).1 := by
  unfold stopRefusal
  split
  · exact asked.admitted
  · exact asked

theorem answerNow_error {s : σ} {outcome : ActionOutcome} {detail : Option String} {e : AgentError}
    (asked : Asked c s₀ s) (failed : (answerNow c desired s outcome detail).2 = .error e) :
    Passed c s₀ e := by
  unfold answerNow at failed
  split at failed
  · next listed =>
      cases failed
      exact ⟨s, asked, .inl (congrArg Prod.snd listed)⟩
  · cases failed

/-- What an attempt fails with is nothing that a launcher says of a launch. -/
theorem attempt_error {s t : σ} {recipe : RecipeId} {e : AgentError}
    (failed : attempt c desired release trace s recipe = (t, .error e)) : failureText e = none := by
  unfold attempt at failed
  dsimp only at failed
  split at failed
  · cases failed
  · split at failed
    · cases failed
    · split at failed
      · cases failed
      · split at failed
        · cases failed
        · split at failed
          · cases failed
          · cases failed
            rfl
        · next text _ =>
            cases failed
            assumption

/-- Where the rounds run out, as many went on as there were. -/
theorem reached_of_exhausted {maxSteps left : Nat} {s : σ} {acted : Bool} {launched : Option RecipeId}
    (asked : Asked c s₀ s)
    (failed : (rounds c desired release trace maxSteps left s acted launched).2 =
      .error (didNotConverge desired maxSteps)) :
    (∃ t last, reached c desired release trace left s launched = some (t, last)) ∨
      Passed c s₀ (didNotConverge desired maxSteps) := by
  induction left generalizing s acted launched with
  | zero => exact .inl ⟨s, launched, rfl⟩
  | succ left ih =>
      have round := rounds_cases c desired release trace maxSteps left s acted launched
      generalize rounds c desired release trace maxSteps (left + 1) s acted launched = r at round failed
      have looked {t : σ} {answer : Except AgentError (List Workload)}
          (listed : c.workloads s = (t, answer)) : Asked c s₀ t :=
        asked.listed.to listed
      have tried {t u : σ} {recipe : RecipeId}
          {result : Except AgentError (Option (ActionOutcome × Option String))}
          (here : Asked c s₀ t)
          (attempted : attempt c desired release trace t recipe = (u, result)) : Asked c s₀ u :=
        (asked_attempt here).to attempted
      have passed {t u : σ} {refusal : Option ActionOutcome} (here : Asked c s₀ t)
          (gate : stopRefusal c desired t = (u, refusal)) : Asked c s₀ u :=
        (asked_stopRefusal here).to gate
      cases round with
      | unlisted listed =>
          cases failed
          exact .inr ⟨s, asked, .inl (congrArg Prod.snd listed)⟩
      | converged | refused | closed => cases failed
      | exited listed => exact .inr (answerNow_error (looked listed) failed)
      | denied listed _ _ attempted =>
          exact .inr (answerNow_error (tried (looked listed) attempted) failed)
      | unlaunched _ _ _ attempted =>
          have silent := attempt_error attempted
          cases failed
          cases silent
      | @unstopped _ _ recipe u _ _ listed _ gate stopping =>
          cases failed
          exact .inr ⟨u, passed (looked listed) gate, .inr ⟨recipe, congrArg Prod.snd stopping⟩⟩
      | launched listed step new attempted =>
          refine (ih (tried (looked listed) attempted) failed).imp_left fun ⟨t, last, led⟩ =>
            ⟨t, last, ?_⟩
          rw [reached, next, listed]
          simp only [step, if_neg new, attempted]
          exact led
      | stopped listed step gate stopping =>
          have here := (passed (looked listed) gate).stopped.to stopping
          refine (ih here failed).imp_left fun ⟨t, last, led⟩ => ⟨t, last, ?_⟩
          rw [reached, next, listed]
          simp only [step, gate, stopping]
          exact led

end Rounds

section Budgets
variable {σ : Type} (c : LocalControl σ) (desired : Desired) (release : Option VerifiedRelease)
variable (trace : Option ControlTrace) (maxSteps : Nat) (s : σ)

/-- The launches and stops of a call. -/
def actsOf : Nat := (converge c.counted desired release trace maxSteps (s, 0)).1.2

/-- As many acts were made as were asked for, and what was decided then was one more. -/
def Exhausted : Prop :=
  maxSteps ≤ actsOf c desired release trace maxSteps s ∧
    ∃ t last u ws recipe, reached c desired release trace maxSteps s none = some (t, last) ∧
      c.workloads t = (u, .ok ws) ∧ (decide desired (observe c desired ws) = .launch recipe ∨
        decide desired (observe c desired ws) = .stop recipe)

/-- A call makes no more acts than are asked for, and says that it did not converge only when it has
made them and is asked for another; unless the launcher itself said so. -/
structure WithinBudget : Prop where
  acts : actsOf c desired release trace maxSteps s ≤ maxSteps
  error : (converge c desired release trace maxSteps s).2 = .error (didNotConverge desired maxSteps) →
    Exhausted c desired release trace maxSteps s ∨ Passed c s (didNotConverge desired maxSteps)

variable {c desired release trace maxSteps s}

theorem actsOf_eq : actsOf c desired release trace maxSteps s =
    if releaseFits desired release then performed c desired release trace (maxSteps + 1) s none else 0 := by
  unfold actsOf converge
  split
  · rw [rounds_counted]
    exact Nat.zero_add _
  · rw [answerNow_counted]

/-- Counting changes no answer. -/
theorem converge_counted : (converge c.counted desired release trace maxSteps (s, 0)).2 =
    (converge c desired release trace maxSteps s).2 := by
  unfold converge
  split
  · rw [rounds_counted]
  · rw [answerNow_counted]

theorem exhausted_of_error (failed : (converge c desired release trace maxSteps s).2 =
    .error (didNotConverge desired maxSteps)) :
    Exhausted c desired release trace maxSteps s ∨
      Passed c s (didNotConverge desired maxSteps) := by
  unfold converge at failed
  split at failed
  · next fits =>
      refine (reached_of_exhausted .start failed).imp_left fun ⟨t, last, led⟩ => ?_
      obtain ⟨u, middle, led, on⟩ := reached_last led
      obtain ⟨v, ws, recipe, listed, decided⟩ := acts_decided (acts_of_next on)
      refine ⟨?_, u, middle, v, ws, recipe, led, listed, decided⟩
      rw [actsOf_eq, if_pos fits]
      exact le_performed led
  · exact .inr (answerNow_error .start failed)

/-- A call keeps to its acts exactly when the round after them, if it comes to it, does not act: what
is decided there is no launch or stop, or one that is closed before the launcher is asked. -/
theorem within_budget_iff {σ : Type} (c : LocalControl σ) (desired : Desired)
    (release : Option VerifiedRelease) (trace : Option ControlTrace) (maxSteps : Nat) (s : σ) :
    WithinBudget c desired release trace maxSteps s ↔
      (releaseFits desired release = true →
        ∀ t last, reached c desired release trace maxSteps s none = some (t, last) →
          Reconcile.acts c desired release trace t last = false) := by
  have bound : actsOf c desired release trace maxSteps s ≤ maxSteps ↔
      (releaseFits desired release = true →
        ∀ t last, reached c desired release trace maxSteps s none = some (t, last) →
          Reconcile.acts c desired release trace t last = false) := by
    rw [actsOf_eq]
    cases releaseFits desired release with
    | true =>
        rw [if_pos rfl, performed_le_iff]
        exact ⟨fun h _ => h, fun h => h rfl⟩
    | false =>
        rw [if_neg nofun]
        exact iff_of_true (Nat.zero_le _) nofun
  exact ⟨fun within => bound.mp within.acts, fun few => ⟨bound.mpr few, exhausted_of_error⟩⟩

end Budgets

end Reconcile

namespace Upgrade
open Reconcile Docker

/-- One act is asked for, of an upgrade that stops the first generation and launches the second. -/
theorem upgrade_acts_twice : ¬WithinBudget (control plainMachine (smooth 2))
    ⟨chat, two, .run qwen "qwen/qwen3" .thisNode⟩ (some qwenRelease) none 1
    (Session.begin_ [serving one]) := by
  intro within
  have twice : actsOf (control plainMachine (smooth 2)) ⟨chat, two, .run qwen "qwen/qwen3" .thisNode⟩
      (some qwenRelease) none 1 (Session.begin_ [serving one]) = 2 := by
    decide
  exact absurd (twice ▸ within.acts) (by decide)

end Upgrade
end Metralectl
