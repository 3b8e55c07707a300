import Metralectl.Library.Interleaving
import Metralectl.Control.Runtime

/-!
Launches and stops of one recipe through one launcher. Each holds the recipe's
gate from its first `docker ps` to its last command; between two of its commands
anything may happen that does not wait for the gate. A launch answers with the
container that runs under its name, or clears the name and starts one.
-/
namespace Metralectl
namespace Docker
open Interleaving Runs

/-- A launch whose command was rendered: all that is left needs the gate. -/
structure Planned (m : Machine) (id : RecipeId) where
  recipe : Recipe
  overrides : Settings
  launchFor : LaunchFor
  base : DockerCommand
  planned : m.rendering.plan recipe overrides = .ok base
  named : recipe.name = id

def Planned.plan {m : Machine} {id : RecipeId} (l : Planned m id) : DockerCommand :=
  launchPlan l.base l.launchFor

theorem Planned.plan_name {m : Machine} {id : RecipeId} (l : Planned m id) :
    l.plan.name = containerName id.text .solo := by
  have rendered := m.rendering.plan_name _ _ _ l.planned
  rwa [l.named] at rendered

/-- Where a launch stands, and last what it answered and the container it answered
with instead of starting one. -/
inductive LaunchPhase where
  | waiting
  | listing
  | inspecting (container : ContainerId)
  | clearing
  | starting
  | answered (result : Except AgentError Started) (existing : Option Container)

inductive StopPhase where
  | waiting
  | listing
  | stopping (ids : List ContainerId)
  | answered (result : Except AgentError Unit)

inductive Work (m : Machine) (id : RecipeId) where
  | launch (l : Planned m id) (phase : LaunchPhase)
  /-- A launch that failed before it came to the gate. -/
  | unplanned (why : AgentError)
  | stop (phase : StopPhase)
  /-- Not a call: a container ended, or went. -/
  | event

/-- A call and its number. -/
structure Task (m : Machine) (id : RecipeId) where
  ticket : Nat
  work : Work m id

/-- The containers, the call that holds the gate, and how many calls there were. -/
structure Gated where
  engine : Engine
  holder : Option Nat
  calls : Nat

inductive Request where
  | launch (recipe : Recipe) (overrides : Settings) (launchFor : LaunchFor)
  | stop
  | exit (container : ContainerId)
  | remove (container : ContainerId)

/-- What a call waited for: the gate, or the end of a docker command. -/
inductive Reply where
  | granted
  | listed (failure : Option RuntimeError)
  | inspected (failure : Option String)
  | cleared (done : Bool)
  | ran (container : Option ContainerId) (imageEnv : List (String × String))
      (failure : Option String)
  | stopped (spared : List ContainerId) (failure : Option String)

namespace Gated
variable {m : Machine} {id : RecipeId}

def release (s : Gated) : Gated := { s with holder := none }

def take (s : Gated) (ticket : Nat) : Option Gated :=
  if s.holder = none then some { s with holder := some ticket } else none

/-- What a launch makes of the container that runs under its name. -/
def verdict (l : Planned m id) (c : Container) : Except AgentError Started :=
  if l.launchFor.owner.all (isOwnedBy (launchedAs c)) && isSameLaunch l.plan (launchedAs c) then
    .ok ⟨l.plan.name, endpointOf l.plan.command⟩
  else .error (.alreadyRunning id)

/-- The container a command starts: its image's variables stand beside those the
command sets. -/
def created (plan : DockerCommand) (container : ContainerId)
    (imageEnv : List (String × String)) : Container :=
  { Container.of plan container with
    env := plan.env ++ imageEnv.filter fun e => (plan.env.lookup e.1).isNone }

def found (e : Engine) (container : ContainerId) : Option Container :=
  ((e.held.filter Held.present).map (·.container)).find? (·.id = container)

def launchStep (s : Gated) (ticket : Nat) (l : Planned m id) :
    LaunchPhase → Reply → Option (Gated × LaunchPhase)
  | .waiting, .granted => (s.take ticket).map fun s => (s, .listing)
  | .listing, .listed (some e) => some (s.release, .answered (.error e.error) none)
  | .listing, .listed none =>
      match runningAs l.plan.name s.engine.rows with
      | some row => some (s, .inspecting row.id)
      | none => some (s, .clearing)
  | .inspecting _, .inspected (some detail) =>
      some (s.release, .answered (.error (.launchFailed detail)) none)
  | .inspecting container, .inspected none =>
      match found s.engine container with
      | none => some (s.release,
          .answered (.error (.launchFailed "docker inspect found no such container")) none)
      | some c => some (s.release, .answered (verdict l c) (some c))
  | .clearing, .cleared done =>
      -- Failure is expected when nothing is there.
      some (if done then { s with engine := s.engine.lower (·.name = l.plan.name) .removed } else s,
        .starting)
  | .starting, .ran none _ failure =>
      failure.map fun detail => (s.release, .answered (.error (.launchFailed detail)) none)
  | .starting, .ran (some container) imageEnv failure =>
      (s.engine.start (created l.plan container imageEnv)).map fun e =>
        ({ s.release with engine := e },
          .answered (match failure with
            | none => .ok ⟨l.plan.name, endpointOf l.plan.command⟩
            | some detail => .error (.launchFailed detail)) none)
  | _, _ => none

def stopStep (s : Gated) (ticket : Nat) (recipe : String) :
    StopPhase → Reply → Option (Gated × StopPhase)
  | .waiting, .granted => (s.take ticket).map fun s => (s, .listing)
  | .listing, .listed (some e) => some (s.release, .answered (.error e.error))
  | .listing, .listed none =>
      let ids := stopTargets recipe s.engine.rows
      if ids.isEmpty then some (s.release, .answered (.ok ())) else some (s, .stopping ids)
  | .stopping ids, .stopped spared failure =>
      let stopped := { s.release with
        engine := s.engine.lower (fun c => ids.contains c.id && !spared.contains c.id) .exited }
      some (stopped, .answered (match failure with
        | none => .ok ()
        | some detail => .error (.launchFailed detail)))
  | _, _ => none

/-- A launch renders its command and looks for its model's weights before it comes
to the gate. -/
def enterLaunch (m : Machine) (id : RecipeId) (recipe : Recipe) (overrides : Settings)
    (launchFor : LaunchFor) : Option (Work m id) :=
  if named : recipe.name = id then
    match planned : m.rendering.plan recipe overrides with
    | .error why => some (.unplanned (.notLaunchable recipe.name why))
    | .ok base =>
        match unready m (launchPlan base launchFor) recipe with
        | some detail => some (.unplanned (.launchFailed detail))
        | none => some (.launch ⟨recipe, overrides, launchFor, base, planned, named⟩ .waiting)
  else none

def enter (m : Machine) (id : RecipeId) (s : Gated) : Request → Option (Gated × Task m id)
  | .launch recipe overrides launchFor =>
      (enterLaunch m id recipe overrides launchFor).map fun w =>
        ({ s with calls := s.calls + 1 }, ⟨s.calls, w⟩)
  | .stop => some ({ s with calls := s.calls + 1 }, ⟨s.calls, .stop .waiting⟩)
  | .exit container =>
      some ({ s with calls := s.calls + 1, engine := s.engine.lower (·.id = container) .exited },
        ⟨s.calls, .event⟩)
  | .remove container =>
      -- Docker removes by itself only what has ended.
      some ({ s with
        calls := s.calls + 1
        engine := (s.engine.lower (·.id = container) .exited).lower (·.id = container) .removed },
        ⟨s.calls, .event⟩)

def resume (s : Gated) (t : Task m id) (r : Reply) : Option (Gated × Task m id) :=
  match t.work with
  | .launch l phase =>
      (launchStep s t.ticket l phase r).map fun (s, phase) => (s, ⟨t.ticket, .launch l phase⟩)
  | .stop phase =>
      (stopStep s t.ticket id.text phase r).map fun (s, phase) => (s, ⟨t.ticket, .stop phase⟩)
  | .unplanned _ | .event => none

/-- The launcher, as the calls for one recipe see it. -/
def launcher (m : Machine) (id : RecipeId) : Object Gated (Task m id) Request Reply where
  enter := enter m id
  resume := resume

end Gated

def LaunchPhase.inside : LaunchPhase → Bool
  | .waiting | .answered _ _ => false
  | .listing | .inspecting _ | .clearing | .starting => true

def StopPhase.inside : StopPhase → Bool
  | .waiting | .answered _ => false
  | .listing | .stopping _ => true

/-- What a launch knows where it stands: the container it looks at bears its name,
or nothing that runs does. -/
def LaunchPhase.Fits (name : String) (e : Engine) : LaunchPhase → Prop
  | .waiting | .listing | .answered _ _ => True
  | .inspecting container => ∃ c ∈ e.known, c.id = container ∧ c.name = name
  | .clearing | .starting => ∀ c ∈ e.running, c.name ≠ name

section Phases
variable {m : Machine} {id : RecipeId}

/-- A launch that answered with an existing container found the launch it was asked
for. -/
def LaunchPhase.Adopted (l : Planned m id) : LaunchPhase → Prop
  | .answered (.ok _) (some c) => isSameLaunch l.plan (launchedAs c) = true ∧ c.name = l.plan.name
  | _ => True

def Task.Sound (s : Gated) (t : Task m id) : Prop :=
  match t.work with
  | .launch l phase => (phase.inside = true → s.holder = some t.ticket) ∧
      phase.Fits l.plan.name s.engine ∧ phase.Adopted l
  | .stop phase => phase.inside = true → s.holder = some t.ticket
  | .unplanned _ | .event => True

end Phases

namespace Gated
variable {m : Machine} {id : RecipeId}

section Steps
variable {s s' : Gated} {ticket : Nat} {l : Planned m id} {r : Reply}

theorem take_some (h : s.take ticket = some s') :
    s.holder = none ∧ s' = { s with holder := some ticket } := by
  unfold take at h
  split at h
  · next free =>
      cases h
      exact ⟨free, rfl⟩
  · cases h

theorem found_some {e : Engine} {container : ContainerId} {c : Container}
    (h : found e container = some c) : c ∈ e.known ∧ c.id = container := by
  have named := List.find?_some h
  obtain ⟨x, mem, rfl⟩ := List.mem_map.mp (List.mem_of_find?_eq_some h)
  exact ⟨List.mem_map.mpr ⟨x, List.mem_of_mem_filter mem, rfl⟩, of_decide_eq_true named⟩

theorem runningAs_none {name : String} {e : Engine} (h : runningAs name e.rows = none) :
    ∀ c ∈ e.running, c.name ≠ name := by
  intro c hc same
  exact List.find?_eq_none.mp h (psRow c) (List.mem_map_of_mem hc) (decide_eq_true same)

theorem runningAs_some {name : String} {e : Engine} {row : PsRow}
    (h : runningAs name e.rows = some row) : ∃ c ∈ e.running, psRow c = row ∧ c.name = name := by
  have named : decide (row.name = name) = true :=
    List.find?_some (p := fun row : PsRow => decide (row.name = name)) h
  obtain ⟨c, hc, rfl⟩ := List.mem_map.mp (List.mem_of_find?_eq_some h)
  exact ⟨c, hc, rfl, of_decide_eq_true named⟩

/-- What a step within the gate, or into it, comes to. -/
structure Within (s s' : Gated) (ticket : Nat) (inside : Bool) : Prop where
  entitled : s.holder = none ∨ s.holder = some ticket
  holds : inside = true → s'.holder = some ticket
  calls : s'.calls = s.calls

structure LaunchStepped (s s' : Gated) (ticket : Nat) (l : Planned m id) (after : LaunchPhase) :
    Prop where
  within : Within s s' ticket after.inside
  fits : after.Fits l.plan.name s'.engine
  adopted : after.Adopted l
  /-- No launch ends a container that runs. -/
  spares : ∀ c ∈ s.engine.running, c ∈ s'.engine.running
  starts : ∀ c ∈ s'.engine.running, c ∈ s.engine.running ∨ c.name = l.plan.name

theorem launchStep_spec {phase after : LaunchPhase}
    (gate : phase.inside = true → s.holder = some ticket) (fits : phase.Fits l.plan.name s.engine)
    (h : launchStep s ticket l phase r = some (s', after)) :
    LaunchStepped s s' ticket l after := by
  unfold launchStep at h
  split at h
  · obtain ⟨g, taken, same⟩ := Option.map_eq_some_iff.mp h
    obtain ⟨free, rfl⟩ := take_some taken
    cases same
    exact ⟨⟨.inl free, fun _ => rfl, rfl⟩, trivial, trivial, fun _ hc => hc, fun _ hc => .inl hc⟩
  · cases h
    exact ⟨⟨.inr (gate rfl), nofun, rfl⟩, trivial, trivial, fun _ hc => hc, fun _ hc => .inl hc⟩
  · have held := gate rfl
    split at h
    · next row listed =>
        cases h
        obtain ⟨c, hc, rfl, named⟩ := runningAs_some listed
        exact ⟨⟨.inr held, fun _ => held, rfl⟩,
          ⟨c, Engine.known_of_running hc, rfl, named⟩, trivial, fun _ hc => hc,
          fun _ hc => .inl hc⟩
    · next free =>
        cases h
        exact ⟨⟨.inr held, fun _ => held, rfl⟩, runningAs_none free, trivial, fun _ hc => hc,
          fun _ hc => .inl hc⟩
  · cases h
    exact ⟨⟨.inr (gate rfl), nofun, rfl⟩, trivial, trivial, fun _ hc => hc, fun _ hc => .inl hc⟩
  · have held := gate rfl
    split at h
    · cases h
      exact ⟨⟨.inr held, nofun, rfl⟩, trivial, trivial, fun _ hc => hc, fun _ hc => .inl hc⟩
    · next c seen =>
        cases h
        refine ⟨⟨.inr held, nofun, rfl⟩, trivial, ?_, fun _ hc => hc, fun _ hc => .inl hc⟩
        unfold verdict
        split
        · next same =>
            obtain ⟨known, isIt⟩ := found_some seen
            obtain ⟨d, hd, dId, dName⟩ := fits
            obtain rfl := Engine.known_id known hd (isIt.trans dId.symm)
            exact ⟨(Bool.and_eq_true_iff.mp same).2, dName⟩
        · trivial
  · have held := gate rfl
    have gone : Status.removed ≠ .running := nofun
    cases h
    have spared (c : Container) (hc : c ∈ s.engine.running) :
        c ∈ (s.engine.lower (·.name = l.plan.name) .removed).running :=
      (Engine.running_lower gone).mpr ⟨hc, decide_eq_false (fits c hc)⟩
    split
    · exact ⟨⟨.inr held, fun _ => held, rfl⟩,
        fun c hc => fits c (Engine.running_of_lower hc), trivial, spared,
        fun _ hc => .inl (Engine.running_of_lower hc)⟩
    · exact ⟨⟨.inr held, fun _ => held, rfl⟩, fits, trivial, fun _ hc => hc, fun _ hc => .inl hc⟩
  · obtain ⟨detail, _, same⟩ := Option.map_eq_some_iff.mp h
    cases same
    exact ⟨⟨.inr (gate rfl), nofun, rfl⟩, trivial, trivial, fun _ hc => hc, fun _ hc => .inl hc⟩
  · next failure =>
      obtain ⟨e, started, same⟩ := Option.map_eq_some_iff.mp h
      cases same
      have running : e.running = s.engine.running ++ [created l.plan _ _] :=
        Engine.running_start started
      refine ⟨⟨.inr (gate rfl), nofun, rfl⟩, trivial, ?_, ?_, ?_⟩
      · cases failure <;> trivial
      · intro c hc
        change c ∈ e.running
        rw [running]
        exact List.mem_append_left _ hc
      · intro c hc
        change c ∈ e.running at hc
        rw [running] at hc
        cases List.mem_append.mp hc with
        | inl old => exact .inl old
        | inr new =>
            rw [List.mem_singleton.mp new]
            exact .inr rfl
  · cases h

/-- A container is answered with that `docker inspect` found. -/
theorem launchStep_answered {phase : LaunchPhase} {result : Except AgentError Started} {c : Container}
    (h : launchStep s ticket l phase r = some (s', .answered result (some c))) :
    c ∈ s.engine.known := by
  unfold launchStep at h
  split at h
  · obtain ⟨_, _, same⟩ := Option.map_eq_some_iff.mp h
    cases same
  · cases h
  · split at h <;> cases h
  · cases h
  · split at h
    · cases h
    · next c' seen =>
        cases h
        exact (found_some seen).1
  · cases h
  · obtain ⟨_, _, same⟩ := Option.map_eq_some_iff.mp h
    cases same
  · obtain ⟨_, _, same⟩ := Option.map_eq_some_iff.mp h
    cases same
  · cases h

theorem stopStep_spec {recipe : String} {phase after : StopPhase}
    (gate : phase.inside = true → s.holder = some ticket)
    (h : stopStep s ticket recipe phase r = some (s', after)) :
    Within s s' ticket after.inside := by
  unfold stopStep at h
  split at h
  · obtain ⟨g, taken, same⟩ := Option.map_eq_some_iff.mp h
    obtain ⟨free, rfl⟩ := take_some taken
    cases same
    exact ⟨.inl free, fun _ => rfl, rfl⟩
  · cases h
    exact ⟨.inr (gate rfl), nofun, rfl⟩
  · have held := gate rfl
    simp only at h
    split at h
    · cases h
      exact ⟨.inr held, nofun, rfl⟩
    · cases h
      exact ⟨.inr held, fun _ => held, rfl⟩
  · cases h
    exact ⟨.inr (gate rfl), nofun, rfl⟩
  · cases h

theorem fits_outside {name : String} {e : Engine} {phase : LaunchPhase}
    (out : phase.inside = false) : phase.Fits name e := by
  cases phase with
  | waiting | answered => trivial
  | listing | inspecting | clearing | starting => cases out

/-- A step within the gate is of no concern to a call outside it. -/
theorem sound_aside {u : Task m id} {inside : Bool} (sound : u.Sound s)
    (step : Within s s' ticket inside) (other : u.ticket ≠ ticket) : u.Sound s' := by
  have out {held : Bool} (gate : held = true → s.holder = some u.ticket) : held = false := by
    cases held with
    | false => rfl
    | true =>
        cases step.entitled with
        | inl free =>
            rw [free] at gate
            cases gate rfl
        | inr mine =>
            rw [mine] at gate
            exact absurd (Option.some.inj (gate rfl)).symm other
  cases u with
  | mk number work =>
      cases work with
      | launch l phase =>
          have outside := out sound.1
          exact ⟨fun held => absurd held (by simp [outside]), fits_outside outside, sound.2.2⟩
      | stop phase =>
          have outside := out sound
          exact fun held => absurd held (by simp [outside])
      | unplanned | event => trivial

/-- A container that ends or goes by itself disturbs no call. -/
theorem sound_event {u : Task m id} (sound : u.Sound s) (holder : s'.holder = s.holder)
    (fewer : ∀ c ∈ s'.engine.running, c ∈ s.engine.running)
    (known : s'.engine.known = s.engine.known) : u.Sound s' := by
  cases u with
  | mk number work =>
      cases work with
      | launch l phase =>
          obtain ⟨gate, fits, adopted⟩ := sound
          refine ⟨fun held => holder ▸ gate held, ?_, adopted⟩
          cases phase with
          | waiting | listing | answered => trivial
          | inspecting container =>
              obtain ⟨c, hc, named⟩ := fits
              exact ⟨c, known ▸ hc, named⟩
          | clearing | starting => exact fun c hc => fits c (fewer c hc)
      | stop phase => exact fun held => holder ▸ sound held
      | unplanned | event => trivial

end Steps

section Runs
variable {p q : Pool Gated (Task m id)}

/-- Calls are numbered in order, and each has what it needs where it stands. -/
structure Ordered (p : Pool Gated (Task m id)) : Prop where
  count : p.shared.calls = p.tasks.length
  numbered : ∀ i (t : Task m id), p.tasks[i]? = some t → t.ticket = i
  sound : ∀ t ∈ p.tasks, t.Sound p.shared

theorem Ordered.start (e : Engine) :
    Ordered (Pool.start ⟨e, none, 0⟩ : Pool Gated (Task m id)) :=
  ⟨rfl, by simp [Pool.start], by simp [Pool.start]⟩

/-- What a call needs before it has waited for anything. -/
theorem enter_spec {s s' : Gated} {t : Task m id} {c : Request}
    (h : enter m id s c = some (s', t)) :
    s'.calls = s.calls + 1 ∧ t.ticket = s.calls ∧ t.Sound s' ∧
      ∀ u : Task m id, u.Sound s → u.Sound s' := by
  cases c with
  | launch recipe overrides launchFor =>
      obtain ⟨w, entered, same⟩ := Option.map_eq_some_iff.mp h
      cases same
      refine ⟨rfl, rfl, ?_, fun u sound => sound_event sound rfl (fun _ hc => hc) rfl⟩
      unfold enterLaunch at entered
      split at entered
      · split at entered
        · cases entered
          trivial
        · split at entered
          · cases entered
            trivial
          · cases entered
            exact ⟨nofun, trivial, trivial⟩
      · cases entered
  | stop =>
      cases h
      exact ⟨rfl, rfl, nofun, fun u sound => sound_event sound rfl (fun _ hc => hc) rfl⟩
  | exit container =>
      cases h
      refine ⟨rfl, rfl, trivial, fun u sound => sound_event sound rfl ?_ (Engine.known_lower _ _)⟩
      exact fun _ hc => Engine.running_of_lower hc
  | remove container =>
      cases h
      refine ⟨rfl, rfl, trivial, fun u sound => sound_event sound rfl ?_ ?_⟩
      · exact fun _ hc => Engine.running_of_lower (Engine.running_of_lower hc)
      · simp only [Engine.known_lower]

/-- What a call comes to when what it waited for is there. -/
theorem resume_spec {s s' : Gated} {t t' : Task m id} {r : Reply} (sound : t.Sound s)
    (h : resume s t r = some (s', t')) :
    t'.ticket = t.ticket ∧ t'.Sound s' ∧ ∃ inside, Within s s' t.ticket inside := by
  unfold resume at h
  unfold Task.Sound at sound
  split at h
  · next l phase work =>
      obtain ⟨⟨g, after⟩, stepped, same⟩ := Option.map_eq_some_iff.mp h
      cases same
      rw [work] at sound
      have spec := launchStep_spec sound.1 sound.2.1 stepped
      exact ⟨rfl, ⟨spec.within.holds, spec.fits, spec.adopted⟩, _, spec.within⟩
  · next phase work =>
      obtain ⟨⟨g, after⟩, stepped, same⟩ := Option.map_eq_some_iff.mp h
      cases same
      rw [work] at sound
      have spec := stopStep_spec sound stepped
      exact ⟨rfl, spec.holds, _, spec⟩
  · cases h
  · cases h

theorem Ordered.step (ordered : Ordered p) {a : Act Request Reply}
    (h : (launcher m id).step p a = some q) : Ordered q := by
  cases a with
  | enter c =>
      obtain ⟨s, t, entered, rfl⟩ := Object.step_enter h
      obtain ⟨calls, ticket, sound, others⟩ := enter_spec entered
      refine ⟨?_, ?_, ?_⟩
      · simpa [ordered.count] using calls
      · intro i u hu
        rw [List.getElem?_append] at hu
        split at hu
        · exact ordered.numbered i u hu
        · next beyond =>
            obtain ⟨at_, rfl⟩ := List.getElem?_eq_some_iff.mp hu
            simp only [List.length_singleton] at at_
            simp only [List.getElem_singleton, ticket, ordered.count]
            omega
      · intro u hu
        cases List.mem_append.mp hu with
        | inl old => exact others u (ordered.sound u old)
        | inr new =>
            rw [List.mem_singleton.mp new]
            exact sound
  | resume i r =>
      obtain ⟨t, s, t', here, resumed, rfl⟩ := Object.step_resume h
      have soundHere := ordered.sound t (List.mem_of_getElem? here)
      obtain ⟨ticket, sound, inside, within⟩ := resume_spec soundHere resumed
      refine ⟨?_, ?_, ?_⟩
      · simpa [ordered.count] using within.calls
      · intro j u hu
        cases task_of_set hu with
        | inl same =>
            rw [same.2, ticket, same.1]
            exact ordered.numbered i t here
        | inr other => exact ordered.numbered j u other.2
      · intro u hu
        obtain ⟨j, hj⟩ := List.getElem?_of_mem hu
        cases task_of_set hj with
        | inl same =>
            rw [same.2]
            exact sound
        | inr other =>
            refine sound_aside (ordered.sound u (List.mem_of_getElem? other.2)) within ?_
            rw [ordered.numbered j u other.2, ordered.numbered i t here]
            exact other.1

theorem Ordered.run {as : List (Act Request Reply)} (ordered : Ordered p)
    (run : Run (launcher m id).step Free p as q) : Ordered q :=
  Run.invariant run ordered fun _ _ _ here _ h => here.step h

/-- What holds whenever launches and stops of one recipe go through one launcher. -/
structure Idempotent (p : Pool Gated (Task m id)) : Prop where
  /-- One solo container of the recipe runs, if any. -/
  single : ∀ c ∈ p.shared.engine.running, ∀ d ∈ p.shared.engine.running,
    c.name = containerName id.text .solo → d.name = containerName id.text .solo → c = d
  /-- What runs survives every step of a launch, and what it starts is such a
  container. -/
  survives : ∀ i r q t l phase, p.tasks[i]? = some t → t.work = .launch l phase →
    (launcher m id).step p (.resume i r) = some q →
    (∀ c ∈ p.shared.engine.running, c ∈ q.shared.engine.running) ∧
      ∀ c ∈ q.shared.engine.running, c ∈ p.shared.engine.running ∨
        c.name = containerName id.text .solo
  /-- A container a launch answers with is one that the engine knows by then. -/
  knows : ∀ i r q t l phase result c, p.tasks[i]? = some t → t.work = .launch l phase →
    (launcher m id).step p (.resume i r) = some q →
    q.tasks[i]?.map Task.work = some (.launch l (.answered result (some c))) →
    c ∈ p.shared.engine.known
  /-- It is of the launch's name and has its image, its command and every variable it
  sets. -/
  answers : ∀ t ∈ p.tasks, ∀ l started c,
    t.work = .launch l (.answered (.ok started) (some c)) →
    c.name = containerName id.text .solo ∧ c.image = l.plan.image ∧ c.cmd = l.plan.command ∧
      ∀ e ∈ l.plan.env, s!"{e.1}={e.2}" ∈ c.env.map fun f => s!"{f.1}={f.2}"

theorem Ordered.survives (ordered : Ordered p) {i : Nat} {r : Reply} {t : Task m id}
    {l : Planned m id} {phase : LaunchPhase} (here : p.tasks[i]? = some t)
    (work : t.work = .launch l phase) (h : (launcher m id).step p (.resume i r) = some q) :
    ∃ after, LaunchStepped p.shared q.shared t.ticket l after := by
  obtain ⟨t', s, u, at_, resumed, rfl⟩ := Object.step_resume h
  rw [here] at at_
  cases at_
  have sound := ordered.sound t (List.mem_of_getElem? here)
  unfold Task.Sound at sound
  rw [work] at sound
  simp only [launcher, resume, work, Option.map_eq_some_iff] at resumed
  obtain ⟨⟨g, after⟩, stepped, same⟩ := resumed
  cases same
  exact ⟨after, launchStep_spec sound.1 sound.2.1 stepped⟩

theorem knows_of_answer {i : Nat} {r : Reply} {t : Task m id} {l : Planned m id}
    {phase : LaunchPhase} {result : Except AgentError Started} {c : Container}
    (here : p.tasks[i]? = some t) (work : t.work = .launch l phase)
    (h : (launcher m id).step p (.resume i r) = some q)
    (answer : q.tasks[i]?.map Task.work = some (.launch l (.answered result (some c)))) :
    c ∈ p.shared.engine.known := by
  obtain ⟨t', s, u, at_, resumed, rfl⟩ := Object.step_resume h
  rw [here] at at_
  cases at_
  simp only [launcher, resume, work, Option.map_eq_some_iff] at resumed
  obtain ⟨⟨g, after⟩, stepped, same⟩ := resumed
  cases same
  rw [List.getElem?_set_self (List.getElem?_eq_some_iff.mp here).1] at answer
  cases answer
  exact launchStep_answered stepped

/-- However launches and stops of the recipe are interleaved and repeated, and
whatever containers there were. -/
theorem launch_idempotent (m : Machine) (id : RecipeId) (e : Engine)
    {as : List (Act Request Reply)} {p : Pool Gated (Task m id)}
    (run : Run (launcher m id).step Free (Pool.start ⟨e, none, 0⟩) as p) : Idempotent p where
  single c hc d hd named named' := Engine.running_name hc hd (named.trans named'.symm)
  survives i r q t l phase here work h := by
    obtain ⟨after, stepped⟩ := ((Ordered.start e).run run).survives here work h
    exact ⟨stepped.spares, l.plan_name ▸ stepped.starts⟩
  knows _ _ _ _ _ _ _ _ here work h answer := knows_of_answer here work h answer
  answers t ht l started c work := by
    have sound := ((Ordered.start e).run run).sound t ht
    unfold Task.Sound at sound
    rw [work] at sound
    obtain ⟨same, named⟩ := sound.2.2
    simp only [isSameLaunch, launchedAs, Bool.and_eq_true, List.all_eq_true,
      List.contains_iff_mem] at same
    have image : l.plan.image = c.image := of_decide_eq_true same.1.1
    exact ⟨named.trans l.plan_name, image.symm, of_decide_eq_true same.1.2, same.2⟩

end Runs

section Fixed

theorem edited_named (id : RecipeId) (recipe : Recipe)
    (h : some (⟨id, "qwen/qwen3", "2", .metrale, [], none⟩ : Recipe) = some recipe) :
    recipe.name = id := by
  cases h
  rfl

/-- A machine whose recipe once set a variable that its next version does not. -/
def editedMachine : Machine where
  node := 7
  resolve id := some ⟨id, "qwen/qwen3", "2", .metrale, [], none⟩
  named := edited_named
  canLaunch := .ok ()
  accelerator := "NVIDIA GB10"
  schema := plainMachine.schema
  rendering :=
    { plan := fun recipe _ => .ok ⟨containerName recipe.name.text .solo, "metrale:local", ["serve"],
        if recipe.recipeVersion = "1" then [("METRALE_DEBUG", "1")] else [],
        [(labelManaged, "1"), (labelRecipe, recipe.name.text)]⟩
      missingWeights := fun _ => none
      plan_name := by
        intro recipe overrides cmd h
        cases h
        rfl
      plan_labels := by
        intro recipe overrides cmd h
        cases h
        rfl }

def version (v : String) : Recipe := ⟨qwen, "qwen/qwen3", v, .metrale, [], none⟩

/-- A launch that finds nothing and starts a container, and one of the recipe's next
version that finds it. -/
def editedRun : List (Act Request Reply) :=
  [.enter (.launch (version "1") [] ⟨none, none, none⟩), .resume 0 .granted,
    .resume 0 (.listed none), .resume 0 (.cleared false), .resume 0 (.ran (some 5) [] none),
    .enter (.launch (version "2") [] ⟨none, none, none⟩), .resume 1 .granted,
    .resume 1 (.listed none), .resume 1 (.inspected none)]

theorem launch_idempotent_edited :
    ∃ p : Pool Gated (Task editedMachine qwen),
      Run (launcher editedMachine qwen).step Free (Pool.start ⟨.empty, none, 0⟩) editedRun p ∧
        Idempotent p := by
  have run : Run (launcher editedMachine qwen).step Free (Pool.start ⟨.empty, none, 0⟩)
      editedRun _ := Run.of_replay rfl
  exact ⟨_, run, launch_idempotent editedMachine qwen .empty run⟩

/-- The second launch answers with the first one's container, which has a variable
that its own command does not set: an image's variables would look the same. -/
theorem not_sameEnvironment :
    ∃ (m : Machine) (id : RecipeId) (as : List (Act Request Reply))
      (p : Pool Gated (Task m id)),
      Run (launcher m id).step Free (Pool.start ⟨.empty, none, 0⟩) as p ∧
        ∃ t ∈ p.tasks, ∃ l started c, t.work = .launch l (.answered (.ok started) (some c)) ∧
          c.env = [("METRALE_DEBUG", "1")] ∧ l.plan.env = [] := by
  refine ⟨editedMachine, qwen, editedRun, _, Run.of_replay rfl, _,
    List.mem_cons_of_mem _ (List.mem_singleton.mpr rfl), _, _, _, rfl, rfl, rfl⟩

end Fixed

end Gated

end Docker
end Metralectl
