import Metralectl.Rank.Reservation

/-!
What runs is what was prepared. Every container a commit starts is traced back
to the prepare that rendered it, and no prepare is traced to twice: the one
reservation is spent by the commit that takes it, whatever else happens between
the two critical sections of a prepare.
-/
namespace Metralectl
namespace Rank
open Runs Interleaving

/-- One `docker run`: which call executed it, for which epoch, and its command line. -/
structure DockerRun where
  task : Nat
  epoch : String
  argv : List String
deriving DecidableEq

/-- The service, with every call it received and everything it has run. -/
structure Journal where
  pool : State
  calls : List Call
  ran : List DockerRun

def Journal.start : Journal := ⟨idle, [], []⟩

def called : Action → List Call
  | .enter c => [c]
  | .resume _ _ => []

/-- A commit runs the command line of the plan it took. -/
def dockerRun (p : State) : Action → List DockerRun
  | .resume i (.ran _) =>
      match p.tasks[i]? with
      | some (.starting epoch plan) => [⟨i, epoch, plan.argv⟩]
      | _ => []
  | _ => []

def record (host : RankHost) (l : Journal) (a : Action) : Option Journal :=
  match (service host).step l.pool a with
  | some q => some ⟨q, l.calls ++ called a, l.ran ++ dockerRun l.pool a⟩
  | none => none

/-- Call `i` was a prepare of this epoch, was answered prepared, and `plan` is
what this machine renders for the assignment it received. -/
def Rendered (host : RankHost) (l : Journal) (i : Nat) (epoch : String) (plan : LaunchPlan) :
    Prop :=
  ∃ assignment, l.calls[i]? = some (.prepare epoch assignment) ∧
    l.pool.tasks[i]? = some (.prepared epoch .prepared) ∧ host.planFor assignment = .ok plan

/-- A run is the run of a commit of its epoch, and its command line the one that
call `i` rendered for that epoch. -/
def RunOf (host : RankHost) (l : Journal) (i : Nat) (d : DockerRun) : Prop :=
  l.calls[d.task]? = some (.commit d.epoch) ∧
    ∃ plan, Rendered host l i d.epoch plan ∧ d.argv = plan.argv

/-- A commit and an abort of another epoch leave what is held alone. -/
def Spared (host : RankHost) (p : State) : Prop :=
  ∀ r, p.shared.reserved = some r → ∀ epoch, epoch ≠ r.epoch →
    ∀ c ∈ [Call.commit epoch, Call.abort epoch], ∃ t,
      (service host).step p (.enter c) = some ⟨p.shared, p.tasks ++ [t]⟩

/-- The phases a call goes through. -/
def PhaseOf : Call → Task → Prop
  | .prepare epoch assignment, .probing e a => e = epoch ∧ a = assignment
  | .prepare epoch _, .prepared e _ => e = epoch
  | .commit epoch, .starting e _ => e = epoch
  | .commit epoch, .committed e _ => e = epoch
  | .abort _, .finished => True
  | .tick _, .finished => True
  | _, _ => False

/-- Neither a rendered prepare nor a commit with something to run. -/
def Idles (t : Task) : Prop :=
  (∀ epoch, t ≠ .prepared epoch .prepared) ∧ ∀ epoch plan, t ≠ .starting epoch plan

/-- What one segment of one call does to the journal. -/
inductive Turn (host : RankHost) (l l' : Journal) : Prop
  | entered {c t} : l'.calls = l.calls ++ [c] → l'.pool.tasks = l.pool.tasks ++ [t] →
      PhaseOf c t → Idles t →
      (l'.pool.shared.reserved = l.pool.shared.reserved ∨ l'.pool.shared.reserved = none) →
      l'.ran = l.ran → Turn host l l'
  | took {r} : l.pool.shared.reserved = some r → l'.calls = l.calls ++ [Call.commit r.epoch] →
      l'.pool.tasks = l.pool.tasks ++ [Task.starting r.epoch r.plan] →
      l'.pool.shared.reserved = none → l'.ran = l.ran → Turn host l l'
  | refused {i epoch assignment reason} : l.pool.tasks[i]? = some (.probing epoch assignment) →
      l'.calls = l.calls → l'.pool.tasks = l.pool.tasks.set i (.prepared epoch (.refused reason)) →
      l'.pool.shared.reserved = l.pool.shared.reserved → l'.ran = l.ran → Turn host l l'
  | stored {i epoch assignment plan now} : l.pool.tasks[i]? = some (.probing epoch assignment) →
      host.planFor assignment = .ok plan →
      l'.calls = l.calls → l'.pool.tasks = l.pool.tasks.set i (.prepared epoch .prepared) →
      l'.pool.shared.reserved = some (reserve epoch assignment plan now) → l'.ran = l.ran →
      Turn host l l'
  | ran {i epoch plan reply} : l.pool.tasks[i]? = some (.starting epoch plan) →
      l'.calls = l.calls → l'.pool.tasks = l.pool.tasks.set i (.committed epoch reply) →
      l'.pool.shared.reserved = l.pool.shared.reserved →
      l'.ran = l.ran ++ [⟨i, epoch, plan.argv⟩] → Turn host l l'

theorem idles_refused {epoch reason : String} : Idles (.prepared epoch (.refused reason)) :=
  ⟨fun _ => refused_ne_prepared, fun _ _ => Task.noConfusion⟩

theorem enter_turn {host : RankHost} {l : Journal} {c : Call} {s : Shared} {t : Task}
    (h : enter host l.pool.shared c = some (s, t)) :
    Turn host l ⟨⟨s, l.pool.tasks ++ [t]⟩, l.calls ++ [c], l.ran ++ []⟩ := by
  cases c with
  | prepare epoch assignment =>
      simp only [enter] at h
      cases hcheck : host.check l.pool.shared.reserved l.pool.shared.now epoch with
      | error reply =>
          rw [hcheck] at h
          cases h
          obtain ⟨reason, rfl⟩ := check_error hcheck
          exact .entered rfl rfl rfl idles_refused (Or.inl rfl) (List.append_nil _)
      | ok slot =>
          rw [hcheck] at h
          cases h
          have idles : Idles (.probing epoch assignment) :=
            ⟨fun _ => Task.noConfusion, fun _ _ => Task.noConfusion⟩
          refine .entered rfl rfl ⟨rfl, rfl⟩ idles ?_ (List.append_nil _)
          cases check_ok hcheck with
          | inl same => exact Or.inl same
          | inr lapsed =>
              obtain ⟨_, _, _, none_⟩ := lapsed
              exact Or.inr none_
  | commit epoch =>
      simp only [enter, takeReserved] at h
      have idles (e : Except String String) : Idles (.committed epoch e) :=
        ⟨fun _ => Task.noConfusion, fun _ _ => Task.noConfusion⟩
      cases hslot : l.pool.shared.reserved with
      | none =>
          rw [hslot] at h
          cases h
          exact .entered rfl rfl rfl (idles _) (Or.inl rfl) (List.append_nil _)
      | some r =>
          simp only [hslot] at h
          by_cases same : r.epoch = epoch
          · rw [if_pos same] at h
            cases h
            subst same
            exact .took hslot rfl rfl rfl (List.append_nil _)
          · rw [if_neg same] at h
            cases h
            exact .entered rfl rfl rfl (idles _) (Or.inl rfl) (List.append_nil _)
  | abort epoch =>
      cases h
      have idles : Idles .finished := ⟨fun _ => Task.noConfusion, fun _ _ => Task.noConfusion⟩
      refine .entered rfl rfl trivial idles ?_ (List.append_nil _)
      simp only [releaseReserved]
      split
      · exact Or.inr rfl
      · exact Or.inl rfl
  | tick elapsed =>
      cases h
      have idles : Idles .finished := ⟨fun _ => Task.noConfusion, fun _ _ => Task.noConfusion⟩
      exact .entered rfl rfl trivial idles (Or.inl rfl) (List.append_nil _)

theorem resume_turn {host : RankHost} {l : Journal} {i : Nat} {rep : Reply} {s : Shared}
    {t t' : Task} (ht : l.pool.tasks[i]? = some t)
    (h : resume host l.pool.shared t rep = some (s, t')) :
    Turn host l ⟨⟨s, l.pool.tasks.set i t'⟩, l.calls ++ [],
      l.ran ++ dockerRun l.pool (.resume i rep)⟩ := by
  cases t with
  | prepared | committed | finished => cases rep <;> cases h
  | starting epoch plan =>
      cases rep with
      | probed => cases h
      | ran outcome =>
          cases h
          refine .ran ht (List.append_nil _) rfl rfl ?_
          simp only [dockerRun, ht]
  | probing epoch assignment =>
      cases rep with
      | ran => cases h
      | probed dockerOk canReach =>
          simp only [resume] at h
          cases hprobe : host.probe assignment dockerOk canReach with
          | error reply =>
              rw [hprobe] at h
              cases h
              obtain ⟨reason, rfl⟩ := probe_error hprobe
              exact .refused ht (List.append_nil _) rfl rfl (List.append_nil _)
          | ok plan =>
              rw [hprobe] at h
              cases h
              exact .stored ht (probe_ok hprobe) (List.append_nil _) rfl rfl (List.append_nil _)

theorem record_turn {host : RankHost} {l l' : Journal} {a : Action}
    (h : record host l a = some l') : Turn host l l' := by
  simp only [record] at h
  split at h
  · next q did =>
      cases h
      cases a with
      | enter c =>
          obtain ⟨s, t, he, rfl⟩ := Object.step_enter did
          exact enter_turn he
      | resume i rep =>
          obtain ⟨t, s, t', ht, hr, rfl⟩ := Object.step_resume did
          exact resume_turn ht hr
  · cases h

/-- Calls are kept, and so are answers of prepared. -/
structure Later (l l' : Journal) : Prop where
  calls : ∀ (i : Nat) c, l.calls[i]? = some c → l'.calls[i]? = some c
  prepared : ∀ (i : Nat) epoch, l.pool.tasks[i]? = some (.prepared epoch .prepared) →
    l'.pool.tasks[i]? = some (.prepared epoch .prepared)

section Keeps
variable {host : RankHost} {l l' : Journal}

theorem get_append {T : Type} {ts : List T} {i : Nat} {t : T} (h : ts[i]? = some t) (u : T) :
    (ts ++ [u])[i]? = some t := by
  obtain ⟨bound, _⟩ := List.getElem?_eq_some_iff.mp h
  rw [List.getElem?_append_left bound, h]

theorem get_set {T : Type} {ts : List T} {i j : Nat} {t u : T} (h : ts[j]? = some t)
    (apart : j ≠ i) : (ts.set i u)[j]? = some t := by
  rw [List.getElem?_set_ne apart.symm, h]

theorem get_set_self {T : Type} {ts : List T} {i : Nat} {t : T} (h : ts[i]? = some t) (u : T) :
    (ts.set i u)[i]? = some u := by
  obtain ⟨bound, _⟩ := List.getElem?_eq_some_iff.mp h
  exact List.getElem?_set_self bound

theorem prepared_set {i : Nat} {t u : Task} (at_ : l.pool.tasks[i]? = some t)
    (unprepared : ∀ epoch, t ≠ .prepared epoch .prepared)
    (tasks : l'.pool.tasks = l.pool.tasks.set i u) (j : Nat) (epoch : String)
    (h : l.pool.tasks[j]? = some (.prepared epoch .prepared)) :
    l'.pool.tasks[j]? = some (.prepared epoch .prepared) := by
  rw [tasks]
  refine get_set h ?_
  rintro rfl
  exact unprepared epoch (Option.some.inj (at_.symm.trans h))

theorem Turn.later (turn : Turn host l l') : Later l l' := by
  cases turn with
  | entered calls tasks | took _ calls tasks =>
      refine ⟨fun i c h => ?_, fun i epoch h => ?_⟩
      · rw [calls]
        exact get_append h _
      · rw [tasks]
        exact get_append h _
  | refused at_ calls tasks | stored at_ _ calls tasks | ran at_ calls tasks =>
      refine ⟨fun i c h => ?_, prepared_set at_ (fun _ => Task.noConfusion) tasks⟩
      rw [calls]
      exact h

theorem Rendered.later {i : Nat} {epoch : String} {plan : LaunchPlan}
    (h : Rendered host l i epoch plan) (later : Later l l') : Rendered host l' i epoch plan := by
  obtain ⟨assignment, call, answer, made⟩ := h
  exact ⟨assignment, later.calls i _ call, later.prepared i _ answer, made⟩

theorem RunOf.later {i : Nat} {d : DockerRun} (h : RunOf host l i d) (later : Later l l') :
    RunOf host l' i d := by
  obtain ⟨call, plan, rendered, same⟩ := h
  exact ⟨later.calls _ _ call, plan, rendered.later later, same⟩

/-- Calls and tasks go by the same positions, each task in a phase of its call. -/
structure Paired (l : Journal) : Prop where
  aligned : l.calls.length = l.pool.tasks.length
  phases : ∀ (i : Nat) c t, l.calls[i]? = some c → l.pool.tasks[i]? = some t → PhaseOf c t

theorem Paired.append {c : Call} {t : Task} (h : Paired l) (calls : l'.calls = l.calls ++ [c])
    (tasks : l'.pool.tasks = l.pool.tasks ++ [t]) (phase : PhaseOf c t) : Paired l' := by
  refine ⟨by rw [calls, tasks, List.length_append, List.length_append, h.aligned]; rfl, ?_⟩
  intro i c' t' hc ht
  rw [calls] at hc
  rw [tasks] at ht
  by_cases old : i < l.calls.length
  · rw [List.getElem?_append_left old] at hc
    rw [List.getElem?_append_left (h.aligned ▸ old)] at ht
    exact h.phases i c' t' hc ht
  · have last : i = l.calls.length := by
      have := (List.getElem?_eq_some_iff.mp hc).1
      simp only [List.length_append, List.length_singleton] at this
      omega
    subst last
    rw [List.getElem?_concat_length] at hc
    rw [h.aligned, List.getElem?_concat_length] at ht
    cases hc
    cases ht
    exact phase

theorem Paired.set {i : Nat} {t u : Task} (h : Paired l) (at_ : l.pool.tasks[i]? = some t)
    (calls : l'.calls = l.calls) (tasks : l'.pool.tasks = l.pool.tasks.set i u)
    (phase : ∀ c, PhaseOf c t → PhaseOf c u) : Paired l' := by
  refine ⟨by rw [calls, tasks, List.length_set, h.aligned], ?_⟩
  intro j c t' hc ht
  rw [calls] at hc
  rw [tasks] at ht
  cases task_of_set ht with
  | inl here =>
      obtain ⟨rfl, rfl⟩ := here
      exact phase c (h.phases j c t hc at_)
  | inr there => exact h.phases j c t' hc there.2

theorem Paired.call {i : Nat} {t : Task} (h : Paired l) (at_ : l.pool.tasks[i]? = some t) :
    ∃ c, l.calls[i]? = some c ∧ PhaseOf c t := by
  obtain ⟨bound, _⟩ := List.getElem?_eq_some_iff.mp at_
  have here := List.getElem?_eq_getElem (h.aligned ▸ bound)
  exact ⟨_, here, h.phases i _ t here at_⟩

theorem Paired.prepare {i : Nat} {epoch : String} {assignment : RankAssignment} (h : Paired l)
    (at_ : l.pool.tasks[i]? = some (.probing epoch assignment)) :
    l.calls[i]? = some (.prepare epoch assignment) := by
  obtain ⟨c, call, phase⟩ := h.call at_
  cases c with
  | prepare =>
      rw [call, phase.1, phase.2]
  | commit | abort | tick => cases phase

theorem Paired.commit {i : Nat} {epoch : String} {plan : LaunchPlan} (h : Paired l)
    (at_ : l.pool.tasks[i]? = some (.starting epoch plan)) :
    l.calls[i]? = some (.commit epoch) := by
  obtain ⟨c, call, phase⟩ := h.call at_
  cases c with
  | commit =>
      cases phase
      exact call
  | prepare | abort | tick => cases phase

theorem Turn.paired (turn : Turn host l l') (h : Paired l) : Paired l' := by
  cases turn with
  | entered calls tasks phase => exact h.append calls tasks phase
  | took _ calls tasks => exact h.append calls tasks rfl
  | refused at_ calls tasks | stored at_ _ calls tasks =>
      refine h.set at_ calls tasks ?_
      intro c phase
      cases c with
      | prepare => exact phase.1
      | commit | abort | tick => cases phase
  | ran at_ calls tasks =>
      refine h.set at_ calls tasks ?_
      intro c phase
      cases c with
      | commit => exact phase
      | prepare | abort | tick => cases phase

end Keeps

/-- Every commit that took something has a prepare of its own, and so has what
is held. `source` gives the position of the prepare for that of the commit. -/
structure Authentic (host : RankHost) (l : Journal) (source : Nat → Option Nat) : Prop where
  paired : Paired l
  known : ∀ j i, source j = some i → j < l.calls.length ∧
    ∃ epoch, l.pool.tasks[i]? = some (.prepared epoch .prepared)
  apart : ∀ j j' i, source j = some i → source j' = some i → j = j'
  held : ∀ r, l.pool.shared.reserved = some r →
    ∃ i, Rendered host l i r.epoch r.plan ∧ ∀ j, source j ≠ some i
  starting : ∀ (j : Nat) epoch plan, l.pool.tasks[j]? = some (.starting epoch plan) →
    ∃ i, source j = some i ∧ Rendered host l i epoch plan
  ran : ∀ d ∈ l.ran, ∃ i, source d.task = some i ∧ RunOf host l i d
  spent : ∀ d ∈ l.ran, ∀ epoch plan, l.pool.tasks[d.task]? ≠ some (.starting epoch plan)
  once : (l.ran.map (·.task)).Nodup

section Turns
variable {host : RankHost} {l l' : Journal} {source : Nat → Option Nat}

/-- A call that has not been made has no source. -/
theorem Authentic.fresh (h : Authentic host l source) : source l.calls.length = none := by
  cases hs : source l.calls.length with
  | none => rfl
  | some i => exact absurd (h.known _ i hs).1 (Nat.lt_irrefl _)

/-- A position that holds anything but an answer of prepared is nobody's source. -/
theorem Authentic.unused (h : Authentic host l source) {i : Nat} {t : Task}
    (at_ : l.pool.tasks[i]? = some t) (unprepared : ∀ epoch, t ≠ .prepared epoch .prepared)
    (j : Nat) : source j ≠ some i := by
  intro hs
  obtain ⟨_, epoch, answer⟩ := h.known j i hs
  exact unprepared epoch (Option.some.inj (at_.symm.trans answer))

/-- A position of a run is one of a call. -/
theorem Authentic.ran_bound (h : Authentic host l source) {d : DockerRun} (hd : d ∈ l.ran) :
    d.task < l.calls.length := by
  obtain ⟨i, hs, _⟩ := h.ran d hd
  exact (h.known _ i hs).1

theorem starting_of_append {t : Task} (tasks : l'.pool.tasks = l.pool.tasks ++ [t]) {j : Nat}
    {epoch : String} {plan : LaunchPlan} (ht : l'.pool.tasks[j]? = some (.starting epoch plan)) :
    l.pool.tasks[j]? = some (.starting epoch plan) ∨
      j = l.pool.tasks.length ∧ t = .starting epoch plan := by
  rw [tasks, List.getElem?_append] at ht
  split at ht
  · exact Or.inl ht
  · obtain ⟨bound, same⟩ := List.getElem?_eq_some_iff.mp ht
    rw [List.length_singleton] at bound
    exact Or.inr ⟨by omega, by simpa using same⟩

theorem starting_of_set {i : Nat} {u : Task} (tasks : l'.pool.tasks = l.pool.tasks.set i u)
    (idle : ∀ epoch plan, u ≠ .starting epoch plan) {j : Nat} {epoch : String} {plan : LaunchPlan}
    (ht : l'.pool.tasks[j]? = some (.starting epoch plan)) :
    j ≠ i ∧ l.pool.tasks[j]? = some (.starting epoch plan) := by
  rw [tasks] at ht
  cases task_of_set ht with
  | inl here => exact absurd here.2.symm (idle epoch plan)
  | inr there => exact there

/-- What a turn that neither takes nor stores nor runs keeps. -/
theorem Authentic.idle (h : Authentic host l source) (turn : Turn host l l')
    (grown : l.calls.length ≤ l'.calls.length)
    (slot : l'.pool.shared.reserved = l.pool.shared.reserved ∨ l'.pool.shared.reserved = none)
    (ran : l'.ran = l.ran)
    (idle : ∀ (j : Nat) epoch plan, l'.pool.tasks[j]? = some (.starting epoch plan) →
      l.pool.tasks[j]? = some (.starting epoch plan)) : Authentic host l' source := by
  have later := turn.later
  refine ⟨turn.paired h.paired, ?_, h.apart, ?_, ?_, ?_, ?_, ran ▸ h.once⟩
  · intro j i hs
    obtain ⟨bound, epoch, answer⟩ := h.known j i hs
    exact ⟨Nat.lt_of_lt_of_le bound grown, epoch, later.prepared i epoch answer⟩
  · intro r hr
    cases slot with
    | inl same =>
        obtain ⟨i, rendered, unused⟩ := h.held r (same ▸ hr)
        exact ⟨i, rendered.later later, unused⟩
    | inr none_ =>
        rw [none_] at hr
        cases hr
  · intro j epoch plan ht
    obtain ⟨i, hs, rendered⟩ := h.starting j epoch plan (idle j epoch plan ht)
    exact ⟨i, hs, rendered.later later⟩
  · intro d hd
    obtain ⟨i, hs, run⟩ := h.ran d (ran ▸ hd)
    exact ⟨i, hs, run.later later⟩
  · intro d hd epoch plan ht
    exact h.spent d (ran ▸ hd) epoch plan (idle _ epoch plan ht)

/-- A commit takes over the prepare behind the slot. -/
theorem Authentic.take {r : Reservation} (h : Authentic host l source) (turn : Turn host l l')
    (slot : l.pool.shared.reserved = some r) (calls : l'.calls = l.calls ++ [Call.commit r.epoch])
    (tasks : l'.pool.tasks = l.pool.tasks ++ [Task.starting r.epoch r.plan])
    (cleared : l'.pool.shared.reserved = none) (ran : l'.ran = l.ran) :
    ∃ i, Authentic host l' (Function.update source l.calls.length (some i)) := by
  have later := turn.later
  obtain ⟨i, rendered, unused⟩ := h.held r slot
  have old {j : Nat} (bound : j < l.calls.length) :
      Function.update source l.calls.length (some i) j = source j :=
    Function.update_of_ne (Nat.ne_of_lt bound) _ _
  have source_cases {j k : Nat}
      (hs : Function.update source l.calls.length (some i) j = some k) :
      j = l.calls.length ∧ k = i ∨ source j = some k := by
    by_cases last : j = l.calls.length
    · subst last
      rw [Function.update_self] at hs
      exact Or.inl ⟨rfl, (Option.some.inj hs).symm⟩
    · rw [Function.update_of_ne last] at hs
      exact Or.inr hs
  refine ⟨i, turn.paired h.paired, ?_, ?_, ?_, ?_, ?_, ?_, ran ▸ h.once⟩
  · intro j k hs
    rw [calls, List.length_append, List.length_singleton]
    cases source_cases hs with
    | inl here =>
        obtain ⟨rfl, rfl⟩ := here
        obtain ⟨_, _, answer, _⟩ := rendered.later later
        exact ⟨Nat.lt_succ_self _, r.epoch, answer⟩
    | inr there =>
        obtain ⟨bound, epoch, answer⟩ := h.known j k there
        exact ⟨Nat.lt_succ_of_lt bound, epoch, later.prepared k epoch answer⟩
  · intro j j' k hs hs'
    cases source_cases hs with
    | inl here =>
        cases source_cases hs' with
        | inl here' => exact here.1.trans here'.1.symm
        | inr there' => exact absurd (here.2 ▸ there') (unused j')
    | inr there =>
        cases source_cases hs' with
        | inl here' => exact absurd (here'.2 ▸ there) (unused j)
        | inr there' => exact h.apart j j' k there there'
  · intro r' hr'
    rw [cleared] at hr'
    cases hr'
  · intro j epoch plan ht
    cases starting_of_append tasks ht with
    | inl before =>
        obtain ⟨k, hs, rendered'⟩ := h.starting j epoch plan before
        exact ⟨k, (old (h.known j k hs).1).trans hs, rendered'.later later⟩
    | inr here =>
        obtain ⟨rfl, same⟩ := here
        cases same
        rw [← h.paired.aligned]
        exact ⟨i, Function.update_self .., rendered.later later⟩
  · intro d hd
    obtain ⟨k, hs, run⟩ := h.ran d (ran ▸ hd)
    exact ⟨k, (old (h.known _ k hs).1).trans hs, run.later later⟩
  · intro d hd epoch plan ht
    rw [ran] at hd
    cases starting_of_append tasks ht with
    | inl before => exact h.spent d hd epoch plan before
    | inr here =>
        have bound := h.ran_bound hd
        have := h.paired.aligned
        omega

/-- A prepare that stores is behind the slot, and behind nothing else. -/
theorem Authentic.store {i now : Nat} {epoch : String} {assignment : RankAssignment}
    {plan : LaunchPlan} (h : Authentic host l source) (turn : Turn host l l')
    (at_ : l.pool.tasks[i]? = some (.probing epoch assignment))
    (made : host.planFor assignment = .ok plan) (calls : l'.calls = l.calls)
    (tasks : l'.pool.tasks = l.pool.tasks.set i (.prepared epoch .prepared))
    (slot : l'.pool.shared.reserved = some (reserve epoch assignment plan now))
    (ran : l'.ran = l.ran) : Authentic host l' source := by
  have later := turn.later
  have idle : ∀ (j : Nat) e p, l'.pool.tasks[j]? = some (.starting e p) →
      l.pool.tasks[j]? = some (.starting e p) := by
    intro j e p ht
    exact (starting_of_set tasks (fun _ _ => Task.noConfusion) ht).2
  refine ⟨turn.paired h.paired, ?_, h.apart, ?_, ?_, ?_, ?_, ran ▸ h.once⟩
  · intro j k hs
    obtain ⟨bound, e, answer⟩ := h.known j k hs
    exact ⟨calls ▸ bound, e, later.prepared k e answer⟩
  · intro r hr
    rw [slot] at hr
    cases hr
    refine ⟨i, ⟨assignment, calls ▸ h.paired.prepare at_, ?_, made⟩,
      h.unused at_ fun _ => Task.noConfusion⟩
    rw [tasks]
    exact get_set_self at_ _
  · intro j e p ht
    obtain ⟨k, hs, rendered⟩ := h.starting j e p (idle j e p ht)
    exact ⟨k, hs, rendered.later later⟩
  · intro d hd
    obtain ⟨k, hs, run⟩ := h.ran d (ran ▸ hd)
    exact ⟨k, hs, run.later later⟩
  · intro d hd e p ht
    exact h.spent d (ran ▸ hd) e p (idle _ e p ht)

/-- A run is traced to the prepare behind its commit. -/
theorem Authentic.run {i : Nat} {epoch : String} {plan : LaunchPlan}
    {reply : Except String String} (h : Authentic host l source) (turn : Turn host l l')
    (at_ : l.pool.tasks[i]? = some (.starting epoch plan)) (calls : l'.calls = l.calls)
    (tasks : l'.pool.tasks = l.pool.tasks.set i (.committed epoch reply))
    (slot : l'.pool.shared.reserved = l.pool.shared.reserved)
    (ran : l'.ran = l.ran ++ [⟨i, epoch, plan.argv⟩]) : Authentic host l' source := by
  have later := turn.later
  have left : ∀ (j : Nat) e p, l'.pool.tasks[j]? = some (.starting e p) →
      j ≠ i ∧ l.pool.tasks[j]? = some (.starting e p) := by
    intro j e p ht
    exact starting_of_set tasks (fun _ _ => Task.noConfusion) ht
  refine ⟨turn.paired h.paired, ?_, h.apart, ?_, ?_, ?_, ?_, ?_⟩
  · intro j k hs
    obtain ⟨bound, e, answer⟩ := h.known j k hs
    exact ⟨calls ▸ bound, e, later.prepared k e answer⟩
  · intro r hr
    obtain ⟨k, rendered, unused⟩ := h.held r (slot ▸ hr)
    exact ⟨k, rendered.later later, unused⟩
  · intro j e p ht
    obtain ⟨k, hs, rendered⟩ := h.starting j e p (left j e p ht).2
    exact ⟨k, hs, rendered.later later⟩
  · intro d hd
    rw [ran] at hd
    cases List.mem_append.mp hd with
    | inl old =>
        obtain ⟨k, hs, run⟩ := h.ran d old
        exact ⟨k, hs, run.later later⟩
    | inr new =>
        obtain ⟨k, hs, rendered⟩ := h.starting i epoch plan at_
        rw [List.mem_singleton.mp new]
        exact ⟨k, hs, calls ▸ h.paired.commit at_, plan, rendered.later later, rfl⟩
  · intro d hd e p ht
    obtain ⟨away, before⟩ := left d.task e p ht
    rw [ran] at hd
    cases List.mem_append.mp hd with
    | inl old => exact h.spent d old e p before
    | inr new => exact away (congrArg DockerRun.task (List.mem_singleton.mp new))
  · rw [ran, List.map_append, List.nodup_append]
    refine ⟨h.once, List.nodup_singleton _, ?_⟩
    intro j hj k hk same
    obtain ⟨d, hd, rfl⟩ := List.mem_map.mp hj
    have last : k = i := by simpa using hk
    exact h.spent d hd epoch plan ((same.trans last) ▸ at_)

/-- One turn keeps every run traced to a prepare of its own. -/
theorem Authentic.turn (h : Authentic host l source) (turn : Turn host l l') :
    ∃ source', Authentic host l' source' := by
  cases turn with
  | entered calls tasks phase idles slot ran =>
      have grown : l.calls.length ≤ l'.calls.length := by
        rw [calls, List.length_append]
        exact Nat.le_add_right _ _
      refine ⟨source, h.idle (.entered calls tasks phase idles slot ran) grown slot ran ?_⟩
      intro j epoch plan ht
      cases starting_of_append tasks ht with
      | inl old => exact old
      | inr new => exact absurd new.2 (idles.2 epoch plan)
  | refused at_ calls tasks slot ran =>
      refine ⟨source, h.idle (.refused at_ calls tasks slot ran) (by rw [calls]) (Or.inl slot) ran ?_⟩
      intro j epoch plan ht
      exact (starting_of_set tasks (fun _ _ => Task.noConfusion) ht).2
  | took slot calls tasks cleared ran =>
      obtain ⟨i, taken⟩ := h.take (.took slot calls tasks cleared ran) slot calls tasks cleared ran
      exact ⟨_, taken⟩
  | stored at_ made calls tasks slot ran =>
      exact ⟨source, h.store (.stored at_ made calls tasks slot ran) at_ made calls tasks slot ran⟩
  | ran at_ calls tasks slot ran =>
      exact ⟨source, h.run (.ran at_ calls tasks slot ran) at_ calls tasks slot ran⟩

end Turns

theorem spared (host : RankHost) (p : State) : Spared host p := by
  intro r hr epoch other c hc
  have away : ¬ r.epoch = epoch := fun same => other same.symm
  simp only [List.mem_cons, List.not_mem_nil, or_false] at hc
  cases hc with
  | inl commit =>
      subst commit
      have refused : enter host p.shared (.commit epoch) = some (p.shared, .committed epoch (.error
          s!"this node is holding a reservation for {r.epoch}, not {epoch}")) := by
        simp only [enter, takeReserved, hr, if_neg away]
      exact ⟨_, Object.enter_step refused⟩
  | inr abort =>
      subst abort
      have kept : enter host p.shared (.abort epoch) = some (p.shared, .finished) := by
        simp only [enter, releaseReserved, hr, Option.any_some, away, decide_false,
          Bool.false_eq_true, if_false]
        rw [← hr]
      exact ⟨_, Object.enter_step kept⟩

theorem authentic_start (host : RankHost) : Authentic host .start fun _ => none := by
  refine ⟨⟨rfl, ?_⟩, ?_, ?_, ?_, ?_, ?_, ?_, List.nodup_nil⟩
  · intro i c t hc
    cases hc
  · intro j i hs
    cases hs
  · intro j j' i hs
    cases hs
  · intro r hr
    cases hr
  · intro j epoch plan ht
    cases ht
  · intro d hd
    cases hd
  · intro d hd
    cases hd

/-- Whatever order the calls and their segments come in, each container a commit
runs has a prepare of its own, which was answered prepared and rendered exactly
that command line; and what is held is safe from other epochs. -/
theorem ran_prepared (host : RankHost) (as : List Action) (l : Journal)
    (run : Run (record host) Free .start as l) :
    (∃ source : DockerRun → Nat, (∀ d ∈ l.ran, RunOf host l (source d) d) ∧
      ∀ d ∈ l.ran, ∀ d' ∈ l.ran, source d = source d' → d = d') ∧ l.ran.Nodup ∧
      Spared host l.pool := by
  have ⟨source, h⟩ : ∃ source, Authentic host l source :=
    Run.invariant (I := fun l => ∃ source, Authentic host l source) run
      ⟨_, authentic_start host⟩ fun _ _ _ ⟨_, h⟩ _ hstep => h.turn (record_turn hstep)
  refine ⟨⟨fun d => (source d.task).getD 0, ?_, ?_⟩, h.once.of_map _, ?_⟩
  · intro d hd
    obtain ⟨i, hs, run⟩ := h.ran d hd
    simpa only [hs, Option.getD_some] using run
  · intro d hd d' hd' same
    obtain ⟨i, hs, _⟩ := h.ran d hd
    obtain ⟨i', hs', _⟩ := h.ran d' hd'
    simp only [hs, hs', Option.getD_some] at same
    have task : d.task = d'.task := h.apart _ _ i hs (same ▸ hs')
    exact List.inj_on_of_nodup_map h.once hd hd' task
  · exact spared host l.pool

section Fixed

/-- A rank is prepared again under its epoch, and then committed twice. -/
def retried : List Action :=
  [.enter (.prepare "e1" rankOne), .resume 0 (.probed true true),
    .enter (.prepare "e1" { rankOne with rank := 2 }), .resume 1 (.probed true true),
    .enter (.commit "e1"), .enter (.commit "e1"), .resume 2 (.ran .ran)]

/-- One container is run, and no other. -/
theorem ran_prepared_retried :
    ∃ l, l.ran = [⟨2, "e1", ["docker", "run"]⟩] ∧
      ∃ source : DockerRun → Nat, ∀ d ∈ l.ran, RunOf spark l (source d) d := by
  have run : Run (record spark) Free .start retried _ := Run.of_replay rfl
  obtain ⟨⟨source, each, _⟩, _⟩ := ran_prepared spark retried _ run
  exact ⟨_, rfl, source, each⟩

end Fixed

end Rank
end Metralectl
