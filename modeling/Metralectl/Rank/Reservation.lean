import Metralectl.Library.Interleaving
import Metralectl.Rank.RankService

/-!
The reservation of one rank under interleaved calls. `prepare` tests the slot in
one critical section and stores into it in another, with the runtime, the
rendezvous and the rendering between them. The second section does not look
again; everything below is about the runs in which looking again would have
made no difference.
-/
namespace Metralectl
namespace Rank
open Runs Interleaving

inductive Call where
  | prepare (epoch : String) (assignment : RankAssignment)
  | commit (epoch : String)
  | abort (epoch : String)
  | tick (elapsed : Nat)
deriving DecidableEq

/-- What a call waits for outside the lock. -/
inductive Reply where
  | probed (dockerOk canReach : Bool)
  | ran (outcome : RunOutcome)
deriving DecidableEq

inductive Task where
  | probing (epoch : String) (assignment : RankAssignment)
  | prepared (epoch : String) (reply : PrepareReply)
  | starting (epoch : String) (plan : LaunchPlan)
  | committed (epoch : String) (reply : Except String String)
  | finished
deriving DecidableEq

structure Shared where
  reserved : Option Reservation
  now : Nat
deriving DecidableEq

def enter (host : RankHost) (s : Shared) : Call → Option (Shared × Task)
  | .prepare epoch assignment =>
      match host.check s.reserved s.now epoch with
      | .error reply => some (s, .prepared epoch reply)
      | .ok slot => some ({ s with reserved := slot }, .probing epoch assignment)
  | .commit epoch =>
      match takeReserved s.reserved epoch with
      | .error e => some (s, .committed epoch (.error e))
      | .ok r => some ({ s with reserved := none }, .starting epoch r.plan)
  | .abort epoch => some ({ s with reserved := releaseReserved s.reserved epoch }, .finished)
  | .tick elapsed => some ({ s with now := s.now + elapsed }, .finished)

def resume (host : RankHost) (s : Shared) : Task → Reply → Option (Shared × Task)
  | .probing epoch assignment, .probed dockerOk canReach =>
      match host.probe assignment dockerOk canReach with
      | .error reply => some (s, .prepared epoch reply)
      | .ok plan =>
          some ({ s with reserved := some (reserve epoch assignment plan s.now) },
            .prepared epoch .prepared)
  | .starting epoch plan, .ran outcome => some (s, .committed epoch (commitReply plan outcome))
  | _, _ => none

def service (host : RankHost) : Object Shared Task Call Reply := ⟨enter host, resume host⟩

abbrev State := Pool Shared Task
abbrev Action := Act Call Reply

def idle : State := Pool.start ⟨none, 0⟩

/-- What the first critical section of `prepare` tests: nothing is held for
another epoch, or what is held has lapsed. -/
def Clear (s : Shared) (epoch : String) : Prop :=
  ∀ r ∈ s.reserved, r.epoch ≠ epoch → r.expires ≤ s.now

instance (s : Shared) (epoch : String) : Decidable (Clear s epoch) :=
  inferInstanceAs (Decidable (∀ r ∈ s.reserved, r.epoch ≠ epoch → r.expires ≤ s.now))

/-- Where a prepare stores its reservation, the test of its first critical
section would still pass. -/
def StoresClear (host : RankHost) (p : State) : Action → Prop
  | .resume i (.probed dockerOk canReach) =>
      match p.tasks[i]? with
      | some (.probing epoch assignment) =>
          (host.probe assignment dockerOk canReach).isOk = true → Clear p.shared epoch
      | _ => True
  | _ => True

instance (host : RankHost) (p : State) (a : Action) : Decidable (StoresClear host p a) := by
  unfold StoresClear
  repeat' split
  all_goals infer_instance

theorem storesClear_probing {host : RankHost} {p : State} {i : Nat} {epoch : String}
    {assignment : RankAssignment} {plan : LaunchPlan} {dockerOk canReach : Bool}
    (ht : p.tasks[i]? = some (.probing epoch assignment))
    (hprobe : host.probe assignment dockerOk canReach = .ok plan) :
    StoresClear host p (.resume i (.probed dockerOk canReach)) ↔ Clear p.shared epoch := by
  simp [StoresClear, ht, hprobe, Except.isOk, Except.toBool]

/-- The calls that may take the reservation of an epoch. -/
def Takes (epoch : String) (a : Action) : Prop :=
  a = .enter (.commit epoch) ∨ a = .enter (.abort epoch)

/-- What a held reservation is for: until it lapses, unless a commit or an abort
of its epoch takes it, the slot stays that epoch's, a prepare for any other is
refused, and none that was under way is answered prepared. -/
def Kept (host : RankHost) (r : Reservation) (p q : State) : Prop :=
  (∃ r', q.shared.reserved = some r' ∧ r'.epoch = r.epoch ∧ r.expires ≤ r'.expires) ∧
  (∀ epoch assignment, epoch ≠ r.epoch → ∃ reason,
    (service host).step q (.enter (.prepare epoch assignment)) =
      some ⟨q.shared, q.tasks ++ [Task.prepared epoch (.refused reason)]⟩) ∧
  ∀ (i : Nat) epoch, epoch ≠ r.epoch → q.tasks[i]? = some (Task.prepared epoch .prepared) →
    p.tasks[i]? = some (Task.prepared epoch .prepared)

/-- Every reservation held anywhere in a run is kept for as long as it lasts. -/
def Exclusive (host : RankHost) (as : List Action) : Prop :=
  ∀ pre mid post p q r, as = pre ++ (mid ++ post) →
    Run (service host).step Free idle pre p → Run (service host).step Free p mid q →
    p.shared.reserved = some r → (∀ a ∈ mid, ¬ Takes r.epoch a) → q.shared.now < r.expires →
    Kept host r p q

/-- No call has newly been answered prepared between two states. -/
def Unanswered (p q : State) : Prop :=
  ∀ (i : Nat) epoch, q.tasks[i]? = some (Task.prepared epoch .prepared) →
    p.tasks[i]? = some (Task.prepared epoch .prepared)

/-- What one segment of one call does to the slot. -/
inductive Moves (host : RankHost) (p : State) (a : Action) (q : State) : Prop
  | quiet : q.shared.reserved = p.shared.reserved → p.shared.now ≤ q.shared.now →
      Unanswered p q → Moves host p a q
  | lapsed {r} : p.shared.reserved = some r → r.expires ≤ p.shared.now →
      q.shared.reserved = none → q.shared.now = p.shared.now → Unanswered p q → Moves host p a q
  | taken {r} : p.shared.reserved = some r → Takes r.epoch a → q.shared.reserved = none →
      q.shared.now = p.shared.now → Unanswered p q → Moves host p a q
  | stored {i epoch assignment plan dockerOk canReach} :
      a = .resume i (.probed dockerOk canReach) →
      p.tasks[i]? = some (.probing epoch assignment) →
      host.probe assignment dockerOk canReach = .ok plan →
      q.shared.reserved = some (reserve epoch assignment plan p.shared.now) →
      q.shared.now = p.shared.now →
      (∀ (j : Nat) epoch', q.tasks[j]? = some (Task.prepared epoch' .prepared) →
        j = i ∧ epoch' = epoch ∨ p.tasks[j]? = some (Task.prepared epoch' .prepared)) →
      Moves host p a q

theorem unanswered_enter {p : State} {s : Shared} {t : Task}
    (ht : ∀ epoch, t ≠ .prepared epoch .prepared) : Unanswered p ⟨s, p.tasks ++ [t]⟩ := by
  intro i epoch h
  cases task_of_append h with
  | inl old => exact old
  | inr new => exact absurd new.symm (ht epoch)

theorem unanswered_resume {p : State} {s : Shared} {t : Task} {i : Nat}
    (ht : ∀ epoch, t ≠ .prepared epoch .prepared) : Unanswered p ⟨s, p.tasks.set i t⟩ := by
  intro j epoch h
  rcases task_of_set h with ⟨_, new⟩ | ⟨_, old⟩
  · exact absurd new.symm (ht epoch)
  · exact old

theorem check_error {host : RankHost} {slot : Option Reservation} {now : Nat} {epoch : String}
    {reply : PrepareReply} (h : host.check slot now epoch = .error reply) :
    ∃ reason, reply = .refused reason := by
  simp only [RankHost.check] at h
  cases hc : host.canLaunch with
  | error why =>
      rw [hc] at h
      cases h
      exact ⟨_, rfl⟩
  | ok _ =>
      rw [hc] at h
      simp only [RankHost.checkReserved] at h
      split at h
      · split at h
        · split at h
          · cases h
          · cases h
            exact ⟨_, rfl⟩
        · cases h
      · cases h

/-- What the first critical section leaves in the slot. -/
theorem check_ok {host : RankHost} {slot slot' : Option Reservation} {now : Nat} {epoch : String}
    (h : host.check slot now epoch = .ok slot') :
    slot' = slot ∨ ∃ r, slot = some r ∧ r.expires ≤ now ∧ slot' = none := by
  simp only [RankHost.check] at h
  cases hc : host.canLaunch with
  | error why =>
      rw [hc] at h
      cases h
  | ok _ =>
      rw [hc] at h
      simp only [RankHost.checkReserved] at h
      split at h
      · next r =>
          split at h
          · split at h
            · next lapsed =>
                cases h
                exact Or.inr ⟨r, rfl, lapsed, rfl⟩
            · cases h
          · cases h
            exact Or.inl rfl
      · cases h
        exact Or.inl rfl

/-- A reservation of another epoch that has not lapsed refuses a prepare. -/
theorem check_held (host : RankHost) {r : Reservation} {now : Nat} {epoch : String}
    (other : epoch ≠ r.epoch) (lasts : now < r.expires) :
    ∃ reason, host.check (some r) now epoch = .error (.refused reason) := by
  simp only [RankHost.check]
  cases host.canLaunch with
  | error why => exact ⟨_, rfl⟩
  | ok _ =>
      simp only [RankHost.checkReserved]
      rw [if_pos (Ne.symm other), if_neg (Nat.not_le.mpr lasts)]
      exact ⟨_, rfl⟩

theorem probe_error {host : RankHost} {assignment : RankAssignment} {dockerOk canReach : Bool}
    {reply : PrepareReply} (h : host.probe assignment dockerOk canReach = .error reply) :
    ∃ reason, reply = .refused reason := by
  simp only [RankHost.probe] at h
  split at h
  · cases h
    exact ⟨_, rfl⟩
  · split at h
    · cases h
      exact ⟨_, rfl⟩
    · split at h
      · cases h
      · cases h
        exact ⟨_, rfl⟩

theorem probe_ok {host : RankHost} {assignment : RankAssignment} {dockerOk canReach : Bool}
    {plan : LaunchPlan} (h : host.probe assignment dockerOk canReach = .ok plan) :
    host.planFor assignment = .ok plan := by
  simp only [RankHost.probe] at h
  split at h
  · cases h
  · split at h
    · cases h
    · split at h
      · next made =>
          cases h
          exact made
      · cases h

theorem refused_ne_prepared {epoch epoch' reason : String} :
    Task.prepared epoch (.refused reason) ≠ Task.prepared epoch' .prepared := by
  intro h
  cases h

theorem enter_moves {host : RankHost} {p : State} {c : Call} {s : Shared} {t : Task}
    (h : enter host p.shared c = some (s, t)) :
    Moves host p (.enter c) ⟨s, p.tasks ++ [t]⟩ := by
  cases c with
  | prepare epoch assignment =>
      simp only [enter] at h
      cases hcheck : host.check p.shared.reserved p.shared.now epoch with
      | error reply =>
          rw [hcheck] at h
          cases h
          obtain ⟨reason, rfl⟩ := check_error hcheck
          exact .quiet rfl (Nat.le_refl _) (unanswered_enter fun _ => refused_ne_prepared)
      | ok slot =>
          rw [hcheck] at h
          cases h
          have silent : Unanswered p
              ⟨{ p.shared with reserved := slot }, p.tasks ++ [Task.probing epoch assignment]⟩ :=
            unanswered_enter fun _ => Task.noConfusion
          rcases check_ok hcheck with rfl | ⟨r, hslot, hlapsed, rfl⟩
          · exact .quiet rfl (Nat.le_refl _) silent
          · exact .lapsed hslot hlapsed rfl rfl silent
  | commit epoch =>
      simp only [enter, takeReserved] at h
      cases hslot : p.shared.reserved with
      | none =>
          rw [hslot] at h
          cases h
          exact .quiet rfl (Nat.le_refl _) (unanswered_enter fun _ => Task.noConfusion)
      | some r =>
          simp only [hslot] at h
          by_cases same : r.epoch = epoch
          · rw [if_pos same] at h
            cases h
            exact .taken hslot (Or.inl (by rw [same])) rfl rfl
              (unanswered_enter fun _ => Task.noConfusion)
          · rw [if_neg same] at h
            cases h
            exact .quiet rfl (Nat.le_refl _) (unanswered_enter fun _ => Task.noConfusion)
  | abort epoch =>
      simp only [enter, releaseReserved] at h
      cases h
      cases hslot : p.shared.reserved with
      | none =>
          exact .quiet (by simp [hslot]) (Nat.le_refl _) (unanswered_enter fun _ => Task.noConfusion)
      | some r =>
          by_cases same : r.epoch = epoch
          · exact .taken hslot (Or.inr (by rw [same])) (by simp [same]) rfl
              (unanswered_enter fun _ => Task.noConfusion)
          · exact .quiet (by simp [hslot, same]) (Nat.le_refl _)
              (unanswered_enter fun _ => Task.noConfusion)
  | tick elapsed =>
      simp only [enter] at h
      cases h
      exact .quiet rfl (Nat.le_add_right _ _) (unanswered_enter fun _ => Task.noConfusion)

theorem resume_moves {host : RankHost} {p : State} {i : Nat} {rep : Reply} {s : Shared}
    {t t' : Task} (ht : p.tasks[i]? = some t) (h : resume host p.shared t rep = some (s, t')) :
    Moves host p (.resume i rep) ⟨s, p.tasks.set i t'⟩ := by
  cases t with
  | prepared | committed | finished => cases rep <;> cases h
  | starting epoch plan =>
      cases rep with
      | probed => cases h
      | ran outcome =>
          cases h
          exact .quiet rfl (Nat.le_refl _) (unanswered_resume fun _ => Task.noConfusion)
  | probing epoch assignment =>
      cases rep with
      | ran => cases h
      | probed dockerOk canReach =>
          simp only [resume] at h
          cases hprobe : host.probe assignment dockerOk canReach with
          | error reply =>
              rw [hprobe] at h
              cases h
              obtain ⟨reason, rfl⟩ := probe_error hprobe
              exact .quiet rfl (Nat.le_refl _) (unanswered_resume fun _ => refused_ne_prepared)
          | ok plan =>
              rw [hprobe] at h
              cases h
              refine .stored rfl ht hprobe rfl rfl ?_
              intro j epoch' hj
              rcases task_of_set hj with ⟨hji, new⟩ | ⟨_, old⟩
              · cases new
                exact Or.inl ⟨hji, rfl⟩
              · exact Or.inr old

theorem step_moves {host : RankHost} {p q : State} {a : Action}
    (h : (service host).step p a = some q) : Moves host p a q := by
  cases a with
  | enter c =>
      obtain ⟨s, t, he, rfl⟩ := Object.step_enter h
      exact enter_moves he
  | resume i rep =>
      obtain ⟨t, s, t', ht, hr, rfl⟩ := Object.step_resume h
      exact resume_moves ht hr

/-- No reservation outlasts a full term from now. -/
def Bounded (s : Shared) : Prop := ∀ r, s.reserved = some r → r.expires ≤ s.now + reservationTtl

/-- The slot is held for `epoch`, at least until `deadline`. -/
def HeldFor (epoch : String) (deadline : Nat) (s : Shared) : Prop :=
  ∃ r, s.reserved = some r ∧ r.epoch = epoch ∧ deadline ≤ r.expires

section Moves
variable {host : RankHost} {p q : State} {a : Action}

theorem Moves.now_le (h : Moves host p a q) : p.shared.now ≤ q.shared.now := by
  cases h with
  | quiet _ hnow _ => exact hnow
  | lapsed _ _ _ hnow _ | taken _ _ _ hnow _ | stored _ _ _ _ hnow _ => exact Nat.le_of_eq hnow.symm

theorem Moves.bounded (h : Moves host p a q) (hp : Bounded p.shared) : Bounded q.shared := by
  intro r hr
  cases h with
  | quiet hslot hnow _ =>
      have := hp r (hslot ▸ hr)
      omega
  | lapsed _ _ hslot _ _ | taken _ _ hslot _ _ =>
      rw [hslot] at hr
      cases hr
  | stored _ _ _ hslot hnow _ =>
      rw [hslot] at hr
      cases hr
      rw [hnow]
      exact Nat.le_refl _

/-- One segment of a guarded run keeps an unlapsed reservation for its epoch and
answers no prepare of another epoch. -/
theorem Moves.keeps {epoch : String} {deadline : Nat} (h : Moves host p a q)
    (bounded : Bounded p.shared) (clear : StoresClear host p a) (untaken : ¬ Takes epoch a)
    (held : HeldFor epoch deadline p.shared) (lasts : q.shared.now < deadline) :
    HeldFor epoch deadline q.shared ∧ ∀ (i : Nat) other, other ≠ epoch →
      q.tasks[i]? = some (Task.prepared other .prepared) →
      p.tasks[i]? = some (Task.prepared other .prepared) := by
  obtain ⟨r, hr, rfl, hdeadline⟩ := held
  cases h with
  | quiet hslot _ silent => exact ⟨⟨r, hslot.trans hr, rfl, hdeadline⟩, fun i other _ => silent i other⟩
  | lapsed hslot hlapsed _ hnow _ =>
      rw [hr] at hslot
      cases hslot
      omega
  | taken hslot takes _ _ _ =>
      rw [hr] at hslot
      cases hslot
      exact absurd takes untaken
  | @stored i stored assignment plan dockerOk canReach ha ht hprobe hslot hnow answered =>
      subst ha
      have same : r.epoch = stored := by
        by_contra other
        have := (storesClear_probing ht hprobe).mp clear r hr other
        omega
      have := bounded r hr
      refine ⟨⟨_, hslot, same.symm, Nat.le_trans hdeadline this⟩, ?_⟩
      intro j other hother hj
      rcases answered j other hj with ⟨_, hepoch⟩ | old
      · exact absurd (hepoch.trans same.symm) hother
      · exact old

end Moves

section Runs
variable {host : RankHost} {p q : State} {as : List Action}

theorem run_bounded (run : Run (service host).step Free p as q) (hp : Bounded p.shared) :
    Bounded q.shared :=
  Run.invariant (I := fun p => Bounded p.shared) run hp fun _ _ _ hs _ h => (step_moves h).bounded hs

theorem run_now_le {G : State → Action → Prop} (run : Run (service host).step G p as q) :
    p.shared.now ≤ q.shared.now :=
  Run.relates (E := fun p q => p.shared.now ≤ q.shared.now) run (fun _ => Nat.le_refl _)
    (fun _ _ _ => Nat.le_trans)
    fun _ _ _ _ h => (step_moves h).now_le

/-- The same over a run: by induction, a segment at a time. -/
theorem run_keeps {epoch : String} {deadline : Nat}
    (run : Run (service host).step (StoresClear host) p as q) (bounded : Bounded p.shared)
    (untaken : ∀ a ∈ as, ¬ Takes epoch a) (held : HeldFor epoch deadline p.shared)
    (lasts : q.shared.now < deadline) :
    HeldFor epoch deadline q.shared ∧ ∀ (i : Nat) other, other ≠ epoch →
      q.tasks[i]? = some (Task.prepared other .prepared) →
      p.tasks[i]? = some (Task.prepared other .prepared) := by
  induction run with
  | nil p => exact ⟨held, fun _ _ _ h => h⟩
  | @cons p m q a as hstep rest ih =>
      have moves := step_moves hstep.2
      have later := run_now_le rest
      obtain ⟨held', first⟩ := moves.keeps bounded hstep.1 (untaken a List.mem_cons_self) held
        (Nat.lt_of_le_of_lt later lasts)
      obtain ⟨held'', second⟩ := ih (moves.bounded bounded)
        (fun b hb => untaken b (List.mem_cons_of_mem _ hb)) held' lasts
      exact ⟨held'', fun i other hother h => first i other hother (second i other hother h)⟩

/-- While the slot is held for one epoch, a prepare of any other is refused. -/
theorem enter_refused {epoch : String} {deadline : Nat} (held : HeldFor epoch deadline q.shared)
    (lasts : q.shared.now < deadline) {other : String} (hother : other ≠ epoch)
    (assignment : RankAssignment) : ∃ reason,
    (service host).step q (.enter (.prepare other assignment)) =
      some ⟨q.shared, q.tasks ++ [Task.prepared other (.refused reason)]⟩ := by
  obtain ⟨r, hr, rfl, hdeadline⟩ := held
  obtain ⟨reason, hcheck⟩ := check_held host hother (Nat.lt_of_lt_of_le lasts hdeadline)
  refine ⟨reason, Object.enter_step ?_⟩
  change enter host q.shared (.prepare other assignment) = _
  simp only [enter, hr, hcheck]

end Runs

theorem bounded_idle : Bounded idle.shared := by
  intro r hr
  cases hr

/-- A run whose stores all come on a slot the first test would still pass keeps
every reservation it holds. -/
theorem exclusive_of_clear {host : RankHost} {as : List Action} {q : State}
    (run : Run (service host).step (StoresClear host) idle as q) : Exclusive host as := by
  intro pre mid post p q' r has first second hr untaken lasts
  subst has
  obtain ⟨p₁, first', rest⟩ := Run.split run
  obtain ⟨q₁, second', _⟩ := Run.split rest
  obtain rfl : p = p₁ := first.deterministic first'.free
  obtain rfl : q' = q₁ := second.deterministic second'.free
  obtain ⟨held, unanswered⟩ := run_keeps second' (run_bounded first bounded_idle) untaken
    ⟨r, hr, rfl, Nat.le_refl _⟩ lasts
  refine ⟨held, ?_, fun i epoch hother => unanswered i epoch hother⟩
  intro epoch assignment hother
  exact enter_refused held lasts hother assignment

/-- One store over another epoch's unlapsed reservation and the run does not
keep that reservation. -/
theorem clear_of_exclusive {host : RankHost} {as : List Action} {q : State}
    (run : Run (service host).step Free idle as q) (exclusive : Exclusive host as) :
    Run (service host).step (StoresClear host) idle as q := by
  apply Run.strengthen run
  intro pre a post p m has first hstep
  cases a with
  | enter c => trivial
  | resume i rep =>
      cases rep with
      | ran outcome => trivial
      | probed dockerOk canReach =>
          simp only [StoresClear]
          split
          case h_2 => trivial
          next epoch assignment ht =>
          intro probed r hr other
          by_contra lasting
          obtain ⟨plan, hprobe⟩ : ∃ plan, host.probe assignment dockerOk canReach = .ok plan := by
            cases hprobe : host.probe assignment dockerOk canReach with
            | error reply => simp [hprobe, Except.isOk, Except.toBool] at probed
            | ok plan => exact ⟨plan, rfl⟩
          have stored : (service host).step p (.resume i (.probed dockerOk canReach)) =
              some ⟨⟨some (reserve epoch assignment plan p.shared.now), p.shared.now⟩,
                p.tasks.set i (Task.prepared epoch .prepared)⟩ := by
            apply Object.resume_step ht
            simp only [service, resume, hprobe]
          rw [hstep] at stored
          cases stored
          have kept := exclusive pre [.resume i (.probed dockerOk canReach)] post p _ r has first.free
            (.cons ⟨trivial, hstep⟩ (.nil _)) hr ?_ (Nat.lt_of_not_le lasting)
          · obtain ⟨⟨r', hslot, hepoch, _⟩, _⟩ := kept
            cases hslot
            exact other hepoch.symm
          · intro b hb
            rw [List.mem_singleton.mp hb]
            rintro (h | h) <;> cases h

/-- Exactly the runs whose prepares store onto a slot their first test would
still pass keep every reservation for as long as it lasts. -/
theorem exclusive_iff_clear (host : RankHost) (as : List Action) (q : State)
    (run : Run (service host).step Free idle as q) :
    Exclusive host as ↔ Run (service host).step (StoresClear host) idle as q :=
  ⟨clear_of_exclusive run, exclusive_of_clear⟩

section Fixed

/-- A machine that can take any rank it is asked to. -/
def spark : RankHost :=
  ⟨.ok (), fun a => .ok ⟨s!"metrale-{a.recipe}-rank{a.rank}", ["docker", "run"]⟩, id⟩

def rankOne : RankAssignment := ⟨7, 1, 2, "10.0.0.1", 29500, "qwen3", "f00d", []⟩

/-- A second head asks while the first one's reservation is held, and is refused. -/
theorem exclusive_iff_clear_sequential :
    Exclusive spark [.enter (.prepare "e1" rankOne), .resume 0 (.probed true true),
      .enter (.prepare "e2" rankOne)] := by
  have run : Run (service spark).step (StoresClear spark) idle
      [.enter (.prepare "e1" rankOne), .resume 0 (.probed true true),
        .enter (.prepare "e2" rankOne)] _ := Run.of_replay rfl
  exact (exclusive_iff_clear spark _ _ run.free).mpr run

/-- The first of two overlapping prepares has stored, the second has not. -/
def overlapped : State :=
  ⟨⟨some (reserve "e1" rankOne ⟨"metrale-qwen3-rank1", ["docker", "run"]⟩ 0), 0⟩,
    [.prepared "e1" .prepared, .probing "e2" rankOne]⟩

/-- Two heads ask at once: both tests pass on an empty slot, both are answered
prepared, and the second store replaces the first reservation. -/
theorem not_exclusive_overlapping :
    ∃ q, Run (service spark).step Free idle
      [.enter (.prepare "e1" rankOne), .enter (.prepare "e2" rankOne),
        .resume 0 (.probed true true), .resume 1 (.probed true true)] q ∧
      ¬ Exclusive spark [.enter (.prepare "e1" rankOne), .enter (.prepare "e2" rankOne),
        .resume 0 (.probed true true), .resume 1 (.probed true true)] := by
  have first : Run (service spark).step Free idle [.enter (.prepare "e1" rankOne),
      .enter (.prepare "e2" rankOne), .resume 0 (.probed true true)] overlapped :=
    Run.of_replay rfl
  have second : Run (service spark).step Free overlapped [.resume 1 (.probed true true)] _ :=
    Run.of_replay rfl
  refine ⟨_, first.append second, ?_⟩
  intro exclusive
  have untaken : ∀ a ∈ [(.resume 1 (.probed true true) : Action)], ¬ Takes "e1" a := by
    intro a ha
    rw [List.mem_singleton.mp ha]
    intro takes
    cases takes with
    | inl h => cases h
    | inr h => cases h
  obtain ⟨⟨r, hr, hepoch, _⟩, _⟩ :=
    exclusive _ _ [] _ _ _ rfl first second rfl untaken (by decide)
  cases hr
  exact absurd hepoch (by decide)

end Fixed

end Rank
end Metralectl
