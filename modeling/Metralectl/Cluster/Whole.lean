import Metralectl.Cluster.Commit

/-!
A cluster is whole or absent. A failing commit stops what started and releases
what did not, and sends the rank that failed a release only: enough whenever
that rank's failure is what it seems. A rank that has started and whose answer
is lost has spent its reservation, and nothing reaches its container.
-/
namespace Metralectl
namespace Launch
open Cluster

/-- What a prepare leaves behind: distinct machines, none running anything of
this epoch yet, each holding some reservation of a container this fleet could
have created, or none. -/
structure Prepared where
  pending : Pending
  world : World
  distinct : (pending.targets.map Target.node).Nodup
  fresh : ∀ n, ∀ c ∈ (world n).containers, c.epoch ≠ pending.epoch
  ours : ∀ n, ∀ r ∈ (world n).reserved, isOurContainer r.plan.name = true

/-- No rank is left running a container of an epoch or holding its reservation. -/
def Absent (w : World) (epoch : String) (targets : List Target) : Prop :=
  ∀ t ∈ targets, (∀ c ∈ (w t.node).containers, c.epoch ≠ epoch) ∧
    ∀ r ∈ (w t.node).reserved, r.epoch ≠ epoch

/-- A commit that fails leaves nothing behind. -/
def WholeOrAbsent (settleSecs : Nat) (p : Prepared) (fates : NodeId → Fate) : Prop :=
  ∀ w e, commit settleSecs (some p.pending) p.pending.epoch fates p.world = (w, .error e) →
    Absent w p.pending.epoch p.pending.targets

/-- The machine holds the reservation, and the runtime starts the container. -/
def Machine.Starts (m : Machine) (epoch : String) (fate : Fate) : Prop :=
  (m.reserved.any fun r => r.epoch = epoch) = true ∧ fate.outcome = .ran

instance (m : Machine) (epoch : String) (fate : Fate) : Decidable (m.Starts epoch fate) :=
  inferInstanceAs (Decidable (_ ∧ _))

def Delivery.IsLost : Delivery → Prop
  | .replyLost _ => True
  | .undelivered _ | .answered => False

instance : DecidablePred Delivery.IsLost := fun d =>
  match d with
  | .replyLost _ => isTrue trivial
  | .undelivered _ | .answered => isFalse id

/-- The rank starts and says so. -/
def Answers (w : World) (epoch : String) (fates : NodeId → Fate) (t : Target) : Prop :=
  (w t.node).Starts epoch (fates t.node) ∧
    (t.addr = none ∨ (fates t.node).delivery = .answered)

/-- The rank starts and its answer is lost. -/
def Orphans (w : World) (epoch : String) (fates : NodeId → Fate) (t : Target) : Prop :=
  (w t.node).Starts epoch (fates t.node) ∧ t.addr.isSome = true ∧
    (fates t.node).delivery.IsLost

instance (w : World) (epoch : String) (fates : NodeId → Fate) :
    DecidablePred (Answers w epoch fates) :=
  fun _ => inferInstanceAs (Decidable (_ ∧ _))

instance (w : World) (epoch : String) (fates : NodeId → Fate) :
    DecidablePred (Orphans w epoch fates) :=
  fun _ => inferInstanceAs (Decidable (_ ∧ _))

/-- The first rank that does not answer that it started has not started. -/
def FirstFailureTrue (p : Prepared) (fates : NodeId → Fate) : Prop :=
  ∀ t ∈ p.pending.targets.find? (fun t => ¬ Answers p.world p.pending.epoch fates t),
    ¬ Orphans p.world p.pending.epoch fates t

instance (p : Prepared) (fates : NodeId → Fate) : Decidable (FirstFailureTrue p fates) :=
  inferInstanceAs (Decidable (∀ t ∈ p.pending.targets.find? _, _))

section Machines
variable {m : Machine} {epoch : String} {fate : Fate}

theorem remove_subset (m : Machine) (name : String) :
    (m.remove name).containers ⊆ m.containers :=
  List.filter_subset_self _

theorem spend_reserved (m : Machine) (name : String) (cleared : Bool) :
    (m.spend name cleared).reserved = none := by
  simp only [Machine.spend]
  split <;> rfl

theorem spend_subset (m : Machine) (name : String) (cleared : Bool) :
    (m.spend name cleared).containers ⊆ m.containers := by
  simp only [Machine.spend]
  split
  · exact remove_subset _ _
  · exact List.Subset.refl _

theorem take_ok {slot : Option Reservation} {r : Reservation}
    (h : takeReserved slot epoch = .ok r) : slot = some r ∧ r.epoch = epoch := by
  simp only [takeReserved] at h
  split at h
  · split at h
    · next same =>
        cases h
        exact ⟨rfl, same⟩
    · cases h
  · cases h

theorem take_error {slot : Option Reservation} {e : String}
    (h : takeReserved slot epoch = .error e) : (slot.any fun r => r.epoch = epoch) = false := by
  simp only [takeReserved] at h
  split at h
  · split at h
    · cases h
    · next other => simp [other]
  · rfl

theorem run_failed (m : Machine) (name epoch : String) {outcome : RunOutcome}
    (failed : outcome ≠ .ran) : m.ran name epoch outcome = m := by
  cases outcome with
  | ran => exact absurd rfl failed
  | unstartable | failed => rfl

theorem reply_failed (plan : LaunchPlan) {outcome : RunOutcome} (failed : outcome ≠ .ran) :
    ∃ e, commitReply plan outcome = .error e := by
  cases outcome with
  | ran => exact absurd rfl failed
  | unstartable | failed => exact ⟨_, rfl⟩

/-- A commit starts one container, spends the reservation and says so, or it
starts none and fails. -/
theorem commit_cases (m : Machine) (epoch : String) (fate : Fate) :
    m.Starts epoch fate ∧ (∃ r ∈ m.reserved, ∃ cs ⊆ m.containers,
      m.commit epoch fate = (⟨none, ⟨r.plan.name, epoch⟩ :: cs⟩, .ok r.plan.name)) ∨
    ¬ m.Starts epoch fate ∧ ∃ m' e, m.commit epoch fate = (m', .error e) ∧
      m'.containers ⊆ m.containers := by
  cases taken : takeReserved m.reserved epoch with
  | error e =>
      refine Or.inr ⟨?_, m, e, ?_, List.Subset.refl _⟩
      · intro starts
        have held := starts.1
        rw [take_error taken] at held
        cases held
      · simp only [Machine.commit, taken]
  | ok r =>
      obtain ⟨held, same⟩ := take_ok taken
      have bare := spend_subset m r.plan.name fate.cleared
      have spent := spend_reserved m r.plan.name fate.cleared
      by_cases ran : fate.outcome = .ran
      · refine Or.inl ⟨⟨by simp [held, same], ran⟩, r, held, _, bare, ?_⟩
        simp only [Machine.commit, taken, ran, Machine.ran, commitReply, spent]
      · obtain ⟨e, failed⟩ := reply_failed r.plan ran
        refine Or.inr ⟨fun starts => ran starts.2, _, e, ?_, bare⟩
        simp only [Machine.commit, taken, run_failed _ _ _ ran, failed]

theorem abort_released (m : Machine) (epoch : String) :
    ∀ r ∈ (m.abort epoch).reserved, r.epoch ≠ epoch := by
  intro r hr same
  simp only [Machine.abort, releaseReserved] at hr
  split at hr
  · cases hr
  · next other => exact other (by simp [Option.mem_def.mp hr, same])

theorem abort_subset (m : Machine) (epoch : String) :
    ∀ r ∈ (m.abort epoch).reserved, r ∈ m.reserved := by
  intro r hr
  simp only [Machine.abort, releaseReserved] at hr
  split at hr
  · cases hr
  · exact hr

end Machines

section Worlds

theorem on_self (w : World) (n : NodeId) (m : Machine) : (w.on n m) n = m :=
  Function.update_self ..

theorem on_other (w : World) {n n' : NodeId} (m : Machine) (away : n' ≠ n) :
    (w.on n m) n' = w n' :=
  Function.update_of_ne away ..

/-- Asking a rank to start touches its machine only: it starts and says so, or
it fails, and has then started nothing unless its answer was lost. -/
theorem startRank_cases (w : World) (epoch : String) (fates : NodeId → Fate) (t : Target) :
    Answers w epoch fates t ∧ (∃ r ∈ (w t.node).reserved, ∃ cs ⊆ (w t.node).containers,
      startRank w epoch t (fates t.node) =
        (w.on t.node ⟨none, ⟨r.plan.name, epoch⟩ :: cs⟩, .ok r.plan.name)) ∨
    ¬ Answers w epoch fates t ∧ ∃ m e,
      startRank w epoch t (fates t.node) = (w.on t.node m, .error e) ∧
      (Orphans w epoch fates t ∧ (∃ c ∈ m.containers, c.epoch = epoch) ∨
        ¬ Orphans w epoch fates t ∧ m.containers ⊆ (w t.node).containers) := by
  rcases commit_cases (w t.node) epoch (fates t.node) with
    ⟨starts, r, held, cs, old, did⟩ | ⟨idle, m, e, did, old⟩
  · cases addr : t.addr with
    | none =>
        refine Or.inl ⟨⟨starts, Or.inl addr⟩, r, held, cs, old, ?_⟩
        simp only [startRank, did, addr]
    | some a =>
        cases delivery : (fates t.node).delivery with
        | answered =>
            refine Or.inl ⟨⟨starts, Or.inr delivery⟩, r, held, cs, old, ?_⟩
            simp only [startRank, did, addr, delivery]
        | undelivered why =>
            refine Or.inr ⟨by simp [Answers, addr, delivery], w t.node, why, ?_, Or.inr ⟨?_, ?_⟩⟩
            · simp only [startRank, addr, delivery, World.on, Function.update_eq_self]
            · simp [Orphans, delivery, Delivery.IsLost]
            · exact List.Subset.refl _
        | replyLost why =>
            refine Or.inr ⟨by simp [Answers, addr, delivery],
              ⟨none, ⟨r.plan.name, epoch⟩ :: cs⟩, why, ?_, Or.inl ⟨?_, ?_⟩⟩
            · simp only [startRank, did, addr, delivery]
            · exact ⟨starts, by simp [addr], by simp [delivery, Delivery.IsLost]⟩
            · exact ⟨_, List.mem_cons_self, rfl⟩
  · have silent : ¬ Answers w epoch fates t := fun answers => idle answers.1
    have started : ¬ Orphans w epoch fates t := fun orphans => idle orphans.1
    cases addr : t.addr with
    | none =>
        refine Or.inr ⟨silent, m, e, ?_, Or.inr ⟨started, old⟩⟩
        simp only [startRank, did, addr]
    | some a =>
        cases delivery : (fates t.node).delivery with
        | answered =>
            refine Or.inr ⟨silent, m, e, ?_, Or.inr ⟨started, old⟩⟩
            simp only [startRank, did, addr, delivery]
        | undelivered why =>
            refine Or.inr ⟨silent, w t.node, why, ?_, Or.inr ⟨started, List.Subset.refl _⟩⟩
            simp only [startRank, addr, delivery, World.on, Function.update_eq_self]
        | replyLost why =>
            refine Or.inr ⟨silent, m, why, ?_, Or.inr ⟨started, old⟩⟩
            simp only [startRank, did, addr, delivery]

theorem stop_reserved (m : Machine) (name : String) : (m.stop name).reserved = m.reserved := by
  simp only [Machine.stop, Machine.remove]
  split <;> rfl

theorem stop_subset (m : Machine) (name : String) : (m.stop name).containers ⊆ m.containers := by
  simp only [Machine.stop]
  split
  · exact remove_subset _ _
  · exact List.Subset.refl _

theorem stop_gone (m : Machine) {name : String} (ours : isOurContainer name = true) :
    ∀ c ∈ (m.stop name).containers, c.name ≠ name := by
  intro c hc
  simp only [Machine.stop, if_pos ours, Machine.remove] at hc
  simpa using (List.mem_filter.mp hc).2

/-- Stops remove containers and nothing else, -/
theorem stopEach_keeps (ranks : List (RankStarted × Target)) (w : World) (n : NodeId) :
    (stopEach w ranks n).reserved = (w n).reserved ∧
      (stopEach w ranks n).containers ⊆ (w n).containers := by
  induction ranks generalizing w with
  | nil => exact ⟨rfl, List.Subset.refl _⟩
  | cons rt ranks ih =>
      obtain ⟨reserved, containers⟩ :=
        ih (w.on rt.2.node ((w rt.2.node).stop rt.1.container))
      by_cases here : n = rt.2.node
      · subst here
        rw [on_self] at reserved containers
        exact ⟨reserved.trans (stop_reserved _ _), List.Subset.trans containers (stop_subset _ _)⟩
      · rw [on_other w _ here] at reserved containers
        exact ⟨reserved, containers⟩

/-- on the machines they are sent to, -/
theorem stopEach_other (ranks : List (RankStarted × Target)) (w : World) {n : NodeId}
    (away : ∀ rt ∈ ranks, n ≠ rt.2.node) : stopEach w ranks n = w n := by
  induction ranks generalizing w with
  | nil => rfl
  | cons rt ranks ih =>
      have later := ih (w.on rt.2.node ((w rt.2.node).stop rt.1.container))
        fun rt' h => away rt' (List.mem_cons_of_mem _ h)
      exact later.trans (on_other w _ (away rt List.mem_cons_self))

/-- and do remove each one they name, if it is one of ours. -/
theorem stopEach_gone (ranks : List (RankStarted × Target)) (w : World)
    {rt : RankStarted × Target} (h : rt ∈ ranks) (ours : isOurContainer rt.1.container = true) :
    ∀ c ∈ (stopEach w ranks rt.2.node).containers, c.name ≠ rt.1.container := by
  induction ranks generalizing w with
  | nil => cases h
  | cons rt' ranks ih =>
      cases h with
      | head =>
          intro c hc
          have left : c ∈ ((w.on rt.2.node ((w rt.2.node).stop rt.1.container))
              rt.2.node).containers := (stopEach_keeps ranks _ _).2 hc
          rw [on_self] at left
          exact stop_gone _ ours c left
      | tail _ h => exact ih _ h

theorem rollBack_keeps (epoch : String) (targets : List Target) (w : World) (n : NodeId) :
    (rollBack w epoch targets n).containers = (w n).containers ∧
      ∀ r ∈ (rollBack w epoch targets n).reserved, r ∈ (w n).reserved := by
  induction targets generalizing w with
  | nil => exact ⟨rfl, fun r h => h⟩
  | cons t targets ih =>
      obtain ⟨containers, reserved⟩ := ih (w.on t.node ((w t.node).abort epoch))
      by_cases here : n = t.node
      · subst here
        rw [on_self] at containers reserved
        exact ⟨containers, fun r h => abort_subset _ _ r (reserved r h)⟩
      · rw [on_other w _ here] at containers reserved
        exact ⟨containers, reserved⟩

theorem rollBack_released (epoch : String) (targets : List Target) (w : World) {t : Target}
    (h : t ∈ targets) :
    ∀ r ∈ (rollBack w epoch targets t.node).reserved, r.epoch ≠ epoch := by
  induction targets generalizing w with
  | nil => cases h
  | cons t' targets ih =>
      cases h with
      | head =>
          intro r hr
          have left : r ∈ ((w.on t.node ((w t.node).abort epoch)) t.node).reserved :=
            (rollBack_keeps epoch targets _ _).2 r hr
          rw [on_self] at left
          exact abort_released _ _ r left
      | tail _ h => exact ih _ h

end Worlds

/-- A rank of an epoch is up under a name: it holds no reservation, and whatever
the machine runs of the epoch has that name, which is one of ours. -/
structure Machine.Up (m : Machine) (epoch name : String) : Prop where
  spent : m.reserved = none
  ours : isOurContainer name = true
  named : ∀ c ∈ m.containers, c.epoch = epoch → c.name = name

/-- The loop over the ranks, from a world `w₀`: the ranks behind it are up and
recorded, those ahead of it are as they were. -/
structure Reached (w₀ w : World) (epoch : String) (fates : NodeId → Fate) (done rest : List Target)
    (started : List RankStarted) : Prop where
  answered : ∀ t ∈ done, Answers w₀ epoch fates t
  up : ∀ t ∈ done, ∃ r ∈ started, r.node = t.node ∧ (w t.node).Up epoch r.container
  untouched : ∀ t ∈ rest, w t.node = w₀ t.node

/-- Where and how the loop failed: at a target that did not answer, and that has
started exactly if its answer was lost. -/
structure FailedAt (p : Prepared) (fates : NodeId → Fate) (w : World) (f : Failure) (t : Target)
    (after : List Target) : Prop where
  rest : f.rest = t :: after
  split : p.pending.targets = f.done ++ t :: after
  reached : Reached p.world w p.pending.epoch fates f.done after f.started
  silent : ¬ Answers p.world p.pending.epoch fates t
  left : Orphans p.world p.pending.epoch fates t ∧
      (∃ c ∈ (w t.node).containers, c.epoch = p.pending.epoch) ∨
    ¬ Orphans p.world p.pending.epoch fates t ∧
      (w t.node).containers ⊆ (p.world t.node).containers

/-- Targets of distinct machines. -/
theorem node_ne {before after : List Target} {t u : Target}
    (distinct : ((before ++ t :: after).map Target.node).Nodup) (h : u ∈ before ∨ u ∈ after) :
    u.node ≠ t.node := by
  rw [List.map_append, List.map_cons, List.nodup_append] at distinct
  obtain ⟨_, later, apart⟩ := distinct
  cases h with
  | inl h => exact apart _ (List.mem_map_of_mem h) _ List.mem_cons_self
  | inr h =>
      intro same
      exact (List.nodup_cons.mp later).1 (same ▸ List.mem_map_of_mem h)

section Loop
variable {p : Prepared} {fates : NodeId → Fate} {w : World} {done rest : List Target}
  {started : List RankStarted}

theorem answers_congr (epoch : String) (fates : NodeId → Fate) {w₀ : World} {t : Target}
    (same : w t.node = w₀ t.node) :
    (Answers w epoch fates t ↔ Answers w₀ epoch fates t) ∧
      (Orphans w epoch fates t ↔ Orphans w₀ epoch fates t) := by
  simp only [Answers, Orphans, same, and_self]

/-- One more rank answers that it started. -/
theorem Reached.answer {t : Target} {m : Machine} {name : String}
    (h : Reached p.world w p.pending.epoch fates done (t :: rest) started)
    (distinct : ((done ++ t :: rest).map Target.node).Nodup)
    (answers : Answers p.world p.pending.epoch fates t) (up : m.Up p.pending.epoch name) :
    Reached p.world (w.on t.node m) p.pending.epoch fates (done ++ [t]) rest
      (started ++ [rankStarted p.pending.port t name]) := by
  refine ⟨?_, ?_, ?_⟩
  · intro u hu
    cases List.mem_append.mp hu with
    | inl hu => exact h.answered u hu
    | inr hu =>
        rw [List.mem_singleton.mp hu]
        exact answers
  · intro u hu
    cases List.mem_append.mp hu with
    | inl hu =>
        obtain ⟨r, hr, same, up'⟩ := h.up u hu
        refine ⟨r, List.mem_append_left _ hr, same, ?_⟩
        rw [on_other w m (node_ne distinct (Or.inl hu))]
        exact up'
    | inr hu =>
        rw [List.mem_singleton.mp hu, on_self]
        exact ⟨_, List.mem_append_right _ List.mem_cons_self, rfl, up⟩
  · intro u hu
    rw [on_other w m (node_ne distinct (Or.inr hu))]
    exact h.untouched u (List.mem_cons_of_mem _ hu)

/-- A rank that has just started is up. -/
theorem up_started (p : Prepared) {n : NodeId} {r : Reservation} {cs : List Container}
    (held : r ∈ (p.world n).reserved) (old : cs ⊆ (p.world n).containers) :
    Machine.Up ⟨none, ⟨r.plan.name, p.pending.epoch⟩ :: cs⟩ p.pending.epoch r.plan.name := by
  refine ⟨rfl, p.ours n r held, ?_⟩
  intro c hc same
  rcases List.mem_cons.mp hc with rfl | hc
  · rfl
  · exact absurd same (p.fresh n c (old hc))

/-- By induction over the ranks ahead: all of them answer, or one is the first
that does not. -/
theorem startRanks_cases (h : Reached p.world w p.pending.epoch fates done rest started)
    (all : p.pending.targets = done ++ rest) :
    (∃ w' started', startRanks p.pending.epoch p.pending.port fates w done started rest =
        (w', .ok started') ∧
      Reached p.world w' p.pending.epoch fates p.pending.targets [] started') ∨
    ∃ w' f t after, startRanks p.pending.epoch p.pending.port fates w done started rest =
        (w', .error f) ∧ FailedAt p fates w' f t after := by
  induction rest generalizing w done started with
  | nil =>
      rw [List.append_nil] at all
      exact Or.inl ⟨w, started, rfl, all ▸ h⟩
  | cons t rest ih =>
      have here := h.untouched t List.mem_cons_self
      have distinct := p.distinct
      rw [all] at distinct
      obtain ⟨answers, orphans⟩ := answers_congr p.pending.epoch fates here
      rcases startRank_cases w p.pending.epoch fates t with
        ⟨ok, r, held, cs, old, did⟩ | ⟨silent, m, e, did, left⟩
      · rw [here] at held old
        have up := up_started p held old
        have next := h.answer distinct (answers.mp ok) up
        rcases ih next (by simp [all]) with
          ⟨w', started', went, reached⟩ | ⟨w', f, u, after, went, failed⟩
        · exact Or.inl ⟨w', started', by simp only [startRanks, did, went], reached⟩
        · exact Or.inr ⟨w', f, u, after, by simp only [startRanks, did, went], failed⟩
      · refine Or.inr ⟨w.on t.node m, _, t, rest, by simp only [startRanks, did]; rfl,
          rfl, all, ?_, fun ok => silent (answers.mpr ok), ?_⟩
        · refine ⟨h.answered, ?_, ?_⟩
          · intro u hu
            rw [on_other w m (node_ne distinct (Or.inl hu))]
            exact h.up u hu
          · intro u hu
            rw [on_other w m (node_ne distinct (Or.inr hu))]
            exact h.untouched u (List.mem_cons_of_mem _ hu)
        · rw [on_self, ← here, ← orphans]
          exact left

/-- A record whose machine is among the targets is reached there. -/
theorem reachable_of_mem {targets : List Target} {t : Target} {r : RankStarted}
    (hr : r ∈ started) (ht : t ∈ targets) (same : r.node = t.node) :
    ∃ u, (r, u) ∈ reachable started targets ∧ u.node = t.node := by
  cases found : targets.find? (fun u => u.node = r.node) with
  | none =>
      have := List.find?_eq_none.mp found t ht
      simp [same] at this
  | some u =>
      refine ⟨u, ?_, ?_⟩
      · exact List.mem_filterMap.mpr ⟨r, hr, by simp [found]⟩
      · have := List.find?_some found
        simpa [same] using this

theorem mem_of_reachable {targets : List Target} {rt : RankStarted × Target}
    (h : rt ∈ reachable started targets) : rt.2 ∈ targets := by
  obtain ⟨r, _, found⟩ := List.mem_filterMap.mp h
  obtain ⟨u, hu, rfl⟩ := Option.map_eq_some_iff.mp found
  exact List.mem_of_find?_eq_some hu

/-- Stopping what started leaves nothing on the machines that were up. -/
theorem stopStarted_absent {epoch : String} {targets : List Target} {t : Target} {r : RankStarted}
    (hr : r ∈ started) (ht : t ∈ targets) (same : r.node = t.node)
    (up : (w t.node).Up epoch r.container) :
    (∀ c ∈ (stopStarted w started targets t.node).containers, c.epoch ≠ epoch) ∧
      (stopStarted w started targets t.node).reserved = none := by
  obtain ⟨reserved, containers⟩ := stopEach_keeps (reachable started targets) w t.node
  refine ⟨?_, reserved.trans up.spent⟩
  intro c hc ours
  obtain ⟨u, hu, there⟩ := reachable_of_mem hr ht same
  have gone := stopEach_gone _ w hu up.ours
  rw [there] at gone
  exact gone c hc (up.named c (containers hc) ours)

theorem settle_up {epoch name : String} {m : Machine} {fate : Fate} (up : m.Up epoch name) :
    (m.settle epoch fate).Up epoch name := by
  simp only [Machine.settle]
  split
  · exact up
  · exact ⟨up.spent, up.ours, fun c hc => up.named c (List.mem_filter.mp hc).1⟩

/-- A failure that is what it seems leaves nothing behind. -/
theorem FailedAt.absent {f : Failure} {t : Target} {after : List Target}
    (h : FailedAt p fates w f t after)
    (seems : ¬ Orphans p.world p.pending.epoch fates t) :
    Absent (rollBack (stopStarted w f.started f.done) p.pending.epoch f.rest) p.pending.epoch
      p.pending.targets := by
  intro u hu
  obtain ⟨containers, reserved⟩ :=
    rollBack_keeps p.pending.epoch f.rest (stopStarted w f.started f.done) u.node
  rw [containers]
  obtain ⟨_, kept⟩ := stopEach_keeps (reachable f.started f.done) w u.node
  rw [h.split] at hu
  cases List.mem_append.mp hu with
  | inl done =>
      obtain ⟨r, hr, same, up⟩ := h.reached.up u done
      obtain ⟨gone, none_⟩ := stopStarted_absent hr done same up
      refine ⟨gone, ?_⟩
      intro r' hr'
      have held := reserved r' hr'
      rw [none_] at held
      cases held
  | inr ahead =>
      have released := rollBack_released p.pending.epoch f.rest
        (stopStarted w f.started f.done) (h.rest ▸ ahead)
      refine ⟨?_, released⟩
      intro c hc
      have there := kept hc
      rcases List.mem_cons.mp ahead with rfl | later
      · rcases h.left with ⟨orphans, _⟩ | ⟨_, old⟩
        · exact absurd orphans seems
        · exact p.fresh _ c (old there)
      · rw [h.reached.untouched u later] at there
        exact p.fresh _ c there

/-- An orphan is not reached by what follows. -/
theorem FailedAt.orphaned {f : Failure} {t : Target} {after : List Target}
    (h : FailedAt p fates w f t after) (orphans : Orphans p.world p.pending.epoch fates t) :
    ¬ Absent (rollBack (stopStarted w f.started f.done) p.pending.epoch f.rest) p.pending.epoch
      p.pending.targets := by
  intro absent
  rcases h.left with ⟨_, c, hc, same⟩ | ⟨seems, _⟩
  · have distinct := p.distinct
    rw [h.split] at distinct
    have untouched : stopStarted w f.started f.done t.node = w t.node := by
      apply stopEach_other
      intro rt hrt
      exact (node_ne distinct (Or.inl (mem_of_reachable hrt))).symm
    have here := (absent t (by simp [h.split])).1
    rw [(rollBack_keeps _ f.rest _ _).1, untouched] at here
    exact here c hc same
  · exact seems orphans

theorem Reached.absent (h : Reached p.world w p.pending.epoch fates p.pending.targets [] started) :
    Absent (stopStarted (settle w p.pending.epoch fates) started p.pending.targets)
      p.pending.epoch p.pending.targets := by
  intro t ht
  obtain ⟨r, hr, same, up⟩ := h.up t ht
  have settled : (settle w p.pending.epoch fates t.node).Up p.pending.epoch r.container :=
    settle_up up
  obtain ⟨gone, none_⟩ := stopStarted_absent hr ht same settled
  refine ⟨gone, ?_⟩
  intro r' hr'
  rw [none_] at hr'
  cases hr'

end Loop

theorem reached_start (p : Prepared) (fates : NodeId → Fate) :
    Reached p.world p.world p.pending.epoch fates [] p.pending.targets [] := by
  refine ⟨?_, ?_, fun _ _ => rfl⟩
  · intro t ht
    cases ht
  · intro t ht
    cases ht

/-- A commit that fails leaves nothing behind exactly when its first failure is
what it seems. -/
theorem wholeOrAbsent_iff (settleSecs : Nat) (p : Prepared) (fates : NodeId → Fate) :
    WholeOrAbsent settleSecs p fates ↔ FirstFailureTrue p fates := by
  have taken : takePending (some p.pending) p.pending.epoch = .ok p.pending := by
    simp [takePending]
  rcases startRanks_cases (reached_start p fates) rfl with
    ⟨w, started, went, reached⟩ | ⟨w, f, t, after, went, failed⟩
  · have answered : p.pending.targets.find?
        (fun t => ¬ Answers p.world p.pending.epoch fates t) = none := by
      rw [List.find?_eq_none]
      intro t ht
      simpa using reached.answered t ht
    constructor
    · intro _ t ht
      rw [answered] at ht
      cases ht
    · intro _ w' e h
      simp only [commit, taken, commitTaken, went] at h
      split at h
      · cases h
      · cases h
        exact reached.absent
  · have first : p.pending.targets.find?
        (fun t => ¬ Answers p.world p.pending.epoch fates t) = some t := by
      have silent := failed.silent
      have none_ : f.done.find? (fun t => ¬ Answers p.world p.pending.epoch fates t) = none := by
        rw [List.find?_eq_none]
        intro u hu
        simpa using failed.reached.answered u hu
      rw [failed.split, List.find?_append, none_, Option.none_or,
        List.find?_cons_of_pos (by simpa using silent)]
    have went' : commit settleSecs (some p.pending) p.pending.epoch fates p.world =
        (rollBack (stopStarted w f.started f.done) p.pending.epoch f.rest, .error f.why) := by
      simp only [commit, taken, commitTaken, went]
    constructor
    · intro whole u hu orphans
      rw [first] at hu
      cases hu
      exact failed.orphaned orphans (whole _ _ went')
    · intro seems w' e h
      rw [went'] at h
      cases h
      exact failed.absent (seems t first)

section Fixed

def reservedFor (epoch container : String) : Machine :=
  ⟨some ⟨epoch, "qwen3", ⟨container, ["docker", "run"]⟩, 600 * second⟩, []⟩

/-- Two machines that have accepted a rank each. -/
def twoPrepared : Prepared where
  pending := twoRanks "e1" "qwen3"
  world n := reservedFor "e1" (if n = 1 then "metrale-qwen3-rank0" else "metrale-qwen3-rank1")
  distinct := by decide
  fresh n c hc := by cases hc
  ours n r hr := by
    cases hr
    change isOurContainer (if n = 1 then "metrale-qwen3-rank0" else "metrale-qwen3-rank1") = true
    split
    · decide
    · decide

/-- Every rank starts and survives; the frames to a peer fare as given. -/
def allStart (delivery : Delivery) : NodeId → Fate := fun _ => ⟨delivery, true, .ran, true, true⟩

/-- A peer that is never reached is released, and the head's rank stopped. -/
theorem wholeOrAbsent_iff_undelivered :
    WholeOrAbsent 5 twoPrepared (allStart (.undelivered "connection refused")) :=
  (wholeOrAbsent_iff 5 twoPrepared _).mpr (by decide)

/-- The peer starts its rank and the answer is lost: the commit fails, and the
peer is left running it. -/
theorem not_wholeOrAbsent_lost :
    ¬ WholeOrAbsent 5 twoPrepared (allStart (.replyLost "timed out")) := by
  intro whole
  have absent := (whole _ _ rfl (onPeer "qwen3") (by decide)).1
  exact absurd rfl (absent ⟨"metrale-qwen3-rank1", "e1"⟩ (by decide))

end Fixed

end Launch
end Metralectl
