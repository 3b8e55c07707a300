import Mathlib.Data.List.Induction
import Metralectl.Cluster.Stop

/-!
A stop that is tried again and again. What each rank's machine answers is left open in every
round; a round asks the ranks of the record and keeps those whose stop failed.
-/
namespace Metralectl
namespace Cluster
open Peer

/-- What comes back for each rank that is asked in one round. -/
abbrev Round := RankStarted → Target → Except String Unit

/-- Every rank is attempted, even after one fails. -/
def stopEach (round : Round) (failures : List String) (stillRunning : List RankStarted) :
    List (RankStarted × Target) → List String × List RankStarted
  | [] => (failures, stillRunning)
  | (r, t) :: rest =>
      match round r t with
      | .ok () => stopEach round failures stillRunning rest
      | .error e => stopEach round (failures ++ [s!"{t.name}: {e}"]) (stillRunning ++ [r]) rest

def stopInner (round : Round) : Option Running → Option Running × Except String (List RankStarted)
  | none => (none, .error notStarted)
  | some running =>
      let (failures, stillRunning) :=
        stopEach round [] [] (reachable running.started running.targets)
      (afterStop running failures stillRunning,
        if failures.isEmpty then .ok running.started else .error (couldNotStop failures))

/-- The stops that a call sends, each with what it returns. -/
def sent (round : Round) : Option Running → List (RankStarted × Except String Unit)
  | none => []
  | some running => (reachable running.started running.targets).map fun rt => (rt.1, round rt.1 rt.2)

/-- The record after so many calls, -/
def afterRounds : Option Running → List Round → Option Running
  | held, [] => held
  | held, round :: rest => afterRounds (stopInner round held).1 rest

/-- and all that they sent. -/
def log : Option Running → List Round → List (RankStarted × Except String Unit)
  | _, [] => []
  | held, round :: rest => sent round held ++ log (stopInner round held).1 rest

/-- Some stop of the rank returned well. -/
def StoppedIn (calls : List (RankStarted × Except String Unit)) (r : RankStarted) : Prop :=
  ∃ call ∈ calls, call.1 = r ∧ call.2.isOk = true

instance (calls : List (RankStarted × Except String Unit)) (r : RankStarted) :
    Decidable (StoppedIn calls r) :=
  inferInstanceAs (Decidable (∃ call ∈ calls, call.1 = r ∧ call.2.isOk = true))

/-- The ranks whose stop never returned well, in the order they were started. -/
def unstopped (roster : Roster) (rounds : List Round) : List RankStarted :=
  roster.running.started.filter fun r => ¬StoppedIn (log (some roster.running) rounds) r

/-- What stays true over any number of stops of a cluster that was started. -/
structure Converges (roster : Roster) (rounds : List Round) (round : Round) : Prop where
  /-- After a call the record holds what is left, and is cleared where nothing is. -/
  record : afterRounds (some roster.running) (rounds ++ [round]) =
    if unstopped roster (rounds ++ [round]) = [] then none
    else some { roster.running with started := unstopped roster (rounds ++ [round]) }
  /-- The call that has a record returns well just where nothing is left. -/
  reply : (afterRounds (some roster.running) rounds).isSome →
    ((stopInner round (afterRounds (some roster.running) rounds)).2.isOk = true ↔
      unstopped roster (rounds ++ [round]) = [])
  /-- One that has none sends nothing. -/
  cleared : afterRounds (some roster.running) rounds = none →
    sent round (afterRounds (some roster.running) rounds) = [] ∧
      stopInner round (afterRounds (some roster.running) rounds) = (none, .error notStarted)
  /-- No rank is asked again whose stop returned well. -/
  once : ∀ call ∈ sent round (afterRounds (some roster.running) rounds),
    ¬StoppedIn (log (some roster.running) rounds) call.1

section Rounds
variable {round : Round} {rounds : List Round} {held : Option Running}

theorem afterRounds_concat :
    afterRounds held (rounds ++ [round]) = (stopInner round (afterRounds held rounds)).1 := by
  induction rounds generalizing held with
  | nil => rfl
  | cons first rounds ih => exact ih

theorem log_concat :
    log held (rounds ++ [round]) = log held rounds ++ sent round (afterRounds held rounds) := by
  induction rounds generalizing held with
  | nil => exact List.append_nil _
  | cons first rounds ih => simp only [List.cons_append, log, afterRounds, ih, List.append_assoc]

theorem stoppedIn_append {calls more : List (RankStarted × Except String Unit)} {r : RankStarted} :
    StoppedIn (calls ++ more) r ↔ StoppedIn calls r ∨ StoppedIn more r := by
  simp only [StoppedIn, List.mem_append, or_and_right, exists_or]

/-- A round keeps the ranks whose stop fails, and something is said of each. -/
theorem stopEach_spec {failures : List String} {stillRunning : List RankStarted}
    {ranks : List (RankStarted × Target)} :
    (stopEach round failures stillRunning ranks).2 =
        stillRunning ++ (ranks.filter fun rt => !(round rt.1 rt.2).isOk).map (·.1) ∧
      ((stopEach round failures stillRunning ranks).1 = [] ↔
        failures = [] ∧ (ranks.filter fun rt => !(round rt.1 rt.2).isOk) = []) := by
  induction ranks generalizing failures stillRunning with
  | nil => simp [stopEach]
  | cons rt rest ih =>
      obtain ⟨r, t⟩ := rt
      cases answer : round r t with
      | ok _ => simpa [stopEach, answer, Except.isOk, Except.toBool] using ih
      | error e =>
          simp only [stopEach, answer]
          obtain ⟨kept, said⟩ := @ih (failures ++ [s!"{t.name}: {e}"]) (stillRunning ++ [r])
          rw [kept, said]
          simp [answer, Except.isOk, Except.toBool]

/-- Where every rank has a target, those that a round keeps are those it sent no stop that
returned well. -/
theorem kept_of_targeted {running : Running}
    (targeted : ∀ r ∈ running.started, ∃ t ∈ running.targets, t.node = r.node) :
    ((reachable running.started running.targets).filter
        fun rt => !(round rt.1 rt.2).isOk).map (·.1) =
      running.started.filter fun r => ¬StoppedIn (sent round (some running)) r := by
  have stopped {r : RankStarted} {t : Target} (member : r ∈ running.started)
      (found : running.targets.find? (fun t => t.node = r.node) = some t) :
      StoppedIn (sent round (some running)) r ↔ (round r t).isOk = true := by
    constructor
    · rintro ⟨call, sent_, same, well⟩
      obtain ⟨⟨r', t'⟩, there, rfl⟩ := List.mem_map.mp sent_
      obtain ⟨_, found'⟩ := mem_reachable.mp there
      simp only at same well
      subst same
      rw [found] at found'
      cases found'
      exact well
    · intro well
      exact ⟨(r, round r t), List.mem_map.mpr ⟨(r, t), mem_reachable.mpr ⟨member, found⟩, rfl⟩, rfl, well⟩
  generalize sent round (some running) = calls at stopped
  obtain ⟨targets, started⟩ := running
  induction started with
  | nil => rfl
  | cons r rest ih =>
      obtain ⟨t, ht, node⟩ := targeted r List.mem_cons_self
      have somewhere : (targets.find? fun t => t.node = r.node).isSome :=
        List.find?_isSome.mpr ⟨t, ht, by simpa using node⟩
      obtain ⟨u, found⟩ := Option.isSome_iff_exists.mp somewhere
      have rest_ := ih (fun r hr => targeted r (List.mem_cons_of_mem _ hr))
        fun member => stopped (List.mem_cons_of_mem _ member)
      have first := stopped List.mem_cons_self found
      simp only [reachable] at rest_ found ⊢
      rw [List.filterMap_cons, found]
      cases well : (round r u).isOk with
      | true => simp [well, first.mpr well, rest_]
      | false =>
          have failed : ¬StoppedIn calls r := by rw [first, well]; exact Bool.false_ne_true
          simp [well, failed, rest_]

end Rounds

section Rosters
variable (roster : Roster) {round : Round} {rounds : List Round}

/-- The ranks of a roster that a condition picks, as a roster. -/
def Roster.keep (picks : RankStarted → Bool) : Roster where
  running := { roster.running with started := roster.running.started.filter picks }
  distinct := roster.distinct.sublist (List.filter_sublist.map _)
  targeted := fun r hr => roster.targeted r (List.mem_of_mem_filter hr)

/-- What is left of it after so many calls. -/
def Roster.left (rounds : List Round) : Roster :=
  roster.keep fun r => ¬StoppedIn (log (some roster.running) rounds) r

theorem Roster.left_running : (roster.left rounds).running =
    { roster.running with started := unstopped roster rounds } := rfl

/-- What one round makes of a roster. -/
theorem stopInner_roster :
    let kept := roster.running.started.filter fun r => ¬StoppedIn (sent round (some roster.running)) r
    (stopInner round (some roster.running)).1 =
        (if kept = [] then none else some { roster.running with started := kept }) ∧
      ((stopInner round (some roster.running)).2.isOk = true ↔ kept = []) := by
  intro kept
  have same := @kept_of_targeted round _ roster.targeted
  obtain ⟨still, said⟩ := @stopEach_spec round [] []
    (reachable roster.running.started roster.running.targets)
  rw [List.nil_append, same] at still
  rw [← List.map_eq_nil_iff (f := Prod.fst), same] at said
  simp only [true_and] at said
  cases did : stopEach round [] [] (reachable roster.running.started roster.running.targets) with
  | mk failures stillRunning =>
  rw [did] at still said
  simp only at still said
  simp only [stopInner, did, afterStop, List.isEmpty_iff, still]
  by_cases quiet : failures = []
  · have none_ := said.mp quiet
    simp [quiet, kept, none_, Except.isOk, Except.toBool]
  · have some_ := mt said.mpr quiet
    simp only [quiet, if_false, kept, some_, Except.isOk, Except.toBool]
    simp

theorem unstopped_concat : unstopped roster (rounds ++ [round]) =
    (unstopped roster rounds).filter fun r =>
      ¬StoppedIn (sent round (afterRounds (some roster.running) rounds)) r := by
  unfold unstopped
  rw [List.filter_filter, log_concat]
  refine List.filter_congr fun r _ => ?_
  simp only [stoppedIn_append, not_or, Bool.decide_and]
  exact Bool.and_comm _ _

/-- What the record holds after so many calls: the ranks that are left, unless a call found
none. -/
theorem held_after :
    afterRounds (some roster.running) rounds =
        some { roster.running with started := unstopped roster rounds } ∨
      afterRounds (some roster.running) rounds = none ∧ unstopped roster rounds = [] := by
  induction rounds using List.reverseRecOn with
  | nil =>
      left
      have all : unstopped roster [] = roster.running.started :=
        List.filter_eq_self.mpr fun r _ => by simp [log, StoppedIn]
      rw [all]
      rfl
  | append_singleton rounds round ih =>
      rw [afterRounds_concat, unstopped_concat]
      obtain held | ⟨none_, empty⟩ := ih
      · rw [held]
        have one := (@stopInner_roster (roster.left rounds) round).1
        rw [roster.left_running] at one
        rw [one]
        split
        · next cleared => exact .inr ⟨rfl, cleared⟩
        · exact .inl rfl
      · rw [none_, empty]
        exact .inr ⟨rfl, rfl⟩

end Rosters

section Services
variable {σ : Type} {svc : NodeId → RankService σ} {sampled : NodeId → Bool}
  {debug : PeerFrame → String} {w : NodeId → σ} {round : Round}

/-- Ranks of distinct machines answer what they would answer first. -/
theorem stopRanks_each {failures : List String} {stillRunning : List RankStarted}
    {ranks : List (RankStarted × Target)} (there : ∀ rt ∈ ranks, rt.2.node = rt.1.node)
    (distinct : (ranks.map (·.1.node)).Nodup)
    (same : ∀ rt ∈ ranks, (askStop svc sampled debug w rt.1 rt.2).2 = round rt.1 rt.2) :
    (stopRanks svc sampled debug w failures stillRunning ranks).2 =
      stopEach round failures stillRunning ranks := by
  induction ranks generalizing w failures stillRunning with
  | nil => rfl
  | cons rt rest ih =>
      obtain ⟨r, t⟩ := rt
      rw [List.map_cons, List.nodup_cons] at distinct
      obtain ⟨first, distinct⟩ := distinct
      obtain ⟨here, there⟩ := List.forall_mem_cons.mp there
      obtain ⟨answer, same⟩ := List.forall_mem_cons.mp same
      cases asked : askStop svc sampled debug w r t with
      | mk w₁ outcome =>
      have later : ∀ rt ∈ rest, (askStop svc sampled debug w₁ rt.1 rt.2).2 = round rt.1 rt.2 := by
        intro rt hrt
        have away : rt.2.node ≠ t.node := by
          intro same
          exact first (List.mem_map.mpr ⟨rt, hrt, (there rt hrt).symm.trans (same.trans here)⟩)
        have kept : w₁ rt.2.node = w rt.2.node := by
          have other := @askStop_other σ svc sampled debug w r t _ away
          rwa [asked] at other
        rw [← same rt hrt, askStop_outcome, askStop_outcome, kept]
      rw [asked] at answer
      simp only at answer
      cases outcome with
      | ok _ =>
          simp only [stopRanks, stopEach, asked, ← answer]
          exact ih there distinct later
      | error e =>
          simp only [stopRanks, stopEach, asked, ← answer]
          exact ih there distinct later

/-- A stop over the rank services of the machines is one such call. -/
theorem stopCluster_inner (roster : Roster) : ∃ round,
    (stopCluster svc sampled debug w (some roster.running)).2 =
      stopInner round (some roster.running) := by
  refine ⟨fun r t => (askStop svc sampled debug w r t).2, ?_⟩
  have each := @stopRanks_each σ svc sampled debug w
    (fun r t => (askStop svc sampled debug w r t).2) [] []
    (reachable roster.running.started roster.running.targets) (fun _ => node_of_reachable)
    (reachable_nodes _ roster.distinct) fun _ _ => rfl
  cases did : stopRanks svc sampled debug w [] []
    (reachable roster.running.started roster.running.targets) with
  | mk w' rest =>
  rw [did] at each
  simp only at each
  simp only [stopCluster, stopInner, did, ← each]

end Services

/-- However often a stop is retried, and whatever it meets, the record comes down to the ranks
that did not stop; it is empty, and gone, when all have, and nothing is stopped twice. -/
theorem stops_converge (roster : Roster) (rounds : List Round) (round : Round) :
    Converges roster rounds round := by
  obtain held | ⟨none_, empty⟩ := @held_after roster rounds
  · have one := @stopInner_roster (roster.left rounds) round
    rw [roster.left_running, ← held] at one
    have left : unstopped roster (rounds ++ [round]) = _ := unstopped_concat roster
    refine ⟨?_, fun _ => ?_, ?_, ?_⟩
    · rw [afterRounds_concat, left]
      exact one.1
    · rw [left]
      exact one.2
    · rw [held]
      exact fun none_ => absurd none_ (Option.some_ne_none _)
    · intro call member
      rw [held] at member
      obtain ⟨rt, there, rfl⟩ := List.mem_map.mp member
      simpa [unstopped] using (List.mem_filter.mp (mem_reachable.mp there).1).2
  · have left : unstopped roster (rounds ++ [round]) = [] := by rw [unstopped_concat, empty]; rfl
    refine ⟨?_, ?_, ?_, ?_⟩
    · rw [afterRounds_concat, none_, if_pos left]
      rfl
    · rw [none_]
      exact fun there => absurd there Bool.false_ne_true
    · rw [none_]
      exact fun _ => ⟨rfl, rfl⟩
    · rw [none_]
      exact nofun

end Cluster
end Metralectl
