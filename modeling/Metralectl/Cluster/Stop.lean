import Metralectl.Cluster.Whole
import Metralectl.Rank.LocalRank
import Metralectl.Rank.Reservation

/-!
A stop of the whole cluster, across the rank service of each machine, the frames
to and from it, and the driver that counts the answers. No frame is lost here. A
peer acknowledges a stop whether or not it succeeded, so a failure over there is
a success over here.
-/
namespace Metralectl
namespace Cluster
open Peer

/-- What a commit records and a stop works through: ranks of distinct machines,
each of them among the targets. -/
structure Roster where
  running : Running
  distinct : (running.started.map (·.node)).Nodup
  targeted : ∀ r ∈ running.started, ∃ t ∈ running.targets, t.node = r.node

section Stopping
variable {σ : Type} (svc : NodeId → RankService σ) (sampled : NodeId → Bool)
  (debug : PeerFrame → String)

/-- One rank is asked to stop: in a call, or in a frame and its answer. -/
def askStop (w : NodeId → σ) (r : RankStarted) (t : Target) :
    (NodeId → σ) × Except String Unit :=
  match t.addr with
  | none =>
      let (m, outcome) := (svc t.node).stop (w t.node) r.container
      (Function.update w t.node m, outcome)
  | some addr =>
      match serveRank (svc t.node) (w t.node) (.stopRank r.container) with
      | some (m, reply) =>
          (Function.update w t.node m,
            stopRank debug addr.text (served (sampled t.node) reply) r.container)
      | none => (w, stopRank debug addr.text (.ok []) r.container)

/-- Every rank is attempted, even after one fails. -/
def stopRanks (w : NodeId → σ) (failures : List String) (stillRunning : List RankStarted) :
    List (RankStarted × Target) → (NodeId → σ) × List String × List RankStarted
  | [] => (w, failures, stillRunning)
  | (r, t) :: rest =>
      match askStop svc sampled debug w r t with
      | (w', .ok ()) => stopRanks w' failures stillRunning rest
      | (w', .error e) =>
          stopRanks w' (failures ++ [s!"{t.name}: {e}"]) (stillRunning ++ [r]) rest

def stopCluster (w : NodeId → σ) (held : Option Running) :
    (NodeId → σ) × Option Running × Except String (List RankStarted) :=
  match held with
  | none => (w, none, .error notStarted)
  | some running =>
      let (w, failures, stillRunning) :=
        stopRanks svc sampled debug w [] [] (reachable running.started running.targets)
      (w, afterStop running failures stillRunning,
        if failures.isEmpty then .ok running.started else .error (couldNotStop failures))

/-- The stop of a rank succeeds on the machine that runs it. -/
def StopsThere (w : NodeId → σ) (r : RankStarted) : Prop :=
  ((svc r.node).stop (w r.node) r.container).2 = .ok ()

/-- A stop that says it succeeded stopped every rank, and one that failed keeps
every rank it did not stop. -/
def Truthful (w : NodeId → σ) (roster : Roster) : Prop :=
  match stopCluster svc sampled debug w (some roster.running) with
  | (_, _, .ok _) => ∀ r ∈ roster.running.started, StopsThere svc w r
  | (_, held, .error _) => ∃ left, held = some left ∧
      ∀ r ∈ roster.running.started, ¬ StopsThere svc w r → r ∈ left.started

variable {svc sampled debug} {w : NodeId → σ}

/-- The outcome the driver counts: a call's own, and of a frame always success. -/
theorem askStop_outcome (r : RankStarted) (t : Target) :
    (askStop svc sampled debug w r t).2 =
      if t.addr.isSome then .ok () else ((svc t.node).stop (w t.node) r.container).2 := by
  cases addr : t.addr with
  | none => simp only [askStop, addr, Option.isSome_none, Bool.false_eq_true, if_false]
  | some a =>
      obtain ⟨reply, did, read⟩ :=
        stopRank_served debug a.text (svc t.node) (w t.node) (sampled t.node) r.container
      simp only [askStop, addr, did, read, Option.isSome_some, if_true]

theorem askStop_other (r : RankStarted) (t : Target) {n : NodeId} (away : n ≠ t.node) :
    (askStop svc sampled debug w r t).1 n = w n := by
  simp only [askStop]
  split
  · exact Function.update_of_ne away _ _
  · split
    · exact Function.update_of_ne away _ _
    · rfl

theorem mem_reachable {started : List RankStarted} {targets : List Target} {r : RankStarted}
    {t : Target} : (r, t) ∈ reachable started targets ↔
      r ∈ started ∧ targets.find? (fun t => t.node = r.node) = some t := by
  simp only [reachable, List.mem_filterMap, Option.map_eq_some_iff, Prod.mk.injEq]
  constructor
  · rintro ⟨r', hr, t', found, rfl, rfl⟩
    exact ⟨hr, found⟩
  · rintro ⟨hr, found⟩
    exact ⟨r, hr, t, found, rfl, rfl⟩

theorem node_of_reachable {started : List RankStarted} {targets : List Target} {r : RankStarted}
    {t : Target} (h : (r, t) ∈ reachable started targets) : t.node = r.node := by
  simpa using List.find?_some (mem_reachable.mp h).2

/-- A failure the driver sees: of a rank on its own machine. -/
def Seen (svc : NodeId → RankService σ) (w : NodeId → σ) (rt : RankStarted × Target) : Prop :=
  rt.2.addr = none ∧ ¬ StopsThere svc w rt.1

/-- The driver hears a failure exactly if there is one to see. -/
theorem askStop_seen {r : RankStarted} {t : Target} (here : t.node = r.node) :
    (askStop svc sampled debug w r t).2 = .ok () ↔ ¬ Seen svc w (r, t) := by
  rw [askStop_outcome]
  cases addr : t.addr with
  | none => simp [Seen, StopsThere, addr, here]
  | some a => simp [Seen, addr]

/-- The loop keeps the ranks whose failure it sees, and reports none exactly if
there is none; by induction over the ranks still to ask, which no machine asked
before runs. -/
theorem stopRanks_spec {failures : List String} {stillRunning : List RankStarted}
    {ranks : List (RankStarted × Target)} (there : ∀ rt ∈ ranks, rt.2.node = rt.1.node)
    (distinct : (ranks.map (·.1.node)).Nodup) {w' : NodeId → σ} {failures' : List String}
    {still : List RankStarted}
    (h : stopRanks svc sampled debug w failures stillRunning ranks = (w', failures', still)) :
    (failures' = [] ↔ failures = [] ∧ ∀ rt ∈ ranks, ¬ Seen svc w rt) ∧
      ∀ r, r ∈ still ↔ r ∈ stillRunning ∨ ∃ t, (r, t) ∈ ranks ∧ Seen svc w (r, t) := by
  induction ranks generalizing w failures stillRunning with
  | nil =>
      cases h
      simp
  | cons rt rest ih =>
      obtain ⟨r, t⟩ := rt
      have here : t.node = r.node := there (r, t) List.mem_cons_self
      rw [List.map_cons, List.nodup_cons] at distinct
      obtain ⟨first, distinct⟩ := distinct
      have same : ∀ rt ∈ rest, Seen svc (askStop svc sampled debug w r t).1 rt ↔ Seen svc w rt := by
        intro rt hrt
        have away : rt.1.node ≠ t.node := by
          intro same
          exact first (List.mem_map.mpr ⟨rt, hrt, same.trans here⟩)
        simp only [Seen, StopsThere, askStop_other r t away]
      have seen : (askStop svc sampled debug w r t).2 = .ok () ↔ ¬ Seen svc w (r, t) :=
        askStop_seen here
      have later := fun rt hrt => there rt (List.mem_cons_of_mem _ hrt)
      cases asked : askStop svc sampled debug w r t with
      | mk w₁ outcome =>
      rw [asked] at same seen
      have split : ∀ r', (∃ t', (r', t') ∈ (r, t) :: rest ∧ Seen svc w (r', t')) ↔
          (r' = r ∧ Seen svc w (r, t)) ∨ ∃ t', (r', t') ∈ rest ∧ Seen svc w₁ (r', t') := by
        intro r'
        constructor
        · rintro ⟨t', member, heard⟩
          cases member with
          | head => exact Or.inl ⟨rfl, heard⟩
          | tail _ member => exact Or.inr ⟨t', member, (same _ member).mpr heard⟩
        · rintro (⟨rfl, heard⟩ | ⟨t', member, heard⟩)
          · exact ⟨t, List.mem_cons_self, heard⟩
          · exact ⟨t', List.mem_cons_of_mem _ member, (same _ member).mp heard⟩
      cases outcome with
      | ok _ =>
          have unseen := seen.mp rfl
          simp only [stopRanks, asked] at h
          obtain ⟨none_, kept⟩ := ih later distinct h
          constructor
          · rw [none_]
            simp only [List.forall_mem_cons, unseen, not_false_eq_true, true_and]
            exact and_congr_right fun _ => forall₂_congr fun rt hrt => not_congr (same rt hrt)
          · intro r'
            rw [kept, split]
            simp [unseen]
      | error e =>
          have heard : Seen svc w (r, t) := by
            by_contra unseen
            cases seen.mpr unseen
          simp only [stopRanks, asked] at h
          obtain ⟨none_, kept⟩ := ih later distinct h
          constructor
          · rw [none_]
            simp [heard]
          · intro r'
            rw [kept, split, List.mem_append, List.mem_singleton]
            simp [heard, or_assoc]

theorem reachable_sublist (started : List RankStarted) (targets : List Target) :
    ((reachable started targets).map (·.1)).Sublist started := by
  induction started with
  | nil => exact List.Sublist.slnil
  | cons r rest ih =>
      simp only [reachable, List.filterMap_cons] at ih ⊢
      cases targets.find? (fun t => t.node = r.node) with
      | none => exact ih.cons _
      | some t => exact ih.cons_cons _

theorem reachable_nodes {started : List RankStarted} (targets : List Target)
    (distinct : (started.map (·.node)).Nodup) :
    ((reachable started targets).map (·.1.node)).Nodup := by
  have sub := (reachable_sublist started targets).map (·.node)
  rw [List.map_map] at sub
  exact distinct.sublist sub

/-- Every rank of a roster is reached. -/
theorem Roster.reached (roster : Roster) {r : RankStarted} (hr : r ∈ roster.running.started) :
    ∃ t, (r, t) ∈ reachable roster.running.started roster.running.targets := by
  obtain ⟨t, ht, same⟩ := roster.targeted r hr
  obtain ⟨u, hu, _⟩ := Launch.reachable_of_mem hr ht same.symm
  exact ⟨u, hu⟩

/-- A stop is truthful exactly when every rank on another machine stops there:
whatever fails over there is heard as a success. -/
theorem truthful_iff (svc : NodeId → RankService σ) (sampled : NodeId → Bool)
    (debug : PeerFrame → String) (w : NodeId → σ) (roster : Roster) :
    Truthful svc sampled debug w roster ↔
      ∀ rt ∈ reachable roster.running.started roster.running.targets,
        rt.2.addr.isSome = true → StopsThere svc w rt.1 := by
  cases did : stopRanks svc sampled debug w [] []
    (reachable roster.running.started roster.running.targets) with
  | mk w' rest =>
  obtain ⟨failures, still⟩ := rest
  obtain ⟨none_, kept⟩ := stopRanks_spec (fun rt hrt => node_of_reachable hrt)
    (reachable_nodes _ roster.distinct) did
  simp only [true_and] at none_
  have seen_of {r : RankStarted} {t : Target} (fails : ¬ StopsThere svc w r)
      (there : t.addr.isSome = true → StopsThere svc w r) : Seen svc w (r, t) := by
    refine ⟨?_, fails⟩
    by_contra remote
    exact fails (there (Option.isSome_iff_ne_none.mpr remote))
  by_cases quiet : failures = []
  · simp only [Truthful, stopCluster, did, quiet, List.isEmpty_nil, if_true]
    constructor
    · intro all rt hrt _
      exact all rt.1 (mem_reachable.mp hrt).1
    · intro there r hr
      obtain ⟨t, ht⟩ := roster.reached hr
      by_contra fails
      exact none_.mp quiet (r, t) ht (seen_of fails (there (r, t) ht))
  · have loud : failures.isEmpty = false := by simpa using quiet
    simp only [Truthful, stopCluster, did, loud, Bool.false_eq_true, if_false, afterStop]
    constructor
    · rintro ⟨left, held, keeps⟩ ⟨r, t⟩ hrt remote
      cases held
      by_contra fails
      have member : r ∈ still := keeps r (mem_reachable.mp hrt).1 fails
      cases (kept r).mp member with
      | inl nowhere => cases nowhere
      | inr heard =>
          obtain ⟨u, hu, here, _⟩ := heard
          have same : u = t :=
            Option.some.inj ((mem_reachable.mp hu).2.symm.trans (mem_reachable.mp hrt).2)
          have near : t.addr = none := same ▸ here
          simp [near] at remote
    · intro there
      refine ⟨_, rfl, ?_⟩
      intro r hr fails
      obtain ⟨t, ht⟩ := roster.reached hr
      exact (kept r).mpr (Or.inr ⟨t, ht, seen_of fails (there (r, t) ht)⟩)

theorem stopRanks_sublist {w' : NodeId → σ} {failures failures' : List String}
    {stillRunning still : List RankStarted} {ranks : List (RankStarted × Target)}
    (h : stopRanks svc sampled debug w failures stillRunning ranks = (w', failures', still)) :
    ∃ left, left.Sublist (ranks.map (·.1)) ∧ still = stillRunning ++ left := by
  induction ranks generalizing w failures stillRunning with
  | nil =>
      cases h
      exact ⟨[], List.Sublist.slnil, (List.append_nil _).symm⟩
  | cons rt rest ih =>
      simp only [stopRanks] at h
      split at h
      · obtain ⟨left, sub, rfl⟩ := ih h
        exact ⟨left, sub.cons _, rfl⟩
      · obtain ⟨left, sub, rfl⟩ := ih h
        exact ⟨rt.1 :: left, sub.cons_cons _, by simp⟩

/-- What a stop leaves in the record is a roster again, -/
theorem Roster.afterStop {roster : Roster} {w' : NodeId → σ} {left : Running}
    {reply : Except String (List RankStarted)}
    (h : stopCluster svc sampled debug w (some roster.running) = (w', some left, reply)) :
    ∃ roster' : Roster, roster'.running = left := by
  cases did : stopRanks svc sampled debug w [] []
    (reachable roster.running.started roster.running.targets) with
  | mk w₁ rest =>
  obtain ⟨failures, still⟩ := rest
  obtain ⟨kept, sub, same⟩ := stopRanks_sublist did
  simp only [stopCluster, did, Cluster.afterStop] at h
  split at h
  · cases h
  · cases h
    rw [List.nil_append] at same
    rw [same]
    have ranks : kept.Sublist roster.running.started := sub.trans (reachable_sublist _ _)
    exact ⟨⟨{ roster.running with started := kept }, roster.distinct.sublist (ranks.map _),
      fun r hr => roster.targeted r (ranks.subset hr)⟩, rfl⟩

end Stopping

section Committed
open Launch

theorem startRanks_nodes {epoch : String} {port : Nat} {fates : NodeId → Fate} {w w' : World}
    {done rest : List Target} {started started' : List RankStarted}
    (h : startRanks epoch port fates w done started rest = (w', .ok started')) :
    started'.map (·.node) = started.map (·.node) ++ rest.map Target.node := by
  induction rest generalizing w done started with
  | nil =>
      cases h
      simp
  | cons t rest ih =>
      simp only [startRanks] at h
      split at h
      · rw [ih h]
        simp [rankStarted]
      · cases h

/-- and so is what a commit records. -/
theorem roster_of_commit {settleSecs : Nat} {p : Prepared} {fates : NodeId → Fate} {w : World}
    {started : List RankStarted}
    (h : commitTaken settleSecs p.pending fates p.world = (w, .ok started)) :
    ∃ roster : Roster, roster.running = ⟨p.pending.targets, started⟩ := by
  simp only [commitTaken] at h
  split at h
  · cases h
  · next did =>
      split at h
      · cases h
        have nodes := startRanks_nodes did
        rw [List.map_nil, List.nil_append] at nodes
        refine ⟨⟨⟨p.pending.targets, started⟩, by rw [nodes]; exact p.distinct, ?_⟩, rfl⟩
        intro r hr
        have member : r.node ∈ p.pending.targets.map Target.node :=
          nodes ▸ List.mem_map_of_mem hr
        exact List.mem_map.mp member
      · cases h

end Committed

section Fixed
open LocalRank

/-- The ranks of a cluster of two, started. -/
def twoStarted : Roster where
  running := ⟨[onHead "qwen3", onPeer "qwen3"],
    [rankStarted 8888 (onHead "qwen3") "metrale-qwen3-rank0",
      rankStarted 8888 (onPeer "qwen3") "metrale-qwen3-rank1"]⟩
  distinct := by decide
  targeted := by decide

/-- The runtime of one machine refuses to remove containers. -/
def refusing (broken : NodeId) (n : NodeId) : Conditions :=
  ⟨0, true, true, .ok (if n = broken then ⟨1, "", "permission denied"⟩ else ⟨0, "", ""⟩), .ran,
    .ok ⟨0, "true", ""⟩⟩

def oneEach (n : NodeId) : Host :=
  ⟨none, [⟨if n = 1 then "metrale-qwen3-rank0" else "metrale-qwen3-rank1", .rank "e1", false, true⟩]⟩

/-- The peer's runtime refuses, the peer acknowledges, and the record is cleared
with the peer's rank still up. -/
theorem not_truthful_peer :
    ¬ Truthful (fun n => service Rank.spark (refusing 2 n)) (fun _ => true) (fun _ => "frame") oneEach
      twoStarted := by
  intro truthful
  have stopped := truthful (rankStarted 8888 (onPeer "qwen3") "metrale-qwen3-rank1") (by decide)
  exact absurd stopped (by unfold StopsThere; decide)

end Fixed

end Cluster
end Metralectl
