import Metralectl.Cluster.Rollback
import Metralectl.Rank.SameGates

/-!
The size of a cluster against what its recipe allows. The driver asks for as many
machines as were selected, the plan counts them against that, and only a rank
that renders its command holds the number against its own copy of the recipe:
from below.
-/
namespace Metralectl
namespace Prepare
open Cluster Peer Launch LocalRank Rendering

section Size
variable (machines : NodeId → RankMachine) (conditions : NodeId → Conditions)
  (delivery : NodeId → Delivery) (sampled : NodeId → Bool) (debug : PeerFrame → String)
  (h : Head) (running : Option Running) (slot : Option Pending) (recipe : RecipeId)
  (nodes : List NodeId) (head : NodeId) (settings : Settings) (epoch : String) (w : NodeId → Host)

/-- A prepare that may be committed is of a size the topology allows. -/
def SizedBy (topology : Topology) : Prop :=
  ∀ answers, (prepareInner (services (fun n => (machines n).host) conditions) delivery sampled debug
    h running slot recipe nodes head settings epoch w).answer = .ok (epoch, answers, true) →
    topology.Allows nodes.length

/-- The selection resolves, and every rank of it is heard to pass its gates. -/
def Agreed : Prop :=
  running = none ∧ ∃ pending, h.resolve recipe nodes head settings epoch = .ok pending ∧
    ∀ t ∈ pending.targets, (t.addr ≠ none → delivery t.node = .answered) ∧
      Accepts (machines t.node).host (conditions t.node) (w t.node) epoch t.assignment

variable {machines conditions delivery h running recipe nodes head settings epoch w}

/-- A prepare may be committed exactly if all of it is agreed. -/
theorem mayCommit_iff (sampled : NodeId → Bool) (debug : PeerFrame → String)
    (slot : Option Pending) :
    (∃ answers, (prepareInner (services (fun n => (machines n).host) conditions) delivery sampled
      debug h running slot recipe nodes head settings epoch w).answer =
        .ok (epoch, answers, true)) ↔
      Agreed machines conditions delivery h running recipe nodes head settings epoch w := by
  cases running with
  | some r => simp [prepareInner, Agreed]
  | none =>
      cases resolved : h.resolve recipe nodes head settings epoch with
      | error e => simp [prepareInner, Agreed, resolved]
      | ok pending =>
          obtain ⟨may, told, all, _⟩ := prepareInner_resolved
            (services (fun n => (machines n).host) conditions) delivery sampled debug slot w resolved
          have every : may = true ↔ ∀ t ∈ pending.targets,
              (t.addr ≠ none → delivery t.node = .answered) ∧
                Accepts (machines t.node).host (conditions t.node) (w t.node) epoch
                  t.assignment :=
            all.trans (forall₂_congr fun t _ => ask_prepared sampled debug t)
          rw [told, Agreed, resolved]
          constructor
          · rintro ⟨answers, eq⟩
            simp only [Except.ok.injEq, Prod.mk.injEq] at eq
            exact ⟨rfl, pending, rfl, every.mp eq.2.2⟩
          · rintro ⟨_, pending', eq, agreed⟩
            cases eq
            exact ⟨_, by rw [every.mpr agreed]⟩

/-- A rank that passes its gates was told of at least as many machines as its
recipe needs. -/
theorem accepts_enough {m : RankMachine} {c : Conditions} {s : Host} {a : RankAssignment}
    (accepts : Accepts m.host c s epoch a) :
    ∃ r, m.registry.resolve (.parse a.recipe) = .ok r ∧ r.topology.minNodes ≤ a.worldSize := by
  obtain ⟨_, plan, probed⟩ := accepts
  obtain ⟨r, _, rendered⟩ := RankMachine.planFor_ok (Rank.probe_ok probed)
  exact ⟨r, rendered.resolved, rendered.enough⟩

/-- A prepare whose ranks all have the same recipe keeps to its size exactly if no
more machines were selected than the recipe bounds, or it is not agreed at all. -/
theorem sizedBy_iff (machines : NodeId → RankMachine) (conditions : NodeId → Conditions)
    (delivery : NodeId → Delivery) (sampled : NodeId → Bool) (debug : PeerFrame → String)
    (h : Head) (running : Option Running) (slot : Option Pending) (recipe : RecipeId)
    (nodes : List NodeId) (head : NodeId) (settings : Settings) (epoch : String)
    (w : NodeId → Host) (r : ShippedRecipe)
    (same : ∀ n, (machines n).registry.resolve (.parse recipe.text) = .ok r) :
    SizedBy machines conditions delivery sampled debug h running slot recipe nodes head settings
        epoch w r.topology ↔
      (∀ most, r.topology.maxNodes = some most → nodes.length ≤ most) ∨
        ¬ Agreed machines conditions delivery h running recipe nodes head settings epoch w := by
  rw [← mayCommit_iff sampled debug slot]
  by_cases agreed : Agreed machines conditions delivery h running recipe nodes head settings epoch w
  · have may := (mayCommit_iff sampled debug slot).mpr agreed
    rw [or_iff_left (not_not.mpr may)]
    obtain ⟨_, pending, resolved, each⟩ := agreed
    have plan := Head.resolve_ok resolved
    obtain ⟨t, ht⟩ := List.exists_mem_of_length_pos (plan.length_eq ▸ plan.nonempty)
    obtain ⟨r', known, enough⟩ := accepts_enough (each t ht).2
    rw [plan.recipe_eq t ht] at known
    cases (same t.node).symm.trans known
    have fewest : r.topology.minNodes ≤ nodes.length := by
      rw [plan.worldSize t ht] at enough
      exact enough.trans (Nat.min_le_left _ _)
    obtain ⟨answers, told⟩ := may
    exact ⟨fun sized => (sized answers told).2, fun most _ _ => ⟨fewest, most⟩⟩
  · have never := mt (mayCommit_iff sampled debug slot).mp agreed
    exact iff_of_true (fun answers told => absurd ⟨answers, told⟩ never) (Or.inr never)

section Fixed

def onSparks (topology : Topology) (_ : NodeId) : RankMachine := sparkMachine topology none

/-- Two machines for a recipe of two. -/
theorem sizedBy_iff_two :
    (∀ n, (onSparks (.fromRaw ⟨some 2, some 2, none, none⟩) n).registry.resolve
        (.parse Prepare.qwen.text) =
      .ok (shipped (.fromRaw ⟨some 2, some 2, none, none⟩) none Prepare.qwen)) ∧
      SizedBy (onSparks (.fromRaw ⟨some 2, some 2, none, none⟩)) (answering true)
        (fun _ => .answered) (fun _ => true) (fun _ => "frame") (pairOfSparks fun _ => .ok "f00d")
        none none Prepare.qwen [1, 2] 1 [] "e1" idling (.fromRaw ⟨some 2, some 2, none, none⟩) := by
  refine ⟨fun _ => rfl, (sizedBy_iff _ _ _ _ _ _ _ _ _ _ _ _ _ _
    (shipped (.fromRaw ⟨some 2, some 2, none, none⟩) none Prepare.qwen) fun _ => rfl).mpr
      (Or.inl ?_)⟩
  intro most h
  cases h
  decide

/-- Two machines, for a recipe that is for one alone. -/
theorem not_sizedBy_solo :
    ¬ SizedBy (onSparks (.fromRaw ⟨none, none, some true, none⟩)) (answering true)
      (fun _ => .answered) (fun _ => true) (fun _ => "frame") (pairOfSparks fun _ => .ok "f00d")
      none none Prepare.qwen [1, 2] 1 [] "e1" idling (.fromRaw ⟨none, none, some true, none⟩) := by
  intro sized
  have allowed := sized [⟨1, "head", 0, true, ""⟩, ⟨2, "peer", 1, true, ""⟩] rfl
  exact absurd (allowed.2 1 rfl) (by decide)

end Fixed

end Size
end Prepare
end Metralectl
