import Metralectl.Cluster.Consistent

/-!
The link a plan warns of, beside the links its ranks meet on. The meeting address is chosen
among the networks the machines share; the warning is taken from the link each of them prefers.
-/
namespace Metralectl
namespace Cluster
open Fleet

/-- The best of a worker's usable addresses on the network of the meeting address. -/
def bestOn (master : NodeAddress) (w : NodeDescriptor) : Option NodeAddress :=
  bestAddress (w.addresses.filter fun a =>
    a.link.usableForCluster && Net.sharesNetwork master.addr master.prefixLen a.addr)

/-- The warning is there where a link that is used deserves it, and the plan's class is no
faster than that of the meeting address. -/
structure Warned (selected : List NodeDescriptor) (head : NodeId) (master : NodeAddress)
    (p : ClusterPlan) : Prop where
  slow : (master.link.warns = true ∨ ∃ w ∈ selected, w.id ≠ head ∧
    ∃ a, bestOn master w = some a ∧ a.link.warns = true) → p.linkWarning.isSome = true
  noFaster : p.link.rank ≤ master.link.rank

def Prefers (n : NodeDescriptor) (c : LinkClass) : Prop :=
  ∃ a, n.preferredAddress = some a ∧ a.link = c

/-- Some machine prefers a link as slow as the one all meet on; and Ethernet is preferred
somewhere, and nowhere a link nobody has verified, or it is not what the ranks use. -/
structure PreferredAsUsed (selected : List NodeDescriptor) (head : NodeId) (master : NodeAddress) :
    Prop where
  slowest : ∃ n ∈ selected, ∃ c, Prefers n c ∧ c.rank ≤ master.link.rank
  seen : ((∃ n ∈ selected, Prefers n .ethernet) ∧ ∀ n ∈ selected, ¬Prefers n .unverified) ∨
    master.link ≠ .ethernet ∧ ∀ w ∈ selected, w.id ≠ head →
      ∀ a, bestOn master w = some a → a.link ≠ .ethernet

section Classes
variable {c : LinkClass} {selected : List NodeDescriptor} {headNode : NodeDescriptor}
  {master : NodeAddress}

/-- Of the usable classes only Ethernet warns. -/
theorem warns_iff (usable : c.usableForCluster = true) : c.warns = true ↔ c = .ethernet := by
  cases c <;> simp_all [LinkClass.warns, LinkClass.usableForCluster]

theorem mem_preferred : c ∈ selected.filterMap (fun n => n.preferredAddress.map (·.link)) ↔
    ∃ n ∈ selected, Prefers n c := by
  simp only [List.mem_filterMap, Option.map_eq_some_iff, Prefers]

theorem prefers_usable {n : NodeDescriptor} (h : Prefers n c) : c.usableForCluster = true := by
  obtain ⟨a, preferred, rfl⟩ := h
  exact (preferred_usable preferred).2

theorem bestOn_usable {w : NodeDescriptor} {a : NodeAddress} (h : bestOn master w = some a) :
    a.link.usableForCluster = true := by
  have there := (List.mem_filter.mp (bestAddress_spec h).1).2
  simp only [Bool.and_eq_true] at there
  exact there.1

/-- The ranks meet on a usable address of the head. -/
theorem rendezvous_usable (meets : rendezvousAddress headNode selected = some master) :
    master ∈ headNode.addresses ∧ master.link.usableForCluster = true := by
  unfold rendezvousAddress at meets
  simp only [Option.orElse_eq_orElse, Option.orElse_eq_or, Option.or_eq_some_iff] at meets
  obtain shared | ⟨_, favourite⟩ := meets
  · obtain ⟨member, usable⟩ := List.mem_filter.mp (List.mem_of_mem_filter (bestAddress_spec shared).1)
    simp only [Bool.and_eq_true] at usable
    exact ⟨member, usable.1⟩
  · exact preferred_usable favourite

/-- With a meeting address there is a weakest preferred link. -/
theorem weakest_spec (member : headNode ∈ selected)
    (meets : rendezvousAddress headNode selected = some master) :
    (∃ n ∈ selected, Prefers n (weakest selected)) ∧
      ∀ n ∈ selected, ∀ c, Prefers n c → (weakest selected).rank ≤ c.rank := by
  obtain ⟨there, usable⟩ := rendezvous_usable meets
  have preferred : headNode.preferredAddress ≠ none := by
    intro none_
    rw [NodeDescriptor.preferredAddress, bestAddress_eq_none] at none_
    exact List.ne_nil_of_mem (List.mem_filter.mpr ⟨there, usable⟩) none_
  obtain ⟨favourite, preferred⟩ := Option.ne_none_iff_exists'.mp preferred
  have mine := mem_preferred.mpr ⟨headNode, member, favourite, preferred, rfl⟩
  unfold weakest
  cases chosen : worstLink (selected.filterMap fun n => n.preferredAddress.map (·.link)) with
  | none =>
      cases classes : selected.filterMap fun n => n.preferredAddress.map (·.link) with
      | nil =>
          rw [classes] at mine
          cases mine
      | cons _ _ =>
          rw [classes] at chosen
          cases chosen
  | some c =>
      obtain ⟨least, all⟩ := worstLink_spec chosen
      exact ⟨mem_preferred.mp least, fun n hn d prefers => all d (mem_preferred.mpr ⟨n, hn, prefers⟩)⟩

theorem weakest_warns_iff (member : headNode ∈ selected)
    (meets : rendezvousAddress headNode selected = some master) :
    (weakest selected).warns = true ↔
      (∃ n ∈ selected, Prefers n .ethernet) ∧ ∀ n ∈ selected, ¬Prefers n .unverified := by
  obtain ⟨⟨n, hn, prefers⟩, least⟩ := weakest_spec member meets
  rw [warns_iff (prefers_usable prefers)]
  constructor
  · intro slow
    rw [slow] at prefers least
    refine ⟨⟨n, hn, prefers⟩, fun m hm unverified => ?_⟩
    exact absurd (least m hm _ unverified) (by decide)
  · rintro ⟨⟨m, hm, slow⟩, verified⟩
    have below := least m hm _ slow
    have usable := prefers_usable prefers
    have known : weakest selected ≠ .unverified := fun same => verified n hn (same ▸ prefers)
    revert below usable known
    generalize weakest selected = c
    cases c <;> simp [LinkClass.rank, LinkClass.usableForCluster]

end Classes

section Plans
variable {recipe recipeHash epoch : String} {required : Nat} {selected : List NodeDescriptor}
variable {head : NodeId} {settings : Settings} {p : ClusterPlan} {headNode : NodeDescriptor}
variable {master : NodeAddress}

/-- The warning speaks of the links that are used exactly where the preferred ones are as
slow. -/
theorem warned_iff (made : plan recipe recipeHash required selected head settings epoch = .ok p)
    (found : selected.find? (·.id = head) = some headNode)
    (meets : rendezvousAddress headNode selected = some master) :
    Warned selected head master p ↔ PreferredAsUsed selected head master := by
  obtain ⟨_, _, headNode', master', found', _, rfl⟩ := plan_eq_ok.mp made
  cases found.symm.trans found'
  have member := List.mem_of_find?_eq_some found
  obtain ⟨⟨n, hn, prefers⟩, least⟩ := weakest_spec member meets
  have usable := (rendezvous_usable meets).2
  have told : (planned recipe recipeHash selected settings epoch headNode master').linkWarning.isSome =
      true ↔ (weakest selected).warns = true := by
    simp only [planned]
    split
    · next warns => simp [warns]
    · next quiet => simp [quiet]
  have slow : (master.link.warns = true ∨ ∃ w ∈ selected, w.id ≠ head ∧
      ∃ a, bestOn master w = some a ∧ a.link.warns = true) ↔
      ¬(master.link ≠ .ethernet ∧ ∀ w ∈ selected, w.id ≠ head →
        ∀ a, bestOn master w = some a → a.link ≠ .ethernet) := by
    rw [warns_iff usable, not_and_or, not_not]
    refine or_congr_right ?_
    constructor
    · rintro ⟨w, hw, other, a, best, warns⟩ none_
      exact none_ w hw other a best ((warns_iff (bestOn_usable best)).mp warns)
    · intro some_
      by_contra none_
      exact some_ fun w hw other a best slow =>
        none_ ⟨w, hw, other, a, best, (warns_iff (bestOn_usable best)).mpr slow⟩
  constructor
  · rintro ⟨warned, noFaster⟩
    refine ⟨⟨n, hn, _, prefers, noFaster⟩, ?_⟩
    by_contra neither
    rw [not_or] at neither
    exact neither.1 ((weakest_warns_iff member meets).mp (told.mp (warned (slow.mpr neither.2))))
  · rintro ⟨⟨m, hm, c, slowest, below⟩, seen⟩
    refine ⟨fun used => told.mpr ((weakest_warns_iff member meets).mpr ?_),
      (least m hm c slowest).trans below⟩
    exact seen.resolve_right (slow.mp used)

end Plans

section Fixed

def office (addr : String) : NodeAddress := ⟨"eth0", addr, 24, .ethernet, some 1000, false⟩

theorem warned_iff_pair : ∃ p, plan "qwen3" "f00d" 2 pair 1 [] "e1" = .ok p ∧
    (Warned pair 1 (fabric "10.10.10.9") p ↔ PreferredAsUsed pair 1 (fabric "10.10.10.9")) := by
  have made : plan "qwen3" "f00d" 2 pair 1 [] "e1" = .ok (planned "qwen3" "f00d" pair [] "e1"
    (linked 1 "head" true [fabric "10.10.10.9"]) (fabric "10.10.10.9")) := rfl
  exact ⟨_, made, warned_iff made rfl (by decide)⟩

/-- Two machines whose fast links are on different networks, and that meet over Ethernet. -/
def apart : List NodeDescriptor :=
  [linked 1 "head" true [office "192.168.1.1", fabric "10.10.10.9"],
    linked 2 "peer" false [office "192.168.1.2", fabric "10.10.10.17"]]

/-- The plan calls the link RoCE and warns of nothing. -/
theorem apart_unwarned : ∃ p, plan "qwen3" "f00d" 2 apart 1 [] "e1" = .ok p ∧
    (apart.head?.bind (rendezvousAddress · apart)) = some (office "192.168.1.1") ∧ p.linkWarning = none ∧
    ¬Warned apart 1 (office "192.168.1.1") p := by
  refine ⟨_, rfl, by decide, by decide, fun warned => ?_⟩
  exact absurd warned.noFaster (by decide)

end Fixed

end Cluster
end Metralectl
