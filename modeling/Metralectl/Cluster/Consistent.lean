import Metralectl.Cluster.Plan
import Metralectl.Library.FirstBest

/-!
What a plan says of its ranks, and that it does not matter in which order the machines were
selected: two planners with the same machines make the same plan, or neither makes one.
-/
namespace Metralectl
namespace Cluster
open Fleet

/-- The weakest of the links that the selected machines prefer. -/
def weakest (selected : List NodeDescriptor) : LinkClass :=
  (worstLink (selected.filterMap fun n => n.preferredAddress.map (·.link))).getD .ethernet

def slowText (worst : LinkClass) : String :=
  s!"this cluster would run over {worst.label}, not RDMA. EP=2 decode is all-reduce " ++
    "bound, so expect several times lower throughput than the published numbers."

/-- The plan that is made once a head and a place to meet are found. -/
def planned (recipe recipeHash : String) (selected : List NodeDescriptor) (settings : Settings)
    (epoch : String) (headNode : NodeDescriptor) (master : NodeAddress) : ClusterPlan where
  epoch := epoch
  recipe := recipe
  ranks := assignments recipe recipeHash settings master (ordered headNode selected)
  link := weakest selected
  linkWarning := if (weakest selected).warns then some (slowText (weakest selected)) else none

/-- What a plan keeps to: a rank for each machine, numbered from the head on, and the others by
their ids, all told the same. -/
structure Consistent (recipe recipeHash : String) (selected : List NodeDescriptor) (head : NodeId)
    (p : ClusterPlan) : Prop where
  nodes : (p.ranks.map (·.node)).Perm (selected.map (·.id))
  distinct : (p.ranks.map (·.node)).Nodup
  numbered : p.ranks.map (·.rank) = List.range selected.length
  headFirst : p.ranks.head?.map (·.node) = some head
  ascending : (p.ranks.tail.map (·.node)).Pairwise (· < ·)
  agreed : ∃ masterAddr, ∀ a ∈ p.ranks, a.masterAddr = masterAddr ∧
    a.masterPort = defaultMasterPort ∧ a.worldSize = selected.length ∧ a.recipe = recipe ∧
    a.recipeHash = recipeHash

section Choosing
variable {l : List NodeAddress} {a b c : NodeAddress}

theorem noBetter_refl (a : NodeAddress) : a.noBetter a = true := by
  simp [NodeAddress.noBetter]

theorem noBetter_trans (first : a.noBetter b = true) (second : b.noBetter c = true) :
    a.noBetter c = true := by
  simp only [NodeAddress.noBetter, Bool.or_eq_true, Bool.and_eq_true, decide_eq_true_eq] at *
  omega

theorem noBetter_total (a b : NodeAddress) : a.noBetter b = true ∨ b.noBetter a = true := by
  simp only [NodeAddress.noBetter, Bool.or_eq_true, Bool.and_eq_true, decide_eq_true_eq]
  omega

/-- The best address is one of them, and no other is better. -/
theorem bestAddress_spec (h : bestAddress l = some a) : a ∈ l ∧ ∀ b ∈ l, b.noBetter a = true := by
  cases l with
  | nil => cases h
  | cons first rest =>
      cases h
      have keeps {a b : NodeAddress} (h : b.noBetter a = false) : a.noBetter b = true :=
        (noBetter_total a b).resolve_right (Bool.not_eq_true _ ▸ h)
      exact @FirstBest.walk_any _ (fun b best => best.noBetter b)
        (fun a b => a.noBetter b = true) noBetter_refl noBetter_trans keeps (fun h => h) first rest

theorem bestAddress_eq_none : bestAddress l = none ↔ l = [] := by
  cases l <;> simp [bestAddress]

/-- The worst link is one of them, and no other is worse. -/
theorem worstLink_spec {classes : List LinkClass} {c : LinkClass} (h : worstLink classes = some c) :
    c ∈ classes ∧ ∀ d ∈ classes, c.rank ≤ d.rank := by
  cases classes with
  | nil => cases h
  | cons first rest =>
      have walked := @FirstBest.walk_any LinkClass (fun d worst => d.rank < worst.rank)
        (fun d worst => worst.rank ≤ d.rank) (fun _ => Nat.le_refl _)
        (fun first second => Nat.le_trans second first) (fun h => by simpa using h)
        (fun h => Nat.le_of_lt (of_decide_eq_true h)) first rest
      simp only [FirstBest.walk, decide_eq_true_eq] at walked
      cases h
      exact walked

theorem preferred_usable {n : NodeDescriptor} (h : n.preferredAddress = some a) :
    a ∈ n.addresses ∧ a.link.usableForCluster = true :=
  List.mem_filter.mp (bestAddress_spec h).1

/-- The usable classes are told apart by their ranks. -/
theorem usable_rank {c d : LinkClass} (hc : c.usableForCluster = true)
    (hd : d.usableForCluster = true) (same : c.rank = d.rank) : c = d := by
  cases c <;> cases d <;> simp_all [LinkClass.rank, LinkClass.usableForCluster]

end Choosing

section Planning
variable {recipe recipeHash epoch : String} {required : Nat} {selected selected' : List NodeDescriptor}
variable {head : NodeId} {settings : Settings} {p : ClusterPlan}

/-- Exactly when a plan is made, and which. -/
theorem plan_eq_ok : plan recipe recipeHash required selected head settings epoch = .ok p ↔
    selected.length % 2 ^ 32 = required ∧ checkSelected [] selected = .ok () ∧
      ∃ headNode master, selected.find? (·.id = head) = some headNode ∧
        rendezvousAddress headNode selected = some master ∧
        p = planned recipe recipeHash selected settings epoch headNode master := by
  simp only [plan, bind, Except.bind, pure, Except.pure, throw, throwThe, MonadExceptOf.throw]
  by_cases size : selected.length % 2 ^ 32 = required
  · simp only [size, ne_eq, not_true_eq_false, if_false, true_and]
    cases checked : checkSelected [] selected with
    | error e => simp
    | ok _ =>
        cases found : selected.find? (·.id = head) with
        | none => simp
        | some headNode =>
            cases meets : rendezvousAddress headNode selected with
            | none => simp [meets]
            | some master =>
                simp only [meets, Except.ok.injEq, true_and, Option.some.injEq, exists_and_left,
                  exists_eq_left']
                exact eq_comm
  · simp only [size, ne_eq, not_false_eq_true, if_true, false_and, reduceCtorEq]

theorem checkSelected_iff {seen : List NodeId} : checkSelected seen selected = .ok () ↔
    (selected.map (·.id)).Nodup ∧ (∀ n ∈ selected, n.id ∉ seen) ∧
      (∀ n ∈ selected, n.isLocal = true ∨ n.pairing = .paired) ∧
      ∀ n ∈ selected, n.launchability.canLaunch = true := by
  refine ⟨checkSelected_ok, ?_⟩
  rintro ⟨distinct, unseen, paired, able⟩
  induction selected generalizing seen with
  | nil => rfl
  | cons n rest ih =>
      obtain ⟨fresh, distinct⟩ := List.nodup_cons.mp distinct
      obtain ⟨new, unseen⟩ := List.forall_mem_cons.mp unseen
      obtain ⟨trusted, paired⟩ := List.forall_mem_cons.mp paired
      obtain ⟨launches, able⟩ := List.forall_mem_cons.mp able
      rw [checkSelected, if_neg new, if_neg (by tauto), if_neg (by simp [launches])]
      refine ih distinct (fun m hm => ?_) paired able
      rw [List.mem_cons, not_or]
      exact ⟨fun same => fresh (List.mem_map.mpr ⟨m, hm, same⟩), unseen m hm⟩

/-- Which machine is the head depends on its id alone. -/
theorem find_iff {n : NodeDescriptor} (distinct : (selected.map (·.id)).Nodup) :
    selected.find? (·.id = head) = some n ↔ n ∈ selected ∧ n.id = head := by
  constructor
  · intro found
    exact ⟨List.mem_of_find?_eq_some found, by simpa using List.find?_some found⟩
  · rintro ⟨member, rfl⟩
    have somewhere : (selected.find? (·.id = n.id)).isSome :=
      List.find?_isSome.mpr ⟨n, member, by simp⟩
    obtain ⟨m, found⟩ := Option.isSome_iff_exists.mp somewhere
    have same : m.id = n.id := by simpa using List.find?_some found
    rw [found, List.inj_on_of_nodup_map distinct (List.mem_of_find?_eq_some found) member same]

theorem rendezvousAddress_perm {headNode : NodeDescriptor} (same : selected.Perm selected') :
    rendezvousAddress headNode selected = rendezvousAddress headNode selected' := by
  have all (c : NodeAddress) : ((selected.filter (·.id ≠ headNode.id)).all fun w =>
      w.addresses.any fun a => a.link.usableForCluster && Net.sharesNetwork c.addr c.prefixLen a.addr) =
      (selected'.filter (·.id ≠ headNode.id)).all fun w =>
        w.addresses.any fun a => a.link.usableForCluster && Net.sharesNetwork c.addr c.prefixLen a.addr :=
    (same.filter _).all_eq
  simp only [rendezvousAddress, all]

theorem ordered_sorted (headNode : NodeDescriptor) (selected : List NodeDescriptor) :
    (ordered headNode selected).tail.Pairwise fun a b => a.id ≤ b.id := by
  have : Std.Total fun a b : NodeDescriptor => a.id ≤ b.id := ⟨fun a b => BitVec.le_total a.id b.id⟩
  have : IsTrans NodeDescriptor fun a b => a.id ≤ b.id := ⟨fun _ _ _ => BitVec.le_trans⟩
  exact List.pairwise_insertionSort _ _

theorem ordered_of_perm {headNode : NodeDescriptor} (distinct : (selected.map (·.id)).Nodup)
    (same : selected.Perm selected') : ordered headNode selected = ordered headNode selected' := by
  unfold ordered
  congr 1
  have first := List.perm_insertionSort (fun a b => a.id ≤ b.id) (selected.filter (·.id ≠ headNode.id))
  have second := List.perm_insertionSort (fun a b => a.id ≤ b.id) (selected'.filter (·.id ≠ headNode.id))
  refine List.Perm.eq_of_pairwise ?_ (ordered_sorted headNode selected)
    (ordered_sorted headNode selected') (first.trans ((same.filter _).trans second.symm))
  intro a b ha hb below above
  have left_ := List.mem_of_mem_filter (first.subset ha)
  have right_ := same.symm.subset (List.mem_of_mem_filter (second.subset hb))
  exact List.inj_on_of_nodup_map distinct left_ right_ (BitVec.le_antisymm below above)

theorem weakest_perm (same : selected.Perm selected') : weakest selected = weakest selected' := by
  have classes := same.filterMap fun n => n.preferredAddress.map (·.link)
  have usable {selected : List NodeDescriptor} {c : LinkClass}
      (h : c ∈ selected.filterMap fun n => n.preferredAddress.map (·.link)) :
      c.usableForCluster = true := by
    obtain ⟨n, _, there⟩ := List.mem_filterMap.mp h
    obtain ⟨a, preferred, rfl⟩ := Option.map_eq_some_iff.mp there
    exact (preferred_usable preferred).2
  unfold weakest
  cases first : worstLink (selected.filterMap fun n => n.preferredAddress.map (·.link)) with
  | none =>
      have empty : (selected.filterMap fun n => n.preferredAddress.map (·.link)) = [] := by
        cases l : selected.filterMap fun n => n.preferredAddress.map (·.link) with
        | nil => rfl
        | cons _ _ =>
            rw [l] at first
            cases first
      rw [empty] at classes
      rw [← classes.nil_eq]
      rfl
  | some c =>
      obtain ⟨there, least⟩ := worstLink_spec first
      cases second : worstLink (selected'.filterMap fun n => n.preferredAddress.map (·.link)) with
      | none =>
          cases l : selected'.filterMap fun n => n.preferredAddress.map (·.link) with
          | nil =>
              rw [l] at classes
              rw [classes.eq_nil] at there
              cases there
          | cons _ _ =>
              rw [l] at second
              cases second
      | some d =>
          obtain ⟨there', least'⟩ := worstLink_spec second
          have rank := Nat.le_antisymm (least d (classes.symm.subset there'))
            (least' c (classes.subset there))
          rw [usable_rank (usable there) (usable there') rank]

/-- A plan that is made is made of the selection in any other order. -/
theorem plan_of_perm (same : selected.Perm selected')
    (made : plan recipe recipeHash required selected head settings epoch = .ok p) :
    plan recipe recipeHash required selected' head settings epoch = .ok p := by
  obtain ⟨size, checked, headNode, master, found, meets, rfl⟩ := plan_eq_ok.mp made
  obtain ⟨distinct, _, paired, able⟩ := checkSelected_ok checked
  have distinct' := ((same.map (·.id)).nodup_iff).mp distinct
  have size' : selected'.length % 2 ^ 32 = required := by rw [← same.length_eq, size]
  refine plan_eq_ok.mpr ⟨size', checkSelected_iff.mpr
    ⟨distinct', fun _ _ => List.not_mem_nil, ?_, ?_⟩,
    headNode, master, ?_, ?_, ?_⟩
  · exact fun n hn => paired n (same.symm.subset hn)
  · exact fun n hn => able n (same.symm.subset hn)
  · obtain ⟨member, id⟩ := (find_iff distinct).mp found
    exact (find_iff distinct').mpr ⟨same.subset member, id⟩
  · rw [← rendezvousAddress_perm same, meets]
  · unfold planned
    rw [ordered_of_perm distinct same, weakest_perm same]

theorem assignments_rank {master : NodeAddress} {nodes : List NodeDescriptor}
    (small : nodes.length ≤ u16Max) :
    (assignments recipe recipeHash settings master nodes).map (·.rank) = List.range nodes.length := by
  apply List.ext_getElem
  · simp [assignments]
  · intro i first second
    have within : i ≤ u16Max := by
      simp only [assignments, List.length_map, List.length_mapIdx] at first
      omega
    simp [assignments, within]

theorem planned_consistent {headNode : NodeDescriptor} {master : NodeAddress}
    (small : selected.length ≤ u16Max) (distinct : (selected.map (·.id)).Nodup)
    (found : selected.find? (·.id = head) = some headNode) :
    Consistent recipe recipeHash selected head
      (planned recipe recipeHash selected settings epoch headNode master) := by
  obtain ⟨member, rfl⟩ := (find_iff distinct).mp found
  have placed := ordered_perm distinct member
  have nodes : (planned recipe recipeHash selected settings epoch headNode master).ranks.map (·.node) =
      (ordered headNode selected).map (·.id) := assignments_node
  have perm : ((ordered headNode selected).map (·.id)).Perm (selected.map (·.id)) := placed.map _
  have count := placed.length_eq
  refine {
    nodes := nodes ▸ perm
    distinct := nodes ▸ perm.nodup_iff.mpr distinct
    numbered := ?_
    headFirst := ?_
    ascending := ?_
    agreed := ⟨master.addr, fun a ha => ?_⟩ }
  · rw [← count]
    exact assignments_rank (count ▸ small)
  · rw [← List.head?_map, nodes]
    rfl
  · rw [List.map_tail, nodes, ← List.map_tail, List.pairwise_map]
    have apart : (ordered headNode selected).tail.Pairwise fun a b => a.id ≠ b.id :=
      List.pairwise_map.mp (perm.nodup_iff.mpr distinct).tail
    exact (apart.and (ordered_sorted headNode selected)).imp fun h => BitVec.lt_of_le_ne h.2 h.1
  · obtain ⟨i, within, rfl⟩ := List.mem_mapIdx.mp ha
    exact ⟨rfl, rfl, (congrArg (min · u16Max) count).trans (Nat.min_eq_left small), rfl, rfl⟩

end Planning

/-- A plan numbers its machines from the head on, by their ids, and tells all the same; and the
order in which they were selected makes no difference to it. -/
theorem plan_consistent {recipe recipeHash epoch : String} {required : Nat}
    {selected : List NodeDescriptor} {head : NodeId} {settings : Settings}
    (small : selected.length ≤ u16Max) :
    (∀ p, plan recipe recipeHash required selected head settings epoch = .ok p →
      Consistent recipe recipeHash selected head p) ∧
    ∀ selected', selected.Perm selected' →
      (plan recipe recipeHash required selected' head settings epoch).toOption =
        (plan recipe recipeHash required selected head settings epoch).toOption := by
  constructor
  · intro p made
    obtain ⟨_, checked, headNode, master, found, _, rfl⟩ := plan_eq_ok.mp made
    exact planned_consistent small (checkSelected_ok checked).1 found
  · intro selected' same
    cases made : plan recipe recipeHash required selected head settings epoch with
    | ok p => rw [plan_of_perm same made]
    | error e =>
        cases made' : plan recipe recipeHash required selected' head settings epoch with
        | error e' => rfl
        | ok q =>
            rw [plan_of_perm same.symm made'] at made
            cases made

section Fixed

/-- A machine with such links. -/
def linked (id : NodeId) (name : String) (isLocal : Bool) (links : List NodeAddress) :
    NodeDescriptor where
  id := id
  name := name
  isLocal := isLocal
  pairing := .paired
  addresses := links
  launchability := .yes
  agentVersion := "0"
  accelerator := "gb10"
  os := "linux"
  vitals := none
  alerts := []
  running := none
  vouchedBy := none
  reachedVia := none

def fabric (addr : String) : NodeAddress := ⟨"enp1s0f0np0", addr, 30, .roce, some 200000, true⟩

def pair : List NodeDescriptor :=
  [linked 1 "head" true [fabric "10.10.10.9"], linked 2 "peer" false [fabric "10.10.10.10"]]

theorem plan_consistent_pair :
    (plan "qwen3" "f00d" 2 pair.reverse 1 [] "e1").toOption =
      (plan "qwen3" "f00d" 2 pair 1 [] "e1").toOption :=
  (plan_consistent (by decide)).2 _ (List.reverse_perm _).symm

end Fixed

end Cluster
end Metralectl
