import Mathlib.Data.List.Sort
import Metralectl.Core.Net
import Metralectl.Cluster.ClusterDriver
import Metralectl.Fleet.Node

/-!
Turning a selection of machines into ranks that can be asked: the checks that
cost nothing, the address every rank meets on, and where each rank is dialled.
-/
namespace Metralectl
namespace Cluster
open Fleet

def defaultMasterPort : Nat := 29500

def defaultServePort : Nat := 8888

def u16Max : Nat := 65535

structure ClusterPlan where
  epoch : String
  recipe : String
  ranks : List RankAssignment
  /-- The worst link class anywhere in the plan. -/
  link : LinkClass
  linkWarning : Option String

inductive PlanError where
  | nodeCount (recipe : String) (required selected : Nat)
  | notLaunchable (name reason : String)
  | notPaired (name : String)
  | noUsableLink (name : String)
  | headNotSelected
  | duplicateNode
deriving DecidableEq

def PlanError.text : PlanError → String
  | .nodeCount recipe required selected =>
      s!"{recipe} needs exactly {required} nodes, {selected} selected"
  | .notLaunchable name reason => s!"{name} cannot run a model: {reason}"
  | .notPaired name => s!"{name} is not paired; pair it before launching on it"
  | .noUsableLink name => s!"{name} has no usable network link for a cluster"
  | .headNotSelected => "the head must be one of the selected nodes"
  | .duplicateNode => "a node cannot take two ranks in one launch"

/-- Whether a target sits on a subnet one of the local addresses is attached to. -/
def onLocalSubnet (target : String) (local_ : List NodeAddress) : Bool :=
  match Net.parseIpv4 target with
  | none => false
  | some t => local_.any fun a =>
      match Net.parseIpv4 a.addr with
      | none => false
      | some host => Net.sameNetwork host t a.prefixLen

/-- The best address this machine can reach, or else the best. -/
def bestReachable (candidates local_ : List NodeAddress) : Option NodeAddress :=
  let usable := candidates.filter (·.link.usableForCluster)
  bestAddress (usable.filter (onLocalSubnet ·.addr local_)) <|> bestAddress usable

/-- An address of the head that every worker shares a subnet with, or else the
head's favourite. -/
def rendezvousAddress (head : NodeDescriptor) (selected : List NodeDescriptor) :
    Option NodeAddress :=
  let workers := selected.filter (·.id ≠ head.id)
  let candidates := head.addresses.filter fun a => a.link.usableForCluster && 0 < a.prefixLen
  let shared := candidates.filter fun c =>
    workers.all fun w =>
      w.addresses.any fun a =>
        a.link.usableForCluster && Net.sharesNetwork c.addr c.prefixLen a.addr
  bestAddress shared <|> head.preferredAddress

def checkSelected (seen : List NodeId) : List NodeDescriptor → Except PlanError Unit
  | [] => .ok ()
  | n :: rest =>
      if n.id ∈ seen then .error .duplicateNode
      else if n.pairing ≠ .paired ∧ ¬ n.isLocal then .error (.notPaired n.name)
      else if ¬ n.launchability.canLaunch then
        .error (.notLaunchable n.name n.launchability.reason)
      else checkSelected (n.id :: seen) rest

/-- The first link class no other is below. -/
def worstLink : List LinkClass → Option LinkClass
  | [] => none
  | c :: rest => some (rest.foldl (fun worst d => if d.rank < worst.rank then d else worst) c)

/-- The head first, then the rest by id. -/
def ordered (head : NodeDescriptor) (selected : List NodeDescriptor) : List NodeDescriptor :=
  head :: (selected.filter (·.id ≠ head.id)).insertionSort fun a b => a.id ≤ b.id

/-- What every rank is told: its place, and where and under what name all meet. -/
def assignments (recipe recipeHash : String) (settings : Settings) (master : NodeAddress)
    (nodes : List NodeDescriptor) : List RankAssignment :=
  nodes.mapIdx fun i n =>
    ⟨n.id, min i u16Max, min nodes.length u16Max, master.addr, defaultMasterPort, recipe,
      recipeHash, settings⟩

def plan (recipe recipeHash : String) (requiredNodes : Nat) (selected : List NodeDescriptor)
    (head : NodeId) (settings : Settings) (epoch : String) : Except PlanError ClusterPlan := do
  if selected.length % 2 ^ 32 ≠ requiredNodes then
    throw (.nodeCount recipe requiredNodes selected.length)
  checkSelected [] selected
  let some headNode := selected.find? (·.id = head) | throw .headNotSelected
  let some master := rendezvousAddress headNode selected | throw (.noUsableLink headNode.name)
  let classes := selected.filterMap fun n => n.preferredAddress.map (·.link)
  let worst := (worstLink classes).getD .ethernet
  return {
    epoch
    recipe
    ranks := assignments recipe recipeHash settings master (ordered headNode selected)
    link := worst
    linkWarning :=
      if worst.warns then
        some (s!"this cluster would run over {worst.label}, not RDMA. EP=2 decode is all-reduce " ++
          "bound, so expect several times lower throughput than the published numbers.")
      else none }

/-- What the driver of one machine plans from: its fleet, its own recipes, and
the port its peers listen on. -/
structure Head where
  fleet : Listing
  contentHash : String → Except String String
  recipePort : String → Except String (Option Nat)
  peerPort : Nat

namespace Head

/-- Where to reach a rank, or none when it is this machine. -/
def addressOf (h : Head) (node : NodeDescriptor) : Except String (Option SocketAddr) :=
  if node.isLocal then .ok none
  else
    match bestReachable node.addresses h.fleet.here.addresses with
    | none => .error s!"{node.name} has no usable network link"
    | some a =>
        match Net.parseSocket s!"{a.addr}:{h.peerPort}" with
        | some _ => .ok (some ⟨a.addr, h.peerPort⟩)
        | none => .error s!"{node.name} has an address we cannot dial"

/-- What the operator set, else what the recipe pins, else the runtime's default. -/
def servePort (h : Head) (recipe : RecipeId) (targets : List Target) : Nat :=
  let set := (targets.find? (·.assignment.rank = 0)).bind fun t =>
    t.assignment.settings.lookup "port"
  let pinned := ((h.recipePort recipe.text).toOption.join).getD defaultServePort
  match set with
  | some (.int p) => if 0 ≤ p ∧ p ≤ u16Max then p.toNat else pinned
  | _ => pinned

/-- Every rank, resolved to somewhere reachable. -/
def targets (h : Head) (selected : List NodeDescriptor) :
    List RankAssignment → Except String (List Target)
  | [] => .ok []
  | a :: rest => do
      let some node := selected.find? (·.id = a.node)
        | throw "the plan named a machine that left the fleet"
      let addr ← h.addressOf node
      let rest ← h.targets selected rest
      return ⟨a, addr, node.name⟩ :: rest

def resolve (h : Head) (recipe : RecipeId) (nodes : List NodeId) (head : NodeId)
    (settings : Settings) (epoch : String) : Except String Pending := do
  let selected := nodes.filterMap h.fleet.find
  if selected.length ≠ nodes.length then throw "one of those machines is not in this fleet"
  let hash ← h.contentHash recipe.text
  let required := min nodes.length (2 ^ 32 - 1)
  match plan recipe.text hash required selected head settings epoch with
  | .error e => throw e.text
  | .ok plan =>
      let targets ← h.targets selected plan.ranks
      return ⟨epoch, h.servePort recipe targets, targets⟩

end Head

theorem checkSelected_ok {seen : List NodeId} {selected : List NodeDescriptor}
    (h : checkSelected seen selected = .ok ()) :
    (selected.map (·.id)).Nodup ∧ (∀ n ∈ selected, n.id ∉ seen) ∧
      (∀ n ∈ selected, n.isLocal = true ∨ n.pairing = .paired) ∧
      ∀ n ∈ selected, n.launchability.canLaunch = true := by
  induction selected generalizing seen with
  | nil => simp
  | cons n rest ih =>
      simp only [checkSelected] at h
      split at h
      · cases h
      · next fresh =>
          split at h
          · cases h
          · next trusted =>
              split at h
              · cases h
              · next able =>
                  obtain ⟨distinct, unseen, paired, launchable⟩ := ih h
                  have away : ∀ m ∈ rest, m.id ≠ n.id := by
                    intro m hm same
                    exact unseen m hm (same ▸ List.mem_cons_self)
                  refine ⟨?_, ?_, ?_, ?_⟩
                  · rw [List.map_cons, List.nodup_cons]
                    refine ⟨?_, distinct⟩
                    intro member
                    obtain ⟨m, hm, same⟩ := List.mem_map.mp member
                    exact away m hm same
                  · intro m hm
                    cases hm with
                    | head => exact fresh
                    | tail _ hm =>
                        intro old
                        exact unseen m hm (List.mem_cons_of_mem _ old)
                  · intro m hm
                    cases hm with
                    | head =>
                        by_cases isLocal : n.isLocal = true
                        · exact Or.inl isLocal
                        · right
                          by_contra unpaired
                          exact trusted ⟨unpaired, isLocal⟩
                    | tail _ hm => exact paired m hm
                  · intro m hm
                    cases hm with
                    | head => simpa using able
                    | tail _ hm => exact launchable m hm

/-- Every selected machine gets one place in the order. -/
theorem ordered_perm {head : NodeDescriptor} {selected : List NodeDescriptor}
    (distinct : (selected.map (·.id)).Nodup) (member : head ∈ selected) :
    (ordered head selected).Perm selected := by
  have sorted := List.perm_insertionSort (fun a b => a.id ≤ b.id)
    (selected.filter (·.id ≠ head.id))
  have single : selected.Nodup := distinct.of_map
  have others : (head :: selected.filter (·.id ≠ head.id)).Perm selected := by
    apply (List.perm_ext_iff_of_nodup _ single).mpr
    · intro n
      rw [List.mem_cons, List.mem_filter, decide_eq_true_iff]
      constructor
      · rintro (rfl | ⟨hn, _⟩)
        · exact member
        · exact hn
      · intro hn
        by_cases same : n.id = head.id
        · exact Or.inl (List.inj_on_of_nodup_map distinct hn member same)
        · exact Or.inr ⟨hn, same⟩
    · rw [List.nodup_cons]
      exact ⟨by simp, single.filter _⟩
  exact (sorted.cons head).trans others

/-- A plan that was made checked every machine, found the head among them, and
gave each of them one rank. -/
theorem plan_ok {recipe hash epoch : String} {required : Nat} {selected : List NodeDescriptor}
    {head : NodeId} {settings : Settings} {p : ClusterPlan}
    (h : plan recipe hash required selected head settings epoch = .ok p) :
    checkSelected [] selected = .ok () ∧ ∃ headNode master,
      selected.find? (·.id = head) = some headNode ∧
      rendezvousAddress headNode selected = some master ∧
      p.ranks = assignments recipe hash settings master (ordered headNode selected) := by
  simp only [plan, bind, Except.bind, pure, Except.pure, throw, throwThe, MonadExceptOf.throw] at h
  split at h
  · cases h
  · split at h
    · cases h
    · next checked =>
        split at h
        · next headNode found =>
            split at h
            · next master meets =>
                cases h
                exact ⟨checked, headNode, master, found, meets, rfl⟩
            · cases h
        · cases h

theorem mem_assignments {recipe hash : String} {settings : Settings} {master : NodeAddress}
    {nodes : List NodeDescriptor} {a : RankAssignment}
    (h : a ∈ assignments recipe hash settings master nodes) :
    (∃ n ∈ nodes, a.node = n.id) ∧ a.worldSize = min nodes.length u16Max ∧
      a.masterAddr = master.addr ∧ a.recipe = recipe ∧ a.recipeHash = hash ∧
      a.settings = settings := by
  obtain ⟨i, within, rfl⟩ := List.mem_mapIdx.mp h
  exact ⟨⟨nodes[i], List.getElem_mem within, rfl⟩, rfl, rfl, rfl, rfl, rfl⟩

theorem assignments_node {recipe hash : String} {settings : Settings} {master : NodeAddress}
    {nodes : List NodeDescriptor} :
    (assignments recipe hash settings master nodes).map (·.node) = nodes.map (·.id) := by
  apply List.ext_getElem
  · simp [assignments]
  · intro i _ _
    simp [assignments]

namespace Head

/-- Each rank that was resolved is one of the plan's, at the address of the
machine it is for. -/
theorem targets_ok {h : Head} {selected : List NodeDescriptor} {ranks : List RankAssignment}
    {ts : List Target} (resolved : h.targets selected ranks = .ok ts) :
    ts.map (·.assignment) = ranks ∧ ∀ t ∈ ts, ∃ node ∈ selected, node.id = t.node ∧
      h.addressOf node = .ok t.addr ∧ t.name = node.name := by
  induction ranks generalizing ts with
  | nil =>
      cases resolved
      simp
  | cons a rest ih =>
      simp only [targets, bind, Except.bind, pure, Except.pure, throw, throwThe,
        MonadExceptOf.throw] at resolved
      split at resolved
      · next node found =>
          cases addr : h.addressOf node with
          | error e => simp only [addr, reduceCtorEq] at resolved
          | ok dialled =>
              cases more : h.targets selected rest with
              | error e => simp only [addr, more, reduceCtorEq] at resolved
              | ok ts' =>
                  simp only [addr, more, Except.ok.injEq] at resolved
                  subst resolved
                  obtain ⟨same, each⟩ := ih more
                  refine ⟨by rw [List.map_cons, same], ?_⟩
                  intro t ht
                  cases ht with
                  | head =>
                      exact ⟨node, List.mem_of_find?_eq_some found,
                        by simpa [Target.node] using List.find?_some found, addr, rfl⟩
                  | tail _ ht => exact each t ht
      · cases resolved

/-- Only this machine goes without an address. -/
theorem addressOf_none {h : Head} {node : NodeDescriptor} {addr : Option SocketAddr}
    (found : h.addressOf node = .ok addr) : addr = none ↔ node.isLocal = true := by
  unfold addressOf at found
  split at found
  · next here =>
      cases found
      simp [here]
  · next away =>
      split at found
      · cases found
      · split at found
        · cases found
          simp [away]
        · cases found

/-- What resolving a selection promises: each machine is named once and told how
many they are and what the head means by the recipe. -/
structure Resolved (h : Head) (recipe : RecipeId) (nodes : List NodeId) (settings : Settings)
    (epoch : String) (pending : Pending) : Prop where
  epoch_eq : pending.epoch = epoch
  distinct : (pending.targets.map Target.node).Nodup
  length_eq : pending.targets.length = nodes.length
  nonempty : 0 < nodes.length
  worldSize : ∀ t ∈ pending.targets, t.assignment.worldSize = min nodes.length u16Max
  recipe_eq : ∀ t ∈ pending.targets, t.assignment.recipe = recipe.text
  hash_eq : ∀ t ∈ pending.targets, h.contentHash recipe.text = .ok t.assignment.recipeHash
  settings_eq : ∀ t ∈ pending.targets, t.assignment.settings = settings
  here : ∀ t ∈ pending.targets, t.addr = none ↔ t.node = h.fleet.here.id

theorem resolve_ok {h : Head} {recipe : RecipeId} {nodes : List NodeId} {head : NodeId}
    {settings : Settings} {epoch : String} {pending : Pending}
    (resolved : h.resolve recipe nodes head settings epoch = .ok pending) :
    Resolved h recipe nodes settings epoch pending := by
  simp only [resolve, bind, Except.bind, pure, Except.pure, throw, throwThe,
    MonadExceptOf.throw] at resolved
  split at resolved
  · cases resolved
  · next all =>
      cases hashed : h.contentHash recipe.text with
      | error e => simp only [hashed, reduceCtorEq] at resolved
      | ok hash =>
          simp only [hashed] at resolved
          split at resolved
          · cases resolved
          · next p planned =>
              cases dialled : h.targets (nodes.filterMap h.fleet.find) p.ranks with
              | error e => simp only [dialled, reduceCtorEq] at resolved
              | ok ts =>
                  simp only [dialled, Except.ok.injEq] at resolved
                  subst resolved
                  obtain ⟨checked, headNode, master, found, _, ranks⟩ := plan_ok planned
                  obtain ⟨same, each⟩ := targets_ok dialled
                  have distinct := (checkSelected_ok checked).1
                  have placed := ordered_perm distinct (List.mem_of_find?_eq_some found)
                  have count := placed.length_eq.trans (not_not.mp all)
                  have mine : ∀ t ∈ ts, t.assignment ∈ p.ranks := by
                    intro t ht
                    exact same ▸ List.mem_map_of_mem ht
                  have nodes_eq : ts.map Target.node =
                      (ordered headNode (nodes.filterMap h.fleet.find)).map (·.id) := by
                    rw [← assignments_node, ← ranks, ← same, List.map_map]
                    rfl
                  have told : ∀ t ∈ ts, _ := fun t ht => mem_assignments (ranks ▸ mine t ht)
                  refine {
                    epoch_eq := rfl
                    distinct := ?_
                    length_eq := ?_
                    nonempty := count ▸ Nat.succ_pos _
                    worldSize := fun t ht => count ▸ (told t ht).2.1
                    recipe_eq := fun t ht => (told t ht).2.2.2.1
                    hash_eq := fun t ht => by rw [(told t ht).2.2.2.2.1, hashed]
                    settings_eq := fun t ht => (told t ht).2.2.2.2.2
                    here := ?_ }
                  · rw [nodes_eq]
                    exact (placed.map (·.id)).nodup_iff.mpr distinct
                  · rw [← count, ← List.length_map (f := Target.node), nodes_eq, List.length_map]
                  · intro t ht
                    obtain ⟨node, hnode, node_eq, addr, _⟩ := each t ht
                    obtain ⟨id, _, listed⟩ := List.mem_filterMap.mp hnode
                    obtain ⟨id_eq, isLocal⟩ := Listing.find_local listed
                    rw [addressOf_none addr, isLocal, ← node_eq, id_eq]

end Head
end Cluster
end Metralectl
