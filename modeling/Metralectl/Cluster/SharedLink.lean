import Metralectl.Cluster.LinkWarning
import Metralectl.Library.Prefixes

/-!
Two judgements of one address: the head picks it by its own prefix length, because every worker
has an address on that network; each worker judges it by the prefix lengths of its own, and
names the first interface that has it on its network to the collective.
-/
namespace Metralectl
namespace Cluster
open Fleet Prefixes

/-- The usable addresses of the head on whose networks every worker has one, too. -/
def sharedAddresses (head : NodeDescriptor) (selected : List NodeDescriptor) : List NodeAddress :=
  (head.addresses.filter fun a => a.link.usableForCluster && 0 < a.prefixLen).filter fun c =>
    (selected.filter (·.id ≠ head.id)).all fun w =>
      w.addresses.any fun a =>
        a.link.usableForCluster && Net.sharesNetwork c.addr c.prefixLen a.addr

/-- How NCCL is told of an interface and the device behind it. -/
def bindInterface (iface : String) (rdmaDevice : Option String) : List (String × String) :=
  if iface = "" then []
  else ("NCCL_SOCKET_IFNAME", iface) :: rdmaDevice.toList.map ("NCCL_IB_HCA", ·)

/-- The interface and device carrying an address; none where it is on no attached network. -/
def collectiveBinding (local_ : List NodeAddress) (rdmaDevices : String → Option String)
    (masterAddr : String) : List (String × String) :=
  match (local_.filter fun a => 0 < a.prefixLen && a.iface ≠ "").find? fun a =>
    Net.sharesNetwork a.addr a.prefixLen masterAddr with
  | some a => bindInterface a.iface (rdmaDevices a.iface)
  | none => []

/-- The worker takes the address without asking the network, and names an interface for it
that a cluster can use. -/
structure AgreesOn (masterAddr : String) (rdmaDevices : String → Option String)
    (w : NodeDescriptor) : Prop where
  accepts : onLocalSubnet masterAddr w.addresses = true
  binds : ∃ iface,
    (collectiveBinding w.addresses rdmaDevices masterAddr).lookup "NCCL_SOCKET_IFNAME" = some iface ∧
      ∃ a ∈ w.addresses, a.iface = iface ∧ a.link.usableForCluster = true

/-- The prefix length of the address is known and takes in only bits that it has in common
with another. -/
def Near (a : NodeAddress) (other : String) : Prop :=
  ∃ host t, Net.parseIpv4 a.addr = some host ∧ Net.parseIpv4 other = some t ∧
    0 < a.prefixLen ∧ a.prefixLen ≤ 32 ∧ Agree host t a.prefixLen

/-- Of the worker's named addresses that are near the meeting address the first is on an
interface with a usable link. -/
def NearestUsable (masterAddr : String) (w : NodeDescriptor) : Prop :=
  ∃ before a later, w.addresses = before ++ a :: later ∧ a.iface ≠ "" ∧ Near a masterAddr ∧
    (∀ b ∈ before, b.iface ≠ "" → ¬Near b masterAddr) ∧
    ∃ u ∈ w.addresses, u.iface = a.iface ∧ u.link.usableForCluster = true

section Networks
variable {a : NodeAddress} {other masterAddr : String} {w headNode : NodeDescriptor}
  {selected : List NodeDescriptor} {master : NodeAddress}

theorem sameNetwork_iff {host t : BitVec 32} {p : Nat} :
    Net.sameNetwork host t p = true ↔ 0 < p ∧ p ≤ 32 ∧ Agree host t p := by
  unfold Net.sameNetwork
  split
  · next unknown =>
      refine iff_of_false Bool.false_ne_true ?_
      rintro ⟨known, within, _⟩
      omega
  · next known =>
      have within : 0 < p ∧ p ≤ 32 := by omega
      simp only [beq_iff_eq, masked_iff within.2, within, true_and]

theorem near_iff : Net.sharesNetwork a.addr a.prefixLen other = true ↔ Near a other := by
  unfold Net.sharesNetwork Near
  cases Net.parseIpv4 a.addr with
  | none => simp
  | some host =>
      cases Net.parseIpv4 other with
      | none => simp
      | some t => simp [sameNetwork_iff]

theorem Near.positive (h : Near a other) : 0 < a.prefixLen := by
  obtain ⟨_, _, _, _, positive, _⟩ := h
  exact positive

theorem onLocalSubnet_iff : onLocalSubnet other w.addresses = true ↔
    ∃ a ∈ w.addresses, Near a other := by
  unfold onLocalSubnet Near
  cases Net.parseIpv4 other with
  | none => simp
  | some t =>
      simp only [List.any_eq_true]
      refine exists_congr fun a => and_congr_right fun _ => ?_
      cases Net.parseIpv4 a.addr with
      | none => simp
      | some host => simp [sameNetwork_iff]

/-- A worker agrees exactly where the first of its interfaces that the address is near to can
be used. -/
theorem agreesOn_iff {rdmaDevices : String → Option String} :
    AgreesOn masterAddr rdmaDevices w ↔ NearestUsable masterAddr w := by
  constructor
  · rintro ⟨_, iface, named, usable⟩
    unfold collectiveBinding at named
    split at named
    · next a found =>
        obtain ⟨near, before, later, split_, none_⟩ := List.find?_eq_some_iff_append.mp found
        obtain ⟨before', later', addresses, first, rest⟩ := List.filter_eq_append_iff.mp split_
        obtain ⟨skipped, later'', rfl, unnamed, known, _⟩ := List.filter_eq_cons_iff.mp rest
        simp only [Bool.and_eq_true, decide_eq_true_eq] at known
        have iface_ : a.iface = iface := by
          simpa [bindInterface, known.2] using named
        refine ⟨before' ++ skipped, a, later'', by simp [addresses], known.2, near_iff.mp near, ?_, ?_⟩
        · intro b hb named_ nearby
          have positive := nearby.positive
          cases List.mem_append.mp hb with
          | inl hb =>
              have kept : b ∈ before := first ▸ List.mem_filter.mpr ⟨hb, by simp [positive, named_]⟩
              have away := none_ b kept
              rw [near_iff.mpr nearby] at away
              cases away
          | inr hb => exact unnamed b hb (by simp [positive, named_])
        · obtain ⟨u, hu, same, able⟩ := usable
          exact ⟨u, hu, same.trans iface_.symm, able⟩
    · cases named
  · rintro ⟨before, a, later, addresses, named, near, none_, usable⟩
    have member : a ∈ w.addresses := addresses ▸ List.mem_append_right _ List.mem_cons_self
    refine ⟨onLocalSubnet_iff.mpr ⟨a, member, near⟩, a.iface, ?_, usable⟩
    have found : ((w.addresses.filter fun a => 0 < a.prefixLen && a.iface ≠ "").find? fun a =>
        Net.sharesNetwork a.addr a.prefixLen masterAddr) = some a := by
      have positive := near.positive
      refine List.find?_eq_some_iff_append.mpr ⟨near_iff.mpr near,
        before.filter fun a => 0 < a.prefixLen && a.iface ≠ "",
        later.filter fun a => 0 < a.prefixLen && a.iface ≠ "", ?_, ?_⟩
      · rw [addresses, List.filter_append, List.filter_cons_of_pos (by simp [positive, named])]
      · intro b hb
        obtain ⟨hb, kept⟩ := List.mem_filter.mp hb
        simp only [Bool.and_eq_true, decide_eq_true_eq] at kept
        simpa using mt near_iff.mp (none_ b hb kept.2)
    unfold collectiveBinding
    simp only [found, bindInterface, if_neg named]
    rfl

theorem rendezvous_of_shared (shared : bestAddress (sharedAddresses headNode selected) = some master) :
    rendezvousAddress headNode selected = some master := by
  show (bestAddress (sharedAddresses headNode selected) <|> _) = _
  rw [shared]
  rfl

/-- Where every worker's own prefix lengths are known, no longer than the head's on the network
they share, and no other interface is near, all agree: a longer prefix is what can tell apart
two addresses that a shorter one does not. -/
theorem agree_of_shorter {rdmaDevices : String → Option String}
    (shared : bestAddress (sharedAddresses headNode selected) = some master) (member : w ∈ selected)
    (worker : w.id ≠ headNode.id) (named : ∀ a ∈ w.addresses, a.iface ≠ "")
    (shorter : ∀ a ∈ w.addresses, Near master a.addr → 0 < a.prefixLen ∧ a.prefixLen ≤ master.prefixLen)
    (alone : ∀ a ∈ w.addresses, Near a master.addr → a.link.usableForCluster = true) :
    AgreesOn master.addr rdmaDevices w := by
  obtain ⟨_, every⟩ := List.mem_filter.mp (bestAddress_spec shared).1
  have mine := List.all_eq_true.mp every w (List.mem_filter.mpr ⟨member, by simpa using worker⟩)
  obtain ⟨a, ha, meets⟩ := List.any_eq_true.mp mine
  simp only [Bool.and_eq_true] at meets
  have near := near_iff.mp meets.2
  obtain ⟨positive, less⟩ := shorter a ha near
  obtain ⟨t, host, master_, addr, _, within, agree⟩ := near
  have back : Near a master.addr :=
    ⟨host, t, addr, master_, positive, less.trans within, (agree.symm).mono less⟩
  have some_ : (w.addresses.find? fun a => Net.sharesNetwork a.addr a.prefixLen master.addr).isSome :=
    List.find?_isSome.mpr ⟨a, ha, near_iff.mpr back⟩
  obtain ⟨first, found⟩ := Option.isSome_iff_exists.mp some_
  obtain ⟨near, before, later, addresses, none_⟩ := List.find?_eq_some_iff_append.mp found
  have there : first ∈ w.addresses := addresses ▸ List.mem_append_right _ List.mem_cons_self
  refine agreesOn_iff.mpr ⟨before, first, later, addresses, named first there, near_iff.mp near, ?_,
    first, there, rfl, alone first there (near_iff.mp near)⟩
  intro b hb _ nearby
  have away := none_ b hb
  rw [near_iff.mpr nearby] at away
  cases away

end Networks

/-- A plan meets on an address that all share; the workers take it, each by its own prefix
lengths, exactly where the first interface it is near to is one a cluster can use. -/
theorem workers_agree_iff {recipe recipeHash epoch : String} {required : Nat}
    {selected : List NodeDescriptor} {head : NodeId} {settings : Settings} {p : ClusterPlan}
    {headNode : NodeDescriptor} {master : NodeAddress}
    (made : plan recipe recipeHash required selected head settings epoch = .ok p)
    (found : selected.find? (·.id = head) = some headNode)
    (shared : bestAddress (sharedAddresses headNode selected) = some master)
    (rdmaDevices : NodeId → String → Option String) :
    (∀ a ∈ p.ranks, a.masterAddr = master.addr) ∧
      ((∀ w ∈ selected, w.id ≠ head → AgreesOn master.addr (rdmaDevices w.id) w) ↔
        ∀ w ∈ selected, w.id ≠ head → NearestUsable master.addr w) := by
  obtain ⟨_, _, headNode', master', found', meets, rfl⟩ := plan_eq_ok.mp made
  cases found.symm.trans found'
  cases (rendezvous_of_shared shared).symm.trans meets
  exact ⟨fun a ha => (mem_assignments ha).2.2.1,
    forall₃_congr fun w _ _ => agreesOn_iff⟩

section Fixed

/-- The head's network is wider than the worker's, which has not got the head on it. -/
def uneven : List NodeDescriptor :=
  [linked 1 "head" true [⟨"eth0", "10.1.0.1", 16, .ethernet, some 1000, false⟩],
    linked 2 "peer" false [⟨"eth0", "10.1.2.1", 24, .ethernet, some 1000, false⟩]]

theorem workers_agree_pair : ∃ p, plan "qwen3" "f00d" 2 pair 1 [] "e1" = .ok p ∧
    ((∀ w ∈ pair, w.id ≠ 1 → AgreesOn "10.10.10.9" (fun _ => none) w) ↔
      ∀ w ∈ pair, w.id ≠ 1 → NearestUsable "10.10.10.9" w) := by
  have made : plan "qwen3" "f00d" 2 pair 1 [] "e1" = .ok (planned "qwen3" "f00d" pair [] "e1"
    (linked 1 "head" true [fabric "10.10.10.9"]) (fabric "10.10.10.9")) := rfl
  have shared : bestAddress (sharedAddresses (linked 1 "head" true [fabric "10.10.10.9"]) pair) =
    some (fabric "10.10.10.9") := by decide
  exact ⟨_, made, (workers_agree_iff made rfl shared fun _ _ => none).2⟩

/-- The head picks the address as shared, and the worker does not take it. -/
theorem uneven_disagrees : ∃ p, plan "qwen3" "f00d" 2 uneven 1 [] "e1" = .ok p ∧
    (∃ head ∈ uneven, head.id = 1 ∧ (bestAddress (sharedAddresses head uneven)).map (·.addr) =
      some "10.1.0.1") ∧
    ¬∀ w ∈ uneven, w.id ≠ 1 → AgreesOn "10.1.0.1" (fun _ => none) w := by
  refine ⟨_, rfl, ⟨_, List.mem_cons_self, rfl, by decide⟩, fun all => ?_⟩
  have agrees := all _ (List.mem_cons_of_mem _ List.mem_cons_self) (by decide)
  exact absurd agrees.accepts (by decide)

end Fixed

end Cluster
end Metralectl
