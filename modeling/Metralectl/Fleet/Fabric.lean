import Metralectl.Core.Nvidia
import Metralectl.Fleet.Node
import Metralectl.Library.StableSort
import Mathlib.Data.String.Basic

/-!
The links a machine has, and the addresses another one may reach it at. What the kernel says of an
interface is kept apart from the judgement on it.
-/
namespace Metralectl
namespace Fleet

/-- What the system says of one interface. -/
structure RawIface where
  name : String
  addrs : List String
  carrier : Bool
  speedMbps : Option Nat
  arpType : Nat
  wireless : Bool
  rdma : Bool
deriving DecidableEq, Repr

def arphrdLoopback : Nat := 772

def virtualPrefixes : List String := ["docker", "br-", "veth", "virbr", "dummy", "tun", "tap"]

def macosVirtualPrefixes : List String :=
  ["bridge", "utun", "awdl", "llw", "ap1", "vmenet", "anpi", "gif", "stf"]

/-- What kind of link an interface is. A loopback is told first, a software construct by its name,
whatever else is said of it. -/
def classify (raw : RawIface) : LinkClass :=
  if raw.arpType = arphrdLoopback ∨ raw.name = "lo" then .loopback
  else if (virtualPrefixes ++ macosVirtualPrefixes).any
      fun front => front.toList.isPrefixOf raw.name.toList then .virtual
  else if raw.rdma then .roce
  else if raw.wireless then .wireless
  else .ethernet

/-- An address without its prefix length, which is zero where it is not known. -/
def splitPrefix (raw : String) : String × Nat :=
  let host := raw.toList.takeWhile (· ≠ '/')
  match raw.toList.drop host.length with
  | [] => (raw, 0)
  | _ :: len => (String.ofList host, (Nvidia.parseUnsigned 8 len).getD 0)

def addressesOf (r : RawIface) : List NodeAddress :=
  r.addrs.map fun raw =>
    let (host, length) := splitPrefix raw
    ⟨r.name, host, length, classify r, r.speedMbps, r.rdma⟩

/-- The best link first, then the fastest, then by name. -/
def notAfter (a b : NodeAddress) : Bool :=
  b.link.rank < a.link.rank ||
    (b.link.rank = a.link.rank && (b.speedMbps.getD 0 < a.speedMbps.getD 0 ||
      (b.speedMbps.getD 0 = a.speedMbps.getD 0 && a.iface ≤ b.iface)))

/-- The addresses a peer may be reached on. What carries no collective may still be dialled. -/
def reachableAddresses (raws : List RawIface) : List NodeAddress :=
  (((raws.filter (·.carrier)).flatMap addressesOf).filter (·.link.usableForControl)).mergeSort notAfter

section Order
variable {a b c : NodeAddress} {r : RawIface} {raws raws' : List RawIface}

theorem notAfter_iff : notAfter a b = true ↔
    b.link.rank < a.link.rank ∨ b.link.rank = a.link.rank ∧
      (b.speedMbps.getD 0 < a.speedMbps.getD 0 ∨
        b.speedMbps.getD 0 = a.speedMbps.getD 0 ∧ a.iface ≤ b.iface) := by
  simp only [notAfter, Bool.or_eq_true, Bool.and_eq_true, decide_eq_true_eq]

theorem notAfter_trans (a b c : NodeAddress) (ab : notAfter a b = true) (bc : notAfter b c = true) :
    notAfter a c = true := by
  rw [notAfter_iff] at ab bc ⊢
  rcases ab with better | ⟨rank, faster | ⟨speed, name⟩⟩
  · rcases bc with better' | ⟨rank', _⟩
    · exact .inl (better'.trans better)
    · exact .inl (rank' ▸ better)
  · rcases bc with better' | ⟨rank', faster' | ⟨speed', _⟩⟩
    · exact .inl (rank ▸ better')
    · exact .inr ⟨rank'.trans rank, .inl (faster'.trans faster)⟩
    · exact .inr ⟨rank'.trans rank, .inl (speed' ▸ faster)⟩
  · rcases bc with better' | ⟨rank', faster' | ⟨speed', name'⟩⟩
    · exact .inl (rank ▸ better')
    · exact .inr ⟨rank'.trans rank, .inl (speed ▸ faster')⟩
    · exact .inr ⟨rank'.trans rank, .inr ⟨speed'.trans speed, name.trans name'⟩⟩

theorem notAfter_total (a b : NodeAddress) : (notAfter a b || notAfter b a) = true := by
  rw [Bool.or_eq_true, notAfter_iff, notAfter_iff]
  rcases Nat.lt_trichotomy a.link.rank b.link.rank with less | same | more
  · exact .inr (.inl less)
  · rcases Nat.lt_trichotomy (a.speedMbps.getD 0) (b.speedMbps.getD 0) with less | speed | more
    · exact .inr (.inr ⟨same, .inl less⟩)
    · cases le_total a.iface b.iface with
      | inl le => exact .inl (.inr ⟨same.symm, .inr ⟨speed.symm, le⟩⟩)
      | inr le => exact .inr (.inr ⟨same, .inr ⟨speed, le⟩⟩)
    · exact .inl (.inr ⟨same.symm, .inl more⟩)
  · exact .inl (.inl more)

/-- Addresses that no order tells apart are of one interface. -/
theorem iface_of_alike (like : StableSort.alike notAfter a b = true) : a.iface = b.iface := by
  rw [StableSort.alike, Bool.and_eq_true, notAfter_iff, notAfter_iff] at like
  obtain ⟨ab, ba⟩ := like
  rcases ab with better | ⟨rank, faster | ⟨speed, name⟩⟩
  · rcases ba with better' | ⟨rank', _⟩
    · omega
    · omega
  · rcases ba with better' | ⟨_, faster' | ⟨speed', _⟩⟩
    · omega
    · omega
    · omega
  · rcases ba with better' | ⟨_, faster' | ⟨_, name'⟩⟩
    · omega
    · omega
    · exact le_antisymm name name'

/-- The addresses one interface offers to others. -/
def offered (r : RawIface) : List NodeAddress :=
  if r.carrier then (addressesOf r).filter (·.link.usableForControl) else []

theorem offered_eq : ((raws.filter (·.carrier)).flatMap addressesOf).filter (·.link.usableForControl) =
    raws.flatMap offered := by
  induction raws with
  | nil => rfl
  | cons r raws ih =>
      rw [List.flatMap_cons, ← ih, offered]
      cases up : r.carrier with
      | true =>
          rw [List.filter_cons_of_pos (by simpa using up), List.flatMap_cons, List.filter_append]
          rfl
      | false =>
          rw [List.filter_cons_of_neg (by simp [up])]
          rfl

theorem iface_of_offered (h : a ∈ offered r) : a.iface = r.name := by
  unfold offered at h
  split at h
  · obtain ⟨raw, _, rfl⟩ := List.mem_map.mp (List.mem_of_mem_filter h)
    rfl
  · cases h

/-- To its own class an address shows only what its own interface offers. -/
theorem filter_offered (a : NodeAddress) (raws : List RawIface) :
    (raws.flatMap offered).filter (StableSort.alike notAfter a) =
      ((raws.filter (·.name = a.iface)).flatMap offered).filter (StableSort.alike notAfter a) := by
  induction raws with
  | nil => rfl
  | cons r raws ih =>
      rw [List.flatMap_cons, List.filter_append, ih]
      by_cases own : r.name = a.iface
      · rw [List.filter_cons_of_pos (by simpa using own), List.flatMap_cons, List.filter_append]
      · rw [List.filter_cons_of_neg (by simpa using own)]
        have none_ : (offered r).filter (StableSort.alike notAfter a) = [] := by
          refine List.filter_eq_nil_iff.mpr fun b hb like => own ?_
          rw [← iface_of_offered hb, iface_of_alike like]
        rw [none_, List.nil_append]

/-- Interfaces of different names, looked up by one of them, are at most one. -/
theorem filter_name_eq (names : (raws.map (·.name)).Nodup) (perm : raws.Perm raws') (name : String) :
    raws.filter (·.name = name) = raws'.filter (·.name = name) := by
  have same := perm.filter (·.name = name)
  have one : (raws.filter (·.name = name)).length ≤ 1 := by
    have count := List.nodup_iff_count_le_one.mp names name
    rw [List.count_eq_length_filter, List.filter_map, List.length_map] at count
    refine Nat.le_trans (Nat.le_of_eq ?_) count
    congr 1
  cases found : raws.filter (·.name = name) with
  | nil =>
      rw [found] at same
      exact (List.nil_perm.mp same).symm
  | cons r rest =>
      rw [found] at same one
      cases rest with
      | nil => exact (List.perm_singleton.mp same.symm).symm
      | cons _ _ => simp at one

/-- What a machine offers does not depend on the order the kernel lists its interfaces in: of every
interface that is up and can be dialled each address, the best link first. -/
theorem reachable_settled (names : (raws.map (·.name)).Nodup) (perm : raws.Perm raws') :
    reachableAddresses raws' = reachableAddresses raws ∧
    (reachableAddresses raws).Pairwise (fun a b => notAfter a b = true) ∧
    ∀ a, a ∈ reachableAddresses raws ↔ ∃ r ∈ raws, r.carrier = true ∧
      (classify r).usableForControl = true ∧ a ∈ addressesOf r := by
  refine ⟨?_, List.pairwise_mergeSort notAfter_trans notAfter_total _, ?_⟩
  · rw [reachableAddresses, reachableAddresses, offered_eq, offered_eq]
    refine StableSort.mergeSort_eq notAfter_trans notAfter_total fun a => ?_
    rw [filter_offered, filter_offered a raws, filter_name_eq names perm]
  · intro a
    have link {r : RawIface} (h : a ∈ addressesOf r) : a.link = classify r := by
      obtain ⟨raw, _, rfl⟩ := List.mem_map.mp h
      rfl
    rw [reachableAddresses, List.mem_mergeSort, List.mem_filter, List.mem_flatMap]
    constructor
    · rintro ⟨⟨r, up, there⟩, usable⟩
      exact ⟨r, (List.mem_filter.mp up).1, (List.mem_filter.mp up).2, link there ▸ usable, there⟩
    · rintro ⟨r, member, up, usable, there⟩
      exact ⟨⟨r, List.mem_filter.mpr ⟨member, up⟩, there⟩, (link there).symm ▸ usable⟩

end Order

section Instances

/-- A machine with a bridge, a dummy that carries the documented address, and two cabled links. -/
def spark : List RawIface :=
  [⟨"docker0", ["172.17.0.1/16"], true, none, 1, false, false⟩,
    ⟨"dummy0", ["10.10.10.1/32"], true, none, 1, false, false⟩,
    ⟨"wlP9s9", ["192.168.1.5/24"], true, none, 1, true, false⟩,
    ⟨"enp1s0f0np0", ["10.10.10.9/30"], true, some 200000, 1, false, true⟩,
    ⟨"enp1s0f1np1", ["10.10.10.13/30"], false, none, 1, false, true⟩]

/-- The wireless link is offered, and the address on the dummy is not. -/
theorem reachable_settled_spark :
    reachableAddresses spark.reverse = reachableAddresses spark ∧
      (∃ a ∈ reachableAddresses spark, a.addr = "192.168.1.5") ∧
      ∀ a ∈ reachableAddresses spark, a.addr ≠ "10.10.10.1" := by
  have names : (spark.map (·.name)).Nodup := by decide
  obtain ⟨order, _, members⟩ := reachable_settled names (List.reverse_perm spark).symm
  refine ⟨order, ?_, ?_⟩
  · refine ⟨⟨"wlP9s9", "192.168.1.5", 24, .wireless, none, false⟩, (members _).mpr ?_, rfl⟩
    decide +kernel
  · intro a ha
    obtain ⟨r, member, up, usable, there⟩ := (members a).mp ha
    have dialled : ∀ r ∈ spark, r.carrier = true → (classify r).usableForControl = true →
        ∀ a ∈ addressesOf r, a.addr ≠ "10.10.10.1" := by decide +kernel
    exact dialled r member up usable a there

end Instances

end Fleet
end Metralectl
