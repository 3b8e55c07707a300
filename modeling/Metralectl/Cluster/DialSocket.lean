import Mathlib.Data.List.TakeWhile
import Metralectl.Cluster.Consistent
import Metralectl.Core.Text

/-!
Two ways from an address to a socket: the peer poll parses the address and attaches the port the
peer announced; the driver of a cluster writes its own port behind the address and parses the
text. A reader of a dotted address stops at a colon, so what stands behind one does not matter.
-/
namespace Metralectl
namespace Net

/-- Where to dial one peer: its address, and the port it announced. -/
def dialSocket (addr : String) (advertised : Option Nat) (fallback : Nat) : Option (IpAddr × Nat) :=
  (parseIp addr).map fun ip => (ip, advertised.getD fallback)

section Readers
variable {cs x : List Char} {T : Type}

/-- A reader that takes the same off the front when a colon follows. -/
def StopsAtColon (read : List Char → Option (T × List Char)) : Prop :=
  ∀ cs x, read (cs ++ ':' :: x) = (read cs).map fun r => (r.1, r.2 ++ ':' :: x)

theorem stops_number (zeroPrefix : Bool) (maxDigits : Option Nat) (bound : Nat) :
    StopsAtColon (readNumber 10 maxDigits zeroPrefix bound) := by
  intro cs x
  have digits : (cs ++ ':' :: x).takeWhile (fun c => (digitOf 10 c).isSome) =
      cs.takeWhile fun c => (digitOf 10 c).isSome := by
    rw [List.takeWhile_append]
    split
    · next all =>
        have colon : (':' :: x).takeWhile (fun c => (digitOf 10 c).isSome) = [] := rfl
        rw [colon, List.append_nil]
        exact ((List.takeWhile_prefix _).eq_of_length all).symm
    · rfl
  have rest : (cs ++ ':' :: x).drop (cs.takeWhile fun c => (digitOf 10 c).isSome).length =
      cs.drop (cs.takeWhile fun c => (digitOf 10 c).isSome).length ++ ':' :: x :=
    List.drop_append_of_le_length (List.takeWhile_prefix _).length_le
  simp only [readNumber, digits, rest]
  split
  · rfl
  · split
    · rfl
    · split <;> rfl

theorem stops_separator {read : List Char → Option (T × List Char)} (stops : StopsAtColon read)
    (index : Nat) : StopsAtColon (readSeparator '.' index read) := by
  intro cs x
  unfold readSeparator
  split
  · exact stops cs x
  · cases cs with
    | nil => rfl
    | cons c cs =>
        simp only [List.cons_append, readGiven]
        split
        · exact stops cs x
        · rfl

theorem stops_octets (n : Nat) : StopsAtColon (readOctets n) := by
  induction n with
  | zero => exact fun _ _ => rfl
  | succ n ih =>
      intro cs x
      have first := stops_separator (stops_number false (some 3) 256) (3 - n) cs x
      simp only [readOctets, bind, Option.bind]
      rw [first]
      cases readSeparator '.' (3 - n) (readNumber 10 (some 3) false 256) cs with
      | none => rfl
      | some octet =>
          simp only [Option.map_some]
          rw [ih]
          cases readOctets n octet.2 <;> rfl

theorem stops_ipv4 : StopsAtColon readIpv4 := by
  intro cs x
  simp only [readIpv4, stops_octets 4 cs x, Option.map_map]
  rfl

theorem digitOf_ten {c : Char} (digit : c.isDigit = true) :
    digitOf 10 c = some (c.toNat - '0'.toNat) := by
  have small : c.toNat - '0'.toNat < 10 := by
    simp only [Char.isDigit, Bool.and_eq_true, decide_eq_true_eq, UInt32.le_iff_toNat_le] at digit
    have upper : c.toNat ≤ 57 := digit.2
    show c.toNat - 48 < 10
    omega
  simpa [digitOf, digit] using small

/-- A port is read as it is printed. -/
theorem readNumber_toDigits {port bound : Nat} (small : port < bound) :
    readNumber 10 none true bound (Nat.toDigits 10 port) = some (port, []) := by
  have digit (c : Char) (hc : c ∈ Nat.toDigits 10 port) : c.isDigit = true :=
    Nat.isDigit_of_mem_toDigits (by decide) (by decide) hc
  have whole : (Nat.toDigits 10 port).takeWhile (fun c => (digitOf 10 c).isSome) =
      Nat.toDigits 10 port :=
    List.takeWhile_eq_self_iff.mpr fun c hc => by rw [digitOf_ten (digit c hc)]; rfl
  have folded (cs : List Char) (all : ∀ c ∈ cs, c.isDigit = true) (n : Nat) :
      (cs.filterMap (digitOf 10)).foldl (fun n d => n * 10 + d) n = Nat.ofDigitChars 10 cs n := by
    induction cs generalizing n with
    | nil => rfl
    | cons c cs ih =>
        obtain ⟨first, all⟩ := List.forall_mem_cons.mp all
        rw [List.filterMap_cons, digitOf_ten first, Nat.ofDigitChars_cons]
        simp only [List.foldl_cons]
        rw [ih all, Nat.mul_comm]
  have value := folded _ digit 0
  rw [Nat.ofDigitChars_ten_toDigits] at value
  have some_ : (Nat.toDigits 10 port).isEmpty = false := by
    cases none_ : Nat.toDigits 10 port with
    | nil => exact absurd none_ Nat.toDigits_ne_nil
    | cons _ _ => rfl
  simp [readNumber, whole, value, some_, small]

theorem readIp_v4 {ip : BitVec 32} (h : readIp cs = some (.v4 ip, [])) : readIpv4 cs = some (ip, []) := by
  unfold readIp at h
  split at h
  · next bits rest read =>
      cases h
      exact read
  · obtain ⟨r, _, same⟩ := Option.map_eq_some_iff.mp h
    cases same

theorem readIp_v6 {ip : BitVec 128} (h : readIp cs = some (.v6 ip, [])) :
    readIpv4 cs = none ∧ readIpv6 cs = some (ip, []) := by
  unfold readIp at h
  split at h
  · cases h
  · next none_ =>
      obtain ⟨⟨bits, rest⟩, read, same⟩ := Option.map_eq_some_iff.mp h
      simp only [Prod.mk.injEq, IpAddr.v6.injEq] at same
      obtain ⟨rfl, rfl⟩ := same
      exact ⟨none_, read⟩

end Readers

section Sockets
variable {addr : String} {port : Nat}

theorem parseIp_eq {ip : IpAddr} : parseIp addr = some ip ↔ readIp addr.toList = some (ip, []) := by
  unfold parseIp parseWith
  split
  · next v read => simp [read]
  · next other =>
      refine iff_of_false (Option.some_ne_none _).symm fun read => ?_
      exact other ip read

theorem socketText : s!"{addr}:{port}".toList = addr.toList ++ ':' :: Nat.toDigits 10 port := by
  simp [toString]

/-- A dotted address and a port are read back. -/
theorem parseSocket_v4 {ip : BitVec 32} (small : port < 2 ^ 16) (h : parseIp addr = some (.v4 ip)) :
    parseSocket s!"{addr}:{port}" = some (.v4 ip, port) := by
  have read := readIp_v4 (parseIp_eq.mp h)
  have number : readPort (':' :: Nat.toDigits 10 port) = some (port, []) := readNumber_toDigits small
  have first : readIpv4 (addr.toList ++ ':' :: Nat.toDigits 10 port) =
      some (ip, ':' :: Nat.toDigits 10 port) := by
    rw [stops_ipv4, read]
    rfl
  have socket : readSocket (addr.toList ++ ':' :: Nat.toDigits 10 port) = some ((.v4 ip, port), []) := by
    simp only [readSocket, first, bind, Option.bind, number]
    rfl
  simp only [parseSocket, parseWith, socketText, socket]

/-- A colon-separated address has no brackets around it, and is no socket with a port behind. -/
theorem parseSocket_v6 {ip : BitVec 128} (h : parseIp addr = some (.v6 ip)) :
    parseSocket s!"{addr}:{port}" = none := by
  obtain ⟨dotted, read⟩ := readIp_v6 (parseIp_eq.mp h)
  have first : readIpv4 (addr.toList ++ ':' :: Nat.toDigits 10 port) = none := by
    rw [stops_ipv4, dotted]
    rfl
  have unbracketed : readGiven '[' (addr.toList ++ ':' :: Nat.toDigits 10 port) = none := by
    cases chars : addr.toList with
    | nil => rfl
    | cons c cs =>
        rw [chars] at read
        simp only [List.cons_append, readGiven]
        split
        · next bracket =>
            subst bracket
            cases read
        · rfl
  have socket : readSocket (addr.toList ++ ':' :: Nat.toDigits 10 port) = none := by
    simp only [readSocket, first, unbracketed, bind, Option.bind]
    rfl
  simp only [parseSocket, parseWith, socketText, socket]

end Sockets
end Net

namespace Cluster
open Fleet

/-- The socket that the text of an address and a port is parsed to. -/
def SocketAddr.socket (s : SocketAddr) : Option (Net.IpAddr × Nat) :=
  Net.parseSocket s!"{s.ip}:{s.port}"

/-- The ceremonies dial a machine at the socket at which the poll finds it. -/
def OneRule (h : Head) (node : NodeDescriptor) (a : NodeAddress) (advertised : Option Nat) : Prop :=
  ∃ s, h.addressOf node = .ok (some s) ∧
    s.socket = Net.dialSocket a.addr advertised h.peerPort

/-- They do for dotted addresses of machines that announce the driver's own port, or none. -/
theorem one_rule_iff {h : Head} {node : NodeDescriptor} {a : NodeAddress} {ip : Net.IpAddr}
    {advertised : Option Nat} (own : h.peerPort < 2 ^ 16) (away : node.isLocal = false)
    (picks : bestReachable node.addresses h.fleet.here.addresses = some a)
    (parsed : Net.parseIp a.addr = some ip) :
    OneRule h node a advertised ↔ (∃ bits, ip = .v4 bits) ∧ advertised.getD h.peerPort = h.peerPort := by
  have dials : Net.dialSocket a.addr advertised h.peerPort =
      some (ip, advertised.getD h.peerPort) := by
    rw [Net.dialSocket, parsed]
    rfl
  unfold OneRule
  rw [dials]
  cases ip with
  | v4 bits =>
      have socket := Net.parseSocket_v4 own parsed
      have resolved : h.addressOf node = .ok (some ⟨a.addr, h.peerPort⟩) := by
        simp only [Head.addressOf, away, picks, socket]
        rfl
      rw [resolved]
      constructor
      · rintro ⟨s, found, same⟩
        cases found
        rw [SocketAddr.socket, socket, Option.some.injEq, Prod.mk.injEq] at same
        exact ⟨⟨bits, rfl⟩, same.2.symm⟩
      · rintro ⟨_, port⟩
        exact ⟨_, rfl, by rw [SocketAddr.socket, socket, port]⟩
  | v6 bits =>
      have socket := @Net.parseSocket_v6 _ h.peerPort _ parsed
      have unresolved : h.addressOf node =
          .error s!"{node.name} has an address we cannot dial" := by
        simp only [Head.addressOf, away, picks, socket]
        rfl
      rw [unresolved]
      constructor
      · rintro ⟨s, found, _⟩
        cases found
      · rintro ⟨⟨bits', same⟩, _⟩
        cases same

section Fixed

/-- The driver of the first of two machines; its peers listen where it does. -/
def driving (peer : NodeAddress) : Head where
  fleet := {
    here := linked 1 "head" true [fabric "10.10.10.9"]
    others := [linked 2 "peer" false [peer]]
    here_local := rfl
    others_remote := by
      intro n hn
      rw [List.mem_singleton.mp hn]
      rfl }
  contentHash := fun _ => .ok "f00d"
  recipePort := fun _ => .ok none
  peerPort := 34334

theorem one_rule_iff_fabric :
    OneRule (driving (fabric "10.10.10.10")) (linked 2 "peer" false [fabric "10.10.10.10"])
      (fabric "10.10.10.10") none :=
  (@one_rule_iff _ _ _ (.v4 0x0A0A0A0A) _ (by decide) rfl (by decide) (by decide)).mpr
    ⟨⟨_, rfl⟩, rfl⟩

def sixth : NodeAddress := ⟨"eth0", "fe80::1", 0, .ethernet, none, false⟩

/-- The poll dials a machine by its sixth-version address, the driver cannot. -/
theorem sixth_undialled :
    Net.dialSocket "fe80::1" none 34334 = some (.v6 0xFE800000000000000000000000000001, 34334) ∧
    (driving sixth).addressOf (linked 2 "peer" false [sixth]) =
      .error "peer has an address we cannot dial" ∧
    ¬OneRule (driving sixth) (linked 2 "peer" false [sixth]) sixth none := by
  have refused : (driving sixth).addressOf (linked 2 "peer" false [sixth]) =
      .error "peer has an address we cannot dial" := by decide +kernel
  refine ⟨by decide, refused, ?_⟩
  rintro ⟨s, found, _⟩
  rw [refused] at found
  cases found

end Fixed
end Cluster
end Metralectl
