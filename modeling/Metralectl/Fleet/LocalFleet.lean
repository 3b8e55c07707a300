import Mathlib.Data.List.Sort
import Metralectl.Fleet.Node
import Metralectl.Library.Table
import Metralectl.Rank.RankService
import Metralectl.Trust.PinStore

/-!
What one agent knows about the machines around it, in tables kept apart by what
they are worth: sightings, which anybody can cause; reports, from a machine that
holds the pinned key; and claims, what such a machine says of its own pins.
-/
namespace Metralectl
namespace Fleet
open Tables

/-- A node absent for longer than this is reported as unreachable. -/
def unreachableAfter : Nat := 120 * second

def maxVouched : Nat := 64

/-- Most unpinned machines the sightings will hold. -/
def maxSightings : Nat := 256

structure Beacon where
  id : NodeId
  name : String
  peerPort : Nat
  addresses : List String
  canLaunch : Bool
  accelerator : String
deriving DecidableEq

structure Seen where
  beacon : Beacon
  at_ : Nat
deriving DecidableEq

/-- A first-person statement by the speaker: it has pinned this node, and this is
what the node told it. -/
structure VouchedPeer where
  node : NodeId
  name : String
  canLaunch : Bool
  accelerator : String
  os : String
  addresses : List NodeAddress
  link : LinkClass
  reachable : Bool
  vitals : Option NodeVitals
  vitalsAgeS : Option Nat
deriving DecidableEq

/-- What a peer said about itself over the authenticated channel. -/
structure PeerReport where
  node : NodeId
  name : String
  canLaunch : Bool
  accelerator : String
  os : String
  vitals : Option NodeVitals
  link : LinkClass
  addresses : List NodeAddress
  vouched : Option (List VouchedPeer)
  peerVersionMax : Nat
deriving DecidableEq

/-- Claims stand under their target and the voucher that made them. -/
abbrev Claims := Table (NodeId × NodeId) (VouchedPeer × Nat)

structure LocalFleet where
  id : NodeId
  name : String
  localAddresses : List NodeAddress
  launchability : Launchability
  accelerator : String
  agentVersion : String
  os : String
  vitals : NodeVitals
  running : Option String
  seen : Table NodeId Seen
  alerts : Table NodeId (List NodeAlert)
  reports : Table NodeId (PeerReport × Nat)
  claims : Claims

/-- A digest written over what its speaker claimed before. -/
def Claims.rewrite (claims : Claims) (via : NodeId) (now : Nat) (digest : List VouchedPeer) :
    Claims :=
  digest.foldl (fun cs entry => cs.insert (entry.node, via) (entry, now))
    (claims.keep fun k _ => k.2 ≠ via)

namespace LocalFleet

def observe (f : LocalFleet) (pins : Except String Trust.Pins) (now : Nat) (beacon : Beacon) :
    LocalFleet :=
  let pinned := pins.toOption.any fun p => (Trust.get? p beacon.id).isSome
  if beacon.id = f.id then f
  else if (f.seen.get? beacon.id).isNone && maxSightings ≤ f.seen.keys.length && !pinned then f
  else { f with seen := f.seen.insert beacon.id ⟨beacon, now⟩ }

def recordReport (f : LocalFleet) (now : Nat) (report : PeerReport) : LocalFleet :=
  { f with reports := f.reports.insert report.node (report, now) }

/-- Its vouches deliberately stay. -/
def clearReport (f : LocalFleet) (node : NodeId) : LocalFleet :=
  { f with reports := f.reports.erase node }

/-- Record a voucher's digest, replacing its previous claims wholesale. One that is
too long is refused, and entries that name this agent or the speaker are dropped. -/
def recordVouches (f : LocalFleet) (now : Nat) (via : NodeId) (digest : List VouchedPeer) :
    LocalFleet :=
  if maxVouched < digest.length then f
  else
    let kept := digest.filter fun entry => entry.node ≠ f.id ∧ entry.node ≠ via
    { f with claims := f.claims.rewrite via now kept }

def clearVouches (f : LocalFleet) (via : NodeId) : LocalFleet :=
  { f with claims := f.claims.keep fun k _ => k.2 ≠ via }

def pruneVouches (f : LocalFleet) (now : Nat) : LocalFleet :=
  { f with claims := f.claims.keep fun _ c => now - c.2 < unreachableAfter }

/-- Forget old sightings of peers that are not pinned, and old claims. -/
def prune (f : LocalFleet) (pins : Except String Trust.Pins) (now : Nat) : LocalFleet :=
  match pins with
  | .error _ => f.pruneVouches now
  | .ok pinned =>
      { f with seen := f.seen.keep fun id s =>
          (Trust.get? pinned id).isSome || now - s.at_ < unreachableAfter }.pruneVouches now

/-- Everything claimed about one target, in the order of its vouchers. -/
def byVoucher (f : LocalFleet) (target : NodeId) : List (NodeId × VouchedPeer) :=
  ((f.claims.entries.filter fun e => e.1.1 = target).map fun e => (e.1.2, e.2.1)).insertionSort
    fun a b => a.1 ≤ b.1

/-- A voucher is eligible if this agent can hear it and it says the target is
reachable; only a higher link rank beats one that was found before. -/
def better (f : LocalFleet) (best : Option (Nat × NodeId)) (claimed : NodeId × VouchedPeer) :
    Option (Nat × NodeId) :=
  if !claimed.2.reachable then best
  else
    match f.reports.get? claimed.1 with
    | none => best
    | some (ours, _) =>
        if best.all (·.1 < ours.link.rank) then some (ours.link.rank, claimed.1) else best

/-- The relay a control verb aimed at `target` would ride, when one exists. -/
def chooseVoucher (f : LocalFleet) (target : NodeId) : Option NodeId :=
  ((f.byVoucher target).foldl f.better none).map (·.2)

/-- The voucher whose claim describes `target`: the one that would be ridden, or
else the smallest. -/
def vouchOf (f : LocalFleet) (target : NodeId) : Option (NodeId × VouchedPeer) := do
  let claims := f.byVoucher target
  let voucher ← f.chooseVoucher target <|> claims.head?.map (·.1)
  let claim ← claims.lookup voucher
  return (voucher, claim)

def vouchedTargets (f : LocalFleet) : List NodeId :=
  ((f.claims.keys.map (·.1)).dedup).insertionSort (· ≤ ·)

end LocalFleet

/-- What a digest writes is keyed by its speaker and by what each entry names. -/
theorem Claims.get?_rewrite {claims : Claims} {via : NodeId} {now : Nat}
    {digest : List VouchedPeer} {k : NodeId × NodeId} {c : VouchedPeer × Nat}
    (h : (claims.rewrite via now digest).get? k = some c) :
    (k.2 = via ∧ c.1 ∈ digest ∧ c.1.node = k.1 ∧ c.2 = now) ∨
      (k.2 ≠ via ∧ claims.get? k = some c) := by
  have written : ∀ (digest : List VouchedPeer) (cs : Claims),
      (digest.foldl (fun cs entry => cs.insert (entry.node, via) (entry, now)) cs).get? k = some c →
      (k.2 = via ∧ c.1 ∈ digest ∧ c.1.node = k.1 ∧ c.2 = now) ∨ cs.get? k = some c := by
    intro digest
    induction digest with
    | nil => exact fun _ h => Or.inr h
    | cons entry rest ih =>
        intro cs h
        cases ih _ h with
        | inl new => exact Or.inl ⟨new.1, List.mem_cons_of_mem _ new.2.1, new.2.2⟩
        | inr old =>
            rw [Table.get?_insert] at old
            split at old
            · next here =>
                cases old
                subst here
                exact Or.inl ⟨rfl, List.mem_cons_self, rfl, rfl⟩
            · exact Or.inr old
  cases written digest _ h with
  | inl new => exact Or.inl new
  | inr old =>
      obtain ⟨there, other⟩ := Table.of_get?_keep old
      exact Or.inr ⟨by simpa using other, there⟩

namespace LocalFleet

theorem mem_byVoucher {f : LocalFleet} {target voucher : NodeId} {claim : VouchedPeer} :
    (voucher, claim) ∈ f.byVoucher target ↔
      ∃ at_, f.claims.get? (target, voucher) = some (claim, at_) := by
  simp only [byVoucher, List.mem_insertionSort, List.mem_map, List.mem_filter, decide_eq_true_iff,
    Prod.mk.injEq]
  constructor
  · rintro ⟨⟨⟨t, v⟩, c, at_⟩, ⟨member, rfl⟩, rfl, rfl⟩
    exact ⟨at_, Table.mem_entries.mp member⟩
  · rintro ⟨at_, there⟩
    exact ⟨_, ⟨Table.mem_entries.mpr there, rfl⟩, rfl, rfl⟩

/-- A chosen voucher has a live report, and a claim on the target that says it can
be reached. -/
theorem chooseVoucher_claim {f : LocalFleet} {target voucher : NodeId}
    (h : f.chooseVoucher target = some voucher) :
    (f.reports.get? voucher).isSome ∧
      ∃ claim at_, f.claims.get? (target, voucher) = some (claim, at_) ∧
        claim.reachable = true := by
  have chosen : ∀ (cs : List (NodeId × VouchedPeer)) (best : Option (Nat × NodeId)) (r : Nat)
      (v : NodeId), cs.foldl f.better best = some (r, v) → best = some (r, v) ∨
        (f.reports.get? v).isSome ∧ ∃ claim, (v, claim) ∈ cs ∧ claim.reachable = true := by
    intro cs
    induction cs with
    | nil => exact fun _ _ _ h => Or.inl h
    | cons c rest ih =>
        intro best r v h
        cases ih _ r v h with
        | inr later =>
            obtain ⟨live, claim, member, reachable⟩ := later
            exact Or.inr ⟨live, claim, List.mem_cons_of_mem _ member, reachable⟩
        | inl here =>
            simp only [better] at here
            split at here
            · exact Or.inl here
            · next reachable =>
                split at here
                · exact Or.inl here
                · next ours _ live =>
                    split at here
                    · cases here
                      exact Or.inr ⟨by simp [live], c.2, List.mem_cons_self,
                        by simpa using reachable⟩
                    · exact Or.inl here
  obtain ⟨⟨r, v⟩, found, rfl⟩ := Option.map_eq_some_iff.mp h
  cases chosen _ _ r v found with
  | inl none_ => cases none_
  | inr some_ =>
      obtain ⟨live, claim, member, reachable⟩ := some_
      obtain ⟨at_, there⟩ := mem_byVoucher.mp member
      exact ⟨live, claim, at_, there, reachable⟩

theorem vouchOf_claim {f : LocalFleet} {target voucher : NodeId} {claim : VouchedPeer}
    (h : f.vouchOf target = some (voucher, claim)) :
    ∃ at_, f.claims.get? (target, voucher) = some (claim, at_) := by
  simp only [vouchOf, Option.bind_eq_bind, Option.pure_def, Option.bind_eq_some_iff,
    Option.some.injEq, Prod.mk.injEq] at h
  obtain ⟨v, _, c, found, rfl, rfl⟩ := h
  obtain ⟨before, after, eq, _⟩ := List.lookup_eq_some_iff.mp found
  exact mem_byVoucher.mp (eq ▸ List.mem_append_right _ List.mem_cons_self)

/-- The voucher that would be ridden is the one that describes the target. -/
theorem vouchOf_chosen {f : LocalFleet} {target voucher : NodeId}
    (h : f.chooseVoucher target = some voucher) :
    ∃ claim, f.vouchOf target = some (voucher, claim) := by
  obtain ⟨_, claim, at_, there, _⟩ := chooseVoucher_claim h
  have member : (voucher, claim) ∈ f.byVoucher target := mem_byVoucher.mpr ⟨at_, there⟩
  cases found : (f.byVoucher target).lookup voucher with
  | none =>
      have absent := List.lookup_eq_none_iff.mp found (voucher, claim) member
      simp at absent
  | some c => exact ⟨c, by simp [vouchOf, h, found]⟩

end LocalFleet
end Fleet
end Metralectl
