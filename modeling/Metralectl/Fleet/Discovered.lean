import Metralectl.Fleet.ListingForm
import Metralectl.Fleet.Sightings
import Metralectl.Library.Simulation

/-!
What the beacons a view hears can change in it. Whatever they are and however many, the machines
that are trusted are the same, and so is the way to each of them: all that beacons add is a row for
a machine nobody trusts, and the label and whereabouts of one that does not answer.
-/
namespace Metralectl
namespace Fleet
open Cluster Tables Trust Runs
open LocalFleet (mem_rows onlyVouched_iff)

/-- What a view is told but for the beacons it hears. -/
def Update.trusted : Update → Option Update
  | .observe _ _ _ => none
  | u => some u

def NodeDescriptor.isTrusted (n : NodeDescriptor) : Bool :=
  n.pairing = .paired || n.pairing = .unreachable

/-- A row of a trusted machine without what a beacon may have put there. -/
def NodeDescriptor.attested (n : NodeDescriptor) : NodeDescriptor :=
  { n with name := "", addresses := [], launchability := .yes, accelerator := "", pairing := .paired }

namespace LocalFleet

/-- A view that has heard no beacon. -/
def deaf (f : LocalFleet) : LocalFleet := { f with seen := .empty }

def deafStep (f : LocalFleet) (u : Update) : Option LocalFleet := some (f.update u).deaf

section Views
variable {f f' : LocalFleet} {pinned : Pins} {now : Nat} {u : Update}

theorem deaf_observe (f : LocalFleet) (pins : Except String Pins) (now : Nat) (beacon : Beacon) :
    (f.observe pins now beacon).deaf = f.deaf := by
  obtain ⟨same, _⟩ | ⟨written, _⟩ := f.observe_cases pins now beacon
  · rw [same]
  · rw [written]
    rfl

/-- What else a view is told does to it what it does to one that has heard no beacon. -/
theorem deaf_update (told : u.trusted = some u) : (f.update u).deaf = (f.deaf.update u).deaf := by
  cases u with
  | observe _ _ _ => cases told
  | prune pins now => cases pins <;> rfl
  | recordVouches now via digest =>
      simp only [update, recordVouches]
      split
      · rfl
      · rfl
  | setAlerts node alerts =>
      simp only [update, setAlerts]
      split
      · rfl
      · rfl
  | recordReport _ _ | clearReport _ | clearVouches _ | setRunning _ | sample _ => rfl

theorem trusted_self {told : Update} (h : u.trusted = some told) : u = told := by
  cases u with
  | observe _ _ _ => cases h
  | _ => exact Option.some.inj h

/-- A view goes where one that hears no beacons goes. -/
theorem deaf_simulates : Simulates (Guarded step Free) (Guarded deafStep Free) Update.trusted
    fun f x => f.deaf = x where
  seen := by
    rintro f u g x told rfl ⟨_, hstep⟩ shown
    obtain rfl := Option.some.inj hstep
    obtain rfl := trusted_self shown
    exact ⟨_, ⟨trivial, rfl⟩, deaf_update shown⟩
  unseen := by
    rintro f u g x rfl ⟨_, hstep⟩ shown
    obtain rfl := Option.some.inj hstep
    cases u with
    | observe pins now beacon => exact deaf_observe f _ now beacon
    | _ => cases shown

/-- What does not look at the sightings is the same without them. -/
theorem same_of_deaf {α : Type} (same : f.deaf = f'.deaf) (look : LocalFleet → α)
    (away : ∀ g, look g = look g.deaf) : look f = look f' := by
  rw [away f, same, ← away f']

theorem pinnedRow_trusted (f : LocalFleet) (now : Nat) (pin : Pin) :
    (f.pinnedRow now pin).isTrusted = true := by
  simp only [NodeDescriptor.isTrusted, pinnedRow]
  split <;> rfl

theorem seenRow_untrusted (f : LocalFleet) (id : NodeId) (s : Seen) :
    (f.seenRow id s).isTrusted = false := rfl

theorem vouchedRow_untrusted (f : LocalFleet) (target voucher : NodeId) (claim : VouchedPeer) :
    (f.vouchedRow target voucher claim).isTrusted = false := rfl

/-- The trusted rows of a listing are that of this machine and those of the pins. -/
theorem trusted_nodes (f : LocalFleet) (pins : Except String PinSet) (now : Nat) :
    (f.listed pins now).nodes.filter (·.isTrusted) = f.localNode ::
      ((PinSet.read pins).insertionSort fun a b => a.id ≤ b.id).map (f.pinnedRow now) := by
  have paired (ps : Pins) : (ps.map (f.pinnedRow now)).filter (·.isTrusted) = ps.map (f.pinnedRow now) :=
    List.filter_eq_self.mpr fun row there => by
      obtain ⟨pin, _, rfl⟩ := List.mem_map.mp there
      exact pinnedRow_trusted f now pin
  have others : (f.listed pins now).nodes = f.localNode :: f.rows (PinSet.read pins) now := rfl
  rw [others, List.filter_cons_of_pos (by rfl), rows, List.filter_append, List.filter_append, paired]
  congr 1
  rw [List.append_assoc, List.append_right_eq_self, List.append_eq_nil_iff]
  refine ⟨List.filter_eq_nil_iff.mpr fun row there => ?_, List.filter_eq_nil_iff.mpr fun row there => ?_⟩
  · obtain ⟨e, _, rfl⟩ := List.mem_map.mp there
    rw [seenRow_untrusted]
    exact Bool.false_ne_true
  · obtain ⟨target, _, found⟩ := List.mem_filterMap.mp there
    obtain ⟨vouch, _, rfl⟩ := Option.map_eq_some_iff.mp found
    rw [vouchedRow_untrusted]
    exact Bool.false_ne_true

/-- Of a machine that has spoken for itself a beacon changes the shown name and nothing else. -/
theorem pinnedRow_speaking {pin : Pin} (same : f.deaf = f'.deaf)
    (speaks : (f.reports.get? pin.id).isSome) :
    { f.pinnedRow now pin with name := (f'.pinnedRow now pin).name } = f'.pinnedRow now pin := by
  have reports : f.reports = f'.reports := same_of_deaf same _ fun _ => rfl
  have vouch : f.vouchOf pin.id = f'.vouchOf pin.id :=
    same_of_deaf same (fun g => g.vouchOf pin.id) fun _ => rfl
  have alerts : f.alerts = f'.alerts := same_of_deaf same _ fun _ => rfl
  obtain ⟨report, spoke⟩ := Option.isSome_iff_exists.mp speaks
  have spoke' : f'.reports.get? pin.id = some report := reports ▸ spoke
  simp only [pinnedRow, spoke, spoke', vouch, alerts, Option.map_some, Option.isSome_some,
    Bool.true_or, if_true, pinnedAddresses]
  rfl

end Views

/-- What two listings of one machine have in common, whatever beacons it heard before each. -/
structure SameTrust (f : LocalFleet) (l l' : Listing) : Prop where
  attested : (l.nodes.filter (·.isTrusted)).map (·.attested) =
    (l'.nodes.filter (·.isTrusted)).map (·.attested)
  speaking : ∀ row ∈ l.nodes, row.isTrusted = true → (f.reports.get? row.id).isSome →
    ∃ row' ∈ l'.nodes, { row with name := row'.name } = row'
  /-- A machine that somebody vouches for is shown so, or as one that was seen. -/
  vouched : ∀ row ∈ l.nodes, row.pairing = .vouched → row ∈ l'.nodes ∨
    ∃ seen ∈ l'.nodes, seen.id = row.id ∧ seen.pairing = .discovered ∧ seen.vouchedBy = row.vouchedBy
  bare : ∀ row ∈ l.nodes, row.pairing = .discovered →
    row.vitals = none ∧ row.alerts = [] ∧ row.running = none ∧ row.reachedVia = none

section Listings
variable {f f' : LocalFleet} {pins : Except String PinSet} {now : Nat}

theorem listed_nodes {row : NodeDescriptor} : row ∈ (f.listed pins now).nodes ↔
    row = f.localNode ∨ row ∈ f.rows (PinSet.read pins) now := List.mem_cons

theorem sameTrust (same : f.deaf = f'.deaf) (pins : Except String PinSet) (now : Nat) :
    SameTrust f (f.listed pins now) (f'.listed pins now) where
  attested := by
    have rows (g : LocalFleet) : ((g.listed pins now).nodes.filter (·.isTrusted)).map (·.attested) =
        ((g.deaf.listed pins now).nodes.filter (·.isTrusted)).map (·.attested) := by
      rw [trusted_nodes, trusted_nodes, List.map_cons, List.map_cons, List.map_map, List.map_map]
      rfl
    rw [rows f, rows f', same]
  speaking row there trusted speaks := by
    have member := List.mem_filter.mpr ⟨there, trusted⟩
    rw [trusted_nodes] at member
    cases List.mem_cons.mp member with
    | inl here =>
        have own : f.localNode = f'.localNode := same_of_deaf same _ fun _ => rfl
        exact ⟨f'.localNode, listed_nodes.mpr (.inl rfl), by rw [here, own]⟩
    | inr other =>
        obtain ⟨pin, pinned, rfl⟩ := List.mem_map.mp other
        refine ⟨f'.pinnedRow now pin, listed_nodes.mpr (.inr (mem_rows.mpr (.inl ⟨pin, ?_, rfl⟩))),
          pinnedRow_speaking same speaks⟩
        exact (List.mem_insertionSort _).mp pinned
  vouched row there vouched := by
    obtain ⟨target, voucher, claim, only, vouch, rfl⟩ := vouchedRow_of (listed_nodes.mp there) vouched
    obtain ⟨unpinned, _, elsewhere⟩ := onlyVouched_iff.mp only
    have own : f.id = f'.id := same_of_deaf same _ fun _ => rfl
    have vouch' : f'.vouchOf target = some (voucher, claim) := by
      rw [← vouch]
      exact same_of_deaf same.symm (fun g => g.vouchOf target) fun _ => rfl
    cases seen : f'.seen.get? target with
    | none =>
        have row : f.vouchedRow target voucher claim = f'.vouchedRow target voucher claim :=
          same_of_deaf same (fun g => g.vouchedRow target voucher claim) fun _ => rfl
        refine .inl (listed_nodes.mpr (.inr (mem_rows.mpr (.inr (.inr ⟨target, voucher, claim,
          onlyVouched_iff.mpr ⟨unpinned, seen, own ▸ elsewhere⟩, vouch', row⟩)))))
    | some s =>
        refine .inr ⟨f'.seenRow target s,
          listed_nodes.mpr (.inr (mem_rows.mpr (.inr (.inl ⟨target, s, seen, unpinned, rfl⟩)))),
          rfl, rfl, ?_⟩
        simp only [seenRow, vouch', Option.map_some, vouchedRow]
  bare row there grey := by
    cases listed_nodes.mp there with
    | inl here =>
        rw [here] at grey
        cases grey
    | inr other =>
        cases mem_rows.mp other with
        | inl paired =>
            obtain ⟨pin, _, rfl⟩ := paired
            simp only [pinnedRow] at grey
            split at grey <;> cases grey
        | inr rest =>
            cases rest with
            | inl sighted =>
                obtain ⟨id, s, _, _, rfl⟩ := sighted
                exact ⟨rfl, rfl, rfl, rfl⟩
            | inr vouched =>
                obtain ⟨_, _, _, _, _, rfl⟩ := vouched
                cases grey

end Listings

/-- Discovery grants nothing. Two runs of a view that are told the same but for the beacons they
hear route every verb alike, and trust the same machines, about which they know the same. -/
theorem beacons_grant_nothing {facts f f' : LocalFleet} {us us' : List Update}
    (run : Run step Free facts.new us f) (run' : Run step Free facts.new us' f')
    (same : us.filterMap Update.trusted = us'.filterMap Update.trusted)
    (pins : Except String PinSet) (now : Nat) :
    (∀ target port, f.planControlRoute (pins.map (·.pins)) target port =
      f'.planControlRoute (pins.map (·.pins)) target port) ∧
    SameTrust f (f.listed pins now) (f'.listed pins now) := by
  obtain ⟨x, here, there⟩ := deaf_simulates.same deaf_simulates run run' rfl rfl same
  have alike : f.deaf = f'.deaf := here.trans there.symm
  refine ⟨fun target port => ?_, sameTrust alike pins now⟩
  exact same_of_deaf alike (fun g => g.planControlRoute (pins.map (·.pins)) target port) fun _ => rfl

section Fixed

def noPins : Except String PinSet := .ok ⟨[], List.nodup_nil⟩

/-- What anybody on the network can tell. -/
def strangerBeacon : Beacon := ⟨9, "spark-256a", 34334, ["10.0.0.9"], true, "GB10"⟩

/-- A machine alone, and the same one once it has heard a beacon. -/
theorem beacons_grant_nothing_stranger :
    (alone.new.observe (.ok []) 0 strangerBeacon).planControlRoute (.ok []) 9 34334 =
      alone.new.planControlRoute (.ok []) 9 34334 ∧
    SameTrust (alone.new.observe (.ok []) 0 strangerBeacon)
      ((alone.new.observe (.ok []) 0 strangerBeacon).listed noPins 0) (alone.new.listed noPins 0) := by
  have heard : Run step Free alone.new [.observe noPins 0 strangerBeacon]
      (alone.new.observe (.ok []) 0 strangerBeacon) := .cons ⟨trivial, rfl⟩ (.nil _)
  obtain ⟨routes, trust⟩ := beacons_grant_nothing heard (.nil alone.new) rfl noPins 0
  exact ⟨routes 9 34334, trust⟩

end Fixed

end LocalFleet
end Fleet
end Metralectl
