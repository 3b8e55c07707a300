import Metralectl.Fleet.LocalFleet

/-!
What beacons can do to the table of sightings. Anybody can send one: strangers fill the table up
to a cap and are refused after that, and what is pinned has its place whatever else there is.
-/
namespace Metralectl
namespace Fleet
open Tables Trust

/-- The pin store and the sightings beside it, with what the store was when each node came in. -/
structure Sightings where
  pins : Pins
  fleet : LocalFleet
  stood : NodeId → Pins

/-- What happens to the table. A store is readable or it is not, whatever it holds. -/
inductive Sighting where
  | observe (readable : Except String Unit) (now : Nat) (beacon : Beacon)
  | prune (readable : Except String Unit) (now : Nat)
  /-- Somebody pairs or unpairs. -/
  | store (pins : Pins)

/-- What the store says to whoever loads it. -/
def load (pins : Pins) (readable : Except String Unit) : Except String Pins :=
  readable.map fun _ => pins

namespace LocalFleet
variable {f : LocalFleet} {pins : Except String Pins} {now : Nat} {beacon : Beacon}

/-- A beacon is turned away, or it is written and nothing else is. -/
theorem observe_cases (f : LocalFleet) (pins : Except String Pins) (now : Nat) (beacon : Beacon) :
    (f.observe pins now beacon = f ∧
      (beacon.id = f.id ∨ f.seen.get? beacon.id = none ∧
        (pins.toOption.any fun p => (get? p beacon.id).isSome) = false)) ∨
    (f.observe pins now beacon = { f with seen := f.seen.insert beacon.id ⟨beacon, now⟩ } ∧
      ((f.seen.get? beacon.id).isSome ∨ f.seen.keys.length < maxSightings ∨
        (pins.toOption.any fun p => (get? p beacon.id).isSome) = true)) := by
  unfold observe
  dsimp only
  by_cases own : beacon.id = f.id
  · exact Or.inl ⟨if_pos own, Or.inl own⟩
  · rw [if_neg own]
    cases known : f.seen.get? beacon.id with
    | some s => exact Or.inr ⟨by simp, Or.inl rfl⟩
    | none =>
        by_cases room : f.seen.keys.length < maxSightings
        · exact Or.inr ⟨by simp [Nat.not_le.mpr room], Or.inr (Or.inl room)⟩
        · cases pinned : pins.toOption.any fun p => (get? p beacon.id).isSome with
          | true => exact Or.inr ⟨by simp, Or.inr (Or.inr rfl)⟩
          | false => exact Or.inl ⟨by simp [Nat.not_lt.mp room], Or.inr ⟨rfl, rfl⟩⟩

theorem observe_id : (f.observe pins now beacon).id = f.id := by
  obtain ⟨same, _⟩ | ⟨written, _⟩ := f.observe_cases pins now beacon
  · rw [same]
  · rw [written]

/-- No beacon pushes another node out. -/
theorem observe_other {id : NodeId} (other : id ≠ beacon.id) :
    (f.observe pins now beacon).seen.get? id = f.seen.get? id := by
  obtain ⟨same, _⟩ | ⟨written, _⟩ := f.observe_cases pins now beacon
  · rw [same]
  · rw [written, Table.get?_insert, if_neg other]

theorem observe_pinned {pinned : Pins} (other : beacon.id ≠ f.id)
    (there : (get? pinned beacon.id).isSome) :
    (f.observe (.ok pinned) now beacon).seen.get? beacon.id = some ⟨beacon, now⟩ := by
  obtain ⟨_, own | ⟨_, absent⟩⟩ | ⟨written, _⟩ := f.observe_cases (.ok pinned) now beacon
  · exact absurd own other
  · rw [Except.toOption, Option.any_some, there] at absent
    cases absent
  · rw [written, Table.get?_insert, if_pos rfl]

@[simp] theorem prune_id : (f.prune pins now).id = f.id := by
  cases pins <;> rfl

theorem prune_error (e : String) : (f.prune (.error e) now).seen = f.seen := rfl

/-- Nothing comes in, and what is pinned stays. -/
theorem prune_ok (pinned : Pins) :
    (f.prune (.ok pinned) now).seen = f.seen.keep fun id s =>
      (get? pinned id).isSome || now - s.at_ < unreachableAfter := rfl

theorem prune_pinned {pinned : Pins} {id : NodeId} (there : (get? pinned id).isSome) :
    (f.prune (.ok pinned) now).seen.get? id = f.seen.get? id := by
  rw [prune_ok, Table.get?_keep]
  cases f.seen.get? id <;> simp [there]

end LocalFleet

namespace Sightings

def start (facts : LocalFleet) (pins : Pins) : Sightings :=
  ⟨pins, { facts with seen := .empty }, fun _ => pins⟩

/-- A node is admitted when a beacon finds it unknown and writes it. -/
def step (s : Sightings) : Sighting → Sightings
  | .observe readable now beacon =>
      { s with
        fleet := s.fleet.observe (load s.pins readable) now beacon
        stood := fun id =>
          if id = beacon.id ∧ s.fleet.seen.get? id = none then s.pins else s.stood id }
  | .prune readable now => { s with fleet := s.fleet.prune (load s.pins readable) now }
  | .store pins => { s with pins := pins }

def run (s : Sightings) (told : List Sighting) : Sightings := told.foldl step s

/-- The entries of nodes that were not pinned when they were admitted. -/
def unpinned (s : Sightings) : List NodeId :=
  s.fleet.seen.keys.filter fun id => (get? (s.stood id) id).isNone

theorem mem_unpinned {s : Sightings} {id : NodeId} :
    id ∈ s.unpinned ↔ (s.fleet.seen.get? id).isSome ∧ get? (s.stood id) id = none := by
  rw [unpinned, List.mem_filter, Table.mem_keys, Option.isNone_iff_eq_none]

theorem nodup_unpinned (s : Sightings) : s.unpinned.Nodup := s.fleet.seen.nodup.filter _

theorem unpinned_le_keys (s : Sightings) : s.unpinned.length ≤ s.fleet.seen.keys.length :=
  List.length_filter_le _ _

theorem unpinned_mono {s s' : Sightings} (sub : s'.unpinned ⊆ s.unpinned) :
    s'.unpinned.length ≤ s.unpinned.length :=
  (List.subperm_of_subset s'.nodup_unpinned sub).length_le

/-- A beacon that is let in while there is room makes the table at most full; any other one adds
nothing that was unpinned. -/
theorem bounded_observe {s : Sightings} (bounded : s.unpinned.length ≤ maxSightings)
    (readable : Except String Unit) (now : Nat) (beacon : Beacon) :
    (s.step (.observe readable now beacon)).unpinned.length ≤ maxSightings := by
  obtain ⟨same, _⟩ | ⟨written, why⟩ :=
    s.fleet.observe_cases (load s.pins readable) now beacon
  · refine (unpinned_mono fun id member => ?_).trans bounded
    obtain ⟨there, absent⟩ := mem_unpinned.mp member
    simp only [step, same] at there absent
    rw [if_neg fun h => by simp [h.2] at there] at absent
    exact mem_unpinned.mpr ⟨there, absent⟩
  · by_cases room : s.fleet.seen.keys.length < maxSightings
    · refine (unpinned_le_keys _).trans ?_
      simp only [step, written]
      exact (Table.length_keys_insert _ _ _).trans room
    · refine (unpinned_mono fun id member => ?_).trans bounded
      obtain ⟨there, absent⟩ := mem_unpinned.mp member
      simp only [step, written, Table.get?_insert] at there absent
      by_cases here : id = beacon.id
      · subst here
        by_cases known : s.fleet.seen.get? beacon.id = none
        · have pinned := (why.resolve_left (by simp [known])).resolve_left room
          rw [if_pos ⟨rfl, known⟩] at absent
          cases readable <;> simp [load, Except.map, Except.toOption, absent] at pinned
        · rw [if_neg fun h => known h.2] at absent
          exact mem_unpinned.mpr ⟨Option.isSome_iff_ne_none.mpr known, absent⟩
      · rw [if_neg here] at there
        rw [if_neg fun h => here h.1] at absent
        exact mem_unpinned.mpr ⟨there, absent⟩

theorem bounded_prune {s : Sightings} (bounded : s.unpinned.length ≤ maxSightings)
    (readable : Except String Unit) (now : Nat) :
    (s.step (.prune readable now)).unpinned.length ≤ maxSightings := by
  refine (unpinned_mono fun id member => ?_).trans bounded
  obtain ⟨there, absent⟩ := mem_unpinned.mp member
  refine mem_unpinned.mpr ⟨?_, absent⟩
  cases readable with
  | error e => exact there
  | ok =>
      obtain ⟨seen, kept⟩ := Option.isSome_iff_exists.mp there
      exact Option.isSome_iff_exists.mpr ⟨seen, (Table.of_get?_keep kept).1⟩

theorem bounded_step {s : Sightings} (bounded : s.unpinned.length ≤ maxSightings)
    (told : Sighting) : (s.step told).unpinned.length ≤ maxSightings := by
  cases told with
  | observe readable now beacon => exact bounded_observe bounded readable now beacon
  | prune readable now => exact bounded_prune bounded readable now
  | store pins => exact bounded

theorem bounded_run {s : Sightings} (bounded : s.unpinned.length ≤ maxSightings)
    (told : List Sighting) : (s.run told).unpinned.length ≤ maxSightings := by
  unfold run
  induction told generalizing s with
  | nil => exact bounded
  | cons first rest ih => exact ih (bounded_step bounded first)

theorem step_id (s : Sightings) (told : Sighting) : (s.step told).fleet.id = s.fleet.id := by
  cases told with
  | observe _ _ _ => exact LocalFleet.observe_id
  | prune _ _ => exact LocalFleet.prune_id
  | store _ => rfl

theorem run_id (s : Sightings) (told : List Sighting) : (s.run told).fleet.id = s.fleet.id := by
  unfold run
  induction told generalizing s with
  | nil => rfl
  | cons first rest ih => exact (ih _).trans (step_id s first)

/-- Beacons neither grow the table without bound nor push the fleet out. -/
structure Held (own : NodeId) (s : Sightings) : Prop where
  bounded : s.unpinned.length ≤ maxSightings
  others : ∀ readable now beacon id, id ≠ beacon.id →
    (s.step (.observe readable now beacon)).fleet.seen.get? id = s.fleet.seen.get? id
  recorded : ∀ now beacon, beacon.id ≠ own → (get? s.pins beacon.id).isSome →
    (s.step (.observe (.ok ()) now beacon)).fleet.seen.get? beacon.id = some ⟨beacon, now⟩
  kept : ∀ readable now id, (get? s.pins id).isSome →
    (s.step (.prune readable now)).fleet.seen.get? id = s.fleet.seen.get? id
  unread : ∀ e now, (s.step (.prune (.error e) now)).fleet.seen = s.fleet.seen
  observed : ∀ readable now beacon, (s.step (.observe readable now beacon)).pins = s.pins
  pruned : ∀ readable now, (s.step (.prune readable now)).pins = s.pins

/-- Whatever beacons come, and whenever the store can be read and changes. -/
theorem sightings_held (facts : LocalFleet) (pins : Pins) (told : List Sighting) :
    Held facts.id ((start facts pins).run told) where
  bounded := bounded_run (Nat.zero_le _) told
  others _ _ _ _ other := LocalFleet.observe_other other
  recorded now beacon other there :=
    LocalFleet.observe_pinned (by rwa [run_id (start facts pins) told]) there
  kept readable now id there := by
    cases readable with
    | error e => rfl
    | ok => exact LocalFleet.prune_pinned there
  unread e now := LocalFleet.prune_error e
  observed _ _ _ := rfl
  pruned _ _ := rfl

end Sightings
end Fleet
end Metralectl
