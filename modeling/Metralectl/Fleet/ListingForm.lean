import Metralectl.Fleet.Agreement

/-!
The form of a listing, whatever the tables hold: who is listed, how often, under
which state, and on whose word vitals are shown. Pins are a map, so a load of them
has at most one for an id; the sightings never have this machine itself.
-/
namespace Metralectl
namespace Fleet
open Cluster Tables Trust Runs
open LocalFleet (mem_rows onlyVouched_iff vouchOf_claim)

/-- What a load of the pins gives. -/
structure PinSet where
  pins : Pins
  distinct : (pins.map (·.id)).Nodup

/-- What a view of the fleet is told, by the network and by this machine. -/
inductive Update where
  | observe (pins : Except String PinSet) (now : Nat) (beacon : Beacon)
  | recordReport (now : Nat) (report : PeerReport)
  | clearReport (node : NodeId)
  | recordVouches (now : Nat) (via : NodeId) (digest : List VouchedPeer)
  | clearVouches (via : NodeId)
  | prune (pins : Except String PinSet) (now : Nat)
  | setAlerts (node : NodeId) (alerts : List NodeAlert)
  | setRunning (recipe : Option String)
  /-- The source of this machine's vitals has another reading. -/
  | sample (vitals : NodeVitals)

namespace LocalFleet

/-- A view as it is built, from this machine's facts: every table is empty. -/
def new (facts : LocalFleet) : LocalFleet :=
  { facts with running := none, seen := .empty, alerts := .empty, reports := .empty,
               claims := .empty }

def setAlerts (f : LocalFleet) (node : NodeId) (alerts : List NodeAlert) : LocalFleet :=
  if alerts.isEmpty then { f with alerts := f.alerts.erase node }
  else { f with alerts := f.alerts.insert node alerts }

def update (f : LocalFleet) : Update → LocalFleet
  | .observe pins now beacon => f.observe (pins.map (·.pins)) now beacon
  | .recordReport now report => f.recordReport now report
  | .clearReport node => f.clearReport node
  | .recordVouches now via digest => f.recordVouches now via digest
  | .clearVouches via => f.clearVouches via
  | .prune pins now => f.prune (pins.map (·.pins)) now
  | .setAlerts node alerts => f.setAlerts node alerts
  | .setRunning recipe => { f with running := recipe }
  | .sample vitals => { f with vitals := vitals }

def step (f : LocalFleet) (u : Update) : Option LocalFleet := some (f.update u)

/-- What one load of the pins gives is what the listing reads; an unreadable store
is read as an empty one. -/
def listed (f : LocalFleet) (pins : Except String PinSet) (now : Nat) : Listing :=
  f.nodes (pins.map (·.pins)) now

end LocalFleet

def PinSet.read (pins : Except String PinSet) : Pins := (pins.map (·.pins)).toOption.getD []

/-- The vitals of a row are what a recorded vouch of its voucher says they are. -/
structure Vouchsafed (f : LocalFleet) (row : NodeDescriptor) (claim : VouchedPeer) (at_ : Nat) :
    Prop where
  claimed : ∃ voucher, row.vouchedBy = some voucher ∧
    f.claims.get? (row.id, voucher) = some (claim, at_)
  vitals : row.vitals = claim.vitals

/-- The form that is asked of a listing: every machine once, `Paired` only what is
pinned, `Vouched` only what nothing else knows, and no vitals of an old vouch. -/
structure ListedOnce (f : LocalFleet) (pinned : Pins) (now : Nat) (l : Listing) : Prop where
  distinct : (l.nodes.map (·.id)).Nodup
  here : l.here.id = f.id
  paired : ∀ row ∈ l.nodes, row.pairing = .paired → (get? pinned row.id).isSome
  vouched : ∀ row ∈ l.nodes, row.pairing = .vouched →
    row.id ≠ f.id ∧ get? pinned row.id = none ∧ f.seen.get? row.id = none
  current : ∀ row ∈ l.nodes, row.pairing = .vouched → row.vitals.isSome →
    ∃ claim at_, Vouchsafed f row claim at_ ∧ now - at_ ≤ unreachableAfter

/-- The form a listing has: this machine is paired with itself without a pin, and
the age of second-hand vitals is the one their voucher states. -/
structure WellFormed (f : LocalFleet) (pinned : Pins) (l : Listing) : Prop where
  distinct : (l.nodes.map (·.id)).Nodup
  here : l.here.id = f.id
  paired : ∀ row ∈ l.nodes, row.pairing = .paired →
    row.isLocal = true ∨ (get? pinned row.id).isSome
  vouched : ∀ row ∈ l.nodes, row.pairing = .vouched →
    row.id ≠ f.id ∧ get? pinned row.id = none ∧ f.seen.get? row.id = none
  aged : ∀ row ∈ l.nodes, row.pairing = .vouched → row.vitals.isSome →
    ∃ claim at_ age, Vouchsafed f row claim at_ ∧ claim.vitalsAgeS = some age ∧
      age * second ≤ unreachableAfter

namespace LocalFleet

@[simp] theorem new_id (facts : LocalFleet) : facts.new.id = facts.id := rfl

/-- No sighting is of this machine itself. -/
def Unmirrored (f : LocalFleet) : Prop := f.seen.get? f.id = none

theorem observe_unmirrored {f : LocalFleet} (pins : Except String Pins) (now : Nat)
    (beacon : Beacon) (h : f.Unmirrored) : (f.observe pins now beacon).Unmirrored := by
  unfold Unmirrored at h ⊢
  unfold observe
  dsimp only
  by_cases own : beacon.id = f.id
  · rwa [if_pos own]
  · rw [if_neg own]
    split
    · exact h
    · rw [Table.get?_insert, if_neg (Ne.symm own)]
      exact h

theorem prune_unmirrored {f : LocalFleet} (pins : Except String Pins) (now : Nat)
    (h : f.Unmirrored) : (f.prune pins now).Unmirrored := by
  unfold Unmirrored at h ⊢
  cases pins with
  | error e => exact h
  | ok pinned => simp [prune, pruneVouches, h]

theorem update_unmirrored {f : LocalFleet} (u : Update) (h : f.Unmirrored) :
    (f.update u).Unmirrored := by
  cases u with
  | observe pins now beacon => exact observe_unmirrored _ now beacon h
  | prune pins now => exact prune_unmirrored _ now h
  | recordVouches now via digest =>
      simp only [update, recordVouches]
      split <;> exact h
  | setAlerts node alerts =>
      simp only [update, setAlerts]
      split <;> exact h
  | recordReport _ _ | clearReport _ | clearVouches _ | setRunning _ | sample _ => exact h

/-- Whatever a view is told, it has not seen itself. -/
theorem run_unmirrored {facts f : LocalFleet} {us : List Update}
    (run : Run step Free facts.new us f) : f.Unmirrored :=
  run.invariant rfl fun _ u _ h _ told => Option.some.inj told ▸ update_unmirrored u h

/-- What is left right after a prune was recorded within the bound. -/
theorem prune_recent {f : LocalFleet} (pins : Except String Pins) (now : Nat)
    {k : NodeId × NodeId} {c : VouchedPeer × Nat}
    (h : (f.prune pins now).claims.get? k = some c) : now - c.2 < unreachableAfter := by
  have kept : (f.pruneVouches now).claims.get? k = some c := by
    cases pins <;> exact h
  simpa using (Table.of_get?_keep kept).2

section Rows
variable {f : LocalFleet} {pinned : Pins} {now : Nat}

theorem get?_isSome_iff {id : NodeId} : (get? pinned id).isSome ↔ id ∈ pinned.map (·.id) := by
  simp [get?, List.find?_isSome]

theorem vouchedTargets_nodup (f : LocalFleet) : f.vouchedTargets.Nodup :=
  (List.perm_insertionSort _ _).nodup_iff.mpr (List.nodup_dedup _)

/-- The ids of the three passes, one after another. -/
theorem rows_ids : (f.rows pinned now).map (·.id) =
    (pinned.insertionSort fun a b => a.id ≤ b.id).map (·.id) ++
      ((f.seen.entries.insertionSort fun a b => a.1 ≤ b.1).filter
        fun e => (get? pinned e.1).isNone).map (·.1) ++
      (f.vouchedTargets.filter (f.onlyVouched pinned)).filterMap fun target =>
        (f.vouchOf target).map fun _ => target := by
  simp only [rows, List.map_append, List.map_map, List.map_filterMap, Option.map_map]
  rfl

/-- No two of the passes emit a machine twice, and none of them this machine. -/
theorem rows_nodup (distinct : (pinned.map (·.id)).Nodup) :
    ((f.rows pinned now).map (·.id)).Nodup := by
  have paired : ((pinned.insertionSort fun a b => a.id ≤ b.id).map (·.id)).Nodup :=
    ((List.perm_insertionSort _ _).map _).nodup_iff.mpr distinct
  have sighted : (((f.seen.entries.insertionSort fun a b => a.1 ≤ b.1).filter
      fun e => (get? pinned e.1).isNone).map (·.1)).Nodup := by
    have all : ((f.seen.entries.insertionSort fun a b => a.1 ≤ b.1).map (·.1)).Nodup :=
      ((List.perm_insertionSort _ _).map _).nodup_iff.mpr f.seen.nodup
    exact all.sublist (List.filter_sublist.map _)
  have vouched : ((f.vouchedTargets.filter (f.onlyVouched pinned)).filterMap fun target =>
      (f.vouchOf target).map fun _ => target).Nodup := by
    refine List.Nodup.filterMap ?_ ((vouchedTargets_nodup f).filter _)
    intro a b id ha hb
    obtain ⟨_, _, rfl⟩ := Option.map_eq_some_iff.mp ha
    obtain ⟨_, _, rfl⟩ := Option.map_eq_some_iff.mp hb
    rfl
  rw [rows_ids, List.nodup_append', List.nodup_append']
  refine ⟨⟨paired, sighted, ?_⟩, vouched, ?_⟩
  · intro id pin seen
    simp only [List.mem_map, List.mem_insertionSort] at pin
    have there : (get? pinned id).isSome := get?_isSome_iff.mpr (List.mem_map.mpr pin)
    simp only [List.mem_map, List.mem_filter] at seen
    obtain ⟨e, ⟨_, unpinned⟩, rfl⟩ := seen
    rw [Option.isNone_iff_eq_none.mp unpinned] at there
    cases there
  · intro id first last
    simp only [List.mem_filterMap, List.mem_filter, Option.map_eq_some_iff] at last
    obtain ⟨target, ⟨_, only⟩, _, _, rfl⟩ := last
    obtain ⟨unpinned, unseen, _⟩ := onlyVouched_iff.mp only
    cases List.mem_append.mp first with
    | inl pin =>
        simp only [List.mem_map, List.mem_insertionSort] at pin
        have there : (get? pinned target).isSome := get?_isSome_iff.mpr (List.mem_map.mpr pin)
        rw [unpinned] at there
        cases there
    | inr seen =>
        simp only [List.mem_map, List.mem_filter, List.mem_insertionSort] at seen
        obtain ⟨⟨id, s⟩, ⟨member, _⟩, rfl⟩ := seen
        rw [Table.mem_entries.mp member] at unseen
        cases unseen

theorem rows_elsewhere (unmirrored : f.Unmirrored) (notHere : get? pinned f.id = none) :
    f.id ∉ (f.rows pinned now).map (·.id) := by
  intro member
  obtain ⟨row, member, here⟩ := List.mem_map.mp member
  cases mem_rows.mp member with
  | inl paired =>
      obtain ⟨pin, pin_mem, rfl⟩ := paired
      have there : (get? pinned f.id).isSome :=
        get?_isSome_iff.mpr (List.mem_map.mpr ⟨pin, pin_mem, here⟩)
      rw [notHere] at there
      cases there
  | inr rest =>
      cases rest with
      | inl sighted =>
          obtain ⟨id, s, there, _, rfl⟩ := sighted
          have own : f.seen.get? f.id = some s := here ▸ there
          rw [unmirrored] at own
          cases own
      | inr vouched =>
          obtain ⟨target, _, _, only, _, rfl⟩ := vouched
          exact (onlyVouched_iff.mp only).2.2 here

theorem vouchedRow_of {row : NodeDescriptor} (h : row = f.localNode ∨ row ∈ f.rows pinned now)
    (vouched : row.pairing = .vouched) :
    ∃ target voucher claim, f.onlyVouched pinned target = true ∧
      f.vouchOf target = some (voucher, claim) ∧ row = f.vouchedRow target voucher claim := by
  cases h with
  | inl here =>
      rw [here] at vouched
      cases vouched
  | inr other =>
      cases mem_rows.mp other with
      | inl paired =>
          obtain ⟨pin, _, rfl⟩ := paired
          simp only [pinnedRow] at vouched
          split at vouched <;> cases vouched
      | inr rest =>
          cases rest with
          | inl sighted =>
              obtain ⟨id, s, _, _, rfl⟩ := sighted
              cases vouched
          | inr claimed => exact claimed

/-- A vouched row's vitals are those of the claim behind it, if it states their age. -/
theorem vouchedRow_vitals {target voucher : NodeId} {claim : VouchedPeer}
    (shown : (f.vouchedRow target voucher claim).vitals.isSome) :
    (f.vouchedRow target voucher claim).vitals = claim.vitals ∧
      ∃ age, claim.vitalsAgeS = some age ∧ age * second ≤ unreachableAfter := by
  obtain ⟨v, found⟩ := Option.isSome_iff_exists.mp shown
  have kept : claim.vitals = some v ∧
      claim.vitalsAgeS.any (· ≤ unreachableAfter / second) = true :=
    Option.filter_eq_some_iff.mp found
  refine ⟨found.trans kept.1.symm, ?_⟩
  cases stated : claim.vitalsAgeS with
  | none =>
      rw [stated] at kept
      cases kept.2
  | some age =>
      rw [stated] at kept
      have within : age ≤ unreachableAfter / second := of_decide_eq_true kept.2
      exact ⟨age, rfl, (Nat.le_div_iff_mul_le (by decide)).mp within⟩

end Rows

/-- Whatever a view was told, and whatever pins it finds that do not name this
machine, its listing has the form; and what a prune leaves of the vouches is
recent. -/
theorem listed_wellFormed {facts f : LocalFleet} {us : List Update}
    (run : Run step Free facts.new us f) (pins : Except String PinSet) (now : Nat)
    (notHere : get? (PinSet.read pins) f.id = none) :
    WellFormed f (PinSet.read pins) (f.listed pins now) ∧
      ∀ k c, (f.prune (pins.map (·.pins)) now).claims.get? k = some c →
        now - c.2 < unreachableAfter := by
  have distinct : ((PinSet.read pins).map (·.id)).Nodup := by
    cases pins with
    | error e => exact List.nodup_nil
    | ok set => exact set.distinct
  have others : (f.listed pins now).others = f.rows (PinSet.read pins) now := rfl
  have split_ : ∀ row ∈ (f.listed pins now).nodes,
      row = f.localNode ∨ row ∈ f.rows (PinSet.read pins) now := by
    intro row member
    exact List.mem_cons.mp member
  refine ⟨⟨?_, rfl, ?_, ?_, ?_⟩, fun k c => prune_recent _ now⟩
  · have elsewhere : f.id ∉ (f.rows (PinSet.read pins) now).map (·.id) :=
      rows_elsewhere (run_unmirrored run) notHere
    exact List.nodup_cons.mpr ⟨elsewhere, rows_nodup distinct⟩
  · intro row member paired
    cases split_ row member with
    | inl here => exact Or.inl (here ▸ rfl)
    | inr other =>
        right
        cases mem_rows.mp other with
        | inl pinned =>
            obtain ⟨pin, pin_mem, rfl⟩ := pinned
            exact get?_isSome_iff.mpr (List.mem_map.mpr ⟨pin, pin_mem, rfl⟩)
        | inr rest =>
            cases rest with
            | inl sighted =>
                obtain ⟨id, s, _, _, rfl⟩ := sighted
                cases paired
            | inr vouched =>
                obtain ⟨_, _, _, _, _, rfl⟩ := vouched
                cases paired
  · intro row member vouched
    obtain ⟨target, voucher, claim, only, _, rfl⟩ := vouchedRow_of (split_ row member) vouched
    obtain ⟨unpinned, unseen, elsewhere⟩ := onlyVouched_iff.mp only
    exact ⟨elsewhere, unpinned, unseen⟩
  · intro row member vouched shown
    obtain ⟨target, voucher, claim, _, vouch, rfl⟩ := vouchedRow_of (split_ row member) vouched
    obtain ⟨at_, there⟩ := vouchOf_claim vouch
    obtain ⟨same, age, stated, within⟩ := vouchedRow_vitals shown
    exact ⟨claim, at_, age, ⟨⟨voucher, rfl, there⟩, same⟩, stated, within⟩

section Fixed

def freshVitals : NodeVitals := ⟨none, none, none, none, none, none, none, none, some true, none⟩

/-- A vouch with the reading of a moment ago. -/
def vitalClaim : VouchedPeer :=
  { strangerClaim with vitals := some freshVitals, vitalsAgeS := some 0 }

/-- A machine is seen, another speaks and vouches for a third, and a minute later what
is old is pruned. -/
def heardOfThree : List Update :=
  [.observe (.ok ⟨voucherPins, by decide⟩) 0 ⟨3, "dgx3", 34334, [], true, ""⟩,
    .recordReport second voucherReport, .recordVouches second 1 [vitalClaim, strangerClaim],
    .recordVouches (2 * second) 1 [vitalClaim], .setRunning (some "qwen3"),
    .prune (.ok ⟨voucherPins, by decide⟩) (60 * second)]

/-- Of each state one row, and the vitals of the vouched one shown. -/
theorem listed_wellFormed_four : ∃ f, Run step Free alone.new heardOfThree f ∧
    (f.listed (.ok ⟨voucherPins, by decide⟩) (60 * second)).nodes.map
        (fun row => (row.id, row.pairing, row.vitals.isSome)) =
      [(0, .paired, true), (1, .paired, false), (3, .discovered, false), (2, .vouched, true)] ∧
    WellFormed f voucherPins (f.listed (.ok ⟨voucherPins, by decide⟩) (60 * second)) := by
  have run : Run step Free alone.new heardOfThree _ := Run.of_replay rfl
  exact ⟨_, run, by decide,
    (listed_wellFormed run (.ok ⟨voucherPins, by decide⟩) (60 * second) (by decide)).1⟩

def heardOnce : LocalFleet := (alone.recordReport 0 voucherReport).recordVouches 0 1 [vitalClaim]

/-- This machine is paired without a pin; and until the next prune a vouch of two
minutes and a second ago still lends its vitals. -/
theorem not_listedOnce :
    (¬ ListedOnce alone [] 0 (alone.listed (.ok ⟨[], List.nodup_nil⟩) 0)) ∧
      ∃ row ∈ (heardOnce.listed (.ok ⟨voucherPins, by decide⟩) (121 * second)).nodes,
        row.pairing = .vouched ∧ row.vitals.isSome = true ∧
          ∀ claim at_, Vouchsafed heardOnce row claim at_ →
            ¬ 121 * second - at_ ≤ unreachableAfter := by
  constructor
  · intro once
    have pinned := once.paired alone.localNode List.mem_cons_self rfl
    cases pinned
  · refine ⟨heardOnce.vouchedRow 2 1 vitalClaim, ?_, rfl, by decide, ?_⟩
    · refine List.mem_cons_of_mem _ (mem_rows.mpr (Or.inr (Or.inr ?_)))
      exact ⟨2, 1, vitalClaim, by decide, by decide, rfl⟩
    · intro claim at_ safe
      obtain ⟨voucher, by_, there⟩ := safe.claimed
      cases by_
      have recorded : heardOnce.claims.get? (2, 1) = some (vitalClaim, 0) := by decide
      have same := Option.some.inj (recorded.symm.trans there)
      cases same
      decide

end Fixed

end LocalFleet
end Fleet
end Metralectl
