import Metralectl.Fleet.Routing

/-!
Whether the relay a listing shows is the relay the router would take. Both ask the
same function for it, and differ in what they ask first: the listing whether the
machine was seen, the router whether the pins can be read and the relay dialled.
-/
namespace Metralectl
namespace Fleet
open Cluster Tables Trust
namespace LocalFleet

section Agreement
variable (f : LocalFleet) (pins : Except String Pins) (now port : Nat)

def RoutedVia (target relay : NodeId) : Prop :=
  ∃ addr, f.planControlRoute pins target port = .ok (.via relay addr)

/-- The router refuses because this relay has said it does not speak control frames. -/
def RefusedFor (target relay : NodeId) : Prop :=
  ∃ version < 2, f.peerVersionMax relay = some version ∧
    f.planControlRoute pins target port = .error (incapable target relay version)

/-- A row shows a relay exactly if the router takes it, or refuses for want of a
capability of that relay. -/
def AgreesOn (row : NodeDescriptor) : Prop :=
  ∀ relay, (row.reachedVia = some relay →
      RoutedVia f pins port row.id relay ∨ RefusedFor f pins port row.id relay) ∧
    (RoutedVia f pins port row.id relay → row.reachedVia = some relay)

def ViewAgrees : Prop :=
  ∀ row ∈ (f.nodes pins now).nodes, row.isLocal = false → AgreesOn f pins port row

def Capable (hop : NodeId) : Prop := ∀ version, f.peerVersionMax hop = some version → 2 ≤ version

def Dialable (hop : NodeId) : Prop :=
  ((f.controlAddress pins hop).bind (toSocket · port)).isSome = true

instance (hop : NodeId) : Decidable (Dialable f pins port hop) :=
  inferInstanceAs (Decidable (_ = true))

/-- A machine with a relay to it: where the pins can be read and do not have it, a
capable relay can be dialled exactly if the machine was not seen; where they
cannot be read, it was seen. -/
def Undivided : Prop :=
  ∀ target relay, f.chooseVoucher target = some relay →
    match pins with
    | .error _ => (f.seen.get? target).isSome ∨ target = f.id
    | .ok pinned => get? pinned target = none → Capable f relay →
        ((f.seen.get? target).isSome → ¬ Dialable f pins port relay) ∧
          (f.seen.get? target = none → target ≠ f.id → Dialable f pins port relay)

variable {f pins now port}

theorem capable_iff (target hop : NodeId) :
    f.requireControlCapable target hop = .ok () ↔ Capable f hop := by
  unfold requireControlCapable Capable
  cases f.peerVersionMax hop with
  | none => simp
  | some v =>
      by_cases old : v < 2
      · simp [old]
      · simpa [old] using Nat.not_lt.mp old

/-- A pinned machine is dialled directly or not at all. -/
theorem not_routedVia_pinned {pinned : Pins} {target relay : NodeId}
    (there : (get? pinned target).isSome = true) : ¬ RoutedVia f (.ok pinned) port target relay := by
  rintro ⟨addr, h⟩
  unfold planControlRoute at h
  simp only [there, if_true] at h
  cases hc : f.requireControlCapable target target with
  | error e =>
      rw [hc] at h
      cases h
  | ok _ =>
      cases hd : (f.controlAddress (.ok pinned) target).bind (toSocket · port) with
      | none =>
          rw [hc, hd] at h
          cases h
      | some direct =>
          rw [hc, hd] at h
          cases h

/-- What is not pinned goes through the chosen relay, if that is capable and can
be dialled. -/
theorem routedVia_chosen {pinned : Pins} {target relay : NodeId}
    (unpinned : get? pinned target = none) :
    RoutedVia f (.ok pinned) port target relay ↔
      f.chooseVoucher target = some relay ∧ Capable f relay ∧
        Dialable f (.ok pinned) port relay := by
  rw [← capable_iff target relay]
  unfold RoutedVia planControlRoute Dialable
  simp only [unpinned, Option.isSome_none, Bool.false_eq_true, if_false]
  cases f.chooseVoucher target with
  | none => simp
  | some chosen =>
      cases hc : f.requireControlCapable target chosen with
      | error e =>
          by_cases same : chosen = relay
          · subst same
            simp [hc]
          · simp [hc, same]
      | ok _ =>
          cases hd : (f.controlAddress (.ok pinned) chosen).bind (toSocket · port) with
          | none =>
              by_cases same : chosen = relay
              · subst same
                simp [hc, hd]
              · simp [hc, hd, same]
          | some addr =>
              by_cases same : chosen = relay
              · subst same
                simp [hc, hd]
              · simp [hc, hd, same]

theorem refusedFor {pinned : Pins} {target relay : NodeId} (unpinned : get? pinned target = none)
    (chosen : f.chooseVoucher target = some relay) (not_capable : ¬ Capable f relay) :
    RefusedFor f (.ok pinned) port target relay := by
  simp only [Capable, not_forall, Nat.not_le] at not_capable
  obtain ⟨version, said, old⟩ := not_capable
  have hc : f.requireControlCapable target relay = .error (incapable target relay version) := by
    simp [requireControlCapable, said, old]
  refine ⟨version, old, said, ?_⟩
  simp [planControlRoute, unpinned, chosen, hc]

/-- Pins that cannot be read are refused before any relay is looked at. -/
theorem not_refusedFor_unreadable {e : String} {target relay : NodeId} :
    ¬ RefusedFor f (.error e) port target relay := by
  rintro ⟨version, _, _, h⟩
  simp only [planControlRoute, incapable, Except.error.injEq, AgentError.notRoutable.injEq,
    true_and] at h
  have first := congrArg (fun s : String => s.toList.head?) h
  simp only [String.toList_append, toString] at first
  cases letters : relay.short.toList with
  | nil => simp [letters] at first
  | cons c rest =>
      have member : c ∈ relay.short.toList := by simp [letters]
      have here : c = 't' := by simpa [letters, eq_comm] using first
      cases NodeId.mem_short member with
      | inl dash => simp [here] at dash
      | inr digit =>
          obtain ⟨n, eq⟩ := digit
          exact Nat.digitChar_ne 't' (by decide) (eq ▸ here)

theorem mem_rows {pinned : Pins} {row : NodeDescriptor} :
    row ∈ f.rows pinned now ↔ (∃ pin ∈ pinned, row = f.pinnedRow now pin) ∨
      (∃ id s, f.seen.get? id = some s ∧ get? pinned id = none ∧ row = f.seenRow id s) ∨
      ∃ target voucher claim, f.onlyVouched pinned target = true ∧
        f.vouchOf target = some (voucher, claim) ∧ row = f.vouchedRow target voucher claim := by
  simp only [rows, List.mem_append, List.mem_map, List.mem_filter, List.mem_filterMap,
    List.mem_insertionSort, Option.map_eq_some_iff, Option.isNone_iff_eq_none, or_assoc]
  refine or_congr ?_ (or_congr ?_ ?_)
  · simp only [eq_comm]
  · constructor
    · rintro ⟨⟨id, s⟩, ⟨member, unpinned⟩, rfl⟩
      exact ⟨id, s, Table.mem_entries.mp member, unpinned, rfl⟩
    · rintro ⟨id, s, there, unpinned, rfl⟩
      exact ⟨⟨id, s⟩, ⟨Table.mem_entries.mpr there, unpinned⟩, rfl⟩
  · constructor
    · rintro ⟨target, ⟨_, only⟩, ⟨voucher, claim⟩, vouch, rfl⟩
      exact ⟨target, voucher, claim, only, vouch, rfl⟩
    · rintro ⟨target, voucher, claim, only, vouch, rfl⟩
      obtain ⟨at_, there⟩ := vouchOf_claim vouch
      refine ⟨target, ⟨?_, only⟩, ⟨voucher, claim⟩, vouch, rfl⟩
      have claimed : (target, voucher) ∈ f.claims.keys := Table.mem_keys.mpr (by simp [there])
      simpa [vouchedTargets] using ⟨voucher, claimed⟩

theorem mem_remote {row : NodeDescriptor} :
    row ∈ (f.nodes pins now).nodes ∧ row.isLocal = false ↔
      row ∈ f.rows (pins.toOption.getD []) now := by
  simp only [Listing.nodes, List.mem_cons]
  constructor
  · rintro ⟨member, remote⟩
    cases member with
    | inl here =>
        rw [here, (f.nodes pins now).here_local] at remote
        cases remote
    | inr other => exact other
  · intro other
    exact ⟨Or.inr other, (f.nodes pins now).others_remote row other⟩

theorem agreesOn_none {row : NodeDescriptor} (h : row.reachedVia = none) :
    AgreesOn f pins port row ↔ ∀ relay, ¬ RoutedVia f pins port row.id relay := by
  simp [AgreesOn, h]

theorem agreesOn_unreadable {e : String} {row : NodeDescriptor} :
    AgreesOn f (.error e) port row ↔ row.reachedVia = none := by
  have unrouted : ∀ relay, ¬ RoutedVia f (.error e) port row.id relay := by
    simp [RoutedVia, planControlRoute]
  simp only [AgreesOn, unrouted, not_refusedFor_unreadable, or_self, imp_false, false_implies,
    and_true]
  exact Option.eq_none_iff_forall_ne_some.symm

/-- A row that shows the chosen relay agrees if a capable one can be dialled. -/
theorem agreesOn_chosen {pinned : Pins} {row : NodeDescriptor}
    (unpinned : get? pinned row.id = none) (h : row.reachedVia = f.chooseVoucher row.id) :
    AgreesOn f (.ok pinned) port row ↔ ∀ relay, f.chooseVoucher row.id = some relay →
      Capable f relay → Dialable f (.ok pinned) port relay := by
  simp only [AgreesOn, h, routedVia_chosen unpinned]
  constructor
  · intro agrees relay chosen capable
    cases (agrees relay).1 chosen with
    | inl routed => exact routed.2.2
    | inr refused =>
        obtain ⟨version, old, said, _⟩ := refused
        exact absurd (capable version said) (Nat.not_le.mpr old)
  · intro dialable relay
    refine ⟨fun chosen => ?_, fun routed => routed.1⟩
    by_cases capable : Capable f relay
    · exact Or.inl ⟨chosen, capable, dialable relay chosen capable⟩
    · exact Or.inr (refusedFor unpinned chosen capable)

/-- The row a machine has that is known by claims alone. -/
theorem vouchedRow_mem {pinned : Pins} {target relay : NodeId}
    (only : f.onlyVouched pinned target = true) (chosen : f.chooseVoucher target = some relay) :
    ∃ voucher claim, f.vouchedRow target voucher claim ∈ f.rows pinned now := by
  obtain ⟨claim, vouch⟩ := vouchOf_chosen chosen
  exact ⟨relay, claim, mem_rows.mpr (Or.inr (Or.inr ⟨target, relay, claim, only, vouch, rfl⟩))⟩

theorem onlyVouched_iff {pinned : Pins} {target : NodeId} :
    f.onlyVouched pinned target = true ↔
      get? pinned target = none ∧ f.seen.get? target = none ∧ target ≠ f.id := by
  simp [onlyVouched, and_assoc]

theorem viewAgrees_unreadable {e : String} :
    ViewAgrees f (.error e) now port ↔ Undivided f (.error e) port := by
  constructor
  · intro agrees target relay chosen
    by_cases first : (f.seen.get? target).isSome ∨ target = f.id
    · exact first
    · simp only [not_or, Option.not_isSome_iff_eq_none] at first
      have only : f.onlyVouched [] target = true := onlyVouched_iff.mpr ⟨rfl, first⟩
      obtain ⟨voucher, claim, member⟩ := vouchedRow_mem only chosen
      obtain ⟨listed, remote⟩ := (mem_remote.mpr member : _ ∈ (f.nodes (.error e) now).nodes ∧ _)
      have shown := agreesOn_unreadable.mp (agrees _ listed remote)
      exact absurd (shown.symm.trans chosen) (by simp)
  · intro undivided row listed remote
    rw [agreesOn_unreadable]
    cases mem_rows.mp (mem_remote.mp ⟨listed, remote⟩) with
    | inl paired =>
        obtain ⟨pin, _, rfl⟩ := paired
        rfl
    | inr unpaired =>
        cases unpaired with
        | inl sighted =>
            obtain ⟨id, s, _, _, rfl⟩ := sighted
            rfl
        | inr vouched =>
            obtain ⟨target, voucher, claim, only, _, rfl⟩ := vouched
            obtain ⟨_, unseen, other⟩ := onlyVouched_iff.mp only
            cases chosen : f.chooseVoucher target with
            | none => exact chosen
            | some relay =>
                cases undivided target relay chosen with
                | inl seen => simp [unseen] at seen
                | inr here => exact absurd here other

theorem viewAgrees_readable {pinned : Pins} :
    ViewAgrees f (.ok pinned) now port ↔ Undivided f (.ok pinned) port := by
  constructor
  · intro agrees target relay chosen unpinned capable
    refine ⟨fun seen dialable => ?_, fun unseen other => ?_⟩
    · obtain ⟨s, there⟩ := Option.isSome_iff_exists.mp seen
      have member : f.seenRow target s ∈ f.rows pinned now :=
        mem_rows.mpr (Or.inr (Or.inl ⟨target, s, there, unpinned, rfl⟩))
      obtain ⟨listed, remote⟩ := (mem_remote.mpr member : _ ∈ (f.nodes (.ok pinned) now).nodes ∧ _)
      exact (agreesOn_none rfl).mp (agrees _ listed remote) relay
        ((routedVia_chosen unpinned).mpr ⟨chosen, capable, dialable⟩)
    · obtain ⟨voucher, claim, member⟩ :=
        vouchedRow_mem (onlyVouched_iff.mpr ⟨unpinned, unseen, other⟩) chosen
      obtain ⟨listed, remote⟩ := (mem_remote.mpr member : _ ∈ (f.nodes (.ok pinned) now).nodes ∧ _)
      exact (agreesOn_chosen unpinned rfl).mp (agrees _ listed remote) relay chosen capable
  · intro undivided row listed remote
    cases mem_rows.mp (mem_remote.mp ⟨listed, remote⟩) with
    | inl paired =>
        obtain ⟨pin, there, rfl⟩ := paired
        have pinned_ : (get? pinned pin.id).isSome = true := by
          rw [get?, List.find?_isSome]
          exact ⟨pin, there, by simp⟩
        exact (agreesOn_none rfl).mpr fun relay => not_routedVia_pinned pinned_
    | inr unpaired =>
        cases unpaired with
        | inl sighted =>
            obtain ⟨id, s, there, unpinned, rfl⟩ := sighted
            rw [agreesOn_none rfl]
            intro relay routed
            obtain ⟨chosen, capable, dialable⟩ := (routedVia_chosen unpinned).mp routed
            exact (undivided id relay chosen unpinned capable).1 (by simp [there]) dialable
        | inr vouched =>
            obtain ⟨target, voucher, claim, only, _, rfl⟩ := vouched
            obtain ⟨unpinned, unseen, other⟩ := onlyVouched_iff.mp only
            rw [agreesOn_chosen unpinned rfl]
            intro relay chosen capable
            exact (undivided target relay chosen unpinned capable).2 unseen other

/-- The view and the router agree exactly if no machine with a chosen relay is in
one of the three states they tell apart. -/
theorem viewAgrees_iff (f : LocalFleet) (pins : Except String Pins) (now port : Nat) :
    ViewAgrees f pins now port ↔ Undivided f pins port := by
  cases pins with
  | error e => exact viewAgrees_unreadable
  | ok pinned => exact viewAgrees_readable

end Agreement

section Fixed

def alone : LocalFleet where
  id := 0
  name := "dgx0"
  localAddresses := []
  launchability := .yes
  accelerator := ""
  agentVersion := "0.1.0"
  os := "linux"
  vitals := ⟨none, none, none, none, none, none, none, none, none, none⟩
  running := none
  seen := .empty
  alerts := .empty
  reports := .empty
  claims := .empty

def voucherReport : PeerReport where
  node := 1
  name := "dgx1"
  canLaunch := true
  accelerator := ""
  os := "linux"
  vitals := none
  link := .ethernet
  addresses := [⟨"eth0", "10.0.0.1", 24, .ethernet, none, false⟩]
  vouched := none
  peerVersionMax := 2

def strangerClaim : VouchedPeer where
  node := 2
  name := "dgx2"
  canLaunch := true
  accelerator := ""
  os := "linux"
  addresses := []
  link := .unverified
  reachable := true
  vitals := none
  vitalsAgeS := none

def voucherPins : Pins := [⟨1, "", "dgx1", 0, none, false, false⟩]

/-- A machine is paired with a second one, which vouches for a third. -/
def vouchedFor : LocalFleet :=
  (alone.recordReport 0 voucherReport).recordVouches 0 1 [strangerClaim]

/-- Once the third is also seen, its row shows no relay while the router takes one. -/
theorem not_viewAgrees_seen :
    ¬ ViewAgrees (vouchedFor.observe (.ok voucherPins) 0 ⟨2, "dgx2", 34334, [], true, ""⟩)
      (.ok voucherPins) 0 34334 := by
  rw [viewAgrees_readable]
  intro undivided
  have capable : Capable (vouchedFor.observe (.ok voucherPins) 0
      ⟨2, "dgx2", 34334, [], true, ""⟩) 1 := by
    intro version said
    cases said
    decide
  exact (undivided 2 1 (by decide) (by decide) capable).1 (by decide) (by decide)

/-- And a pin store that cannot be read leaves a relay in the view that the router
refuses. -/
theorem not_viewAgrees_unreadable (e : String) :
    ¬ ViewAgrees vouchedFor (.error e) 0 34334 := by
  rw [viewAgrees_unreadable]
  intro undivided
  cases undivided 2 1 (by decide) with
  | inl seen => exact absurd seen (by decide)
  | inr here => exact absurd here (by decide)

end Fixed

end LocalFleet
end Fleet
end Metralectl
