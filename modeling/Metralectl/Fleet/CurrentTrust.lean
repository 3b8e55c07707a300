import Metralectl.Fleet.Agreement

/-!
The trust behind claims and routes, with all that writes the pins, the reports and
the claims going on at once: polls, removals through the agent, and every command
that edits the file of pins on its own. A poll that is in flight has checked the
pin when it dialled, and does not look at it again.
-/
namespace Metralectl
namespace Fleet
open Cluster Tables Trust Runs Interleaving
open LocalFleet (RoutedVia not_routedVia_pinned routedVia_chosen mem_rows mem_remote)
open LocalFleet (chooseVoucher_claim vouchOf_claim)

namespace Upkeep

/-- What the tasks of one machine share. The last field is a history: who was
unpaired through the agent, and not paired since. -/
structure Shared where
  file : Pins
  fleet : LocalFleet
  withdrawn : List NodeId

/-- What a load of the pins gives: the file, or why it could not be read. -/
def Shared.read (s : Shared) : Option String → Except String Pins
  | none => .ok s.file
  | some e => .error e

def Shared.Pinned (s : Shared) (id : NodeId) : Prop := (get? s.file id).isSome = true

def Shared.Claims (s : Shared) (voucher : NodeId) : Prop :=
  ∃ target, (s.fleet.claims.get? (target, voucher)).isSome = true

inductive Call where
  /-- A poll whose handshake has found the peer pinned. -/
  | poll (peer : NodeId) (addr : String)
  | unanswered (peer : NodeId)
  | unpair (peer : NodeId)
  /-- An operation on the file, by a command, a pairing or a grant. -/
  | edit (op : Op)
  | observe (read : Option String) (now : Nat) (beacon : Beacon)
  | prune (read : Option String) (now : Nat)

inductive Task where
  | polling (peer : NodeId) (addr : String)
  /-- The digest is recorded, the address is to be remembered. -/
  | recorded (report : PeerReport) (addr : String)
  | remembering (report : PeerReport) (t : Trust.Task)
  /-- The claims are cleared, the pin is to be removed. -/
  | cleared (peer : NodeId)
  | unpairing (peer : NodeId) (t : Trust.Task)
  | editing (t : Trust.Task)
  | done

inductive Reply where
  | answered (now : Nat) (report : PeerReport)
  | lost
  /-- The next operation on the file goes through or does not. -/
  | file (r : Trust.Reply)
  | reported (now : Nat)

/-- Who is no longer withdrawn once a task has saved its copy. -/
def settle (withdrawn : List NodeId) : Trust.Task → Trust.Reply → List NodeId
  | .saving (.add pin) _, .proceed => withdrawn.filter (· ≠ pin.id)
  | _, _ => withdrawn

def Task.inner : Task → Option Trust.Task
  | .remembering _ t | .unpairing _ t | .editing t => some t
  | _ => none

def Task.withInner : Task → Trust.Task → Task
  | .remembering report _, t => .remembering report t
  | .unpairing peer _, t => .unpairing peer t
  | .editing _, t => .editing t
  | other, _ => other

/-- A removal through the agent has completed, whether or not it found a pin. -/
def Task.completes : Task → Option NodeId
  | .unpairing peer (.done _ _) => some peer
  | _ => none

def Shared.complete (s : Shared) (t : Task) : Shared :=
  match t.completes with
  | some peer => { s with withdrawn := peer :: s.withdrawn }
  | none => s

def enter (s : Shared) : Call → Option (Shared × Task)
  | .poll peer addr =>
      if (get? s.file peer).isSome then some (s, .polling peer addr) else none
  | .unanswered peer => some ({ s with fleet := s.fleet.clearReport peer }, .done)
  | .unpair peer => some ({ s with fleet := s.fleet.clearVouches peer }, .cleared peer)
  | .edit op => (Trust.enter s.file op).map fun (file, t) => ({ s with file := file }, .editing t)
  | .observe read now beacon =>
      some ({ s with fleet := s.fleet.observe (s.read read) now beacon }, .done)
  | .prune read now => some ({ s with fleet := s.fleet.prune (s.read read) now }, .done)

/-- The digest of an answer, if it has one, over what its speaker claimed before. -/
def record (f : LocalFleet) (now : Nat) (report : PeerReport) : LocalFleet :=
  match report.vouched with
  | some digest => f.recordVouches now report.node digest
  | none => f

def resumeInner (s : Shared) (task : Task) (t : Trust.Task) (r : Trust.Reply) :
    Option (Shared × Task) :=
  (Trust.resume s.file t r).map fun (file, t') =>
    let task' := task.withInner t'
    (Shared.complete ⟨file, s.fleet, settle s.withdrawn t r⟩ task', task')

def resume (s : Shared) : Task → Reply → Option (Shared × Task)
  | .polling peer addr, .answered now report =>
      if report.node = peer then
        some ({ s with fleet := record s.fleet now report }, .recorded report addr)
      else none
  | .polling peer _, .lost => some ({ s with fleet := s.fleet.clearReport peer }, .done)
  | .recorded report addr, .file .proceed =>
      (Trust.enter s.file (.rememberAddress report.node addr)).map fun (file, t) =>
        ({ s with file := file }, .remembering report t)
  | .recorded report addr, .file .fail =>
      some (s, .remembering report (.failed (.rememberAddress report.node addr)))
  | .remembering report (.done _ _), .reported now
  | .remembering report (.failed _), .reported now =>
      some ({ s with fleet := s.fleet.recordReport now report }, .done)
  | .cleared peer, .file .proceed =>
      (Trust.enter s.file (.remove peer)).map fun (file, t) =>
        (Shared.complete { s with file := file } (.unpairing peer t), .unpairing peer t)
  | .cleared peer, .file .fail => some (s, .unpairing peer (.failed (.remove peer)))
  | .remembering report t, .file r => resumeInner s (.remembering report t) t r
  | .unpairing peer t, .file r => resumeInner s (.unpairing peer t) t r
  | .editing t, .file r => resumeInner s (.editing t) t r
  | _, _ => none

def upkeep : Object Shared Task Call Reply := ⟨enter, resume⟩

abbrev State := Pool Shared Task
abbrev Action := Act Call Reply

/-- An agent that has just started holds the file it finds, and no claims. -/
def started (file : Pins) (fleet : LocalFleet) : State :=
  Pool.start ⟨file, { fleet with claims := .empty }, []⟩

def RestsOn (row : NodeDescriptor) (voucher : NodeId) : Prop :=
  row.vouchedBy = some voucher ∨ row.reachedVia = some voucher

/-- Every relay the router takes is pinned, and nothing shown or taken rests on who
was unpaired. -/
structure TrustIsCurrent (s : Shared) : Prop where
  routes : ∀ read port target relay,
    RoutedVia s.fleet (s.read read) port target relay → s.Pinned relay
  rows : ∀ voucher ∈ s.withdrawn, ∀ read now, ∀ row ∈ (s.fleet.nodes (s.read read) now).nodes,
    ¬ RestsOn row voucher
  unrouted : ∀ voucher ∈ s.withdrawn, ∀ read port target,
    ¬ RoutedVia s.fleet (s.read read) port target voucher

/-- Recording an answer would write a claim. -/
def Writes (f : LocalFleet) (report : PeerReport) : Prop :=
  ∃ digest, report.vouched = some digest ∧ digest.length ≤ maxVouched ∧
    ∃ entry ∈ digest, entry.node ≠ f.id ∧ entry.node ≠ report.node

/-- The copy a task is about to save, and for which operation. -/
def Task.saves (t : Task) : Option (Op × Pins) :=
  match t.inner with
  | some (.saving op copy) => some (op, copy)
  | _ => none

/-- A save takes no pin away whose claims still stand, and brings none back of a
peer that was unpaired, unless it is the save of a pairing with it. -/
def Careful (s : Shared) (op : Op) (copy : Pins) : Prop :=
  (∀ id, s.Pinned id → get? copy id = none → ¬ s.Claims id) ∧
    ∀ id ∈ s.withdrawn, (get? copy id).isSome = true → ∃ pin, op = .add pin ∧ pin.id = id

/-- The steps that keep claims and pins together: claims are recorded only of a
peer that is pinned at that moment, and saves are careful. -/
def Together (p : State) : Action → Prop
  | .resume _ (.answered _ report) => Writes p.shared.fleet report → p.shared.Pinned report.node
  | .resume i (.file .proceed) => ∀ op copy, p.tasks[i]?.bind Task.saves = some (op, copy) →
      Careful p.shared op copy
  | _ => True

/-- Claims are of pinned vouchers, and who was unpaired is not pinned. -/
structure Backed (s : Shared) : Prop where
  claims : ∀ k c, s.fleet.claims.get? k = some c → s.Pinned k.2
  withdrawn : ∀ id ∈ s.withdrawn, get? s.file id = none

/-- What a removal in flight will save does not have the pin. -/
def Task.Removes : Task → Prop
  | .unpairing peer (.saving _ copy) => get? copy peer = none
  | .unpairing _ (.readding _ _) => False
  | _ => True

section Reading
variable {f : LocalFleet} {pins : Except String Pins} {now port : Nat}

/-- A relay that is taken was chosen for a claim it made. -/
theorem routedVia_claim {target relay : NodeId} (h : RoutedVia f pins port target relay) :
    ∃ c, f.claims.get? (target, relay) = some c := by
  have chosen : f.chooseVoucher target = some relay := by
    cases pins with
    | error e => simp [RoutedVia, LocalFleet.planControlRoute] at h
    | ok pinned =>
        cases there : get? pinned target with
        | some pin => exact absurd h (not_routedVia_pinned (by simp [there]))
        | none => exact ((routedVia_chosen there).mp h).1
  obtain ⟨_, claim, at_, there, _⟩ := chooseVoucher_claim chosen
  exact ⟨(claim, at_), there⟩

theorem vouchOf_map {target voucher : NodeId}
    (h : (f.vouchOf target).map (·.1) = some voucher) :
    ∃ c, f.claims.get? (target, voucher) = some c := by
  obtain ⟨⟨v, claim⟩, vouch, rfl⟩ := Option.map_eq_some_iff.mp h
  obtain ⟨at_, there⟩ := vouchOf_claim vouch
  exact ⟨(claim, at_), there⟩

/-- A row rests on a voucher for a claim the voucher made. -/
theorem restsOn_claim {row : NodeDescriptor} {voucher : NodeId}
    (member : row ∈ (f.nodes pins now).nodes) (h : RestsOn row voucher) :
    ∃ target c, f.claims.get? (target, voucher) = some c := by
  by_cases remote : row.isLocal = false
  · cases mem_rows.mp (mem_remote.mp ⟨member, remote⟩) with
    | inl paired =>
        obtain ⟨pin, _, rfl⟩ := paired
        cases h with
        | inl vouched => exact ⟨pin.id, vouchOf_map vouched⟩
        | inr reached => cases reached
    | inr unpaired =>
        cases unpaired with
        | inl sighted =>
            obtain ⟨id, s, _, _, rfl⟩ := sighted
            cases h with
            | inl vouched => exact ⟨id, vouchOf_map vouched⟩
            | inr reached => cases reached
        | inr vouched =>
            obtain ⟨target, v, claim, _, vouch, rfl⟩ := vouched
            cases h with
            | inl same =>
                cases same
                obtain ⟨at_, there⟩ := vouchOf_claim vouch
                exact ⟨target, (claim, at_), there⟩
            | inr reached =>
                obtain ⟨_, c, at_, there, _⟩ := chooseVoucher_claim reached
                exact ⟨target, (c, at_), there⟩
  · have here : row = f.localNode := by
      cases List.mem_cons.mp member with
      | inl here => exact here
      | inr other => exact absurd ((f.nodes pins now).others_remote row other) remote
    subst here
    cases h with
    | inl vouched => cases vouched
    | inr reached => cases reached

theorem Backed.current {s : Shared} (h : Backed s) : TrustIsCurrent s := by
  have unclaimed : ∀ voucher ∈ s.withdrawn, ∀ target c,
      s.fleet.claims.get? (target, voucher) ≠ some c := by
    intro voucher gone target c there
    have pinned : (get? s.file voucher).isSome = true := h.claims _ _ there
    rw [h.withdrawn voucher gone] at pinned
    cases pinned
  refine ⟨?_, ?_, ?_⟩
  · intro read port target relay routed
    obtain ⟨c, there⟩ := routedVia_claim routed
    exact h.claims _ _ there
  · intro voucher gone read now row member rests
    obtain ⟨target, c, there⟩ := restsOn_claim member rests
    exact unclaimed voucher gone target c there
  · intro voucher gone read port target routed
    obtain ⟨c, there⟩ := routedVia_claim routed
    exact unclaimed voucher gone target c there

end Reading

section Steps
variable {s s' : Shared}

/-- A step that leaves the file alone and only drops claims keeps them backed. -/
theorem Backed.of_claims (h : Backed s) (file : s'.file = s.file)
    (withdrawn : s'.withdrawn = s.withdrawn)
    (fewer : ∀ k c, s'.fleet.claims.get? k = some c → s.fleet.claims.get? k = some c) :
    Backed s' := by
  refine ⟨fun k c there => ?_, fun id gone => ?_⟩
  · rw [Shared.Pinned, file]
    exact h.claims k c (fewer k c there)
  · rw [file]
    exact h.withdrawn id (withdrawn ▸ gone)

@[simp] theorem observe_claims (f : LocalFleet) (pins : Except String Pins) (now : Nat)
    (beacon : Beacon) : (f.observe pins now beacon).claims = f.claims := by
  unfold LocalFleet.observe
  split
  · rfl
  · dsimp only
    split <;> rfl

theorem prune_claims {f : LocalFleet} {pins : Except String Pins} {now : Nat}
    {k : NodeId × NodeId} {c : VouchedPeer × Nat}
    (h : (f.prune pins now).claims.get? k = some c) : f.claims.get? k = some c := by
  have kept : (f.pruneVouches now).claims.get? k = some c := by
    cases pins <;> exact h
  exact (Table.of_get?_keep kept).1

/-- An answer adds what its speaker says in it, and nothing if it has nothing to
write. -/
theorem record_claims {f : LocalFleet} {now : Nat} {report : PeerReport}
    {k : NodeId × NodeId} {c : VouchedPeer × Nat}
    (h : (record f now report).claims.get? k = some c) :
    (k.2 = report.node ∧ Writes f report ∧ ∃ digest, report.vouched = some digest ∧
      c.1 ∈ digest ∧ c.1.node = k.1) ∨ f.claims.get? k = some c := by
  cases said : report.vouched with
  | none =>
      rw [record, said] at h
      exact Or.inr h
  | some digest =>
      rw [record, said] at h
      by_cases long : maxVouched < digest.length
      · simp only [LocalFleet.recordVouches, long, if_true] at h
        exact Or.inr h
      · simp only [LocalFleet.recordVouches, long, if_false] at h
        cases Claims.get?_rewrite h with
        | inl new =>
            obtain ⟨speaker, member, about, _⟩ := new
            have kept := List.mem_filter.mp member
            have writes : Writes f report :=
              ⟨digest, said, Nat.not_lt.mp long, c.1, kept.1, by simpa using kept.2⟩
            exact Or.inl ⟨speaker, writes, digest, rfl, kept.1, about⟩
        | inr old => exact Or.inr old.2

theorem Backed.record {now : Nat} {report : PeerReport} (h : Backed s)
    (pinned : Writes s.fleet report → s.Pinned report.node) :
    Backed { s with fleet := record s.fleet now report } := by
  refine ⟨fun k c there => ?_, h.withdrawn⟩
  cases record_claims there with
  | inl new => exact new.1 ▸ pinned new.2.1
  | inr old => exact h.claims k c old

theorem Backed.save {op : Op} {copy : Pins} (h : Backed s) (careful : Careful s op copy) :
    Backed ⟨copy, s.fleet, settle s.withdrawn (.saving op copy) .proceed⟩ := by
  obtain ⟨keeps, restores⟩ := careful
  refine ⟨fun k c there => ?_, fun id gone => ?_⟩
  · by_cases kept : get? copy k.2 = none
    · have stands : s.Claims k.2 := ⟨k.1, by rw [there]; rfl⟩
      exact absurd stands (keeps k.2 (h.claims k c there) kept)
    · exact Option.isSome_iff_ne_none.mpr kept
  · have before : id ∈ s.withdrawn ∧ ∀ pin, op = .add pin → id ≠ pin.id := by
      cases op with
      | add pin =>
          obtain ⟨old, other⟩ := List.mem_filter.mp gone
          exact ⟨old, fun _ same => by cases same; simpa using other⟩
      | remove | setController | setBench | rememberAddress => exact ⟨gone, fun _ => nofun⟩
    by_cases back : get? copy id = none
    · exact back
    · obtain ⟨pin, add, same⟩ := restores id before.1 (Option.isSome_iff_ne_none.mpr back)
      exact absurd same.symm (before.2 pin add)

theorem Backed.complete {task : Task} (h : Backed s)
    (removed : ∀ peer, task.completes = some peer → get? s.file peer = none) :
    Backed (s.complete task) := by
  unfold Shared.complete
  cases done : task.completes with
  | none => exact h
  | some peer =>
      refine ⟨h.claims, fun id gone => ?_⟩
      cases List.mem_cons.mp gone with
      | inl here => exact here ▸ removed peer done
      | inr before => exact h.withdrawn id before

theorem settle_fail (withdrawn : List NodeId) (t : Trust.Task) :
    settle withdrawn t .fail = withdrawn := by
  unfold settle
  split
  · contradiction
  · rfl

theorem resumeInner_backed {task task' : Task} {t : Trust.Task} {r : Trust.Reply}
    (h : Backed s) (removes : task.Removes) (inner : task.inner = some t)
    (careful : ∀ op copy, t = .saving op copy → r = .proceed → Careful s op copy)
    (hr : resumeInner s task t r = some (s', task')) : Backed s' ∧ task'.Removes := by
  cases t with
  | done | failed => cases r <;> cases hr
  | saving op copy =>
      cases r with
      | proceed =>
          cases hr
          have saved := h.save (careful op copy rfl rfl)
          cases task with
          | polling | recorded | cleared | done => cases inner
          | remembering | editing => exact ⟨saved, trivial⟩
          | unpairing peer t =>
              cases inner
              refine ⟨saved.complete fun other same => ?_, trivial⟩
              cases same
              exact removes
      | fail =>
          simp only [resumeInner, Trust.resume, settle_fail, Option.map_some] at hr
          cases task with
          | polling | recorded | cleared | done => cases inner
          | remembering | editing | unpairing =>
              cases hr
              exact ⟨h, trivial⟩
  | readding op pin =>
      cases task with
      | polling | recorded | cleared | done => cases inner
      | unpairing peer t =>
          cases inner
          exact removes.elim
      | remembering | editing =>
          cases r with
          | proceed | fail =>
              cases hr
              exact ⟨h, trivial⟩

/-- A task with an operation on the file goes on as that operation does. -/
theorem resume_file {task : Task} {t : Trust.Task} {r : Trust.Reply}
    (inner : task.inner = some t) : resume s task (.file r) = resumeInner s task t r := by
  cases task with
  | polling | recorded | cleared | done => cases inner
  | remembering report t' | unpairing peer t' | editing t' =>
      cases inner
      cases t <;> rfl

/-- A call only reads the file, and adds no claim. -/
theorem enter_keeps {call : Call} {task : Task} (he : enter s call = some (s', task)) :
    s'.file = s.file ∧ s'.withdrawn = s.withdrawn ∧ task.Removes ∧
      ∀ k c, s'.fleet.claims.get? k = some c → s.fleet.claims.get? k = some c := by
  cases call with
  | poll peer addr =>
      simp only [enter] at he
      split at he
      · cases he
        exact ⟨rfl, rfl, trivial, fun _ _ there => there⟩
      · cases he
  | unanswered peer =>
      cases he
      exact ⟨rfl, rfl, trivial, fun _ _ there => there⟩
  | unpair peer =>
      cases he
      exact ⟨rfl, rfl, trivial, fun _ _ there => (Table.of_get?_keep there).1⟩
  | edit op =>
      obtain ⟨⟨file, t⟩, entered, eq⟩ := Option.map_eq_some_iff.mp he
      cases eq
      cases enter_file entered
      exact ⟨rfl, rfl, trivial, fun _ _ there => there⟩
  | observe read now beacon =>
      cases he
      exact ⟨rfl, rfl, trivial, fun k c there => by simpa using there⟩
  | prune read now =>
      cases he
      exact ⟨rfl, rfl, trivial, fun _ _ there => prune_claims there⟩

/-- A removal that begins has a copy without the pin, or found none. -/
theorem remove_backed {peer : NodeId} {file : Pins} {t : Trust.Task} (h : Backed s)
    (entered : Trust.enter s.file (.remove peer) = some (file, t)) :
    Backed (Shared.complete { s with file := file } (.unpairing peer t)) ∧
      (Task.unpairing peer t).Removes := by
  cases enter_file entered
  simp only [Trust.enter, Op.load] at entered
  cases there : get? s.file peer with
  | some pin =>
      rw [there] at entered
      cases entered
      exact ⟨h, by simp [Task.Removes, get?_erase]⟩
  | none =>
      rw [there] at entered
      cases entered
      refine ⟨h.complete fun other same => ?_, trivial⟩
      cases same
      exact there

/-- Claims are added by answers alone. -/
theorem resume_claims {task task' : Task} {r : Reply}
    (quiet : ∀ now report, r ≠ .answered now report)
    (hr : resume s task r = some (s', task')) : s'.fleet.claims = s.fleet.claims := by
  have inner : ∀ t f, r = .file f → task.inner = some t →
      s'.fleet.claims = s.fleet.claims := by
    intro t f same in_
    subst same
    rw [resume_file in_] at hr
    obtain ⟨⟨file, t'⟩, _, eq⟩ := Option.map_eq_some_iff.mp hr
    cases eq
    simp only [Shared.complete]
    split <;> rfl
  cases r with
  | answered now report => exact absurd rfl (quiet now report)
  | lost =>
      cases task with
      | polling =>
          cases hr
          rfl
      | done | cleared | recorded => cases hr
      | remembering _ t | unpairing _ t | editing t => cases t <;> cases hr
  | reported now =>
      cases task with
      | polling | done | cleared | recorded => cases hr
      | unpairing _ t | editing t => cases t <;> cases hr
      | remembering _ t =>
          cases t with
          | saving | readding => cases hr
          | done | failed =>
              cases hr
              rfl
  | file f =>
      cases task with
      | polling | done => cases hr
      | remembering _ t | unpairing _ t | editing t => exact inner t f rfl rfl
      | recorded report addr =>
          cases f with
          | proceed =>
              obtain ⟨⟨file, t⟩, _, eq⟩ := Option.map_eq_some_iff.mp hr
              cases eq
              rfl
          | fail =>
              cases hr
              rfl
      | cleared peer =>
          cases f with
          | proceed =>
              obtain ⟨⟨file, t⟩, _, eq⟩ := Option.map_eq_some_iff.mp hr
              cases eq
              simp only [Shared.complete]
              split <;> rfl
          | fail =>
              cases hr
              rfl

theorem resume_backed {task task' : Task} {r : Reply} (h : Backed s) (removes : task.Removes)
    (recorded : ∀ now report, r = .answered now report → Writes s.fleet report →
      s.Pinned report.node)
    (careful : ∀ op copy, r = .file .proceed → task.saves = some (op, copy) →
      Careful s op copy)
    (hr : resume s task r = some (s', task')) : Backed s' ∧ task'.Removes := by
  have inner : ∀ t f, r = .file f → task.inner = some t → Backed s' ∧ task'.Removes := by
    intro t f same in_
    subst same
    rw [resume_file in_] at hr
    refine resumeInner_backed h removes in_ (fun op copy saving proceeds => ?_) hr
    subst saving proceeds
    exact careful op copy rfl (by simp [Task.saves, in_])
  cases task with
  | polling peer addr =>
      cases r with
      | answered now report =>
          simp only [resume] at hr
          split at hr
          · cases hr
            exact ⟨h.record (recorded now report rfl), trivial⟩
          · cases hr
      | lost =>
          cases hr
          exact ⟨h.of_claims rfl rfl fun _ _ there => there, trivial⟩
      | file | reported => cases hr
  | recorded report addr =>
      cases r with
      | file f =>
          cases f with
          | proceed =>
              obtain ⟨⟨file, t⟩, entered, eq⟩ := Option.map_eq_some_iff.mp hr
              cases eq
              cases enter_file entered
              exact ⟨h, trivial⟩
          | fail =>
              cases hr
              exact ⟨h, trivial⟩
      | answered | lost | reported => cases hr
  | cleared peer =>
      cases r with
      | file f =>
          cases f with
          | proceed =>
              obtain ⟨⟨file, t⟩, entered, eq⟩ := Option.map_eq_some_iff.mp hr
              cases eq
              exact remove_backed h entered
          | fail =>
              cases hr
              exact ⟨h, trivial⟩
      | answered | lost | reported => cases hr
  | remembering report t =>
      cases r with
      | file f => exact inner t f rfl rfl
      | reported now =>
          cases t with
          | done | failed =>
              cases hr
              exact ⟨h.of_claims rfl rfl fun _ _ there => there, trivial⟩
          | saving | readding => cases hr
      | answered | lost => cases t <;> cases hr
  | unpairing peer t | editing t =>
      cases r with
      | file f => exact inner t f rfl rfl
      | answered | lost | reported => cases t <;> cases hr
  | done => cases r <;> cases hr

end Steps

section Runs
variable {p q : State} {file : Pins} {fleet : LocalFleet} {as : List Action}

theorem upkeep_preserves : upkeep.Preserves Together Backed fun _ task => task.Removes where
  enter := by
    intro p call s task hp _ he
    obtain ⟨file, withdrawn, removes, fewer⟩ := enter_keeps he
    exact ⟨hp.1.of_claims file withdrawn fewer, removes, hp.2⟩
  resume := by
    intro p i r task s task' hp guard ht hr
    have here : task ∈ p.tasks := List.mem_of_getElem? ht
    obtain ⟨backed, removes⟩ := resume_backed hp.1 (hp.2 task here)
      (fun now report same => by subst same; exact guard)
      (fun op copy same saves => by
        subst same
        exact guard op copy (by simpa [ht] using saves)) hr
    refine ⟨backed, removes, fun u hu other => ?_⟩
    cases List.mem_or_eq_of_mem_set hu with
    | inl old => exact hp.2 u old
    | inr same => exact absurd same other

/-- In a run that keeps claims and pins together trust is current in every state. -/
theorem trustIsCurrent (run : Run upkeep.step Together (started file fleet) as q) :
    TrustIsCurrent q.shared := by
  have first : (started file fleet).Holds Backed fun _ task => task.Removes := by
    refine ⟨⟨fun k c there => ?_, fun id gone => ?_⟩, fun task here => ?_⟩
    · cases there
    · cases gone
    · cases here
  exact (upkeep_preserves.run first run).1.current

/-- A voucher that says it has pinned a third machine. -/
def speaking : PeerReport :=
  { LocalFleet.voucherReport with vouched := some [LocalFleet.strangerClaim] }

def pollThenUnpair : List Action :=
  [.enter (.poll 1 "10.0.0.1"), .resume 0 (.answered 1 speaking), .resume 0 (.file .fail),
    .resume 0 (.reported 2), .enter (.unpair 1), .resume 1 (.file .proceed),
    .resume 1 (.file .proceed)]

theorem trustIsCurrent_unpair : ∃ q,
    Run upkeep.step Together (started LocalFleet.voucherPins LocalFleet.alone) pollThenUnpair q ∧
      q.shared.withdrawn = [1] ∧ TrustIsCurrent q.shared := by
  have run : ∃ q, Run upkeep.step Together
      (started LocalFleet.voucherPins LocalFleet.alone) pollThenUnpair q ∧
        q.shared.withdrawn = [1] := by
    refine ⟨_, .cons ⟨trivial, rfl⟩ (.cons ⟨fun _ => rfl, rfl⟩ (.cons ⟨trivial, rfl⟩
      (.cons ⟨trivial, rfl⟩ (.cons ⟨trivial, rfl⟩ (.cons ⟨nofun, rfl⟩
        (.cons ⟨?_, rfl⟩ (.nil _))))))), rfl⟩
    intro op copy saves
    cases saves
    refine ⟨fun id _ _ claimed => ?_, fun id gone => by cases gone⟩
    obtain ⟨target, there⟩ := claimed
    cases there
  obtain ⟨q, run, gone⟩ := run
  exact ⟨q, run, gone, trustIsCurrent run⟩

/-- The same removal, while the poll is in flight. -/
def unpairDuringPoll : List Action :=
  [.enter (.poll 1 "10.0.0.1"), .enter (.unpair 1), .resume 1 (.file .proceed),
    .resume 1 (.file .proceed), .resume 0 (.answered 1 speaking), .resume 0 (.file .proceed),
    .resume 0 (.reported 2)]

/-- The poll then puts back what the removal has cleared: the router takes a relay
that is no longer pinned. -/
theorem not_trustIsCurrent_inFlight : ∃ q,
    Run upkeep.step Free (started LocalFleet.voucherPins LocalFleet.alone) unpairDuringPoll q ∧
      ¬ TrustIsCurrent q.shared := by
  refine ⟨_, .cons ⟨trivial, rfl⟩ (.cons ⟨trivial, rfl⟩ (.cons ⟨trivial, rfl⟩
    (.cons ⟨trivial, rfl⟩ (.cons ⟨trivial, rfl⟩ (.cons ⟨trivial, rfl⟩
      (.cons ⟨trivial, rfl⟩ (.nil _))))))), fun current => ?_⟩
  have pinned := current.routes none 34334 2 1 ⟨⟨"10.0.0.1", 34334⟩, rfl⟩
  cases pinned

end Runs

end Upkeep
end Fleet
end Metralectl
