import Metralectl.Fleet.CurrentTrust

/-!
Digests between agents. A digest is built from the speaker's pins and from what
each pinned machine said of itself, travels in a hello, and is recorded by whoever
polled. Whether what is claimed about a machine has a first hand behind it is a
question about every agent at once, and about the digests that are on their way.
-/
namespace Metralectl
namespace Fleet
open Tables Trust Runs Interleaving

def peerProtocolVersion : Nat := 1

def peerProtocolMax : Nat := 3

namespace LocalFleet

/-- What is said of a pinned machine: what it last said of itself, or nothing. -/
def vouchedPeer (f : LocalFleet) (now : Nat) (pin : Pin) : VouchedPeer :=
  let held := f.reports.get? pin.id
  let report := held.map (·.1)
  let vitals := report.bind (·.vitals)
  { node := pin.id
    name := (report.map (·.name)).getD pin.name
    canLaunch := report.any (·.canLaunch)
    accelerator := (report.map (·.accelerator)).getD ""
    os := (report.map (·.os)).getD ""
    addresses := (report.map (·.addresses)).getD []
    link := (report.map (·.link)).getD .unverified
    reachable := report.isSome
    vitals := vitals
    vitalsAgeS := if vitals.isSome then held.map fun (_, at_) => (now - at_) / second else none }

/-- One entry for each pin, in the order of their ids, up to the cap. -/
def fleetDigest (f : LocalFleet) (pinned : Pins) (now : Nat) : List VouchedPeer :=
  ((pinned.insertionSort fun a b => a.id ≤ b.id).take maxVouched).map (f.vouchedPeer now)

/-- What a peer has said of itself, and when: its report without what it vouches for. -/
def saidItself (f : LocalFleet) (peer : NodeId) : Option (PeerReport × Nat) :=
  (f.reports.get? peer).map fun (report, at_) => ({ report with vouched := none }, at_)

/-- Nothing is said of a pinned machine but what that machine has said of itself. -/
theorem vouchedPeer_congr {f g : LocalFleet} {pin : Pin}
    (same : g.saidItself pin.id = f.saidItself pin.id) (now : Nat) :
    g.vouchedPeer now pin = f.vouchedPeer now pin := by
  cases hf : f.reports.get? pin.id with
  | none =>
      cases hg : g.reports.get? pin.id with
      | none => simp [vouchedPeer, hf, hg]
      | some other => simp [saidItself, hf, hg] at same
  | some held =>
      cases hg : g.reports.get? pin.id with
      | none => simp [saidItself, hf, hg] at same
      | some other =>
          simp only [saidItself, hf, hg, Option.map_some, Option.some.injEq, Prod.mk.injEq,
            PeerReport.mk.injEq] at same
          simp [vouchedPeer, hf, hg, same]

theorem mem_fleetDigest {f : LocalFleet} {pinned : Pins} {now : Nat} {entry : VouchedPeer}
    (h : entry ∈ f.fleetDigest pinned now) :
    ∃ pin ∈ pinned, pin.id = entry.node ∧ entry = f.vouchedPeer now pin := by
  obtain ⟨pin, member, rfl⟩ := List.mem_map.mp h
  exact ⟨pin, (List.mem_insertionSort _).mp (List.mem_of_mem_take member), rfl, rfl⟩

end LocalFleet

namespace Gossip
open Upkeep

/-- How an agent introduces itself. No digest means that it did not say. -/
structure Hello where
  name : String
  canLaunch : Bool
  accelerator : String
  os : String
  addresses : List NodeAddress
  versionMax : Option Nat
  vouched : Option (List VouchedPeer)

/-- Pins that cannot be read leave the digest out. -/
def introduce (f : LocalFleet) (pins : Except String Pins) (now : Nat) : Hello where
  name := f.name
  canLaunch := f.launchability.canLaunch
  accelerator := ""
  os := f.os
  addresses := f.localAddresses
  versionMax := some peerProtocolMax
  vouched := (pins.toOption).map fun pinned => f.fleetDigest pinned now

/-- What a poll makes of an introduction, and of the vitals if they came in time. -/
def reportOf (peer : NodeId) (link : LinkClass) (hello : Hello) (vitals : Option NodeVitals) :
    PeerReport where
  node := peer
  name := hello.name
  canLaunch := hello.canLaunch
  accelerator := hello.accelerator
  os := hello.os
  vitals := vitals
  link := link
  addresses := hello.addresses
  vouched := hello.vouched
  peerVersionMax := hello.versionMax.getD peerProtocolVersion

/-- An introduction on its way, over a channel whose ends are both authenticated. -/
structure Frame where
  speaker : NodeId
  listener : NodeId
  hello : Hello
  vitals : NodeVitals

structure Network where
  agents : NodeId → Upkeep.State
  flight : List Frame

inductive Move where
  /-- A peer that was let in is introduced to. -/
  | serve (speaker listener : NodeId) (read : Option String) (now : Nat)
  /-- A poll of the listener is answered by a frame of the speaker it dialled. -/
  | receive (frame task : Nat) (link : LinkClass) (sampled : Bool) (now : Nat)
  | lose (frame : Nat)
  /-- Anything an agent does that is not the answer to a poll. -/
  | act (agent : NodeId) (a : Upkeep.Action)

def answers : Upkeep.Action → Bool
  | .resume _ (.answered _ _) => true
  | _ => false

def Network.set (net : Network) (agent : NodeId) (p : Upkeep.State) : NodeId → Upkeep.State :=
  fun id => if id = agent then p else net.agents id

def step (net : Network) : Move → Option Network
  | .serve speaker listener read now =>
      let s := (net.agents speaker).shared
      let frame := ⟨speaker, listener, introduce s.fleet (s.read read) now, s.fleet.vitals⟩
      some { net with flight := net.flight ++ [frame] }
  | .receive i task link sampled now =>
      net.flight[i]?.bind fun frame =>
        let vitals := if sampled then some frame.vitals else none
        let report := reportOf frame.speaker link frame.hello vitals
        (upkeep.step (net.agents frame.listener) (.resume task (.answered now report))).map
          fun p => ⟨net.set frame.listener p, net.flight.eraseIdx i⟩
  | .lose i => some { net with flight := net.flight.eraseIdx i }
  | .act agent a =>
      if answers a then none
      else (upkeep.step (net.agents agent) a).map fun p => { net with agents := net.set agent p }

/-- Every agent has just started, on a file of its own, and has heard nothing yet. -/
def boot (of : NodeId → Pins × LocalFleet) : Network where
  agents := fun id => started (of id).1 { (of id).2 with reports := .empty }
  flight := []

section Claims
variable {p q : Upkeep.State} {a : Upkeep.Action}

theorem answered_claims {i now : Nat} {report : PeerReport}
    (h : upkeep.step p (.resume i (.answered now report)) = some q) :
    q.shared.fleet = record p.shared.fleet now report := by
  obtain ⟨task, s, task', _, hr, rfl⟩ := Object.step_resume h
  cases task with
  | polling peer addr =>
      simp only [upkeep, Upkeep.resume] at hr
      split at hr
      · cases hr
        rfl
      · cases hr
  | recorded | cleared | done => cases hr
  | remembering _ t | unpairing _ t | editing t => cases t <;> cases hr

/-- Nothing else adds a claim. -/
theorem act_claims (quiet : answers a = false) (h : upkeep.step p a = some q)
    {k : NodeId × NodeId} {c : VouchedPeer × Nat}
    (there : q.shared.fleet.claims.get? k = some c) :
    p.shared.fleet.claims.get? k = some c := by
  cases a with
  | enter call =>
      obtain ⟨s, task, he, rfl⟩ := Object.step_enter h
      exact (enter_keeps he).2.2.2 k c there
  | resume i r =>
      obtain ⟨task, s, task', _, hr, rfl⟩ := Object.step_resume h
      have same : s.fleet.claims = p.shared.fleet.claims :=
        resume_claims (fun now report answered => by simp [answered, answers] at quiet) hr
      rw [← same]
      exact there

end Claims

/-- What a task still has to put down of an answer. -/
def report? : Upkeep.Task → Option PeerReport
  | .recorded report _ | .remembering report _ => some report
  | _ => none

section Reports
variable {s s' : Upkeep.Shared} {task task' : Upkeep.Task}

@[simp] theorem report?_withInner (task : Upkeep.Task) (t : Trust.Task) :
    report? (task.withInner t) = report? task := by
  cases task <;> rfl

@[simp] theorem complete_fleet (s : Upkeep.Shared) (task : Upkeep.Task) :
    (s.complete task).fleet = s.fleet := by
  unfold Upkeep.Shared.complete
  split <;> rfl

@[simp] theorem record_reports (f : LocalFleet) (now : Nat) (report : PeerReport) :
    (record f now report).reports = f.reports := by
  unfold record
  split
  · unfold LocalFleet.recordVouches
    split <;> rfl
  · rfl

@[simp] theorem prune_reports (f : LocalFleet) (pins : Except String Pins) (now : Nat) :
    (f.prune pins now).reports = f.reports := by
  cases pins <;> rfl

@[simp] theorem observe_reports (f : LocalFleet) (pins : Except String Pins) (now : Nat)
    (beacon : Beacon) : (f.observe pins now beacon).reports = f.reports := by
  unfold LocalFleet.observe
  split
  · rfl
  · dsimp only
    split <;> rfl

/-- A call drops reports at most, and begins with none in hand. -/
theorem enter_reports {call : Upkeep.Call} (he : Upkeep.enter s call = some (s', task)) :
    (∀ peer v, s'.fleet.reports.get? peer = some v → s.fleet.reports.get? peer = some v) ∧
      report? task = none := by
  cases call with
  | poll peer addr =>
      simp only [Upkeep.enter] at he
      split at he
      · cases he
        exact ⟨fun _ _ => id, rfl⟩
      · cases he
  | unanswered peer =>
      cases he
      refine ⟨fun other v there => ?_, rfl⟩
      simp only [LocalFleet.clearReport, Table.get?_erase] at there
      split at there
      · cases there
      · exact there
  | unpair peer =>
      cases he
      exact ⟨fun _ _ => id, rfl⟩
  | edit op =>
      obtain ⟨⟨file, t⟩, _, eq⟩ := Option.map_eq_some_iff.mp he
      cases eq
      exact ⟨fun _ _ => id, rfl⟩
  | observe read now beacon =>
      cases he
      exact ⟨fun _ _ there => by simpa using there, rfl⟩
  | prune read now =>
      cases he
      exact ⟨fun _ _ there => by simpa using there, rfl⟩

/-- What is put down is what the task had in hand, and it has in hand what it was
answered. -/
theorem resume_reports {r : Upkeep.Reply} (hr : Upkeep.resume s task r = some (s', task')) :
    (∀ peer v, s'.fleet.reports.get? peer = some v →
      s.fleet.reports.get? peer = some v ∨ (report? task = some v.1 ∧ v.1.node = peer)) ∧
    ∀ report, report? task' = some report →
      report? task = some report ∨ ∃ now, r = .answered now report := by
  have inner : ∀ t f, r = .file f → task.inner = some t →
      s'.fleet = s.fleet ∧ report? task' = report? task := by
    intro t f same in_
    subst same
    rw [resume_file in_] at hr
    obtain ⟨⟨file, t'⟩, _, eq⟩ := Option.map_eq_some_iff.mp hr
    cases eq
    simp
  cases r with
  | answered now report =>
      cases task with
      | polling peer addr =>
          simp only [Upkeep.resume] at hr
          split at hr
          · cases hr
            refine ⟨fun _ _ there => Or.inl (by simpa using there), fun held in_ => ?_⟩
            cases in_
            exact Or.inr ⟨now, rfl⟩
          · cases hr
      | recorded | cleared | done => cases hr
      | remembering _ t | unpairing _ t | editing t => cases t <;> cases hr
  | lost =>
      cases task with
      | polling peer addr =>
          cases hr
          refine ⟨fun other v there => ?_, fun _ in_ => by cases in_⟩
          simp only [LocalFleet.clearReport, Table.get?_erase] at there
          split at there
          · cases there
          · exact Or.inl there
      | recorded | cleared | done => cases hr
      | remembering _ t | unpairing _ t | editing t => cases t <;> cases hr
  | reported now =>
      cases task with
      | polling | done | cleared | recorded => cases hr
      | unpairing _ t | editing t => cases t <;> cases hr
      | remembering report t =>
          cases t with
          | saving | readding => cases hr
          | done | failed =>
              cases hr
              refine ⟨fun peer v there => ?_, fun _ in_ => by cases in_⟩
              simp only [LocalFleet.recordReport, Table.get?_insert] at there
              split at there
              · next same =>
                  cases there
                  exact Or.inr ⟨rfl, same.symm⟩
              · exact Or.inl there
  | file f =>
      cases task with
      | polling | done => cases hr
      | remembering _ t | unpairing _ t | editing t =>
          obtain ⟨fleet, held⟩ := inner t f rfl rfl
          exact ⟨fun _ _ there => Or.inl (fleet ▸ there), fun _ in_ => Or.inl (held ▸ in_)⟩
      | recorded report addr =>
          cases f with
          | proceed =>
              obtain ⟨⟨file, t⟩, _, eq⟩ := Option.map_eq_some_iff.mp hr
              cases eq
              exact ⟨fun _ _ there => Or.inl there, fun _ in_ => Or.inl in_⟩
          | fail =>
              cases hr
              exact ⟨fun _ _ there => Or.inl there, fun _ in_ => Or.inl in_⟩
      | cleared peer =>
          cases f with
          | proceed =>
              obtain ⟨⟨file, t⟩, _, eq⟩ := Option.map_eq_some_iff.mp hr
              cases eq
              exact ⟨fun _ _ there => Or.inl (by simpa using there), fun _ in_ => by cases in_⟩
          | fail =>
              cases hr
              exact ⟨fun _ _ there => Or.inl there, fun _ in_ => by cases in_⟩

/-- The same of any step of an agent. -/
theorem step_reports {p q : Upkeep.State} {a : Upkeep.Action} (h : upkeep.step p a = some q) :
    (∀ peer v, q.shared.fleet.reports.get? peer = some v →
      p.shared.fleet.reports.get? peer = some v ∨
        ∃ task ∈ p.tasks, report? task = some v.1 ∧ v.1.node = peer) ∧
    ∀ task ∈ q.tasks, ∀ report, report? task = some report →
      (∃ before ∈ p.tasks, report? before = some report) ∨
        ∃ i now, a = .resume i (.answered now report) := by
  cases a with
  | enter call =>
      obtain ⟨s, task, he, rfl⟩ := Object.step_enter h
      obtain ⟨fewer, none_⟩ := enter_reports he
      refine ⟨fun peer v there => Or.inl (fewer peer v there), fun t member report in_ => ?_⟩
      cases List.mem_append.mp member with
      | inl old => exact Or.inl ⟨t, old, in_⟩
      | inr new =>
          rw [List.mem_singleton.mp new, none_] at in_
          cases in_
  | resume i r =>
      obtain ⟨task, s, task', ht, hr, rfl⟩ := Object.step_resume h
      obtain ⟨written, held⟩ := resume_reports hr
      refine ⟨fun peer v there => (written peer v there).imp id fun new =>
        ⟨task, List.mem_of_getElem? ht, new⟩, fun t member report in_ => ?_⟩
      cases List.mem_or_eq_of_mem_set member with
      | inl old => exact Or.inl ⟨t, old, in_⟩
      | inr new =>
          rw [new] at in_
          cases held report in_ with
          | inl before => exact Or.inl ⟨task, List.mem_of_getElem? ht, before⟩
          | inr answered =>
              obtain ⟨now, rfl⟩ := answered
              exact Or.inr ⟨i, now, rfl⟩

end Reports

section Provenance
variable {start net : Network} {as : List Move}

/-- A frame is how its speaker has introduced itself to its listener. -/
def Spoken (start : Network) (as : List Move) (frame : Frame) : Prop :=
  ∃ pre read now post m, as = pre ++ Move.serve frame.speaker frame.listener read now :: post ∧
    Run step Free start pre m ∧
    frame.hello = introduce (m.agents frame.speaker).shared.fleet
      ((m.agents frame.speaker).shared.read read) now ∧
    frame.vitals = (m.agents frame.speaker).shared.fleet.vitals

/-- What an agent has of a peer is what that peer told it when it introduced itself. -/
def Told (start : Network) (as : List Move) (listener : NodeId) (report : PeerReport) : Prop :=
  ∃ frame link, ∃ sampled : Bool, Spoken start as frame ∧ frame.listener = listener ∧
    report = reportOf frame.speaker link frame.hello (if sampled then some frame.vitals else none)

/-- An entry was put into a digest by its speaker, which at that moment had a pin
for what the entry names. The entry comes of that pin and of what its machine
had said of itself, to this speaker: any other agent with the two would have put
it so, whatever vouches it had been told of and by whom. -/
def Built (start : Network) (as : List Move) (speaker target : NodeId) (entry : VouchedPeer) :
    Prop :=
  ∃ pre listener now post m, as = pre ++ Move.serve speaker listener none now :: post ∧
    Run step Free start pre m ∧ ∃ pin ∈ (m.agents speaker).shared.file, pin.id = target ∧
      (∀ other : LocalFleet,
        other.saidItself pin.id = (m.agents speaker).shared.fleet.saidItself pin.id →
        entry = other.vouchedPeer now pin) ∧
      ∀ report at_, (m.agents speaker).shared.fleet.reports.get? pin.id = some (report, at_) →
        report.node = pin.id ∧ Told start pre speaker report

theorem Spoken.later {frame : Frame} {a : Move} (h : Spoken start as frame) :
    Spoken start (as ++ [a]) frame := by
  obtain ⟨pre, read, now, post, m, rfl, run, hello⟩ := h
  exact ⟨pre, read, now, post ++ [a], m, by simp, run, hello⟩

theorem Told.later {listener : NodeId} {report : PeerReport} {a : Move}
    (h : Told start as listener report) : Told start (as ++ [a]) listener report := by
  obtain ⟨frame, link, sampled, spoken, told⟩ := h
  exact ⟨frame, link, sampled, spoken.later, told⟩

theorem Built.later {speaker target : NodeId} {entry : VouchedPeer} {a : Move}
    (h : Built start as speaker target entry) : Built start (as ++ [a]) speaker target entry := by
  obtain ⟨pre, listener, now, post, m, rfl, run, pinned⟩ := h
  exact ⟨pre, listener, now, post ++ [a], m, by simp, run, pinned⟩

/-- Every frame on its way was spoken, every report kept or in hand was told, and
every entry of a digest on its way and every claim recorded anywhere was built. -/
structure Sourced (start : Network) (as : List Move) (net : Network) : Prop where
  spoken : ∀ frame ∈ net.flight, Spoken start as frame
  reports : ∀ agent peer v, (net.agents agent).shared.fleet.reports.get? peer = some v →
    v.1.node = peer ∧ Told start as agent v.1
  held : ∀ agent, ∀ task ∈ (net.agents agent).tasks, ∀ report, report? task = some report →
    Told start as agent report
  flight : ∀ frame ∈ net.flight, ∀ digest, frame.hello.vouched = some digest →
    ∀ entry ∈ digest, Built start as frame.speaker entry.node entry
  claims : ∀ agent k c, (net.agents agent).shared.fleet.claims.get? k = some c →
    Built start as k.2 k.1 c.1

/-- A move that adds nothing to any agent. -/
theorem Sourced.same {a : Move} {flight : List Frame} (h : Sourced start as net)
    (fewer : ∀ frame ∈ flight, frame ∈ net.flight) :
    Sourced start (as ++ [a]) { net with flight := flight } where
  spoken frame member := (h.spoken frame (fewer frame member)).later
  reports agent peer v there := (h.reports agent peer v there).imp id Told.later
  held agent task member report in_ := (h.held agent task member report in_).later
  flight frame member digest said entry entered :=
    (h.flight frame (fewer frame member) digest said entry entered).later
  claims agent k c there := (h.claims agent k c there).later

/-- A step of one agent, of which the answer it may have got was told, and the
claims it may have added were built. -/
theorem Sourced.agent {a : Move} {flight : List Frame} {agent : NodeId} {p : Upkeep.State}
    {act : Upkeep.Action} (h : Sourced start as net) (fewer : ∀ frame ∈ flight, frame ∈ net.flight)
    (stepped : upkeep.step (net.agents agent) act = some p)
    (answered : ∀ i now report, act = .resume i (.answered now report) →
      Told start as agent report)
    (claimed : ∀ k c, p.shared.fleet.claims.get? k = some c →
      Built start as k.2 k.1 c.1) :
    Sourced start (as ++ [a]) ⟨net.set agent p, flight⟩ := by
  obtain ⟨written, inHand⟩ := step_reports stepped
  refine ⟨fun frame member => (h.spoken frame (fewer frame member)).later, ?_, ?_,
    fun frame member digest said entry entered =>
      (h.flight frame (fewer frame member) digest said entry entered).later, ?_⟩
  · intro other peer v there
    by_cases here : other = agent
    · simp only [Network.set, here, if_true] at there ⊢
      cases written peer v there with
      | inl old => exact (h.reports agent peer v old).imp id Told.later
      | inr new =>
          obtain ⟨task, member, in_, names⟩ := new
          exact ⟨names, (h.held agent task member v.1 in_).later⟩
    · simp only [Network.set, here, if_false] at there
      exact (h.reports other peer v there).imp id Told.later
  · intro other task member report in_
    by_cases here : other = agent
    · simp only [Network.set, here, if_true] at member ⊢
      cases inHand task member report in_ with
      | inl before =>
          obtain ⟨t, old, in_⟩ := before
          exact (h.held agent t old report in_).later
      | inr new =>
          obtain ⟨i, now, is⟩ := new
          exact (answered i now report is).later
    · simp only [Network.set, here, if_false] at member
      exact (h.held other task member report in_).later
  · intro other k c there
    by_cases here : other = agent
    · simp only [Network.set, here, if_true] at there
      exact (claimed k c there).later
    · simp only [Network.set, here, if_false] at there
      exact (h.claims other k c there).later

/-- One move keeps everything sourced, with itself as the latest of the past. -/
theorem Sourced.step {n : Network} {a : Move} (run : Run step Free start as net)
    (h : Sourced start as net) (hs : step net a = some n) : Sourced start (as ++ [a]) n := by
  cases a with
  | serve speaker listener read now =>
      cases hs
      have kept := h.same (a := .serve speaker listener read now) fun _ => id
      refine { kept with spoken := ?_, flight := ?_ }
      · intro frame member
        cases List.mem_append.mp member with
        | inl old => exact kept.spoken frame old
        | inr new =>
            cases List.mem_singleton.mp new
            exact ⟨as, read, now, [], net, rfl, run, rfl, rfl⟩
      · intro frame member digest said entry entered
        cases List.mem_append.mp member with
        | inl old => exact kept.flight frame old digest said entry entered
        | inr new =>
            cases List.mem_singleton.mp new
            cases read with
            | some e => cases said
            | none =>
                cases said
                obtain ⟨pin, pinned, names, built⟩ := LocalFleet.mem_fleetDigest entered
                exact ⟨as, listener, now, [], net, rfl, run, pin, pinned, names,
                  fun _ same => built.trans (LocalFleet.vouchedPeer_congr same now).symm,
                  fun report at_ there => h.reports speaker pin.id (report, at_) there⟩
  | lose i =>
      cases hs
      exact h.same fun _ => List.mem_of_mem_eraseIdx
  | receive i task link sampled now =>
      obtain ⟨frame, sent, heard⟩ := Option.bind_eq_some_iff.mp hs
      obtain ⟨p, stepped, rfl⟩ := Option.map_eq_some_iff.mp heard
      have member := List.mem_of_getElem? sent
      refine h.agent (fun _ => List.mem_of_mem_eraseIdx) stepped ?_ ?_
      · intro _ _ report is
        cases is
        exact ⟨frame, link, sampled, h.spoken frame member, rfl, rfl⟩
      · intro k c there
        rw [answered_claims stepped] at there
        cases record_claims there with
        | inr old => exact h.claims frame.listener k c old
        | inl new =>
            obtain ⟨speaker, _, digest, said, entered, about⟩ := new
            have built := h.flight frame member digest said c.1 entered
            rw [about] at built
            exact speaker ▸ built
  | act agent a =>
      simp only [Gossip.step] at hs
      split at hs
      · cases hs
      · next quiet =>
          obtain ⟨p, stepped, rfl⟩ := Option.map_eq_some_iff.mp hs
          refine h.agent (fun _ => id) stepped ?_ ?_
          · rintro i now report rfl
            exact absurd rfl quiet
          · exact fun k c there => h.claims agent k c (act_claims (by simpa using quiet) stepped there)

/-- Vouches travel one hop: every claim in any table was built by its voucher, from
a pin the voucher itself held when it built it. -/
theorem claims_firstHand {of : NodeId → Pins × LocalFleet} (run : Run step Free (boot of) as net)
    (agent target voucher : NodeId) (claim : VouchedPeer) (at_ : Nat)
    (there : (net.agents agent).shared.fleet.claims.get? (target, voucher) = some (claim, at_)) :
    Built (boot of) as voucher target claim := by
  have sourced : Sourced (boot of) as net := by
    refine Path.history run ⟨?_, ?_, ?_, ?_, ?_⟩ ?_
    · intro frame member
      cases member
    · intro agent peer v there
      cases there
    · intro agent task member
      cases member
    · intro frame member
      cases member
    · intro agent k c there
      cases there
    · intro pre m a n before here hstep
      exact here.step before hstep.2
  exact sourced.claims agent (target, voucher) (claim, at_) there

/-- Four machines in a row, each paired with the next. -/
def four (id : NodeId) : Pins × LocalFleet :=
  let pins : Pins :=
    if id = 0 then LocalFleet.voucherPins
    else if id = 1 then [⟨2, "", "dgx2", 0, none, false, false⟩]
    else if id = 2 then [⟨3, "", "dgx3", 0, none, false, false⟩]
    else []
  (pins, { LocalFleet.alone with id := id, name := "spark" })

/-- The second has polled the third and been told of the fourth when the first polls it. -/
def twoPolls : List Move :=
  [.act 1 (.enter (.poll 2 "10.0.0.2")), .serve 2 1 none 3, .receive 0 0 .ethernet true 4,
    .act 1 (.resume 0 (.file .proceed)), .act 1 (.resume 0 (.file .proceed)),
    .act 1 (.resume 0 (.file .proceed)), .act 1 (.resume 0 (.reported 5)),
    .act 0 (.enter (.poll 1 "10.0.0.1")), .serve 1 0 none 7, .receive 0 0 .ethernet false 8]

theorem claims_firstHand_hop : ∃ net claim, Run step Free (boot four) twoPolls net ∧
    ((net.agents 1).shared.fleet.claims.get? (3, 2)).isSome = true ∧
    (net.agents 0).shared.fleet.claims.get? (2, 1) = some (claim, 8) ∧ claim.name = "spark" ∧
    (net.agents 0).shared.fleet.claims.get? (3, 1) = none ∧
    Built (boot four) twoPolls 1 2 claim := by
  have run : ∃ net claim, Run step Free (boot four) twoPolls net ∧
      ((net.agents 1).shared.fleet.claims.get? (3, 2)).isSome = true ∧
      (net.agents 0).shared.fleet.claims.get? (2, 1) = some (claim, 8) ∧ claim.name = "spark" ∧
      (net.agents 0).shared.fleet.claims.get? (3, 1) = none :=
    ⟨_, _, Run.of_replay rfl, rfl, rfl, rfl, rfl⟩
  obtain ⟨net, claim, run, told, there, named, alone⟩ := run
  exact ⟨net, claim, run, told, there, named, alone, claims_firstHand run 0 2 1 claim 8 there⟩

end Provenance

end Gossip
end Fleet
end Metralectl
