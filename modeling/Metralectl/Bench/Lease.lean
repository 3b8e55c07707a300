import Metralectl.Core.Metrics
import Metralectl.Core.Text
import Metralectl.Library.Histories
import Metralectl.Library.Runs

/-!
The server a gate run may leave running for the next one, and the worker's loop around
it: whether a job may start beside what the box runs, and when a server nobody needs is
stopped. Whatever else the box does, it may do between any two steps. Times are
nanoseconds.
-/
namespace Metralectl
namespace Bench
namespace Exclusive
open Metrics Runs Histories

section Judging

/-- What the agent needs from the lease. -/
structure Lease where
  pid : UInt32
  port : UInt16
  model : String
  ownerPid : UInt32
deriving DecidableEq

/-- The box: the lease on file if it parses, the live processes, those that serve, the
compute apps, whether the tools can be run that list these two, and what is free. -/
structure Box where
  lease : Option Lease
  alive : UInt32 → Bool
  engines : List UInt32
  gpuApps : List String
  pgrep : Bool
  nvidiaSmi : Bool
  freeFraction : Option Number
  diskFree : Option UInt64

structure Config where
  /-- The agent's own process. -/
  me : UInt32
  minFreeFraction : Number
  minFreeDisk : UInt64
  releaseAfter : Nat
  cancelGrace : Nat

/-- The leased server this agent owns and that is alive, if any. -/
def ours (me : UInt32) (box : Box) : Option Lease :=
  box.lease.filter fun l => l.ownerPid = me && box.alive l.pid

inductive Busy where
  | engine (pids : List UInt32)
  | gpuApp (app : String)
  | job (id : String)
  | memory (available required : Number)
  | disk (free required : UInt64)
deriving DecidableEq

structure Readings where
  enginePids : List UInt32
  gpuApps : List String
  runningJob : Option String
  freeFraction : Option Number
  diskFreeBytes : Option UInt64
  leased : Option UInt32

instance (a b : Number) : Decidable (a.lt b) := by
  unfold Number.lt
  split <;> infer_instance

/-- Whether a compute app, as its line names it, is the leased server. -/
def isLeasedApp (leased : Option UInt32) (app : String) : Bool :=
  leased.any fun p => s!"{p},".toList.isPrefixOf app.toList

/-- Every reason not to start. What the leased server takes up is no reason, and neither is
memory while there is one; what cannot be read is one. -/
def judge (r : Readings) (minFreeFraction : Number) (minFreeDisk : UInt64) : List Busy :=
  let engines := r.enginePids.filter fun p => some p ≠ r.leased
  (r.runningJob.map Busy.job).toList ++ (if engines.isEmpty then [] else [Busy.engine engines]) ++
    (r.gpuApps.filter fun a => !isLeasedApp r.leased a).map Busy.gpuApp ++
    (match r.freeFraction with
      | some frac =>
          if r.leased.isSome then []
          else if frac.lt minFreeFraction then [Busy.memory frac minFreeFraction] else []
      | none => [Busy.memory (.finite 0) minFreeFraction]) ++
    match r.diskFreeBytes with
    | some free => if free < minFreeDisk then [Busy.disk free minFreeDisk] else []
    | none => [Busy.disk 0 minFreeDisk]

/-- The agent's own process is left out, and a tool that cannot be run lists nothing. -/
def enginePids (me : UInt32) (box : Box) : List UInt32 :=
  if box.pgrep then box.engines.filter (· ≠ me) else []

def computeApps (box : Box) : List String := if box.nvidiaSmi then box.gpuApps else []

def probe (me : UInt32) (box : Box) (running : Option String) : Readings where
  enginePids := enginePids me box
  gpuApps := computeApps box
  runningJob := running
  freeFraction := box.freeFraction
  diskFreeBytes := box.diskFree
  leased := (ours me box).map (·.pid)

/-- As far as the tools go that can be run, nothing but a server of ours is in the way of a
job, and there is room for it: on the disk, and in memory where no such server is up. -/
structure Alone (cfg : Config) (box : Box) (running : Option String) : Prop where
  job : running = none
  engines : box.pgrep = true → ∀ p ∈ box.engines, p ≠ cfg.me →
    ∃ l, ours cfg.me box = some l ∧ l.pid = p
  apps : box.nvidiaSmi = true → ∀ a ∈ box.gpuApps,
    ∃ l, ours cfg.me box = some l ∧ s!"{l.pid},".toList <+: a.toList
  memory : ∃ frac, box.freeFraction = some frac ∧
    (frac.lt cfg.minFreeFraction → (ours cfg.me box).isSome)
  disk : ∃ free, box.diskFree = some free ∧ cfg.minFreeDisk ≤ free

variable {cfg : Config} {box : Box} {running : Option String}

theorem mem_ours {me : UInt32} {l : Lease} (h : ours me box = some l) :
    box.lease = some l ∧ l.ownerPid = me ∧ box.alive l.pid = true := by
  obtain ⟨there, mine⟩ := Option.filter_eq_some_iff.mp h
  simp only [Bool.and_eq_true, decide_eq_true_eq] at mine
  exact ⟨there, mine.1, mine.2⟩

theorem isLeasedApp_iff {a : String} :
    isLeasedApp ((ours cfg.me box).map (·.pid)) a = true ↔
      ∃ l, ours cfg.me box = some l ∧ s!"{l.pid},".toList <+: a.toList := by
  cases ours cfg.me box with
  | none => simp [isLeasedApp]
  | some l => simp [isLeasedApp]

/-- A job may start exactly where it is alone. -/
theorem judge_eq_nil :
    judge (probe cfg.me box running) cfg.minFreeFraction cfg.minFreeDisk = [] ↔
      Alone cfg box running := by
  have engines : ((probe cfg.me box running).enginePids.filter fun p =>
      some p ≠ (probe cfg.me box running).leased).isEmpty = true ↔
        (box.pgrep = true → ∀ p ∈ box.engines, p ≠ cfg.me →
          ∃ l, ours cfg.me box = some l ∧ l.pid = p) := by
    rw [List.isEmpty_iff, List.filter_eq_nil_iff]
    simp only [probe, enginePids]
    cases box.pgrep <;> simp
  have apps : ((probe cfg.me box running).gpuApps.filter fun a =>
      !isLeasedApp (probe cfg.me box running).leased a).map Busy.gpuApp = [] ↔
        (box.nvidiaSmi = true → ∀ a ∈ box.gpuApps,
          ∃ l, ours cfg.me box = some l ∧ s!"{l.pid},".toList <+: a.toList) := by
    rw [List.map_eq_nil_iff, List.filter_eq_nil_iff]
    simp only [← isLeasedApp_iff, probe, computeApps]
    cases box.nvidiaSmi <;> simp
  have memory : (match (probe cfg.me box running).freeFraction with
      | some frac =>
          if (probe cfg.me box running).leased.isSome then []
          else if frac.lt cfg.minFreeFraction then [Busy.memory frac cfg.minFreeFraction] else []
      | none => [Busy.memory (.finite 0) cfg.minFreeFraction]) = [] ↔
        ∃ frac, box.freeFraction = some frac ∧
          (frac.lt cfg.minFreeFraction → (ours cfg.me box).isSome) := by
    simp only [probe, Option.isSome_map]
    cases box.freeFraction with
    | none => simp
    | some frac =>
        by_cases leased : (ours cfg.me box).isSome = true
        · simp [leased]
        · by_cases low : frac.lt cfg.minFreeFraction <;> simp [leased, low]
  have disk : (match (probe cfg.me box running).diskFreeBytes with
      | some free => if free < cfg.minFreeDisk then [Busy.disk free cfg.minFreeDisk] else []
      | none => [Busy.disk 0 cfg.minFreeDisk]) = [] ↔
        ∃ free, box.diskFree = some free ∧ cfg.minFreeDisk ≤ free := by
    simp only [probe]
    cases box.diskFree with
    | none => simp
    | some free =>
        by_cases low : free < cfg.minFreeDisk
        · simp [low, UInt64.not_le]
        · simp [low, UInt64.not_lt.mp low]
  have named : ((probe cfg.me box running).runningJob.map Busy.job).toList = [] ↔ running = none := by
    cases running <;> simp [probe]
  rw [judge]
  simp only [List.append_eq_nil_iff, named, apps, memory, disk]
  rw [ite_eq_left_iff]
  simp only [List.cons_ne_nil, imp_false, not_not, engines]
  exact ⟨fun ⟨⟨⟨⟨job, engines⟩, apps⟩, memory⟩, disk⟩ => ⟨job, engines, apps, memory, disk⟩,
    fun alone => ⟨⟨⟨⟨alone.job, alone.engines⟩, alone.apps⟩, alone.memory⟩, alone.disk⟩⟩

/-- A line names one process only: no number is the beginning of another's, up to its comma. -/
theorem app_pid {p q : UInt32} {name : String} (h : s!"{p},".toList <+: s!"{q}, {name}".toList) :
    p = q := by
  have digits (n : UInt32) : ∀ c ∈ (toString n).toList, (c != ',') = true := fun c there => by
    have digit := toString_isDigit c there
    rw [bne_iff_ne]
    rintro rfl
    cases digit
  have before {n : UInt32} {rest : List Char} :
      ((toString n).toList ++ ',' :: rest).takeWhile (· != ',') = (toString n).toList := by
    rw [List.takeWhile_append_of_pos (digits n)]
    exact List.append_nil _
  obtain ⟨rest, same⟩ := h
  have left : s!"{p},".toList ++ rest = (toString p).toList ++ ',' :: rest := by
    rw [String.toList_append, List.append_assoc]
    rfl
  have right : s!"{q}, {name}".toList = (toString q).toList ++ ',' :: (' ' :: name.toList) := by
    rw [String.toList_append, String.toList_append, List.append_assoc]
    rfl
  rw [left, right] at same
  have texts := congrArg (List.takeWhile (· != ',')) same
  rw [before, before] at texts
  exact UInt32.toNat_inj.mp (toString_inj (String.toList_inj.mp texts))

end Judging

section Working

inductive SignalName where
  | term
  | kill
deriving DecidableEq

/-- A signal to a process, or to its group. -/
structure Signal where
  name : SignalName
  pid : UInt32
  group : Bool
deriving DecidableEq

/-- A signal as it was sent: on what box, and when the process had last been looked at and
whether it was up then, if it was waited for. -/
structure Sent where
  signal : Signal
  box : Box
  after : Option (Nat × Bool)

/-- What became of one round of the worker's loop: a job that is taken is not started where
its journal cannot be opened. -/
inductive Did where
  | started
  | unopened
  | waited
  | rested
  | released
deriving DecidableEq

/-- One round of the loop: when, on what box, whether a job was queued and its journal would
open, and whether one ran. -/
structure Look where
  now : Nat
  box : Box
  queued : Bool
  opens : Bool
  running : Option String
  did : Did

/-- How far the stop of a server is: it is waited for until it is gone or out of grace, and
then looked at once more. -/
inductive Stopping where
  | waiting (l : Lease) (until_ : Nat)
  | waited (l : Lease) (now : Nat) (up : Bool)

/-- The worker and its box. The lease it is to stop is the one it read when it began to. -/
structure Worker where
  box : Box
  idleSince : Option Nat
  releasing : Option Stopping
  looks : List Look
  signals : List Sent

inductive Move where
  /-- Anything else on the box, the engine's own writes to the lease included. -/
  | world (box : Box)
  | look (now : Nat) (queued opens : Bool) (running : Option String) (signalled : Nat)
  | wait (now : Nat)
  | finish

variable {cfg : Config} {w w' : Worker} {m : Move}

def Worker.looked (w : Worker) (now : Nat) (queued opens : Bool) (running : Option String)
    (did : Did) : List Look := w.looks ++ [⟨now, w.box, queued, opens, running, did⟩]

/-- One round over an empty queue. -/
def Worker.releaseIdleLease (cfg : Config) (w : Worker) (now : Nat) (opens : Bool)
    (running : Option String) (signalled : Nat) : Worker :=
  match ours cfg.me w.box with
  | none => { w with idleSince := none, looks := w.looked now false opens running .rested }
  | some l =>
      let since := w.idleSince.getD now
      if now - since < cfg.releaseAfter then
        { w with idleSince := some since, looks := w.looked now false opens running .rested }
      else
        { w with
          idleSince := some since
          releasing := some (.waiting l (signalled + cfg.cancelGrace))
          looks := w.looked now false opens running .released
          signals := w.signals ++
            [⟨⟨.term, l.pid, true⟩, w.box, none⟩, ⟨⟨.term, l.pid, false⟩, w.box, none⟩] }

def Worker.step (cfg : Config) (w : Worker) : Move → Option Worker
  | .world box => some { w with box := box }
  | .look now queued opens running signalled =>
      match w.releasing with
      | some _ => none
      | none =>
          if queued then
            let busy := judge (probe cfg.me w.box running) cfg.minFreeFraction cfg.minFreeDisk
            let did := if busy.isEmpty then if opens then .started else .unopened else .waited
            some { w with idleSince := none, looks := w.looked now true opens running did }
          else some (w.releaseIdleLease cfg now opens running signalled)
  | .wait now =>
      match w.releasing with
      | some (.waiting l until_) =>
          let up := w.box.alive l.pid
          if up && now < until_ then some w
          else some { w with releasing := some (.waited l now up) }
      | _ => none
  -- Whatever lease is on file by now, it is removed.
  | .finish =>
      match w.releasing with
      | some (.waited l now up) =>
          some { w with
            box := { w.box with lease := none }
            idleSince := none
            releasing := none
            signals := w.signals ++
              if w.box.alive l.pid then [⟨⟨.kill, l.pid, true⟩, w.box, some (now, up)⟩] else [] }
      | _ => none

/-- The clock does not go back. -/
def Timely (w : Worker) : Move → Prop
  | .look now _ _ _ signalled => (∀ q ∈ w.looks, q.now ≤ now) ∧ now ≤ signalled
  | _ => True

instance (w : Worker) (m : Move) : Decidable (Timely w m) := by
  unfold Timely
  split <;> infer_instance

/-- Nothing was queued, and a server of ours was up. -/
def Look.idle (cfg : Config) (q : Look) : Bool := !q.queued && (ours cfg.me q.box).isSome

/-- Idle, and the server is left as it is. -/
def Look.spares (cfg : Config) (q : Look) : Bool := q.idle cfg && q.did ≠ .released

/-- Some round was idle that lies the whole time back, and so were all since, none of which
stopped the server. -/
def Expired (cfg : Config) (pre : List Look) (e : Look) : Prop :=
  e.idle cfg = true ∧ ∃ (early : List Look) (f : Look) (rest : List Look),
    pre ++ [e] = early ++ f :: rest ∧
    (∀ q ∈ (f :: rest).dropLast, q.spares cfg = true) ∧ f.now + cfg.releaseAfter ≤ e.now

/-- What a round does, from what it sees and what came before it. -/
structure Decided (cfg : Config) (pre : List Look) (e : Look) : Prop where
  starts : e.did = .started ↔ e.queued = true ∧ e.opens = true ∧ Alone cfg e.box e.running
  releases : e.did = .released ↔ Expired cfg pre e

/-- The stop of a server that a round began. -/
def Stopping.Of (cfg : Config) (e : Look) : Stopping → Prop
  | .waiting l until_ => ours cfg.me e.box = some l ∧ e.now + cfg.cancelGrace ≤ until_
  | .waited l now up =>
      ours cfg.me e.box = some l ∧ (up = false ∨ e.now + cfg.cancelGrace ≤ now)

/-- A signal of the stop that a round began: to the process that the agent's lease named in
that round, and, if it cannot be ignored, to one that is there under its number once the
first is gone or its grace is over. -/
def Sent.Of (cfg : Config) (e : Look) (s : Sent) : Prop :=
  ∃ l, ours cfg.me e.box = some l ∧ l.pid = s.signal.pid ∧
    (s.signal.name = .kill → s.signal.group = true ∧ s.box.alive l.pid = true ∧
      ∃ now up, s.after = some (now, up) ∧ (up = false ∨ e.now + cfg.cancelGrace ≤ now))

structure Kept (cfg : Config) (w : Worker) : Prop where
  ordered : w.looks.Pairwise fun a b => a.now ≤ b.now
  since : w.releasing = none → w.idleSince = quietSince (Look.spares cfg) Look.now w.looks
  stopping : ∀ s, w.releasing = some s →
    ∃ early e, w.looks = early ++ [e] ∧ e.did = .released ∧ s.Of cfg e
  decided : Each (Decided cfg) w.looks
  aimed : ∀ s ∈ w.signals, ∃ e ∈ w.looks, e.did = .released ∧ s.Of cfg e

theorem Kept.ordered_snoc (kept : Kept cfg w) {e : Look} (later : ∀ q ∈ w.looks, q.now ≤ e.now) :
    (w.looks ++ [e]).Pairwise fun a b => a.now ≤ b.now := by
  rw [List.pairwise_append]
  refine ⟨kept.ordered, List.pairwise_singleton _ _, fun q there f last => ?_⟩
  rw [List.mem_singleton.mp last]
  exact later q there

theorem Kept.grows (kept : Kept cfg w) {e : Look} (later : ∀ q ∈ w.looks, q.now ≤ e.now)
    (looks : w'.looks = w.looks ++ [e]) (decides : Decided cfg w.looks e)
    (since : w'.releasing = none → w'.idleSince = quietSince (Look.spares cfg) Look.now w'.looks)
    (stopping : ∀ s, w'.releasing = some s → e.did = .released ∧ s.Of cfg e)
    (aimed : ∀ s ∈ w'.signals, s ∈ w.signals ∨ e.did = .released ∧ s.Of cfg e) : Kept cfg w' where
  ordered := looks ▸ kept.ordered_snoc later
  since := since
  stopping := by
    intro s stops
    exact ⟨w.looks, e, looks, stopping s stops⟩
  decided := looks ▸ kept.decided.snoc decides
  aimed := by
    intro s sent
    rw [looks]
    cases aimed s sent with
    | inl old =>
        obtain ⟨f, there, released⟩ := kept.aimed s old
        exact ⟨f, List.mem_append_left _ there, released⟩
    | inr new => exact ⟨e, List.mem_append_right _ List.mem_cons_self, new⟩

/-- A round that is not idle neither counts nor stops anything. -/
theorem Kept.loud (kept : Kept cfg w) {e : Look} (later : ∀ q ∈ w.looks, q.now ≤ e.now)
    (busy : e.idle cfg = false) (looks : w'.looks = w.looks ++ [e])
    (starts : e.did = .started ↔ e.queued = true ∧ e.opens = true ∧ Alone cfg e.box e.running)
    (spares : e.did ≠ .released) (since : w'.idleSince = none) (releasing : w'.releasing = none)
    (signals : w'.signals = w.signals) : Kept cfg w' := by
  refine kept.grows later looks ⟨starts, ?_⟩ ?_ ?_ ?_
  · refine ⟨fun released => absurd released spares, fun expired => ?_⟩
    rw [expired.1] at busy
    cases busy
  · intro _
    rw [since, looks, quietSince_loud (by simp [Look.spares, busy])]
  · intro s stops
    rw [releasing] at stops
    cases stops
  · intro s sent
    exact .inl (signals ▸ sent)

/-- The round that began what the agent counts is not a later one. -/
theorem Kept.since_le (kept : Kept cfg w) (free : w.releasing = none) {now : Nat}
    (later : ∀ q ∈ w.looks, q.now ≤ now) : w.idleSince.getD now ≤ now := by
  rw [kept.since free]
  cases first : (w.looks.rtakeWhile (Look.spares cfg)).head? with
  | none => simp [quietSince, first]
  | some q =>
      have there := (List.rtakeWhile_suffix _ _).subset (List.mem_of_mem_head? first)
      simpa [quietSince, first] using later q there

/-- The time that the worker counts tells whether a server has been idle for the period. -/
theorem Kept.due (kept : Kept cfg w) (free : w.releasing = none) {e : Look}
    (later : ∀ q ∈ w.looks, q.now ≤ e.now) (idle : e.idle cfg = true) :
    Expired cfg w.looks e ↔ w.idleSince.getD e.now + cfg.releaseAfter ≤ e.now := by
  rw [kept.since free]
  exact (and_iff_right idle).trans (expired_iff (kept.ordered_snoc later)).symm

theorem kept_queued {now : Nat} {opens : Bool} {running : Option String} {did : Did}
    (kept : Kept cfg w) (free : w.releasing = none) (later : ∀ q ∈ w.looks, q.now ≤ now)
    (decides : did = if (judge (probe cfg.me w.box running) cfg.minFreeFraction
      cfg.minFreeDisk).isEmpty then if opens then .started else .unopened else .waited) :
    Kept cfg { w with idleSince := none, looks := w.looked now true opens running did } := by
  refine kept.loud (e := ⟨now, w.box, true, opens, running, did⟩) later rfl rfl ?_ ?_ rfl free rfl
  · simp only [true_and]
    rw [← judge_eq_nil, ← List.isEmpty_iff, decides]
    cases opens <;> split <;> simp_all
  · rw [decides]
    cases opens <;> split <;> exact Did.noConfusion

theorem kept_releaseIdleLease {now signalled : Nat} {opens : Bool} {running : Option String}
    (kept : Kept cfg w) (free : w.releasing = none) (later : ∀ q ∈ w.looks, q.now ≤ now)
    (after : now ≤ signalled) :
    Kept cfg (w.releaseIdleLease cfg now opens running signalled) := by
  unfold Worker.releaseIdleLease
  cases mine : ours cfg.me w.box with
  | none =>
      refine kept.loud (e := ⟨now, w.box, false, opens, running, .rested⟩) later ?_ rfl ?_
        Did.noConfusion rfl free rfl
      · simp [Look.idle, mine]
      · simp
  | some l =>
      have idle (did : Did) : Look.idle cfg ⟨now, w.box, false, opens, running, did⟩ = true := by
        simp [Look.idle, mine]
      have since := kept.since_le free later
      dsimp only
      split
      · next early =>
          refine kept.grows (e := ⟨now, w.box, false, opens, running, .rested⟩) later rfl
            ⟨?_, ?_⟩ ?_ ?_ fun s sent => .inl sent
          · simp
          · rw [kept.due free later (idle _)]
            simp only [reduceCtorEq, false_iff]
            omega
          · intro _
            have spared : Look.spares cfg ⟨now, w.box, false, opens, running, .rested⟩ = true := by
              simp [Look.spares, idle]
            exact (congrArg some (by rw [kept.since free])).trans (quietSince_quiet spared).symm
          · intro s stops
            rw [free] at stops
            cases stops
      · next late =>
          refine kept.grows (e := ⟨now, w.box, false, opens, running, .released⟩) later rfl
            ⟨?_, ?_⟩ ?_ ?_ ?_
          · simp
          · rw [kept.due free later (idle _)]
            simp only [true_iff]
            omega
          · intro stops
            cases stops
          · intro s stops
            cases stops
            exact ⟨rfl, mine, Nat.add_le_add_right after _⟩
          · intro s sent
            refine (List.mem_append.mp sent).imp_right fun new => ⟨rfl, l, mine, ?_⟩
            simp only [List.mem_cons, List.not_mem_nil, or_false] at new
            obtain rfl | rfl := new <;> exact ⟨rfl, SignalName.noConfusion⟩

theorem kept_look {now signalled : Nat} {queued opens : Bool} {running : Option String}
    (kept : Kept cfg w) (later : ∀ q ∈ w.looks, q.now ≤ now) (after : now ≤ signalled)
    (hstep : w.step cfg (.look now queued opens running signalled) = some w') : Kept cfg w' := by
  simp only [Worker.step] at hstep
  split at hstep
  · cases hstep
  · next free =>
      cases queued with
      | true =>
          cases hstep
          exact kept_queued kept free later rfl
      | false =>
          cases hstep
          exact kept_releaseIdleLease kept free later after

theorem kept_wait {now : Nat} (kept : Kept cfg w) (hstep : w.step cfg (.wait now) = some w') :
    Kept cfg w' := by
  simp only [Worker.step] at hstep
  split at hstep
  · next l until_ stops =>
      obtain ⟨early, e, looks, released, mine, grace⟩ := kept.stopping _ stops
      split at hstep
      · cases hstep
        exact kept
      · next past =>
          cases hstep
          refine ⟨kept.ordered, nofun, fun _ again => ?_, kept.decided, kept.aimed⟩
          cases again
          refine ⟨early, e, looks, released, mine, ?_⟩
          cases up : w.box.alive l.pid with
          | false => exact .inl rfl
          | true =>
              simp only [up, Bool.true_and, decide_eq_true_eq, Nat.not_lt] at past
              exact .inr (grace.trans past)
  · cases hstep

theorem kept_finish (kept : Kept cfg w) (hstep : w.step cfg .finish = some w') : Kept cfg w' := by
  simp only [Worker.step] at hstep
  split at hstep
  · next l now up stops =>
      obtain ⟨early, e, looks, released, mine, grace⟩ := kept.stopping _ stops
      cases hstep
      refine ⟨kept.ordered, fun _ => ?_, nofun, kept.decided, fun s sent => ?_⟩
      · rw [looks, quietSince_loud (by simp [Look.spares, released])]
      · obtain old | new := List.mem_append.mp sent
        · exact kept.aimed s old
        · split at new
          · next alive =>
              rw [List.mem_singleton.mp new, looks]
              exact ⟨e, List.mem_append_right _ List.mem_cons_self, released, l, mine, rfl,
                fun _ => ⟨rfl, alive, now, up, rfl, grace⟩⟩
          · cases new
  · cases hstep

theorem kept_step (kept : Kept cfg w) (timely : Timely w m) (hstep : w.step cfg m = some w') :
    Kept cfg w' := by
  cases m with
  | world box =>
      cases hstep
      exact ⟨kept.ordered, kept.since, kept.stopping, kept.decided, kept.aimed⟩
  | look now queued opens running signalled => exact kept_look kept timely.1 timely.2 hstep
  | wait now => exact kept_wait kept hstep
  | finish => exact kept_finish kept hstep

/-- A worker that has not looked yet. -/
def Worker.fresh (box : Box) : Worker := ⟨box, none, none, [], []⟩

theorem kept_fresh (box : Box) : Kept cfg (.fresh box) where
  ordered := .nil
  since := fun _ => quietSince_nil.symm
  stopping := fun _ stops => by cases stops
  decided := each_nil
  aimed := List.forall_mem_nil _

theorem kept_run {box : Box} {moves : List Move}
    (run : Run (Worker.step cfg) Timely (.fresh box) moves w) : Kept cfg w :=
  Run.invariant run (kept_fresh box) fun _ _ _ kept timely hstep => kept_step kept timely hstep

def sampleConfig : Config := ⟨100, .finite (1 / 2), 1024, 10, 5⟩

/-- A box on which a server of process 100 is up, and nothing else. -/
def leasedBox : Box where
  lease := some ⟨7, 40001, "m", 100⟩
  alive p := p = 7
  engines := [7]
  gpuApps := ["7, met"]
  pgrep := true
  nvidiaSmi := true
  freeFraction := some (.finite (1 / 4))
  diskFree := some 4096

/-- Idle, a job, and idle again for the whole period; the server does not end in its grace, and
by then another one is leased. -/
def sampleRounds : List Move :=
  [.look 0 false true none 0, .look 8 true true none 8, .look 9 false true none 9,
    .look 19 false true none 20, .wait 24,
    .world { leasedBox with lease := some ⟨8, 40002, "n", 100⟩, alive := fun p => p = 7 || p = 8 },
    .wait 26, .finish]

/-- A queued job is started in exactly the rounds in which its journal opens and nothing is
seen in its way. Then every engine but the agent itself and every compute app on the box is
the one leased server of this agent, as far as the tool can be run that lists them. -/
theorem jobs_start_alone {box : Box} {moves : List Move}
    (run : Run (Worker.step cfg) Timely (.fresh box) moves w) :
    ∀ e ∈ w.looks,
      (e.did = .started ↔ e.queued = true ∧ e.opens = true ∧ Alone cfg e.box e.running) ∧
      (e.did = .started → ∀ p : UInt32,
        (e.box.pgrep = true ∧ p ∈ e.box.engines ∧ p ≠ cfg.me ∨
          e.box.nvidiaSmi = true ∧ ∃ name : String, s!"{p}, {name}" ∈ e.box.gpuApps) → ∃ l,
          e.box.lease = some l ∧ l.ownerPid = cfg.me ∧ e.box.alive l.pid = true ∧ l.pid = p) := by
  intro e there
  obtain ⟨pre, decided⟩ := (kept_run run).decided.of_mem there
  refine ⟨decided.starts, fun started p here => ?_⟩
  have alone := (decided.starts.mp started).2.2
  have mine : ∃ l, ours cfg.me e.box = some l ∧ l.pid = p := by
    obtain ⟨listed, engine, other⟩ | ⟨listed, name, app⟩ := here
    · exact alone.engines listed p engine other
    · obtain ⟨l, mine, named⟩ := alone.apps listed _ app
      exact ⟨l, mine, app_pid named⟩
  obtain ⟨l, mine, pid⟩ := mine
  obtain ⟨lease, owner, alive⟩ := mem_ours mine
  exact ⟨l, lease, owner, alive, pid⟩

theorem jobs_start_alone_sample :
    ∃ w, Run (Worker.step sampleConfig) Timely (.fresh leasedBox) sampleRounds w ∧
      ∃ e ∈ w.looks, e.did = .started ∧ e.queued = true ∧
        Alone sampleConfig leasedBox none := by
  have run : Run (Worker.step sampleConfig) Timely (.fresh leasedBox) sampleRounds _ :=
    .of_replay rfl
  have there : (⟨8, leasedBox, true, true, none, .started⟩ : Look) ∈ [
      (⟨0, leasedBox, false, true, none, .rested⟩ : Look), ⟨8, leasedBox, true, true, none, .started⟩,
      ⟨9, leasedBox, false, true, none, .rested⟩, ⟨19, leasedBox, false, true, none, .released⟩] :=
    .tail _ (.head _)
  obtain ⟨queued, -, alone⟩ := (jobs_start_alone run _ there).1.mp rfl
  exact ⟨_, run, _, there, rfl, queued, alone⟩

end Working

end Exclusive
end Bench
end Metralectl
