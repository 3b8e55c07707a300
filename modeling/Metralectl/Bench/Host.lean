import Metralectl.Bench.Answers
import Metralectl.Library.Runs

/-!
One benchmark host: the calls of its peers, cut where they read and write what they share,
and the single worker beside them. A call that was answered stays in the list, so that a
position names one call for good.
-/
namespace Metralectl
namespace Bench
open SortedMaps Programs

/-- What the calls and the worker share. A journal is read here by its kinds; a flag is there
while the worker executes the job. -/
structure Host where
  store : JobStore
  journal : JobId → List EventKind
  flags : JobId → Option Bool
  /-- When each peer made its last submissions, in nanoseconds. -/
  submits : NodeId → List Nat

/-- What a step meets: the clock, free disk, and what fails; where a journal is written,
whether it is opened first. -/
structure Outside where
  clock : UInt64
  freeBytes : Option UInt64
  faults : Faults
  fails : Bool
  opened : Bool
  error : String

/-- A node: its configuration, and what it has from its libraries. -/
structure Node extends HostConfig where
  quoting : Quoting
  digest : Utf8.Bytes → BitVec 256

def Node.refuse (n : Node) (refusal : BenchRefusal) : BenchRep := .refused n.node refusal

inductive Call where
  | looking (asked : Asked)
  | placing (asked : Asked) (existing : JobRecord)
  | counting (asked : Asked)
  | probing (asked : Asked) (depth : UInt32)
  | creating (asked : Asked) (job : JobRecord) (depth : UInt32) (stage : CreateStage)
  | queueing (asked : Asked) (job : JobRecord) (depth : UInt32)
  | submitted (asked : Asked) (rep : BenchRep)
  | ending (id : JobId) (job : JobRecord)
  | recording (id : JobId) (job : JobRecord)
  | signalling (id : JobId) (job : JobRecord)
  /-- Answered that it is done, of a job that was read as queued. -/
  | ended (id : JobId)
  | answered (rep : BenchRep)
deriving DecidableEq

namespace Host

/-- The older one first. -/
def older (a b : JobRecord) : Bool :=
  a.createdAtS < b.createdAtS || (a.createdAtS = b.createdAtS && a.id.text ≤ b.id.text)

/-- Queued jobs, oldest first. -/
def queued (h : Host) : List JobRecord :=
  (h.store.list.filter (·.state = .queued)).mergeSort older

def positionOf (h : Host) (id : JobId) : UInt32 :=
  (h.queued.findIdx? (·.id = id)).elim 0 fun p => UInt32.ofNat p + 1

def append (h : Host) (id : JobId) (kind : EventKind) : Host :=
  { h with journal := fun j => if j = id then h.journal id ++ [kind] else h.journal j }

def setFlag (h : Host) (id : JobId) (flag : Option Bool) : Host :=
  { h with flags := fun j => if j = id then flag else h.flags j }

def seqHigh (h : Host) (id : JobId) : UInt64 := UInt64.ofNat (h.journal id).length

/-- Submissions one peer may make a minute. -/
def submitsPerMinute : Nat := 30

/-- Whether a peer made too many; one that did not has made another. -/
def rateLimited (h : Host) (sender : NodeId) (now : Nat) : Host × Bool :=
  let recent := (h.submits sender).dropWhile fun t => 60 * 10 ^ 9 < now - t
  let limited := decide (submitsPerMinute ≤ recent.length)
  let times := if limited then recent else recent ++ [now]
  ({ h with submits := fun p => if p = sender then times else h.submits p }, limited)

def submit (n : Node) (h : Host) (sub : Submission) (now : Nat) : Host × Call :=
  let asked := n.asked sub
  match h.rateLimited sub.sender now with
  | (h, true) => (h, .submitted asked (n.refuse (.rateLimited 60)))
  | (h, false) =>
      match n.inspect n.quoting sub with
      | some refusal => (h, .submitted asked (n.refuse refusal))
      | none => (h, .looking asked)

def status (n : Node) (h : Host) : Option JobId → BenchRep
  | some id =>
      match h.store.load id with
      | .ok r => .status [r.summary]
      | .error _ => n.refuse (.unknownJob id)
  | none => .status ((h.store.list.take 50).map JobRecord.summary)

/-- A terminal job answers with its state, a queued one is cancelled here, a running one is
signalled to its worker. -/
def cancel (n : Node) (h : Host) (id : JobId) (clock : UInt64) : Call :=
  match h.store.load id with
  | .error _ => .answered (n.refuse (.unknownJob id))
  | .ok r =>
      if r.state.isTerminal then .answered (.cancelled id r.state)
      else if r.state = .queued then
        .ending id { r with
          outcome := some (.cancelled n.node), state := .done, updatedAtS := clock.toNat }
      else .signalling id r

/-- A call goes on to where it next reads or writes what others can see. -/
def advance (n : Node) (h : Host) (o : Outside) : Call → Option (Host × Call)
  | .looking asked =>
      let unreadable := n.refuse (.notConfigured s!"the job store is unreadable: {o.error}"
        "check the cache directory's permissions")
      if o.fails then some (h, .submitted asked unreadable)
      else
        match h.store.byKey asked.key with
        | .ok (some existing) =>
            if existing.spec = asked.spec then some (h, .placing asked existing)
            else some (h, .submitted asked (n.refuse (.keyConflict existing.id)))
        | .ok none => some (h, .counting asked)
        | .error _ => some (h, .submitted asked unreadable)
  | .placing asked existing =>
      some (h, .submitted asked
        (.accepted existing.id true existing.state (h.positionOf existing.id)))
  | .counting asked =>
      let depth := if o.fails then 0xFFFFFFFF else UInt32.ofNat h.queued.length
      if n.queueDepth ≤ depth then some (h, .submitted asked (n.refuse (.queueFull depth 300)))
      else some (h, .probing asked depth)
  | .probing asked depth =>
      match o.freeBytes.filter (· < n.minFreeDiskBytes) with
      | some free => some (h, .submitted asked (n.refuse (.diskLow free n.minFreeDiskBytes)))
      | none =>
          let id := mintId n.digest o.clock asked.key asked.sender
          some (h, .creating asked (asked.record id o.clock) depth .look)
  | .creating asked job depth stage =>
      match h.store.createStep o.faults n.pid job stage with
      | (s, .inl stage) => some ({ h with store := s }, .creating asked job depth stage)
      | (s, .inr (.ok ())) => some ({ h with store := s }, .queueing asked job depth)
      | (s, .inr (.error _)) =>
          some ({ h with store := s }, .submitted asked
            (n.refuse (.notConfigured s!"cannot create the job: {o.error}"
              "check the cache directory")))
  | .queueing asked job depth =>
      some (if o.fails || !o.opened then h else h.append job.id (.queued (depth + 1)),
        .submitted asked (.accepted job.id false .queued (depth + 1)))
  | .ending id job =>
      if !o.opened then some (h, .recording id job)
      else
        let h := if o.fails then h else h.append id (.done (.cancelled n.node))
        some (h, .recording id { job with seqHigh := h.seqHigh id })
  | .recording id job =>
      some (if o.fails then h else { h with store := h.store.save job }, .ended id)
  | .signalling id job =>
      some (if (h.flags id).isSome then h.setFlag id (some true) else h,
        .answered (.cancelled id job.state))
  | .submitted _ _ | .ended _ | .answered _ => none

/-- What the host itself answers a question of the machine; the ports answer the rest. -/
def reply (h : Host) (id : JobId) : (q : Ask) → Answer q → Answer q
  | .cancelled, _ => (h.flags id).getD false
  | .seqHigh, _ => h.seqHigh id
  | _, a => a

/-- What is on disk once a question of the machine is answered. -/
def after (h : Host) (id : JobId) : (q : Ask) → Answer q → Host
  | .append kind _, .ok | .append kind _, .unsynced => h.append id kind
  | .save job, true => { h with store := h.store.save job }
  | _, _ => h

end Host

section Inversion
variable {n : Node} {h t : Host} {o : Outside} {c d : Call}

/-- What a call does in going on, and where it stands then. -/
inductive Goes (n : Node) (h : Host) (o : Outside) : Call → Host → Call → Prop
  | unreadable {a what fix} :
      Goes n h o (.looking a) h (.submitted a (n.refuse (.notConfigured what fix)))
  | found {a x} : h.store.byKey a.key = .ok (some x) → x.spec = a.spec →
      Goes n h o (.looking a) h (.placing a x)
  | conflict {a x} : h.store.byKey a.key = .ok (some x) → x.spec ≠ a.spec →
      Goes n h o (.looking a) h (.submitted a (n.refuse (.keyConflict x.id)))
  | unknown {a} : h.store.byKey a.key = .ok none → Goes n h o (.looking a) h (.counting a)
  | placed {a x position} :
      Goes n h o (.placing a x) h (.submitted a (.accepted x.id true x.state position))
  | full {a depth} :
      Goes n h o (.counting a) h (.submitted a (n.refuse (.queueFull depth 300)))
  | counted {a} : UInt32.ofNat h.queued.length < n.queueDepth →
      Goes n h o (.counting a) h (.probing a (UInt32.ofNat h.queued.length))
  | low {a depth free} :
      Goes n h o (.probing a depth) h (.submitted a (n.refuse (.diskLow free n.minFreeDiskBytes)))
  | minted {a depth} :
      Goes n h o (.probing a depth) h (.creating a
        (a.record (mintId n.digest o.clock a.key a.sender) o.clock) depth .look)
  | created {a job depth stage s result} :
      h.store.createStep o.faults n.pid job stage = (s, result) →
      Goes n h o (.creating a job depth stage) { h with store := s }
        (match result with
          | .inl stage => .creating a job depth stage
          | .inr (.ok ()) => .queueing a job depth
          | .inr (.error _) => .submitted a
              (n.refuse (.notConfigured s!"cannot create the job: {o.error}"
                "check the cache directory")))
  | queued {a job depth} :
      Goes n h o (.queueing a job depth)
        (if o.fails || !o.opened then h else h.append job.id (.queued (depth + 1)))
        (.submitted a (.accepted job.id false .queued (depth + 1)))
  | unopened {id job} : Goes n h o (.ending id job) h (.recording id job)
  | ended {id job high} :
      Goes n h o (.ending id job)
        (if o.fails then h else h.append id (.done (.cancelled n.node)))
        (.recording id { job with seqHigh := high })
  | recorded {id job} :
      Goes n h o (.recording id job)
        (if o.fails then h else { h with store := h.store.save job }) (.ended id)
  | signalled {id job flag} :
      Goes n h o (.signalling id job) (if (h.flags id).isSome then h.setFlag id flag else h)
        (.answered (.cancelled id job.state))

/-- A submission is refused by itself, or goes on to look its key up; nothing is written. -/
theorem submit_shape (n : Node) (h : Host) (sub : Submission) (now : Nat) :
    ∃ submits c, h.submit n sub now = ({ h with submits := submits }, c) ∧
      (c = .looking (n.asked sub) ∨
        ∃ refusal, c = .submitted (n.asked sub) (n.refuse refusal) ∧ ∀ id, refusal ≠ .keyConflict id) := by
  have counted : (h.rateLimited sub.sender now).1 =
      { h with submits := (h.rateLimited sub.sender now).1.submits } := rfl
  unfold Host.submit
  split
  · next t limited =>
      rw [limited] at counted
      refine ⟨t.submits, _, by rw [← counted], .inr ⟨_, rfl, fun id same => ?_⟩⟩
      cases same
  · next t free =>
      rw [free] at counted
      split
      · next refusal inspected =>
          refine ⟨t.submits, _, by rw [← counted], .inr ⟨refusal, rfl, ?_⟩⟩
          rintro id rfl
          unfold HostConfig.inspect at inspected
          split at inspected
          · cases inspected
          · split at inspected
            · cases inspected
            · split at inspected <;> cases inspected
      · exact ⟨t.submits, _, by rw [← counted], .inl rfl⟩

theorem goes_of_advance (go : h.advance n o c = some (t, d)) : Goes n h o c t d := by
  cases c with
  | looking a =>
      simp only [Host.advance] at go
      split at go
      · cases go
        exact .unreadable
      · split at go
        · next x there =>
            split at go
            · next same =>
                cases go
                exact .found there same
            · next other =>
                cases go
                exact .conflict there other
        · next none_ =>
            cases go
            exact .unknown none_
        · cases go
          exact .unreadable
  | placing a x =>
      cases go
      exact .placed
  | counting a =>
      simp only [Host.advance] at go
      by_cases fails : o.fails
      · have bounded : n.queueDepth ≤ 0xFFFFFFFF :=
          UInt32.le_iff_toNat_le.mpr (Nat.le_of_lt_succ n.queueDepth.toNat_lt)
        rw [if_pos fails, if_pos bounded] at go
        cases go
        exact .full
      · rw [if_neg fails] at go
        split at go
        · cases go
          exact .full
        · next room =>
            cases go
            exact .counted (UInt32.not_le.mp room)
  | probing a depth =>
      simp only [Host.advance] at go
      split at go
      · cases go
        exact .low
      · cases go
        exact .minted
  | creating a job depth stage =>
      simp only [Host.advance] at go
      split at go <;>
      · next there =>
          cases go
          exact .created there
  | queueing a job depth =>
      cases go
      exact .queued
  | ending id job =>
      simp only [Host.advance] at go
      split at go
      · cases go
        exact .unopened
      · cases go
        exact .ended
  | recording id job =>
      cases go
      exact .recorded
  | signalling id job =>
      cases go
      exact .signalled
  | submitted _ _ => cases go
  | ended _ => cases go
  | answered _ => cases go

end Inversion

inductive Worker where
  | idle
  | picked (job : JobRecord)
  | executing (id : JobId) (p : Proc Outcome)

/-- The host with its worker and its calls, and the jobs whose child was spawned. -/
structure World where
  host : Host
  worker : Worker
  calls : List Call
  spawned : List JobId

inductive Move where
  | submit (sub : Submission) (now : Nat)
  | cancel (id : JobId) (clock : UInt64)
  | status (id : Option JobId)
  | resume (i : Nat) (o : Outside)
  | pick
  | probe (busy opened : Bool)
  | work (oracle : (q : Ask) → Answer q)
  | rest

namespace World
open Machine

/-- Whether an answer says that a child was spawned. -/
def spawns : (q : Ask) → Answer q → Bool
  | .spawn _, .ok _ => true
  | _, _ => false

def step (n : Node) (w : World) : Move → Option World
  | .submit sub now =>
      let (h, c) := w.host.submit n sub now
      some { w with host := h, calls := w.calls ++ [c] }
  | .cancel id clock => some { w with calls := w.calls ++ [w.host.cancel n id clock] }
  | .status id => some { w with calls := w.calls ++ [.answered (w.host.status n id)] }
  | .resume i o =>
      match w.calls[i]? with
      | some c => (w.host.advance n o c).map fun (h, c) =>
          { w with host := h, calls := w.calls.set i c }
      | none => none
  | .pick =>
      match w.worker with
      | .idle => w.host.queued.head?.map fun job => { w with worker := .picked job }
      | _ => none
  -- A busy box is probed again later, from a fresh look at the queue.
  | .probe busy opened =>
      match w.worker with
      | .picked job =>
          if busy then some { w with worker := .idle }
          else if opened then
            some { w with
              host := w.host.setFlag job.id (some false)
              worker := .executing job.id (run n.toCtx job) }
          else some { w with host := w.host.setFlag job.id none, worker := .idle }
      | _ => none
  | .work oracle =>
      match w.worker with
      | .executing id (.ask q k) =>
          let a := w.host.reply id q (oracle q)
          some { w with
            host := w.host.after id q a
            worker := .executing id (k a)
            spawned := if spawns q a then id :: w.spawned else w.spawned }
      | _ => none
  | .rest =>
      match w.worker with
      | .executing id (.ret _) | .executing id (.stop _) =>
          some { w with host := w.host.setFlag id none, worker := .idle }
      | _ => none

end World

end Bench
end Metralectl
