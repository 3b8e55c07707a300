import Metralectl.Bench.Settled

/-!
The order of the queue: by the second of the clock a job was made at and then by its id,
which is a hash. What the worker takes next and the positions that are answered follow it.
-/
namespace Metralectl
namespace Bench
open SortedMaps Runs JobStore

/-- Which of two jobs is before the other in the queue. -/
def Precedes (a b : JobRecord) : Prop :=
  a.createdAtS < b.createdAtS ∨ a.createdAtS = b.createdAtS ∧ a.id.text < b.id.text

instance (a b : JobRecord) : Decidable (Precedes a b) := inferInstanceAs (Decidable (_ ∨ _))

section Orders
variable {a b c : JobRecord}

theorem Precedes.trans (first : Precedes a b) (second : Precedes b c) : Precedes a c := by
  unfold Precedes at *
  obtain h | ⟨h, text⟩ := first <;> obtain h' | ⟨h', text'⟩ := second
  · exact .inl (h.trans h')
  · exact .inl (h'  ▸ h)
  · exact .inl (h ▸ h')
  · exact .inr ⟨h.trans h', text.trans text'⟩

theorem Precedes.irrefl : ¬Precedes a a := by
  rintro (h | ⟨_, h⟩)
  · exact lt_irrefl _ h
  · exact lt_irrefl _ h

theorem older_iff : Host.older a b = true ↔ Precedes a b ∨
    a.createdAtS = b.createdAtS ∧ a.id = b.id := by
  simp only [Host.older, Precedes, Bool.or_eq_true, Bool.and_eq_true, decide_eq_true_eq]
  rw [or_assoc, ← and_or_left, le_iff_lt_or_eq]
  simp only [Token.ext_iff]

theorem older_trans (a b c : JobRecord) : Host.older a b = true → Host.older b c = true →
    Host.older a c = true := by
  simp only [Host.older, Bool.or_eq_true, Bool.and_eq_true, decide_eq_true_eq]
  rintro (h | ⟨h, text⟩) (h' | ⟨h', text'⟩)
  · exact .inl (h.trans h')
  · exact .inl (h' ▸ h)
  · exact .inl (h ▸ h')
  · exact .inr ⟨h.trans h', text.trans text'⟩

theorem older_total (a b : JobRecord) : (Host.older a b || Host.older b a) = true := by
  simp only [Host.older, Bool.or_eq_true, Bool.and_eq_true, decide_eq_true_eq]
  rcases lt_trichotomy a.createdAtS b.createdAtS with h | h | h
  · exact .inl (.inl h)
  · exact (le_total a.id.text b.id.text).imp (fun text => .inr ⟨h, text⟩) fun text => .inr ⟨h.symm, text⟩
  · exact .inr (.inl h)

end Orders

section Queues
variable {h t : Host}

/-- Every record is filed under its own id. -/
def Filed (s : JobStore) : Prop := ∀ id r, s.load id = .ok r → r.id = id

theorem filed_saved {s : JobStore} (filed : Filed s) (job : JobRecord) : Filed (s.save job) := by
  intro id r there
  rw [load_save] at there
  split at there
  · next it => cases there; exact it.symm
  · exact filed id r there

theorem mem_queued {x : JobRecord} :
    x ∈ h.queued ↔ (∃ id, h.store.load id = .ok x) ∧ x.state = .queued := by
  rw [Host.queued, List.mem_mergeSort, List.mem_filter, mem_list, decide_eq_true_eq]

theorem mem_queued_of_filed (filed : Filed h.store) {x : JobRecord} :
    x ∈ h.queued ↔ h.store.load x.id = .ok x ∧ x.state = .queued := by
  rw [mem_queued]
  refine and_congr_left fun _ => ⟨?_, fun there => ⟨_, there⟩⟩
  rintro ⟨id, there⟩
  rw [filed id x there]
  exact there

theorem records_distinct {s : JobStore} (filed : Filed s) :
    s.records.Pairwise fun a b => a.id ≠ b.id := by
  have named {d : String × JobDir} {r : JobRecord}
      (here : ((Token.parse ['-'] d.1).bind fun id : JobId => (s.load id).toOption) = some r) :
      r.id.text = d.1 := by
    obtain ⟨id, parsed, loaded⟩ := Option.bind_eq_some_iff.mp here
    have text : id.text = d.1 := by
      unfold Token.parse at parsed
      split at parsed
      · cases parsed; rfl
      · cases parsed
    cases there : s.load id with
    | error e => rw [there] at loaded; cases loaded
    | ok r' =>
        rw [there] at loaded
        cases loaded
        rw [filed id r there, text]
  refine List.pairwise_filterMap.mpr (s.dirs.ascending.imp ?_)
  intro d e below a ha b hb same
  rw [← named ha, ← named hb, same] at below
  exact lt_irrefl _ below

/-- The queue is in order, and no two of it have one id. -/
theorem queued_pairwise (filed : Filed h.store) : h.queued.Pairwise Precedes := by
  have sorted : h.queued.Pairwise fun a b => Host.older a b = true :=
    List.pairwise_mergeSort older_trans older_total _
  have distinct : h.queued.Pairwise fun a b => a.id ≠ b.id := by
    have perm : h.queued.Perm (h.store.records.filter (·.state = .queued)) :=
      (List.mergeSort_perm _ _).trans ((List.mergeSort_perm _ _).filter _)
    refine (perm.pairwise_iff ?_).mpr ((records_distinct filed).filter _)
    exact fun other => other.symm
  refine (sorted.and distinct).imp ?_
  rintro a b ⟨before, other⟩
  exact (older_iff.mp before).resolve_right fun same => other same.2

/-- The first of the queue is before all others. -/
theorem queued_head (filed : Filed h.store) {b : JobRecord} (there : b ∈ h.queued)
    (first : ∀ x ∈ h.queued, x = b ∨ Precedes b x) : h.queued.head? = some b := by
  have sorted := queued_pairwise filed
  cases queue : h.queued with
  | nil => rw [queue] at there; cases there
  | cons x xs =>
      rw [queue] at there first sorted
      obtain rfl | before := first x List.mem_cons_self
      · rfl
      · cases List.mem_cons.mp there with
        | inl it => rw [it]; rfl
        | inr later =>
            exact absurd (before.trans ((List.pairwise_cons.mp sorted).1 b later)) Precedes.irrefl

/-- The queued jobs before one, in their order. -/
def ahead (h : Host) (j : JobRecord) : List JobRecord :=
  h.queued.filter fun x => decide (Precedes x j)

theorem filter_precedes {l : List JobRecord} (sorted : l.Pairwise Precedes) {j : JobRecord}
    (there : j ∈ l) : ∃ after, l = l.filter (fun x => decide (Precedes x j)) ++ j :: after := by
  induction l with
  | nil => cases there
  | cons x l ih =>
      obtain ⟨first, rest⟩ := List.pairwise_cons.mp sorted
      cases List.mem_cons.mp there with
      | inl it =>
          subst it
          have none_ : l.filter (fun x => decide (Precedes x j)) = [] :=
            List.filter_eq_nil_iff.mpr fun x hx before =>
              Precedes.irrefl ((of_decide_eq_true before).trans (first x hx))
          exact ⟨l, by rw [List.filter_cons_of_neg (by simp [Precedes.irrefl]), none_]; rfl⟩
      | inr there =>
          obtain ⟨after, split⟩ := ih rest there
          refine ⟨after, ?_⟩
          have kept : (x :: l).filter (fun x => decide (Precedes x j)) =
              x :: l.filter fun x => decide (Precedes x j) :=
            List.filter_cons_of_pos (decide_eq_true (first j there))
          rw [kept, List.cons_append, ← split]

/-- The position of a queued job is one more than the jobs before it. -/
theorem positionOf_queued (filed : Filed h.store) {j : JobRecord} (there : j ∈ h.queued) :
    h.positionOf j.id = UInt32.ofNat (ahead h j).length + 1 := by
  have sorted := queued_pairwise filed
  obtain ⟨after, split⟩ := filter_precedes sorted there
  have before : (ahead h j).findIdx? (·.id = j.id) = none := by
    refine List.findIdx?_eq_none_iff.mpr fun x hx => decide_eq_false fun same => ?_
    obtain ⟨hx, before⟩ := List.mem_filter.mp hx
    have here := ((mem_queued_of_filed filed).mp hx).1
    rw [same, ((mem_queued_of_filed filed).mp there).1] at here
    cases here
    exact Precedes.irrefl (of_decide_eq_true before)
  have found : h.queued.findIdx? (·.id = j.id) = some (ahead h j).length := by
    rw [split, List.findIdx?_append, ← ahead, before, List.findIdx?_cons]
    simp
  rw [Host.positionOf, found]
  rfl

/-- What is before a job is told by its members. -/
theorem ahead_eq (filed : Filed h.store) {j : JobRecord} {l : List JobRecord}
    (sorted : l.Pairwise Precedes) (same : ∀ x, x ∈ l ↔ x ∈ h.queued ∧ Precedes x j) :
    ahead h j = l := by
  have nodup {l : List JobRecord} (sorted : l.Pairwise Precedes) : l.Nodup :=
    sorted.imp fun {a b} before (it : a = b) => Precedes.irrefl (it ▸ before)
  have sorted' := (queued_pairwise filed).filter fun x => decide (Precedes x j)
  have perm : (ahead h j).Perm l := by
    refine (List.perm_ext_iff_of_nodup (nodup sorted') (nodup sorted)).mpr fun x => ?_
    rw [List.mem_filter, decide_eq_true_eq]
    exact (same x).symm
  exact perm.eq_of_pairwise (fun a b _ _ ab ba => absurd (ab.trans ba) Precedes.irrefl) sorted' sorted

theorem mem_ahead {j x : JobRecord} : x ∈ ahead h j ↔ x ∈ h.queued ∧ Precedes x j := by
  rw [ahead, List.mem_filter, decide_eq_true_eq]

theorem ahead_pairwise (filed : Filed h.store) (j : JobRecord) : (ahead h j).Pairwise Precedes :=
  (queued_pairwise filed).filter _

end Queues

/-- A call goes on by itself, a step at each thing it meets. -/
def Host.through (n : Node) : List Outside → Host × Call → Host × Call
  | [], x => x
  | o :: os, (h, c) =>
      match h.advance n o c with
      | some x => through n os x
      | none => (h, c)

/-- A submission with no other call in between, and its answer. -/
def Host.answered (n : Node) (h : Host) (sub : Submission) (now : Nat) (os : List Outside) :
    Option (Host × BenchRep) :=
  match Host.through n os (h.submit n sub now) with
  | (h, .submitted _ rep) => some (h, rep)
  | _ => none

/-- A record as it is minted at a reading of the clock. -/
def Minted (n : Node) (now : UInt64) (r : JobRecord) : Prop :=
  ∃ asked : Asked, r = asked.record (mintId n.digest now asked.key asked.sender) now

section Submissions
variable {n : Node} {h₀ h t : Host} {c d : Call} {clocks : UInt64 → Prop}

def Unmoved (h₀ h : Host) : Prop := ∀ id, h.store.load id = h₀.store.load id

def Added (h₀ h : Host) (job : JobRecord) : Prop :=
  ∀ id, h.store.load id = if id = job.id then .ok job else h₀.store.load id

/-- Where a stage of a creation leads that does not fail. -/
theorem stage_createStep {s u : JobStore} {f : Faults} {pid : UInt32} {r : JobRecord}
    {stage : CreateStage} {result : CreateStage ⊕ Except StoreError Unit}
    (step : s.createStep f pid r stage = (u, result)) :
    (∃ e, result = .inr (.error e) ∧ ∀ id, u.load id = s.load id) ∨
      match stage with
      | .look => result = .inl .make ∧ ∀ id, u.load id = s.load id
      | .make => result = .inl .save ∧ ∀ id, u.load id = s.load id
      | .save => result = .inl .index ∧ ∀ id, u.load id = if id = r.id then .ok r else s.load id
      | .index => result = .inl .rename ∧ ∀ id, u.load id = s.load id
      | .rename => result = .inr (.ok ()) ∧ ∀ id, u.load id = s.load id := by
  have loads := load_createStep step
  cases stage with
  | look =>
      simp only [createStep] at step
      split at step <;> cases step <;> simp
  | make =>
      have same := loads.resolve_right (by simp)
      simp only [createStep] at step
      split at step <;> cases step <;> simp [same]
  | save =>
      simp only [createStep] at step
      split at step
      · cases step; simp
      · split at step
        · cases step; simp
        · cases step
          exact .inr ⟨rfl, fun id => load_save⟩
  | index =>
      have same := loads.resolve_right (by simp)
      simp only [createStep] at step
      split at step
      · cases step; simp
      · split at step
        · cases step; simp
        · split at step
          · cases step; simp [same]
          · split at step <;> cases step <;> simp [same]
  | rename =>
      have same := loads.resolve_right (by simp)
      simp only [createStep] at step
      split at step
      · cases step; simp
      · split at step <;> cases step <;> simp [same]

/-- How far a submission can be, and what it has changed by then. -/
def Far (n : Node) (clocks : UInt64 → Prop) (h₀ h : Host) : Call → Prop
  | .looking _ | .placing _ _ | .counting _ => h.store = h₀.store
  | .probing _ depth => h.store = h₀.store ∧ depth = UInt32.ofNat h₀.queued.length
  | .creating _ job depth stage =>
      (∃ now, clocks now ∧ Minted n now job) ∧ depth = UInt32.ofNat h₀.queued.length ∧
        if stage = .index ∨ stage = .rename then Added h₀ h job else Unmoved h₀ h
  | .queueing _ job depth =>
      (∃ now, clocks now ∧ Minted n now job) ∧ depth = UInt32.ofNat h₀.queued.length ∧
        Added h₀ h job
  | .submitted _ rep =>
      (∃ id state, rep = .accepted id true state (h₀.positionOf id) ∧ h.store = h₀.store) ∨
        (∃ refusal, rep = n.refuse refusal) ∧ (Unmoved h₀ h ∨
          ∃ job now, clocks now ∧ Minted n now job ∧ Added h₀ h job) ∨
        ∃ job now, clocks now ∧ Minted n now job ∧ Added h₀ h job ∧
          rep = .accepted job.id false .queued (UInt32.ofNat h₀.queued.length + 1)
  | _ => False

theorem positionOf_congr (same : h.store = h₀.store) (id : JobId) :
    h.positionOf id = h₀.positionOf id := by
  rw [Host.positionOf, Host.positionOf, Host.queued, Host.queued, same]

theorem far_advance {o : Outside} (far : Far n clocks h₀ h c) (reading : clocks o.clock)
    (go : h.advance n o c = some (t, d)) : Far n clocks h₀ t d := by
  cases c with
  | looking a =>
      cases goes_of_advance go with
      | unreadable => exact .inr (.inl ⟨⟨_, rfl⟩, .inl fun id => by rw [far]⟩)
      | found _ _ => exact far
      | conflict _ _ => exact .inr (.inl ⟨⟨_, rfl⟩, .inl fun id => by rw [far]⟩)
      | unknown _ => exact far
  | placing a x =>
      cases go
      exact .inl ⟨x.id, x.state, by rw [positionOf_congr far], far⟩
  | counting a =>
      cases goes_of_advance go with
      | full => exact .inr (.inl ⟨⟨_, rfl⟩, .inl fun id => by rw [far]⟩)
      | counted _ => exact ⟨far, by rw [Host.queued, Host.queued, far]⟩
  | probing a depth =>
      cases goes_of_advance go with
      | low => exact .inr (.inl ⟨⟨_, rfl⟩, .inl fun id => by rw [far.1]⟩)
      | minted =>
          refine ⟨⟨o.clock, reading, a, rfl⟩, far.2, ?_⟩
          rw [if_neg (by simp)]
          exact fun id => by rw [far.1]
  | creating a job depth stage =>
      obtain ⟨minted, depth, loads⟩ := far
      cases goes_of_advance go with
      | created step =>
          obtain ⟨e, rfl, same⟩ | there := stage_createStep step
          · refine .inr (.inl ⟨⟨_, rfl⟩, ?_⟩)
            split at loads
            · obtain ⟨now, reading, minted⟩ := minted
              exact .inr ⟨job, now, reading, minted, fun id => (same id).trans (loads id)⟩
            · exact .inl fun id => (same id).trans (loads id)
          · cases stage with
            | look =>
                obtain ⟨rfl, same⟩ := there
                exact ⟨minted, depth, fun id => (same id).trans (loads id)⟩
            | make =>
                obtain ⟨rfl, same⟩ := there
                exact ⟨minted, depth, fun id => (same id).trans (loads id)⟩
            | save =>
                obtain ⟨rfl, added⟩ := there
                refine ⟨minted, depth, fun id => ?_⟩
                rw [added id, loads id]
            | index =>
                obtain ⟨rfl, same⟩ := there
                exact ⟨minted, depth, fun id => (same id).trans (loads id)⟩
            | rename =>
                obtain ⟨rfl, same⟩ := there
                exact ⟨minted, depth, fun id => (same id).trans (loads id)⟩
  | queueing a job depth =>
      obtain ⟨⟨now, reading, minted⟩, depth, added⟩ := far
      cases go
      refine .inr (.inr ⟨job, now, reading, minted, fun id => ?_, by rw [depth]⟩)
      rw [← added]
      split <;> rfl
  | submitted _ _ => cases go
  | ending _ _ => exact far.elim
  | recording _ _ => exact far.elim
  | signalling _ _ => exact far.elim
  | ended _ => exact far.elim
  | answered _ => exact far.elim

theorem far_through {os : List Outside} (far : Far n clocks h₀ h c)
    (readings : ∀ o ∈ os, clocks o.clock) (through : Host.through n os (h, c) = (t, d)) :
    Far n clocks h₀ t d := by
  induction os generalizing h c with
  | nil =>
      cases through
      exact far
  | cons o os ih =>
      simp only [Host.through] at through
      split at through
      · next x go =>
          exact ih (far_advance far (readings o List.mem_cons_self) go)
            (fun o ho => readings o (List.mem_cons_of_mem _ ho)) through
      · cases through
        exact far

/-- What a submission changes, by its answer. -/
theorem far_answered {sub : Submission} {now : Nat} {os : List Outside} {rep : BenchRep}
    (answered : h₀.answered n sub now os = some (t, rep)) :
    ∃ asked, Far n (fun now => ∃ o ∈ os, o.clock = now) h₀ t (.submitted asked rep) := by
  unfold Host.answered at answered
  split at answered
  · next h asked rep through =>
      cases answered
      obtain ⟨submits, c, entered, shape⟩ := submit_shape n h₀ sub now
      rw [entered] at through
      refine ⟨asked, far_through (c := c) ?_ (fun o ho => ⟨o, ho, rfl⟩) through⟩
      obtain rfl | ⟨refusal, rfl, _⟩ := shape
      · exact rfl
      · exact .inr (.inl ⟨⟨refusal, rfl⟩, .inl fun _ => rfl⟩)
  · cases answered

end Submissions

/-- What happens to the queue; the latest comes first. -/
inductive Entry where
  | accepted (job : JobRecord)
  | started (job : JobRecord)
  | dropped (id : JobId)

/-- The job that is started. -/
def Entry.begun : Entry → Option JobRecord
  | .started job => some job
  | _ => none

/-- The queue of a host that takes its submissions one at a time, and the job the worker has
taken whose first record is not saved yet. -/
structure Line where
  host : Host
  taken : Option JobRecord
  log : List Entry

inductive Passing where
  | submit (sub : Submission) (now : Nat) (os : List Outside)
  /-- The worker takes the next job, -/
  | start
  /-- saves the record of its begin, -/
  | begin_ (r : JobRecord)
  /-- or cannot. -/
  | stop
  | save (r : JobRecord)
  | cancel (r : JobRecord)
  | remove (r : JobRecord)

namespace Line

def accepted (h : Host) : BenchRep → List Entry
  | .accepted id false _ _ =>
      match h.store.load id with
      | .ok r => [.accepted r]
      | .error _ => []
  | _ => []

def step (n : Node) (l : Line) : Passing → Option Line
  | .submit sub now os =>
      (l.host.answered n sub now os).map fun (h, rep) =>
        { l with host := h, log := accepted h rep ++ l.log }
  | .start =>
      match l.taken with
      | none => l.host.queued.head?.map fun job =>
          { l with taken := some job, log := .started job :: l.log }
      | some _ => none
  | .begin_ r =>
      match l.taken with
      | some job =>
          if r.id = job.id ∧ r.state ≠ .queued then
            some { l with host := { l.host with store := l.host.store.save r }, taken := none }
          else none
      | none => none
  | .stop => l.taken.map fun _ => { l with taken := none }
  | .save r =>
      match l.host.store.load r.id with
      | .ok x =>
          if x.state ≠ .queued ∧ r.state ≠ .queued then
            some { l with host := { l.host with store := l.host.store.save r } }
          else none
      | .error _ => none
  | .cancel r =>
      match l.host.store.load r.id with
      | .ok x =>
          if x.state = .queued ∧ r.state = .done then
            some { l with
              host := { l.host with store := l.host.store.save r }
              log := .dropped r.id :: l.log }
          else none
      | .error _ => none
  | .remove r =>
      match l.host.store.load r.id, l.host.store.remove r with
      | .ok x, .ok s => if x = r then some { l with host := { l.host with store := s } } else none
      | _, _ => none

/-- The ids of the jobs started, in their order. -/
def starts (log : List Entry) : List JobId :=
  ((log.filterMap Entry.begun).map (·.id)).reverse

/-- The jobs accepted, the latest first. -/
def arrivals (log : List Entry) : List JobRecord :=
  log.filterMap fun | .accepted job => some job | _ => none

/-- The job was started or cancelled. -/
def Settled (log : List Entry) (id : JobId) : Prop := id ∈ starts log ∨ .dropped id ∈ log

/-- The clock reads no less than at any submission before. -/
def Later (l : Line) : Passing → Prop
  | .submit _ _ os => ∀ o ∈ os, ∀ r ∈ arrivals l.log, r.createdAtS ≤ o.clock.toNat
  | _ => True

end Line

section Ids
variable {n : Node} {a b : JobRecord} {now now' : UInt64}

/-- An id tells the second it was minted at. -/
theorem clock_of_mintId {digest : Utf8.Bytes → BitVec 256} {k k' : JobKey} {p p' : NodeId}
    (same : mintId digest now k p = mintId digest now' k' p') : now = now' := by
  obtain ⟨m, text⟩ := mintText_toList digest now k p
  obtain ⟨m', text'⟩ := mintText_toList digest now' k' p'
  have texts : mintText digest now k p = mintText digest now' k' p' := congrArg Token.text same
  rw [texts, text', List.append_assoc, List.append_assoc, List.append_assoc, List.append_assoc,
    List.append_cancel_left_eq] at text
  have digits (m : Nat) (rest : List Char) : (Nat.toDigits 10 m ++ ('-' :: rest)).takeWhile
      (· ≠ '-') = Nat.toDigits 10 m := by
    have all : ∀ c ∈ Nat.toDigits 10 m, decide (c ≠ '-') = true := by
      intro c hc
      have digit := Nat.isDigit_of_mem_toDigits (by decide) (by decide) hc
      refine decide_eq_true fun it => ?_
      rw [it] at digit
      exact absurd digit (by decide)
    rw [List.takeWhile_append_of_pos all, List.takeWhile_cons_of_neg (by simp), List.append_nil]
  have front := congrArg (List.takeWhile (· ≠ '-')) text
  rw [show "-".toList = ['-'] from rfl, List.singleton_append, List.singleton_append, digits,
    digits] at front
  have value := congrArg (fun cs => Nat.ofDigitChars 10 cs 0) front
  simp only [Nat.ofDigitChars_ten_toDigits] at value
  exact (UInt64.toNat_inj.mp value).symm

theorem Minted.made (minted : Minted n now a) :
    a.id = mintId n.digest now a.key a.sender ∧ a.createdAtS = now.toNat := by
  obtain ⟨asked, rfl⟩ := minted
  exact ⟨rfl, rfl⟩

theorem Minted.same_second (first : Minted n now a) (second : Minted n now' b)
    (same : a.id = b.id) : a.createdAtS = b.createdAtS := by
  obtain ⟨id, second_⟩ := first.made
  obtain ⟨id', second_'⟩ := second.made
  rw [second_, second_', clock_of_mintId (id.symm.trans (same.trans id'))]

end Ids

namespace Line
variable {n : Node} {l m : Line} {a b r : JobRecord}

/-- A job waits in the queue, under its place in it. -/
def Waits (h : Host) (a : JobRecord) : Prop :=
  ∃ r, h.store.load a.id = .ok r ∧ r.state = .queued ∧ r.createdAtS = a.createdAtS

/-- The worker took the jobs in the order of the queue. -/
def Ordered (log : List Entry) : Prop :=
  ∀ post b pre, log = post ++ .started b :: pre →
    ∀ a ∈ arrivals pre, Precedes a b → Settled pre a.id

structure Sound (n : Node) (l : Line) : Prop where
  filed : Filed l.host.store
  minted : ∀ id r, l.host.store.load id = .ok r → r.state = .queued → ∃ now, Minted n now r
  taken : ∀ job, l.taken = some job → job.id ∈ starts l.log
  arrived : ∀ a ∈ arrivals l.log, (∃ now, Minted n now a) ∧
    (Waits l.host a ∨ Settled l.log a.id)
  ordered : Ordered l.log

theorem Ordered.cons {e : Entry} {log : List Entry} (ordered : Ordered log)
    (new : ∀ b ∈ e.begun, ∀ a ∈ arrivals log, Precedes a b → Settled log a.id) :
    Ordered (e :: log) := by
  intro post b pre split
  cases post with
  | nil =>
      cases split
      exact new b rfl
  | cons _ post =>
      cases split
      exact ordered post b pre rfl

theorem Ordered.skip {e : Entry} {log : List Entry} (ordered : Ordered log)
    (none_ : e.begun = none) : Ordered (e :: log) := by
  refine ordered.cons fun b hb => ?_
  rw [none_] at hb
  cases hb

theorem mem_starts {log : List Entry} {id : JobId} : id ∈ starts log ↔
    ∃ job, .started job ∈ log ∧ job.id = id := by
  simp only [starts, List.mem_reverse, List.mem_map, List.mem_filterMap]
  constructor
  · rintro ⟨job, ⟨e, he, same⟩, id⟩
    cases e with
    | started job => cases same; exact ⟨_, he, id⟩
    | _ => cases same
  · rintro ⟨job, he, id⟩
    exact ⟨job, ⟨_, he, rfl⟩, id⟩

theorem Settled.cons {log : List Entry} {id : JobId} (settled : Settled log id) (e : Entry) :
    Settled (e :: log) id := by
  refine settled.imp (fun started => ?_) (List.mem_cons_of_mem _)
  obtain ⟨job, there, same⟩ := mem_starts.mp started
  exact mem_starts.mpr ⟨job, List.mem_cons_of_mem _ there, same⟩

theorem Waits.other {h t : Host} {id : JobId} (waits : Waits h a)
    (loads : ∀ id' ≠ id, t.store.load id' = h.store.load id') (other : a.id ≠ id) :
    Waits t a := by
  obtain ⟨r, there, rest⟩ := waits
  exact ⟨r, (loads _ other).trans there, rest⟩

/-- What waits is not before the head of the queue. -/
theorem head_first (sound : Sound n l) (head : l.host.queued.head? = some b)
    (waits : Waits l.host a) : ¬Precedes a b := by
  obtain ⟨r, there, queued, second⟩ := waits
  have mem : r ∈ l.host.queued := mem_queued.mpr ⟨⟨_, there⟩, queued⟩
  have place : r.createdAtS = a.createdAtS ∧ r.id = a.id := ⟨second, sound.filed _ _ there⟩
  have sorted := queued_pairwise sound.filed
  intro before
  have before : Precedes r b := by
    unfold Precedes at before ⊢
    rwa [place.1, place.2]
  cases rest : l.host.queued with
  | nil => rw [rest] at mem; cases mem
  | cons x xs =>
      rw [rest] at head mem sorted
      cases head
      cases List.mem_cons.mp mem with
      | inl it => exact Precedes.irrefl (it ▸ before)
      | inr later => exact Precedes.irrefl (before.trans ((List.pairwise_cons.mp sorted).1 r later))

/-- A job leaves the queue, or one changes that is not in it. -/
theorem Sound.left (sound : Sound n l) {i : JobId}
    (others : ∀ id ≠ i, m.host.store.load id = l.host.store.load id)
    (here : ∀ x, m.host.store.load i = .ok x → x.id = i ∧ x.state ≠ .queued)
    (log : m.log = l.log ∨ ∃ id, m.log = .dropped id :: l.log)
    (taken : m.taken = none ∨ m.taken = l.taken)
    (settled : ∀ a ∈ arrivals l.log, a.id = i → Waits l.host a → Settled m.log a.id) :
    Sound n m := by
  have kept : arrivals m.log = arrivals l.log ∧ (∀ id, Settled l.log id → Settled m.log id) ∧
      (∀ id ∈ starts l.log, id ∈ starts m.log) ∧ Ordered m.log := by
    obtain log | ⟨id, log⟩ := log
    · rw [log]
      exact ⟨rfl, fun _ h => h, fun _ h => h, sound.ordered⟩
    · rw [log]
      exact ⟨rfl, fun _ settled => settled.cons _, fun _ h => h, sound.ordered.skip rfl⟩
  refine ⟨fun id r there => ?_, fun id r there queued => ?_, fun job taken_ => ?_, fun a ha => ?_,
    kept.2.2.2⟩
  · by_cases it : id = i
    · subst it
      exact (here r there).1
    · exact sound.filed id r ((others id it).symm.trans there)
  · by_cases it : id = i
    · subst it
      exact absurd queued (here r there).2
    · exact sound.minted id r ((others id it).symm.trans there) queued
  · obtain none_ | same := taken
    · rw [none_] at taken_
      cases taken_
    · exact kept.2.2.1 _ (sound.taken job (same.symm.trans taken_))
  · rw [kept.1] at ha
    obtain ⟨minted, waits | settled_⟩ := sound.arrived a ha
    · by_cases it : a.id = i
      · exact ⟨minted, .inr (settled a ha it waits)⟩
      · exact ⟨minted, .inl (waits.other others it)⟩
    · exact ⟨minted, .inr (kept.2.1 _ settled_)⟩

/-- A job enters the queue; where one has its id already, it is of the same second. -/
theorem Sound.entered (sound : Sound n l) {job : JobRecord} {now : UInt64}
    (minted : Minted n now job) (added : Added l.host m.host job) (taken : m.taken = l.taken)
    (log : m.log = l.log ∨ m.log = .accepted job :: l.log) : Sound n m := by
  have place := minted.made
  have queued : job.state = .queued := by
    obtain ⟨asked, rfl⟩ := minted
    rfl
  have waits {a : JobRecord} {then_ : UInt64} (minted' : Minted n then_ a)
      (waits : Waits l.host a) : Waits m.host a := by
    by_cases it : a.id = job.id
    · refine ⟨job, ?_, queued, minted.same_second minted' it.symm⟩
      rw [added, if_pos it]
    · exact waits.other (fun id other => (added id).trans (if_neg other)) it
  have kept : (∀ id, Settled l.log id → Settled m.log id) ∧
      (∀ id ∈ starts l.log, id ∈ starts m.log) ∧ Ordered m.log := by
    obtain log | log := log
    · rw [log]
      exact ⟨fun _ h => h, fun _ h => h, sound.ordered⟩
    · rw [log]
      exact ⟨fun _ settled => settled.cons _, fun _ h => h, sound.ordered.skip rfl⟩
  have old {a : JobRecord} (ha : a ∈ arrivals l.log) :
      (∃ now, Minted n now a) ∧ (Waits m.host a ∨ Settled m.log a.id) := by
    obtain ⟨⟨then_, minted'⟩, here⟩ := sound.arrived a ha
    exact ⟨⟨then_, minted'⟩, here.imp (waits minted') (kept.1 _)⟩
  refine ⟨fun id r there => ?_, fun id r there queued => ?_, fun j taken_ => ?_, fun a ha => ?_,
    kept.2.2⟩
  · rw [added] at there
    split at there
    · next it => cases there; exact it.symm
    · exact sound.filed id r there
  · rw [added] at there
    split at there
    · cases there; exact ⟨now, minted⟩
    · exact sound.minted id r there queued
  · exact kept.2.1 _ (sound.taken j (taken.symm.trans taken_))
  · obtain log | log := log
    · rw [log] at ha
      exact old ha
    · rw [log] at ha
      cases List.mem_cons.mp ha with
      | inl it =>
          subst it
          exact ⟨⟨now, minted⟩, .inl ⟨a, by rw [added, if_pos rfl], queued, rfl⟩⟩
      | inr earlier => exact old earlier

theorem Sound.unmoved (sound : Sound n l) (loads : Unmoved l.host m.host)
    (taken : m.taken = l.taken) (log : m.log = l.log) : Sound n m where
  filed id r there := sound.filed id r ((loads id).symm.trans there)
  minted id r there := sound.minted id r ((loads id).symm.trans there)
  taken := by rw [taken, log]; exact sound.taken
  arrived a ha := by
    rw [log] at ha ⊢
    obtain ⟨minted, here⟩ := sound.arrived a ha
    refine ⟨minted, here.imp_left ?_⟩
    rintro ⟨r, there, rest⟩
    exact ⟨r, (loads _).trans there, rest⟩
  ordered := by rw [log]; exact sound.ordered

theorem load_remove {s t : JobStore} (removed : s.remove r = .ok t) (id : JobId) :
    t.load id = if id = r.id then .error .noJob else s.load id := by
  unfold JobStore.remove at removed
  split at removed
  · cases removed
    by_cases same : id = r.id
    · rw [if_pos same, JobStore.load, SortedMap.get?_remove, if_pos (congrArg Token.text same)]
      rfl
    · have other : id.text ≠ r.id.text := fun text => same (Token.ext text)
      rw [if_neg same]
      apply load_congr
      rw [SortedMap.get?_remove, if_neg other]
  · cases removed

/-- What a turn does. -/
inductive Took (n : Node) (l : Line) : Passing → Line → Prop
  | unmoved {sub now os} {h : Host} : Unmoved l.host h → Took n l (.submit sub now os) { l with host := h }
  | entered {sub now os new} {h : Host} {job : JobRecord} : (∃ now, (∃ o ∈ os, o.clock = now) ∧ Minted n now job) →
      Added l.host h job → (new = [] ∨ new = [.accepted job]) →
      Took n l (.submit sub now os) { l with host := h, log := new ++ l.log }
  | start {b : JobRecord} : l.taken = none → l.host.queued.head? = some b →
      Took n l .start { l with taken := some b, log := .started b :: l.log }
  | begun {b r : JobRecord} : l.taken = some b → r.id = b.id → r.state ≠ .queued →
      Took n l (.begin_ r)
        { l with host := { l.host with store := l.host.store.save r }, taken := none }
  | stopped : Took n l .stop { l with taken := none }
  | saved {x r : JobRecord} : l.host.store.load r.id = .ok x → x.state ≠ .queued → r.state ≠ .queued →
      Took n l (.save r) { l with host := { l.host with store := l.host.store.save r } }
  | cancelled {r : JobRecord} : r.state = .done →
      Took n l (.cancel r) { l with
        host := { l.host with store := l.host.store.save r }
        log := .dropped r.id :: l.log }
  | removed {r : JobRecord} {s : JobStore} : l.host.store.load r.id = .ok r → l.host.store.remove r = .ok s →
      Took n l (.remove r) { l with host := { l.host with store := s } }

theorem took_of_step {turn : Passing} (step : l.step n turn = some m) : Took n l turn m := by
  cases turn with
  | submit sub now os =>
      obtain ⟨⟨h, rep⟩, answered, rfl⟩ := Option.map_eq_some_iff.mp step
      obtain ⟨asked, far⟩ := far_answered answered
      obtain ⟨id, state, rfl, same⟩ | ⟨⟨refusal, rfl⟩, unmoved | ⟨job, now, reading, minted, added⟩⟩ |
        ⟨job, now, reading, minted, added, rfl⟩ := far
      · exact .unmoved fun id => by rw [same]
      · exact .unmoved unmoved
      · exact .entered ⟨now, reading, minted⟩ added (.inl rfl)
      · have there : h.store.load job.id = .ok job := (added _).trans (if_pos rfl)
        simp only [accepted, there]
        exact .entered ⟨now, reading, minted⟩ added (.inr rfl)
  | start =>
      simp only [Line.step] at step
      split at step
      · next idle =>
          obtain ⟨b, head, rfl⟩ := Option.map_eq_some_iff.mp step
          exact .start idle head
      · cases step
  | begin_ r =>
      simp only [Line.step] at step
      split at step
      · next taken =>
          split at step
          · next same =>
              cases step
              exact .begun taken same.1 same.2
          · cases step
      · cases step
  | stop =>
      obtain ⟨job, taken, rfl⟩ := Option.map_eq_some_iff.mp step
      exact .stopped
  | save r =>
      simp only [Line.step] at step
      split at step
      · next there =>
          split at step
          · next begun =>
              cases step
              exact .saved there begun.1 begun.2
          · cases step
      · cases step
  | cancel r =>
      simp only [Line.step] at step
      split at step
      · split at step
        · next over_ =>
            cases step
            exact .cancelled over_.2
        · cases step
      · cases step
  | remove r =>
      simp only [Line.step] at step
      split at step
      · next x s there removed =>
          split at step
          · next same =>
              cases step
              exact .removed (same ▸ there) removed
          · cases step
      · cases step

theorem took_log {turn : Passing} (took : Took n l turn m) : ∃ new, m.log = new ++ l.log := by
  cases took with
  | entered => exact ⟨_, rfl⟩
  | start => exact ⟨[_], rfl⟩
  | cancelled => exact ⟨[_], rfl⟩
  | _ => exact ⟨[], rfl⟩

/-- After a record is saved that is not queued, there is none that is. -/
theorem here_saved {s : JobStore} (begun : r.state ≠ .queued) (x : JobRecord)
    (there : (s.save r).load r.id = .ok x) : x.id = r.id ∧ x.state ≠ .queued := by
  cases (load_save.trans (if_pos rfl)).symm.trans there
  exact ⟨rfl, begun⟩

theorem here_removed {s t : JobStore} (removed : s.remove r = .ok t) (x : JobRecord)
    (there : t.load r.id = .ok x) : x.id = r.id ∧ x.state ≠ .queued := by
  rw [load_remove removed, if_pos rfl] at there
  cases there

theorem removed_over {s t : JobStore} (removed : s.remove r = .ok t) : r.state ≠ .queued := by
  intro queued
  simp only [JobStore.remove, JobState.isTerminal, queued] at removed
  cases removed

theorem took_sound {turn : Passing} (sound : Sound n l) (took : Took n l turn m) : Sound n m := by
  cases took with
  | unmoved same => exact sound.unmoved same rfl rfl
  | entered minted added new =>
      obtain ⟨now, _, minted⟩ := minted
      refine sound.entered minted added rfl ?_
      obtain rfl | rfl := new
      · exact .inl rfl
      · exact .inr rfl
  | @start b idle head =>
      refine ⟨sound.filed, sound.minted, ?_, fun a ha => ?_, ?_⟩
      · rintro _ ⟨⟩
        exact mem_starts.mpr ⟨b, List.mem_cons_self, rfl⟩
      · obtain ⟨minted, here⟩ := sound.arrived a ha
        exact ⟨minted, here.imp_right fun settled => settled.cons _⟩
      · refine sound.ordered.cons ?_
        rintro _ ⟨⟩ a ha before
        exact (sound.arrived a ha).2.resolve_left fun waits => head_first sound head waits before
  | @begun b r taken same begun =>
      refine sound.left (fun id other => load_save.trans (if_neg other)) (here_saved begun)
        (.inl rfl) (.inl rfl) fun a ha it waits => ?_
      rw [it, same]
      exact .inl (sound.taken b taken)
  | stopped =>
      refine ⟨sound.filed, sound.minted, fun _ none_ => ?_, sound.arrived, sound.ordered⟩
      cases none_
  | @saved x r there begun begun' =>
      refine sound.left (fun id other => load_save.trans (if_neg other)) (here_saved begun')
        (.inl rfl) (.inr rfl) fun a ha it waits => ?_
      obtain ⟨y, there', queued, _⟩ := waits
      rw [it, there] at there'
      cases there'
      exact absurd queued begun
  | @cancelled r over_ =>
      refine sound.left (fun id other => load_save.trans (if_neg other)) (here_saved ?_)
        (.inr ⟨r.id, rfl⟩) (.inr rfl) fun a ha it waits => ?_
      · rw [over_]
        exact nofun
      · rw [it]
        exact .inr List.mem_cons_self
  | @removed r s there removed =>
      refine sound.left (fun id other => (load_remove removed id).trans (if_neg other))
        (here_removed removed) (.inl rfl) (.inr rfl) fun a ha it waits => ?_
      obtain ⟨y, there', queued, _⟩ := waits
      rw [it, there] at there'
      cases there'
      exact absurd queued (removed_over removed)

/-- No job is cancelled, what is submitted comes in a later second than this job's, and what is
started is recorded. -/
def Undisturbed (j : JobRecord) (_ : Line) : Passing → Prop
  | .submit _ _ os => ∀ o ∈ os, j.createdAtS < o.clock.toNat
  | .stop | .cancel _ => False
  | _ => True

/-- The worker is on its way to a job through those that were before it. -/
def Coming (before : List JobRecord) (j : JobRecord) (m : Line) (e : List Entry) : Prop :=
  j ∈ m.host.queued ∧ ∃ done rest, before = done ++ rest ∧ starts e = done.map (·.id) ∧
    match m.taken with
    | none => ahead m.host j = rest
    | some b => ahead m.host j = b :: rest

/-- Since then the jobs before it were started, in their order, as far as it came, -/
def Reaching (s : Line) (before : List JobRecord) (j : JobRecord) (m : Line) : Prop :=
  ∃ e, m.log = e ++ s.log ∧ (Coming before j m e ∨
    (before.map (·.id) ++ [j.id]) <+: starts e)

section Reaches
variable {s : Line} {before : List JobRecord} {j : JobRecord} {e : List Entry}

theorem starts_cons (x : Entry) (log : List Entry) :
    starts (x :: log) = starts log ++ (x.begun.map (·.id)).toList := by
  cases h : x.begun <;> simp [starts, h]

/-- The queue and what is taken stay the same up to the job. -/
theorem Coming.same (coming : Coming before j l e) (filed : Filed l.host.store)
    (filed' : Filed m.host.store) {e' : List Entry} (starts_ : starts e' = starts e)
    (taken : m.taken = l.taken)
    (queued : ∀ x, x = j ∨ Precedes x j → (x ∈ m.host.queued ↔ x ∈ l.host.queued)) :
    Coming before j m e' := by
  obtain ⟨there, done, rest, split, started, place⟩ := coming
  have same : ahead m.host j = ahead l.host j := by
    refine ahead_eq filed' (ahead_pairwise filed j) fun x => ?_
    rw [mem_ahead]
    exact and_congr_left fun before => (queued x (.inr before)).symm
  refine ⟨(queued j (.inl rfl)).mpr there, done, rest, split, starts_.trans started, ?_⟩
  rw [taken, same]
  exact place

theorem starts_append (new log : List Entry) : starts (new ++ log) = starts log ++ starts new := by
  simp [starts]

/-- The queue once a job has left it. -/
theorem mem_queued_left (filed : Filed l.host.store) (filed' : Filed m.host.store) {i : JobId}
    (others : ∀ id ≠ i, m.host.store.load id = l.host.store.load id)
    (here : ∀ x, m.host.store.load i = .ok x → x.state ≠ .queued) (x : JobRecord) :
    x ∈ m.host.queued ↔ x ∈ l.host.queued ∧ x.id ≠ i := by
  rw [mem_queued_of_filed filed, mem_queued_of_filed filed']
  by_cases it : x.id = i
  · refine iff_of_false (fun there => here x (it ▸ there.1) there.2) fun there => there.2 it
  · rw [others _ it]
    exact (and_iff_left it).symm

/-- The worker starts the next job: it is the first of those before, or the one itself. -/
theorem Coming.start (coming : Coming before j l e) (filed : Filed l.host.store)
    (idle : l.taken = none) {b : JobRecord} (head : l.host.queued.head? = some b) :
    Coming before j { l with taken := some b, log := .started b :: l.log } (.started b :: e) ∨
      (before.map (·.id) ++ [j.id]) <+: starts (.started b :: e) := by
  obtain ⟨there, done, rest, split, started, place⟩ := coming
  rw [idle] at place
  have place : ahead l.host j = rest := place
  obtain ⟨after, queue⟩ := filter_precedes (queued_pairwise filed) there
  rw [show l.host.queued.filter (fun x => decide (Precedes x j)) = rest from place] at queue
  cases rest with
  | nil =>
      rw [queue] at head
      cases head
      refine .inr ⟨[], ?_⟩
      rw [starts_cons, started, split]
      simp [Entry.begun]
  | cons x rest =>
      rw [queue] at head
      cases head
      refine .inl ⟨there, done ++ [b], rest, by rw [split, List.append_assoc]; rfl, ?_, place⟩
      rw [starts_cons, started]
      simp [Entry.begun]

/-- What was taken leaves the queue. -/
theorem Coming.begin_ (coming : Coming before j l e) (filed : Filed l.host.store)
    (filed' : Filed m.host.store) {b : JobRecord} (taken : l.taken = some b)
    (taken' : m.taken = none)
    (queued : ∀ x, x ∈ m.host.queued ↔ x ∈ l.host.queued ∧ x.id ≠ b.id) :
    Coming before j m e := by
  obtain ⟨there, done, rest, split, started, place⟩ := coming
  rw [taken] at place
  have place : ahead l.host j = b :: rest := place
  have sorted := ahead_pairwise filed j
  rw [place] at sorted
  have first : b ∈ l.host.queued ∧ Precedes b j := by
    rw [← mem_ahead, place]
    exact List.mem_cons_self
  have distinct {x : JobRecord} (hx : x ∈ l.host.queued) (same : x.id = b.id) : x = b := by
    have here := ((mem_queued_of_filed filed).mp hx).1
    rw [same, ((mem_queued_of_filed filed).mp first.1).1] at here
    cases here
    rfl
  refine ⟨(queued j).mpr ⟨there, fun same => ?_⟩, done, rest, split, started, ?_⟩
  · exact Precedes.irrefl (distinct there same ▸ first.2)
  · rw [taken']
    refine ahead_eq filed' (List.pairwise_cons.mp sorted).2 fun x => ?_
    rw [queued, and_assoc, and_comm (a := x.id ≠ b.id), ← and_assoc, ← mem_ahead, place,
      List.mem_cons]
    constructor
    · intro hx
      refine ⟨.inr hx, fun same => ?_⟩
      have later := (List.pairwise_cons.mp sorted).1 x hx
      have mem : x ∈ ahead l.host j := by
        rw [place]
        exact List.mem_cons_of_mem _ hx
      exact Precedes.irrefl (distinct (mem_ahead.mp mem).1 same ▸ later)
    · rintro ⟨rfl | hx, other⟩
      · exact absurd rfl other
      · exact hx

theorem took_reaching {turn : Passing} (sound : Sound n l) (guard : Undisturbed j l turn)
    (took : Took n l turn m) (reaching : Reaching s before j l) : Reaching s before j m := by
  have filed := sound.filed
  have filed' := (took_sound sound took).filed
  obtain ⟨e, log, coming | passed⟩ := reaching
  · cases took with
    | unmoved same =>
        refine ⟨e, log, .inl (coming.same filed filed' rfl rfl fun x _ => ?_)⟩
        rw [mem_queued_of_filed filed, mem_queued_of_filed filed', same]
    | @entered _ _ _ new h job minted added new_ =>
        obtain ⟨now, ⟨o, ho, rfl⟩, minted⟩ := minted
        have late : j.createdAtS < job.createdAtS := by
          rw [minted.made.2]
          exact guard o ho
        have same : starts (new ++ e) = starts e := by
          obtain rfl | rfl := new_
          · rfl
          · rw [starts_append]
            exact List.append_nil _
        refine ⟨new ++ e, by rw [log, List.append_assoc],
          .inl (coming.same filed filed' same rfl fun x hx => ?_)⟩
        have early : x.createdAtS ≤ j.createdAtS := by
          obtain rfl | (before | ⟨same, _⟩) := hx
          · exact le_rfl
          · exact before.le
          · exact same.le
        rw [mem_queued_of_filed filed, mem_queued_of_filed filed', added]
        by_cases it : x.id = job.id
        · rw [if_pos it]
          refine iff_of_false (fun here => ?_) fun here => ?_
          · cases here.1
            exact absurd early (not_le.mpr late)
          · obtain ⟨now', minted'⟩ := sound.minted _ _ here.1 here.2
            rw [minted'.same_second minted it] at early
            exact absurd early (not_le.mpr late)
        · rw [if_neg it]
    | @start b idle head =>
        exact ⟨.started b :: e, by rw [log]; rfl, coming.start filed idle head⟩
    | @begun b r taken same begun =>
        refine ⟨e, log, .inl (coming.begin_ filed filed' taken rfl ?_)⟩
        rw [← same]
        exact mem_queued_left filed filed' (fun id other => load_save.trans (if_neg other))
          fun x there => (here_saved begun x there).2
    | stopped => exact guard.elim
    | @saved x r there begun begun' =>
        refine ⟨e, log, .inl (coming.same filed filed' rfl rfl fun y _ => ?_)⟩
        rw [mem_queued_left filed filed' (fun id other => load_save.trans (if_neg other))
          fun x there => (here_saved begun' x there).2]
        refine and_iff_left_of_imp fun hy same => ?_
        have here := ((mem_queued_of_filed filed).mp hy).1
        rw [same, there] at here
        cases here
        exact begun ((mem_queued_of_filed filed).mp hy).2
    | cancelled _ => exact guard.elim
    | @removed r t there removed =>
        refine ⟨e, log, .inl (coming.same filed filed' rfl rfl fun y _ => ?_)⟩
        rw [mem_queued_left filed filed' (fun id other => (load_remove removed id).trans
          (if_neg other)) fun x there => (here_removed removed x there).2]
        refine and_iff_left_of_imp fun hy same => ?_
        have here := ((mem_queued_of_filed filed).mp hy).1
        rw [same, there] at here
        cases here
        exact removed_over removed ((mem_queued_of_filed filed).mp hy).2
  · obtain ⟨new, log'⟩ := took_log took
    refine ⟨new ++ e, by rw [log', log, List.append_assoc], .inr ?_⟩
    rw [starts_append]
    exact passed.trans (List.prefix_append _ _)

end Reaches

/-- The jobs that were accepted came in the order of the clock. -/
def Arriving (log : List Entry) : Prop := (arrivals log).Pairwise fun b a => a.createdAtS ≤ b.createdAtS

theorem took_arriving {turn : Passing} (later : Later l turn) (took : Took n l turn m)
    (arriving : Arriving l.log) : Arriving m.log := by
  cases took with
  | @entered _ _ _ new h job minted added new_ =>
      obtain rfl | rfl := new_
      · exact arriving
      · obtain ⟨now, ⟨o, ho, rfl⟩, minted⟩ := minted
        refine List.pairwise_cons.mpr ⟨fun a ha => ?_, arriving⟩
        rw [minted.made.2]
        exact later o ho a ha
  | _ => exact arriving

end Line

/-- What a submission is told of its place: of a job that is there, the place it has; of a new
one, one more than there are jobs queued, wherever its id will put it in its second. -/
def Told (n : Node) (h : Host) : Prop :=
  ∀ sub now os t id existing state position,
    h.answered n sub now os = some (t, .accepted id existing state position) →
    position = if existing then h.positionOf id else UInt32.ofNat h.queued.length + 1

theorem told (n : Node) (h : Host) : Told n h := by
  intro sub now os t id existing state position answered
  obtain ⟨asked, far⟩ := far_answered answered
  obtain ⟨id', state', same, _⟩ | ⟨⟨refusal, same⟩, _⟩ | ⟨job, now, _, _, _, same⟩ := far
  · cases same
    rfl
  · cases same
  · cases same
    rfl

/-- A new job has the place it was told, while the jobs queued before it are of other seconds. -/
theorem told_place {n : Node} {h t : Host} {sub : Submission} {now : Nat} {os : List Outside}
    {id : JobId} {state : JobState} {position : UInt32} (filed : Filed h.store)
    (answered : h.answered n sub now os = some (t, .accepted id false state position))
    (fresh : ∀ r ∈ h.queued, r.id ≠ id)
    (later : ∀ o ∈ os, ∀ r ∈ h.queued, r.createdAtS < o.clock.toNat) :
    t.positionOf id = position := by
  obtain ⟨asked, far⟩ := far_answered answered
  obtain ⟨_, _, same, _⟩ | ⟨⟨refusal, same⟩, _⟩ | ⟨job, _, ⟨o, ho, rfl⟩, minted, added, same⟩ := far
  · cases same
  · cases same
  · cases same
    have queued : job.state = .queued := by
      obtain ⟨asked, rfl⟩ := minted
      rfl
    have filed' : Filed t.store := by
      intro id r there
      rw [added] at there
      split at there
      · next it => cases there; exact it.symm
      · exact filed id r there
    have there : job ∈ t.queued := by
      refine (mem_queued_of_filed filed').mpr ⟨?_, queued⟩
      rw [added, if_pos rfl]
    rw [positionOf_queued filed' there, ahead_eq filed' (queued_pairwise filed) fun x => ?_]
    constructor
    · intro hx
      have second : x.createdAtS < job.createdAtS := by
        rw [minted.made.2]
        exact later o ho x hx
      refine ⟨(mem_queued_of_filed filed').mpr ?_, .inl second⟩
      rw [added, if_neg (fresh x hx)]
      exact (mem_queued_of_filed filed).mp hx
    · rintro ⟨hx, before⟩
      obtain ⟨load, waits⟩ := (mem_queued_of_filed filed').mp hx
      rw [added] at load
      split at load
      · cases load
        exact absurd before Precedes.irrefl
      · exact (mem_queued_of_filed filed).mpr ⟨load, waits⟩

theorem Line.Sound.empty {n : Node} {l : Line} (none_ : ∀ id r, l.host.store.load id ≠ .ok r)
    (idle : l.taken = none) (new : l.log = []) : l.Sound n := by
  refine ⟨fun id r there => absurd there (none_ id r), fun id r there => absurd there (none_ id r),
    ?_, ?_, ?_⟩
  · rw [idle]
    exact fun _ taken => nomatch taken
  · rw [new]
    exact fun _ arrived => absurd arrived List.not_mem_nil
  · rw [new]
    intro post b pre split
    cases post <;> cases split

open Line in
/-- Jobs are started by the second they were accepted in and then by their ids, of those that
wait; and the place of a job is one more than the jobs started before it, while nothing
disturbs the queue up to it. -/
theorem served_in_order {n : Node} {start s : Line} {turns : List Passing}
    (empty : ∀ id r, start.host.store.load id ≠ .ok r) (idle : start.taken = none)
    (new : start.log = []) (run : Run (Line.step n) Later start turns s) :
    Arriving s.log ∧ Ordered s.log ∧ Told n s.host ∧
      ∀ j ∈ s.host.queued,
        s.host.positionOf j.id = UInt32.ofNat (ahead s.host j).length + 1 ∧
        (s.taken = none → ∀ more t, Run (Line.step n) (Undisturbed j) s more t →
          ∃ e, t.log = e ++ s.log ∧ (starts e <+: (ahead s.host j).map (·.id) ∨
            (ahead s.host j).map (·.id) ++ [j.id] <+: starts e)) := by
  have first : Sound n start ∧ Arriving start.log := by
    refine ⟨.empty empty idle new, ?_⟩
    rw [new]
    exact .nil
  obtain ⟨sound, arriving⟩ : Sound n s ∧ Arriving s.log :=
    run.invariant (I := fun l => Sound n l ∧ Arriving l.log) first fun l turn m good later step =>
      ⟨took_sound good.1 (took_of_step step), took_arriving later (took_of_step step) good.2⟩
  refine ⟨arriving, sound.ordered, told n s.host, fun j there => ⟨positionOf_queued sound.filed there, ?_⟩⟩
  intro free more t run
  have here : Reaching s (ahead s.host j) j s := by
    refine ⟨[], rfl, .inl ⟨there, [], ahead s.host j, rfl, rfl, ?_⟩⟩
    rw [free]
  obtain ⟨_, e, log, coming | passed⟩ : Sound n t ∧ Reaching s (ahead s.host j) j t :=
    run.invariant (I := fun l => Sound n l ∧ Reaching s (ahead s.host j) j l) ⟨sound, here⟩
      fun l turn m good guard step =>
      ⟨took_sound good.1 (took_of_step step),
        took_reaching good.1 guard (took_of_step step) good.2⟩
  · obtain ⟨_, done, rest, split, started, _⟩ := coming
    refine ⟨e, log, .inl ?_⟩
    rw [started, split, List.map_append]
    exact List.prefix_append _ _
  · exact ⟨e, log, .inr passed⟩

section Instances

def emptyLine : Line where
  host := { store := ⟨.empty, none⟩, journal := fun _ => [], flags := fun _ => none, submits := fun _ => [] }
  taken := none
  log := []

/-- A node on which two keys are hashed as their SHA-256 is at one second. -/
def tiedNode : Node := { plainNode with
  digest := fun bytes =>
    if bytes[8]? = some 99 then 0x3d82fee0f18c194458d073b1b07ae4099606eb10d8c1c66529b43b464805c4c9#256
    else 0x78217eeb2b8478fe219104096246ad4346a9948d1de5b1402a22af6f376ffb60#256 }

def askFor (key : JobKey) : Submission where
  sender := 0
  key := key
  sha := ⟨"0000000000000000000000000000000000000000", zeros_sha⟩
  gate := ⟨"gate", gate_accepted⟩
  params := .empty
  checkpoint := none
  hardware := none
  maxRunS := none
  note := none

/-- A submission at the one second, met by nothing else. -/
def atOnce (key : JobKey) : Passing :=
  .submit (askFor key) 0 (List.replicate 9 { calm with clock := 1700000000 })

instance (l : Line) (t : Passing) : Decidable (Line.Later l t) :=
  match t with
  | .submit _ _ os => inferInstanceAs
      (Decidable (∀ o ∈ os, ∀ r ∈ Line.arrivals l.log, r.createdAtS ≤ o.clock.toNat))
  | .start | .begin_ _ | .stop | .save _ | .cancel _ | .remove _ => isTrue trivial

def keyA : JobKey := ⟨"a", by decide⟩
def keyC : JobKey := ⟨"c", by decide⟩

theorem emptyLine_unfiled (id : JobId) (r : JobRecord) : emptyLine.host.store.load id ≠ .ok r := by
  intro there
  cases there

/-- A job of the key that is queued, and before any other that is stored. -/
def First (s : JobStore) (key : JobKey) : Prop :=
  ∃ c ∈ s.records, c.key = key ∧ c.state = .queued ∧ ∀ x ∈ s.records, x = c ∨ Precedes c x

instance (s : JobStore) (key : JobKey) : Decidable (First s key) :=
  inferInstanceAs (Decidable (∃ c ∈ s.records, _))

theorem head_of_first {h : Host} {key : JobKey} (filed : Filed h.store) (first : First h.store key) :
    ∃ b, h.queued.head? = some b ∧ b.key = key := by
  have mem (x : JobRecord) : x ∈ h.queued ↔ x ∈ h.store.records ∧ x.state = .queued := by
    rw [Host.queued, List.mem_mergeSort, List.mem_filter, JobStore.list, List.mem_mergeSort,
      decide_eq_true_eq]
  obtain ⟨b, there, named, queued, before⟩ := first
  exact ⟨b, queued_head filed ((mem b).mpr ⟨there, queued⟩) fun x hx => before x ((mem x).mp hx).1,
    named⟩

/-- Both are accepted; the second of them is the head of the queue. -/
theorem tied_accepted : ∃ s b, Run (Line.step tiedNode) Line.Later emptyLine
      [atOnce keyA, atOnce keyC] s ∧ s.taken.isNone = true ∧
    (Line.arrivals s.log).map (·.key) = [keyC, keyA] ∧ Line.starts s.log = [] ∧
      s.host.queued.head? = some b ∧ b.key = keyC := by
  have run : (replay (Line.step tiedNode) Line.Later emptyLine [atOnce keyA, atOnce keyC]).map
      (fun s => (s.taken.isNone, (Line.arrivals s.log).map (·.key), Line.starts s.log,
        decide (First s.host.store keyC))) = some (true, [keyC, keyA], [], true) := by
    decide +kernel
  obtain ⟨s, run, facts⟩ := Option.map_eq_some_iff.mp run
  have run := Run.of_replay run
  simp only [Prod.mk.injEq] at facts
  obtain ⟨idle, arrived, started, first⟩ := facts
  have sound : s.Sound tiedNode :=
    run.invariant (I := fun l => l.Sound tiedNode) (.empty emptyLine_unfiled rfl rfl)
      fun l turn m sound _ step => Line.took_sound sound (Line.took_of_step step)
  obtain ⟨b, head, key⟩ := head_of_first sound.filed (of_decide_eq_true first)
  exact ⟨s, b, run, idle, arrived, started, head, key⟩

theorem tied_in_order : ∃ s, Run (Line.step tiedNode) Line.Later emptyLine
      [atOnce keyA, atOnce keyC] s ∧ Line.Arriving s.log ∧ Line.Ordered s.log := by
  obtain ⟨s, b, run, _⟩ := tied_accepted
  have served := served_in_order emptyLine_unfiled rfl rfl run
  exact ⟨s, run, served.1, served.2.1⟩

/-- Of two jobs accepted in one second the later is told that it is second, and is started
first. -/
theorem tie_starts_by_hash :
    ((Line.step tiedNode emptyLine (atOnce keyA)).bind fun l =>
        (l.host.answered tiedNode (askFor keyC) 0
          (List.replicate 9 { calm with clock := 1700000000 })).bind fun a =>
            match a.2 with
            | .accepted _ existing _ position => some (existing, position)
            | _ => none) = some (false, 2) ∧
      ∃ s b, Run (Line.step tiedNode) Line.Later emptyLine [atOnce keyA, atOnce keyC, .start] s ∧
        b.key = keyC ∧ ∃ log, s.log = .started b :: log ∧
          (Line.arrivals log).map (·.key) = [keyC, keyA] ∧ Line.starts log = [] := by
  refine ⟨by decide +kernel, ?_⟩
  obtain ⟨s, b, run, idle, arrived, started, head, key⟩ := tied_accepted
  have step : s.step tiedNode .start =
      some { s with taken := some b, log := .started b :: s.log } := by
    simp only [Line.step, Option.isNone_iff_eq_none.mp idle, head, Option.map_some]
  exact ⟨_, b, Path.append run (.cons ⟨trivial, step⟩ (.nil _)), key, s.log, rfl, arrived, started⟩

end Instances

end Bench
end Metralectl
