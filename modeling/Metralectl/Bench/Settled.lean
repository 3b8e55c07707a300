import Metralectl.Bench.Creation
import Metralectl.Bench.Host

/-!
A job that is over stays over: what a cancel and the worker's first save write back was
read earlier, and nothing looks again before it is written.
-/
namespace Metralectl
namespace Bench
open Programs Runs JobStore Machine

section Creations
variable {s t : JobStore} {f : Faults} {pid : UInt32} {r : JobRecord} {stage : CreateStage}
variable {result : CreateStage ⊕ Except StoreError Unit}

/-- Of a creation only the save of the record is seen by who loads. -/
theorem load_createStep (h : s.createStep f pid r stage = (t, result)) :
    (∀ id, t.load id = s.load id) ∨
      stage = .save ∧ result = .inl .index ∧ ∀ id, t.load id = if id = r.id then .ok r else s.load id := by
  have same {u : JobStore} (dirs : u.dirs = s.dirs) (id : JobId) : u.load id = s.load id :=
    load_congr (by rw [dirs])
  cases stage with
  | look =>
      simp only [createStep] at h
      split at h <;>
      · cases h
        exact .inl fun _ => rfl
  | make =>
      simp only [createStep] at h
      split at h
      · cases h
        split
        · exact .inl fun id => load_makeDir r.id
        · exact .inl fun _ => rfl
      · cases h
        exact .inl fun id => load_makeDir r.id
  | save =>
      simp only [createStep] at h
      split at h
      · cases h
        exact .inl fun _ => rfl
      · split at h
        · cases h
          exact .inl fun _ => rfl
        · cases h
          exact .inr ⟨rfl, rfl, fun id => load_save⟩
  | index =>
      refine .inl (same ?_)
      simp only [createStep] at h
      split at h
      · cases h
        rfl
      · split at h
        · cases h
          rfl
        · split at h
          · cases h
            rfl
          · split at h
            · cases h
              cases f.left <;> rfl
            · cases h
              rfl
  | rename =>
      refine .inl (same ?_)
      simp only [createStep] at h
      split at h
      · cases h
        rfl
      · split at h
        · cases h
          rfl
        · cases h
          rfl

end Creations

section Writing
variable {sub : JobId × JobKey × NodeId × JobSpec × Option String × Nat}

/-- Nothing is left to ask. -/
def Spent : Proc Outcome → Prop
  | .ret _ | .stop _ => True
  | .ask _ _ => False

def Ask.saves : Ask → Bool
  | .save _ => true
  | _ => false

/-- It saves records of the one submission that are not queued, and after one that is over
it asks nothing more. -/
inductive Steady (sub : JobId × JobKey × NodeId × JobSpec × Option String × Nat) :
    Proc Outcome → Prop
  | ret {outcome : Outcome} : Steady sub (.ret outcome)
  | stop : Steady sub (.stop ())
  | other {q : Ask} {k : Answer q → Proc Outcome} :
      q.saves = false → (∀ a, Steady sub (k a)) → Steady sub (.ask q k)
  | record {job : JobRecord} {k : Bool → Proc Outcome} :
      job.submission = sub → job.state ≠ .queued → (job.state = .done → Spent (k true)) →
      (∀ a, Steady sub (k a)) → Steady sub (.ask (.save job) k)

/-- It only looks about, until it saves its first record. -/
inductive Fresh (sub : JobId × JobKey × NodeId × JobSpec × Option String × Nat) :
    Proc Outcome → Prop
  | look {q : Ask} {k : Answer q → Proc Outcome} : q.writes = false →
      (∀ a, World.spawns q a = false) → (∀ a, Fresh sub (k a)) → Fresh sub (.ask q k)
  | first {job : JobRecord} {k : Bool → Proc Outcome} : job.submission = sub →
      job.state = .preparing → Steady sub (k true) → k false = .stop () →
      Fresh sub (.ask (.save job) k)

theorem steady_finish {job : JobRecord} {outcome : Outcome} (same : job.submission = sub) :
    Steady sub (finish job outcome) := by
  refine .other rfl fun now => .other rfl ?_
  rintro (_ | _ | _)
  · refine .other rfl fun high => .other rfl fun now => .other rfl fun high => ?_
    refine .record same nofun (fun _ => trivial) ?_
    rintro (_ | _)
    · exact .stop
    · exact .ret
  · exact .stop
  · exact .stop

theorem steady_of_lives {p : Proc Outcome} (lives : Lives sub p) : Steady sub p := by
  induction lives with
  | @look q k silent _ ih =>
      refine .other ?_ ih
      cases q with
      | save _ => cases silent
      | _ => rfl
  | event _ _ stops ih =>
      refine .other rfl fun a => ?_
      by_cases ok : a = .ok
      · rw [ok]
        exact ih
      · rw [stops a ok]
        exact .stop
  | report _ _ ih => exact .other rfl ih
  | record same begun unfinished _ stops ih =>
      refine .record same begun (fun over_ => absurd over_ unfinished) ?_
      rintro (_ | _)
      · rw [stops]
        exact .stop
      · exact ih
  | over_ same => exact steady_finish same

theorem fresh_run (ctx : Ctx) (job : JobRecord) : Fresh job.submission (run ctx job) :=
  .look rfl (fun _ => rfl) fun _ => .look rfl (fun _ => rfl) fun _ =>
    .first rfl rfl (steady_of_lives (lives_preparing ctx rfl)) rfl

end Writing

section Condition
variable (n : Node)

/-- What is written back is written where it was read from: a new record where there is none,
a cancellation over a record that is still queued (or was cancelled so by another call), the
worker's first record over a queued one, and no event after the end. -/
def Timely (w : World) : Move → Prop
  | .resume i o =>
      match w.calls[i]? with
      | some (.creating _ job _ .save) => ∀ r, w.host.store.load job.id ≠ .ok r
      | some (.queueing _ job _) => ∀ r, w.host.store.load job.id = .ok r → r.state ≠ .done
      | some (.ending id _) => ∀ r, w.host.store.load id = .ok r → r.state ≠ .done
      | some (.recording id job) => o.fails = false ∧ ∃ r, w.host.store.load id = .ok r ∧
          (r.state = .queued ∨ r.state = .done ∧ r.outcome = job.outcome ∧ id ∉ w.spawned)
      | _ => True
  | .work _ =>
      match w.worker with
      | .executing _ (.ask (.save job) _) => job.state = .preparing →
          ∃ r, w.host.store.load job.id = .ok r ∧ r.state = .queued
      | _ => True
  | _ => True

/-- In between: neither queued nor over. -/
def Begun (h : Host) (id : JobId) : Prop :=
  ∃ r, h.store.load id = .ok r ∧ r.state ≠ .queued ∧ r.state ≠ .done

def CallGood (w : World) : Call → Prop
  | .ending id job | .recording id job =>
      job.id = id ∧ job.state = .done ∧ job.outcome = some (.cancelled n.node)
  | .ended id => (∃ r, w.host.store.load id = .ok r ∧ r.state = .done) ∧ id ∉ w.spawned
  | _ => True

def WorkerGood (h : Host) : Worker → Prop
  | .idle | .picked _ => True
  | .executing id p => ∃ sub, sub.1 = id ∧
      (Fresh sub p ∨ Steady sub p ∧ (Spent p ∨ Begun h id))

structure Good (w : World) : Prop where
  filed : ∀ id r, w.host.store.load id = .ok r → r.id = id
  spawned : ∀ id ∈ w.spawned, ∃ r, w.host.store.load id = .ok r ∧ r.state ≠ .queued
  worker : WorkerGood w.host w.worker
  calls : ∀ c ∈ w.calls, CallGood n w c

/-- A job that is over is so in the later world, with its outcome, its journal, and no child
spawned since. -/
def Stays (w v : World) : Prop :=
  ∀ id r, w.host.store.load id = .ok r → r.state = .done →
    ∃ r', v.host.store.load id = .ok r' ∧ r'.state = .done ∧ r'.outcome = r.outcome ∧
      v.host.journal id = w.host.journal id ∧ (id ∈ v.spawned → id ∈ w.spawned)

end Condition

section Steps
variable {n : Node} {w v u : World}

theorem Stays.refl (w : World) : Stays w w :=
  fun _ r there over_ => ⟨r, there, over_, rfl, rfl, id⟩

theorem Stays.trans (first : Stays w v) (second : Stays v u) : Stays w u := by
  intro id r there over_
  obtain ⟨r₁, there₁, over₁, outcome₁, journal₁, spawned₁⟩ := first id r there over_
  obtain ⟨r₂, there₂, over₂, outcome₂, journal₂, spawned₂⟩ := second id r₁ there₁ over₁
  exact ⟨r₂, there₂, over₂, outcome₂.trans outcome₁, journal₂.trans journal₁,
    fun spawned => spawned₁ (spawned₂ spawned)⟩

theorem CallGood.kept {c : Call} (h : CallGood n w c) (stays : Stays w v) : CallGood n v c := by
  cases c with
  | ended id =>
      obtain ⟨⟨r, there, over_⟩, unspawned⟩ := h
      obtain ⟨r', there', over', _, _, spawned⟩ := stays id r there over_
      exact ⟨⟨r', there', over'⟩, fun h => unspawned (spawned h)⟩
  | ending _ _ => exact h
  | recording _ _ => exact h
  | _ => trivial

/-- Nothing is written. -/
theorem stays_of_same (load : ∀ id, v.host.store.load id = w.host.store.load id)
    (journal : v.host.journal = w.host.journal) (spawned : v.spawned = w.spawned) :
    Stays w v := by
  intro id r there over_
  exact ⟨r, (load id).trans there, over_, rfl, by rw [journal], by rw [spawned]; exact fun h => h⟩

/-- An event is journaled of a job that is not over. -/
theorem stays_of_append {id : JobId} {kind : EventKind}
    (load : ∀ id, v.host.store.load id = w.host.store.load id)
    (journal : v.host.journal = (w.host.append id kind).journal) (spawned : v.spawned = w.spawned)
    (open_ : ∀ r, w.host.store.load id = .ok r → r.state ≠ .done) : Stays w v := by
  intro id' r there over_
  have other : id' ≠ id := by
    rintro rfl
    exact open_ r there over_
  refine ⟨r, (load id').trans there, over_, rfl, ?_, by rw [spawned]; exact fun h => h⟩
  rw [journal]
  exact if_neg other

/-- A record is saved over one that is not over, or has its outcome. -/
theorem stays_of_save {job : JobRecord}
    (load : ∀ id, v.host.store.load id = if id = job.id then .ok job else w.host.store.load id)
    (journal : v.host.journal = w.host.journal) (spawned : v.spawned = w.spawned)
    (same : ∀ r, w.host.store.load job.id = .ok r → r.state = .done →
      job.state = .done ∧ job.outcome = r.outcome) : Stays w v := by
  intro id r there over_
  have kept : id ∈ v.spawned → id ∈ w.spawned := by
    rw [spawned]
    exact fun h => h
  by_cases it : id = job.id
  · subst it
    obtain ⟨over', outcome⟩ := same r there over_
    exact ⟨job, (load _).trans (if_pos rfl), over', outcome, by rw [journal], kept⟩
  · exact ⟨r, (load id).trans ((if_neg it).trans there), over_, rfl, by rw [journal], kept⟩

theorem Begun.kept {h t : Host} {id : JobId} (begun : Begun h id)
    (load : t.store.load id = h.store.load id) : Begun t id := by
  obtain ⟨r, there, state⟩ := begun
  exact ⟨r, load.trans there, state⟩

theorem WorkerGood.kept {h t : Host} {worker : Worker} (good : WorkerGood h worker)
    (begun : ∀ id, Begun h id → Begun t id) : WorkerGood t worker := by
  cases worker with
  | executing id p =>
      obtain ⟨sub, job, fresh | ⟨steady, spent | there⟩⟩ := good
      · exact ⟨sub, job, .inl fresh⟩
      · exact ⟨sub, job, .inr ⟨steady, .inl spent⟩⟩
      · exact ⟨sub, job, .inr ⟨steady, .inr (begun id there)⟩⟩
  | _ => trivial

/-- After a save at a job that had not begun, those that had still have. -/
theorem begun_of_save {job : JobRecord} {h t : Host}
    (load : ∀ id, t.store.load id = if id = job.id then .ok job else h.store.load id)
    (idle : ¬Begun h job.id) (id : JobId) (begun : Begun h id) : Begun t id := by
  refine begun.kept ((load id).trans (if_neg ?_))
  rintro rfl
  exact idle begun

/-- Nothing is saved; what is new among the calls is good. -/
theorem Good.unsaved (good : Good n w) (stays : Stays w v)
    (load : ∀ id, v.host.store.load id = w.host.store.load id) (spawned : v.spawned = w.spawned)
    (worker : v.worker = w.worker) (calls : ∀ c ∈ v.calls, c ∈ w.calls ∨ CallGood n v c) :
    Good n v ∧ Stays w v where
  left :=
    { filed := fun id r there => good.filed id r ((load id).symm.trans there)
      spawned := by
        intro id hid
        rw [spawned] at hid
        obtain ⟨r, there, state⟩ := good.spawned id hid
        exact ⟨r, (load id).trans there, state⟩
      worker := by
        rw [worker]
        exact good.worker.kept fun id begun => begun.kept (load id)
      calls := fun c hc => (calls c hc).elim (fun old => (good.calls c old).kept stays) fun h => h }
  right := stays

/-- A record is saved. -/
theorem Good.saved {job : JobRecord} (good : Good n w) (stays : Stays w v)
    (load : ∀ id, v.host.store.load id = if id = job.id then .ok job else w.host.store.load id)
    (spawned : v.spawned = w.spawned) (unspawned : job.state = .queued → job.id ∉ w.spawned)
    (worker : WorkerGood v.host v.worker)
    (calls : ∀ c ∈ v.calls, c ∈ w.calls ∨ CallGood n v c) : Good n v ∧ Stays w v where
  left :=
    { filed := by
        intro id r there
        rw [load] at there
        split at there
        · next it =>
            cases there
            exact it.symm
        · exact good.filed id r there
      spawned := by
        intro id hid
        rw [spawned] at hid
        by_cases it : id = job.id
        · subst it
          exact ⟨job, (load _).trans (if_pos rfl), fun queued => unspawned queued hid⟩
        · obtain ⟨r, there, state⟩ := good.spawned id hid
          exact ⟨r, (load id).trans ((if_neg it).trans there), state⟩
      worker := worker
      calls := fun c hc => (calls c hc).elim (fun old => (good.calls c old).kept stays) fun h => h }
  right := stays

theorem mem_set_or {c d : Call} {i : Nat} (good : CallGood n v d) (h : c ∈ w.calls.set i d) :
    c ∈ w.calls ∨ CallGood n v c := by
  cases List.mem_or_eq_of_mem_set h with
  | inl old => exact .inl old
  | inr new => exact .inr (new ▸ good)

theorem mem_append_or {c d : Call} (good : CallGood n v d) (h : c ∈ w.calls ++ [d]) :
    c ∈ w.calls ∨ CallGood n v c := by
  cases List.mem_append.mp h with
  | inl old => exact .inl old
  | inr new => exact .inr (List.mem_singleton.mp new ▸ good)

theorem resume_good {i : Nat} {o : Outside} {c d : Call} {t : Host} (good : Good n w)
    (there : w.calls[i]? = some c) (timely : Timely w (.resume i o))
    (goes : Goes n w.host o c t d) :
    Good n { w with host := t, calls := w.calls.set i d } ∧
      Stays w { w with host := t, calls := w.calls.set i d } := by
  have mine : CallGood n w c := good.calls c (List.mem_of_getElem? there)
  have quiet {d : Call} {t : Host} (load : ∀ id, t.store.load id = w.host.store.load id)
      (journal : t.journal = w.host.journal)
      (new : CallGood n { w with host := t, calls := w.calls.set i d } d) :
      Good n { w with host := t, calls := w.calls.set i d } ∧
        Stays w { w with host := t, calls := w.calls.set i d } :=
    good.unsaved (stays_of_same load journal rfl) load rfl rfl fun _ hc => mem_set_or new hc
  have appends {d : Call} {id : JobId} {kind : EventKind}
      (open_ : ∀ r, w.host.store.load id = .ok r → r.state ≠ .done)
      (new : CallGood n { w with host := w.host.append id kind, calls := w.calls.set i d } d) :
      Good n { w with host := w.host.append id kind, calls := w.calls.set i d } ∧
        Stays w { w with host := w.host.append id kind, calls := w.calls.set i d } :=
    good.unsaved (stays_of_append (fun _ => rfl) rfl rfl open_) (fun _ => rfl) rfl rfl
      fun _ hc => mem_set_or new hc
  simp only [Timely, there] at timely
  cases goes with
  | unreadable => exact quiet (fun _ => rfl) rfl trivial
  | found _ _ => exact quiet (fun _ => rfl) rfl trivial
  | conflict _ _ => exact quiet (fun _ => rfl) rfl trivial
  | unknown _ => exact quiet (fun _ => rfl) rfl trivial
  | placed => exact quiet (fun _ => rfl) rfl trivial
  | full => exact quiet (fun _ => rfl) rfl trivial
  | counted _ => exact quiet (fun _ => rfl) rfl trivial
  | low => exact quiet (fun _ => rfl) rfl trivial
  | minted => exact quiet (fun _ => rfl) rfl trivial
  | unopened => exact quiet (fun _ => rfl) rfl mine
  | signalled =>
      split
      · exact quiet (fun _ => rfl) rfl trivial
      · exact quiet (fun _ => rfl) rfl trivial
  | @created a job depth stage s result made =>
      cases load_createStep made with
      | inl same =>
          refine quiet same rfl ?_
          split <;> trivial
      | inr saves =>
          obtain ⟨rfl, rfl, load⟩ := saves
          have absent : ∀ r, w.host.store.load job.id ≠ .ok r := timely
          refine good.saved (stays_of_save load rfl rfl ?_) load rfl ?_ ?_ ?_
          · exact fun r there => absurd there (absent r)
          · intro _ spawned
            obtain ⟨r, there, _⟩ := good.spawned _ spawned
            exact absent r there
          · refine good.worker.kept (begun_of_save load ?_)
            rintro ⟨r, there, _⟩
            exact absent r there
          · exact fun _ hc => mem_set_or (show CallGood n _ (.creating a job depth .index) from trivial) hc
  | queued =>
      split
      · exact quiet (fun _ => rfl) rfl trivial
      · exact appends timely trivial
  | ended =>
      split
      · exact quiet (fun _ => rfl) rfl mine
      · exact appends timely mine
  | @recorded id job =>
      obtain ⟨works, r, before, state⟩ := timely
      obtain ⟨rfl, over_, outcome⟩ := mine
      rw [works]
      have load : ∀ id', (w.host.store.save job).load id' =
          if id' = job.id then .ok job else w.host.store.load id' := fun _ => load_save
      have unspawned : job.id ∉ w.spawned := by
        cases state with
        | inl queued =>
            intro spawned
            obtain ⟨r', there', state'⟩ := good.spawned _ spawned
            rw [before] at there'
            cases there'
            exact state' queued
        | inr cancelled => exact cancelled.2.2
      refine good.saved (stays_of_save load rfl rfl ?_) load rfl (fun _ => unspawned) ?_ ?_
      · intro r' there' over'
        rw [before] at there'
        cases there'
        refine ⟨over_, ?_⟩
        cases state with
        | inl queued => rw [queued] at over'; cases over'
        | inr cancelled => exact cancelled.2.1.symm
      · refine good.worker.kept (begun_of_save load ?_)
        rintro ⟨r', there', queued', over'⟩
        rw [before] at there'
        cases there'
        exact state.elim queued' fun cancelled => over' cancelled.1
      · refine fun _ hc => mem_set_or ?_ hc
        exact ⟨⟨job, (load _).trans (if_pos rfl), over_⟩, unspawned⟩

theorem host_after_silent {h : Host} {id : JobId} {q : Ask} (silent : q.writes = false)
    (a : Answer q) : h.after id q a = h := by
  cases q with
  | append _ _ => cases silent
  | save _ => cases silent
  | _ => rfl

/-- A child is spawned only of a job that has begun. -/
theorem Good.looked {id : JobId} {q : Ask} {k : Answer q → Proc Outcome} (good : Good n w)
    (silent : q.writes = false) (a : Answer q) (spawns : World.spawns q a = true → Begun w.host id)
    (worker : WorkerGood w.host (.executing id (k a))) :
    let v : World := { w with
      host := w.host.after id q a, worker := .executing id (k a)
      spawned := if World.spawns q a then id :: w.spawned else w.spawned }
    Good n v ∧ Stays w v := by
  intro v
  have host : v.host = w.host := host_after_silent silent a
  have load (id : JobId) : v.host.store.load id = w.host.store.load id := by rw [host]
  have spawned {id' : JobId} (h : id' ∈ v.spawned) : id' ∈ w.spawned ∨ Begun w.host id' := by
    by_cases spawn : World.spawns q a
    · rw [show v.spawned = id :: w.spawned from if_pos spawn] at h
      cases List.mem_cons.mp h with
      | inl it => exact .inr (it ▸ spawns spawn)
      | inr old => exact .inl old
    · rw [show v.spawned = w.spawned from if_neg spawn] at h
      exact .inl h
  have stays : Stays w v := by
    intro id' r there over_
    refine ⟨r, (load id').trans there, over_, rfl, by rw [host], fun h => (spawned h).resolve_right ?_⟩
    rintro ⟨r', there', _, open_⟩
    rw [there] at there'
    cases there'
    exact open_ over_
  refine ⟨⟨fun id' r there => good.filed id' r ((load id').symm.trans there), ?_, ?_, ?_⟩, stays⟩
  · intro id' h
    cases spawned h with
    | inl old =>
        obtain ⟨r, there, state⟩ := good.spawned id' old
        exact ⟨r, (load id').trans there, state⟩
    | inr begun =>
        obtain ⟨r, there, state, _⟩ := begun
        exact ⟨r, (load id').trans there, state⟩
  · rw [host]
    exact worker
  · exact fun c hc => (good.calls c hc).kept stays

/-- The job goes on by itself. -/
theorem Good.worked {id : JobId} {p : Proc Outcome} {h : Host} (good : Good n w)
    (load : ∀ id, h.store.load id = w.host.store.load id) (stays : Stays w { w with host := h })
    (worker : WorkerGood w.host (.executing id p)) :
    Good n { w with host := h, worker := .executing id p } ∧
      Stays w { w with host := h, worker := .executing id p } where
  left :=
    { filed := fun id r there => good.filed id r ((load id).symm.trans there)
      spawned := by
        intro id hid
        obtain ⟨r, there, state⟩ := good.spawned id hid
        exact ⟨r, (load id).trans there, state⟩
      worker := WorkerGood.kept worker fun id begun => begun.kept (load id)
      calls := fun c hc => (good.calls c hc).kept stays }
  right := stays

theorem work_good {id : JobId} {q : Ask} {k : Answer q → Proc Outcome} (good : Good n w)
    (busy : w.worker = .executing id (.ask q k)) (oracle : (q : Ask) → Answer q)
    (timely : Timely w (.work oracle)) (a : Answer q) :
    let v : World := { w with
      host := w.host.after id q a, worker := .executing id (k a)
      spawned := if World.spawns q a then id :: w.spawned else w.spawned }
    Good n v ∧ Stays w v := by
  have worker := good.worker
  simp only [Timely, busy] at timely
  rw [busy] at worker
  obtain ⟨sub, rfl, fresh | ⟨steady, begun⟩⟩ := worker
  · cases fresh with
    | look silent unspawning rest =>
        refine good.looked silent a (fun spawn => ?_) ⟨sub, rfl, .inl (rest a)⟩
        rw [unspawning a] at spawn
        cases spawn
    | @first job k same state steady stops =>
        obtain ⟨r, before, queued⟩ := timely state
        have mine : job.id = sub.1 := congrArg Prod.fst same
        cases a with
        | false =>
            refine good.worked (fun _ => rfl) (Stays.refl w) ⟨sub, rfl, .inr ⟨?_, ?_⟩⟩
            · rw [stops]
              exact .stop
            · rw [stops]
              exact .inl trivial
        | true =>
            have load : ∀ id', (w.host.store.save job).load id' =
                if id' = job.id then .ok job else w.host.store.load id' := fun _ => load_save
            refine good.saved (stays_of_save load rfl rfl ?_) load rfl ?_ ?_ fun _ hc => .inl hc
            · intro r' there' over_
              rw [before] at there'
              cases there'
              rw [queued] at over_
              cases over_
            · intro still
              rw [state] at still
              cases still
            · refine ⟨sub, rfl, .inr ⟨steady, .inr ⟨job, (load _).trans (if_pos mine.symm), ?_, ?_⟩⟩⟩
              · rw [state]
                exact nofun
              · rw [state]
                exact nofun
  · have here : Begun w.host sub.1 := begun.resolve_left fun spent => spent
    have open_ : ∀ r, w.host.store.load sub.1 = .ok r → r.state ≠ .done := by
      obtain ⟨r', there', _, open_⟩ := here
      intro r there
      rw [there'] at there
      cases there
      exact open_
    cases steady with
    | other loads rest =>
        have worker : WorkerGood w.host (.executing sub.1 (k a)) :=
          ⟨sub, rfl, .inr ⟨rest a, .inr here⟩⟩
        cases q with
        | append kind atMs =>
            have appends : Stays w { w with host := w.host.append sub.1 kind } :=
              stays_of_append (fun _ => rfl) rfl rfl open_
            cases a with
            | ok => exact good.worked (fun _ => rfl) appends worker
            | unsynced => exact good.worked (fun _ => rfl) appends worker
            | failed => exact good.worked (fun _ => rfl) (Stays.refl w) worker
        | save job => cases loads
        | _ => exact good.looked rfl a (fun _ => here) worker
    | @record job k same started last rest =>
        have mine : job.id = sub.1 := congrArg Prod.fst same
        cases a with
        | false =>
            exact good.worked (fun _ => rfl) (Stays.refl w) ⟨sub, rfl, .inr ⟨rest _, .inr here⟩⟩
        | true =>
            have load : ∀ id', (w.host.store.save job).load id' =
                if id' = job.id then .ok job else w.host.store.load id' := fun _ => load_save
            refine good.saved (stays_of_save load rfl rfl ?_) load rfl ?_ ?_ fun _ hc => .inl hc
            · rw [mine]
              exact fun r there over_ => absurd over_ (open_ r there)
            · exact fun still => absurd still started
            · refine ⟨sub, rfl, .inr ⟨rest _, ?_⟩⟩
              by_cases over_ : job.state = .done
              · exact .inl (last over_)
              · exact .inr ⟨job, (load _).trans (if_pos mine.symm), started, over_⟩

theorem step_good {m : Move} (good : Good n w) (timely : Timely w m) (h : w.step n m = some v) :
    Good n v ∧ Stays w v := by
  have enters {t : Host} {c : Call} (load : ∀ id, t.store.load id = w.host.store.load id)
      (journal : t.journal = w.host.journal)
      (new : CallGood n { w with host := t, calls := w.calls ++ [c] } c) :
      Good n { w with host := t, calls := w.calls ++ [c] } ∧
        Stays w { w with host := t, calls := w.calls ++ [c] } :=
    good.unsaved (stays_of_same load journal rfl) load rfl rfl fun _ hc => mem_append_or new hc
  have turns {t : Host} {worker : Worker} (store : t.store = w.host.store)
      (journal : t.journal = w.host.journal) (new : WorkerGood t worker) :
      Good n { w with host := t, worker := worker } ∧
        Stays w { w with host := t, worker := worker } := by
    have load (id : JobId) : t.store.load id = w.host.store.load id := by rw [store]
    have stays : Stays w { w with host := t, worker := worker } := stays_of_same load journal rfl
    refine ⟨⟨fun id r there => good.filed id r ((load id).symm.trans there), ?_, new,
      fun c hc => (good.calls c hc).kept stays⟩, stays⟩
    intro id hid
    obtain ⟨r, there, state⟩ := good.spawned id hid
    exact ⟨r, (load id).trans there, state⟩
  cases m with
  | submit sub now =>
      obtain ⟨submits, c, entered, shape⟩ := submit_shape n w.host sub now
      simp only [World.step, entered] at h
      cases h
      refine enters (fun _ => rfl) rfl ?_
      cases shape with
      | inl looking => rw [looking]; trivial
      | inr refused =>
          obtain ⟨refusal, refused, _⟩ := refused
          rw [refused]
          trivial
  | cancel id clock =>
      cases h
      refine enters (fun _ => rfl) rfl ?_
      unfold Host.cancel
      split
      · trivial
      · next r there =>
          split
          · trivial
          · split
            · exact ⟨good.filed id r there, rfl, rfl⟩
            · trivial
  | status id =>
      cases h
      exact enters (fun _ => rfl) rfl trivial
  | resume i o =>
      simp only [World.step] at h
      split at h
      · next c there =>
          obtain ⟨⟨t, d⟩, goes, rfl⟩ := Option.map_eq_some_iff.mp h
          exact resume_good good there timely (goes_of_advance goes)
      · cases h
  | pick =>
      simp only [World.step] at h
      split at h
      · obtain ⟨job, _, rfl⟩ := Option.map_eq_some_iff.mp h
        exact turns rfl rfl trivial
      · cases h
  | probe busy opened =>
      simp only [World.step] at h
      split at h
      · next job _ =>
          split at h
          · cases h
            exact turns rfl rfl trivial
          · split at h
            · cases h
              exact turns rfl rfl ⟨job.submission, rfl, .inl (fresh_run n.toCtx job)⟩
            · cases h
              exact turns rfl rfl trivial
      · cases h
  | work oracle =>
      simp only [World.step] at h
      split at h
      · next id q k busy =>
          cases h
          exact work_good good busy oracle timely _
      · cases h
  | rest =>
      simp only [World.step] at h
      split at h
      · cases h
        exact turns rfl rfl trivial
      · cases h
        exact turns rfl rfl trivial
      · cases h

end Steps

/-- Over runs that write back what they read in time, a job that is over stays as it is, and
one that was cancelled as queued never had a child. -/
theorem done_stays_done {n : Node} {start s t : World} {moves more : List Move}
    (idle : start.worker = .idle) (uncalled : start.calls = []) (unspawned : start.spawned = [])
    (filed : ∀ id r, start.host.store.load id = .ok r → r.id = id)
    (run : Run (World.step n) Timely start moves s) (rest : Run (World.step n) Timely s more t) :
    Stays s t ∧ ∀ id, .ended id ∈ t.calls → id ∉ t.spawned := by
  have first : Good n start :=
    { filed := filed
      spawned := by
        rw [unspawned]
        exact fun _ h => absurd h List.not_mem_nil
      worker := by
        rw [idle]
        trivial
      calls := by
        rw [uncalled]
        exact fun _ h => absurd h List.not_mem_nil }
  have before : Good n s :=
    run.invariant first fun _ _ _ good timely h => (step_good good timely h).1
  have keep (w : World) (m : Move) (v : World) (h : Good n w ∧ Stays s w) (timely : Timely w m)
      (step : w.step n m = some v) : Good n v ∧ Stays s v := by
    have after := step_good h.1 timely step
    exact ⟨after.1, h.2.trans after.2⟩
  have after : Good n t ∧ Stays s t := rest.invariant ⟨before, Stays.refl s⟩ keep
  exact ⟨after.2, fun id ended => (after.1.calls _ ended).2⟩

section Instances

def plainNode : Node where
  toCtx := plainCtx
  queueDepth := 2
  maxRunS := 60
  minFreeDiskBytes := 0
  quoting := ⟨id, fun _ => ""⟩
  digest := fun _ => 0

def calm : Outside := ⟨1, none, .none, false, true, ""⟩

/-- A host with the one job, queued. -/
def queuedWorld : World where
  host := {
    store := ((JobStore.mk .empty none).save (queuedUnder ⟨"k", k_accepted⟩))
    journal := fun _ => [.queued 1]
    flags := fun _ => none
    submits := fun _ => [] }
  worker := .idle
  calls := []
  spawned := []

def queuedId : JobId := (queuedUnder ⟨"k", k_accepted⟩).id

def World.stateOf (w : World) (id : JobId) : Option JobState :=
  (w.host.store.load id).toOption.map (·.state)

theorem stateOf_eq {w : World} {id : JobId} {state : JobState} (h : w.stateOf id = some state) :
    ∃ r, w.host.store.load id = .ok r ∧ r.state = state := by
  obtain ⟨r, there, state⟩ := Option.map_eq_some_iff.mp h
  refine ⟨r, ?_, state⟩
  cases loaded : w.host.store.load id with
  | ok r' => rw [loaded] at there; exact congrArg _ (Option.some.inj there)
  | error e => rw [loaded] at there; cases there

/-- A queued job is cancelled while the worker is idle. -/
def cancelling : List Move := [.cancel queuedId 1, .resume 0 calm, .resume 0 calm]

theorem cancelled_stays : ∃ s, Run (World.step plainNode) Timely queuedWorld cancelling s ∧
    Call.ended queuedId ∈ s.calls ∧ queuedId ∉ s.spawned := by
  have run : ∃ s, Run (World.step plainNode) Timely queuedWorld cancelling s ∧
      Call.ended queuedId ∈ s.calls := by
    refine ⟨_, .cons ⟨trivial, rfl⟩ (.cons ⟨?_, rfl⟩ (.cons ⟨?_, rfl⟩ (.nil _))), .head _⟩
    · intro r there
      cases there
      intro ended
      cases ended
    · exact ⟨rfl, _, rfl, .inl rfl⟩
  obtain ⟨s, run, ended⟩ := run
  have filed : ∀ id r, queuedWorld.host.store.load id = .ok r → r.id = id := by
    intro id r there
    have load := @JobStore.load_save ⟨.empty, none⟩ (queuedUnder ⟨"k", k_accepted⟩) id
    rw [show queuedWorld.host.store.load id = _ from load] at there
    split at there
    · next it => cases there; exact it.symm
    · cases there
  exact ⟨s, run, ended, (done_stays_done rfl rfl rfl filed run (.nil s)).2 _ ended⟩

/-- The worker picked the job up before it was cancelled; what it saves is not over. -/
def reopening : List Move := [.probe false true, .work unreadable, .work unreadable, .work unreadable]

theorem stale_pick_reopens : ∃ s t,
    Run (World.step plainNode) Free queuedWorld (.pick :: cancelling) s ∧
      Run (World.step plainNode) Free s reopening t ∧ ¬Stays s t := by
  have runs : (replay (World.step plainNode) Free queuedWorld (.pick :: cancelling)).bind
      (fun s => (replay (World.step plainNode) Free s reopening).map fun t =>
        (s.stateOf queuedId, t.stateOf queuedId)) = some (some .done, some .preparing) := by
    decide +kernel
  obtain ⟨s, before, rest⟩ := Option.bind_eq_some_iff.mp runs
  obtain ⟨t, after, states⟩ := Option.map_eq_some_iff.mp rest
  refine ⟨s, t, Run.of_replay before, Run.of_replay after, fun stays => ?_⟩
  obtain ⟨r, there, over_⟩ := stateOf_eq (congrArg Prod.fst states)
  obtain ⟨r', there', begun⟩ := stateOf_eq (congrArg Prod.snd states)
  obtain ⟨r'', there'', over', _⟩ := stays queuedId r there over_
  rw [there'] at there''
  cases there''
  rw [begun] at over'
  cases over'

end Instances

end Bench
end Metralectl
