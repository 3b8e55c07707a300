import Metralectl.Bench.House

/-!
The children of a host's jobs. A job's procedure is over when its child is, as long as it can
write down that there is one: between the spawn and the wait nothing may fail, and the agent
may not die before the record names the child.
-/
namespace Metralectl
namespace Bench
namespace Children
open SortedMaps Programs Runs Machine

/-- One child at most is alive, and it is not of a job recorded as over. -/
def OneChild (h : House) : Prop :=
  h.live.length ≤ 1 ∧ ∀ p ∈ h.live, ∀ r, h.store.load p.1 = .ok r → r.state ≠ .done

/-- None of a job's children is alive. -/
def Gone (id : JobId) (h : House) : Prop := ∀ p ∈ h.live, p.1 ≠ id

/-- The job's record says that it runs, and that this is its child. -/
def Recorded (h : House) (p : JobId × ChildHandle) : Prop :=
  match h.store.load p.1 with
  | .ok r => r.state = .running ∧ r.child = some p.2
  | .error _ => False

/-- While its child is alive nothing of a job fails; its child is known to be alive, and is
waited for to its end. -/
def Careful (id : JobId) (h : House) : (q : Ask) → Answer q → Prop
  | .save _, false | .append _ _, .unsynced | .append _ _, .failed | .worktree _, .error _ => Gone id h
  | .sameProcess pid startTicks, false => (id, ⟨pid, startTicks⟩) ∉ h.live
  | .wait child _, _ => (id, child) ∉ h.live
  | _, _ => True

def Heeded (oracle : (q : Ask) → Answer q) (h : House) : Doing → Prop
  | .working id (.ask q _) _ => Careful id h q (oracle q)
  | _ => True

/-- The agent dies only when each child alive is recorded, gives up what it found at its start only
when none is, and records a job as cancelled only while that is queued. -/
def Attended (h : House) : House.Move → Prop
  | .crash => ∀ p ∈ h.live, Recorded h p
  | .abandon => h.live = []
  | .endCancel i true => ∀ job ∈ h.cancels[i]?, (h.store.load job.id).toOption.map JobRecord.state = some .queued
  | .answer oracle => Heeded oracle h h.doing
  | _ => True

/-- Its record is past the queue and not at its end. -/
def Open (id : JobId) (h : House) : Prop :=
  ∃ r, h.store.load id = .ok r ∧ r.state ≠ .queued ∧ r.state ≠ .done

/-- What others do while the worker is at a job. -/
inductive Others (h : House) : House → Prop
  | around {t : House} : t.store = h.store → t.live = h.live → Others h t
  | die (i : Nat) : Others h { h with live := h.live.eraseIdx i }
  | submitted {job : JobRecord} :
      (∀ r, h.store.load job.id ≠ .ok r) → job.state = .queued →
      Others h { h with store := h.store.save job }
  | cancelled {job r : JobRecord} :
      h.store.load job.id = .ok r → r.state = .queued → Others h { h with store := h.store.save job }

/-- Where the questions of a job's procedure may be asked. -/
def Fine (id : JobId) (h : House) : Ask → Prop
  | .save job => job.id = id ∧ job.state ≠ .queued ∧ (job.state = .done → Gone id h)
  | .spawn _ => h.live = [] ∧ Open id h
  | _ => True

section Steps
variable {h t : House} {id : JobId} {child : ChildHandle} {job : JobRecord}

/-- Before the job's child: no child of any job. -/
def Vacant (id : JobId) (h : House) : Prop := h.live = [] ∧ Open id h

/-- The job has no other child than this. -/
def Manned (id : JobId) (child : ChildHandle) (h : House) : Prop :=
  ∀ p ∈ h.live, p.1 = id → p.2 = child

theorem others_live (step : Others h t) {p : JobId × ChildHandle} (here : p ∈ t.live) : p ∈ h.live := by
  cases step with
  | around _ live => exact live ▸ here
  | die i => exact List.mem_of_mem_eraseIdx here
  | submitted _ _ | cancelled _ _ => exact here

theorem gone_stable : Stable Others (Gone id) := fun _ _ gone step p here => gone p (others_live step here)

theorem empty_stable : Stable Others fun h => h.live = [] := by
  intro h t none_ step
  refine List.eq_nil_iff_forall_not_mem.mpr fun p here => ?_
  have here := others_live step here
  rw [none_] at here
  cases here

theorem manned_stable : Stable Others (Manned id child) :=
  fun _ _ manned step p here => manned p (others_live step here)

theorem open_of_save (mine : job.id = id) (past : job.state ≠ .queued) (unfinished : job.state ≠ .done) :
    Open id { h with store := h.store.save job } :=
  ⟨job, JobStore.load_save.trans (if_pos mine.symm), past, unfinished⟩

theorem open_stable : Stable Others (Open id) := by
  rintro h t ⟨r, there, past, unfinished⟩ step
  cases step with
  | around store _ => exact ⟨r, store ▸ there, past, unfinished⟩
  | die i => exact ⟨r, there, past, unfinished⟩
  | @submitted job new _ =>
      have other : id ≠ job.id := fun same => new r (same ▸ there)
      exact ⟨r, JobStore.load_save.trans ((if_neg other).trans there), past, unfinished⟩
  | @cancelled job r' there' queued =>
      have other : id ≠ job.id := by
        rintro rfl
        rw [there] at there'
        cases there'
        exact past queued
      exact ⟨r, JobStore.load_save.trans ((if_neg other).trans there), past, unfinished⟩

theorem vacant_stable : Stable Others (Vacant id) := empty_stable.and open_stable

theorem gone_of_empty (none_ : h.live = []) : Gone id h := by
  intro p here
  rw [none_] at here
  cases here

end Steps

def minding (base : String) : Rules where
  base := base
  drift := Others
  careful := Careful
  fine := Fine
  left := Gone
  stays := fun _ => gone_stable

section Procedures
variable {base : String} {h t : House} {id : JobId} {child : ChildHandle} {job : JobRecord}
  {I : House → Prop} (ctx : Ctx)

theorem relied_of_stable (stable : Stable Others I) : (minding base).Relied id I where
  stable := stable
  inert := by
    intro h q _ inert
    cases q with
    | save _ | spawn _ => cases inert
    | _ => trivial
  unsaved := fun _ _ _ gone => gone
  unwritten := by
    intro h kind atMs a _ lost careful
    cases a with
    | ok => exact absurd rfl lost
    | unsynced => exact careful
    | failed => exact careful

/-- A job without a child may be recorded as over. -/
theorem closes_of_gone (stable : Stable Others I) (gone : ∀ h, I h → Gone id h) :
    (minding base).Closes id I where
  toRelied := relied_of_stable stable
  done := fun h job here mine done => ⟨⟨mine, by simp [done], fun _ => gone h here⟩, gone h here⟩

theorem leaves : (minding base).Closes id (Gone id) := closes_of_gone gone_stable fun _ => id_eq _ |>.mp

theorem vacates : (minding base).Closes id (Vacant id) :=
  closes_of_gone vacant_stable fun _ vacant => gone_of_empty vacant.1

theorem mans : (minding base).Relied id (Manned id child) := relied_of_stable manned_stable

theorem fine_save {state : JobState} (mine : job.id = id) (begun : job.state = state)
    (past : state ≠ .queued) (unfinished : state ≠ .done) : Fine id h (.save job) :=
  ⟨mine, begun ▸ past, fun done => absurd (begun.symm.trans done) unfinished⟩

theorem safe_collecting {fresh : Bool} {worktree : String} {code : Int32} {verdict : Option Verdict}
    (mine : job.id = id) (gone : Gone id h) :
    (minding base).Safe id (collectingAs ctx job worktree fresh code verdict) h := by
  refine leaves.transition gone (fun _ _ _ _ => fine_save mine rfl nofun nofun) ?_
  intro now high h gone
  refine .ask gone_stable (I := Gone id) gone (fun _ _ => trivial) ?_
  rintro t (e | artifacts) gone -
  · exact leaves.finish gone mine
  · refine leaves.emitArtifacts ?_ _ fun high t gone => ?_
    · exact gone
    · split
      · exact leaves.finish gone mine
      · exact leaves.finish gone mine

theorem safe_waiting {fresh : Bool} {worktree : String} {plan : RunPlan} (mine : job.id = id)
    (manned : Manned id child h) :
    (minding base).Safe id (waitingAs ctx job worktree fresh child plan) h := by
  refine .ask manned_stable manned (fun _ _ => trivial) fun t watched manned ended => ?_
  have gone : Gone id t := by
    intro p here own
    have whole : (id, child) = p := Prod.ext own.symm (manned p here own).symm
    exact ended (whole ▸ here)
  refine leaves.reports (h := t) gone _ fun t gone => leaves.look gone rfl fun high t gone => ?_
  dsimp only
  split
  · next code verdict _ =>
      cases verdict with
      | some v => exact leaves.emit gone fun high t gone => safe_collecting ctx mine gone
      | none => exact safe_collecting ctx mine gone
  · exact leaves.finish gone mine
  · exact leaves.finish gone mine
  · exact leaves.finish gone mine
  · exact leaves.finish gone mine

theorem safe_resumedWaiting {worktree : String} {plan : RunPlan} (mine : job.id = id)
    (manned : Manned id child h) :
    (minding base).Safe id (resumedWaiting ctx job worktree child plan) h := by
  rw [resumedWaiting_eq]
  exact safe_waiting ctx mine manned

theorem safe_started {worktree : String} {plan : RunPlan} (mine : job.id = id)
    (manned : Manned id child h) :
    (minding base).Safe id (started ctx job worktree plan child) h := by
  refine mans.transition manned (fun _ _ _ _ => fine_save mine rfl nofun nofun) ?_
  intro now high t manned
  exact mans.emit (h := { t with store := t.store.save _ }) manned
    fun high t manned => waiting_eq .. ▸ safe_waiting ctx mine manned

theorem safe_running {worktree : String} {binary : CachedBinary} (mine : job.id = id)
    (vacant : Vacant id h) : (minding base).Safe id (running ctx job worktree binary) h := by
  refine .ask vacant_stable vacant (fun _ _ => trivial) fun t _ vacant _ => ?_
  refine .ask (I := Vacant id) vacant_stable vacant (fun _ vacant => vacant) ?_
  rintro u (e | child) vacant -
  · exact vacates.finish vacant mine
  · refine safe_started ctx mine fun p here own => ?_
    have here : p ∈ u.live ++ [(id, child)] := here
    rw [vacant.1] at here
    exact congrArg Prod.snd (List.mem_singleton.mp here)

theorem safe_checking {worktree : String} {binary : CachedBinary} (mine : job.id = id)
    (begun : job.state = .building) (vacant : Vacant id h) :
    (minding base).Safe id (checking ctx job worktree binary) h := by
  refine vacates.save vacant (fun _ _ => fine_save mine begun nofun nofun) fun t vacant => ?_
  refine vacates.call ⟨vacant.1, open_of_save mine (by simp [begun]) (by simp [begun])⟩ rfl
    fun cancelled t vacant => ?_
  split
  · exact vacates.finish vacant mine
  · refine vacates.quiet vacant (quiet_refusal _ _) ?_
    rintro (reason | _) t vacant
    · exact vacates.finish vacant mine
    · exact safe_running ctx mine vacant

theorem safe_building {worktree : String} (mine : job.id = id) (vacant : Vacant id h) :
    (minding base).Safe id (building ctx job worktree) h := by
  refine vacates.transition vacant (fun _ _ _ _ => fine_save mine rfl nofun nofun) ?_
  intro now high t vacant
  refine vacates.look ⟨vacant.1, open_of_save mine nofun nofun⟩ rfl ?_
  rintro (e | (miss | binary)) t vacant
  · exact vacates.finish vacant mine
  · refine vacates.emit vacant fun high t vacant => vacates.look vacant rfl ?_
    rintro (e | r) t vacant
    · refine vacates.call vacant rfl fun cancelled t vacant => ?_
      split
      · exact vacates.finish vacant mine
      · exact vacates.finish vacant mine
    · exact vacates.emit vacant fun high t vacant => safe_checking ctx mine rfl vacant
  · refine vacates.emit vacant fun high t vacant => ?_
    exact vacates.emit vacant fun high t vacant => safe_checking ctx mine rfl vacant

theorem safe_preparing (mine : job.id = id) (vacant : Vacant id h) :
    (minding base).Safe id (preparing ctx job) h := by
  refine vacates.quiet vacant (quiet_fetching _) ?_
  rintro (reason | fetched) t vacant
  · exact vacates.finish vacant mine
  · refine vacates.quiet vacant (quiet_publishing _ _) ?_
    rintro (reason | _) t vacant
    · exact vacates.finish vacant mine
    · refine vacates.emit vacant fun high t vacant => vacates.look vacant rfl ?_
      rintro (e | worktree) t vacant
      · exact vacates.finish vacant mine
      · refine vacates.call vacant rfl fun cancelled t vacant => ?_
        split
        · exact vacates.finish vacant mine
        · exact safe_building ctx mine vacant

theorem safe_run (mine : job.id = id) (none_ : h.live = []) :
    (minding base).Safe id (run ctx job) h := by
  have closes : (minding base).Closes id fun h => h.live = [] :=
    closes_of_gone empty_stable fun _ => gone_of_empty
  refine closes.transition none_ (fun _ _ _ _ => fine_save mine rfl nofun nofun) ?_
  intro now high t none_
  exact safe_preparing ctx mine ⟨none_, open_of_save mine nofun nofun⟩

/-- A child of the job is alive only where the record that was found has it. -/
def Known (job : JobRecord) (h : House) : Prop :=
  ∀ p ∈ h.live, p.1 = job.id → job.state = .running ∧ job.child = some p.2

theorem known_stable : Stable Others (Known job) :=
  fun _ _ known step p here => known p (others_live step here)

theorem safe_recover {p : Proc Outcome} (recovers : recover ctx job = some p) (known : Known job h) :
    (minding base).Safe job.id p h := by
  have gone_of (other : job.state ≠ .running) : Gone job.id h :=
    fun p here own => other (known p here own).1
  unfold recover at recovers
  split at recovers
  · cases recovers
  · cases recovers
  · next running =>
      cases recovers
      unfold alive resumeRunning
      have childless (none_ : job.child = none) : Gone job.id h := by
        intro p here own
        have has := (known p here own).2
        rw [none_] at has
        cases has
      cases has : job.childPid with
      | none => exact leaves.finish (childless (by rw [JobRecord.child, has])) rfl
      | some pid =>
          cases started : job.childStartTicks with
          | none => exact leaves.finish (childless (by rw [JobRecord.child, has, started])) rfl
          | some ticks =>
              have child : job.child = some ⟨pid, ticks⟩ := by rw [JobRecord.child, has, started]
              have manned {t : House} (known : Known job t) : Manned job.id ⟨pid, ticks⟩ t :=
                fun p here own => Option.some.inj ((known p here own).2.symm.trans child)
              refine .ask known_stable known (fun _ _ => trivial) ?_
              rintro t (_ | _) known theirs
              · refine leaves.finish (h := t) (fun p here own => ?_) rfl
                have whole : (job.id, ⟨pid, ticks⟩) = p := Prod.ext own.symm (manned known p here own).symm
                exact theirs (whole ▸ here)
              · refine .ask (I := Known job) known_stable known (fun _ _ => trivial) ?_
                rintro u (e | worktree) known theirs
                · exact leaves.finish (h := u) theirs rfl
                · exact safe_resumedWaiting (h := u) ctx rfl (manned known)
  all_goals
    next at_ =>
    cases recovers
    exact leaves.finish (gone_of (by simp [at_])) rfl

end Procedures

section Worlds
variable {base : String} {h t : House} {id : JobId} {todo : List JobRecord}

/-- What holds of the records and the children of a host. -/
structure Sound (h : House) : Prop where
  filed : Filed h.store
  alone : h.live.length ≤ 1
  opened : ∀ p ∈ h.live, Open p.1 h

/-- A child is of a job that was found running and is to be recovered yet. -/
def Awaited (todo : List JobRecord) (p : JobId × ChildHandle) : Prop :=
  ∃ r ∈ todo, r.id = p.1 ∧ r.state = .running ∧ r.child = some p.2

/-- What holds of what the worker is at: every child that is alive is known to it. -/
def Fits (base : String) (h : House) : Doing → Prop
  | .down => ∀ p ∈ h.live, Recorded h p
  | .free todo => todo.Pairwise (·.id ≠ ·.id) ∧ ∀ p ∈ h.live, Awaited todo p
  | .picked _ => h.live = []
  | .working id p todo => (minding base).Safe id p h ∧ todo.Pairwise (·.id ≠ ·.id) ∧
      ∀ p ∈ h.live, p.1 = id ∨ Awaited todo p

theorem recorded_iff {p : JobId × ChildHandle} : Recorded h p ↔
    ∃ r, h.store.load p.1 = .ok r ∧ r.state = .running ∧ r.child = some p.2 := by
  unfold Recorded
  cases there : h.store.load p.1 with
  | error e => simp
  | ok r => simp

theorem recorded_stable {p : JobId × ChildHandle} : Stable Others fun h => Recorded h p := by
  intro h t recorded step
  obtain ⟨r, there, running, child⟩ := recorded_iff.mp recorded
  refine recorded_iff.mpr ⟨r, ?_, running, child⟩
  cases step with
  | around store _ => exact store ▸ there
  | die i => exact there
  | @submitted job new _ =>
      have other : p.1 ≠ job.id := fun same => new r (same ▸ there)
      exact JobStore.load_save.trans ((if_neg other).trans there)
  | @cancelled job r' there' queued =>
      have other : p.1 ≠ job.id := by
        intro same
        rw [same, there'] at there
        cases there
        exact absurd (running.symm.trans queued) nofun
      exact JobStore.load_save.trans ((if_neg other).trans there)

theorem Fits.drifted {doing : Doing} (fits : Fits base h doing) (step : Others h t) :
    Fits base t doing := by
  cases doing with
  | down => exact fun p here => recorded_stable h t (fits p (others_live step here)) step
  | free todo => exact ⟨fits.1, fun p here => fits.2 p (others_live step here)⟩
  | picked job => exact empty_stable h t fits step
  | working id p todo =>
      obtain ⟨safe, apart, known⟩ := fits
      exact ⟨safe.drifted step, apart, fun p here => known p (others_live step here)⟩

theorem Sound.drifted (sound : Sound h) (step : Others h t) : Sound t where
  filed := by
    cases step with
    | around store _ => exact store ▸ sound.filed
    | die i => exact sound.filed
    | submitted _ _ | cancelled _ _ => exact filed_saved sound.filed _
  alone := by
    cases step with
    | around _ live => exact live ▸ sound.alone
    | die i => exact (List.length_eraseIdx_le _ i).trans sound.alone
    | submitted _ _ | cancelled _ _ => exact sound.alone
  opened := fun p here => open_stable h t (sound.opened p (others_live step here)) step

/-- What an answer leaves, where its question may be asked. -/
theorem Sound.answered {q : Ask} (sound : Sound h) (fine : Fine id h q) (a : Answer q) :
    Sound (h.after id q a) := by
  have around {t : House} (store : t.store = h.store) (live : t.live = h.live) : Sound t :=
    sound.drifted (.around store live)
  cases q with
  | save job =>
      cases a with
      | false => exact sound
      | true =>
          obtain ⟨mine, past, over_⟩ := fine
          refine ⟨filed_saved sound.filed job, sound.alone, fun p here => ?_⟩
          by_cases own : p.1 = job.id
          · rw [own]
            exact open_of_save rfl past fun done => over_ done p here (own.trans mine)
          · obtain ⟨r, there, rest⟩ := sound.opened p here
            exact ⟨r, JobStore.load_save.trans ((if_neg own).trans there), rest⟩
  | spawn plan =>
      cases a with
      | error e => exact sound
      | ok child =>
          have one : (h.after id (.spawn plan) (.ok child)).live = [(id, child)] := by
            show h.live ++ [(id, child)] = _
            rw [fine.1]
            rfl
          refine ⟨sound.filed, by rw [one]; exact le_rfl, fun p here => ?_⟩
          rw [one] at here
          rw [List.mem_singleton.mp here]
          exact fine.2
  | recordState worktree gate => cases a <;> exact around rfl rfl
  | sameProcess pid startTicks => cases a <;> exact around rfl rfl
  | collect worktree gate before dest => cases a <;> exact around rfl rfl
  | _ => exact sound

theorem Sound.oneChild (sound : Sound h) : OneChild h := by
  refine ⟨sound.alone, fun p here r there => ?_⟩
  obtain ⟨r', there', -, unfinished⟩ := sound.opened p here
  rw [there] at there'
  cases there'
  exact unfinished

structure Orderly (base : String) (h : House) : Prop where
  sound : Sound h
  fits : Fits base h h.doing

theorem Orderly.others (orderly : Orderly base h) (step : Others h t) (same : t.doing = h.doing) :
    Orderly base t :=
  ⟨orderly.sound.drifted step, same ▸ orderly.fits.drifted step⟩

/-- Only what the worker is at, and whose records are told, is changed. -/
theorem Orderly.turned {doing : Doing} {watched : Option JobId} {cancels : List JobRecord}
    (sound : Sound h) (fits : Fits base h doing) :
    Orderly base { h with doing := doing, watched := watched, cancels := cancels } :=
  ⟨sound.drifted (.around rfl rfl), fits.drifted (.around rfl rfl)⟩

theorem careful_of_heeded {oracle : (q : Ask) → Answer q} {q : Ask} (careful : Careful id h q (oracle q)) :
    Careful id h q (h.reply base q (oracle q)) := by
  cases q with
  | worktree sha =>
      unfold House.reply
      cases answer : oracle (.worktree sha) with
      | error e => rwa [answer] at careful
      | ok worktree => trivial
  | recordState _ _ | collect _ _ _ _ => trivial
  | _ => exact careful

theorem orderly_step {m : House.Move} (orderly : Orderly base h) (attended : Attended h m)
    (hstep : h.step base m = some t) : Orderly base t := by
  have sound := orderly.sound
  have fits := orderly.fits
  cases House.goes_of_step base hstep with
  | submit new queued => exact orderly.others (.submitted new queued) rfl
  | cancel _ | dropped | write _ | delete => exact orderly.others (.around rfl rfl) rfl
  | @cancelled i job at_ =>
      have still : (h.store.load job.id).toOption.map JobRecord.state = some .queued := attended job at_
      obtain ⟨r, there, queued⟩ := Option.map_eq_some_iff.mp still
      have loads : h.store.load job.id = .ok r := by
        cases found : h.store.load job.id with
        | error e =>
            rw [found] at there
            cases there
        | ok r' =>
            rw [found] at there
            cases there
            rfl
      exact (orderly.others (.cancelled loads queued) rfl).others (.around rfl rfl) rfl
  | @die i => exact orderly.others (.die i) rfl
  | crash => exact .turned sound attended
  | restart doing perm =>
      rw [doing] at fits
      refine .turned sound ⟨?_, fun p here => ?_⟩
      · exact (perm.pairwise_iff fun other => other.symm).mpr (records_distinct sound.filed)
      · obtain ⟨r, there, running, child⟩ := recorded_iff.mp (fits p here)
        exact ⟨r, perm.mem_iff.mpr (JobStore.mem_records.mpr ⟨_, there⟩), sound.filed _ r there,
          running, child⟩
  | @passed ctx job todo doing passes =>
      rw [doing] at fits
      obtain ⟨apart, awaited⟩ := fits
      refine .turned sound ⟨apart.of_cons, fun p here => ?_⟩
      obtain ⟨r, found, mine, running, child⟩ := awaited p here
      cases List.mem_cons.mp found with
      | inl first =>
          subst first
          simp [recover, running] at passes
      | inr later => exact ⟨r, later, mine, running, child⟩
  | @recover ctx job todo p doing recovers =>
      rw [doing] at fits
      obtain ⟨apart, awaited⟩ := fits
      obtain ⟨first, apart⟩ := List.pairwise_cons.mp apart
      refine .turned sound ⟨safe_recover ctx recovers fun p here own => ?_, apart, fun p here => ?_⟩
      · obtain ⟨r, found, mine, running, child⟩ := awaited p here
        cases List.mem_cons.mp found with
        | inl it => exact it ▸ ⟨running, child⟩
        | inr later => exact absurd (own.symm.trans mine.symm) (first r later)
      · obtain ⟨r, found, mine, running, child⟩ := awaited p here
        cases List.mem_cons.mp found with
        | inl it => exact .inl (it ▸ mine.symm)
        | inr later => exact .inr ⟨r, later, mine, running, child⟩
  | abandon _ =>
      have none_ : h.live = [] := attended
      exact .turned sound ⟨.nil, by simp [none_]⟩
  | pick doing _ _ =>
      rw [doing] at fits
      refine .turned sound (List.eq_nil_iff_forall_not_mem.mpr fun p here => ?_)
      obtain ⟨r, found, -⟩ := fits.2 p here
      cases found
  | unpick doing =>
      rw [doing] at fits
      have none_ : h.live = [] := fits
      exact .turned sound ⟨.nil, by simp [none_]⟩
  | @start ctx _ _ job doing =>
      rw [doing] at fits
      have none_ : h.live = [] := fits
      exact .turned sound ⟨safe_run ctx rfl none_, .nil, by simp [none_]⟩
  | @answer oracle id q k todo doing =>
      have attended : Heeded oracle h h.doing := attended
      rw [doing] at fits attended
      obtain ⟨safe, apart, known⟩ := fits
      have careful : Careful id h q (h.reply base q (oracle q)) := careful_of_heeded attended
      have next_ : Sound (h.after id q (h.reply base q (oracle q))) := sound.answered safe.may _
      refine .turned next_ ⟨safe.answered ⟨careful, ⟨_, rfl⟩, rfl⟩, apart, fun p here => ?_⟩
      exact (House.live_after here).elim (known p) .inl
  | @leave id p todo doing over_ =>
      rw [doing] at fits
      obtain ⟨safe, apart, known⟩ := fits
      have gone : Gone id h := by
        obtain ⟨outcome, rfl⟩ | rfl := over_
        · exact safe h .refl
        · exact safe h .refl
      exact .turned sound ⟨apart, fun p here => (known p here).resolve_left (gone p here)⟩

/-- Over every run of a host whose jobs' children are attended to, one child at most is alive, and
its job is not recorded as over. -/
theorem one_child {start : House} {moves : List House.Move} (filed : Filed start.store)
    (childless : start.live = []) (down : start.doing = .down)
    (run : Run (House.step base) Attended start moves t) : OneChild t := by
  have first : Orderly base start := by
    refine ⟨⟨filed, by simp [childless], by simp [childless]⟩, ?_⟩
    rw [down]
    show ∀ p ∈ start.live, _
    simp [childless]
  have orderly : Orderly base t := Run.invariant run first
    fun s m u orderly attended hstep => orderly_step orderly attended hstep
  exact orderly.sound.oneChild

end Worlds

section Instances

instance (h : House) (p : JobId × ChildHandle) : Decidable (Recorded h p) :=
  decidable_of_iff (∃ r ∈ (h.store.load p.1).toOption, r.state = .running ∧ r.child = some p.2) (by
    unfold Recorded
    cases h.store.load p.1 <;> simp [Except.toOption])

instance (id : JobId) (h : House) : (q : Ask) → (a : Answer q) → Decidable (Careful id h q a)
  | .save _, false | .append _ _, .unsynced | .append _ _, .failed | .worktree _, .error _ =>
      inferInstanceAs (Decidable (∀ p ∈ h.live, p.1 ≠ id))
  | .sameProcess pid startTicks, false =>
      inferInstanceAs (Decidable ((id, (⟨pid, startTicks⟩ : ChildHandle)) ∉ h.live))
  | .wait child _, _ => inferInstanceAs (Decidable ((id, child) ∉ h.live))
  | .save _, true | .append _ _, .ok | .worktree _, .ok _ | .sameProcess _ _, true => .isTrue trivial
  | .nowMs, _ | .hasCommit _, _ | .fetch, _ | .published _, _ | .cachedBinary _, _ | .build _ _, _
  | .ensureRecipes _, _ | .knownGates _, _ | .badParams _ _ _, _ | .spawn _, _ | .recordState _ _, _
  | .collect _ _ _ _, _ | .cancelled, _ | .seqHigh, _ => .isTrue trivial

instance (oracle : (q : Ask) → Answer q) (h : House) : (doing : Doing) → Decidable (Heeded oracle h doing)
  | .working id (.ask q _) _ => inferInstanceAs (Decidable (Careful id h q (oracle q)))
  | .down | .free _ | .picked _ | .working _ (.ret _) _ | .working _ (.stop _) _ => .isTrue trivial

instance (h : House) : (m : House.Move) → Decidable (Attended h m)
  | .crash => inferInstanceAs (Decidable (∀ p ∈ h.live, Recorded h p))
  | .abandon => inferInstanceAs (Decidable (h.live = []))
  | .endCancel i true => inferInstanceAs (Decidable
      (∀ job ∈ h.cancels[i]?, (h.store.load job.id).toOption.map JobRecord.state = some .queued))
  | .answer oracle => inferInstanceAs (Decidable (Heeded oracle h h.doing))
  | .endCancel _ false | .submit _ | .cancel _ _ _ _ | .write _ _ _ | .delete _ _ | .die _ | .restart _
  | .recover _ | .pick _ | .unpick | .start _ _ _ | .leave => .isTrue trivial

/-- The first job as it is recorded once its child runs. -/
def launched : JobRecord :=
  { earlier with
    state := .running, updatedAtS := 0, childPid := some 1, childStartTicks := some 1
    binarySha256 := some "" }

/-- The agent's answers where the process is the one it was. -/
def reunited : (q : Ask) → Answer q
  | .sameProcess _ _ => true
  | q => exiting 1 q

/-- The agent dies once it has recorded the child, and is started again. -/
def resumed : List House.Move :=
  [House.Move.restart [earlier], .recover plainCtx, .pick earlier, startOn emptyBox] ++
    answers 30 (exiting 1) ++ [House.Move.crash, .restart [launched], .recover plainCtx] ++
    answers 2 reunited ++ [House.Move.die 0] ++ answers 12 reunited ++ [House.Move.leave]

/-- How a host's jobs stand: the children alive, and what is recorded of the first job. -/
def stand (h : House) : List JobId × Option JobState :=
  (h.live.map Prod.fst, (h.store.load earlier.id).toOption.map JobRecord.state)

theorem one_child_resumed : ∃ t, Run (House.step "") Attended (House.housing [earlier]) resumed t ∧
    stand t = ([], some .done) ∧ OneChild t := by
  have ends : (replay (House.step "") Attended (House.housing [earlier]) resumed).map stand =
      some ([], some .done) := by decide +kernel
  obtain ⟨t, whole, ends⟩ := Option.map_eq_some_iff.mp ends
  have run : Run (House.step "") Attended (House.housing [earlier]) resumed t := Run.of_replay whole
  exact ⟨t, run, ends, one_child (House.filed_housing _) rfl rfl run⟩

/-- The agent dies after the spawn and before its record; the next one records the job as orphaned,
and, on a node that has no `pgrep`, runs the second. -/
def forgotten : List House.Move :=
  [House.Move.restart [earlier, later], .recover plainCtx, .recover plainCtx, .pick earlier,
      startOn { emptyBox with pgrep := false }] ++
    answers 27 (exiting 1) ++
    [House.Move.crash,
      .restart [{ earlier with state := .building, updatedAtS := 0, binarySha256 := some "" }, later],
      .recover plainCtx] ++
    answers 6 (exiting 2) ++
    [House.Move.leave, .recover plainCtx, .pick later,
      startOn { emptyBox with engines := [1], pgrep := false }] ++
    answers 27 (exiting 2)

theorem two_children : ∃ t, Run (House.step "") Free (House.housing [earlier, later]) forgotten t ∧
    stand t = ([earlier.id, later.id], some .done) ∧ ¬OneChild t := by
  have ends : (replay (House.step "") Free (House.housing [earlier, later]) forgotten).map stand =
      some ([earlier.id, later.id], some .done) := by decide +kernel
  obtain ⟨t, whole, ends⟩ := Option.map_eq_some_iff.mp ends
  refine ⟨t, Run.of_replay whole, ends, fun one => ?_⟩
  have alive : t.live.map Prod.fst = [earlier.id, later.id] := congrArg Prod.fst ends
  have two : t.live.length = 2 := by rw [← List.length_map (f := Prod.fst), alive]; rfl
  exact absurd one.1 (by rw [two]; decide)

end Instances

end Children

end Bench
end Metralectl
