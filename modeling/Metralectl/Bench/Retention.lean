import Mathlib.Data.List.Sort
import Metralectl.Bench.Served

/-!
What a host keeps on disk: the records of its jobs, its builds and its worktrees, beside what git
remembers of the worktrees. Retention deletes of the first three by age; a worktree is made where
git does not remember another.
-/
namespace Metralectl
namespace Bench
open SortedMaps Runs

structure RetainConfig where
  retainJobs : UInt32
  retainDays : UInt32
  keepBuilds : UInt32

/-- The cache directory, and the repository its worktrees are of. -/
structure Cache where
  store : JobStore
  running : Option JobId
  /-- Of each build directory, when the binary in it was written, where there is one. -/
  builds : SortedMap String (Option Nat)
  /-- What is checked out in each worktree's directory. -/
  worktrees : SortedMap String String
  /-- Whether git remembers a worktree there. -/
  registered : String → Bool
  commits : String → Bool

inductive GitError where
  | invalidReference
  /-- The path is missing, but already registered. -/
  | alreadyRegistered
deriving DecidableEq

namespace Cache

def finished (s : JobStore) : List JobRecord :=
  (s.list.filter (·.state.isTerminal)).insertionSort fun a b => b.updatedAtS ≤ a.updatedAtS

def expired (cfg : RetainConfig) (now : Nat) (j : JobRecord) (i : Nat) : Bool :=
  let tooMany := cfg.retainJobs.toNat ≤ i
  let tooOld := cfg.retainDays.toNat * 86400 < now - j.updatedAtS
  tooMany || tooOld

/-- A removal that fails is passed over. -/
def pruneJob (cfg : RetainConfig) (now : Nat) (s : JobStore) (j : JobRecord × Nat) : JobStore :=
  if expired cfg now j.1 j.2 then (s.remove j.1).toOption.getD s else s

def pruneJobs (cfg : RetainConfig) (now : Nat) (s : JobStore) : JobStore :=
  (finished s).zipIdx.foldl (pruneJob cfg now) s

/-- The builds beyond those that are kept, as the directory is listed. -/
def beyond (cfg : RetainConfig) (listing : List (String × Option Nat)) : List String :=
  let entries := listing.filterMap fun e => e.2.map fun t => (t, e.1)
  ((entries.insertionSort fun a b => b.1 ≤ a.1).drop cfg.keepBuilds.toNat).map Prod.snd

def runningSha (c : Cache) : Option String :=
  (c.running.bind fun id => (c.store.load id).toOption).map (·.spec.sha.text)

def removeBuild (c : Cache) (name : String) : Cache :=
  { c with builds := c.builds.remove name, worktrees := c.worktrees.remove name }

/-- Prune terminal jobs beyond the limits, and all but the newest builds, never the running
job's. -/
def retain (cfg : RetainConfig) (c : Cache) (now : Nat) (listing : List (String × Option Nat)) :
    Cache :=
  let c := { c with store := pruneJobs cfg now c.store }
  let sha := c.runningSha
  (beyond cfg listing).foldl (fun c name => if sha = some name then c else c.removeBuild name) c

/-- `git worktree add`. -/
def addWorktree (c : Cache) (sha : String) : Cache × Except GitError Unit :=
  if !c.commits sha then (c, .error .invalidReference)
  else if c.registered sha then (c, .error .alreadyRegistered)
  else
    ({ c with
      worktrees := c.worktrees.insert sha sha
      registered := fun name => name = sha || c.registered name }, .ok ())

/-- `git worktree remove --force`, and then the directory. -/
def dropWorktree (c : Cache) (sha : String) : Cache :=
  { c with
    worktrees := c.worktrees.remove sha
    registered := fun name => name ≠ sha && c.registered name }

def worktree (c : Cache) (sha : String) : Cache × Except GitError Unit :=
  match c.worktrees.get? sha with
  | some head => if head = sha then (c, .ok ()) else (c.dropWorktree sha).addWorktree sha
  | none => c.addWorktree sha

/-- What happens to the cache. -/
inductive Move where
  /-- A record is created, or written by the worker. -/
  | save (job : JobRecord)
  | run (job : Option JobId)
  | checkout (sha : String)
  /-- What runs in a worktree moves its head. -/
  | stray (sha head : String)
  | build (sha : String) (written : Option Nat)
  | fetch (sha : String)
  | retain (now : Nat) (listing : List (String × Option Nat))

def step (cfg : RetainConfig) (c : Cache) : Move → Option Cache
  | .save job => some { c with store := c.store.save job }
  | .run job => some { c with running := job }
  | .checkout sha => some (c.worktree sha).1
  | .stray sha head => (c.worktrees.get? sha).map fun _ =>
      { c with worktrees := c.worktrees.insert sha head }
  | .build sha written => some { c with builds := c.builds.insert sha written }
  | .fetch sha => some { c with commits := fun name => name = sha || c.commits name }
  | .retain now listing =>
      if listing.Perm c.builds.entries then some (c.retain cfg now listing) else none

/-- Whether a retention may be made: the record of the running job says that it is not over, and
of the builds beyond those that are kept, the running job's apart, git remembers no worktree. -/
def Careful (cfg : RetainConfig) (c : Cache) : Move → Prop
  | .retain _ listing =>
      (∀ id, c.running = some id → ∃ r, c.store.load id = .ok r ∧ r.state.isTerminal = false) ∧
        ∀ name ∈ beyond cfg listing, c.runningSha ≠ some name → c.registered name = false
  | _ => True

/-- Every record is filed under its own id, and every worktree git remembers is there. -/
structure Sound (c : Cache) : Prop where
  filed : Filed c.store
  linked : ∀ name, c.registered name = true → ∃ head, c.worktrees.get? name = some head

/-- What a retention leaves of what it may not cost. -/
structure Spared (cfg : RetainConfig) (now : Nat) (c d : Cache) : Prop where
  unfinished : ∀ id r, c.store.load id = .ok r → r.state.isTerminal = false → d.store.load id = .ok r
  young : ∀ id r, c.store.load id = .ok r → r ∈ (finished c.store).take cfg.retainJobs.toNat →
    now - r.updatedAtS ≤ cfg.retainDays.toNat * 86400 → d.store.load id = .ok r
  running : ∀ id r, c.running = some id → c.store.load id = .ok r →
    d.builds.get? r.spec.sha.text = c.builds.get? r.spec.sha.text ∧
      d.worktrees.get? r.spec.sha.text = c.worktrees.get? r.spec.sha.text

/-- A job for any commit can make its worktree. -/
def Open (c : Cache) : Prop := ∀ sha, c.commits sha = true → (c.worktree sha).2 = .ok ()

section Jobs
variable {cfg : RetainConfig} {now : Nat} {s : JobStore} {id : JobId} {r : JobRecord}
  {l : List (JobRecord × Nat)}

theorem mem_finished : r ∈ finished s ↔ (∃ id, s.load id = .ok r) ∧ r.state.isTerminal = true := by
  rw [finished, List.mem_insertionSort, List.mem_filter, JobStore.mem_list]

theorem finished_nodup (filed : Filed s) : (finished s).Nodup := by
  have distinct : s.records.Nodup :=
    (records_distinct filed).imp
      fun other same => other (congrArg JobRecord.id same)
  have listed : s.list.Nodup := (List.mergeSort_perm s.records _).nodup_iff.mpr distinct
  exact (List.perm_insertionSort _ _).nodup_iff.mpr (listed.filter _)

/-- Removing jobs, a job under another id stays. -/
theorem prune_load (kept : ∀ j ∈ l, expired cfg now j.1 j.2 = true → j.1.id ≠ id) :
    (l.foldl (pruneJob cfg now) s).load id = s.load id := by
  induction l generalizing s with
  | nil => rfl
  | cons j rest ih =>
      obtain ⟨here, later⟩ := List.forall_mem_cons.mp kept
      rw [List.foldl_cons, ih later, pruneJob]
      split
      · next old =>
          cases removed : s.remove j.1 with
          | error _ => rfl
          | ok t => exact (Line.load_remove removed id).trans (if_neg (here old).symm)
      · rfl

/-- What is left is as it was. -/
theorem load_of_prune (left : (l.foldl (pruneJob cfg now) s).load id = .ok r) : s.load id = .ok r := by
  induction l generalizing s with
  | nil => exact left
  | cons j rest ih =>
      have there := ih left
      rw [pruneJob] at there
      split at there
      · cases removed : s.remove j.1 with
        | error _ =>
            rw [removed] at there
            exact there
        | ok t =>
            rw [removed] at there
            have was := Line.load_remove removed id
            split at was
            · cases was.symm.trans there
            · exact was.symm.trans there
      · exact there

theorem pruneJobs_filed (filed : Filed s) : Filed (pruneJobs cfg now s) :=
  fun id r left => filed id r (load_of_prune left)

/-- A removed job is a finished one, found under its own id. -/
theorem removed_is (filed : Filed s) (there : s.load id = .ok r) {j : JobRecord} {i : Nat}
    (listed : (j, i) ∈ (finished s).zipIdx) (same : j.id = id) :
    j = r ∧ r.state.isTerminal = true ∧ (finished s)[i]? = some r := by
  have at_ := List.mem_zipIdx_iff_getElem?.mp listed
  obtain ⟨⟨id', loaded⟩, over_⟩ := mem_finished.mp (List.mem_of_getElem? at_)
  obtain rfl : id' = id := (filed id' j loaded).symm.trans same
  obtain rfl : j = r := Except.ok.inj (loaded.symm.trans there)
  exact ⟨rfl, over_, at_⟩

theorem prune_unfinished (filed : Filed s) (there : s.load id = .ok r)
    (going : r.state.isTerminal = false) : (pruneJobs cfg now s).load id = .ok r := by
  refine (prune_load fun j listed _ same => ?_).trans there
  have over_ := (removed_is filed there listed same).2.1
  exact Bool.false_ne_true (going.symm.trans over_)

theorem prune_young (filed : Filed s) (there : s.load id = .ok r)
    (newest : r ∈ (finished s).take cfg.retainJobs.toNat)
    (young : now - r.updatedAtS ≤ cfg.retainDays.toNat * 86400) :
    (pruneJobs cfg now s).load id = .ok r := by
  refine (prune_load fun j listed old same => ?_).trans there
  obtain ⟨mine, _, at_⟩ := removed_is filed there listed same
  obtain ⟨k, inside, taken⟩ := List.mem_take_iff_getElem.mp newest
  -- It stands in the list once, so the place it is removed at is one of the newest.
  have place : j.2 = k := by
    have first : (finished s)[k]? = some r := by
      rw [← taken]
      exact List.getElem?_eq_getElem (by omega)
    exact (List.getElem?_inj (List.getElem?_eq_some_iff.mp at_).1 (finished_nodup filed)).mp
      (at_.trans first.symm)
  rw [expired, Bool.or_eq_true, decide_eq_true_eq, decide_eq_true_eq, place, mine] at old
  omega

end Jobs

section Builds
variable {cfg : RetainConfig} {c d : Cache} {now : Nat} {listing : List (String × Option Nat)}
  {names : List String} {sha : Option String} {name : String}

/-- Removing builds, what is under another name stays, and so does all else. -/
theorem removeBuilds (c : Cache) :
    let d := names.foldl (fun c name => if sha = some name then c else c.removeBuild name) c
    d.store = c.store ∧ d.registered = c.registered ∧ d.commits = c.commits ∧
      ((∀ n ∈ names, sha ≠ some n → n ≠ name) →
        d.builds.get? name = c.builds.get? name ∧ d.worktrees.get? name = c.worktrees.get? name) := by
  induction names generalizing c with
  | nil => exact ⟨rfl, rfl, rfl, fun _ => ⟨rfl, rfl⟩⟩
  | cons n rest ih =>
      rw [List.foldl_cons]
      by_cases own : sha = some n
      · rw [if_pos own]
        obtain ⟨store, registered, commits, kept⟩ := ih c
        exact ⟨store, registered, commits, fun other => kept fun m hm => other m (List.mem_cons_of_mem _ hm)⟩
      · rw [if_neg own]
        obtain ⟨store, registered, commits, kept⟩ := ih (c.removeBuild n)
        refine ⟨store, registered, commits, fun other => ?_⟩
        obtain ⟨builds, worktrees⟩ := kept fun m hm => other m (List.mem_cons_of_mem _ hm)
        have away : name ≠ n := (other n List.mem_cons_self own).symm
        refine ⟨builds.trans ?_, worktrees.trans ?_⟩ <;>
        · rw [removeBuild, SortedMap.get?_remove, if_neg away]

theorem runningSha_prune (filed : Filed c.store)
    (begun : ∀ id, c.running = some id → ∃ r, c.store.load id = .ok r ∧ r.state.isTerminal = false) :
    ({ c with store := pruneJobs cfg now c.store } : Cache).runningSha = c.runningSha := by
  unfold runningSha
  cases running : c.running with
  | none => rfl
  | some id =>
      obtain ⟨r, there, going⟩ := begun id running
      simp only [Option.bind_some, there, prune_unfinished filed there going]

/-- A job for any commit can make its worktree where what git remembers is there. -/
theorem Sound.opens (sound : c.Sound) : c.Open := by
  intro sha known
  have added {d : Cache} (commit : d.commits sha = true) (unknown : d.registered sha = false) :
      (d.addWorktree sha).2 = .ok () := by
    rw [addWorktree, commit, unknown]
    rfl
  unfold worktree
  cases there : c.worktrees.get? sha with
  | none =>
      refine added known (Bool.eq_false_iff.mpr fun remembered => ?_)
      obtain ⟨head, linked⟩ := sound.linked sha remembered
      cases there.symm.trans linked
  | some head =>
      simp only
      split
      · rfl
      · exact added known (by simp [dropWorktree])

theorem retain_spared (filed : Filed c.store)
    (begun : ∀ id, c.running = some id → ∃ r, c.store.load id = .ok r ∧ r.state.isTerminal = false) :
    Spared cfg now c (c.retain cfg now listing) := by
  have same := @runningSha_prune cfg c now filed begun
  obtain ⟨store, -, -, -⟩ := @removeBuilds (beyond cfg listing)
    ({ c with store := pruneJobs cfg now c.store } : Cache).runningSha ""
    { c with store := pruneJobs cfg now c.store }
  refine ⟨fun id r there going => ?_, fun id r there newest young => ?_, fun id r running there => ?_⟩
  · rw [retain, store]
    exact prune_unfinished filed there going
  · rw [retain, store]
    exact prune_young filed there newest young
  · have sha : c.runningSha = some r.spec.sha.text := by
      rw [runningSha, running, Option.bind_some, there]
      rfl
    refine (@removeBuilds (beyond cfg listing) _ _
      { c with store := pruneJobs cfg now c.store }).2.2.2 fun n _ other mine => other ?_
    rw [same, sha, mine]

theorem retain_sound (sound : c.Sound) (careful : Careful cfg c (.retain now listing)) :
    (c.retain cfg now listing).Sound := by
  obtain ⟨begun, unlinked⟩ := careful
  have same := @runningSha_prune cfg c now sound.filed begun
  have left (name : String) := @removeBuilds (beyond cfg listing)
    ({ c with store := pruneJobs cfg now c.store } : Cache).runningSha name
    { c with store := pruneJobs cfg now c.store }
  refine ⟨?_, fun name remembered => ?_⟩
  · rw [retain, (left "").1]
    exact pruneJobs_filed sound.filed
  · rw [retain, (left name).2.1] at remembered
    obtain ⟨head, there⟩ := sound.linked name remembered
    refine ⟨head, ((left name).2.2.2 fun n removed other mine => ?_).2.trans there⟩
    rw [same] at other
    have forgotten := unlinked n removed other
    rw [mine] at forgotten
    exact Bool.false_ne_true (forgotten.symm.trans remembered)

theorem addWorktree_sound (sound : c.Sound) (sha : String) : (c.addWorktree sha).1.Sound := by
  unfold addWorktree
  split
  · exact sound
  · split
    · exact sound
    · refine ⟨sound.filed, fun name remembered => ?_⟩
      simp only [Bool.or_eq_true, decide_eq_true_eq] at remembered
      rw [SortedMap.get?_insert]
      split
      · exact ⟨sha, rfl⟩
      · next other => exact sound.linked name (remembered.resolve_left other)

theorem dropWorktree_sound (sound : c.Sound) (sha : String) : (c.dropWorktree sha).Sound := by
  refine ⟨sound.filed, fun name remembered => ?_⟩
  simp only [dropWorktree, Bool.and_eq_true, decide_eq_true_eq] at remembered
  obtain ⟨head, there⟩ := sound.linked name remembered.2
  exact ⟨head, (SortedMap.get?_remove.trans (if_neg remembered.1)).trans there⟩

theorem step_retain (all : listing.Perm c.builds.entries) :
    c.step cfg (.retain now listing) = some (c.retain cfg now listing) :=
  if_pos all

theorem step_sound {m : Move} (sound : c.Sound) (careful : Careful cfg c m) (moved : c.step cfg m = some d) :
    d.Sound := by
  cases m with
  | save job =>
      cases moved
      refine ⟨fun id r there => ?_, sound.linked⟩
      rw [JobStore.load_save] at there
      split at there
      · next mine =>
          cases there
          exact mine.symm
      · exact sound.filed id r there
  | run job | build sha written | fetch sha =>
      cases moved
      exact ⟨sound.filed, sound.linked⟩
  | checkout sha =>
      cases moved
      unfold worktree
      split
      · split
        · exact sound
        · exact addWorktree_sound (dropWorktree_sound sound sha) sha
      · exact addWorktree_sound sound sha
  | stray sha head =>
      obtain ⟨_, _, made⟩ := Option.map_eq_some_iff.mp moved
      subst made
      refine ⟨sound.filed, fun name remembered => ?_⟩
      rw [SortedMap.get?_insert]
      split
      · exact ⟨head, rfl⟩
      · exact sound.linked name remembered
  | retain now listing =>
      simp only [step] at moved
      split at moved
      · cases moved
        exact retain_sound sound careful
      · cases moved

end Builds

/-- In every run whose retentions delete no worktree that git remembers: a job for any commit can
make its worktree, and a retention that may be made costs no job what it may not. -/
theorem retention_spares (cfg : RetainConfig) {c d : Cache} {ms : List Move} (sound : c.Sound)
    (run : Run (step cfg) (Careful cfg) c ms d) :
    d.Open ∧ ∀ now listing e, Careful cfg d (.retain now listing) →
      d.step cfg (.retain now listing) = some e → Spared cfg now d e := by
  have kept : d.Sound := run.invariant sound fun _ _ _ sound careful moved => step_sound sound careful moved
  refine ⟨kept.opens, fun now listing e careful moved => ?_⟩
  simp only [step] at moved
  split at moved
  · cases moved
    exact retain_spared kept.filed careful.1
  · cases moved

section Instances

instance (cfg : RetainConfig) (c : Cache) : (m : Move) → Decidable (Careful cfg c m)
  | .retain _ listing => decidable_of_iff
      ((∀ id ∈ c.running, ∃ r ∈ (c.store.load id).toOption, r.state.isTerminal = false) ∧
        ∀ name ∈ beyond cfg listing, c.runningSha ≠ some name → c.registered name = false) (by
      refine and_congr_left fun _ => forall₂_congr fun id _ => exists_congr fun r => ?_
      cases c.store.load id <;> simp [Except.toOption])
  | .save _ | .run _ | .checkout _ | .stray _ _ | .build _ _ | .fetch _ => .isTrue trivial

def keepOne : RetainConfig := ⟨5, 1, 1⟩

def emptyCache : Cache := ⟨⟨.empty, none⟩, none, .empty, .empty, fun _ => false, fun _ => false⟩

theorem emptyCache_sound : emptyCache.Sound := by
  refine ⟨fun id r there => ?_, nofun⟩
  have none_ : none = some r := JobStore.load_eq_ok.mp there
  cases none_

def begun : JobRecord := { queuedUnder ⟨"k", by decide⟩ with state := .running, createdAtS := 2 }

/-- Over long ago. -/
def old : JobRecord :=
  { begun with id := ⟨"jb-0-00000000", by decide⟩, state := .done, createdAtS := 3 }

/-- Just over. -/
def young : JobRecord :=
  { begun with
    id := ⟨"jb-2-00000000", second_accepted⟩, state := .done, createdAtS := 1, updatedAtS := 100000 }

/-- Of the builds of three commits the first has no worktree any more; the job of the second
runs. -/
def stocking : List Move :=
  [.fetch "a", .build "a" (some 1), .fetch begun.spec.sha.text, .checkout begun.spec.sha.text,
    .build begun.spec.sha.text (some 2), .fetch "b", .checkout "b", .build "b" (some 3),
    .save old, .save begun, .save young, .run (some begun.id)]

def stocked : Cache := stocking.foldl (fun c m => (c.step keepOne m).getD c) emptyCache

def listed : List (String × Option Nat) :=
  [("a", some 1), ("b", some 3), (begun.spec.sha.text, some 2)]

/-- Without the old job and the first build. -/
def trimmed : Cache :=
  { stocked with
    store := (emptyCache.store.save begun).save young
    builds := stocked.builds.remove "a"
    worktrees := stocked.worktrees.remove "a" }

theorem retain_stocked : stocked.retain keepOne 100001 listed = trimmed := by
  have records : stocked.store.records = [old, begun, young] := by decide +kernel
  have over_ : finished stocked.store = [young, old] := by
    rw [finished, JobStore.list, records, List.mergeSort_of_pairwise (by decide)]
    decide +kernel
  have jobs : pruneJobs keepOne 100001 stocked.store = (emptyCache.store.save begun).save young := by
    rw [pruneJobs, over_]
    decide +kernel
  have builds : beyond keepOne listed = [begun.spec.sha.text, "a"] := by decide +kernel
  have sha : ({ stocked with store := (emptyCache.store.save begun).save young } : Cache).runningSha =
      some begun.spec.sha.text := rfl
  have other : some begun.spec.sha.text ≠ some "a" := by decide
  simp only [retain, jobs, builds, sha, List.foldl_cons, List.foldl_nil, if_neg other, if_true,
    removeBuild, trimmed]

/-- The retention deletes a build and a record; another, with a job running still, may be made. -/
theorem retention_spares_running :
    Run (step keepOne) (Careful keepOne) emptyCache (stocking ++ [Move.retain 100001 listed]) trimmed ∧
      (trimmed.worktree "a").2 = .ok () ∧
      Spared keepOne 200001 trimmed (trimmed.retain keepOne 200001 trimmed.builds.entries) := by
  have stocks : Run (step keepOne) (Careful keepOne) emptyCache stocking stocked := .of_replay rfl
  have careful : Careful keepOne stocked (.retain 100001 listed) := by decide +kernel
  have moved : stocked.step keepOne (.retain 100001 listed) = some trimmed := by
    rw [step_retain (by decide +kernel), retain_stocked]
  have run := Path.append stocks (.cons ⟨careful, moved⟩ (.nil _))
  obtain ⟨opens, spares⟩ := retention_spares keepOne emptyCache_sound run
  refine ⟨run, opens "a" rfl, spares 200001 _ _ ?_ (step_retain (.refl _))⟩
  decide +kernel

/-- Two commits are built; the older build is deleted, and its worktree with it. -/
def twoBuilt : List Move :=
  [.fetch "a", .checkout "a", .build "a" (some 1), .fetch "b", .checkout "b", .build "b" (some 2),
    .retain 5 [("a", some 1), ("b", some 2)]]

theorem deleted_worktree_refused : ∃ d, Run (step keepOne) Free emptyCache twoBuilt d ∧
    d.commits "a" = true ∧ (d.worktree "a").2 = .error .alreadyRegistered := by
  have facts : (replay (step keepOne) Free emptyCache twoBuilt).map
      (fun d => (d.commits "a", (d.worktree "a").2)) = some (true, .error .alreadyRegistered) := by
    rfl
  obtain ⟨d, ran, facts⟩ := Option.map_eq_some_iff.mp facts
  exact ⟨d, .of_replay ran, congrArg Prod.fst facts, congrArg Prod.snd facts⟩

end Instances

end Cache

end Bench
end Metralectl
