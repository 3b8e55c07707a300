import Metralectl.Bench.Served

/-!
One job a key. A submission looks its key up, counts the queue, creates its job and indexes the key
in separate steps, so that another can be between any two of them. As long as no two that meet in the
index overlap, and each counts the places the others are about to take, a key names one job for good.
-/
namespace Metralectl
namespace Bench
open SortedMaps Programs Runs JobStore Machine

/-- What a job's record has of its submission for good. -/
def JobStore.known (s : JobStore) (id : JobId) : Option (JobKey × JobSpec) :=
  (s.load id).toOption.map fun r => (r.key, r.spec)

/-- Whether the files of two keys meet in the index: the entries themselves, or the temporary files
they are renamed from. -/
def Meet (pid : UInt32) (k k' : JobKey) : Prop :=
  k = k' ∨ temporary pid k.text = k'.text ∨ temporary pid k'.text = k.text ∨
    temporary pid k.text = temporary pid k'.text

instance (pid : UInt32) (k k' : JobKey) : Decidable (Meet pid k k') := inferInstanceAs (Decidable (_ ∨ _))

namespace Call

/-- The key of a submission that has looked it up and may still create its job. -/
def pending : Call → Option JobKey
  | .counting a | .probing a _ | .creating a _ _ _ => some a.key
  | _ => none

/-- The job that is being created. -/
def creates : Call → Option JobId
  | .creating _ job _ _ => some job.id
  | _ => none

/-- The job that is recorded and whose key is not indexed yet. -/
def unindexed : Call → Option JobId
  | .creating _ job _ .index | .creating _ job _ .rename => some job.id
  | _ => none

/-- The file an index entry is about to be renamed from. -/
def temp (pid : UInt32) : Call → Option String
  | .creating a _ _ .rename => some (temporary pid a.key.text)
  | _ => none

/-- Whether it takes a place in the queue that is not counted yet. -/
def reserves : Call → Bool
  | .probing _ _ | .creating _ _ _ .look | .creating _ _ _ .make | .creating _ _ _ .save => true
  | _ => false

/-- When a call may go on beside the others. -/
def Apart (n : Node) (h : Host) (calls : List Call) (o : Outside) : Call → Prop
  | .looking a => o.fails = false → (∀ c ∈ calls, c.temp n.pid ≠ some a.key.text) ∧
      (h.store.spot a.key.text = .missing → ¬(a.key.text = "." ∨ a.key.text = "..") ∧
        (∀ r ∈ h.store.records, temporary n.pid a.key.text ≠ r.key.text) ∧
        ∀ c ∈ calls, ∀ k ∈ c.pending, ¬Meet n.pid a.key k)
  | .counting _ => o.fails = false → h.queued.length < n.queueDepth.toNat →
      h.queued.length + calls.countP Call.reserves < n.queueDepth.toNat
  | .probing a _ => ∀ c ∈ calls, c.creates ≠ some (mintId n.digest o.clock a.key a.sender)
  | .creating _ _ _ .look => o.faults.fails .lookDir = false
  | .creating _ _ _ .index =>
      o.faults.fails .makeIndexDir = false ∧ o.faults.fails .writeIndexEntry = false
  | .creating _ _ _ .rename => o.faults.fails .renameIndexEntry = false
  | _ => True

end Call

namespace World

/-- A key names one job, which every accepted submission of it names and which is of its spec; the
queue is not longer than it may be. -/
structure Idempotent (n : Node) (w : World) : Prop where
  one : ∀ id id' r r', w.host.store.load id = .ok r → w.host.store.load id' = .ok r' →
    r.key = r'.key → id = id'
  accepted : ∀ a id existing state position,
    .submitted a (.accepted id existing state position) ∈ w.calls →
      ∃ r, w.host.store.load id = .ok r ∧ r.key = a.key ∧ r.spec = a.spec
  room : w.host.queued.length ≤ n.queueDepth.toNat

/-- A submission looks its key up while nobody is about to rename a file of that name; where no job
has the key, it is no path of a directory, its temporary file is no job's entry, and it meets no key
of which a job may still be created. It counts the places that are about to be taken, mints no id
that another has, and once its job is recorded nothing fails. -/
def Apart (n : Node) (w : World) : Move → Prop
  | .resume i o => ∀ c, w.calls[i]? = some c → c.Apart n w.host w.calls o
  | _ => True

end World

namespace JobStore
variable {s t : JobStore} {id : JobId} {r : JobRecord} {k : JobKey} {name temp content : String}

theorem known_eq_some {x : JobKey × JobSpec} :
    s.known id = some x ↔ ∃ r, s.load id = .ok r ∧ (r.key, r.spec) = x := by
  unfold known
  cases s.load id <;> simp [Except.toOption]

theorem known_eq_none : s.known id = none ↔ ∀ r, s.load id ≠ .ok r := by
  unfold known
  cases s.load id <;> simp [Except.toOption]

theorem known_save : (s.save r).known id = if id = r.id then some (r.key, r.spec) else s.known id := by
  unfold known
  rw [load_save]
  split <;> rfl

theorem known_congr (same : ∀ id, t.load id = s.load id) (id : JobId) : t.known id = s.known id := by
  rw [known, known, same]

/-- The stem of a name that has a dot after its start. -/
theorem fileStem_dot {front back : List Char} (some_ : front ≠ []) (last : '.' ∉ back) :
    fileStem (String.ofList (front ++ '.' :: back)) = String.ofList front := by
  have dropped : ((front ++ '.' :: back).reverse.dropWhile (· ≠ '.')).drop 1 = front.reverse := by
    rw [List.reverse_append, List.reverse_cons, List.append_assoc, List.dropWhile_append_of_pos]
    · rfl
    · intro c here
      refine decide_eq_true fun it => last ?_
      rw [← it]
      exact List.mem_reverse.mp here
  rw [fileStem, String.toList_ofList, dropped, List.reverse_reverse, if_neg some_]

/-- No temporary file has the name it is for. -/
theorem temporary_ne (pid : UInt32) (name : String) : temporary pid name ≠ name := by
  intro same
  have digits : '.' ∉ Nat.toDigits 10 pid.toNat := by
    intro here
    exact absurd (Nat.isDigit_of_mem_toDigits (by decide) (by decide) here) (by decide)
  have text : name = String.ofList ((fileStem name).toList ++ ".tmp".toList ++
      '.' :: Nat.toDigits 10 pid.toNat) := by
    refine String.toList_inj.mp ?_
    conv_lhs => rw [← same]
    simp [temporary, toString]
  have stem := @fileStem_dot ((fileStem name).toList ++ ".tmp".toList) _ (by simp) digits
  rw [← text] at stem
  have lengths := congrArg (fun s : String => s.toList.length) stem
  simp at lengths

theorem named_congr (spot : t.spot k.text = s.spot k.text) : t.named k = s.named k := by
  rw [named, named, spot]

/-- The files of the index after one is written. -/
theorem spot_written (plain : ¬(name = "." ∨ name = "..")) :
    (s.makeIndex.writeIndex temp content).spot name =
      if name = temp then .file content else s.spot name := by
  have files : (s.makeIndex.writeIndex temp content).index =
      some ((s.index.getD .empty).insert temp content) := rfl
  rw [spot, files]
  simp only [if_neg plain, SortedMap.get?_insert]
  by_cases same : name = temp
  · rw [if_pos same, if_pos same]
  · rw [if_neg same, if_neg same, spot]
    cases s.index with
    | none => simp
    | some files => simp [plain]

theorem spot_file (there : s.spot name = .file content) :
    ¬(name = "." ∨ name = "..") ∧ ∃ files, s.index = some files ∧ files.get? name = some content := by
  unfold spot at there
  split at there
  · cases there
  · next files has =>
      split at there
      · cases there
      · next plain =>
          refine ⟨plain, files, has, ?_⟩
          split at there
          · next found =>
              cases there
              exact found
          · cases there

/-- The files of the index after one is renamed. -/
theorem spot_renamed {target : String} (there : s.spot temp = .file content)
    (plain : ¬(name = "." ∨ name = "..")) :
    (s.renameIndex temp target).spot name =
      if name = target then .file content else if name = temp then .missing else s.spot name := by
  obtain ⟨-, files, has, found⟩ := spot_file there
  have renamed : (s.renameIndex temp target).index =
      some ((files.remove temp).insert target content) := by
    unfold renameIndex
    simp only [has, Option.map_some, found]
  rw [spot, renamed]
  simp only [if_neg plain, SortedMap.get?_insert, SortedMap.get?_remove]
  by_cases same : name = target
  · rw [if_pos same, if_pos same]
  · rw [if_neg same, if_neg same]
    by_cases beside : name = temp
    · rw [if_pos beside, if_pos beside]
    · rw [if_neg beside, if_neg beside, spot, has]
      simp [plain]

end JobStore

section Ledgers
variable {n : Node} {s t : JobStore} {queued queued' : Nat} {calls rest : List Call} {c d e : Call}
variable {pid : UInt32}

/-- No job has the key or its entry, nor has its temporary file the name of a job's entry. -/
structure Unheard (pid : UInt32) (s : JobStore) (k : JobKey) : Prop where
  plain : ¬(k.text = "." ∨ k.text = "..")
  missing : s.spot k.text = .missing
  beside : ∀ id k' spec, s.known id = some (k', spec) → temporary pid k.text ≠ k'.text
  fresh : ∀ id k' spec, s.known id = some (k', spec) → k' ≠ k

/-- The job is recorded, and its key can be indexed. -/
structure Recorded (pid : UInt32) (s : JobStore) (id : JobId) (k : JobKey) (spec : JobSpec) : Prop where
  plain : ¬(k.text = "." ∨ k.text = "..")
  missing : s.spot k.text = .missing
  known : s.known id = some (k, spec)
  beside : ∀ id k' spec, s.known id = some (k', spec) → k' ≠ k → temporary pid k.text ≠ k'.text

/-- What a call relies on. -/
def CallSound (pid : UInt32) (s : JobStore) : Call → Prop
  | .placing a x => s.known x.id = some (a.key, a.spec)
  | .counting a | .probing a _ => Unheard pid s a.key
  | .creating a job _ stage => (job.key = a.key ∧ job.spec = a.spec) ∧
      match stage with
      | .look => Unheard pid s a.key
      | .make | .save => Unheard pid s a.key ∧ s.known job.id = none
      | .index => Recorded pid s job.id a.key a.spec
      | .rename => Recorded pid s job.id a.key a.spec ∧
          s.spot (temporary pid a.key.text) = .file job.id.text
  | .queueing a job _ => s.known job.id = some (a.key, a.spec)
  | .submitted a (.accepted id _ _ _) => s.known id = some (a.key, a.spec)
  | .ending id job | .recording id job =>
      job.id = id ∧ job.state ≠ .queued ∧ s.known id = some (job.key, job.spec)
  | _ => True

/-- Two submissions do not meet, nor create one job. -/
def Clear (pid : UInt32) (c d : Call) : Prop :=
  (∀ k ∈ c.pending, ∀ k' ∈ d.pending, ¬Meet pid k k') ∧ ∀ id ∈ c.creates, d.creates ≠ some id

/-- The jobs on disk, their index, the queue and the calls at hand. -/
structure Ledger (n : Node) (s : JobStore) (queued : Nat) (calls : List Call) : Prop where
  filed : Filed s
  one : ∀ id id' k spec spec', s.known id = some (k, spec) → s.known id' = some (k, spec') → id = id'
  indexed : ∀ id k spec, s.known id = some (k, spec) →
    s.spot k.text = .file id.text ∨ ∃ c ∈ calls, c.unindexed = some id
  named : ∀ k id, s.named k = some id →
    (∃ spec, s.known id = some (k, spec)) ∨ ∃ c ∈ calls, c.temp n.pid = some k.text
  sound : ∀ c ∈ calls, CallSound n.pid s c
  clear : calls.Pairwise (Clear n.pid)
  room : queued + calls.countP Call.reserves ≤ n.queueDepth.toNat

theorem Meet.symm {k k' : JobKey} (meet : Meet pid k k') : Meet pid k' k := by
  obtain same | temp | temp | temps := meet
  · exact .inl same.symm
  · exact .inr (.inr (.inl temp))
  · exact .inr (.inl temp)
  · exact .inr (.inr (.inr temps.symm))

theorem Clear.symm (clear : Clear pid c d) : Clear pid d c := by
  refine ⟨fun k here k' there meet => clear.1 k' there k here meet.symm, ?_⟩
  intro id here there
  exact clear.2 id there here

/-- A call that neither has a key pending nor creates a job is clear of all. -/
theorem Clear.of_none (pending : c.pending = none) (creates : c.creates = none) : Clear pid c d := by
  constructor
  · rw [pending]
    exact fun _ here => nomatch here
  · rw [creates]
    exact fun _ here => nomatch here

theorem Ledger.perm {calls' : List Call} (ledger : Ledger n s queued calls) (perm : calls.Perm calls') :
    Ledger n s queued calls' where
  filed := ledger.filed
  one := ledger.one
  indexed := fun id k spec known => (ledger.indexed id k spec known).imp_right fun ⟨c, here, at_⟩ =>
    ⟨c, perm.subset here, at_⟩
  named := fun k id names => (ledger.named k id names).imp_right fun ⟨c, here, at_⟩ =>
    ⟨c, perm.subset here, at_⟩
  sound := fun c here => ledger.sound c (perm.symm.subset here)
  clear := (perm.pairwise_iff fun clear => clear.symm).mp ledger.clear
  room := by
    rw [← perm.countP_eq]
    exact ledger.room

theorem Unheard.congr {k : JobKey} (unheard : Unheard pid s k)
    (known : ∀ id, t.known id = s.known id) (spot : t.spot k.text = s.spot k.text) : Unheard pid t k :=
  ⟨unheard.plain, spot.trans unheard.missing, fun id k' spec there => unheard.beside id k' spec (known id ▸ there),
    fun id k' spec there => unheard.fresh id k' spec (known id ▸ there)⟩

theorem Recorded.congr {id : JobId} {k : JobKey} {spec : JobSpec} (recorded : Recorded pid s id k spec)
    (known : ∀ id, t.known id = s.known id) (spot : t.spot k.text = s.spot k.text) :
    Recorded pid t id k spec :=
  ⟨recorded.plain, spot.trans recorded.missing, (known id).trans recorded.known,
    fun id k' spec there => recorded.beside id k' spec (known id ▸ there)⟩

/-- Where no record changes, what a call relies on is the entry of its key and its temporary file. -/
theorem CallSound.congr (sound : CallSound pid s c) (known : ∀ id, t.known id = s.known id)
    (spot : ∀ k ∈ c.pending, ¬(k.text = "." ∨ k.text = "..") → t.spot k.text = s.spot k.text ∧
      t.spot (temporary pid k.text) = s.spot (temporary pid k.text)) : CallSound pid t c := by
  cases c with
  | counting a | probing a depth => exact Unheard.congr sound known (spot _ rfl sound.plain).1
  | placing _ _ | queueing _ _ _ | ending _ _ | recording _ _ => simpa only [CallSound, known] using sound
  | creating a job depth stage =>
      obtain ⟨mine, rest⟩ := sound
      refine ⟨mine, ?_⟩
      cases stage with
      | look => exact Unheard.congr rest known (spot _ rfl rest.plain).1
      | make | save => exact ⟨rest.1.congr known (spot _ rfl rest.1.plain).1, (known _).trans rest.2⟩
      | index => exact Recorded.congr rest known (spot _ rfl rest.plain).1
      | rename =>
          obtain ⟨own, temp⟩ := spot _ rfl rest.1.plain
          exact ⟨rest.1.congr known own, temp.trans rest.2⟩
  | submitted a rep =>
      cases rep with
      | accepted _ _ _ _ => simpa only [CallSound, known] using sound
      | _ => trivial
  | _ => trivial

theorem Call.creating_of_unindexed {id : JobId} (unindexed : c.unindexed = some id) :
    ∃ a job depth stage, c = .creating a job depth stage ∧ job.id = id ∧
      (stage = .index ∨ stage = .rename) := by
  unfold Call.unindexed at unindexed
  split at unindexed
  · exact ⟨_, _, _, _, rfl, Option.some.inj unindexed, .inl rfl⟩
  · exact ⟨_, _, _, _, rfl, Option.some.inj unindexed, .inr rfl⟩
  · cases unindexed

theorem others {P : Call → Prop} (h : ∃ e ∈ c :: rest, P e) (not : ¬P c) : ∃ e ∈ d :: rest, P e := by
  obtain ⟨e, here, holds⟩ := h
  cases List.mem_cons.mp here with
  | inl it => exact absurd (it ▸ holds) not
  | inr old => exact ⟨e, List.mem_cons_of_mem _ old, holds⟩

/-- A call goes on to another and no record or entry changes. -/
theorem Ledger.moved (ledger : Ledger n s queued (c :: rest)) (filed : Filed t)
    (known : ∀ id, t.known id = s.known id) (spot : ∀ name, t.spot name = s.spot name)
    (unindexed : c.unindexed = none) (temp : c.temp n.pid = none) (sound : CallSound n.pid t d)
    (clear : ∀ e ∈ rest, Clear n.pid d e)
    (room : queued' + (d :: rest).countP Call.reserves ≤ n.queueDepth.toNat) :
    Ledger n t queued' (d :: rest) where
  filed := filed
  one := by
    intro id id' k spec spec' here there
    rw [known] at here there
    exact ledger.one id id' k spec spec' here there
  indexed := by
    intro id k spec there
    rw [known] at there
    rw [spot]
    refine (ledger.indexed id k spec there).imp_right fun left => others left ?_
    rw [unindexed]
    exact nofun
  named := by
    intro k id names
    rw [named_congr (spot _)] at names
    rw [known]
    refine (ledger.named k id names).imp_right fun left => others left ?_
    rw [temp]
    exact nofun
  sound := by
    intro e here
    cases List.mem_cons.mp here with
    | inl it => rw [it]; exact sound
    | inr old => exact (ledger.sound e (List.mem_cons_of_mem _ old)).congr known fun _ _ _ => ⟨spot _, spot _⟩
  clear := List.pairwise_cons.mpr ⟨clear, (List.pairwise_cons.mp ledger.clear).2⟩
  room := room

theorem Ledger.apart (ledger : Ledger n s queued (c :: rest)) (here : e ∈ rest) : Clear n.pid c e :=
  (List.pairwise_cons.mp ledger.clear).1 e here

/-- A call that takes no new place leaves the queue its room. -/
theorem Ledger.spared (ledger : Ledger n s queued (c :: rest)) (fewer : queued' ≤ queued)
    (reserves : d.reserves = true → c.reserves = true) :
    queued' + (d :: rest).countP Call.reserves ≤ n.queueDepth.toNat := by
  have room := ledger.room
  rw [List.countP_cons] at room ⊢
  by_cases takes : d.reserves = true
  · rw [if_pos takes]
    rw [if_pos (reserves takes)] at room
    omega
  · rw [if_neg takes]
    omega

/-- A call enters, or goes on, that has neither a key pending nor a job to create. -/
theorem Ledger.entered (ledger : Ledger n s queued calls) (sound : CallSound n.pid s d)
    (pending : d.pending = none) (creates : d.creates = none) (reserves : d.reserves = false) :
    Ledger n s queued (d :: calls) where
  filed := ledger.filed
  one := ledger.one
  indexed := fun id k spec known => (ledger.indexed id k spec known).imp_right fun ⟨c, here, at_⟩ =>
    ⟨c, List.mem_cons_of_mem _ here, at_⟩
  named := fun k id names => (ledger.named k id names).imp_right fun ⟨c, here, at_⟩ =>
    ⟨c, List.mem_cons_of_mem _ here, at_⟩
  sound := by
    intro e here
    cases List.mem_cons.mp here with
    | inl it => rw [it]; exact sound
    | inr old => exact ledger.sound e old
  clear := List.pairwise_cons.mpr ⟨fun e _ => .of_none pending creates, ledger.clear⟩
  room := by
    rw [List.countP_cons_of_neg (by simp [reserves])]
    exact ledger.room

/-- What others write into records keeps it. -/
theorem Ledger.quiet (ledger : Ledger n s queued calls) (known : ∀ id, t.known id = s.known id)
    (spot : ∀ name, t.spot name = s.spot name) (filed : Filed t) (fewer : queued' ≤ queued) :
    Ledger n t queued' calls where
  filed := filed
  one := by
    intro id id' k spec spec' here there
    rw [known] at here there
    exact ledger.one id id' k spec spec' here there
  indexed := by
    intro id k spec there
    rw [known] at there
    rw [spot]
    exact ledger.indexed id k spec there
  named := by
    intro k id names
    rw [named_congr (spot _)] at names
    rw [known]
    exact ledger.named k id names
  sound := fun c here => (ledger.sound c here).congr known fun _ _ _ => ⟨spot _, spot _⟩
  clear := ledger.clear
  room := (Nat.add_le_add_right fewer _).trans ledger.room

/-- A job is recorded of which no key is indexed yet. -/
theorem CallSound.recorded {x : JobId} {k : JobKey} {spec : JobSpec} (sound : CallSound pid s e)
    (known : ∀ id, t.known id = if id = x then some (k, spec) else s.known id)
    (new : s.known x = none) (spot : ∀ name, t.spot name = s.spot name)
    (apart : ∀ k' ∈ e.pending, ¬Meet pid k k') (other : e.creates ≠ some x) : CallSound pid t e := by
  have keeps {id : JobId} {y : JobKey × JobSpec} (there : s.known id = some y) : t.known id = some y := by
    rw [known, if_neg]
    · exact there
    · rintro rfl
      rw [new] at there
      cases there
  have cases_ {id : JobId} {k' : JobKey} {spec' : JobSpec} (there : t.known id = some (k', spec')) :
      k' = k ∨ s.known id = some (k', spec') := by
    rw [known] at there
    split at there
    · cases there
      exact .inl rfl
    · exact .inr there
  have unheard {k' : JobKey} (unheard : Unheard pid s k') (apart : ¬Meet pid k k') : Unheard pid t k' := by
    refine ⟨unheard.plain, (spot _).trans unheard.missing, fun id k'' spec' there => ?_, fun id k'' spec' there => ?_⟩
    · obtain rfl | old := cases_ there
      · exact fun same => apart (.inr (.inr (.inl same)))
      · exact unheard.beside id k'' spec' old
    · obtain rfl | old := cases_ there
      · exact fun same => apart (.inl same)
      · exact unheard.fresh id k'' spec' old
  have recorded {id : JobId} {k' : JobKey} {spec' : JobSpec} (there : Recorded pid s id k' spec')
      (apart : ¬Meet pid k k') : Recorded pid t id k' spec' := by
    refine ⟨there.plain, (spot _).trans there.missing, keeps there.known, fun id k'' spec' here => ?_⟩
    obtain rfl | old := cases_ here
    · exact fun _ same => apart (.inr (.inr (.inl same)))
    · exact there.beside id k'' spec' old
  cases e with
  | counting a | probing a depth => exact unheard sound (apart a.key rfl)
  | placing a x => exact keeps sound
  | queueing a job depth => exact keeps sound
  | ending id job | recording id job => exact ⟨sound.1, sound.2.1, keeps sound.2.2⟩
  | creating a job depth stage =>
      obtain ⟨mine, rest⟩ := sound
      refine ⟨mine, ?_⟩
      cases stage with
      | look => exact unheard rest (apart a.key rfl)
      | make | save =>
          refine ⟨unheard rest.1 (apart a.key rfl), ?_⟩
          rw [known, if_neg fun same => other (congrArg some same)]
          exact rest.2
      | index => exact recorded rest (apart a.key rfl)
      | rename => exact ⟨recorded rest.1 (apart a.key rfl), (spot _).trans rest.2⟩
  | submitted a rep =>
      cases rep with
      | accepted _ _ _ _ => exact keeps sound
      | _ => trivial
  | _ => trivial

/-- The record of a new job is put in its place. -/
theorem Ledger.recorded {a : Asked} {job : JobRecord} {depth : UInt32}
    (ledger : Ledger n s queued (.creating a job depth .save :: rest)) (fewer : queued' ≤ queued + 1) :
    Ledger n (s.save job) queued' (.creating a job depth .index :: rest) := by
  obtain ⟨⟨key, spec⟩, unheard, new⟩ := ledger.sound _ List.mem_cons_self
  have known (id : JobId) : (s.save job).known id =
      if id = job.id then some (a.key, a.spec) else s.known id := by
    rw [known_save, key, spec]
  have old {id : JobId} {x : JobKey × JobSpec} (there : s.known id = some x) : id ≠ job.id := by
    rintro rfl
    rw [new] at there
    cases there
  have fresh {id : JobId} {spec' : JobSpec} (there : (s.save job).known id = some (a.key, spec')) :
      id = job.id := by
    by_contra other
    rw [known, if_neg other] at there
    exact unheard.fresh id a.key spec' there rfl
  have back {id : JobId} {x : JobKey × JobSpec} (other : id ≠ job.id)
      (there : (s.save job).known id = some x) : s.known id = some x := by
    rwa [known, if_neg other] at there
  have spot (name : String) : (s.save job).spot name = s.spot name := rfl
  have room := ledger.room
  rw [List.countP_cons_of_pos rfl] at room
  refine ⟨filed_saved ledger.filed job, ?_, ?_, ?_, ?_, ?_, ?_⟩
  · intro id id' k spec spec' here there
    by_cases mine : k = a.key
    · subst mine
      rw [fresh here, fresh there]
    · have apart {id : JobId} {spec : JobSpec} (at_ : (s.save job).known id = some (k, spec)) :
          id ≠ job.id := by
        rintro rfl
        rw [known, if_pos rfl] at at_
        cases at_
        exact mine rfl
      exact ledger.one id id' k spec spec' (back (apart here) here) (back (apart there) there)
  · intro id k spec there
    by_cases it : id = job.id
    · exact .inr ⟨_, List.mem_cons_self, congrArg some it.symm⟩
    · exact (ledger.indexed id k spec (back it there)).imp_right fun left => others left fun it => by cases it
  · intro k id names
    refine (ledger.named k id names).imp (fun ⟨spec, there⟩ => ⟨spec, ?_⟩) fun left => others left fun it => by cases it
    rw [known, if_neg (old there)]
    exact there
  · intro e here
    cases List.mem_cons.mp here with
    | inl it =>
        rw [it]
        refine ⟨⟨key, spec⟩, unheard.plain, unheard.missing, (known _).trans (if_pos rfl), fun id k' spec' there other => ?_⟩
        refine unheard.beside id k' spec' (back ?_ there)
        rintro rfl
        rw [known, if_pos rfl] at there
        cases there
        exact other rfl
    | inr there =>
        have apart := ledger.apart there
        refine (ledger.sound e (List.mem_cons_of_mem _ there)).recorded known new spot ?_ ?_
        · exact fun k' here => apart.1 a.key rfl k' here
        · exact apart.2 job.id rfl
  · exact List.pairwise_cons.mpr ⟨fun e here => ledger.apart here, (List.pairwise_cons.mp ledger.clear).2⟩
  · rw [List.countP_cons_of_neg (by simp [Call.reserves])]
    omega

/-- Its index entry is written beside those there are. -/
theorem Ledger.written {a : Asked} {job : JobRecord} {depth : UInt32}
    (ledger : Ledger n s queued (.creating a job depth .index :: rest)) :
    Ledger n (s.makeIndex.writeIndex (temporary n.pid a.key.text) job.id.text) queued
      (.creating a job depth .rename :: rest) := by
  obtain ⟨mine, plain, missing, there, beside⟩ := ledger.sound _ List.mem_cons_self
  have filled {name : String} (plain : ¬(name = "." ∨ name = "..")) := @spot_written s name
    (temporary n.pid a.key.text) job.id.text plain
  have known (id : JobId) : (s.makeIndex.writeIndex (temporary n.pid a.key.text) job.id.text).known id =
      s.known id := rfl
  refine ⟨ledger.filed, ledger.one, ?_, ?_, ?_, ?_, ?_⟩
  · intro id k spec here
    obtain entry | left := ledger.indexed id k spec here
    · by_cases same : k = a.key
      · subst same
        exact .inr ⟨_, List.mem_cons_self, congrArg some (ledger.one _ _ _ _ _ there here)⟩
      · refine .inl ?_
        rw [filled (spot_file entry).1, if_neg fun it => beside id k spec here same it.symm]
        exact entry
    · obtain ⟨e, at_, unindexed⟩ := left
      cases List.mem_cons.mp at_ with
      | inl it =>
          rw [it] at unindexed
          exact .inr ⟨_, List.mem_cons_self, unindexed⟩
      | inr old => exact .inr ⟨e, List.mem_cons_of_mem _ old, unindexed⟩
  · intro k id names
    by_cases dots : k.text = "." ∨ k.text = ".."
    · rw [named_dots dots] at names
      cases names
    · by_cases same : k.text = temporary n.pid a.key.text
      · exact .inr ⟨_, List.mem_cons_self, congrArg some same.symm⟩
      · rw [named_congr ((filled dots).trans (if_neg same))] at names
        exact (ledger.named k id names).imp_right fun left => others left fun it => by cases it
  · intro e here
    cases List.mem_cons.mp here with
    | inl it =>
        rw [it]
        refine ⟨mine, ⟨plain, ?_, there, beside⟩, (filled temporary_plain).trans (if_pos rfl)⟩
        rw [filled plain, if_neg (temporary_ne _ _).symm]
        exact missing
    | inr old =>
        refine (ledger.sound e (List.mem_cons_of_mem _ old)).congr known fun k pending plain => ?_
        have apart := (ledger.apart old).1 a.key rfl k pending
        rw [filled plain, if_neg fun it => apart (.inr (.inl it.symm)), filled temporary_plain,
          if_neg fun it => apart (.inr (.inr (.inr it.symm)))]
        exact ⟨rfl, rfl⟩
  · exact List.pairwise_cons.mpr ⟨fun e here => ledger.apart here, (List.pairwise_cons.mp ledger.clear).2⟩
  · exact ledger.spared le_rfl fun takes => absurd takes Bool.false_ne_true

/-- The entry is in its place. -/
theorem Ledger.renamed {a : Asked} {job : JobRecord} {depth : UInt32}
    (ledger : Ledger n s queued (.creating a job depth .rename :: rest)) :
    Ledger n (s.renameIndex (temporary n.pid a.key.text) a.key.text) queued
      (.queueing a job depth :: rest) := by
  obtain ⟨mine, ⟨plain, _, there, beside⟩, temp⟩ := ledger.sound _ List.mem_cons_self
  have moved {name : String} (plain : ¬(name = "." ∨ name = "..")) := @spot_renamed s name
    (temporary n.pid a.key.text) job.id.text a.key.text temp plain
  have known (id : JobId) : (s.renameIndex (temporary n.pid a.key.text) a.key.text).known id =
      s.known id := rfl
  refine ⟨ledger.filed, ledger.one, ?_, ?_, ?_, ?_, ?_⟩
  · intro id k spec here
    by_cases same : k = a.key
    · subst same
      refine .inl ?_
      rw [moved plain, if_pos rfl, ledger.one _ _ _ _ _ there here]
    · obtain entry | left := ledger.indexed id k spec here
      · refine .inl ?_
        rw [moved (spot_file entry).1, if_neg fun it => same (Token.ext it),
          if_neg fun it => beside id k spec here same it.symm]
        exact entry
      · refine .inr (others left ?_)
        intro unindexed
        cases unindexed
        have it := there.symm.trans here
        cases it
        exact same rfl
  · intro k id names
    by_cases dots : k.text = "." ∨ k.text = ".."
    · rw [named_dots dots] at names
      cases names
    · by_cases same : k.text = a.key.text
      · have entry := (moved dots).trans (if_pos same)
        rw [JobStore.named, entry] at names
        have it := (parse_id job.id).symm.trans names
        cases it
        rw [Token.ext same]
        exact .inl ⟨a.spec, there⟩
      · by_cases tempSame : k.text = temporary n.pid a.key.text
        · rw [JobStore.named, (moved dots).trans ((if_neg same).trans (if_pos tempSame))] at names
          cases names
        · rw [named_congr ((moved dots).trans ((if_neg same).trans (if_neg tempSame)))] at names
          refine (ledger.named k id names).imp_right fun left => others left ?_
          exact fun it => tempSame (Option.some.inj it).symm
  · intro e here
    cases List.mem_cons.mp here with
    | inl it =>
        rw [it]
        exact there
    | inr old =>
        refine (ledger.sound e (List.mem_cons_of_mem _ old)).congr known fun k pending plain => ?_
        have apart := (ledger.apart old).1 a.key rfl k pending
        rw [moved plain, if_neg fun it => apart (.inl (Token.ext it.symm)),
          if_neg fun it => apart (.inr (.inl it.symm)), moved temporary_plain,
          if_neg fun it => apart (.inr (.inr (.inl it))), if_neg fun it => apart (.inr (.inr (.inr it.symm)))]
        exact ⟨rfl, rfl⟩
  · exact List.pairwise_cons.mpr ⟨fun e _ => .of_none rfl rfl, (List.pairwise_cons.mp ledger.clear).2⟩
  · exact ledger.spared le_rfl fun takes => absurd takes Bool.false_ne_true

/-- A call goes on to one that has nothing at hand. -/
theorem Ledger.leaves (ledger : Ledger n s queued (c :: rest)) (filed : Filed t)
    (known : ∀ id, t.known id = s.known id) (spot : ∀ name, t.spot name = s.spot name)
    (fewer : queued' ≤ queued) (unindexed : c.unindexed = none) (temp : c.temp n.pid = none)
    (sound : CallSound n.pid t d) (pending : d.pending = none) (creates : d.creates = none)
    (reserves : d.reserves = false) : Ledger n t queued' (d :: rest) :=
  ledger.moved filed known spot unindexed temp sound (fun _ _ => .of_none pending creates)
    (ledger.spared fewer fun takes => by rw [reserves] at takes; cases takes)

end Ledgers

section Steps
variable {n : Node} {h t : Host} {s : JobStore} {r : JobRecord} {o : Outside} {c d : Call}
variable {rest : List Call}

theorem nodup_queued (filed : Filed h.store) : h.queued.Nodup :=
  (queued_pairwise filed).imp fun {a b} before (it : a = b) => Precedes.irrefl (it ▸ before)

/-- The queue is no longer than by what is new in it. -/
theorem length_queued {new : List JobRecord} (filed : Filed t.store)
    (from_ : ∀ id x, t.store.load id = .ok x → x.state = .queued → x ∈ new ∨ h.store.load id = .ok x) :
    t.queued.length ≤ h.queued.length + new.length := by
  have covered : t.queued ⊆ h.queued ++ new := by
    intro x here
    obtain ⟨⟨id, there⟩, queued⟩ := mem_queued.mp here
    cases from_ id x there queued with
    | inl it => exact List.mem_append_right _ it
    | inr old => exact List.mem_append_left _ (mem_queued.mpr ⟨⟨id, old⟩, queued⟩)
  have short := ((nodup_queued filed).subperm covered).length_le
  rwa [List.length_append] at short

theorem queued_same (filed : Filed t.store) (load : ∀ id, t.store.load id = h.store.load id) :
    t.queued.length ≤ h.queued.length :=
  @length_queued h t [] filed fun id _ there _ => .inr ((load id).symm.trans there)

theorem queued_save (filed : Filed h.store) (begun : r.state ≠ .queued)
    (store : t.store = h.store.save r) : t.queued.length ≤ h.queued.length := by
  refine @length_queued h t [] (store ▸ filed_saved filed r) fun id x there queued => .inr ?_
  rw [store, load_save] at there
  split at there
  · cases there
    exact absurd queued begun
  · exact there

theorem known_resaved (there : s.known r.id = some (r.key, r.spec)) (id : JobId) :
    (s.save r).known id = s.known id := by
  rw [known_save]
  split
  · next it => rw [it, there]
  · rfl

/-- What is known of a job stays known. -/
def KeepsKnown (s t : JobStore) : Prop := ∀ id x, s.known id = some x → t.known id = some x

theorem KeepsKnown.of_same {t : JobStore} (known : ∀ id, t.known id = s.known id) : KeepsKnown s t :=
  fun id _ there => (known id).trans there

theorem known_of_load {id : JobId} (there : s.load id = .ok r) : s.known id = some (r.key, r.spec) :=
  known_eq_some.mpr ⟨r, there, rfl⟩

/-- What a lookup finds beside no entry that is about to be renamed is a job of the key. -/
theorem Ledger.found {queued : Nat} {k : JobKey} (ledger : Ledger n s queued (c :: rest))
    (still : ∀ e ∈ c :: rest, e.temp n.pid ≠ some k.text) (there : s.byKey k = .ok (some r)) :
    s.known r.id = some (k, r.spec) := by
  have names : ∃ id, s.named k = some id ∧ s.load id = .ok r := by
    unfold JobStore.byKey at there
    split at there
    · cases there
    · cases there
    · next content spot =>
        split at there
        · cases there
        · next id parsed =>
            refine ⟨id, ?_, ?_⟩
            · rw [JobStore.named, spot]
              exact parsed
            · cases loaded : s.load id with
              | ok x => rw [loaded] at there; cases there; rfl
              | error e => rw [loaded] at there; cases there
  obtain ⟨id, named, loaded⟩ := names
  obtain rfl := ledger.filed id r loaded
  obtain ⟨spec, known⟩ | ⟨e, here, temp⟩ := ledger.named k r.id named
  · have it := (known_of_load loaded).symm.trans known
    cases it
    exact known
  · exact absurd temp (still e here)

/-- A key that is looked up in vain, and meets no other's, is unheard of. -/
theorem Ledger.unheard {queued : Nat} {k : JobKey} {calls : List Call} (ledger : Ledger n s queued calls)
    (missing : s.spot k.text = .missing) (plain : ¬(k.text = "." ∨ k.text = ".."))
    (beside : ∀ r ∈ s.records, temporary n.pid k.text ≠ r.key.text)
    (apart : ∀ e ∈ calls, ∀ k' ∈ e.pending, ¬Meet n.pid k k') : Unheard n.pid s k where
  plain := plain
  missing := missing
  beside := by
    intro id k' spec known
    obtain ⟨r, loaded, same⟩ := known_eq_some.mp known
    cases same
    exact beside r (mem_records.mpr ⟨id, loaded⟩)
  fresh := by
    rintro id k' spec known rfl
    obtain entry | ⟨e, here, unindexed⟩ := ledger.indexed id k' spec known
    · rw [missing] at entry
      cases entry
    · have sound := ledger.sound e here
      obtain ⟨a, job, depth, stage, rfl, rfl, same⟩ := Call.creating_of_unindexed unindexed
      have recorded : s.known job.id = some (a.key, a.spec) := by
        obtain rfl | rfl := same
        · exact sound.2.known
        · exact sound.2.1.known
      have it := recorded.symm.trans known
      cases it
      exact apart _ here a.key rfl (.inl rfl)

theorem known_none_of_dirs {id : JobId} (none_ : s.dirs.get? id.text = none) : s.known id = none := by
  refine known_eq_none.mpr fun r there => ?_
  rw [load_eq_ok, none_] at there
  cases there

/-- A call that writes nothing, and holds nothing from then on. -/
theorem Ledger.rests {queued : Nat} (ledger : Ledger n s queued (c :: rest))
    (unindexed : c.unindexed = none) (temp : c.temp n.pid = none) (sound : CallSound n.pid s d)
    (pending : d.pending = none) (creates : d.creates = none) (reserves : d.reserves = false) :
    Ledger n s queued (d :: rest) ∧ KeepsKnown s s :=
  ⟨ledger.leaves ledger.filed (fun _ => rfl) (fun _ => rfl) le_rfl unindexed temp sound pending creates
    reserves, .of_same fun _ => rfl⟩

theorem Ledger.refused {queued : Nat} {a : Asked} {refusal : BenchRefusal}
    (ledger : Ledger n s queued (c :: rest)) (unindexed : c.unindexed = none)
    (temp : c.temp n.pid = none) :
    Ledger n s queued (.submitted a (n.refuse refusal) :: rest) ∧ KeepsKnown s s :=
  ledger.rests unindexed temp trivial rfl rfl rfl

theorem Ledger.created {a : Asked} {job : JobRecord} {depth : UInt32} {stage : CreateStage}
    {u : JobStore} {result : CreateStage ⊕ Except StoreError Unit} {error : String}
    (ledger : Ledger n h.store h.queued.length (.creating a job depth stage :: rest))
    (apart : (Call.creating a job depth stage).Apart n h (.creating a job depth stage :: rest) o)
    (goes : d = match result with
      | .inl stage => .creating a job depth stage
      | .inr (.ok ()) => .queueing a job depth
      | .inr (.error _) => .submitted a (n.refuse (.notConfigured s!"cannot create the job: {error}"
          "check the cache directory")))
    (step : h.store.createStep o.faults n.pid job stage = (u, result)) :
    Ledger n u ({ h with store := u } : Host).queued.length (d :: rest) ∧ KeepsKnown h.store u := by
  subst goes
  have sound := ledger.sound _ List.mem_cons_self
  obtain ⟨mine, sound⟩ := sound
  cases stage with
  | look =>
      simp only [createStep] at step
      split at step
      · cases step
        exact ledger.refused rfl rfl
      · next new =>
          cases step
          have none_ : h.store.dirs.get? job.id.text = none := by
            rw [show o.faults.fails .lookDir = false from apart] at new
            simpa using new
          exact ⟨ledger.moved ledger.filed (fun _ => rfl) (fun _ => rfl) rfl rfl
            ⟨mine, sound, known_none_of_dirs none_⟩ (fun e here => ledger.apart here)
            (ledger.spared le_rfl fun _ => rfl), .of_same fun _ => rfl⟩
  | make =>
      have known (id : JobId) : (h.store.makeDir job.id).known id = h.store.known id :=
        known_congr (fun _ => load_makeDir _) id
      have spot (name : String) : (h.store.makeDir job.id).spot name = h.store.spot name := by
        unfold makeDir
        split <;> rfl
      have filed : Filed (h.store.makeDir job.id) := by
        intro id r there
        rw [load_makeDir] at there
        exact ledger.filed id r there
      have fewer : ({ h with store := h.store.makeDir job.id } : Host).queued.length ≤ h.queued.length :=
        queued_same filed fun _ => load_makeDir _
      simp only [createStep] at step
      split at step
      · cases step
        split
        · exact ⟨ledger.leaves filed known spot fewer rfl rfl trivial rfl rfl rfl, .of_same known⟩
        · exact ledger.refused rfl rfl
      · cases step
        exact ⟨ledger.moved filed known spot rfl rfl ⟨mine, sound.1.congr known (spot _), (known _).trans sound.2⟩
          (fun e here => ledger.apart here) (ledger.spared fewer fun _ => rfl), .of_same known⟩
  | save =>
      simp only [createStep] at step
      split at step
      · cases step
        exact ledger.refused rfl rfl
      · split at step
        · cases step
          exact ledger.refused rfl rfl
        · cases step
          refine ⟨ledger.recorded ?_, fun id x there => ?_⟩
          · refine @length_queued h _ [job] (filed_saved ledger.filed job) fun id x there _ => ?_
            rw [load_save] at there
            split at there
            · cases there
              exact .inl List.mem_cons_self
            · exact .inr there
          · rw [known_save, if_neg]
            · exact there
            · rintro rfl
              rw [sound.2] at there
              cases there
  | index =>
      obtain ⟨makes, writes⟩ := apart
      have plain := not_or.mp sound.plain
      simp only [createStep] at step
      rw [makes, writes, mine.1, if_neg Bool.false_ne_true, if_neg plain.1, if_neg plain.2,
        if_neg Bool.false_ne_true] at step
      cases step
      exact ⟨ledger.written, .of_same fun _ => rfl⟩
  | rename =>
      simp only [createStep] at step
      have named : Spot.file job.id.text ≠ .missing := by
        intro it
        cases it
      rw [show o.faults.fails .renameIndexEntry = false from apart, mine.1, if_neg Bool.false_ne_true,
        sound.2, if_neg named] at step
      cases step
      exact ⟨ledger.renamed, .of_same fun _ => rfl⟩

theorem Ledger.advance (ledger : Ledger n h.store h.queued.length (c :: rest))
    (apart : c.Apart n h (c :: rest) o) (go : h.advance n o c = some (t, d)) :
    Ledger n t.store t.queued.length (d :: rest) ∧ KeepsKnown h.store t.store := by
  cases c with
  | looking a =>
      simp only [Host.advance] at go
      split at go
      · cases go
        exact ledger.refused rfl rfl
      · next works =>
          obtain ⟨still, unknown⟩ := apart (Bool.not_eq_true _ ▸ works)
          split at go
          · next x there =>
              split at go
              · next same =>
                  cases go
                  refine ledger.rests rfl rfl ?_ rfl rfl rfl
                  have known := ledger.found still there
                  rwa [same] at known
              · cases go
                exact ledger.refused rfl rfl
          · next none_ =>
              cases go
              have missing := byKey_eq_none.mp none_
              obtain ⟨plain, beside, apart⟩ := unknown missing
              have unheard := ledger.unheard missing plain beside apart
              refine ⟨ledger.moved ledger.filed (fun _ => rfl) (fun _ => rfl) rfl rfl unheard ?_
                (ledger.spared le_rfl fun takes => absurd takes Bool.false_ne_true), .of_same fun _ => rfl⟩
              intro e here
              refine ⟨fun k pending k' there => ?_, fun _ created => absurd created (Option.not_mem_none _)⟩
              cases pending
              exact apart e (List.mem_cons_of_mem _ here) k' there
          · cases go
            exact ledger.refused rfl rfl
  | placing a x =>
      cases go
      have sound : CallSound n.pid h.store (.placing a x) := ledger.sound _ List.mem_cons_self
      exact ledger.rests rfl rfl sound rfl rfl rfl
  | counting a =>
      simp only [Host.advance] at go
      by_cases fails : o.fails
      · have bounded : n.queueDepth ≤ 0xFFFFFFFF :=
          UInt32.le_iff_toNat_le.mpr (Nat.le_of_lt_succ n.queueDepth.toNat_lt)
        rw [if_pos fails, if_pos bounded] at go
        cases go
        exact ledger.refused rfl rfl
      · rw [if_neg fails] at go
        split at go
        · cases go
          exact ledger.refused rfl rfl
        · next room =>
            cases go
            have below : h.queued.length < 2 ^ 32 :=
              (Nat.le_add_right _ _).trans_lt (ledger.room.trans_lt n.queueDepth.toNat_lt)
            have short := UInt32.lt_iff_toNat_lt.mp (UInt32.not_le.mp room)
            rw [UInt32.toNat_ofNat_of_lt' below] at short
            have unheard : Unheard n.pid h.store a.key := ledger.sound _ List.mem_cons_self
            have left := apart (Bool.not_eq_true _ ▸ fails) short
            rw [List.countP_cons_of_neg (by simp [Call.reserves])] at left
            refine ⟨ledger.moved ledger.filed (fun _ => rfl) (fun _ => rfl) rfl rfl unheard
              (fun _ here => ledger.apart here) ?_, .of_same fun _ => rfl⟩
            rw [List.countP_cons_of_pos rfl]
            omega
  | probing a depth =>
      cases goes_of_advance go with
      | low => exact ledger.refused rfl rfl
      | minted =>
          have unheard : Unheard n.pid h.store a.key := ledger.sound _ List.mem_cons_self
          refine ⟨ledger.moved ledger.filed (fun _ => rfl) (fun _ => rfl) rfl rfl ⟨⟨rfl, rfl⟩, unheard⟩ ?_
            (ledger.spared le_rfl fun _ => rfl), .of_same fun _ => rfl⟩
          intro e here
          refine ⟨(ledger.apart here).1, fun id creates => ?_⟩
          cases creates
          exact apart e (List.mem_cons_of_mem _ here)
  | creating a job depth stage =>
      cases goes_of_advance go with
      | created step => exact ledger.created apart rfl step
  | queueing a job depth =>
      have sound : CallSound n.pid h.store (.queueing a job depth) := ledger.sound _ List.mem_cons_self
      cases goes_of_advance go with
      | queued =>
          split
          · exact ledger.rests rfl rfl sound rfl rfl rfl
          · exact ledger.rests rfl rfl sound rfl rfl rfl
  | ending id job =>
      have sound : CallSound n.pid h.store (.ending id job) := ledger.sound _ List.mem_cons_self
      cases goes_of_advance go with
      | unopened =>
          exact ledger.rests rfl rfl sound rfl rfl rfl
      | ended =>
          split
          · exact ledger.rests rfl rfl sound rfl rfl rfl
          · exact ledger.rests rfl rfl sound rfl rfl rfl
  | recording id job =>
      obtain ⟨rfl, begun, known⟩ := ledger.sound (.recording id job) List.mem_cons_self
      cases goes_of_advance go with
      | recorded =>
          split
          · exact ledger.rests rfl rfl trivial rfl rfl rfl
          · exact ⟨ledger.leaves (filed_saved ledger.filed job) (known_resaved known) (fun _ => rfl)
              (queued_save ledger.filed begun rfl) rfl rfl trivial rfl rfl rfl, .of_same (known_resaved known)⟩
  | signalling id job =>
      cases goes_of_advance go with
      | signalled =>
          split
          · exact ledger.rests rfl rfl trivial rfl rfl rfl
          · exact ledger.rests rfl rfl trivial rfl rfl rfl
  | submitted _ _ => cases go
  | ended _ => cases go
  | answered _ => cases go

end Steps

namespace JobStore
variable {s t : JobStore} {r : JobRecord}

/-- The key of each job names it, and each entry names a job of its key. -/
structure Tidy (s : JobStore) : Prop where
  filed : Filed s
  indexed : ∀ id r, s.load id = .ok r → s.spot r.key.text = .file id.text
  named : ∀ k id, s.named k = some id → ∃ r, s.load id = .ok r ∧ r.key = k

theorem tidy_empty : (JobStore.mk .empty none).Tidy where
  filed := fun _ _ there => nomatch there
  indexed := fun _ _ there => nomatch there
  named := fun _ _ names => nomatch names

/-- A retention takes a job away with its entry. -/
theorem Tidy.removed (tidy : s.Tidy) (there : s.load r.id = .ok r) (removed : s.remove r = .ok t) :
    t.Tidy := by
  have loads (id : JobId) : t.load id = if id = r.id then .error .noJob else s.load id :=
    Line.load_remove removed id
  have own := tidy.indexed r.id r there
  have left {id : JobId} {x : JobRecord} (here : t.load id = .ok x) :
      id ≠ r.id ∧ s.load id = .ok x := by
    rw [loads] at here
    split at here
    · cases here
    · next other => exact ⟨other, here⟩
  have spot (k : JobKey) (other : k ≠ r.key) : t.spot k.text = s.spot k.text := by
    unfold remove at removed
    split at removed
    · cases removed
      unfold JobStore.spot
      cases s.index with
      | none => rfl
      | some files => simp [SortedMap.get?_remove, Token.ext_iff.not.mp other]
    · cases removed
  refine ⟨fun id x here => tidy.filed id x (left here).2, fun id x here => ?_, fun k id names => ?_⟩
  · obtain ⟨other, here⟩ := left here
    have entry := tidy.indexed id x here
    rw [spot]
    · exact entry
    · intro same
      rw [same, own] at entry
      exact other (Token.ext (Spot.file.inj entry).symm)
  · by_cases same : k = r.key
    · have gone : t.named r.key = none := by
        unfold remove at removed
        split at removed
        · cases removed
          obtain ⟨plain, files, has, _⟩ := spot_file own
          simp [JobStore.named, JobStore.spot, has, plain, SortedMap.get?_remove]
        · cases removed
      rw [same, gone] at names
      cases names
    · rw [named_congr (spot k same)] at names
      obtain ⟨x, here, key⟩ := tidy.named k id names
      refine ⟨x, ?_, key⟩
      rw [loads, if_neg]
      · exact here
      · rintro rfl
        rw [there] at here
        cases here
        exact same key.symm

end JobStore

/-- What the worker holds is of a job there is. -/
def Worker.Holds (s : JobStore) : Worker → Prop
  | .idle => True
  | .picked job => s.known job.id = some (job.key, job.spec)
  | .executing id p => ∃ sub, sub.1 = id ∧ Steady sub p ∧ s.known id = some (sub.2.1, sub.2.2.2.1)

structure World.Booked (n : Node) (w : World) : Prop where
  ledger : Ledger n w.host.store w.host.queued.length w.calls
  worker : w.worker.Holds w.host.store

section Worlds
variable {n : Node} {w v : World} {m : Move} {s t : JobStore} {c : Call} {calls calls' : List Call}

theorem Worker.Holds.kept {worker : Worker} (holds : worker.Holds s) (kept : KeepsKnown s t) :
    worker.Holds t := by
  cases worker with
  | idle => trivial
  | picked job => exact kept _ _ holds
  | executing id p =>
      obtain ⟨sub, mine, steady, known⟩ := holds
      exact ⟨sub, mine, steady, kept _ _ known⟩

theorem Call.Apart.perm {h : Host} {o : Outside} (apart : c.Apart n h calls o)
    (perm : calls.Perm calls') : c.Apart n h calls' o := by
  cases c with
  | looking a =>
      intro works
      obtain ⟨still, unknown⟩ := apart works
      refine ⟨fun e here => still e (perm.symm.subset here), fun missing => ?_⟩
      obtain ⟨plain, beside, clear⟩ := unknown missing
      exact ⟨plain, beside, fun e here => clear e (perm.symm.subset here)⟩
  | counting a =>
      intro works short
      rw [← perm.countP_eq]
      exact apart works short
  | probing a depth => exact fun e here => apart e (perm.symm.subset here)
  | creating a job depth stage => cases stage <;> exact apart
  | _ => trivial

/-- A step of the worker writes of its job only what is known of it. -/
theorem World.Booked.worked {id : JobId} {q : Ask} {k : Answer q → Proc Outcome} (booked : w.Booked n)
    (busy : w.worker = .executing id (.ask q k)) (a : Answer q) (spawned : List JobId) :
    World.Booked n { w with
      host := w.host.after id q a, worker := .executing id (k a), spawned := spawned } := by
  have holds := booked.worker
  rw [busy] at holds
  obtain ⟨sub, rfl, steady, known⟩ := holds
  have same {h : Host} (store : h.store = w.host.store) (rest : Steady sub (k a)) : World.Booked n { w with
      host := h, worker := .executing sub.1 (k a), spawned := spawned } := by
    refine ⟨?_, sub, rfl, rest, by rw [store]; exact known⟩
    rw [Host.queued, store]
    exact booked.ledger
  cases steady with
  | other silent rest =>
      cases q with
      | save job => cases silent
      | append kind atMs => cases a <;> exact same rfl (rest _)
      | _ => exact same rfl (rest a)
  | @record job k mine begun last rest =>
      cases a with
      | false => exact same rfl (rest _)
      | true =>
          cases mine
          have kept := known_resaved (r := job) known
          exact ⟨booked.ledger.quiet kept (fun _ => rfl) (filed_saved booked.ledger.filed job)
            (queued_save booked.ledger.filed begun rfl), _, rfl, rest _, (kept _).trans known⟩

theorem World.Booked.resumed {i : Nat} {o : Outside} {d : Call} {h : Host} (booked : w.Booked n)
    (there : w.calls[i]? = some c) (apart : c.Apart n w.host w.calls o)
    (go : w.host.advance n o c = some (h, d)) :
    World.Booked n { w with host := h, calls := w.calls.set i d } := by
  obtain ⟨short, rfl⟩ := List.getElem?_eq_some_iff.mp there
  have before : w.calls.Perm (w.calls[i] :: w.calls.eraseIdx i) :=
    (List.getElem_cons_eraseIdx_perm short).symm
  have after : (d :: w.calls.eraseIdx i).Perm (w.calls.set i d) :=
    (List.set_perm_cons_eraseIdx short d).symm
  obtain ⟨ledger, kept⟩ := (booked.ledger.perm before).advance (apart.perm before) go
  exact ⟨ledger.perm after, booked.worker.kept kept⟩

theorem World.Booked.entered {h : Host} (booked : w.Booked n) (store : h.store = w.host.store)
    (sound : CallSound n.pid w.host.store c) (pending : c.pending = none) (creates : c.creates = none)
    (reserves : c.reserves = false) : World.Booked n { w with host := h, calls := w.calls ++ [c] } := by
  refine ⟨?_, by rw [store]; exact booked.worker⟩
  rw [Host.queued, store]
  exact (booked.ledger.entered sound pending creates reserves).perm (List.perm_append_singleton c w.calls).symm

theorem World.Booked.step (booked : w.Booked n) (apart : w.Apart n m) (h : w.step n m = some v) :
    v.Booked n := by
  have turns {t : Host} {worker : Worker} (store : t.store = w.host.store)
      (holds : worker.Holds w.host.store) : World.Booked n { w with host := t, worker := worker } := by
    refine ⟨?_, by rw [store]; exact holds⟩
    rw [Host.queued, store]
    exact booked.ledger
  cases m with
  | submit sub now =>
      obtain ⟨submits, c, entered, shape⟩ := submit_shape n w.host sub now
      simp only [World.step, entered] at h
      cases h
      obtain rfl | ⟨refusal, rfl, _⟩ := shape
      · exact booked.entered rfl trivial rfl rfl rfl
      · exact booked.entered rfl trivial rfl rfl rfl
  | cancel id clock =>
      cases h
      unfold Host.cancel
      split
      · exact booked.entered rfl trivial rfl rfl rfl
      · next r there =>
          split
          · exact booked.entered rfl trivial rfl rfl rfl
          · split
            · have known := known_of_load there
              have ended : JobState.done ≠ .queued := by
                intro it
                cases it
              exact booked.entered rfl ⟨booked.ledger.filed id r there, ended, known⟩ rfl rfl rfl
            · exact booked.entered rfl trivial rfl rfl rfl
  | status id =>
      cases h
      exact booked.entered rfl trivial rfl rfl rfl
  | resume i o =>
      simp only [World.step] at h
      split at h
      · next c there =>
          obtain ⟨⟨t, d⟩, goes, rfl⟩ := Option.map_eq_some_iff.mp h
          exact booked.resumed there (apart c there) goes
      · cases h
  | pick =>
      simp only [World.step] at h
      split at h
      · obtain ⟨job, head, rfl⟩ := Option.map_eq_some_iff.mp h
        have there := ((mem_queued_of_filed booked.ledger.filed).mp (List.mem_of_head? head)).1
        exact turns rfl (known_of_load there)
      · cases h
  | probe busy opened =>
      simp only [World.step] at h
      split at h
      · next job picked =>
          have holds := booked.worker
          rw [picked] at holds
          split at h
          · cases h
            exact turns rfl trivial
          · split at h
            · cases h
              exact turns rfl ⟨job.submission, rfl, steady_of_lives (lives_run n.toCtx rfl), holds⟩
            · cases h
              exact turns rfl trivial
      · cases h
  | work oracle =>
      simp only [World.step] at h
      split at h
      · next id q k busy =>
          cases h
          exact booked.worked busy _ _
      · cases h
  | rest =>
      simp only [World.step] at h
      split at h
      · cases h
        exact turns rfl trivial
      · cases h
        exact turns rfl trivial
      · cases h

theorem Ledger.of_tidy {queued : Nat} (tidy : s.Tidy) (room : queued ≤ n.queueDepth.toNat) :
    Ledger n s queued [] where
  filed := tidy.filed
  one := by
    intro id id' k spec spec' here there
    obtain ⟨r, here, same⟩ := known_eq_some.mp here
    obtain ⟨r', there, same'⟩ := known_eq_some.mp there
    have keys : r.key = r'.key := (congrArg Prod.fst same).trans (congrArg Prod.fst same').symm
    have entry := tidy.indexed id r here
    rw [keys, tidy.indexed id' r' there] at entry
    exact Token.ext (Spot.file.inj entry).symm
  indexed := by
    intro id k spec known
    obtain ⟨r, there, same⟩ := known_eq_some.mp known
    cases same
    exact .inl (tidy.indexed id r there)
  named := by
    intro k id names
    obtain ⟨r, there, rfl⟩ := tidy.named k id names
    exact .inl ⟨r.spec, known_of_load there⟩
  sound := fun _ here => absurd here List.not_mem_nil
  clear := .nil
  room := room

/-- Once no submission is under way, everything is in its place. -/
theorem Ledger.tidy {queued : Nat} (ledger : Ledger n s queued calls)
    (quiet : ∀ c ∈ calls, c.creates = none) : s.Tidy := by
  have unindexed {c : Call} {id : JobId} (here : c ∈ calls) (it : c.unindexed = some id) : False := by
    obtain ⟨a, job, depth, stage, rfl, _⟩ := Call.creating_of_unindexed it
    exact absurd (quiet _ here) (Option.some_ne_none _)
  refine ⟨ledger.filed, fun id r there => ?_, fun k id names => ?_⟩
  · refine (ledger.indexed id r.key r.spec (known_of_load there)).resolve_right ?_
    rintro ⟨c, here, it⟩
    exact unindexed here it
  · obtain ⟨spec, known⟩ | ⟨c, here, temp⟩ := ledger.named k id names
    · obtain ⟨r, there, same⟩ := known_eq_some.mp known
      exact ⟨r, there, congrArg Prod.fst same⟩
    · unfold Call.temp at temp
      split at temp
      · exact absurd (quiet _ here) (Option.some_ne_none _)
      · cases temp

theorem World.Booked.idempotent (booked : w.Booked n) : w.Idempotent n where
  one := by
    intro id id' r r' here there keys
    have known := known_of_load there
    rw [← keys] at known
    exact booked.ledger.one id id' r.key _ _ (known_of_load here) known
  accepted := by
    intro a id existing state position here
    obtain ⟨r, there, same⟩ := known_eq_some.mp (booked.ledger.sound _ here)
    exact ⟨r, there, congrArg Prod.fst same, congrArg Prod.snd same⟩
  room := (Nat.le_add_right _ _).trans booked.ledger.room

/-- Of a key that a job of another spec has, a submission is told so. -/
theorem World.Booked.refuses {i : Nat} {o : Outside} {a : Asked} {id : JobId} {r : JobRecord}
    (booked : w.Booked n) (there : w.calls[i]? = some (.looking a)) (apart : w.Apart n (.resume i o))
    (works : o.fails = false) (loaded : w.host.store.load id = .ok r) (key : r.key = a.key)
    (other : r.spec ≠ a.spec) : w.host.advance n o (.looking a) =
      some (w.host, .submitted a (n.refuse (.keyConflict id))) := by
  obtain ⟨still, unknown⟩ := apart _ there works
  have known := known_of_load loaded
  rw [key] at known
  have names : w.host.store.named a.key = some id := by
    obtain entry | ⟨e, here, unindexed⟩ := booked.ledger.indexed id a.key r.spec known
    · rw [JobStore.named, entry]
      exact parse_id id
    · have sound := booked.ledger.sound e here
      obtain ⟨b, job, depth, stage, rfl, rfl, late⟩ := Call.creating_of_unindexed unindexed
      have recorded : Recorded n.pid w.host.store job.id b.key b.spec := by
        obtain rfl | rfl := late
        · exact sound.2
        · exact sound.2.1
      have same : b.key = a.key :=
        congrArg Prod.fst (Option.some.inj (recorded.known.symm.trans known))
      have missing := recorded.missing
      rw [same] at missing
      exact absurd (.inl same.symm) ((unknown missing).2.2 _ here b.key rfl)
  have found : w.host.store.byKey a.key = .ok (some r) := by
    rw [byKey_named names, loaded]
    rfl
  simp only [Host.advance, works, found]
  rw [if_neg Bool.false_ne_true, if_neg other, booked.ledger.filed id r loaded]

end Worlds

/-- Over runs in which submissions that meet do not overlap, a key names one job for good, which
every submission of it that is accepted names, and one of another spec is told of; the queue is not
longer than it may be; and once no job is being created, everything is in its place again. -/
theorem submission_idempotent {n : Node} {start w : World} {moves : List Move}
    (tidy : start.host.store.Tidy) (room : start.host.queued.length ≤ n.queueDepth.toNat)
    (idle : start.worker = .idle) (uncalled : start.calls = [])
    (run : Run (World.step n) (World.Apart n) start moves w) :
    w.Idempotent n ∧
      (∀ i o a id r, w.calls[i]? = some (.looking a) → w.Apart n (.resume i o) → o.fails = false →
        w.host.store.load id = .ok r → r.key = a.key → r.spec ≠ a.spec →
          w.host.advance n o (.looking a) = some (w.host, .submitted a (n.refuse (.keyConflict id)))) ∧
      ((∀ c ∈ w.calls, c.creates = none) → w.host.store.Tidy) := by
  have first : start.Booked n := by
    refine ⟨?_, by rw [idle]; trivial⟩
    rw [uncalled]
    exact .of_tidy tidy room
  have booked : w.Booked n := run.invariant first fun _ _ _ booked apart h => booked.step apart h
  exact ⟨booked.idempotent, fun i o a id r there apart works loaded key other =>
    booked.refuses there apart works loaded key other, fun quiet => booked.ledger.tidy quiet⟩

section Instances

def Call.decideApart (n : Node) (h : Host) (calls : List Call) (o : Outside) :
    (c : Call) → Decidable (c.Apart n h calls o)
  | .looking _ => inferInstanceAs (Decidable (o.fails = false → _ ∧ (_ → _ ∧ _ ∧ _)))
  | .counting _ => inferInstanceAs (Decidable (o.fails = false → _ → _))
  | .probing _ _ => inferInstanceAs (Decidable (∀ c ∈ calls, _))
  | .creating _ _ _ .look | .creating _ _ _ .rename => inferInstanceAs (Decidable (_ = false))
  | .creating _ _ _ .index => inferInstanceAs (Decidable (_ ∧ _))
  | .creating _ _ _ .make | .creating _ _ _ .save | .placing _ _ | .queueing _ _ _ | .submitted _ _
  | .ending _ _ | .recording _ _ | .signalling _ _ | .ended _ | .answered _ => isTrue trivial

instance (n : Node) (w : World) (m : Move) : Decidable (w.Apart n m) :=
  match m with
  | .resume i o =>
      have (c : Call) := Call.decideApart n w.host w.calls o c
      inferInstanceAs (Decidable (∀ c ∈ w.calls[i]?, c.Apart n w.host w.calls o))
  | .submit _ _ | .cancel _ _ | .status _ | .pick | .probe _ _ | .work _ | .rest => isTrue trivial

def emptyWorld : World where
  host := emptyLine.host
  worker := .idle
  calls := []
  spawned := []

/-- One place in the queue. -/
def narrowNode : Node := { plainNode with queueDepth := 1 }

/-- Another node asks for the same key with another limit. -/
def otherAsk : Submission := { askFor keyA with sender := 1, maxRunS := some 30 }

/-- A submission, the same once more, and another one of its key, each after the last is answered. -/
def askedAgain : List Move :=
  Move.submit (askFor keyA) 0 :: List.replicate 9 (Move.resume 0 calm) ++
    Move.submit (askFor keyA) 0 :: List.replicate 2 (Move.resume 1 calm) ++
    [Move.submit otherAsk 0, Move.resume 2 calm]

theorem asked_again_idempotent :
    let id := mintId narrowNode.digest 1 keyA 0
    ∃ w, Run (World.step narrowNode) (World.Apart narrowNode) emptyWorld askedAgain w ∧
      w.calls = [.submitted (narrowNode.asked (askFor keyA)) (.accepted id false .queued 1),
        .submitted (narrowNode.asked (askFor keyA)) (.accepted id true .queued 1),
        .submitted (narrowNode.asked otherAsk) (narrowNode.refuse (.keyConflict id))] ∧
      w.Idempotent narrowNode := by
  intro id
  have run : (replay (World.step narrowNode) (World.Apart narrowNode) emptyWorld askedAgain).map
      World.calls = some [.submitted (narrowNode.asked (askFor keyA)) (.accepted id false .queued 1),
        .submitted (narrowNode.asked (askFor keyA)) (.accepted id true .queued 1),
        .submitted (narrowNode.asked otherAsk) (narrowNode.refuse (.keyConflict id))] := by
    decide +kernel
  obtain ⟨w, run, calls⟩ := Option.map_eq_some_iff.mp run
  have run := Run.of_replay run
  exact ⟨w, run, calls, (submission_idempotent tidy_empty (by decide +kernel) rfl rfl run).1⟩

/-- Both look the key up and count the queue before either creates its job. -/
def overlapping : List Move :=
  [Move.submit (askFor keyA) 0, .submit otherAsk 0, .resume 0 calm, .resume 1 calm,
    .resume 0 calm, .resume 1 calm] ++ List.replicate 7 (Move.resume 0 calm) ++
    List.replicate 7 (Move.resume 1 { calm with clock := 2 })

theorem overlapping_submits : ∃ w, Run (World.step narrowNode) Free emptyWorld overlapping w ∧
    ¬w.Idempotent narrowNode ∧
      ∃ id id', id ≠ id' ∧
        w.calls = [.submitted (narrowNode.asked (askFor keyA)) (.accepted id false .queued 1),
          .submitted (narrowNode.asked otherAsk) (.accepted id' false .queued 1)] := by
  let id := mintId narrowNode.digest 1 keyA 0
  let id' := mintId narrowNode.digest 2 keyA 1
  have run : (replay (World.step narrowNode) Free emptyWorld overlapping).map (fun w =>
      (w.host.store.known id, w.host.store.known id', w.calls)) =
      some (some (keyA, (narrowNode.asked (askFor keyA)).spec), some (keyA, (narrowNode.asked otherAsk).spec),
        [.submitted (narrowNode.asked (askFor keyA)) (.accepted id false .queued 1),
          .submitted (narrowNode.asked otherAsk) (.accepted id' false .queued 1)]) := by
    decide +kernel
  have other : id ≠ id' := by decide +kernel
  obtain ⟨w, run, facts⟩ := Option.map_eq_some_iff.mp run
  simp only [Prod.mk.injEq] at facts
  obtain ⟨here, there, calls⟩ := facts
  refine ⟨w, Run.of_replay run, fun idempotent => ?_, id, id', other, calls⟩
  obtain ⟨r, loaded, known⟩ := known_eq_some.mp here
  obtain ⟨r', loaded', known'⟩ := known_eq_some.mp there
  exact other (idempotent.one id id' r r' loaded loaded'
    ((congrArg Prod.fst known).trans (congrArg Prod.fst known').symm))

end Instances

end Bench
end Metralectl
