import Metralectl.Core.AtomicWrite

/-!
What a reader of a replaced file sees, whatever the writers, kills and power cuts; and what a
writer that fails leaves behind.
-/
namespace Metralectl
namespace AtomicWrite
open Directories Runs
universe u
variable {N : Type u}

/-- What was there before, and what somebody wrote. -/
def World.contents (was : Option Bytes) (w : World N) : List (Option Bytes) :=
  was :: w.calls.map fun c => some c.bytes

/-- A reader sees all of one of them, what was written without error was there, and what was not
has left no temporary file. -/
structure Replaced (was : Option Bytes) (w : World N) : Prop where
  found : ∀ content, Reader.found content ∈ w.readers → content ∈ w.contents was
  placed : ∀ c ∈ w.calls, c.phase = .ok → some c.bytes ∈ w.log
  swept : ∀ c ∈ w.calls, ∀ left, c.phase = .failed left → left = false

/-- No error leaves the temporary file: none after it is opened and before it is renamed, none in
renaming it that is not cleaned up after, and none in cleaning up. -/
def Scheme.spared (s : Scheme N) : Phase → Reply → Bool
  | .writing _ _, .wrote n => n != 0
  | .placing _ _, .fail => s.sweeps
  | .writing _ _, .fail | .flushing _, .fail | .carrying _, .fail | .removing _, .fail => false
  | _, _ => true

/-- Unless its name is unique, the file is opened only while no other call has it open. Unless
files are flushed, the power goes only while all that the path may lead to is on stable storage. -/
def sheltered [DecidableEq N] (s : Scheme N) (w : World N) : Event → Bool
  | .resume k reply =>
      match w.calls[k]? with
      | some c =>
          s.spared c.phase reply &&
            (!(c.phase == .opening && reply == .done) || s.unique ||
              w.calls.all fun other => !other.phase.file.isSome || s.tempOf other != s.tempOf c)
      | none => true
  | .cut _ _ =>
      s.flushes || (w.disk.names :: w.disk.past).all fun m => (m s.path).all w.disk.flushed
  | _ => true

def Sheltered [DecidableEq N] (s : Scheme N) (w : World N) (e : Event) : Prop := sheltered s w e = true

instance [DecidableEq N] (s : Scheme N) (w : World N) (e : Event) : Decidable (Sheltered s w e) :=
  inferInstanceAs (Decidable (_ = true))

/-- How much of its bytes a call has in its file. -/
def Phase.sent (whole : Nat) : Phase → Nat
  | .writing _ sent => sent
  | _ => whole

def Phase.synced : Phase → Bool
  | .inspecting _ | .carrying _ | .placing _ _ | .removing _ => true
  | _ => false

/-- A call's file is under its temporary name, with what the call sent to it. -/
structure Holds (s : Scheme N) (d : Disk N) (c : Call) : Prop where
  named : ∀ i, c.phase.file = some i → d.names (s.tempOf c) = some i
  data : ∀ i, c.phase.file = some i → d.data i = c.bytes.take (c.phase.sent c.bytes.length)
  synced : ∀ i, c.phase.file = some i → c.phase.synced = true → s.flushes = true →
    d.flushed i = true

section Calls
variable {s : Scheme N} {d d' : Disk N} {c : Call} {p : Phase} {reply : Reply} {i : Nat} {n : N}

/-- A step on another file, which leaves the name. -/
theorem Holds.others (h : Holds s d c) (step : Disk.Own s.path n i d d')
    (name : d'.names (s.tempOf c) = d.names (s.tempOf c))
    (file : ∀ j, c.phase.file = some j → j ≠ i) : Holds s d' c where
  named j here := name.trans (h.named j here)
  data j here := (step.data j (file j here)).trans (h.data j here)
  synced j here done flushes := step.flushed j (file j here) (h.synced j here done flushes)

theorem Holds.free (d : Disk N) (none_ : c.phase.file = none) : Holds s d c :=
  ⟨fun _ here => (by simp [none_] at here), fun _ here => (by simp [none_] at here),
    fun _ here => (by simp [none_] at here)⟩

theorem Scheme.written_cases (s : Scheme N) (i : Nat) :
    s.written i = .flushing i ∨ s.written i = .placing i 0 := by
  unfold written
  split
  · exact Or.inl rfl
  · exact Or.inr rfl

theorem Holds.of_written (named : d.names (s.tempOf c) = some i) (data : d.data i = c.bytes) :
    Holds s d { c with phase := s.written i } := by
  unfold Scheme.written
  split
  · exact ⟨fun j here => by cases here; exact named,
      fun j here => by cases here; exact data.trans List.take_length.symm, fun _ _ => nofun⟩
  · next flushes =>
      exact ⟨fun j here => by cases here; exact named,
        fun j here => by cases here; exact data.trans List.take_length.symm,
        fun _ _ _ yes => absurd yes flushes⟩

/-- What a call makes of a reply, with a file of its own or with one there was not. -/
structure Went (s : Scheme N) (d : Disk N) (c : Call) (reply : Reply) (i : Nat) (d' : Disk N)
    (p : Phase) : Prop where
  file : d.names (s.tempOf c) = some i ∨ i = d.next
  step : Disk.Own s.path (s.tempOf c) i d d'
  holds : Holds s d' { c with phase := p }
  opened : p.file.isSome = true → c.phase.file.isSome = true ∨ c.phase = .opening ∧ reply = .done
  quiet : c.phase.file = none → ¬(c.phase = .opening ∧ reply = .done) →
    d'.names (s.tempOf c) = d.names (s.tempOf c) ∧ i = d.next
  live : c.phase.live = true
  swept : p ≠ .failed true
  /-- The path leads to nothing new, or to the bytes of the call. -/
  brought : (∀ e, d'.May s.path e → d.May s.path e) ∧ p ≠ .settling ∧
      (p = .ok → c.phase = .settling) ∨
    (∀ e, d'.May s.path e → d.May s.path e ∨ e = some i) ∧ d'.names s.path = some i ∧
      d'.data i = c.bytes ∧ (s.flushes = true → d'.flushed i = true)

theorem Went.still (holds : Holds s d { c with phase := p })
    (opened : p.file.isSome = true → c.phase.file.isSome = true) (live : c.phase.live = true)
    (swept : p ≠ .failed true) (settling : p ≠ .settling) (ok : p = .ok → c.phase = .settling) :
    Went s d c reply d.next d p where
  file := Or.inr rfl
  step := .refl d _
  holds := holds
  opened here := Or.inl (opened here)
  quiet _ _ := ⟨rfl, rfl⟩
  live := live
  swept := swept
  brought := Or.inl ⟨fun _ => id, settling, ok⟩

theorem Phase.sent_of_synced (synced : p.synced = true) (whole : Nat) : p.sent whole = whole := by
  cases p <;> first | rfl | cases synced

theorem Phase.of_synced (synced : p.synced = true) :
    p.live = true ∧ p ≠ .failed true ∧ p ≠ .settling ∧ p ≠ .ok := by
  cases p <;> simp only [Phase.synced, Bool.false_eq_true] at synced <;>
    exact ⟨rfl, nofun, nofun, nofun⟩

/-- Nothing is done between flushing the file and renaming it. -/
theorem Went.waiting (holds : Holds s d c) (before : c.phase.synced = true)
    (after : p.synced = true) (file : p.file = c.phase.file) : Went s d c reply d.next d p := by
  obtain ⟨_, swept, settling, ok⟩ := Phase.of_synced after
  refine .still ⟨fun j here => holds.named j (file ▸ here), fun j here => ?_,
    fun j here _ => holds.synced j (file ▸ here) before⟩ (fun here => file ▸ here)
    (Phase.of_synced before).1 swept settling fun it => absurd it ok
  rw [Phase.sent_of_synced after, ← Phase.sent_of_synced before c.bytes.length]
  exact holds.data j (file ▸ here)

theorem went_writing {sent n : Nat} (writing : c.phase = .writing i sent) (holds : Holds s d c)
    (within : sent + n ≤ c.bytes.length) :
    Went s d c (.wrote n) i (d.write i sent ((c.bytes.drop sent).take n))
      (if sent + n < c.bytes.length then .writing i (sent + n) else s.written i) := by
  have file : c.phase.file = some i := by rw [writing]; rfl
  have named := holds.named i file
  have before : d.data i = c.bytes.take sent := by
    have data := holds.data i file
    rwa [writing] at data
  have after : (d.write i sent ((c.bytes.drop sent).take n)).data i = c.bytes.take (sent + n) := by
    refine (Function.update_self ..).trans ?_
    rw [before, Disk.splice_end _ (List.length_take_of_le (by omega)), List.take_add]
  refine { file := Or.inl named
           step := .store d i _
           holds := ?_
           opened := fun _ => Or.inl (by rw [file]; rfl)
           quiet := fun none_ => by cases file.symm.trans none_
           live := by rw [writing]; rfl
           swept := ?_
           brought := Or.inl ⟨fun _ => id, ?_⟩ }
  · split
    · exact ⟨fun j here => by cases here; exact named, fun j here => by cases here; exact after,
        fun _ _ => nofun⟩
    · exact .of_written named (after.trans (List.take_of_length_le (by omega)))
  · split
    · nofun
    · rcases s.written_cases i with same | same <;> rw [same] <;> nofun
  · split
    · exact ⟨nofun, nofun⟩
    · rcases s.written_cases i with same | same <;> rw [same] <;> exact ⟨nofun, nofun⟩

theorem went_unplaced {waited : Nat} (placing : c.phase = .placing i waited) (holds : Holds s d c)
    (sweeps : s.sweeps = true) : Went s d c .fail d.next d (s.unplaced d c i waited) := by
  rw [Scheme.unplaced, if_pos sweeps]
  split
  · exact .waiting holds (by rw [placing]; rfl) rfl (by rw [placing]; rfl)
  · exact .waiting holds (by rw [placing]; rfl) rfl (by rw [placing]; rfl)

theorem went_flushed (flushing : c.phase = .flushing i) (holds : Holds s d c) :
    Went s d c .done i (d.sync i) (.inspecting i) := by
  have file : c.phase.file = some i := by rw [flushing]; rfl
  have data := holds.data i file
  rw [flushing] at data
  exact { file := Or.inl (holds.named i file)
          step := .sync d i
          holds := ⟨fun j here => by cases here; exact holds.named i file,
            fun j here => by cases here; exact data,
            fun j here _ _ => by cases here; exact Function.update_self ..⟩
          opened := fun _ => Or.inl (by rw [file]; rfl)
          quiet := fun none_ => by cases file.symm.trans none_
          live := by rw [flushing]; rfl
          swept := nofun
          brought := Or.inl ⟨fun _ => id, nofun, nofun⟩ }

theorem went_settled (settling : c.phase = .settling) : Went s d c .done d.next d.syncDir .ok where
  file := Or.inr rfl
  step := .syncDir d _
  holds := .free _ rfl
  opened := nofun
  quiet _ _ := ⟨rfl, rfl⟩
  live := by rw [settling]; rfl
  swept := nofun
  brought := Or.inl ⟨fun _ => Disk.May.of_syncDir, nofun, fun _ => settling⟩

section Names
variable [DecidableEq N]

theorem went_opening (opening : c.phase = .opening) :
    Went s d c .done (d.create (s.tempOf c)).2 (d.create (s.tempOf c)).1
      (if c.bytes.isEmpty then s.written (d.create (s.tempOf c)).2
        else .writing (d.create (s.tempOf c)).2 0) where
  file := by
    obtain ⟨i, there, made⟩ | ⟨_, made⟩ := d.create_cases (s.tempOf c)
    · exact Or.inl (by rw [made]; exact there)
    · exact Or.inr (by rw [made])
  step := .create d
  holds := by
    split
    · next empty =>
        refine .of_written (d.create_names _) ((d.create_data _).trans ?_)
        exact (List.isEmpty_iff.mp empty).symm
    · exact ⟨fun j here => by cases here; exact d.create_names _,
        fun j here => by cases here; exact d.create_data _, fun _ _ => nofun⟩
  opened _ := Or.inr ⟨opening, rfl⟩
  quiet _ other := absurd ⟨opening, rfl⟩ other
  live := by rw [opening]; rfl
  swept := by
    split
    · rcases s.written_cases (d.create (s.tempOf c)).2 with same | same <;> rw [same] <;> nofun
    · nofun
  brought := by
    refine Or.inl ⟨fun e may => may.of_create (s.apart _ _).symm, ?_⟩
    split
    · rcases s.written_cases (d.create (s.tempOf c)).2 with same | same <;> rw [same] <;>
        exact ⟨nofun, nofun⟩
    · exact ⟨nofun, nofun⟩

theorem went_placed {waited : Nat} (placing : c.phase = .placing i waited) (holds : Holds s d c)
    (placed : d.rename (s.tempOf c) s.path = some d') :
    Went s d c .done i d' (if s.flushes then .settling else .ok) := by
  have file : c.phase.file = some i := by rw [placing]; rfl
  have named := holds.named i file
  obtain ⟨j, there, names, past, data, flushed, _⟩ := Disk.rename_some placed
  cases there.symm.trans named
  have at_ : d'.names s.path = some i := by rw [names, Function.update_self]
  refine { file := Or.inl named
           step := .rename named placed
           holds := .free d' (by split <;> rfl)
           opened := fun _ => Or.inl (by rw [file]; rfl)
           quiet := fun none_ => by cases file.symm.trans none_
           live := by rw [placing]; rfl
           swept := by split <;> nofun
           brought := Or.inr ⟨fun e may => ?_, at_, ?_, fun flushes => ?_⟩ }
  · exact (may.listed past).elim (fun here => Or.inr (here.symm.trans at_)) Or.inl
  · rw [data, holds.data i file, placing]
    exact List.take_length
  · rw [flushed]
    exact holds.synced i file (by rw [placing]; rfl) flushes

theorem went_removed (removing : c.phase = .removing i) (holds : Holds s d c) :
    Went s d c .done i (d.remove (s.tempOf c)) (s.leave (d.remove (s.tempOf c)) c i) := by
  have file : c.phase.file = some i := by rw [removing]; rfl
  have gone : s.leave (d.remove (s.tempOf c)) c i = .failed false := by
    have none_ : (d.remove (s.tempOf c)).names (s.tempOf c) = none := Function.update_self ..
    rw [Scheme.leave, none_]
    rfl
  rw [gone]
  exact { file := Or.inl (holds.named i file)
          step := .remove d i
          holds := .free _ rfl
          opened := nofun
          quiet := fun none_ => by cases file.symm.trans none_
          live := by rw [removing]; rfl
          swept := nofun
          brought := Or.inl ⟨fun e may => may.of_remove (s.apart _ _).symm, nofun, nofun⟩ }

/-- What a call does on its way, no error in between. -/
theorem went (h : s.resume d c reply = some (d', p)) (holds : Holds s d c)
    (spared : s.spared c.phase reply = true) : ∃ i, Went s d c reply i d' p := by
  cases reply with
  | done =>
      cases phase : c.phase with
      | preparing =>
          simp only [Scheme.resume, phase] at h
          cases h
          exact ⟨_, .still (.free d rfl) nofun (by rw [phase]; rfl) nofun nofun nofun⟩
      | opening =>
          simp only [Scheme.resume, phase] at h
          cases h
          exact ⟨_, went_opening phase⟩
      | flushing i =>
          simp only [Scheme.resume, phase] at h
          cases h
          exact ⟨_, went_flushed phase holds⟩
      | inspecting i | carrying i =>
          simp only [Scheme.resume, phase] at h
          cases h
          exact ⟨_, .waiting holds (by rw [phase]; rfl) rfl (by rw [phase]; rfl)⟩
      | placing i waited =>
          have named := holds.named i (by rw [phase]; rfl)
          simp only [Scheme.resume, phase] at h
          split at h
          · next placed =>
              cases h
              exact ⟨_, went_placed phase holds placed⟩
          · next refused => exact absurd refused (Disk.rename_named named)
      | removing i =>
          simp only [Scheme.resume, phase] at h
          cases h
          exact ⟨_, went_removed phase holds⟩
      | settling =>
          simp only [Scheme.resume, phase] at h
          cases h
          exact ⟨_, went_settled phase⟩
      | writing _ _ | ok | failed _ | dead => simp [Scheme.resume, phase] at h
  | wrote n =>
      cases phase : c.phase with
      | writing i sent =>
          have some_ : n ≠ 0 := by simpa [Scheme.spared, phase] using spared
          simp only [Scheme.resume, phase, if_neg some_] at h
          split at h
          · next within =>
              cases h
              exact ⟨_, went_writing phase holds within⟩
          · cases h
      | _ => simp [Scheme.resume, phase] at h
  | fail =>
      cases phase : c.phase with
      | preparing | opening =>
          simp only [Scheme.resume, phase] at h
          cases h
          exact ⟨_, .still (.free d rfl) nofun (by rw [phase]; rfl) nofun nofun nofun⟩
      | writing _ _ | flushing _ | carrying _ | removing _ => simp [Scheme.spared, phase] at spared
      | inspecting i =>
          simp only [Scheme.resume, phase] at h
          cases h
          exact ⟨_, .waiting holds (by rw [phase]; rfl) rfl (by rw [phase]; rfl)⟩
      | placing i waited =>
          simp only [Scheme.resume, phase] at h
          cases h
          exact ⟨_, went_unplaced phase holds (by simpa [Scheme.spared, phase] using spared)⟩
      | settling =>
          simp only [Scheme.resume, phase] at h
          cases h
          exact ⟨_, .still (.free d rfl) nofun (by rw [phase]; rfl) nofun nofun fun _ => phase⟩
      | ok | failed _ | dead => simp [Scheme.resume, phase] at h

end Names
end Calls

end AtomicWrite
end Metralectl
