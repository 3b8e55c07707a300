import Metralectl.Bench.Machine
import Metralectl.Library.Runs

/-!
The builds of a host. All commits share cargo's output directory: a build is copied out of it once
its cargo has ended, and hashed where it was copied to. That hash is what the cache goes by, so a
hit is of a commit as long as nothing else was put in the output's place before it was copied.
-/
namespace Metralectl
namespace Bench
open Runs

abbrev Bytes := List UInt8

/-- What a build directory says of its binary. -/
structure Provenance where
  sha : Sha
  binarySha256 : String
deriving DecidableEq

/-- A build directory: the binary, and the provenance where it can be read and is one. -/
structure BuildDir where
  binary : Option Bytes
  provenance : Option Provenance
deriving DecidableEq

/-- Where the build at hand is. -/
inductive BuildStage where
  | idle
  /-- Its cargo runs, and has put its output in place or not. -/
  | compiling (sha : Sha) (linked : Bool)
  | compiled (sha : Sha)
  | copying (sha : Sha)
  | copied (sha : Sha)
deriving DecidableEq

structure Workshop where
  /-- `target/release/met`. -/
  target : Option Bytes
  dirs : Sha → BuildDir
  /-- The commits of the cargos that run and that no build waits for. -/
  strays : List Sha
  stage : BuildStage
  /-- What a cargo that ran in the worktree of a commit has put in place. -/
  made : List (Sha × Bytes)

namespace Workshop

inductive Move where
  | begin_ (sha : Sha)
  /-- The build's cargo puts its output in place. -/
  | output (bytes : Bytes)
  /-- A cargo no build waits for does. -/
  | stray (i : Nat) (bytes : Bytes)
  | strayEnds (i : Nat)
  | succeed
  /-- The build's cargo fails, or is killed: cancelled, or too slow. -/
  | fail
  /-- Its end cannot be asked for: it is left. -/
  | lose
  /-- The cached binary is opened to be written. -/
  | openCopy
  /-- So many bytes more are copied, if there are; else the copy is at its end. -/
  | copy (n : Nat)
  | copyFails
  | record
  | recordFails
  /-- The agent dies; a cargo does not die with it. -/
  | crash
  /-- Retention deletes a build directory, or comes to delete this much of it. -/
  | remove (sha : Sha) (binary provenance : Bool)

def setDir (w : Workshop) (sha : Sha) (d : BuildDir) : Workshop :=
  { w with dirs := fun other => if other = sha then d else w.dirs other }

/-- A cargo that runs in a commit's worktree puts its output in place. -/
def link (w : Workshop) (sha : Sha) (bytes : Bytes) : Workshop :=
  { w with target := some bytes, made := (sha, bytes) :: w.made }

variable (hash : Bytes → String)

def step (w : Workshop) : Move → Option Workshop
  | .begin_ sha =>
      match w.stage with
      | .idle => some { w with stage := .compiling sha false }
      | _ => none
  | .output bytes =>
      match w.stage with
      | .compiling sha _ => some { w.link sha bytes with stage := .compiling sha true }
      | _ => none
  | .stray i bytes => w.strays[i]?.map fun sha => w.link sha bytes
  | .strayEnds i => some { w with strays := w.strays.eraseIdx i }
  | .succeed =>
      match w.stage with
      | .compiling sha true => some { w with stage := .compiled sha }
      | _ => none
  | .fail =>
      match w.stage with
      | .compiling _ _ => some { w with stage := .idle }
      | _ => none
  | .lose =>
      match w.stage with
      | .compiling sha _ => some { w with stage := .idle, strays := sha :: w.strays }
      | _ => none
  | .openCopy =>
      match w.stage, w.target with
      | .compiled sha, some _ =>
          some { w.setDir sha { w.dirs sha with binary := some [] } with stage := .copying sha }
      | _, _ => none
  | .copy n =>
      match w.stage with
      | .copying sha =>
          match w.target, (w.dirs sha).binary with
          | some bytes, some done =>
              match (bytes.drop done.length).take (n + 1) with
              | [] => some { w with stage := .copied sha }
              | more => some (w.setDir sha { w.dirs sha with binary := some (done ++ more) })
          | _, _ => none
      | _ => none
  | .copyFails =>
      match w.stage with
      | .compiled _ | .copying _ => some { w with stage := .idle }
      | _ => none
  -- The binary is hashed where it was copied to; the provenance is renamed into its place.
  | .record =>
      match w.stage with
      | .copied sha =>
          (w.dirs sha).binary.map fun bytes =>
            { w.setDir sha { w.dirs sha with provenance := some ⟨sha, hash bytes⟩ } with
              stage := .idle }
      | _ => none
  | .recordFails =>
      match w.stage with
      | .copied _ => some { w with stage := .idle }
      | _ => none
  | .crash =>
      match w.stage with
      | .compiling sha _ => some { w with stage := .idle, strays := sha :: w.strays }
      | _ => some { w with stage := .idle }
  | .remove sha binary provenance =>
      match w.stage with
      | .idle => some (w.setDir sha
          ⟨if binary then none else (w.dirs sha).binary,
            if provenance then none else (w.dirs sha).provenance⟩)
      | _ => none

def binaryPath (buildsDir : String) (sha : Sha) : String := s!"{buildsDir}/{sha.text}/met"

def cachedBinary (buildsDir : String) (w : Workshop) (sha : Sha) : Except CacheMiss CachedBinary :=
  match (w.dirs sha).binary with
  | none => .error .noBuild
  | some bytes =>
      match (w.dirs sha).provenance with
      | none => .error .noProvenance
      | some prov =>
          if prov.sha ≠ sha then .error (.wrongSha prov.sha.short)
          else if hash bytes ≠ prov.binarySha256 then .error .hashMismatch
          else .ok ⟨binaryPath buildsDir sha, hash bytes⟩

/-- What the cache hands out for a commit a cargo has made of it. -/
def Truthful (buildsDir : String) (w : Workshop) : Prop :=
  ∀ sha c, cachedBinary hash buildsDir w sha = .ok c →
    ∃ bytes, (w.dirs sha).binary = some bytes ∧ c = ⟨binaryPath buildsDir sha, hash bytes⟩ ∧
      (sha, bytes) ∈ w.made

/-- From when a build's cargo has put its output in place until that is copied, no cargo that is
left of another commit replaces it, and while it is copied none does. -/
def Undisturbed (w : Workshop) : Move → Prop
  | .stray i _ =>
      match w.stage with
      | .compiling sha true | .compiled sha => w.strays[i]? = some sha
      | .copying _ => False
      | _ => True
  | _ => True

section Invariants
variable {hash : Bytes → String} {w v : Workshop} {sha other : Sha} {bytes : Bytes}

/-- What is known where the build is: its output is the one of its cargo, and what is copied is a
part of it. -/
def At (w : Workshop) : BuildStage → Prop
  | .idle | .compiling _ false => True
  | .compiling sha true | .compiled sha => ∃ bytes, w.target = some bytes ∧ (sha, bytes) ∈ w.made
  | .copying sha => ∃ bytes done, w.target = some bytes ∧ (sha, bytes) ∈ w.made ∧
      (w.dirs sha).binary = some done ∧ done <+: bytes
  | .copied sha => ∃ bytes, (w.dirs sha).binary = some bytes ∧ (sha, bytes) ∈ w.made

/-- A provenance holds the hash of what a cargo made of the commit. -/
structure Sound (hash : Bytes → String) (w : Workshop) : Prop where
  recorded : ∀ sha prov, (w.dirs sha).provenance = some prov →
    ∃ bytes, prov.binarySha256 = hash bytes ∧ (sha, bytes) ∈ w.made
  at_ : w.At w.stage

theorem setDir_self (d : BuildDir) : (w.setDir sha d).dirs sha = d := if_pos rfl

theorem provenance_setDir {d : BuildDir} {prov : Provenance}
    (there : ((w.setDir sha d).dirs other).provenance = some prov) :
    other = sha ∧ d.provenance = some prov ∨ (w.dirs other).provenance = some prov := by
  have there : (if other = sha then d else w.dirs other).provenance = some prov := there
  split at there
  · next same => exact .inl ⟨same, there⟩
  · exact .inr there

/-- A change that writes no provenance. -/
theorem Sound.elsewhere (sound : Sound hash w)
    (dirs : ∀ sha prov, (v.dirs sha).provenance = some prov → (w.dirs sha).provenance = some prov)
    (made : ∀ m ∈ w.made, m ∈ v.made) (at_ : v.At v.stage) : Sound hash v where
  recorded := by
    intro sha prov there
    obtain ⟨bytes, hashed, mine⟩ := sound.recorded sha prov (dirs sha prov there)
    exact ⟨bytes, hashed, made _ mine⟩
  at_ := at_

/-- Of a state nothing is known by the stage but this. -/
theorem At.same {stage : BuildStage} (at_ : w.At stage) (target : v.target = w.target)
    (dirs : v.dirs = w.dirs) (made : v.made = w.made) : v.At stage := by
  cases stage with
  | idle => trivial
  | compiling sha linked =>
      cases linked with
      | false => trivial
      | true =>
          unfold At at at_ ⊢
          rwa [target, made]
  | compiled sha | copying sha | copied sha =>
      unfold At at at_ ⊢
      simpa only [target, dirs, made] using at_

theorem Sound.staged {stage : BuildStage} {strays : List Sha} (sound : Sound hash w)
    (at_ : w.At stage) : Sound hash { w with stage := stage, strays := strays } :=
  sound.elsewhere (fun _ _ there => there) (fun _ mine => mine) (at_.same rfl rfl rfl)

/-- Only the binary of a build directory is written. -/
theorem Sound.binary {binary : Option Bytes} {stage : BuildStage} (sound : Sound hash w)
    (at_ : (w.setDir sha { w.dirs sha with binary := binary }).At stage) :
    Sound hash { w.setDir sha { w.dirs sha with binary := binary } with stage := stage } := by
  refine sound.elsewhere (fun other prov there => ?_) (fun _ mine => mine) (at_.same rfl rfl rfl)
  have there : ((w.setDir sha { w.dirs sha with binary := binary }).dirs other).provenance = some prov :=
    there
  obtain ⟨rfl, there⟩ | there := provenance_setDir there
  · exact there
  · exact there

/-- A cargo that runs in a commit's worktree puts its output in place. -/
theorem Sound.linked {stage : BuildStage} (sound : Sound hash w) (at_ : (w.link sha bytes).At stage) :
    Sound hash { w.link sha bytes with stage := stage } :=
  sound.elsewhere (fun _ _ there => there) (fun _ mine => List.mem_cons_of_mem _ mine)
    (at_.same rfl rfl rfl)

/-- What is copied of a file after what was. -/
theorem prefix_append_take {done rest : Bytes} {n : Nat} (part : done <+: bytes)
    (more : (bytes.drop done.length).take n = rest) : done ++ rest <+: bytes := by
  obtain ⟨left, rfl⟩ := part
  rw [List.drop_left] at more
  rw [← more, List.prefix_append_right_inj]
  exact List.take_prefix n left

theorem sound_stray {i : Nat} (sound : Sound hash w) (undisturbed : w.Undisturbed (.stray i bytes))
    (hstep : w.step hash (.stray i bytes) = some v) : Sound hash v := by
  have at_ := sound.at_
  obtain ⟨other, there, rfl⟩ := Option.map_eq_some_iff.mp hstep
  have undisturbed : match w.stage with
      | .compiling sha true | .compiled sha => w.strays[i]? = some sha
      | .copying _ => False
      | _ => True := undisturbed
  refine @Sound.linked _ _ _ _ w.stage sound ?_
  cases stage : w.stage with
  | idle => trivial
  | compiling sha linked =>
      rw [stage] at undisturbed
      cases linked with
      | false => trivial
      | true =>
          cases there.symm.trans undisturbed
          exact ⟨bytes, rfl, List.mem_cons_self⟩
  | compiled sha =>
      rw [stage] at undisturbed
      cases there.symm.trans undisturbed
      exact ⟨bytes, rfl, List.mem_cons_self⟩
  | copying sha =>
      rw [stage] at undisturbed
      exact undisturbed.elim
  | copied sha =>
      rw [stage] at at_
      obtain ⟨done, copied, mine⟩ := at_
      exact ⟨done, copied, List.mem_cons_of_mem _ mine⟩

theorem sound_openCopy (sound : Sound hash w) (hstep : w.step hash .openCopy = some v) :
    Sound hash v := by
  have at_ := sound.at_
  simp only [step] at hstep
  split at hstep
  · next sha bytes stage target =>
      cases hstep
      rw [stage] at at_
      obtain ⟨bytes, target, mine⟩ := at_
      refine sound.binary ⟨bytes, [], target, mine, ?_, List.nil_prefix⟩
      rw [setDir_self]
  · cases hstep

/-- What is copied stays a part of the output, and is all of it at the end. -/
theorem sound_copy {n : Nat} (sound : Sound hash w) (hstep : w.step hash (.copy n) = some v) :
    Sound hash v := by
  have at_ := sound.at_
  simp only [step] at hstep
  split at hstep
  · next sha stage =>
      rw [stage] at at_
      obtain ⟨bytes, done, target, mine, copied, part⟩ := at_
      rw [target, copied] at hstep
      dsimp only at hstep
      split at hstep
      · next over_ =>
          cases hstep
          have whole : done = bytes := by
            obtain ⟨left, rfl⟩ := part
            rw [List.drop_left, List.take_eq_nil_iff] at over_
            rw [over_.resolve_left (Nat.succ_ne_zero n), List.append_nil]
          exact sound.elsewhere (fun _ _ there => there) (fun _ mine => mine)
            ⟨done, copied, whole ▸ mine⟩
      · cases hstep
        have longer : done ++ (bytes.drop done.length).take (n + 1) <+: bytes :=
          prefix_append_take part rfl
        refine @Sound.binary _ _ _ _ w.stage sound ?_
        rw [stage]
        refine ⟨bytes, _, target, mine, ?_, longer⟩
        rw [setDir_self]
  · cases hstep

theorem sound_record (sound : Sound hash w) (hstep : w.step hash .record = some v) :
    Sound hash v := by
  have at_ := sound.at_
  simp only [step] at hstep
  split at hstep
  · next sha stage =>
      rw [stage] at at_
      obtain ⟨bytes, copied, mine⟩ := at_
      rw [copied] at hstep
      cases hstep
      refine ⟨fun other prov there => ?_, trivial⟩
      have there : ((w.setDir sha ⟨some bytes, some ⟨sha, hash bytes⟩⟩).dirs other).provenance =
          some prov := there
      obtain ⟨rfl, new⟩ | there := provenance_setDir there
      · cases new
        exact ⟨bytes, rfl, mine⟩
      · exact sound.recorded other prov there
  · cases hstep

theorem sound_remove {binary provenance : Bool} (sound : Sound hash w)
    (hstep : w.step hash (.remove sha binary provenance) = some v) : Sound hash v := by
  simp only [step] at hstep
  split at hstep
  · next idle =>
      cases hstep
      refine sound.elsewhere (fun other prov there => ?_) (fun _ mine => mine) ?_
      · obtain ⟨rfl, left⟩ | there := provenance_setDir there
        · cases provenance with
          | true => cases left
          | false => exact left
        · exact there
      · show At _ w.stage
        rw [idle]
        trivial
  · cases hstep

theorem sound_step {m : Move} (sound : Sound hash w) (undisturbed : w.Undisturbed m)
    (hstep : w.step hash m = some v) : Sound hash v := by
  cases m with
  | begin_ sha =>
      simp only [step] at hstep
      split at hstep
      · cases hstep
        exact sound.staged trivial
      · cases hstep
  | output bytes =>
      simp only [step] at hstep
      split at hstep
      · cases hstep
        exact sound.linked ⟨bytes, rfl, List.mem_cons_self⟩
      · cases hstep
  | stray i bytes => exact sound_stray sound undisturbed hstep
  | strayEnds i =>
      cases hstep
      exact sound.staged sound.at_
  | succeed =>
      have at_ := sound.at_
      simp only [step] at hstep
      split at hstep
      · next stage =>
          cases hstep
          rw [stage] at at_
          exact sound.staged at_
      · cases hstep
  | openCopy => exact sound_openCopy sound hstep
  | copy n => exact sound_copy sound hstep
  | record => exact sound_record sound hstep
  | remove sha binary provenance => exact sound_remove sound hstep
  | fail | lose | recordFails =>
      simp only [step] at hstep
      split at hstep
      · cases hstep
        exact sound.staged trivial
      · cases hstep
  | copyFails =>
      simp only [step] at hstep
      split at hstep
      · cases hstep
        exact sound.staged trivial
      · cases hstep
        exact sound.staged trivial
      · cases hstep
  | crash =>
      simp only [step] at hstep
      split at hstep
      · cases hstep
        exact sound.staged trivial
      · cases hstep
        exact sound.staged trivial

theorem cachedBinary_recorded {buildsDir : String}
    (there : w.dirs sha = ⟨some bytes, some ⟨sha, hash bytes⟩⟩) :
    cachedBinary hash buildsDir w sha = .ok ⟨binaryPath buildsDir sha, hash bytes⟩ := by
  unfold cachedBinary
  simp [there]

/-- A hit is of what its provenance was written for. -/
theorem cachedBinary_eq_ok {buildsDir : String} {c : CachedBinary}
    (hit : cachedBinary hash buildsDir w sha = .ok c) :
    ∃ bytes prov, (w.dirs sha).binary = some bytes ∧ (w.dirs sha).provenance = some prov ∧
      prov.binarySha256 = hash bytes ∧ c = ⟨binaryPath buildsDir sha, hash bytes⟩ := by
  unfold cachedBinary at hit
  split at hit
  · cases hit
  · next bytes binary =>
      split at hit
      · cases hit
      · next prov provenance =>
          split at hit
          · cases hit
          · split at hit
            · cases hit
            · next same =>
                cases hit
                exact ⟨bytes, prov, binary, provenance, (not_not.mp same).symm, rfl⟩

theorem Sound.truthful (sound : Sound hash w) (injective : Function.Injective hash)
    (buildsDir : String) : w.Truthful hash buildsDir := by
  intro sha c hit
  obtain ⟨bytes, prov, binary, provenance, hashed, is⟩ := cachedBinary_eq_ok hit
  obtain ⟨other, hashed', mine⟩ := sound.recorded sha prov provenance
  have same : other = bytes := injective (hashed'.symm.trans hashed)
  exact ⟨bytes, binary, is, same ▸ mine⟩

/-- Over every run whose outputs are not disturbed, as long as no two files have one hash. -/
theorem cache_truthful {start t : Workshop} {moves : List Move} (buildsDir : String)
    (injective : Function.Injective hash) (idle : start.stage = .idle)
    (unrecorded : ∀ sha, (start.dirs sha).provenance = none)
    (run : Run (step hash) Undisturbed start moves t) : t.Truthful hash buildsDir := by
  have first : Sound hash start := by
    refine ⟨fun sha prov there => ?_, by rw [idle]; trivial⟩
    rw [unrecorded] at there
    cases there
  have sound : Sound hash t := Run.invariant run first
    fun w m v sound undisturbed hstep => sound_step sound undisturbed hstep
  exact sound.truthful injective buildsDir

end Invariants

section Instances

instance (w : Workshop) : (m : Move) → Decidable (w.Undisturbed m)
  | .stray i _ =>
      match stage : w.stage with
      | .compiling sha true | .compiled sha =>
          decidable_of_iff (w.strays[i]? = some sha) (by rw [Undisturbed, stage])
      | .copying _ => .isFalse (by rw [Undisturbed, stage]; exact id)
      | .idle | .compiling _ false | .copied _ => .isTrue (by rw [Undisturbed, stage]; trivial)
  | .begin_ _ | .output _ | .strayEnds _ | .succeed | .fail | .lose | .openCopy | .copy _ | .copyFails
  | .record | .recordFails | .crash | .remove _ _ _ => .isTrue trivial

/-- A host that has built nothing. -/
def bare : Workshop := ⟨none, fun _ => ⟨none, none⟩, [], .idle, []⟩

def one : Sha := ⟨"1111111111111111111111111111111111111111", by decide⟩
def two : Sha := ⟨"2222222222222222222222222222222222222222", by decide⟩

/-- Bytes in letters. -/
def lettered (bytes : Bytes) : String := String.ofList (bytes.map fun b => Char.ofNat b.toNat)

theorem lettered_injective : Function.Injective lettered := by
  intro a b same
  have letters : Function.Injective fun b : UInt8 => Char.ofNat b.toNat := by
    intro x y same
    have kept (x : UInt8) : (Char.ofNat x.toNat).toNat = x.toNat := by
      have valid : x.toNat.isValidChar := .inl (x.toNat_lt.trans (by decide))
      unfold Char.ofNat
      rw [dif_pos valid]
      rfl
    exact UInt8.toNat_inj.mp ((kept x).symm.trans ((congrArg Char.toNat same).trans (kept y)))
  exact List.map_injective_iff.mpr letters (String.ofList_injective same)

/-- The SHA-256 of the binary that `harmless` leaves, in hexadecimal. -/
def twoSha256 : String := "50cff72c8e550546d661ec235431888fb2f9f7bada40c17020d47f6ccc117aae"

/-- A hash without collisions that is SHA-256 on the one file of `harmless` that is hashed. -/
def digested (bytes : Bytes) : String :=
  if bytes = [2, 2] then twoSha256 else "sha256 of " ++ lettered bytes

theorem twoSha256_ne (s : String) : twoSha256 ≠ "sha256 of " ++ s := by
  intro same
  have five : twoSha256.toList.head? = some '5' := by decide
  rw [same, String.toList_append] at five
  cases five

theorem digested_injective : Function.Injective digested := by
  intro a b same
  unfold digested at same
  split at same <;> split at same
  case isTrue.isTrue left right => rw [left, right]
  case isTrue.isFalse => exact absurd same (twoSha256_ne _)
  case isFalse.isTrue => exact absurd same.symm (twoSha256_ne _)
  case isFalse.isFalse => exact lettered_injective (String.append_right_inj _ |>.mp same)

/-- A cargo of another commit is left running, and does no harm. -/
def harmless : List Move :=
  [.begin_ one, .crash, .begin_ two, .stray 0 [1], .output [2, 2], .succeed, .openCopy, .copy 0, .copy 7,
    .copy 0, .record, .stray 0 [1]]

theorem cache_truthful_two : ∃ t, Run (step digested) Undisturbed bare harmless t ∧
    cachedBinary digested "builds" t two = .ok ⟨binaryPath "builds" two, twoSha256⟩ ∧
    t.Truthful digested "builds" := by
  have ends : (replay (step digested) Undisturbed bare harmless).map
      (fun t => cachedBinary digested "builds" t two) =
        some (.ok ⟨binaryPath "builds" two, twoSha256⟩) := by decide +kernel
  obtain ⟨t, whole, hit⟩ := Option.map_eq_some_iff.mp ends
  have run : Run (step digested) Undisturbed bare harmless t := Run.of_replay whole
  exact ⟨t, run, hit, cache_truthful "builds" digested_injective rfl (fun _ => rfl) run⟩

/-- The agent dies while a commit is built; the cargo that is left replaces the output of the next. -/
def overwritten : List Move :=
  [.begin_ one, .crash, .begin_ two, .output [2], .succeed, .stray 0 [1], .openCopy, .copy 0, .copy 0,
    .record]

theorem left_cargo_cached : ¬ ∃ hash, ∀ t, Run (step hash) Free bare overwritten t →
    t.Truthful hash "builds" := by
  rintro ⟨hash, always⟩
  have ends : (replay (step hash) Free bare overwritten).map (fun t => (t.dirs two, t.made)) =
      some (⟨some [1], some ⟨two, hash [1]⟩⟩, [(one, [1]), (two, [2])]) := rfl
  obtain ⟨t, whole, ends⟩ := Option.map_eq_some_iff.mp ends
  obtain ⟨there, made⟩ := Prod.mk.inj ends
  have truthful := always t (Run.of_replay whole)
  obtain ⟨bytes, binary, -, mine⟩ := truthful two _ (cachedBinary_recorded there)
  rw [there] at binary
  cases binary
  rw [made] at mine
  exact absurd mine (by decide)

end Instances

end Workshop

end Bench
end Metralectl
