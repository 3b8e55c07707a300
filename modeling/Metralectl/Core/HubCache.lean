import Metralectl.Library.Paths
import Metralectl.Library.Search
import Metralectl.Library.Utf8

/-!
Where a Hub model lives in a local cache, and whether it can be served from there. A launch runs
offline: that the directory of a model is there says nothing about its weights.
-/
namespace Metralectl
namespace HubCache
open Utf8

/-- Where a model named by its Hub id lies. Nothing is guessed for any other name. -/
def hubDir (cacheRoot model : List Char) : Option (List Char) :=
  if model.head? = some '/' ∨ model.head? = some '.' ∨ model.head? = some '~' then none
  else
    match Paths.segments model with
    | [org, name] =>
        if org.isEmpty || name.isEmpty then none
        else some (Paths.join (Paths.join cacheRoot "hub".toList)
          ("models--".toList ++ org ++ "--".toList ++ name))
    | _ => none

/-- A directory, and the names that lead on from it. Not every name is a text. -/
structure Place where
  dir : List Char
  names : List Bytes
deriving DecidableEq

def Place.join (place : Place) (name : Bytes) : Place := ⟨place.dir, place.names ++ [name]⟩

/-- What a directory says of one of its entries. A link is not a directory, wherever it leads, and
of some entries the kind cannot be told. -/
structure Entry where
  name : Bytes
  isDir : Option Bool
deriving DecidableEq

/-- A reading of a directory leaves out the entries that could not be read. Whether a place can be
looked up is asked of what its links lead to. -/
structure FileSystem where
  readDir : Place → Option (List Entry)
  resolves : Place → Bool

inductive CacheState where
  | absent
  | metadataOnly
  | weights
deriving DecidableEq

def dot : UInt8 := 46

/-- What follows the last dot of a name. One that begins there has no extension. -/
def extension (name : Bytes) : Option Bytes :=
  if name = [dot, dot] then none
  else
    match name.reverse.dropWhile (· != dot) with
    | [] | [_] => none
    | _ :: _ :: _ => some (name.reverse.takeWhile (· != dot)).reverse

def weightExtensions : List Text :=
  ["safetensors".toList, "bin".toList, "gguf".toList, "pt".toList, "pth".toList]

def isWeight (name : Bytes) : Bool :=
  ((extension name).bind decode).any weightExtensions.contains

def maxSnapshotDepth : Nat := 3

/-- Whether a weight file that can actually be read lies at a place, or so far below it. -/
def hasWeightBelow (fs : FileSystem) (dir : Place) (depth : Nat) : Bool :=
  match fs.readDir dir with
  | none => false
  | some entries =>
      entries.any (fun e =>
        e.isDir = some false && isWeight e.name && fs.resolves (dir.join e.name)) ||
      match depth with
      | 0 => false
      | depth + 1 => (entries.filter (·.isDir = some true)).any
          fun e => hasWeightBelow fs (dir.join e.name) depth

def snapshots (dir : List Char) : Place := ⟨dir, [encode "snapshots".toList]⟩

def cacheState (fs : FileSystem) (dir : List Char) : CacheState :=
  if !fs.resolves ⟨dir, []⟩ then .absent
  else
    match fs.readDir (snapshots dir) with
    | none => .metadataOnly
    | some snaps =>
        -- A cache that holds one complete revision serves that one.
        if snaps.any fun snap =>
            hasWeightBelow fs ((snapshots dir).join snap.name) maxSnapshotDepth then .weights
        else .metadataOnly

/-- What a launch is refused with whose model cannot be served from the cache. -/
def missingWeights (fs : FileSystem) (cacheDir model : String) : Option String :=
  match hubDir cacheDir.toList model.toList with
  | none => none
  | some dir =>
      match cacheState fs dir with
      | .weights => none
      | .absent => some ("the model `" ++ model ++ "` is not in this machine's HuggingFace cache (" ++
          cacheDir ++ "). The launch runs offline, so it cannot download it — fetch it " ++
          "first with `hf download " ++ model ++ "`.")
      | .metadataOnly => some ("the model `" ++ model ++ "` has a cache directory in " ++ cacheDir ++
          " but no weight files — what an interrupted or metadata-only download " ++
          "leaves behind. Complete it with `hf download " ++ model ++ "`.")

section Weights
variable {fs : FileSystem} {dir : Place} {depth : Nat}

/-- A directory lists a weight file there, and what its name leads to can be read. -/
def HoldsWeight (fs : FileSystem) (dir : Place) : Prop :=
  ∃ entries, fs.readDir dir = some entries ∧ ∃ e ∈ entries, e.isDir = some false ∧
    isWeight e.name = true ∧ fs.resolves (dir.join e.name) = true

/-- The directories that a directory lists, none of them by a link. -/
def subdirs (fs : FileSystem) (dir : Place) : List Place :=
  (((fs.readDir dir).getD []).filter (·.isDir = some true)).map fun e => dir.join e.name

def holdsWeight (fs : FileSystem) (dir : Place) : Bool :=
  ((fs.readDir dir).getD []).any fun e =>
    e.isDir = some false && isWeight e.name && fs.resolves (dir.join e.name)

theorem holdsWeight_iff : holdsWeight fs dir = true ↔ HoldsWeight fs dir := by
  rw [holdsWeight, HoldsWeight]
  cases listed : fs.readDir dir with
  | none => simp
  | some entries => simp [and_assoc]

theorem hasWeightBelow_eq :
    hasWeightBelow fs dir depth = Search.within (subdirs fs) (holdsWeight fs) depth dir := by
  induction depth generalizing dir with
  | zero =>
      rw [hasWeightBelow, Search.within, holdsWeight]
      cases fs.readDir dir with
      | none => rfl
      | some entries => simp
  | succ depth ih =>
      rw [hasWeightBelow, Search.within, holdsWeight, subdirs]
      cases fs.readDir dir with
      | none => rfl
      | some entries => simp [ih, List.any_map, Function.comp_def]

theorem hasWeightBelow_iff : hasWeightBelow fs dir depth = true ↔
    ∃ place, Search.Reaches (subdirs fs) depth dir place ∧ HoldsWeight fs place := by
  simp only [hasWeightBelow_eq, Search.within_iff, holdsWeight_iff]

/-- Some snapshot of a model has a weight file that can be read. -/
def Complete (fs : FileSystem) (dir : List Char) : Prop :=
  ∃ snaps, fs.readDir (snapshots dir) = some snaps ∧ ∃ snap ∈ snaps, ∃ place,
    Search.Reaches (subdirs fs) maxSnapshotDepth ((snapshots dir).join snap.name) place ∧
      HoldsWeight fs place

theorem cacheState_weights {dir : List Char} : cacheState fs dir = .weights ↔
    fs.resolves ⟨dir, []⟩ = true ∧ Complete fs dir := by
  rw [cacheState, Complete]
  cases fs.resolves ⟨dir, []⟩ with
  | false => simp
  | true =>
      cases fs.readDir (snapshots dir) with
      | none => simp
      | some snaps => simp [hasWeightBelow_iff]

/-- Nothing keeps a launch from the weights it needs: they are in the cache, or not looked for. -/
def Servable (fs : FileSystem) (cacheDir model : String) : Prop :=
  ∀ dir, hubDir cacheDir.toList model.toList = some dir →
    fs.resolves ⟨dir, []⟩ = true ∧ Complete fs dir

theorem missingWeights_none {cacheDir model : String} :
    missingWeights fs cacheDir model = none ↔ Servable fs cacheDir model := by
  rw [missingWeights, Servable]
  cases hubDir cacheDir.toList model.toList with
  | none => simp
  | some dir =>
      simp only [Option.some.injEq, forall_eq']
      rw [← cacheState_weights]
      cases cacheState fs dir with
      | weights => simp
      | absent | metadataOnly => simp

end Weights

end HubCache
end Metralectl
