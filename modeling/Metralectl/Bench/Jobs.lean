import Mathlib.Data.String.Basic
import Metralectl.Bench.Events
import Metralectl.Core.Text
import Metralectl.Library.SortedMap

/-!
Jobs on disk: the record, the key index, and the directory each job owns. Of the files
only what the store reads back is kept: what `job.json` of each directory holds, and the
files of the index.
-/
namespace Metralectl
namespace Bench
open SortedMaps

/-- What a submission asked for. Two submissions with one key must agree on all of this. -/
structure JobSpec where
  sha : Sha
  gate : GateId
  params : SortedMap String String
  checkpoint : Option String
  maxRunS : UInt32
deriving DecidableEq

/-- File name to last write, of a gate's record directory. -/
abbrev RecordState := SortedMap String Nat

structure JobRecord where
  id : JobId
  key : JobKey
  sender : NodeId
  spec : JobSpec
  note : Option String
  state : JobState
  createdAtS : Nat
  updatedAtS : Nat
  childPid : Option UInt32
  childStartTicks : Option UInt64
  binarySha256 : Option String
  recordsBefore : RecordState
  seqHigh : UInt64
  outcome : Option Outcome
deriving DecidableEq

/-- A job's directory: its record, where `job.json` is there and is one. -/
structure JobDir where
  record : Option JobRecord
deriving DecidableEq

/-- The store: the directories of its root but the index, and the index, once it is made. -/
structure JobStore where
  dirs : SortedMap String JobDir
  index : Option (SortedMap String String)
deriving DecidableEq

inductive StoreError where
  | unreadableIndex
  | malformedId
  | noJob
  | exists_
  | creating
  | writing
  | renaming
  | notTerminal
deriving DecidableEq

/-- Where a name in the index leads. -/
inductive Spot where
  | missing
  | directory
  | file (content : String)
deriving DecidableEq

/-- The name up to its last dot, unless that is all of it. -/
def fileStem (name : String) : String :=
  let front := ((name.toList.reverse.dropWhile (· ≠ '.')).drop 1).reverse
  if front = [] then name else String.ofList front

/-- The sibling a file is written to before it is renamed: its extension is replaced. -/
def temporary (pid : UInt32) (name : String) : String := s!"{fileStem name}.tmp.{pid.toNat}"

namespace JobStore

def load (s : JobStore) (id : JobId) : Except StoreError JobRecord :=
  match (s.dirs.get? id.text).bind JobDir.record with
  | some r => .ok r
  | none => .error .noJob

/-- A path that ends in a dot or two leads to a directory, where the index is there. -/
def spot (s : JobStore) (name : String) : Spot :=
  match s.index with
  | none => .missing
  | some files =>
      if name = "." ∨ name = ".." then .directory
      else
        match files.get? name with
        | some content => .file content
        | none => .missing

/-- The job a key already names, if any. -/
def byKey (s : JobStore) (key : JobKey) : Except StoreError (Option JobRecord) :=
  match s.spot key.text with
  | .missing => .ok none
  | .directory => .error .unreadableIndex
  | .file content =>
      match Token.parse ['-'] (trim content) with
      | none => .error .malformedId
      | some id => (s.load id).map some

/-- A job's directory, made where it is not there. -/
def makeDir (s : JobStore) (id : JobId) : JobStore :=
  match s.dirs.get? id.text with
  | some _ => s
  | none => { s with dirs := s.dirs.insert id.text ⟨none⟩ }

def makeIndex (s : JobStore) : JobStore := { s with index := some (s.index.getD .empty) }

/-- What the record's file holds from now on. -/
def save (s : JobStore) (r : JobRecord) : JobStore :=
  { s with dirs := s.dirs.insert r.id.text ⟨some r⟩ }

def writeIndex (s : JobStore) (name content : String) : JobStore :=
  { s with index := s.index.map (·.insert name content) }

def renameIndex (s : JobStore) (source target : String) : JobStore :=
  { s with index := s.index.map fun files =>
      match files.get? source with
      | some content => (files.remove source).insert target content
      | none => files }

/-- Newest first. -/
def newer (a b : JobRecord) : Bool :=
  b.createdAtS < a.createdAtS || (a.createdAtS = b.createdAtS && b.id.text ≤ a.id.text)

def records (s : JobStore) : List JobRecord :=
  s.dirs.entries.filterMap fun d =>
    (Token.parse ['-'] d.1).bind fun id : JobId => (s.load id).toOption

/-- Every job, newest first. -/
def list (s : JobStore) : List JobRecord := s.records.mergeSort newer

/-- Of a terminal job, the index entry of its key and its directory. -/
def remove (s : JobStore) (r : JobRecord) : Except StoreError JobStore :=
  if r.state.isTerminal then
    .ok { dirs := s.dirs.remove r.id.text, index := s.index.map (·.remove r.key.text) }
  else .error .notTerminal

end JobStore

/-- The operations of `create` on files, in their order. -/
inductive CreateOp where
  | lookDir
  | makeDirs
  | writeRecord
  | renameRecord
  | makeIndexDir
  | writeIndexEntry
  | renameIndexEntry
deriving DecidableEq

/-- Which of them fail, and what those leave that fail halfway: a directory without a
record, or a part of the index entry. -/
structure Faults where
  fails : CreateOp → Bool
  made : Bool
  left : Option String

def Faults.none : Faults := ⟨fun _ => false, false, Option.none⟩

namespace JobStore

/-- Index the record's key; where the key is a dot or two, its path ends in a directory. -/
def indexKey (s : JobStore) (f : Faults) (pid : UInt32) (r : JobRecord) :
    JobStore × Except StoreError Unit :=
  if f.fails .makeIndexDir then (s, .error .creating)
  -- The index is not the parent of such a path, and its temporary file is beside it.
  else if r.key.text = "." then
    (s, .error (if f.fails .writeIndexEntry then .writing else .renaming))
  else
    let s := s.makeIndex
    if r.key.text = ".." then (s, .error .writing)
    else
      let temp := temporary pid r.key.text
      if f.fails .writeIndexEntry then
        (f.left.elim s fun part => s.writeIndex temp part, .error .writing)
      else
        let s := s.writeIndex temp r.id.text
        if f.fails .renameIndexEntry then (s, .error .renaming)
        else (s.renameIndex temp r.key.text, .ok ())

/-- Create a job directory and its record, and index its key. A look that fails says that
the directory is not there. -/
def create (s : JobStore) (f : Faults) (pid : UInt32) (r : JobRecord) :
    JobStore × Except StoreError Unit :=
  if (s.dirs.get? r.id.text).isSome && !f.fails .lookDir then (s, .error .exists_)
  else if f.fails .makeDirs then (if f.made then s.makeDir r.id else s, .error .creating)
  else
    let s := s.makeDir r.id
    if f.fails .writeRecord then (s, .error .writing)
    else if f.fails .renameRecord then (s, .error .renaming)
    else (s.save r).indexKey f pid r

end JobStore

/-- Where a creation is between two of its file operations that others can see. -/
inductive CreateStage where
  | look
  | make
  | save
  | index
  | rename
deriving DecidableEq

namespace JobStore

/-- The same creation, a stage at a time: others may write between two stages. -/
def createStep (s : JobStore) (f : Faults) (pid : UInt32) (r : JobRecord) :
    CreateStage → JobStore × (CreateStage ⊕ Except StoreError Unit)
  | .look =>
      if (s.dirs.get? r.id.text).isSome && !f.fails .lookDir then (s, .inr (.error .exists_))
      else (s, .inl .make)
  | .make =>
      if f.fails .makeDirs then (if f.made then s.makeDir r.id else s, .inr (.error .creating))
      else (s.makeDir r.id, .inl .save)
  | .save =>
      if f.fails .writeRecord then (s, .inr (.error .writing))
      else if f.fails .renameRecord then (s, .inr (.error .renaming))
      else (s.save r, .inl .index)
  | .index =>
      if f.fails .makeIndexDir then (s, .inr (.error .creating))
      else if r.key.text = "." then
        (s, .inr (.error (if f.fails .writeIndexEntry then .writing else .renaming)))
      else
        let s := s.makeIndex
        if r.key.text = ".." then (s, .inr (.error .writing))
        else
          let temp := temporary pid r.key.text
          if f.fails .writeIndexEntry then
            (f.left.elim s fun part => s.writeIndex temp part, .inr (.error .writing))
          else (s.writeIndex temp r.id.text, .inl .rename)
  | .rename =>
      let temp := temporary pid r.key.text
      if f.fails .renameIndexEntry then (s, .inr (.error .renaming))
      else if s.spot temp = .missing then (s, .inr (.error .renaming))
      else (s.renameIndex temp r.key.text, .inr (.ok ()))

/-- The stages in a row, with nobody between them. -/
def createAll (f : Faults) (pid : UInt32) (r : JobRecord) : List CreateStage → JobStore →
    JobStore × Except StoreError Unit
  | [], s => (s, .ok ())
  | stage :: rest, s =>
      match s.createStep f pid r stage with
      | (s, .inl _) => createAll f pid r rest s
      | (s, .inr result) => (s, result)

end JobStore

/-- The bytes of a number, the least significant first. -/
def littleEndian : Nat → Nat → Utf8.Bytes
  | 0, _ => []
  | width + 1, n => UInt8.ofNat (n % 256) :: littleEndian width (n / 256)

section Minting
variable (digest : Utf8.Bytes → BitVec 256)

def mintText (nowS : UInt64) (key : JobKey) (sender : NodeId) : String :=
  let hashed := littleEndian 8 nowS.toNat ++ Utf8.encode key.text.toList ++
    Utf8.encode (nodeText sender).toList
  "jb-" ++ toString nowS.toNat ++ "-" ++
    String.ofList (hexDigits 8 ((digest hashed).toNat / 2 ^ 224))

theorem hexDigits_plain {digits n : Nat} {c : Char} (h : c ∈ hexDigits digits n) :
    c.isAlphanum = true := by
  obtain ⟨i, _, rfl⟩ := List.mem_map.mp h
  have small : n / 16 ^ (digits - 1 - i) % 16 < 16 := Nat.mod_lt _ (by decide)
  generalize n / 16 ^ (digits - 1 - i) % 16 = d at small
  revert d
  decide

theorem length_toDigits {n : Nat} (h : n < 2 ^ 64) : (Nat.toDigits 10 n).length ≤ 20 := by
  refine (Nat.length_toDigits_le_iff (by decide) (by decide)).mpr (h.trans (by decide))

theorem mintText_toList (nowS : UInt64) (key : JobKey) (sender : NodeId) : ∃ n,
    (mintText digest nowS key sender).toList =
      "jb-".toList ++ Nat.toDigits 10 nowS.toNat ++ "-".toList ++ hexDigits 8 n := by
  simp only [mintText, String.toList_append, String.toList_ofList, toList_toString]
  exact ⟨_, rfl⟩

/-- The shape is that of an identifier. -/
theorem mintText_accepted (nowS : UInt64) (key : JobKey) (sender : NodeId) :
    checkToken (mintText digest nowS key sender) 64 ['-'] = .ok () := by
  obtain ⟨n, text⟩ := mintText_toList digest nowS key sender
  have plain : ∀ c ∈ (mintText digest nowS key sender).toList, c.isAlphanum = true ∨ c = '-' := by
    intro c hc
    rw [text] at hc
    simp only [List.mem_append] at hc
    obtain ((hc | hc) | hc) | hc := hc
    · have front : ("jb-".toList.all fun c => c.isAlphanum || c = '-') = true := by decide
      simpa using List.all_eq_true.mp front c hc
    · have digit : c.isDigit = true := Nat.isDigit_of_mem_toDigits (by decide) (by decide) hc
      exact .inl (by simp [Char.isAlphanum, digit])
    · exact .inr (List.mem_singleton.mp hc)
    · exact .inl (hexDigits_plain hc)
  have ascii : ∀ c ∈ (mintText digest nowS key sender).toList, c.utf8Size = 1 := by
    intro c hc
    cases plain c hc with
    | inl letter => exact utf8Size_alphanum letter
    | inr dash => rw [dash]; decide
  have bytes : (mintText digest nowS key sender).utf8ByteSize ≤ 64 := by
    have digits := length_toDigits nowS.toNat_lt
    have length : (mintText digest nowS key sender).utf8ByteSize =
        (mintText digest nowS key sender).toList.length := by
      rw [← Utf8.length_encode_ascii ascii, ← Utf8.utf8ByteSize_ofList, String.ofList_toList]
    rw [length, text]
    simp [hexDigits]
    omega
  have first : (mintText digest nowS key sender).toList.head? = some 'j' := by rw [text]; rfl
  have some_ : mintText digest nowS key sender ≠ "" := by
    intro none_
    rw [none_] at first
    cases first
  have none_ : (mintText digest nowS key sender).toList.find?
      (fun c => !(isAsciiAlphanumeric c || ['-'].contains c)) = none := by
    refine List.find?_eq_none.mpr fun c hc => ?_
    cases plain c hc with
    | inl letter => simp [isAsciiAlphanumeric, letter]
    | inr dash => simp [dash]
  rw [checkToken, if_neg some_, if_neg (not_lt.mpr bytes), first, if_neg (by decide), none_]

/-- `jb-<unix>-<8 hex>`, from the clock, the key and the sender. -/
def mintId (nowS : UInt64) (key : JobKey) (sender : NodeId) : JobId :=
  ⟨mintText digest nowS key sender, mintText_accepted digest nowS key sender⟩

end Minting

theorem k_accepted : checkToken "k" 64 ['.', '_', '-'] = .ok () := by decide

theorem second_accepted : checkToken "jb-2-00000000" 64 ['-'] = .ok () := by decide

theorem m_accepted : checkToken "m" 64 ['.', '_', '-'] = .ok () := by decide

theorem gate_accepted : checkToken "gate" 64 ['.', '_', '-'] = .ok () := by decide

theorem zeros_sha : isSha "0000000000000000000000000000000000000000" = true := by decide

/-- A job as it is submitted under a key. -/
def queuedUnder (key : JobKey) : JobRecord where
  id := ⟨"jb-1-00000000", by decide⟩
  key := key
  sender := 0
  spec := ⟨⟨"0123456789abcdef0123456789abcdef01234567", by decide⟩, ⟨"gate", by decide⟩, .empty, none, 60⟩
  note := none
  state := .queued
  createdAtS := 1
  updatedAtS := 1
  childPid := none
  childStartTicks := none
  binarySha256 := none
  recordsBefore := .empty
  seqHigh := 0
  outcome := none

end Bench
end Metralectl
