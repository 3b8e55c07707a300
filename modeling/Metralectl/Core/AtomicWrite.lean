import Mathlib.Data.List.Basic
import Metralectl.Library.Directories
import Metralectl.Library.Runs

/-!
Replacing a file by another: the bytes go to a temporary file beside it, which is renamed over it.
A call stops wherever it asks the file system something; in between come other calls, readers,
kills and power cuts. The path is the one a link leads to.
-/
namespace Metralectl
namespace AtomicWrite
open Directories
universe u
variable {N : Type u} [DecidableEq N]

/-- How one function goes about it for one path. -/
structure Scheme (N : Type u) where
  path : N
  /-- The temporary name, for a process and a number it gives out once. -/
  temp : Nat → Nat → N
  apart : ∀ pid seq, temp pid seq ≠ path
  /-- No two calls get the same one. -/
  unique : Bool
  distinct : unique = true → ∀ {p q m n}, temp p m = temp q n → p = q ∧ m = n
  /-- Something else is asked before the file is opened. -/
  prepares : Bool
  /-- The file is flushed before it is renamed, and the directory after. -/
  flushes : Bool
  /-- A refused rename is tried again. -/
  waits : Bool
  /-- The temporary file goes when the rename fails. -/
  sweeps : Bool

/-- What a call is about to ask: it has opened the file `i`, and `sent` bytes are in it. -/
inductive Phase where
  | preparing
  | opening
  | writing (i sent : Nat)
  | flushing (i : Nat)
  | inspecting (i : Nat)
  | carrying (i : Nat)
  | placing (i waitedMs : Nat)
  | removing (i : Nat)
  | settling
  | ok
  /-- Whether its temporary file was there when it returned. -/
  | failed (left : Bool)
  | dead
deriving DecidableEq

/-- The file the call has opened and not yet renamed. -/
def Phase.file : Phase → Option Nat
  | .writing i _ | .flushing i | .inspecting i | .carrying i | .placing i _ | .removing i => some i
  | _ => none

def Phase.live : Phase → Bool
  | .ok | .failed _ | .dead => false
  | _ => true

structure Call where
  pid : Nat
  seq : Nat
  bytes : Bytes
  phase : Phase
deriving DecidableEq

inductive Reply where
  | done
  | wrote (n : Nat)
  | fail
deriving DecidableEq

namespace Scheme
variable (s : Scheme N) (d : Disk N) (c : Call)

def tempOf : N := s.temp c.pid c.seq

def start : Phase := if s.prepares then .preparing else .opening

/-- All bytes are written. -/
def written (i : Nat) : Phase := if s.flushes then .flushing i else .placing i 0

/-- The call returns an error. -/
def leave (i : Nat) : Phase := .failed (d.names (s.tempOf c) == some i)

/-- The rename failed. -/
def unplaced (i waitedMs : Nat) : Phase :=
  if s.waits && decide (waitedMs < 200) then .placing i (waitedMs + 5)
  else if s.sweeps then .removing i
  else s.leave d c i

/-- From one question to the file system to the next. -/
def resume : Reply → Option (Disk N × Phase)
  | .done =>
      match c.phase with
      | .preparing => some (d, .opening)
      | .opening =>
          let (opened, i) := d.create (s.tempOf c)
          some (opened, if c.bytes.isEmpty then s.written i else .writing i 0)
      | .flushing i => some (d.sync i, .inspecting i)
      | .inspecting i => some (d, .carrying i)
      | .carrying i => some (d, .placing i 0)
      | .placing i waited =>
          match d.rename (s.tempOf c) s.path with
          | some placed => some (placed, if s.flushes then .settling else .ok)
          | none => some (d, s.unplaced d c i waited)
      | .removing i => some (d.remove (s.tempOf c), s.leave (d.remove (s.tempOf c)) c i)
      | .settling => some (d.syncDir, .ok)
      | _ => none
  | .wrote n =>
      match c.phase with
      | .writing i sent =>
          -- a write of nothing is the error `WriteZero`
          if n = 0 then some (d, s.leave d c i)
          else if sent + n ≤ c.bytes.length then
            some (d.write i sent ((c.bytes.drop sent).take n),
              if sent + n < c.bytes.length then .writing i (sent + n) else s.written i)
          else none
      | _ => none
  | .fail =>
      match c.phase with
      | .preparing | .opening => some (d, .failed false)
      | .writing i _ | .flushing i | .carrying i | .removing i => some (d, s.leave d c i)
      -- there need not be a file whose mode to carry over
      | .inspecting i => some (d, .placing i 0)
      | .placing i waited => some (d, s.unplaced d c i waited)
      -- best effort
      | .settling => some (d, .ok)
      | _ => none

end Scheme

/-- Somebody who reads the path: the file it led to and what was read of it, or what was found,
which is nothing where there is no file. -/
inductive Reader where
  | reading (i : Nat) (sofar : Bytes)
  | found (content : Option Bytes)
  | gone
deriving DecidableEq

structure World (N : Type u) where
  disk : Disk N
  /-- `SEQ` of each process; it does not come round in the life of one. -/
  seq : Nat → Nat
  calls : List Call
  readers : List Reader
  /-- What was at the path, after each step. -/
  log : List (Option Bytes)

inductive Event where
  | enter (pid : Nat) (bytes : Bytes)
  | resume (k : Nat) (reply : Reply)
  | look
  | read (k n : Nat)
  /-- The process dies, and may be another one from then on. -/
  | kill (pid : Nat)
  /-- The file reaches stable storage unasked. -/
  | flush (i : Nat)
  | cut (k : Nat) (junk : Nat → Bytes)

def Call.die (c : Call) : Call := if c.phase.live then { c with phase := .dead } else c

def Reader.stop : Reader → Reader
  | .reading _ _ => .gone
  | r => r

/-- The next `n` bytes; nothing more is the end of the file. -/
def Reader.read (d : Disk N) (n : Nat) : Reader → Reader
  | .reading i sofar =>
      let piece := ((d.data i).drop sofar.length).take n
      if n ≠ 0 ∧ piece = [] then .found (some sofar) else .reading i (sofar ++ piece)
  | r => r

def Reader.look (d : Disk N) (path : N) : Reader :=
  match d.names path with
  | some i => .reading i []
  | none => .found none

namespace World

def begin (s : Scheme N) (d : Disk N) : World N := ⟨d.rest, fun _ => 0, [], [], [d.content s.path]⟩

def act (s : Scheme N) (w : World N) : Event → Option (World N)
  | .enter pid bytes =>
      some
        { w with
          seq := Function.update w.seq pid (w.seq pid + 1)
          calls := w.calls ++ [⟨pid, w.seq pid, bytes, s.start⟩] }
  | .resume k reply =>
      match w.calls[k]? with
      | some c =>
          match s.resume w.disk c reply with
          | some (d, p) => some { w with disk := d, calls := w.calls.set k { c with phase := p } }
          | none => none
      | none => none
  | .look => some { w with readers := w.readers ++ [.look w.disk s.path] }
  | .read k n =>
      match w.readers[k]? with
      | some r => some { w with readers := w.readers.set k (r.read w.disk n) }
      | none => none
  | .kill pid =>
      some
        { w with
          seq := Function.update w.seq pid 0
          calls := w.calls.map fun c => if c.pid = pid then c.die else c }
  | .flush i => some { w with disk := w.disk.sync i }
  | .cut k junk =>
      match w.disk.cut k junk with
      | some d => some ⟨d, fun _ => 0, w.calls.map Call.die, w.readers.map Reader.stop, w.log⟩
      | none => none

def record (s : Scheme N) (w : World N) : World N :=
  { w with log := w.disk.content s.path :: w.log }

def step (s : Scheme N) (w : World N) (e : Event) : Option (World N) := (w.act s e).map (record s)

end World

/-- A name in a directory, which need not be text. -/
inductive OsName where
  | text (s : String)
  | other (bytes : List UInt8)
deriving DecidableEq

def OsName.toStr : OsName → Option String
  | .text s => some s
  | .other _ => none

/-- The functions that replace a file; the private one differs from platform to platform. -/
inductive Writer where
  | writeAtomic
  | secretUnix
  | secretWindows
deriving DecidableEq

/-- `StdFileSystem::write_atomic` has one temporary name for each path. -/
def plainTemp (name : OsName) : OsName := .text ("." ++ name.toStr.getD "metralectl" ++ ".tmp")

/-- `secretfile::write` has one for each call. -/
def secretTemp (name : OsName) (pid seq : Nat) : OsName :=
  .text ("." ++ name.toStr.getD "secret" ++ ".tmp" ++ toString pid ++ "." ++ toString seq)

theorem plainTemp_ne (name : OsName) : plainTemp name ≠ name := by
  cases name with
  | other bytes => exact OsName.noConfusion
  | text n =>
      intro same
      have lengths := congrArg (·.toList.length) (OsName.text.inj same)
      simp [OsName.toStr] at lengths
      omega

theorem secretTemp_ne (name : OsName) (pid seq : Nat) : secretTemp name pid seq ≠ name := by
  cases name with
  | other bytes => exact OsName.noConfusion
  | text n =>
      intro same
      have lengths := congrArg (·.toList.length) (OsName.text.inj same)
      simp [OsName.toStr] at lengths
      omega

/-- The process and the number can be read off. -/
theorem secretTemp_inj {name : OsName} {p q m n : Nat}
    (same : secretTemp name p m = secretTemp name q n) : p = q ∧ m = n := by
  have digits (k : Nat) : '.' ∉ Nat.toDigits 10 k := by
    intro here
    exact absurd (Nat.isDigit_of_mem_toDigits (by decide) (by decide) here) (by decide)
  have inj {j k : Nat} (same : Nat.toDigits 10 j = Nat.toDigits 10 k) : j = k := by
    have read := congrArg (Nat.ofDigitChars 10 · 0) same
    simpa only [Nat.ofDigitChars_ten_toDigits] using read
  have ends : Nat.toDigits 10 p ++ '.' :: Nat.toDigits 10 m =
      Nat.toDigits 10 q ++ '.' :: Nat.toDigits 10 n := by
    have chars := congrArg String.toList (OsName.text.inj same)
    simpa [toString, List.append_assoc] using chars
  obtain ⟨pids, _, seqs⟩ := (List.append_cons_inj_of_notMem (digits p) (digits m)).mp ends
  exact ⟨inj pids, inj seqs⟩

def Writer.scheme (name : OsName) : Writer → Scheme OsName
  | .writeAtomic =>
      { path := name
        temp := fun _ _ => plainTemp name
        apart := fun _ _ => plainTemp_ne name
        unique := false
        distinct := nofun
        -- `create_dir_all` of the parent
        prepares := true
        flushes := false
        waits := false
        sweeps := false }
  | .secretUnix =>
      { path := name
        temp := secretTemp name
        apart := secretTemp_ne name
        unique := true
        distinct := fun _ => secretTemp_inj
        prepares := false
        flushes := true
        waits := false
        sweeps := true }
  | .secretWindows =>
      { path := name
        temp := secretTemp name
        apart := secretTemp_ne name
        unique := true
        distinct := fun _ => secretTemp_inj
        -- `verify_location`
        prepares := true
        flushes := false
        waits := true
        sweeps := true }

end AtomicWrite
end Metralectl
