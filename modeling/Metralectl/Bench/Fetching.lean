import Metralectl.Bench.Answers

/-!
Bringing a job's files back: what a client asks a node for, where it puts what it gets,
and what the node, the memory and the disk may answer.
-/
namespace Metralectl
namespace Bench
open Programs

/-- The exit code of a failed command. -/
inductive Code where
  | usage
  | unreachable
  | notPaired
  | refused
  | jobFailed
  | cancelled
  | streamLost
  | unsupported
deriving DecidableEq

structure BenchError where
  exit : Code
  code : String
  message : String
  node : Option String
  nodeId : Option String
  fix : Option String
  retryable : Bool
deriving DecidableEq

namespace BenchError

def new (exit : Code) (code message : String) : BenchError :=
  ⟨exit, code, message, none, none, none, false⟩

def at_ (e : BenchError) (node : String) : BenchError := { e with node := some node }
def badArgs (message : String) : BenchError := new .usage "bad_args" message
def io (message : String) : BenchError := new .usage "io" message
def unreachable (message : String) : BenchError :=
  { new .unreachable "unreachable" message with retryable := true }

end BenchError

abbrev SocketAddr := String

/-- Where a node answered from. -/
structure Reached where
  id : NodeId
  addr : SocketAddr
deriving DecidableEq

namespace Fetch

abbrev Bytes := List UInt8

inductive BenchReq where
  | artifactList (job : JobId)
  | artifactChunk (job : JobId) (name : String) (offset : UInt64) (len : Nat)

/-- What of a reply is read; a refusal is an error of the request. -/
inductive BenchRep where
  | artifacts (items : List ArtifactMeta)
  | chunk (offset : UInt64) (dataB64 : String) (eof : Bool)
  | other (shown : String)

/-- One artifact, on disk. -/
structure Fetched where
  name : String
  relativePath : String
  path : String
  bytes : UInt64
  sha256 : String
deriving DecidableEq

/-- The kinds of system a client runs on. -/
inductive Os where
  | unix
  | windows
deriving DecidableEq

/-- What is computed by other libraries, on the client's system. -/
structure Std where
  os : Os
  /-- In hexadecimal. -/
  sha256 : Bytes → String
  decode : String → Except String Bytes
  quote : String → String
  shown : BenchRep → String
  /-- A directory in the verbatim form of Windows, as it stands before what is joined to it. -/
  verbatim : String → Option String
  parent : String → Option String

inductive Ask where
  | request (addrs : List SocketAddr) (req : BenchReq)
  /-- The memory a download is to fill. -/
  | withCapacity (bytes : UInt64)
  | createDirAll (path : String)
  | createNew (path : String)
  | writeAll (path : String) (data : Bytes)

abbrev Answer : Ask → Type
  | .request _ _ => Except BenchError (Reached × BenchRep)
  | .withCapacity _ => Bool
  | .createDirAll _ | .createNew _ | .writeAll _ _ => Except String Unit

/-- How a call ends that brings nothing back: with an error, of the listing or of the
artifact at a place of the list, or with the process. -/
inductive Failure where
  | failed (place : Option Nat) (e : BenchError)
  | died
deriving DecidableEq

abbrev Proc := Prog Ask Answer Failure

abbrev call (q : Ask) : Proc (Answer q) := Prog.call q

def Os.separates : Os → Char → Bool
  | .unix, c => c = '/'
  | .windows, c => c = '/' || c = '\\'

/-- It starts with a drive letter. -/
def onDrive : List Char → Bool
  | letter :: ':' :: _ => letter.isAlpha
  | _ => false

/-- It stands for itself in whatever directory, on Windows also without a root. -/
def Os.leaves (os : Os) (path : List Char) : Bool :=
  path.head?.any os.separates || (os = .windows && onDrive path)

/-- A path that starts at no root, after a directory. -/
def Std.join (std : Std) (dir rel : String) : String :=
  match std.os with
  | .unix => if dir.toList.getLast?.all Os.unix.separates then dir ++ rel else dir ++ "/" ++ rel
  | .windows =>
      if onDrive rel.toList then rel
      else
        match std.verbatim dir with
        | some base => base ++ rel.map fun c => if c = '/' then '\\' else c
        | none =>
            if dir.toList.getLast?.all Os.windows.separates ∨
                dir.toList.length = 2 ∧ onDrive dir.toList then dir ++ rel
            else dir ++ "\\" ++ rel

/-- Checked on the text. -/
def isPlain (rel : String) : Bool :=
  rel.toList.head? ≠ some '/' && !rel.toList.contains '\\' &&
    (rel.toList.splitOn '/').all fun seg => seg ≠ [] && seg ≠ ['.'] && seg ≠ ['.', '.']

/-- The place an artifact may be written, or why not. -/
def destination (std : Std) (outDir : String) (info : ArtifactMeta) : Except BenchError String :=
  if info.relativePath = "" then .error (.badArgs s!"artifact {info.name} has an empty path")
  else if !isPlain info.relativePath then
    .error (.badArgs s!"artifact {info.name} names {std.quote info.relativePath}, which is not a plain relative path")
  else .ok (std.join outDir info.relativePath)

/-- Check what arrived against what was promised. -/
def verify (std : Std) (info : ArtifactMeta) (data : Bytes) : Except BenchError Unit :=
  if data.length ≠ info.bytes.toNat then
    .error (.io s!"artifact {info.name}: {data.length} bytes arrived, {info.bytes.toNat} promised")
  else if std.sha256 data ≠ info.sha256 then
    .error (.io s!"artifact {info.name}: sha256 {std.sha256 data} arrived, {info.sha256} promised")
  else .ok ()

def unexpected (std : Std) (node : String) (rep : BenchRep) : BenchError :=
  (BenchError.unreachable s!"unexpected reply {std.shown rep}").at_ node

section Calls
variable (std : Std) (given : String) (job : JobId)

/-- Chunk after chunk. Each but the last adds to what is there, and there is never more
than was promised. -/
def downloading (addr : SocketAddr) (info : ArtifactMeta) (data : Bytes) :
    Proc (Except BenchError Bytes) :=
  .ask (.request [addr] (.artifactChunk job info.name (.ofNat data.length) maxChunk)) fun
    | .error e => .ret (.error e)
    | .ok (_, .chunk gotOff dataB64 eof) =>
        if gotOff ≠ .ofNat data.length then
          .ret (.error ((BenchError.io
            s!"artifact {info.name}: asked for offset {data.length}, got {gotOff.toNat}").at_ given))
        else
          match std.decode dataB64 with
          | .error e => .ret (.error (.io s!"artifact {info.name}: bad base64: {e}"))
          | .ok chunk =>
              if info.bytes.toNat < (data ++ chunk).length then
                .ret (.error (.io
                  s!"artifact {info.name}: more than the {info.bytes.toNat} bytes promised"))
              else if eof then .ret (.ok (data ++ chunk))
              else if chunk = [] then
                .ret (.error (.io
                  s!"artifact {info.name}: empty chunk before eof at offset {data.length}"))
              else downloading addr info (data ++ chunk)
    | .ok (_, rep) => .ret (.error (unexpected std given rep))
termination_by info.bytes.toNat + 1 - data.length
decreasing_by
  have := List.length_pos_iff.mpr ‹chunk ≠ []›
  simp only [List.length_append] at *
  omega

/-- Download one artifact fully into memory. -/
def download (addr : SocketAddr) (info : ArtifactMeta) : Proc (Except BenchError Bytes) := do
  match ← call (.withCapacity info.bytes) with
  | true => downloading std given job addr info []
  | false => .stop .died

def makeParent (dest : String) : Proc (Except BenchError Unit) :=
  match std.parent dest with
  | none => return .ok ()
  | some parent => do
      match ← call (.createDirAll parent) with
      | .error e => return .error (.io s!"creating {parent}: {e}")
      | .ok () => return .ok ()

def fetchOne (addr : SocketAddr) (outDir : String) (info : ArtifactMeta) :
    Proc (Except BenchError Fetched) :=
  match destination std outDir info with
  | .error e => return .error e
  | .ok dest => do
      match ← download std given job addr info with
      | .error e => return .error e
      | .ok data =>
          match verify std info data with
          | .error e => return .error e
          | .ok () =>
              match ← makeParent std dest with
              | .error e => return .error e
              | .ok () =>
                  match ← call (.createNew dest) with
                  | .error e => return .error (.io s!"writing {dest}: {e}")
                  | .ok () =>
                      match ← call (.writeAll dest data) with
                      | .error e => return .error (.io s!"writing {dest}: {e}")
                      | .ok () =>
                          return .ok ⟨info.name, info.relativePath, dest, info.bytes, info.sha256⟩

def fetchEach (addr : SocketAddr) (outDir : String) : Nat → List ArtifactMeta →
    Proc (List Fetched)
  | _, [] => return []
  | place, info :: rest => do
      match ← fetchOne std given job addr outDir info with
      | .error e => .stop (.failed (some place) e)
      | .ok file =>
          let files ← fetchEach addr outDir (place + 1) rest
          return file :: files

/-- Download every artifact of the job into the directory, verified. -/
def fetchAll (addrs : List SocketAddr) (outDir : String) : Proc (Reached × List Fetched) := do
  match ← call (.request addrs (.artifactList job)) with
  | .error e => .stop (.failed none e)
  | .ok (reached, .artifacts items) =>
      let out ← fetchEach std given job reached.addr outDir 0 items
      return (reached, out)
  | .ok (_, rep) => .stop (.failed none (unexpected std given rep))

end Calls

/-- The most bytes one allocation can have. -/
def isizeMax : Nat := 2 ^ 63 - 1

/-- What the node, the memory and the disk answer, by the requests made until then. -/
structure Outside where
  reply : Nat → Except BenchError (Reached × BenchRep)
  memory : Nat → Bool
  mkdir : Nat → Option String
  create : Nat → Option String
  /-- After how many bytes a write fails. -/
  cut : Nat → Option (Nat × String)
  /-- The file a path leads to on this disk. -/
  file : String → String

def Outside.grants (o : Outside) (turn : Nat) (bytes : UInt64) : Bool :=
  bytes = 0 || (bytes.toNat ≤ isizeMax && o.memory turn)

def Outside.cuts (o : Outside) (turn : Nat) (data : Bytes) : Option (Nat × String) :=
  (o.cut turn).filter (·.1 < data.length)

/-- The files there are, and the requests made so far. -/
structure Local where
  files : String → Option Bytes
  requests : Nat

def put (file : String) (data : Bytes) (files : String → Option Bytes) : String → Option Bytes :=
  fun f => if f = file then some data else files f

/-- A new file is only made where there is none, and a write that fails leaves what was
written before. -/
def Outside.serve (o : Outside) (s : Local) : (q : Ask) → Answer q × Local
  | .request _ _ => (o.reply s.requests, { s with requests := s.requests + 1 })
  | .withCapacity bytes => (o.grants s.requests bytes, s)
  | .createDirAll _ => (match o.mkdir s.requests with | some e => .error e | none => .ok (), s)
  | .createNew path =>
      match o.create s.requests, s.files (o.file path) with
      | some e, _ => (.error e, s)
      | none, some _ => (.error "File exists (os error 17)", s)
      | none, none => (.ok (), { s with files := put (o.file path) [] s.files })
  | .writeAll path data =>
      match o.cuts s.requests data with
      | some (written, e) => (.error e, { s with files := put (o.file path) (data.take written) s.files })
      | none => (.ok (), { s with files := put (o.file path) data s.files })

end Fetch
end Bench
end Metralectl
