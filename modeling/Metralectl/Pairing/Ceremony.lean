import Metralectl.Core.Text
import Metralectl.Library.Programs
import Metralectl.Library.Utf8
import Metralectl.Protocol.Ids

/-!
The joining side of a pairing: dialling an address, and the ceremony over the connection. A
program of questions to the address, which ends with what was agreed or with a chain of causes.
-/
namespace Metralectl
namespace Joining
open Programs Utf8

/-- The kinds of a fault of input or output; the first six mean that nobody answered. -/
inductive ErrorKind where
  | connectionRefused
  | timedOut
  | hostUnreachable
  | networkUnreachable
  | addrNotAvailable
  | notFound
  | other (name : String)

structure IoError where
  kind : ErrorKind
  text : String

inductive Cause where
  | io (e : IoError)
  | said (text : String)
  | neverReached

/-- The causes of a failure, the outermost first. -/
abbrev Chain := List Cause

def Cause.shown : Cause → String
  | .io e => e.text
  | .said text => text
  | .neverReached => "no address answered"

def Chain.shown (e : Chain) : String := ": ".intercalate (e.map Cause.shown)

def ErrorKind.unanswered : ErrorKind → Bool
  | .other _ => false
  | _ => true

def Cause.unanswered : Cause → Bool
  | .io e => e.kind.unanswered
  | _ => false

/-- Whether a failure means that no peer ever answered. -/
def neverReached (e : Chain) : Bool := e.any Cause.unanswered

inductive PeerFrame where
  | hello (version : UInt32) (name : String) (canLaunch : Bool) (accelerator os : String)
      (versionMax : Option UInt32)
  | pairStart (message : String)
  | pairAnswer (message : String)
  | pairConfirm (mac : String)
  | pairRefused (reason : String)
  | pairAccepted (publicKey : String)
  | other (shown : String)

def peerProtocolVersion : UInt32 := 1
def peerProtocolMax : UInt32 := 3

def PeerFrame.isRefusal : PeerFrame → Bool
  | .pairRefused _ => true
  | _ => false

/-- A finished handshake: the certificate of the other side, and the keying material. -/
structure TlsSession where
  certificate : Option Bytes
  exporter : Except String Bytes

inductive Connected where
  /-- No answer within the dial timeout. -/
  | silent
  | failed (e : IoError)
  | established

inductive ReadFault where
  | length (e : IoError)
  | tooLong (len : UInt32)
  | body (e : IoError)
  | undecodable (why : String)

/-- What a read waits for. -/
inductive Awaited where
  | hello
  | message
  | confirmation
  | acceptance
deriving DecidableEq

/-- What the joining side does with an address. -/
inductive Ask where
  | connect
  | handshake
  | write (frame : PeerFrame)
  | read (awaited : Awaited)

abbrev Answer : Ask → Type
  | .connect => Connected
  | .handshake => Except IoError TlsSession
  | .write _ => Except IoError Unit
  | .read _ => Except ReadFault PeerFrame

/-- How an address behaves. -/
abbrev Peer := (q : Ask) → Answer q

abbrev Proc := Prog Ask Answer Chain

/-- One side of a password exchange: what it sends, and the key it comes to. -/
structure Spake where
  message : Bytes
  finish : Bytes → Except String Bytes

/-- What is computed by other libraries. -/
structure Std where
  decodeHex : String → Except String Bytes
  digest : Bytes → BitVec 256
  /-- Whether the bytes are a point of the curve. -/
  point : Bytes → Except String Unit
  spake : (password identity : Bytes) → Spake
  debug : PeerFrame → String

/-- This side: its identity, and what it is built with. -/
structure Dialler extends Std where
  node : NodeId
  publicKey : Bytes
  name : String
  os : String
  config : Except (List String) Unit
  serverName : Except String Unit

/-- What a completed ceremony produced. -/
structure Paired where
  node : NodeId
  publicKey : String
  name : String
  verification : String
deriving DecidableEq

def bytesOf (id : BitVec 256) : Bytes :=
  (List.range 32).map fun i => UInt8.ofNat (id.toNat / 256 ^ (31 - i))

def encodeHex (bytes : Bytes) : String := String.ofList (bytes.flatMap fun b => hexDigits 2 b.toNat)

def showId (id : NodeId) : String := String.ofList (hexDigits 64 id.toNat)

def looksLikeCode (code : String) : Bool := code.utf8ByteSize = 8 && code.toList.all Char.isDigit

inductive Escape where
  | none
  | opened
  | csi
  | osc

def isHidden (c : Char) : Bool :=
  let n := c.toNat
  (n < 0x20 && c ≠ '\t') || (0x7f ≤ n && n ≤ 0x9f) || (0x202a ≤ n && n ≤ 0x202e) ||
    (0x2066 ≤ n && n ≤ 0x2069)

/-- What stays of a text from elsewhere: no escape sequences, no controls, at most 2000 characters. -/
def sanitizing : Escape → Nat → List Char → List Char
  | _, _, [] => []
  | .opened, n, c :: cs => sanitizing (if c = '[' then .csi else if c = ']' then .osc else .none) n cs
  | .csi, n, c :: cs => sanitizing (if c.isAlpha then .none else .csi) n cs
  | .osc, n, c :: cs => sanitizing (if c = '\x07' ∨ c = '\x1b' then .none else .osc) n cs
  | .none, n, c :: cs =>
      if c = '\x1b' then sanitizing .opened n cs
      else if isHidden c then sanitizing .none n cs
      else if 2000 ≤ n + 1 then [c, '…']
      else c :: sanitizing .none (n + 1) cs

def sanitize (raw : String) : String := String.ofList (sanitizing .none 0 raw.toList)

def refusalMessage (reason : String) : String := s!"the other node refused: {sanitize reason}"

section Local
variable (std : Std)

def spkiPrefix : Bytes := [0x30, 0x2a, 0x30, 0x05, 0x06, 0x03, 0x2b, 0x65, 0x70, 0x03, 0x21, 0x00]

/-- Whose certificate it is: that of the one key it carries. -/
def peerIdentity (der : Bytes) : Except (List String) NodeId :=
  let starts := (List.range (der.length - 11)).filter fun i => (der.drop i).take 12 = spkiPrefix
  match starts with
  | [] => .error ["certificate carries no Ed25519 public key"]
  | [start] =>
      let key := (der.drop (start + 12)).take 32
      if key.length < 32 then .error ["certificate is truncated inside its public key"]
      else
        match std.point key with
        | .error why => .error ["public key is not a valid Ed25519 point", why]
        | .ok () => .ok (std.digest key)
  | _ => .error ["certificate carries more than one Ed25519 public key, so which one " ++
      "authenticated it is ambiguous. Refusing rather than guessing."]

def verifyKeyMatches (id : NodeId) (publicKey : String) : Except (List String) Unit :=
  match std.decodeHex publicKey with
  | .error why => .error ["public key is not hex", why]
  | .ok key =>
      if key.length ≠ 32 then .error ["public key is not 32 bytes"]
      else
        match std.point key with
        | .error why => .error ["public key is not on the curve", why]
        | .ok () =>
            if std.digest key = id then .ok ()
            else .error ["public key does not match the fingerprint it claims"]

/-- The exchange under a code between two nodes, the smaller one named first. -/
def exchange (code : String) (own remote : NodeId) : Spake :=
  let (lo, hi) := if own ≤ remote then (own, remote) else (remote, own)
  std.spake (encode code.toList) (encode s!"{showId lo}:{showId hi}".toList)

/-- What one node sends another to confirm the key of the exchange over its session. -/
def macOf (key binding : Bytes) (sender receiver : NodeId) : Bytes :=
  let length := (List.range 4).map fun i => UInt8.ofNat (min binding.length 0xFFFFFFFF / 256 ^ (3 - i))
  bytesOf (std.digest (encode "metralectl key confirmation v1".toList ++ key ++ length ++ binding ++
    bytesOf sender ++ bytesOf receiver))

def verificationWords (key : Bytes) : String :=
  let d := bytesOf (std.digest (encode "metralectl verification v1".toList ++ key))
  s!"{encodeHex (d.take 2)}-{encodeHex ((d.drop 2).take 2)}"

end Local

/-- Ends with these texts as its causes. -/
def failed {α : Type} (texts : List String) : Proc α := .stop (texts.map .said)

/-- What is found out without the address; a failure is said under a context. -/
def found {α : Type} (context : List String) : Except (List String) α → Proc α
  | .ok a => .ret a
  | .error why => failed (context ++ why)

def writeFrame (frame : PeerFrame) : Proc Unit :=
  .ask (.write frame) fun
  | .ok () => .ret ()
  | .error e => .stop [.io e]

def readFrame (awaited : Awaited) : Proc PeerFrame :=
  .ask (.read awaited) fun
  | .ok frame => .ret frame
  | .error (.length e) => .stop [.said "reading a peer frame length", .io e]
  | .error (.tooLong len) => failed [s!"peer announced a {len}-byte frame; the limit is 1048576"]
  | .error (.body e) => .stop [.said "reading a peer frame body", .io e]
  | .error (.undecodable why) => failed ["decoding a peer frame", why]

section Ceremony
variable (d : Dialler)

/-- The name in the first frame of the other side. -/
def helloOf : PeerFrame → Except (List String) String
  | .hello version name _ _ _ _ =>
      if version = peerProtocolVersion then .ok name
      else .error [s!"this node speaks peer protocol {peerProtocolVersion}, the other speaks {version}"]
  | frame => .error [s!"expected a hello, got {d.debug frame}"]

/-- The first frames: who each side is. -/
def hellos : Proc String := do
  writeFrame (.hello peerProtocolVersion d.name true "" d.os (some peerProtocolMax))
  let frame ← readFrame .hello
  found [] (helloOf d frame)

def messageOf : PeerFrame → Except (List String) Bytes
  | .pairStart message | .pairAnswer message =>
      (d.decodeHex message).mapError fun why => ["peer sent a malformed pairing message", why]
  | .pairRefused reason => .error [refusalMessage reason]
  | frame => .error [s!"expected a pairing message, got {d.debug frame}"]

/-- The exchange of the messages: the key it comes to. -/
def messages (spake : Spake) : Proc Bytes := do
  writeFrame (.pairStart (encodeHex spake.message))
  let frame ← readFrame .message
  let theirs ← found [] (messageOf d frame)
  found [] ((spake.finish theirs).mapError fun why => [s!"pairing message was malformed: {why}"])

def macIn : PeerFrame → Except (List String) Bytes
  | .pairConfirm mac => .ok ((d.decodeHex mac).toOption.getD [])
  | .pairRefused reason => .error [refusalMessage reason]
  | frame => .error [s!"expected key confirmation, got {d.debug frame}"]

/-- Each side shows that it came to the same key over the same session. -/
def confirmations (peer : NodeId) (key binding : Bytes) : Proc Unit := do
  writeFrame (.pairConfirm (encodeHex (macOf d.toStd key binding d.node peer)))
  let frame ← readFrame .confirmation
  let theirs ← found [] (macIn d frame)
  if theirs = macOf d.toStd key binding peer d.node then .ret ()
  else
    -- The peer is told; whether it hears it makes no difference.
    .ask (.write (.pairRefused "key confirmation failed")) fun _ =>
      failed ["key confirmation failed: wrong code, or something is relaying this connection"]

def publicKeyOf : PeerFrame → Except (List String) String
  | .pairAccepted publicKey => .ok publicKey
  | .pairRefused reason => .error [refusalMessage reason]
  | frame => .error [s!"expected an acceptance, got {d.debug frame}"]

/-- The keys to be pinned. -/
def acceptances (peer : NodeId) : Proc String := do
  writeFrame (.pairAccepted (encodeHex d.publicKey))
  let frame ← readFrame .acceptance
  let publicKey ← found [] (publicKeyOf d frame)
  found ["the key offered for pinning is not the key that authenticated"]
    (verifyKeyMatches d.toStd peer publicKey)
  .ret publicKey

/-- The ceremony of the side that dialled. -/
def run (peer : NodeId) (code : String) (binding : Bytes) : Proc Paired := do
  if looksLikeCode code then
    let name ← hellos d
    let key ← messages d (exchange d.toStd code d.node peer)
    confirmations d peer key binding
    let publicKey ← acceptances d peer
    .ret ⟨peer, publicKey, name, verificationWords d.toStd key⟩
  else failed ["a pairing code is 8 digits"]

def notAccepting : String :=
  "that machine is not accepting a new member right now.\n" ++
    "An invitation is good for one machine, once, and it expires. " ++
    "Mint a fresh one and run this again."

/-- What the operator reads where the other side hung up before a code was offered. -/
def explain (e : Chain) : Chain :=
  let text := e.shown.toList
  let marks := ["HandshakeFailure", "Broken pipe", "CertificateUnknown", "certificate", "connection closed"]
  if marks.any (occursIn · text) then .said notAccepting :: e else e

/-- The other side of a connection, as its certificate names it, is paired with. -/
def pairOver (code : String) (session : TlsSession) : Proc Paired :=
  match session.certificate with
  | none => failed ["the other machine sent no certificate"]
  | some certificate => do
      let peer ← found [] (peerIdentity d.toStd certificate)
      let binding ← found ["exporting TLS keying material"] (session.exporter.mapError ([·]))
      (run d peer code binding).mapStop explain

def dialAndPair (addr code : String) : Proc Paired := do
  found [] d.config
  .ask .connect fun
  | .silent => failed [s!"{addr} did not answer within 5s"]
  | .failed e => .stop [.said s!"connecting to {addr}", .io e]
  | .established => do
      found ["building a server name"] (d.serverName.mapError ([·]))
      .ask .handshake fun
      | .error e => .stop [.said "TLS handshake", .io e]
      | .ok session => pairOver d code session

end Ceremony

end Joining
end Metralectl
