import Metralectl.Library.Framing
import Metralectl.Pairing.Ceremony
import Metralectl.Protocol.HexIds

/-!
Both sides of the ceremony, over connections that may be anybody's. What one side confirms names
the session it is in, so a key can be confirmed only by a side of the same session: passing frames
on from one session to another gets nobody paired.
-/
namespace Metralectl
namespace Joining
open Programs Utf8

/-- The side that dialled speaks first. -/
inductive Role where
  | initiator
  | responder
deriving DecidableEq

/-- One frame each way. -/
def swap (role : Role) (mine : PeerFrame) (awaited : Awaited) : Proc PeerFrame :=
  match role with
  | .initiator => do
      writeFrame mine
      readFrame awaited
  | .responder => do
      let theirs ← readFrame awaited
      writeFrame mine
      .ret theirs

/-- What carries the message of the exchange. -/
def Role.opening : Role → String → PeerFrame
  | .initiator, message => .pairStart message
  | .responder, message => .pairAnswer message

section Ceremony
variable (d : Dialler)

/-- The last frames, once the key is confirmed. -/
def concluding (role : Role) (peer : NodeId) (name : String) (key : Bytes) : Proc Paired := do
  let accepted ← swap role (.pairAccepted (encodeHex d.publicKey)) .acceptance
  let publicKey ← found [] (publicKeyOf d accepted)
  found ["the key offered for pinning is not the key that authenticated"]
    (verifyKeyMatches d.toStd peer publicKey)
  .ret ⟨peer, publicKey, name, verificationWords d.toStd key⟩

/-- The ceremony from where the key is known. -/
def confirming (role : Role) (peer : NodeId) (name : String) (key binding : Bytes) : Proc Paired := do
  let confirmed ← swap role (.pairConfirm (encodeHex (macOf d.toStd key binding d.node peer)))
    .confirmation
  let theirs ← found [] (macIn d confirmed)
  if theirs = macOf d.toStd key binding peer d.node then concluding d role peer name key
  else
    .ask (.write (.pairRefused "key confirmation failed")) fun _ =>
      failed ["key confirmation failed: wrong code, or something is relaying this connection"]

/-- The ceremony from where the other side has said who it is. -/
def exchanging (role : Role) (peer : NodeId) (code : String) (binding : Bytes) (name : String) :
    Proc Paired := do
  let spake := exchange d.toStd code d.node peer
  let message ← swap role (role.opening (encodeHex spake.message)) .message
  let theirs ← found [] (messageOf d message)
  let key ← found [] ((spake.finish theirs).mapError fun why => [s!"pairing message was malformed: {why}"])
  confirming d role peer name key binding

def hello : PeerFrame := .hello peerProtocolVersion d.name true "" d.os (some peerProtocolMax)

/-- The ceremony of either side. -/
def runAs (role : Role) (peer : NodeId) (code : String) (binding : Bytes) : Proc Paired := do
  if looksLikeCode code then
    let frame ← swap role (hello d) .hello
    let name ← found [] (helloOf d frame)
    exchanging d role peer code binding name
  else failed ["a pairing code is 8 digits"]

theorem unless_bind {β : Type} (c : Prop) [Decidable c] (q : Ask) (texts : List String)
    (f : Unit → Proc β) :
    (if c then (.ret () : Proc Unit) else .ask q fun _ => failed texts) >>= f =
      if c then f () else .ask q fun _ => failed texts := by
  split
  · rfl
  · rfl

/-- The side that dialled goes through the ceremony as it was read off before. -/
theorem runAs_initiator (peer : NodeId) (code : String) (binding : Bytes) :
    runAs d .initiator peer code binding = run d peer code binding := by
  rw [runAs, run]
  split
  · simp only [swap, hello, hellos, messages, confirmations, acceptances, exchanging, confirming,
      concluding, Role.opening, Prog.bind_assoc, Prog.ret_bind, unless_bind]
  · rfl

end Ceremony

section Frames
variable {d : Dialler} {role : Role} {peer : NodeId} {code name : String} {binding key : Bytes}
  {network : Peer} {α : Type}

theorem found_ok {context : List String} {e : Except (List String) α} {a : α} :
    (found context e).under network = .ok a ↔ e = .ok a := by
  cases e with
  | error why =>
      constructor
      · intro h
        cases h
      · intro h
        cases h
  | ok b =>
      constructor
      · intro h
        rw [Except.ok.inj h]
      · intro h
        rw [Except.ok.inj h]
        rfl

theorem found_asked {context : List String} {e : Except (List String) α} :
    (found context e).asked network = [] := by
  cases e with
  | error _ => rfl
  | ok _ => rfl

theorem writeFrame_asked {frame : PeerFrame} :
    (writeFrame frame).asked network = [.write frame] := by
  simp only [writeFrame, Prog.asked]
  split
  · rfl
  · rfl

theorem readFrame_ok {awaited : Awaited} {frame : PeerFrame} :
    (readFrame awaited).under network = .ok frame ↔ network (.read awaited) = .ok frame := by
  simp only [readFrame, Prog.under]
  cases heard : network (.read awaited) with
  | ok f => simp [Prog.under]
  | error e =>
      constructor
      · intro h
        cases e with
        | length _ => cases h
        | tooLong _ => cases h
        | body _ => cases h
        | undecodable _ => cases h
      · intro h
        cases h

theorem readFrame_asked {awaited : Awaited} :
    (readFrame awaited).asked network = [.read awaited] := by
  simp only [readFrame, Prog.asked]
  split
  · rfl
  · rfl
  · rfl
  · rfl
  · rfl

/-- What comes of a swap has been read, whoever speaks first. -/
theorem swap_ok {mine theirs : PeerFrame} {awaited : Awaited}
    (swapped : (swap role mine awaited).under network = .ok theirs) :
    network (.read awaited) = .ok theirs := by
  cases role with
  | initiator =>
      obtain ⟨_, _, heard⟩ := Prog.under_bind_ok.mp swapped
      exact readFrame_ok.mp heard
  | responder =>
      obtain ⟨frame, heard, rest⟩ := Prog.under_bind_ok.mp swapped
      obtain ⟨_, _, same⟩ := Prog.under_bind_ok.mp rest
      cases same
      exact readFrame_ok.mp heard

theorem swap_asks {mine theirs : PeerFrame} {awaited : Awaited}
    (swapped : (swap role mine awaited).under network = .ok theirs) :
    Ask.write mine ∈ (swap role mine awaited).asked network := by
  have writes : Ask.write mine ∈ (writeFrame mine).asked network :=
    writeFrame_asked ▸ List.mem_singleton.mpr rfl
  cases role with
  | initiator => exact Prog.mem_asked_bind.mpr (.inl writes)
  | responder =>
      obtain ⟨frame, heard, _⟩ := Prog.under_bind_ok.mp swapped
      exact Prog.mem_asked_bind.mpr (.inr ⟨frame, heard, Prog.mem_asked_bind.mpr (.inl writes)⟩)

theorem swap_writes {mine frame : PeerFrame} {awaited : Awaited}
    (asked : Ask.write frame ∈ (swap role mine awaited).asked network) : frame = mine := by
  cases role with
  | initiator =>
      rcases Prog.mem_asked_bind.mp asked with here | ⟨_, _, there⟩
      · rw [writeFrame_asked] at here
        cases List.mem_singleton.mp here
        rfl
      · rw [readFrame_asked] at there
        cases List.mem_singleton.mp there
  | responder =>
      rcases Prog.mem_asked_bind.mp asked with here | ⟨_, _, there⟩
      · rw [readFrame_asked] at here
        cases List.mem_singleton.mp here
      · rcases Prog.mem_asked_bind.mp there with here | ⟨_, _, there⟩
        · rw [writeFrame_asked] at here
          cases List.mem_singleton.mp here
          rfl
        · cases there

/-- Where the frames go both ways, the side goes on with what it has read. -/
theorem swap_under {mine theirs : PeerFrame} {awaited : Awaited} (written : network (.write mine) = .ok ())
    (heard : network (.read awaited) = .ok theirs) (k : PeerFrame → Proc Paired) :
    (swap role mine awaited >>= k).under network = (k theirs).under network := by
  have write : (writeFrame mine).under network = .ok () := by
    simp only [writeFrame, Prog.under, written]
  have read := readFrame_ok.mpr heard
  cases role with
  | initiator =>
      rw [Prog.under_bind, swap, Prog.under_bind, write]
      simp only [bind, Except.bind, read]
  | responder =>
      rw [Prog.under_bind, swap, Prog.under_bind, read]
      simp only [bind, Except.bind]
      have rest : (writeFrame mine >>= fun _ => .ret theirs : Proc PeerFrame).under network =
          .ok theirs := by
        rw [Prog.under_bind, write]
        rfl
      exact congrArg (fun r => r >>= fun a => (k a).under network) rest

theorem greeted (d other : Dialler) (f : String → Proc Paired) :
    found [] (helloOf d (hello other)) >>= f = f other.name := rfl

theorem messageOf_opening {d : Dialler} (hex : ∀ bytes, d.decodeHex (encodeHex bytes) = .ok bytes)
    (role : Role) (message : Bytes) : messageOf d (role.opening (encodeHex message)) = .ok message := by
  cases role with
  | initiator =>
      simp only [Role.opening, messageOf, hex]
      rfl
  | responder =>
      simp only [Role.opening, messageOf, hex]
      rfl

theorem macIn_confirm {d : Dialler} (hex : ∀ bytes, d.decodeHex (encodeHex bytes) = .ok bytes)
    (mac : Bytes) : macIn d (.pairConfirm (encodeHex mac)) = .ok mac := by
  simp only [macIn, hex]
  rfl

theorem received {d : Dialler} (hex : ∀ bytes, d.decodeHex (encodeHex bytes) = .ok bytes)
    (role : Role) (message : Bytes) (f : Bytes → Proc Paired) :
    found [] (messageOf d (role.opening (encodeHex message))) >>= f = f message := by
  rw [messageOf_opening hex]
  rfl

theorem confirmed {d : Dialler} (hex : ∀ bytes, d.decodeHex (encodeHex bytes) = .ok bytes)
    (mac : Bytes) (f : Bytes → Proc Paired) :
    found [] (macIn d (.pairConfirm (encodeHex mac))) >>= f = f mac := by
  rw [macIn_confirm hex]
  rfl

end Frames

/-- A ceremony under way: who goes through it, whom the certificate of its session names, what the
session exports, and what it hears. What it hears may come from anyone. -/
structure Side where
  dialler : Dialler
  role : Role
  peer : NodeId
  code : String
  binding : Bytes
  network : Peer

namespace Side
variable (s : Side)

def program : Proc Paired := runAs s.dialler s.role s.peer s.code s.binding

def outcome : Except Chain Paired := s.program.under s.network

def Sends (frame : PeerFrame) : Prop := Ask.write frame ∈ s.program.asked s.network

def spake : Spake := exchange s.dialler.toStd s.code s.dialler.node s.peer

/-- The key it comes to with the message it hears. -/
def key : Option Bytes :=
  match s.network (.read .message) with
  | .error _ => none
  | .ok frame =>
      match messageOf s.dialler frame with
      | .error _ => none
      | .ok theirs => (s.spake.finish theirs).toOption

/-- The confirmation it hears. -/
def heard : Option Bytes :=
  match s.network (.read .confirmation) with
  | .error _ => none
  | .ok frame => (macIn s.dialler frame).toOption

end Side

/-- What a side confirms: its key, its session, and the two ends of it. -/
def transcript (key binding : Bytes) (sender receiver : NodeId) : Bytes :=
  encode "metralectl key confirmation v1".toList ++ key ++
    Framing.bigEndian 4 (min binding.length 0xFFFFFFFF) ++ binding ++
    Framing.bigEndian 32 sender.toNat ++ Framing.bigEndian 32 receiver.toNat

section Transcripts
variable {std : Std} {key key' binding binding' : Bytes} {a b a' b' : NodeId}

theorem bytesOf_eq (id : BitVec 256) : bytesOf id = Framing.bigEndian 32 id.toNat :=
  (Framing.bigEndian_eq_map 32 id.toNat).symm

theorem bytesOf_inj {x y : BitVec 256} (h : bytesOf x = bytesOf y) : x = y := by
  have room : (256 : Nat) ^ 32 = 2 ^ 256 := by decide
  rw [bytesOf_eq, bytesOf_eq] at h
  exact BitVec.eq_of_toNat_eq
    (Framing.bigEndian_inj (room ▸ x.isLt) (room ▸ y.isLt) h)

theorem macOf_eq : macOf std key binding a b = bytesOf (std.digest (transcript key binding a b)) := by
  rw [transcript, Framing.bigEndian_eq_map, ← bytesOf_eq, ← bytesOf_eq]
  rfl

/-- A transcript names what is confirmed: behind a key of a known width, the length of what the
session exports tells it from the two ends. -/
theorem transcript_inj (keys : key.length = key'.length) (short : binding.length < 2 ^ 32)
    (short' : binding'.length < 2 ^ 32)
    (same : transcript key binding a b = transcript key' binding' a' b') :
    key = key' ∧ binding = binding' ∧ a = a' ∧ b = b' := by
  simp only [transcript, List.append_assoc] at same
  obtain ⟨hkey, rest⟩ := List.append_inj (List.append_cancel_left same) keys
  obtain ⟨hlength, rest⟩ := List.append_inj rest (by simp)
  have fits {l : Nat} (h : l < 2 ^ 32) : min l 0xFFFFFFFF = l := Nat.min_eq_left (by omega)
  rw [fits short, fits short'] at hlength
  have room : (2 : Nat) ^ 32 = 256 ^ 4 := by decide
  have lengths := Framing.bigEndian_inj (room ▸ short) (room ▸ short') hlength
  obtain ⟨hbinding, rest⟩ := List.append_inj rest lengths
  obtain ⟨hsender, hreceiver⟩ := List.append_inj rest (by simp)
  refine ⟨hkey, hbinding, ?_, ?_⟩
  · exact bytesOf_inj (by rw [bytesOf_eq, bytesOf_eq, hsender])
  · exact bytesOf_inj (by rw [bytesOf_eq, bytesOf_eq, hreceiver])

end Transcripts

section Sides
variable {s : Side} {r : Paired}

theorem key_of {frame : PeerFrame} {theirs key : Bytes} {shown : String → List String}
    (heard : s.network (.read .message) = .ok frame) (said : messageOf s.dialler frame = .ok theirs)
    (came : (s.spake.finish theirs).mapError shown = .ok key) : s.key = some key := by
  rw [Side.key, heard]
  simp only [said]
  cases finished : s.spake.finish theirs with
  | error why =>
      rw [finished] at came
      cases came
  | ok k =>
      rw [finished] at came
      cases came
      rfl

/-- A side that completes has confirmed its key and heard it confirmed, by the node it pins. -/
theorem outcome_ok (done : s.outcome = .ok r) : ∃ key, s.key = some key ∧
    s.Sends (.pairConfirm (encodeHex (macOf s.dialler.toStd key s.binding s.dialler.node s.peer))) ∧
    s.heard = some (macOf s.dialler.toStd key s.binding s.peer s.dialler.node) ∧
    r.node = s.peer ∧ r.verification = verificationWords s.dialler.toStd key ∧
    verifyKeyMatches s.dialler.toStd s.peer r.publicKey = .ok () := by
  unfold Side.Sends
  rw [Side.outcome, Side.program, runAs] at done
  rw [Side.program, runAs]
  split at done
  · next shape =>
        obtain ⟨hello, hellos, done⟩ := Prog.under_bind_ok.mp done
        obtain ⟨name, named, done⟩ := Prog.under_bind_ok.mp done
        obtain ⟨message, swapped, done⟩ := Prog.under_bind_ok.mp done
        obtain ⟨theirs, said, done⟩ := Prog.under_bind_ok.mp done
        obtain ⟨key, came, done⟩ := Prog.under_bind_ok.mp done
        obtain ⟨confirmed, heard, done⟩ := Prog.under_bind_ok.mp done
        obtain ⟨mac, read, done⟩ := Prog.under_bind_ok.mp done
        have known := key_of (swap_ok swapped) (found_ok.mp said) (found_ok.mp came)
        split at done
        · next same =>
            obtain ⟨accepted, _, done⟩ := Prog.under_bind_ok.mp done
            obtain ⟨publicKey, _, done⟩ := Prog.under_bind_ok.mp done
            obtain ⟨_, matched, done⟩ := Prog.under_bind_ok.mp done
            cases done
            refine ⟨key, known, ?_, ?_, rfl, rfl, found_ok.mp matched⟩
            · rw [if_pos shape]
              refine Prog.mem_asked_bind.mpr (.inr ⟨hello, hellos, ?_⟩)
              refine Prog.mem_asked_bind.mpr (.inr ⟨name, named, ?_⟩)
              refine Prog.mem_asked_bind.mpr (.inr ⟨message, swapped, ?_⟩)
              refine Prog.mem_asked_bind.mpr (.inr ⟨theirs, said, ?_⟩)
              refine Prog.mem_asked_bind.mpr (.inr ⟨key, came, ?_⟩)
              exact Prog.mem_asked_bind.mpr (.inl (swap_asks heard))
            · rw [Side.heard, swap_ok heard]
              simp only [found_ok.mp read, same]
              rfl
        · simp only [Prog.under] at done
          cases done
  · cases done

/-- A side to which nothing is said but what the ceremony expects completes. -/
theorem outcome_heard {other : Dialler} {role : Role} {theirs key : Bytes} {publicKey : String}
    (shape : looksLikeCode s.code = true)
    (hex : ∀ bytes, s.dialler.decodeHex (encodeHex bytes) = .ok bytes)
    (written : ∀ frame, s.network (.write frame) = .ok ())
    (greeting : s.network (.read .hello) = .ok (hello other))
    (message : s.network (.read .message) = .ok (role.opening (encodeHex theirs)))
    (came : s.spake.finish theirs = .ok key)
    (confirmation : s.network (.read .confirmation) =
      .ok (.pairConfirm (encodeHex (macOf s.dialler.toStd key s.binding s.peer s.dialler.node))))
    (acceptance : s.network (.read .acceptance) = .ok (.pairAccepted publicKey))
    (matched : verifyKeyMatches s.dialler.toStd s.peer publicKey = .ok ()) :
    s.outcome = .ok ⟨s.peer, publicKey, other.name, verificationWords s.dialler.toStd key⟩ := by
  have taken {α : Type} (context : List String) (v : α) (f : α → Proc Paired) :
      found context (.ok v) >>= f = f v := rfl
  have finished : (exchange s.dialler.toStd s.code s.dialler.node s.peer).finish theirs = .ok key := came
  rw [Side.outcome, Side.program, runAs, if_pos shape, swap_under (written _) greeting, greeted,
    exchanging, swap_under (written _) message, received hex, finished, Except.mapError, taken,
    confirming, swap_under (written _) confirmation, confirmed hex, if_pos rfl, concluding,
    swap_under (written _) acceptance, publicKeyOf, taken, matched, taken]
  rfl

/-- A side confirms nothing but the key it came to, over the session it is in. -/
theorem sends_confirmation {mac : String} (sent : s.Sends (.pairConfirm mac)) :
    ∃ key, s.key = some key ∧
      mac = encodeHex (macOf s.dialler.toStd key s.binding s.dialler.node s.peer) := by
  rw [Side.Sends, Side.program, runAs] at sent
  split at sent
  · rcases Prog.mem_asked_bind.mp sent with here | ⟨hello, _, sent⟩
    · cases swap_writes here
    rcases Prog.mem_asked_bind.mp sent with here | ⟨name, _, sent⟩
    · rw [found_asked] at here
      cases here
    rcases Prog.mem_asked_bind.mp sent with here | ⟨message, swapped, sent⟩
    · have frame := swap_writes here
      cases role : s.role with
      | initiator =>
          rw [role] at frame
          cases frame
      | responder =>
          rw [role] at frame
          cases frame
    rcases Prog.mem_asked_bind.mp sent with here | ⟨theirs, said, sent⟩
    · rw [found_asked] at here
      cases here
    rcases Prog.mem_asked_bind.mp sent with here | ⟨key, came, sent⟩
    · rw [found_asked] at here
      cases here
    have known := key_of (swap_ok swapped) (found_ok.mp said) (found_ok.mp came)
    rcases Prog.mem_asked_bind.mp sent with here | ⟨confirmed, _, sent⟩
    · have frame := swap_writes here
      cases frame
      exact ⟨key, known, rfl⟩
    rcases Prog.mem_asked_bind.mp sent with here | ⟨mac, _, sent⟩
    · rw [found_asked] at here
      cases here
    split at sent
    · rcases Prog.mem_asked_bind.mp sent with here | ⟨accepted, _, sent⟩
      · cases swap_writes here
      rcases Prog.mem_asked_bind.mp sent with here | ⟨publicKey, _, sent⟩
      · rw [found_asked] at here
        cases here
      rcases Prog.mem_asked_bind.mp sent with here | ⟨_, _, sent⟩
      · rw [found_asked] at here
        cases here
      · cases sent
    · cases List.mem_cons.mp sent with
      | inl here => cases here
      | inr there => cases there
  · cases sent

end Sides

section Agreement
variable {ι : Type} (digest : Bytes → BitVec 256) (decodeHex : String → Except String Bytes)
  (sides : ι → Side)

def Side.confirms (s : Side) (key : Bytes) : Bytes := transcript key s.binding s.dialler.node s.peer

def Side.expects (s : Side) (key : Bytes) : Bytes := transcript key s.binding s.peer s.dialler.node

/-- What the ceremonies rest on, whoever carries their frames: hex is read as it is written, keys
and exports have their widths, the digest tells apart what is confirmed, and without its key nobody
makes a confirmation. -/
structure PerfectCrypto : Prop where
  digests : ∀ i, (sides i).dialler.digest = digest
  decodes : ∀ i, (sides i).dialler.decodeHex = decodeHex
  hex : ∀ bytes, decodeHex (encodeHex bytes) = .ok bytes
  keys : ∀ i key, (sides i).key = some key → key.length = 32
  exports : ∀ i, (sides i).binding.length = 32
  distinct : ∀ i j key key', (sides i).key = some key → (sides j).key = some key' →
    digest ((sides i).expects key) = digest ((sides j).confirms key') →
      (sides i).expects key = (sides j).confirms key'
  unforged : ∀ i key, (sides i).key = some key →
    (sides i).heard = some (bytesOf (digest ((sides i).expects key))) →
      ∃ j text, (sides j).Sends (.pairConfirm text) ∧
        decodeHex text = .ok (bytesOf (digest ((sides i).expects key)))

/-- The two ends of one ceremony. -/
structure Meets (s t : Side) : Prop where
  node : s.peer = t.dialler.node
  back : t.peer = s.dialler.node
  binding : s.binding = t.binding
  key : ∃ key, s.key = some key ∧ t.key = some key

variable {digest decodeHex sides} {i : ι} {r : Paired}

theorem meets_of_outcome (sound : PerfectCrypto digest decodeHex sides)
    (done : (sides i).outcome = .ok r) : ∃ j, Meets (sides i) (sides j) := by
  obtain ⟨key, known, _, heard, _⟩ := outcome_ok done
  rw [macOf_eq, sound.digests] at heard
  obtain ⟨j, text, sent, read⟩ := sound.unforged i key known heard
  obtain ⟨key', known', rfl⟩ := sends_confirmation sent
  rw [sound.hex, macOf_eq, sound.digests] at read
  have same : (sides i).expects key = (sides j).confirms key' :=
    sound.distinct i j key key' known known' (bytesOf_inj (Except.ok.inj read).symm)
  have short (k : ι) : (sides k).binding.length < 2 ^ 32 := by
    rw [sound.exports k]
    decide
  obtain ⟨keys, bindings, peer, node⟩ := transcript_inj
    ((sound.keys i key known).trans (sound.keys j key' known').symm) (short i) (short j) same
  exact ⟨j, peer, node.symm, bindings, key, known, keys ▸ known'⟩

/-- However many ceremonies are under way and whoever carries their frames: a side that completes
pins the node at the other end of its own session, which is pairing with it and has the same words
to show. So a side whose session nobody else shares, and that was not to pair with its own node,
completes with nobody. -/
theorem pairs_in_session (sound : PerfectCrypto digest decodeHex sides) (i : ι) :
    (∀ r, (sides i).outcome = .ok r → ∃ j, Meets (sides i) (sides j) ∧
      r.node = (sides j).dialler.node ∧
      verifyKeyMatches (sides i).dialler.toStd r.node r.publicKey = .ok () ∧
      ∀ key, (sides j).key = some key →
        r.verification = verificationWords (sides j).dialler.toStd key) ∧
    ((sides i).peer ≠ (sides i).dialler.node →
      (∀ j, j ≠ i → (sides j).binding ≠ (sides i).binding) → ∃ e, (sides i).outcome = .error e) := by
  refine ⟨?_, ?_⟩
  · intro r done
    obtain ⟨key, known, _, _, node, words, matched⟩ := outcome_ok done
    obtain ⟨j, meets⟩ := meets_of_outcome sound done
    refine ⟨j, meets, node.trans meets.node, node ▸ matched, ?_⟩
    intro key' known'
    obtain ⟨shared, mine, theirs⟩ := meets.key
    rw [known] at mine
    rw [known'] at theirs
    cases mine
    cases theirs
    rw [words, verificationWords, verificationWords, sound.digests, sound.digests]
  · intro other alone
    cases done : (sides i).outcome with
    | error e => exact ⟨e, rfl⟩
    | ok r =>
        obtain ⟨j, meets⟩ := meets_of_outcome sound done
        by_cases own : j = i
        · rw [own] at meets
          exact absurd meets.node other
        · exact absurd meets.binding.symm (alone j own)

end Agreement

section Instances

/-- Hex of either case, two characters a byte. -/
def hexOf (s : String) : Except String Bytes := HexId.decode (s.utf8ByteSize / 2) (encode s.toList)

theorem hexOf_encodeHex (bytes : Bytes) : hexOf (encodeHex bytes) = .ok bytes := by
  have written : encode (encodeHex bytes).toList = HexId.encode bytes := by
    rw [encodeHex, String.toList_ofList]
    exact HexId.encode_text bytes
  have size : (encodeHex bytes).utf8ByteSize = 2 * bytes.length := by
    rw [← HexId.length_encode, ← HexId.encode_text, encodeHex, Utf8.utf8ByteSize_ofList]
  refine HexId.decode_ok.mpr ⟨?_, ?_⟩
  · rw [size]
    omega
  · rw [written, HexId.lower_encode]

/-- A digest of the last bytes, and an exchange in which each side only says its code. -/
def plain : Std where
  decodeHex := hexOf
  digest bytes := BitVec.ofNat 256 (Framing.ofBigEndian bytes)
  point _ := .ok ()
  spake password _ := ⟨password, fun theirs => .ok (password ++ theirs ++ List.replicate 16 0)⟩
  debug _ := ""

def machine (publicKey : Bytes) (name : String) : Dialler :=
  { plain with
    node := plain.digest publicKey
    publicKey := publicKey
    name := name
    os := "Linux"
    config := .ok ()
    serverName := .ok () }

theorem machine_hex (publicKey : Bytes) (name : String) (bytes : Bytes) :
    (machine publicKey name).decodeHex (encodeHex bytes) = .ok bytes := by
  have own : (machine publicKey name).decodeHex = hexOf := rfl
  rw [own, hexOf_encodeHex]

def laptop : Dialler := machine (List.replicate 31 0 ++ [1]) "laptop"

def dgx : Dialler := machine (List.replicate 31 0 ++ [2]) "dgx"

def shared : Bytes := encode "12345678".toList ++ encode "12345678".toList ++ List.replicate 16 0

/-- What a side hears that nobody comes between. -/
def hearing (other : Dialler) (role : Role) (node : NodeId) (binding : Bytes) : Peer
  | .connect => .established
  | .handshake => .error ⟨.other "UnexpectedEof", "tls handshake eof"⟩
  | .write _ => .ok ()
  | .read .hello => .ok (hello other)
  | .read .message => .ok (role.opening (encodeHex (encode "12345678".toList)))
  | .read .confirmation =>
      .ok (.pairConfirm (encodeHex (macOf other.toStd shared binding other.node node)))
  | .read .acceptance => .ok (.pairAccepted (encodeHex other.publicKey))

/-- The two ends of one session. -/
def ends : Bool → Side
  | false => ⟨laptop, .initiator, dgx.node, "12345678", List.replicate 32 7,
      hearing dgx .responder laptop.node (List.replicate 32 7)⟩
  | true => ⟨dgx, .responder, laptop.node, "12345678", List.replicate 32 7,
      hearing laptop .initiator dgx.node (List.replicate 32 7)⟩

theorem ends_key (i : Bool) : (ends i).key = some shared := by
  have own : ∀ bytes, laptop.decodeHex (encodeHex bytes) = .ok bytes := machine_hex _ _
  have other : ∀ bytes, dgx.decodeHex (encodeHex bytes) = .ok bytes := machine_hex _ _
  cases i with
  | false =>
      simp only [Side.key, ends, hearing, messageOf_opening own]
      rfl
  | true =>
      simp only [Side.key, ends, hearing, messageOf_opening other]
      rfl

theorem known (publicKey : Bytes) (name : String) (width : publicKey.length = 32) :
    verifyKeyMatches plain (machine publicKey name).node (encodeHex publicKey) = .ok () := by
  have hex : plain.decodeHex = hexOf := rfl
  have read : plain.decodeHex (encodeHex publicKey) = .ok publicKey := by
    rw [hex, hexOf_encodeHex]
  have own : (machine publicKey name).node = plain.digest publicKey := rfl
  simp only [verifyKeyMatches, read, width, own, ne_eq, not_true_eq_false, if_false, if_true]
  rfl

theorem end_outcome (i : Bool) : ∃ r, (ends i).outcome = .ok r := by
  have shape : looksLikeCode "12345678" = true := by decide
  cases i with
  | false => exact ⟨_, outcome_heard shape (machine_hex _ _) (fun _ => rfl) rfl rfl rfl rfl rfl
      (known _ "dgx" rfl)⟩
  | true => exact ⟨_, outcome_heard shape (machine_hex _ _) (fun _ => rfl) rfl rfl rfl rfl rfl
      (known _ "laptop" rfl)⟩

/-- One side expects what the other says, and neither what it says itself. -/
theorem ends_expect (i : Bool) : (ends i).expects shared = (ends !i).confirms shared := by
  cases i with
  | false => rfl
  | true => rfl

theorem ends_apart (i : Bool) :
    plain.digest ((ends i).expects shared) ≠ plain.digest ((ends i).confirms shared) := by
  cases i with
  | false => decide +kernel
  | true => decide +kernel

theorem ends_sound : PerfectCrypto plain.digest hexOf ends where
  digests i := by
    cases i with
    | false => rfl
    | true => rfl
  decodes i := by
    cases i with
    | false => rfl
    | true => rfl
  hex := hexOf_encodeHex
  keys i key h := by
    rw [ends_key i] at h
    cases h
    decide
  exports i := by
    cases i with
    | false => rfl
    | true => rfl
  distinct i j key key' h h' same := by
    rw [ends_key] at h h'
    cases h
    cases h'
    by_cases other : j = !i
    · rw [other]
      exact ends_expect i
    · have own : j = i := by
        cases i <;> cases j <;> simp at other ⊢
      rw [own] at same
      exact absurd same (ends_apart i)
  unforged i key h _ := by
    rw [ends_key i] at h
    cases h
    obtain ⟨r, done⟩ := end_outcome (!i)
    obtain ⟨key, there, sent, _⟩ := outcome_ok done
    rw [ends_key] at there
    cases there
    refine ⟨!i, _, sent, ?_⟩
    rw [hexOf_encodeHex, macOf_eq, ends_expect i]
    cases i with
    | false => rfl
    | true => rfl

/-- The laptop pins the machine it has dialled. -/
theorem pairs_in_session_ends : ∃ r j, (ends false).outcome = .ok r ∧ r.node = dgx.node ∧
    Meets (ends false) (ends j) := by
  obtain ⟨r, done⟩ := end_outcome false
  obtain ⟨key, _, _, _, node, _⟩ := outcome_ok done
  obtain ⟨j, meets, _⟩ := (pairs_in_session ends_sound false).1 r done
  exact ⟨r, j, done, node, meets⟩

end Instances

end Joining
end Metralectl
