import Metralectl.Library.Duplex
import Metralectl.Pairing.Binding

/-!
The two sides of one ceremony, over a connection of their own. Neither waits for the other in vain,
however their steps fall together, and they come to the same verdict.
-/
namespace Metralectl
namespace Joining
open Programs Runs Utf8

/-- What a connection makes of a question: a frame to be carried, or one to be waited for. -/
def port : (q : Ask) → Port (Answer q) PeerFrame
  | .write frame => .sends frame (.ok ())
  | .read _ => .receives fun frame => .ok frame
  | .connect | .handshake => .other

abbrev Connection := Link Ask Answer Chain Paired PeerFrame

def Connection.step (l : Connection) (e : End) : Option Connection := Link.step port l e

/-- One frame each way, the first one by the side that dialled. -/
theorem swap_round (f g : PeerFrame) (awaited : Awaited) (ka kb : PeerFrame → Proc Paired) :
    Run Connection.step Free ⟨swap .initiator f awaited >>= ka, swap .responder g awaited >>= kb, [], []⟩
      [.left, .right, .right, .left] ⟨ka g, kb f, [], []⟩ := by
  refine .cons ⟨trivial, rfl⟩ (.cons ⟨trivial, rfl⟩ (.cons ⟨trivial, rfl⟩ (.cons ⟨trivial, ?_⟩ (.nil _))))
  rfl

/-- Two sides as they are built, over one session: what one writes the other reads, each is known by
its own key, each comes to a key of the exchange with the message of the other, the same one under
the same code only, and the digest tells apart what the two confirm. -/
structure Facing (a b : Dialler) (codeA codeB : String) (keyA keyB binding : Bytes) : Prop where
  shapeA : looksLikeCode codeA = true
  shapeB : looksLikeCode codeB = true
  hexA : ∀ bytes, a.decodeHex (encodeHex bytes) = .ok bytes
  hexB : ∀ bytes, b.decodeHex (encodeHex bytes) = .ok bytes
  digest : a.digest = b.digest
  knownA : verifyKeyMatches b.toStd a.node (encodeHex a.publicKey) = .ok ()
  knownB : verifyKeyMatches a.toStd b.node (encodeHex b.publicKey) = .ok ()
  comesA : (exchange a.toStd codeA a.node b.node).finish (exchange b.toStd codeB b.node a.node).message =
    .ok keyA
  comesB : (exchange b.toStd codeB b.node a.node).finish (exchange a.toStd codeA a.node b.node).message =
    .ok keyB
  same : keyA = keyB ↔ codeA = codeB
  apart : ∀ s r, s = a.node ∧ r = b.node ∨ s = b.node ∧ r = a.node →
    a.digest (transcript keyA binding s r) = a.digest (transcript keyB binding s r) → keyA = keyB

def start (a b : Dialler) (codeA codeB : String) (binding : Bytes) : Connection :=
  ⟨runAs a .initiator b.node codeA binding, runAs b .responder a.node codeB binding, [], []⟩

/-- Four frames each way. -/
def round : List End := [.left, .right, .right, .left]

section Rounds
variable {a b : Dialler} {codeA codeB : String} {keyA keyB binding : Bytes}

/-- The two sides say who they are. -/
theorem greeting (facing : Facing a b codeA codeB keyA keyB binding) :
    Run Connection.step Free (start a b codeA codeB binding) round
      ⟨exchanging a .initiator b.node codeA binding b.name,
        exchanging b .responder a.node codeB binding a.name, [], []⟩ := by
  have hellos := swap_round (hello a) (hello b) .hello
    (fun frame => found [] (helloOf a frame) >>= exchanging a .initiator b.node codeA binding)
    (fun frame => found [] (helloOf b frame) >>= exchanging b .responder a.node codeB binding)
  rw [greeted, greeted] at hellos
  rw [start, runAs, runAs, if_pos facing.shapeA, if_pos facing.shapeB]
  exact hellos

/-- They exchange what their codes make of a message. -/
theorem exchanged (facing : Facing a b codeA codeB keyA keyB binding) :
    Run Connection.step Free
      ⟨exchanging a .initiator b.node codeA binding b.name,
        exchanging b .responder a.node codeB binding a.name, [], []⟩ round
      ⟨confirming a .initiator b.node b.name keyA binding,
        confirming b .responder a.node a.name keyB binding, [], []⟩ := by
  have messages := swap_round
    (Role.initiator.opening (encodeHex (exchange a.toStd codeA a.node b.node).message))
    (Role.responder.opening (encodeHex (exchange b.toStd codeB b.node a.node).message)) .message
    (fun frame => found [] (messageOf a frame) >>= fun theirs =>
      found [] (((exchange a.toStd codeA a.node b.node).finish theirs).mapError fun why =>
        [s!"pairing message was malformed: {why}"]) >>= fun key =>
      confirming a .initiator b.node b.name key binding)
    (fun frame => found [] (messageOf b frame) >>= fun theirs =>
      found [] (((exchange b.toStd codeB b.node a.node).finish theirs).mapError fun why =>
        [s!"pairing message was malformed: {why}"]) >>= fun key =>
      confirming b .responder a.node a.name key binding)
  rw [received facing.hexA, received facing.hexB, facing.comesA, facing.comesB] at messages
  exact messages

def refusal : Proc Paired :=
  .ask (.write (.pairRefused "key confirmation failed")) fun _ =>
    failed ["key confirmation failed: wrong code, or something is relaying this connection"]

/-- They confirm their keys, and each takes the other's for its own or refuses it. -/
theorem confirmations_heard (facing : Facing a b codeA codeB keyA keyB binding) :
    Run Connection.step Free
      ⟨confirming a .initiator b.node b.name keyA binding,
        confirming b .responder a.node a.name keyB binding, [], []⟩ round
      ⟨if macOf b.toStd keyB binding b.node a.node = macOf a.toStd keyA binding b.node a.node then
          concluding a .initiator b.node b.name keyA else refusal,
        if macOf a.toStd keyA binding a.node b.node = macOf b.toStd keyB binding a.node b.node then
          concluding b .responder a.node a.name keyB else refusal, [], []⟩ := by
  have macs := swap_round
    (.pairConfirm (encodeHex (macOf a.toStd keyA binding a.node b.node)))
    (.pairConfirm (encodeHex (macOf b.toStd keyB binding b.node a.node))) .confirmation
    (fun frame => found [] (macIn a frame) >>= fun theirs =>
      if theirs = macOf a.toStd keyA binding b.node a.node then
        concluding a .initiator b.node b.name keyA else refusal)
    (fun frame => found [] (macIn b frame) >>= fun theirs =>
      if theirs = macOf b.toStd keyB binding a.node b.node then
        concluding b .responder a.node a.name keyB else refusal)
  rw [confirmed facing.hexA, confirmed facing.hexB] at macs
  exact macs

/-- They hand each other the keys to be pinned. -/
theorem concluded (facing : Facing a b codeA codeB keyA keyB binding) :
    Run Connection.step Free
      ⟨concluding a .initiator b.node b.name keyA, concluding b .responder a.node a.name keyB, [], []⟩
      round
      ⟨.ret ⟨b.node, encodeHex b.publicKey, b.name, verificationWords a.toStd keyA⟩,
        .ret ⟨a.node, encodeHex a.publicKey, a.name, verificationWords b.toStd keyB⟩, [], []⟩ := by
  have keys := swap_round (.pairAccepted (encodeHex a.publicKey))
    (.pairAccepted (encodeHex b.publicKey)) .acceptance
    (fun frame => found [] (publicKeyOf a frame) >>= fun publicKey =>
      found ["the key offered for pinning is not the key that authenticated"]
        (verifyKeyMatches a.toStd b.node publicKey) >>= fun _ =>
      .ret ⟨b.node, publicKey, b.name, verificationWords a.toStd keyA⟩)
    (fun frame => found [] (publicKeyOf b frame) >>= fun publicKey =>
      found ["the key offered for pinning is not the key that authenticated"]
        (verifyKeyMatches b.toStd a.node publicKey) >>= fun _ =>
      .ret ⟨a.node, publicKey, a.name, verificationWords b.toStd keyB⟩)
  have offered (d : Dialler) (key : String) : publicKeyOf d (.pairAccepted key) = .ok key := rfl
  have taken {α : Type} (context : List String) (v : α) (f : α → Proc Paired) :
      found context (.ok v) >>= f = f v := rfl
  simp only [offered, taken, facing.knownA, facing.knownB] at keys
  exact keys

/-- What a side comes to that takes the other's key for its own. -/
def paired (d other : Dialler) (key : Bytes) : Paired :=
  ⟨other.node, encodeHex other.publicKey, other.name, verificationWords d.toStd key⟩

def refused : Proc Paired :=
  failed ["key confirmation failed: wrong code, or something is relaying this connection"]

/-- Where both codes are the same, both sides pin each other and show the same words; where they are
not, both refuse. -/
def verdict (a b : Dialler) (codeA codeB : String) (key : Bytes) : Connection :=
  if codeA = codeB then ⟨.ret (paired a b key), .ret (paired b a key), [], []⟩
  else ⟨refused, refused, [.pairRefused "key confirmation failed"],
    [.pairRefused "key confirmation failed"]⟩

theorem verdict_ended (a b : Dialler) (key : Bytes) (e : End) :
    Connection.step (verdict a b codeA codeB key) e = none := by
  unfold verdict
  split
  · exact ended_of_over rfl rfl e
  · exact ended_of_over rfl rfl e

theorem macOf_inj (facing : Facing a b codeA codeB keyA keyB binding) {s r : NodeId}
    (ends : s = a.node ∧ r = b.node ∨ s = b.node ∧ r = a.node) :
    macOf a.toStd keyA binding s r = macOf b.toStd keyB binding s r ↔ codeA = codeB := by
  rw [← facing.same, macOf_eq, macOf_eq, ← facing.digest]
  constructor
  · intro same
    exact facing.apart s r ends (bytesOf_inj same)
  · intro same
    rw [same]

/-- One way to the verdict. -/
theorem reaches_verdict (facing : Facing a b codeA codeB keyA keyB binding) :
    ∃ as, as.length ≤ 16 ∧
      Run Connection.step Free (start a b codeA codeB binding) as (verdict a b codeA codeB keyA) := by
  have three := Path.append (greeting facing) (Path.append (exchanged facing)
    (confirmations_heard facing))
  have left := macOf_inj facing (.inr ⟨rfl, rfl⟩)
  have right := macOf_inj facing (.inl ⟨rfl, rfl⟩)
  by_cases codes : codeA = codeB
  · have keys := facing.same.mpr codes
    have words : verificationWords b.toStd keyB = verificationWords b.toStd keyA := by rw [keys]
    rw [if_pos (left.mpr codes).symm, if_pos (right.mpr codes)] at three
    have all := Path.append three (concluded facing)
    rw [words] at all
    refine ⟨round ++ (round ++ round) ++ round, ?_, ?_⟩
    · decide
    · rw [verdict, if_pos codes]
      exact all
  · have apart : ¬macOf b.toStd keyB binding b.node a.node = macOf a.toStd keyA binding b.node a.node :=
      fun same => codes (left.mp same.symm)
    rw [if_neg apart, if_neg (fun same => codes (right.mp same))] at three
    have last : Run Connection.step Free ⟨refusal, refusal, [], []⟩ [.left, .right]
        ⟨refused, refused, [.pairRefused "key confirmation failed"],
          [.pairRefused "key confirmation failed"]⟩ :=
      .cons ⟨trivial, rfl⟩ (.cons ⟨trivial, rfl⟩ (.nil _))
    refine ⟨round ++ (round ++ round) ++ [End.left, End.right], ?_, ?_⟩
    · decide
    · rw [verdict, if_neg codes]
      exact Path.append three last

/-- However the steps of the two sides fall together: wherever they have got to, they go on to the
verdict, after at most sixteen steps in all. -/
theorem ceremony_ends (facing : Facing a b codeA codeB keyA keyB binding) {as : List End}
    {now : Connection} (run : Run Connection.step Free (start a b codeA codeB binding) as now) :
    ∃ later, as.length + later.length ≤ 16 ∧
      Run Connection.step Free now later (verdict a b codeA codeB keyA) ∧
      ∀ e, (verdict a b codeA codeB keyA).step e = none := by
  obtain ⟨whole, short, reached⟩ := reaches_verdict facing
  obtain ⟨later, rest, perm⟩ := Commuting.completes (link_commuting port) reached
    (verdict_ended a b keyA) run
  refine ⟨later, ?_, rest, verdict_ended a b keyA⟩
  have lengths := perm.length_eq
  rw [List.length_append] at lengths
  omega

end Rounds

section Instances

theorem facing_ends : Facing laptop dgx "12345678" "12345678" shared shared (List.replicate 32 7) where
  shapeA := by decide
  shapeB := by decide
  hexA := machine_hex _ _
  hexB := machine_hex _ _
  digest := rfl
  knownA := known _ "laptop" rfl
  knownB := known _ "dgx" rfl
  comesA := rfl
  comesB := rfl
  same := ⟨fun _ => rfl, fun _ => rfl⟩
  apart _ _ _ _ := rfl

/-- The laptop has spoken first, and the machine has not yet heard it. -/
theorem ceremony_ends_begun : ∃ now later,
    Connection.step (start laptop dgx "12345678" "12345678" (List.replicate 32 7)) .left = some now ∧
      later.length ≤ 15 ∧
      Run Connection.step Free now later
        ⟨.ret (paired laptop dgx shared), .ret (paired dgx laptop shared), [], []⟩ := by
  obtain ⟨now, first⟩ : ∃ now, Connection.step
      (start laptop dgx "12345678" "12345678" (List.replicate 32 7)) .left = some now := ⟨_, rfl⟩
  obtain ⟨later, short, rest, _⟩ := ceremony_ends facing_ends (.cons ⟨trivial, first⟩ (.nil now))
  refine ⟨now, later, first, ?_, ?_⟩
  · rw [List.length_singleton] at short
    omega
  · rw [verdict, if_pos rfl] at rest
    exact rest

end Instances

end Joining
end Metralectl
