import Mathlib.Data.Finset.Insert
import Mathlib.Order.WithBot
import Metralectl.Library.Runs
import Metralectl.Protocol.Ids

/-!
A revocation list, accepted only as its own signature allows. The list a host
holds is the last one it accepted; a new list is judged by what it says itself
and by the sequence held, never by what the held list revokes.
-/
namespace Metralectl
namespace Release
open Runs

abbrev Sha256Digest := BitVec 256
abbrev SignerId := BitVec 256

def hexText (digest : BitVec 256) : String := String.ofList (hexDigits 64 digest.toNat)

inductive RevokedSubject where
  | releaseManifest (digest : Sha256Digest)
  | compatibilityReceipt (digest : Sha256Digest)
  | signer (signer : SignerId)
deriving DecidableEq

inductive RevocationReason where
  | superseded
  | defect
  | evidenceInvalid
  | licenseWithdrawn
  | keyCompromised
deriving DecidableEq

structure Revocation where
  subject : RevokedSubject
  reason : RevocationReason
  revokedAtUnixMs : Nat
deriving DecidableEq

/-- The registry's withdrawals, all of them, at one sequence number. -/
structure RevocationList where
  issuer : NodeId
  sequence : Nat
  issuedAtUnixMs : Nat
  revoked : List Revocation
  numbered : 0 < sequence
  listed : revoked ≠ []

/-- What a list says, beside what makes it well formed. -/
def RevocationList.said (list : RevocationList) : NodeId × Nat × Nat × List Revocation :=
  (list.issuer, list.sequence, list.issuedAtUnixMs, list.revoked)

theorem RevocationList.said_injective : Function.Injective RevocationList.said := by
  intro a b h
  cases a
  cases b
  cases h
  rfl

instance : DecidableEq RevocationList := RevocationList.said_injective.decidableEq

inductive SignedKind where
  | releaseManifest
  | revocationList
deriving DecidableEq

/-- The domain-separation text before what a signature of this kind signs. -/
def SignedKind.domain : SignedKind → String
  | .releaseManifest => "mfs/release-manifest/v1"
  | .revocationList => "mfs/revocation-list/v1"

def SignedKind.name : SignedKind → String
  | .releaseManifest => "ReleaseManifest"
  | .revocationList => "RevocationList"

/-- Both halves of a signature over the same text. -/
structure HybridSignature where
  ed25519 : List UInt8
  mlDsa65 : List UInt8
deriving DecidableEq

structure DocumentSignature where
  kind : SignedKind
  document : Sha256Digest
  signer : SignerId
  signature : HybridSignature
deriving DecidableEq

/-- What checks a signature over a document, and who it is by. -/
structure SignatureVerifier where
  verify : SignedKind → Sha256Digest → DocumentSignature → Except String SignerId

/-- A principal a host trusts, and what its two keys verify: a domain and a digest,
under a signature. -/
structure Trusted where
  id : SignerId
  ed25519 : String → Sha256Digest → List UInt8 → Bool
  encoded : List UInt8 → Bool
  mlDsa65 : String → Sha256Digest → List UInt8 → Bool

/-- The release signers this host trusts, and nothing else. -/
def registryPrincipals (trusted : List Trusted) : SignatureVerifier where
  verify kind document signature :=
    if signature.kind ≠ kind then
      .error s!"the signature is over a {signature.kind.name}, not a {kind.name}"
    else if signature.document ≠ document then
      .error s!"the signature is over {hexText signature.document}, not {hexText document}"
    else
      match trusted.find? (·.id = signature.signer) with
      | none => .error s!"{hexText signature.signer} is not a trusted registry principal"
      | some key =>
          if !key.ed25519 kind.domain document signature.signature.ed25519 then
            .error "the Ed25519 half does not verify"
          else if !key.encoded signature.signature.mlDsa65 then
            .error "the ML-DSA-65 half is not an encoded signature"
          else if !key.mlDsa65 kind.domain document signature.signature.mlDsa65 then
            .error "the ML-DSA-65 half does not verify"
          else .ok signature.signer

structure Revoked where
  manifests : Finset Sha256Digest
  receipts : Finset Sha256Digest
  signers : Finset SignerId
deriving DecidableEq

namespace Revoked

def none : Revoked := ⟨∅, ∅, ∅⟩

def insert (r : Revoked) : RevokedSubject → Revoked
  | .releaseManifest d => { r with manifests := Insert.insert d r.manifests }
  | .compatibilityReceipt d => { r with receipts := Insert.insert d r.receipts }
  | .signer s => { r with signers := Insert.insert s r.signers }

def of (revocations : List Revocation) : Revoked :=
  revocations.foldl (fun r revocation => r.insert revocation.subject) none

def has (r : Revoked) : RevokedSubject → Prop
  | .releaseManifest d => d ∈ r.manifests
  | .compatibilityReceipt d => d ∈ r.receipts
  | .signer s => s ∈ r.signers

instance (r : Revoked) (s : RevokedSubject) : Decidable (r.has s) := by
  cases s <;> exact Finset.decidableMem _ _

end Revoked

/-- What the host knows before it reads a new list. -/
structure ListPolicy where
  maxAgeMs : Nat
  heldSequence : Option Nat
  nowUnixMs : Nat

inductive ListRefused where
  | unsigned (why : String)
  | signedByARevokedSigner (signer : SignerId)
  | rollback (held got : Nat)
  | stale (ageMs maxAgeMs : Nat)
deriving DecidableEq

structure Accepted where
  revoked : Revoked
  sequence : Nat
deriving DecidableEq

/-- The content digest of a list, or why it has none, and what checks signatures. -/
structure Registry where
  digest : RevocationList → Except String Sha256Digest
  verifier : SignatureVerifier

/-- Who signed the list, if the signature verifies. -/
def Registry.signedBy (reg : Registry) (list : RevocationList) (signature : DocumentSignature) :
    Except String SignerId :=
  (reg.digest list).bind fun document => reg.verifier.verify .revocationList document signature

def accept (reg : Registry) (list : RevocationList) (signature : DocumentSignature)
    (policy : ListPolicy) : Except ListRefused Accepted :=
  match reg.signedBy list signature with
  | .error why => .error (.unsigned why)
  | .ok signer =>
      let revoked := Revoked.of list.revoked
      if signer ∈ revoked.signers then .error (.signedByARevokedSigner signer)
      else
        match policy.heldSequence.filter (list.sequence < ·) with
        | some held => .error (.rollback held list.sequence)
        | none =>
            let ageMs := policy.nowUnixMs - list.issuedAtUnixMs
            if policy.maxAgeMs < ageMs then .error (.stale ageMs policy.maxAgeMs)
            else .ok ⟨revoked, list.sequence⟩

/-- What a host holds: what is revoked, and the sequence of the list that says so. -/
structure HeldList where
  revoked : Revoked
  sequence : Option Nat
deriving DecidableEq

/-- A list offered to a host, and what the host says of its clock and its patience. -/
structure Offer where
  list : RevocationList
  signature : DocumentSignature
  maxAgeMs : Nat
  nowUnixMs : Nat

/-- What the host makes of an offer, holding what it holds. -/
def judge (reg : Registry) (h : HeldList) (o : Offer) : Except ListRefused Accepted :=
  accept reg o.list o.signature ⟨o.maxAgeMs, h.sequence, o.nowUnixMs⟩

/-- An accepted list is held from then on. -/
def step (reg : Registry) (h : HeldList) (o : Offer) : Option HeldList :=
  match judge reg h o with
  | .ok a => some ⟨a.revoked, some a.sequence⟩
  | .error _ => some h

/-- A list the host accepts repeats the withdrawal if the list it holds has it. -/
def Repeats (reg : Registry) (s : RevokedSubject) (h : HeldList) (o : Offer) : Prop :=
  ∀ a, judge reg h o = .ok a → h.revoked.has s → a.revoked.has s

section Accepting
variable {reg : Registry} {list : RevocationList} {signature : DocumentSignature}
  {policy : ListPolicy} {a : Accepted} {h t : HeldList} {o : Offer}

/-- Every check an accepted list has passed. -/
structure Passed (reg : Registry) (list : RevocationList) (signature : DocumentSignature)
    (policy : ListPolicy) (a : Accepted) : Prop where
  signed : ∃ signer, reg.signedBy list signature = .ok signer ∧ signer ∉ a.revoked.signers
  revoked : a.revoked = Revoked.of list.revoked
  sequence : a.sequence = list.sequence
  newer : ∀ held ∈ policy.heldSequence, held ≤ list.sequence
  fresh : policy.nowUnixMs - list.issuedAtUnixMs ≤ policy.maxAgeMs

theorem accept_ok (ok : accept reg list signature policy = .ok a) :
    Passed reg list signature policy a := by
  unfold accept at ok
  split at ok
  · cases ok
  · next signer signed =>
      simp only at ok
      split at ok
      · cases ok
      · next outside =>
          split at ok
          · cases ok
          · next newer =>
              split at ok
              · cases ok
              · next fresh =>
                  cases ok
                  refine ⟨⟨signer, signed, outside⟩, rfl, rfl, ?_, Nat.le_of_not_lt fresh⟩
                  intro held isHeld
                  have not := Option.filter_eq_none_iff.mp newer held isHeld
                  simpa using not

theorem step_cases (h₁ : step reg h o = some t) :
    t = h ∨ ∃ a, judge reg h o = .ok a ∧ t = ⟨a.revoked, some a.sequence⟩ := by
  unfold step at h₁
  split at h₁
  · next a judged => exact .inr ⟨a, judged, (Option.some.inj h₁).symm⟩
  · exact .inl (Option.some.inj h₁).symm

/-- The held sequence, none being below every number. -/
def HeldList.level (h : HeldList) : WithBot Nat := h.sequence

theorem level_step (h₁ : step reg h o = some t) : h.level ≤ t.level := by
  cases step_cases h₁ with
  | inl same => rw [same]
  | inr accepted =>
      obtain ⟨a, judged, rfl⟩ := accepted
      have passed := accept_ok judged
      unfold HeldList.level
      cases held : h.sequence with
      | none => exact bot_le
      | some n =>
          have newer := passed.newer n held
          rw [← passed.sequence] at newer
          exact WithBot.coe_le_coe.mpr newer

theorem has_step {s : RevokedSubject} (has : h.revoked.has s) (repeats : Repeats reg s h o)
    (h₁ : step reg h o = some t) : t.revoked.has s := by
  cases step_cases h₁ with
  | inl same => exact same ▸ has
  | inr accepted =>
      obtain ⟨a, judged, rfl⟩ := accepted
      exact repeats a judged has

end Accepting

/-- What a host may rely on, whatever lists it is offered. -/
structure Withdrawn (reg : Registry) (h : HeldList) : Prop where
  /-- The held sequence never decreases. -/
  sequence : ∀ offers t, Run (step reg) Free h offers t → h.level ≤ t.level
  /-- What is revoked stays revoked while the lists that are accepted repeat it. -/
  stays : ∀ s offers t, Run (step reg) (Repeats reg s) h offers t → h.revoked.has s →
    t.revoked.has s
  /-- Until then no list by a revoked signer is accepted, unless that list is the
  first to leave its signer out. -/
  final : ∀ signer offers t o a, Run (step reg) (Repeats reg (.signer signer)) h offers t →
    h.revoked.has (.signer signer) → reg.signedBy o.list o.signature = .ok signer →
    judge reg t o = .ok a → ¬ Repeats reg (.signer signer) t o

theorem withdrawn (reg : Registry) (h : HeldList) : Withdrawn reg h := by
  have stays (s : RevokedSubject) (offers : List Offer) (t : HeldList)
      (run : Run (step reg) (Repeats reg s) h offers t) (has : h.revoked.has s) :
      t.revoked.has s :=
    Run.invariant (I := fun held => held.revoked.has s) run has
      fun _ _ _ here repeats h₁ => has_step here repeats h₁
  refine ⟨?_, stays, ?_⟩
  · intro offers t run
    exact Run.relates (E := fun h t => h.level ≤ t.level) run (fun _ => le_rfl)
      (fun _ _ _ => le_trans) fun _ _ _ _ => level_step
  · intro signer offers t o a run has signed judged repeats
    obtain ⟨by_, who, outside⟩ := (accept_ok judged).signed
    cases who.symm.trans signed
    exact outside (repeats a judged (stays _ offers t run has))

section Fixed

/-- A principal whose signatures are those that name it. -/
def principal (id : SignerId) : Trusted where
  id := id
  ed25519 _ _ signature := signature = [UInt8.ofNat id.toNat]
  encoded _ := true
  mlDsa65 _ _ signature := signature = [UInt8.ofNat id.toNat]

/-- Two principals are trusted; lists are told apart by how much they withdraw. -/
def twoPrincipals : Registry where
  digest list := .ok (BitVec.ofNat 256 list.revoked.length)
  verifier := registryPrincipals [principal 1, principal 2]

def signed (list : RevocationList) (by_ : SignerId) : Offer where
  list := list
  signature := ⟨.revocationList, BitVec.ofNat 256 list.revoked.length, by_,
    ⟨[UInt8.ofNat by_.toNat], [UInt8.ofNat by_.toNat]⟩⟩
  maxAgeMs := 3600000
  nowUnixMs := 1000

def withdrawal (subject : RevokedSubject) : Revocation := ⟨subject, .keyCompromised, 500⟩

/-- The first principal revokes the second. -/
def revoking : RevocationList :=
  ⟨7, 1, 600, [withdrawal (.signer 2)], Nat.one_pos, by decide⟩

/-- The second signs a list of the same number that does not say so. -/
def dropping : RevocationList :=
  ⟨7, 1, 700, [withdrawal (.releaseManifest 8), withdrawal (.releaseManifest 9)],
    Nat.one_pos, by decide⟩

/-- The revoked signer's list is accepted, under the same sequence number, and takes
its own revocation back. -/
theorem not_withdrawn_dropped :
    ∃ (reg : Registry) (signer : SignerId) (o₁ o₂ : Offer) (a₁ a₂ : Accepted),
      judge reg ⟨.none, none⟩ o₁ = .ok a₁ ∧ a₁.revoked.has (.signer signer) ∧
        judge reg ⟨a₁.revoked, some a₁.sequence⟩ o₂ = .ok a₂ ∧
        reg.signedBy o₂.list o₂.signature = .ok signer ∧ a₂.sequence = a₁.sequence ∧
        ¬ a₂.revoked.has (.signer signer) :=
  ⟨twoPrincipals, 2, signed revoking 1, signed dropping 2, ⟨Revoked.of revoking.revoked, 1⟩,
    ⟨Revoked.of dropping.revoked, 1⟩, by decide, by decide, by decide, by decide, by decide,
    by decide⟩

end Fixed

end Release
end Metralectl
