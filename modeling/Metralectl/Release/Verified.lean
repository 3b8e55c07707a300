import Metralectl.Control.Commands
import Metralectl.Platform.Canonical
import Metralectl.Release.Revocations

/-!
A release manifest, verified before anything of it is launched. Its identity is the digest of
its canonical JSON, and so are those of the recipe and of the weights it names; how canonical
text is hashed is given.
-/
namespace Metralectl
namespace Release
open JsonText Canonical Commands Reconcile

abbrev GitCommit := BitVec 160

/-- A model repository at a commit. -/
structure ModelRevision where
  repository : String
  revision : GitCommit
deriving DecidableEq

structure ArtifactRef where
  uri : String
  sha256 : Sha256Digest
deriving DecidableEq

structure ReleaseRuntime where
  gitCommit : GitCommit
  image : OciImage
deriving DecidableEq

structure ReleaseModel where
  source : ModelRevision
  weights : Sha256Digest
deriving DecidableEq

structure ReleaseHardware where
  hardwareClass : HardwareClass
  fingerprints : List Sha256Digest
deriving DecidableEq

inductive SbomFormat where
  | spdxJson
  | cyclonedxJson
deriving DecidableEq

structure Sbom where
  format : SbomFormat
  artifact : ArtifactRef
deriving DecidableEq

/-- One accepted release, bound by content. -/
structure ReleaseManifest where
  release : String
  createdAtUnixMs : Nat
  runtime : ReleaseRuntime
  recipe : Sha256Digest
  model : ReleaseModel
  hardware : ReleaseHardware
  sbom : Sbom
  receipts : List Sha256Digest
deriving DecidableEq

/-- One weights file, by the digest of its bytes. -/
structure WeightFile where
  path : String
  sha256 : Sha256Digest
  bytes : Nat
deriving DecidableEq

structure RecipeModel where
  source : ModelRevision
  weights : List WeightFile
deriving DecidableEq

/-- How a recipe is launched; the members that are only hashed are kept as they are. -/
structure RecipeRuntime where
  image : OciImage
  hardwareClasses : List HardwareClass
  hashed : List (String × Json F64)

structure ModelRecipe where
  model : RecipeModel
  runtime : RecipeRuntime
  hashed : List (String × Json F64)

section Documents

def ModelRevision.json (m : ModelRevision) : Json F64 :=
  .object [("repository", .string m.repository),
    ("revision", .string (String.ofList (hexDigits 40 m.revision.toNat)))]

def ArtifactRef.json (a : ArtifactRef) : Json F64 :=
  .object [("uri", .string a.uri), ("sha256", .string (hexText a.sha256))]

def imageJson (i : OciImage) : Json F64 :=
  .object [("repository", .string i.repository), ("digest", .string i.digest)]

def natural (n : Nat) : Json F64 := .number (.int n)

def SbomFormat.text : SbomFormat → String
  | .spdxJson => "spdx_json"
  | .cyclonedxJson => "cyclonedx_json"

def digestsJson (digests : List Sha256Digest) : Json F64 :=
  .array (digests.map fun d => .string (hexText d))

def ReleaseManifest.json (m : ReleaseManifest) : Json F64 :=
  .object [("version", natural 1), ("release", .string m.release),
    ("created_at_unix_ms", natural m.createdAtUnixMs),
    ("runtime", .object [
      ("git_commit", .string (String.ofList (hexDigits 40 m.runtime.gitCommit.toNat))),
      ("image", imageJson m.runtime.image)]),
    ("recipe", .string (hexText m.recipe)),
    ("model", .object [("source", m.model.source.json),
      ("weights", .string (hexText m.model.weights))]),
    ("hardware", .object [("hardware_class", .string m.hardware.hardwareClass.text),
      ("fingerprints", digestsJson m.hardware.fingerprints)]),
    ("sbom", .object [("format", .string m.sbom.format.text), ("artifact", m.sbom.artifact.json)]),
    ("receipts", digestsJson m.receipts)]

def weightsJson (weights : List WeightFile) : Json F64 :=
  .array (weights.map fun w => .object [("path", .string w.path),
    ("sha256", .string (hexText w.sha256)), ("bytes", natural w.bytes)])

def ModelRecipe.json (r : ModelRecipe) : Json F64 :=
  .object ([("model", Json.object [("source", r.model.source.json),
      ("weights", weightsJson r.model.weights)]),
    ("runtime", Json.object ([("image", imageJson r.runtime.image),
      ("hardware_classes", .array (r.runtime.hardwareClasses.map fun c => .string c.text))] ++
        r.runtime.hashed))] ++ r.hashed)

end Documents

/-- How a fraction is shown, and the hash of a text. -/
structure Hashing where
  display : F64 → List Char
  sha256 : String → Sha256Digest

/-- The content digest of a document. -/
def Hashing.digest (h : Hashing) (document : Json F64) : Except String Sha256Digest :=
  (canonical h.display document).map h.sha256

/-- What this machine is; a machine that could not be measured has no fingerprint. -/
structure ThisMachine where
  accelerator : String
  fingerprint : Option Sha256Digest
  recipeModel : String
deriving DecidableEq

inductive Unverified where
  | changed (expected actual : Sha256Digest)
  | manifestRevoked
  | signerRevoked (signer : SignerId)
  | receiptsRevoked
  | unsigned (why : String)
  | recipe (pointer : String)
  | hardwareClass (release : HardwareClass) (here : Option HardwareClass)
  | fingerprintNotQualified
  | model (release recipe : String)
deriving DecidableEq

/-- What a launch needs of a manifest that passed, with its digest and who signed it. -/
structure Verified extends VerifiedRelease where
  digest : Sha256Digest
  signer : SignerId
deriving DecidableEq

section Verifying
variable (h : Hashing) (manifest : ReleaseManifest) (recipe : ModelRecipe)
  (expected : Sha256Digest) (signature : DocumentSignature) (verifier : SignatureVerifier)
  (revoked : Revoked) (here : ThisMachine)

/-- Whether a recipe is the one the manifest binds, by digest and by what both say. -/
def bound : Except Unverified Unit :=
  if (h.digest recipe.json).toOption ≠ some manifest.recipe then .error (.recipe "/recipe")
  else if recipe.model.source ≠ manifest.model.source then .error (.recipe "/model/source")
  else if (h.digest (weightsJson recipe.model.weights)).toOption ≠ some manifest.model.weights then
    .error (.recipe "/model/weights")
  else if recipe.runtime.image ≠ manifest.runtime.image then .error (.recipe "/runtime/image")
  else if manifest.hardware.hardwareClass ∉ recipe.runtime.hardwareClasses then
    .error (.recipe "/hardware/hardware_class")
  else .ok ()

/-- What is left once the manifest is the one expected, signed and bound: whether this machine is
one it was qualified for. -/
def matched (signer : SignerId) : Except Unverified Verified :=
  let class_ := Hardware.classify here.accelerator
  let model := manifest.model.source.repository
  if class_ ≠ some manifest.hardware.hardwareClass then
    .error (.hardwareClass manifest.hardware.hardwareClass class_)
  else if !here.fingerprint.any (manifest.hardware.fingerprints.contains ·) then
    .error .fingerprintNotQualified
  else if model ≠ here.recipeModel then .error (.model model here.recipeModel)
  else .ok ⟨⟨manifest.runtime.image, model⟩, expected, signer⟩

/-- Verify a manifest as the release a deployment names by `expected`. -/
def verify : Except Unverified Verified :=
  match h.digest manifest.json with
  | .error why => .error (.unsigned why)
  | .ok actual =>
      if actual ≠ expected then .error (.changed expected actual)
      else if actual ∈ revoked.manifests then .error .manifestRevoked
      else
        match verifier.verify .releaseManifest actual signature with
        | .error why => .error (.unsigned why)
        | .ok signer =>
            if signer ∈ revoked.signers then .error (.signerRevoked signer)
            else if manifest.receipts.all (· ∈ revoked.receipts) then .error .receiptsRevoked
            else
              match bound h manifest recipe with
              | .error why => .error why
              | .ok () => matched manifest actual here signer

/-- Every check of a recipe against the manifest that ships it. -/
structure Bound : Prop where
  shipped : h.digest recipe.json = .ok manifest.recipe
  source : recipe.model.source = manifest.model.source
  weights : h.digest (weightsJson recipe.model.weights) = .ok manifest.model.weights
  image : recipe.runtime.image = manifest.runtime.image
  class_ : manifest.hardware.hardwareClass ∈ recipe.runtime.hardwareClasses

/-- Every check of a release, and what is then known of it. -/
structure Qualified (v : Verified) : Prop where
  named : h.digest manifest.json = .ok expected
  current : expected ∉ revoked.manifests
  signed : verifier.verify .releaseManifest expected signature = .ok v.signer
  trusted : v.signer ∉ revoked.signers
  received : ∃ receipt ∈ manifest.receipts, receipt ∉ revoked.receipts
  bound : Bound h manifest recipe
  class_ : Hardware.classify here.accelerator = some manifest.hardware.hardwareClass
  measured : ∃ fingerprint ∈ manifest.hardware.fingerprints, here.fingerprint = some fingerprint
  model : here.recipeModel = manifest.model.source.repository
  digest : v.digest = expected
  release : v.toVerifiedRelease = ⟨manifest.runtime.image, manifest.model.source.repository⟩

variable {h manifest recipe expected signature verifier revoked here}

theorem toOption_eq_some {α : Type} {e : Except String α} {a : α} :
    e.toOption = some a ↔ e = .ok a := by
  cases e <;> simp [Except.toOption]

theorem bound_ok : bound h manifest recipe = .ok () ↔ Bound h manifest recipe := by
  constructor
  · intro ok
    unfold bound at ok
    split at ok
    · cases ok
    · next shipped =>
        split at ok
        · cases ok
        · next source =>
            split at ok
            · cases ok
            · next weights =>
                split at ok
                · cases ok
                · next image =>
                    split at ok
                    · cases ok
                    · next class_ =>
                        exact ⟨toOption_eq_some.mp (not_not.mp shipped), not_not.mp source,
                          toOption_eq_some.mp (not_not.mp weights), not_not.mp image,
                          not_not.mp class_⟩
  · intro ok
    simp only [bound, toOption_eq_some.mpr ok.shipped, toOption_eq_some.mpr ok.weights, ok.source,
      ok.image, ok.class_, ne_eq, not_true_eq_false, if_false]

/-- What a machine that matches is told of the release. -/
theorem matched_ok {signer : SignerId} {v : Verified} :
    matched manifest expected here signer = .ok v ↔
      Hardware.classify here.accelerator = some manifest.hardware.hardwareClass ∧
      (∃ fingerprint ∈ manifest.hardware.fingerprints, here.fingerprint = some fingerprint) ∧
      here.recipeModel = manifest.model.source.repository ∧
      v = ⟨⟨manifest.runtime.image, manifest.model.source.repository⟩, expected, signer⟩ := by
  have measured : here.fingerprint.any (manifest.hardware.fingerprints.contains ·) = true ↔
      ∃ fingerprint ∈ manifest.hardware.fingerprints, here.fingerprint = some fingerprint := by
    cases here.fingerprint with
    | none => simp
    | some fingerprint => simp
  unfold matched
  dsimp only
  split
  · next other => exact iff_of_false nofun fun all => other all.1
  · next class_ =>
      split
      · next unknown =>
          rw [Bool.not_eq_true'] at unknown
          exact iff_of_false nofun fun all =>
            absurd (unknown.symm.trans (measured.mpr all.2.1)) nofun
      · next known =>
          split
          · next other => exact iff_of_false nofun fun all => other all.2.2.1.symm
          · next model =>
              rw [Except.ok.injEq]
              constructor
              · intro same
                refine ⟨not_not.mp class_, measured.mp ?_, (not_not.mp model).symm, same.symm⟩
                simpa using known
              · intro all
                exact all.2.2.2.symm

/-- A release is verified exactly when it passes every check. -/
theorem verify_ok {v : Verified} :
    verify h manifest recipe expected signature verifier revoked here = .ok v ↔
      Qualified h manifest recipe expected signature verifier revoked here v := by
  have received : manifest.receipts.all (· ∈ revoked.receipts) = false ↔
      ∃ receipt ∈ manifest.receipts, receipt ∉ revoked.receipts := by
    simp
  constructor
  · intro ok
    unfold verify at ok
    split at ok
    · cases ok
    · next actual named =>
        split at ok
        · cases ok
        · next same =>
            obtain rfl := not_not.mp same
            split at ok
            · cases ok
            · next current =>
                split at ok
                · cases ok
                · next signer signed =>
                    split at ok
                    · cases ok
                    · next trusted =>
                        split at ok
                        · cases ok
                        · next some_ =>
                            split at ok
                            · cases ok
                            · next ships =>
                                obtain ⟨class_, measured, model, rfl⟩ := matched_ok.mp ok
                                exact ⟨named, current, signed, trusted,
                                  received.mp (Bool.not_eq_true _ ▸ some_), bound_ok.mp ships,
                                  class_, measured, model, rfl, rfl⟩
  · intro q
    have same : v = ⟨⟨manifest.runtime.image, manifest.model.source.repository⟩, expected,
        v.signer⟩ := by
      obtain ⟨release, digest, signer⟩ := v
      obtain rfl : digest = expected := q.digest
      obtain rfl : release = _ := q.release
      rfl
    have ends := matched_ok.mpr ⟨q.class_, q.measured, q.model, same⟩
    simp only [verify, q.named, q.signed, q.current, q.trusted, received.mpr q.received,
      bound_ok.mpr q.bound, ends, ne_eq, not_true_eq_false, Bool.false_eq_true, if_false]

end Verifying

/-- What one list of withdrawals has of another. -/
structure Revoked.Within (smaller larger : Revoked) : Prop where
  manifests : smaller.manifests ⊆ larger.manifests
  receipts : smaller.receipts ⊆ larger.receipts
  signers : smaller.signers ⊆ larger.signers

/-- What fewer withdrawals leave standing. -/
theorem Qualified.narrow {h : Hashing} {manifest : ReleaseManifest} {recipe : ModelRecipe}
    {expected : Sha256Digest} {signature : DocumentSignature} {verifier : SignatureVerifier}
    {smaller larger : Revoked} {here : ThisMachine} {v : Verified} (within : smaller.Within larger)
    (q : Qualified h manifest recipe expected signature verifier larger here v) :
    Qualified h manifest recipe expected signature verifier smaller here v :=
  { q with
    current := fun revoked => q.current (within.manifests revoked)
    trusted := fun revoked => q.trusted (within.signers revoked)
    received := q.received.imp fun _ receipt =>
      ⟨receipt.1, fun revoked => receipt.2 (within.receipts revoked)⟩ }

/-- Verification is what the checks say, withdrawals only take from it, and what is verified is all
that a convergence with it starts. -/
structure OnlyVerified (h : Hashing) (manifest : ReleaseManifest) (recipe : ModelRecipe)
    (expected : Sha256Digest) (signature : DocumentSignature) (verifier : SignatureVerifier)
    (here : ThisMachine) : Prop where
  exactly : ∀ revoked v, verify h manifest recipe expected signature verifier revoked here = .ok v ↔
    Qualified h manifest recipe expected signature verifier revoked here v
  narrows : ∀ smaller larger v, Revoked.Within smaller larger →
    verify h manifest recipe expected signature verifier larger here = .ok v →
    verify h manifest recipe expected signature verifier smaller here = .ok v
  /-- Whatever the runner answers and does, and wherever it stands at first. -/
  runs : ∀ revoked v, verify h manifest recipe expected signature verifier revoked here = .ok v →
    ∀ (τ : Type) (n : Node τ) (desired : Desired) (trace : Option ControlTrace) (maxSteps : Nat)
      (runner : τ), OnlyRelease n v.toVerifiedRelease
        (converge n.control desired (some v.toVerifiedRelease) trace maxSteps ⟨runner, []⟩).1

theorem only_verified (h : Hashing) (manifest : ReleaseManifest) (recipe : ModelRecipe)
    (expected : Sha256Digest) (signature : DocumentSignature) (verifier : SignatureVerifier)
    (here : ThisMachine) :
    OnlyVerified h manifest recipe expected signature verifier here where
  exactly _ _ := verify_ok
  narrows _ _ _ within verified := verify_ok.mpr ((verify_ok.mp verified).narrow within)
  runs _ _ _ _ _ _ _ maxSteps _ :=
    keptFor_onlyRelease.converge maxSteps fun _ none_ => absurd none_ List.not_mem_nil

end Release
end Metralectl
