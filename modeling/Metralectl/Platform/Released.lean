import Metralectl.Platform.Documents

/-!
The two documents a release is verified by, as they are bound. What is verified is hashed as it was
received, so the digest a deployment names stands for one manifest and, through it, for one recipe.
-/
namespace Metralectl
namespace Platform
open JsonText Canonical

section Held

def OciImage.held (i : OciImage) : Metralectl.OciImage := ⟨i.repository.1, i.digest.1⟩

def ModelRevision.held (m : ModelRevision) : Release.ModelRevision := ⟨m.repository.1, m.revision⟩

def WeightFile.held (w : WeightFile) : Release.WeightFile := ⟨w.path.1, w.sha256, w.bytes.toNat⟩

/-- A manifest as verification takes it: its texts without their checks. -/
def ReleaseManifest.held (m : ReleaseManifest) : Release.ReleaseManifest where
  release := m.release.1
  createdAtUnixMs := m.createdAtUnixMs.1.toNat
  runtime := ⟨m.runtime.gitCommit, m.runtime.image.held⟩
  recipe := m.recipe
  model := ⟨m.model.source.held, m.model.weights⟩
  hardware := ⟨m.hardware.hardwareClass, m.hardware.fingerprints.1⟩
  sbom := ⟨m.sbom.format, ⟨m.sbom.artifact.uri.1, m.sbom.artifact.sha256⟩⟩
  receipts := m.receipts.1

/-- A recipe as verification takes it; what is only hashed stays as it is written. -/
def ModelRecipe.held (r : ModelRecipe) : Release.ModelRecipe where
  model := ⟨r.model.source.held, r.model.weights.1.map WeightFile.held⟩
  runtime := {
    image := r.runtime.image.held
    hardwareClasses := r.runtime.hardwareClasses.1
    hashed := [("engine", engine.write r.runtime.engine),
      ("min_nodes", nonZeroU32.write r.runtime.minNodes),
      ("serve_flags", (keyed isFlagKey).write r.runtime.serveFlags),
      ("env", (keyed isEnvKey).write r.runtime.env)] }
  hashed := [("version", v1.write r.version), ("recipe_id", Platform.recipeId.write r.recipeId),
    ("architecture", Platform.architecture.form.write r.architecture),
    ("quantization", Platform.quantization.form.write r.quantization),
    ("limits", Platform.limits.form.write r.limits),
    ("semantics", Platform.semantics.form.write r.semantics),
    ("evidence", (list Platform.evidence.form).write r.evidence)]

theorem write_sha256Digest (d : Release.Sha256Digest) :
    sha256Digest.write d = .string (Release.hexText d) := @write_bits _ 32 d

theorem write_gitCommit (c : Release.GitCommit) :
    gitCommit.write c = .string (String.ofList (hexDigits 40 c.toNat)) := @write_bits _ 20 c

theorem write_v1 (v : V1) : v1.write v = Release.natural 1 := by
  have one : v.1.toNat = 1 := by
    have bounds := v.bounds
    omega
  exact congrArg Release.natural one

theorem json_held (m : ReleaseManifest) : m.held.json = releaseManifest.form.write m := by
  simp only [Release.ReleaseManifest.json, Release.ModelRevision.json, Release.ArtifactRef.json,
    Release.digestsJson, ReleaseManifest.held, ModelRevision.held, ← write_sha256Digest,
    ← write_gitCommit, ← write_v1 m.version]
  rfl

/-- Members put in the order of their keys, whatever order they were in. -/
theorem arrange_members {keys : List String} {ms : List (String × Value)} {vs : List Value}
    (fixed : keys.Nodup) (found : collect keys ms = some vs) (once : (ms.map Prod.fst).Nodup) :
    arrange (.object ms) = arrange (.object (keys.zip vs)) := by
  obtain ⟨long, perm⟩ := (collect_iff fixed once).mp found
  refine (arrange_perm once ?_).symm
  exact perm.map _

theorem arrange_values {vs ws : List Value} (keys : List String)
    (same : vs.map arrange = ws.map arrange) :
    arrange (.object (keys.zip vs)) = arrange (.object (keys.zip ws)) := by
  rw [arrange_object, arrange_object, arrange_zip, arrange_zip, same]

theorem weightsJson_held (ws : List WeightFile) :
    Release.weightsJson (ws.map WeightFile.held) = (list weightFile.form).write ws := by
  simp only [Release.weightsJson, WeightFile.held, List.map_map, Function.comp_def,
    ← write_sha256Digest]
  rfl

theorem write_recipeModel (m : RecipeModel) : recipeModel.form.write m =
    .object [("source", m.source.held.json), ("weights", Release.weightsJson (m.weights.1.map
      WeightFile.held))] := by
  rw [weightsJson_held]
  simp only [Release.ModelRevision.json, ModelRevision.held, ← write_gitCommit]
  rfl

def heldRuntime (r : RecipeRuntime) : Value :=
  .object [("image", Release.imageJson r.image.held),
    ("hardware_classes", .array (r.hardwareClasses.1.map fun c => .string c.text)),
    ("engine", engine.write r.engine), ("min_nodes", nonZeroU32.write r.minNodes),
    ("serve_flags", (keyed isFlagKey).write r.serveFlags), ("env", (keyed isEnvKey).write r.env)]

theorem arrange_heldRuntime (r : RecipeRuntime) :
    arrange (heldRuntime r) = arrange (recipeRuntime.form.write r) := by
  have once : (["image", "hardware_classes", "engine", "min_nodes", "serve_flags", "env"] :
    List String).Nodup := by decide
  exact arrange_members recipeRuntime.fixed rfl once

/-- The members of a recipe document, its runtime as verification takes it. -/
def heldMembers (r : ModelRecipe) : List Value :=
  [v1.write r.version, recipeId.write r.recipeId, recipeModel.form.write r.model,
    architecture.form.write r.architecture, quantization.form.write r.quantization,
    limits.form.write r.limits, heldRuntime r.runtime, semantics.form.write r.semantics,
    (list evidence.form).write r.evidence]

/-- The recipe as verification takes it has the members of the document, in another order. -/
theorem arrange_held (r : ModelRecipe) :
    arrange r.held.json = arrange (modelRecipe.form.write r) := by
  have once : (["model", "runtime", "version", "recipe_id", "architecture", "quantization",
    "limits", "semantics", "evidence"] : List String).Nodup := by decide
  have found : collect modelRecipe.fields.keys [("model", recipeModel.form.write r.model),
      ("runtime", heldRuntime r.runtime), ("version", v1.write r.version),
      ("recipe_id", recipeId.write r.recipeId),
      ("architecture", architecture.form.write r.architecture),
      ("quantization", quantization.form.write r.quantization),
      ("limits", limits.form.write r.limits), ("semantics", semantics.form.write r.semantics),
      ("evidence", (list evidence.form).write r.evidence)] = some (heldMembers r) := rfl
  have whole := arrange_members modelRecipe.fixed found once
  rw [write_recipeModel] at whole
  have alike : (heldMembers r).map arrange =
      (modelRecipe.fields.write (modelRecipe.whole.symm r)).map arrange := by
    simp only [heldMembers, List.map_cons, arrange_heldRuntime]
    rfl
  exact whole.trans (arrange_values modelRecipe.fields.keys alike)

end Held
section Named
open Release
variable {h : Hashing}

/-- Two documents with one digest and not one text. -/
def Collides (h : Hashing) (v w : Value) : Prop :=
  ∃ s t, canonical h.display v = .ok s ∧ canonical h.display w = .ok t ∧ s ≠ t ∧
    h.sha256 s = h.sha256 t

theorem digest_of_arrange {v w : Value} (hv : Integers v) (hw : Integers w)
    (same : arrange v = arrange w) : h.digest v = h.digest w := by
  rw [Hashing.digest, Hashing.digest, canonical_eq h.display hv, canonical_eq h.display hw, same]

theorem digest_held (r : Platform.ModelRecipe) :
    h.digest r.held.json = h.digest (modelRecipe.form.write r) := by
  have same := arrange_held r
  have valid := (modelRecipe.form.lawful.steady (modelRecipe.form.lawful.valid_write r) same.symm).1
  exact digest_of_arrange (modelRecipe.form.lawful.sound valid).2
    (modelRecipe.form.integers_write r) same

variable {α : Type} {l : Layout α}

/-- What is read of a document has the digest of what was received. -/
theorem digest_received {v : Value} {a : α} (valid : l.form.valid v = true)
    (read : l.form.read v = some a) : h.digest v = h.digest (l.form.write a) := by
  obtain ⟨b, there, settled⟩ := l.form.read_valid valid
  obtain rfl := Option.some.inj (there.symm.trans read)
  have sound := (l.form.lawful.sound valid).2
  refine digest_of_arrange sound (l.form.integers_write _) ?_
  rw [← settled, l.form.lawful.arranged valid]

theorem same_of_digest {a b : α} {d : Sha256Digest} (ha : h.digest (l.form.write a) = .ok d)
    (hb : h.digest (l.form.write b) = .ok d) :
    a = b ∨ Collides h (l.form.write a) (l.form.write b) := by
  have first := canonical_eq h.display (l.form.integers_write a)
  have second := canonical_eq h.display (l.form.integers_write b)
  rw [Hashing.digest, first] at ha
  rw [Hashing.digest, second] at hb
  by_cases texts : render h.display (arrange (l.form.write a)) =
      render h.display (arrange (l.form.write b))
  · refine .inl ((l.bound h.display fun _ => none).apart a b ?_)
    rw [first, second, texts]
  · refine .inr ⟨_, _, first, second, fun same => texts (String.ofList_injective same), ?_⟩
    exact (Except.ok.inj ha).trans (Except.ok.inj hb).symm

/-- By some signature, and on some machine, this manifest and recipe are verified as the release of
that digest. -/
def VerifiedAs (h : Hashing) (m : Platform.ReleaseManifest) (r : Platform.ModelRecipe)
    (expected : Sha256Digest) (v : Verified) : Prop :=
  ∃ signature verifier revoked here,
    verify h m.held r.held expected signature verifier revoked here = .ok v

/-- What the digest of a release stands for. -/
structure NamedByContent (h : Hashing) : Prop where
  /-- It is that of the manifest as received, which has those of the recipe and its weights, where
  both are spelled as a writer spells them. -/
  received : ∀ v w m r expected out, releaseManifest.form.valid v = true →
    releaseManifest.form.read v = some m → modelRecipe.form.valid w = true →
    modelRecipe.form.read w = some r → VerifiedAs h m r expected out →
    h.digest v = .ok expected ∧ h.digest w = .ok m.recipe ∧
      h.digest ((list weightFile.form).write r.model.weights.1) = .ok m.model.weights
  /-- Whoever signs and wherever it is verified, it names one manifest and one recipe, and so one
  image and one model, unless two texts have one digest. -/
  one : ∀ m n r s expected out other, VerifiedAs h m r expected out →
    VerifiedAs h n s expected other →
    (m = n ∧ r = s ∧ out.toVerifiedRelease = other.toVerifiedRelease) ∨
      Collides h (releaseManifest.form.write m) (releaseManifest.form.write n) ∨
      Collides h (modelRecipe.form.write r) (modelRecipe.form.write s)

theorem VerifiedAs.digests {m : Platform.ReleaseManifest} {r : Platform.ModelRecipe}
    {expected : Sha256Digest} {out : Verified} (verified : VerifiedAs h m r expected out) :
    h.digest (releaseManifest.form.write m) = .ok expected ∧
      h.digest (modelRecipe.form.write r) = .ok m.recipe ∧
      h.digest ((list weightFile.form).write r.model.weights.1) = .ok m.model.weights ∧
      out.toVerifiedRelease = ⟨m.runtime.image.held, m.model.source.repository.1⟩ := by
  obtain ⟨signature, verifier, revoked, here, verified⟩ := verified
  have passed := verify_ok.mp verified
  refine ⟨?_, ?_, ?_, passed.release⟩
  · rw [← json_held]
    exact passed.named
  · rw [← digest_held]
    exact passed.bound.shipped
  · rw [← weightsJson_held]
    exact passed.bound.weights

/-- A release is named by what it is: its digest stands for one manifest and one recipe. -/
theorem release_named_by_content (h : Hashing) : NamedByContent h where
  received v w m r expected out valid read valid' read' verified := by
    obtain ⟨manifest, recipe, weights, _⟩ := verified.digests
    exact ⟨(digest_received valid read).trans manifest, (digest_received valid' read').trans recipe,
      weights⟩
  one m n r s expected out other verified verified' := by
    obtain ⟨manifest, recipe, _, release⟩ := verified.digests
    obtain ⟨manifest', recipe', _, release'⟩ := verified'.digests
    obtain rfl | collide := same_of_digest manifest manifest'
    · obtain rfl | collide := same_of_digest recipe recipe'
      · exact .inl ⟨rfl, rfl, release.trans release'.symm⟩
      · exact .inr (.inr collide)
    · exact .inr (.inl collide)

end Named
end Platform
end Metralectl
