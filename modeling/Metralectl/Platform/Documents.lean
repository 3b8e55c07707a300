import Metralectl.Platform.Scalars
import Metralectl.Release.Verified

/-!
The platform documents an agent reads or writes, each key required and each object closed. A
document is identified by the digest of its canonical text, so what is held of one must be written
back to the text that was received.
-/
namespace Metralectl
namespace Platform
open JsonText Canonical

/-- A digest, as the number it is. -/
def sha256Digest : Form Release.Sha256Digest := bits "Sha256Digest" 32

def gitCommit : Form Release.GitCommit := bits "GitCommit" 20

def signerId : Form Release.SignerId := bits "SignerId" 32

def idempotencyKey : Form (BitVec 128) := bits "IdempotencyKey" 16

def instanceId : Form InstanceId := bits "InstanceId" 16

/-- A trace id; never all zero. -/
def traceId : Form HexId.TraceId := hexId

section Common

structure Scope where
  tenant : DnsLabel
  project : DnsLabel

def scope : Layout Scope :=
  .of (.cons "tenant" dnsLabel <| .cons "project" dnsLabel .nil)
    (fun (t, p, _) => ⟨t, p⟩) fun s => (s.tenant, s.project, ())

/-- A piece of software and its version. -/
structure SoftwareVersion where
  name : Text
  version : Text

def softwareVersion : Layout SoftwareVersion :=
  .of (.cons "name" text <| .cons "version" text .nil)
    (fun (n, v, _) => ⟨n, v⟩) fun s => (s.name, s.version, ())

/-- An image named by content. -/
structure OciImage where
  repository : ImageRepository
  digest : OciDigest

def ociImage : Layout OciImage :=
  .of (.cons "repository" imageRepository <| .cons "digest" ociDigest .nil)
    (fun (r, d, _) => ⟨r, d⟩) fun i => (i.repository, i.digest, ())

/-- A model at a full commit. -/
structure ModelRevision where
  repository : ModelRepository
  revision : Release.GitCommit

def modelRevision : Layout ModelRevision :=
  .of (.cons "repository" modelRepository <| .cons "revision" gitCommit .nil)
    (fun (r, c, _) => ⟨r, c⟩) fun m => (m.repository, m.revision, ())

/-- A file named by the digest of its bytes. -/
structure ArtifactRef where
  uri : Text
  sha256 : Release.Sha256Digest

def artifactRef : Layout ArtifactRef :=
  .of (.cons "uri" text <| .cons "sha256" sha256Digest .nil)
    (fun (u, d, _) => ⟨u, d⟩) fun a => (a.uri, a.sha256, ())

end Common

section Recipes

/-- One weights file, by the digest of its bytes. -/
structure WeightFile where
  path : Text
  sha256 : Release.Sha256Digest
  bytes : UInt64

def weightFile : Layout WeightFile :=
  .of (.cons "path" text <| .cons "sha256" sha256Digest <| .cons "bytes" u64 <| .nil)
    (fun (path, sha256, bytes, _) => ⟨path, sha256, bytes⟩) fun s =>
      (s.path, s.sha256, s.bytes, ())

/-- A list of one at least. -/
abbrev AtLeastOne (α : Type) : Type := {as : List α // (!as.isEmpty) = true}

structure RecipeModel where
  source : ModelRevision
  weights : AtLeastOne WeightFile

def recipeModel : Layout RecipeModel :=
  .of (.cons "source" modelRevision.form <| .cons "weights" (nonEmpty weightFile.form) <| .nil)
    (fun (source, weights, _) => ⟨source, weights⟩) fun s => (s.source, s.weights, ())

/-- The architecture and its text-side artifacts. -/
structure Architecture where
  family : Text
  tokenizer : ArtifactRef
  chatTemplate : ArtifactRef

def architecture : Layout Architecture :=
  .of (.cons "family" text <| .cons "tokenizer" artifactRef.form <|
    .cons "chat_template" artifactRef.form <| .nil)
    (fun (family, tokenizer, chatTemplate, _) => ⟨family, tokenizer, chatTemplate⟩) fun s =>
      (s.family, s.tokenizer, s.chatTemplate, ())

/-- A precision for stored values: never adaptive. -/
inductive StoragePrecision where
  | bf16
  | fp16
  | fp8
  | nvfp4
  | mxfp4
  | int8
  | int4
deriving DecidableEq

def StoragePrecision.word : StoragePrecision → String
  | .bf16 => "bf16"
  | .fp16 => "fp16"
  | .fp8 => "fp8"
  | .nvfp4 => "nvfp4"
  | .mxfp4 => "mxfp4"
  | .int8 => "int8"
  | .int4 => "int4"

def storagePrecision : Tagged StoragePrecision :=
  wordsOf [.bf16, .fp16, .fp8, .nvfp4, .mxfp4, .int8, .int4] StoragePrecision.word
    (fun a => by cases a <;> decide) (by decide)

inductive Precision where
  | bf16
  | fp16
  | fp8
  | nvfp4
  | mxfp4
  | int8
  | int4
  | adaptive
deriving DecidableEq

def Precision.word : Precision → String
  | .bf16 => "bf16"
  | .fp16 => "fp16"
  | .fp8 => "fp8"
  | .nvfp4 => "nvfp4"
  | .mxfp4 => "mxfp4"
  | .int8 => "int8"
  | .int4 => "int4"
  | .adaptive => "adaptive"

def precision : Tagged Precision :=
  wordsOf [.bf16, .fp16, .fp8, .nvfp4, .mxfp4, .int8, .int4, .adaptive] Precision.word
    (fun a => by cases a <;> decide) (by decide)

structure Quantization where
  weights : StoragePrecision
  activations : Precision
  kvCache : StoragePrecision

def quantization : Layout Quantization :=
  .of (.cons "weights" storagePrecision.toForm <| .cons "activations" precision.toForm <|
    .cons "kv_cache" storagePrecision.toForm <| .nil)
    (fun (weights, activations, kvCache, _) => ⟨weights, activations, kvCache⟩) fun s =>
      (s.weights, s.activations, s.kvCache, ())

structure Limits where
  maxContextTokens : NonZeroU32
  maxConcurrentSequences : NonZeroU32
  gpuMemoryPermille : Permille

def limits : Layout Limits :=
  .of (.cons "max_context_tokens" nonZeroU32 <| .cons "max_concurrent_sequences" nonZeroU32 <|
    .cons "gpu_memory_permille" permille <| .nil)
    (fun (maxContextTokens, maxConcurrentSequences, gpuMemoryPermille, _) =>
      ⟨maxContextTokens, maxConcurrentSequences, gpuMemoryPermille⟩) fun s =>
      (s.maxContextTokens, s.maxConcurrentSequences, s.gpuMemoryPermille, ())

inductive Engine where
  | metrale
  | sim
  | vllm
  | sglang
deriving DecidableEq

def Engine.word : Engine → String
  | .metrale => "metrale"
  | .sim => "sim"
  | .vllm => "vllm"
  | .sglang => "sglang"

def engine : Tagged Engine :=
  wordsOf [.metrale, .sim, .vllm, .sglang] Engine.word
    (fun a => by cases a <;> decide) (by decide)

/-- The block a launch is derived from. -/
structure RecipeRuntime where
  engine : Engine
  image : OciImage
  hardwareClasses : AtLeastOne HardwareClass
  minNodes : NonZeroU32
  serveFlags : Keyed isFlagKey
  env : Keyed isEnvKey

def recipeRuntime : Layout RecipeRuntime :=
  .of (.cons "engine" engine.toForm <| .cons "image" ociImage.form <|
    .cons "hardware_classes" (nonEmpty hardwareClass) <| .cons "min_nodes" nonZeroU32 <|
    .cons "serve_flags" (keyed isFlagKey) <| .cons "env" (keyed isEnvKey) <| .nil)
    (fun (engine, image, hardwareClasses, minNodes, serveFlags, env, _) =>
      ⟨engine, image, hardwareClasses, minNodes, serveFlags, env⟩) fun s =>
      (s.engine, s.image, s.hardwareClasses, s.minNodes, s.serveFlags, s.env, ())

/-- What a capability is served through. -/
structure Supported where
  parser : Text

def supported : Layout Supported :=
  .of (.cons "parser" text <| .nil)
    (fun (parser, _) => ⟨parser⟩) fun s => (s.parser, ())

inductive Capability where
  | unsupported
  | supported (by_ : Supported)

def capability : Form Capability :=
  (((wordsOf [()] (fun _ => "unsupported") (fun _ => List.mem_singleton_self ()) (by decide)).or
    (carry "supported" supported.form) (by decide)).as {
      toFun := Sum.elim (fun _ => .unsupported) .supported
      invFun := fun
        | .unsupported => .inl ()
        | .supported s => .inr s
      left_inv := by rintro (_ | s) <;> rfl
      right_inv := by rintro (_ | s) <;> rfl }).toForm

inductive Modality where
  | text
  | image
  | audio
  | video
deriving DecidableEq

def Modality.word : Modality → String
  | .text => "text"
  | .image => "image"
  | .audio => "audio"
  | .video => "video"

def modality : Tagged Modality :=
  wordsOf [.text, .image, .audio, .video] Modality.word
    (fun a => by cases a <;> decide) (by decide)

structure Semantics where
  toolCalls : Capability
  structuredOutput : Capability
  reasoning : Capability
  inputModalities : AtLeastOne Modality
  outputModalities : AtLeastOne Modality

def semantics : Layout Semantics :=
  .of (.cons "tool_calls" capability <| .cons "structured_output" capability <|
    .cons "reasoning" capability <| .cons "input_modalities" (nonEmpty modality.toForm) <|
    .cons "output_modalities" (nonEmpty modality.toForm) <| .nil)
    (fun (toolCalls, structuredOutput, reasoning, inputModalities, outputModalities, _) =>
      ⟨toolCalls, structuredOutput, reasoning, inputModalities, outputModalities⟩) fun s =>
      (s.toolCalls, s.structuredOutput, s.reasoning, s.inputModalities, s.outputModalities, ())

inductive EvidenceKind where
  | benchmark
  | coherence
  | certification
deriving DecidableEq

def EvidenceKind.word : EvidenceKind → String
  | .benchmark => "benchmark"
  | .coherence => "coherence"
  | .certification => "certification"

def evidenceKind : Tagged EvidenceKind :=
  wordsOf [.benchmark, .coherence, .certification] EvidenceKind.word
    (fun a => by cases a <;> decide) (by decide)

structure Evidence where
  kind : EvidenceKind
  artifact : ArtifactRef

def evidence : Layout Evidence :=
  .of (.cons "kind" evidenceKind.toForm <| .cons "artifact" artifactRef.form <| .nil)
    (fun (kind, artifact, _) => ⟨kind, artifact⟩) fun s => (s.kind, s.artifact, ())

/-- One served model, fully pinned. -/
structure ModelRecipe where
  version : V1
  recipeId : DocumentRecipeId
  model : RecipeModel
  architecture : Architecture
  quantization : Quantization
  limits : Limits
  runtime : RecipeRuntime
  semantics : Semantics
  evidence : List Evidence

def modelRecipe : Layout ModelRecipe :=
  .of (.cons "version" v1 <| .cons "recipe_id" recipeId <| .cons "model" recipeModel.form <|
    .cons "architecture" architecture.form <| .cons "quantization" quantization.form <|
    .cons "limits" limits.form <| .cons "runtime" recipeRuntime.form <|
    .cons "semantics" semantics.form <| .cons "evidence" (list evidence.form) <| .nil)
    (fun (version, recipeId, model, architecture, quantization, limits, runtime, semantics,
       evidence, _) =>
      ⟨version, recipeId, model, architecture, quantization, limits, runtime, semantics,
       evidence⟩) fun s =>
      (s.version, s.recipeId, s.model, s.architecture, s.quantization, s.limits, s.runtime,
       s.semantics, s.evidence, ())

end Recipes

section Releases

structure ReleaseRuntime where
  gitCommit : Release.GitCommit
  image : OciImage

def releaseRuntime : Layout ReleaseRuntime :=
  .of (.cons "git_commit" gitCommit <| .cons "image" ociImage.form <| .nil)
    (fun (gitCommit, image, _) => ⟨gitCommit, image⟩) fun s => (s.gitCommit, s.image, ())

structure ReleaseModel where
  source : ModelRevision
  weights : Release.Sha256Digest

def releaseModel : Layout ReleaseModel :=
  .of (.cons "source" modelRevision.form <| .cons "weights" sha256Digest <| .nil)
    (fun (source, weights, _) => ⟨source, weights⟩) fun s => (s.source, s.weights, ())

/-- The hardware a release was qualified on. -/
structure ReleaseHardware where
  hardwareClass : HardwareClass
  fingerprints : AtLeastOne Release.Sha256Digest

def releaseHardware : Layout ReleaseHardware :=
  .of (.cons "hardware_class" hardwareClass <| .cons "fingerprints" (nonEmpty sha256Digest) <|
    .nil)
    (fun (hardwareClass, fingerprints, _) => ⟨hardwareClass, fingerprints⟩) fun s =>
      (s.hardwareClass, s.fingerprints, ())

def sbomFormat : Tagged Release.SbomFormat :=
  wordsOf [.spdxJson, .cyclonedxJson] Release.SbomFormat.text (fun a => by cases a <;> decide)
    (by decide)

structure Sbom where
  format : Release.SbomFormat
  artifact : ArtifactRef

def sbom : Layout Sbom :=
  .of (.cons "format" sbomFormat.toForm <| .cons "artifact" artifactRef.form <| .nil)
    (fun (format, artifact, _) => ⟨format, artifact⟩) fun s => (s.format, s.artifact, ())

/-- One accepted release, bound by content. -/
structure ReleaseManifest where
  version : V1
  release : DnsLabel
  createdAtUnixMs : UnixMs
  runtime : ReleaseRuntime
  recipe : Release.Sha256Digest
  model : ReleaseModel
  hardware : ReleaseHardware
  sbom : Sbom
  receipts : AtLeastOne Release.Sha256Digest

def releaseManifest : Layout ReleaseManifest :=
  .of (.cons "version" v1 <| .cons "release" dnsLabel <| .cons "created_at_unix_ms" unixMs <|
    .cons "runtime" releaseRuntime.form <| .cons "recipe" sha256Digest <|
    .cons "model" releaseModel.form <| .cons "hardware" releaseHardware.form <|
    .cons "sbom" sbom.form <| .cons "receipts" (nonEmpty sha256Digest) <| .nil)
    (fun (version, release, createdAtUnixMs, runtime, recipe, model, hardware, sbom, receipts, _) =>
      ⟨version, release, createdAtUnixMs, runtime, recipe, model, hardware, sbom,
       receipts⟩) fun s =>
      (s.version, s.release, s.createdAtUnixMs, s.runtime, s.recipe, s.model, s.hardware, s.sbom,
       s.receipts, ())

def revokedSubject : Form Release.RevokedSubject :=
  (((carry "release_manifest" sha256Digest).or
    ((carry "compatibility_receipt" sha256Digest).or (carry "signer" signerId) (by decide))
    (by decide)).as {
      toFun := Sum.elim .releaseManifest (Sum.elim .compatibilityReceipt .signer)
      invFun := fun
        | .releaseManifest d => .inl d
        | .compatibilityReceipt d => .inr (.inl d)
        | .signer s => .inr (.inr s)
      left_inv := by rintro (d | d | s) <;> rfl
      right_inv := by rintro (d | d | s) <;> rfl }).toForm

def revocationReasonWord : Release.RevocationReason → String
  | .superseded => "superseded"
  | .defect => "defect"
  | .evidenceInvalid => "evidence_invalid"
  | .licenseWithdrawn => "license_withdrawn"
  | .keyCompromised => "key_compromised"

def revocationReason : Tagged Release.RevocationReason :=
  wordsOf [.superseded, .defect, .evidenceInvalid, .licenseWithdrawn, .keyCompromised]
    revocationReasonWord
    (fun a => by cases a <;> decide) (by decide)

structure Revocation where
  subject : Release.RevokedSubject
  reason : Release.RevocationReason
  revokedAtUnixMs : UnixMs

def revocation : Layout Revocation :=
  .of (.cons "subject" revokedSubject <| .cons "reason" revocationReason.toForm <|
    .cons "revoked_at_unix_ms" unixMs <| .nil)
    (fun (subject, reason, revokedAtUnixMs, _) => ⟨subject, reason, revokedAtUnixMs⟩) fun s =>
      (s.subject, s.reason, s.revokedAtUnixMs, ())

/-- The registry's withdrawals, all of them, at one sequence number. -/
structure RevocationList where
  version : V1
  issuer : NodeId
  sequence : NonZeroU64
  issuedAtUnixMs : UnixMs
  revoked : AtLeastOne Revocation

def revocationList : Layout RevocationList :=
  .of (.cons "version" v1 <| .cons "issuer" nodeId <| .cons "sequence" nonZeroU64 <|
    .cons "issued_at_unix_ms" unixMs <| .cons "revoked" (nonEmpty revocation.form) <| .nil)
    (fun (version, issuer, sequence, issuedAtUnixMs, revoked, _) =>
      ⟨version, issuer, sequence, issuedAtUnixMs, revoked⟩) fun s =>
      (s.version, s.issuer, s.sequence, s.issuedAtUnixMs, s.revoked, ())

def signedKindWord : Release.SignedKind → String
  | .releaseManifest => "release_manifest"
  | .revocationList => "revocation_list"

def signedKind : Tagged Release.SignedKind :=
  wordsOf [.releaseManifest, .revocationList] signedKindWord
    (fun a => by cases a <;> decide) (by decide)

/-- Both halves of a signature, over the same signed string. -/
structure HybridSignature where
  ed25519 : HexBytes 64
  mlDsa65 : HexBytes 3309

def hybridSignature : Layout HybridSignature :=
  .of (.cons "ed25519" (hexBytes 64) <| .cons "ml_dsa_65" (hexBytes 3309) <| .nil)
    (fun (ed25519, mlDsa65, _) => ⟨ed25519, mlDsa65⟩) fun s => (s.ed25519, s.mlDsa65, ())

structure DocumentSignature where
  version : V1
  kind : Release.SignedKind
  document : Release.Sha256Digest
  signer : Release.SignerId
  signature : HybridSignature

def documentSignature : Layout DocumentSignature :=
  .of (.cons "version" v1 <| .cons "kind" signedKind.toForm <| .cons "document" sha256Digest <|
    .cons "signer" signerId <| .cons "signature" hybridSignature.form <| .nil)
    (fun (version, kind, document, signer, signature, _) =>
      ⟨version, kind, document, signer, signature⟩) fun s =>
      (s.version, s.kind, s.document, s.signer, s.signature, ())

end Releases

section Deployments

/-- The shape of one replica. -/
structure Topology where
  nodes : NonZeroU32
  acceleratorsPerNode : NonZeroU32
  tensorParallel : NonZeroU32
  pipelineParallel : NonZeroU32
  expertParallel : NonZeroU32

def topology : Layout Topology :=
  .of (.cons "nodes" nonZeroU32 <| .cons "accelerators_per_node" nonZeroU32 <|
    .cons "tensor_parallel" nonZeroU32 <| .cons "pipeline_parallel" nonZeroU32 <|
    .cons "expert_parallel" nonZeroU32 <| .nil)
    (fun (nodes, acceleratorsPerNode, tensorParallel, pipelineParallel, expertParallel, _) =>
      ⟨nodes, acceleratorsPerNode, tensorParallel, pipelineParallel, expertParallel⟩) fun s =>
      (s.nodes, s.acceleratorsPerNode, s.tensorParallel, s.pipelineParallel, s.expertParallel, ())

/-- Where the plane may run a deployment. -/
inductive DeploymentPlacement where
  | hardwareClass (class_ : HardwareClass)
  | nodes (nodes : AtLeastOne NodeId)

def deploymentPlacement : Form DeploymentPlacement :=
  (((carry "hardware_class" hardwareClass).or (carry "nodes" (nonEmpty nodeId)) (by decide)).as {
      toFun := Sum.elim .hardwareClass .nodes
      invFun := fun
        | .hardwareClass c => .inl c
        | .nodes ns => .inr ns
      left_inv := by rintro (c | ns) <;> rfl
      right_inv := by rintro (c | ns) <;> rfl }).toForm

structure DeploymentSpec where
  release : Release.Sha256Digest
  servedModel : ModelName
  topology : Topology
  replicas : NonZeroU32
  placement : DeploymentPlacement

def deploymentSpec : Layout DeploymentSpec :=
  .of (.cons "release" sha256Digest <| .cons "served_model" modelName <|
    .cons "topology" topology.form <| .cons "replicas" nonZeroU32 <|
    .cons "placement" deploymentPlacement <| .nil)
    (fun (release, servedModel, topology, replicas, placement, _) =>
      ⟨release, servedModel, topology, replicas, placement⟩) fun s =>
      (s.release, s.servedModel, s.topology, s.replicas, s.placement, ())

inductive Phase where
  | pending
  | progressing
  | ready
  | degraded
  | failed
deriving DecidableEq

def Phase.word : Phase → String
  | .pending => "pending"
  | .progressing => "progressing"
  | .ready => "ready"
  | .degraded => "degraded"
  | .failed => "failed"

def phase : Tagged Phase :=
  wordsOf [.pending, .progressing, .ready, .degraded, .failed] Phase.word
    (fun a => by cases a <;> decide) (by decide)

inductive ConditionKind where
  | releaseVerified
  | receiptApproved
  | hardwareCompatible
  | runtimeReady
deriving DecidableEq

def ConditionKind.word : ConditionKind → String
  | .releaseVerified => "release_verified"
  | .receiptApproved => "receipt_approved"
  | .hardwareCompatible => "hardware_compatible"
  | .runtimeReady => "runtime_ready"

def conditionKind : Tagged ConditionKind :=
  wordsOf [.releaseVerified, .receiptApproved, .hardwareCompatible, .runtimeReady]
    ConditionKind.word
    (fun a => by cases a <;> decide) (by decide)

inductive ConditionStatus where
  | true_
  | false_
  | unknown
deriving DecidableEq

def ConditionStatus.word : ConditionStatus → String
  | .true_ => "true"
  | .false_ => "false"
  | .unknown => "unknown"

def conditionStatus : Tagged ConditionStatus :=
  wordsOf [.true_, .false_, .unknown] ConditionStatus.word
    (fun a => by cases a <;> decide) (by decide)

structure Condition where
  kind : ConditionKind
  status : ConditionStatus
  sinceUnixMs : UnixMs

def condition : Layout Condition :=
  .of (.cons "kind" conditionKind.toForm <| .cons "status" conditionStatus.toForm <|
    .cons "since_unix_ms" unixMs <| .nil)
    (fun (kind, status, sinceUnixMs, _) => ⟨kind, status, sinceUnixMs⟩) fun s =>
      (s.kind, s.status, s.sinceUnixMs, ())

inductive HealthState where
  | starting
  | ready
  | degraded
  | draining
  | stopped
deriving DecidableEq

def HealthState.word : HealthState → String
  | .starting => "starting"
  | .ready => "ready"
  | .degraded => "degraded"
  | .draining => "draining"
  | .stopped => "stopped"

def healthState : Tagged HealthState :=
  wordsOf [.starting, .ready, .degraded, .draining, .stopped] HealthState.word
    (fun a => by cases a <;> decide) (by decide)

structure ObservedInstance where
  instanceId : InstanceId
  nodeId : NodeId
  hardwareFingerprint : Release.Sha256Digest
  generation : Generation
  state : HealthState

def observedInstance : Layout ObservedInstance :=
  .of (.cons "instance_id" instanceId <| .cons "node_id" nodeId <|
    .cons "hardware_fingerprint" sha256Digest <| .cons "generation" generation <|
    .cons "state" healthState.toForm <| .nil)
    (fun (instanceId, nodeId, hardwareFingerprint, generation, state, _) =>
      ⟨instanceId, nodeId, hardwareFingerprint, generation, state⟩) fun s =>
      (s.instanceId, s.nodeId, s.hardwareFingerprint, s.generation, s.state, ())

/-- What was last observed. -/
structure DeploymentStatus where
  observedGeneration : Generation
  phase : Phase
  conditions : List Condition
  instances : List ObservedInstance
  updatedAtUnixMs : UnixMs

def deploymentStatus : Layout DeploymentStatus :=
  .of (.cons "observed_generation" generation <| .cons "phase" phase.toForm <|
    .cons "conditions" (list condition.form) <| .cons "instances" (list observedInstance.form) <|
    .cons "updated_at_unix_ms" unixMs <| .nil)
    (fun (observedGeneration, phase, conditions, instances, updatedAtUnixMs, _) =>
      ⟨observedGeneration, phase, conditions, instances, updatedAtUnixMs⟩) fun s =>
      (s.observedGeneration, s.phase, s.conditions, s.instances, s.updatedAtUnixMs, ())

/-- One served model: what is desired at a generation, and the last status, if any. -/
structure ModelDeployment where
  version : V1
  name : DeploymentName
  scope : Scope
  generation : Generation
  spec : DeploymentSpec
  status : Option DeploymentStatus

def modelDeployment : Layout ModelDeployment :=
  .of (.cons "version" v1 <| .cons "name" deploymentName <| .cons "scope" scope.form <|
    .cons "generation" generation <| .cons "spec" deploymentSpec.form <|
    .cons "status" (orNull deploymentStatus.form deploymentStatus.real) <| .nil)
    (fun (version, name, scope, generation, spec, status, _) =>
      ⟨version, name, scope, generation, spec, status⟩) fun s =>
      (s.version, s.name, s.scope, s.generation, s.spec, s.status, ())

def actionKindWord : Reconcile.ActionKind → String
  | .apply => "apply"
  | .stop => "stop"

def actionKind : Tagged Reconcile.ActionKind :=
  wordsOf [.apply, .stop] actionKindWord
    (fun a => by cases a <;> decide) (by decide)

/-- A command from the plane to one agent; never a command line. -/
structure DeploymentAction where
  version : V1
  idempotencyKey : BitVec 128
  traceId : HexId.TraceId
  scope : Scope
  deployment : DeploymentName
  generation : Generation
  nodeId : NodeId
  action : Reconcile.ActionKind
  issuedAtUnixMs : UnixMs

def deploymentAction : Layout DeploymentAction :=
  .of (.cons "version" v1 <| .cons "idempotency_key" idempotencyKey <| .cons "trace_id" traceId <|
    .cons "scope" scope.form <| .cons "deployment" deploymentName <|
    .cons "generation" generation <| .cons "node_id" nodeId <|
    .cons "action" actionKind.toForm <| .cons "issued_at_unix_ms" unixMs <| .nil)
    (fun (version, idempotencyKey, traceId, scope, deployment, generation, nodeId, action,
     issuedAtUnixMs, _) =>
      ⟨version, idempotencyKey, traceId, scope, deployment, generation, nodeId, action,
       issuedAtUnixMs⟩) fun s =>
      (s.version, s.idempotencyKey, s.traceId, s.scope, s.deployment, s.generation, s.nodeId,
       s.action, s.issuedAtUnixMs, ())

def refusalReasonWord : Reconcile.RefusalReason → String
  | .staleGeneration => "stale_generation"
  | .idempotencyConflict => "idempotency_conflict"
  | .releaseUnverified => "release_unverified"
  | .receiptMissing => "receipt_missing"
  | .hardwareIncompatible => "hardware_incompatible"
  | .notHere => "not_here"
  | .busy => "busy"
  | .cordoned => "cordoned"
  | .draining => "draining"

def refusalReason : Tagged Reconcile.RefusalReason :=
  wordsOf [.staleGeneration, .idempotencyConflict, .releaseUnverified, .receiptMissing,
      .hardwareIncompatible, .notHere, .busy, .cordoned, .draining] refusalReasonWord
    (fun a => by cases a <;> decide) (by decide)

def failureReasonWord : Reconcile.FailureReason → String
  | .imageUnavailable => "image_unavailable"
  | .launchFailed => "launch_failed"
  | .notReady => "not_ready"
  | .exited => "exited"

def failureReason : Tagged Reconcile.FailureReason :=
  wordsOf [.imageUnavailable, .launchFailed, .notReady, .exited] failureReasonWord
    (fun a => by cases a <;> decide) (by decide)

/-- A reason, in an object of its own. -/
def because {ρ : Type} (reason : Form ρ) : Form ρ :=
  (Layout.of (.cons "reason" reason .nil) Prod.fst (fun r => (r, ()))
    (List.nodup_singleton "reason")).form

def actionOutcome : Form Reconcile.ActionOutcome :=
  (((wordsOf [false, true] (fun held => if held then "already_applied" else "applied")
      (fun held => by cases held <;> decide) (by decide)).or
    ((carry "refused" (because refusalReason.toForm)).or
      (carry "failed" (because failureReason.toForm)) (by decide)) (by decide)).as {
      toFun := Sum.elim (fun held => if held then .alreadyApplied else .applied)
        (Sum.elim .refused .failed)
      invFun := fun
        | .applied => .inl false
        | .alreadyApplied => .inl true
        | .refused r => .inr (.inl r)
        | .failed r => .inr (.inr r)
      left_inv := by rintro ((_ | _) | r | r) <;> rfl
      right_inv := by rintro (_ | _ | r | r) <;> rfl }).toForm

/-- The agent's answer to an action. -/
structure DeploymentActionResult where
  version : V1
  idempotencyKey : BitVec 128
  nodeId : NodeId
  outcome : Reconcile.ActionOutcome
  runningGeneration : Option Generation
  instances : List InstanceId
  answeredAtUnixMs : UnixMs

def deploymentActionResult : Layout DeploymentActionResult :=
  .of (.cons "version" v1 <| .cons "idempotency_key" idempotencyKey <| .cons "node_id" nodeId <|
    .cons "outcome" actionOutcome <|
    .cons "running_generation" (orNull generation generation_real) <|
    .cons "instances" (list instanceId) <| .cons "answered_at_unix_ms" unixMs <| .nil)
    (fun (version, idempotencyKey, nodeId, outcome, runningGeneration, instances,
     answeredAtUnixMs, _) =>
      ⟨version, idempotencyKey, nodeId, outcome, runningGeneration, instances,
       answeredAtUnixMs⟩) fun s =>
      (s.version, s.idempotencyKey, s.nodeId, s.outcome, s.runningGeneration, s.instances,
       s.answeredAtUnixMs, ())

end Deployments

section Fingerprints

inductive Vendor where
  | nvidia
  | amd
  | intel
  | apple
deriving DecidableEq

def Vendor.word : Vendor → String
  | .nvidia => "nvidia"
  | .amd => "amd"
  | .intel => "intel"
  | .apple => "apple"

def vendor : Tagged Vendor :=
  wordsOf [.nvidia, .amd, .intel, .apple] Vendor.word
    (fun a => by cases a <;> decide) (by decide)

/-- One kind of accelerator, and how many of it. -/
structure Accelerator where
  vendor : Vendor
  product : Text
  architecture : Text
  memoryBytes : Field NonZeroU64
  count : NonZeroU32

def accelerator : Layout Accelerator :=
  .of (.cons "vendor" vendor.toForm <| .cons "product" text <| .cons "architecture" text <|
    .cons "memory_bytes" (field nonZeroU64) <| .cons "count" nonZeroU32 <| .nil)
    (fun (vendor, product, architecture, memoryBytes, count, _) =>
      ⟨vendor, product, architecture, memoryBytes, count⟩) fun s =>
      (s.vendor, s.product, s.architecture, s.memoryBytes, s.count, ())

inductive CpuArch where
  | aarch64
  | x86_64
deriving DecidableEq

def CpuArch.word : CpuArch → String
  | .aarch64 => "aarch64"
  | .x86_64 => "x86_64"

def cpuArch : Tagged CpuArch :=
  wordsOf [.aarch64, .x86_64] CpuArch.word
    (fun a => by cases a <;> decide) (by decide)

/-- The host around the accelerators. -/
structure Host where
  cpuArch : CpuArch
  cpuModel : Field Text
  memoryBytes : Field NonZeroU64
  unifiedMemory : Bool
  osKernel : Field Text

def host : Layout Host :=
  .of (.cons "cpu_arch" cpuArch.toForm <| .cons "cpu_model" (field text) <|
    .cons "memory_bytes" (field nonZeroU64) <| .cons "unified_memory" flag <|
    .cons "os_kernel" (field text) <| .nil)
    (fun (cpuArch, cpuModel, memoryBytes, unifiedMemory, osKernel, _) =>
      ⟨cpuArch, cpuModel, memoryBytes, unifiedMemory, osKernel⟩) fun s =>
      (s.cpuArch, s.cpuModel, s.memoryBytes, s.unifiedMemory, s.osKernel, ())

/-- A machine's hardware identity: no time, serial number or hostname. -/
structure HardwareFingerprint where
  version : V1
  hardwareClass : HardwareClass
  accelerators : AtLeastOne Accelerator
  host : Host
  driver : Field SoftwareVersion
  toolkit : Field SoftwareVersion

def hardwareFingerprint : Layout HardwareFingerprint :=
  .of (.cons "version" v1 <| .cons "hardware_class" hardwareClass <|
    .cons "accelerators" (nonEmpty accelerator.form) <| .cons "host" host.form <|
    .cons "driver" (field softwareVersion.form) <|
    .cons "toolkit" (field softwareVersion.form) <| .nil)
    (fun (version, hardwareClass, accelerators, host, driver, toolkit, _) =>
      ⟨version, hardwareClass, accelerators, host, driver, toolkit⟩) fun s =>
      (s.version, s.hardwareClass, s.accelerators, s.host, s.driver, s.toolkit, ())

end Fingerprints

section Kinds

/-- The kinds of documents that are bound here. -/
inductive Kind where
  | deploymentAction
  | deploymentActionResult
  | modelDeployment
  | hardwareFingerprint
  | releaseManifest
  | modelRecipe
  | documentSignature
  | revocationList

def Kind.Held : Kind → Type
  | .deploymentAction => DeploymentAction
  | .deploymentActionResult => DeploymentActionResult
  | .modelDeployment => ModelDeployment
  | .hardwareFingerprint => HardwareFingerprint
  | .releaseManifest => ReleaseManifest
  | .modelRecipe => ModelRecipe
  | .documentSignature => DocumentSignature
  | .revocationList => RevocationList

def Kind.layout : (k : Kind) → Layout k.Held
  | .deploymentAction => Platform.deploymentAction
  | .deploymentActionResult => Platform.deploymentActionResult
  | .modelDeployment => Platform.modelDeployment
  | .hardwareFingerprint => Platform.hardwareFingerprint
  | .releaseManifest => Platform.releaseManifest
  | .modelRecipe => Platform.modelRecipe
  | .documentSignature => Platform.documentSignature
  | .revocationList => Platform.revocationList

variable {α : Type} (display : F64 → List Char) (readFraction : List Char → Option F64)
  (l : Layout α)

/-- What is read of a document loses nothing its digest is of. -/
structure Bound : Prop where
  /-- What a writer writes is read, its members in any order, and written to the same text. -/
  taken : ∀ v, l.form.valid v = true → ∃ a text, l.form.read v = some a ∧
    canonical display v = .ok text ∧ canonical display (l.form.write a) = .ok text
  /-- What has the text of a document spelled as a writer spells it is read as that is. -/
  alike : ∀ v w, l.form.valid v = true → Distinct w → Integers w →
    canonical display w = canonical display v → l.form.read w = l.form.read v
  /-- Anything that is read is another spelling of what is then written. -/
  exactly : ∀ v a, Distinct v → (l.form.read v = some a ↔ l.form.settle v = l.form.write a)
  closed : ∀ ms a, Distinct (.object ms) → l.form.read (.object ms) = some a →
    (ms.map Prod.fst).Perm l.fields.keys
  /-- What is written is read back from its text. -/
  back : ∀ a, ∃ text w, canonical display (l.form.write a) = .ok text ∧
    parse readFraction text.toList = some w ∧ l.form.read w = some a
  apart : ∀ a b, canonical display (l.form.write a) = canonical display (l.form.write b) → a = b

variable {display l}

theorem arranged_of_canonical {v w : Value} (hv : Distinct v ∧ Integers v)
    (hw : Distinct w ∧ Integers w) (same : canonical display w = canonical display v) :
    arrange v = arrange w := by
  obtain ⟨texts, binds⟩ := canonical_binds display fun _ => none
  obtain ⟨text, _, written, _⟩ := texts ⟨v, hv.1, hv.2⟩
  have values :=
    (binds ⟨v, hv.1, hv.2⟩ ⟨w, hw.1, hw.2⟩ text text written (same.trans written)).mp rfl
  exact (same_iff hv.1 hw.1).mp values

theorem read_steady {v w : Value} (f : Form α) (valid : f.valid v = true)
    (same : arrange v = arrange w) : f.read w = f.read v := by
  obtain ⟨a, read, settled⟩ := f.read_valid valid
  obtain ⟨there, alike⟩ := f.lawful.steady valid same
  rw [read, f.lawful.read_iff (f.lawful.sound there).1, alike, settled]

theorem Layout.bound (l : Layout α) (display : F64 → List Char)
    (readFraction : List Char → Option F64) : Bound display readFraction l := by
  have written (a : α) : Distinct (l.form.write a) ∧ Integers (l.form.write a) :=
    ⟨l.form.distinct_write a, l.form.integers_write a⟩
  constructor
  case taken =>
    intro v valid
    obtain ⟨a, read, settled⟩ := l.form.read_valid valid
    refine ⟨a, _, read, canonical_eq display (l.form.lawful.sound valid).2, ?_⟩
    rw [canonical_eq display (l.form.integers_write a), ← settled, l.form.lawful.arranged valid]
  case alike =>
    intro v w valid distinct integers same
    exact read_steady l.form valid
      (arranged_of_canonical (l.form.lawful.sound valid) ⟨distinct, integers⟩ same)
  case exactly => exact fun _ _ distinct => l.form.lawful.read_iff distinct
  case closed =>
    intro ms a distinct read
    exact l.closed ((Json.everywhere_object.mp distinct).1 ms rfl) read
  case back =>
    intro a
    obtain ⟨text, w, there, parsed, _, same, ordered⟩ :=
      (canonical_binds display readFraction).1 ⟨_, (written a).1, (written a).2⟩
    refine ⟨text, w, there, parsed, ?_⟩
    have arranged := (same_iff (written a).1 ordered.distinct).mp same
    rw [read_steady l.form (l.form.lawful.valid_write a) arranged, l.form.read_write]
  case apart =>
    intro a b same
    have arranged := arranged_of_canonical (written b) (written a) same
    have read := read_steady l.form (l.form.lawful.valid_write b) arranged
    rw [l.form.read_write, l.form.read_write] at read
    exact Option.some.inj read

/-- Of every kind, what is read of a document is what its digest is of. -/
theorem documents_bound (display : F64 → List Char) (readFraction : List Char → Option F64)
    (k : Kind) : Bound display readFraction k.layout := k.layout.bound display readFraction

/-- A record is read from an array as well, and a word from an object. -/
example : (scope.form.read (.array [.string "acme", .string "web"])).isSome = true ∧
    (actionKind.read (.object [("stop", .null)])).isSome = true := by decide

end Kinds
end Platform
end Metralectl
