import Metralectl.Core.Net
import Metralectl.Recipe.RecipeFile
import Metralectl.Translate.Host

/-!
The translation of a recipe into the `docker run` it implies. Every fact about the
host, the placement and the launch's posture is an argument, so the same inputs
give the same command.
-/
namespace Metralectl
namespace Translate
open SortedMaps Rendering Docker

/-- Which node of a launch the command is for. -/
inductive Placement where
  | solo
  | rank (rank worldSize : Nat) (masterAddr : String) (masterPort : Nat)
deriving DecidableEq

/-- The placement as far as a container's name tells. -/
def Placement.named : Placement → Docker.Placement
  | .solo => .solo
  | .rank n _ _ _ => .rank n

/-- How the accelerator is exposed, by vendor. -/
inductive DeviceProfile where
  | nvidia
  | amd
deriving DecidableEq

def DeviceProfile.dockerFlags : DeviceProfile → List String
  | .nvidia => ["--gpus", "all"]
  | .amd => ["--device", "/dev/kfd", "--device", "/dev/dri", "--group-add", "video"]

/-- What ranks need to find and talk to each other, by fabric. -/
inductive CollectiveEnv where
  | ncclRoce
  | noCollectiveEnv
deriving DecidableEq

/-- NCCL over RoCE. Two entries are empty on purpose: they clear what is inherited. -/
def ncclRoceEnv : List (String × String) :=
  [("NCCL_IB_GID_INDEX", ""), ("NCCL_CROSS_NIC", ""), ("NCCL_DEBUG", "INFO"),
    ("NCCL_IB_DISABLE", "0"), ("NCCL_IB_ROCE_VERSION_NUM", "2"),
    ("NCCL_IB_ADDR_FAMILY", "AF_INET"), ("NCCL_IB_TIMEOUT", "22"), ("NCCL_IB_RETRY_CNT", "7"),
    ("NCCL_NET_GDR_LEVEL", "0"), ("NCCL_DMABUF_ENABLE", "0"), ("NCCL_NVLS_ENABLE", "0"),
    ("NCCL_CUMEM_HOST_ENABLE", "0"), ("NCCL_PROTO", "Simple"), ("NCCL_ALGO", "Ring"),
    ("NCCL_BUFFSIZE", "33554432"), ("NCCL_MIN_NCHANNELS", "1"), ("NCCL_MAX_NCHANNELS", "2")]

def CollectiveEnv.clusterEnv : CollectiveEnv → Env
  | .ncclRoce => .ofList ncclRoceEnv
  | .noCollectiveEnv => .empty

/-- The vendor-neutral container posture a launch runs under. -/
structure LaunchProfile where
  ipc : String
  network : String
  shmSize : String
  privileged : Bool
  securityOpts : List String
  capAdd : List String
  ulimits : List String
  devices : List String
  entrypoint : Option String
deriving DecidableEq

def rootlessV1 : LaunchProfile where
  ipc := "host"
  network := "host"
  shmSize := "32gb"
  privileged := false
  securityOpts := ["no-new-privileges", "seccomp=unconfined"]
  capAdd := ["IPC_LOCK", "SYS_NICE"]
  ulimits := ["memlock=-1:-1", "stack=67108864"]
  devices := ["/dev/infiniband"]
  entrypoint := some ""

/-- The injected policy a launch runs under. -/
structure LaunchContext where
  profile : LaunchProfile
  devices : DeviceProfile
  collective : CollectiveEnv
deriving DecidableEq

/-- A `docker run`, as structure rather than text. -/
structure DockerRun where
  detach : Bool
  entrypoint : Option String
  privileged : Bool
  deviceFlags : List String
  ipc : String
  shmSize : String
  network : String
  user : Option PosixUser
  securityOpts : List String
  capAdd : List String
  ulimits : List String
  devices : List String
  memory : Option String
  labels : List (String × String)
  autoRemove : Bool
  restart : Option String
  name : String
  env : Env
  volumes : SortedMap String String
  image : String
  command : List String
deriving DecidableEq

namespace DockerRun

/-- One `-e` argument for each variable, in the order of the variables. -/
def envArgs (d : DockerRun) : List String := d.env.entries.map fun e => s!"{e.1}={e.2}"

def option (flag : String) (values : List String) : List String :=
  values.flatMap fun v => [flag, v]

/-- The argv, executed directly: there is no shell in this path. -/
def toArgv (d : DockerRun) : List String :=
  ["docker", "run"] ++ (if d.detach then ["-d"] else []) ++
    option "--entrypoint" d.entrypoint.toList ++ (if d.privileged then ["--privileged"] else []) ++
    d.deviceFlags ++ [s!"--ipc={d.ipc}", s!"--shm-size={d.shmSize}", s!"--network={d.network}"] ++
    (match d.user with
      | some u => ["--user", s!"{u.uid}:{u.gid}", "-v", "/etc/passwd:/etc/passwd:ro", "-v",
          "/etc/group:/etc/group:ro"]
      | none => []) ++
    option "--security-opt" d.securityOpts ++ d.capAdd.map (fun c => s!"--cap-add={c}") ++
    option "--ulimit" d.ulimits ++ option "--device" d.devices ++
    d.memory.toList.map (fun m => s!"--memory={m}") ++
    option "--label" (d.labels.map fun l => s!"{l.1}={l.2}") ++
    (if d.autoRemove then ["--rm"] else []) ++ option "--restart" d.restart.toList ++
    ["--name", d.name] ++ option "-e" d.envArgs ++
    option "-v" (d.volumes.entries.map fun v => s!"{v.1}:{v.2}") ++ [d.image] ++ d.command

/-- What a launch and whoever looks at it later read of the command. -/
def launched (d : DockerRun) : DockerCommand :=
  ⟨d.name, d.image, d.command, d.env.entries, d.labels⟩

end DockerRun

/-- A translated launch: the command, and everything worth telling the user. -/
structure LaunchPlan where
  docker : DockerRun
  unmapped : List UnmappedKey
  unknownKeys : List String
deriving DecidableEq

/-- Where the model cache is mounted inside the container. -/
def containerHfHome : String := "/cache/huggingface"

/-- Host variables a recipe's `$VAR` may read. -/
def passthroughEnv : List String :=
  ["HTTP_PROXY", "HTTPS_PROXY", "NO_PROXY", "http_proxy", "https_proxy", "no_proxy"]

/-- Expand `$VAR` against the passthrough list only; any other name reads as unset. -/
def expandAllowed (std : StdText) (host : HostSnapshot) (raw : String) : String :=
  let allowed := { host with env := host.env.keep fun k => passthroughEnv.contains k }
  allowed.expand std raw

/-- The launcher's own variables, and a cluster's fabric block over them. -/
def standardEnv (placement : Placement) (collective : CollectiveEnv) : Env :=
  let base : Env := .ofList
    [("HF_HUB_OFFLINE", "1"), ("TRANSFORMERS_OFFLINE", "1"), ("HF_HOME", containerHfHome)]
  match placement with
  | .rank _ _ _ _ => base.extend collective.clusterEnv.entries
  | .solo => base

/-- The recipe's variables over the standard ones. The first that would decide
whether the launch may reach the network is refused. -/
def buildEnv (std : StdText) (recipe : ParsedRecipe) (host : HostSnapshot)
    (placement : Placement) (collective : CollectiveEnv) : Except TranslateError Env :=
  match recipe.env.entries.find? fun e => egressEnv.contains e.1 with
  | some (key, _) => .error (.egressOverride recipe.name key)
  | none =>
      .ok ((standardEnv placement collective).extend
        (recipe.env.map (expandAllowed std host)).entries)

def checkNodes (recipe : ParsedRecipe) (placement : Placement) : Except TranslateError Unit :=
  let supplied := match placement with
    | .solo => 1
    | .rank _ worldSize _ _ => worldSize
  let required := recipe.topology.minNodes
  if supplied < required then .error (.nodeCountMismatch recipe.name required supplied)
  else .ok ()

/-- What a rank adds to its flags. The rendezvous address is parsed, not trusted. -/
def rankFlags (recipe : ParsedRecipe) : Placement → Except TranslateError (List String)
  | .solo => .ok []
  | .rank rank worldSize masterAddr masterPort =>
      if (Net.parseIp masterAddr).isNone then
        .error (.badRendezvousAddress recipe.name masterAddr)
      else
        .ok ((if 0 < rank then ["--port", "0"] else []) ++
          ["--rank", toString rank, "--world-size", toString worldSize, "--master-addr",
            masterAddr, "--master-port", toString masterPort])

/-- A worker rank serves no API, so its port is forced rather than resolved. -/
def skippedKeys : Placement → List String
  | .rank (_ + 1) _ _ _ => ["port"]
  | .rank 0 _ _ _ | .solo => []

/-- The command itself, when nothing refuses it. -/
def dockerRun (recipe : ParsedRecipe) (host : HostSnapshot) (placement : Placement)
    (ctx : LaunchContext) (serveFlags : List String) (env : Env) : DockerRun where
  detach := true
  entrypoint := ctx.profile.entrypoint
  privileged := ctx.profile.privileged
  deviceFlags := ctx.devices.dockerFlags
  ipc := ctx.profile.ipc
  shmSize := ctx.profile.shmSize
  network := ctx.profile.network
  user := host.posixUser
  securityOpts := ctx.profile.securityOpts
  capAdd := ctx.profile.capAdd
  ulimits := ctx.profile.ulimits
  devices := ctx.profile.devices
  memory := none
  labels := [(labelManaged, "1"), (labelRecipe, recipe.name)]
  autoRemove := true
  restart := none
  name := containerName recipe.name placement.named
  env := env
  volumes := SortedMap.empty.insert host.hfCacheDir containerHfHome
  image := recipe.container
  command := ["met", "serve", recipe.model] ++ serveFlags

/-- Turn a recipe and its context into the command it implies. -/
def translate (std : StdText) (recipe : ParsedRecipe) (overrides userConfig : Config)
    (host : HostSnapshot) (placement : Placement) (ctx : LaunchContext) :
    Except TranslateError LaunchPlan :=
  match recipe.launchable with
  | .error source => .error (.notLaunchable recipe.name source)
  | .ok () => do
      checkNodes recipe placement
      let resolved := resolve recipe.defaults userConfig overrides
      match validateNoAliasConflict resolved with
      | .error source => .error (.aliasConflict recipe.name source)
      | .ok () =>
          let (serveFlags, unmapped) := renderFlags std resolved (skippedKeys placement)
          let rank ← rankFlags recipe placement
          let env ← buildEnv std recipe host placement ctx.collective
          return ⟨dockerRun recipe host placement ctx (serveFlags ++ rank) env, unmapped,
            recipe.unknownKeys⟩

/-- What a translation that succeeds has passed, and what it gives. -/
structure Translated (std : StdText) (recipe : ParsedRecipe) (overrides userConfig : Config)
    (host : HostSnapshot) (placement : Placement) (ctx : LaunchContext) (plan : LaunchPlan) :
    Prop where
  launchable : recipe.launchable = .ok ()
  enough : checkNodes recipe placement = .ok ()
  unaliased : validateNoAliasConflict (resolve recipe.defaults userConfig overrides) = .ok ()
  built : ∃ rank env, rankFlags recipe placement = .ok rank ∧
    buildEnv std recipe host placement ctx.collective = .ok env ∧
    plan.docker = dockerRun recipe host placement ctx
      ((renderFlags std (resolve recipe.defaults userConfig overrides)
        (skippedKeys placement)).1 ++ rank) env

section Translating
variable {std : StdText} {recipe : ParsedRecipe} {overrides userConfig : Config}
  {host : HostSnapshot} {placement : Placement} {ctx : LaunchContext} {plan : LaunchPlan}

theorem translate_ok
    (h : translate std recipe overrides userConfig host placement ctx = .ok plan) :
    Translated std recipe overrides userConfig host placement ctx plan := by
  unfold translate at h
  split at h
  · cases h
  · next able =>
      cases nodes : checkNodes recipe placement with
      | error e =>
          rw [nodes] at h
          cases h
      | ok _ =>
          simp only [nodes, bind, Except.bind] at h
          split at h
          · cases h
          · next unaliased =>
              cases ranks : rankFlags recipe placement with
              | error e =>
                  simp only [ranks, reduceCtorEq] at h
              | ok rank =>
                  simp only [ranks] at h
                  cases built : buildEnv std recipe host placement ctx.collective with
                  | error e => simp only [built, reduceCtorEq] at h
                  | ok env =>
                      simp only [built, pure, Except.pure, Except.ok.injEq] at h
                      cases h
                      exact ⟨able, nodes, unaliased, rank, env, ranks, built, rfl⟩

end Translating

end Translate
end Metralectl
