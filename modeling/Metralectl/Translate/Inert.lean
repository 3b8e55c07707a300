import Metralectl.Library.Options
import Metralectl.Translate.Rendered

/-!
Where the text of a recipe ends up: the words of the `docker run` with what each is made of, and
what docker, and the engine behind it, take each word for. A recipe's words are values of options,
the image and the model, as long as none of its settings is written with a dash in front.
-/
namespace Metralectl
open SortedMaps

/-- What a recipe's field is, if it was not refused: no word that begins with a dash. -/
theorem flagShaped_ok {name field value : String} (h : flagShaped name field value = .ok ()) :
    Options.dashed value = false := by
  unfold flagShaped at h
  split at h
  · cases h
  · next plain =>
      simp only [Options.dashed, decide_eq_false_iff_not]
      intro dash
      obtain ⟨rest, written⟩ : ∃ rest, value.toList = '-' :: rest :=
        List.head?_eq_some_iff.mp dash
      rw [written] at plain
      exact plain rfl

/-- What is served and where begins with no dash. -/
theorem ParsedRecipe.parse_plain {yaml : String → Except String RawRecipe} {name text : String}
    {recipe : ParsedRecipe} (h : parse yaml name text = .ok recipe) :
    Options.dashed recipe.model = false ∧ Options.dashed recipe.container = false := by
  unfold parse at h
  split at h
  · cases h
  · next raw _ =>
      unfold ofRaw at h
      split at h
      · cases h
      · next model _ =>
          cases plain : flagShaped name "model" model with
          | error e =>
              rw [plain] at h
              cases h
          | ok _ =>
              rw [plain] at h
              simp only [bind, Except.bind] at h
              split at h
              · cases h
              · next container _ =>
                  cases bare : flagShaped name "container" container with
                  | error e =>
                      rw [bare] at h
                      cases h
                  | ok _ =>
                      rw [bare] at h
                      simp only [pure, Except.pure, Except.ok.injEq] at h
                      cases h
                      exact ⟨flagShaped_ok plain, flagShaped_ok bare⟩

namespace Translate
open Rendering Docker Options

/-- What the text of a word is taken from. -/
inductive Source where
  /-- The launcher, the host, the placement, the user's configuration or an override. -/
  | own
  | name
  | model
  | container
  | variable (key : String)
  | setting (key : String)
deriving DecidableEq

structure Word where
  text : String
  source : Source
deriving DecidableEq

def Word.ownText (text : String) : Word := ⟨text, .own⟩

/-- Whether the word carries text of the recipe. -/
def Word.ofRecipe (w : Word) : Bool := w.source ≠ .own

section Settings
variable (defaults userConfig overrides : Config)

/-- The key a resolved key is read under: an alias stands in for a key that is not given. -/
def spelling (key : String) : String :=
  let merged := (defaults.extend userConfig.entries).extend overrides.entries
  if key = "api_key" ∧ merged.get? "api_key" = none then "auth_token" else key

/-- Whether only the recipe says the key. -/
def onlyDefault (key : String) : Bool :=
  let spelled := spelling defaults userConfig overrides key
  (userConfig.get? spelled).isNone && (overrides.get? spelled).isNone

/-- The recipe's own value of a key, unless it is overridden. -/
def recipeSetting (key : String) : Option SettingValue :=
  if onlyDefault defaults userConfig overrides key then
    defaults.get? (spelling defaults userConfig overrides key)
  else none

def settingSource (key : String) : Source :=
  if onlyDefault defaults userConfig overrides key then .setting key else .own

end Settings

section Words
variable (std : StdText) (recipe : ParsedRecipe) (overrides userConfig : Config)
  (host : HostSnapshot) (placement : Placement) (ctx : LaunchContext) (env : Env)

/-- The words of one flag of the table. -/
def flagWords (flag : Flag) : List Word :=
  (piece std (resolve recipe.defaults userConfig overrides) (skippedKeys placement)
    flag).toList.flatMap fun g =>
      .ownText g.flag :: g.value.toList.map
        (⟨·, settingSource recipe.defaults userConfig overrides flag.key⟩)

/-- The serve command. -/
def serveWords : List Word :=
  [Word.ownText "met", Word.ownText "serve", ⟨recipe.model, .model⟩] ++
    metraleFlags.flatMap (flagWords std recipe overrides userConfig placement) ++
    ((givenByPlacement placement).flatMap Given.words).map .ownText

/-- How the container is started and what it reaches: the posture and the host. -/
def postureArgs : List String :=
  DockerRun.option "--entrypoint" ctx.profile.entrypoint.toList ++
    (if ctx.profile.privileged then ["--privileged"] else []) ++ ctx.devices.dockerFlags ++
    [s!"--ipc={ctx.profile.ipc}", s!"--shm-size={ctx.profile.shmSize}",
      s!"--network={ctx.profile.network}"] ++
    (match host.posixUser with
      | some u => ["--user", s!"{u.uid}:{u.gid}", "-v", "/etc/passwd:/etc/passwd:ro", "-v",
          "/etc/group:/etc/group:ro"]
      | none => []) ++
    DockerRun.option "--security-opt" ctx.profile.securityOpts ++
    ctx.profile.capAdd.map (fun c => s!"--cap-add={c}") ++
    DockerRun.option "--ulimit" ctx.profile.ulimits ++
    DockerRun.option "--device" ctx.profile.devices

/-- The container's labels and its name. -/
def nameWords : List Word :=
  [.ownText "--label", .ownText s!"{labelManaged}=1", .ownText "--label",
    ⟨s!"{labelRecipe}={recipe.name}", .name⟩, .ownText "--rm", .ownText "--name",
    ⟨containerName recipe.name placement.named, .name⟩]

def variableWords (e : String × String) : List Word :=
  [.ownText "-e",
    ⟨s!"{e.1}={e.2}", if (recipe.env.get? e.1).isSome then .variable e.1 else .own⟩]

/-- What stands between `docker run` and the image. -/
def optionWords : List Word :=
  Word.ownText "-d" :: (postureArgs host ctx).map .ownText ++ nameWords recipe placement ++
    env.entries.flatMap (variableWords recipe) ++
    [Word.ownText "-v", Word.ownText s!"{host.hfCacheDir}:{containerHfHome}"]

def argvWords : List Word :=
  [Word.ownText "docker", Word.ownText "run"] ++ optionWords recipe host placement ctx env ++
    ⟨recipe.container, .container⟩ :: serveWords std recipe overrides userConfig placement

end Words

/-- The options of `docker run` that take the next word. -/
def dockerTakes : List String :=
  ["-e", "--label", "--name", "-v", "--user", "--entrypoint", "--gpus", "--device", "--group-add",
    "--security-opt", "--ulimit", "--restart"]

/-- How docker reads its command line: a value is what follows, and the image ends the options. -/
def dockerGrammar : Grammar := ⟨dockerTakes.contains, true, true⟩

def placementFlags : List String := ["--rank", "--world-size", "--master-addr", "--master-port"]

/-- How the engine reads its own: no value begins with a dash. -/
def engineGrammar : Grammar where
  takes word := metraleFlags.any (fun flag => flag.flag = word && flag.kind = .value) ||
    placementFlags.contains word
  bold := false
  ends := false

section Reading
variable (argv : List Word)

/-- What docker takes the words behind `docker run` for. -/
def dockerReads : List (Word × Role) := dockerGrammar.read Word.text .ready (argv.drop 2)

/-- What docker hands to the container. -/
def handed : List Word := ((dockerReads argv).filter (·.2 = .past)).map (·.1)

/-- What the engine takes the words behind `met serve` for. -/
def engineReads : List (Word × Role) :=
  engineGrammar.read Word.text .ready ((handed argv).drop 2)

/-- The text of a recipe never becomes an option. -/
structure Inert (recipe : ParsedRecipe) : Prop where
  option : ∀ e ∈ dockerReads argv, e.1.ofRecipe = true → e.2 ≠ .option
  image : ((dockerReads argv).filter (·.2 = .free)).map (·.1.text) = [recipe.container]
  plain : ∀ w ∈ handed argv, w.ofRecipe = true → dashed w.text = false
  setting : ∀ e ∈ engineReads argv, ∀ key, e.1.source = .setting key →
    ∃ flag ∈ metraleFlags, flag.key = key ∧ e.2 = .value flag.flag
  model : ((engineReads argv).filter (·.2 = .free)).map (·.1.text) = [recipe.model]

end Reading

/-- No setting that only the recipe says is written with a dash in front. -/
def Undashed (std : StdText) (recipe : ParsedRecipe) (overrides userConfig : Config)
    (placement : Placement) : Prop :=
  ∀ flag ∈ metraleFlags, flag.kind = .value → flag.key ∉ skippedKeys placement →
    ∀ v, recipeSetting recipe.defaults userConfig overrides flag.key = some v →
      dashed (renderScalar std v) = false

section Sources
variable {defaults userConfig overrides : Config} {key : String}

theorem get?_spelled (canonical : key ≠ "auth_token") :
    (resolve defaults userConfig overrides).get? key =
      ((defaults.extend userConfig.entries).extend overrides.entries).get?
        (spelling defaults userConfig overrides key) := by
  unfold resolve normalize spelling
  dsimp only
  generalize (defaults.extend userConfig.entries).extend overrides.entries = merged
  cases spare : merged.get? "auth_token" with
  | none =>
      dsimp only
      by_cases given : key = "api_key" ∧ merged.get? "api_key" = none
      · rw [if_pos given, given.1, given.2, spare]
      · rw [if_neg given]
  | some value =>
      have canon : (merged.remove "auth_token").get? "api_key" = merged.get? "api_key" := by
        rw [SortedMap.get?_remove, if_neg (by decide)]
      dsimp only
      rw [canon]
      cases given : merged.get? "api_key" with
      | some first =>
          rw [Option.isSome_some, if_pos rfl, SortedMap.get?_remove, if_neg canonical,
            if_neg (fun both => nomatch both.2)]
      | none =>
          rw [Option.isSome_none, if_neg (Bool.false_ne_true), SortedMap.get?_insert]
          by_cases same : key = "api_key"
          · rw [if_pos same, if_pos ⟨same, rfl⟩, spare]
          · rw [if_neg same, if_neg (fun both => same both.1), SortedMap.get?_remove,
              if_neg canonical]

/-- A resolved value is the recipe's where only the recipe says it; else the override's or the
user's. -/
theorem get?_source (canonical : key ≠ "auth_token") :
    (resolve defaults userConfig overrides).get? key =
      if onlyDefault defaults userConfig overrides key then
        recipeSetting defaults userConfig overrides key
      else (overrides.get? (spelling defaults userConfig overrides key)).or
        (userConfig.get? (spelling defaults userConfig overrides key)) := by
  rw [get?_spelled canonical, SortedMap.get?_extend, SortedMap.get?_extend]
  generalize under : spelling defaults userConfig overrides key = spelled
  by_cases only : onlyDefault defaults userConfig overrides key = true
  · obtain ⟨unset, unasked⟩ : userConfig.get? spelled = none ∧
        overrides.get? spelled = none := by
      simpa [onlyDefault, under] using only
    rw [if_pos only, recipeSetting, if_pos only, unset, unasked, under]
    rfl
  · rw [if_neg only]
    cases asked : overrides.get? spelled with
    | some v => rfl
    | none =>
        cases set : userConfig.get? spelled with
        | some v => rfl
        | none => exact absurd (by simp [onlyDefault, under, asked, set]) only

theorem metraleFlags_canonical {flag : Flag} (listed : flag ∈ metraleFlags) :
    flag.key ≠ "auth_token" := by
  have all : metraleFlags.all (fun flag => flag.key ≠ "auth_token") = true := by decide +kernel
  exact of_decide_eq_true (List.all_eq_true.mp all flag listed)

end Sources

section Texts
variable {std : StdText} {recipe : ParsedRecipe} {overrides userConfig : Config}
  {host : HostSnapshot} {placement : Placement} {ctx : LaunchContext} {env : Env}

theorem ownText_texts (texts : List String) :
    (texts.map Word.ownText).map Word.text = texts := by
  rw [List.map_map]
  exact List.map_id texts

theorem flagWords_texts (flag : Flag) :
    (flagWords std recipe overrides userConfig placement flag).map Word.text =
      (piece std (resolve recipe.defaults userConfig overrides) (skippedKeys placement)
        flag).toList.flatMap Given.words := by
  rw [flagWords, List.map_flatMap]
  congr 1
  funext g
  rw [List.map_cons, List.map_map]
  exact congrArg _ (List.map_id _)

theorem serveWords_texts {rank : List String} (ranks : rankFlags recipe placement = .ok rank) :
    (serveWords std recipe overrides userConfig placement).map Word.text =
      ["met", "serve", recipe.model] ++
        ((renderFlags std (resolve recipe.defaults userConfig overrides)
          (skippedKeys placement)).1 ++ rank) := by
  have flags : (metraleFlags.flatMap (flagWords std recipe overrides userConfig placement)).map
      Word.text = (renderFlags std (resolve recipe.defaults userConfig overrides)
        (skippedKeys placement)).1 := by
    rw [words_givenFlags, givenFlags, List.filterMap_eq_flatMap_toList, List.flatMap_assoc,
      List.map_flatMap]
    congr 1
    funext flag
    exact flagWords_texts flag
  rw [serveWords, List.map_append, List.map_append, flags, ownText_texts, ← words_placement ranks,
    List.append_assoc]
  rfl

theorem variableWords_texts (entries : List (String × String)) :
    (entries.flatMap (variableWords recipe)).map Word.text =
      DockerRun.option "-e" (entries.map fun e => s!"{e.1}={e.2}") := by
  induction entries with
  | nil => rfl
  | cons e entries ih =>
      rw [List.flatMap_cons, List.map_append, ih]
      rfl

/-- The words are those docker is called with. -/
theorem argvWords_texts {rank : List String} (ranks : rankFlags recipe placement = .ok rank) :
    (argvWords std recipe overrides userConfig host placement ctx env).map Word.text =
      (dockerRun recipe host placement ctx
        ((renderFlags std (resolve recipe.defaults userConfig overrides)
          (skippedKeys placement)).1 ++ rank) env).toArgv := by
  have volumes : (SortedMap.empty.insert host.hfCacheDir containerHfHome).entries =
      [(host.hfCacheDir, containerHfHome)] := rfl
  have postures := ownText_texts (postureArgs host ctx)
  rw [argvWords, List.map_append, List.map_cons, serveWords_texts ranks]
  generalize (renderFlags std (resolve recipe.defaults userConfig overrides)
    (skippedKeys placement)).1 ++ rank = serve
  have words : (optionWords recipe host placement ctx env).map Word.text =
      "-d" :: postureArgs host ctx ++ (nameWords recipe placement).map Word.text ++
        DockerRun.option "-e" (env.entries.map fun e => s!"{e.1}={e.2}") ++
        ["-v", s!"{host.hfCacheDir}:{containerHfHome}"] := by
    rw [optionWords, List.map_append, List.map_append, List.map_append, List.map_cons, postures,
      variableWords_texts]
    rfl
  rw [List.map_append, words]
  unfold DockerRun.toArgv
  dsimp only [dockerRun]
  rw [DockerRun.envArgs, volumes, postureArgs]
  simp only [List.append_assoc, List.cons_append, if_true]
  cases host.posixUser <;> rfl

end Texts

section Options
variable {recipe : ParsedRecipe} {host : HostSnapshot} {placement : Placement}
  {ctx : LaunchContext} {env : Env}

/-- The word is an option of the launcher's, or the value of one. -/
def InPlace (e : Word × Role) : Prop :=
  (e.1.ofRecipe = true → e.2 ≠ .option) ∧ e.2 ≠ .free ∧ e.2 ≠ .past

def Placed (e : String × Role) : Prop := e.2 ≠ .free ∧ e.2 ≠ .past

theorem each_own {texts : List String} (each : dockerGrammar.Each id texts Placed) :
    dockerGrammar.Each Word.text (texts.map .ownText) InPlace :=
  Grammar.Each.map each fun _ _ placed => ⟨nofun, placed⟩

theorem each_option (flag : String) (dash : dashed flag = true)
    (takes : dockerTakes.contains flag = true) (values : List String) :
    dockerGrammar.Each id (DockerRun.option flag values) Placed :=
  Grammar.each_flatMap fun _ _ =>
    Grammar.each_value dash takes (.inl rfl) ⟨nofun, nofun⟩ ⟨nofun, nofun⟩

/-- An option with its value in one word takes no other. -/
theorem each_joined (flag : String) (dash : dashed flag = true)
    (joined : flag.toList.contains '=' = true) (value : String) :
    dockerGrammar.Each id [flag ++ value] Placed := by
  have apart : dockerTakes.all (fun taker => !taker.toList.contains '=') = true := by
    decide +kernel
  refine Grammar.each_bare ?_ ?_ ⟨nofun, nofun⟩
  · obtain ⟨rest, written⟩ := List.head?_eq_some_iff.mp (of_decide_eq_true dash)
    simp [dashed, String.toList_append, written]
  · apply Bool.eq_false_iff.mpr
    intro taker
    have none_ := List.all_eq_true.mp apart _ (List.contains_iff_mem.mp taker)
    rw [id, String.toList_append, List.contains_eq_mem, decide_eq_true
      (List.mem_append_left _ (List.contains_iff_mem.mp joined))] at none_
    cases none_

theorem each_devices (devices : DeviceProfile) :
    dockerGrammar.Each id devices.dockerFlags Placed := by
  cases devices with
  | nvidia => exact each_option "--gpus" rfl (by decide) ["all"]
  | amd =>
      exact (each_option "--device" rfl (by decide) ["/dev/kfd", "/dev/dri"]).append
        (each_option "--group-add" rfl (by decide) ["video"])

theorem each_posture : dockerGrammar.Each id (postureArgs host ctx) Placed := by
  have privileged : dockerGrammar.Each id
      (if ctx.profile.privileged then ["--privileged"] else []) Placed := by
    split
    · exact Grammar.each_bare rfl (by decide) ⟨nofun, nofun⟩
    · exact Grammar.each_nil
  have reached := ((each_joined "--ipc=" rfl rfl ctx.profile.ipc).append
    (each_joined "--shm-size=" rfl rfl ctx.profile.shmSize)).append
    (each_joined "--network=" rfl rfl ctx.profile.network)
  have user : dockerGrammar.Each id (match host.posixUser with
      | some u => ["--user", s!"{u.uid}:{u.gid}", "-v", "/etc/passwd:/etc/passwd:ro", "-v",
          "/etc/group:/etc/group:ro"]
      | none => []) Placed := by
    split
    · exact (each_option "--user" rfl (by decide) [_]).append
        (each_option "-v" rfl (by decide) [_, _])
    · exact Grammar.each_nil
  have caps : dockerGrammar.Each id (ctx.profile.capAdd.map fun c => s!"--cap-add={c}")
      Placed := by
    rw [List.map_eq_flatMap]
    exact Grammar.each_flatMap fun c _ => each_joined "--cap-add=" rfl rfl c
  have entry := each_option "--entrypoint" rfl (by decide) ctx.profile.entrypoint.toList
  have security := each_option "--security-opt" rfl (by decide) ctx.profile.securityOpts
  have limits := each_option "--ulimit" rfl (by decide) ctx.profile.ulimits
  have devices := each_option "--device" rfl (by decide) ctx.profile.devices
  exact entry.append privileged |>.append (each_devices ctx.devices) |>.append reached
    |>.append user |>.append security |>.append caps |>.append limits |>.append devices

/-- Before the image docker meets its options and their values only, and the recipe's words are
among the values. -/
theorem each_optionWords :
    dockerGrammar.Each Word.text (optionWords recipe host placement ctx env) InPlace := by
  have valued (flag : String) (w : Word) (dash : dashed flag = true)
      (takes : dockerTakes.contains flag = true) :
      dockerGrammar.Each Word.text [.ownText flag, w] InPlace :=
    Grammar.each_value dash takes (.inl rfl) ⟨nofun, nofun, nofun⟩
      ⟨fun _ => nofun, nofun, nofun⟩
  have detached : dockerGrammar.Each Word.text [.ownText "-d"] InPlace :=
    Grammar.each_bare rfl (by decide) ⟨nofun, nofun, nofun⟩
  have removed : dockerGrammar.Each Word.text [.ownText "--rm"] InPlace :=
    Grammar.each_bare rfl (by decide) ⟨nofun, nofun, nofun⟩
  have names : dockerGrammar.Each Word.text (nameWords recipe placement) InPlace :=
    ((valued "--label" _ rfl (by decide)).append (valued "--label" _ rfl (by decide))).append
      (removed.append (valued "--name" _ rfl (by decide)))
  have sent : dockerGrammar.Each Word.text (env.entries.flatMap (variableWords recipe)) InPlace :=
    Grammar.each_flatMap fun _ _ => valued "-e" _ rfl (by decide)
  exact (((detached.append (each_own each_posture)).append names).append sent).append
    (valued "-v" _ rfl (by decide))

end Options

section Served
variable {std : StdText} {recipe : ParsedRecipe} {overrides userConfig : Config}
  {placement : Placement} {flag : Flag} {w : Word}

/-- What a flag of the table is given as: not at all, bare, or with its value. -/
theorem flagWords_cases :
    flagWords std recipe overrides userConfig placement flag = [] ∨
    (flag.kind = .boolToggle ∧
      flagWords std recipe overrides userConfig placement flag = [.ownText flag.flag]) ∨
    (flag.kind = .value ∧ flag.key ∉ skippedKeys placement ∧
      ∃ v, (resolve recipe.defaults userConfig overrides).get? flag.key = some v ∧
        flagWords std recipe overrides userConfig placement flag =
          [.ownText flag.flag, ⟨renderScalar std v,
            settingSource recipe.defaults userConfig overrides flag.key⟩]) := by
  unfold flagWords
  cases made : piece std (resolve recipe.defaults userConfig overrides) (skippedKeys placement)
      flag with
  | none => exact .inl rfl
  | some g =>
      obtain ⟨here, v, set, made⟩ := piece_some.mp made
      have kept : flag.key ∉ skippedKeys placement := fun skipped => by
        rw [List.contains_iff_mem.mpr skipped] at here
        cases here
      unfold given at made
      split at made
      · next toggle =>
          split at made
          · cases made
            exact .inr (.inl ⟨toggle, rfl⟩)
          · cases made
      · next value =>
          cases made
          exact .inr (.inr ⟨value, kept, v, set, rfl⟩)

theorem flagWords_value (value : flag.kind = .value) (kept : flag.key ∉ skippedKeys placement)
    {v : SettingValue}
    (set : (resolve recipe.defaults userConfig overrides).get? flag.key = some v) :
    flagWords std recipe overrides userConfig placement flag =
      [.ownText flag.flag, ⟨renderScalar std v,
        settingSource recipe.defaults userConfig overrides flag.key⟩] := by
  have here : piece std (resolve recipe.defaults userConfig overrides) (skippedKeys placement)
      flag = some ⟨flag.flag, some (renderScalar std v)⟩ := by
    refine piece_some.mpr ⟨Bool.eq_false_iff.mpr fun skipped =>
      kept (List.contains_iff_mem.mp skipped), v, set, ?_⟩
    rw [given, value]
  rw [flagWords, here]
  rfl

/-- The recipe's words in the serve command: the model, and its settings as they are written. -/
theorem mem_serveWords (ofRecipe : w.ofRecipe = true) :
    w ∈ serveWords std recipe overrides userConfig placement ↔
      w = ⟨recipe.model, .model⟩ ∨ ∃ flag ∈ metraleFlags, flag.kind = .value ∧
        flag.key ∉ skippedKeys placement ∧ ∃ v,
          recipeSetting recipe.defaults userConfig overrides flag.key = some v ∧
            w = ⟨renderScalar std v, .setting flag.key⟩ := by
  have notOwn (text : String) : w ≠ .ownText text := by
    rintro rfl
    cases ofRecipe
  have notPlaced : w ∉ ((givenByPlacement placement).flatMap Given.words).map .ownText := by
    intro placed
    obtain ⟨text, _, same⟩ := List.mem_map.mp placed
    exact notOwn text same.symm
  rw [serveWords, List.mem_append, List.mem_append, or_iff_left notPlaced, List.mem_cons,
    List.mem_cons, List.mem_singleton, or_iff_right (notOwn _), or_iff_right (notOwn _),
    List.mem_flatMap]
  refine or_congr_right (exists_congr fun flag => and_congr_right fun listed => ?_)
  have source := @get?_source recipe.defaults userConfig overrides flag.key
    (metraleFlags_canonical listed)
  constructor
  · intro there
    obtain none_ | ⟨_, bare⟩ | ⟨value, kept, v, set, both⟩ :=
      @flagWords_cases std recipe overrides userConfig placement flag
    · rw [none_] at there
      cases there
    · rw [bare, List.mem_singleton] at there
      exact absurd there (notOwn _)
    · rw [both, List.mem_cons, List.mem_singleton, or_iff_right (notOwn _)] at there
      unfold settingSource at there
      split at there
      · next only =>
          rw [if_pos only, set] at source
          exact ⟨value, kept, v, source.symm, there⟩
      · exact absurd there (notOwn _)
  · rintro ⟨value, kept, v, said, rfl⟩
    have only : onlyDefault recipe.defaults userConfig overrides flag.key = true := by
      unfold recipeSetting at said
      split at said
      · next only => exact only
      · cases said
    rw [if_pos only, said] at source
    rw [flagWords_value value kept source, settingSource, if_pos only]
    exact List.mem_cons_of_mem _ List.mem_cons_self

/-- What the engine is to take a word behind the model for. -/
def InFlag (e : Word × Role) : Prop :=
  (∀ key, e.1.source = .setting key →
    ∃ flag ∈ metraleFlags, flag.key = key ∧ e.2 = .value flag.flag) ∧ e.2 ≠ .free

theorem engineTakes_flag (listed : flag ∈ metraleFlags) :
    dashed flag.flag = true ∧ engineGrammar.takes flag.flag = (flag.kind = .value : Bool) := by
  have dash : metraleFlags.all (fun flag => dashed flag.flag) = true := by
    simp only [metraleFlags, List.all_cons, List.all_nil, dashed]
    repeat rw [String.toList_ofList]
    decide +kernel
  have takes : metraleFlags.all (fun flag =>
      engineGrammar.takes flag.flag == decide (flag.kind = .value)) = true := by
    decide +kernel
  exact ⟨List.all_eq_true.mp dash flag listed,
    beq_iff_eq.mp (List.all_eq_true.mp takes flag listed)⟩

/-- A flag with a value that is not the recipe's, or begins with no dash. -/
theorem each_given {option : String} (dash : dashed option = true)
    (takes : engineGrammar.takes option = true)
    (plain : w.ofRecipe = true → dashed w.text = false)
    (own : ∀ key, w.source = .setting key →
      ∃ flag ∈ metraleFlags, flag.key = key ∧ Role.value option = .value flag.flag) :
    engineGrammar.Each Word.text [.ownText option, w] InFlag := by
  cases wrong : dashed w.text with
  | false => exact Grammar.each_value dash takes (.inr wrong) ⟨nofun, nofun⟩ ⟨own, nofun⟩
  | true =>
      refine Grammar.each_missed rfl dash wrong ⟨nofun, nofun⟩ ⟨fun key said => ?_, nofun⟩
      have ofRecipe : w.ofRecipe = true := by
        rw [Word.ofRecipe, said]
        rfl
      rw [plain ofRecipe] at wrong
      cases wrong

theorem each_flagWords (listed : flag ∈ metraleFlags)
    (plain : ∀ w ∈ flagWords std recipe overrides userConfig placement flag,
      w.ofRecipe = true → dashed w.text = false) :
    engineGrammar.Each Word.text (flagWords std recipe overrides userConfig placement flag)
      InFlag := by
  obtain ⟨dash, takes⟩ := engineTakes_flag listed
  obtain none_ | ⟨toggle, bare⟩ | ⟨value, _, v, _, both⟩ :=
    @flagWords_cases std recipe overrides userConfig placement flag
  · rw [none_]
    exact Grammar.each_nil
  · rw [toggle] at takes
    rw [bare]
    exact Grammar.each_bare dash takes ⟨nofun, nofun⟩
  · rw [value] at takes
    rw [both] at plain ⊢
    refine each_given dash takes (plain _ (List.mem_cons_of_mem _ List.mem_cons_self)) ?_
    intro key said
    unfold settingSource at said
    split at said
    · cases said
      exact ⟨flag, listed, rfl, rfl⟩
    · cases said

theorem each_placed : engineGrammar.Each Word.text
    (((givenByPlacement placement).flatMap Given.words).map .ownText) InFlag := by
  have one (option value : String) (dash : dashed option = true)
      (takes : engineGrammar.takes option = true) :
      engineGrammar.Each Word.text [.ownText option, .ownText value] InFlag :=
    each_given dash takes nofun nofun
  have own {option : String} (listed : placementFlags.contains option = true) :
      engineGrammar.takes option = true :=
    (Bool.or_eq_true _ _).mpr (.inr listed)
  cases placement with
  | solo => exact Grammar.each_nil
  | rank rank worldSize masterAddr masterPort =>
      have ranked : engineGrammar.Each Word.text ((["--rank", toString rank, "--world-size",
          toString worldSize, "--master-addr", masterAddr, "--master-port",
          toString masterPort]).map .ownText) InFlag :=
        (one "--rank" _ rfl (own (by decide))).append
          ((one "--world-size" _ rfl (own (by decide))).append
            ((one "--master-addr" _ rfl (own (by decide))).append
              (one "--master-port" _ rfl (own (by decide)))))
      rw [givenByPlacement, List.flatMap_append, List.map_append]
      refine Grammar.Each.append ?_ ranked
      split
      · exact one "--port" _ rfl (by decide +kernel)
      · exact Grammar.each_nil

end Served

section Whole
variable {std : StdText} {recipe : ParsedRecipe} {overrides userConfig : Config}
  {host : HostSnapshot} {placement : Placement} {ctx : LaunchContext} {env : Env}

/-- Docker reads the options in place, the container as the image, and hands on the rest. -/
theorem dockerReads_argvWords (bare : dashed recipe.container = false) :
    dockerReads (argvWords std recipe overrides userConfig host placement ctx env) =
      dockerGrammar.read Word.text .ready (optionWords recipe host placement ctx env) ++
        ((⟨recipe.container, .container⟩ : Word), Role.free) ::
          (serveWords std recipe overrides userConfig placement).map (·, Role.past) :=
  Grammar.read_free each_optionWords rfl rfl bare

theorem handed_argvWords (bare : dashed recipe.container = false) :
    handed (argvWords std recipe overrides userConfig host placement ctx env) =
      serveWords std recipe overrides userConfig placement := by
  have before := (@each_optionWords recipe host placement ctx env .ready Grammar.ready_rested).1
  have none_ : (dockerGrammar.read Word.text .ready
      (optionWords recipe host placement ctx env)).filter (·.2 = .past) = [] :=
    List.filter_eq_nil_iff.mpr fun e he past => (before e he).2.2 (of_decide_eq_true past)
  have all : ((serveWords std recipe overrides userConfig placement).map
      (·, Role.past)).filter (·.2 = .past) =
        (serveWords std recipe overrides userConfig placement).map (·, Role.past) := by
    refine List.filter_eq_self.mpr fun e he => ?_
    obtain ⟨w, _, rfl⟩ := List.mem_map.mp he
    rfl
  rw [handed, dockerReads_argvWords bare, List.filter_append, none_,
    List.filter_cons_of_neg (by simp), all, List.nil_append, List.map_map]
  exact List.map_id _

/-- Of the options and the image: no word of the recipe is an option, and its container is the
image. -/
theorem docker_inert (bare : dashed recipe.container = false) :
    (∀ e ∈ dockerReads (argvWords std recipe overrides userConfig host placement ctx env),
      e.1.ofRecipe = true → e.2 ≠ .option) ∧
    ((dockerReads (argvWords std recipe overrides userConfig host placement ctx env)).filter
      (·.2 = .free)).map (·.1.text) = [recipe.container] := by
  have before := (@each_optionWords recipe host placement ctx env .ready Grammar.ready_rested).1
  have none_ : (dockerGrammar.read Word.text .ready
      (optionWords recipe host placement ctx env)).filter (·.2 = .free) = [] :=
    List.filter_eq_nil_iff.mpr fun e he free => (before e he).2.1 (of_decide_eq_true free)
  rw [dockerReads_argvWords bare]
  constructor
  · intro e he
    obtain he | he := List.mem_append.mp he
    · exact (before e he).1
    · obtain rfl | he := List.mem_cons.mp he
      · exact fun _ => nofun
      · obtain ⟨w, _, rfl⟩ := List.mem_map.mp he
        exact fun _ => nofun
  · rw [List.filter_append, none_]
    simp

/-- The engine reads the model as the one free word, and a setting as its flag's value. -/
theorem engine_inert (able : dashed recipe.model = false)
    (bare : dashed recipe.container = false)
    (plain : ∀ w ∈ serveWords std recipe overrides userConfig placement,
      w.ofRecipe = true → dashed w.text = false) :
    ∃ rest : List (Word × Role),
      engineReads (argvWords std recipe overrides userConfig host placement ctx env) =
        (⟨recipe.model, .model⟩, .free) :: rest ∧ ∀ e ∈ rest, InFlag e := by
  have flags : engineGrammar.Each Word.text
      (metraleFlags.flatMap (flagWords std recipe overrides userConfig placement)) InFlag := by
    refine Grammar.each_flatMap fun flag listed => each_flagWords listed fun w hw => plain w ?_
    rw [serveWords, List.mem_append, List.mem_append]
    exact .inl (.inr (List.mem_flatMap.mpr ⟨flag, listed, hw⟩))
  have rest := ((flags.append (@each_placed placement)) .ready Grammar.ready_rested).1
  refine ⟨_, ?_, rest⟩
  rw [engineReads, handed_argvWords bare]
  have behind : (serveWords std recipe overrides userConfig placement).drop 2 =
      ⟨recipe.model, .model⟩ ::
        (metraleFlags.flatMap (flagWords std recipe overrides userConfig placement) ++
          ((givenByPlacement placement).flatMap Given.words).map .ownText) := rfl
  have free : engineGrammar.step .ready recipe.model = (.free, .ready) := by
    rw [Grammar.step, Grammar.fresh, able]
    rfl
  rw [behind, Grammar.read, free]

end Whole

/-- Whatever the file of a recipe says, and whatever it is launched with: its text never becomes
an option if and only if no setting that only the recipe says is written with a dash in front. -/
theorem recipe_inert {yaml : String → Except String RawRecipe} {name text : String}
    {std : StdText} {recipe : ParsedRecipe} {overrides userConfig : Config} {host : HostSnapshot}
    {placement : Placement} {ctx : LaunchContext} {plan : LaunchPlan}
    (parsed : ParsedRecipe.parse yaml name text = .ok recipe)
    (h : translate std recipe overrides userConfig host placement ctx = .ok plan) :
    (argvWords std recipe overrides userConfig host placement ctx plan.docker.env).map
      Word.text = plan.docker.toArgv ∧
    (Inert (argvWords std recipe overrides userConfig host placement ctx plan.docker.env) recipe ↔
      Undashed std recipe overrides userConfig placement) := by
  obtain ⟨able, bare⟩ := ParsedRecipe.parse_plain parsed
  obtain ⟨rank, env, ranks, _, docker⟩ := (translate_ok h).built
  constructor
  · rw [docker]
    exact argvWords_texts ranks
  constructor
  · intro inert flag listed value kept v said
    refine inert.plain ⟨renderScalar std v, .setting flag.key⟩ ?_ rfl
    rw [handed_argvWords bare]
    exact (mem_serveWords rfl).mpr (.inr ⟨flag, listed, value, kept, v, said, rfl⟩)
  · intro undashed
    have plain : ∀ w ∈ serveWords std recipe overrides userConfig placement,
        w.ofRecipe = true → dashed w.text = false := by
      intro w hw ofRecipe
      obtain rfl | ⟨flag, listed, value, kept, v, said, rfl⟩ := (mem_serveWords ofRecipe).mp hw
      · exact able
      · exact undashed flag listed value kept v said
    obtain ⟨option, image⟩ := docker_inert bare
    obtain ⟨rest, reads, inFlag⟩ := engine_inert able bare plain
    refine ⟨option, image, ?_, ?_, ?_⟩
    · rw [handed_argvWords bare]
      exact plain
    · intro e he key said
      rw [reads] at he
      obtain rfl | he := List.mem_cons.mp he
      · cases said
      · exact (inFlag e he).1 key said
    · have none_ : rest.filter (·.2 = .free) = [] :=
        List.filter_eq_nil_iff.mpr fun e he free => (inFlag e he).2 (of_decide_eq_true free)
      rw [reads, List.filter_cons_of_pos (by rfl), none_]
      rfl

/-- A recipe file that names the parser of tool calls. -/
def withParser (parser : String) : RawRecipe where
  minNodes := none
  maxNodes := none
  soloOnly := none
  clusterOnly := none
  recipeVersion := none
  model := some "org/model"
  modelRevision := none
  runtime := some "metrale"
  container := some "image:tag"
  defaults := .ofList [("tool_call_parser", .str parser)]
  env := .empty
  requires := none
  extra := .empty

def parserRecipe (parser : String) : ParsedRecipe :=
  { curious with name := "r", defaults := (withParser parser).defaults, env := .empty }

def parserPlan (parser : String) : Except TranslateError LaunchPlan :=
  translate asciiText (parserRecipe parser) .empty .empty (hostWith "secret") .solo
    ⟨rootlessV1, .nvidia, .noCollectiveEnv⟩

/-- The parser's name is an option of the engine's. -/
theorem recipe_inert_dash : ¬ ∀ (yaml : String → Except String RawRecipe) (name text : String)
    (std : StdText) (recipe : ParsedRecipe) (overrides userConfig : Config) (host : HostSnapshot)
    (placement : Placement) (ctx : LaunchContext) (plan : LaunchPlan),
    ParsedRecipe.parse yaml name text = .ok recipe →
    translate std recipe overrides userConfig host placement ctx = .ok plan →
    Inert (argvWords std recipe overrides userConfig host placement ctx plan.docker.env)
      recipe := by
  intro claimed
  have parsed : ParsedRecipe.parse (fun _ => .ok (withParser "--host")) "r" "" =
      .ok (parserRecipe "--host") := rfl
  have ok : ∃ plan, parserPlan "--host" = .ok plan := ⟨_, rfl⟩
  obtain ⟨plan, h⟩ := ok
  have inert := claimed _ _ _ _ _ _ _ _ _ _ plan parsed h
  have plain := inert.plain ⟨"--host", .setting "tool_call_parser"⟩
  rw [handed_argvWords (by decide)] at plain
  have there : (⟨"--host", .setting "tool_call_parser"⟩ : Word) ∈
      serveWords asciiText (parserRecipe "--host") .empty .empty .solo :=
    (mem_serveWords rfl).mpr (.inr ⟨⟨⟨"tool_call_parser", "--tool-call-parser"⟩, .value⟩,
      by decide, rfl, List.not_mem_nil, .str "--host", by decide +kernel, rfl⟩)
  have wrong := plain there rfl
  revert wrong
  decide

theorem recipe_inert_hermes : ∃ plan, parserPlan "hermes" = .ok plan ∧
    Inert (argvWords asciiText (parserRecipe "hermes") .empty .empty (hostWith "secret") .solo
      ⟨rootlessV1, .nvidia, .noCollectiveEnv⟩ plan.docker.env) (parserRecipe "hermes") := by
  have parsed : ParsedRecipe.parse (fun _ => .ok (withParser "hermes")) "r" "" =
      .ok (parserRecipe "hermes") := rfl
  have ok : ∃ plan, parserPlan "hermes" = .ok plan := ⟨_, rfl⟩
  obtain ⟨plan, h⟩ := ok
  have undashed : Undashed asciiText (parserRecipe "hermes") .empty .empty .solo := by
    intro flag listed _ _ v said
    have all : metraleFlags.all (fun flag =>
        (recipeSetting (parserRecipe "hermes").defaults .empty .empty flag.key).all fun v =>
          !dashed (renderScalar asciiText v)) = true := by decide +kernel
    have plain := List.all_eq_true.mp all flag listed
    rw [said] at plain
    exact (Bool.not_eq_true' _).mp plain
  exact ⟨plan, h, (recipe_inert parsed h).2.mpr undashed⟩

end Translate
end Metralectl
