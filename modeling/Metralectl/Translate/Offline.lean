import Metralectl.Translate.Secrecy

/-!
Offline by default. Docker takes each `-e` argument apart at its first equals sign
and lets a later one win; the launcher guards the recipe's keys as they stand in the
recipe. A key with an equals sign in it passes the guard and is taken apart again.
-/
namespace Metralectl
namespace Translate
open SortedMaps

/-- What stands before the first equals sign, and after it. -/
def cutAtEquals : List Char → List Char × List Char
  | [] => ([], [])
  | c :: cs =>
      if c = '=' then ([], cs)
      else
        let (key, value) := cutAtEquals cs
        (c :: key, value)

/-- How docker reads an `-e` argument. -/
def readEnvArg (arg : String) : List Char × List Char := cutAtEquals arg.toList

/-- What a container finds a variable set to: the last argument that names it wins. -/
def containerEnv (args : List String) (name : String) : Option (List Char) :=
  (args.map readEnvArg).reverse.lookup name.toList

/-- The container may not reach the network, as far as its libraries are told. -/
def Offline (d : DockerRun) : Prop :=
  ∀ name ∈ Rendering.egressEnv, containerEnv d.envArgs name = some "1".toList

/-- A key that docker reads as the variable of that name. -/
def Spoofs (name key : String) : Prop := name.toList ++ ['='] <+: key.toList

section Reading
variable {front rest value : List Char} {name : String}

theorem cutAtEquals_append (plain : '=' ∉ front) :
    cutAtEquals (front ++ '=' :: rest) = (front, rest) := by
  induction front with
  | nil => rfl
  | cons c front ih =>
      have other : c ≠ '=' := fun same => plain (same ▸ List.mem_cons_self)
      simp only [List.cons_append, cutAtEquals, if_neg other,
        ih fun later => plain (List.mem_cons_of_mem _ later)]

theorem toList_envArg (key value : String) :
    (s!"{key}={value}").toList = key.toList ++ '=' :: value.toList := by
  change (key ++ "=" ++ value).toList = _
  simp [String.toList_append]

/-- A key that spoofs a name gives it a value with an equals sign in it. -/
theorem readEnvArg_spoofs {key : String} (value : String) (plain : '=' ∉ name.toList)
    (spoofs : Spoofs name key) :
    ∃ given, readEnvArg s!"{key}={value}" = (name.toList, given) ∧ '=' ∈ given := by
  obtain ⟨rest, chars⟩ := spoofs
  have arg : (s!"{key}={value}").toList =
      name.toList ++ '=' :: (rest ++ '=' :: value.toList) := by
    rw [toList_envArg, ← chars]
    simp
  exact ⟨_, by rw [readEnvArg, arg, cutAtEquals_append plain], by simp⟩

/-- An argument names a variable if its key does, or spoofs it. -/
theorem readEnvArg_fst {key value : String} (plain : '=' ∉ name.toList) :
    (readEnvArg s!"{key}={value}").1 = name.toList ↔ key = name ∨ Spoofs name key := by
  constructor
  · intro names
    by_cases cut : '=' ∈ key.toList
    · obtain ⟨front, rest, chars, frontPlain⟩ := List.eq_append_cons_of_mem cut
      have arg : (s!"{key}={value}").toList = front ++ '=' :: (rest ++ '=' :: value.toList) := by
        rw [toList_envArg, chars]
        simp
      rw [readEnvArg, arg, cutAtEquals_append frontPlain] at names
      refine .inr ⟨rest, ?_⟩
      rw [chars, ← names]
      simp
    · rw [readEnvArg, toList_envArg, cutAtEquals_append cut] at names
      exact .inl (String.toList_inj.mp names)
  · intro h
    cases h with
    | inl same => rw [readEnvArg, toList_envArg, same, cutAtEquals_append plain]
    | inr spoofs =>
        obtain ⟨given, read, _⟩ := readEnvArg_spoofs value plain spoofs
        rw [read]

/-- A spoofing key comes after the name it spoofs. -/
theorem lt_of_spoofs {key : String} (spoofs : Spoofs name key) : name < key := by
  obtain ⟨rest, chars⟩ := spoofs
  rw [String.lt_iff_toList_lt, ← chars]
  have longer (xs : List Char) : xs < xs ++ ['='] ++ rest := by
    induction xs with
    | nil => exact List.nil_lt_cons _ _
    | cons c xs ih => exact List.cons_lt_cons_iff.mpr (.inr ⟨rfl, ih⟩)
  exact longer name.toList

end Reading

section Environments
variable {env : Env} {name value : String}

def args (env : Env) : List String := env.entries.map fun e => s!"{e.1}={e.2}"

/-- What a container reads stands in the last argument that names the variable. -/
theorem containerEnv_some {given : List Char} (h : containerEnv (args env) name = some given) :
    ∃ e ∈ env.entries, readEnvArg s!"{e.1}={e.2}" = (name.toList, given) ∧
      ∀ f ∈ env.entries, e.1 < f.1 → (readEnvArg s!"{f.1}={f.2}").1 ≠ name.toList := by
  obtain ⟨after, before, split, others⟩ := List.lookup_eq_some_iff.mp h
  have parts : (args env).map readEnvArg =
      before.reverse ++ (name.toList, given) :: after.reverse := by
    rw [← List.reverse_reverse ((args env).map readEnvArg), split]
    simp
  rw [args, List.map_map, List.map_eq_append_iff] at parts
  obtain ⟨lower, upper, entries, _, atOrAfter⟩ := parts
  obtain ⟨e, later, rfl, read, afterwards⟩ := List.map_eq_cons_iff.mp atOrAfter
  refine ⟨e, by simp [entries], read, ?_⟩
  intro f hf above
  have ascending := env.ascending
  rw [entries] at hf ascending
  have there : f ∈ later := by
    cases List.mem_append.mp hf with
    | inl lowerDown =>
        have := (List.pairwise_append.mp ascending).2.2 f lowerDown e List.mem_cons_self
        exact absurd this (lt_asymm above)
    | inr rest =>
        cases List.mem_cons.mp rest with
        | inl same => exact absurd (same ▸ above) (lt_irrefl _)
        | inr later => exact later
  have listed : readEnvArg s!"{f.1}={f.2}" ∈ after := by
    rw [← List.mem_reverse, ← afterwards]
    exact List.mem_map.mpr ⟨f, there, rfl⟩
  exact (bne_iff_ne.mp (others _ listed)).symm

/-- A container finds a variable as it was set, unless some key spoofs it. -/
theorem containerEnv_iff (plain : '=' ∉ name.toList) (plainValue : '=' ∉ value.toList)
    (set : env.get? name = some value) :
    containerEnv (args env) name = some value.toList ↔
      ∀ key, (env.get? key).isSome → ¬ Spoofs name key := by
  have here : (name, value) ∈ env.entries := SortedMap.mem_entries.mpr set
  constructor
  · intro found key isSet spoofs
    obtain ⟨e, he, read, last⟩ := containerEnv_some found
    have names : (readEnvArg s!"{e.1}={e.2}").1 = name.toList := congrArg Prod.fst read
    cases (readEnvArg_fst plain).mp names with
    | inr spoofing =>
        obtain ⟨given, other, sign⟩ := readEnvArg_spoofs e.2 plain spoofing
        rw [read] at other
        cases other
        exact plainValue sign
    | inl same =>
        obtain ⟨v, hv⟩ := Option.isSome_iff_exists.mp isSet
        have above : e.1 < key := same ▸ lt_of_spoofs spoofs
        exact last (key, v) (SortedMap.mem_entries.mpr hv) above
          ((readEnvArg_fst plain).mpr (.inr spoofs))
  · intro honest
    have some_ : (containerEnv (args env) name).isSome := by
      refine List.lookup_isSome_iff.mpr ⟨readEnvArg s!"{name}={value}", ?_, ?_⟩
      · rw [List.mem_reverse, args, List.map_map]
        exact List.mem_map.mpr ⟨_, here, rfl⟩
      · exact beq_iff_eq.mpr ((readEnvArg_fst plain).mpr (.inl rfl)).symm
    obtain ⟨given, found⟩ := Option.isSome_iff_exists.mp some_
    obtain ⟨e, he, read, _⟩ := containerEnv_some found
    have names : (readEnvArg s!"{e.1}={e.2}").1 = name.toList := congrArg Prod.fst read
    have isSet := SortedMap.mem_entries.mp he
    have same : e.1 = name := ((readEnvArg_fst plain).mp names).resolve_right
      (honest e.1 (by simp [isSet]))
    rw [same, set] at isSet
    cases isSet
    rw [same, readEnvArg, toList_envArg, cutAtEquals_append plain] at read
    cases read
    exact found

end Environments

section Translations
variable {std : StdText} {recipe : ParsedRecipe} {overrides userConfig : Config}
  {host : HostSnapshot} {placement : Placement} {ctx : LaunchContext} {plan : LaunchPlan}

instance (name key : String) : Decidable (Spoofs name key) :=
  inferInstanceAs (Decidable (_ <+: _))

/-- The standard variables are those of a node by itself, and the fabric's. -/
theorem mem_standardEnv {placement : Placement} {collective : CollectiveEnv}
    {e : String × String} (h : e ∈ (standardEnv placement collective).entries) :
    e ∈ (standardEnv .solo .noCollectiveEnv).entries ∨ e ∈ ncclRoceEnv := by
  cases placement with
  | solo => exact .inl h
  | rank =>
      cases SortedMap.mem_extend h with
      | inr base => exact .inl base
      | inl fabric =>
          cases collective with
          | noCollectiveEnv => cases fabric
          | ncclRoce => exact .inr ((SortedMap.mem_extend fabric).resolve_right List.not_mem_nil)

/-- The launcher's own variables say offline, -/
theorem standardEnv_offline (placement : Placement) (collective : CollectiveEnv) :
    ∀ name ∈ Rendering.egressEnv, (standardEnv placement collective).get? name = some "1" := by
  intro name egress
  have alone : ∀ name ∈ Rendering.egressEnv,
      (standardEnv .solo .noCollectiveEnv).get? name = some "1" := by decide
  cases placement with
  | solo => exact alone name egress
  | rank =>
      have fabric : collective.clusterEnv.get? name = none := by
        cases set : collective.clusterEnv.get? name with
        | none => rfl
        | some v =>
            have other : ∀ name ∈ Rendering.egressEnv, ∀ e ∈ ncclRoceEnv, e.1 ≠ name := by decide
            cases collective with
            | noCollectiveEnv => cases set
            | ncclRoce =>
                have listed := SortedMap.mem_extend (SortedMap.mem_entries.mpr set)
                exact absurd rfl (other name egress _ (listed.resolve_right List.not_mem_nil))
      change ((standardEnv .solo .noCollectiveEnv).extend collective.clusterEnv.entries).get? name
        = some "1"
      rw [SortedMap.get?_extend, fabric]
      exact alone name egress

/-- and none of them is read as another that does. -/
theorem standardEnv_honest (placement : Placement) (collective : CollectiveEnv) :
    ∀ name ∈ Rendering.egressEnv, ∀ e ∈ (standardEnv placement collective).entries,
      ¬ Spoofs name e.1 := by
  intro name egress e he
  cases mem_standardEnv he with
  | inl base =>
      have alone : ∀ name ∈ Rendering.egressEnv,
          ∀ e ∈ (standardEnv .solo .noCollectiveEnv).entries, ¬ Spoofs name e.1 := by
        decide +kernel
      exact alone name egress e base
  | inr fabric =>
      have listed : ∀ name ∈ Rendering.egressEnv, ∀ e ∈ ncclRoceEnv, ¬ Spoofs name e.1 := by
        decide +kernel
      exact listed name egress e fabric

/-- What the guard on the recipe's keys gives. -/
theorem buildEnv_ok {env : Env}
    (h : buildEnv std recipe host placement ctx.collective = .ok env) :
    (∀ name ∈ Rendering.egressEnv, recipe.env.get? name = none) ∧
      env = (standardEnv placement ctx.collective).extend
        (recipe.env.map (expandAllowed std host)).entries := by
  unfold buildEnv at h
  split at h
  · cases h
  · next guarded =>
      cases h
      refine ⟨?_, rfl⟩
      intro name egress
      cases set : recipe.env.get? name with
      | none => rfl
      | some v =>
          have refused := List.find?_eq_none.mp guarded _ (SortedMap.mem_entries.mpr set)
          exact absurd (List.contains_iff_mem.mpr egress) refused

/-- An environment that is built says offline exactly if no key of the recipe's is read
as one of the two variables that say so. -/
theorem buildEnv_offline {env : Env}
    (h : buildEnv std recipe host placement ctx.collective = .ok env) :
    (∀ name ∈ Rendering.egressEnv, containerEnv (args env) name = some "1".toList) ↔
      ∀ name ∈ Rendering.egressEnv, ∀ e ∈ recipe.env.entries, ¬ Spoofs name e.1 := by
  obtain ⟨guarded, built⟩ := buildEnv_ok h
  have one (name : String) (egress : name ∈ Rendering.egressEnv) :
      containerEnv (args env) name = some "1".toList ↔
        ∀ key, (env.get? key).isSome → ¬ Spoofs name key := by
    have plain : ∀ name ∈ Rendering.egressEnv, '=' ∉ name.toList := by decide
    have set : env.get? name = some "1" := by
      simp [built, guarded name egress,
        standardEnv_offline placement ctx.collective name egress]
    exact containerEnv_iff (plain name egress) (by decide) set
  constructor
  · intro offline name egress e he
    refine (one name egress).mp (offline name egress) e.1 ?_
    simp [built, SortedMap.mem_entries.mp he]
  · intro honest name egress
    refine (one name egress).mpr ?_
    intro key isSet
    -- a key is the recipe's, or the launcher's own
    cases set : recipe.env.get? key with
    | some v => exact honest name egress (key, v) (SortedMap.mem_entries.mpr set)
    | none =>
        simp only [built, SortedMap.get?_extend, SortedMap.get?_map, set, Option.map_none,
          Option.none_or] at isSet
        obtain ⟨v, hv⟩ := Option.isSome_iff_exists.mp isSet
        exact standardEnv_honest placement ctx.collective name egress (key, v)
          (SortedMap.mem_entries.mpr hv)

/-- A launch that translates is offline exactly if no key of its recipe's environment
is read as one of the two variables that say so. -/
theorem offline_iff
    (h : translate std recipe overrides userConfig host placement ctx = .ok plan) :
    Offline plan.docker ↔ ∀ name ∈ Rendering.egressEnv, ∀ e ∈ recipe.env.entries,
      ¬ Spoofs name e.1 := by
  obtain ⟨rank, env, _, built, docker⟩ := (translate_ok h).built
  rw [← buildEnv_offline built, docker]
  rfl

end Translations

section Fixed

/-- A launch that asks for a token and for a proxy stays offline. -/
theorem offline_iff_curious : ∃ plan,
    translate asciiText curious .empty .empty (hostWith "secret") .solo
        ⟨rootlessV1, .nvidia, .noCollectiveEnv⟩ = .ok plan ∧
      (Offline plan.docker ↔ ∀ name ∈ Rendering.egressEnv, ∀ e ∈ curious.env.entries,
        ¬ Spoofs name e.1) := by
  have ok : ∃ plan, translate asciiText curious .empty .empty (hostWith "secret") .solo
      ⟨rootlessV1, .nvidia, .noCollectiveEnv⟩ = .ok plan := ⟨_, rfl⟩
  obtain ⟨plan, h⟩ := ok
  exact ⟨plan, h, offline_iff h⟩

/-- A recipe file with a value in one key of its environment. -/
def spoofing : RawRecipe where
  minNodes := none
  maxNodes := none
  soloOnly := none
  clusterOnly := none
  recipeVersion := none
  model := some "org/model"
  modelRevision := none
  runtime := some "metrale"
  container := some "image:tag"
  defaults := .empty
  env := .ofList [("HF_HUB_OFFLINE=0", "x")]
  requires := none
  extra := .empty

theorem not_offline_spoofing : ∃ recipe plan,
    ParsedRecipe.ofRaw "spoofing" spoofing = .ok recipe ∧
    translate asciiText recipe .empty .empty (hostWith "") .solo
        ⟨rootlessV1, .nvidia, .noCollectiveEnv⟩ = .ok plan ∧
    ¬ Offline plan.docker := by
  refine ⟨_, _, rfl, rfl, ?_⟩
  unfold Offline
  decide

end Fixed

end Translate
end Metralectl
