import Metralectl.Translate.Secrecy

/-!
What the serve command is made of: one piece for each flag, with its value if it takes one.
The pieces come from the table, one for each key that is set, and from the placement.
-/
namespace Metralectl
namespace Translate
open SortedMaps Rendering

/-- A flag as it is given, with the value that follows it. -/
structure Given where
  flag : String
  value : Option String
deriving DecidableEq

def Given.words (g : Given) : List String := g.flag :: g.value.toList

section Pieces
variable (std : StdText) (resolved : Config) (skip : List String)

/-- What a set key gives: a toggle nothing, unless it is truthy. -/
def given (flag : Flag) (value : SettingValue) : Option Given :=
  match flag.kind with
  | .boolToggle => if isTruthy value then some ⟨flag.flag, none⟩ else none
  | .value => some ⟨flag.flag, some (renderScalar std value)⟩

/-- What one flag of the table gives. -/
def piece (flag : Flag) : Option Given :=
  if skip.contains flag.key then none else (resolved.get? flag.key).bind (given std flag)

def givenFlags : List Given := metraleFlags.filterMap (piece std resolved skip)

/-- What the placement gives itself. -/
def givenByPlacement : Placement → List Given
  | .solo => []
  | .rank rank worldSize masterAddr masterPort =>
      (if 0 < rank then [⟨"--port", some "0"⟩] else []) ++
        [⟨"--rank", some (toString rank)⟩, ⟨"--world-size", some (toString worldSize)⟩,
          ⟨"--master-addr", some masterAddr⟩, ⟨"--master-port", some (toString masterPort)⟩]

def served (placement : Placement) : List Given :=
  givenFlags std resolved (skippedKeys placement) ++ givenByPlacement placement

variable {std resolved skip}

theorem words_given (flag : Flag) (value : SettingValue) :
    renderFlag std flag value = (given std flag value).toList.flatMap Given.words := by
  unfold renderFlag given
  cases flag.kind with
  | boolToggle => by_cases on : isTruthy value <;> simp [on, Given.words]
  | value => simp [Given.words]

/-- The pieces are what is rendered. -/
theorem words_givenFlags :
    (renderFlags std resolved skip).1 = (givenFlags std resolved skip).flatMap Given.words := by
  unfold renderFlags givenFlags
  dsimp only
  rw [List.filterMap_eq_flatMap_toList, List.flatMap_assoc]
  congr 1
  funext flag
  unfold piece
  split
  · rfl
  · cases resolved.get? flag.key with
    | none => rfl
    | some value => exact words_given flag value

theorem words_placement {recipe : ParsedRecipe} {placement : Placement} {rank : List String}
    (ranks : rankFlags recipe placement = .ok rank) :
    rank = (givenByPlacement placement).flatMap Given.words := by
  cases placement with
  | solo => exact (Except.ok.inj ranks).symm
  | rank r worldSize masterAddr masterPort =>
      simp only [rankFlags] at ranks
      split at ranks
      · cases ranks
      · rw [← Except.ok.inj ranks]
        by_cases worker : 0 < r <;> simp [givenByPlacement, worker, Given.words]

end Pieces

section Once
variable {std : StdText} {resolved : Config} {skip : List String}

/-- Flags none of which is another's alias are all different from each other, and from those
before them. -/
theorem flags_nodup {m : Settings} {seen specs : List FlagSpec}
    (unaliased : aliasConflict seen m specs = .ok ()) :
    ((specs.filter fun s => (m.lookup s.key).isSome).map (·.flag)).Nodup ∧
      ∀ s ∈ specs, (m.lookup s.key).isSome = true → s.flag ∉ seen.map (·.flag) := by
  induction specs generalizing seen with
  | nil => exact ⟨List.nodup_nil, fun _ none_ => absurd none_ List.not_mem_nil⟩
  | cons spec specs ih =>
      rw [aliasConflict] at unaliased
      by_cases unset : (m.lookup spec.key).isNone = true
      · have other : (m.lookup spec.key).isSome = false := by
          simpa using unset
        rw [if_pos unset] at unaliased
        obtain ⟨nodup, apart⟩ := ih unaliased
        refine ⟨by rwa [List.filter_cons_of_neg (by simp [other])], fun s member set => ?_⟩
        obtain rfl | later := List.mem_cons.mp member
        · exact absurd (other.symm.trans set) Bool.false_ne_true
        · exact apart s later set
      · have set : (m.lookup spec.key).isSome = true := by
          simpa [Option.isSome_iff_ne_none] using unset
        rw [if_neg unset] at unaliased
        split at unaliased
        · cases unaliased
        · next fresh =>
            obtain ⟨nodup, apart⟩ := ih unaliased
            rw [List.find?_eq_none] at fresh
            have new : spec.flag ∉ seen.map (·.flag) := by
              rintro member
              obtain ⟨s, before, same⟩ := List.mem_map.mp member
              exact fresh s before (by simpa using same)
            refine ⟨?_, fun s member here => ?_⟩
            · rw [List.filter_cons, if_pos set, List.map_cons, List.nodup_cons]
              refine ⟨fun member => ?_, nodup⟩
              obtain ⟨s, kept, same⟩ := List.mem_map.mp member
              obtain ⟨listed, here⟩ := List.mem_filter.mp kept
              exact apart s listed here (same ▸ List.mem_cons_self)
            · obtain rfl | later := List.mem_cons.mp member
              · exact new
              · exact fun before => apart s later here (List.mem_cons_of_mem _ before)

theorem given_flag {flag : Flag} {value : SettingValue} {g : Given}
    (h : given std flag value = some g) : g.flag = flag.flag := by
  unfold given at h
  split at h
  · split at h
    · cases h
      rfl
    · cases h
  · cases h
    rfl

theorem piece_some {flag : Flag} {g : Given} : piece std resolved skip flag = some g ↔
    skip.contains flag.key = false ∧
      ∃ value, resolved.get? flag.key = some value ∧ given std flag value = some g := by
  unfold piece
  cases skip.contains flag.key with
  | true => simp
  | false => simp [Option.bind_eq_some_iff]

theorem piece_flag {flag : Flag} {g : Given} (h : piece std resolved skip flag = some g) :
    g.flag = flag.flag := by
  obtain ⟨_, value, _, made⟩ := piece_some.mp h
  exact given_flag made

theorem mem_givenFlags {g : Given} : g ∈ givenFlags std resolved skip ↔
    ∃ flag ∈ metraleFlags, skip.contains flag.key = false ∧
      ∃ value, resolved.get? flag.key = some value ∧ given std flag value = some g := by
  rw [givenFlags, List.mem_filterMap]
  exact exists_congr fun flag => and_congr_right fun _ => piece_some

/-- A key is in the table once. -/
theorem metraleFlags_key {a b : Flag} (ha : a ∈ metraleFlags) (hb : b ∈ metraleFlags)
    (same : a.key = b.key) : a = b :=
  List.inj_on_of_nodup_map (f := fun flag : Flag => flag.key) (by decide +kernel) ha hb same

/-- Of two set keys that render one flag, each is the other. -/
theorem set_unique (unaliased : validateNoAliasConflict resolved = .ok ()) {a b : Flag}
    (ha : a ∈ metraleFlags) (hb : b ∈ metraleFlags) (setA : (resolved.get? a.key).isSome)
    (setB : (resolved.get? b.key).isSome) (same : a.flag = b.flag) : a = b := by
  have kept {c : Flag} (hc : c ∈ metraleFlags) (set : (resolved.get? c.key).isSome) :
      c.toFlagSpec ∈ (metraleFlags.map (·.toFlagSpec)).filter fun s =>
        (resolved.entries.lookup s.key).isSome :=
    List.mem_filter.mpr ⟨List.mem_map_of_mem hc, set⟩
  have one := List.inj_on_of_nodup_map (flags_nodup unaliased).1 (kept ha setA) (kept hb setB) same
  exact metraleFlags_key ha hb (congrArg FlagSpec.key one)

theorem givenFlags_nodup (unaliased : validateNoAliasConflict resolved = .ok ()) :
    ((givenFlags std resolved skip).map (·.flag)).Nodup := by
  have sub (flags : List Flag) : ((flags.filterMap (piece std resolved skip)).map
      (·.flag)).Sublist (((flags.map (·.toFlagSpec)).filter fun s =>
        (resolved.entries.lookup s.key).isSome).map (·.flag)) := by
    induction flags with
    | nil => exact .slnil
    | cons flag flags ih =>
        cases here : piece std resolved skip flag with
        | none =>
            rw [List.filterMap_cons_none here]
            exact ih.trans (((List.sublist_cons_self _ _).filter _).map _)
        | some g =>
            obtain ⟨_, value, found, made⟩ := piece_some.mp here
            have set : (resolved.entries.lookup flag.key).isSome = true :=
              Option.isSome_iff_exists.mpr ⟨value, found⟩
            rw [List.filterMap_cons_some here, List.map_cons, List.map_cons, List.filter_cons,
              if_pos set, List.map_cons, given_flag made]
            exact ih.cons_cons _
  exact (sub metraleFlags).nodup (flags_nodup unaliased).1

/-- The placement's own flags are in the table under no key but the skipped one. -/
theorem placement_apart {placement : Placement} {g own : Given}
    (hg : g ∈ givenFlags std resolved (skippedKeys placement))
    (ho : own ∈ givenByPlacement placement) : g.flag ≠ own.flag := by
  obtain ⟨flag, listed, free, value, _, made⟩ := mem_givenFlags.mp hg
  rw [given_flag made]
  have others : flag.flag ≠ "--rank" ∧ flag.flag ≠ "--world-size" ∧ flag.flag ≠ "--master-addr" ∧
      flag.flag ≠ "--master-port" ∧ (flag.flag = "--port" → flag.key = "port") := by
    have all : ∀ flag ∈ metraleFlags, flag.flag ≠ "--rank" ∧ flag.flag ≠ "--world-size" ∧
        flag.flag ≠ "--master-addr" ∧ flag.flag ≠ "--master-port" ∧
          (flag.flag = "--port" → flag.key = "port") := by
      decide +kernel
    exact all flag listed
  cases placement with
  | solo => cases ho
  | rank rank worldSize masterAddr masterPort =>
      simp only [givenByPlacement, List.mem_append, List.mem_cons, List.not_mem_nil,
        or_false] at ho
      obtain forced | rfl | rfl | rfl | rfl := ho
      · cases rank with
        | zero => cases forced
        | succ rank =>
            rw [if_pos (Nat.succ_pos rank), List.mem_singleton] at forced
            subst forced
            intro same
            rw [others.2.2.2.2 same, skippedKeys] at free
            exact absurd free (by decide)
      · exact others.1
      · exact others.2.1
      · exact others.2.2.1
      · exact others.2.2.2.1

end Once

section Whole
variable (std : StdText) (resolved : Config) (placement : Placement)

/-- What `--port` is given as: a worker rank's is forced. -/
def portGiven : List Given :=
  match placement with
  | .rank (_ + 1) _ _ _ => [⟨"--port", some "0"⟩]
  | .rank 0 _ _ _ | .solo =>
      ((resolved.get? "port").map fun value => ⟨"--port", some (renderScalar std value)⟩).toList

/-- What becomes of a key that is set: it is rendered as its flag, the placement supplies that, or it
is reported. -/
def Accounted (unmapped : List UnmappedKey) (key : String) (value : SettingValue) : Prop :=
  (∃ flag ∈ metraleFlags, flag.key = key ∧
    match flag.kind with
    | .value => ⟨flag.flag, some (renderScalar std value)⟩ ∈ served std resolved placement
    | .boolToggle => flag.flag ∈ (served std resolved placement).map (·.flag) ↔
        isTruthy value = true) ∨
  (∃ flag ∈ metraleFlags, flag.key = key ∧
    flag.flag ∈ (givenByPlacement placement).map (·.flag)) ∨
  ⟨key, renderScalar std value⟩ ∈ unmapped

/-- The serve command gives every flag once, and loses no key. -/
structure RenderedOnce (recipe : ParsedRecipe) (plan : LaunchPlan) : Prop where
  command : plan.docker.command =
    ["met", "serve", recipe.model] ++ (served std resolved placement).flatMap Given.words
  once : ((served std resolved placement).map (·.flag)).Nodup
  complete : ∀ key value, resolved.get? key = some value →
    Accounted std resolved placement plan.unmapped key value
  port : (served std resolved placement).filter (·.flag = "--port") =
    portGiven std resolved placement

variable {std resolved placement}

theorem served_nodup (unaliased : validateNoAliasConflict resolved = .ok ()) :
    ((served std resolved placement).map (·.flag)).Nodup := by
  have own : ((givenByPlacement placement).map (·.flag)).Nodup := by
    cases placement with
    | solo => exact List.nodup_nil
    | rank rank worldSize masterAddr masterPort =>
        by_cases worker : 0 < rank <;> simp [givenByPlacement, worker]
  rw [served, List.map_append]
  refine List.nodup_append.mpr ⟨givenFlags_nodup unaliased, own, ?_⟩
  intro flag hg flag' ho
  obtain ⟨g, member, rfl⟩ := List.mem_map.mp hg
  obtain ⟨own, member', rfl⟩ := List.mem_map.mp ho
  exact placement_apart member member'

/-- A key that is set is rendered, unless it is skipped. -/
theorem accounted_rendered (unaliased : validateNoAliasConflict resolved = .ok ()) {flag : Flag}
    (listed : flag ∈ metraleFlags) (free : (skippedKeys placement).contains flag.key = false)
    {value : SettingValue} (set : resolved.get? flag.key = some value) :
    match flag.kind with
    | .value => ⟨flag.flag, some (renderScalar std value)⟩ ∈ served std resolved placement
    | .boolToggle => flag.flag ∈ (served std resolved placement).map (·.flag) ↔
        isTruthy value = true := by
  have member {g : Given} (made : given std flag value = some g) :
      g ∈ served std resolved placement :=
    List.mem_append_left _ (mem_givenFlags.mpr ⟨flag, listed, free, value, set, made⟩)
  cases kind : flag.kind with
  | value => exact member (by simp [given, kind])
  | boolToggle =>
      constructor
      · intro present
        obtain ⟨g, there, named⟩ := List.mem_map.mp present
        obtain table | own := List.mem_append.mp there
        · obtain ⟨other, listed', _, value', set', made⟩ := mem_givenFlags.mp table
          obtain rfl : other = flag := set_unique unaliased listed' listed
            (Option.isSome_iff_exists.mpr ⟨value', set'⟩)
            (Option.isSome_iff_exists.mpr ⟨value, set⟩) ((given_flag made).symm.trans named)
          obtain rfl : value' = value := Option.some.inj (set'.symm.trans set)
          by_contra falsy
          simp [given, kind, falsy] at made
        · -- No flag of the placement's is a toggle's.
          have toggles : ∀ flag ∈ metraleFlags, flag.kind = .boolToggle →
              flag.flag ∉ ["--port", "--rank", "--world-size", "--master-addr",
                "--master-port"] := by decide +kernel
          refine absurd ?_ (toggles flag listed kind)
          rw [← named]
          cases placement with
          | solo => cases own
          | rank rank worldSize masterAddr masterPort =>
              simp only [givenByPlacement, List.mem_append, List.mem_cons, List.not_mem_nil,
                or_false] at own
              obtain forced | rfl | rfl | rfl | rfl := own
              · split at forced
                · rw [List.mem_singleton.mp forced]
                  simp
                · cases forced
              all_goals simp
      · intro truthy
        exact List.mem_map.mpr ⟨⟨flag.flag, none⟩, member (by simp [given, kind, truthy]), rfl⟩

theorem accounted_key (unaliased : validateNoAliasConflict resolved = .ok ()) {key : String}
    {value : SettingValue} (set : resolved.get? key = some value) :
    Accounted std resolved placement (renderFlags std resolved (skippedKeys placement)).2 key
      value := by
  by_cases known : ∃ flag ∈ metraleFlags, flag.key = key
  · obtain ⟨flag, listed, rfl⟩ := known
    cases free : (skippedKeys placement).contains flag.key with
    | false => exact .inl ⟨flag, listed, rfl, accounted_rendered unaliased listed free set⟩
    | true =>
        refine .inr (.inl ⟨flag, listed, rfl, ?_⟩)
        cases placement with
        | solo => cases free
        | rank rank worldSize masterAddr masterPort =>
            cases rank with
            | zero => cases free
            | succ rank =>
                have port : flag.key = "port" := by simpa [skippedKeys] using free
                have all : ∀ flag ∈ metraleFlags, flag.key = "port" → flag.flag = "--port" := by
                  decide +kernel
                rw [all flag listed port]
                simp [givenByPlacement]
  · refine .inr (.inr ?_)
    have unclaimed : (metraleFlags.map (·.key) |>.filter fun key =>
        (skippedKeys placement).contains key || (resolved.get? key).isSome).contains key =
          false := by
      rw [← Bool.not_eq_true, List.contains_iff_mem, List.mem_filter, List.mem_map]
      rintro ⟨⟨flag, listed, named⟩, _⟩
      exact known ⟨flag, listed, named⟩
    unfold renderFlags
    exact List.mem_map.mpr ⟨(key, value), List.mem_filter.mpr
      ⟨SortedMap.mem_entries.mpr set, by rw [unclaimed]; rfl⟩, rfl⟩

theorem filter_givenFlags (skip : List String) :
    (givenFlags std resolved skip).filter (·.flag = "--port") =
      (if skip.contains "port" then none
        else (resolved.get? "port").map fun value =>
          ⟨"--port", some (renderScalar std value)⟩).toList := by
  have one : metraleFlags.filter (fun flag => flag.flag = "--port") =
      [⟨⟨"port", "--port"⟩, .value⟩] := by decide +kernel
  have commutes (flags : List Flag) : (flags.filterMap (piece std resolved skip)).filter
      (·.flag = "--port") =
        (flags.filter fun flag => flag.flag = "--port").filterMap (piece std resolved skip) := by
    induction flags with
    | nil => rfl
    | cons flag flags ih =>
        cases here : piece std resolved skip flag with
        | none =>
            rw [List.filterMap_cons_none here, ih, List.filter_cons]
            split
            · rw [List.filterMap_cons_none here]
            · rfl
        | some g =>
            rw [List.filterMap_cons_some here, List.filter_cons, List.filter_cons,
              piece_flag here, ih]
            split
            · rw [List.filterMap_cons_some here]
            · rfl
  rw [givenFlags, commutes, one, List.filterMap_eq_flatMap_toList, List.flatMap_singleton]
  unfold piece
  dsimp only
  cases skip.contains "port" with
  | true => rfl
  | false => cases resolved.get? "port" <;> rfl

theorem filter_served : (served std resolved placement).filter (·.flag = "--port") =
    portGiven std resolved placement := by
  rw [served, List.filter_append, filter_givenFlags]
  cases placement with
  | solo =>
      rw [givenByPlacement, List.filter_nil, List.append_nil]
      rfl
  | rank rank worldSize masterAddr masterPort =>
      cases rank with
      | zero => simp [givenByPlacement, skippedKeys, portGiven]
      | succ rank => simp [givenByPlacement, skippedKeys, portGiven]

end Whole

/-- Whatever a recipe, its overrides and the placement say: a command that is rendered gives each
flag once and loses no key, and a worker rank's port is its forced one. -/
theorem rendered_once {std : StdText} {recipe : ParsedRecipe} {overrides userConfig : Config}
    {host : HostSnapshot} {placement : Placement} {ctx : LaunchContext} {plan : LaunchPlan}
    (h : translate std recipe overrides userConfig host placement ctx = .ok plan) :
    RenderedOnce std (resolve recipe.defaults userConfig overrides) placement recipe plan := by
  have done := translate_ok h
  obtain ⟨rank, env, ranks, built, docker⟩ := done.built
  have whole : plan.unmapped = (renderFlags std (resolve recipe.defaults userConfig overrides)
      (skippedKeys placement)).2 := by
    simp only [translate, done.launchable, done.enough, done.unaliased, ranks, built, bind,
      Except.bind, pure, Except.pure, Except.ok.injEq] at h
    rw [← h]
  refine ⟨?_, served_nodup done.unaliased, fun key value set => ?_, filter_served⟩
  · rw [docker, words_placement ranks, words_givenFlags, served, List.flatMap_append]
    rfl
  · rw [whole]
    exact accounted_key done.unaliased set

/-- A recipe with defaults: two toggles, of which one is off, and a key that is no flag. -/
def seasoned : ParsedRecipe :=
  { curious with
    defaults := .ofList [("port", .int 8888), ("max_model_len", .int 32768),
      ("speculative", .bool true), ("dflash", .bool false), ("seasoning", .int 1)] }

/-- On the second machine of two, with an override and a setting of the user's. -/
theorem rendered_once_worker : ∃ plan,
    translate asciiText seasoned (.ofList [("max_model_len", .int 65536)])
        (.ofList [("scheduler", .str "slai")]) (hostWith "secret") (.rank 1 2 "10.0.0.1" 29500)
        ⟨rootlessV1, .nvidia, .ncclRoce⟩ = .ok plan ∧
      plan.docker.command = ["met", "serve", "org/model", "--max-seq-len", "65536", "--scheduler",
        "slai", "--speculative", "--port", "0", "--rank", "1", "--world-size", "2",
        "--master-addr", "10.0.0.1", "--master-port", "29500"] ∧
      plan.unmapped = [⟨"seasoning", "1"⟩] ∧
      RenderedOnce asciiText (resolve seasoned.defaults (.ofList [("scheduler", .str "slai")])
        (.ofList [("max_model_len", .int 65536)])) (.rank 1 2 "10.0.0.1" 29500) seasoned plan := by
  have shown : (translate asciiText seasoned (.ofList [("max_model_len", .int 65536)])
      (.ofList [("scheduler", .str "slai")]) (hostWith "secret") (.rank 1 2 "10.0.0.1" 29500)
      ⟨rootlessV1, .nvidia, .ncclRoce⟩).toOption.map
        (fun plan => (plan.docker.command, plan.unmapped)) =
      some (["met", "serve", "org/model", "--max-seq-len", "65536", "--scheduler",
        "slai", "--speculative", "--port", "0", "--rank", "1", "--world-size", "2",
        "--master-addr", "10.0.0.1", "--master-port", "29500"], [⟨"seasoning", "1"⟩]) := by decide +kernel
  cases h : translate asciiText seasoned (.ofList [("max_model_len", .int 65536)])
      (.ofList [("scheduler", .str "slai")]) (hostWith "secret") (.rank 1 2 "10.0.0.1" 29500)
      ⟨rootlessV1, .nvidia, .ncclRoce⟩ with
  | error why =>
      rw [h] at shown
      cases shown
  | ok plan =>
      rw [h] at shown
      obtain ⟨command, unmapped⟩ := Prod.mk.inj (Option.some.inj shown)
      exact ⟨plan, rfl, command, unmapped, rendered_once h⟩

end Translate
end Metralectl
