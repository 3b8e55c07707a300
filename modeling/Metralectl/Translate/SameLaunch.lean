import Metralectl.Translate.Fingerprint
import Metralectl.Translate.Secrecy

/-!
What two nodes would run whose recipes are hashed alike. A command depends on a
setting through its text and through whether a bare toggle is given, and the type and
the text decide both; nothing else of a recipe reaches a command but what is hashed.
-/
namespace Metralectl
namespace Translate
open SortedMaps Rendering

section Scalars
variable {std : StdText} {f : F64}

theorem toString_eq_zero {n : Nat} : (toString n).toList = ['0'] ↔ n = 0 := by
  have zero : (toString 0).toList = ['0'] := rfl
  rw [← zero, String.toList_inj]
  exact ⟨toString_inj, congrArg toString⟩

/-- Both zeros have neither an exponent nor a fraction. -/
theorem significand_eq_zero : significand f = 0 ↔ f.toNat % 2 ^ 63 = 0 := by
  unfold significand exponent
  split <;> omega

theorem wholeNumber_eq_zero :
    (∃ negative, wholeNumber f = some (negative, 0)) ↔ f.toNat % 2 ^ 63 = 0 := by
  constructor
  · intro whole
    obtain ⟨negative, h⟩ := whole
    rw [← significand_eq_zero]
    simp only [wholeNumber] at h
    split at h
    · cases h
    · split at h
      · split at h
        · have scaled := congrArg Prod.snd (Option.some.inj h)
          exact (Nat.mul_eq_zero.mp scaled).resolve_right (Nat.two_pow_pos _).ne'
        · cases h
      · split at h
        · next exact_ =>
            split at h
            · have scaled := congrArg Prod.snd (Option.some.inj h)
              exact Nat.eq_zero_of_dvd_of_div_eq_zero (Nat.dvd_of_mod_eq_zero exact_) scaled
            · cases h
        · cases h
  · intro zero
    have nothing : significand f = 0 := significand_eq_zero.mpr zero
    have low : exponent f = 0 := by
      unfold exponent
      omega
    exact ⟨f.msb, by simp [wholeNumber, nothing, low, -Nat.reducePow]⟩

/-- Of the whole numbers only zero reads as zero, with either sign. -/
theorem wholeText_eq_zero {negative : Bool} {n : Nat} {text : String}
    (written : text = (if negative then "-" else "") ++ toString n ++ ".0") :
    text = "0.0" ∨ text = "-0.0" ↔ n = 0 := by
  have noSign : '-' ∉ (toString n).toList := fun sign => by
    cases toString_isDigit _ sign
  constructor
  · intro zero
    cases negative with
    | false =>
        have chars : text.toList = (toString n).toList ++ ['.', '0'] := by
          simp [written, String.toList_append]
        cases zero with
        | inl plain =>
            rw [plain] at chars
            have digits : ['0'] = (toString n).toList := List.append_cancel_right chars
            exact toString_eq_zero.mp digits.symm
        | inr signed =>
            rw [signed] at chars
            have digits : ['-', '0'] = (toString n).toList := List.append_cancel_right chars
            exact absurd (digits ▸ List.mem_cons_self) noSign
    | true =>
        have chars : text.toList = '-' :: ((toString n).toList ++ ['.', '0']) := by
          simp [written, String.toList_append]
        cases zero with
        | inl plain =>
            rw [plain] at chars
            cases (List.cons.inj chars).1
        | inr signed =>
            rw [signed] at chars
            have digits : ['0'] = (toString n).toList :=
              List.append_cancel_right (List.cons.inj chars).2
            exact toString_eq_zero.mp digits.symm
  · intro zero
    cases negative with
    | false => exact .inl (by rw [written, zero]; rfl)
    | true => exact .inr (by rw [written, zero]; rfl)

/-- A float that counts as false is one that reads as zero. -/
theorem isTruthy_float : isTruthy (.float f) = false ↔
    renderScalar std (.float f) = "0.0" ∨ renderScalar std (.float f) = "-0.0" := by
  have zero : isTruthy (.float f) = false ↔ ∃ negative, wholeNumber f = some (negative, 0) := by
    rw [wholeNumber_eq_zero]
    simp [isTruthy]
  rw [zero]
  cases whole : wholeNumber f with
  | none =>
      have other := std.display_nonzero f whole
      simp [renderScalar, whole, other.1, other.2]
  | some number =>
      obtain ⟨negative, n⟩ := number
      have written : renderScalar std (.float f) =
          (if negative then "-" else "") ++ toString n ++ ".0" := by
        simp only [renderScalar, whole]
      rw [wholeText_eq_zero written]
      simp

theorem isTruthy_int {i : Int} :
    isTruthy (.int i) = false ↔ renderScalar std (.int i) = "0" := by
  have zero : isTruthy (.int i) = false ↔ i = 0 := by simp [isTruthy]
  rw [zero]
  constructor
  · intro h
    rw [h]
    rfl
  · intro text
    cases i with
    | ofNat n => exact congrArg Int.ofNat (toString_inj (k := 0) text)
    | negSucc n =>
        have chars := congrArg String.toList text
        have signed : (renderScalar std (.int (.negSucc n))).toList =
            '-' :: (toString (n + 1)).toList := by
          change ("-" ++ toString (n + 1)).toList = _
          rw [String.toList_append]
          rfl
        rw [signed] at chars
        cases (List.cons.inj chars).1

/-- The type and the text decide whether a toggle is given. -/
theorem isTruthy_of_typed {v w : SettingValue} (h : typed std v = typed std w) :
    isTruthy v = isTruthy w := by
  have text : renderScalar std v = renderScalar std w := congrArg Prod.snd h
  have type : scalarType v = scalarType w := congrArg Prod.fst h
  have eq_of_false (h : isTruthy v = false ↔ isTruthy w = false) : isTruthy v = isTruthy w := by
    cases hv : isTruthy v <;> cases hw : isTruthy w <;> simp_all
  cases v with
  | bool b =>
      cases w with
      | bool c =>
          have texts : ∀ b c : Bool, toString b = toString c → b = c := by decide
          exact congrArg (fun b => isTruthy (.bool b)) (texts b c text)
      | int | float | str => cases type
  | int i =>
      cases w with
      | int j => exact eq_of_false (by rw [isTruthy_int, isTruthy_int, text])
      | bool | float | str => cases type
  | float f =>
      cases w with
      | float g => exact eq_of_false (by rw [isTruthy_float, isTruthy_float, text])
      | bool | int | str => cases type
  | str s =>
      cases w with
      | str t => exact congrArg (fun u => isTruthy (.str u)) text
      | bool | int | float => cases type

end Scalars

/-- What a command takes of a setting. -/
def shown (std : StdText) (v : SettingValue) : String × Bool := (renderScalar std v, isTruthy v)

theorem shown_of_typed {std : StdText} {v w : SettingValue} (h : typed std v = typed std w) :
    shown std v = shown std w :=
  Prod.ext (congrArg Prod.snd h) (isTruthy_of_typed h)

/-- The two configurations have the same keys, and what a command takes of their
values is the same. -/
def Alike (std : StdText) (m n : Config) : Prop := m.map (shown std) = n.map (shown std)

namespace Alike
variable {std : StdText} {m n : Config} {k : String} {v w : SettingValue}

theorem of_typed (h : m.map (typed std) = n.map (typed std)) : Alike std m n :=
  SortedMap.map_eq_of_map_eq h fun _ _ => shown_of_typed

section Operations
variable (alike : Alike std m n)
include alike

theorem isSome (k : String) : (m.get? k).isSome = (n.get? k).isSome := by
  cases SortedMap.get?_of_map_eq alike k with
  | inl absent => rw [absent.1, absent.2]
  | inr there =>
      obtain ⟨v, w, hv, hw, _⟩ := there
      rw [hv, hw]
      rfl

theorem insert (same : shown std v = shown std w) : Alike std (m.insert k v) (n.insert k w) := by
  unfold Alike
  rw [SortedMap.map_insert, SortedMap.map_insert, alike, same]

theorem remove (k : String) : Alike std (m.remove k) (n.remove k) := by
  unfold Alike
  rw [SortedMap.map_remove, SortedMap.map_remove, alike]

theorem extend (entries : List (String × SettingValue)) :
    Alike std (m.extend entries) (n.extend entries) := by
  unfold Alike
  rw [SortedMap.map_extend, SortedMap.map_extend, alike]

theorem normalize : Alike std (normalize m) (normalize n) := by
  have rest := alike.remove "auth_token"
  unfold Translate.normalize
  cases SortedMap.get?_of_map_eq alike "auth_token" with
  | inl absent =>
      rw [absent.1, absent.2]
      exact alike
  | inr there =>
      obtain ⟨v, w, hv, hw, same⟩ := there
      simp only [hv, hw, rest.isSome "api_key"]
      split
      · exact rest
      · exact rest.insert same

/-- The configuration chain keeps what a command takes. -/
theorem resolve (user overrides : Config) :
    Alike std (resolve m user overrides) (resolve n user overrides) :=
  ((alike.extend user.entries).extend overrides.entries).normalize

theorem validateNoAliasConflict : validateNoAliasConflict m = validateNoAliasConflict n := by
  apply aliasConflict_congr
  intro k
  rw [← Option.not_isSome, ← Option.not_isSome]
  exact congrArg not (alike.isSome k)

/-- The serve flags, and what no flag claims. -/
theorem renderFlags (skip : List String) :
    renderFlags std m skip = renderFlags std n skip := by
  have each (flag : Flag) : (m.get? flag.key).map (renderFlag std flag) =
      (n.get? flag.key).map (renderFlag std flag) := by
    cases SortedMap.get?_of_map_eq alike flag.key with
    | inl absent => rw [absent.1, absent.2]
    | inr there =>
        obtain ⟨v, w, hv, hw, same⟩ := there
        have rendered : renderScalar std v = renderScalar std w := congrArg Prod.fst same
        have truthy : isTruthy v = isTruthy w := congrArg Prod.snd same
        rw [hv, hw, Option.map_some, Option.map_some, renderFlag, renderFlag, rendered, truthy]
  have leftOver (claimed : List String) :
      (m.entries.filter fun e => !claimed.contains e.1).map
          (fun e => (⟨e.1, renderScalar std e.2⟩ : UnmappedKey)) =
        (n.entries.filter fun e => !claimed.contains e.1).map
          fun e => ⟨e.1, renderScalar std e.2⟩ := by
    have through (m : Config) : (m.entries.filter fun e => !claimed.contains e.1).map
          (fun e => (⟨e.1, renderScalar std e.2⟩ : UnmappedKey)) =
        ((m.map (shown std)).entries.filter fun e => !claimed.contains e.1).map
          fun e => ⟨e.1, e.2.1⟩ := by
      simp only [SortedMap.map, List.filter_map, List.map_map]
      rfl
    rw [through, through, alike]
  simp only [Translate.renderFlags, each, alike.isSome, leftOver]

end Operations
end Alike

section Recipes
variable {std : StdText} {r s : ParsedRecipe}

/-- Recipes of one meaning and one name, with the same refused keys, are translated
alike; each says what it does not know. -/
theorem SameMeaning.translate (same : SameMeaning std r s) (name : r.name = s.name)
    (refused : r.refusedKeys = s.refusedKeys) (overrides userConfig : Config)
    (host : HostSnapshot) (placement : Placement) (ctx : LaunchContext) :
    translate std r overrides userConfig host placement ctx =
      (translate std s overrides userConfig host placement ctx).map
        fun plan => { plan with unknownKeys := r.unknownKeys } := by
  have launchable : r.launchable = s.launchable := by
    simp only [ParsedRecipe.launchable, refused, same.runtime, same.recipeVersion]
  have nodes : checkNodes r placement = checkNodes s placement := by
    simp only [checkNodes, name, same.topology]
  have alike : Alike std (resolve r.defaults userConfig overrides)
      (resolve s.defaults userConfig overrides) :=
    (Alike.of_typed same.defaults).resolve userConfig overrides
  have rank : rankFlags r placement = rankFlags s placement := by
    cases placement with
    | solo => rfl
    | rank => simp only [rankFlags, name]
  have env : buildEnv std r host placement ctx.collective =
      buildEnv std s host placement ctx.collective := by
    simp only [buildEnv, name, same.env]
  have docker (serveFlags : List String) (env : Env) :
      dockerRun r host placement ctx serveFlags env =
        dockerRun s host placement ctx serveFlags env := by
    simp only [dockerRun, name, same.model, same.container]
  unfold Translate.translate
  simp only [launchable, nodes, alike.validateNoAliasConflict, alike.renderFlags, rank, env, name,
    docker]
  cases s.launchable with
  | error _ => rfl
  | ok _ =>
      cases checkNodes s placement with
      | error _ => rfl
      | ok _ =>
          simp only [bind, Except.bind]
          cases validateNoAliasConflict (resolve s.defaults userConfig overrides) with
          | error _ => rfl
          | ok _ =>
              cases rankFlags s placement with
              | error _ => rfl
              | ok _ => cases buildEnv std s host placement ctx.collective <;> rfl

/-- What two nodes compare decides what they run: recipes that are hashed alike mean
the same launch, and under one name are translated to the same command. -/
theorem launch_of_hashed (hr : Framed std r) (hs : Framed std s)
    (h : hashed std r = hashed std s) :
    SameMeaning std r s ∧ (r.name = s.name → r.refusedKeys = s.refusedKeys →
      ∀ (overrides userConfig : Config) (host : HostSnapshot) (placement : Placement)
        (ctx : LaunchContext), Translate.translate std r overrides userConfig host placement ctx =
          (Translate.translate std s overrides userConfig host placement ctx).map
            fun plan => { plan with unknownKeys := r.unknownKeys }) := by
  have same := sameMeaning_of_fields (fields_inj hr hs h)
  exact ⟨same, same.translate⟩

end Recipes

section Fixed

/-- A note in one of two recipes is reported, and changes nothing else. -/
theorem launch_of_hashed_noted :
    translate asciiText { curious with unknownKeys := ["note"] } .empty .empty (hostWith "") .solo
        ⟨rootlessV1, .nvidia, .noCollectiveEnv⟩ =
      (translate asciiText curious .empty .empty (hostWith "") .solo
        ⟨rootlessV1, .nvidia, .noCollectiveEnv⟩).map
          fun plan => { plan with unknownKeys := ["note"] } :=
  (launch_of_hashed (by decide) (by decide) rfl).2 rfl rfl _ _ _ _ _

/-- A recipe file with keys the schema does not name. -/
def withKeys (keys : List String) : RawRecipe where
  minNodes := none
  maxNodes := none
  soloOnly := none
  clusterOnly := none
  recipeVersion := none
  model := some "org/model"
  modelRevision := none
  runtime := some "metrale"
  container := some "image:tag"
  defaults := .ofList [("port", .int 8888), ("temperature", .str "1")]
  env := .empty
  requires := none
  extra := .ofList (keys.map fun k => (k, ()))

/-- Neither a note nor a hook is hashed; one is reported, and the other refused. -/
theorem not_sameResult : ∃ plain noted hooked,
    ParsedRecipe.ofRaw "r" (withKeys []) = .ok plain ∧
    ParsedRecipe.ofRaw "r" (withKeys ["note"]) = .ok noted ∧
    ParsedRecipe.ofRaw "r" (withKeys ["pre_exec"]) = .ok hooked ∧
    hashed asciiText plain = hashed asciiText noted ∧
    hashed asciiText plain = hashed asciiText hooked ∧
    translate asciiText plain .empty .empty (hostWith "") .solo
        ⟨rootlessV1, .nvidia, .noCollectiveEnv⟩ ≠
      translate asciiText noted .empty .empty (hostWith "") .solo
        ⟨rootlessV1, .nvidia, .noCollectiveEnv⟩ ∧
    translate asciiText plain .empty .empty (hostWith "") .solo
        ⟨rootlessV1, .nvidia, .noCollectiveEnv⟩ ≠
      translate asciiText hooked .empty .empty (hostWith "") .solo
        ⟨rootlessV1, .nvidia, .noCollectiveEnv⟩ := by
  refine ⟨_, _, _, rfl, rfl, rfl, rfl, rfl, ?_, ?_⟩
  · intro same
    cases congrArg (fun result => result.toOption.map (·.unknownKeys)) same
  · intro same
    cases same

end Fixed

end Translate
end Metralectl
