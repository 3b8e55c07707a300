import Metralectl.Control.DockerLauncher
import Metralectl.Translate.Offline

/-!
Who calls the translation. A node's launcher renders a recipe for itself alone and
keeps the container of a launch that died; a machine renders its rank of a cluster.
What each of them was taken to do elsewhere is what the translation does.
-/
namespace Metralectl
namespace Translate
open SortedMaps Rendering Docker

/-- What a node's launcher renders from. -/
structure NodeRenderer where
  std : StdText
  host : HostSnapshot
  profile : LaunchProfile
  devices : DeviceProfile
  missingWeights : String → Option String
  /-- The recipe behind what the control core sees of it. -/
  parsed : Recipe → ParsedRecipe
  named : ∀ recipe, (parsed recipe).name = recipe.name.text

namespace NodeRenderer
variable {m : NodeRenderer} {recipe : Recipe} {overrides : Settings} {cmd : DockerCommand}

/-- A launch on one node, over no configuration of the user's. -/
def translated (m : NodeRenderer) (recipe : Recipe) (overrides : Settings) :
    Except TranslateError LaunchPlan :=
  translate m.std (m.parsed recipe) (.ofList overrides) .empty m.host .solo
    ⟨m.profile, m.devices, .ncclRoce⟩

/-- The agent removes the container itself, so what a rank that dies leaves is kept. -/
def plan (m : NodeRenderer) (recipe : Recipe) (overrides : Settings) :
    Except String DockerCommand :=
  match m.translated recipe overrides with
  | .error e => .error e.text
  | .ok plan => .ok ({ plan.docker with autoRemove := false } : DockerRun).launched

theorem plan_ok (h : m.plan recipe overrides = .ok cmd) :
    ∃ plan, m.translated recipe overrides = .ok plan ∧ cmd = plan.docker.launched := by
  unfold NodeRenderer.plan at h
  cases translated : m.translated recipe overrides with
  | error e =>
      rw [translated] at h
      cases h
  | ok plan =>
      rw [translated] at h
      exact ⟨plan, rfl, (Except.ok.inj h).symm⟩

/-- The launcher's rendering, as whoever launches and looks for launches relies on it. -/
def rendering (m : NodeRenderer) : Docker.Rendering where
  plan := m.plan
  missingWeights := m.missingWeights
  plan_name := by
    intro recipe overrides cmd h
    obtain ⟨plan, translated, rfl⟩ := plan_ok h
    obtain ⟨rank, env, _, _, docker⟩ := (translate_ok translated).built
    simp only [docker, dockerRun, DockerRun.launched, Placement.named, m.named]
  plan_labels := by
    intro recipe overrides cmd h
    obtain ⟨plan, translated, rfl⟩ := plan_ok h
    obtain ⟨rank, env, _, _, docker⟩ := (translate_ok translated).built
    simp only [docker, dockerRun, DockerRun.launched, m.named]

/-- What is launched on a node is offline when its recipe spoofs neither variable. -/
theorem rendering_offline (h : m.rendering.plan recipe overrides = .ok cmd)
    (honest : ∀ name ∈ egressEnv, ∀ e ∈ (m.parsed recipe).env.entries, ¬ Spoofs name e.1) :
    ∀ name ∈ egressEnv,
      containerEnv (cmd.env.map fun e => s!"{e.1}={e.2}") name = some "1".toList := by
  obtain ⟨plan, translated, rfl⟩ := plan_ok h
  obtain ⟨rank, env, _, built, docker⟩ := (translate_ok translated).built
  have offline := (buildEnv_offline built).mpr honest
  rw [docker]
  exact offline

end NodeRenderer

/-- The recipe a registry ships, read in full. -/
structure Ships (shipped : ShippedRecipe) (parsed : ParsedRecipe) : Prop where
  name : parsed.name = shipped.name.text
  control : parsed.control shipped.name = shipped.toRecipe
  topology : parsed.topology = shipped.topology
  defaults : parsed.defaults.entries = shipped.defaults
  env : parsed.env.entries = shipped.env

section Ranks

theorem lookup_filter_ne (xs : Settings) (j k : String) :
    (xs.filter (·.1 ≠ j)).lookup k = if k = j then none else xs.lookup k := by
  have missed {i : String} (v : SettingValue) (rest : Settings) (other : k ≠ i) :
      ((i, v) :: rest).lookup k = rest.lookup k := by
    rw [List.lookup_cons, beq_eq_false_iff_ne.mpr other]
  induction xs with
  | nil => exact (ite_self none).symm
  | cons e xs ih =>
      obtain ⟨i, v⟩ := e
      by_cases dropped : i = j
      · rw [List.filter_cons_of_neg (by simp [dropped]), ih]
        by_cases asked : k = j
        · rw [if_pos asked, if_pos asked]
        · rw [if_neg asked, if_neg asked, missed v xs (dropped ▸ asked)]
      · rw [List.filter_cons_of_pos (by simpa using dropped)]
        by_cases asked : k = i
        · rw [asked, List.lookup_cons_self, List.lookup_cons_self, if_neg dropped]
        · rw [missed v _ asked, missed v _ asked, ih]

/-- Settings in a list are resolved as the configuration chain resolves them. -/
theorem lookup_resolveConfig (defaults overrides : Config) (k : String) :
    (resolveConfig defaults.entries overrides.entries).lookup k =
      (resolve defaults .empty overrides).get? k := by
  have merged (k : String) : (overrides.entries ++ defaults.entries.filter
      fun kv => (overrides.entries.lookup kv.1).isNone).lookup k =
        (defaults.extend overrides.entries).get? k := by
    have unset := SortedMap.get?_keep (m := defaults) (k := k) fun k =>
      (overrides.entries.lookup k).isNone
    have own : (defaults.entries.filter fun kv =>
        (overrides.entries.lookup kv.1).isNone).lookup k = if (overrides.get? k).isNone then
          defaults.get? k else none := unset
    rw [List.lookup_append, own, SortedMap.get?_extend]
    change (overrides.get? k).or _ = _
    cases overrides.get? k <;> rfl
  have chain : resolve defaults .empty overrides =
      normalize (defaults.extend overrides.entries) := rfl
  rw [chain]
  unfold resolveConfig normalize
  generalize overrides.entries ++ defaults.entries.filter
    (fun kv => (overrides.entries.lookup kv.1).isNone) = list at merged ⊢
  generalize defaults.extend overrides.entries = m at merged ⊢
  have rest (k : String) : (list.filter (·.1 ≠ "auth_token")).lookup k =
      (m.remove "auth_token").get? k := by
    rw [lookup_filter_ne, merged, SortedMap.get?_remove]
  simp only [merged, rest]
  cases m.get? "auth_token" with
  | none => exact merged k
  | some v =>
      by_cases set : ((m.remove "auth_token").get? "api_key").isSome
      · simp only [set, if_true]
        exact rest k
      · simp only [set, Bool.false_eq_true, if_false]
        rw [List.lookup_append, rest, SortedMap.get?_insert]
        by_cases asked : k = "api_key"
        · rw [asked, Option.not_isSome_iff_eq_none.mp set]
          rfl
        · rw [if_neg asked, List.lookup_cons, beq_eq_false_iff_ne.mpr asked]
          exact Option.or_none

/-- A rank is refused for what the translation refuses, in its order, and named as the
translation names it. -/
theorem rank_translate {m : RankMachine} {shipped : ShippedRecipe} {parsed : ParsedRecipe}
    (ships : Ships shipped parsed) (flags : m.flagTable = metraleFlags.map (·.toFlagSpec))
    (std : StdText) (overrides : Config) (host : HostSnapshot) (ctx : LaunchContext)
    (a : RankAssignment) :
    (m.translate shipped overrides.entries a).map (·.name) =
      (translate std parsed overrides .empty host
        (.rank a.rank a.worldSize a.masterAddr a.masterPort) ctx).map (·.docker.name) := by
  have able : parsed.launchable = shipped.launchable := by
    rw [← ParsedRecipe.control_launchable parsed shipped.name, ships.control]
  have nodes : checkNodes parsed (.rank a.rank a.worldSize a.masterAddr a.masterPort) =
      checkNodeCount shipped a.worldSize := by
    simp only [checkNodes, checkNodeCount, ships.name, ships.topology]
  have named {serveFlags : List String} {env : Env} :
      (dockerRun parsed host (.rank a.rank a.worldSize a.masterAddr a.masterPort) ctx serveFlags
        env).name = containerName shipped.name.text (.rank a.rank) := by
    rw [← ships.name]
    rfl
  have aliases : validateNoAliasConflict (resolve parsed.defaults .empty overrides) =
      aliasConflict [] (resolveConfig shipped.defaults overrides.entries) m.flagTable := by
    rw [flags, ← ships.defaults]
    refine aliasConflict_congr (fun k => ?_) _ _
    rw [lookup_resolveConfig]
    rfl
  unfold RankMachine.translate Translate.translate
  rw [able, nodes]
  cases shipped.launchable with
  | error _ =>
      rw [ships.name]
      rfl
  | ok _ =>
      cases checkNodeCount shipped a.worldSize with
      | error _ => rfl
      | ok _ =>
          simp only [bind, Except.bind, aliases]
          cases aliasConflict [] (resolveConfig shipped.defaults overrides.entries)
            m.flagTable with
          | error _ =>
              rw [ships.name]
              rfl
          | ok _ =>
              simp only [rankFlags, ships.name, buildEnv, ships.env]
              by_cases meets : (Net.parseIp a.masterAddr).isNone
              · simp only [meets, if_true]
                rfl
              · simp only [meets, Bool.false_eq_true, if_false, List.contains_eq_mem, pure,
                  Except.pure]
                cases shipped.env.find? fun e => decide (e.1 ∈ egressEnv) with
                | some e => rfl
                | none => exact congrArg Except.ok named.symm

end Ranks

end Translate
end Metralectl
