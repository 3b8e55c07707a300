import Metralectl.Translate.Command

/-!
What of a host reaches a command. Of its environment only the passthrough variables
do, however a recipe spells a reference to another: a name outside the list reads
as unset.
-/
namespace Metralectl
namespace Translate
open SortedMaps

/-- The two hosts differ in nothing but variables outside the passthrough list. -/
structure SamePassthrough (h₁ h₂ : HostSnapshot) : Prop where
  user : h₁.posixUser = h₂.posixUser
  home : h₁.home = h₂.home
  cache : h₁.hfCacheDir = h₂.hfCacheDir
  listed : ∀ k ∈ passthroughEnv, h₁.env.get? k = h₂.env.get? k

section Hosts
variable {h₁ h₂ : HostSnapshot} (same : SamePassthrough h₁ h₂)
include same

theorem SamePassthrough.allowed :
    h₁.env.keep (fun k => passthroughEnv.contains k) =
      h₂.env.keep fun k => passthroughEnv.contains k := by
  apply SortedMap.ext_get?
  intro k
  rw [SortedMap.get?_keep, SortedMap.get?_keep]
  split
  · next listed => exact same.listed k (List.contains_iff_mem.mp listed)
  · rfl

/-- A recipe's text reads the same on both. -/
theorem SamePassthrough.expandAllowed (std : StdText) (raw : String) :
    expandAllowed std h₁ raw = expandAllowed std h₂ raw := by
  simp only [Translate.expandAllowed, HostSnapshot.expand, same.allowed]

theorem SamePassthrough.buildEnv (std : StdText) (recipe : ParsedRecipe) (placement : Placement)
    (collective : CollectiveEnv) :
    buildEnv std recipe h₁ placement collective = buildEnv std recipe h₂ placement collective := by
  have expanded : Translate.expandAllowed std h₁ = Translate.expandAllowed std h₂ := by
    funext raw
    exact same.expandAllowed std raw
  simp only [Translate.buildEnv, expanded]

/-- Everything else of a host that a command takes is the same. -/
theorem SamePassthrough.dockerRun (recipe : ParsedRecipe) (placement : Placement)
    (ctx : LaunchContext) (serveFlags : List String) (env : Env) :
    dockerRun recipe h₁ placement ctx serveFlags env =
      dockerRun recipe h₂ placement ctx serveFlags env := by
  simp only [Translate.dockerRun, same.user, same.cache]

end Hosts

/-- Whatever a recipe says, its command depends on no variable of the host outside
the passthrough list. -/
theorem translate_samePassthrough (std : StdText) (recipe : ParsedRecipe)
    (overrides userConfig : Config) (placement : Placement) (ctx : LaunchContext)
    {h₁ h₂ : HostSnapshot} (same : SamePassthrough h₁ h₂) :
    translate std recipe overrides userConfig h₁ placement ctx =
      translate std recipe overrides userConfig h₂ placement ctx := by
  unfold translate
  simp only [same.buildEnv, same.dockerRun]

section Fixed

/-- Only letters and digits of ASCII count, and a float is its bits. -/
def asciiText : StdText where
  alphanumeric c := c.isAlphanum
  display f := "0x" ++ String.ofList (hexDigits 16 f.toNat)
  display_nonzero f _ := by
    have second (s : String) : ("0x" ++ s).toList[1]? = some 'x' := by
      rw [String.toList_append]
      rfl
    have other {t : String} (h : t.toList[1]? ≠ some 'x') :
        "0x" ++ String.ofList (hexDigits 16 f.toNat) ≠ t := by
      intro same
      rw [← same] at h
      exact h (second _)
    exact ⟨other (by decide), other (by decide)⟩

def hostWith (token : String) : HostSnapshot where
  posixUser := some ⟨1000, 1000⟩
  home := "/home/user"
  hfCacheDir := "/home/user/.cache/huggingface"
  env := .ofList [("HF_TOKEN", token), ("http_proxy", "http://proxy:3128")]

/-- A recipe that asks for the token and for a proxy. -/
def curious : ParsedRecipe where
  name := "curious"
  recipeVersion := "2"
  model := "org/model"
  modelRevision := none
  runtime := .metrale
  container := "image:tag"
  topology := .fromRaw ⟨none, none, none, none⟩
  defaults := .empty
  env := .ofList [("SENT", "${HF_TOKEN}$http_proxy")]
  requires := none
  unknownKeys := []
  refusedKeys := []

theorem translate_samePassthrough_token :
    translate asciiText curious .empty .empty (hostWith "secret") .solo
        ⟨rootlessV1, .nvidia, .noCollectiveEnv⟩ =
      translate asciiText curious .empty .empty (hostWith "other") .solo
        ⟨rootlessV1, .nvidia, .noCollectiveEnv⟩ :=
  translate_samePassthrough asciiText curious .empty .empty .solo _ ⟨rfl, rfl, rfl, by decide⟩

/-- What the container is sent. -/
example : expandAllowed asciiText (hostWith "secret") "${HF_TOKEN}$http_proxy" =
    "http://proxy:3128" := by decide

end Fixed

end Translate
end Metralectl
