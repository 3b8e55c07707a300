import Metralectl.Library.Framing
import Metralectl.Translate.Command

/-!
What two nodes compare before a cluster starts: a hash of what a recipe means. It
covers the fields that reach the command line, each after its length, and of a
setting its type and the text it is rendered as.
-/
namespace Metralectl
namespace Translate
open SortedMaps Framing

/-- Domain separator: the hash is not confused with one over similar material. -/
def domain : String := "metralectl.recipe.v1"

/-- What no revision is written as. It is not the empty text. -/
def noRevision : String := "\x00none"

def utf8 (s : String) : Bytes := s.toUTF8.data.toList

def scalarTag (std : StdText) : SettingValue → String
  | .bool b => s!"b:{b}"
  | .int i => s!"i:{i}"
  | .float f => "f:" ++ renderScalar std (.float f)
  | .str s => s!"s:{s}"

def runtimeTag : RuntimeKind → String
  | .metrale => "metrale"
  | .unsupported name => s!"unsupported:{name}"

def topologyText (t : Topology) : String :=
  let most := (t.maxNodes.map toString).getD "unbounded"
  s!"{t.minNodes}:{most}"

/-- The fields that are always there, in their order. -/
def header (r : ParsedRecipe) : List (String × String) :=
  [("recipe_version", r.recipeVersion), ("model", r.model),
    ("model_revision", r.modelRevision.getD noRevision), ("runtime", runtimeTag r.runtime),
    ("container", r.container), ("topology", topologyText r.topology)]

/-- Every field with its value. A name of its own stands before each of the two maps. -/
def fields (std : StdText) (r : ParsedRecipe) : List (String × String) :=
  header r ++ ("defaults", "") :: (r.defaults.entries.map fun e => (e.1, scalarTag std e.2)) ++
    ("env", "") :: r.env.entries

/-- The bytes that are hashed. -/
def hashed (std : StdText) (r : ParsedRecipe) : Bytes :=
  utf8 domain ++ pairs 4 ((fields std r).map fun f => (utf8 f.1, utf8 f.2))

/-- The content hash, in lower case hex. -/
def contentHash (sha256 : Bytes → Bytes) (std : StdText) (r : ParsedRecipe) : String :=
  String.ofList ((sha256 (hashed std r)).flatMap fun b => hexDigits 2 b.toNat)

/-- Every text of the recipe is shorter than a length can say. -/
def Framed (std : StdText) (r : ParsedRecipe) : Prop :=
  ∀ f ∈ fields std r, Fits 4 (utf8 f.1) ∧ Fits 4 (utf8 f.2)

instance (std : StdText) (r : ParsedRecipe) : Decidable (Framed std r) :=
  inferInstanceAs (Decidable (∀ f ∈ fields std r, _))

/-- What type a setting has. -/
inductive ScalarType where
  | bool
  | int
  | float
  | str
deriving DecidableEq

def scalarType : SettingValue → ScalarType
  | .bool _ => .bool
  | .int _ => .int
  | .float _ => .float
  | .str _ => .str

/-- A setting as far as the command line tells, with its type. -/
def typed (std : StdText) (v : SettingValue) : ScalarType × String :=
  (scalarType v, renderScalar std v)

/-- The two recipes mean the same launch. -/
structure SameMeaning (std : StdText) (r s : ParsedRecipe) : Prop where
  recipeVersion : r.recipeVersion = s.recipeVersion
  model : r.model = s.model
  modelRevision : r.modelRevision ≠ some noRevision → s.modelRevision ≠ some noRevision →
    r.modelRevision = s.modelRevision
  runtime : r.runtime = s.runtime
  container : r.container = s.container
  topology : r.topology = s.topology
  defaults : r.defaults.map (typed std) = s.defaults.map (typed std)
  env : r.env = s.env

section Tags
variable {std : StdText}

theorem utf8_inj {s t : String} (h : utf8 s = utf8 t) : s = t :=
  String.toByteArray_inj.mp (ByteArray.ext (Array.toList_inj.mp h))

/-- The letter of a type. -/
def ScalarType.letter : ScalarType → Char
  | .bool => 'b'
  | .int => 'i'
  | .float => 'f'
  | .str => 's'

theorem ScalarType.letter_inj {a b : ScalarType} (h : a.letter = b.letter) : a = b := by
  cases a <;> cases b <;> simp_all [ScalarType.letter]

theorem toList_scalarTag (v : SettingValue) : (scalarTag std v).toList =
    (scalarType v).letter :: ':' :: (renderScalar std v).toList := by
  have split (front text : String) : (front ++ text).toList = front.toList ++ text.toList :=
    String.toList_append
  cases v with
  | bool b => exact split "b:" (toString b)
  | int i => exact split "i:" (toString i)
  | float f => exact split "f:" (renderScalar std (.float f))
  | str s => exact split "s:" s

theorem scalarTag_inj {v w : SettingValue} (h : scalarTag std v = scalarTag std w) :
    typed std v = typed std w := by
  have chars := congrArg String.toList h
  simp only [toList_scalarTag, List.cons.injEq, true_and] at chars
  exact Prod.ext (ScalarType.letter_inj chars.1) (String.toList_inj.mp chars.2)

theorem scalarTag_ne_empty (v : SettingValue) : scalarTag std v ≠ "" := by
  intro empty
  have chars := congrArg String.toList empty
  rw [toList_scalarTag] at chars
  cases chars

theorem runtimeTag_inj {a b : RuntimeKind} (h : runtimeTag a = runtimeTag b) : a = b := by
  have chars := congrArg String.toList h
  have other (name : String) : (runtimeTag (.unsupported name)).toList =
      "unsupported:".toList ++ name.toList := String.toList_append
  cases a with
  | metrale =>
      cases b with
      | metrale => rfl
      | unsupported name =>
          rw [other] at chars
          cases chars
  | unsupported name =>
      cases b with
      | metrale =>
          rw [other] at chars
          cases chars
      | unsupported name' =>
          rw [other, other] at chars
          rw [String.toList_inj.mp (List.append_cancel_left chars)]

theorem topologyText_inj {t u : Topology} (h : topologyText t = topologyText u) : t = u := by
  have chars (t : Topology) : (topologyText t).toList = (toString t.minNodes).toList ++
      ':' :: ((t.maxNodes.map toString).getD "unbounded").toList := by
    change (toString t.minNodes ++ ":" ++ (t.maxNodes.map toString).getD "unbounded").toList = _
    simp [String.toList_append]
  have digits (n : Nat) : ':' ∉ (toString n).toList := fun colon => by
    cases toString_isDigit _ colon
  have both := congrArg String.toList h
  rw [chars, chars] at both
  obtain ⟨fewest, most⟩ := marked_inj (digits _) (digits _) both
  have minNodes := toString_inj (String.toList_inj.mp fewest)
  have bounded (n : Nat) : toString n ≠ "unbounded" := fun same => by
    have letter : 'u' ∈ (toString n).toList := by
      rw [same]
      decide
    cases toString_isDigit _ letter
  have maxNodes : t.maxNodes = u.maxNodes := by
    have texts := String.toList_inj.mp most
    cases ht : t.maxNodes with
    | none =>
        cases hu : u.maxNodes with
        | none => rfl
        | some m =>
            rw [ht, hu] at texts
            exact absurd texts.symm (bounded m)
    | some n =>
        cases hu : u.maxNodes with
        | none =>
            rw [ht, hu] at texts
            exact absurd texts (bounded n)
        | some m =>
            rw [ht, hu] at texts
            rw [toString_inj texts]
  cases t
  cases u
  cases minNodes
  cases maxNodes
  rfl

end Tags

section Streams
variable {std : StdText} {r s : ParsedRecipe}

theorem fields_inj (hr : Framed std r) (hs : Framed std s) (h : hashed std r = hashed std s) :
    fields std r = fields std s := by
  have fits {r : ParsedRecipe} (hr : Framed std r) :
      ∀ e ∈ (fields std r).map fun f => (utf8 f.1, utf8 f.2), Fits 4 e.1 ∧ Fits 4 e.2 := by
    intro e he
    obtain ⟨f, hf, rfl⟩ := List.mem_map.mp he
    exact hr f hf
  have bytes := pairs_inj (by decide) (fits hr) (fits hs) (List.append_cancel_left h)
  refine List.map_injective_iff.mpr ?_ bytes
  intro f g same
  exact Prod.ext (utf8_inj (congrArg Prod.fst same)) (utf8_inj (congrArg Prod.snd same))

/-- The six fields, the settings and the variables are read off their list. The empty
value that stands before the variables is no setting's. -/
theorem parts_eq (h : fields std r = fields std s) : header r = header s ∧
    r.defaults.map (scalarTag std) = s.defaults.map (scalarTag std) ∧ r.env = s.env := by
  have unmarked (m : Config) :
      ("env", "") ∉ m.entries.map fun e => (e.1, scalarTag std e.2) := by
    intro marked
    obtain ⟨e, _, same⟩ := List.mem_map.mp marked
    exact scalarTag_ne_empty e.2 (congrArg Prod.snd same)
  simp only [fields, List.append_assoc, List.cons_append] at h
  obtain ⟨heads, rest⟩ := List.append_inj h rfl
  obtain ⟨settings, environment⟩ :=
    marked_inj (unmarked r.defaults) (unmarked s.defaults) (List.cons.inj rest).2
  exact ⟨heads, SortedMap.ext settings, SortedMap.ext environment⟩

/-- Recipes that are hashed alike mean the same launch. -/
theorem sameMeaning_of_fields (h : fields std r = fields std s) : SameMeaning std r s := by
  obtain ⟨heads, settings, environment⟩ := parts_eq h
  simp only [header, List.cons.injEq, Prod.mk.injEq, true_and, and_true] at heads
  obtain ⟨version, model, revision, runtime, container, topology⟩ := heads
  refine ⟨version, model, ?_, runtimeTag_inj runtime, container, topologyText_inj topology,
    SortedMap.map_eq_of_map_eq settings fun _ _ => scalarTag_inj, environment⟩
  intro hr hs
  cases pr : r.modelRevision with
  | none =>
      cases ps : s.modelRevision with
      | none => rfl
      | some q =>
          rw [pr, ps] at revision
          exact absurd (ps.trans (congrArg some revision.symm)) hs
  | some q =>
      cases ps : s.modelRevision with
      | none =>
          rw [pr, ps] at revision
          exact absurd (pr.trans (congrArg some revision)) hr
      | some q' =>
          rw [pr, ps] at revision
          exact congrArg some revision

end Streams

end Translate
end Metralectl
