import Metralectl.Control.Ownership
import Metralectl.Library.Json

/-!
What docker prints of its containers, and what is read back of it: the owner a launch
wrote on its container, and the rows of a listing. A label of another program's
container may be any text.
-/
namespace Metralectl
namespace Docker
open Reconcile JsonText Traversal

/-- A part of a `--format` template. -/
inductive Part where
  | id
  | names
  | label (key : String)
  | text (literal : String)
deriving DecidableEq

def Part.template : Part → String
  | .id => "\x7b\x7b.ID\x7d\x7d"
  | .names => "\x7b\x7b.Names\x7d\x7d"
  | .label key => "\x7b\x7b.Label \"" ++ key ++ "\"\x7d\x7d"
  | .text literal => literal

/-- One definition for the query and the parser. -/
def psParts : List Part :=
  [.id, .text "\t", .names, .text "\t", .label labelRecipe, .text "\t", .label labelDeployment,
    .text "\t", .label labelGeneration]

def psFormat : String := String.join (psParts.map Part.template)

/-- What docker puts for a part: a label a container does not have is an empty text. -/
def Part.value (c : Container) : Part → List Char
  | .id => hexDigits 64 c.id.toNat
  | .names => c.name.toList
  | .label key => ((c.labels.lookup key).getD "").toList
  | .text literal => literal.toList

/-- What docker prints for the template, one line a container. -/
def psPrinted (cs : List Container) : String :=
  String.ofList (cs.flatMap fun c => psParts.flatMap (Part.value c) ++ ['\n'])

/-- A container's own row. -/
def ownRow (c : Container) : PrintedRow :=
  ⟨String.ofList (hexDigits 64 c.id.toNat), c.name, c.labels.lookup labelRecipe,
    c.labels.lookup labelDeployment, c.labels.lookup labelGeneration⟩

section Inspecting
variable (readFraction : List Char → Option F64)

def stringOf : Json F64 → Option String
  | .string s => some s
  | _ => none

/-- An optional list of texts; one that is missing or null is empty. -/
def stringsOf : Option (Json F64) → Option (List String)
  | none | some .null => some []
  | some (.array items) => items.mapM stringOf
  | _ => none

/-- An optional map of texts, in which the last of two for one key counts. -/
def labelsOf : Option (Json F64) → Option (List (String × String))
  | none | some .null => some []
  | some (.object members) =>
      (members.mapM fun m => (stringOf m.2).map (m.1, ·)).map List.reverse
  | _ => none

/-- A member of the config that may stand there once. -/
def single (members : List (String × Json F64)) (key : String) : Option (Option (Json F64)) :=
  match members.filter (·.1 = key) with
  | [] => some none
  | [m] => some (some m.2)
  | _ => none

/-- The config as an object, whose other members are ignored, or as an array. -/
def decodeConfig : Json F64 → Option LaunchedAs
  | .object members => do
      let image ← (← single members "Image").bind stringOf
      let cmd ← stringsOf (← single members "Cmd")
      let env ← stringsOf (← single members "Env")
      let labels ← labelsOf (← single members "Labels")
      some ⟨image, cmd, env, labels⟩
  | .array [image, cmd, env, labels] => do
      some ⟨← stringOf image, ← stringsOf (some cmd), ← stringsOf (some env),
        ← labelsOf (some labels)⟩
  | _ => none

/-- Parse `docker inspect` output; how an error is worded is left to the reader of JSON. -/
def parseInspect (why : String → String) (stdout : String) : Except String LaunchedAs :=
  match (parse readFraction (trimChars stdout.toList)).bind decodeConfig with
  | some launched => .ok launched
  | none => .error s!"docker inspect printed an unreadable config: {why stdout}"

end Inspecting

/-- A label's text that a listing can carry. -/
def Clean (text : String) : Prop :=
  text ≠ "" ∧ '\t' ∉ text.toList ∧ '\n' ∉ text.toList ∧ trim text = text

instance (text : String) : Decidable (Clean text) :=
  inferInstanceAs (Decidable (_ ∧ _ ∧ _ ∧ _))

/-- Docker gives every container a name, with no blank in it. -/
def Named (c : Container) : Prop := c.name ≠ "" ∧ ∀ x ∈ c.name.toList, isWhitespace x = false

instance (c : Container) : Decidable (Named c) :=
  @instDecidableAnd _ _ inferInstance (List.decidableBAll _ c.name.toList)

/-- The labels a listing prints. -/
def listedLabels : List String := [labelRecipe, labelDeployment, labelGeneration]

/-- The labels a launch for an owner writes are on it, among others. -/
def Carries (labels : List (String × String)) (owner : Owner) (trace : ControlTrace) : Prop :=
  ∀ e ∈ ownerLabels owner ++ traceLabels trace, labels.lookup e.1 = some e.2

section Listing
variable {c : Container} {cs : List Container}

theorem hexDigits_not_whitespace {digits n : Nat} :
    ∀ x ∈ hexDigits digits n, isWhitespace x = false := by
  intro x hx
  obtain ⟨i, _, rfl⟩ := List.mem_map.mp hx
  have small : n / 16 ^ (digits - 1 - i) % 16 < 16 := Nat.mod_lt _ (by decide)
  generalize n / 16 ^ (digits - 1 - i) % 16 = d at small
  revert d
  decide

/-- What is no blank is no separator. -/
theorem separators {x : Char} (plain : isWhitespace x = false) : x ≠ '\t' ∧ x ≠ '\n' := by
  constructor <;> rintro rfl <;> cases plain

def line (c : Container) : List Char := psParts.flatMap (Part.value c)

theorem line_eq (c : Container) : line c =
    hexDigits 64 c.id.toNat ++ '\t' :: (c.name.toList ++ '\t' ::
      (((c.labels.lookup labelRecipe).getD "").toList ++ '\t' ::
        (((c.labels.lookup labelDeployment).getD "").toList ++ '\t' ::
          ((c.labels.lookup labelGeneration).getD "").toList))) := by
  simp [line, psParts, Part.value]

/-- A column that a clean label stands in, or no label at all. -/
theorem column_clean {label : Option String} (clean : ∀ v ∈ label, Clean v) :
    '\t' ∉ (label.getD "").toList ∧ '\n' ∉ (label.getD "").toList ∧
      (if (trimChars (label.getD "").toList).isEmpty then none
        else some (String.ofList (trimChars (label.getD "").toList))) = label := by
  cases label with
  | none => exact ⟨List.not_mem_nil, List.not_mem_nil, rfl⟩
  | some v =>
      obtain ⟨some_, tab, feed, trimmed⟩ := clean v rfl
      have same : trimChars v.toList = v.toList := by
        have lists := congrArg String.toList trimmed
        rwa [trim, String.toList_ofList] at lists
      refine ⟨tab, feed, ?_⟩
      have nonempty : v.toList.isEmpty = false := by
        rw [List.isEmpty_eq_false_iff]
        exact fun empty => some_ (String.toList_eq_nil_iff.mp empty)
      simp only [Option.getD_some, same, nonempty, String.ofList_toList]
      rfl

/-- Each of the three labels, if it is there. -/
def CleanLabels (c : Container) : Prop :=
  ∀ key ∈ listedLabels, ∀ v ∈ c.labels.lookup key, Clean v

instance (c : Container) : Decidable (CleanLabels c) :=
  inferInstanceAs (Decidable (∀ key ∈ listedLabels, ∀ v ∈ c.labels.lookup key, Clean v))

theorem CleanLabels.each (clean : CleanLabels c) :
    (∀ v ∈ c.labels.lookup labelRecipe, Clean v) ∧
      (∀ v ∈ c.labels.lookup labelDeployment, Clean v) ∧
      ∀ v ∈ c.labels.lookup labelGeneration, Clean v :=
  ⟨clean labelRecipe (by decide), clean labelDeployment (by decide),
    clean labelGeneration (by decide)⟩

theorem id_solid (c : Container) :
    '\t' ∉ hexDigits 64 c.id.toNat ∧ '\n' ∉ hexDigits 64 c.id.toNat :=
  ⟨fun h => (separators (hexDigits_not_whitespace _ h)).1 rfl,
    fun h => (separators (hexDigits_not_whitespace _ h)).2 rfl⟩

theorem name_solid (named : Named c) : '\t' ∉ c.name.toList ∧ '\n' ∉ c.name.toList :=
  ⟨fun h => (separators (named.2 _ h)).1 rfl, fun h => (separators (named.2 _ h)).2 rfl⟩

theorem line_pieces (named : Named c) (clean : CleanLabels c) : pieces '\t' (line c) =
    [hexDigits 64 c.id.toNat, c.name.toList, ((c.labels.lookup labelRecipe).getD "").toList,
      ((c.labels.lookup labelDeployment).getD "").toList,
      ((c.labels.lookup labelGeneration).getD "").toList] := by
  obtain ⟨recipe, deployment, generation⟩ := clean.each
  rw [line_eq, pieces_append (id_solid c).1, pieces_append (name_solid named).1,
    pieces_append (column_clean recipe).1, pieces_append (column_clean deployment).1,
    pieces_self (column_clean generation).1]

theorem parseRow_line (named : Named c) (clean : CleanLabels c) :
    parseRow (line c) = .ok (ownRow c) := by
  obtain ⟨recipe, deployment, generation⟩ := clean.each
  have id : trimChars (hexDigits 64 c.id.toNat) = hexDigits 64 c.id.toNat :=
    trimChars_self hexDigits_not_whitespace
  have name : trimChars c.name.toList = c.name.toList := trimChars_self named.2
  have some_id : (hexDigits 64 c.id.toNat).isEmpty = false := rfl
  have some_name : c.name.toList.isEmpty = false := by
    rw [List.isEmpty_eq_false_iff]
    exact fun empty => named.1 (String.toList_eq_nil_iff.mp empty)
  have columns := line_pieces named clean
  simp only [parseRow, columns, List.getD_cons_zero, List.getD_cons_succ, id, name, some_id, some_name,
    Bool.or_self, Bool.false_eq_true, if_false, String.ofList_toList, (column_clean recipe).2.2,
    (column_clean deployment).2.2, (column_clean generation).2.2]
  rfl

theorem line_solid (named : Named c) (clean : CleanLabels c) : '\n' ∉ line c := by
  obtain ⟨recipe, deployment, generation⟩ := clean.each
  simp only [line_eq, List.mem_append, List.mem_cons, not_or]
  exact ⟨(id_solid c).2, by decide, (name_solid named).2, by decide, (column_clean recipe).2.1,
    by decide, (column_clean deployment).2.1, by decide, (column_clean generation).2.1⟩

/-- The last column ends the line: with a tab, or with what is no blank. -/
theorem line_last (clean : CleanLabels c) : (line c).getLast? ≠ some '\r' := by
  obtain ⟨_, _, generation⟩ := clean.each
  have last : (line c).getLast? =
      ('\t' :: ((c.labels.lookup labelGeneration).getD "").toList).getLast? := by
    simp only [line_eq, List.getLast?_append, List.getLast?_cons]
    simp
  rw [last]
  cases label : c.labels.lookup labelGeneration with
  | none => exact nofun
  | some v =>
      have trimmed : trim v = v := (generation v label).2.2.2
      intro carriage
      rw [Option.getD_some, List.getLast?_cons] at carriage
      cases ends : v.toList.getLast? with
      | none =>
          rw [ends] at carriage
          cases carriage
      | some x =>
          rw [ends] at carriage
          have same : trimChars v.toList = v.toList := by
            have lists := congrArg String.toList trimmed
            rwa [trim, String.toList_ofList] at lists
          have solid : isWhitespace x = false := by
            apply @trimChars_last v.toList
            rw [same, ends]
            rfl
          cases carriage
          cases solid

theorem lines_psPrinted (named : ∀ c ∈ cs, Named c) (clean : ∀ c ∈ cs, CleanLabels c) :
    lines (psPrinted cs) = cs.map line := by
  have printed : psPrinted cs = String.ofList ((cs.map line).flatMap (· ++ ['\n'])) := by
    rw [psPrinted, List.flatMap_map]
    rfl
  rw [printed]
  apply lines_ended
  · intro l hl
    obtain ⟨c, member, rfl⟩ := List.mem_map.mp hl
    exact line_solid (named c member) (clean c member)
  · intro l hl
    obtain ⟨c, member, rfl⟩ := List.mem_map.mp hl
    exact line_last (clean c member)

/-- No line of a container is blank: its id stands on it. -/
theorem line_not_blank (c : Container) : (trimChars (line c)).isEmpty = false := by
  have some_id : (hexDigits 64 c.id.toNat).isEmpty = false := rfl
  obtain ⟨x, member⟩ := List.isEmpty_eq_false_iff_exists_mem.mp some_id
  rw [List.isEmpty_eq_false_iff]
  apply trimChars_ne_nil (c := x) _ (hexDigits_not_whitespace x member)
  rw [line_eq]
  exact List.mem_append_left _ member

theorem parsePs_printed (named : ∀ c ∈ cs, Named c) (clean : ∀ c ∈ cs, CleanLabels c) :
    parsePs (psPrinted cs) = .ok (cs.map ownRow) := by
  have kept : (cs.map line).filter (fun l => !(trimChars l).isEmpty) = cs.map line := by
    rw [List.filter_eq_self]
    intro l hl
    obtain ⟨c, _, rfl⟩ := List.mem_map.mp hl
    rw [line_not_blank]
    rfl
  rw [parsePs, lines_psPrinted named clean, kept, List.mapM_map]
  refine mapM_all fun c member => ?_
  rw [Function.comp_apply, parseRow_line (named c member) (clean c member)]

/-- What a row has for a label is clean, whatever the line was. -/
theorem parseRow_clean {l : List Char} {r : PrintedRow} (feed : '\n' ∉ l) (h : parseRow l = .ok r) :
    ∀ label ∈ [r.recipe, r.deployment, r.generation], ∀ v ∈ label, Clean v := by
  have column (i : Nat) : ∀ v ∈ (if (trimChars ((pieces '\t' l).getD i [])).isEmpty then none
      else some (String.ofList (trimChars ((pieces '\t' l).getD i [])))), Clean v := by
    intro v hv
    cases empty : (trimChars ((pieces '\t' l).getD i [])).isEmpty with
    | true =>
        rw [empty] at hv
        cases hv
    | false =>
        rw [empty] at hv
        cases hv
        generalize there : (pieces '\t' l).getD i [] = piece at empty ⊢
        have within : ∀ x ∈ piece, x ∈ l ∧ x ≠ '\t' := by
          intro x hx
          rw [← there, List.getD_eq_getElem?_getD] at hx
          cases at_ : (pieces '\t' l)[i]? with
          | none =>
              rw [at_] at hx
              cases hx
          | some p =>
              rw [at_] at hx
              have inside := mem_pieces (List.mem_of_getElem? at_)
              exact ⟨inside.2 x hx, fun tab => inside.1 (tab ▸ hx)⟩
        refine ⟨?_, ?_, ?_, ?_⟩
        · intro nothing
          rw [List.isEmpty_eq_false_iff] at empty
          exact empty (by rw [← String.toList_ofList (l := trimChars piece), nothing]; rfl)
        · rw [String.toList_ofList]
          exact fun tab => (within _ (mem_trimChars tab)).2 rfl
        · rw [String.toList_ofList]
          exact fun end_ => feed (within _ (mem_trimChars end_)).1
        · rw [trim, String.toList_ofList, trimChars_trimChars]
  unfold parseRow at h
  cases missing : (trimChars ((pieces '\t' l).getD 0 [])).isEmpty ||
      (trimChars ((pieces '\t' l).getD 1 [])).isEmpty with
  | true =>
      simp only [missing] at h
      cases h
  | false =>
      simp only [missing] at h
      cases h
      intro label member
      simp only [List.mem_cons, List.not_mem_nil, or_false] at member
      rcases member with rfl | rfl | rfl
      · exact column 2
      · exact column 3
      · exact column 4

end Listing
section Documents
variable {readFraction : List Char → Option F64} {why : String → String}
variable {members : List (String × Json F64)} {labels : List (String × String)}
variable {owner : Owner} {trace : ControlTrace}

/-- An optional list of texts as docker documents it. -/
def IsTexts (v : Json F64) : Prop := v = .null ∨ ∃ ss : List String, v = .array (ss.map .string)

/-- A config as docker documents it: every member once, and a label's key once. -/
structure Documents (members : List (String × Json F64)) (labels : List (String × String)) :
    Prop where
  image : ∃ s, members.filter (·.1 = "Image") = [("Image", .string s)]
  cmd : ∃ v, members.filter (·.1 = "Cmd") = [("Cmd", v)] ∧ IsTexts v
  env : ∃ v, members.filter (·.1 = "Env") = [("Env", v)] ∧ IsTexts v
  written : members.filter (·.1 = "Labels") =
    [("Labels", .object (labels.map fun l => (l.1, .string l.2)))]
  keys : (labels.map Prod.fst).Nodup

theorem stringsOf_texts {v : Json F64} (h : IsTexts v) : ∃ ss, stringsOf (some v) = some ss := by
  cases h with
  | inl null => exact ⟨[], by rw [null]; rfl⟩
  | inr texts =>
      obtain ⟨ss, rfl⟩ := texts
      refine ⟨ss, ?_⟩
      rw [stringsOf, List.mapM_map]
      induction ss with
      | nil => rfl
      | cons s ss ih =>
          rw [List.mapM_cons, ih]
          rfl

theorem labelsOf_object (labels : List (String × String)) :
    labelsOf (some (.object (labels.map fun l => (l.1, .string l.2)))) = some labels.reverse := by
  have read : (labels.map fun l => (l.1, (Json.string l.2 : Json F64))).mapM
      (fun m => (stringOf m.2).map (m.1, ·)) = some labels := by
    rw [List.mapM_map]
    induction labels with
    | nil => rfl
    | cons l labels ih =>
        rw [List.mapM_cons, ih]
        rfl
  rw [labelsOf, read]
  rfl

/-- Where no key stands twice, the order does not matter to a lookup. -/
theorem lookup_reverse {key v : String} (keys : (labels.map Prod.fst).Nodup)
    (found : labels.lookup key = some v) : labels.reverse.lookup key = some v := by
  obtain ⟨before, after, rfl, _⟩ := List.lookup_eq_some_iff.mp found
  rw [List.lookup_eq_some_iff]
  refine ⟨after.reverse, before.reverse, by simp, ?_⟩
  intro e he
  rw [List.map_append, List.map_cons] at keys
  have fresh := (List.nodup_cons.mp (List.nodup_append.mp keys).2.1).1
  rw [bne_iff_ne]
  intro same
  exact fresh (List.mem_map.mpr ⟨e, List.mem_reverse.mp he, same.symm⟩)

theorem Carries.read (carries : Carries labels owner trace) :
    ownerOf (labels.lookup labelDeployment) (labels.lookup labelGeneration) = some owner := by
  have deployment : labels.lookup labelDeployment = some owner.deployment.text :=
    carries (labelDeployment, _) (by simp [ownerLabels])
  have generation : labels.lookup labelGeneration = some (toString owner.generation.num) :=
    carries (labelGeneration, _) (by simp [ownerLabels])
  rw [deployment, generation, ownerOf_labels]

theorem decodeConfig_documents (documents : Documents members labels) :
    ∃ launched, decodeConfig (.object members) = some launched ∧
      launched.labels = labels.reverse := by
  obtain ⟨image, image_once⟩ := documents.image
  obtain ⟨cmd, cmd_once, cmd_texts⟩ := documents.cmd
  obtain ⟨env, env_once, env_texts⟩ := documents.env
  obtain ⟨cmds, cmd_read⟩ := stringsOf_texts cmd_texts
  obtain ⟨envs, env_read⟩ := stringsOf_texts env_texts
  refine ⟨⟨image, cmds, envs, labels.reverse⟩, ?_, rfl⟩
  simp only [decodeConfig, single, image_once, cmd_once, env_once, documents.written,
    Option.bind_eq_bind, Option.bind_some, stringOf, cmd_read, env_read, labelsOf_object]

theorem parseInspect_documents {stdout : String}
    (printed : parse readFraction (trimChars stdout.toList) = some (.object members))
    (documents : Documents members labels) (carries : Carries labels owner trace) :
    ∃ launched, parseInspect readFraction why stdout = .ok launched ∧
      ∀ other, isOwnedBy launched other = true ↔ other = owner := by
  obtain ⟨launched, decoded, read⟩ := decodeConfig_documents documents
  refine ⟨launched, ?_, ?_⟩
  · rw [parseInspect, printed, Option.bind_some, decoded]
  · intro other
    have again : Carries launched.labels owner trace := by
      intro e he
      rw [read]
      exact lookup_reverse documents.keys (carries e he)
    rw [isOwnedBy, again.read, decide_eq_true_eq, Option.some.injEq]
    exact eq_comm

end Documents

/-- What the labels of an owner say wherever they are read; and a listing is read as its
containers' own rows just where the labels it prints are clean. -/
theorem listing_read (readFraction : List Char → Option F64) (why : String → String)
    (cs : List Container) (named : ∀ c ∈ cs, Named c) :
    ((parsePs (psPrinted cs) = .ok (cs.map ownRow) ∧ ∀ c ∈ cs, ∀ owner trace,
        Carries c.labels owner trace →
          ownerOf (ownRow c).deployment (ownRow c).generation = some owner) ↔
      ∀ c ∈ cs, CleanLabels c) ∧
    ∀ (owner : Owner) (trace : ControlTrace) (stdout : String) (members : List (String × Json F64))
      (labels : List (String × String)),
      parse readFraction (trimChars stdout.toList) = some (.object members) →
      Documents members labels → Carries labels owner trace →
      ∃ launched, parseInspect readFraction why stdout = .ok launched ∧
        ∀ other, isOwnedBy launched other = true ↔ other = owner := by
  refine ⟨⟨?_, ?_⟩, fun owner trace stdout members labels => parseInspect_documents⟩
  · intro read c member key listed
    have printed : ownRow c ∈ cs.map ownRow := List.mem_map_of_mem member
    obtain ⟨l, hl, row⟩ := mem_of_mapM read.1 printed
    have clean := parseRow_clean (mem_lines (List.mem_filter.mp hl).1) row
    simp only [listedLabels, List.mem_cons, List.not_mem_nil, or_false] at listed
    rcases listed with rfl | rfl | rfl
    · exact clean _ (by simp [ownRow])
    · exact clean _ (by simp [ownRow])
    · exact clean _ (by simp [ownRow])
  · intro clean
    exact ⟨parsePs_printed named clean, fun c _ owner trace carries => carries.read⟩

section Fixed

/-- A container that another program labelled. -/
def labelledBy (text : String) : Container :=
  ⟨7, "db", "postgres", [], [], [(labelRecipe, text)]⟩

def attempt : ControlTrace := ⟨1, 2⟩

def launchedFor : Container :=
  ⟨1, "metrale-qwen3", "engine", [], [], (labelRecipe, qwen.text) :: ownerLabels ⟨chat, one⟩ ++
    traceLabels attempt⟩

def inspectedMembers : List (String × Json F64) :=
  [("Cmd", .null), ("Env", .array []), ("Image", .string "engine"),
    ("Labels", .object (launchedFor.labels.map fun l => (l.1, .string l.2)))]

def inspected : String := String.ofList (render (fun _ => []) (.object inspectedMembers))

theorem inspected_parse :
    parse (fun _ => none) (trimChars inspected.toList) = some (.object inspectedMembers) := by
  have plain : trimChars inspected.toList = render (fun _ => []) (.object inspectedMembers) := by
    rw [inspected, String.toList_ofList]
    apply trimChars_of_ends
    · intro c first
      obtain rfl : '\x7b' = c := Option.some.inj first
      rfl
    · intro c last
      have closed (text : List Char) : ('\x7b' :: (text ++ ['\x7d'])).getLast? = some '\x7d' :=
        List.getLast?_concat (l := '\x7b' :: text)
      rw [render, closed] at last
      cases last
      rfl
  rw [plain]
  apply parse_render
  intro w member n number
  subst number
  simp [Json.parts, Json.memberParts, Json.itemParts, inspectedMembers, launchedFor, ownerLabels,
    traceLabels] at member

theorem inspected_documents : Documents inspectedMembers launchedFor.labels where
  image := ⟨"engine", rfl⟩
  cmd := ⟨.null, rfl, .inl rfl⟩
  env := ⟨.array [], rfl, .inr ⟨[], rfl⟩⟩
  written := rfl
  keys := by decide

theorem listing_read_launched :
    parsePs (psPrinted [launchedFor, labelledBy "mine"]) =
        .ok ([launchedFor, labelledBy "mine"].map ownRow) ∧
      ∃ launched, parseInspect (fun _ => none) id inspected = .ok launched ∧
        ∀ other, isOwnedBy launched other = true ↔ other = ⟨chat, one⟩ := by
  have named : ∀ c ∈ [launchedFor, labelledBy "mine"], Named c := by
    intro c member
    simp only [List.mem_cons, List.not_mem_nil, or_false] at member
    rcases member with rfl | rfl
    · decide
    · decide
  have read := listing_read (fun _ => none) id [launchedFor, labelledBy "mine"] named
  have clean : ∀ c ∈ [launchedFor, labelledBy "mine"], CleanLabels c := by
    intro c member
    simp only [List.mem_cons, List.not_mem_nil, or_false] at member
    rcases member with rfl | rfl
    · decide
    · decide
  have carried : ∀ e ∈ ownerLabels ⟨chat, one⟩ ++ traceLabels attempt,
      launchedFor.labels.lookup e.1 = some e.2 := by
    decide
  exact ⟨(read.1.mpr clean).1, read.2 ⟨chat, one⟩ attempt inspected inspectedMembers
    launchedFor.labels inspected_parse inspected_documents carried⟩

theorem listing_read_tab :
    ¬∀ cs : List Container, (∀ c ∈ cs, Named c) →
      parsePs (psPrinted cs) = .ok (cs.map ownRow) := by
  intro claimed
  have named : ∀ c ∈ [labelledBy "mine\tchat\t1"], Named c := by
    intro c member
    obtain rfl := List.mem_singleton.mp member
    decide
  have read := claimed [labelledBy "mine\tchat\t1"] named
  revert read
  decide +kernel

end Fixed
end Docker
end Metralectl
