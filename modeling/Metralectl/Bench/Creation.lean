import Metralectl.Bench.Jobs

/-!
What creating a job leaves behind, whichever of its file operations fail: after the
record is in its place there is no way back, and the index is not written yet.
-/
namespace Metralectl
namespace Bench
open SortedMaps

namespace JobStore
variable {s : JobStore} {f : Faults} {pid : UInt32} {r : JobRecord} {id : JobId} {k : JobKey}

section Lookups

theorem load_eq_ok : s.load id = .ok r ↔ (s.dirs.get? id.text).bind JobDir.record = some r := by
  unfold load
  split
  · next there => rw [there]; exact ⟨fun h => congrArg some (Except.ok.inj h), fun h => by rw [Option.some.inj h]⟩
  · next none_ => rw [none_]; exact ⟨nofun, nofun⟩

/-- What reading a job depends on. -/
theorem load_congr {t : JobStore} (h : (t.dirs.get? id.text).bind JobDir.record =
    (s.dirs.get? id.text).bind JobDir.record) : t.load id = s.load id := by
  rw [load, load, h]

theorem load_makeDir (id' : JobId) : (s.makeDir id').load id = s.load id := by
  apply load_congr
  unfold makeDir
  split
  · rfl
  · next none_ =>
      rw [SortedMap.get?_insert]
      split
      · next same => rw [same, none_]; rfl
      · rfl

theorem load_save : (s.save r).load id = if id = r.id then .ok r else s.load id := by
  by_cases same : id = r.id
  · rw [if_pos same, load_eq_ok, save, SortedMap.get?_insert, if_pos (congrArg Token.text same)]
    rfl
  · have other : id.text ≠ r.id.text := fun text => same (Token.ext text)
    rw [if_neg same]
    apply load_congr
    rw [save, SortedMap.get?_insert, if_neg other]

/-- The job an index entry names. -/
def named (s : JobStore) (k : JobKey) : Option JobId :=
  match s.spot k.text with
  | .file content => Token.parse ['-'] (trim content)
  | _ => none

/-- What looking a key up depends on. -/
theorem byKey_congr {t : JobStore} (spot : t.spot k.text = s.spot k.text)
    (load : ∀ id ∈ s.named k, t.load id = s.load id) : t.byKey k = s.byKey k := by
  unfold byKey
  rw [spot]
  unfold named at load
  split
  · rfl
  · rfl
  · next content there =>
      rw [there] at load
      cases parsed : Token.parse ['-'] (trim content) with
      | none => rfl
      | some id => simp only [load id parsed]

theorem mem_records {x : JobRecord} : x ∈ s.records ↔ ∃ id, s.load id = .ok x := by
  rw [records, List.mem_filterMap]
  constructor
  · rintro ⟨d, _, there⟩
    obtain ⟨id, _, loaded⟩ := Option.bind_eq_some_iff.mp there
    refine ⟨id, ?_⟩
    cases h : s.load id with
    | ok y => rw [h] at loaded; exact congrArg _ (Option.some.inj loaded)
    | error _ => rw [h] at loaded; cases loaded
  · rintro ⟨id, loaded⟩
    obtain ⟨d, there, _⟩ := Option.bind_eq_some_iff.mp (load_eq_ok.mp loaded)
    refine ⟨(id.text, d), SortedMap.mem_entries.mpr there, ?_⟩
    rw [Token.parse, dif_pos id.accepted]
    exact congrArg Except.toOption loaded

/-- What is listed is what the directories hold. -/
theorem mem_list {x : JobRecord} : x ∈ s.list ↔ ∃ id, s.load id = .ok x := by
  rw [list, List.mem_mergeSort, mem_records]

end Lookups

section Tokens

theorem trim_id (id : JobId) : trim id.text = id.text := by
  refine trim_self fun c hc => ?_
  cases id.plain c hc with
  | inl letter => exact isWhitespace_alphanum letter
  | inr dash => rw [List.mem_singleton.mp dash]; decide

theorem parse_id (id : JobId) : Token.parse ['-'] (trim id.text) = some id := by
  rw [trim_id]
  exact dif_pos id.accepted

end Tokens

/-- Either the key names the record, or no job is there that was not; what other keys
name is as before in both cases. -/
def CreatedWhole (s : JobStore) (r : JobRecord) (result : JobStore × Except StoreError Unit) :
    Prop :=
  (match result.2 with
    | .ok () => result.1.byKey r.key = .ok (some r)
    | .error _ => (∀ id x, result.1.load id = .ok x → s.load id = .ok x) ∧
        (∀ x ∈ result.1.list, x ∈ s.list) ∧
        ∀ x, result.1.byKey r.key = .ok (some x) → s.byKey r.key = .ok (some x)) ∧
    ∀ k ≠ r.key, result.1.byKey k = s.byKey k

/-- Before the record is in its place. -/
def RefusedEarly (s : JobStore) (f : Faults) (r : JobRecord) : Prop :=
  ((s.dirs.get? r.id.text).isSome = true ∧ f.fails .lookDir = false) ∨
    f.fails .makeDirs = true ∨ f.fails .writeRecord = true ∨ f.fails .renameRecord = true

/-- The key can be indexed, and nothing that indexes it fails or is looked at under another
key. -/
structure Indexed (s : JobStore) (f : Faults) (pid : UInt32) (r : JobRecord) : Prop where
  keyed : r.key.text ≠ "." ∧ r.key.text ≠ ".."
  works : f.fails .makeIndexDir = false ∧ f.fails .writeIndexEntry = false ∧
    f.fails .renameIndexEntry = false
  there : s.index ≠ none
  temp : ∀ k, k ≠ r.key → k.text = temporary pid r.key.text → s.spot k.text = .missing
  unnamed : ∀ k, k ≠ r.key → s.named k ≠ some r.id

section Creating

theorem created_early (h : RefusedEarly s f r) : CreatedWhole s r (s.create f pid r) := by
  have kept (t : JobStore) (e : StoreError) (load : ∀ id, t.load id = s.load id)
      (index : t.index = s.index) : CreatedWhole s r (t, .error e) := by
    have byKey (k : JobKey) : t.byKey k = s.byKey k :=
      byKey_congr (by rw [spot, spot, index]) fun id _ => load id
    refine ⟨⟨fun id x there => (load id) ▸ there, fun x hx => ?_, fun x there => byKey r.key ▸ there⟩,
      fun k _ => byKey k⟩
    obtain ⟨id, there⟩ := mem_list.mp hx
    exact mem_list.mpr ⟨id, (load id) ▸ there⟩
  have index : (s.makeDir r.id).index = s.index := by
    unfold makeDir
    split <;> rfl
  unfold create
  split
  · exact kept s _ (fun _ => rfl) rfl
  · next look =>
      split
      · split
        · exact kept _ _ (fun id => load_makeDir r.id) index
        · exact kept s _ (fun _ => rfl) rfl
      · next dirs =>
          split
          · exact kept _ _ (fun id => load_makeDir r.id) index
          · next write =>
              split
              · exact kept _ _ (fun id => load_makeDir r.id) index
              · next rename =>
                  obtain ⟨there, works⟩ | h | h | h := h
                  · simp [there, works] at look
                  · exact absurd h dirs
                  · exact absurd h write
                  · exact absurd h rename

/-- Past the early refusals the record is in its place, and its key is left to index. -/
theorem create_late (h : ¬RefusedEarly s f r) :
    s.create f pid r = ((s.makeDir r.id).save r).indexKey f pid r := by
  simp only [RefusedEarly, not_or, not_and, Bool.not_eq_true, Bool.not_eq_false] at h
  obtain ⟨look, dirs, write, rename⟩ := h
  have unseen : ((s.dirs.get? r.id.text).isSome && !f.fails .lookDir) = false := by
    cases there : (s.dirs.get? r.id.text).isSome with
    | false => rfl
    | true => rw [look there]; rfl
  rw [create, unseen, dirs]
  simp [write, rename]

theorem indexKey_dirs (t : JobStore) : (t.indexKey f pid r).1.dirs = t.dirs := by
  unfold indexKey
  split
  · rfl
  · split
    · rfl
    · split
      · rfl
      · split
        · cases f.left <;> rfl
        · split <;> rfl

/-- Where the key is indexed, and what the index is then. -/
theorem indexKey_ok {t : JobStore} (keyed : r.key.text ≠ "." ∧ r.key.text ≠ "..")
    (works : f.fails .makeIndexDir = false ∧ f.fails .writeIndexEntry = false ∧
      f.fails .renameIndexEntry = false) :
    t.indexKey f pid r = ((t.makeIndex.writeIndex (temporary pid r.key.text) r.id.text).renameIndex
      (temporary pid r.key.text) r.key.text, .ok ()) := by
  simp [indexKey, keyed, works]

theorem indexKey_refused {t : JobStore} (h : ¬((r.key.text ≠ "." ∧ r.key.text ≠ "..") ∧
    f.fails .makeIndexDir = false ∧ f.fails .writeIndexEntry = false ∧
      f.fails .renameIndexEntry = false)) : ∃ e, (t.indexKey f pid r).2 = .error e := by
  unfold indexKey
  split
  · exact ⟨_, rfl⟩
  · next dir =>
      split
      · exact ⟨_, rfl⟩
      · next dot =>
          split
          · exact ⟨_, rfl⟩
          · next dots =>
              split
              · exact ⟨_, rfl⟩
              · next write =>
                  split
                  · exact ⟨_, rfl⟩
                  · next rename => simp [dir, dot, dots, write, rename] at h

theorem index_makeDir (t : JobStore) (id : JobId) : (t.makeDir id).index = t.index := by
  unfold makeDir
  split <;> rfl

theorem load_late : ((s.makeDir r.id).save r).load id = if id = r.id then .ok r else s.load id := by
  rw [load_save, load_makeDir]

/-- The store in which the record is created and its key indexed. -/
def created (s : JobStore) (pid : UInt32) (r : JobRecord) : JobStore :=
  (((s.makeDir r.id).save r).makeIndex.writeIndex (temporary pid r.key.text) r.id.text).renameIndex
    (temporary pid r.key.text) r.key.text

theorem load_created : (s.created pid r).load id = if id = r.id then .ok r else s.load id := by
  rw [← load_late]
  rfl

theorem files_created : (s.created pid r).index =
    some ((((s.index.getD .empty).insert (temporary pid r.key.text) r.id.text).remove
      (temporary pid r.key.text)).insert r.key.text r.id.text) := by
  simp [created, makeIndex, writeIndex, renameIndex, save, index_makeDir]

/-- The files of the index after the key is indexed. -/
theorem spot_created {name : String} (plain : ¬(name = "." ∨ name = "..")) :
    (s.created pid r).spot name =
      if name = r.key.text then .file r.id.text
      else if name = temporary pid r.key.text then .missing
      else s.spot name := by
  rw [spot, files_created]
  simp only [if_neg plain, SortedMap.get?_insert, SortedMap.get?_remove]
  by_cases same : name = r.key.text
  · rw [if_pos same, if_pos same]
  · rw [if_neg same, if_neg same]
    by_cases beside : name = temporary pid r.key.text
    · rw [if_pos beside, if_pos beside]
    · rw [if_neg beside, if_neg beside, if_neg beside, spot]
      cases s.index with
      | none => simp
      | some files => simp [plain]

theorem byKey_created (keyed : r.key.text ≠ "." ∧ r.key.text ≠ "..") :
    (s.created pid r).byKey r.key = .ok (some r) := by
  rw [byKey, spot_created (not_or.mpr keyed), if_pos rfl]
  simp only [parse_id, load_created, if_true]
  rfl

/-- A dot and two are paths of directories, once the index is there. -/
theorem byKey_dots (dots : k.text = "." ∨ k.text = "..") (h : s.index ≠ none) :
    s.byKey k = .error .unreadableIndex := by
  obtain ⟨files, there⟩ := Option.ne_none_iff_exists'.mp h
  rw [byKey, spot, there]
  simp only [if_pos dots]

theorem byKey_missing (h : s.spot k.text = .missing) : s.byKey k = .ok none := by
  rw [byKey, h]

/-- No job is named only where no file is. -/
theorem byKey_eq_none : s.byKey k = .ok none ↔ s.spot k.text = .missing := by
  refine ⟨fun h => ?_, byKey_missing⟩
  unfold byKey at h
  split at h
  · assumption
  · cases h
  · split at h
    · cases h
    · next id _ =>
        cases loaded : s.load id with
        | ok x => rw [loaded] at h; cases h
        | error e => rw [loaded] at h; cases h

theorem byKey_named (h : s.named k = some id) : s.byKey k = (s.load id).map some := by
  unfold named at h
  unfold byKey
  split at h
  · next content there =>
      rw [there]
      simp only [h]
  · cases h

theorem temporary_plain {name : String} :
    ¬(temporary pid name = "." ∨ temporary pid name = "..") := by
  have long : 5 ≤ (temporary pid name).toList.length := by
    simp [temporary, toString]
    omega
  rintro (dot | dots)
  · rw [dot] at long
    exact absurd long (by decide)
  · rw [dots] at long
    exact absurd long (by decide)

theorem named_dots (dots : k.text = "." ∨ k.text = "..") : s.named k = none := by
  unfold named spot
  cases s.index with
  | none => rfl
  | some files => simp only [if_pos dots]

/-- No entry but the record's own is looked at, or leads elsewhere than before. -/
theorem byKey_other (h : Indexed s f pid r) (other : k ≠ r.key) :
    (s.created pid r).byKey k = s.byKey k := by
  by_cases dots : k.text = "." ∨ k.text = ".."
  · have made : (s.created pid r).index ≠ none := by
      rw [files_created]
      exact Option.some_ne_none _
    rw [byKey_dots dots made, byKey_dots dots h.there]
  · apply byKey_congr
    · have text : k.text ≠ r.key.text := fun same => other (Token.ext same)
      rw [spot_created dots, if_neg text]
      by_cases beside : k.text = temporary pid r.key.text
      · rw [if_pos beside, h.temp k other beside]
      · rw [if_neg beside]
    · intro id names
      have different : id ≠ r.id := by
        rintro rfl
        exact h.unnamed k other names
      rw [load_created, if_neg different]

/-- The key whose path is that of the index. -/
def dotKey : JobKey := ⟨".", by decide⟩

theorem there_of_kept (keyed : r.key.text ≠ ".")
    (h : ∀ k ≠ r.key, (s.created pid r).byKey k = s.byKey k) : s.index ≠ none := by
  intro none_
  have other : dotKey ≠ r.key := fun same => keyed (congrArg Token.text same).symm
  have before : s.byKey dotKey = .ok none := by
    apply byKey_missing
    rw [spot, none_]
  have made : (s.created pid r).index ≠ none := by
    rw [files_created]
    exact Option.some_ne_none _
  have after := byKey_dots (k := dotKey) (.inl rfl) made
  rw [h dotKey other, before] at after
  cases after

theorem temp_of_kept (h : ∀ k ≠ r.key, (s.created pid r).byKey k = s.byKey k) (other : k ≠ r.key)
    (beside : k.text = temporary pid r.key.text) : s.spot k.text = .missing := by
  have plain : ¬(k.text = "." ∨ k.text = "..") := by
    rw [beside]
    exact temporary_plain
  have text : k.text ≠ r.key.text := fun same => other (Token.ext same)
  rw [← byKey_eq_none, ← h k other]
  apply byKey_missing
  rw [spot_created plain, if_neg text, if_pos beside]

theorem unnamed_of_kept (new : s.load r.id ≠ .ok r)
    (h : ∀ k ≠ r.key, (s.created pid r).byKey k = s.byKey k) (other : k ≠ r.key) :
    s.named k ≠ some r.id := by
  intro names
  have plain : ¬(k.text = "." ∨ k.text = "..") := by
    intro dots
    rw [named_dots dots] at names
    cases names
  have text : k.text ≠ r.key.text := fun same => other (Token.ext same)
  have beside : k.text ≠ temporary pid r.key.text := by
    intro beside
    rw [named, temp_of_kept h other beside] at names
    cases names
  have after : (s.created pid r).named k = some r.id := by
    rw [named, spot_created plain, if_neg text, if_neg beside]
    exact names
  have kept := h k other
  rw [byKey_named after, byKey_named names, load_created, if_pos rfl] at kept
  apply new
  cases loaded : s.load r.id with
  | ok x =>
      rw [loaded] at kept
      exact congrArg _ (Option.some.inj (Except.ok.inj kept.symm))
  | error e =>
      rw [loaded] at kept
      cases kept

/-- Once the record is in its place, nothing may fail, and the key must not meet another's
entry: else a job is there that was refused, or another key answers as it did not. -/
theorem created_whole_iff (new : f.fails .lookDir = true → s.load r.id ≠ .ok r) :
    CreatedWhole s r (s.create f pid r) ↔ RefusedEarly s f r ∨ Indexed s f pid r := by
  constructor
  · intro whole
    by_cases early : RefusedEarly s f r
    · exact .inl early
    · have missed : s.load r.id ≠ .ok r := by
        intro there
        cases look : f.fails .lookDir with
        | true => exact new look there
        | false =>
            obtain ⟨d, dir, _⟩ := Option.bind_eq_some_iff.mp (load_eq_ok.mp there)
            exact early (.inl ⟨by rw [dir]; rfl, look⟩)
      rw [create_late early] at whole
      by_cases indexes : (r.key.text ≠ "." ∧ r.key.text ≠ "..") ∧
          f.fails .makeIndexDir = false ∧ f.fails .writeIndexEntry = false ∧
            f.fails .renameIndexEntry = false
      · have kept : ∀ k ≠ r.key, (s.created pid r).byKey k = s.byKey k := by
          rw [indexKey_ok indexes.1 indexes.2] at whole
          exact whole.2
        exact .inr {
          keyed := indexes.1
          works := indexes.2
          there := there_of_kept indexes.1.1 kept
          temp := fun _ other beside => temp_of_kept kept other beside
          unnamed := fun _ other => unnamed_of_kept missed kept other }
      · obtain ⟨e, refused⟩ := indexKey_refused (t := (s.makeDir r.id).save r) indexes
        have left : (((s.makeDir r.id).save r).indexKey f pid r).1.load r.id = .ok r := by
          rw [load_congr (congrArg (fun dirs => (SortedMap.get? dirs r.id.text).bind JobDir.record)
            (indexKey_dirs _)), load_late, if_pos rfl]
        have clean := whole.1
        rw [refused] at clean
        exact absurd (clean.1 r.id r left) missed
  · rintro (early | indexed)
    · exact created_early early
    · by_cases early : RefusedEarly s f r
      · exact created_early early
      · rw [create_late early, indexKey_ok indexed.keyed indexed.works]
        exact ⟨byKey_created indexed.keyed, fun k other => byKey_other indexed other⟩

theorem spot_temporary (t : JobStore) (r : JobRecord) :
    (t.makeIndex.writeIndex (temporary pid r.key.text) r.id.text).spot (temporary pid r.key.text) =
      .file r.id.text := by
  simp [spot, makeIndex, writeIndex, temporary_plain]

theorem indexKey_eq_steps (t : JobStore) :
    t.indexKey f pid r = createAll f pid r [.index, .rename] t := by
  unfold indexKey createAll createStep
  by_cases make : f.fails .makeIndexDir
  · simp [make]
  · by_cases dot : r.key.text = "."
    · simp [make, dot]
    · by_cases dots : r.key.text = ".."
      · simp [make, dots]
      · by_cases write : f.fails .writeIndexEntry
        · simp [make, dot, dots, write]
        · have there : (t.makeIndex.writeIndex (temporary pid r.key.text) r.id.text).spot
              (temporary pid r.key.text) ≠ .missing := by
            rw [spot_temporary]
            exact nofun
          simp only [if_neg make, if_neg dot, if_neg dots, if_neg write, createAll, createStep]
          by_cases rename : f.fails .renameIndexEntry
          · simp only [if_pos rename]
          · simp only [if_neg rename, if_neg there]

/-- With nobody between its stages a creation is what it is as one. -/
theorem create_eq_createAll :
    s.create f pid r = createAll f pid r [.look, .make, .save, .index, .rename] s := by
  by_cases look : (s.dirs.get? r.id.text).isSome && !f.fails .lookDir
  · simp only [create, createAll, createStep, if_pos look]
  · by_cases dirs : f.fails .makeDirs
    · simp only [create, createAll, createStep, if_neg look, if_pos dirs]
    · by_cases write : f.fails .writeRecord
      · simp only [create, createAll, createStep, if_neg look, if_neg dirs, if_pos write]
      · by_cases rename : f.fails .renameRecord
        · simp only [create, createAll, createStep, if_neg look, if_neg dirs, if_neg write,
            if_pos rename]
        · simp only [create, createAll, createStep, if_neg look, if_neg dirs, if_neg write,
            if_neg rename]
          exact indexKey_eq_steps _

def heldJob : JobRecord :=
  { queuedUnder ⟨"m", m_accepted⟩ with id := ⟨"jb-2-00000000", second_accepted⟩ }

/-- A store that holds the job of another key. -/
def holding : JobStore := ⟨SortedMap.empty.insert heldJob.id.text ⟨some heldJob⟩,
  some (SortedMap.empty.insert heldJob.key.text heldJob.id.text)⟩

/-- The directory cannot be looked for, and the record cannot be written. -/
def unwritable : Faults :=
  { Faults.none with fails := fun op => op = .lookDir || op = .writeRecord }

theorem created_whole_held :
    CreatedWhole holding (queuedUnder ⟨"k", by decide⟩)
        (create holding .none 7 (queuedUnder ⟨"k", by decide⟩)) ∧
      CreatedWhole holding (queuedUnder ⟨"k", by decide⟩)
        (create holding unwritable 7 (queuedUnder ⟨"k", by decide⟩)) := by
  have missing : holding.load (queuedUnder ⟨"k", by decide⟩).id ≠
      .ok (queuedUnder ⟨"k", by decide⟩) := by decide
  refine ⟨(created_whole_iff fun _ => missing).mpr (.inr ⟨by decide, by decide, by decide, ?_, ?_⟩),
    (created_whole_iff fun _ => missing).mpr (.inl (.inr (.inr (.inl rfl))))⟩
  · rintro k - beside
    rw [beside]
    decide
  · intro k _ names
    by_cases held : k.text = heldJob.key.text
    · rw [named, held] at names
      exact absurd names (by decide)
    · have other : holding.spot k.text = .missing ∨ holding.spot k.text = .directory := by
        by_cases dots : k.text = "." ∨ k.text = ".."
        · exact .inr (if_pos dots)
        · refine .inl ((if_neg dots).trans ?_)
          rw [SortedMap.get?_insert, if_neg held]
          rfl
      unfold named at names
      obtain gone | dir := other
      · rw [gone] at names
        cases names
      · rw [dir] at names
        cases names

/-- With a key that is a dot nothing has to fail. -/
theorem dot_key_leaves_job : ¬CreatedWhole ⟨.empty, none⟩ (queuedUnder dotKey)
    (create ⟨.empty, none⟩ .none 7 (queuedUnder dotKey)) := by
  intro whole
  have refused : (create ⟨.empty, none⟩ .none 7 (queuedUnder dotKey)).2 = .error .renaming := by decide
  have left : (create ⟨.empty, none⟩ .none 7 (queuedUnder dotKey)).1.load (queuedUnder dotKey).id =
      .ok (queuedUnder dotKey) := by decide
  have clean := whole.1
  rw [refused] at clean
  cases clean.1 _ _ left

end Creating

end JobStore

end Bench
end Metralectl
