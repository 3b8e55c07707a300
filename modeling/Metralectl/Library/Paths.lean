import Mathlib.Data.List.Basic

/-!
Paths as text, and their parts: what is joined onto a directory without leaving it lies below it,
whatever the directory is called.
-/
namespace Paths

def segments (path : List Char) : List (List Char) := path.splitOn '/'

/-- A part that names something: empty ones and those that stay where they are do not. -/
def isPart (seg : List Char) : Bool := seg ≠ [] && seg ≠ ['.']

def components (path : List Char) : List (List Char) := (segments path).filter isPart

def isAbsolute (path : List Char) : Bool := path.head? = some '/'

/-- A path after a directory; an absolute one stands for itself. -/
def join (dir rel : List Char) : List Char :=
  if isAbsolute rel then rel
  else if dir = [] ∨ dir.getLast? = some '/' then dir ++ rel
  else dir ++ '/' :: rel

/-- Strictly below, and without a step upwards on the way. -/
structure Below (dir path : List Char) : Prop where
  root : isAbsolute path = isAbsolute dir
  down : ∃ below, below ≠ [] ∧ ['.', '.'] ∉ below ∧ components path = components dir ++ below

theorem segments_append (dir rel : List Char) :
    segments (dir ++ '/' :: rel) = segments dir ++ segments rel := by
  simp only [segments, List.splitOn_eq_splitOnP]
  exact List.splitOnP_append_cons dir rel (beq_self_eq_true '/')

theorem components_append (dir rel : List Char) :
    components (dir ++ '/' :: rel) = components dir ++ components rel := by
  rw [components, segments_append, List.filter_append, components, components]

/-- A separator at the end of a directory names nothing more. -/
theorem components_separator (dir : List Char) : components (dir ++ ['/']) = components dir := by
  rw [components_append]
  exact List.append_nil _

theorem components_join (dir : List Char) {rel : List Char} (relative : isAbsolute rel = false) :
    components (join dir rel) = components dir ++ components rel := by
  rw [join, if_neg (by simp [relative])]
  by_cases ended : dir = [] ∨ dir.getLast? = some '/'
  · rw [if_pos ended]
    obtain rfl | last := ended
    · rfl
    · obtain ⟨parent, rfl⟩ := List.getLast?_eq_some_iff.mp last
      rw [components_separator, List.append_assoc, List.singleton_append, components_append]
  · rw [if_neg ended, components_append]

theorem isAbsolute_join {dir rel : List Char} (relative : isAbsolute rel = false) :
    isAbsolute (join dir rel) = isAbsolute dir := by
  rw [join, if_neg (by simp [relative])]
  cases dir with
  | nil => rw [if_pos (Or.inl rfl), List.nil_append, relative]; rfl
  | cons c rest =>
      split
      · rfl
      · rfl

/-- A name all of whose segments name something and none of which goes up stays below. -/
theorem below_join (dir : List Char) {rel : List Char}
    (plain : ∀ seg ∈ segments rel, isPart seg = true ∧ seg ≠ ['.', '.']) :
    Below dir (join dir rel) := by
  have all : components rel = segments rel := List.filter_eq_self.mpr fun seg member =>
    (plain seg member).1
  have relative : isAbsolute rel = false := by
    cases rel with
    | nil => rfl
    | cons c rest =>
        by_cases slash : c = '/'
        · subst slash
          have first : [] ∈ segments ('/' :: rest) := by
            rw [← List.nil_append ('/' :: rest), segments_append]
            exact List.mem_append_left _ (List.mem_singleton.mpr rfl)
          exact absurd (plain _ first).1 (by decide)
        · simpa [isAbsolute] using slash
  refine ⟨isAbsolute_join relative, segments rel, ?_, fun up => (plain _ up).2 rfl, ?_⟩
  · exact List.splitOn_ne_nil _ _
  · rw [components_join dir relative, all]

theorem segments_cons (c : Char) (rest : List Char) :
    segments (c :: rest) =
      if c = '/' then [] :: segments rest else (segments rest).modifyHead (List.cons c) := by
  simp [segments, List.splitOn_cons_eq_if_modifyHead]

theorem segments_plain {path : List Char} (plain : '/' ∉ path) : segments path = [path] := by
  rw [segments, List.splitOn_eq_splitOnP]
  exact List.splitOnP_eq_singleton fun c member => by
    simpa using fun same : c = '/' => plain (same ▸ member)

/-- What is put after a path without another separator becomes part of its last segment. -/
theorem segments_extend (path : List Char) {tail : List Char} (plain : '/' ∉ tail) :
    ∃ before last, segments path = before ++ [last] ∧
      segments (path ++ tail) = before ++ [last ++ tail] := by
  induction path with
  | nil => exact ⟨[], [], rfl, segments_plain plain⟩
  | cons c rest ih =>
      obtain ⟨before, last, same, longer⟩ := ih
      rw [List.cons_append, segments_cons, segments_cons, same, longer]
      by_cases slash : c = '/'
      · rw [if_pos slash, if_pos slash]
        exact ⟨[] :: before, last, rfl, rfl⟩
      · rw [if_neg slash, if_neg slash]
        cases before with
        | nil => exact ⟨[], c :: last, rfl, rfl⟩
        | cons seg before => exact ⟨(c :: seg) :: before, last, rfl, rfl⟩

end Paths
