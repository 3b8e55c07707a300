import Metralectl.Library.EditDistance
import Mathlib.Data.List.Sort
import Mathlib.Data.String.Basic

/-!
The names a mistyped name may have meant: the nearest ones by edit distance, and before them
those it is the front of.
-/
namespace Metralectl
namespace Nearest
open EditDistance

/-- How much of a name must be typed before a prefix counts as meant. -/
def prefixMin : Nat := 4

/-- How far a name may be from what was typed: a quarter of the longer of the two. -/
def maxEdits (len : Nat) : Nat :=
  match len / 4 with
  | 0 | 1 => 2
  | n => if 5 < n then 5 else n

/-- One row of the table, over the row before it. The old content of `cur` is overwritten. -/
def fillRow (ca : Char) (b : List Char) (prev cur : List Nat) : List Nat :=
  b.zipIdx.foldl (fun cur (cb, j) =>
    let cost := if ca ≠ cb then 1 else 0
    cur.set (j + 1)
      (min (min (prev.getD (j + 1) 0 + 1) (cur.getD j 0 + 1)) (prev.getD j 0 + cost))) cur

/-- Levenshtein distance over characters, with two rows that are swapped. -/
def editDistance (a b : String) : Nat :=
  let a := a.toList
  let b := b.toList
  if a.isEmpty then b.length
  else if b.isEmpty then a.length
  else
    let rows := a.zipIdx.foldl (fun (prev, cur) (ca, i) =>
      (fillRow ca b prev (cur.set 0 (i + 1)), prev))
      (List.range (b.length + 1), List.replicate (b.length + 1) 0)
    rows.1.getD b.length 0

/-- A candidate with its distance, if it is near enough. What completes the typed name counts
as no edit. -/
def scored (typed name : String) : Option (Nat × String) :=
  if prefixMin ≤ typed.length ∧ typed.utf8ByteSize < name.utf8ByteSize ∧
      typed.toList <+: name.toList then some (0, name)
  else
    let d := editDistance typed name
    if d ≤ maxEdits (max typed.length name.length) then some (d, name) else none

/-- By distance, and then by name. -/
def precedes (x y : Nat × String) : Bool := x.1 < y.1 ∨ x.1 = y.1 ∧ x.2 ≤ y.2

/-- The candidates nearest to what was typed, closest first: three at most. -/
def nearest (typed : String) (candidates : List String) : List String :=
  (((candidates.filterMap (scored typed)).mergeSort precedes).take 3).map (·.2)

section Rows

/-- What holds before the first element and is kept by each holds behind the last. -/
theorem foldl_zipIdx {α σ : Type} {f : σ → α × Nat → σ} {l : List α} {s : σ} (P : Nat → σ → Prop)
    (first : P 0 s) (next : ∀ i x s, l[i]? = some x → P i s → P (i + 1) (f s (x, i))) :
    P l.length (l.zipIdx.foldl f s) := by
  have along (done rest : List α) (whole : done ++ rest = l) (s : σ) (here : P done.length s) :
      P l.length ((rest.zipIdx done.length).foldl f s) := by
    induction rest generalizing done s with
    | nil =>
        rw [List.append_nil] at whole
        rwa [← whole]
    | cons x rest ih =>
        have at_ : l[done.length]? = some x := by
          rw [← whole, List.getElem?_append_right (Nat.le_refl _), Nat.sub_self]
          rfl
        have longer := ih (done ++ [x]) (by rwa [List.append_assoc]) (f s (x, done.length))
        rw [List.length_append, List.length_singleton] at longer
        exact longer (next _ x s at_ here)
  exact along [] l rfl s first

/-- The row of the first `i` elements, as far as it is filled. -/
structure Filled (a b : List Char) (i upto : Nat) (row : List Nat) : Prop where
  length : row.length = b.length + 1
  cells : ∀ j ≤ upto, row.getD j 0 = cell a b i j

variable {a b : List Char} {i : Nat} {ca : Char} {prev cur : List Nat}

theorem fillRow_filled (at_ : a[i]? = some ca) (above : Filled a b i b.length prev)
    (left : Filled a b (i + 1) 0 cur) :
    Filled a b (i + 1) b.length (fillRow ca b prev cur) := by
  refine foldl_zipIdx (fun j row => Filled a b (i + 1) j row) left fun j cb row there here => ?_
  have within : j < b.length := (List.getElem?_eq_some_iff.mp there).1
  refine ⟨by rw [List.length_set, here.length], fun k hk => ?_⟩
  rw [List.getD_eq_getElem?_getD, List.getElem?_set]
  by_cases new : j + 1 = k
  · subst new
    rw [if_pos rfl, if_pos (by rw [here.length]; omega), Option.getD_some,
      above.cells (j + 1) (by omega), above.cells j (by omega), here.cells j (Nat.le_refl j),
      cell_next at_ there]
    by_cases same : ca = cb <;> simp [same]
  · rw [if_neg new, ← List.getD_eq_getElem?_getD]
    exact here.cells k (by omega)

theorem top_filled : Filled a b 0 b.length (List.range (b.length + 1)) := by
  refine ⟨List.length_range, fun j hj => ?_⟩
  rw [cell_top a b hj, List.getD_eq_getElem?_getD, List.getElem?_range (by omega)]
  rfl

theorem left_filled (within : i < a.length) (long : cur.length = b.length + 1) :
    Filled a b (i + 1) 0 (cur.set 0 (i + 1)) := by
  refine ⟨by rw [List.length_set, long], fun j hj => ?_⟩
  obtain rfl := Nat.le_zero.mp hj
  rw [cell_left a b within, List.getD_eq_getElem?_getD, List.getElem?_set_self (by omega)]
  rfl

/-- The two rows are the distance's table, one row at a time. -/
theorem editDistance_eq (a b : String) : editDistance a b = levenshtein a.toList b.toList := by
  unfold editDistance
  dsimp only
  generalize a.toList = a
  generalize b.toList = b
  cases hb : b with
  | nil =>
      cases a with
      | nil => exact levenshtein_nil_left.symm
      | cons x a => exact levenshtein_nil_right.symm
  | cons y b' =>
      cases ha : a with
      | nil => exact levenshtein_nil_left.symm
      | cons x a' =>
          rw [← ha, ← hb, if_neg (by simp [ha]), if_neg (by simp [hb]), ← cell_whole]
          have last := foldl_zipIdx (l := a) (f := fun (rows : List Nat × List Nat) e =>
              (fillRow e.1 b rows.1 (rows.2.set 0 (e.2 + 1)), rows.1))
            (s := (List.range (b.length + 1), List.replicate (b.length + 1) 0))
            (fun i rows => Filled a b i b.length rows.1 ∧ rows.2.length = b.length + 1)
            ⟨top_filled, List.length_replicate⟩ fun i ca rows there here =>
              ⟨fillRow_filled there here.1
                (left_filled (List.getElem?_eq_some_iff.mp there).1 here.2), here.1.length⟩
          exact last.1.cells b.length (Nat.le_refl _)

end Rows

section Meaning

/-- The name goes on where what was typed ends, of which enough was typed. -/
def Completes (typed name : String) : Prop :=
  4 ≤ typed.length ∧ typed.toList <+: name.toList ∧ typed ≠ name

instance (typed name : String) : Decidable (Completes typed name) :=
  inferInstanceAs (Decidable (_ ∧ _ ∧ _))

/-- The distance of a name that is offered. -/
def rank (typed name : String) : Nat :=
  if Completes typed name then 0 else levenshtein typed.toList name.toList

def Near (typed name : String) : Prop :=
  Completes typed name ∨
    levenshtein typed.toList name.toList ≤ maxEdits (max typed.length name.length)

instance (typed name : String) : Decidable (Near typed name) :=
  inferInstanceAs (Decidable (_ ∨ _))

/-- Strictly nearer, or as near and first by name. -/
def Before (typed x y : String) : Prop :=
  rank typed x < rank typed y ∨ rank typed x = rank typed y ∧ x < y

/-- What is offered of the candidates, and what is omitted. -/
structure Closest (typed : String) (candidates out omitted : List String) : Prop where
  near : (out ++ omitted).Perm (candidates.filter fun name => Near typed name)
  few : out.length ≤ 3
  full : omitted ≠ [] → out.length = 3
  ordered : out.Pairwise fun x y => ¬ Before typed y x
  best : ∀ x ∈ out, ∀ y ∈ omitted, ¬ Before typed y x

variable {typed name : String} {candidates : List String}

/-- What is longer in bytes and begins so is longer. -/
theorem completes_iff : Completes typed name ↔ prefixMin ≤ typed.length ∧
    typed.utf8ByteSize < name.utf8ByteSize ∧ typed.toList <+: name.toList := by
  unfold Completes prefixMin
  refine and_congr_right fun _ => ?_
  constructor
  · rintro ⟨front, other⟩
    obtain ⟨rest, whole⟩ := front
    have same : name = typed ++ String.ofList rest := by
      rw [← String.toList_inj, String.toList_append, String.toList_ofList, whole]
    refine ⟨?_, rest, whole⟩
    have some_ : String.ofList rest ≠ "" := by
      rintro none_
      rw [none_, String.append_empty] at same
      exact other same.symm
    have bytes : (String.ofList rest).utf8ByteSize ≠ 0 := fun none_ =>
      some_ (String.utf8ByteSize_eq_zero_iff.mp none_)
    rw [same, String.utf8ByteSize_append]
    omega
  · rintro ⟨longer, front⟩
    refine ⟨front, ?_⟩
    rintro rfl
    exact Nat.lt_irrefl _ longer

theorem scored_eq : scored typed name =
    if Near typed name then some (rank typed name, name) else none := by
  by_cases completes : Completes typed name
  · have near : Near typed name := .inl completes
    rw [scored, if_pos (completes_iff.mp completes), if_pos near, rank, if_pos completes]
  · rw [scored, if_neg (fun h => completes (completes_iff.mpr h)), editDistance_eq, rank,
      if_neg completes]
    dsimp only
    by_cases within :
        levenshtein typed.toList name.toList ≤ maxEdits (max typed.length name.length)
    · have near : Near typed name := .inr within
      rw [if_pos within, if_pos near]
    · have far : ¬ Near typed name := fun near => near.elim completes within
      rw [if_neg within, if_neg far]

theorem filterMap_scored : candidates.filterMap (scored typed) =
    (candidates.filter fun name => Near typed name).map fun name => (rank typed name, name) := by
  induction candidates with
  | nil => rfl
  | cons name candidates ih =>
      by_cases near : Near typed name
      · rw [List.filterMap_cons, scored_eq, if_pos near, List.filter_cons_of_pos (by simpa), ih]
        rfl
      · rw [List.filterMap_cons, scored_eq, if_neg near, List.filter_cons_of_neg (by simpa), ih]

theorem precedes_iff {x y : Nat × String} :
    precedes x y = true ↔ x.1 < y.1 ∨ x.1 = y.1 ∧ x.2 ≤ y.2 := by
  rw [precedes, decide_eq_true_iff]

theorem precedes_sorted (l : List (Nat × String)) :
    (l.mergeSort precedes).Pairwise fun x y => precedes x y = true := by
  refine List.pairwise_mergeSort (fun x y z xy yz => ?_) (fun x y => ?_) l
  · rw [precedes_iff] at xy yz ⊢
    rcases xy with less | ⟨same, le⟩
    · rcases yz with less' | ⟨same', _⟩
      · exact .inl (less.trans less')
      · exact .inl (same' ▸ less)
    · rcases yz with less' | ⟨same', le'⟩
      · exact .inl (same ▸ less')
      · exact .inr ⟨same.trans same', le.trans le'⟩
  · rw [Bool.or_eq_true, precedes_iff, precedes_iff]
    rcases Nat.lt_trichotomy x.1 y.1 with less | same | more
    · exact .inl (.inl less)
    · rcases le_total x.2 y.2 with le | le
      · exact .inl (.inr ⟨same, le⟩)
      · exact .inr (.inr ⟨same.symm, le⟩)
    · exact .inr (.inl more)

theorem not_before {x y : String} (h : precedes (rank typed x, x) (rank typed y, y) = true) :
    ¬ Before typed y x := by
  rintro (less | ⟨same, less⟩)
  · rcases precedes_iff.mp h with less' | ⟨same, _⟩
    · exact absurd less (Nat.lt_asymm less')
    · exact absurd less (Nat.not_lt.mpr (Nat.le_of_eq same))
  · rcases precedes_iff.mp h with less' | ⟨_, le⟩
    · exact absurd less' (Nat.not_lt.mpr (Nat.le_of_eq same))
    · exact absurd less (not_lt.mpr le)

/-- The sorted candidates are those that are near, each behind its distance. -/
theorem sorted_names (typed : String) (candidates : List String) : ∃ names : List String,
    (candidates.filterMap (scored typed)).mergeSort precedes =
      names.map (fun name => (rank typed name, name)) ∧
    names.Perm (candidates.filter fun name => Near typed name) := by
  set sorted := (candidates.filterMap (scored typed)).mergeSort precedes
  have perm : sorted.Perm ((candidates.filter fun name => Near typed name).map
      fun name => (rank typed name, name)) :=
    filterMap_scored ▸ List.mergeSort_perm _ _
  refine ⟨sorted.map (·.2), ?_, ?_⟩
  · rw [List.map_map]
    refine (List.map_id sorted).symm.trans (List.map_congr_left fun e he => ?_)
    obtain ⟨name, _, rfl⟩ := List.mem_map.mp (perm.mem_iff.mp he)
    rfl
  · have names := perm.map (·.2)
    rw [List.map_map] at names
    exact names.trans (.of_eq (List.map_id _))

theorem nearest_closest (typed : String) (candidates : List String) :
    ∃ omitted, Closest typed candidates (nearest typed candidates) omitted := by
  obtain ⟨names, sorted, near⟩ := sorted_names typed candidates
  have out : nearest typed candidates = names.take 3 := by
    rw [nearest, sorted, ← List.map_take, List.map_map]
    exact List.map_id _
  have pairwise : names.Pairwise fun x y => ¬ Before typed y x := by
    have ordered := precedes_sorted (candidates.filterMap (scored typed))
    rw [sorted, List.pairwise_map] at ordered
    exact ordered.imp not_before
  rw [← List.take_append_drop 3 names, List.pairwise_append] at pairwise
  refine ⟨names.drop 3, ?_, ?_, ?_, ?_, ?_⟩
  · rw [out, List.take_append_drop]
    exact near
  · rw [out, List.length_take]
    exact Nat.min_le_left _ _
  · intro more
    have long : 3 < names.length := by
      by_contra short
      exact more (List.drop_eq_nil_of_le (not_lt.mp short))
    rw [out, List.length_take, Nat.min_eq_left (Nat.le_of_lt long)]
  · exact out ▸ pairwise.1
  · exact out ▸ pairwise.2.2

end Meaning

/-- The distance is the least number of edits, a metric on names; and what is offered are the
three nearest candidates of those that are near enough. -/
theorem nearest_exact :
    (∀ a b, editDistance a b = levenshtein a.toList b.toList ∧
      IsLeast {n | Edits n a.toList b.toList} (editDistance a b)) ∧
    (∀ a b, editDistance a b = editDistance b a) ∧
    (∀ a b, editDistance a b = 0 ↔ a = b) ∧
    (∀ a b c, editDistance a c ≤ editDistance a b + editDistance b c) ∧
    ∀ typed candidates,
      ∃ omitted, Closest typed candidates (nearest typed candidates) omitted := by
  refine ⟨fun a b => ?_, fun a b => ?_, fun a b => ?_, fun a b c => ?_, nearest_closest⟩
  · rw [editDistance_eq]
    exact ⟨rfl, levenshtein_least _ _⟩
  · rw [editDistance_eq, editDistance_eq]
    exact levenshtein_comm _ _
  · rw [editDistance_eq]
    exact levenshtein_eq_zero.trans String.toList_inj
  · rw [editDistance_eq, editDistance_eq, editDistance_eq]
    exact levenshtein_triangle _ _ _

end Nearest
end Metralectl
