import Mathlib.Data.List.Basic
import Mathlib.Order.Bounds.Basic
import Mathlib.Order.MinMax

/-!
The Levenshtein distance of two lists: the least number of insertions, deletions and replacements
of one element each that lead from one to the other. It is computed along alignments, and the
prefixes of the two lists give the table of the dynamic program.
-/
namespace EditDistance
variable {α : Type*} {a b c : List α} {m n : Nat}

/-- One element inserted, deleted or replaced. -/
inductive Edit : List α → List α → Prop
  | insert (front back : List α) (x : α) : Edit (front ++ back) (front ++ x :: back)
  | delete (front back : List α) (x : α) : Edit (front ++ x :: back) (front ++ back)
  | replace (front back : List α) (x y : α) : Edit (front ++ x :: back) (front ++ y :: back)

/-- So many edits, one after the other. -/
inductive Edits : Nat → List α → List α → Prop
  | refl (a : List α) : Edits 0 a a
  | step {n : Nat} {a b c : List α} (first : Edit a b) (rest : Edits n b c) : Edits (n + 1) a c

/-- The two lists written under each other, and how many columns differ. -/
inductive Aligned : List α → List α → Nat → Prop
  | nil : Aligned [] [] 0
  | insert (y : α) {a b : List α} {n : Nat} (h : Aligned a b n) : Aligned a (y :: b) (n + 1)
  | delete (x : α) {a b : List α} {n : Nat} (h : Aligned a b n) : Aligned (x :: a) b (n + 1)
  | keep (x : α) {a b : List α} {n : Nat} (h : Aligned a b n) : Aligned (x :: a) (x :: b) n
  | replace (x y : α) {a b : List α} {n : Nat} (h : Aligned a b n) :
      Aligned (x :: a) (y :: b) (n + 1)

section Alignments

theorem Aligned.refl : ∀ a : List α, Aligned a a 0
  | [] => .nil
  | x :: a => .keep x (refl a)

theorem Aligned.symm (h : Aligned a b n) : Aligned b a n := by
  induction h with
  | nil => exact .nil
  | insert y _ ih => exact .delete y ih
  | delete x _ ih => exact .insert x ih
  | keep x _ ih => exact .keep x ih
  | replace x y _ ih => exact .replace y x ih

theorem Aligned.eq_of_zero (h : Aligned a b 0) : a = b := by
  generalize same : 0 = n at h
  induction h with
  | nil => rfl
  | keep x _ ih => rw [ih same]
  | insert _ _ _ | delete _ _ _ | replace _ _ _ _ => cases same

theorem Aligned.append {a' b' : List α} (h : Aligned a b m) (h' : Aligned a' b' n) :
    Aligned (a ++ a') (b ++ b') (m + n) := by
  induction h with
  | nil => rwa [Nat.zero_add]
  | insert y _ ih => exact Nat.succ_add _ n ▸ .insert y ih
  | delete x _ ih => exact Nat.succ_add _ n ▸ .delete x ih
  | keep x _ ih => exact .keep x ih
  | replace x y _ ih => exact Nat.succ_add _ n ▸ .replace x y ih

theorem Aligned.reverse (h : Aligned a b n) : Aligned a.reverse b.reverse n := by
  induction h with
  | nil => exact .nil
  | insert y _ ih =>
      rw [List.reverse_cons]
      simpa using ih.append (.insert y .nil)
  | delete x _ ih =>
      rw [List.reverse_cons]
      simpa using ih.append (.delete x .nil)
  | keep x _ ih =>
      rw [List.reverse_cons, List.reverse_cons]
      exact ih.append (.keep x .nil)
  | replace x y _ ih =>
      rw [List.reverse_cons, List.reverse_cons]
      exact ih.append (.replace x y .nil)

/-- The first element of the one list is deleted, kept or replaced, behind insertions. -/
theorem Aligned.carry {y : α} (h : Aligned (y :: b) c n)
    (gone : ∀ {c n}, Aligned b c n → ∃ k ≤ m + n + 1, Aligned a c k)
    (kept : ∀ {c n}, Aligned b c n → ∃ k ≤ m + n, Aligned a (y :: c) k)
    (changed : ∀ z {c n}, Aligned b c n → ∃ k ≤ m + n + 1, Aligned a (z :: c) k) :
    ∃ k ≤ m + n, Aligned a c k := by
  generalize under : y :: b = w at h
  induction h with
  | nil => cases under
  | insert z _ ih =>
      obtain ⟨k, least, there⟩ := ih under
      exact ⟨k + 1, by omega, .insert z there⟩
  | delete _ h =>
      cases under
      exact gone h
  | keep _ h =>
      cases under
      exact kept h
  | replace _ z h =>
      cases under
      exact changed z h

/-- Two alignments over a common list make one, with no more columns that differ. -/
theorem Aligned.trans (h : Aligned a b m) (h' : Aligned b c n) :
    ∃ k ≤ m + n, Aligned a c k := by
  induction h generalizing c n with
  | nil => exact ⟨n, (Nat.zero_add n).ge, h'⟩
  | delete x _ ih =>
      obtain ⟨k, least, there⟩ := ih h'
      exact ⟨k + 1, by omega, .delete x there⟩
  | insert y _ ih =>
      apply h'.carry
      · intro c n rest
        obtain ⟨k, least, there⟩ := ih rest
        exact ⟨k, by omega, there⟩
      · intro c n rest
        obtain ⟨k, least, there⟩ := ih rest
        exact ⟨k + 1, by omega, .insert y there⟩
      · intro z c n rest
        obtain ⟨k, least, there⟩ := ih rest
        exact ⟨k + 1, by omega, .insert z there⟩
  | keep x _ ih =>
      apply h'.carry
      · intro c n rest
        obtain ⟨k, least, there⟩ := ih rest
        exact ⟨k + 1, by omega, .delete x there⟩
      · intro c n rest
        obtain ⟨k, least, there⟩ := ih rest
        exact ⟨k, least, .keep x there⟩
      · intro z c n rest
        obtain ⟨k, least, there⟩ := ih rest
        exact ⟨k + 1, by omega, .replace x z there⟩
  | replace x y _ ih =>
      apply h'.carry
      · intro c n rest
        obtain ⟨k, least, there⟩ := ih rest
        exact ⟨k + 1, by omega, .delete x there⟩
      · intro c n rest
        obtain ⟨k, least, there⟩ := ih rest
        exact ⟨k + 1, by omega, .replace x y there⟩
      · intro z c n rest
        obtain ⟨k, least, there⟩ := ih rest
        exact ⟨k + 1, by omega, .replace x z there⟩

end Alignments

section Edits

theorem Edit.cons (x : α) (h : Edit a b) : Edit (x :: a) (x :: b) := by
  cases h with
  | insert front back y => exact .insert (x :: front) back y
  | delete front back y => exact .delete (x :: front) back y
  | replace front back y z => exact .replace (x :: front) back y z

theorem Edits.cons (x : α) (h : Edits n a b) : Edits n (x :: a) (x :: b) := by
  induction h with
  | refl a => exact .refl (x :: a)
  | step first _ ih => exact .step (first.cons x) ih

/-- Every column that differs is an edit. -/
theorem Aligned.edits (h : Aligned a b n) : Edits n a b := by
  induction h with
  | nil => exact .refl []
  | @insert y a b n _ ih => exact .step (.insert [] a y) (ih.cons y)
  | @delete x a b n _ ih => exact .step (.delete [] a x) ih
  | keep x _ ih => exact ih.cons x
  | @replace x y a b n _ ih => exact .step (.replace [] a x y) (ih.cons y)

theorem Edit.aligned (h : Edit a b) : Aligned a b 1 := by
  have behind {a b : List α} (front : List α) (h : Aligned a b 1) :
      Aligned (front ++ a) (front ++ b) 1 := by
    simpa using (Aligned.refl front).append h
  cases h with
  | insert front back x => exact behind front (.insert x (.refl back))
  | delete front back x => exact behind front (.delete x (.refl back))
  | replace front back x y => exact behind front (.replace x y (.refl back))

theorem Edits.aligned (h : Edits n a b) : ∃ k ≤ n, Aligned a b k := by
  induction h with
  | refl a => exact ⟨0, Nat.le_refl 0, .refl a⟩
  | step first _ ih =>
      obtain ⟨k, least, rest⟩ := ih
      obtain ⟨j, within, whole⟩ := first.aligned.trans rest
      exact ⟨j, by omega, whole⟩

end Edits

variable [DecidableEq α]

/-- The distance by its recursion. -/
def levenshtein : List α → List α → Nat
  | [], b => b.length
  | x :: a, [] => (x :: a).length
  | x :: a, y :: b =>
      min (min (levenshtein a (y :: b) + 1) (levenshtein (x :: a) b + 1))
        (levenshtein a b + if x = y then 0 else 1)
termination_by a b => a.length + b.length

section Distance

theorem levenshtein_nil_left : levenshtein [] b = b.length := by rw [levenshtein]

theorem levenshtein_nil_right : levenshtein a [] = a.length := by
  cases a with
  | nil => exact levenshtein_nil_left
  | cons x a => rw [levenshtein]

theorem levenshtein_cons (x y : α) (a b : List α) : levenshtein (x :: a) (y :: b) =
    min (min (levenshtein a (y :: b) + 1) (levenshtein (x :: a) b + 1))
      (levenshtein a b + if x = y then 0 else 1) := by rw [levenshtein]

theorem aligned_levenshtein (a b : List α) : Aligned a b (levenshtein a b) := by
  induction a, b using levenshtein.induct with
  | case1 b =>
      rw [levenshtein_nil_left]
      induction b with
      | nil => exact .nil
      | cons y b ih => exact .insert y ih
  | case2 x a =>
      rw [levenshtein_nil_right]
      induction x :: a with
      | nil => exact .nil
      | cons x a ih => exact .delete x ih
  | case3 x a y b deleted inserted both =>
      rw [levenshtein_cons]
      rcases min_choice (min (levenshtein a (y :: b) + 1) (levenshtein (x :: a) b + 1))
        (levenshtein a b + if x = y then 0 else 1) with outer | outer
      · rw [outer]
        rcases min_choice (levenshtein a (y :: b) + 1) (levenshtein (x :: a) b + 1) with
          inner | inner
        · rw [inner]
          exact .delete x deleted
        · rw [inner]
          exact .insert y inserted
      · rw [outer]
        split
        · next same => exact same ▸ .keep x both
        · exact .replace x y both

theorem levenshtein_le (h : Aligned a b n) : levenshtein a b ≤ n := by
  induction h with
  | nil => rw [levenshtein_nil_left, List.length_nil]
  | @insert y a b n _ ih =>
      cases a with
      | nil =>
          rw [levenshtein_nil_left] at ih ⊢
          exact Nat.succ_le_succ ih
      | cons x a =>
          rw [levenshtein_cons]
          omega
  | @delete x a b n _ ih =>
      cases b with
      | nil =>
          rw [levenshtein_nil_right] at ih ⊢
          exact Nat.succ_le_succ ih
      | cons y b =>
          rw [levenshtein_cons]
          omega
  | @keep x a b n _ ih =>
      rw [levenshtein_cons, if_pos rfl]
      omega
  | @replace x y a b n _ ih =>
      rw [levenshtein_cons]
      split <;> omega

/-- It is the least number of edits. -/
theorem levenshtein_least (a b : List α) : IsLeast {n | Edits n a b} (levenshtein a b) := by
  constructor
  · exact (aligned_levenshtein a b).edits
  · intro n edits
    obtain ⟨k, least, aligned⟩ := edits.aligned
    exact (levenshtein_le aligned).trans least

theorem levenshtein_comm (a b : List α) : levenshtein a b = levenshtein b a :=
  Nat.le_antisymm (levenshtein_le (aligned_levenshtein b a).symm)
    (levenshtein_le (aligned_levenshtein a b).symm)

theorem levenshtein_eq_zero : levenshtein a b = 0 ↔ a = b := by
  constructor
  · intro zero
    exact (zero ▸ aligned_levenshtein a b : Aligned a b 0).eq_of_zero
  · rintro rfl
    exact Nat.le_zero.mp (levenshtein_le (.refl a))

theorem levenshtein_triangle (a b c : List α) :
    levenshtein a c ≤ levenshtein a b + levenshtein b c := by
  obtain ⟨k, least, aligned⟩ := (aligned_levenshtein a b).trans (aligned_levenshtein b c)
  exact (levenshtein_le aligned).trans least

theorem levenshtein_reverse (a b : List α) :
    levenshtein a.reverse b.reverse = levenshtein a b := by
  have shorter (a b : List α) : levenshtein a.reverse b.reverse ≤ levenshtein a b :=
    levenshtein_le (aligned_levenshtein a b).reverse
  refine Nat.le_antisymm (shorter a b) ?_
  simpa using shorter a.reverse b.reverse

end Distance

section Table
variable (a b : List α) {i j : Nat} {x y : α}

/-- The distance of the first elements of the two lists. -/
def cell (i j : Nat) : Nat := levenshtein (a.take i).reverse (b.take j).reverse

theorem cell_top (within : j ≤ b.length) : cell a b 0 j = j := by
  rw [cell, List.take_zero, List.reverse_nil, levenshtein_nil_left, List.length_reverse,
    List.length_take, Nat.min_eq_left within]

theorem cell_left (within : i ≤ a.length) : cell a b i 0 = i := by
  rw [cell, List.take_zero, List.reverse_nil, levenshtein_nil_right, List.length_reverse,
    List.length_take, Nat.min_eq_left within]

variable {a b}

theorem cell_next (hx : a[i]? = some x) (hy : b[j]? = some y) :
    cell a b (i + 1) (j + 1) = min (min (cell a b i (j + 1) + 1) (cell a b (i + 1) j + 1))
      (cell a b i j + if x = y then 0 else 1) := by
  have last {l : List α} {k : Nat} {z : α} (hz : l[k]? = some z) :
      (l.take (k + 1)).reverse = z :: (l.take k).reverse := by
    rw [List.take_add_one, hz, List.reverse_append]
    rfl
  unfold cell
  rw [last hx, last hy, levenshtein_cons]

theorem cell_whole : cell a b a.length b.length = levenshtein a b := by
  rw [cell, List.take_length, List.take_length, levenshtein_reverse]

end Table
end EditDistance
