import Mathlib.Data.List.Pairwise

/-!
Stable sorting. Of elements that are alike to the order, a stable sort keeps the order they come in;
nothing else of the list it sorts makes a difference.
-/
namespace StableSort
variable {α : Type} {le : α → α → Bool} {s t l₁ l₂ : List α}

/-- Neither stands before the other. -/
def alike (le : α → α → Bool) (a b : α) : Bool := le a b && le b a

section Orders
variable (trans : ∀ a b c, le a b = true → le b c = true → le a c = true)
variable (total : ∀ a b, (le a b || le b a) = true)

include total in
theorem alike_refl (a : α) : alike le a a = true := by
  have := total a a
  rw [Bool.or_self] at this
  rw [alike, this]
  rfl

include trans total in
/-- Sorting keeps elements that are alike in the order they come in. -/
theorem filter_mergeSort (l : List α) (a : α) :
    (l.mergeSort le).filter (alike le a) = l.filter (alike le a) := by
  have ordered : (l.filter (alike le a)).Pairwise fun b c => le b c = true := by
    refine List.pairwise_of_forall_mem_list fun b hb c hc => ?_
    have mine := (List.mem_filter.mp hb).2
    have other := (List.mem_filter.mp hc).2
    rw [alike, Bool.and_eq_true] at mine other
    exact trans b a c mine.2 other.1
  have within := (List.sublist_mergeSort trans total ordered List.filter_sublist).filter (alike le a)
  simp only [List.filter_filter, Bool.and_self] at within
  refine (within.eq_of_length ?_).symm
  exact ((List.mergeSort_perm l le).filter (alike le a)).length_eq.symm

include total in
/-- Two sorted lists that look the same to each class are the same. -/
theorem eq_of_classes (hs : s.Pairwise fun b c => le b c = true)
    (ht : t.Pairwise fun b c => le b c = true)
    (classes : ∀ a, s.filter (alike le a) = t.filter (alike le a)) : s = t := by
  have mem {s t : List α} (classes : ∀ a, s.filter (alike le a) = t.filter (alike le a)) {a : α}
      (ha : a ∈ s) : a ∈ t := by
    have there := List.mem_filter.mpr ⟨ha, alike_refl total a⟩
    rw [classes a] at there
    exact (List.mem_filter.mp there).1
  induction s generalizing t with
  | nil =>
      cases t with
      | nil => rfl
      | cons b t => cases mem (fun a => (classes a).symm) (List.mem_cons_self (a := b) (l := t))
  | cons a s ih =>
      cases t with
      | nil => cases mem classes (List.mem_cons_self (a := a) (l := s))
      | cons b t =>
          have least {c d : α} {rest : List α} (sorted : (c :: rest).Pairwise fun b c => le b c = true)
              (hd : d ∈ c :: rest) : le c d = true := by
            cases List.mem_cons.mp hd with
            | inl same =>
                have := total c c
                rwa [same, ← Bool.or_self (le c c)]
            | inr later => exact List.rel_of_pairwise_cons sorted later
          have ba : le b a = true := least ht (mem classes List.mem_cons_self)
          have ab : le a b = true := least hs (mem (fun a => (classes a).symm) List.mem_cons_self)
          have heads := classes a
          rw [List.filter_cons_of_pos (alike_refl total a),
            List.filter_cons_of_pos (by rw [alike, ab, ba]; rfl), List.cons.injEq] at heads
          obtain ⟨rfl, _⟩ := heads
          congr 1
          refine ih (List.Pairwise.of_cons hs) (List.Pairwise.of_cons ht) fun x => ?_
          have whole := classes x
          by_cases like : alike le x a = true
          · rw [List.filter_cons_of_pos like, List.filter_cons_of_pos like, List.cons.injEq] at whole
            exact whole.2
          · rwa [List.filter_cons_of_neg like, List.filter_cons_of_neg like] at whole

include trans total in
theorem mergeSort_eq (classes : ∀ a, l₁.filter (alike le a) = l₂.filter (alike le a)) :
    l₁.mergeSort le = l₂.mergeSort le := by
  refine eq_of_classes total (List.pairwise_mergeSort trans total l₁)
    (List.pairwise_mergeSort trans total l₂) fun a => ?_
  rw [filter_mergeSort trans total, filter_mergeSort trans total, classes]

end Orders

end StableSort
