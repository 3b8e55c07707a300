import Mathlib.Data.List.Basic

/-!
# Searches of bounded depth

Where a search may not go on for ever, it finds what lies within so many steps of where it starts,
and nothing else. What it walks over need not be finite, nor free of cycles.
-/
namespace Search

section Bounded
variable {α : Type} (next : α → List α) (found : α → Bool)

def within : Nat → α → Bool
  | 0, a => found a
  | depth + 1, a => found a || (next a).any (within depth)

/-- At most so many steps lead from one place to another. -/
inductive Reaches : Nat → α → α → Prop
  | here {depth a} : Reaches depth a a
  | step {depth a b c} : b ∈ next a → Reaches depth b c → Reaches (depth + 1) a c

variable {next found} {depth : Nat} {a : α}

theorem reaches_zero {b : α} (h : Reaches next 0 a b) : b = a := by
  cases h with
  | here => rfl

/-- The search answers as the paths from its start do. -/
theorem within_iff : within next found depth a = true ↔
    ∃ b, Reaches next depth a b ∧ found b = true := by
  induction depth generalizing a with
  | zero =>
      constructor
      · intro here
        exact ⟨a, .here, here⟩
      · rintro ⟨b, path, there⟩
        rw [within, ← reaches_zero path]
        exact there
  | succ depth ih =>
      rw [within, Bool.or_eq_true, List.any_eq_true]
      constructor
      · intro h
        cases h with
        | inl here => exact ⟨a, .here, here⟩
        | inr below =>
            obtain ⟨b, step, further⟩ := below
            obtain ⟨c, path, there⟩ := ih.mp further
            exact ⟨c, .step step path, there⟩
      · rintro ⟨c, path, there⟩
        cases path with
        | here => exact .inl there
        | step step path => exact .inr ⟨_, step, ih.mpr ⟨c, path, there⟩⟩

end Bounded

end Search
