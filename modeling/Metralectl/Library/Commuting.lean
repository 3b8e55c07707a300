import Mathlib.Data.List.Perm.Basic
import Metralectl.Library.Runs

/-!
Actions that do not disturb each other. Where each two of them can be taken in either order, one run
that comes to an end tells what every run comes to: whatever was done first, the rest remains.
-/
namespace Runs
universe u v
variable {σ : Type u} {α : Type v} {step : σ → α → Option σ} {s t u : σ} {as bs : List α}

/-- Two actions that are both possible can both be taken, and the order makes no difference. -/
def Commuting (step : σ → α → Option σ) : Prop :=
  ∀ s a b t u, a ≠ b → step s a = some t → step s b = some u →
    ∃ v, step t b = some v ∧ step u a = some v

/-- An action that is possible is taken sooner or later on the way to an end; it may be taken now. -/
theorem Commuting.first (commuting : Commuting step) (run : Run step Free s as t)
    (ended : ∀ a, step t a = none) {b : α} (now : step s b = some u) :
    ∃ cs, Run step Free u cs t ∧ as.Perm (b :: cs) := by
  induction run generalizing u with
  | nil t =>
      rw [ended b] at now
      cases now
  | @cons s m t a as hstep rest ih =>
      by_cases same : a = b
      · subst same
        rw [hstep.2] at now
        cases now
        exact ⟨as, rest, .refl _⟩
      · obtain ⟨v, later, first⟩ := commuting s a b m u same hstep.2 now
        obtain ⟨cs, after, perm⟩ := ih ended later
        exact ⟨a :: cs, .cons ⟨trivial, first⟩ after, (perm.cons a).trans (.swap b a cs)⟩

/-- Whatever has been done, what is left to do leads to the same end. -/
theorem Commuting.completes (commuting : Commuting step) (run : Run step Free s as t)
    (ended : ∀ a, step t a = none) (part : Run step Free s bs u) :
    ∃ cs, Run step Free u cs t ∧ as.Perm (bs ++ cs) := by
  induction part generalizing as with
  | nil s => exact ⟨as, run, .refl _⟩
  | cons hstep _ ih =>
      obtain ⟨cs, after, perm⟩ := commuting.first run ended hstep.2
      obtain ⟨ds, end_, perm'⟩ := ih after
      exact ⟨ds, end_, perm.trans (perm'.cons _)⟩

end Runs
