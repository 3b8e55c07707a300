import Mathlib.Algebra.BigOperators.Group.List.Basic
import Mathlib.Algebra.GroupWithZero.Nat
import Metralectl.Library.Interleaving

/-!
What calls on one shared value may hold of a budget, together with the shared value itself, however
they are interleaved: if no segment of a call takes more than it makes room for, no run does.
-/
namespace Interleaving
open Runs
universe u v w x
variable {S : Type u} {T : Type v} {C : Type w} {R : Type x}

/-- What the shared value and the tasks hold together. -/
def Pool.held (μ : S → Nat) (ω : T → Nat) (p : Pool S T) : Nat := μ p.shared + (p.tasks.map ω).sum

/-- No segment takes more than the budget grows by. -/
structure Object.Spends (O : Object S T C R) (β μ : S → Nat) (ω : T → Nat) : Prop where
  enter : ∀ {s c s' t}, O.enter s c = some (s', t) → μ s' + ω t + β s ≤ μ s + β s'
  resume : ∀ {s t r s' t'}, O.resume s t r = some (s', t') → μ s' + ω t' + β s ≤ μ s + ω t + β s'

section Budget
variable {O : Object S T C R} {β μ : S → Nat} {ω : T → Nat} {p q : Pool S T}

theorem sum_map_set (ω : T → Nat) {l : List T} {i : Nat} {t : T} (u : T) (here : l[i]? = some t) :
    ((l.set i u).map ω).sum + ω t = (l.map ω).sum + ω u := by
  induction l generalizing i with
  | nil => cases here
  | cons v l ih =>
      cases i with
      | zero =>
          cases here
          simp only [List.set_cons_zero, List.map_cons, List.sum_cons]
          omega
      | succ i =>
          have rest := ih here
          simp only [List.set_cons_succ, List.map_cons, List.sum_cons]
          omega

theorem Object.Spends.step (spends : O.Spends β μ ω) {a : Act C R} (hstep : O.step p a = some q)
    (within : p.held μ ω ≤ β p.shared) : q.held μ ω ≤ β q.shared := by
  unfold Pool.held at within ⊢
  cases a with
  | enter c =>
      obtain ⟨s, t, entered, rfl⟩ := Object.step_enter hstep
      have cost := spends.enter entered
      simp only [List.map_append, List.sum_append, List.map_cons, List.map_nil, List.sum_cons,
        List.sum_nil]
      omega
  | resume i r =>
      obtain ⟨t, s, t', here, resumed, rfl⟩ := Object.step_resume hstep
      have cost := spends.resume resumed
      have moved := sum_map_set ω t' here
      dsimp only
      omega

theorem Object.Spends.run (spends : O.Spends β μ ω) {G : Pool S T → Act C R → Prop}
    {as : List (Act C R)} (run : Run O.step G p as q) (within : p.held μ ω ≤ β p.shared) :
    q.held μ ω ≤ β q.shared :=
  run.invariant within fun _ _ _ here _ hstep => spends.step hstep here

end Budget
end Interleaving
