import Metralectl.Library.Runs

/-!
A machine that stands for another, step for step, but for the steps nobody sees.
-/
namespace Runs
universe u v w x
variable {σ : Type u} {α : Type v} {τ : Type w} {β : Type x}

/-- A step that shows a label is a step of the other machine; one that shows none
leaves it where it is. -/
structure Simulates (R : σ → α → σ → Prop) (Q : τ → β → τ → Prop) (label : α → Option β)
    (M : σ → τ → Prop) : Prop where
  seen : ∀ {s a t x b}, M s x → R s a t → label a = some b → ∃ y, Q x b y ∧ M t y
  unseen : ∀ {s a t x}, M s x → R s a t → label a = none → M t x

section Simulation
variable {R : σ → α → σ → Prop} {Q : τ → β → τ → Prop} {label : α → Option β} {M : σ → τ → Prop}
variable {s t : σ} {x : τ} {as : List α}

/-- What a path shows is a path of the other machine. -/
theorem Simulates.path (sim : Simulates R Q label M) (path : Path R s as t) (start : M s x) :
    ∃ y, Path Q x (as.filterMap label) y ∧ M t y := by
  induction path generalizing x with
  | nil s => exact ⟨x, .nil x, start⟩
  | @cons s m t a as hstep _ ih =>
      cases shown : label a with
      | none =>
          obtain ⟨y, after, matched⟩ := ih (sim.unseen start hstep shown)
          exact ⟨y, by rwa [List.filterMap_cons_none shown], matched⟩
      | some b =>
          obtain ⟨m', first, here⟩ := sim.seen start hstep shown
          obtain ⟨y, after, matched⟩ := ih here
          exact ⟨y, by rw [List.filterMap_cons_some shown]; exact .cons first after, matched⟩

/-- Two machines that stand for one, whose labels alone tell where it goes, are told
apart by nothing but what they show. -/
theorem Simulates.same {σ' : Type u} {α' : Type v} {R' : σ' → α' → σ' → Prop}
    {label' : α' → Option β} {M' : σ' → τ → Prop} {s' t' : σ'} {as' : List α'}
    {step : τ → β → Option τ} {G : τ → β → Prop}
    (sim : Simulates R (Guarded step G) label M) (sim' : Simulates R' (Guarded step G) label' M')
    (path : Path R s as t) (path' : Path R' s' as' t') (start : M s x) (start' : M' s' x)
    (shown : as.filterMap label = as'.filterMap label') : ∃ y, M t y ∧ M' t' y := by
  obtain ⟨y, one, matched⟩ := sim.path path start
  obtain ⟨y', other, matched'⟩ := sim'.path path' start'
  rw [shown] at one
  exact ⟨y, matched, Run.deterministic other one ▸ matched'⟩

end Simulation
end Runs
