import Metralectl.Library.Runs

/-!
Calls on one shared value, interleaved where they wait. A call runs without
interruption up to its first wait and becomes a task; a task runs from one wait
to the next when what it waits for is answered. Nothing is assumed about which
task goes on, when, or with what answer: those are the actions of a run.
-/
namespace Interleaving
universe u v w x
variable {S : Type u} {T : Type v} {C : Type w} {R : Type x}

structure Object (S : Type u) (T : Type v) (C : Type w) (R : Type x) where
  enter : S → C → Option (S × T)
  resume : S → T → R → Option (S × T)

/-- Finished tasks stay in the list, so that a position names one call for good. -/
structure Pool (S : Type u) (T : Type v) where
  shared : S
  tasks : List T
deriving DecidableEq

inductive Act (C : Type w) (R : Type x) where
  | enter (c : C)
  | resume (i : Nat) (r : R)
deriving DecidableEq

def Pool.start (s : S) : Pool S T := ⟨s, []⟩

def Object.step (O : Object S T C R) (p : Pool S T) : Act C R → Option (Pool S T)
  | .enter c =>
      match O.enter p.shared c with
      | some (s, t) => some ⟨s, p.tasks ++ [t]⟩
      | none => none
  | .resume i r =>
      match p.tasks[i]? with
      | some t =>
          match O.resume p.shared t r with
          | some (s, t') => some ⟨s, p.tasks.set i t'⟩
          | none => none
      | none => none

/-- No task of the pool is in a phase that satisfies `P`. -/
def Pool.Idle (p : Pool S T) (P : T → Prop) : Prop := ∀ t ∈ p.tasks, ¬ P t

instance (p : Pool S T) (P : T → Prop) [DecidablePred P] : Decidable (p.Idle P) :=
  inferInstanceAs (Decidable (∀ t ∈ p.tasks, ¬ P t))

section Steps
variable {O : Object S T C R} {p q : Pool S T}

theorem Object.step_enter {c : C} (h : O.step p (.enter c) = some q) :
    ∃ s t, O.enter p.shared c = some (s, t) ∧ q = ⟨s, p.tasks ++ [t]⟩ := by
  simp only [Object.step] at h
  split at h
  · next s t he => exact ⟨s, t, he, (Option.some.inj h).symm⟩
  · cases h

theorem Object.step_resume {i : Nat} {r : R} (h : O.step p (.resume i r) = some q) :
    ∃ t s t', p.tasks[i]? = some t ∧ O.resume p.shared t r = some (s, t') ∧
      q = ⟨s, p.tasks.set i t'⟩ := by
  simp only [Object.step] at h
  split at h
  · next t ht =>
      split at h
      · next s t' hr => exact ⟨t, s, t', ht, hr, (Option.some.inj h).symm⟩
      · cases h
  · cases h

theorem Object.enter_step {c : C} {s : S} {t : T} (h : O.enter p.shared c = some (s, t)) :
    O.step p (.enter c) = some ⟨s, p.tasks ++ [t]⟩ := by
  simp [Object.step, h]

theorem Object.resume_step {i : Nat} {r : R} {t t' : T} {s : S}
    (ht : p.tasks[i]? = some t) (h : O.resume p.shared t r = some (s, t')) :
    O.step p (.resume i r) = some ⟨s, p.tasks.set i t'⟩ := by
  simp [Object.step, ht, h]

/-- After a new call, a position names an old task or the new one. -/
theorem task_of_append {ts : List T} {t u : T} {i : Nat} (h : (ts ++ [t])[i]? = some u) :
    ts[i]? = some u ∨ u = t := by
  rw [List.getElem?_append] at h
  split at h
  · exact Or.inl h
  · obtain ⟨_, hu⟩ := List.getElem?_eq_some_iff.mp h
    exact Or.inr (by simpa using hu.symm)

/-- After a resumption, a position names the resumed task or is as it was. -/
theorem task_of_set {ts : List T} {t u : T} {i j : Nat} (h : (ts.set i t)[j]? = some u) :
    (j = i ∧ u = t) ∨ (j ≠ i ∧ ts[j]? = some u) := by
  rw [List.getElem?_set] at h
  split at h
  · next hij =>
      split at h
      · exact Or.inl ⟨hij.symm, (Option.some.inj h).symm⟩
      · cases h
  · next hij => exact Or.inr ⟨fun hji => hij hji.symm, h⟩

end Steps

/-- A property of the shared value together with one of each task beside it. -/
def Pool.Holds (I : S → Prop) (J : S → T → Prop) (p : Pool S T) : Prop :=
  I p.shared ∧ ∀ t ∈ p.tasks, J p.shared t

/-- The thread-modular obligations: a segment keeps the shared property,
establishes the property of the task it leaves behind, and disturbs no other. -/
structure Object.Preserves (O : Object S T C R) (G : Pool S T → Act C R → Prop)
    (I : S → Prop) (J : S → T → Prop) : Prop where
  enter : ∀ (p : Pool S T) c s t, p.Holds I J → G p (.enter c) →
    O.enter p.shared c = some (s, t) → I s ∧ J s t ∧ ∀ u ∈ p.tasks, J s u
  resume : ∀ (p : Pool S T) i r t s t', p.Holds I J → G p (.resume i r) →
    p.tasks[i]? = some t → O.resume p.shared t r = some (s, t') →
    I s ∧ J s t' ∧ ∀ u ∈ p.tasks.set i t', u ≠ t' → J s u

theorem Object.Preserves.step {O : Object S T C R} {G : Pool S T → Act C R → Prop}
    {I : S → Prop} {J : S → T → Prop} (pres : O.Preserves G I J)
    (p : Pool S T) (a : Act C R) (q : Pool S T)
    (hp : p.Holds I J) (hg : G p a) (h : O.step p a = some q) : q.Holds I J := by
  cases a with
  | enter c =>
      obtain ⟨s, t, he, rfl⟩ := Object.step_enter h
      obtain ⟨hI, hJ, others⟩ := pres.enter p c s t hp hg he
      refine ⟨hI, ?_⟩
      intro u hu
      cases List.mem_append.mp hu with
      | inl hu => exact others u hu
      | inr hu =>
          rw [List.mem_singleton.mp hu]
          exact hJ
  | resume i r =>
      obtain ⟨t, s, t', ht, hr, rfl⟩ := Object.step_resume h
      obtain ⟨hI, hJ, others⟩ := pres.resume p i r t s t' hp hg ht hr
      refine ⟨hI, ?_⟩
      intro u hu
      by_cases hut : u = t'
      · rw [hut]
        exact hJ
      · exact others u hu hut

theorem Object.Preserves.run {O : Object S T C R} {G : Pool S T → Act C R → Prop}
    {I : S → Prop} {J : S → T → Prop} (pres : O.Preserves G I J)
    {p q : Pool S T} {as : List (Act C R)} (hp : p.Holds I J)
    (run : Runs.Run O.step G p as q) : q.Holds I J :=
  Runs.Run.invariant run hp pres.step

/-- Among those of a kind, no two are told the same. -/
structure Sole {α : Type u} {β : Type v} (P : α → Prop) (f : α → β) (l : List α) : Prop where
  at_ : ∀ {j k : Nat} {a b : α}, l[j]? = some a → l[k]? = some b → P a → P b → f a = f b → j = k

section Lists
variable {α : Type u} {β : Type v} {P : α → Prop} {f : α → β} {l : List α}

theorem Sole.snoc (h : Sole P f l) {a : α} (new : P a → ∀ b ∈ l, P b → f b ≠ f a) :
    Sole P f (l ++ [a]) := by
  have place {j : Nat} {b : α} (here : (l ++ [a])[j]? = some b) :
      l[j]? = some b ∨ j = l.length ∧ b = a := by
    rcases Nat.lt_or_ge j l.length with lt | ge
    · exact Or.inl (by rwa [List.getElem?_append_left lt] at here)
    · rw [List.getElem?_append_right ge] at here
      obtain ⟨zero, same⟩ := List.getElem?_eq_some_iff.mp here
      simp only [List.length_singleton] at zero
      exact Or.inr ⟨by omega, by simpa using same.symm⟩
  refine ⟨fun {j k b c} first second one two same => ?_⟩
  rcases place first with old | ⟨end_, rfl⟩ <;> rcases place second with old' | ⟨end_', rfl⟩
  · exact h.at_ old old' one two same
  · exact absurd same (new two _ (List.mem_of_getElem? old) one)
  · exact absurd same.symm (new one _ (List.mem_of_getElem? old') two)
  · rw [end_, end_']

theorem Sole.map (h : Sole P f l) (g : α → α) (kind : ∀ a, P (g a) → P a)
    (same : ∀ a, f (g a) = f a) : Sole P f (l.map g) := by
  refine ⟨fun {j k a b} first second one two eq => ?_⟩
  rw [List.getElem?_map, Option.map_eq_some_iff] at first second
  obtain ⟨a, first, rfl⟩ := first
  obtain ⟨b, second, rfl⟩ := second
  rw [same, same] at eq
  exact h.at_ first second (kind a one) (kind b two) eq

theorem Sole.set (h : Sole P f l) {k : Nat} {a a' : α} (here : l[k]? = some a) (same : f a' = f a)
    (new : P a' → P a ∨ ∀ b ∈ l, P b → f b ≠ f a) : Sole P f (l.set k a') := by
  have other {j : Nat} {b : α} (away : j ≠ k) (there : l[j]? = some b) (kind : P b) (kind' : P a') :
      f b ≠ f a := by
    rcases new kind' with was | none_
    · exact fun eq => away (h.at_ there here kind was eq)
    · exact none_ b (List.mem_of_getElem? there) kind
  have place {j : Nat} {b : α} (there : (l.set k a')[j]? = some b) :
      j ≠ k ∧ l[j]? = some b ∨ j = k ∧ b = a' := by
    rw [List.getElem?_set] at there
    split at there
    · next eq =>
        split at there
        · exact Or.inr ⟨eq.symm, (Option.some.inj there).symm⟩
        · cases there
    · next away => exact Or.inl ⟨Ne.symm away, there⟩
  refine ⟨fun {i j b c} first second one two eq => ?_⟩
  rcases place first with ⟨away, old⟩ | ⟨at_, rfl⟩ <;>
    rcases place second with ⟨away', old'⟩ | ⟨at_', rfl⟩
  · exact h.at_ old old' one two eq
  · exact absurd (eq.trans same) (other away old one two)
  · exact absurd (eq.symm.trans same) (other away' old' two one)
  · rw [at_, at_']

theorem map_set_same {k : Nat} {a a' : α} (here : l[k]? = some a) (same : f a' = f a) :
    (l.set k a').map f = l.map f := by
  refine List.ext_getElem? fun j => ?_
  rw [List.getElem?_map, List.getElem?_map, List.getElem?_set]
  split
  · next eq =>
      subst eq
      rw [here]
      simp [same, (List.getElem?_eq_some_iff.mp here).1]
  · rfl

end Lists

end Interleaving
