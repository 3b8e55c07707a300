import Mathlib.Logic.Basic

/-!
Finite paths of a labelled transition relation, and the special case of a
partial step function whose steps are taken under a guard. A guard that always
holds gives the plain runs; a stronger one singles out the runs whose steps all
meet a condition. No action is assumed to be enabled.
-/
namespace Runs
universe u v
variable {σ : Type u} {α : Type v}

inductive Path (R : σ → α → σ → Prop) : σ → List α → σ → Prop
  | nil (s : σ) : Path R s [] s
  | cons {s t u : σ} {a : α} {as : List α} :
      R s a t → Path R t as u → Path R s (a :: as) u

section Relations
variable {R Q : σ → α → σ → Prop} {s t u : σ} {as bs : List α}

/-- What every step keeps, every path keeps. -/
theorem Path.invariant {I : σ → Prop} (path : Path R s as t) (hs : I s)
    (keep : ∀ s a t, I s → R s a t → I t) : I t := by
  induction path with
  | nil _ => exact hs
  | cons hstep _ ih => exact ih (keep _ _ _ hs hstep)

/-- The same rule for a relation between the first state and the one reached. -/
theorem Path.relates {E : σ → σ → Prop} (path : Path R s as t) (refl : ∀ s, E s s)
    (trans : ∀ s t u, E s t → E t u → E s u) (one : ∀ s a t, R s a t → E s t) : E s t := by
  induction path with
  | nil s => exact refl s
  | cons hstep _ ih => exact trans _ _ _ (one _ _ _ hstep) ih

theorem Path.mono (path : Path R s as t) (weaker : ∀ s a t, R s a t → Q s a t) :
    Path Q s as t := by
  induction path with
  | nil s => exact .nil s
  | cons hstep _ ih => exact .cons (weaker _ _ _ hstep) ih

theorem Path.append (path : Path R s as t) (rest : Path R t bs u) :
    Path R s (as ++ bs) u := by
  induction path with
  | nil _ => exact rest
  | cons hstep _ ih => exact .cons hstep (ih rest)

/-- What holds at the start with no past, and of which every step makes the same
with a past one longer, holds at the end with the whole path as its past. -/
theorem Path.history {H : List α → σ → Prop} (path : Path R s as t) (first : H [] s)
    (keep : ∀ pre m a n, Path R s pre m → H pre m → R m a n → H (pre ++ [a]) n) : H as t := by
  have from_here {m t : σ} {rest : List α} (after : Path R m rest t) :
      ∀ pre, Path R s pre m → H pre m → H (pre ++ rest) t := by
    induction after with
    | nil m =>
        intro pre _ here
        rw [List.append_nil]
        exact here
    | @cons m n t a rest hstep _ ih =>
        intro pre before here
        have next_ : Path R s (pre ++ [a]) n := before.append (.cons hstep (.nil n))
        have whole := ih (pre ++ [a]) next_ (keep pre m a n before here hstep)
        rwa [List.append_assoc] at whole
  exact from_here path [] (.nil s) first

theorem Path.labels {P : α → Prop} (path : Path R s as t)
    (one : ∀ s a t, R s a t → P a) : ∀ a ∈ as, P a := by
  induction path with
  | nil _ => simp
  | cons hstep _ ih =>
      intro b hb
      rcases List.mem_cons.mp hb with rfl | hb
      · exact one _ _ _ hstep
      · exact ih b hb

/-- Labels that cost a measure something occur at most as often as it allows,
when no other label raises it. -/
theorem Path.countP_le {p : α → Bool} (μ : σ → Nat) (path : Path R s as t)
    (costs : ∀ s a t, R s a t → p a = true → μ t < μ s)
    (spares : ∀ s a t, R s a t → p a = false → μ t ≤ μ s) :
    as.countP p + μ t ≤ μ s := by
  induction path with
  | nil _ => simp
  | @cons s t u a as hstep _ ih =>
      cases hp : p a with
      | true =>
          have := costs s a t hstep hp
          rw [List.countP_cons_of_pos hp]
          omega
      | false =>
          have := spares s a t hstep hp
          rw [List.countP_cons_of_neg (by simp [hp])]
          omega

theorem Path.split (path : Path R s (as ++ bs) u) : ∃ t, Path R s as t ∧ Path R t bs u := by
  induction as generalizing s with
  | nil => exact ⟨s, .nil s, path⟩
  | cons a as ih =>
      cases path with
      | cons hstep rest =>
          obtain ⟨t, first, second⟩ := ih rest
          exact ⟨t, .cons hstep first, second⟩

end Relations

/-- One step of `step`, taken where the guard holds. -/
def Guarded (step : σ → α → Option σ) (G : σ → α → Prop) (s : σ) (a : α) (t : σ) : Prop :=
  G s a ∧ step s a = some t

abbrev Run (step : σ → α → Option σ) (G : σ → α → Prop) : σ → List α → σ → Prop :=
  Path (Guarded step G)

def Free : σ → α → Prop := fun _ _ => True

section Steps
variable {step : σ → α → Option σ} {G H : σ → α → Prop} {s t u : σ} {as : List α}

theorem Run.invariant {I : σ → Prop} (run : Run step G s as t) (hs : I s)
    (keep : ∀ s a t, I s → G s a → step s a = some t → I t) : I t :=
  Path.invariant run hs fun s a t hs h => keep s a t hs h.1 h.2

theorem Run.relates {E : σ → σ → Prop} (run : Run step G s as t) (refl : ∀ s, E s s)
    (trans : ∀ s t u, E s t → E t u → E s u)
    (one : ∀ s a t, G s a → step s a = some t → E s t) : E s t :=
  Path.relates run refl trans fun s a t h => one s a t h.1 h.2

theorem Run.mono (run : Run step G s as t) (weaker : ∀ s a, G s a → H s a) :
    Run step H s as t :=
  Path.mono run fun s a _ h => ⟨weaker s a h.1, h.2⟩

theorem Run.free (run : Run step G s as t) : Run step Free s as t :=
  Run.mono run fun _ _ _ => trivial

theorem Run.split {bs : List α} {u : σ} (run : Run step G s (as ++ bs) u) :
    ∃ t, Run step G s as t ∧ Run step G t bs u :=
  Path.split run

/-- The actions alone determine where a run ends. -/
theorem Run.deterministic {u : σ} (run : Run step G s as t) (other : Run step H s as u) :
    t = u := by
  induction run generalizing u with
  | nil s =>
      cases other
      rfl
  | cons hstep _ ih =>
      cases other with
      | cons hstep' rest =>
          have same := hstep.2.symm.trans hstep'.2
          cases same
          exact ih rest

/-- A guard may be imposed on a run when every step meets it that comes after
steps which all did. -/
theorem Run.strengthen (run : Run step G s as t)
    (each : ∀ pre a post p m, as = pre ++ a :: post → Run step H s pre p →
      step p a = some m → H p a) : Run step H s as t := by
  have from_here {p u : σ} {rest : List α} (after : Run step G p rest u) :
      ∀ pre, as = pre ++ rest → Run step H s pre p → Run step H p rest u := by
    induction after with
    | nil p => exact fun _ _ _ => .nil p
    | @cons p m u a rest hstep _ ih =>
        intro pre has before
        have guard := each pre a rest p m has before hstep.2
        have here : Run step H p [a] m := .cons ⟨guard, hstep.2⟩ (.nil m)
        exact .cons ⟨guard, hstep.2⟩
          (ih (pre ++ [a]) (by rw [has, List.append_assoc]; rfl) (before.append here))
  exact from_here run [] rfl (.nil s)

end Steps

/-- Take the listed actions one after another, stopping at the first one that
the guard forbids or the step function refuses. -/
def replay (step : σ → α → Option σ) (G : σ → α → Prop) [∀ s a, Decidable (G s a)] :
    σ → List α → Option σ
  | s, [] => some s
  | s, a :: as =>
      if G s a then
        match step s a with
        | some t => replay step G t as
        | none => none
      else none

theorem Run.of_replay {step : σ → α → Option σ} {G : σ → α → Prop}
    [∀ s a, Decidable (G s a)] {s t : σ} {as : List α}
    (h : replay step G s as = some t) : Run step G s as t := by
  induction as generalizing s with
  | nil =>
      obtain rfl : s = t := by simpa [replay] using h
      exact .nil s
  | cons a as ih =>
      simp only [replay] at h
      split at h
      · next hg =>
          split at h
          · next hstep => exact .cons ⟨hg, hstep⟩ (ih h)
          · cases h
      · cases h

instance decidableFree (s : σ) (a : α) : Decidable (Free s a) := isTrue trivial

end Runs
