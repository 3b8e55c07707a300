import Mathlib.Data.List.Basic
import Mathlib.Data.String.Basic

/-!
The words of a command line as an option parser tells them apart: options, the values of the
options that take one, and free words. A parser is given by the options that take a value, by
whether a value may begin with a dash, and by whether the first free word ends the options.
-/
namespace Options

/-- What a word is to the parser. -/
inductive Role where
  | option
  /-- The value of the option with this word. -/
  | value (option : String)
  | free
  /-- Behind the word that ended the options. -/
  | past
deriving DecidableEq

structure Grammar where
  takes : String → Bool
  bold : Bool
  ends : Bool

inductive Reader where
  | ready
  | wanting (option : String)
  | ended
deriving DecidableEq

def dashed (word : String) : Bool := word.toList.head? = some '-'

namespace Grammar
variable {α : Type*} (g : Grammar) (text : α → String)

/-- A word that is no value. -/
def fresh (word : String) : Role × Reader :=
  if dashed word then (.option, if g.takes word then .wanting word else .ready)
  else (.free, if g.ends then .ended else .ready)

def step : Reader → String → Role × Reader
  | .ready, word => g.fresh word
  | .wanting option, word =>
      if g.bold || !dashed word then (.value option, .ready) else g.fresh word
  | .ended, _ => (.past, .ended)

/-- Every word with its role. -/
def read : Reader → List α → List (α × Role)
  | _, [] => []
  | r, w :: ws => (w, (g.step r (text w)).1) :: read (g.step r (text w)).2 ws

def after (r : Reader) (ws : List α) : Reader := ws.foldl (fun r w => (g.step r (text w)).2) r

/-- The next word is no value, if it begins with a dash. -/
def Rested (r : Reader) : Prop := r = .ready ∨ g.bold = false ∧ r ≠ .ended

/-- Read as a part of the options, every word satisfies `P`. -/
def Each (ws : List α) (P : α × Role → Prop) : Prop :=
  ∀ r, g.Rested r → (∀ e ∈ g.read text r ws, P e) ∧ g.Rested (g.after text r ws)

section Reading
variable {g text} {r : Reader} {a b ws : List α} {w v : α} {P : α × Role → Prop}

theorem read_append : g.read text r (a ++ b) =
    g.read text r a ++ g.read text (g.after text r a) b := by
  induction a generalizing r with
  | nil => rfl
  | cons w ws ih => exact congrArg _ ih

theorem after_append : g.after text r (a ++ b) = g.after text (g.after text r a) b :=
  List.foldl_append

theorem read_ended : g.read text .ended ws = ws.map (·, .past) := by
  induction ws with
  | nil => rfl
  | cons w ws ih => exact congrArg _ ih

theorem ready_rested : g.Rested .ready := .inl rfl

theorem step_dashed {word : String} (rested : g.Rested r) (dash : dashed word = true) :
    g.step r word = (.option, if g.takes word then .wanting word else .ready) := by
  have fresh : g.fresh word = (.option, if g.takes word then .wanting word else .ready) := by
    rw [Grammar.fresh, if_pos dash]
  cases r with
  | ready => exact fresh
  | wanting option =>
      obtain wrong | ⟨shy, _⟩ := rested
      · cases wrong
      · rw [step, shy, dash]
        exact fresh
  | ended =>
      obtain wrong | ⟨_, wrong⟩ := rested
      · cases wrong
      · exact absurd rfl wrong

theorem each_nil : g.Each text [] P := fun _ rested => ⟨nofun, rested⟩

theorem Each.append (ha : g.Each text a P) (hb : g.Each text b P) : g.Each text (a ++ b) P := by
  intro r rested
  obtain ⟨first, between⟩ := ha r rested
  obtain ⟨second, last⟩ := hb _ between
  rw [read_append, after_append]
  refine ⟨fun e he => ?_, last⟩
  obtain he | he := List.mem_append.mp he
  · exact first e he
  · exact second e he

theorem each_flatMap {β : Type*} {xs : List β} {f : β → List α}
    (each : ∀ x ∈ xs, g.Each text (f x) P) : g.Each text (xs.flatMap f) P := by
  induction xs with
  | nil => exact each_nil
  | cons x xs ih =>
      rw [List.flatMap_cons]
      exact (each x List.mem_cons_self).append
        (ih fun y hy => each y (List.mem_cons_of_mem x hy))

theorem read_map {β : Type*} (f : β → α) (xs : List β) : g.read text r (xs.map f) =
    (g.read (text ∘ f) r xs).map fun e => (f e.1, e.2) := by
  induction xs generalizing r with
  | nil => rfl
  | cons x xs ih => exact congrArg _ ih

theorem Each.map {β : Type*} {f : β → α} {xs : List β} {Q : β × Role → Prop}
    (each : g.Each (text ∘ f) xs Q) (weaker : ∀ x role, Q (x, role) → P (f x, role)) :
    g.Each text (xs.map f) P := by
  intro r rested
  obtain ⟨first, last⟩ := each r rested
  rw [read_map, after, List.foldl_map]
  refine ⟨fun e he => ?_, last⟩
  obtain ⟨d, hd, rfl⟩ := List.mem_map.mp he
  exact weaker _ _ (first d hd)

/-- An option that stands for itself. -/
theorem each_bare (dash : dashed (text w) = true) (bare : g.takes (text w) = false)
    (here : P (w, .option)) : g.Each text [w] P := by
  intro r rested
  have stepped := step_dashed rested dash
  rw [bare] at stepped
  simp only [read, after, List.foldl, stepped, List.mem_singleton, forall_eq]
  exact ⟨here, ready_rested⟩

/-- An option with its value. -/
theorem each_value (dash : dashed (text w) = true) (takes : g.takes (text w) = true)
    (able : g.bold = true ∨ dashed (text v) = false) (here : P (w, .option))
    (there : P (v, .value (text w))) : g.Each text [w, v] P := by
  intro r rested
  have stepped := step_dashed rested dash
  have taken : g.step (.wanting (text w)) (text v) = (.value (text w), .ready) := by
    obtain bold | plain := able
    · simp [step, bold]
    · simp [step, plain]
  rw [takes, if_pos rfl] at stepped
  simp only [read, after, List.foldl, stepped, taken, List.mem_cons, List.not_mem_nil, or_false,
    forall_eq_or_imp, forall_eq]
  exact ⟨⟨here, there⟩, ready_rested⟩

/-- An option whose value is read as another one. -/
theorem each_missed (shy : g.bold = false) (dash : dashed (text w) = true)
    (also : dashed (text v) = true) (here : P (w, .option)) (there : P (v, .option)) :
    g.Each text [w, v] P := by
  intro r rested
  have stays (word : String) : g.Rested (if g.takes word then .wanting word else .ready) := by
    split
    · exact .inr ⟨shy, nofun⟩
    · exact ready_rested
  have first := step_dashed rested dash
  have second := step_dashed (stays (text w)) also
  simp only [read, after, List.foldl, first, second, List.mem_cons, List.not_mem_nil, or_false,
    forall_eq_or_imp, forall_eq]
  exact ⟨⟨here, there⟩, stays (text v)⟩

/-- The first free word, behind options of which none is. -/
theorem read_free {rest : List α} (each : g.Each text ws P) (bold : g.bold = true)
    (ends : g.ends = true) (free : dashed (text w) = false) :
    g.read text .ready (ws ++ w :: rest) =
      g.read text .ready ws ++ (w, Role.free) :: rest.map (·, Role.past) := by
  have back : g.after text .ready ws = .ready := by
    obtain back | ⟨shy, _⟩ := (each .ready ready_rested).2
    · exact back
    · rw [bold] at shy
      cases shy
  rw [read_append, back, read, step, fresh, if_neg (Bool.not_eq_true _ ▸ free), ends, if_pos rfl,
    read_ended]

end Reading
end Grammar
end Options
