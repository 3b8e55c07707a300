import Mathlib.Logic.Relation
import Metralectl.Library.Programs

/-!
A program whose surroundings change between its questions: by steps of others, any number of them
before each question and after the last. What such steps keep may be relied upon along the
program; a rule for a question, and one for a part of it whose questions all keep the same.
-/
namespace Programs
open Relation
variable {Q : Type} {A : Q → Type} {ε α β S : Type}

/-- Kept by every step of others. -/
def Stable (drift : S → S → Prop) (I : S → Prop) : Prop := ∀ s t, I s → drift s t → I t

section Rules
variable (drift : S → S → Prop) (reply : Surroundings S Q A) (fine : S → Q → Prop)

/-- Every question is asked where it is fine, and every end meets its condition, whatever others
do in between. -/
def Among (ret : α → S → Prop) (stop : ε → S → Prop) : Prog Q A ε α → S → Prop :=
  Always (fun s q a t => ∃ m, ReflTransGen drift s m ∧ reply m q a t)
    (fun s q => ∀ m, ReflTransGen drift s m → fine m q)
    (fun a s => ∀ m, ReflTransGen drift s m → ret a m)
    (fun e s => ∀ m, ReflTransGen drift s m → stop e m)

variable {drift reply fine} {ret : α → S → Prop} {stop : ε → S → Prop} {I : S → Prop} {s t : S}

theorem Stable.drifted (stable : Stable drift I) (here : I s) (path : ReflTransGen drift s t) : I t := by
  induction path with
  | refl => exact here
  | tail _ step ih => exact stable _ _ ih step

theorem Stable.and {J : S → Prop} (first : Stable drift I) (second : Stable drift J) :
    Stable drift fun s => I s ∧ J s :=
  fun s t here step => ⟨first s t here.1 step, second s t here.2 step⟩

/-- Steps of others change nothing about it. -/
theorem Among.drifted {p : Prog Q A ε α} (h : Among drift reply fine ret stop p s)
    (step : drift s t) : Among drift reply fine ret stop p t := by
  cases p with
  | ret a => exact fun m path => h m (.head step path)
  | stop e => exact fun m path => h m (.head step path)
  | ask q k =>
      refine ⟨fun m path => h.1 m (.head step path), fun a u served => ?_⟩
      obtain ⟨m, path, replied⟩ := served
      exact h.2 a u ⟨m, .head step path, replied⟩

theorem Among.may {q : Q} {k : A q → Prog Q A ε α}
    (h : Among drift reply fine ret stop (.ask q k) s) : fine s q := h.1 s .refl

theorem Among.answered {q : Q} {k : A q → Prog Q A ε α} {a : A q}
    (h : Among drift reply fine ret stop (.ask q k) s) (replied : reply s q a t) :
    Among drift reply fine ret stop (k a) t := h.2 a t ⟨s, .refl, replied⟩

theorem Among.returns {a : α} (stable : Stable drift I) (here : I s) (ends : ∀ t, I t → ret a t) :
    Among drift reply fine ret stop (.ret a) s :=
  fun m path => ends m (stable.drifted here path)

theorem Among.stops {e : ε} (stable : Stable drift I) (here : I s) (ends : ∀ t, I t → stop e t) :
    Among drift reply fine ret stop (.stop e) s :=
  fun m path => ends m (stable.drifted here path)

/-- A question is asked, and answered, where what is relied upon still holds. -/
theorem Among.ask {q : Q} {k : A q → Prog Q A ε α} (stable : Stable drift I) (here : I s)
    (asked : ∀ t, I t → fine t q)
    (rest : ∀ t a u, I t → reply t q a u → Among drift reply fine ret stop (k a) u) :
    Among drift reply fine ret stop (.ask q k) s := by
  refine ⟨fun m path => asked m (stable.drifted here path), fun a u served => ?_⟩
  obtain ⟨m, path, replied⟩ := served
  exact rest m a u (stable.drifted here path) replied

/-- A part whose questions are all fine where it holds, and keep it. -/
theorem Among.only {P : Q → Prop} {p : Prog Q A ε α} {f : α → Prog Q A ε β} {ret : β → S → Prop}
    (h : Only P p) (stable : Stable drift I) (here : I s) (asked : ∀ t q, I t → P q → fine t q)
    (keep : ∀ t q a u, I t → P q → reply t q a u → I u) (stops : ∀ e t, I t → stop e t)
    (rest : ∀ a t, I t → Among drift reply fine ret stop (f a) t) :
    Among drift reply fine ret stop (p >>= f) s := by
  induction p generalizing s with
  | ret a => exact rest a s here
  | stop e => exact .stops stable here (stops e)
  | ask q k ih =>
      refine .ask stable here (fun t held => asked t q held h.1) fun t a u held replied => ?_
      exact ih a (h.2 a) (keep t q a u held h.1 replied)

end Rules

end Programs
