import Mathlib.Logic.Basic

/-!
Programs that ask their surroundings: trees of questions that branch on the answers.
A program ends in a value or stops with an error; along each of its branches it asks
finitely often. What the surroundings do at a question, and which answers they may give,
is a relation on their states.
-/
namespace Programs

inductive Prog (Q : Type) (A : Q → Type) (ε α : Type) where
  | ret (a : α)
  | stop (e : ε)
  | ask (q : Q) (k : A q → Prog Q A ε α)

variable {Q : Type} {A : Q → Type} {ε α β γ S : Type}

namespace Prog

def bind : Prog Q A ε α → (α → Prog Q A ε β) → Prog Q A ε β
  | .ret a, f => f a
  | .stop e, _ => .stop e
  | .ask q k, f => .ask q fun a => (k a).bind f

instance : Monad (Prog Q A ε) where
  pure := .ret
  bind := .bind

/-- Its end where each question is always answered the same. -/
def under (oracle : (q : Q) → A q) : Prog Q A ε α → Except ε α
  | .ret a => .ok a
  | .stop e => .error e
  | .ask q k => (k (oracle q)).under oracle

/-- What it asks where each question is always answered the same. -/
def asked (oracle : (q : Q) → A q) : Prog Q A ε α → List Q
  | .ret _ | .stop _ => []
  | .ask q k => q :: (k (oracle q)).asked oracle

/-- The same program, stopping with another error. -/
def mapStop (f : ε → ε) : Prog Q A ε α → Prog Q A ε α
  | .ret a => .ret a
  | .stop e => .stop (f e)
  | .ask q k => .ask q fun a => (k a).mapStop f

/-- Its end, and the state then, where each state gives the answer. -/
def exec (serve : S → (q : Q) → A q × S) : Prog Q A ε α → S → Except ε α × S
  | .ret a, s => (.ok a, s)
  | .stop e, s => (.error e, s)
  | .ask q k, s => (k (serve s q).1).exec serve (serve s q).2

/-- One question, and its answer for a value. -/
def call (q : Q) : Prog Q A ε (A q) := .ask q .ret

theorem pure_eq (a : α) : (pure a : Prog Q A ε α) = .ret a := rfl

@[simp] theorem ret_bind (a : α) (f : α → Prog Q A ε β) : (.ret a : Prog Q A ε α) >>= f = f a := rfl

@[simp] theorem stop_bind (e : ε) (f : α → Prog Q A ε β) :
    (.stop e : Prog Q A ε α) >>= f = .stop e := rfl

@[simp] theorem ask_bind (q : Q) (k : A q → Prog Q A ε α) (f : α → Prog Q A ε β) :
    .ask q k >>= f = .ask q fun a => k a >>= f := rfl

theorem bind_assoc (p : Prog Q A ε α) (f : α → Prog Q A ε β) (g : β → Prog Q A ε γ) :
    p >>= f >>= g = p >>= fun a => f a >>= g := by
  induction p with
  | ret _ => rfl
  | stop _ => rfl
  | ask q k ih =>
      simp only [ask_bind]
      congr 1
      funext a
      exact ih a

theorem exec_bind (serve : S → (q : Q) → A q × S) (p : Prog Q A ε α) (f : α → Prog Q A ε β)
    (s : S) : (p >>= f).exec serve s =
      match p.exec serve s with
      | (.ok a, t) => (f a).exec serve t
      | (.error e, t) => (.error e, t) := by
  induction p generalizing s with
  | ret _ => rfl
  | stop _ => rfl
  | ask q k ih => exact ih _ _

theorem under_bind (oracle : (q : Q) → A q) (p : Prog Q A ε α) (f : α → Prog Q A ε β) :
    (p >>= f).under oracle = p.under oracle >>= fun a => (f a).under oracle := by
  induction p with
  | ret _ => rfl
  | stop _ => rfl
  | ask q k ih => exact ih _

theorem asked_bind (oracle : (q : Q) → A q) (p : Prog Q A ε α) (f : α → Prog Q A ε β) :
    (p >>= f).asked oracle = p.asked oracle ++
      match p.under oracle with
      | .ok a => (f a).asked oracle
      | .error _ => [] := by
  induction p with
  | ret _ => rfl
  | stop _ => rfl
  | ask q k ih => exact congrArg (q :: ·) (ih _)

theorem under_mapStop (oracle : (q : Q) → A q) (f : ε → ε) (p : Prog Q A ε α) :
    (p.mapStop f).under oracle = (p.under oracle).mapError f := by
  induction p with
  | ret _ => rfl
  | stop _ => rfl
  | ask q k ih => exact ih _

theorem asked_mapStop (oracle : (q : Q) → A q) (f : ε → ε) (p : Prog Q A ε α) :
    (p.mapStop f).asked oracle = p.asked oracle := by
  induction p with
  | ret _ => rfl
  | stop _ => rfl
  | ask q k ih => exact congrArg (q :: ·) (ih _)

/-- Whatever is asked is asked by the first part, or by the second after the first has ended. -/
theorem mem_asked_bind {oracle : (q : Q) → A q} {p : Prog Q A ε α} {f : α → Prog Q A ε β} {q : Q} :
    q ∈ (p >>= f).asked oracle ↔
      q ∈ p.asked oracle ∨ ∃ a, p.under oracle = .ok a ∧ q ∈ (f a).asked oracle := by
  rw [asked_bind, List.mem_append]
  cases p.under oracle with
  | error e => simp
  | ok a => simp

theorem under_bind_ok {oracle : (q : Q) → A q} {p : Prog Q A ε α} {f : α → Prog Q A ε β} {b : β} :
    (p >>= f).under oracle = .ok b ↔ ∃ a, p.under oracle = .ok a ∧ (f a).under oracle = .ok b := by
  rw [under_bind]
  cases p.under oracle with
  | error e =>
      constructor
      · intro h
        cases h
      · rintro ⟨_, h, _⟩
        cases h
  | ok a =>
      constructor
      · intro h
        exact ⟨a, rfl, h⟩
      · rintro ⟨_, same, h⟩
        cases same
        exact h

@[simp] theorem call_bind (q : Q) (f : A q → Prog Q A ε β) : call q >>= f = .ask q f := rfl

end Prog

/-- Whether a question in a state can be answered so, and the state after it. -/
abbrev Surroundings (S Q : Type) (A : Q → Type) := S → (q : Q) → A q → S → Prop

section Rules
variable (serve : Surroundings S Q A) (asked : S → Q → Prop)

/-- Every question is asked where `asked` allows it, and every end meets its condition. -/
def Always (ret : α → S → Prop) (stop : ε → S → Prop) : Prog Q A ε α → S → Prop
  | .ret a, s => ret a s
  | .stop e, s => stop e s
  | .ask q k, s => asked s q ∧ ∀ a t, serve s q a t → Always ret stop (k a) t

variable {serve asked} {ret : α → S → Prop} {stop : ε → S → Prop} {s t : S}

theorem Always.step {q : Q} {k : A q → Prog Q A ε α} {a : A q}
    (h : Always serve asked ret stop (.ask q k) s) (served : serve s q a t) :
    Always serve asked ret stop (k a) t :=
  h.2 a t served

theorem Always.bind {p : Prog Q A ε α} {f : α → Prog Q A ε β} {ret' : β → S → Prop}
    (h : Always serve asked (fun a s => Always serve asked ret' stop (f a) s) stop p s) :
    Always serve asked ret' stop (p >>= f) s := by
  induction p generalizing s with
  | ret _ => exact h
  | stop _ => exact h
  | ask q k ih => exact ⟨h.1, fun a t served => ih a (h.2 a t served)⟩

theorem Always.mono {p : Prog Q A ε α} {ret' : α → S → Prop} {stop' : ε → S → Prop}
    (h : Always serve asked ret stop p s) (rets : ∀ a s, ret a s → ret' a s)
    (stops : ∀ e s, stop e s → stop' e s) : Always serve asked ret' stop' p s := by
  induction p generalizing s with
  | ret a => exact rets a s h
  | stop e => exact stops e s h
  | ask q k ih => exact ⟨h.1, fun a t served => ih a (h.2 a t served)⟩

theorem Always.seq {p : Prog Q A ε α} {f : α → Prog Q A ε β} {mid : α → S → Prop}
    {ret : β → S → Prop} (h : Always serve asked mid stop p s)
    (rest : ∀ a t, mid a t → Always serve asked ret stop (f a) t) :
    Always serve asked ret stop (p >>= f) s :=
  .bind (h.mono rest fun _ _ => id)

/-- Every question the program can come to meets the condition, and it does not stop,
whatever the answers. -/
def Asks (P : Q → Prop) : Prog Q A ε α → Prop
  | .ret _ => True
  | .stop _ => False
  | .ask q k => P q ∧ ∀ a, Asks P (k a)

theorem Asks.bind {P : Q → Prop} {p : Prog Q A ε α} {f : α → Prog Q A ε β} (h : Asks P p)
    (rest : ∀ a, Asks P (f a)) : Asks P (p >>= f) := by
  induction p with
  | ret a => exact rest a
  | stop _ => exact h.elim
  | ask q k ih => exact ⟨h.1, fun a => ih a (h.2 a)⟩

theorem Asks.mono {P R : Q → Prop} {p : Prog Q A ε α} (h : Asks P p) (weaker : ∀ q, P q → R q) :
    Asks R p := by
  induction p with
  | ret _ => trivial
  | stop _ => exact h
  | ask q k ih => exact ⟨weaker q h.1, fun a => ih a (h.2 a)⟩

/-- Every question the program can come to meets the condition; it may stop. -/
def Only (P : Q → Prop) : Prog Q A ε α → Prop
  | .ret _ | .stop _ => True
  | .ask q k => P q ∧ ∀ a, Only P (k a)

theorem Asks.only {P : Q → Prop} {p : Prog Q A ε α} (h : Asks P p) : Only P p := by
  induction p with
  | ret _ => trivial
  | stop _ => trivial
  | ask q k ih => exact ⟨h.1, fun a => ih a (h.2 a)⟩

theorem Only.mono {P R : Q → Prop} {p : Prog Q A ε α} (h : Only P p) (weaker : ∀ q, P q → R q) :
    Only R p := by
  induction p with
  | ret _ => trivial
  | stop _ => trivial
  | ask q k ih => exact ⟨weaker q h.1, fun a => ih a (h.2 a)⟩

theorem Only.bind {P : Q → Prop} {p : Prog Q A ε α} {f : α → Prog Q A ε β} (h : Only P p)
    (rest : ∀ a, Only P (f a)) : Only P (p >>= f) := by
  induction p with
  | ret a => exact rest a
  | stop _ => trivial
  | ask q k ih => exact ⟨h.1, fun a => ih a (h.2 a)⟩

/-- A predicate that allows such questions and stopping allows such a program before it. -/
theorem Only.before {P : Q → Prop} {C : Prog Q A ε β → Prop} {p : Prog Q A ε α}
    {f : α → Prog Q A ε β} (h : Only P p) (stop : ∀ e, C (.stop e))
    (ask : ∀ q k, P q → (∀ a, C (k a)) → C (.ask q k)) (rest : ∀ a, C (f a)) : C (p >>= f) := by
  induction p with
  | ret a => exact rest a
  | stop e => exact stop e
  | ask q k ih => exact ask q _ h.1 fun a => ih a (h.2 a)

/-- What such questions keep, such a program keeps. -/
theorem Always.keeps {P : Q → Prop} {I : S → Prop} {p : Prog Q A ε α} {f : α → Prog Q A ε β}
    {ret : β → S → Prop} (h : Only P p) (hs : I s) (asks : ∀ s q, I s → P q → asked s q)
    (keep : ∀ s q a t, I s → P q → serve s q a t → I t) (stops : ∀ e s, I s → stop e s)
    (rest : ∀ a t, I t → Always serve asked ret stop (f a) t) :
    Always serve asked ret stop (p >>= f) s := by
  induction p generalizing s with
  | ret a => exact rest a s hs
  | stop e => exact stops e s hs
  | ask q k ih =>
      exact ⟨asks s q hs h.1, fun a t served => ih a (h.2 a) (keep s q a t hs h.1 served)⟩

end Rules

end Programs
