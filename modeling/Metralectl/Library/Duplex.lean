import Metralectl.Library.Commuting
import Metralectl.Library.Programs

/-!
Two programs at the two ends of a connection that loses nothing and keeps the order. Neither can
tell how fast the other is: however their steps fall together, they come to the same.
-/
namespace Programs
open Runs

/-- What a question is to a connection: it sends and goes on, or waits for what is sent. -/
inductive Port (A M : Type) where
  | sends (m : M) (done : A)
  | receives (take : M → A)
  | other

inductive End where
  | left
  | right
deriving DecidableEq

/-- Two programs, and what is under way to each of them. -/
structure Link (Q : Type) (A : Q → Type) (ε α M : Type) where
  left : Prog Q A ε α
  right : Prog Q A ε α
  toLeft : List M
  toRight : List M

section Links
variable {Q : Type} {A : Q → Type} {ε α M : Type} (port : (q : Q) → Port (A q) M)

/-- One step of a program: what is left of it, of what was under way to it, and what it sends. -/
def Prog.move : Prog Q A ε α → List M → Option (Prog Q A ε α × List M × List M)
  | .ret _, _ | .stop _, _ => none
  | .ask q k, inbox =>
      match port q with
      | .sends m done => some (k done, inbox, [m])
      | .receives take =>
          match inbox with
          | [] => none
          | m :: rest => some (k (take m), rest, [])
      | .other => none

def Link.step (l : Link Q A ε α M) : End → Option (Link Q A ε α M)
  | .left => (l.left.move port l.toLeft).map fun (p, inbox, sent) =>
      ⟨p, l.right, inbox, l.toRight ++ sent⟩
  | .right => (l.right.move port l.toRight).map fun (p, inbox, sent) =>
      ⟨l.left, p, l.toLeft ++ sent, inbox⟩

variable {port} {p rest : Prog Q A ε α} {inbox left sent : List M}

/-- More under way to a program does not change its step. -/
theorem move_append (moved : p.move port inbox = some (rest, left, sent)) (more : List M) :
    p.move port (inbox ++ more) = some (rest, left ++ more, sent) := by
  cases p with
  | ret _ => cases moved
  | stop _ => cases moved
  | ask q k =>
      unfold Prog.move at moved ⊢
      cases kind : port q with
      | sends m done =>
          simp only [kind] at moved ⊢
          cases moved
          rfl
      | receives take =>
          simp only [kind] at moved ⊢
          cases inbox with
          | nil => cases moved
          | cons m inbox =>
              cases moved
              rfl
      | other =>
          simp only [kind] at moved
          cases moved

theorem step_left {l t : Link Q A ε α M} (h : l.step port .left = some t) :
    ∃ p inbox sent, l.left.move port l.toLeft = some (p, inbox, sent) ∧
      t = ⟨p, l.right, inbox, l.toRight ++ sent⟩ := by
  obtain ⟨⟨p, inbox, sent⟩, moved, same⟩ := Option.map_eq_some_iff.mp h
  exact ⟨p, inbox, sent, moved, same.symm⟩

theorem step_right {l t : Link Q A ε α M} (h : l.step port .right = some t) :
    ∃ p inbox sent, l.right.move port l.toRight = some (p, inbox, sent) ∧
      t = ⟨l.left, p, l.toLeft ++ sent, inbox⟩ := by
  obtain ⟨⟨p, inbox, sent⟩, moved, same⟩ := Option.map_eq_some_iff.mp h
  exact ⟨p, inbox, sent, moved, same.symm⟩

/-- Both ends can move, one after the other. -/
theorem both_move {l t u : Link Q A ε α M} (left : l.step port .left = some t)
    (right : l.step port .right = some u) :
    ∃ v, t.step port .right = some v ∧ u.step port .left = some v := by
  obtain ⟨p, inbox, sent, moved, rfl⟩ := step_left left
  obtain ⟨p', inbox', sent', moved', rfl⟩ := step_right right
  refine ⟨⟨p, p', inbox ++ sent', inbox' ++ sent⟩, ?_, ?_⟩
  · simp only [Link.step, move_append moved' sent, Option.map_some]
  · simp only [Link.step, move_append moved sent', Option.map_some]

variable (port) in
theorem link_commuting : Commuting fun l : Link Q A ε α M => l.step port := by
  intro l a b t u differ first second
  cases a with
  | left =>
      cases b with
      | left => exact absurd rfl differ
      | right => exact both_move first second
  | right =>
      cases b with
      | right => exact absurd rfl differ
      | left =>
          obtain ⟨v, one, other⟩ := both_move second first
          exact ⟨v, other, one⟩

/-- Two programs that are both over are at an end. -/
theorem ended_of_over {l : Link Q A ε α M} (left : l.left.move port l.toLeft = none)
    (right : l.right.move port l.toRight = none) (e : End) : l.step port e = none := by
  cases e with
  | left => rw [Link.step, left, Option.map_none]
  | right => rw [Link.step, right, Option.map_none]

end Links

end Programs
