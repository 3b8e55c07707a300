import Mathlib.Data.List.DropRight
import Metralectl.Rank.LocalRank

/-!
What a container's name says of its workload. A recipe may itself be named like a
rank of another one; the solo container of the first is then called what that
rank of the second is called, and a commit clears it away.
-/
namespace Metralectl
namespace LocalRank
open Peer Docker

/-- One of the two is launched solo, and its recipe is named as the other's recipe
and rank are. -/
def Confusable (r₁ : RecipeId) (p₁ : Docker.Placement) (r₂ : RecipeId) (p₂ : Docker.Placement) :
    Prop :=
  match p₁, p₂ with
  | .solo, .rank n => r₁.text = s!"{r₂.text}-rank{n}"
  | .rank n, .solo => r₂.text = s!"{r₁.text}-rank{n}"
  | _, _ => False

/-- What the name of the first is relied on for: whoever has it is the first, and so
is whatever of it a commit of the second clears away. -/
structure NameIdentifies (r₁ : RecipeId) (p₁ : Docker.Placement) (r₂ : RecipeId)
    (p₂ : Docker.Placement) : Prop where
  same : containerName r₁.text p₁ = containerName r₂.text p₂ → r₁ = r₂ ∧ p₁ = p₂
  cleared : ∀ (c : Conditions) (m : Host) (epoch : String) (r : Reservation),
    takeReserved m.reserved epoch = .ok r → r.plan.name = containerName r₂.text p₂ →
    ∀ k ∈ m.containers, k.name = containerName r₁.text p₁ →
      k ∉ (commit c m epoch).1.containers → r₁ = r₂ ∧ p₁ = p₂

section Names
variable {r₁ r₂ : RecipeId} {p₁ p₂ : Docker.Placement}

/-- The digits after a character that is none are all the digits at the end. -/
theorem rtakeWhile_digits {front digits : List Char} {c : Char} (notDigit : c.isDigit = false)
    (all : ∀ d ∈ digits, d.isDigit = true) :
    (front ++ c :: digits).rtakeWhile Char.isDigit = digits := by
  have reversed : (front ++ c :: digits).reverse = digits.reverse ++ c :: front.reverse := by
    simp
  rw [List.rtakeWhile, reversed, List.takeWhile_append_of_pos (by simpa using all),
    List.takeWhile_cons_of_neg (by simp [notDigit]), List.append_nil, List.reverse_reverse]

/-- A name that ends in a rank says which, and of what. -/
theorem ranked_inj {s t : String} {n k : Nat} (h : s!"{s}-rank{n}" = s!"{t}-rank{k}") :
    s = t ∧ n = k := by
  have chars (u : String) (i : Nat) : (u ++ "-rank" ++ toString i).toList =
      (u.toList ++ ['-', 'r', 'a', 'n']) ++ 'k' :: (toString i).toList := by
    simp only [String.toList_append, List.append_assoc]
    rfl
  have lists : (s ++ "-rank" ++ toString n).toList = (t ++ "-rank" ++ toString k).toList :=
    congrArg String.toList h
  rw [chars, chars] at lists
  have digits := congrArg (List.rtakeWhile Char.isDigit) lists
  rw [rtakeWhile_digits rfl toString_isDigit, rtakeWhile_digits rfl toString_isDigit] at digits
  rw [digits] at lists
  constructor
  · exact String.toList_inj.mp (List.append_cancel_right (List.append_cancel_right lists))
  · exact toString_inj (String.toList_inj.mp digits)

/-- A name shared with another workload is a recipe named like a rank. -/
theorem same_iff : (containerName r₁.text p₁ = containerName r₂.text p₂ → r₁ = r₂ ∧ p₁ = p₂) ↔
    ¬ Confusable r₁ p₁ r₂ p₂ := by
  have strip {s t : String} : "metrale-" ++ s = "metrale-" ++ t ↔ s = t := by
    rw [← String.toList_inj, String.toList_append, String.toList_append,
      List.append_cancel_left_eq, String.toList_inj]
  have solo (r : RecipeId) : containerName r.text .solo = "metrale-" ++ r.text := rfl
  have rank (r : RecipeId) (n : Nat) :
      containerName r.text (.rank n) = "metrale-" ++ s!"{r.text}-rank{n}" := by
    change "metrale-" ++ r.text ++ "-rank" ++ toString n =
      "metrale-" ++ (r.text ++ "-rank" ++ toString n)
    simp only [String.append_assoc]
  cases p₁ with
  | solo =>
      cases p₂ with
      | solo =>
          simp only [solo, strip, Confusable, not_false_eq_true, iff_true]
          exact fun same => ⟨RecipeId.ext_text same, trivial⟩
      | rank n => simp [solo, rank, strip, Confusable]
  | rank n =>
      cases p₂ with
      | solo => simp [solo, rank, strip, Confusable, eq_comm]
      | rank k =>
          simp only [rank, strip, Confusable, not_false_eq_true, iff_true]
          intro same
          obtain ⟨text, num⟩ := ranked_inj same
          exact ⟨RecipeId.ext_text text, congrArg Docker.Placement.rank num⟩

/-- A commit clears away what bears its plan's name, and nothing else. -/
theorem commit_cleared {c : Conditions} {m : Host} {epoch : String} {r : Reservation}
    (took : takeReserved m.reserved epoch = .ok r) {k : Container} (mem : k ∈ m.containers)
    (gone : k ∉ (commit c m epoch).1.containers) : k.name = r.plan.name := by
  by_contra other
  apply gone
  have kept : k ∈ (({ m with reserved := none } : Host).remove r.plan.name c.rm).containers := by
    unfold Host.remove
    split
    · split
      · exact List.mem_filter.mpr ⟨mem, decide_eq_true other⟩
      · exact mem
    · exact mem
  simp only [commit, took, Host.run]
  split
  · split
    · exact kept
    · exact List.mem_append_left _ kept
  · exact kept
  · exact kept

/-- Names tell workloads apart exactly where no recipe is named like a rank of the
other. -/
theorem nameIdentifies_iff (r₁ : RecipeId) (p₁ : Docker.Placement) (r₂ : RecipeId)
    (p₂ : Docker.Placement) : NameIdentifies r₁ p₁ r₂ p₂ ↔ ¬ Confusable r₁ p₁ r₂ p₂ := by
  constructor
  · exact fun identifies => same_iff.mp identifies.same
  · intro apart
    have same := same_iff.mpr apart
    refine ⟨same, ?_⟩
    intro c m epoch r took planned k mem named gone
    exact same (named.symm.trans ((commit_cleared took mem gone).trans planned))

end Names

section Fixed

/-- A recipe whose name ends like a rank, and the recipe it seems to be a rank of. -/
theorem not_nameIdentifies :
    ∃ r₁ r₂ : RecipeId, ∃ p₁ p₂ : Docker.Placement,
      containerName r₁.text p₁ = containerName r₂.text p₂ ∧ r₁ ≠ r₂ ∧ p₁ ≠ p₂ ∧
        ¬ NameIdentifies r₁ p₁ r₂ p₂ :=
  ⟨⟨"chat-rank1", by decide⟩, ⟨"chat", by decide⟩, .solo, .rank 1, by decide, by decide,
    by decide, fun identifies => absurd (identifies.same (by decide)).1 (by decide)⟩

end Fixed

end LocalRank
end Metralectl
