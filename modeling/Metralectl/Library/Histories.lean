import Mathlib.Data.List.DropRight

/-!
Logs that only grow, and what is said of each entry with those before it: among that, how
long the entries have been of one kind without a break.
-/
namespace Histories
universe u
variable {α : Type u}

/-- Of every entry, with what came before it. -/
def Each (P : List α → α → Prop) (log : List α) : Prop :=
  ∀ pre e post, log = pre ++ e :: post → P pre e

section Entries
variable {P Q : List α → α → Prop} {log : List α} {e : α}

theorem each_nil : Each P [] := by
  intro pre e post split
  cases pre <;> cases split

/-- The last of a log is the new entry, or was there before it. -/
theorem Each.snoc (each : Each P log) (new : P log e) : Each P (log ++ [e]) := by
  intro pre x post split
  cases List.eq_nil_or_concat post with
  | inl last =>
      subst last
      obtain ⟨rfl, same⟩ := List.append_inj' split rfl
      cases same
      exact new
  | inr more =>
      obtain ⟨rest, y, rfl⟩ := more
      rw [List.concat_eq_append, ← List.cons_append, ← List.append_assoc] at split
      obtain ⟨rfl, -⟩ := List.append_inj' split rfl
      exact each pre x rest rfl

theorem Each.of_mem (each : Each P log) (there : e ∈ log) : ∃ pre, P pre e := by
  obtain ⟨pre, post, split⟩ := List.append_of_mem there
  exact ⟨pre, each pre e post split⟩

end Entries

section Timers
variable (quiet : α → Bool) (time : α → Nat) {log : List α} {e : α} {after : Nat}

/-- When the entries at the end of a log began to be quiet. -/
def quietSince (log : List α) : Option Nat := (log.rtakeWhile quiet).head?.map time

variable {quiet time}

theorem quietSince_nil : quietSince quiet time ([] : List α) = none := by
  simp [quietSince]

theorem quietSince_loud (loud : quiet e = false) : quietSince quiet time (log ++ [e]) = none := by
  rw [quietSince, List.rtakeWhile_concat_neg _ _ _ (by simp [loud])]
  rfl

theorem quietSince_quiet (here : quiet e = true) :
    quietSince quiet time (log ++ [e]) = some ((quietSince quiet time log).getD (time e)) := by
  rw [quietSince, List.rtakeWhile_concat_pos _ _ _ here, quietSince]
  cases log.rtakeWhile quiet <;> rfl

/-- A quiet end of a log is part of the longest one. -/
theorem rtakeWhile_append {early late : List α} (all : ∀ q ∈ late, quiet q = true) :
    (early ++ late).rtakeWhile quiet = early.rtakeWhile quiet ++ late := by
  rw [List.rtakeWhile, List.rtakeWhile, List.reverse_append,
    List.takeWhile_append_of_pos fun q there => all q (List.mem_reverse.mp there),
    List.reverse_append, List.reverse_reverse]

/-- A timer that starts with the first quiet entry has run out when some entry lies far
enough back and none since was loud. -/
theorem expired_iff (ordered : (log ++ [e]).Pairwise fun a b => time a ≤ time b) :
    (quietSince quiet time log).getD (time e) + after ≤ time e ↔
      ∃ early f rest, log ++ [e] = early ++ f :: rest ∧
        (∀ q ∈ (f :: rest).dropLast, quiet q = true) ∧ time f + after ≤ time e := by
  have before : ∀ q ∈ log, time q ≤ time e := fun q there =>
    (List.pairwise_append.mp ordered).2.2 q there e List.mem_cons_self
  constructor
  · intro expired
    cases stretch : log.rtakeWhile quiet with
    | nil =>
        rw [quietSince, stretch] at expired
        exact ⟨log, e, [], rfl, List.forall_mem_nil _, expired⟩
    | cons f mid =>
        obtain ⟨early, split⟩ := List.rtakeWhile_suffix quiet log
        rw [quietSince, stretch] at expired
        rw [stretch] at split
        refine ⟨early, f, mid ++ [e], by rw [← split, List.append_assoc]; rfl, ?_, expired⟩
        rw [← List.cons_append, List.dropLast_concat]
        intro q there
        rw [← stretch] at there
        exact List.mem_rtakeWhile_imp there
  · rintro ⟨early, f, rest, split, all, expired⟩
    have since : (quietSince quiet time log).getD (time e) ≤ time f := by
      cases List.eq_nil_or_concat rest with
      | inl none_ =>
          subst none_
          obtain ⟨rfl, same⟩ := List.append_inj' split rfl
          cases same
          cases stretch : log.rtakeWhile quiet with
          | nil => simp [quietSince, stretch]
          | cons q mid =>
              have there : q ∈ log :=
                (List.rtakeWhile_suffix quiet log).subset (stretch ▸ List.mem_cons_self)
              simpa [quietSince, stretch] using before q there
      | inr more =>
          obtain ⟨mid, y, rfl⟩ := more
          rw [List.concat_eq_append, ← List.cons_append, ← List.append_assoc] at split
          obtain ⟨rfl, -⟩ := List.append_inj' split rfl
          rw [List.concat_eq_append, ← List.cons_append, List.dropLast_concat] at all
          rw [quietSince, rtakeWhile_append all]
          cases stretch : early.rtakeWhile quiet with
          | nil => exact le_rfl
          | cons q more =>
              have there : q ∈ early :=
                (List.rtakeWhile_suffix quiet early).subset (stretch ▸ List.mem_cons_self)
              have earlier := (List.pairwise_append.mp ordered).1
              exact (List.pairwise_append.mp earlier).2.2 q there f List.mem_cons_self
    exact le_trans (Nat.add_le_add_right since after) expired

end Timers
end Histories
