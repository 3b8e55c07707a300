import Mathlib.Data.List.Induction
import Metralectl.Pairing.JoinWindow

/-!
The guessing budget of an invitation, over any sequence of what callers do to the window. The
slot is behind one lock, so that calls from any number of ceremonies are such a sequence; each
reads the clock for itself.
-/
namespace Metralectl
namespace Joining

/-- What a caller does to the window. -/
inductive Use where
  | mint (code : String) (allowControl : Bool)
  | revoke
  | beginAttempt
  | consume
  | isOpen
deriving DecidableEq

/-- What is in the slot after it. -/
def Use.next (slot : Slot) (now : Nat) : Use → Slot
  | .mint code allowControl => Joining.mint slot now code allowControl
  | .revoke => Joining.revoke slot
  | .beginAttempt => (Joining.beginAttempt slot now).1
  | .consume => (Joining.consume slot).1
  | .isOpen => slot

/-- The code it hands out, if it does. -/
def Use.hands (slot : Slot) (now : Nat) : Use → Option String
  | .beginAttempt => (Joining.beginAttempt slot now).2
  | .mint _ _ | .revoke | .consume | .isOpen => none

def Use.mints : Use → Option String
  | .mint code _ => some code
  | .revoke | .beginAttempt | .consume | .isOpen => none

/-- Whether an invitation is no longer in the slot after it, expiry apart. -/
def Use.closes : Use → Bool
  | .mint _ _ | .revoke | .consume => true
  | .beginAttempt | .isOpen => false

/-- The slot after uses at such readings of the clock. -/
def after : Slot → List (Nat × Use) → Slot
  | slot, [] => slot
  | slot, (now, u) :: rest => after (u.next slot now) rest

/-- The codes handed out in them. -/
def handed : Slot → List (Nat × Use) → List String
  | _, [] => []
  | slot, (now, u) :: rest => (u.hands slot now).toList ++ handed (u.next slot now) rest

def minted (uses : List (Nat × Use)) : List String := uses.filterMap (·.2.mints)

/-- Nothing since its mint closed an invitation. -/
def Untouched (later : List (Nat × Use)) : Prop := ∀ u ∈ later, u.2.closes = false

/-- What any sequence of uses of a closed window keeps to. -/
structure Budgeted (uses : List (Nat × Use)) : Prop where
  /-- A text is handed out so often at most as its mints allow. -/
  texts : ∀ code, (handed none uses).count code ≤ maxAttempts * (minted uses).count code
  /-- Until the next mint no more codes are handed out than the last one allows. -/
  each : ∀ before mint later, uses = before ++ mint :: later → minted later = [] →
    (handed (after none (before ++ [mint])) later).length ≤ maxAttempts
  /-- A code that is handed out is of a mint that nothing closed since and that has not expired,
  and was not handed out too often before. -/
  licensed : ∀ now code, (beginAttempt (after none uses) now).2 = some code →
    ∃ before opened allowControl later, uses = before ++ (opened, Use.mint code allowControl) :: later ∧
      Untouched later ∧ now < opened + joinTtl ∧
      (handed (after none (before ++ [(opened, Use.mint code allowControl)])) later).length < maxAttempts
  open_ : ∀ now, isOpen (after none uses) now = true ↔
    ∃ code, (beginAttempt (after none uses) now).2 = some code
  /-- However many attempts are reserved, the invitation can be consumed with its grant while
  nothing closed it and no reading of the clock was past its time. -/
  spendable : ∀ before opened code allowControl later,
    uses = before ++ (opened, Use.mint code allowControl) :: later → Untouched later →
    (∀ u ∈ later, u.1 < opened + joinTtl) → (consume (after none uses)).2 = some ⟨allowControl⟩

section Steps
variable {slot : Slot} {now : Nat} {u : Use} {before uses later : List (Nat × Use)}

theorem after_append : after slot (before ++ uses) = after (after slot before) uses := by
  induction before generalizing slot with
  | nil => rfl
  | cons u before ih => exact ih

theorem handed_append :
    handed slot (before ++ uses) = handed slot before ++ handed (after slot before) uses := by
  induction before generalizing slot with
  | nil => rfl
  | cons u before ih => simp only [List.cons_append, handed, after, ih, List.append_assoc]

theorem minted_cons : minted ((now, u) :: uses) = u.mints.toList ++ minted uses := by
  cases u <;> rfl

/-- How many attempts on such codes the slot has left. -/
def left (picks : String → Bool) : Slot → Nat
  | none => 0
  | some p => if picks p.code then maxAttempts - p.attempts else 0

theorem left_step (picks : String → Bool) :
    (u.hands slot now).toList.countP picks + left picks (u.next slot now) ≤
      left picks slot + maxAttempts * u.mints.toList.countP picks := by
  cases u with
  | mint code allowControl =>
      simp only [Use.hands, Use.next, Use.mints, mint, left, Option.toList_none, Option.toList_some,
        List.countP_nil, List.countP_singleton]
      split <;> omega
  | revoke | consume => exact Nat.le_trans (Nat.le_of_eq (Nat.zero_add _)) (Nat.zero_le _)
  | isOpen => exact Nat.le_of_eq (Nat.zero_add _)
  | beginAttempt =>
      cases slot with
      | none => exact Nat.le_refl _
      | some p =>
          simp only [Use.hands, Use.next, Use.mints, beginAttempt]
          split
          · exact Nat.le_trans (Nat.le_of_eq (Nat.zero_add _)) (Nat.zero_le _)
          · split
            · exact Nat.le_of_eq (Nat.zero_add _)
            · next _ able =>
                simp only [left, Option.toList_some, Option.toList_none, List.countP_singleton,
                  List.countP_nil]
                split <;> omega

/-- Codes are handed out of the attempts that are left and of those that mints bring. -/
theorem countP_handed_le (picks : String → Bool) :
    (handed slot uses).countP picks ≤ left picks slot + maxAttempts * (minted uses).countP picks := by
  induction uses generalizing slot with
  | nil => exact Nat.zero_le _
  | cons use uses ih =>
      obtain ⟨now, u⟩ := use
      have one := @left_step slot now u picks
      have rest := @ih (u.next slot now)
      rw [minted_cons, handed, List.countP_append, List.countP_append, Nat.mul_add]
      omega

theorem isOpen_iff : isOpen slot now = true ↔ ∃ code, (beginAttempt slot now).2 = some code := by
  cases slot with
  | none => simp [isOpen, beginAttempt]
  | some p =>
      simp only [isOpen, beginAttempt, Option.any_some, Bool.and_eq_true, decide_eq_true_eq]
      split
      · next expired => simp [Nat.not_lt.mpr expired]
      · split
        · next _ exhausted => simp [Nat.not_lt.mpr exhausted]
        · next fresh able => simp [Nat.lt_of_not_le fresh, Nat.lt_of_not_le able]

/-- Of what is in the slot: the mint that brought it, and the attempts that were handed out. -/
theorem minted_of_after {p : Pending} (there : after none uses = some p) : ∃ before later,
    uses = before ++ (p.opened, Use.mint p.code p.allowControl) :: later ∧ Untouched later ∧
      (handed (after none (before ++ [(p.opened, Use.mint p.code p.allowControl)])) later).length =
        p.attempts := by
  induction uses using List.reverseRecOn generalizing p with
  | nil => cases there
  | append_singleton uses use ih =>
      obtain ⟨now, u⟩ := use
      rw [after_append] at there
      -- What is in the slot was there before, with the attempts of `u` still to come.
      have kept {q : Pending} (was : after none uses = some q) (quiet : u.closes = false)
          (same : q.opened = p.opened ∧ q.code = p.code ∧ q.allowControl = p.allowControl)
          (attempts : p.attempts = q.attempts + (u.hands (some q) now).toList.length) :
          ∃ before later, uses ++ [(now, u)] =
              before ++ (p.opened, Use.mint p.code p.allowControl) :: later ∧ Untouched later ∧
            (handed (after none (before ++ [(p.opened, Use.mint p.code p.allowControl)])) later).length =
              p.attempts := by
        obtain ⟨before, later, split, untouched, count⟩ := ih was
        obtain ⟨opened, code, allowControl⟩ := same
        rw [opened, code, allowControl] at split count
        refine ⟨before, later ++ [(now, u)], by rw [split]; simp, ?_, ?_⟩
        · intro w hw
          cases List.mem_append.mp hw with
          | inl old => exact untouched w old
          | inr new => rw [List.mem_singleton.mp new]; exact quiet
        · have slot : after (after none (before ++ [(p.opened, Use.mint p.code p.allowControl)])) later =
              some q := by
            rw [← was, split, ← after_append, List.append_assoc, List.singleton_append]
          rw [handed_append, List.length_append, count, slot, attempts]
          simp [handed]
      cases u with
      | mint code allowControl =>
          cases there
          exact ⟨uses, [], rfl, nofun, rfl⟩
      | revoke => cases there
      | consume => cases there
      | isOpen => exact kept there rfl ⟨rfl, rfl, rfl⟩ rfl
      | beginAttempt =>
          cases was : after none uses with
          | none =>
              rw [was] at there
              cases there
          | some q =>
              simp only [was, after, Use.next, beginAttempt] at there
              split at there
              · cases there
              · next fresh =>
                  split at there
                  · next exhausted =>
                      cases there
                      refine kept was rfl ⟨rfl, rfl, rfl⟩ ?_
                      simp only [Use.hands, beginAttempt, if_neg fresh, if_pos exhausted]
                      rfl
                  · next able =>
                      cases there
                      refine kept was rfl ⟨rfl, rfl, rfl⟩ ?_
                      simp only [Use.hands, beginAttempt, if_neg fresh, if_neg able]
                      rfl

/-- An invitation that nothing closes and no clock outdates stays in the slot. -/
theorem after_untouched {p : Pending} (untouched : Untouched later)
    (timely : ∀ u ∈ later, u.1 < p.opened + joinTtl) :
    ∃ attempts, after (some p) later = some { p with attempts } := by
  induction later generalizing p with
  | nil => exact ⟨p.attempts, rfl⟩
  | cons use later ih =>
      obtain ⟨now, u⟩ := use
      obtain ⟨here, soon⟩ := List.forall_mem_cons.mp timely
      obtain ⟨quiet, rest⟩ := List.forall_mem_cons.mp untouched
      cases u with
      | mint _ _ => cases quiet
      | revoke => cases quiet
      | consume => cases quiet
      | isOpen => exact ih rest soon
      | beginAttempt =>
          have fresh : ¬joinTtl ≤ now - p.opened := by
            have positive : 0 < joinTtl := by decide
            simp only at here
            omega
          simp only [after, Use.next, beginAttempt, if_neg fresh]
          split
          · exact ih rest soon
          · exact ih (p := { p with attempts := p.attempts + 1 }) rest soon

end Steps

/-- Each minted code has its attempts and no more, for as long as it is the invitation; the
window is open just while there is one left; and who holds the last can still use it. -/
theorem uses_budgeted (uses : List (Nat × Use)) : Budgeted uses where
  texts code := by
    have counted := @countP_handed_le none uses (· == code)
    rwa [left, Nat.zero_add] at counted
  each := by
    rintro before ⟨opened, mint⟩ later rfl quiet
    have counted := @countP_handed_le (after none (before ++ [(opened, mint)])) later fun _ => true
    rw [quiet, List.countP_nil, Nat.mul_zero, Nat.add_zero, List.countP_true] at counted
    refine Nat.le_trans counted ?_
    unfold left
    split
    · exact Nat.zero_le _
    · exact Nat.sub_le _ _
  licensed := by
    intro now code handed_
    obtain ⟨p, there, _, rfl⟩ := beginAttempt_some (Prod.ext rfl handed_)
    obtain ⟨before, later, split, untouched, count⟩ := minted_of_after there
    refine ⟨before, p.opened, p.allowControl, later, split, untouched, ?_⟩
    rw [there, beginAttempt] at handed_
    split at handed_
    · cases handed_
    · split at handed_
      · cases handed_
      · rw [count]
        omega
  open_ _ := isOpen_iff
  spendable := by
    rintro before opened code allowControl later rfl untouched timely
    rw [after_append]
    obtain ⟨attempts, there⟩ := after_untouched (p := ⟨code, opened, 0, allowControl⟩) untouched timely
    rw [show after (after none before) ((opened, .mint code allowControl) :: later) =
      some ⟨code, opened, attempts, allowControl⟩ from there]
    rfl

end Joining
end Metralectl
