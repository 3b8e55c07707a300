import Mathlib.Data.BitVec

/-!
Words that agree on their leading bits: the networks of a prefix length, and the masks that
tell them.
-/
namespace Prefixes
variable {w : Nat} {a b c : BitVec w} {p q : Nat}

/-- The first `p` bits of the two are the same. -/
def Agree (a b : BitVec w) (p : Nat) : Prop := ∀ i < p, a.getMsbD i = b.getMsbD i

instance (a b : BitVec w) (p : Nat) : Decidable (Agree a b p) :=
  inferInstanceAs (Decidable (∀ i < p, a.getMsbD i = b.getMsbD i))

theorem Agree.symm (h : Agree a b p) : Agree b a p := fun i hi => (h i hi).symm

/-- A shorter prefix is a larger network. -/
theorem Agree.mono (h : Agree a b p) (shorter : q ≤ p) : Agree a b q :=
  fun i hi => h i (Nat.lt_of_lt_of_le hi shorter)

/-- Masking keeps exactly the bits of the prefix. -/
theorem masked_iff (within : p ≤ w) :
    a &&& BitVec.allOnes w <<< (w - p) = b &&& BitVec.allOnes w <<< (w - p) ↔ Agree a b p := by
  have bit (x : BitVec w) (i : Nat) : (x &&& BitVec.allOnes w <<< (w - p)).getMsbD i =
      (decide (i < p) && x.getMsbD i) := by
    simp only [BitVec.getMsbD, BitVec.getLsbD_and, BitVec.getLsbD_shiftLeft, BitVec.getLsbD_allOnes]
    by_cases inside : i < w
    · by_cases kept : i < p
      · have here : w - 1 - i < w ∧ ¬w - 1 - i < w - p ∧ w - 1 - i - (w - p) < w := by omega
        simp [inside, kept, here]
      · have gone : w - 1 - i < w - p := by omega
        simp [kept, gone]
    · simp [inside]
  constructor
  · intro same i hi
    have bits := congrArg (BitVec.getMsbD · i) same
    simpa only [bit, hi, decide_true, Bool.true_and] using bits
  · intro agree
    refine BitVec.eq_of_getMsbD_eq fun i _ => ?_
    rw [bit, bit]
    by_cases kept : i < p
    · rw [agree i kept]
    · simp [kept]

end Prefixes
