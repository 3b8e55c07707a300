import Mathlib.Data.Nat.Basic

/-!
Where the letters and digits of ASCII stand among the characters.
-/
namespace Ascii
variable {c : Char}

theorem upper_range (h : c.isUpper = true) : 65 ≤ c.toNat ∧ c.toNat ≤ 90 := by
  have within : c.val ≥ 'A'.val ∧ c.val ≤ 'Z'.val := of_decide_eq_true h
  exact ⟨UInt32.le_iff_toNat_le.mp within.1, UInt32.le_iff_toNat_le.mp within.2⟩

theorem lower_range (h : c.isLower = true) : 97 ≤ c.toNat ∧ c.toNat ≤ 122 := by
  obtain ⟨low, high⟩ := Bool.and_eq_true_iff.mp h
  exact ⟨UInt32.le_iff_toNat_le.mp (of_decide_eq_true low),
    UInt32.le_iff_toNat_le.mp (of_decide_eq_true high)⟩

theorem digit_range (h : c.isDigit = true) : 48 ≤ c.toNat ∧ c.toNat ≤ 57 := by
  obtain ⟨low, high⟩ := Bool.and_eq_true_iff.mp h
  exact ⟨UInt32.le_iff_toNat_le.mp (of_decide_eq_true low),
    UInt32.le_iff_toNat_le.mp (of_decide_eq_true high)⟩

theorem alpha_range (h : c.isAlpha = true) :
    65 ≤ c.toNat ∧ c.toNat ≤ 90 ∨ 97 ≤ c.toNat ∧ c.toNat ≤ 122 :=
  (Bool.or_eq_true_iff.mp h).imp upper_range lower_range

theorem alphanum_range (h : c.isAlphanum = true) :
    48 ≤ c.toNat ∧ c.toNat ≤ 57 ∨ 65 ≤ c.toNat ∧ c.toNat ≤ 90 ∨ 97 ≤ c.toNat ∧ c.toNat ≤ 122 :=
  (Bool.or_eq_true_iff.mp h).symm.imp digit_range alpha_range

end Ascii
