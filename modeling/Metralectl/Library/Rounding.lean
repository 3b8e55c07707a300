import Mathlib.Algebra.Order.Field.Rat
import Mathlib.Data.Int.Log
import Mathlib.Data.Rat.Floor
import Mathlib.Tactic.Linarith
import Mathlib.Tactic.NormNum

/-!
Rounding of rational numbers to a binary floating-point format: to the nearest number of the
format, and to the one with an even last digit where two are as near.
-/
namespace Rounding

/-- To the nearest whole number, halves to the even one. -/
def halfEven (x : ℚ) : ℤ :=
  let rest := x - ⌊x⌋
  if rest < 1 / 2 then ⌊x⌋
  else if 1 / 2 < rest then ⌊x⌋ + 1
  else if ⌊x⌋ % 2 = 0 then ⌊x⌋
  else ⌊x⌋ + 1

/-- A format has so many binary digits, a least place for the last of them, and ends where its
exponents do. -/
structure Format where
  digits : Nat
  lowest : ℤ
  ends : Nat
  some_ : 0 < digits
  fraction : lowest ≤ 0
  wide : digits ≤ ends

def binary64 : Format := ⟨53, -1074, 1024, by decide, by decide, by decide⟩

namespace Format
variable (f : Format)

/-- The place of a number's last digit. -/
def place (x : ℚ) : ℤ := max (Int.log 2 |x| - (f.digits - 1)) f.lowest

/-- The nearest number of the format, unless it is past its end. -/
def round (x : ℚ) : Option ℚ :=
  let r := halfEven (x / 2 ^ f.place x) * (2 : ℚ) ^ f.place x
  if |r| < 2 ^ f.ends then some r else none

end Format

theorem halfEven_intCast (z : ℤ) : halfEven z = z := by
  rw [halfEven, Int.floor_intCast, sub_self, if_pos (by norm_num)]

/-- A whole number with no more digits than the format is a number of the format. -/
theorem round_natCast (f : Format) {n : Nat} (short : n < 2 ^ f.digits) :
    f.round n = some (n : ℚ) := by
  have low : f.place n ≤ 0 := by
    rw [Format.place, Nat.abs_cast, Int.log_natCast]
    have log : Nat.log 2 n < f.digits := by
      rcases Nat.eq_zero_or_pos n with rfl | some_
      · exact f.some_
      · exact (Nat.log_lt_iff_lt_pow (by decide) (Nat.pos_iff_ne_zero.mp some_)).mpr short
    have := f.fraction
    omega
  obtain ⟨k, place⟩ : ∃ k : Nat, f.place n = -k := Int.exists_eq_neg_ofNat low
  have unit : (2 : ℚ) ^ f.place n = (2 ^ k)⁻¹ := by
    rw [place, zpow_neg, zpow_natCast]
  have scaled : (n : ℚ) / 2 ^ f.place n = ((n * 2 ^ k : ℤ) : ℚ) := by
    rw [unit, div_inv_eq_mul]
    push_cast
    rfl
  have back : ((n * 2 ^ k : ℤ) : ℚ) * (2 ^ k)⁻¹ = n := by
    push_cast
    exact mul_inv_cancel_right₀ (by positivity) _
  have inside : |(n : ℚ)| < 2 ^ f.ends := by
    rw [Nat.abs_cast]
    exact_mod_cast short.trans_le (Nat.pow_le_pow_right (by decide) f.wide)
  have same : halfEven ((n : ℚ) / 2 ^ f.place n) * (2 : ℚ) ^ f.place n = n := by
    rw [scaled, halfEven_intCast, unit, back]
  rw [Format.round, same, if_pos inside]

example : binary64.round (1 / 10) = some (3602879701896397 / 36028797018963968) := by
  decide +kernel

example : binary64.round (2 ^ 53 + 1) = some (2 ^ 53) := by decide +kernel

end Rounding
