import Mathlib.Algebra.Order.Field.Basic
import Mathlib.Tactic.FieldSimp
import Mathlib.Tactic.GCongr
import Mathlib.Tactic.Linarith
import Mathlib.Tactic.Ring

/-!
# Values within a factor of each other

A rounded result is within a factor of the exact one. Factors multiply through products and
quotients and a sum keeps the larger one, so that a chain of roundings is a count of them.
-/

namespace Orderbook

namespace Factors

variable {K : Type*} [Field K] [LinearOrder K] [IsStrictOrderedRing K]

/-- Neither is more than `g ^ n` times the other. -/
structure Within (g : K) (n : Nat) (x y : K) : Prop where
  low : y ≤ x * g ^ n
  high : x ≤ y * g ^ n

variable {g e x y z x' y' : K} {n m : Nat}

theorem Within.trans (positive : 0 ≤ g) (first : Within g n x y) (second : Within g m y z) :
    Within g (n + m) x z := by
  have power (k : Nat) : 0 ≤ g ^ k := pow_nonneg positive k
  constructor
  · calc z ≤ y * g ^ m := second.low
      _ ≤ x * g ^ n * g ^ m := mul_le_mul_of_nonneg_right first.low (power m)
      _ = x * g ^ (n + m) := by rw [mul_assoc, pow_add]
  · calc x ≤ y * g ^ n := first.high
      _ ≤ z * g ^ m * g ^ n := mul_le_mul_of_nonneg_right second.high (power n)
      _ = z * g ^ (n + m) := by rw [mul_assoc, ← pow_add, add_comm m]

theorem Within.add (first : Within g n x y) (second : Within g n x' y') :
    Within g n (x + x') (y + y') := by
  constructor
  · rw [add_mul]
    exact add_le_add first.low second.low
  · rw [add_mul]
    exact add_le_add first.high second.high

theorem Within.mul_right (within : Within g n x y) {c : K} (positive : 0 ≤ c) :
    Within g n (x * c) (y * c) := by
  constructor
  · calc y * c ≤ x * g ^ n * c := mul_le_mul_of_nonneg_right within.low positive
      _ = x * c * g ^ n := by ring
  · calc x * c ≤ y * g ^ n * c := mul_le_mul_of_nonneg_right within.high positive
      _ = y * c * g ^ n := by ring

/-- Quotients of positive values. -/
theorem Within.div (positive : 0 ≤ g) (first : Within g n x y) (second : Within g m x' y')
    (nonneg : 0 ≤ x) (nonneg' : 0 ≤ y) (bottom : 0 < x') (bottom' : 0 < y') :
    Within g (n + m) (x / x') (y / y') := by
  have power (k : Nat) : 0 ≤ g ^ k := pow_nonneg positive k
  constructor
  · rw [div_mul_eq_mul_div, div_le_div_iff₀ bottom' bottom]
    calc y * x' ≤ (x * g ^ n) * (y' * g ^ m) :=
          mul_le_mul first.low second.high bottom.le (mul_nonneg nonneg (power n))
      _ = x * g ^ (n + m) * y' := by ring
  · rw [div_mul_eq_mul_div, div_le_div_iff₀ bottom bottom']
    calc x * y' ≤ (y * g ^ n) * (x' * g ^ m) :=
          mul_le_mul first.high second.low bottom'.le (mul_nonneg nonneg' (power n))
      _ = y * g ^ (n + m) * x' := by ring

/-- A relative error as a factor. -/
theorem within_of_error (small : e < 1) (nonneg : 0 ≤ y) (near : |x - y| ≤ y * e) :
    Within (1 - e)⁻¹ 1 x y := by
  have below : 0 < 1 - e := sub_pos.mpr small
  obtain ⟨low, high⟩ := abs_le.mp near
  have square : y * (1 + e) * (1 - e) ≤ y := by
    have : 0 ≤ y * (e * e) := mul_nonneg nonneg (mul_self_nonneg e)
    calc y * (1 + e) * (1 - e) = y - y * (e * e) := by ring
      _ ≤ y := by linarith
  constructor
  · rw [pow_one, ← div_eq_mul_inv, le_div_iff₀ below]
    calc y * (1 - e) = y - y * e := by ring
      _ ≤ x := by linarith
  · rw [pow_one, ← div_eq_mul_inv, le_div_iff₀ below]
    calc x * (1 - e) ≤ y * (1 + e) * (1 - e) :=
          mul_le_mul_of_nonneg_right (by linarith) below.le
      _ ≤ y := square

/-- The error that a factor allows. -/
theorem Within.abs_sub_le (within : Within g n x y) (nonneg : 0 ≤ y) (one : 1 ≤ g) :
    |x - y| ≤ y * (g ^ n - 1) := by
  have power : 1 ≤ g ^ n := one_le_pow₀ one
  have below : y - x ≤ y * (g ^ n - 1) := by
    by_cases less : y ≤ x
    · have : 0 ≤ y * (g ^ n - 1) := mul_nonneg nonneg (sub_nonneg.mpr power)
      linarith
    · have more : x * (g ^ n - 1) ≤ y * (g ^ n - 1) :=
        mul_le_mul_of_nonneg_right (not_le.mp less).le (sub_nonneg.mpr power)
      have low := within.low
      linarith
  have above : x - y ≤ y * (g ^ n - 1) := by
    have high := within.high
    linarith
  exact abs_le.mpr ⟨by linarith, above⟩

end Factors

end Orderbook
