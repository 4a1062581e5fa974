import Orderbook.Merge
import Orderbook.Proofs.FiniteBooks
import Orderbook.Proofs.Ticks

/-!
# The spread in ticks

`merge` subtracts two prices, scales the difference to ticks, rounds it to a whole number and scales
it back. Each step is the exact result rounded, and for prices of at most `10 ^ 15` ticks the errors
stay below half a tick, so the rounding to a whole number takes them out again.
-/

namespace Orderbook

namespace F64

/-! ## The operations on numbers far from overflow -/

/-- The magnitude as a ratio. -/
theorem magnitude_eq (x : F64) : x.magnitude = x.units / (2 ^ 1074 : Nat) := by
  have scale : (2 : ℚ) ^ (-1074 : Int) = ((2 ^ 1074 : Nat) : ℚ)⁻¹ := two_zpow_neg 1074
  rw [magnitude, scale, div_eq_mul_inv]

/-- The difference of two numbers that are not negative. -/
theorem sub_eq {a b : F64} (finiteA : a.isFinite = true) (finiteB : b.isFinite = true)
    (signA : a.sign = false) (signB : b.sign = false) :
    a.sub b = ofRatio (decide (a.units < b.units)) ((a.units : Int) - b.units).natAbs
      (2 ^ 1074) := by
  rw [sub, isNan_of_isFinite finiteA, isNan_of_isFinite finiteB, isInfinite_of_isFinite finiteA,
    isInfinite_of_isFinite finiteB, signedUnits, signedUnits, signA, signB]
  simp only [Bool.or_self, Bool.false_eq_true, if_false, Bool.false_and]
  split
  · rename_i same
    have equal : a.units = b.units := by omega
    rw [equal, sub_self, Int.natAbs_zero, decide_eq_false (lt_irrefl _), ofRatio, magOfRatio,
      if_pos rfl]
  · congr 1
    rw [decide_eq_decide]
    omega

theorem units_eq_zero_iff {x : F64} : x.units = 0 ↔ x.mag = 0 := by
  constructor
  · intro nothing
    rcases Nat.lt_or_ge x.mag (2 ^ 52) with low | high
    · rwa [units_of_subnormal low] at nothing
    · rw [units, if_neg (by omega)] at nothing
      have scale : 2 ^ (x.mag / 2 ^ 52 - 1) ≠ 0 := by positivity
      have significand := (Nat.mul_eq_zero.mp nothing).resolve_right scale
      omega
  · intro nothing
    rw [units_of_subnormal (nothing ▸ by positivity), nothing]

/-- The product of two numbers. -/
theorem mul_eq {a b : F64} (finiteA : a.isFinite = true) (finiteB : b.isFinite = true) :
    a.mul b = ofRatio (a.sign != b.sign) (a.units * b.units) (2 ^ 2148) := by
  rw [mul, isNan_of_isFinite finiteA, isNan_of_isFinite finiteB, isInfinite_of_isFinite finiteA,
    isInfinite_of_isFinite finiteB]
  rfl

/-- The exact product with a whole number. -/
theorem product_ratio (x : F64) {y : F64} {c : Nat} (whole : y.units = c * 2 ^ 1074) :
    ((x.units * y.units : Nat) : ℚ) / (2 ^ 2148 : Nat) = x.magnitude * c := by
  have twice : 2 ^ 2148 = 2 ^ 1074 * 2 ^ 1074 := by rw [← pow_add]
  have positive : (2 ^ 1074 : Nat) ≠ 0 := by positivity
  rw [whole, twice, magnitude_eq]
  generalize (2 ^ 1074 : Nat) = one at positive
  have bottom : (one : ℚ) ≠ 0 := by exact_mod_cast positive
  rw [Nat.cast_mul, Nat.cast_mul, Nat.cast_mul]
  field_simp

/-- The quotient of two numbers. -/
theorem div_eq {a b : F64} (finiteA : a.isFinite = true) (finiteB : b.isFinite = true)
    (nonzero : b.units ≠ 0) : a.div b = ofRatio (a.sign != b.sign) a.units b.units := by
  have some : b.isZero = false := by
    rw [isZero, beq_eq_false_iff_ne]
    exact fun nothing => nonzero (units_eq_zero_iff.mpr nothing)
  rw [div, isNan_of_isFinite finiteA, isNan_of_isFinite finiteB, isInfinite_of_isFinite finiteA,
    isInfinite_of_isFinite finiteB, some]
  rfl

/-- The tick per unit. -/
def scale : F64 := ofNat 100000000

theorem scale_facts : scale.isFinite = true ∧ scale.units ≠ 0 ∧ scale.sign = false ∧
    scale.units = 10 ^ 8 * 2 ^ 1074 := by
  decide +kernel

theorem mul_scale_eq {x : F64} (finite : x.isFinite = true) :
    x.mul scale = ofRatio x.sign (x.units * scale.units) (2 ^ 2148) := by
  obtain ⟨scaleFinite, -, positive, -⟩ := scale_facts
  rw [mul_eq finite scaleFinite, positive, Bool.bne_false]

theorem div_scale_eq {x : F64} (finite : x.isFinite = true) :
    x.div scale = ofRatio x.sign x.units scale.units := by
  obtain ⟨scaleFinite, nonzero, positive, -⟩ := scale_facts
  rw [div_eq finite scaleFinite nonzero, positive, Bool.bne_false]

/-- The whole number of units nearer than a half. -/
theorem whole_of_near {units one n : Nat} (positive : 0 < one)
    (near : |(units : ℚ) / one - n| < 1 / 2) : (2 * units + one) / (2 * one) = n := by
  have bottom : (0 : ℚ) < one := by exact_mod_cast positive
  obtain ⟨low, high⟩ := abs_lt.mp near
  rw [lt_sub_iff_add_lt, lt_div_iff₀ bottom] at low
  rw [sub_lt_iff_lt_add, div_lt_iff₀ bottom] at high
  have above : n * (2 * one) ≤ 2 * units + one := by
    have : (n * (2 * one) : ℚ) ≤ 2 * units + one := by linarith
    exact_mod_cast this
  have below : 2 * units + one < (n + 1) * (2 * one) := by
    have : (2 * units + one : ℚ) < (n + 1) * (2 * one) := by linarith
    exact_mod_cast this
  exact Nat.div_eq_of_lt_le above below

/-- A number nearer than a half to a whole one is rounded to it. -/
theorem round_eq {x : F64} (finite : x.isFinite = true) {n : Nat}
    (near : |x.magnitude - n| < 1 / 2) : x.round = ofRatio x.sign n 1 := by
  have next : 1075 = 1074 + 1 := rfl
  rw [magnitude_eq] at near
  rw [round, if_pos finite, next, pow_succ' 2 1074, whole_of_near (by positivity) near]

/-- Whole numbers up to `2 ^ 53` are exact. -/
theorem magnitude_whole (neg : Bool) {n : Nat} (small : n ≤ 2 ^ 53) :
    (ofRatio neg n 1).magnitude = n := by
  rcases Nat.eq_zero_or_pos n with rfl | some
  · rw [magnitude_ofRatio_zero, Nat.cast_zero]
  have nonzero : n ≠ 0 := by omega
  have top : (n : ℚ) ≤ 2 ^ (53 : Int) := by exact_mod_cast small
  have below : (n : ℚ) / (1 : Nat) < limit := by
    rw [Nat.cast_one, div_one]
    calc (n : ℚ) ≤ 2 ^ (53 : Int) := top
      _ < 2 ^ (1023 : Int) := zpow_lt_zpow_right₀ (by norm_num) (by norm_num)
      _ ≤ limit := limit_low
  have low : (2 : ℚ) ^ exponentOf n 1 ≤ (n : ℚ) / (1 : Nat) :=
    (exponent_bounds nonzero one_ne_zero).1
  rw [Nat.cast_one, div_one] at low
  have exponent : exponentOf n 1 ≤ 53 :=
    (zpow_le_zpow_iff_right₀ (by norm_num)).mp (low.trans top)
  have whole : ∃ units : Nat, (n : ℚ) / (1 : Nat) = (units : ℚ) * 2 ^ ulpOf n 1 := by
    rw [Nat.cast_one, div_one]
    rcases le_or_gt (ulpOf n 1) 0 with fraction | doubled
    · obtain ⟨k, unit⟩ : ∃ k : Nat, ulpOf n 1 = -k := ⟨(-ulpOf n 1).toNat, by omega⟩
      refine ⟨n * 2 ^ k, ?_⟩
      rw [unit, two_zpow_neg, Nat.cast_mul, mul_assoc, mul_inv_cancel₀ (by positivity), mul_one]
    · have last : exponentOf n 1 = 53 ∧ ulpOf n 1 = 1 := by
        rw [ulpOf] at doubled ⊢
        omega
      rw [last.1] at low
      refine ⟨2 ^ 52, ?_⟩
      rw [last.2, le_antisymm top low]
      norm_num
  obtain ⟨units, whole⟩ := whole
  rw [magnitude_of_units neg nonzero one_ne_zero below whole, Nat.cast_one, div_one]

theorem isFinite_whole (neg : Bool) {n : Nat} (small : n ≤ 2 ^ 53) :
    (ofRatio neg n 1).isFinite = true := by
  apply isFinite_moderate neg one_ne_zero
  have top : (n : ℚ) ≤ 2 ^ (53 : Int) := by exact_mod_cast small
  rw [Nat.cast_one, div_one]
  exact top.trans (zpow_le_zpow_right₀ (by norm_num) (by norm_num))

/-- A ratio that is zero or far from overflow and the subnormals. -/
theorem magnitude_ratio_near (neg : Bool) {num den : Nat} (positive : den ≠ 0)
    (low : (num : ℚ) / den = 0 ∨ (2 : ℚ) ^ (-100 : Int) ≤ num / den)
    (high : (num : ℚ) / den ≤ 2 ^ (100 : Int)) :
    |(ofRatio neg num den).magnitude - num / den| ≤ num / den / 2 ^ 53 := by
  rcases low with zero | low
  · have bottom : (den : ℚ) ≠ 0 := by exact_mod_cast positive
    have nothing : num = 0 := by
      rw [div_eq_zero_iff, or_iff_left bottom] at zero
      exact_mod_cast zero
    subst nothing
    rw [magnitude_ofRatio_zero, zero, sub_self, abs_zero, zero_div]
  · exact magnitude_moderate neg positive low high

/-! ## The error of the spread -/

/-- The distance of two rounded prices, in ticks. -/
theorem distance_near {a b priceA priceB : ℚ} (smallA : a ≤ 10 ^ 15) (smallB : b ≤ 10 ^ 15)
    (nearA : |priceA - a| ≤ a / 2 ^ 53) (nearB : |priceB - b| ≤ b / 2 ^ 53) :
    abs (|priceA - priceB| - |a - b|) ≤ 2 * 10 ^ 15 / 2 ^ 53 := by
  have apart : (priceA - priceB) - (a - b) = (priceA - a) - (priceB - b) := by ring
  have sum := abs_sub (priceA - a) (priceB - b)
  refine (abs_abs_sub_abs_le _ _).trans ?_
  rw [apart]
  linarith

/-- Two prices, their difference and its scaled value, each with its own rounding error, stay
within half a tick. -/
theorem spread_error {exact distance difference scaled : ℚ} (small : exact ≤ 10 ^ 15)
    (nearDistance : |distance - exact| ≤ 2 * 10 ^ 15 / 2 ^ 53)
    (nearDifference : |difference - distance| ≤ distance / 2 ^ 53)
    (nearScaled : |scaled - difference| ≤ difference / 2 ^ 53) : |scaled - exact| < 1 / 2 := by
  rw [abs_le] at nearDistance nearDifference nearScaled
  rw [abs_lt]
  constructor
  · linarith
  · linarith

/-- The difference of two patterns in units. -/
theorem units_gap (x y : F64) :
    ((((x.units : Int) - y.units).natAbs : Nat) : ℚ) / (2 ^ 1074 : Nat) =
      |x.magnitude - y.magnitude| := by
  rw [magnitude_eq, magnitude_eq, ← sub_div, abs_div, Nat.abs_cast, Nat.cast_natAbs,
    Int.cast_abs, Int.cast_sub, Int.cast_natCast, Int.cast_natCast]

/-- The patterns of prices on the grid are in the order of the prices. -/
theorem units_ticks_lt_iff {m n : Nat} (smallM : m ≤ 2 ^ 52) (smallN : n ≤ 2 ^ 52) :
    (ticks false m).units < (ticks false n).units ↔ m < n := by
  have sorted : ∀ {j k : Nat}, j ≤ k → k ≤ 2 ^ 52 →
      (ticks false j).units ≤ (ticks false k).units := by
    intro j k le small
    apply units_mono
    rw [ticks, ticks, mag_ofRatio, mag_ofRatio]
    exact magOfRatio_mono (by norm_num) (by norm_num) (by gcongr)
  constructor
  · intro less
    by_contra notLess
    exact absurd (sorted (not_lt.mp notLess) smallM) (not_le.mpr less)
  · intro less
    have nearM := abs_le.mp (ticks_near false smallM)
    have nearN := abs_le.mp (ticks_near false smallN)
    have next : (m : ℚ) + 1 ≤ n := by exact_mod_cast less
    have top : (n : ℚ) ≤ 2 ^ 52 := by exact_mod_cast smallN
    have apart : (ticks false m).magnitude < (ticks false n).magnitude := by linarith
    rw [magnitude, magnitude, mul_lt_mul_iff_left₀ (by positivity)] at apart
    exact_mod_cast apart

/-- The scaled difference as a ratio. -/
theorem scaled_ratio (x : F64) :
    ((x.units * scale.units : Nat) : ℚ) / (2 ^ 2148 : Nat) = x.magnitude * 10 ^ 8 := by
  rw [product_ratio x scale_facts.2.2.2, Nat.cast_pow, Nat.cast_ofNat]

/-- What is left of a spread near a whole number of ticks. -/
theorem rescaled_eq {x : F64} {n : Nat} (small : n ≤ 10 ^ 15)
    (finite : (x.mul scale).isFinite = true)
    (near : |(x.mul scale).magnitude - n| < 1 / 2) :
    (x.mul scale).round.div scale = ticks (x.mul scale).sign n := by
  have exact : n ≤ 2 ^ 53 := small.trans (by norm_num)
  obtain ⟨-, nonzero, -, units⟩ := scale_facts
  rw [round_eq finite near, div_scale_eq (isFinite_whole _ exact), sign_ofRatio]
  have whole := magnitude_whole (x.mul scale).sign exact
  rw [magnitude_eq, div_eq_iff (by positivity)] at whole
  apply ticks_congr
  · rw [units]
    positivity
  · rw [whole, units]
    have unit : ((2 ^ 1074 : Nat) : ℚ) ≠ 0 := by positivity
    generalize 2 ^ 1074 = one at *
    push_cast
    field_simp
    norm_num

/-- A number of moderate size, scaled. -/
theorem mul_scale_near {x : F64} (finite : x.isFinite = true)
    (low : x.magnitude * 10 ^ 8 = 0 ∨ 1 / 4 ≤ x.magnitude * 10 ^ 8)
    (high : x.magnitude * 10 ^ 8 ≤ 2 ^ 60) :
    (x.mul scale).isFinite = true ∧ (x.mul scale).sign = x.sign ∧
      |(x.mul scale).magnitude - x.magnitude * 10 ^ 8| ≤ x.magnitude * 10 ^ 8 / 2 ^ 53 := by
  have ratio := scaled_ratio x
  have positive : ∀ k : Nat, 2 ^ k ≠ 0 := fun k => by positivity
  have below : x.magnitude * 10 ^ 8 ≤ 2 ^ (100 : Int) := high.trans (by norm_num)
  have above : x.magnitude * 10 ^ 8 = 0 ∨ (2 : ℚ) ^ (-100 : Int) ≤ x.magnitude * 10 ^ 8 :=
    low.imp_right fun quarter => le_trans (by norm_num) quarter
  rw [← ratio] at above below ⊢
  rw [mul_scale_eq finite]
  exact ⟨isFinite_moderate _ (positive 2148) below, sign_ofRatio _ _ _,
    magnitude_ratio_near x.sign (positive 2148) above below⟩

/-- A difference of prices on the grid, scaled and rounded: it is zero or at least half a tick, so
its roundings are of numbers of moderate size. -/
theorem rescaled_difference (neg : Bool) {a b units one : Nat} (smallA : a ≤ 10 ^ 15)
    (smallB : b ≤ 10 ^ 15) (positive : one ≠ 0)
    (gap : (units : ℚ) / one = |(ticks false a).magnitude - (ticks false b).magnitude|) :
    ((ofRatio neg units one).mul scale).round.div scale = ticks neg ((a : Int) - b).natAbs := by
  have small : ((a : Int) - b).natAbs ≤ 10 ^ 15 := by omega
  have top : ((((a : Int) - b).natAbs : Nat) : ℚ) ≤ 10 ^ 15 := by exact_mod_cast small
  have cast : ((((a : Int) - b).natAbs : Nat) : ℚ) = |(a : ℚ) - b| := by
    rw [Nat.cast_natAbs, Int.cast_abs, Int.cast_sub, Int.cast_natCast, Int.cast_natCast]
  have distance := distance_near (by exact_mod_cast smallA) (by exact_mod_cast smallB)
    (ticks_near false (n := a) (smallA.trans (by norm_num)))
    (ticks_near false (n := b) (smallB.trans (by norm_num)))
  rw [← sub_mul, abs_mul, abs_of_pos (by norm_num : (0 : ℚ) < 10 ^ 8), ← gap, ← cast] at distance
  have sizes : ((units : ℚ) / one = 0 ∨ 1 / 2 ≤ (units : ℚ) / one * 10 ^ 8) ∧
      (units : ℚ) / one * 10 ^ 8 ≤ 10 ^ 15 + 1 := by
    have bounds := abs_le.mp distance
    refine ⟨?_, by linarith⟩
    rcases eq_or_ne a b with rfl | other
    · left
      rw [gap, sub_self, abs_zero]
    · right
      have apart : 1 ≤ ((a : Int) - b).natAbs := by omega
      have apart' : (1 : ℚ) ≤ (((a : Int) - b).natAbs : Nat) := by exact_mod_cast apart
      linarith
  generalize ((a : Int) - b).natAbs = exact at *
  have difference : |(ofRatio neg units one).magnitude - units / one| ≤ units / one / 2 ^ 53 := by
    apply magnitude_ratio_near neg positive
    · refine sizes.1.imp_right fun half => le_trans ?_ (show 1 / (2 * 10 ^ 8) ≤ _ by linarith)
      norm_num
    · refine le_trans (show _ ≤ (10 ^ 15 + 1) / 10 ^ 8 by linarith) ?_
      norm_num
  have finite : (ofRatio neg units one).isFinite = true := by
    apply isFinite_moderate neg positive
    refine le_trans (show _ ≤ (10 ^ 15 + 1) / 10 ^ 8 by linarith) ?_
    norm_num
  have bounds := abs_le.mp difference
  obtain ⟨scaledFinite, sign, scaled⟩ := mul_scale_near finite
    (sizes.1.imp (fun zero => by rw [zero] at bounds; linarith) fun half => by linarith)
    (by linarith)
  rw [sign_ofRatio] at sign
  rw [rescaled_eq small scaledFinite, sign]
  apply spread_error top distance ?_ scaled
  rw [← sub_mul, abs_mul, abs_of_pos (by norm_num : (0 : ℚ) < 10 ^ 8)]
  linarith

end F64

open F64

/-- The spread of prices on the grid is their difference in ticks, rounded once. -/
theorem spreadOf_ticks {bid ask : Level} {b a : Nat} (bidPrice : bid.price = ticks false b)
    (askPrice : ask.price = ticks false a) (smallB : b ≤ 10 ^ 15) (smallA : a ≤ 10 ^ 15) :
    spreadOf bid ask = ticks (decide (a < b)) ((a : Int) - b).natAbs := by
  have gridA : a ≤ 2 ^ 52 := smallA.trans (by norm_num)
  have gridB : b ≤ 2 ^ 52 := smallB.trans (by norm_num)
  have subtracted := sub_eq (isFinite_ticks false gridA) (isFinite_ticks false gridB)
    (sign_ofRatio _ _ _) (sign_ofRatio _ _ _)
  rw [decide_eq_decide.mpr (units_ticks_lt_iff gridA gridB)] at subtracted
  rw [spreadOf, bidPrice, askPrice, subtracted]
  exact rescaled_difference _ smallA smallB (by positivity)
    (units_gap (ticks false a) (ticks false b))

end Orderbook
