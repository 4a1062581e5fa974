import Orderbook.Proofs.Overflow
import Mathlib.Algebra.Order.Field.Basic
import Mathlib.Tactic.GCongr

/-!
# Rounding

The value of a finite pattern, and what rounding a ratio does to it: the result is monotone in the
ratio and depends on nothing else, no finite pattern is nearer, and the error is at most half a unit
of the last bit, which for a normal result is `2 ^ -53` of the ratio.
-/

namespace Orderbook

namespace F64

/-! ## The quotient -/

/-- The quotient is rounded down up to a half and up from a half, and a half goes to the even
number. -/
theorem roundHalfEven_cases (a b : Nat) :
    (roundHalfEven a b = a / b ∧ 2 * (a % b) ≤ b ∧ (2 * (a % b) = b → a / b % 2 = 0)) ∨
      (roundHalfEven a b = a / b + 1 ∧ b ≤ 2 * (a % b) ∧ (b = 2 * (a % b) → a / b % 2 = 1)) := by
  unfold roundHalfEven
  split
  · omega
  · split
    · omega
    · omega

theorem two_mul_eq (a b : Nat) : 2 * a = 2 * (a / b) * b + 2 * (a % b) := by
  have split := Nat.div_add_mod a b
  rw [Nat.mul_assoc, Nat.mul_comm (a / b)]
  omega

/-- The rounded quotient is at most a half away, and even where it is a half away. -/
theorem roundHalfEven_near (a : Nat) {b : Nat} (positive : 0 < b) :
    (roundHalfEven a b : ℚ) ≤ a / b + 1 / 2 ∧ (a / b : ℚ) ≤ roundHalfEven a b + 1 / 2 ∧
      ((roundHalfEven a b : ℚ) = a / b + 1 / 2 ∨ (a / b : ℚ) = roundHalfEven a b + 1 / 2 →
        roundHalfEven a b % 2 = 0) := by
  have bottom : (0 : ℚ) < b := by exact_mod_cast positive
  have bounds : 2 * a ≤ 2 * roundHalfEven a b * b + b ∧ 2 * roundHalfEven a b * b ≤ 2 * a + b ∧
      (2 * roundHalfEven a b * b = 2 * a + b ∨ 2 * a = 2 * roundHalfEven a b * b + b →
        roundHalfEven a b % 2 = 0) := by
    have whole := two_mul_eq a b
    have remainder := Nat.mod_lt a positive
    have next : 2 * (a / b + 1) * b = 2 * (a / b) * b + 2 * b := by ring
    rcases roundHalfEven_cases a b with ⟨down, low, tie⟩ | ⟨up, high, tie⟩
    · rw [down]
      omega
    · rw [up, next]
      generalize 2 * (a / b) * b = below at *
      generalize a / b = quotient at *
      omega
  obtain ⟨high, low, even⟩ := bounds
  generalize roundHalfEven a b = rounded at *
  have high' : (2 * a : ℚ) ≤ 2 * rounded * b + b := by exact_mod_cast high
  have low' : (2 * rounded * b : ℚ) ≤ 2 * a + b := by exact_mod_cast low
  refine ⟨?_, ?_, fun tie => even (tie.imp (fun up => ?_) fun down => ?_)⟩
  · rw [div_add' _ _ _ bottom.ne', le_div_iff₀ bottom]
    linarith
  · rw [div_le_iff₀ bottom]
    linarith
  · rw [div_add' _ _ _ bottom.ne', eq_div_iff bottom.ne'] at up
    have : (2 * rounded * b : ℚ) = 2 * a + b := by linarith
    exact_mod_cast this
  · rw [div_eq_iff bottom.ne'] at down
    have : (2 * a : ℚ) = 2 * rounded * b + b := by linarith
    exact_mod_cast this

theorem roundHalfEven_mono {a b a' b' : Nat} (positive : 0 < b) (positive' : 0 < b')
    (le : (a : ℚ) / b ≤ a' / b') : roundHalfEven a b ≤ roundHalfEven a' b' := by
  obtain ⟨low, -, even⟩ := roundHalfEven_near a positive
  obtain ⟨-, high, even'⟩ := roundHalfEven_near a' positive'
  by_contra above
  rw [not_le] at above
  have next : (roundHalfEven a' b' : ℚ) + 1 ≤ roundHalfEven a b := by exact_mod_cast above
  -- Both quotients lie halfway between two consecutive numbers, which are not both even.
  have tie := even (Or.inl (by linarith))
  have tie' := even' (Or.inr (by linarith))
  have last : (roundHalfEven a b : ℚ) ≤ roundHalfEven a' b' + 1 := by linarith
  have : roundHalfEven a b ≤ roundHalfEven a' b' + 1 := by exact_mod_cast last
  omega

/-! ## Values -/

/-- The magnitude of a finite pattern. -/
def magnitude (x : F64) : ℚ := x.units * 2 ^ (-1074 : Int)

/-- The value of a finite pattern. -/
def value (x : F64) : ℚ := if x.sign then -x.magnitude else x.magnitude

/-- A significand in its binade, or at the top of the one below. -/
theorem units_of_mag {x : F64} {k s : Nat} (position : x.mag = k * 2 ^ 52 + s)
    (low : k = 0 ∨ 2 ^ 52 ≤ s) (high : s ≤ 2 ^ 53) : x.units = s * 2 ^ k := by
  rw [units, position]
  split
  · have : k = 0 := by omega
    subst this
    omega
  · rename_i normal
    rcases Nat.lt_or_ge s (2 ^ 53) with below | top
    · have binade : (k * 2 ^ 52 + s) / 2 ^ 52 = k + 1 := by omega
      have fraction : 2 ^ 52 + (k * 2 ^ 52 + s) % 2 ^ 52 = s := by omega
      rw [binade, fraction, Nat.add_sub_cancel]
    · have binade : (k * 2 ^ 52 + s) / 2 ^ 52 = k + 2 := by omega
      have fraction : (k * 2 ^ 52 + s) % 2 ^ 52 = 0 := by omega
      have last : s = 2 ^ 52 * 2 := by omega
      rw [binade, fraction, last, Nat.add_zero, Nat.mul_assoc, ← Nat.pow_succ']
      rfl

/-! ## The rounded ratio -/

/-- The significand of the rounded ratio. -/
def significandOf (num den : Nat) : Nat :=
  roundHalfEven (shifted num den (-ulpOf num den)).1 (shifted num den (-ulpOf num den)).2

section Ratio

variable {num den : Nat}

theorem significand_ratio (num den : Nat) :
    ((shifted num den (-ulpOf num den)).1 : ℚ) / (shifted num den (-ulpOf num den)).2 =
      num / den / 2 ^ ulpOf num den := by
  rw [shifted_ratio, zpow_neg, div_eq_mul_inv ((num : ℚ) / den)]

theorem significandOf_le (some : num ≠ 0) (positive : den ≠ 0) : significandOf num den ≤ 2 ^ 53 :=
  roundHalfEven_le (significand_below some positive)

/-- Below the normal numbers the unit is that of the subnormals, elsewhere the leading bit is in
the significand. -/
theorem significandOf_reaches (some : num ≠ 0) (positive : den ≠ 0) :
    ulpOf num den = -1074 ∨
      ulpOf num den = exponentOf num den - 52 ∧ 2 ^ 52 ≤ significandOf num den := by
  rcases max_choice (exponentOf num den - 52) (-1074) with normal | subnormal
  · right
    exact ⟨normal, le_roundHalfEven (significand_pos num positive)
      (significand_reaches some positive normal)⟩
  · exact Or.inl subnormal

theorem ulpOf_ge (num den : Nat) : -1074 ≤ ulpOf num den := le_max_right _ _

theorem exponentOf_mono {num' den' : Nat} (some : num ≠ 0) (some' : num' ≠ 0)
    (positive : den ≠ 0) (positive' : den' ≠ 0) (le : (num : ℚ) / den ≤ num' / den') :
    exponentOf num den ≤ exponentOf num' den' := by
  have low := (exponent_bounds some positive).1
  have high := (exponent_bounds some' positive').2
  have below : (2 : ℚ) ^ exponentOf num den < 2 ^ (exponentOf num' den' + 1) :=
    lt_of_le_of_lt (low.trans le) high
  rw [zpow_lt_zpow_iff_right₀ (by norm_num)] at below
  omega

/-- A larger ratio is not rounded to a smaller magnitude: in one binade the significands are in
order, and between two the later one starts over where the earlier one ends. -/
theorem magOfRatio_mono {num' den' : Nat} (positive : den ≠ 0) (positive' : den' ≠ 0)
    (le : (num : ℚ) / den ≤ num' / den') : magOfRatio num den ≤ magOfRatio num' den' := by
  by_cases some : num = 0
  · rw [magOfRatio, if_pos some]
    exact Nat.zero_le _
  have bottom : (0 : ℚ) < den := by exact_mod_cast Nat.pos_of_ne_zero positive
  have bottom' : (0 : ℚ) < den' := by exact_mod_cast Nat.pos_of_ne_zero positive'
  have some' : num' ≠ 0 := by
    rintro rfl
    rw [Nat.cast_zero, zero_div, div_le_iff₀ bottom, zero_mul] at le
    exact some (by exact_mod_cast le_antisymm le (Nat.cast_nonneg num))
  have exponents := exponentOf_mono some some' positive positive' le
  have units : ulpOf num den ≤ ulpOf num' den' := max_le_max_right _ (by omega)
  rw [magOfRatio_eq some, magOfRatio_eq some', ← significandOf, ← significandOf]
  apply min_le_min_left
  rcases units.eq_or_lt with same | below
  · have significands : significandOf num den ≤ significandOf num' den' := by
      apply roundHalfEven_mono (significand_pos num positive) (significand_pos num' positive')
      rw [significand_ratio, significand_ratio, same]
      gcongr
    rw [same]
    omega
  · have top := significandOf_le some positive
    have lowest := ulpOf_ge num den
    rcases significandOf_reaches some' positive' with subnormal | ⟨-, reached⟩
    · omega
    · omega

/-- Rounding depends on the ratio alone. -/
theorem magOfRatio_congr {num' den' : Nat} (positive : den ≠ 0) (positive' : den' ≠ 0)
    (same : (num : ℚ) / den = num' / den') : magOfRatio num den = magOfRatio num' den' :=
  Nat.le_antisymm (magOfRatio_mono positive positive' same.le)
    (magOfRatio_mono positive' positive same.ge)

/-! ## The error -/

theorem magnitude_ofRatio_zero (neg : Bool) (den : Nat) : (ofRatio neg 0 den).magnitude = 0 := by
  have small : (ofRatio neg 0 den).mag = 0 := by
    rw [ofRatio, magOfRatio, if_pos rfl, mag_ofSignMag neg (by decide)]
  rw [magnitude, units_of_subnormal (by rw [small]; decide), small, Nat.cast_zero, zero_mul]

/-- The rounded ratio is its significand in units of the last bit. -/
theorem magnitude_ofRatio (neg : Bool) (some : num ≠ 0) (positive : den ≠ 0)
    (below : (num : ℚ) / den < limit) :
    (ofRatio neg num den).magnitude = significandOf num den * 2 ^ ulpOf num den := by
  have finite := (magOfRatio_lt_iff positive).mpr below
  have position : (ofRatio neg num den).mag =
      (ulpOf num den + 1074).toNat * 2 ^ 52 + significandOf num den := by
    have small : magOfRatio num den < 2 ^ 63 := lt_of_le_of_lt (magOfRatio_le num den) (by decide)
    rw [ofRatio, mag_ofSignMag neg small]
    rw [magOfRatio_eq some, min_lt_iff, or_iff_right (lt_irrefl _)] at finite
    rw [magOfRatio_eq some, min_eq_right finite.le, significandOf]
  have lowest := ulpOf_ge num den
  have low : (ulpOf num den + 1074).toNat = 0 ∨ 2 ^ 52 ≤ significandOf num den :=
    (significandOf_reaches some positive).imp (fun subnormal => by omega) And.right
  have exponent : ulpOf num den = ((ulpOf num den + 1074).toNat : Int) + -1074 := by omega
  rw [magnitude, units_of_mag position low (significandOf_le some positive)]
  conv_rhs => rw [exponent]
  rw [zpow_add₀ (by norm_num), zpow_natCast, Nat.cast_mul, Nat.cast_pow, Nat.cast_ofNat,
    mul_assoc]

theorem unit_pos (num den : Nat) : (0 : ℚ) < 2 ^ ulpOf num den := by positivity

/-- Half a unit of the last bit. -/
theorem magnitude_near (neg : Bool) (some : num ≠ 0) (positive : den ≠ 0)
    (below : (num : ℚ) / den < limit) :
    |(ofRatio neg num den).magnitude - num / den| ≤ 2 ^ ulpOf num den / 2 := by
  obtain ⟨low, high, -⟩ := roundHalfEven_near (shifted num den (-ulpOf num den)).1
    (significand_pos num positive)
  have unit := unit_pos num den
  rw [significand_ratio, ← significandOf] at low high
  rw [← sub_le_iff_le_add, le_div_iff₀ unit] at low
  rw [div_le_iff₀ unit] at high
  rw [magnitude_ofRatio neg some positive below, abs_le]
  constructor
  · linarith
  · linarith

/-- No other number of units is nearer. -/
theorem magnitude_nearest_unit (neg : Bool) (some : num ≠ 0) (positive : den ≠ 0)
    (below : (num : ℚ) / den < limit) (n : Nat) :
    |(ofRatio neg num den).magnitude - num / den| ≤ |(n : ℚ) * 2 ^ ulpOf num den - num / den| := by
  have near := magnitude_near neg some positive below
  have unit := unit_pos num den
  rw [magnitude_ofRatio neg some positive below] at near ⊢
  rcases eq_or_ne n (significandOf num den) with rfl | other
  · exact le_rfl
  · have apart : (2 : ℚ) ^ ulpOf num den ≤
        |(n : ℚ) * 2 ^ ulpOf num den - significandOf num den * 2 ^ ulpOf num den| := by
      have step : (1 : ℚ) ≤ |(n : ℚ) - significandOf num den| := by
        have := Int.one_le_abs (sub_ne_zero.mpr (Int.natCast_inj.not.mpr other))
        exact_mod_cast this
      rw [← sub_mul, abs_mul, abs_of_pos unit]
      exact le_mul_of_one_le_left unit.le step
    have around := abs_sub_le ((n : ℚ) * 2 ^ ulpOf num den) (num / den)
      (significandOf num den * 2 ^ ulpOf num den)
    rw [abs_sub_comm (num / den : ℚ)] at around
    linarith

/-- A ratio that is a number of units stays. -/
theorem magnitude_of_units (neg : Bool) (some : num ≠ 0) (positive : den ≠ 0)
    (below : (num : ℚ) / den < limit) {n : Nat}
    (whole : (num : ℚ) / den = (n : ℚ) * 2 ^ ulpOf num den) :
    (ofRatio neg num den).magnitude = num / den := by
  have nearest := magnitude_nearest_unit neg some positive below n
  rw [← whole, sub_self, abs_zero] at nearest
  exact sub_eq_zero.mp (abs_nonpos_iff.mp nearest)

/-- For the normal numbers half a unit is `2 ^ -53` of the ratio. -/
theorem magnitude_relative (neg : Bool) (positive : den ≠ 0) (below : (num : ℚ) / den < limit)
    (normal : (2 : ℚ) ^ (-1022 : Int) ≤ num / den) :
    |(ofRatio neg num den).magnitude - num / den| ≤ num / den / 2 ^ 53 := by
  have some : num ≠ 0 := by
    rintro rfl
    rw [Nat.cast_zero, zero_div] at normal
    exact absurd normal (not_le.mpr (by positivity))
  obtain ⟨low, high⟩ := exponent_bounds some positive
  have exponent : -1022 ≤ exponentOf num den := by
    have := lt_of_le_of_lt normal high
    rw [zpow_lt_zpow_iff_right₀ (by norm_num)] at this
    omega
  have unit : ulpOf num den = exponentOf num den - 52 := max_eq_left (by omega)
  calc |(ofRatio neg num den).magnitude - num / den|
      ≤ 2 ^ ulpOf num den / 2 := magnitude_near neg some positive below
    _ = 2 ^ exponentOf num den / 2 ^ 53 := by
        rw [unit, zpow_sub₀ (by norm_num), div_div]
        norm_num
    _ ≤ num / den / 2 ^ 53 := by gcongr

end Ratio

/-! ## Nearest -/

/-- A pattern from a binade on is a number of units of the last bit of that binade. -/
theorem units_dvd {x : F64} {k : Nat} (large : 2 ^ (52 + k) ≤ x.units) : 2 ^ k ∣ x.units := by
  rw [units] at large ⊢
  split
  · rename_i low
    rw [if_pos low] at large
    have : 2 ^ 52 ≤ 2 ^ (52 + k) := Nat.pow_le_pow_right (by omega) (by omega)
    omega
  · rename_i high
    rw [if_neg high] at large
    have fraction : 2 ^ 52 + x.mag % 2 ^ 52 < 2 ^ 53 := by omega
    have below : 2 ^ (52 + k) < 2 ^ (53 + (x.mag / 2 ^ 52 - 1)) :=
      calc 2 ^ (52 + k) ≤ (2 ^ 52 + x.mag % 2 ^ 52) * 2 ^ (x.mag / 2 ^ 52 - 1) := large
        _ < 2 ^ 53 * 2 ^ (x.mag / 2 ^ 52 - 1) :=
          Nat.mul_lt_mul_of_pos_right fraction (Nat.two_pow_pos _)
        _ = 2 ^ (53 + (x.mag / 2 ^ 52 - 1)) := (Nat.pow_add _ _ _).symm
    have exponents := (Nat.pow_lt_pow_iff_right (by omega)).mp below
    exact Dvd.dvd.mul_left (Nat.pow_dvd_pow 2 (by omega)) _

theorem magnitude_nonneg (x : F64) : 0 ≤ x.magnitude := by
  rw [magnitude]
  positivity

/-- No pattern is nearer to the ratio than its rounding: one from the binade of the ratio on is a
number of its units, and one below is further than the number of units where the binade starts. -/
theorem magnitude_nearest (neg : Bool) {num den : Nat} (positive : den ≠ 0)
    (below : (num : ℚ) / den < limit) (z : F64) :
    |(ofRatio neg num den).magnitude - num / den| ≤ |z.magnitude - num / den| := by
  by_cases some : num = 0
  · subst some
    rw [magnitude_ofRatio_zero, Nat.cast_zero, zero_div, sub_self, abs_zero]
    exact abs_nonneg _
  have nearest := magnitude_nearest_unit neg some positive below
  have lowest := ulpOf_ge num den
  obtain ⟨k, unit⟩ : ∃ k : Nat, ulpOf num den = k + -1074 :=
    ⟨(ulpOf num den + 1074).toNat, by omega⟩
  have multiple : 2 ^ k ∣ z.units → ∃ n : Nat, z.magnitude = (n : ℚ) * 2 ^ ulpOf num den := by
    rintro ⟨n, factor⟩
    refine ⟨n, ?_⟩
    rw [magnitude, factor, unit, zpow_add₀ (by norm_num), zpow_natCast, Nat.cast_mul, Nat.cast_pow,
      Nat.cast_ofNat]
    ring
  rcases Nat.lt_or_ge z.units (2 ^ (52 + k)) with small | large
  · rcases significandOf_reaches some positive with subnormal | ⟨normal, -⟩
    · obtain rfl : k = 0 := by omega
      obtain ⟨n, whole⟩ := multiple (one_dvd _)
      rw [whole]
      exact nearest n
    · have starts : ((2 ^ 52 : Nat) : ℚ) * 2 ^ ulpOf num den ≤ num / den := by
        calc ((2 ^ 52 : Nat) : ℚ) * 2 ^ ulpOf num den = 2 ^ exponentOf num den := by
              rw [normal, zpow_sub₀ (by norm_num)]
              norm_num
              ring
          _ ≤ num / den := (exponent_bounds some positive).1
      have under : z.magnitude ≤ ((2 ^ 52 : Nat) : ℚ) * 2 ^ ulpOf num den := by
        have cast : (z.units : ℚ) ≤ ((2 ^ (52 + k) : Nat) : ℚ) := by exact_mod_cast small.le
        calc z.magnitude ≤ ((2 ^ (52 + k) : Nat) : ℚ) * 2 ^ (-1074 : Int) := by
              rw [magnitude]
              gcongr
          _ = ((2 ^ 52 : Nat) : ℚ) * 2 ^ ulpOf num den := by
              rw [unit, zpow_add₀ (by norm_num), zpow_natCast, Nat.pow_add, Nat.cast_mul,
                Nat.cast_pow 2 k, Nat.cast_ofNat, mul_assoc]
      refine (nearest (2 ^ 52)).trans ?_
      generalize ((2 ^ 52 : Nat) : ℚ) * 2 ^ ulpOf num den = start at *
      rw [abs_of_nonpos (by linarith), abs_of_nonpos (by linarith)]
      linarith
  · obtain ⟨n, whole⟩ := multiple (units_dvd large)
    rw [whole]
    exact nearest n

end F64

end Orderbook
