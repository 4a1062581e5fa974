import Orderbook.Json
import Mathlib.Algebra.Order.Field.Power
import Mathlib.Algebra.Order.Ring.Rat
import Mathlib.Tactic.NormNum
import Mathlib.Tactic.Linarith
import Mathlib.Tactic.FieldSimp
import Mathlib.Tactic.Positivity
import Mathlib.Tactic.Ring

/-!
# Which texts are finite numbers

Rounding to nearest gives an infinity from `2 ^ 1024 - 2 ^ 970` on, halfway between the largest
finite value and the next power of two. So `parse` gives a finite value exactly on the decimal
literals below that.
-/

namespace Orderbook

namespace F64

/-! ## The quotient -/

theorem roundHalfEven_le {a b n : Nat} (below : a < n * b) : roundHalfEven a b ≤ n := by
  have quotient : a / b < n := Nat.div_lt_of_lt_mul (by rwa [Nat.mul_comm] at below)
  unfold roundHalfEven
  split
  · omega
  · split <;> omega

theorem le_roundHalfEven {a b n : Nat} (positive : 0 < b) (above : n * b ≤ a) :
    n ≤ roundHalfEven a b := by
  have quotient : n ≤ a / b := (Nat.le_div_iff_mul_le positive).mpr above
  unfold roundHalfEven
  split
  · exact quotient
  · split <;> omega

/-- The quotients rounded to less than an even number are those nearer to its predecessor: the tie
between the two goes up. -/
theorem roundHalfEven_lt_iff {a b n : Nat} (positive : 0 < b) (even : n % 2 = 0) (some : 0 < n) :
    roundHalfEven a b < n ↔ 2 * a < (2 * n - 1) * b := by
  have split := Nat.div_add_mod a b
  have remainder := Nat.mod_lt a positive
  rcases Nat.lt_trichotomy (a / b) (n - 1) with low | last | high
  · have rounded : roundHalfEven a b < n := by
      unfold roundHalfEven
      split
      · omega
      · split <;> omega
    have fits : 2 * a < (2 * n - 1) * b := by
      have next : a < (n - 1) * b := by
        rw [← Nat.div_lt_iff_lt_mul positive]
        exact low
      calc 2 * a < 2 * ((n - 1) * b) := by omega
        _ = (2 * n - 2) * b := by rw [← Nat.mul_assoc]; congr 1; omega
        _ ≤ (2 * n - 1) * b := Nat.mul_le_mul_right b (by omega)
    exact iff_of_true rounded fits
  · have half : (2 * n - 1) * b = 2 * (b * (a / b)) + b := by
      rw [last, Nat.mul_comm b, ← Nat.mul_assoc, ← Nat.succ_mul]
      congr 1
      omega
    rw [half]
    unfold roundHalfEven
    split
    · omega
    · split <;> omega
  · have rounded : ¬ roundHalfEven a b < n := by
      have reached : n * b ≤ a := (Nat.le_div_iff_mul_le positive).mp (by omega)
      have := le_roundHalfEven positive reached
      omega
    have past : ¬ 2 * a < (2 * n - 1) * b := by
      have reached : n * b ≤ a := (Nat.le_div_iff_mul_le positive).mp (by omega)
      have : (2 * n - 1) * b ≤ 2 * (n * b) := by
        rw [← Nat.mul_assoc]
        exact Nat.mul_le_mul_right b (by omega)
      omega
    exact iff_of_false rounded past

/-! ## The exponent -/

theorem shifted_pos {a b : Nat} (positive : 0 < b) (e : Int) : 0 < (shifted a b e).2 := by
  unfold shifted
  split
  · exact positive
  · exact Nat.mul_pos positive (Nat.two_pow_pos _)

theorem shifted_ratio (a b : Nat) (e : Int) :
    ((shifted a b e).1 : ℚ) / (shifted a b e).2 = (a : ℚ) / b * 2 ^ e := by
  unfold shifted
  split
  · rename_i up
    obtain ⟨n, rfl⟩ := Int.eq_ofNat_of_zero_le up
    push_cast
    rw [Int.toNat_natCast, zpow_natCast]
    ring
  · rename_i down
    obtain ⟨n, rfl⟩ : ∃ n : Nat, e = -n := ⟨(-e).toNat, by omega⟩
    push_cast
    rw [neg_neg, Int.toNat_natCast, zpow_neg, zpow_natCast]
    field_simp

/-- Where the leading bits would put the exponent of the ratio. -/
def guessOf (num den : Nat) : Int := (num.log2 : Int) - den.log2

/-- The exponent of the ratio. -/
def exponentOf (num den : Nat) : Int :=
  if (shifted num den (-guessOf num den)).1 < (shifted num den (-guessOf num den)).2 then
    guessOf num den - 1
  else guessOf num den

/-- The exponent of the last bit of the significand. -/
def ulpOf (num den : Nat) : Int := max (exponentOf num den - 52) (-1074)

theorem magOfRatio_eq {num den : Nat} (some : num ≠ 0) :
    magOfRatio num den = min infMag ((ulpOf num den + 1074).toNat * 2 ^ 52 +
      roundHalfEven (shifted num den (-ulpOf num den)).1 (shifted num den (-ulpOf num den)).2) := by
  rw [magOfRatio, if_neg some]
  rfl

theorem log2_bounds {n : Nat} (some : n ≠ 0) :
    (2 : ℚ) ^ (n.log2 : Int) ≤ n ∧ (n : ℚ) < 2 ^ ((n.log2 : Int) + 1) := by
  constructor
  · rw [zpow_natCast]
    exact_mod_cast Nat.log2_self_le some
  · have top : n < 2 ^ (n.log2 + 1) := Nat.lt_log2_self
    have cast : (2 : ℚ) ^ ((n.log2 : Int) + 1) = ((2 ^ (n.log2 + 1) : Nat) : ℚ) := by
      push_cast
      rw [← zpow_natCast]
      push_cast
      rfl
    rw [cast]
    exact_mod_cast top

/-- The exponent is that of the greatest power of two not above the ratio. -/
theorem exponent_bounds {num den : Nat} (some : num ≠ 0) (positive : den ≠ 0) :
    (2 : ℚ) ^ exponentOf num den ≤ (num : ℚ) / den ∧
      (num : ℚ) / den < 2 ^ (exponentOf num den + 1) := by
  obtain ⟨numLow, numHigh⟩ := log2_bounds some
  obtain ⟨denLow, denHigh⟩ := log2_bounds positive
  have denPos : (0 : ℚ) < den := by exact_mod_cast Nat.pos_of_ne_zero positive
  have two : (2 : ℚ) ≠ 0 := by norm_num
  have low : (2 : ℚ) ^ (guessOf num den - 1) ≤ (num : ℚ) / den := by
    rw [le_div_iff₀ denPos]
    calc (2 : ℚ) ^ (guessOf num den - 1) * den
        ≤ 2 ^ (guessOf num den - 1) * 2 ^ ((den.log2 : Int) + 1) := by
          exact mul_le_mul_of_nonneg_left denHigh.le (by positivity)
      _ = 2 ^ (num.log2 : Int) := by rw [← zpow_add₀ two, guessOf]; congr 1; ring
      _ ≤ num := numLow
  have high : (num : ℚ) / den < 2 ^ (guessOf num den + 1) := by
    rw [div_lt_iff₀ denPos]
    calc (num : ℚ) < 2 ^ ((num.log2 : Int) + 1) := numHigh
      _ = 2 ^ (guessOf num den + 1) * 2 ^ (den.log2 : Int) := by
          rw [← zpow_add₀ two, guessOf]; congr 1; ring
      _ ≤ 2 ^ (guessOf num den + 1) * den := mul_le_mul_of_nonneg_left denLow (by positivity)
  have test : (shifted num den (-guessOf num den)).1 < (shifted num den (-guessOf num den)).2 ↔
      (num : ℚ) / den < 2 ^ guessOf num den := by
    have scaled := shifted_ratio num den (-guessOf num den)
    have bottom : (0 : ℚ) < (shifted num den (-guessOf num den)).2 := by
      exact_mod_cast shifted_pos (Nat.pos_of_ne_zero positive) _
    rw [← Nat.cast_lt (α := ℚ), ← div_lt_one bottom, scaled, zpow_neg, ← div_eq_mul_inv,
      div_lt_one (by positivity)]
  rw [exponentOf]
  split
  · rename_i below
    refine ⟨low, ?_⟩
    rw [sub_add_cancel]
    exact test.mp below
  · rename_i notBelow
    refine ⟨?_, high⟩
    rw [test, not_lt] at notBelow
    exact notBelow

/-! ## Overflow -/

/-- The least value that rounds to an infinity, halfway past the largest finite one. -/
def limit : ℚ := (2 ^ 54 - 1) * 2 ^ 970

theorem two_zpow_eq {n k : Nat} (e : Int) (sum : e = (n + k : Nat)) :
    (2 : ℚ) ^ e = 2 ^ n * 2 ^ k := by
  rw [sum, zpow_natCast, pow_add]

theorem limit_low : (2 : ℚ) ^ (1023 : Int) ≤ limit := by
  rw [two_zpow_eq (n := 53) (k := 970) 1023 rfl, limit]
  exact mul_le_mul_of_nonneg_right (by norm_num) (by positivity)

theorem limit_high : limit ≤ (2 : ℚ) ^ (1024 : Int) := by
  rw [two_zpow_eq (n := 54) (k := 970) 1024 rfl, limit]
  exact mul_le_mul_of_nonneg_right (by norm_num) (by positivity)

/-- Twice the limit is halfway past the largest significand at the last exponent. -/
theorem two_mul_limit : ((2 * 2 ^ 53 - 1 : Nat) : ℚ) * 2 ^ (971 : Int) = 2 * limit := by
  rw [two_zpow_eq (n := 1) (k := 970) 971 rfl, limit]
  generalize (2 : ℚ) ^ 970 = unit
  norm_num
  ring

section Significand

variable {num den : Nat}

theorem significand_pos (num : Nat) (positive : den ≠ 0) :
    0 < (shifted num den (-ulpOf num den)).2 :=
  shifted_pos (Nat.pos_of_ne_zero positive) _

/-- The significand against a number is the ratio against so many units of its last bit. -/
theorem significand_lt_iff (num : Nat) (positive : den ≠ 0) (k n : Nat) :
    k * (shifted num den (-ulpOf num den)).1 < n * (shifted num den (-ulpOf num den)).2 ↔
      k * ((num : ℚ) / den) < n * 2 ^ ulpOf num den := by
  have bottom : (0 : ℚ) < (shifted num den (-ulpOf num den)).2 := by
    exact_mod_cast significand_pos num positive
  have unit : (0 : ℚ) < 2 ^ ulpOf num den := by positivity
  have scaled := shifted_ratio num den (-ulpOf num den)
  rw [zpow_neg, ← div_eq_mul_inv, eq_div_iff unit.ne'] at scaled
  rw [← scaled, ← Nat.cast_lt (α := ℚ), Nat.cast_mul, Nat.cast_mul, ← mul_assoc,
    mul_lt_mul_iff_left₀ unit, ← mul_div_assoc, div_lt_iff₀ bottom]

theorem significand_below (some : num ≠ 0) (positive : den ≠ 0) :
    (shifted num den (-ulpOf num den)).1 < 2 ^ 53 * (shifted num den (-ulpOf num den)).2 := by
  have iff := significand_lt_iff num positive 1 (2 ^ 53)
  rw [one_mul] at iff
  rw [iff]
  calc ((1 : Nat) : ℚ) * ((num : ℚ) / den) = (num : ℚ) / den := by rw [Nat.cast_one, one_mul]
    _ < 2 ^ (exponentOf num den + 1) := (exponent_bounds some positive).2
    _ ≤ 2 ^ (53 + ulpOf num den) := by
        apply zpow_le_zpow_right₀ (by norm_num)
        have := le_max_left (exponentOf num den - 52) (-1074)
        rw [← ulpOf] at this
        omega
    _ = ((2 ^ 53 : Nat) : ℚ) * 2 ^ ulpOf num den := by rw [zpow_add₀ (by norm_num)]; norm_num

/-- In a binade of its own the significand has its leading bit. -/
theorem significand_reaches (some : num ≠ 0) (positive : den ≠ 0)
    (unit : ulpOf num den = exponentOf num den - 52) :
    2 ^ 52 * (shifted num den (-ulpOf num den)).2 ≤ (shifted num den (-ulpOf num den)).1 := by
  have notBelow := (significand_lt_iff num positive 1 (2 ^ 52)).not
  rw [one_mul, not_lt, not_lt] at notBelow
  rw [notBelow]
  calc ((2 ^ 52 : Nat) : ℚ) * 2 ^ ulpOf num den = 2 ^ (52 + ulpOf num den) := by
        rw [zpow_add₀ (by norm_num)]; norm_num
    _ = 2 ^ exponentOf num den := by rw [unit]; congr 1; ring
    _ ≤ (num : ℚ) / den := (exponent_bounds some positive).1
    _ = ((1 : Nat) : ℚ) * ((num : ℚ) / den) := by rw [Nat.cast_one, one_mul]

end Significand

/-- Rounding gives a finite magnitude exactly below the limit: with an exponent below 1023 always,
above it never, and at 1023 where the significand does not round up to the next power of two. -/
theorem magOfRatio_lt_iff {num den : Nat} (positive : den ≠ 0) :
    magOfRatio num den < infMag ↔ (num : ℚ) / den < limit := by
  by_cases some : num = 0
  · subst some
    have zero : magOfRatio 0 den < infMag := by rw [magOfRatio, if_pos rfl]; decide
    have below : ((0 : Nat) : ℚ) / den < limit := by rw [Nat.cast_zero, zero_div, limit]; norm_num
    exact iff_of_true zero below
  obtain ⟨low, high⟩ := exponent_bounds some positive
  have bottom := significand_pos num positive
  have rounded := roundHalfEven_le (significand_below some positive)
  have one : (1 : ℚ) ≤ 2 := by norm_num
  rw [magOfRatio_eq some, min_lt_iff, or_iff_right (lt_irrefl _)]
  rcases lt_trichotomy (exponentOf num den) 1023 with below | last | above
  · have unit : ulpOf num den ≤ 970 := max_le (by omega) (by norm_num)
    have finite : (ulpOf num den + 1074).toNat * 2 ^ 52 +
        roundHalfEven (shifted num den (-ulpOf num den)).1 (shifted num den (-ulpOf num den)).2 <
          infMag := by
      rw [infMag]
      omega
    have fits : (num : ℚ) / den < limit :=
      calc (num : ℚ) / den < 2 ^ (exponentOf num den + 1) := high
        _ ≤ 2 ^ (1023 : Int) := zpow_le_zpow_right₀ one (by omega)
        _ ≤ limit := limit_low
    exact iff_of_true finite fits
  · have unit : ulpOf num den = 971 := by
      rw [ulpOf, last]
      norm_num
    have tie := significand_lt_iff num positive 2 (2 * 2 ^ 53 - 1)
    have top := roundHalfEven_lt_iff (a := (shifted num den (-ulpOf num den)).1) bottom
      (n := 2 ^ 53) (by norm_num) (by norm_num)
    rw [← top, unit, two_mul_limit, Nat.cast_ofNat, mul_lt_mul_iff_right₀ (by norm_num)] at tie
    rw [← tie, unit, infMag]
    omega
  · have unit : ulpOf num den = exponentOf num den - 52 := max_eq_left (by omega)
    have reached := significand_reaches some positive unit
    have infinite : ¬ (ulpOf num den + 1074).toNat * 2 ^ 52 +
        roundHalfEven (shifted num den (-ulpOf num den)).1 (shifted num den (-ulpOf num den)).2 <
          infMag := by
      have := le_roundHalfEven bottom reached
      rw [infMag]
      omega
    have past : ¬ (num : ℚ) / den < limit := by
      rw [not_lt]
      calc limit ≤ 2 ^ (1024 : Int) := limit_high
        _ ≤ 2 ^ exponentOf num den := zpow_le_zpow_right₀ one (by omega)
        _ ≤ (num : ℚ) / den := low
    exact iff_of_false infinite past

theorem isFinite_ofRatio (neg : Bool) {num den : Nat} (positive : den ≠ 0) :
    (ofRatio neg num den).isFinite = true ↔ (num : ℚ) / den < limit := by
  have small : magOfRatio num den < 2 ^ 63 := lt_of_le_of_lt (magOfRatio_le num den) (by decide)
  rw [isFinite, ofRatio, mag_ofSignMag neg small, decide_eq_true_eq, magOfRatio_lt_iff positive]

theorem isFinite_ofDecimal (neg : Bool) (m : Nat) (e : Int) :
    (ofDecimal neg m e).isFinite = true ↔ (m : ℚ) * 10 ^ e < limit := by
  unfold ofDecimal
  split
  · rename_i up
    obtain ⟨n, rfl⟩ := Int.eq_ofNat_of_zero_le up
    rw [isFinite_ofRatio neg one_ne_zero, Int.toNat_natCast, zpow_natCast]
    push_cast
    rw [div_one]
  · rename_i down
    obtain ⟨n, rfl⟩ : ∃ n : Nat, e = -n := ⟨(-e).toNat, by omega⟩
    have positive : 10 ^ n ≠ 0 := by positivity
    rw [neg_neg, Int.toNat_natCast, isFinite_ofRatio neg positive, zpow_neg, zpow_natCast,
      div_eq_mul_inv]
    push_cast
    rfl

/-! ## Texts -/

/-- The text is a decimal literal, after an optional sign, whose value, with the exponent as it is
read, is below the limit. -/
def isFiniteText (s : Text) : Bool :=
  match parseDecimal (splitSign s).2 with
  | none => false
  | some (m, e) => decide ((m : ℚ) * 10 ^ e < limit)

/-- A decimal literal starts with a digit or a dot. -/
theorem parseDecimal_of_letter {c : Char} {rest : Text} (digit : c.isDigit = false)
    (dot : c ≠ '.') : parseDecimal (c :: rest) = none := by
  have whole : (c :: rest).takeWhile Char.isDigit = [] := by simp [digit]
  have after : (c :: rest).dropWhile Char.isDigit = c :: rest := by simp [digit]
  have fraction : splitFraction (c :: rest) = ([], c :: rest) := by
    unfold splitFraction
    split
    · rename_i same
      cases same
      exact absurd rfl dot
    · rfl
  simp only [parseDecimal, whole, after, fraction]
  rfl

/-- The words that are numbers are no decimal literals. -/
theorem parseDecimal_of_word {s word : Text} {c : Char} (lower : s.map Char.toLower = c :: word)
    (digit : c.isDigit = false) (dot : c ≠ '.') : parseDecimal s = none := by
  cases s with
  | nil => cases lower
  | cons first rest =>
    obtain ⟨rfl, -⟩ := List.cons.inj lower
    apply parseDecimal_of_letter
    · by_contra isDigit
      rw [Bool.not_eq_false] at isDigit
      rw [toLower_of_isDigit isDigit, isDigit] at digit
      cases digit
    · rintro rfl
      exact dot rfl

/-- A text that parses is finite exactly if it is a literal below the limit. -/
theorem isFinite_of_parse {s : Text} {x : F64} (parsed : parse s = some x) :
    x.isFinite = isFiniteText s := by
  simp only [parse] at parsed
  split at parsed
  · rename_i word
    obtain rfl := Option.some.inj parsed
    have noLiteral : parseDecimal (splitSign s).2 = none := by
      rcases word with word | word <;> exact parseDecimal_of_word word rfl (by decide)
    rw [isFiniteText, noLiteral, isFinite, mag_ofSignMag _ (by decide)]
    decide
  · split at parsed
    · rename_i word
      obtain rfl := Option.some.inj parsed
      have noLiteral : parseDecimal (splitSign s).2 = none :=
        parseDecimal_of_word word rfl (by decide)
      rw [isFiniteText, noLiteral]
      cases (splitSign s).1 <;> decide
    · obtain ⟨⟨m, e⟩, literal, rfl⟩ := Option.map_eq_some_iff.mp parsed
      rw [isFiniteText, literal, Bool.eq_iff_iff, isFinite_ofDecimal, decide_eq_true_eq]

end F64

end Orderbook
