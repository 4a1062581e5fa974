import Orderbook.Client
import Orderbook.Misc.Factors
import Orderbook.Proofs.GridBooks

/-!
# The basis points of an exact summary

`spread_line` divides the spread by the middle of the best prices in `f64`: a sum, two quotients and
a product, each rounded. Where the prices are ticks, what it shows is the exact figure to the
nearest tenth, up to what six roundings can move it.
-/

namespace Orderbook

open F64 Factors

namespace F64

/-! ## Roundings as factors -/

/-- The most that one rounding changes a value by. -/
def rounding : ℚ := (1 - 1 / 2 ^ 53)⁻¹

theorem rounding_facts : 1 ≤ rounding ∧ rounding ^ 6 ≤ 2 ∧ 20000 * (rounding ^ 6 - 1) ≤
    2 ^ (-35 : Int) := by
  unfold rounding
  norm_num

theorem rounding_nonneg : 0 ≤ rounding := zero_le_one.trans rounding_facts.1

theorem within_ticks (neg : Bool) {n : Nat} (small : n ≤ 2 ^ 52) :
    Within rounding 1 (ticks neg n).magnitude (n / 10 ^ 8) := by
  have near := ticks_near neg small
  apply within_of_error (by norm_num) (by positivity)
  have scale : (ticks neg n).magnitude - n / 10 ^ 8 =
      ((ticks neg n).magnitude * 10 ^ 8 - n) / 10 ^ 8 := by ring
  rw [scale, abs_div, abs_of_pos (by norm_num : (0 : ℚ) < 10 ^ 8), div_le_iff₀ (by norm_num)]
  linarith

/-- A factor of few roundings moves no value below half of it or above its double. -/
theorem moderate_of_within {k : Nat} {x y : ℚ} (within : Within rounding k x y) (few : k ≤ 6)
    (nonneg : 0 ≤ y) : y / 2 ≤ x ∧ x ≤ y * 2 := by
  have power : rounding ^ k ≤ 2 :=
    (pow_le_pow_right₀ rounding_facts.1 few).trans rounding_facts.2.1
  have high : x ≤ y * 2 := within.high.trans (mul_le_mul_of_nonneg_left power nonneg)
  have some : 0 ≤ x := by
    by_contra negative
    have positive : (0 : ℚ) < rounding ^ k := pow_pos (zero_lt_one.trans_le rounding_facts.1) k
    have := mul_neg_of_neg_of_pos (not_le.mp negative) positive
    have := within.low
    linarith
  have low : y ≤ x * 2 := within.low.trans (mul_le_mul_of_nonneg_left power some)
  exact ⟨by linarith, high⟩

/-- One more rounding, of a ratio near an exact value of moderate size. -/
theorem within_ofRatio (neg : Bool) {num den k : Nat} (positive : den ≠ 0) {x y : ℚ}
    (ratio : (num : ℚ) / den = x) (within : Within rounding k x y) (few : k ≤ 6)
    (low : y = 0 ∨ (2 : ℚ) ^ (-90 : Int) ≤ y) (high : y ≤ 2 ^ (90 : Int)) :
    (ofRatio neg num den).isFinite = true ∧
      Within rounding (k + 1) (ofRatio neg num den).magnitude y := by
  have nonneg : 0 ≤ y := low.elim (fun zero => zero.ge) fun some => le_trans (by positivity) some
  obtain ⟨half, double⟩ := moderate_of_within within few nonneg
  have below : (num : ℚ) / den ≤ 2 ^ (100 : Int) := by
    rw [ratio]
    refine double.trans (le_trans (mul_le_mul_of_nonneg_right high (by norm_num)) ?_)
    norm_num
  have above : (num : ℚ) / den = 0 ∨ (2 : ℚ) ^ (-100 : Int) ≤ num / den := by
    rw [ratio]
    refine low.imp (fun zero => ?_) fun some => ?_
    · rw [zero] at half double
      linarith
    · refine le_trans ?_ ((div_le_div_of_nonneg_right some (by norm_num)).trans half)
      norm_num
  have rounded : Within rounding 1 (ofRatio neg num den).magnitude (num / den) := by
    apply within_of_error (by norm_num) (by positivity)
    rw [mul_one_div]
    exact magnitude_ratio_near neg positive above below
  rw [ratio] at rounded
  rw [add_comm]
  exact ⟨isFinite_moderate neg positive below, rounded.trans rounding_nonneg within⟩

/-! ## The operations -/

theorem units_neg (x : F64) : x.neg.units = x.units := by
  have mag : x.neg.mag = x.mag := mag_ofSignMag _ (Nat.mod_lt _ (by positivity))
  rw [units, units, mag]

/-- The sum of two numbers that are not negative. -/
theorem add_eq {a b : F64} (finiteA : a.isFinite = true) (finiteB : b.isFinite = true)
    (signA : a.sign = false) (signB : b.sign = false) :
    a.add b = ofRatio false (a.units + b.units) (2 ^ 1074) := by
  have mag : b.neg.mag = b.mag := mag_ofSignMag _ (Nat.mod_lt _ (by positivity))
  have finite : b.neg.isFinite = true := by rwa [F64.isFinite, mag, ← F64.isFinite]
  have sign : b.neg.sign = true := by rw [F64.neg, sign_ofSignMag, signB, Bool.not_false]
  rw [add, sub, isNan_of_isFinite finiteA, isNan_of_isFinite finite,
    isInfinite_of_isFinite finiteA, isInfinite_of_isFinite finite, signedUnits, signedUnits, signA,
    sign, units_neg]
  simp only [Bool.or_self, Bool.false_eq_true, if_false, Bool.false_and, if_true]
  split
  · rename_i nothing
    have both : a.units + b.units = 0 := by omega
    rw [both, ofRatio, magOfRatio, if_pos rfl]
  · have positive : ¬ (a.units : Int) - -b.units < 0 := by omega
    have sum : ((a.units : Int) - -b.units).natAbs = a.units + b.units := by omega
    rw [decide_eq_false positive, sum]

/-! ## The middle and the quotient -/

section Middle

variable {b a d : Nat}

/-- The middle of two prices, as `spread_line` computes it. -/
def middle (b a : Nat) : F64 := ((ticks false b).add (ticks false a)).div (ofNat 2)

theorem two_facts : (ofNat 2).isFinite = true ∧ (ofNat 2).sign = false ∧
    (ofNat 2).units = 2 * 2 ^ 1074 := by
  decide +kernel

theorem tenThousand_facts : (ofNat 10000).isFinite = true ∧ (ofNat 10000).sign = false ∧
    (ofNat 10000).units = 10000 * 2 ^ 1074 := by
  decide +kernel

theorem middle_near (smallB : b ≤ 10 ^ 15) (smallA : a ≤ 10 ^ 15) (some : 0 < b + a) :
    (middle b a).isFinite = true ∧ (middle b a).sign = false ∧ (middle b a).units ≠ 0 ∧
      Within rounding 3 (middle b a).magnitude ((b + a) / 10 ^ 8 / 2) := by
  have gridB : b ≤ 2 ^ 52 := smallB.trans (by norm_num)
  have gridA : a ≤ 2 ^ 52 := smallA.trans (by norm_num)
  have one : (2 ^ 1074 : Nat) ≠ 0 := by positivity
  have least : (1 : ℚ) ≤ b + a := by exact_mod_cast some
  have most : (b + a : ℚ) ≤ 2 * 10 ^ 15 := by exact_mod_cast (by omega : b + a ≤ 2 * 10 ^ 15)
  obtain ⟨finiteTwo, signTwo, unitsTwo⟩ := two_facts
  -- the sum
  have sum := add_eq (isFinite_ticks false gridB) (isFinite_ticks false gridA)
    (sign_ofRatio _ _ _) (sign_ofRatio _ _ _)
  have ratio : (((ticks false b).units + (ticks false a).units : Nat) : ℚ) / (2 ^ 1074 : Nat) =
      (ticks false b).magnitude + (ticks false a).magnitude := by
    rw [magnitude_eq, magnitude_eq, Nat.cast_add, add_div]
  have prices : Within rounding 1 ((ticks false b).magnitude + (ticks false a).magnitude)
      ((b + a) / 10 ^ 8) := by
    rw [add_div]
    exact (within_ticks false gridB).add (within_ticks false gridA)
  have lowSum : (2 : ℚ) ^ (-90 : Int) ≤ (b + a) / 10 ^ 8 := by
    rw [le_div_iff₀ (by norm_num)]
    exact le_trans (by norm_num) least
  have highSum : ((b + a) / 10 ^ 8 : ℚ) ≤ 2 ^ (90 : Int) := by
    rw [div_le_iff₀ (by norm_num)]
    exact most.trans (by norm_num)
  have rounded := within_ofRatio false one ratio prices (by norm_num) (Or.inr lowSum) highSum
  rw [← sum] at rounded
  obtain ⟨finite, summed⟩ := rounded
  -- its half
  have two : (ofNat 2).units ≠ 0 := by
    rw [unitsTwo]
    positivity
  have half : (((ticks false b).add (ticks false a)).units : ℚ) / (ofNat 2).units =
      ((ticks false b).add (ticks false a)).magnitude * (1 / 2) := by
    rw [unitsTwo, magnitude_eq]
    generalize (2 ^ 1074 : Nat) = unit
    rw [Nat.cast_mul, Nat.cast_ofNat]
    ring
  have halved := summed.mul_right (by norm_num : (0 : ℚ) ≤ 1 / 2)
  have lowHalf : (2 : ℚ) ^ (-90 : Int) ≤ (b + a) / 10 ^ 8 * (1 / 2) := by
    refine le_trans ?_ (mul_le_mul_of_nonneg_right (div_le_div_of_nonneg_right least
      (by norm_num)) (by norm_num))
    norm_num
  have quotient : middle b a = ofRatio false ((ticks false b).add (ticks false a)).units
      (ofNat 2).units := by
    rw [middle, div_eq finite finiteTwo two, signTwo, sum, sign_ofRatio]
    rfl
  obtain ⟨finiteMiddle, near⟩ := within_ofRatio false two half halved (by norm_num)
    (Or.inr lowHalf) (by linarith)
  rw [← quotient] at finiteMiddle near
  rw [mul_one_div] at near lowHalf
  refine ⟨finiteMiddle, by rw [quotient, sign_ofRatio], fun nothing => ?_, near⟩
  have some : (0 : ℚ) < 2 ^ (-90 : Int) := by positivity
  have positive := (moderate_of_within near (by norm_num) (some.le.trans lowHalf)).1
  rw [magnitude, nothing, Nat.cast_zero, zero_mul] at positive
  linarith

/-- The share of a difference in the middle of its prices. -/
theorem share_bounds (smallB : b ≤ 10 ^ 15) (smallA : a ≤ 10 ^ 15) (some : 0 < b + a)
    (le : d ≤ b + a) :
    ((d : ℚ) / 10 ^ 8 / ((b + a) / 10 ^ 8 / 2) = 0 ∨
      (2 : ℚ) ^ (-60 : Int) ≤ d / 10 ^ 8 / ((b + a) / 10 ^ 8 / 2)) ∧
    (d : ℚ) / 10 ^ 8 / ((b + a) / 10 ^ 8 / 2) = 2 * (d / (b + a)) ∧
    (d : ℚ) / 10 ^ 8 / ((b + a) / 10 ^ 8 / 2) ≤ 2 := by
  have least : (1 : ℚ) ≤ b + a := by exact_mod_cast some
  have most : (b + a : ℚ) ≤ 2 * 10 ^ 15 := by exact_mod_cast (by omega : b + a ≤ 2 * 10 ^ 15)
  have within : (d : ℚ) ≤ b + a := by exact_mod_cast le
  have bottom : (0 : ℚ) < b + a := by linarith
  have same : (d : ℚ) / 10 ^ 8 / ((b + a) / 10 ^ 8 / 2) = 2 * (d / (b + a)) := by
    field_simp
  refine ⟨?_, same, ?_⟩
  · rw [same]
    rcases Nat.eq_zero_or_pos d with rfl | positive
    · left
      rw [Nat.cast_zero, zero_div, mul_zero]
    · right
      have one : (1 : ℚ) ≤ d := by exact_mod_cast positive
      rw [← mul_div_assoc, le_div_iff₀ bottom]
      calc (2 : ℚ) ^ (-60 : Int) * (b + a) ≤ 2 ^ (-60 : Int) * (2 * 10 ^ 15) := by gcongr
        _ ≤ 2 * d := le_trans (by norm_num) (mul_le_mul_of_nonneg_left one (by norm_num))
  · rw [same, ← mul_div_assoc, div_le_iff₀ bottom]
    linarith

/-- The basis points before they are written. -/
theorem points_near (neg : Bool) (smallB : b ≤ 10 ^ 15) (smallA : a ≤ 10 ^ 15) (some : 0 < b + a)
    (le : d ≤ b + a) :
    (((ticks neg d).div (middle b a)).mul (ofNat 10000)).isFinite = true ∧
      (((ticks neg d).div (middle b a)).mul (ofNat 10000)).sign = neg ∧
      |(((ticks neg d).div (middle b a)).mul (ofNat 10000)).magnitude - 20000 * (d / (b + a))| ≤
        2 ^ (-35 : Int) := by
  have small : d ≤ 2 ^ 52 := by omega
  obtain ⟨finite, sign, units, near⟩ := middle_near smallB smallA some
  obtain ⟨low, share, high⟩ := share_bounds smallB smallA some le
  have least : (1 : ℚ) ≤ b + a := by exact_mod_cast some
  have bottom : (0 : ℚ) < (b + a) / 10 ^ 8 / 2 := by positivity
  have above : 0 < (middle b a).magnitude := by
    have := (moderate_of_within near (by norm_num) bottom.le).1
    linarith
  have figure : (d : ℚ) / 10 ^ 8 / ((b + a) / 10 ^ 8 / 2) * 10000 = 20000 * (d / (b + a)) := by
    rw [share]
    ring
  have nonneg : (0 : ℚ) ≤ d / 10 ^ 8 / ((b + a) / 10 ^ 8 / 2) * 10000 := by positivity
  have most : 20000 * ((d : ℚ) / (b + a)) ≤ 20000 := by
    rw [← figure]
    linarith
  -- the quotient
  have ratio : ((ticks neg d).units : ℚ) / (middle b a).units =
      (ticks neg d).magnitude / (middle b a).magnitude := by
    have unit : (2 : ℚ) ^ (-1074 : Int) ≠ 0 := by positivity
    rw [magnitude, magnitude, mul_div_mul_right _ _ unit]
  have exact := (within_ticks neg small).div rounding_nonneg near (magnitude_nonneg _)
    (by positivity) above bottom
  have quotient : (ticks neg d).div (middle b a) =
      ofRatio neg (ticks neg d).units (middle b a).units := by
    rw [div_eq (isFinite_ticks neg small) finite units, sign, ticks, sign_ofRatio, Bool.bne_false]
  have divided := within_ofRatio neg units ratio exact (by norm_num)
    (low.imp_right fun some => le_trans (by norm_num) some) (high.trans (by norm_num))
  rw [← quotient] at divided
  -- the product
  have scaled : ((((ticks neg d).div (middle b a)).units * (ofNat 10000).units : Nat) : ℚ) /
      (2 ^ 2148 : Nat) = ((ticks neg d).div (middle b a)).magnitude * 10000 := by
    rw [product_ratio _ tenThousand_facts.2.2, Nat.cast_ofNat]
  have product := mul_eq divided.1 tenThousand_facts.1
  rw [quotient, sign_ofRatio, tenThousand_facts.2.1, Bool.bne_false, ← quotient] at product
  obtain ⟨finiteProduct, rounded⟩ := within_ofRatio neg (by positivity : 2 ^ 2148 ≠ 0) scaled
    (divided.2.mul_right (by norm_num : (0 : ℚ) ≤ 10000)) (by norm_num)
    (low.imp (fun nothing => by rw [nothing, zero_mul]) fun some =>
      le_trans (by norm_num) (mul_le_mul_of_nonneg_right some (by norm_num)))
    ((mul_le_mul_of_nonneg_right high (by norm_num)).trans (by norm_num))
  rw [← product] at finiteProduct rounded
  refine ⟨finiteProduct, by rw [product, sign_ofRatio], ?_⟩
  have error := rounded.abs_sub_le nonneg rounding_facts.1
  rw [figure] at error
  refine error.trans (le_trans ?_ rounding_facts.2.2)
  exact mul_le_mul_of_nonneg_right most (sub_nonneg.mpr (one_le_pow₀ rounding_facts.1))

end Middle

/-- A number written with one decimal. -/
theorem fixed_one_near {x : F64} (finite : x.isFinite = true) :
    ∃ n : Nat, Fmt.fixed 1 x = (if x.sign then ['-'] else []) ++ Fmt.decimal 1 n ∧
      |(n : ℚ) / 10 - x.magnitude| ≤ 1 / 20 := by
  have one : 0 < 2 ^ 1074 := by positivity
  obtain ⟨low, high, -⟩ := roundHalfEven_near (x.units * 10 ^ 1) one
  have ratio : ((x.units * 10 ^ 1 : Nat) : ℚ) / (2 ^ 1074 : Nat) = x.magnitude * 10 := by
    rw [magnitude_eq, Nat.cast_mul, pow_one, Nat.cast_ofNat]
    ring
  rw [ratio] at low high
  refine ⟨roundHalfEven (x.units * 10 ^ 1) (2 ^ 1074), ?_, abs_le.mpr ⟨by linarith, by linarith⟩⟩
  rw [Fmt.fixed, isNan_of_isFinite finite, isInfinite_of_isFinite finite,
    if_neg Bool.false_ne_true, if_neg Bool.false_ne_true]

end F64

/-- The best prices of both sides in ticks. -/
def GridSummary.bidPrice (summary : GridSummary) : Nat :=
  (summary.bids.head summary.someBid).2.price

def GridSummary.askPrice (summary : GridSummary) : Nat :=
  (summary.asks.head summary.someAsk).2.price

/-- The text gives the spread in basis points of the middle of the best prices, to the nearest tenth
up to `2 ^ -35`. -/
def GivesPoints (summary : GridSummary) (text : Text) : Prop :=
  if summary.bidPrice + summary.askPrice = 0 then text = "n/a".toList
  else
    ∃ n : Nat, text = (if summary.spread < 0 then ['-'] else []) ++ Fmt.decimal 1 n ++
        " bps".toList ∧
      |(n : ℚ) / 10 - 20000 * (summary.spread.natAbs / (summary.bidPrice + summary.askPrice))| ≤
        1 / 20 + 2 ^ (-35 : Int)

theorem givesPoints_bpsText (summary : GridSummary) :
    GivesPoints summary (Client.bpsText summary.rounded) := by
  have bid : summary.rounded.bids.head? =
      some (publishedLevel (summary.bids.head summary.someBid)) := by
    rw [GridSummary.rounded, List.head?_map, List.head?_eq_some_head summary.someBid]
    rfl
  have ask : summary.rounded.asks.head? =
      some (publishedLevel (summary.asks.head summary.someAsk)) := by
    rw [GridSummary.rounded, List.head?_map, List.head?_eq_some_head summary.someAsk]
    rfl
  have text : Client.bpsText summary.rounded =
      if (middle summary.bidPrice summary.askPrice).beq F64.zero then "n/a".toList
      else Fmt.fixed 1 (((ticks (decide (summary.spread < 0)) summary.spread.natAbs).div
        (middle summary.bidPrice summary.askPrice)).mul (ofNat 10000)) ++ " bps".toList := by
    rw [Client.bpsText, bid, ask]
    rfl
  have spread : summary.spread = (summary.askPrice : Int) - summary.bidPrice := rfl
  have smallB : summary.bidPrice ≤ 10 ^ 15 := (summary.bids.head summary.someBid).2.price_le
  have smallA : summary.askPrice ≤ 10 ^ 15 := (summary.asks.head summary.someAsk).2.price_le
  rw [GivesPoints, text]
  split
  · rename_i nothing
    have none : (middle 0 0).beq F64.zero = true := by decide +kernel
    have both : summary.bidPrice = 0 ∧ summary.askPrice = 0 := by omega
    rw [both.1, both.2, if_pos none]
  · rename_i some
    have positive : 0 < summary.bidPrice + summary.askPrice := by omega
    have apart : (middle summary.bidPrice summary.askPrice).beq F64.zero = false := by
      obtain ⟨finite, sign, units, -⟩ := middle_near smallB smallA positive
      have number := isNan_of_isFinite finite
      rw [← Bool.not_eq_true, beq_iff_key number (by decide), F64.key, sign]
      have zero : F64.zero.key = 0 := by decide
      have mag : (middle summary.bidPrice summary.askPrice).mag ≠ 0 :=
        fun nothing => units (units_eq_zero_iff.mpr nothing)
      simpa [zero] using mag
    obtain ⟨finite, sign, near⟩ := points_near (decide (summary.spread < 0)) smallB smallA positive
      (by omega : summary.spread.natAbs ≤ summary.bidPrice + summary.askPrice)
    obtain ⟨n, written, rounded⟩ := fixed_one_near finite
    refine ⟨n, ?_, (abs_sub_le _ _ _).trans (add_le_add rounded near)⟩
    rw [apart, written, sign, if_neg Bool.false_ne_true]
    simp only [decide_eq_true_eq]

end Orderbook
