import Orderbook.Proofs.FrameText
import Orderbook.Proofs.Spread

/-!
# The lengths of the depth bars

`level_cell` computes the length of a bar with a division, a product, a rounding and a clamp in
`f64`. The bars of a frame keep the order of the amounts, the largest amount has a full one, and
none is further from its share of the row than the rounding to a whole column allows.
-/

namespace Orderbook

namespace F64

/-! ## Errors within a bound -/

theorem units_whole (neg : Bool) {n : Nat} (small : n ≤ 2 ^ 53) :
    (ofRatio neg n 1).units = n * 2 ^ 1074 := by
  have same := magnitude_whole neg small
  have one : (2 ^ 1074 : Nat) ≠ 0 := by positivity
  rw [magnitude_eq, div_eq_iff (Nat.cast_ne_zero.mpr one), ← Nat.cast_mul] at same
  exact Nat.cast_injective same

/-- The error where the ratio is at most a power of two. -/
theorem magnitude_error_le (neg : Bool) {num den : Nat} (positive : den ≠ 0) {k : Int}
    (le : (num : ℚ) / den ≤ 2 ^ k) (high : k ≤ 100) (normal : -1022 ≤ k) :
    |(ofRatio neg num den).magnitude - num / den| ≤ 2 ^ (k - 53) := by
  by_cases zero : num = 0
  · rw [zero, magnitude_ofRatio_zero, Nat.cast_zero, zero_div, sub_self, abs_zero]
    positivity
  have below : (num : ℚ) / den < limit := by
    calc (num : ℚ) / den ≤ 2 ^ k := le
      _ ≤ 2 ^ (100 : Int) := zpow_le_zpow_right₀ (by norm_num) high
      _ < 2 ^ (1023 : Int) := zpow_lt_zpow_right₀ (by norm_num) (by norm_num)
      _ ≤ limit := limit_low
  have exponent : exponentOf num den ≤ k :=
    (zpow_le_zpow_iff_right₀ (by norm_num)).mp ((exponent_bounds zero positive).1.trans le)
  have ulp : ulpOf num den ≤ k - 52 := by
    rw [ulpOf]
    omega
  calc |(ofRatio neg num den).magnitude - num / den|
      ≤ 2 ^ ulpOf num den / 2 := magnitude_near neg zero positive below
    _ ≤ 2 ^ (k - 52) / 2 :=
        div_le_div_of_nonneg_right (zpow_le_zpow_right₀ (by norm_num) ulp) (by norm_num)
    _ = 2 ^ (k - 53) := by
        rw [show k - 52 = k - 53 + 1 by ring, zpow_add_one₀ (by norm_num), mul_div_cancel_right₀]
        norm_num

/-- Half a unit up and cut: the nearest whole number. -/
theorem div_near (units : Nat) {one : Nat} (positive : 0 < one) :
    |(((2 * units + one) / (2 * one) : Nat) : ℚ) - units / one| ≤ 1 / 2 := by
  have bottom : (0 : ℚ) < one := by exact_mod_cast positive
  have low := Nat.div_mul_le_self (2 * units + one) (2 * one)
  have high := Nat.lt_div_mul_add (a := 2 * units + one) (b := 2 * one) (by omega)
  generalize (2 * units + one) / (2 * one) = n at *
  have low' : (n * (2 * one) : ℚ) ≤ 2 * units + one := by exact_mod_cast low
  have high' : (2 * units + one : ℚ) < n * (2 * one) + 2 * one := by exact_mod_cast high
  have above : (units : ℚ) / one ≤ n + 1 / 2 := by
    rw [div_le_iff₀ bottom]
    linarith
  have below : (n : ℚ) - 1 / 2 ≤ units / one := by
    rw [le_div_iff₀ bottom]
    linarith
  exact abs_le.mpr ⟨by linarith, by linarith⟩

theorem two_pow_1075 : 2 ^ 1075 = 2 * 2 ^ 1074 := by rw [← pow_succ']

end F64

namespace Client

open F64

/-! ## Bars of amounts up to the largest -/

/-- The columns of a cell. -/
def columns : F64 := ofNat CELL_WIDTH

theorem columns_facts : columns.isFinite = true ∧ columns.sign = false ∧
    columns.units = 35 * 2 ^ 1074 := by
  decide +kernel

/-- What `level_cell` rounds: the columns times the share of the amount. -/
def stretch (amount maxAmount : Nat) : F64 :=
  ofRatio false ((ofRatio false amount maxAmount).units * columns.units) (2 ^ 2148)

variable {amount amount' maxAmount : Nat}

theorem stretch_ratio (amount maxAmount : Nat) :
    (((ofRatio false amount maxAmount).units * columns.units : Nat) : ℚ) / (2 ^ 2148 : Nat) =
      35 * (ofRatio false amount maxAmount).magnitude := by
  rw [product_ratio _ columns_facts.2.2, Nat.cast_ofNat, mul_comm]

theorem share_le (positive : maxAmount ≠ 0) (le : amount ≤ maxAmount) :
    (ofRatio false amount maxAmount).units ≤ 2 ^ 1074 := by
  have one : (ofRatio false 1 1).units = 1 * 2 ^ 1074 := units_whole false (by norm_num)
  rw [← one_mul (2 ^ 1074), ← one]
  apply units_ofRatio_mono positive one_ne_zero
  rw [div_le_div_iff₀ (by positivity) (by norm_num)]
  exact_mod_cast by omega

theorem stretch_mono (positive : maxAmount ≠ 0) (le : amount ≤ amount') :
    (stretch amount maxAmount).units ≤ (stretch amount' maxAmount).units := by
  have share :
      (ofRatio false amount maxAmount).units ≤ (ofRatio false amount' maxAmount).units := by
    apply units_ofRatio_mono positive positive
    have : (amount : ℚ) ≤ amount' := by exact_mod_cast le
    gcongr
  apply units_ofRatio_mono (by positivity) (by positivity)
  have : (((ofRatio false amount maxAmount).units * columns.units : Nat) : ℚ) ≤
      ((ofRatio false amount' maxAmount).units * columns.units : Nat) := by
    exact_mod_cast Nat.mul_le_mul_right _ share
  gcongr

theorem stretch_le (positive : maxAmount ≠ 0) (le : amount ≤ maxAmount) :
    (stretch amount maxAmount).units ≤ 35 * 2 ^ 1074 := by
  have all : (ofRatio false 35 1).units = 35 * 2 ^ 1074 := units_whole false (by norm_num)
  have share := share_le positive le
  rw [← all]
  apply units_ofRatio_mono (by positivity) one_ne_zero
  rw [stretch_ratio, magnitude_eq, Nat.cast_one, div_one]
  have bottom : (0 : ℚ) < (2 ^ 1074 : Nat) := by exact_mod_cast (by positivity : 0 < 2 ^ 1074)
  have most : ((ofRatio false amount maxAmount).units : ℚ) / (2 ^ 1074 : Nat) ≤ 1 := by
    rw [div_le_one bottom]
    exact_mod_cast share
  linarith

theorem stretch_self (positive : maxAmount ≠ 0) :
    (stretch maxAmount maxAmount).units = 35 * 2 ^ 1074 := by
  have top : (maxAmount : ℚ) ≠ 0 := by exact_mod_cast positive
  have share : (ofRatio false maxAmount maxAmount).magnitude = 1 := by
    have one : (ofRatio false 1 1).magnitude = (1 : Nat) := magnitude_whole false (by norm_num)
    rw [Nat.cast_one] at one
    rw [← one, ofRatio, ofRatio, magOfRatio_congr positive one_ne_zero]
    rw [div_self top, Nat.cast_one, div_one]
  have all : (ofRatio false 35 1).units = 35 * 2 ^ 1074 := units_whole false (by norm_num)
  have whole : (((ofRatio false maxAmount maxAmount).units * columns.units : Nat) : ℚ) /
      (2 ^ 2148 : Nat) = (35 : Nat) / (1 : Nat) := by
    rw [stretch_ratio, share]
    norm_num
  rw [← all]
  exact le_antisymm (units_ofRatio_mono (by positivity) one_ne_zero whole.le)
    (units_ofRatio_mono one_ne_zero (by positivity) whole.ge)

/-- Two roundings of the share move it by little. -/
theorem stretch_near (positive : maxAmount ≠ 0) (le : amount ≤ maxAmount) :
    |(stretch amount maxAmount).magnitude - 35 * (amount / maxAmount)| ≤ 2 ^ (-46 : Int) := by
  have bottom : (0 : ℚ) < maxAmount := by exact_mod_cast Nat.pos_of_ne_zero positive
  have within : (amount : ℚ) / maxAmount ≤ 1 := by
    rw [div_le_one bottom]
    exact_mod_cast le
  have first :
      |(ofRatio false amount maxAmount).magnitude - amount / maxAmount| ≤ 2 ^ (-53 : Int) :=
    magnitude_error_le false positive (k := 0) (by simpa using within) (by norm_num) (by norm_num)
  have share : (ofRatio false amount maxAmount).magnitude ≤ 1 := by
    have bottom : (0 : ℚ) < (2 ^ 1074 : Nat) := by exact_mod_cast (by positivity : 0 < 2 ^ 1074)
    rw [magnitude_eq, div_le_one bottom]
    exact_mod_cast share_le positive le
  have second : |(stretch amount maxAmount).magnitude -
      35 * (ofRatio false amount maxAmount).magnitude| ≤ 2 ^ (-47 : Int) := by
    rw [← stretch_ratio]
    apply magnitude_error_le false (by positivity) (k := 6) _ (by norm_num) (by norm_num)
    rw [stretch_ratio]
    norm_num
    linarith
  calc |(stretch amount maxAmount).magnitude - 35 * (amount / maxAmount)|
      ≤ |(stretch amount maxAmount).magnitude - 35 * (ofRatio false amount maxAmount).magnitude| +
          |35 * (ofRatio false amount maxAmount).magnitude - 35 * (amount / maxAmount)| :=
        abs_sub_le _ _ _
    _ ≤ 2 ^ (-47 : Int) + 35 * 2 ^ (-53 : Int) := by
        rw [← mul_sub, abs_mul, abs_of_nonneg (by norm_num : (0 : ℚ) ≤ 35)]
        gcongr
    _ ≤ 2 ^ (-46 : Int) := by norm_num

/-- The bar of an amount, from what is rounded. -/
def barLength (amount maxAmount : Nat) : Nat :=
  (2 * (stretch amount maxAmount).units + 2 ^ 1074) / 2 ^ 1075

theorem barLength_le (positive : maxAmount ≠ 0) (le : amount ≤ maxAmount) :
    barLength amount maxAmount ≤ CELL_WIDTH := by
  have stretched := stretch_le positive le
  rw [barLength, two_pow_1075]
  have some : (0 : Nat) < 2 ^ 1074 := by positivity
  generalize (2 ^ 1074 : Nat) = one at *
  rw [← Nat.lt_succ_iff, Nat.div_lt_iff_lt_mul (by omega), CELL_WIDTH]
  omega

theorem barLength_mono (positive : maxAmount ≠ 0) (le : amount ≤ amount') :
    barLength amount maxAmount ≤ barLength amount' maxAmount :=
  Nat.div_le_div_right (by have := stretch_mono positive le; omega)

theorem barLength_self (positive : maxAmount ≠ 0) : barLength maxAmount maxAmount = CELL_WIDTH := by
  rw [barLength, stretch_self positive, two_pow_1075]
  have some : (0 : Nat) < 2 ^ 1074 := by positivity
  generalize (2 ^ 1074 : Nat) = one at *
  rw [show 2 * (35 * one) + one = one + 35 * (2 * one) by ring,
    Nat.add_mul_div_right _ _ (by omega), Nat.div_eq_of_lt (by omega), CELL_WIDTH]

theorem barLength_zero (maxAmount : Nat) : barLength 0 maxAmount = 0 := by
  have nothing (num den : Nat) (zero : num = 0) : (ofRatio false num den).units = 0 := by
    rw [units_eq_zero_iff, mag_ofRatio, magOfRatio, if_pos zero]
  have share := nothing 0 maxAmount rfl
  have some : (0 : Nat) < 2 ^ 1074 := by positivity
  rw [barLength, stretch, nothing _ _ (by rw [share, Nat.zero_mul]), two_pow_1075]
  exact Nat.div_eq_of_lt (by omega)

theorem barLength_near (positive : maxAmount ≠ 0) (le : amount ≤ maxAmount) :
    |(barLength amount maxAmount : ℚ) - 35 * (amount / maxAmount)| ≤ 1 / 2 + 2 ^ (-46 : Int) := by
  have near := stretch_near positive le
  have half :
      |(barLength amount maxAmount : ℚ) - (stretch amount maxAmount).magnitude| ≤ 1 / 2 := by
    rw [barLength, magnitude_eq, two_pow_1075]
    exact div_near _ (by positivity)
  calc |(barLength amount maxAmount : ℚ) - 35 * (amount / maxAmount)|
      ≤ |(barLength amount maxAmount : ℚ) - (stretch amount maxAmount).magnitude| +
          |(stretch amount maxAmount).magnitude - 35 * (amount / maxAmount)| := abs_sub_le _ _ _
    _ ≤ 1 / 2 + 2 ^ (-46 : Int) := add_le_add half near

/-! ## The code's length -/

theorem clamp_whole {n : Nat} (within : n ≤ CELL_WIDTH) :
    ((ofRatio false n 1).clamp F64.zero columns).toUsize = n := by
  have low : (ofRatio false n 1).lt F64.zero = false := by
    have zero : F64.zero.key = 0 := by decide
    have key : ¬ (ofRatio false n 1).key < F64.zero.key := by
      rw [zero, key_ofRatio]
      simp
    rw [lt, decide_eq_false key, Bool.and_false]
  have high : columns.lt (ofRatio false n 1) = false := by
    have le : magOfRatio n 1 ≤ magOfRatio CELL_WIDTH 1 := by
      apply magOfRatio_mono one_ne_zero one_ne_zero
      rw [Nat.cast_one, div_one, div_one]
      exact_mod_cast within
    have key : ¬ columns.key < (ofRatio false n 1).key := by
      rw [columns, ofNat, key_ofRatio, key_ofRatio]
      simpa using le
    rw [lt, decide_eq_false key, Bool.and_false]
  have small : n ≤ 2 ^ 53 := within.trans (by decide)
  have one : 0 < 2 ^ 1074 := by positivity
  rw [clamp, low]
  simp only [Bool.false_eq_true, if_false, high]
  rw [toUsize, isNan_ofRatio, sign_ofRatio, isInfinite_of_isFinite (isFinite_whole false small),
    units_whole false small, Nat.mul_div_cancel _ one]
  exact min_eq_left (within.trans (by decide))

/-- Between zero and a largest amount that is a number. -/
theorem fillLenOf_eq {a m : F64} (finite : a.isFinite = true) (most : m.isFinite = true)
    (sign : a.sign = false) (positive : m.sign = false) (some : m.units ≠ 0)
    (le : a.units ≤ m.units) : fillLenOf a m = barLength a.units m.units := by
  have above : F64.zero.lt m = true := by
    have key : F64.zero.key < m.key := by
      have zero : F64.zero.key = 0 := by decide
      have mag : m.mag ≠ 0 := fun nothing => some (units_eq_zero_iff.mpr nothing)
      rw [zero, F64.key, positive]
      simp only [Bool.false_eq_true, if_false]
      omega
    rw [lt, isNan_of_isFinite most, decide_eq_true key]
    rfl
  have bottom : (0 : ℚ) < m.units := by exact_mod_cast Nat.pos_of_ne_zero some
  have share : (ofRatio false a.units m.units).isFinite = true := by
    apply isFinite_moderate false some
    have within : (a.units : ℚ) / m.units ≤ 1 := by
      rw [div_le_one bottom]
      exact_mod_cast le
    exact within.trans (by norm_num)
  have quotient : a.div m = ofRatio false a.units m.units := by
    rw [div_eq finite most some, sign, positive]
    rfl
  have product : (a.div m).mul columns = stretch a.units m.units := by
    rw [quotient, mul_eq share columns_facts.1, sign_ofRatio, columns_facts.2.1]
    rfl
  have stretched : (stretch a.units m.units).isFinite = true := by
    apply isFinite_moderate false (by positivity)
    have one : (0 : ℚ) < (2 ^ 1074 : Nat) := by exact_mod_cast (by positivity : 0 < 2 ^ 1074)
    have within : (ofRatio false a.units m.units).magnitude ≤ 1 := by
      rw [magnitude_eq, div_le_one one]
      exact_mod_cast share_le some le
    rw [stretch_ratio]
    have wide : (35 : ℚ) ≤ 2 ^ (100 : Int) := by norm_num
    linarith
  have rounded : ((a.div m).mul columns).round = ofRatio false (barLength a.units m.units) 1 := by
    rw [product, F64.round, if_pos stretched, stretch, sign_ofRatio]
    rfl
  rw [fillLenOf, if_pos above, ← columns, rounded, clamp_whole (barLength_le some le)]

/-- An amount without a bar: no number, or with a sign. -/
def Blank (x : F64) : Prop := x.isNan = true ∨ x.sign = true

theorem blank_nan : Blank F64.nan := Or.inl (by decide)

theorem Blank.div {a m : F64} (blank : Blank a) (positive : m.sign = false) : Blank (a.div m) := by
  rw [F64.div]
  rcases blank with number | sign
  · simp only [number, Bool.true_or, if_true]
    exact blank_nan
  · rw [sign, positive]
    simp only [Bool.bne_false]
    split_ifs
    · exact blank_nan
    · exact blank_nan
    · exact Or.inr (sign_ofSignMag _ _)
    · exact Or.inr (sign_ofSignMag _ _)
    · exact blank_nan
    · exact Or.inr (sign_ofSignMag _ _)
    · exact Or.inr (sign_ofRatio _ _ _)

theorem Blank.mul {a b : F64} (blank : Blank a) (positive : b.sign = false) : Blank (a.mul b) := by
  rw [F64.mul]
  rcases blank with number | sign
  · simp only [number, Bool.true_or, if_true]
    exact blank_nan
  · rw [sign, positive]
    simp only [Bool.bne_false]
    split_ifs
    · exact blank_nan
    · exact blank_nan
    · exact Or.inr (sign_ofSignMag _ _)
    · exact Or.inr (sign_ofRatio _ _ _)

theorem Blank.round {a : F64} (blank : Blank a) : Blank a.round := by
  rw [F64.round]
  split
  · rename_i finite
    rcases blank with number | sign
    · rw [isNan_of_isFinite finite] at number
      cases number
    · exact Or.inr (by rw [sign_ofRatio, sign])
  · exact blank

theorem Blank.toUsize_clamp {a : F64} (blank : Blank a) :
    (a.clamp F64.zero columns).toUsize = 0 := by
  have key : F64.zero.key = 0 ∧ 0 < columns.key ∧ columns.lt F64.zero = false ∧
      F64.zero.toUsize = 0 := by decide +kernel
  rw [clamp]
  cases low : a.lt F64.zero with
  | true =>
    simp only [if_true, key.2.2.1, Bool.false_eq_true, if_false]
    exact key.2.2.2
  | false =>
    have high : columns.lt a = false := by
      rcases blank with number | sign
      · rw [lt, number, Bool.not_true, Bool.and_false, Bool.false_and]
      · have negative : a.key ≤ 0 := by
          rw [F64.key, sign, if_pos rfl]
          omega
        have below : ¬ columns.key < a.key := by
          have := key.2.1
          omega
        rw [lt, decide_eq_false below, Bool.and_false]
    simp only [Bool.false_eq_true, if_false, high]
    rw [toUsize, if_pos]
    rcases blank with number | sign
    · rw [number, Bool.true_or]
    · rw [sign, Bool.or_true]

/-- Against a largest amount without a sign, such an amount has no bar. -/
theorem fillLenOf_blank {a m : F64} (blank : Blank a) (positive : m.sign = false) :
    fillLenOf a m = 0 := by
  rw [fillLenOf]
  split
  · exact ((blank.div positive).mul columns_facts.2.1).round.toUsize_clamp
  · rfl

/-- No amount has a bar where the largest is infinite. -/
theorem fillLenOf_infinite {a m : F64} (infinite : m.isInfinite = true)
    (positive : m.sign = false) : fillLenOf a m = 0 := by
  by_cases blank : Blank a
  · exact fillLenOf_blank blank positive
  · simp only [Blank, not_or, Bool.not_eq_true] at blank
    have number : m.isNan = false := by
      simp only [isInfinite, isNan, beq_iff_eq, decide_eq_false_iff_not] at infinite ⊢
      omega
    rw [fillLenOf]
    split
    · have nothing : ((((F64.ofSignMag false 0).mul columns).round).clamp F64.zero columns).toUsize
          = 0 := by decide +kernel
      rw [F64.div, blank.1, number, infinite, blank.2, positive]
      cases both : a.isInfinite with
      | true => exact (blank_nan.mul columns_facts.2.1).round.toUsize_clamp
      | false => exact nothing
    · rfl

/-! ## The largest amount -/

/-- The largest of the amounts that are numbers, if it is above zero. -/
structure Largest (amounts : List F64) (m : F64) : Prop where
  number : m.isNan = false
  sign : m.sign = false
  le : ∀ a ∈ amounts, a.isNan = false → a.key ≤ m.key
  among : m = F64.zero ∨ m ∈ amounts

theorem Largest.concat {amounts : List F64} {m : F64} (largest : Largest amounts m) (a : F64) :
    Largest (amounts ++ [a]) (m.maxNum a) := by
  obtain ⟨number, sign, le, among⟩ := largest
  have old : Largest (amounts ++ [a]) m ↔ (a.isNan = false → a.key ≤ m.key) := by
    constructor
    · exact fun largest => largest.le a (by simp)
    · intro last
      refine ⟨number, sign, fun b member => ?_, among.imp_right (List.mem_append_left _)⟩
      rcases List.mem_append.mp member with before | here
      · exact le b before
      · rw [List.mem_singleton.mp here]
        exact last
  rw [maxNum, number]
  simp only [Bool.false_eq_true, if_false]
  cases notNumber : a.isNan with
  | true => exact old.mpr fun isNumber => by rw [notNumber] at isNumber; cases isNumber
  | false =>
    cases more : m.lt a with
    | false =>
      simp only [Bool.false_eq_true, if_false]
      refine old.mpr fun _ => ?_
      simpa [lt, number, notNumber] using more
    | true =>
      simp only [if_true, Bool.false_eq_true, if_false]
      have above : m.key < a.key := by simpa [lt, number, notNumber] using more
      refine ⟨notNumber, ?_, fun b member isNumber => ?_, Or.inr (by simp)⟩
      · rw [F64.key, F64.key, sign] at above
        cases negative : a.sign with
        | false => rfl
        | true =>
          simp only [negative, if_true, Bool.false_eq_true, if_false] at above
          omega
      · rcases List.mem_append.mp member with before | here
        · exact (le b before isNumber).trans above.le
        · exact (congrArg F64.key (List.mem_singleton.mp here)).le

theorem largest_foldl (amounts : List F64) :
    Largest amounts (amounts.foldl F64.maxNum F64.zero) := by
  induction amounts using List.reverseRecOn with
  | nil => exact ⟨by decide, by decide, fun a member => absurd member List.not_mem_nil, Or.inl rfl⟩
  | append_singleton amounts a ih =>
    rw [List.foldl_concat]
    exact ih.concat a

/-! ## The bars of a frame -/

/-- The levels of a summary. -/
def levelsOf (summary : Summary) : List Level := summary.bids ++ summary.asks

/-- The length of a level's bar in its frame. -/
def barIn (summary : Summary) (level : Level) : Nat :=
  fillLenOf level.amount (maxAmountOf summary)

/-- What the bars of a frame tell of the amounts. -/
structure BarsTell (summary : Summary) : Prop where
  drawn : ∀ level ∈ levelsOf summary, ∀ side fillFrom,
    levelCell (some level) true (priceFg side) (barBg side) (maxAmountOf summary) fillFrom =
      some (shadedText side (barOf (barIn summary level) fillFrom) (cellText level))
  within : ∀ level ∈ levelsOf summary, barIn summary level ≤ CELL_WIDTH
  ordered : ∀ level ∈ levelsOf summary, ∀ level' ∈ levelsOf summary, level.amount.isNan = false →
    level'.amount.isNan = false → level.amount.key ≤ level'.amount.key →
      barIn summary level ≤ barIn summary level'
  near : (maxAmountOf summary).isFinite = true → ∀ level ∈ levelsOf summary,
    level.amount.isNan = false → level.amount.sign = false →
      |(barIn summary level : ℚ) - 35 * (level.amount.value / (maxAmountOf summary).value)| ≤
        1 / 2 + 2 ^ (-46 : Int)
  full : (maxAmountOf summary).isFinite = true → maxAmountOf summary ≠ F64.zero →
    ∃ level ∈ levelsOf summary, level.amount = maxAmountOf summary ∧
      barIn summary level = CELL_WIDTH
  blank : ∀ level ∈ levelsOf summary, Blank level.amount → barIn summary level = 0
  infinite : (maxAmountOf summary).isInfinite = true → ∀ level ∈ levelsOf summary,
    barIn summary level = 0

theorem largest_maxAmountOf (summary : Summary) :
    Largest ((levelsOf summary).map Level.amount) (maxAmountOf summary) := largest_foldl _

section Levels

variable {summary : Summary} {level level' : Level}

/-- The bar of an amount that is a number without a sign. -/
theorem barIn_eq (finite : (maxAmountOf summary).isFinite = true)
    (member : level ∈ levelsOf summary) (number : level.amount.isNan = false)
    (sign : level.amount.sign = false) :
    level.amount.isFinite = true ∧ level.amount.units ≤ (maxAmountOf summary).units ∧
      barIn summary level =
        if (maxAmountOf summary).units = 0 then 0
        else barLength level.amount.units (maxAmountOf summary).units := by
  have largest := largest_maxAmountOf summary
  have le := largest.le _ (List.mem_map_of_mem member) number
  have mag : level.amount.mag ≤ (maxAmountOf summary).mag := by
    rw [F64.key, F64.key, sign, largest.sign] at le
    simpa using le
  have units := units_mono mag
  have small : level.amount.isFinite = true := by
    simp only [F64.isFinite, decide_eq_true_eq] at finite ⊢
    exact mag.trans_lt finite
  refine ⟨small, units, ?_⟩
  split
  · rename_i nothing
    have zero : F64.zero.key = 0 := by decide
    have key : ¬ F64.zero.key < (maxAmountOf summary).key := by
      rw [zero, F64.key, units_eq_zero_iff.mp nothing]
      simp
    rw [barIn, fillLenOf, lt, decide_eq_false key, Bool.and_false]
    rfl
  · rename_i some
    exact fillLenOf_eq small finite sign largest.sign some units

/-- A level has no bar, or an amount with a share of the largest. -/
theorem barIn_cases (member : level ∈ levelsOf summary) :
    barIn summary level = 0 ∨
      (maxAmountOf summary).isFinite = true ∧ (maxAmountOf summary).units ≠ 0 ∧
        level.amount.isNan = false ∧ level.amount.sign = false := by
  have largest := largest_maxAmountOf summary
  by_cases blank : Blank level.amount
  · exact Or.inl (fillLenOf_blank blank largest.sign)
  simp only [Blank, not_or, Bool.not_eq_true] at blank
  by_cases finite : (maxAmountOf summary).isFinite = true
  · by_cases some : (maxAmountOf summary).units = 0
    · left
      rw [(barIn_eq finite member blank.1 blank.2).2.2, if_pos some]
    · exact Or.inr ⟨finite, some, blank⟩
  · left
    apply fillLenOf_infinite _ largest.sign
    have number := largest.number
    simp only [isNan, F64.isFinite, isInfinite, decide_eq_true_eq, decide_eq_false_iff_not,
      beq_iff_eq] at number finite ⊢
    omega

theorem barIn_le (member : level ∈ levelsOf summary) : barIn summary level ≤ CELL_WIDTH := by
  rcases barIn_cases member with none | ⟨finite, some, number, sign⟩
  · omega
  · obtain ⟨-, le, bar⟩ := barIn_eq finite member number sign
    rw [bar, if_neg some]
    exact barLength_le some le

theorem barIn_mono (member : level ∈ levelsOf summary) (member' : level' ∈ levelsOf summary)
    (number' : level'.amount.isNan = false) (le : level.amount.key ≤ level'.amount.key) :
    barIn summary level ≤ barIn summary level' := by
  rcases barIn_cases member with none | ⟨finite, some, number, sign⟩
  · omega
  · obtain ⟨-, -, bar⟩ := barIn_eq finite member number sign
    rw [F64.key, F64.key, sign] at le
    simp only [Bool.false_eq_true, if_false] at le
    rw [bar, if_neg some]
    cases sign' : level'.amount.sign with
    | false =>
      obtain ⟨-, -, bar'⟩ := barIn_eq finite member' number' sign'
      rw [sign'] at le
      rw [bar', if_neg some]
      exact barLength_mono some (units_mono (by simpa using le))
    | true =>
      -- the other amount is a zero with a sign, so this one is zero too
      rw [sign'] at le
      simp only [if_true] at le
      have nothing : level.amount.units = 0 := units_eq_zero_iff.mpr (by omega)
      rw [nothing, barLength_zero]
      exact Nat.zero_le _

theorem barIn_near (finite : (maxAmountOf summary).isFinite = true)
    (member : level ∈ levelsOf summary) (number : level.amount.isNan = false)
    (sign : level.amount.sign = false) :
    |(barIn summary level : ℚ) - 35 * (level.amount.value / (maxAmountOf summary).value)| ≤
      1 / 2 + 2 ^ (-46 : Int) := by
  obtain ⟨-, le, bar⟩ := barIn_eq finite member number sign
  have ratio : level.amount.value / (maxAmountOf summary).value =
      level.amount.units / (maxAmountOf summary).units := by
    have unit : (2 : ℚ) ^ (-1074 : Int) ≠ 0 := by positivity
    rw [value, value, sign, (largest_maxAmountOf summary).sign]
    simp only [Bool.false_eq_true, if_false]
    rw [magnitude, magnitude, mul_div_mul_right _ _ unit]
  rw [ratio, bar]
  split
  · rename_i nothing
    rw [nothing, Nat.cast_zero, div_zero, mul_zero, sub_self, abs_zero]
    positivity
  · rename_i some
    exact barLength_near some le

theorem exists_full (finite : (maxAmountOf summary).isFinite = true)
    (some : maxAmountOf summary ≠ F64.zero) :
    ∃ level ∈ levelsOf summary, level.amount = maxAmountOf summary ∧
      barIn summary level = CELL_WIDTH := by
  have largest := largest_maxAmountOf summary
  obtain ⟨level, member, same⟩ := List.mem_map.mp (largest.among.resolve_left some)
  have units : (maxAmountOf summary).units ≠ 0 := by
    intro nothing
    apply some
    apply eq_of_sign_mag
    · rw [largest.sign]
      decide
    · rw [units_eq_zero_iff.mp nothing]
      decide
  refine ⟨level, member, same, ?_⟩
  obtain ⟨-, -, bar⟩ := barIn_eq finite member (same ▸ largest.number) (same ▸ largest.sign)
  rw [bar, if_neg units, same, barLength_self units]

end Levels

/-- The bars of every frame: in the order of the amounts, full for the largest, and as near to the
share of the amount as whole columns allow. -/
theorem bars_tell (summary : Summary) : BarsTell summary where
  drawn level member side fillFrom := by
    have long : CELL_WIDTH ≤ (cellText level).length := by
      rw [length_cellText]
      exact le_cellWidth level
    have shaded := shadeCell_eq side long (barIn summary level) fillFrom
    rw [min_eq_left (barIn_le member)] at shaded
    exact shaded
  within _ member := barIn_le member
  ordered _ member _ member' _ number' le := barIn_mono member member' number' le
  near finite _ member number sign := barIn_near finite member number sign
  full finite some := exists_full finite some
  blank _ _ blank := fillLenOf_blank blank (largest_maxAmountOf summary).sign
  infinite infinite _ _ := fillLenOf_infinite infinite (largest_maxAmountOf summary).sign

end Client

end Orderbook
