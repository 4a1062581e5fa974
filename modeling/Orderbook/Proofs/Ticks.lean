import Mathlib.Data.List.TakeWhile
import Orderbook.Misc.Decimal
import Orderbook.Proofs.Decimals

/-!
# Prices on the grid of the tick

The exchanges quote with at most 8 decimals, so their prices and amounts are whole numbers of
`10 ^ -8`. Below `2 ^ 52` of these the patterns keep the numbers apart, in order, and show them as
they are.
-/

namespace Orderbook

namespace F64

/-! ## Relative errors -/

/-- Far from overflow and from the subnormals. -/
theorem magnitude_moderate (neg : Bool) {num den : Nat} (positive : den ≠ 0)
    (low : (2 : ℚ) ^ (-100 : Int) ≤ num / den) (high : (num : ℚ) / den ≤ 2 ^ (100 : Int)) :
    |(ofRatio neg num den).magnitude - num / den| ≤ num / den / 2 ^ 53 := by
  apply magnitude_relative neg positive
  · calc (num : ℚ) / den ≤ 2 ^ (100 : Int) := high
      _ < 2 ^ (1023 : Int) := zpow_lt_zpow_right₀ (by norm_num) (by norm_num)
      _ ≤ limit := limit_low
  · exact (zpow_le_zpow_right₀ (by norm_num) (by norm_num)).trans low

theorem isFinite_moderate (neg : Bool) {num den : Nat} (positive : den ≠ 0)
    (high : (num : ℚ) / den ≤ 2 ^ (100 : Int)) : (ofRatio neg num den).isFinite = true := by
  rw [isFinite_ofRatio neg positive]
  calc (num : ℚ) / den ≤ 2 ^ (100 : Int) := high
    _ < 2 ^ (1023 : Int) := zpow_lt_zpow_right₀ (by norm_num) (by norm_num)
    _ ≤ limit := limit_low

/-! ## Ticks -/

/-- So many ticks of `10 ^ -8`, rounded. -/
def ticks (neg : Bool) (n : Nat) : F64 := ofRatio neg n (10 ^ 8)

theorem ticks_high {n : Nat} (small : n ≤ 2 ^ 52) : (n : ℚ) / (10 ^ 8 : Nat) ≤ 2 ^ (100 : Int) := by
  have cast : (n : ℚ) ≤ 2 ^ 52 := by exact_mod_cast small
  rw [div_le_iff₀ (by norm_num)]
  refine cast.trans ?_
  norm_num

theorem ticks_near (neg : Bool) {n : Nat} (small : n ≤ 2 ^ 52) :
    |(ticks neg n).magnitude * 10 ^ 8 - n| ≤ (n : ℚ) / 2 ^ 53 := by
  rcases Nat.eq_zero_or_pos n with rfl | some
  · rw [ticks, magnitude_ofRatio_zero]
    norm_num
  · have one : (1 : ℚ) ≤ n := by exact_mod_cast some
    have low : (2 : ℚ) ^ (-100 : Int) ≤ n / (10 ^ 8 : Nat) := by
      rw [le_div_iff₀ (by norm_num)]
      refine le_trans ?_ one
      norm_num
    have near := magnitude_moderate neg (by norm_num) low (ticks_high small)
    rw [← ticks] at near
    have scale : (ticks neg n).magnitude * 10 ^ 8 - n =
        ((ticks neg n).magnitude - n / (10 ^ 8 : Nat)) * 10 ^ 8 := by
      push_cast
      ring
    rw [scale, abs_mul, abs_of_pos (by norm_num : (0 : ℚ) < 10 ^ 8)]
    calc |(ticks neg n).magnitude - (n : ℚ) / (10 ^ 8 : Nat)| * (10 ^ 8 : ℚ)
        ≤ (n : ℚ) / (10 ^ 8 : Nat) / 2 ^ 53 * 10 ^ 8 := by gcongr
      _ = (n : ℚ) / 2 ^ 53 := by
        push_cast
        ring

/-- Neighbouring numbers of ticks are further apart than their patterns are from them. -/
theorem magOfRatio_ticks_lt {m n : Nat} (less : m < n) (small : n ≤ 2 ^ 52) :
    magOfRatio m (10 ^ 8) < magOfRatio n (10 ^ 8) := by
  have order : (m : ℚ) / (10 ^ 8 : Nat) ≤ n / (10 ^ 8 : Nat) := by gcongr
  refine lt_of_le_of_ne (magOfRatio_mono (by norm_num) (by norm_num) order) fun same => ?_
  have equal : ticks false m = ticks false n := by rw [ticks, ofRatio, same, ticks, ofRatio]
  have near := ticks_near false (n := m) (by omega)
  have near' := ticks_near false small
  have next : (m : ℚ) + 1 ≤ n := by exact_mod_cast less
  have top : (n : ℚ) ≤ 2 ^ 52 := by exact_mod_cast small
  rw [equal] at near
  rw [abs_le] at near near'
  have width : (m : ℚ) / 2 ^ 53 + n / 2 ^ 53 < 1 := by
    rw [← add_div, div_lt_one (by positivity)]
    linarith
  linarith

/-- The order of the patterns is the order of the numbers. -/
theorem totalCmp_ticks {m n : Nat} (smallM : m ≤ 2 ^ 52) (smallN : n ≤ 2 ^ 52) :
    (ticks false m).totalCmp (ticks false n) = compare m n := by
  have key : ∀ k, (ticks false k).totalKey = magOfRatio k (10 ^ 8) :=
    fun k => totalKey_ofRatio _ _ _
  rw [totalCmp, key, key]
  rcases Nat.lt_trichotomy m n with less | rfl | greater
  · have := magOfRatio_ticks_lt less smallN
    rw [compare_lt_iff_lt.mpr less, compare_lt_iff_lt]
    exact_mod_cast this
  · rw [compare_eq_iff_eq.mpr rfl, compare_eq_iff_eq.mpr rfl]
  · have := magOfRatio_ticks_lt greater smallM
    rw [compare_gt_iff_gt.mpr greater, compare_gt_iff_gt]
    exact_mod_cast this

/-- `==` tells different numbers of ticks apart. -/
theorem beq_ticks {m n : Nat} (smallM : m ≤ 2 ^ 52) (smallN : n ≤ 2 ^ 52) :
    (ticks false m).beq (ticks false n) = decide (m = n) := by
  have key : ∀ k, (ticks false k).key = magOfRatio k (10 ^ 8) := fun k => key_ofRatio _ _ _
  have number : ∀ k, (ticks false k).isNan = false := fun k => isNan_ofRatio _ _ _
  rw [Bool.eq_iff_iff, decide_eq_true_eq, beq_iff_key (number m) (number n), key, key]
  constructor
  · intro same
    rcases Nat.lt_trichotomy m n with less | equal | greater
    · have := magOfRatio_ticks_lt less smallN
      omega
    · exact equal
    · have := magOfRatio_ticks_lt greater smallM
      omega
  · rintro rfl
    rfl

/-! ## Shown and read again -/

/-- A quotient nearer than a half to a number is rounded to it. -/
theorem roundHalfEven_of_near {a b n : Nat} (positive : 0 < b)
    (near : |(a : ℚ) / b - n| < 1 / 2) : roundHalfEven a b = n := by
  obtain ⟨low, high, -⟩ := roundHalfEven_near a positive
  rw [abs_lt] at near
  have above : (roundHalfEven a b : ℚ) < n + 1 := by linarith
  have below : (n : ℚ) < roundHalfEven a b + 1 := by linarith
  have above' : roundHalfEven a b < n + 1 := by exact_mod_cast above
  have below' : n < roundHalfEven a b + 1 := by exact_mod_cast below
  omega

theorem two_zpow_neg (k : Nat) : (2 : ℚ) ^ (-(k : Int)) = ((2 ^ k : Nat) : ℚ)⁻¹ := by
  rw [zpow_neg, zpow_natCast, Nat.cast_pow, Nat.cast_ofNat]

theorem isFinite_ticks (neg : Bool) {n : Nat} (small : n ≤ 2 ^ 52) :
    (ticks neg n).isFinite = true := isFinite_moderate neg (by norm_num) (ticks_high small)

theorem isInfinite_of_isFinite {x : F64} (finite : x.isFinite = true) : x.isInfinite = false := by
  simp only [isFinite, isInfinite, decide_eq_true_eq, beq_eq_false_iff_ne] at finite ⊢
  omega

/-- The decimal text of so many ticks. -/
def tickText (neg : Bool) (n : Nat) : Text := (if neg then ['-'] else []) ++ Fmt.decimal 8 n

theorem fixed_ticks (neg : Bool) {n : Nat} (small : n ≤ 2 ^ 52) :
    Fmt.fixed 8 (ticks neg n) = tickText neg n := by
  -- at the bound itself the error is allowed to reach the half that decides the last digit
  rcases small.eq_or_lt with rfl | small
  · cases neg <;> decide +kernel
  have finite := isFinite_ticks neg small.le
  have near := ticks_near neg small.le
  have top : (n : ℚ) < 2 ^ 52 := by exact_mod_cast small
  have units : (((ticks neg n).units * 10 ^ 8 : Nat) : ℚ) / (2 ^ 1074 : Nat) =
      (ticks neg n).magnitude * 10 ^ 8 := by
    have scale : (2 : ℚ) ^ (-1074 : Int) = ((2 ^ 1074 : Nat) : ℚ)⁻¹ := two_zpow_neg 1074
    rw [magnitude, scale, Nat.cast_mul, Nat.cast_pow, Nat.cast_ofNat, div_eq_mul_inv,
      mul_right_comm]
  have half : (n : ℚ) / 2 ^ 53 < 1 / 2 := by
    rw [div_lt_iff₀ (by positivity)]
    linarith
  have rounded : roundHalfEven ((ticks neg n).units * 10 ^ 8) (2 ^ 1074) = n :=
    roundHalfEven_of_near (by positivity) (units ▸ near.trans_lt half)
  rw [Fmt.fixed, isInfinite_of_isFinite finite, rounded, ticks, isNan_ofRatio, sign_ofRatio,
    if_neg Bool.false_ne_true, if_neg Bool.false_ne_true, tickText]

/-! ## Texts of ticks -/

theorem ticks_congr (neg : Bool) {num den n : Nat} (positive : den ≠ 0)
    (same : (num : ℚ) / den = n / 10 ^ 8) : ofRatio neg num den = ticks neg n := by
  have ratio : (num : ℚ) / den = n / (10 ^ 8 : Nat) := by
    rw [same]
    push_cast
    rfl
  rw [ticks, ofRatio, ofRatio, magOfRatio_congr positive (by norm_num) ratio]

/-- The text writes so many ticks, with this sign and with no digit that is passed over. -/
def WritesTicks (s : Text) (neg : Bool) (n : Nat) : Prop :=
  (splitSign s).1 = neg ∧ ShortExponent s ∧ literal s = some (signed neg (n / 10 ^ 8))

instance (s : Text) (neg : Bool) (n : Nat) : Decidable (WritesTicks s neg n) :=
  inferInstanceAs (Decidable (_ ∧ _ ∧ _))

theorem parse_of_writesTicks {s : Text} {neg : Bool} {n : Nat} (writes : WritesTicks s neg n) :
    parse s = some (ticks neg n) := by
  obtain ⟨rfl, short, literal⟩ := writes
  obtain ⟨num, den, positive, number, parsed⟩ := exists_parse literal short
  have same : (num : ℚ) / den = n / 10 ^ 8 := by
    revert number
    cases (splitSign s).1 with
    | false => exact Eq.symm
    | true => exact fun number => (neg_inj.mp number).symm
  rw [parsed, ticks_congr _ positive same]

theorem digitsValue_eq (ds : Text) : digitsValue ds = Nat.ofDigitChars 10 ds 0 := rfl

theorem splitFraction_point {whole fraction : Text} (digits : ∀ c ∈ whole, c.isDigit = true)
    (digits' : ∀ c ∈ fraction, c.isDigit = true) :
    splitFraction ((whole ++ '.' :: fraction).dropWhile Char.isDigit) = (fraction, []) := by
  have rest : (whole ++ '.' :: fraction).dropWhile Char.isDigit = '.' :: fraction := by
    rw [List.dropWhile_append_of_pos digits]
    rfl
  rw [rest, splitFraction, List.takeWhile_eq_self_iff.mpr digits',
    List.dropWhile_eq_nil_iff.mpr digits']

/-- Digits, a dot and digits. -/
theorem parseDecimal_point {whole fraction : Text} (nonempty : whole ≠ [])
    (digits : ∀ c ∈ whole, c.isDigit = true) (digits' : ∀ c ∈ fraction, c.isDigit = true) :
    parseDecimal (whole ++ '.' :: fraction) =
      some (digitsValue (whole ++ fraction), -(fraction.length : Int)) := by
  have before : (whole ++ '.' :: fraction).takeWhile Char.isDigit = whole := by
    rw [List.takeWhile_append_of_pos digits]
    exact List.append_nil whole
  have kept : whole.isEmpty = false := List.isEmpty_eq_false_iff.mpr nonempty
  simp only [parseDecimal, before, splitFraction_point digits digits', kept, Bool.false_and,
    Bool.false_eq_true, if_false, parseScale, Option.map_some, zero_sub]

theorem splitSign_of_isDigit {c : Char} {s : Text} (digit : c.isDigit = true) :
    splitSign (c :: s) = (false, c :: s) := by
  unfold splitSign
  split
  · rename_i same
    cases same
    cases digit
  · rename_i same
    cases same
    cases digit
  · rfl

theorem splitSign_tickText (neg : Bool) (n : Nat) :
    splitSign (tickText neg n) = (neg, Fmt.decimal 8 n) := by
  cases neg with
  | true => rfl
  | false =>
    have digits : ∀ c ∈ Fmt.nat (n / 10 ^ 8), c.isDigit = true := fun c => Fmt.isDigit_of_mem_nat
    show splitSign (Fmt.nat (n / 10 ^ 8) ++ ['.'] ++ Fmt.zeroPadded 8 (n % 10 ^ 8)) = _
    rw [Fmt.decimal, if_neg (by omega)]
    cases whole : Fmt.nat (n / 10 ^ 8) with
    | nil => exact absurd whole (Fmt.nat_ne_nil _)
    | cons c rest =>
      rw [whole] at digits
      exact splitSign_of_isDigit (digits c List.mem_cons_self)

/-- The text of so many ticks writes them. -/
theorem writesTicks_tickText (neg : Bool) (n : Nat) : WritesTicks (tickText neg n) neg n := by
  have length : (Fmt.zeroPadded 8 (n % 10 ^ 8)).length = 8 :=
    Fmt.length_zeroPadded (by omega) (Nat.mod_lt _ (by norm_num))
  have fraction : Nat.ofDigitChars 10 (Fmt.zeroPadded 8 (n % 10 ^ 8)) 0 = n % 10 ^ 8 :=
    Decimal.ofDigitChars_padded _ _
  have value : digitsValue (Fmt.nat (n / 10 ^ 8) ++ Fmt.zeroPadded 8 (n % 10 ^ 8)) = n := by
    rw [digitsValue_eq, Nat.ofDigitChars_append, Nat.ofDigitChars_eq_ofDigitChars_zero, length,
      fraction, Fmt.nat, Nat.ofDigitChars_ten_toDigits]
    exact Nat.div_add_mod n (10 ^ 8)
  have shape : Fmt.decimal 8 n =
      Fmt.nat (n / 10 ^ 8) ++ '.' :: Fmt.zeroPadded 8 (n % 10 ^ 8) := by
    rw [Fmt.decimal, if_neg (by omega), List.append_assoc, List.singleton_append]
  have whole : ∀ c ∈ Fmt.nat (n / 10 ^ 8), c.isDigit = true := fun c => Fmt.isDigit_of_mem_nat
  have places : ∀ c ∈ Fmt.zeroPadded 8 (n % 10 ^ 8), c.isDigit = true :=
    fun c => Fmt.isDigit_of_mem_zeroPadded
  have decimal : parseDecimal (splitSign (tickText neg n)).2 = some (n, -8) := by
    rw [splitSign_tickText, shape, parseDecimal_point (Fmt.nat_ne_nil _) whole places, value,
      length]
    rfl
  have short : ShortExponent (tickText neg n) := by
    rw [ShortExponent, scaleText, splitSign_tickText, shape, splitFraction_point whole places]
    show (writtenScale []).natAbs < 655360
    decide
  have scale : (n : ℚ) * 10 ^ (-8 : Int) = n / 10 ^ 8 := by
    rw [div_eq_mul_inv]
    norm_num
  refine ⟨by rw [splitSign_tickText], short, ?_⟩
  rw [literal_eq short decimal, splitSign_tickText, scale]

theorem tickText_inj {neg neg' : Bool} {n n' : Nat} :
    tickText neg' n' = tickText neg n ↔ neg' = neg ∧ n' = n := by
  constructor
  · intro same
    obtain ⟨sign, -, literal⟩ := writesTicks_tickText neg n
    obtain ⟨sign', -, literal'⟩ := writesTicks_tickText neg' n'
    rw [same] at sign' literal'
    obtain rfl : neg' = neg := sign'.symm.trans sign
    have number := Option.some.inj (literal'.symm.trans literal)
    refine ⟨rfl, ?_⟩
    have equal : (n' : ℚ) / 10 ^ 8 = n / 10 ^ 8 := by
      cases neg' with
      | false => exact number
      | true => exact neg_inj.mp number
    rw [div_left_inj' (by norm_num)] at equal
    exact_mod_cast equal
  · rintro ⟨rfl, rfl⟩
    rfl

end F64

open F64

/-- A text of ticks is read as a price and as an amount that show it with its 8 decimals, whichever
way it was written; what they show is read as them again; and other ticks are shown differently. -/
theorem shown_exactly {s : Text} {neg : Bool} {n : Nat} (writes : WritesTicks s neg n)
    (small : n < 2 ^ 52) :
    ∃ price amount, Price.parse s = some price ∧ Amount.parse s = some amount ∧
      price.display = tickText neg n ∧ amount.display = tickText neg n ∧
      Price.parse price.display = some price ∧ Amount.parse amount.display = some amount ∧
      ∀ s' neg' n' price', WritesTicks s' neg' n' → n' < 2 ^ 52 → Price.parse s' = some price' →
        (price'.display = price.display ↔ neg' = neg ∧ n' = n) := by
  have again := parse_of_writesTicks (writesTicks_tickText neg n)
  refine ⟨⟨ticks neg n⟩, ⟨ticks neg n⟩, ?_, ?_, fixed_ticks neg small.le,
    fixed_ticks neg small.le, ?_, ?_, fun s' neg' n' price' writes' small' parsed => ?_⟩
  · rw [Price.parse, parse_of_writesTicks writes]
    rfl
  · rw [Amount.parse, parse_of_writesTicks writes]
    rfl
  · rw [Price.display, fixed_ticks neg small.le, Price.parse, again]
    rfl
  · rw [Amount.display, fixed_ticks neg small.le, Amount.parse, again]
    rfl
  · rw [Price.parse, parse_of_writesTicks writes'] at parsed
    obtain rfl := Option.some.inj parsed
    rw [Price.display, Price.display, fixed_ticks neg small.le, fixed_ticks neg' small'.le]
    exact tickText_inj

theorem shown_exactly_exponent :
    ∃ price amount, Price.parse "3.15e-2".toList = some price ∧
      Amount.parse "3.15e-2".toList = some amount ∧ price.display = "0.03150000".toList ∧
      amount.display = "0.03150000".toList ∧ Price.parse price.display = some price := by
  have writes : WritesTicks "3.15e-2".toList false 3150000 := by decide +kernel
  obtain ⟨price, amount, parsed, parsed', shown, shown', again, -⟩ :=
    shown_exactly writes (by norm_num)
  exact ⟨price, amount, parsed, parsed', shown, shown', again⟩

end Orderbook
