import Orderbook.Proofs.PriceOrder
import Orderbook.Proofs.Rounding

/-!
# Decimal texts as prices

Where no digit of its exponent is passed over, a text is read as the pattern nearest to the number
it writes. So the order of the texts' numbers is the order of the prices, and the way a number is
written does not matter.
-/

namespace Orderbook

namespace F64

/-! ## Signed ratios -/

/-- A number with its sign. -/
def signed (neg : Bool) (q : ℚ) : ℚ := if neg then -q else q

theorem abs_signed_sub (neg : Bool) (a b : ℚ) : |signed neg a - signed neg b| = |a - b| := by
  cases neg with
  | false => rfl
  | true =>
    simp only [signed, if_true]
    rw [neg_sub_neg, abs_sub_comm]

theorem sign_ofSignMag (neg : Bool) (m : Nat) : (ofSignMag neg m).sign = neg := by
  cases neg <;> simp [ofSignMag, sign, BitVec.toNat_ofNat] <;> omega

section Ratios

variable (neg : Bool) (num den : Nat)

theorem sign_ofRatio : (ofRatio neg num den).sign = neg :=
  sign_ofSignMag neg _

theorem mag_ofRatio : (ofRatio neg num den).mag = magOfRatio num den :=
  mag_ofSignMag neg (lt_of_le_of_lt (magOfRatio_le num den) (by decide))

theorem units_ofRatio_mono {neg neg' : Bool} {num den num' den' : Nat} (positive : den ≠ 0)
    (positive' : den' ≠ 0) (le : (num : ℚ) / den ≤ num' / den') :
    (ofRatio neg num den).units ≤ (ofRatio neg' num' den').units := by
  apply units_mono
  rw [mag_ofRatio, mag_ofRatio]
  exact magOfRatio_mono positive positive' le

theorem value_ofRatio :
    (ofRatio neg num den).value = signed neg (ofRatio neg num den).magnitude := by
  rw [value, sign_ofRatio, signed]

theorem totalKey_ofRatio : (ofRatio neg num den).totalKey =
    if neg then -(magOfRatio num den : Int) - 1 else magOfRatio num den := by
  rw [totalKey, sign_ofRatio, mag_ofRatio]

theorem key_ofRatio : (ofRatio neg num den).key =
    if neg then -(magOfRatio num den : Int) else magOfRatio num den := by
  rw [key, sign_ofRatio, mag_ofRatio]

end Ratios

section Two

variable {neg neg' : Bool} {num den num' den' : Nat}

/-- The order of two numbers is that of their patterns, where these differ. -/
theorem totalKey_ofRatio_mono (positive : den ≠ 0) (positive' : den' ≠ 0)
    (less : signed neg (num / den) < signed neg' (num' / den')) :
    (ofRatio neg num den).totalKey ≤ (ofRatio neg' num' den').totalKey := by
  have ratio : (0 : ℚ) ≤ num / den := by positivity
  have ratio' : (0 : ℚ) ≤ num' / den' := by positivity
  rw [totalKey_ofRatio, totalKey_ofRatio]
  cases neg with
  | false =>
    cases neg' with
    | false =>
      have : magOfRatio num den ≤ magOfRatio num' den' :=
        magOfRatio_mono positive positive' less.le
      simpa using this
    | true =>
      simp only [signed, Bool.false_eq_true, if_true, if_false] at less
      linarith
  | true =>
    cases neg' with
    | false =>
      simp only [Bool.false_eq_true, if_true, if_false]
      omega
    | true =>
      have : magOfRatio num' den' ≤ magOfRatio num den :=
        magOfRatio_mono positive' positive (neg_le_neg_iff.mp less.le)
      simp only [if_true]
      omega

theorem magOfRatio_eq_zero (positive : den ≠ 0) (zero : (num : ℚ) / den = 0) :
    magOfRatio num den = 0 := by
  have bottom : (den : ℚ) ≠ 0 := by exact_mod_cast positive
  have nothing : num = 0 := by
    rw [div_eq_zero_iff, or_iff_left bottom] at zero
    exact_mod_cast zero
  rw [magOfRatio, if_pos nothing]

/-- Equal numbers give equal patterns, up to the sign of a zero. -/
theorem key_ofRatio_congr (positive : den ≠ 0) (positive' : den' ≠ 0)
    (same : signed neg (num / den) = signed neg' (num' / den')) :
    (ofRatio neg num den).key = (ofRatio neg' num' den').key := by
  have ratio : (0 : ℚ) ≤ num / den := by positivity
  have ratio' : (0 : ℚ) ≤ num' / den' := by positivity
  rw [key_ofRatio, key_ofRatio]
  by_cases signs : neg = neg'
  · subst signs
    have equal : (num : ℚ) / den = num' / den' := by
      cases neg with
      | false => exact same
      | true => exact neg_inj.mp same
    rw [magOfRatio_congr positive positive' equal]
  · have zeros : (num : ℚ) / den = 0 ∧ (num' : ℚ) / den' = 0 := by
      cases neg <;> cases neg' <;> simp only [signed, Bool.false_eq_true, if_true, if_false] at *
      · exact (signs trivial).elim
      · constructor <;> linarith
      · constructor <;> linarith
      · exact (signs trivial).elim
    rw [magOfRatio_eq_zero positive zeros.1, magOfRatio_eq_zero positive' zeros.2]
    simp

end Two

/-- No finite pattern is nearer, on either side of zero. -/
theorem value_nearest (neg : Bool) {num den : Nat} (positive : den ≠ 0)
    (below : (num : ℚ) / den < limit) (z : F64) :
    |(ofRatio neg num den).value - signed neg (num / den)| ≤
      |z.value - signed neg (num / den)| := by
  have nearest := magnitude_nearest neg positive below
  have ratio : (0 : ℚ) ≤ num / den := by positivity
  rw [value_ofRatio, abs_signed_sub]
  by_cases same : z.sign = neg
  · have ofSign : z.value = signed neg z.magnitude := by rw [value, same, signed]
    rw [ofSign, abs_signed_sub]
    exact nearest z
  · -- On the other side of zero, zero itself is nearer.
    have toZero := nearest (ofSignMag false 0)
    have zero : (ofSignMag false 0).magnitude = 0 := magnitude_ofRatio_zero false 1
    rw [zero, zero_sub, abs_neg, abs_of_nonneg ratio] at toZero
    refine toZero.trans ?_
    have opposite : z.value = -signed neg z.magnitude := by
      rw [value, Bool.eq_not.mpr same, signed]
      cases neg <;> simp
    have away := magnitude_nonneg z
    rw [opposite, ← neg_add', abs_neg]
    cases neg with
    | false =>
      simp only [signed, Bool.false_eq_true, if_false]
      rw [abs_of_nonneg (by linarith)]
      linarith
    | true =>
      simp only [signed, if_true]
      rw [← neg_add, abs_neg, abs_of_nonneg (by linarith)]
      linarith

/-! ## Texts -/

/-- What stands after the digits and the dot of a literal. -/
def scaleText (s : Text) : Text := (splitFraction ((splitSign s).2.dropWhile Char.isDigit)).2

/-- The exponent that is written there, however many digits it has. -/
def writtenScale (rest : Text) : Int :=
  let (neg, digits) := splitSign rest.tail
  if neg then -(digitsValue digits : Int) else digitsValue digits

/-- The number a decimal literal writes, after an optional sign. -/
def literal (s : Text) : Option ℚ :=
  let (neg, body) := splitSign s
  let whole := body.takeWhile Char.isDigit
  let (frac, rest) := splitFraction (body.dropWhile Char.isDigit)
  if (parseDecimal body).isSome then
    some (signed neg (digitsValue (whole ++ frac) * 10 ^ (writtenScale rest - frac.length)))
  else none

theorem isSome_literal (s : Text) :
    (literal s).isSome = (parseDecimal (splitSign s).2).isSome := by
  simp only [literal]
  cases (parseDecimal (splitSign s).2).isSome with
  | false => rfl
  | true => rfl

/-- No digit of the exponent is passed over. -/
def ShortExponent (s : Text) : Prop := (writtenScale (scaleText s)).natAbs < 655360

instance (s : Text) : Decidable (ShortExponent s) := inferInstanceAs (Decidable (_ < _))

theorem le_ofDigitChars (ds : Text) (n : Nat) : n ≤ Nat.ofDigitChars 10 ds n := by
  rw [Nat.ofDigitChars_eq_ofDigitChars_zero]
  exact (Nat.le_mul_of_pos_left n (by positivity)).trans (Nat.le_add_right _ _)

/-- An exponent that stays small is read whole. -/
theorem exponentValue_eq {ds : Text} (short : digitsValue ds < 655360) :
    exponentValue ds = digitsValue ds := by
  have run : ∀ (ds : Text) (n : Nat), Nat.ofDigitChars 10 ds n < 655360 →
      ds.foldl (fun n c => if n < 0x10000 then 10 * n + (c.toNat - '0'.toNat) else n) n =
        Nat.ofDigitChars 10 ds n := by
    intro ds
    induction ds with
    | nil => exact fun n _ => rfl
    | cons c ds ih =>
      intro n short
      -- a digit passed over would have taken the value to the bound
      have small : n < 0x10000 := by
        have grown := le_ofDigitChars ds (10 * n + (c.toNat - '0'.toNat))
        rw [Nat.ofDigitChars_cons] at short
        omega
      rw [List.foldl_cons, if_pos small, Nat.ofDigitChars_cons]
      exact ih _ short
  exact run ds 0 short

-- the least exponent that loses a digit
example : exponentValue "655360".toList = 65536 := by decide

theorem natAbs_writtenScale (c : Char) (s : Text) :
    (writtenScale (c :: s)).natAbs = digitsValue (splitSign s).2 := by
  rw [writtenScale, List.tail_cons]
  obtain ⟨neg, digits⟩ := splitSign s
  cases neg with
  | false => rfl
  | true => exact Int.natAbs_neg _

theorem parseExponent_eq {c : Char} {s : Text} {e : Int} (read : parseExponent s = some e)
    (short : (writtenScale (c :: s)).natAbs < 655360) : e = writtenScale (c :: s) := by
  rw [natAbs_writtenScale] at short
  simp only [parseExponent] at read
  split at read
  · cases read
  · rw [← Option.some.inj read, exponentValue_eq short]
    rfl

/-- The exponent read is the one that is written. -/
theorem parseScale_eq {rest : Text} {e : Int} (read : parseScale rest = some e)
    (short : (writtenScale rest).natAbs < 655360) : e = writtenScale rest := by
  cases rest with
  | nil => exact (Option.some.inj read).symm
  | cons c rest =>
    rw [parseScale] at read
    split at read
    · exact parseExponent_eq read short
    · cases read

/-- The digits and the exponent of such a literal give its number. -/
theorem literal_eq {s : Text} {m : Nat} {e : Int} (short : ShortExponent s)
    (decimal : parseDecimal (splitSign s).2 = some (m, e)) :
    literal s = some (signed (splitSign s).1 (m * 10 ^ e)) := by
  simp only [literal, decimal, Option.isSome_some, if_true]
  simp only [parseDecimal] at decimal
  split at decimal
  · cases decimal
  · obtain ⟨scale, read, same⟩ := Option.map_eq_some_iff.mp decimal
    obtain ⟨rfl, rfl⟩ := Prod.mk.inj same
    rw [parseScale_eq read short]

/-- A literal is rounded as a ratio. -/
theorem exists_ofRatio (neg : Bool) (m : Nat) (e : Int) :
    ∃ num den : Nat, den ≠ 0 ∧ (num : ℚ) / den = m * 10 ^ e ∧
      ofDecimal neg m e = ofRatio neg num den := by
  unfold ofDecimal
  split
  · rename_i up
    obtain ⟨n, rfl⟩ := Int.eq_ofNat_of_zero_le up
    refine ⟨m * 10 ^ n, 1, one_ne_zero, ?_, rfl⟩
    rw [Nat.cast_one, div_one, zpow_natCast]
    push_cast
    rfl
  · rename_i down
    obtain ⟨n, rfl⟩ : ∃ n : Nat, e = -n := ⟨(-e).toNat, by omega⟩
    refine ⟨m, 10 ^ n, by positivity, ?_, by rw [neg_neg, Int.toNat_natCast]⟩
    rw [zpow_neg, zpow_natCast, div_eq_mul_inv]
    push_cast
    rfl

theorem parse_of_parseDecimal {s : Text} {m : Nat} {e : Int}
    (decimal : parseDecimal (splitSign s).2 = some (m, e)) :
    parse s = some (ofDecimal (splitSign s).1 m e) := by
  have noWord : ∀ c word, c.isDigit = false → c ≠ '.' →
      (splitSign s).2.map Char.toLower ≠ c :: word := by
    intro c word digit dot lower
    rw [parseDecimal_of_word lower digit dot] at decimal
    cases decimal
  have noInf : (splitSign s).2.map Char.toLower ≠ "inf".toList := noWord _ _ rfl (by decide)
  have noInfinity : (splitSign s).2.map Char.toLower ≠ "infinity".toList :=
    noWord _ _ rfl (by decide)
  have noNan : (splitSign s).2.map Char.toLower ≠ "nan".toList := noWord _ _ rfl (by decide)
  simp only [parse]
  rw [if_neg (not_or.mpr ⟨noInf, noInfinity⟩), if_neg noNan, decimal]
  rfl

/-- A decimal text is parsed to its rounded number. -/
theorem exists_parse {s : Text} {v : ℚ} (writes : literal s = some v) (short : ShortExponent s) :
    ∃ num den : Nat, den ≠ 0 ∧ v = signed (splitSign s).1 (num / den) ∧
      parse s = some (ofRatio (splitSign s).1 num den) := by
  have isSome : (parseDecimal (splitSign s).2).isSome = true := by
    rw [← isSome_literal, writes, Option.isSome_some]
  obtain ⟨⟨m, e⟩, decimal⟩ := Option.isSome_iff_exists.mp isSome
  obtain rfl := Option.some.inj (writes.symm.trans (literal_eq short decimal))
  obtain ⟨num, den, positive, ratio, rounded⟩ := exists_ofRatio (splitSign s).1 m e
  refine ⟨num, den, positive, ?_, ?_⟩
  · rw [ratio]
  · rw [parse_of_parseDecimal decimal, rounded]

end F64

open F64

/-- What a price says about the number its text writes. -/
structure ReadsNumber (v : ℚ) (price : Price) : Prop where
  number : price.val.isNan = false
  finite : |v| < limit → price.val.isFinite = true
  nearest : |v| < limit → ∀ z : F64, |price.val.value - v| ≤ |z.value - v|

/-- Every decimal text has a price, a number. Where no digit of the exponents is passed over, no
finite pattern is nearer to the number that is written, and two texts have prices in the order of
their numbers, equal ones where the numbers are equal. -/
theorem prices_read_numbers :
    (∀ s, (literal s).isSome = true →
      ∃ price, Price.parse s = some price ∧ price.val.isNan = false) ∧
    (∀ s v, literal s = some v → ShortExponent s →
      ∃ price, Price.parse s = some price ∧ ReadsNumber v price) ∧
    ∀ s s' v v' price price', literal s = some v → literal s' = some v' →
      ShortExponent s → ShortExponent s' →
      Price.parse s = some price → Price.parse s' = some price' →
        (v < v' → (price.cmp price').isLE = true) ∧ (v = v' → price.beq price' = true) := by
  refine ⟨?_, ?_, ?_⟩
  · intro s writes
    obtain ⟨⟨m, e⟩, decimal⟩ := Option.isSome_iff_exists.mp (isSome_literal s ▸ writes)
    exact ⟨⟨ofDecimal _ m e⟩, by rw [Price.parse, parse_of_parseDecimal decimal]; rfl,
      isNan_ofDecimal _ _ _⟩
  · intro s v writes short
    obtain ⟨num, den, positive, rfl, parsed⟩ := exists_parse writes short
    have ratio : (0 : ℚ) ≤ num / den := by positivity
    have size : |signed (splitSign s).1 ((num : ℚ) / den)| = num / den := by
      cases (splitSign s).1 with
      | false => exact abs_of_nonneg ratio
      | true => exact (abs_neg _).trans (abs_of_nonneg ratio)
    refine ⟨⟨ofRatio (splitSign s).1 num den⟩, by rw [Price.parse, parsed]; rfl, ?_, ?_, ?_⟩
    · exact isNan_ofRatio _ _ _
    · rw [size]
      exact (isFinite_ofRatio _ positive).mpr
    · rw [size]
      exact value_nearest _ positive
  · intro s s' v v' price price' writes writes' short short' parsed parsed'
    obtain ⟨num, den, positive, rfl, rounded⟩ := exists_parse writes short
    obtain ⟨num', den', positive', rfl, rounded'⟩ := exists_parse writes' short'
    rw [Price.parse, rounded] at parsed
    rw [Price.parse, rounded'] at parsed'
    obtain rfl := Option.some.inj parsed
    obtain rfl := Option.some.inj parsed'
    constructor
    · intro less
      exact isLE_totalCmp.mpr (totalKey_ofRatio_mono positive positive' less)
    · intro same
      exact (beq_iff_key (isNan_ofRatio _ _ _) (isNan_ofRatio _ _ _)).mpr
        (key_ofRatio_congr positive positive' same)

end Orderbook
