import Orderbook.F64

/-!
# JSON numbers and raw values

`serde_json` is outside the crate; what it promises about the texts it hands over is kept here.
A `RawValue` borrows the exact source text of one JSON value, so its text is a number of the JSON
grammar, one of the three literals, or opens a string, an array or an object. Among these only the
numbers are `f64` literals, and none of those is a NaN.
-/

namespace Orderbook

namespace Json

/-- What may follow the digits of a JSON number: nothing, or an exponent. -/
def isExponent : Text → Bool
  | [] => true
  | c :: rest =>
      (c == 'e' || c == 'E') && !(F64.splitSign rest).2.isEmpty &&
        (F64.splitSign rest).2.all Char.isDigit

/-- A JSON number without its sign: digits without a superfluous leading zero, an optional
fraction with at least one digit, an optional exponent. -/
def isUnsigned (s : Text) : Bool :=
  let whole := s.takeWhile Char.isDigit
  let rest := s.dropWhile Char.isDigit
  let (frac, after) := F64.splitFraction rest
  !whole.isEmpty && (whole.length == 1 || whole.head? != some '0') &&
    (rest.head? != some '.' || !frac.isEmpty) && isExponent after

/-- A JSON number: an optional `-` and an unsigned number. -/
def isNumber : Text → Bool
  | '-' :: rest => isUnsigned rest
  | s => isUnsigned s

/-- The first character of a JSON string, array or object. -/
def isOpening (c : Char) : Bool := c == '"' || c == '[' || c == '{'

/-- The texts of single JSON values, told apart as far as numbers go. -/
def isRaw (s : Text) : Bool :=
  isNumber s || s == "null".toList || s == "true".toList || s == "false".toList ||
    s.head?.any isOpening

end Json

/-- `serde_json::value::RawValue`: the source text of one JSON value. -/
structure RawValue where
  get : Text
  isRaw : Json.isRaw get = true
  deriving DecidableEq

namespace F64

theorem magOfRatio_le (num den : Nat) : magOfRatio num den ≤ infMag := by
  unfold magOfRatio
  split
  · exact Nat.zero_le _
  · exact min_le_left _ _

theorem mag_ofSignMag (neg : Bool) {m : Nat} (small : m < 2 ^ 63) : (ofSignMag neg m).mag = m := by
  cases neg <;> simp [ofSignMag, mag, BitVec.toNat_ofNat] <;> omega

theorem isNan_ofRatio (neg : Bool) (num den : Nat) : (ofRatio neg num den).isNan = false := by
  have bound := magOfRatio_le num den
  have small : magOfRatio num den < 2 ^ 63 := lt_of_le_of_lt bound (by decide)
  simpa [isNan, ofRatio, mag_ofSignMag neg small] using bound

theorem isNan_ofDecimal (neg : Bool) (m : Nat) (e : Int) : (ofDecimal neg m e).isNan = false := by
  unfold ofDecimal
  split <;> exact isNan_ofRatio _ _ _

/-- What follows the digits of a JSON number is nothing or an exponent `parse` reads. -/
theorem parseScale_of_isExponent {s : Text} (h : Json.isExponent s = true) :
    ∃ e, parseScale s = some e := by
  cases s with
  | nil => exact ⟨0, rfl⟩
  | cons c rest =>
    simp only [Json.isExponent, Bool.and_eq_true, Bool.or_eq_true, beq_iff_eq] at h
    obtain ⟨⟨letter, nonempty⟩, digits⟩ := h
    rw [parseScale, if_pos letter, parseExponent]
    have good : ((splitSign rest).2.isEmpty || !(splitSign rest).2.all Char.isDigit) = false := by
      simp_all
    exact ⟨_, by simp only [good, Bool.false_eq_true, if_false]; rfl⟩

theorem parseDecimal_of_isUnsigned {s : Text} (h : Json.isUnsigned s = true) :
    ∃ p, parseDecimal s = some p := by
  simp only [Json.isUnsigned, Bool.and_eq_true, Bool.not_eq_true'] at h
  obtain ⟨⟨⟨nonempty, -⟩, -⟩, exponent⟩ := h
  obtain ⟨e, scale⟩ := parseScale_of_isExponent exponent
  simp [parseDecimal, nonempty, scale]

/-- An unsigned JSON number starts with a digit. -/
theorem head_of_isUnsigned {s : Text} (h : Json.isUnsigned s = true) :
    ∃ c rest, s = c :: rest ∧ c.isDigit = true := by
  cases s with
  | nil => simp [Json.isUnsigned] at h
  | cons c rest =>
    refine ⟨c, rest, rfl, ?_⟩
    by_contra notDigit
    simp [Json.isUnsigned, notDigit] at h

theorem toLower_of_isDigit {c : Char} (digit : c.isDigit = true) : c.toLower = c := by
  simp only [Char.isDigit, Bool.and_eq_true, decide_eq_true_eq, UInt32.le_iff_toNat_le] at digit
  have notUpper : ¬ (c.val ≥ 'A'.val ∧ c.val ≤ 'Z'.val) := by
    simp only [ge_iff_le, UInt32.le_iff_toNat_le, Char.reduceVal, UInt32.reduceToNat] at digit ⊢
    omega
  exact dif_neg notUpper

theorem parse_of_isUnsigned (neg : Bool) {s body : Text} (split : splitSign s = (neg, body))
    (h : Json.isUnsigned body = true) : ∃ x, parse s = some x ∧ x.isNan = false := by
  obtain ⟨c, rest, rfl, digit⟩ := head_of_isUnsigned h
  obtain ⟨⟨m, e⟩, decimal⟩ := parseDecimal_of_isUnsigned h
  have lower : c.toLower ≠ 'i' ∧ c.toLower ≠ 'n' := by
    rw [toLower_of_isDigit digit]
    constructor <;> rintro rfl <;> simp at digit
  refine ⟨ofDecimal neg m e, ?_, isNan_ofDecimal _ _ _⟩
  simp [parse, split, decimal, lower]

/-- A JSON number is an `f64` literal, and its value is not a NaN. -/
theorem parse_of_isNumber {s : Text} (h : Json.isNumber s = true) :
    ∃ x, parse s = some x ∧ x.isNan = false := by
  unfold Json.isNumber at h
  split at h
  · exact parse_of_isUnsigned true rfl h
  · rename_i noMinus
    obtain ⟨c, rest, rfl, digit⟩ := head_of_isUnsigned h
    refine parse_of_isUnsigned false ?_ h
    unfold splitSign
    split <;> simp_all

/-- Among the texts of JSON values only numbers are `f64` literals. -/
theorem isNumber_of_parse {s : Text} (raw : Json.isRaw s = true) {x : F64}
    (h : parse s = some x) : Json.isNumber s = true := by
  simp only [Json.isRaw, Bool.or_eq_true, beq_iff_eq] at raw
  rcases raw with (((number | rfl) | rfl) | rfl) | opening
  · exact number
  · exact absurd h (by rw [show parse "null".toList = none by decide]; simp)
  · exact absurd h (by rw [show parse "true".toList = none by decide]; simp)
  · exact absurd h (by rw [show parse "false".toList = none by decide]; simp)
  · cases s with
    | nil => simp at opening
    | cons c rest =>
      simp only [List.head?_cons, Option.any_some, Json.isOpening, Bool.or_eq_true,
        beq_iff_eq] at opening
      rcases opening with (rfl | rfl) | rfl <;>
        simp [parse, splitSign, parseDecimal, splitFraction] at h

end F64

end Orderbook
