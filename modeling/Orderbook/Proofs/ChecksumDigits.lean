import Orderbook.Exchange.Kraken
import Orderbook.Misc.Decimal
import Mathlib.Algebra.Order.Field.Basic
import Mathlib.Algebra.Order.Ring.Rat
import Mathlib.Tactic.FieldSimp

/-!
# The digits of the checksum

`strip_for_checksum` drops the dot and the leading zeros of a wire text. What is left is the
numeral of the number the digits read as without the dot, so texts with as many digits after the
dot strip to the same text exactly where they stand for the same number.
-/

namespace Orderbook

namespace Kraken

open Decimal

/-- A plain unsigned decimal: digits, or digits around a dot. -/
structure PlainDecimal where
  whole : Text
  fraction : Option Text
  whole_digits : ∀ c ∈ whole, c.isDigit = true
  fraction_digits : ∀ digits ∈ fraction, ∀ c ∈ digits, c.isDigit = true

namespace PlainDecimal

/-- As written. -/
def text (d : PlainDecimal) : Text :=
  match d.fraction with
  | none => d.whole
  | some digits => d.whole ++ '.' :: digits

/-- The digits without the dot. -/
def digits (d : PlainDecimal) : Text := d.whole ++ d.fraction.getD []

/-- How many digits come after the dot. -/
def places (d : PlainDecimal) : Nat := (d.fraction.getD []).length

/-- The number written. -/
def number (d : PlainDecimal) : ℚ := F64.digitsValue d.digits / 10 ^ d.places

theorem isDigit_of_mem_digits {d : PlainDecimal} : ∀ c ∈ d.digits, c.isDigit = true := by
  intro c member
  rcases List.mem_append.mp member with whole | fraction
  · exact d.whole_digits c whole
  · cases after : d.fraction with
    | none => simp [after] at fraction
    | some digits =>
      rw [after] at fraction
      exact d.fraction_digits digits after c fraction

theorem filter_of_digits {digits : Text} (all : ∀ c ∈ digits, c.isDigit = true) :
    digits.filter (fun c => c != '.') = digits := by
  apply List.filter_eq_self.mpr
  intro c member
  have digit := all c member
  rw [bne_iff_ne]
  rintro rfl
  cases digit

/-- Without its dot the text is the digits. -/
theorem filter_text (d : PlainDecimal) : d.text.filter (fun c => c != '.') = d.digits := by
  unfold text digits
  cases after : d.fraction with
  | none => rw [filter_of_digits d.whole_digits, Option.getD_none, List.append_nil]
  | some digits =>
    simp only [List.filter_append, filter_of_digits d.whole_digits, Option.getD_some]
    rw [List.filter_cons_of_neg (by simp), filter_of_digits (d.fraction_digits digits after)]

/-- With as many digits after the dot, numbers are equal where the digits read as the same. -/
theorem number_eq_iff {d d' : PlainDecimal} (same : d.places = d'.places) :
    d.number = d'.number ↔ F64.digitsValue d.digits = F64.digitsValue d'.digits := by
  have scale : (10 : ℚ) ^ d'.places ≠ 0 := pow_ne_zero _ (by norm_num)
  rw [number, number, same, div_left_inj' scale, Nat.cast_inj]

end PlainDecimal

theorem stripForChecksum_eq (d : PlainDecimal) :
    stripForChecksum d.text = Nat.toDigits 10 (F64.digitsValue d.digits) := by
  rw [stripForChecksum, d.filter_text]
  exact trimmed_eq_toDigits PlainDecimal.isDigit_of_mem_digits

/-- A plain decimal strips to the numeral of the number its digits read as; so with as many digits
after the dot two of them strip to the same text exactly where they are the same number, and one
more zero at the end is one more zero in the text. -/
theorem checksum_digits_canonical :
    (∀ d : PlainDecimal,
      stripForChecksum d.text = Nat.toDigits 10 (F64.digitsValue d.digits)) ∧
    (∀ d d' : PlainDecimal, d.places = d'.places →
      (stripForChecksum d.text = stripForChecksum d'.text ↔ d.number = d'.number)) ∧
    ∀ d d' : PlainDecimal, d'.text = d.text ++ ['0'] → d.number ≠ 0 →
      stripForChecksum d'.text = stripForChecksum d.text ++ ['0'] := by
  refine ⟨stripForChecksum_eq, ?_, ?_⟩
  · intro d d' same
    rw [stripForChecksum_eq, stripForChecksum_eq, PlainDecimal.number_eq_iff same]
    exact ⟨toDigits_injective, congrArg _⟩
  · intro d d' longer nonzero
    have digits : d'.digits = d.digits ++ ['0'] := by
      rw [← d'.filter_text, longer, List.filter_append, d.filter_text]
      rfl
    have positive : 0 < F64.digitsValue d.digits := by
      by_contra zero
      have none : F64.digitsValue d.digits = 0 := by omega
      exact nonzero (by rw [PlainDecimal.number, none, Nat.cast_zero, zero_div])
    have read : Nat.ofDigitChars 10 ['0'] (F64.digitsValue d.digits) =
        F64.digitsValue d'.digits := by
      rw [digits]
      exact (Nat.ofDigitChars_append 0).symm
    rw [stripForChecksum_eq, stripForChecksum_eq, ← read]
    exact (toDigits_append_digits positive (by simp)).symm

example : stripForChecksum "0.0500".toList = "500".toList := by decide

end Kraken

end Orderbook
