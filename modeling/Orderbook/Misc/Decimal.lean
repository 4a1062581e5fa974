import Mathlib.Tactic.Common

/-!
# Decimal numerals

`Nat.toDigits 10` writes a number and `Nat.ofDigitChars 10` reads one. A run of digits without a
leading zero is the numeral of the number it reads as (`toDigits_ofDigitChars`), and leading zeros
do not change that number.
-/

namespace Orderbook

namespace Decimal

theorem digitChar_of_isDigit {c : Char} (digit : c.isDigit = true) :
    c.toNat - '0'.toNat < 10 ∧ (c.toNat - '0'.toNat).digitChar = c := by
  simp only [Char.isDigit, Bool.and_eq_true, decide_eq_true_eq, UInt32.le_iff_toNat_le] at digit
  have low : 48 ≤ c.toNat := digit.1
  have high : c.toNat ≤ 57 := digit.2
  have small : c.toNat - '0'.toNat < 10 := by
    simp only [Char.reduceToNat]
    omega
  refine ⟨small, Char.toNat_inj.mp ?_⟩
  rw [Nat.toNat_digitChar_of_lt_ten small]
  simp only [Char.reduceToNat]
  omega

/-- Digits written after a numeral are read into it. -/
theorem toDigits_append_digits {n : Nat} (positive : 0 < n) {ds : List Char}
    (digits : ∀ c ∈ ds, c.isDigit = true) :
    Nat.toDigits 10 n ++ ds = Nat.toDigits 10 (Nat.ofDigitChars 10 ds n) := by
  induction ds generalizing n with
  | nil => rw [List.append_nil, Nat.ofDigitChars_nil]
  | cons c ds ih =>
    obtain ⟨small, char⟩ := digitChar_of_isDigit (digits c (by simp))
    have longer := Nat.toDigits_append_toDigits (b := 10) (by omega) positive small
    rw [Nat.toDigits_of_lt_base small, char] at longer
    rw [Nat.ofDigitChars_cons, ← ih (by omega) fun d member => digits d (by simp [member]),
      ← longer, List.append_assoc]
    rfl

/-- A run of digits without a leading zero is the numeral of what it reads as. -/
theorem toDigits_ofDigitChars {c : Char} {ds : List Char} (nonzero : c ≠ '0')
    (digits : ∀ d ∈ c :: ds, d.isDigit = true) :
    Nat.toDigits 10 (Nat.ofDigitChars 10 (c :: ds) 0) = c :: ds := by
  obtain ⟨small, char⟩ := digitChar_of_isDigit (digits c (by simp))
  have positive : 0 < c.toNat - '0'.toNat := by
    by_contra zero
    have : c.toNat - '0'.toNat = 0 := by omega
    rw [this] at char
    exact nonzero char.symm
  rw [Nat.ofDigitChars_cons, Nat.mul_zero, Nat.zero_add,
    ← toDigits_append_digits positive fun d member => digits d (by simp [member]),
    Nat.toDigits_of_lt_base small, char]
  rfl

/-- Leading zeros do not count. -/
theorem ofDigitChars_dropWhile_zero (ds : List Char) :
    Nat.ofDigitChars 10 (ds.dropWhile fun c => c == '0') 0 = Nat.ofDigitChars 10 ds 0 := by
  induction ds with
  | nil => rfl
  | cons c ds ih =>
    by_cases zero : c = '0'
    · rw [zero, List.dropWhile_cons_of_pos rfl, ih]
      rfl
    · rw [List.dropWhile_cons_of_neg (by simpa using zero)]

/-- A run of digits without its leading zeros, `0` where nothing is left, is the numeral of what it
reads as. -/
theorem trimmed_eq_toDigits {ds : List Char} (digits : ∀ c ∈ ds, c.isDigit = true) :
    (if (ds.dropWhile fun c => c == '0').isEmpty then ['0']
      else ds.dropWhile fun c => c == '0') = Nat.toDigits 10 (Nat.ofDigitChars 10 ds 0) := by
  rw [← ofDigitChars_dropWhile_zero]
  have kept : ∀ c ∈ ds.dropWhile fun c => c == '0', c.isDigit = true := fun c member =>
    digits c ((List.dropWhile_suffix _).subset member)
  cases rest : ds.dropWhile fun c => c == '0' with
  | nil => rfl
  | cons c cs =>
    have first := List.head?_dropWhile_not (fun c => c == '0') ds
    rw [rest] at first kept
    have nonzero : c ≠ '0' := by simpa using first
    rw [toDigits_ofDigitChars nonzero kept]
    rfl

theorem toDigits_injective {m n : Nat} (same : Nat.toDigits 10 m = Nat.toDigits 10 n) : m = n := by
  rw [← Nat.ofDigitChars_ten_toDigits (n := m), same, Nat.ofDigitChars_ten_toDigits]

/-- Zeros before a numeral do not count. -/
theorem ofDigitChars_padded (zeros n : Nat) :
    Nat.ofDigitChars 10 (List.replicate zeros '0' ++ Nat.toDigits 10 n) 0 = n := by
  rw [Nat.ofDigitChars_append, Nat.ofDigitChars_replicate_zero, Nat.mul_zero,
    Nat.ofDigitChars_ten_toDigits]

end Decimal

end Orderbook
