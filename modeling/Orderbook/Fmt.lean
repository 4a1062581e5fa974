import Orderbook.F64

/-!
# `format!`

The format specifications the crate uses: minimum widths, which pad and never cut, and the decimal
expansion of an `f64` to a fixed number of places.
-/

namespace Orderbook

namespace Fmt

/-- `{:<width}`. -/
def left (width : Nat) (s : Text) : Text := s ++ List.replicate (width - s.length) ' '

/-- `{:>width}`. -/
def right (width : Nat) (s : Text) : Text := List.replicate (width - s.length) ' ' ++ s

/-- `{:^width}`. An odd blank goes to the right. -/
def center (width : Nat) (s : Text) : Text :=
  List.replicate ((width - s.length) / 2) ' ' ++ s ++
    List.replicate ((width - s.length + 1) / 2) ' '

/-- `{}` of an unsigned integer. -/
def nat (n : Nat) : Text := Nat.toDigits 10 n

/-- `{:0width}` of an unsigned integer. -/
def zeroPadded (width : Nat) (n : Nat) : Text :=
  List.replicate (width - (nat n).length) '0' ++ nat n

/-- `n / 10 ^ places` written out. -/
def decimal (places : Nat) (n : Nat) : Text :=
  if places = 0 then nat n
  else nat (n / 10 ^ places) ++ ['.'] ++ zeroPadded places (n % 10 ^ places)

/-- `{:.places}` of an `f64`: the exact value to the nearest, ties to even. A zero keeps its sign,
and a NaN shows none. -/
def fixed (places : Nat) (x : F64) : Text :=
  if x.isNan then "NaN".toList
  else
    (if x.sign then ['-'] else []) ++
      if x.isInfinite then "inf".toList
      else decimal places (F64.roundHalfEven (x.units * 10 ^ places) (2 ^ 1074))

/-! ## Widths -/

@[simp] theorem length_left (width : Nat) (s : Text) :
    (left width s).length = max width s.length := by
  rw [left, List.length_append, List.length_replicate]
  omega

@[simp] theorem length_right (width : Nat) (s : Text) :
    (right width s).length = max width s.length := by
  rw [right, List.length_append, List.length_replicate]
  omega

theorem length_zeroPadded {width n : Nat} (positive : 0 < width) (small : n < 10 ^ width) :
    (zeroPadded width n).length = width := by
  have le : (nat n).length ≤ width := (Nat.length_toDigits_le_iff (by omega) positive).mpr small
  rw [zeroPadded, List.length_append, List.length_replicate]
  omega

/-! ## Characters -/

theorem isDigit_of_mem_nat {n : Nat} {c : Char} (member : c ∈ nat n) : c.isDigit = true :=
  Nat.isDigit_of_mem_toDigits (by omega) (by omega) member

theorem isDigit_of_mem_zeroPadded {width n : Nat} {c : Char} (member : c ∈ zeroPadded width n) :
    c.isDigit = true := by
  rcases List.mem_append.mp member with zero | digit
  · rw [List.eq_of_mem_replicate zero]
    rfl
  · exact isDigit_of_mem_nat digit

/-- A number is written with digits, a point, a sign, and the letters of `NaN` and `inf`. -/
theorem mem_fixed {places : Nat} {x : F64} {c : Char} (member : c ∈ fixed places x) :
    c.isDigit = true ∨ c ∈ ".-NaNinf".toList := by
  rw [fixed] at member
  split at member
  · right
    exact List.mem_append_right ".-".toList (List.mem_append_left "inf".toList member)
  · rcases List.mem_append.mp member with sign | magnitude
    · right
      split at sign
      · rw [List.mem_singleton.mp sign]
        decide
      · cases sign
    · split at magnitude
      · right
        exact List.mem_append_right ".-NaN".toList magnitude
      · rw [decimal] at magnitude
        split at magnitude
        · exact Or.inl (isDigit_of_mem_nat magnitude)
        · rcases List.mem_append.mp magnitude with whole | fraction
          · rcases List.mem_append.mp whole with digits | point
            · exact Or.inl (isDigit_of_mem_nat digits)
            · right
              rw [List.mem_singleton.mp point]
              decide
          · exact Or.inl (isDigit_of_mem_zeroPadded fraction)

theorem nat_ne_nil (n : Nat) : nat n ≠ [] := Nat.toDigits_ne_nil

theorem fixed_ne_nil (places : Nat) (x : F64) : fixed places x ≠ [] := by
  rw [fixed]
  split
  · exact List.cons_ne_nil _ _
  · apply List.append_ne_nil_of_right_ne_nil
    split
    · exact List.cons_ne_nil _ _
    · rw [decimal]
      split
      · exact nat_ne_nil _
      · apply List.append_ne_nil_of_left_ne_nil
        apply List.append_ne_nil_of_left_ne_nil
        exact nat_ne_nil _

end Fmt

end Orderbook
