import Mathlib.Algebra.Group.Nat.Defs
import Mathlib.Data.Nat.Log
import Mathlib.Order.Basic
import Mathlib.Tactic.Common

/-!
# `f64`

The floating-point type of the source, as its 64-bit IEEE 754 pattern. The operations are those
the crate applies to prices and amounts: `str::parse::<f64>`, `==`, `f64::total_cmp`, and the
subtraction, multiplication, division and `f64::round` of the spread. Each arithmetic result is
the exact rational result rounded to nearest, ties to even; a finite pattern is an integer
multiple of `2 ^ -1074`, so the exact results are ratios of integers.
-/

namespace Orderbook

/-- A text of the source (`&str`, `String`), as its characters. -/
abbrev Text := List Char

/-- `f64`, as its bit pattern (`f64::to_bits`). -/
structure F64 where
  bits : BitVec 64
  deriving DecidableEq, Repr

namespace F64

/-- The sign bit. -/
def sign (x : F64) : Bool := decide (2 ^ 63 ≤ x.bits.toNat)

/-- The pattern without its sign bit. -/
def mag (x : F64) : Nat := x.bits.toNat % 2 ^ 63

/-- The magnitude of the infinities; every larger one is a NaN. -/
def infMag : Nat := 2047 * 2 ^ 52

def isNan (x : F64) : Bool := decide (infMag < x.mag)

def isInfinite (x : F64) : Bool := x.mag == infMag

def isFinite (x : F64) : Bool := decide (x.mag < infMag)

def isZero (x : F64) : Bool := x.mag == 0

/-- The pattern with a given sign and magnitude. -/
def ofSignMag (neg : Bool) (m : Nat) : F64 :=
  ⟨BitVec.ofNat 64 (m % 2 ^ 63 + if neg then 2 ^ 63 else 0)⟩

def zero : F64 := ofSignMag false 0

def nan : F64 := ofSignMag false (infMag + 2 ^ 51)

/-! ## Comparison -/

/-- Sign-magnitude position of a pattern on the number line, both zeros at `0`: what IEEE
`<` and `==` compare on patterns that are not NaN. -/
def key (x : F64) : Int := if x.sign then -(x.mag : Int) else x.mag

/-- The signed integer `f64::total_cmp` compares: the pattern read as an `i64`, the low 63 bits
of a negative one flipped, so `-0.0` sits directly below `0.0`. -/
def totalKey (x : F64) : Int := if x.sign then -(x.mag : Int) - 1 else x.mag

/-- `f64::total_cmp`. -/
def totalCmp (a b : F64) : Ordering := compare a.totalKey b.totalKey

/-- `==` on `f64`: false as soon as one side is a NaN, and the two zeros are equal. -/
def beq (a b : F64) : Bool := !a.isNan && !b.isNan && a.key == b.key

instance : Std.TransCmp totalCmp where
  eq_swap {a b} := @Std.OrientedCmp.eq_swap Int compare _ a.totalKey b.totalKey
  isLE_trans {a b c} := @Std.TransCmp.isLE_trans Int compare _ a.totalKey b.totalKey c.totalKey

theorem isLE_totalCmp {a b : F64} : (a.totalCmp b).isLE = true ↔ a.totalKey ≤ b.totalKey := by
  simp [totalCmp, Std.isLE_compare]

/-- `total_cmp` refines the numeric order: it only separates the two zeros and places the NaNs. -/
theorem key_mono {a b : F64} (h : a.totalKey ≤ b.totalKey) : a.key ≤ b.key := by
  simp only [totalKey, key] at h ⊢
  grind

/-- Between patterns that are numbers, `==` is equality of position. -/
theorem beq_iff_key {a b : F64} (ha : a.isNan = false) (hb : b.isNan = false) :
    a.beq b = true ↔ a.key = b.key := by
  simp [beq, ha, hb]

theorem beq_self_iff {x : F64} : x.beq x = true ↔ x.isNan = false := by
  simp [beq]

theorem beq_symm {a b : F64} (h : a.beq b = true) : b.beq a = true := by
  simp only [beq, Bool.and_eq_true, beq_iff_eq] at h ⊢
  exact ⟨⟨h.1.2, h.1.1⟩, h.2.symm⟩

theorem beq_trans {a b c : F64} (hab : a.beq b = true) (hbc : b.beq c = true) :
    a.beq c = true := by
  simp only [beq, Bool.and_eq_true, beq_iff_eq] at hab hbc ⊢
  exact ⟨⟨hab.1.1, hbc.1.2⟩, hab.2.trans hbc.2⟩

/-! ## Rounding and arithmetic -/

/-- `a / b` to the nearest integer, ties to even. -/
def roundHalfEven (a b : Nat) : Nat :=
  if 2 * (a % b) < b then a / b
  else if b < 2 * (a % b) then a / b + 1
  else a / b + (a / b) % 2

/-- `a * 2 ^ e / b` as a numerator and a denominator. -/
def shifted (a b : Nat) (e : Int) : Nat × Nat :=
  if 0 ≤ e then (a * 2 ^ e.toNat, b) else (a, b * 2 ^ (-e).toNat)

/-- The magnitude nearest to `num / den`. The last bit of the significand has the exponent of
the ratio less 52, but no less than -1074, where the subnormals are. -/
def magOfRatio (num den : Nat) : Nat :=
  if num = 0 then 0
  else
    let guess : Int := (num.log2 : Int) - den.log2
    let (a, b) := shifted num den (-guess)
    let exponent := if a < b then guess - 1 else guess
    let ulp := max (exponent - 52) (-1074)
    let (a, b) := shifted num den (-ulp)
    min infMag ((ulp + 1074).toNat * 2 ^ 52 + roundHalfEven a b)

def ofRatio (neg : Bool) (num den : Nat) : F64 := ofSignMag neg (magOfRatio num den)

def ofNat (n : Nat) : F64 := ofRatio false n 1

/-- The magnitude of a finite pattern in units of `2 ^ -1074`. -/
def units (x : F64) : Nat :=
  if x.mag < 2 ^ 52 then x.mag
  else (2 ^ 52 + x.mag % 2 ^ 52) * 2 ^ (x.mag / 2 ^ 52 - 1)

def signedUnits (x : F64) : Int := if x.sign then -(x.units : Int) else x.units

theorem units_of_subnormal {x : F64} (low : x.mag < 2 ^ 52) : x.units = x.mag := if_pos low

/-- A larger magnitude is worth at least as much: from one power of two to the next the
significands start over at twice the value. -/
theorem units_mono {x y : F64} (le : x.mag ≤ y.mag) : x.units ≤ y.units := by
  by_cases low : y.mag < 2 ^ 52
  · rw [units_of_subnormal low, units_of_subnormal (le.trans_lt low)]
    exact le
  · have high : y.units = (2 ^ 52 + y.mag % 2 ^ 52) * 2 ^ (y.mag / 2 ^ 52 - 1) := if_neg low
    by_cases low' : x.mag < 2 ^ 52
    · rw [units_of_subnormal low', high]
      have scale : 1 ≤ 2 ^ (y.mag / 2 ^ 52 - 1) := Nat.one_le_two_pow
      calc x.mag ≤ 2 ^ 52 + y.mag % 2 ^ 52 := by omega
        _ ≤ (2 ^ 52 + y.mag % 2 ^ 52) * 2 ^ (y.mag / 2 ^ 52 - 1) := Nat.le_mul_of_pos_right _ scale
    · have high' : x.units = (2 ^ 52 + x.mag % 2 ^ 52) * 2 ^ (x.mag / 2 ^ 52 - 1) := if_neg low'
      rw [high, high']
      by_cases same : x.mag / 2 ^ 52 = y.mag / 2 ^ 52
      · rw [same]
        exact Nat.mul_le_mul_right _ (by omega)
      · have next : x.mag / 2 ^ 52 - 1 + 1 ≤ y.mag / 2 ^ 52 - 1 := by omega
        calc (2 ^ 52 + x.mag % 2 ^ 52) * 2 ^ (x.mag / 2 ^ 52 - 1)
            ≤ 2 ^ 52 * 2 * 2 ^ (x.mag / 2 ^ 52 - 1) := Nat.mul_le_mul_right _ (by omega)
          _ = 2 ^ 52 * 2 ^ (x.mag / 2 ^ 52 - 1 + 1) := by rw [Nat.mul_assoc, ← Nat.pow_succ']
          _ ≤ 2 ^ 52 * 2 ^ (y.mag / 2 ^ 52 - 1) :=
            Nat.mul_le_mul_left _ (Nat.pow_le_pow_right (by omega) next)
          _ ≤ (2 ^ 52 + y.mag % 2 ^ 52) * 2 ^ (y.mag / 2 ^ 52 - 1) :=
            Nat.mul_le_mul_right _ (by omega)

/-- `total_cmp` never puts a larger value before a smaller one. -/
theorem signedUnits_mono {x y : F64} (le : x.totalKey ≤ y.totalKey) :
    x.signedUnits ≤ y.signedUnits := by
  simp only [totalKey, signedUnits] at le ⊢
  cases signX : x.sign with
  | false =>
    cases signY : y.sign with
    | false =>
      have := units_mono (x := x) (y := y) (by simp_all)
      simpa using this
    | true =>
      simp only [signX, signY, Bool.false_eq_true, if_true, if_false] at le
      omega
  | true =>
    cases signY : y.sign with
    | false =>
      simp only [Bool.false_eq_true, if_true, if_false]
      omega
    | true =>
      have := units_mono (x := y) (y := x) (by simp_all)
      simpa using this

def neg (x : F64) : F64 := ofSignMag (!x.sign) x.mag

def sub (a b : F64) : F64 :=
  if a.isNan || b.isNan then nan
  else if a.isInfinite then (if b.isInfinite && a.sign == b.sign then nan else a)
  else if b.isInfinite then b.neg
  else
    let d := a.signedUnits - b.signedUnits
    if d = 0 then ofSignMag (a.sign && !b.sign) 0
    else ofRatio (decide (d < 0)) d.natAbs (2 ^ 1074)

def mul (a b : F64) : F64 :=
  let neg := a.sign != b.sign
  if a.isNan || b.isNan then nan
  else if a.isInfinite || b.isInfinite then
    (if a.isZero || b.isZero then nan else ofSignMag neg infMag)
  else ofRatio neg (a.units * b.units) (2 ^ 2148)

def div (a b : F64) : F64 :=
  let neg := a.sign != b.sign
  if a.isNan || b.isNan then nan
  else if a.isInfinite then (if b.isInfinite then nan else ofSignMag neg infMag)
  else if b.isInfinite then ofSignMag neg 0
  else if b.isZero then (if a.isZero then nan else ofSignMag neg infMag)
  else ofRatio neg a.units b.units

/-- `f64::round`: to the nearest integer, halves away from zero, the sign kept. -/
def round (x : F64) : F64 :=
  if x.isFinite then ofRatio x.sign ((2 * x.units + 2 ^ 1074) / 2 ^ 1075) 1 else x

/-! ## `str::parse::<f64>` -/

/-- The value of a run of decimal digits. -/
def digitsValue (ds : Text) : Nat := ds.foldl (fun n c => 10 * n + (c.toNat - '0'.toNat)) 0

/-- The text after its optional sign, and whether the sign was `-`. -/
def splitSign : Text → Bool × Text
  | '-' :: rest => (true, rest)
  | '+' :: rest => (false, rest)
  | s => (false, s)

/-- The digits after a dot, if there is one, and what follows them. -/
def splitFraction : Text → Text × Text
  | '.' :: rest => (rest.takeWhile Char.isDigit, rest.dropWhile Char.isDigit)
  | s => ([], s)

/-- The value of an exponent's digits. Those that come once it has reached `2 ^ 16` are passed
over, which keeps it within its machine integer. -/
def exponentValue (ds : Text) : Nat :=
  ds.foldl (fun n c => if n < 0x10000 then 10 * n + (c.toNat - '0'.toNat) else n) 0

/-- The exponent after `e`: an optional sign and at least one digit, to the end of the text. -/
def parseExponent (s : Text) : Option Int :=
  let (neg, digits) := splitSign s
  if digits.isEmpty || !digits.all Char.isDigit then none
  else some (if neg then -(exponentValue digits : Int) else exponentValue digits)

/-- Nothing, or `e` and an exponent. -/
def parseScale : Text → Option Int
  | [] => some 0
  | c :: rest => if c = 'e' ∨ c = 'E' then parseExponent rest else none

/-- An unsigned decimal literal as its digits read as one number and its power of ten. A dot
needs a digit on one of its sides. -/
def parseDecimal (s : Text) : Option (Nat × Int) :=
  let whole := s.takeWhile Char.isDigit
  let (frac, rest) := splitFraction (s.dropWhile Char.isDigit)
  if whole.isEmpty && frac.isEmpty then none
  else (parseScale rest).map fun e => (digitsValue (whole ++ frac), e - frac.length)

/-- `m * 10 ^ e`, rounded. -/
def ofDecimal (neg : Bool) (m : Nat) (e : Int) : F64 :=
  if 0 ≤ e then ofRatio neg (m * 10 ^ e.toNat) 1 else ofRatio neg m (10 ^ (-e).toNat)

/-- `str::parse::<f64>`: an optional sign, then `inf`, `infinity` or `nan` in any case, or a
decimal literal. Every such text has a value: a literal too large gives an infinity. It is taken to
have fewer than `2 ^ 31` characters, which every text in a frame has. -/
def parse (s : Text) : Option F64 :=
  let (neg, body) := splitSign s
  let lower := body.map Char.toLower
  if lower = "inf".toList ∨ lower = "infinity".toList then some (ofSignMag neg infMag)
  else if lower = "nan".toList then some (ofSignMag neg nan.mag)
  else (parseDecimal body).map fun (m, e) => ofDecimal neg m e

end F64

end Orderbook
