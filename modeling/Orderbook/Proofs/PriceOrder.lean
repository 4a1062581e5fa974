import Orderbook.Json
import Orderbook.Merge
import Mathlib.Data.List.Forall2

/-!
# Whether `==` and `cmp` agree on prices

`Price` and `Amount` derive `==` from `f64` and take their order from `total_cmp`. The order tells
every two bit patterns apart; `==` does not tell the zeros apart and holds of no NaN. On all other
values the two agree, and with them the merge's ties and the equality of what is published.
-/

namespace Orderbook

namespace F64

/-- A pattern is its sign and its magnitude. -/
theorem eq_of_sign_mag {a b : F64} (sign : a.sign = b.sign) (mag : a.mag = b.mag) : a = b := by
  obtain ⟨bitsA⟩ := a
  obtain ⟨bitsB⟩ := b
  have boundA := bitsA.isLt
  have boundB := bitsB.isLt
  simp only [F64.sign, F64.mag, decide_eq_decide] at sign mag
  congr 1
  apply BitVec.eq_of_toNat_eq
  omega

theorem totalKey_injective {a b : F64} (same : a.totalKey = b.totalKey) : a = b := by
  simp only [totalKey] at same
  apply eq_of_sign_mag
  · cases signA : a.sign <;> cases signB : b.sign <;> simp [signA, signB] at same ⊢ <;> omega
  · cases signA : a.sign <;> cases signB : b.sign <;> simp [signA, signB] at same <;> omega

/-- `total_cmp` says equal of the same pattern only. -/
theorem totalCmp_eq_iff {a b : F64} : a.totalCmp b = .eq ↔ a = b := by
  rw [totalCmp, Int.compare_eq_eq]
  exact ⟨totalKey_injective, congrArg _⟩

/-- Two zeros that differ in sign. -/
def oppositeZeros (a b : F64) : Bool := a.isZero && b.isZero && a.sign != b.sign

/-- `==` of numbers is sameness, except on the zeros of both signs. -/
theorem beq_iff {a b : F64} (numberA : a.isNan = false) (numberB : b.isNan = false) :
    a.beq b = true ↔ a = b ∨ oppositeZeros a b = true := by
  rw [beq_iff_key numberA numberB]
  refine ⟨?_, ?_⟩
  · intro same
    by_cases signs : a.sign = b.sign
    · left
      apply eq_of_sign_mag signs
      simp only [key, signs] at same
      split at same <;> omega
    · right
      simp only [key] at same
      simp only [oppositeZeros, isZero, Bool.and_eq_true, beq_iff_eq, bne_iff_ne, ne_eq]
      cases signA : a.sign <;> cases signB : b.sign <;> simp [signA, signB] at signs same ⊢ <;>
        omega
  · rintro (rfl | zeros)
    · rfl
    · simp only [oppositeZeros, isZero, Bool.and_eq_true, beq_iff_eq] at zeros
      simp [key, zeros.1.1, zeros.1.2]

/-- What makes `==` and the order agree: the first is a number, and the two are not zeros of
opposite signs. -/
def Comparable (a b : F64) : Prop := a.isNan = false ∧ oppositeZeros a b = false

/-- `==` is reflexive and agrees with the order on comparable values, and on no others. -/
theorem lawful_iff {a b : F64} :
    (a.beq a = true ∧ (a.beq b = true ↔ a.totalCmp b = .eq)) ↔ Comparable a b := by
  rw [Comparable, beq_self_iff, totalCmp_eq_iff]
  apply and_congr_right
  intro numberA
  cases numberB : b.isNan with
  | true =>
    have other : a ≠ b := by
      rintro rfl
      rw [numberA] at numberB
      cases numberB
    have zero : b.isZero = false := by
      simp only [isNan, decide_eq_true_eq] at numberB
      simp only [isZero, beq_eq_false_iff_ne]
      omega
    simp [beq, numberB, other, oppositeZeros, zero]
  | false =>
    rw [beq_iff numberA numberB]
    refine ⟨?_, ?_⟩
    · intro agree
      by_contra zeros
      have opposite : oppositeZeros a b = true := by simpa using zeros
      obtain rfl := agree.mp (Or.inr opposite)
      simp [oppositeZeros] at opposite
    · intro none
      simp [none]

/-! ## Texts -/

/-- The text is `nan`, in any case and after an optional sign. -/
def isNanText (s : Text) : Bool := (splitSign s).2.map Char.toLower == "nan".toList

theorem isNan_ofSignMag (neg : Bool) {m : Nat} (small : m < 2 ^ 63) :
    (ofSignMag neg m).isNan = decide (infMag < m) := by
  rw [isNan, mag_ofSignMag neg small]

/-- The only texts read as NaN are those that spell it. -/
theorem isNan_of_parse {s : Text} {x : F64} (parsed : parse s = some x) :
    x.isNan = isNanText s := by
  simp only [parse] at parsed
  split at parsed
  · rename_i infinite
    obtain rfl := Option.some.inj parsed
    have notNan : isNanText s = false := by
      rcases infinite with spelled | spelled <;> rw [isNanText, spelled] <;> decide
    rw [notNan, isNan_ofSignMag _ (by decide)]
    decide
  · split at parsed
    · rename_i spelled
      obtain rfl := Option.some.inj parsed
      have isText : isNanText s = true := by rw [isNanText, spelled]; exact beq_self_eq_true _
      rw [isText]
      cases (splitSign s).1 <;> decide
    · rename_i other
      obtain ⟨⟨m, e⟩, -, rfl⟩ := Option.map_eq_some_iff.mp parsed
      have notNan : isNanText s = false := beq_eq_false_iff_ne.mpr other
      rw [notNan, isNan_ofDecimal]

end F64

/-! ## Levels, books and summaries -/

/-- The prices and the amounts of two levels are comparable. -/
def LevelsComparable (a b : Price × Amount) : Prop :=
  F64.Comparable a.1.val b.1.val ∧ F64.Comparable a.2.val b.2.val

/-- Equal levels are the ties of the merge. -/
theorem levelBeq_iff_better (side : Side) {a b : Price × Amount}
    (comparable : LevelsComparable a b) :
    levelBeq a b = true ↔ side.better a b = .eq := by
  have price : a.1.cmp b.1 = .eq ↔ a.1.beq b.1 = true :=
    (F64.lawful_iff.mpr comparable.1).2.symm
  have amount : a.2.cmp b.2 = .eq ↔ a.2.beq b.2 = true :=
    (F64.lawful_iff.mpr comparable.2).2.symm
  have swapped : b.2.cmp a.2 = .eq ↔ a.2.cmp b.2 = .eq := by
    simp only [Amount.cmp, F64.totalCmp_eq_iff]
    exact eq_comm
  have swapped' : b.1.cmp a.1 = .eq ↔ a.1.cmp b.1 = .eq := by
    simp only [Price.cmp, F64.totalCmp_eq_iff]
    exact eq_comm
  cases side with
  | bid => simp [Side.better, Ordering.then_eq_eq, swapped, swapped', price, amount, levelBeq]
  | ask => simp [Side.better, Ordering.then_eq_eq, swapped, price, amount, levelBeq]

/-- Lists are equal entry by entry, in whatever relation says of entries that they are equal. -/
theorem isEqv_iff {α : Type} {eqv : α → α → Bool} {same : α → α → Prop} {as bs : List α}
    (agree : ∀ a ∈ as, ∀ b ∈ bs, (eqv a b = true ↔ same a b)) :
    as.isEqv bs eqv = true ↔ List.Forall₂ same as bs := by
  induction as generalizing bs with
  | nil => cases bs <;> simp
  | cons a as ih =>
    cases bs with
    | nil => simp
    | cons b bs =>
      have rest : as.isEqv bs eqv = true ↔ List.Forall₂ same as bs := by
        apply ih
        intro x memberX y memberY
        exact agree x (List.mem_cons_of_mem _ memberX) y (List.mem_cons_of_mem _ memberY)
      have front := agree a List.mem_cons_self b List.mem_cons_self
      rw [List.isEqv_cons_cons, Bool.and_eq_true, front, rest, List.forall₂_cons]

/-- Equal books have the same levels by the order of the merge, place by place. -/
theorem beq_iff_ties {a b : Book}
    (comparable : ∀ side : Side, ∀ x ∈ side.levels a, ∀ y ∈ side.levels b, LevelsComparable x y) :
    a.beq b = true ↔
      (∀ side : Side, List.Forall₂ (fun x y => side.better x y = .eq)
        (side.levels a) (side.levels b)) ∧
      a.lastUpdateId = b.lastUpdateId ∧ a.parseStartedAt = b.parseStartedAt ∧
      a.parsedAt = b.parsedAt := by
  have sides (side : Side) :
      (side.levels a).isEqv (side.levels b) levelBeq = true ↔
        List.Forall₂ (fun x y => side.better x y = .eq) (side.levels a) (side.levels b) := by
    apply isEqv_iff
    intro x memberX y memberY
    exact levelBeq_iff_better side (comparable side x memberX y memberY)
  have bids := sides .bid
  have asks := sides .ask
  simp only [Side.levels] at bids asks
  simp only [Book.beq, Bool.and_eq_true, beq_iff_eq, bids, asks]
  refine ⟨?_, ?_⟩
  · rintro ⟨⟨⟨⟨sameBids, sameAsks⟩, id⟩, started⟩, finished⟩
    refine ⟨fun side => ?_, id, started, finished⟩
    cases side with
    | bid => exact sameBids
    | ask => exact sameAsks
  · rintro ⟨same, id, started, finished⟩
    exact ⟨⟨⟨⟨same .bid, same .ask⟩, id⟩, started⟩, finished⟩

/-- The order's view of two published levels of one venue. -/
structure Level.Ties (a b : Level) : Prop where
  exchange : a.exchange = b.exchange
  price : a.price.totalCmp b.price = .eq
  amount : a.amount.totalCmp b.amount = .eq

theorem Level.beqList_eq_isEqv (as bs : List Level) :
    Level.beqList as bs = as.isEqv bs Level.beq := by
  induction as generalizing bs with
  | nil => cases bs <;> rfl
  | cons a as ih =>
    cases bs with
    | nil => rfl
    | cons b bs => rw [Level.beqList, List.isEqv_cons_cons, ih]

theorem Level.beqList_iff_ties {as bs : List Level}
    (comparable : ∀ a ∈ as, ∀ b ∈ bs,
      F64.Comparable a.price b.price ∧ F64.Comparable a.amount b.amount) :
    Level.beqList as bs = true ↔ List.Forall₂ Level.Ties as bs := by
  rw [Level.beqList_eq_isEqv]
  apply isEqv_iff
  intro a memberA b memberB
  obtain ⟨prices, amounts⟩ := comparable a memberA b memberB
  have price := (F64.lawful_iff.mpr prices).2
  have amount := (F64.lawful_iff.mpr amounts).2
  simp only [Level.beq, Bool.and_eq_true, decide_eq_true_eq, price, amount]
  refine ⟨?_, ?_⟩
  · rintro ⟨⟨exchange, samePrice⟩, sameAmount⟩
    exact ⟨exchange, samePrice, sameAmount⟩
  · intro ties
    exact ⟨⟨ties.exchange, ties.price⟩, ties.amount⟩

/-! ## Values from texts -/

theorem Price.lawful_iff {s : Text} {a : Price} (parsed : Price.parse s = some a) (b : Price) :
    (a.beq a = true ∧ (a.beq b = true ↔ a.cmp b = .eq)) ↔
      F64.isNanText s = false ∧ F64.oppositeZeros a.val b.val = false := by
  obtain ⟨x, read, rfl⟩ := Option.map_eq_some_iff.mp parsed
  rw [← F64.isNan_of_parse read]
  exact F64.lawful_iff

theorem Amount.lawful_iff {s : Text} {a : Amount} (parsed : Amount.parse s = some a) (b : Amount) :
    (a.beq a = true ∧ (a.beq b = true ↔ a.cmp b = .eq)) ↔
      F64.isNanText s = false ∧ F64.oppositeZeros a.val b.val = false := by
  obtain ⟨x, read, rfl⟩ := Option.map_eq_some_iff.mp parsed
  rw [← F64.isNan_of_parse read]
  exact F64.lawful_iff

/-- For all parsed prices and amounts, `==` is reflexive and says the same as `cmp` exactly where
the first text does not spell a NaN and the two values are not zeros of opposite signs. On such
values the merge's ties, equality of books and equality of published levels find the same levels
equal. -/
theorem parsed_values_lawful_iff (s t : Text) :
    (∀ a b : Price, Price.parse s = some a → Price.parse t = some b →
      ((a.beq a = true ∧ (a.beq b = true ↔ a.cmp b = .eq)) ↔
        F64.isNanText s = false ∧ F64.oppositeZeros a.val b.val = false)) ∧
    (∀ a b : Amount, Amount.parse s = some a → Amount.parse t = some b →
      ((a.beq a = true ∧ (a.beq b = true ↔ a.cmp b = .eq)) ↔
        F64.isNanText s = false ∧ F64.oppositeZeros a.val b.val = false)) ∧
    (∀ (side : Side) (x y : Price × Amount), LevelsComparable x y →
      (levelBeq x y = true ↔ side.better x y = .eq)) ∧
    (∀ a b : Book,
      (∀ side : Side, ∀ x ∈ side.levels a, ∀ y ∈ side.levels b, LevelsComparable x y) →
      (a.beq b = true ↔
        (∀ side : Side, List.Forall₂ (fun x y => side.better x y = .eq)
          (side.levels a) (side.levels b)) ∧
        a.lastUpdateId = b.lastUpdateId ∧ a.parseStartedAt = b.parseStartedAt ∧
        a.parsedAt = b.parsedAt)) ∧
    (∀ a b : Summary,
      (∀ x ∈ a.bids, ∀ y ∈ b.bids,
        F64.Comparable x.price y.price ∧ F64.Comparable x.amount y.amount) →
      (∀ x ∈ a.asks, ∀ y ∈ b.asks,
        F64.Comparable x.price y.price ∧ F64.Comparable x.amount y.amount) →
      (a.beq b = true ↔
        a.spread.beq b.spread = true ∧ List.Forall₂ Level.Ties a.bids b.bids ∧
          List.Forall₂ Level.Ties a.asks b.asks)) := by
  refine ⟨fun _ b parsed _ => Price.lawful_iff parsed b,
    fun _ b parsed _ => Amount.lawful_iff parsed b,
    fun side x y comparable => levelBeq_iff_better side comparable,
    fun a b comparable => beq_iff_ties comparable, ?_⟩
  intro a b bids asks
  rw [Summary.beq, Bool.and_eq_true, Bool.and_eq_true, Level.beqList_iff_ties bids,
    Level.beqList_iff_ties asks, and_assoc]

/-- `NaN` parses to a price that is not `==` itself, and `0` and `-0` to prices that are `==` while
`cmp` puts one after the other. -/
theorem parsed_values_unlawful :
    ¬ (∀ (s : Text) (a : Price), Price.parse s = some a → a.beq a = true) ∧
    ¬ (∀ (s t : Text) (a b : Price), Price.parse s = some a → Price.parse t = some b →
      (a.beq b = true ↔ a.cmp b = .eq)) := by
  refine ⟨?_, ?_⟩
  · intro reflexive
    have same := reflexive "NaN".toList ⟨F64.nan⟩ (by decide)
    revert same
    decide
  · intro agree
    have same := agree "0".toList "-0".toList ⟨F64.zero⟩ ⟨F64.ofSignMag true 0⟩ (by decide +kernel)
      (by decide +kernel)
    have equal : (Price.mk F64.zero).beq ⟨F64.ofSignMag true 0⟩ = true := by decide
    have apart := same.mp equal
    revert apart
    decide

end Orderbook
