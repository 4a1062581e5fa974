import Orderbook.Exchange.Kraken
import Orderbook.Misc.Ladder

/-!
# The sides of a held Kraken book

A side is a ladder: its levels are kept sorted by price, and `upsert` is the `put` of that ladder.
The position of a level is its numeric price, negated on the bid side, so the best price is the
lowest position on both. Two price texts with one value share a position, and `0.0` and `-0.0` do.
-/

namespace Orderbook

namespace Kraken

open StableMerge Ladder

/-- The numeric price, counted downwards on the bid side. -/
def position (ascending : Bool) (level : KrakenLevel) : Int :=
  if ascending then level.price.key else -level.price.key

/-- The wire digits of the price and the qty. -/
def KrakenLevel.texts (level : KrakenLevel) : Text × Text := (level.priceRaw, level.qtyRaw)

/-- Whether an upsert of the level keeps it: its qty is not 0. -/
def KrakenLevel.kept (level : KrakenLevel) : Bool := !level.qty.beq F64.zero

namespace KrakenLevel

theorem isNan_of_isNumber {s : Text} {x : F64} (number : Json.isNumber s = true)
    (parses : F64.parse s = some x) : x.isNan = false := by
  obtain ⟨y, hy, notNan⟩ := F64.parse_of_isNumber number
  rw [parses] at hy
  cases hy
  exact notNan

theorem price_isNan (level : KrakenLevel) : level.price.isNan = false :=
  isNan_of_isNumber level.price_isNumber level.price_parses

/-- The wire digits determine a level. -/
theorem texts_injective : Function.Injective texts := by
  intro a b h
  obtain ⟨price, qty⟩ := Prod.mk.inj h
  have prices : some a.price = some b.price := by
    rw [← a.price_parses, ← b.price_parses, price]
  have qtys : some a.qty = some b.qty := by
    rw [← a.qty_parses, ← b.qty_parses, qty]
  exact KrakenLevel.ext (Option.some.inj prices) price (Option.some.inj qtys) qty

end KrakenLevel

/-! ## Conversion of wire levels -/

theorem WireLevel.toLevel_eq_some_iff {wire : WireLevel} {level : KrakenLevel} :
    wire.toLevel = some level ↔
      wire.price.get = level.priceRaw ∧ wire.qty.get = level.qtyRaw := by
  unfold WireLevel.toLevel
  constructor
  · intro h
    split at h
    · cases h
    · split at h
      · cases h
      · cases h
        exact ⟨rfl, rfl⟩
  · rintro ⟨price, qty⟩
    split
    · rename_i absent
      rw [price, level.price_parses] at absent
      cases absent
    · split
      · rename_i absent
        rw [qty, level.qty_parses] at absent
        cases absent
      · exact congrArg some (KrakenLevel.texts_injective (by
          simp only [KrakenLevel.texts, price, qty]))

/-- A level converts exactly when both of its texts are JSON numbers. -/
theorem WireLevel.toLevel_isSome_iff {wire : WireLevel} :
    wire.toLevel.isSome = true ↔
      Json.isNumber wire.price.get = true ∧ Json.isNumber wire.qty.get = true := by
  constructor
  · intro h
    obtain ⟨level, converts⟩ := Option.isSome_iff_exists.mp h
    obtain ⟨price, qty⟩ := toLevel_eq_some_iff.mp converts
    rw [price, qty]
    exact ⟨level.price_isNumber, level.qty_isNumber⟩
  · rintro ⟨price, qty⟩
    obtain ⟨x, parsesPrice, -⟩ := F64.parse_of_isNumber price
    obtain ⟨y, parsesQty, -⟩ := F64.parse_of_isNumber qty
    refine Option.isSome_iff_exists.mpr
      ⟨⟨x, wire.price.get, y, wire.qty.get, price, parsesPrice, qty, parsesQty⟩, ?_⟩
    exact toLevel_eq_some_iff.mpr ⟨rfl, rfl⟩

/-- The levels before the first wire level that does not convert. -/
def leadingLevels : List WireLevel → List KrakenLevel
  | [] => []
  | wire :: wires =>
      match wire.toLevel with
      | none => []
      | some level => level :: leadingLevels wires

theorem toLevels_cons_of_some {wire : WireLevel} {wires : List WireLevel} {level : KrakenLevel}
    (converts : wire.toLevel = some level) :
    toLevels (wire :: wires) = (toLevels wires).map (level :: ·) := by
  simp only [toLevels, converts]
  cases toLevels wires <;> rfl

theorem toLevels_cons_of_none {wire : WireLevel} {wires : List WireLevel}
    (fails : wire.toLevel = none) : toLevels (wire :: wires) = none := by
  simp only [toLevels, fails]
  rfl

theorem leadingLevels_of_toLevels {wires : List WireLevel} {levels : List KrakenLevel}
    (converts : toLevels wires = some levels) : leadingLevels wires = levels := by
  induction wires generalizing levels with
  | nil => simpa [toLevels, leadingLevels] using converts
  | cons wire wires ih =>
    cases h : wire.toLevel with
    | none => simp [toLevels_cons_of_none h] at converts
    | some level =>
      rw [toLevels_cons_of_some h, Option.map_eq_some_iff] at converts
      obtain ⟨rest, tail, rfl⟩ := converts
      rw [leadingLevels, h]
      exact congrArg (level :: ·) (ih tail)

/-- Levels whose texts are all JSON numbers all convert. -/
theorem toLevels_of_isNumber {wires : List WireLevel}
    (numbers : ∀ wire ∈ wires,
      Json.isNumber wire.price.get = true ∧ Json.isNumber wire.qty.get = true) :
    ∃ levels, toLevels wires = some levels := by
  induction wires with
  | nil => exact ⟨[], rfl⟩
  | cons wire wires ih =>
    obtain ⟨level, converts⟩ := Option.isSome_iff_exists.mp
      (WireLevel.toLevel_isSome_iff.mpr (numbers wire (by simp)))
    obtain ⟨levels, rest⟩ := ih fun other member => numbers other (by simp [member])
    exact ⟨level :: levels, by rw [toLevels_cons_of_some converts, rest]; rfl⟩

/-! ## The order of a side -/

instance (ascending : Bool) : Std.TransCmp (priceCmp ascending) where
  eq_swap {a b} := by
    cases ascending with
    | false => exact @Std.OrientedCmp.eq_swap F64 F64.totalCmp _ b.price a.price
    | true => exact @Std.OrientedCmp.eq_swap F64 F64.totalCmp _ a.price b.price
  isLE_trans {a b c} := by
    cases ascending with
    | false =>
      intro first second
      exact @Std.TransCmp.isLE_trans F64 F64.totalCmp _ c.price b.price a.price second first
    | true => exact @Std.TransCmp.isLE_trans F64 F64.totalCmp _ a.price b.price c.price

/-- Sorting by price sorts by position: `total_cmp` only separates the two zeros further. -/
theorem refines_priceCmp (ascending : Bool) :
    Refines (priceCmp ascending) (position ascending) := by
  intro a b notAfter
  cases ascending with
  | false =>
    have := F64.key_mono (F64.isLE_totalCmp.mp notAfter)
    simpa [position] using this
  | true => exact F64.key_mono (F64.isLE_totalCmp.mp notAfter)

theorem beq_price_iff (ascending : Bool) (a b : KrakenLevel) :
    a.price.beq b.price = true ↔ position ascending a = position ascending b := by
  rw [F64.beq_iff_key a.price_isNan b.price_isNan]
  cases ascending <;> simp [position]

/-- `upsert` is the `put` of the ladder. -/
theorem upsert_eq_put (levels : List KrakenLevel) (level : KrakenLevel) (ascending : Bool) :
    upsert levels level ascending =
      put (priceCmp ascending) (position ascending) levels level level.kept := by
  have retained : levels.filter (fun existing => !existing.price.beq level.price) =
      levels.filter (fun existing => position ascending existing ≠ position ascending level) := by
    apply List.filter_congr
    intro existing _
    by_cases same : position ascending existing = position ascending level
    · simp [same, (beq_price_iff ascending existing level).mpr same]
    · have different := mt (beq_price_iff ascending existing level).mp same
      simp [same, different]
  unfold upsert put KrakenLevel.kept
  rw [retained]
  cases level.qty.beq F64.zero <;> simp

/-! ## Updates -/

/-- The upserts of one side of an update. -/
abbrev changes (ascending : Bool) (levels updates : List KrakenLevel) : List KrakenLevel :=
  putAll (priceCmp ascending) (position ascending) KrakenLevel.kept levels updates

/-- The loop of an update over one side applies the levels before the first that does not convert,
and runs to the end when there is none. -/
theorem applyLevels_eq (ascending : Bool) (levels : List KrakenLevel) (wires : List WireLevel) :
    applyLevels ascending levels wires =
      (changes ascending levels (leadingLevels wires), (toLevels wires).isSome) := by
  induction wires generalizing levels with
  | nil => rfl
  | cons wire wires ih =>
    cases h : wire.toLevel with
    | none =>
      rw [toLevels_cons_of_none h]
      simp [applyLevels, leadingLevels, h]
    | some level =>
      rw [toLevels_cons_of_some h, applyLevels, leadingLevels, h]
      simp only [ih, putAll_cons, upsert_eq_put, Option.isSome_map]

/-- What an update leaves of a book: both sides changed and cut, or, where a level does not
convert, the levels before it applied and nothing cut. -/
theorem KrakenBook.applyUpdate_eq (book : KrakenBook) (data : BookData) :
    book.applyUpdate data =
      match toLevels data.bids, toLevels data.asks with
      | some bids, some asks =>
          ({ bids := (changes false book.bids bids).take DEPTH
             asks := (changes true book.asks asks).take DEPTH }, true)
      | some bids, none =>
          ({ bids := changes false book.bids bids
             asks := changes true book.asks (leadingLevels data.asks) }, false)
      | none, _ =>
          ({ book with bids := changes false book.bids (leadingLevels data.bids) }, false) := by
  unfold KrakenBook.applyUpdate
  simp only [applyLevels_eq]
  cases hb : toLevels data.bids with
  | none => rfl
  | some bids =>
    have leadingBids := leadingLevels_of_toLevels hb
    cases ha : toLevels data.asks with
    | none => simp [leadingBids]
    | some asks =>
      have leadingAsks := leadingLevels_of_toLevels ha
      simp [leadingBids, leadingAsks]

theorem KrakenBook.applyUpdate_of_toLevels (book : KrakenBook) {data : BookData}
    {bids asks : List KrakenLevel} (convertBids : toLevels data.bids = some bids)
    (convertAsks : toLevels data.asks = some asks) :
    book.applyUpdate data =
      ({ bids := (changes false book.bids bids).take DEPTH
         asks := (changes true book.asks asks).take DEPTH }, true) := by
  rw [applyUpdate_eq, convertBids, convertAsks]

theorem KrakenBook.fromSnapshot_of_toLevels {data : BookData}
    {bids asks : List KrakenLevel} (convertBids : toLevels data.bids = some bids)
    (convertAsks : toLevels data.asks = some asks) :
    KrakenBook.fromSnapshot data =
      some { bids := (sortBy (priceCmp false) bids).take DEPTH
             asks := (sortBy (priceCmp true) asks).take DEPTH } := by
  simp only [fromSnapshot, convertBids, convertAsks]
  rfl

end Kraken

end Orderbook
