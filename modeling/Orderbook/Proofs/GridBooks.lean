import Orderbook.Misc.GreedyMerge
import Orderbook.Proofs.Publish
import Orderbook.Proofs.Spread

/-!
# Merging exact books

The abstract side: books whose prices and amounts are whole numbers of ticks, merged by comparing
these numbers, with the difference of the best prices as the spread. `merge` on books that round
exact ones gives the rounding of the exact merge, so no rounding error decides an order, a tie or a
spread.
-/

namespace Orderbook

open StableMerge F64

/-! ## Exact books -/

/-- A level in ticks of `10 ^ -8`. -/
@[ext] structure GridLevel where
  price : Nat
  amount : Nat
  price_le : price ≤ 10 ^ 15
  amount_le : amount ≤ 2 ^ 52
  deriving DecidableEq

/-- The level a book holds for it. -/
def GridLevel.rounded (level : GridLevel) : Price × Amount :=
  (⟨ticks false level.price⟩, ⟨ticks false level.amount⟩)

/-- A book in ticks. -/
structure GridBook where
  bids : List GridLevel
  asks : List GridLevel

/-- A side of the book. -/
def Side.gridLevels (side : Side) (book : GridBook) : List GridLevel :=
  match side with
  | bid => book.bids
  | ask => book.asks

/-- The better price first, then the larger amount. -/
def Side.gridBetter (side : Side) (a b : GridLevel) : Ordering :=
  let byPrice :=
    match side with
    | ask => compare a.price b.price
    | bid => compare b.price a.price
  byPrice.then (compare b.amount a.amount)

/-- The top levels of a side over all venues. -/
def gridSide (books : BTreeMap Venue GridBook) (side : Side) : List (Venue × GridLevel) :=
  greedyMerge side.gridBetter TOP_N
    (books.entries.map fun entry => (entry.1, side.gridLevels entry.2))

/-- The top levels of both sides, of which there are some. -/
@[ext] structure GridSummary where
  bids : List (Venue × GridLevel)
  asks : List (Venue × GridLevel)
  someBid : bids ≠ []
  someAsk : asks ≠ []
  deriving DecidableEq

/-- The difference of the best prices in ticks, negative where the book is crossed. -/
def GridSummary.spread (summary : GridSummary) : Int :=
  ((summary.asks.head summary.someAsk).2.price : Int) -
    (summary.bids.head summary.someBid).2.price

/-- The merge in ticks. -/
def gridMerge (books : BTreeMap Venue GridBook) : Option GridSummary :=
  if sides : gridSide books .bid ≠ [] ∧ gridSide books .ask ≠ [] then
    some ⟨gridSide books .bid, gridSide books .ask, sides.1, sides.2⟩
  else none

/-- The level `merge` publishes. -/
def publishedLevel (level : Venue × GridLevel) : Level := Level.of level.1 level.2.rounded

/-- The summary rounded, each price and the spread once. -/
def GridSummary.rounded (summary : GridSummary) : Summary where
  spread := ticks (decide (summary.spread < 0)) summary.spread.natAbs
  bids := summary.bids.map publishedLevel
  asks := summary.asks.map publishedLevel

/-- The book holds the rounded levels. -/
structure RoundsBook (grid : GridBook) (book : Book) : Prop where
  bids : book.bids = grid.bids.map GridLevel.rounded
  asks : book.asks = grid.asks.map GridLevel.rounded

/-! ## One side -/

theorem GridLevel.price_small (level : GridLevel) : level.price ≤ 2 ^ 52 :=
  level.price_le.trans (by norm_num)

/-- Rounding keeps the order of a side. -/
theorem better_rounded (side : Side) (a b : GridLevel) :
    side.better a.rounded b.rounded = side.gridBetter a b := by
  have amounts : b.rounded.2.cmp a.rounded.2 = compare b.amount a.amount :=
    totalCmp_ticks b.amount_le a.amount_le
  cases side with
  | bid =>
    have prices : b.rounded.1.cmp a.rounded.1 = compare b.price a.price :=
      totalCmp_ticks b.price_small a.price_small
    rw [Side.better, Side.gridBetter, amounts, prices]
  | ask =>
    have prices : a.rounded.1.cmp b.rounded.1 = compare a.price b.price :=
      totalCmp_ticks a.price_small b.price_small
    rw [Side.better, Side.gridBetter, amounts, prices]

theorem RoundsBook.levels {grid : GridBook} {book : Book} (rounds : RoundsBook grid book)
    (side : Side) : side.levels book = (side.gridLevels grid).map GridLevel.rounded := by
  cases side with
  | bid => exact rounds.bids
  | ask => exact rounds.asks

theorem cursors_rounded {grids : BTreeMap Venue GridBook} {books : BTreeMap Venue Book}
    (rounds : BTreeMap.Rel RoundsBook grids books) (side : Side) :
    cursors books side = mapElements GridLevel.rounded
      (grids.entries.map fun entry => (entry.1, side.gridLevels entry.2)) := by
  have same : grids.mapValues (fun grid => (side.gridLevels grid).map GridLevel.rounded) =
      books.mapValues side.levels :=
    (rounds.mapValues fun _ _ related => (related.levels side).symm).eq
  rw [mapElements, List.map_map]
  exact congrArg BTreeMap.entries same.symm

theorem mergeSide_rounded {grids : BTreeMap Venue GridBook} {books : BTreeMap Venue Book}
    (rounds : BTreeMap.Rel RoundsBook grids books) (side : Side) :
    mergeSide books side = (gridSide grids side).map publishedLevel := by
  rw [mergeSide_eq, cursors_rounded rounds, greedyMerge_mapElements (better_rounded side),
    List.map_map]
  rfl

/-! ## Both sides -/

/-- The spread of the best rounded levels is the exact one, rounded once. -/
theorem spreadOf_rounded (bid ask : Venue × GridLevel) :
    spreadOf (publishedLevel bid) (publishedLevel ask) =
      ticks (decide ((ask.2.price : Int) - bid.2.price < 0))
        ((ask.2.price : Int) - bid.2.price).natAbs := by
  have sign : ask.2.price < bid.2.price ↔ (ask.2.price : Int) - bid.2.price < 0 := by omega
  rw [← decide_eq_decide.mpr sign]
  exact spreadOf_ticks rfl rfl bid.2.price_le ask.2.price_le

/-- The merge of rounded books is the rounding of the exact merge. -/
theorem merge_rounded {grids : BTreeMap Venue GridBook} {books : BTreeMap Venue Book}
    (rounds : BTreeMap.Rel RoundsBook grids books) :
    merge books = (gridMerge grids).map GridSummary.rounded := by
  have bids := mergeSide_rounded rounds .bid
  have asks := mergeSide_rounded rounds .ask
  rw [gridMerge]
  split
  · rename_i sides
    rw [Option.map_some, merge_eq_some_iff]
    refine ⟨publishedLevel ((gridSide grids .bid).head sides.1),
      publishedLevel ((gridSide grids .ask).head sides.2), ?_, ?_, ?_⟩
    · rw [bids, List.head?_map, List.head?_eq_some_head sides.1]
      rfl
    · rw [asks, List.head?_map, List.head?_eq_some_head sides.2]
      rfl
    · rw [spreadOf_rounded, bids, asks]
      rfl
  · rename_i noSides
    rw [Option.map_none, merge_eq_none_iff, bids, asks, List.map_eq_nil_iff, List.map_eq_nil_iff]
    by_contra both
    rw [not_or] at both
    exact noSides both

/-! ## Telling summaries apart -/

theorem beq_publishedLevel (a b : Venue × GridLevel) :
    (publishedLevel a).beq (publishedLevel b) = decide (a = b) := by
  have venues : a.1.display = b.1.display ↔ a.1 = b.1 := Venue.display_injective.eq_iff
  have prices := beq_ticks a.2.price_small b.2.price_small
  have amounts := beq_ticks a.2.amount_le b.2.amount_le
  have parts : a = b ↔ (a.1 = b.1 ∧ a.2.price = b.2.price) ∧ a.2.amount = b.2.amount := by
    rw [Prod.ext_iff, GridLevel.ext_iff, and_assoc]
  rw [Bool.eq_iff_iff, decide_eq_true_eq, parts, ← venues, Level.beq, Bool.and_eq_true,
    Bool.and_eq_true, decide_eq_true_eq]
  have prices' : (publishedLevel a).price.beq (publishedLevel b).price =
      decide (a.2.price = b.2.price) := prices
  have amounts' : (publishedLevel a).amount.beq (publishedLevel b).amount =
      decide (a.2.amount = b.2.amount) := amounts
  rw [prices', amounts', decide_eq_true_eq, decide_eq_true_eq]
  rfl

theorem beqList_published (as bs : List (Venue × GridLevel)) :
    Level.beqList (as.map publishedLevel) (bs.map publishedLevel) = decide (as = bs) := by
  induction as generalizing bs with
  | nil => cases bs <;> rfl
  | cons a as ih =>
    cases bs with
    | nil => rfl
    | cons b bs =>
      rw [List.map_cons, List.map_cons, Level.beqList, beq_publishedLevel, ih, Bool.eq_iff_iff,
        Bool.and_eq_true, decide_eq_true_eq, decide_eq_true_eq, decide_eq_true_eq, List.cons.injEq]

/-- Rounded summaries are equal where the exact ones are. -/
theorem beq_rounded (a b : GridSummary) : a.rounded.beq b.rounded = decide (a = b) := by
  rw [Bool.eq_iff_iff, decide_eq_true_eq, Summary.beq, Bool.and_eq_true, Bool.and_eq_true]
  constructor
  · rintro ⟨⟨-, bids⟩, asks⟩
    have bids' := (beqList_published a.bids b.bids).symm.trans bids
    have asks' := (beqList_published a.asks b.asks).symm.trans asks
    exact GridSummary.ext (of_decide_eq_true bids') (of_decide_eq_true asks')
  · rintro rfl
    have number : a.rounded.spread.isNan = false := isNan_ofRatio _ _ _
    refine ⟨⟨beq_self_iff.mpr number, ?_⟩, ?_⟩
    · exact (beqList_published a.bids a.bids).trans (decide_eq_true rfl)
    · exact (beqList_published a.asks a.asks).trans (decide_eq_true rfl)

end Orderbook
