import Orderbook.Proofs.KrakenAtomicity
import Orderbook.Proofs.Merge

/-!
# The order of Kraken's books

The held sides are sorted on the stored prices, and the books given out carry prices parsed again
from the texts. A level holds texts that parse to its values, so both orders are the same one, and
it is the price order `merge_side` reads.
-/

namespace Orderbook

namespace Kraken

open StableMerge

/-- The texts of a level parse to its values, as the `expect`s of `to_model_book` need. -/
structure KrakenLevel.Converts (level : KrakenLevel) : Prop where
  price : Price.parse level.priceRaw = some ⟨level.price⟩
  qty : Amount.parse level.qtyRaw = some ⟨level.qty⟩

theorem KrakenLevel.converts (level : KrakenLevel) : level.Converts where
  price := by rw [Price.parse, level.price_parses, Option.map_some]
  qty := by rw [Amount.parse, level.qty_parses, Option.map_some]

/-- The second parse gives the stored values back. -/
theorem KrakenLevel.toPair_eq (level : KrakenLevel) :
    level.toPair = (⟨level.price⟩, ⟨level.qty⟩) := by
  have price := level.converts.price
  have qty := level.converts.qty
  apply Prod.ext
  · apply Option.some_inj.mp
    rw [← price]
    exact Option.some_get level.price_isSome
  · apply Option.some_inj.mp
    rw [← qty]
    exact Option.some_get level.qty_isSome

/-- At most `DEPTH` levels a side, bids from the highest price down and asks from the lowest up. -/
structure Ordered (book : Book) : Prop where
  depth : ∀ side : Side, (side.levels book).length ≤ DEPTH
  bids : book.bids.Pairwise fun a b => (a.1.cmp b.1).isGE = true
  asks : book.asks.Pairwise fun a b => (a.1.cmp b.1).isLE = true

/-- `Price`'s order seen from the other side. -/
theorem isGE_cmp (a b : Price) : (a.cmp b).isGE = (b.cmp a).isLE := by
  have swapped : b.cmp a = (a.cmp b).swap := @Std.OrientedCmp.eq_swap F64 F64.totalCmp _ ..
  rw [swapped]
  cases a.cmp b <;> rfl

/-- It is the price order of each side of the merge. -/
theorem Ordered.byPrice {book : Book} (ordered : Ordered book) (side : Side) :
    (side.levels book).Pairwise (NotAfter side.byPrice) := by
  cases side with
  | bid =>
    refine ordered.bids.imp fun {a b} above => ?_
    rw [isGE_cmp] at above
    exact above
  | ask => exact ordered.asks

theorem KrakenBook.ordered_toModelBook {book : KrakenBook} (sorted : book.Sorted) (cut : book.Cut)
    (clock : ParseClock) : Ordered (book.toModelBook clock) := by
  constructor
  · intro side
    cases side with
    | bid => exact (List.length_map _).trans_le cut.1
    | ask => exact (List.length_map _).trans_le cut.2
  · show (book.bids.map KrakenLevel.toPair).Pairwise _
    rw [List.pairwise_map]
    refine sorted.1.imp fun {a b} above => ?_
    rw [a.toPair_eq, b.toPair_eq, isGE_cmp]
    exact above
  · show (book.asks.map KrakenLevel.toPair).Pairwise _
    rw [List.pairwise_map]
    refine sorted.2.imp fun {a b} below => ?_
    rw [a.toPair_eq, b.toPair_eq]
    exact below

/-- Whatever texts a `Kraken` has read, every level it holds converts, and a book it gives next is
cut to `DEPTH` and in the price order of the merge. -/
theorem held_converts_and_books_ordered (codec : Codec) (msgs : List (Text × ParseClock)) :
    (∀ book, ((machine codec).final new msgs).book = some book →
      ∀ level ∈ book.bids ++ book.asks, level.Converts) ∧
    ∀ msg out, (machine codec ((machine codec).final new msgs) msg).2 = some out →
      Ordered out ∧ ∀ side : Side, (side.levels out).Pairwise (NotAfter side.byPrice) := by
  constructor
  · intro book _ level _
    exact level.converts
  · intro msg out gives
    obtain ⟨data, book, cut, accepted, -⟩ := accepted_of_some codec msgs msg gives
    obtain rfl : out = book.toModelBook msg.2 := Option.some_inj.mp accepted.converted
    have sorted : book.Sorted := heldSorted_final codec (msgs ++ [msg]) book accepted.held
    have ordered := KrakenBook.ordered_toModelBook sorted cut msg.2
    exact ⟨ordered, ordered.byPrice⟩

end Kraken

end Orderbook
