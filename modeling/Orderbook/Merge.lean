import Orderbook.Exchange
import Orderbook.Misc.BTreeMap
import Orderbook.Misc.StableMerge

/-!
# Merging the books of all venues

`src/merge.rs`, with the `Level` and `Summary` messages of `proto/orderbook.proto`.
-/

namespace Orderbook

open StableMerge

/-- One level of a published side. -/
structure Level where
  exchange : Text
  price : F64
  amount : F64
  deriving DecidableEq, Repr

/-- What subscribers receive. -/
structure Summary where
  spread : F64
  bids : List Level
  asks : List Level
  deriving DecidableEq, Repr

/-- The derived `==`, which compares floats with `==`. -/
def Level.beq (a b : Level) : Bool :=
  decide (a.exchange = b.exchange) && a.price.beq b.price && a.amount.beq b.amount

/-- `==` on `Vec<Level>`. -/
def Level.beqList : List Level → List Level → Bool
  | [], [] => true
  | a :: as, b :: bs => a.beq b && beqList as bs
  | _, _ => false

/-- The derived `==`. -/
def Summary.beq (a b : Summary) : Bool :=
  a.spread.beq b.spread && Level.beqList a.bids b.bids && Level.beqList a.asks b.asks

def TOP_N : Nat := 10

/-- Which side of the book is being merged. -/
inductive Side where
  | bid
  | ask
  deriving DecidableEq, Repr

/-- `Less` when `a` should come before `b`: better price first, then the larger amount. -/
def Side.better (side : Side) (a b : Price × Amount) : Ordering :=
  let byPrice :=
    match side with
    | ask => a.1.cmp b.1
    | bid => b.1.cmp a.1
  byPrice.then (b.2.cmp a.2)

/-- Which of the book's two lists this side reads. -/
def Side.levels (side : Side) (book : Book) : List (Price × Amount) :=
  match side with
  | bid => book.bids
  | ask => book.asks

/-- One cursor per venue, in venue order: what is left of its side. -/
def cursors (venues : BTreeMap Venue Book) (side : Side) : List (Venue × List (Price × Amount)) :=
  venues.entries.map fun entry => (entry.1, side.levels entry.2)

/-- The level a merge step pushes. -/
def Level.of (venue : Venue) (level : Price × Amount) : Level where
  exchange := venue.display
  price := level.1.val
  amount := level.2.val

/-- The loop of `merge_side` while there is room for more levels: the best of the fronts, the first
venue on a tie, is pushed and its cursor moves on. -/
def mergeLoop (side : Side) : Nat → List (Venue × List (Price × Amount)) → List Level
  | 0, _ => []
  | room + 1, cursors =>
      match minBy (byFront side.better) (fronts cursors) with
      | none => []
      | some (i, venue, level) => Level.of venue level :: mergeLoop side room (advance cursors i)

/-- Merges one side across every venue into the top `TOP_N` levels, best first. -/
def mergeSide (venues : BTreeMap Venue Book) (side : Side) : List Level :=
  mergeLoop side TOP_N (cursors venues side)

/-- The difference of the best prices, rounded to the 8-decimal tick. -/
def spreadOf (bestBid bestAsk : Level) : F64 :=
  (((bestAsk.price.sub bestBid.price).mul (F64.ofNat 100000000)).round).div (F64.ofNat 100000000)

/-- Top levels of both sides and the spread; `none` where a side is empty. -/
def merge (venues : BTreeMap Venue Book) : Option Summary :=
  let bids := mergeSide venues .bid
  let asks := mergeSide venues .ask
  match bids.head?, asks.head? with
  | some bestBid, some bestAsk => some { spread := spreadOf bestBid bestAsk, bids, asks }
  | _, _ => none

end Orderbook
