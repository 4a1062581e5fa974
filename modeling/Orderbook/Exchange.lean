import Orderbook.Model

/-!
# Venues and the `Exchange` trait

`src/exchange/mod.rs`: which venue a book came from, the per-venue limits, and what an exchange
implementation provides to the feed loop. The trait takes `&self`; an implementation with interior
mutability has a state, so `parse` here takes the state and gives the next one.
-/

namespace Orderbook

/-- The venues, in declaration order. -/
inductive Venue where
  | binance
  | bitstamp
  | kraken
  deriving DecidableEq, Repr

namespace Venue

/-- The position in the declaration, which the derived `Ord` compares. -/
def index : Venue → Nat
  | binance => 0
  | bitstamp => 1
  | kraken => 2

theorem index_injective : Function.Injective index := by
  intro a b h
  cases a <;> cases b <;> simp_all [index]

instance : LinearOrder Venue := LinearOrder.lift' index index_injective

/-- `impl Display for Venue`. -/
def display : Venue → Text
  | binance => "binance".toList
  | bitstamp => "bitstamp".toList
  | kraken => "kraken".toList

/-- A label names one venue. -/
theorem display_injective : Function.Injective display := by
  intro a b
  cases a <;> cases b <;> decide

/-- `(capacity, tokens_per_second)` of the reconnect token bucket. -/
def connectRate : Venue → ℚ × ℚ
  | binance => (5, 1)
  | bitstamp => (5, 1 / 2)
  | kraken => (5, 1 / 2)

/-- How long a venue may go silent before it is excluded from the merge. -/
def stalenessThreshold : Venue → Duration
  | binance => 3 / 2
  | bitstamp => 8
  | kraken => 12

theorem stalenessThreshold_pos (v : Venue) : 0 < v.stalenessThreshold := by
  cases v <;> decide +kernel

end Venue

/-- The case mappings of `str`, whose tables are Unicode's. -/
structure CaseMapping where
  toLowercase : Text → Text
  toUppercase : Text → Text

/-- The `Exchange` trait, over the state `σ` an implementation keeps between messages. -/
structure Exchange (σ : Type) where
  venue : Venue
  connectUrl : Text → Text
  subscribeMessage : Text → Option Text
  parse : σ → Text → ParseClock → σ × Option Book

end Orderbook
