import Orderbook.Fmt
import Mathlib.Algebra.Order.Ring.Rat

/-!
# Prices, amounts and books

`src/model.rs`: the newtypes around `f64` with the order `total_cmp` gives them, and the
exchange-agnostic book. Instants and durations are rational numbers of seconds, which every value
of the source's nanosecond clock is.
-/

namespace Orderbook

/-- `std::time::Instant`, in seconds since some epoch. -/
abbrev Instant := ℚ

/-- `std::time::Duration`, in seconds. -/
abbrev Duration := ℚ

/-- `Instant::duration_since`, which saturates at zero. -/
def durationSince (later earlier : Instant) : Duration := max 0 (later - earlier)

/-- A price, parsed directly from the exchange's decimal string. -/
structure Price where
  val : F64
  deriving DecidableEq, Repr

/-- An amount, parsed directly from the exchange's decimal string. -/
structure Amount where
  val : F64
  deriving DecidableEq, Repr

def Price.parse (s : Text) : Option Price := (F64.parse s).map Price.mk

def Amount.parse (s : Text) : Option Amount := (F64.parse s).map Amount.mk

/-- The derived `==`. -/
def Price.beq (a b : Price) : Bool := a.val.beq b.val

/-- The derived `==`. -/
def Amount.beq (a b : Amount) : Bool := a.val.beq b.val

/-- `impl Ord for Price`. -/
def Price.cmp (a b : Price) : Ordering := a.val.totalCmp b.val

/-- `impl Ord for Amount`. -/
def Amount.cmp (a b : Amount) : Ordering := a.val.totalCmp b.val

/-- `impl Display for Price`. -/
def Price.display (price : Price) : Text := Fmt.fixed 8 price.val

/-- `impl Display for Amount`. -/
def Amount.display (amount : Amount) : Text := Fmt.fixed 8 amount.val

/-- An exchange-agnostic order book snapshot. -/
structure Book where
  bids : List (Price × Amount)
  asks : List (Price × Amount)
  lastUpdateId : Nat
  parseStartedAt : Instant
  parsedAt : Instant
  deriving DecidableEq

/-- The derived `==` of a level, a pair. -/
def levelBeq (a b : Price × Amount) : Bool := a.1.beq b.1 && a.2.beq b.2

/-- The derived `==`. -/
def Book.beq (a b : Book) : Bool :=
  a.bids.isEqv b.bids levelBeq && a.asks.isEqv b.asks levelBeq &&
    a.lastUpdateId == b.lastUpdateId && a.parseStartedAt == b.parseStartedAt &&
    a.parsedAt == b.parsedAt

/-- The two clock readings of one `parse`: before deserialising, and when the book is built. -/
structure ParseClock where
  startedAt : Instant
  finishedAt : Instant

end Orderbook
