import Orderbook.Exchange
import Orderbook.Serde

/-!
# Binance

`src/exchange/binance.rs`: every `depth20` message is a whole book, so `parse` keeps nothing
between messages. `serde_json::from_str` at `Depth20` enters as a function; `depth20` is that
function over `serde_json`'s reading of a text as one value.
-/

namespace Orderbook

namespace Binance

def HOST : Text := "stream.binance.com".toList

def PORT : Text := "9443".toList

/-- Binance's `depth20@100ms` payload shape. -/
structure Depth20 where
  lastUpdateId : Nat
  bids : List (Text × Text)
  asks : List (Text × Text)

/-- `#[derive(Deserialize)]` of `Depth20`. -/
def Depth20.deserialize (value : Json.Value) : Option Depth20 := do
  match ← Serde.fields ["lastUpdateId".toList, "bids".toList, "asks".toList] value with
  | [lastUpdateId, bids, asks] =>
      let lastUpdateId ← Serde.required Serde.u64 lastUpdateId
      let bids ← Serde.required (Serde.vec (Serde.pair Serde.str)) bids
      let asks ← Serde.required (Serde.vec (Serde.pair Serde.str)) asks
      return { lastUpdateId, bids, asks }
  | _ => none

/-- `serde_json::from_str` at `Depth20`. -/
def depth20 (json : Text → Option Json.Value) (text : Text) : Option Depth20 :=
  (json text).bind Depth20.deserialize

/-- Converts `[price, amount]` pairs into levels; none if any level fails to parse. -/
def parseLevels : List (Text × Text) → Option (List (Price × Amount))
  | [] => some []
  | (price, amount) :: levels => do
      let price ← Price.parse price
      let amount ← Amount.parse amount
      let rest ← parseLevels levels
      return (price, amount) :: rest

/-- `none` for anything that is not a book payload. -/
def parse (depth20 : Text → Option Depth20) (text : Text) (clock : ParseClock) : Option Book := do
  let raw ← depth20 text
  let bids ← parseLevels raw.bids
  let asks ← parseLevels raw.asks
  return { bids, asks, lastUpdateId := raw.lastUpdateId
           parseStartedAt := clock.startedAt, parsedAt := clock.finishedAt }

/-- `impl Exchange for Binance`. The subscription is part of the URL. -/
def exchange (depth20 : Text → Option Depth20) (case : CaseMapping) : Exchange Unit where
  venue := .binance
  connectUrl pair :=
    "wss://".toList ++ HOST ++ ":".toList ++ PORT ++ "/ws/".toList ++ case.toLowercase pair ++
      "@depth20@100ms".toList
  subscribeMessage _ := none
  parse _ text clock := ((), parse depth20 text clock)

end Binance

end Orderbook
