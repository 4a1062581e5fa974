import Orderbook.Exchange
import Orderbook.Serde

/-!
# Bitstamp

`src/exchange/bitstamp.rs`: every message comes in an envelope, and only one whose event is `data`
carries a book. The reading of a text as JSON is outside the crate and enters as a function.
-/

namespace Orderbook

namespace Bitstamp

open Json

/-- The book payload inside a `data` event. -/
structure Data where
  bids : List (Text × Text)
  asks : List (Text × Text)
  deriving DecidableEq

/-- Bitstamp wraps every message in an envelope. -/
structure Envelope where
  event : Text
  data : Option Data
  deriving DecidableEq

/-- `#[derive(Deserialize)]` of `Data`. -/
def Data.deserialize (value : Value) : Option Data := do
  match ← Serde.fields ["bids".toList, "asks".toList] value with
  | [bids, asks] =>
      let bids ← Serde.required (Serde.vec (Serde.pair Serde.str)) bids
      let asks ← Serde.required (Serde.vec (Serde.pair Serde.str)) asks
      return { bids, asks }
  | _ => none

/-- `#[derive(Deserialize)]` of `Envelope`. -/
def Envelope.deserialize (value : Value) : Option Envelope := do
  match ← Serde.fields ["event".toList, "data".toList] value with
  | [event, data] =>
      let event ← Serde.required Serde.str event
      let data ← Serde.withDefault none (Serde.option Data.deserialize) data
      return { event, data }
  | _ => none

/-- Converts `[price, amount]` pairs into levels; none if any level fails to parse. -/
def parseLevels (levels : List (Text × Text)) : Option (List (Price × Amount)) :=
  levels.mapM fun (price, amount) => do
    let price ← Price.parse price
    let amount ← Amount.parse amount
    return (price, amount)

/-- The levels of a log line. -/
inductive LogLevel where
  | debug
  | info
  | warn
  deriving DecidableEq, Repr

/-- A line `parse` logs, with the text it shows beside the message. What `serde_json` says of an
envelope it does not take is left out. -/
structure LogLine where
  level : LogLevel
  message : Text
  shown : Option Text
  deriving DecidableEq

/-- The line for a text that is no envelope. -/
def notAnEnvelope : LogLine where
  level := .debug
  message := "not a recognizable bitstamp envelope, skipping".toList
  shown := none

/-- The book of a `data` event. -/
def bookOf (data : Option Data) (clock : ParseClock) : Option Book := do
  let data ← data
  let bids ← parseLevels data.bids
  let asks ← parseLevels data.asks
  return { bids, asks, lastUpdateId := 0
           parseStartedAt := clock.startedAt, parsedAt := clock.finishedAt }

/-- The arms of `parse`: what is logged, and what is returned. -/
def dispatch (raw : Text) (envelope : Envelope) (clock : ParseClock) :
    Option LogLine × Option Book :=
  if envelope.event = "data".toList then (none, bookOf envelope.data clock)
  else if envelope.event = "bts:subscription_succeeded".toList then
    (some ⟨.info, "bitstamp subscription succeeded".toList, none⟩, none)
  else if envelope.event = "bts:request_reconnect".toList then
    (some ⟨.info, "bitstamp requested a reconnect".toList, none⟩, none)
  else if envelope.event = "bts:error".toList then
    (some ⟨.warn, "bitstamp reported an error".toList, some raw⟩, none)
  else
    (some ⟨.debug, "unrecognized bitstamp event, skipping".toList, some envelope.event⟩, none)

/-- `parse`, with the line it logs. -/
def parseLogged (json : Text → Option Value) (raw : Text) (clock : ParseClock) :
    Option LogLine × Option Book :=
  match (json raw).bind Envelope.deserialize with
  | none => (some notAnEnvelope, none)
  | some envelope => dispatch raw envelope clock

/-- `none` for anything that is not a `data` event: malformed JSON or a lifecycle message. -/
def parse (json : Text → Option Value) (raw : Text) (clock : ParseClock) : Option Book :=
  (parseLogged json raw clock).2

def subscribeMessage (case : CaseMapping) (pair : Text) : Text :=
  "\x7b\"event\":\"bts:subscribe\",\"data\":\x7b\"channel\":\"order_book_".toList ++
    case.toLowercase pair ++ "\"\x7d\x7d".toList

/-- `impl Exchange for Bitstamp`. The endpoint has nothing of the pair in it. -/
def exchange (json : Text → Option Value) (case : CaseMapping) : Exchange Unit where
  venue := .bitstamp
  connectUrl _ := "wss://ws.bitstamp.net".toList
  subscribeMessage pair := some (subscribeMessage case pair)
  parse _ raw clock := ((), parse json raw clock)

end Bitstamp

end Orderbook
