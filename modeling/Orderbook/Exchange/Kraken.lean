import Orderbook.Exchange
import Orderbook.Json
import Orderbook.Misc.StableMerge

/-!
# Kraken

`src/exchange/kraken.rs`: the book channel is one snapshot and then updates with the changed
levels, so `parse` keeps the accumulated book between messages. `serde_json::from_str` at the
types of this file and `crc32fast::hash` are outside the crate and enter as a `Codec`.
-/

namespace Orderbook

namespace Kraken

open StableMerge

/-- How many levels per side Kraken sends and this implementation keeps. -/
def DEPTH : Nat := 10

/-- A price/qty level as it arrives on the wire, as raw JSON text. -/
structure WireLevel where
  price : RawValue
  qty : RawValue
  deriving DecidableEq

/-- The payload inside a book message's `data` array. -/
structure BookData where
  bids : List WireLevel
  asks : List WireLevel
  checksum : UInt32
  deriving DecidableEq

/-- The outer shape of a `channel: "book"` message. -/
structure BookMessage where
  kind : Text
  data : List BookData

/-- The first pass over a message: its channel or its method. -/
structure Peek where
  channel : Option Text
  method : Option Text

/-- The subscribe ack. -/
structure SubscribeAck where
  success : Bool
  error : Option Text

/-- What the file takes from `serde_json` and `crc32fast`: `from_str` at its three types, `none`
where the text does not deserialise, and the CRC-32 of a byte string. -/
structure Codec where
  peek : Text → Option Peek
  bookMessage : Text → Option BookMessage
  subscribeAck : Text → Option SubscribeAck
  hash : List UInt8 → UInt32

/-- One book level: the parsed values for sorting and the raw digits for the checksum. The texts
are JSON numbers that parse to the values. -/
@[ext] structure KrakenLevel where
  price : F64
  priceRaw : Text
  qty : F64
  qtyRaw : Text
  price_isNumber : Json.isNumber priceRaw = true
  price_parses : F64.parse priceRaw = some price
  qty_isNumber : Json.isNumber qtyRaw = true
  qty_parses : F64.parse qtyRaw = some qty
  deriving DecidableEq

/-- The locally accumulated book. -/
@[ext] structure KrakenBook where
  bids : List KrakenLevel
  asks : List KrakenLevel
  deriving DecidableEq

def WireLevel.toLevel (wire : WireLevel) : Option KrakenLevel :=
  match hp : F64.parse wire.price.get with
  | none => none
  | some price =>
      match hq : F64.parse wire.qty.get with
      | none => none
      | some qty => some
          { price, priceRaw := wire.price.get, qty, qtyRaw := wire.qty.get
            price_isNumber := F64.isNumber_of_parse wire.price.isRaw hp
            price_parses := hp
            qty_isNumber := F64.isNumber_of_parse wire.qty.isRaw hq
            qty_parses := hq }

/-- `a.price.total_cmp(&b.price)` for asks, the other way round for bids. -/
def priceCmp (ascending : Bool) (a b : KrakenLevel) : Ordering :=
  if ascending then a.price.totalCmp b.price else b.price.totalCmp a.price

/-- Removes the level's price if its qty is 0, otherwise upserts it, then re-sorts. -/
def upsert (levels : List KrakenLevel) (level : KrakenLevel) (ascending : Bool) :
    List KrakenLevel :=
  let retained := levels.filter fun existing => !existing.price.beq level.price
  let levels := if !level.qty.beq F64.zero then retained ++ [level] else retained
  sortBy (priceCmp ascending) levels

/-- The levels of one side of a snapshot; the first that does not convert ends it. -/
def toLevels : List WireLevel → Option (List KrakenLevel)
  | [] => some []
  | wire :: wires => do
      let level ← wire.toLevel
      let levels ← toLevels wires
      return level :: levels

/-- Builds a fresh book from a `snapshot` message's levels. -/
def KrakenBook.fromSnapshot (data : BookData) : Option KrakenBook := do
  let bids ← toLevels data.bids
  let asks ← toLevels data.asks
  return { bids := (sortBy (priceCmp false) bids).take DEPTH
           asks := (sortBy (priceCmp true) asks).take DEPTH }

/-- The upserts of one side of an update, in place: the levels as they stand when the loop ends,
and whether it ran to the end. A level that does not convert ends it early, with the levels before
it already applied. -/
def applyLevels (ascending : Bool) : List KrakenLevel → List WireLevel → List KrakenLevel × Bool
  | levels, [] => (levels, true)
  | levels, wire :: wires =>
      match wire.toLevel with
      | none => (levels, false)
      | some level => applyLevels ascending (upsert levels level ascending) wires

/-- Applies an `update` message's changed levels in place: the book as it stands on return, and
whether the return is `Some`. -/
def KrakenBook.applyUpdate (book : KrakenBook) (data : BookData) : KrakenBook × Bool :=
  match applyLevels false book.bids data.bids with
  | (bids, false) => ({ book with bids }, false)
  | (bids, true) =>
      match applyLevels true book.asks data.asks with
      | (asks, false) => ({ bids, asks }, false)
      | (asks, true) => ({ bids := bids.take DEPTH, asks := asks.take DEPTH }, true)

theorem KrakenLevel.price_isSome (level : KrakenLevel) :
    (Price.parse level.priceRaw).isSome = true := by
  simp [Price.parse, level.price_parses]

theorem KrakenLevel.qty_isSome (level : KrakenLevel) :
    (Amount.parse level.qtyRaw).isSome = true := by
  simp [Amount.parse, level.qty_parses]

/-- One level of `to_model_book`. The `expect`s on the texts' second parse are met by the level. -/
def KrakenLevel.toPair (level : KrakenLevel) : Price × Amount :=
  ((Price.parse level.priceRaw).get level.price_isSome,
    (Amount.parse level.qtyRaw).get level.qty_isSome)

/-- Converts to the exchange-agnostic `Book`. -/
def KrakenBook.toModelBook (book : KrakenBook) (clock : ParseClock) : Book where
  bids := book.bids.map KrakenLevel.toPair
  asks := book.asks.map KrakenLevel.toPair
  lastUpdateId := 0
  parseStartedAt := clock.startedAt
  parsedAt := clock.finishedAt

/-- Strips a wire-text digit string for the checksum: no `.`, no leading zeros. -/
def stripForChecksum (raw : Text) : Text :=
  let noDot := raw.filter fun c => c != '.'
  let trimmed := noDot.dropWhile fun c => c == '0'
  if trimmed.isEmpty then ['0'] else trimmed

/-- The stripped price and qty digits of the top levels of one side. -/
def checksumText (levels : List KrakenLevel) : Text :=
  (levels.take DEPTH).flatMap fun level =>
    stripForChecksum level.priceRaw ++ stripForChecksum level.qtyRaw

/-- Top 10 asks then bids, price and qty digits concatenated, CRC-32 of the bytes. -/
def computeChecksum (codec : Codec) (book : KrakenBook) : UInt32 :=
  codec.hash ((checksumText book.asks ++ checksumText book.bids).flatMap String.utf8EncodeChar)

end Kraken

/-- `Kraken`: the held book, behind a mutex only for the `Send` bound. -/
structure Kraken where
  book : Option Kraken.KrakenBook
  deriving DecidableEq

namespace Kraken

/-- `Kraken::new`. -/
def new : Kraken := ⟨none⟩

def parseBookMessage (codec : Codec) (kraken : Kraken) (raw : Text) (clock : ParseClock) :
    Kraken × Option Book :=
  match codec.bookMessage raw with
  | none => (kraken, none)
  | some msg =>
      match msg.data.head? with
      | none => (kraken, none)
      | some data =>
          if msg.kind = "snapshot".toList then
            match KrakenBook.fromSnapshot data with
            | none => (kraken, none)
            | some book =>
                if computeChecksum codec book ≠ data.checksum then (⟨none⟩, none)
                else (⟨some book⟩, some (book.toModelBook clock))
          else if msg.kind = "update".toList then
            match kraken.book with
            | none => (kraken, none)
            | some book =>
                match book.applyUpdate data with
                | (book, false) => (⟨some book⟩, none)
                | (book, true) =>
                    if computeChecksum codec book ≠ data.checksum then (⟨none⟩, none)
                    else (⟨some book⟩, some (book.toModelBook clock))
          else (kraken, none)

/-- Dispatches on the channel or method; only a book payload can give a book. The ack of a
subscribe is deserialised only to be logged. -/
def parse (codec : Codec) (kraken : Kraken) (raw : Text) (clock : ParseClock) :
    Kraken × Option Book :=
  match codec.peek raw with
  | none => (kraken, none)
  | some peek =>
      match peek.channel with
      | some channel =>
          if channel = "book".toList then parseBookMessage codec kraken raw clock
          else (kraken, none)
      | none =>
          if peek.method = some "subscribe".toList then
            match codec.subscribeAck raw with
            | some _ => (kraken, none)
            | none => (kraken, none)
          else (kraken, none)

/-- Known quote-currency suffixes, longest first. -/
def QUOTE_SUFFIXES : List Text := ["usdt".toList, "btc".toList, "usd".toList, "eur".toList]

/-- `str::strip_suffix`. -/
def stripSuffix (s suffix : Text) : Option Text :=
  if suffix.isSuffixOf s then some (s.take (s.length - suffix.length)) else none

/-- Converts "ethbtc" into Kraken's "ETH/BTC" form. -/
def toKrakenSymbol (case : CaseMapping) (pair : Text) : Option Text :=
  let lower := case.toLowercase pair
  QUOTE_SUFFIXES.findSome? fun suffix =>
    (stripSuffix lower suffix).bind fun base =>
      if base.isEmpty then none
      else some (case.toUppercase base ++ "/".toList ++ case.toUppercase suffix)

def subscribeMessage (case : CaseMapping) (pair : Text) : Option Text :=
  (toKrakenSymbol case pair).map fun symbol =>
    "\x7b\"method\":\"subscribe\",\"params\":\x7b\"channel\":\"book\",\"symbol\":[\"".toList ++
      symbol ++ "\"],\"depth\":10\x7d\x7d".toList

/-- `impl Exchange for Kraken`. -/
def exchange (codec : Codec) (case : CaseMapping) : Exchange Kraken where
  venue := .kraken
  connectUrl _ := "wss://ws.kraken.com/v2".toList
  subscribeMessage := subscribeMessage case
  parse := parse codec

end Kraken

end Orderbook
