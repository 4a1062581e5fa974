import Orderbook.Fmt
import Orderbook.Merge
import Orderbook.Misc.Cuts
import Mathlib.Data.List.Sort
import Mathlib.Data.Rat.Floor

/-!
# The terminal client's frames

`src/bin/client.rs`, from `render` down. The wall clock and the instant at which a frame is drawn
are arguments, and an index out of bounds, which panics, is `none`.
-/

namespace Orderbook

namespace F64

/-- `+`: subtraction of the negated operand, which rounds and treats zeros the same. -/
def add (a b : F64) : F64 := a.sub b.neg

/-- `<`, false as soon as one side is a NaN. -/
def lt (a b : F64) : Bool := !a.isNan && !b.isNan && decide (a.key < b.key)

/-- `f64::max`, which prefers a number to a NaN. -/
def maxNum (a b : F64) : F64 :=
  if a.isNan then b else if b.isNan then a else if a.lt b then b else a

/-- `f64::clamp`. -/
def clamp (x low high : F64) : F64 :=
  let x := if x.lt low then low else x
  if high.lt x then high else x

/-- `as usize`: towards zero, within the type, zero for a NaN. -/
def toUsize (x : F64) : Nat :=
  if x.isNan || x.sign then 0
  else if x.isInfinite then 2 ^ 64 - 1
  else min (x.units / 2 ^ 1074) (2 ^ 64 - 1)

/-- `Duration::as_secs_f64`. -/
def asSecsF64 (d : Duration) : F64 :=
  let secs := ⌊d⌋.toNat
  let nanos := ⌊(d - secs) * 1000000000⌋.toNat
  (ofNat secs).add ((ofNat nanos).div (ofNat 1000000000))

end F64

namespace Client

open Cuts

def ROWS : Nat := 10

def VENUES : List Venue := [.binance, .bitstamp, .kraken]

/-- The part of `Stats` a frame shows. -/
structure Stats where
  count : Nat
  rate : F64

/-- When each venue was last seen. -/
structure VenueTracker where
  lastSeen : Venue → Option Instant

/-- The clock readings of one frame: seconds of the wall clock, and `Instant::now`. -/
structure FrameClock where
  secs : Nat
  now : Instant

def TABLE_WIDTH : Nat := 72

/-! ## Borders and rows -/

/-- A border line, `TABLE_WIDTH + 2` dashes wide. -/
def border (left right : Char) : Text :=
  left :: (List.replicate (TABLE_WIDTH + 2) '─' ++ [right, '\n'])

/-- Where `visible_len` is: outside an escape sequence, after the escape, or before its letter. -/
inductive Skip where
  | outside
  | escape
  | sequence

def visibleLenFrom : Skip → Text → Nat
  | _, [] => 0
  | .outside, c :: cs =>
      if c = '\x1b' then visibleLenFrom .escape cs else visibleLenFrom .outside cs + 1
  | .escape, c :: cs => visibleLenFrom (if c = '[' then .sequence else .outside) cs
  | .sequence, c :: cs => visibleLenFrom (if c.isAlpha then .outside else .sequence) cs

/-- Visible character count, skipping ANSI escape sequences. -/
def visibleLen (s : Text) : Nat := visibleLenFrom .outside s

/-- Wraps content in the table's side borders, padded to `TABLE_WIDTH` on visible width. -/
def row (content : Text) : Text :=
  "│ ".toList ++ content ++ List.replicate (TABLE_WIDTH - visibleLen content) ' ' ++ " │\n".toList

def colourize (text code : Text) (colour : Bool) : Text :=
  if colour then code ++ text ++ "\x1b[0m".toList else text

/-! ## Cells -/

/-- Total visible width of one bid/ask cell. -/
def CELL_WIDTH : Nat := 35

/-- Where the price/amount region ends and the venue label begins. -/
def CELL_FG_SPLIT : Nat := 26

def BAR_BG_BID : Text := "48;5;22".toList

def BAR_BG_ASK : Text := "48;5;52".toList

/-- Which edge a depth bar grows from. -/
inductive FillFrom where
  | left
  | right
  deriving DecidableEq, Repr

/-- `&chars[start..stop]`, which panics beyond the end. -/
def slice (chars : Text) (start stop : Nat) : Option Text :=
  if start ≤ stop ∧ stop ≤ chars.length then some ((chars.drop start).take (stop - start)) else none

/-- The columns of the bar, from its start to before its end. -/
def barOf (fillLen : Nat) : FillFrom → Nat × Nat
  | .left => (0, fillLen)
  | .right => (CELL_WIDTH - fillLen, CELL_WIDTH)

/-- The loop of `shade_cell` over the runs between two boundaries. -/
def shadeRuns (chars priceFg barBg : Text) (bar : Nat × Nat) : List (Nat × Nat) → Option Text
  | [] => some []
  | (start, stop) :: runs =>
      if start = stop then shadeRuns chars priceFg barBg bar runs
      else do
        let fg := if start < CELL_FG_SPLIT then priceFg else "2".toList
        let bg := if bar.1 ≤ start ∧ start < bar.2 then barBg else "49".toList
        let run ← slice chars start stop
        let rest ← shadeRuns chars priceFg barBg bar runs
        return "\x1b[".toList ++ fg ++ ";".toList ++ bg ++ "m".toList ++ run ++ rest

/-- The boundaries of the runs, sorted. -/
def boundaries (bar : Nat × Nat) : List Nat :=
  [0, min CELL_FG_SPLIT CELL_WIDTH, bar.1, bar.2, CELL_WIDTH].insertionSort (· ≤ ·)

/-- Wraps `plain` in ANSI codes, combining two boundaries: where the foreground turns dim and the
background bar. -/
def shadeCell (plain priceFg barBg : Text) (fillLen : Nat) (fillFrom : FillFrom) : Option Text := do
  let bar := barOf (min fillLen CELL_WIDTH) fillFrom
  let out ← shadeRuns plain priceFg barBg bar (pairs (boundaries bar))
  return out ++ "\x1b[0m".toList

/-- The text of a level: price, amount, venue label. -/
def cellText (level : Level) : Text :=
  Fmt.right 12 (Fmt.fixed 8 level.price) ++ " ".toList ++
    Fmt.right 13 (Fmt.fixed 8 level.amount) ++ " ".toList ++ Fmt.left 8 level.exchange

/-- The length of a level's bar. -/
def fillLenOf (amount maxAmount : F64) : Nat :=
  if F64.zero.lt maxAmount then
    ((((amount.div maxAmount).mul (F64.ofNat CELL_WIDTH)).round).clamp F64.zero
      (F64.ofNat CELL_WIDTH)).toUsize
  else 0

/-- One bid or ask cell. No level is blank padding. -/
def levelCell (level : Option Level) (colour : Bool) (priceFg barBg : Text) (maxAmount : F64)
    (fillFrom : FillFrom) : Option Text :=
  match level with
  | none => some (List.replicate CELL_WIDTH ' ')
  | some l =>
      if colour then
        shadeCell (cellText l) priceFg barBg (fillLenOf l.amount maxAmount) fillFrom
      else some (cellText l)

/-! ## The other lines -/

/-- The spread in basis points of the middle of the best prices, if there is one to divide by. -/
def bpsText (summary : Summary) : Text :=
  let mid :=
    match summary.bids.head?, summary.asks.head? with
    | some bid, some ask => some ((bid.price.add ask.price).div (F64.ofNat 2))
    | _, _ => none
  match mid with
  | some m =>
      if m.beq F64.zero then "n/a".toList
      else Fmt.fixed 1 ((summary.spread.div m).mul (F64.ofNat 10000)) ++ " bps".toList
  | none => "n/a".toList

def rateText (stats : Stats) : Text :=
  if stats.rate.isFinite then Fmt.fixed 1 stats.rate ++ "/s".toList else "-.-/s".toList

/-- The bottom summary line: spread, spread in basis points, messages, and update rate. -/
def spreadLine (summary : Summary) (stats : Stats) (colour : Bool) : Text :=
  let field := Fmt.left 40 ("spread ".toList ++ Fmt.right 12 (Fmt.fixed 8 summary.spread) ++
    " (".toList ++ bpsText summary ++ ")".toList)
  let field :=
    if summary.spread.lt F64.zero then colourize field "\x1b[1;31m".toList colour else field
  field ++ Fmt.right 8 (Fmt.nat stats.count) ++ " updates   ".toList ++ Fmt.left 8 (rateText stats)

/-- Wall-clock HH:MM:SS, UTC. -/
def nowHms (secs : Nat) : Text :=
  Fmt.zeroPadded 2 (secs / 3600 % 24) ++ ":".toList ++ Fmt.zeroPadded 2 (secs / 60 % 60) ++
    ":".toList ++ Fmt.zeroPadded 2 (secs % 60)

/-- Seconds since the venue was last seen, zero if it never was. -/
def elapsedOf (tracker : VenueTracker) (now : Instant) (venue : Venue) : F64 :=
  match tracker.lastSeen venue with
  | none => F64.zero
  | some seen => F64.asSecsF64 (durationSince now seen)

/-- One venue's status: seen in this frame, or stale for so long. -/
def statusOf (tracker : VenueTracker) (present : Venue → Bool) (now : Instant) (colour : Bool)
    (venue : Venue) : Text :=
  if present venue then colourize (venue.display ++ " ●".toList) "\x1b[32m".toList colour
  else
    colourize
      (venue.display ++ " ○ stale ".toList ++ Fmt.fixed 1 (elapsedOf tracker now venue) ++
        "s".toList)
      "\x1b[31m".toList colour

/-- Each venue's status, two blanks between them. -/
def venueStatus (venues : List Venue) (tracker : VenueTracker) (present : Venue → Bool)
    (now : Instant) (colour : Bool) : Text :=
  (venues.map (statusOf tracker present now colour)).intersperse "  ".toList |>.flatten

/-- The status line, its clock at the right. -/
def headerLine (venues : List Venue) (tracker : VenueTracker) (present : Venue → Bool)
    (clock : FrameClock) (colour : Bool) : Text :=
  let status := venueStatus venues tracker present clock.now colour
  status ++ List.replicate (56 - visibleLen status) ' ' ++ Fmt.right 16 (nowHms clock.secs)

/-- The largest amount of both sides. -/
def maxAmountOf (summary : Summary) : F64 :=
  ((summary.bids ++ summary.asks).map Level.amount).foldl F64.maxNum F64.zero

/-- The `i`th levels of both sides. -/
def levelContent (summary : Summary) (colour : Bool) (i : Nat) : Option Text := do
  let maxAmount := maxAmountOf summary
  let bid ← levelCell summary.bids[i]? colour "32".toList BAR_BG_BID maxAmount .right
  let ask ← levelCell summary.asks[i]? colour "31".toList BAR_BG_ASK maxAmount .left
  return bid ++ " ".toList ++ ask

/-- The column titles. -/
def titles : Text := Fmt.center 35 "BIDS".toList ++ " ".toList ++ Fmt.center 35 "ASKS".toList

/-- Builds one frame as a boxed table: cursor home, then borders and rows. -/
def render (venues : List Venue) (tracker : VenueTracker) (present : Venue → Bool)
    (summary : Summary) (stats : Stats) (colour : Bool) (clock : FrameClock) : Option Text := do
  let levels ← (List.range ROWS).mapM (levelContent summary colour)
  return (if colour then "\x1b[H".toList else []) ++ border '┌' '┐' ++
    row (headerLine venues tracker present clock colour) ++ border '├' '┤' ++
    row titles ++ border '├' '┤' ++ (levels.map row).flatten ++ border '├' '┤' ++
    row (spreadLine summary stats colour) ++ border '└' '┘'

end Client

end Orderbook
