import Orderbook.Merge
import Mathlib.Algebra.Order.Floor.Ring
import Mathlib.Data.Rat.Floor

/-!
# The aggregator

`src/aggregator.rs`: the last book of each venue, the freshness filter, `merge`, and the `watch`
channel. `hdrhistogram` is outside the crate and enters as a `HistogramApi`. What `log_report` only
formats is its `Report`; the log lines themselves are left out.
-/

namespace Orderbook

/-- Max wait for any venue's first book before exiting. -/
def GRACE : Duration := 60

/-- How often the grace period is checked. -/
def GRACE_CHECK_INTERVAL : Duration := 5

/-- How often the latency/throughput report is logged. -/
def REPORT_INTERVAL : Duration := 30

/-- What the file takes from `hdrhistogram`; `record` is `none` where the value is rejected. -/
structure HistogramApi (H : Type) where
  new : H
  record : H → Nat → Option H
  reset : H → H

/-- `tokio::sync::watch`: the current value, how often one was sent, and the live receivers. -/
structure Watch where
  value : Option Summary
  version : Nat
  receivers : Nat
  deriving DecidableEq

/-- `watch::Sender::send`, which fails and keeps the old value once every receiver is dropped. -/
def Watch.send (tx : Watch) (value : Option Summary) : Watch :=
  if tx.receivers = 0 then tx else { tx with value, version := tx.version + 1 }

/-- The last book received from one venue, plus when it arrived. -/
structure VenueState where
  book : Book
  lastUpdate : Instant
  deriving DecidableEq

/-- Per-venue state plus latency and dedup counters. -/
structure Aggregator (H : Type) where
  venues : BTreeMap Venue VenueState
  parseHistogram : H
  mergePublishHistogram : H
  totalHistogram : H
  updateCount : Nat
  duplicateCount : Nat
  lastPublished : Option Summary

variable {H : Type}

/-- `Aggregator::new`. -/
def Aggregator.new (api : HistogramApi H) : Aggregator H where
  venues := BTreeMap.empty
  parseHistogram := api.new
  mergePublishHistogram := api.new
  totalHistogram := api.new
  updateCount := 0
  duplicateCount := 0
  lastPublished := none

/-- `Duration::as_nanos` cast to `u64`. -/
def asNanos (duration : Duration) : Nat := ⌊duration * 1000000000⌋.toNat % 2 ^ 64

/-- Records a duration; a rejected value is logged and dropped. -/
def recordDuration (api : HistogramApi H) (histogram : H) (duration : Duration) : H :=
  (api.record histogram (asNanos duration)).getD histogram

/-- Filters to venues still fresh as of `now`. -/
def freshVenues (venues : BTreeMap Venue VenueState) (now : Instant) : BTreeMap Venue Book :=
  (venues.filter fun venue state =>
    decide (durationSince now state.lastUpdate < venue.stalenessThreshold)).mapValues
      fun state => state.book

/-- One call of `record_and_publish`: its arguments and the two clock readings after a send. -/
structure Call where
  venue : Venue
  book : Book
  now : Instant
  mergedAt : Instant
  totalAt : Instant
  deriving DecidableEq

/-- Records the parse span, updates venue state, merges, and sends the result if it differs from
the last one. The last part of the result is the value handed to `tx.send`, if there was one. -/
def recordAndPublish (api : HistogramApi H) (aggregator : Aggregator H) (tx : Watch) (call : Call) :
    (Aggregator H × Watch) × Option Summary :=
  let book := call.book
  let aggregator := { aggregator with
    parseHistogram := recordDuration api aggregator.parseHistogram
      (durationSince book.parsedAt book.parseStartedAt)
    venues := aggregator.venues.insert call.venue ⟨book, call.now⟩ }
  match merge (freshVenues aggregator.venues call.now) with
  | none => ((aggregator, tx), none)
  | some summary =>
      let isDuplicate := aggregator.lastPublished.any fun last => last.beq summary
      let aggregator := { aggregator with lastPublished := some summary }
      if isDuplicate then
        (({ aggregator with duplicateCount := aggregator.duplicateCount + 1 }, tx), none)
      else
        (({ aggregator with
            mergePublishHistogram := recordDuration api aggregator.mergePublishHistogram
              (durationSince call.mergedAt book.parsedAt)
            totalHistogram := recordDuration api aggregator.totalHistogram
              (durationSince call.totalAt book.parseStartedAt)
            updateCount := aggregator.updateCount + 1 }, tx.send (some summary)), some summary)

/-- What one report reads; `updatesThisWindow` is `none` where the subtraction would underflow. -/
structure Report (H : Type) where
  updatesThisWindow : Option Nat
  totalMerges : Nat
  duplicateCount : Nat
  totalHistogram : H
  parseHistogram : H
  mergePublishHistogram : H

/-- The report since the last one; the histograms start over. -/
def logReport (api : HistogramApi H) (aggregator : Aggregator H)
    (updateCountAtLastReport : Nat) : Aggregator H × Report H :=
  let report :=
    { updatesThisWindow :=
        if updateCountAtLastReport ≤ aggregator.updateCount then
          some (aggregator.updateCount - updateCountAtLastReport)
        else none
      totalMerges := aggregator.updateCount + aggregator.duplicateCount
      duplicateCount := aggregator.duplicateCount
      totalHistogram := aggregator.totalHistogram
      parseHistogram := aggregator.parseHistogram
      mergePublishHistogram := aggregator.mergePublishHistogram }
  ({ aggregator with
      totalHistogram := api.reset aggregator.totalHistogram
      parseHistogram := api.reset aggregator.parseHistogram
      mergePublishHistogram := api.reset aggregator.mergePublishHistogram }, report)

/-- Has the grace period elapsed with no venue ever producing a book? -/
def pastGrace (startedAt now : Instant) (venuesEmpty : Bool) : Bool :=
  decide (durationSince now startedAt > GRACE) && venuesEmpty

/-- What `select!` in `run` can find ready, and when. -/
inductive Event where
  | book (call : Call)
  | closed (now : Instant)
  | graceCheck (now : Instant)
  | reportTick (now : Instant)

def Event.now : Event → Instant
  | book call => call.now
  | closed now => now
  | graceCheck now => now
  | reportTick now => now

/-- The locals of `run`; `ended` once it has returned. -/
structure RunState (H : Type) where
  aggregator : Aggregator H
  tx : Watch
  startedAt : Instant
  updateCountAtLastReport : Nat
  ended : Bool

/-- What one turn of the loop shows: a value sent, a report logged. -/
structure Shown (H : Type) where
  sent : Option Summary
  report : Option (Report H)

/-- `run` before its loop. -/
def RunState.start (api : HistogramApi H) (tx : Watch) (startedAt : Instant) : RunState H where
  aggregator := Aggregator.new api
  tx
  startedAt
  updateCountAtLastReport := 0
  ended := false

/-- One turn of the loop of `run`. -/
def turn (api : HistogramApi H) (state : RunState H) (event : Event) : RunState H × Shown H :=
  if state.ended then (state, ⟨none, none⟩)
  else
    match event with
    | .book call =>
        let ((aggregator, tx), sent) := recordAndPublish api state.aggregator state.tx call
        ({ state with aggregator, tx }, ⟨sent, none⟩)
    | .closed _ => ({ state with ended := true }, ⟨none, none⟩)
    | .graceCheck now =>
        if pastGrace state.startedAt now state.aggregator.venues.isEmpty then
          ({ state with ended := true }, ⟨none, none⟩)
        else (state, ⟨none, none⟩)
    | .reportTick _ =>
        let (aggregator, report) := logReport api state.aggregator state.updateCountAtLastReport
        ({ state with aggregator, updateCountAtLastReport := aggregator.updateCount },
          ⟨none, some report⟩)

end Orderbook
