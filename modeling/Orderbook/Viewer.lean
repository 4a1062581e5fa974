import Orderbook.Client

/-!
# The terminal client

`src/bin/client.rs`, above `render`: the reconnect loop, `connect_and_stream`, and what `Stats` and
`VenueTracker` keep from frame to frame. An event is what the client waits for; the clock readings
it makes then are part of it. Log lines and the sleep before the next attempt are left out.
-/

namespace Orderbook

namespace Client

/-! ## `Stats` -/

/-- `Stats` with what `record` keeps for the next rate. The counts are `u64` in the source, which a
run of fewer than `2 ^ 64` messages does not overflow. -/
structure RunningStats extends Stats where
  lastCalc : Instant
  countAtLastCalc : Nat

def RunningStats.new (now : Instant) : RunningStats := ⟨⟨0, F64.zero⟩, now, 0⟩

/-- `0.2`, the seconds after which the rate is recomputed. -/
def RATE_AFTER : F64 := F64.ofDecimal false 2 (-1)

/-- Records one message; recomputes the rolling rate if enough time has passed. The clock is read
for `elapsed`, and again for the new `last_calc`. -/
def RunningStats.record (stats : RunningStats) (elapsedAt calculatedAt : Instant) : RunningStats :=
  let count := stats.count + 1
  let elapsed := F64.asSecsF64 (durationSince elapsedAt stats.lastCalc)
  if RATE_AFTER.lt elapsed then
    { count
      rate := (F64.ofNat (count - stats.countAtLastCalc)).div elapsed
      lastCalc := calculatedAt
      countAtLastCalc := count }
  else { stats with count }

/-! ## `VenueTracker` -/

/-- Seeds every venue with the current instant. -/
def VenueTracker.new (venues : List Venue) (now : Instant) : VenueTracker where
  lastSeen venue := if venue ∈ venues then some now else none

/-- Which of the venues appear in the levels of a summary. -/
def presentIn (venues : List Venue) (summary : Summary) (venue : Venue) : Bool :=
  (summary.bids ++ summary.asks).any fun level =>
    venues.contains venue && venue.display == level.exchange

/-- Records which venues appear in a frame's levels and gives them. -/
def VenueTracker.update (tracker : VenueTracker) (venues : List Venue) (summary : Summary)
    (now : Instant) : VenueTracker × (Venue → Bool) :=
  let present := presentIn venues summary
  (⟨fun venue => if present venue then some now else tracker.lastSeen venue⟩, present)

/-! ## The loop -/

/-- The clock readings for one message, in the order they are made. -/
structure MessageClock where
  elapsedAt : Instant
  calculatedAt : Instant
  updatedAt : Instant
  frame : FrameClock

/-- A message of the stream and the clock readings for it. -/
structure Message where
  summary : Summary
  clock : MessageClock

/-- What the client waits for: an attempt to connect and to call `book_summary`; the next item of
the stream, with whether its frame could be written; an error item or the end of the stream; or
ctrl-c. -/
inductive ViewerEvent where
  | attempt (connected : Bool)
  | item (message : Message) (written : Bool)
  | streamEnds
  | interrupt

/-- The client: what it keeps over its connections, whether it has one, and whether it still
runs. -/
structure Viewer where
  stats : RunningStats
  tracker : VenueTracker
  streaming : Bool
  running : Bool

/-- What an event leads to: a frame for the message, a panic in drawing it, or neither. -/
inductive ViewerOutput where
  | drew (message : Message) (frame : Text)
  | panicked
  | nothing

/-- `main` before its loop. -/
def Viewer.start (statsAt trackedAt : Instant) : Viewer where
  stats := RunningStats.new statsAt
  tracker := VenueTracker.new VENUES trackedAt
  streaming := false
  running := true

/-- The body of the loop over the stream. -/
def Viewer.take (colour : Bool) (viewer : Viewer) (message : Message) (written : Bool) :
    Viewer × ViewerOutput :=
  let stats := viewer.stats.record message.clock.elapsedAt message.clock.calculatedAt
  let (tracker, present) := viewer.tracker.update VENUES message.summary message.clock.updatedAt
  match render VENUES tracker present message.summary stats.toStats colour message.clock.frame with
  | none => ({ viewer with stats, tracker, running := false }, .panicked)
  | some frame => ({ viewer with stats, tracker, streaming := written }, .drew message frame)

/-- One event. An event the client does not wait for changes nothing. -/
def viewer (colour : Bool) (viewer : Viewer) (event : ViewerEvent) : Viewer × ViewerOutput :=
  if viewer.running then
    match event with
    | .attempt connected =>
        if viewer.streaming then (viewer, .nothing)
        else ({ viewer with streaming := connected }, .nothing)
    | .item message written =>
        if viewer.streaming then viewer.take colour message written else (viewer, .nothing)
    | .streamEnds => ({ viewer with streaming := false }, .nothing)
    | .interrupt => ({ viewer with running := false }, .nothing)
  else (viewer, .nothing)

end Client

end Orderbook
