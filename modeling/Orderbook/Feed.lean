import Orderbook.Exchange

/-!
# The feed driver loop

`src/feed.rs`: connect, subscribe, read frames, parse, send to the aggregator, and reconnect with
jittered backoff behind a token bucket. What the network does is an input: a `Connection` is the
outcome of a connect attempt with everything its socket gives, in order. Durations are exact
rationals; a sleep lasts at least as long as asked. The proxy handshake, logging and the bounded
channel's backpressure are left out.
-/

namespace Orderbook

/-- A connection counts as stable once held open longer than this. -/
def STABILITY_WINDOW : Duration := 30

/-! ## Backoff -/

/-- Jittered exponential backoff; `attempt` is a `u32`. -/
structure Backoff where
  attempt : Nat
  deriving DecidableEq

namespace Backoff

/-- `Backoff::new`. -/
def new : Backoff := ⟨0⟩

/-- `1u64.checked_shl(attempt)`, or `u64::MAX` where the shift is too far. -/
def shifted (attempt : Nat) : Nat := if attempt < 64 then 2 ^ attempt else 2 ^ 64 - 1

/-- 2^attempt seconds, capped at 30s, then advances to the next attempt. -/
def nextDelay (backoff : Backoff) : Duration × Backoff :=
  (((min (shifted backoff.attempt) 30 : Nat) : ℚ), ⟨min (backoff.attempt + 1) (2 ^ 32 - 1)⟩)

/-- The delay under a jitter multiplier. -/
def jittered (delay : Duration) (multiplier : ℚ) : Duration := delay * multiplier

/-- Only resets once the connection held open longer than `STABILITY_WINDOW`. -/
def resetIfStable (backoff : Backoff) (connectedAt now : Instant) : Backoff :=
  if durationSince now connectedAt > STABILITY_WINDOW then ⟨0⟩ else backoff

end Backoff

/-! ## Token bucket -/

/-- A per-venue ceiling on connection attempts. -/
structure TokenBucket where
  capacity : ℚ
  tokens : ℚ
  refillPerSec : ℚ
  lastRefill : Instant
  deriving DecidableEq

namespace TokenBucket

/-- `TokenBucket::new`, at the clock reading it takes. -/
def new (capacity refillPerSec : ℚ) (now : Instant) : TokenBucket where
  capacity
  tokens := capacity
  refillPerSec
  lastRefill := now

/-- Adds tokens for elapsed time, capped at `capacity`. -/
def refill (bucket : TokenBucket) (now : Instant) : TokenBucket :=
  let elapsed := durationSince now bucket.lastRefill
  { bucket with
    tokens := min (bucket.tokens + elapsed * bucket.refillPerSec) bucket.capacity
    lastRefill := now }

/-- One turn of the loop of `acquire`: the bucket, and how long to sleep before the next turn,
`none` where a token was spent. -/
def acquireTurn (bucket : TokenBucket) (now : Instant) : TokenBucket × Option Duration :=
  let bucket := bucket.refill now
  if 1 ≤ bucket.tokens then ({ bucket with tokens := bucket.tokens - 1 }, none)
  else (bucket, some ((1 - bucket.tokens) / bucket.refillPerSec))

/-- `acquire`, entered at one clock reading and left at another: turns, each after the sleep the
turn before asked for. The clock never goes back. -/
inductive Acquires : TokenBucket → Instant → TokenBucket → Instant → Prop
  | spent {bucket now bucket'} (turn : bucket.acquireTurn now = (bucket', none)) :
      Acquires bucket now bucket' now
  | slept {bucket now bucket' wait woke bucket'' left}
      (turn : bucket.acquireTurn now = (bucket', some wait)) (later : now ≤ woke)
      (sleep : now + wait ≤ woke) (rest : Acquires bucket' woke bucket'' left) :
      Acquires bucket now bucket'' left

end TokenBucket

/-! ## One connection -/

/-- What one turn of the read loop waits for: a frame, a failed read, the end of the stream, or
the idle timeout with whether the ping that follows it was sent. -/
inductive Arrival where
  | text (raw : Text) (clock : ParseClock)
  | ping
  | pong
  | close
  | binary
  | frame
  | readError
  | endOfStream
  | idle (pingSent : Bool)

/-- The errors of `run_once_inner`. -/
inductive CycleError where
  | connect
  | subscribe
  | read
  | ping
  deriving DecidableEq, Repr

/-- How a connection cycle ended. -/
inductive CycleEnd where
  | clean
  | failed (error : CycleError)
  deriving DecidableEq, Repr

/-- A connect attempt: when the handshake completed, if it did, whether a subscribe message was
sent, and what the socket gives. -/
structure Connection where
  connectedAt : Option Instant
  subscribeSent : Bool
  arrivals : List Arrival

variable {σ : Type}

/-- One turn of the read loop: the exchange's state, the book sent to the aggregator, and whether
the loop ends. Only Kraken's loop has an idle timeout. -/
def readTurn (exchange : Exchange σ) (state : σ) : Arrival → σ × Option Book × Option CycleEnd
  | .text raw clock =>
      ((exchange.parse state raw clock).1, (exchange.parse state raw clock).2, none)
  | .ping => (state, none, none)
  | .pong => (state, none, none)
  | .close => (state, none, some .clean)
  | .binary => (state, none, none)
  | .frame => (state, none, none)
  | .readError => (state, none, some (.failed .read))
  | .endOfStream => (state, none, some .clean)
  | .idle pingSent =>
      if exchange.venue = .kraken ∧ pingSent = false then (state, none, some (.failed .ping))
      else (state, none, none)

/-- What a connection cycle leaves: the exchange's state, the books sent, and its end, `none` while
it is still reading. -/
structure Cycle (σ : Type) where
  state : σ
  books : List Book
  ended : Option CycleEnd

/-- The read loop over the arrivals up to the one that ends it. -/
def readLoop (exchange : Exchange σ) (state : σ) : List Arrival → Cycle σ
  | [] => ⟨state, [], none⟩
  | arrival :: arrivals =>
      match readTurn exchange state arrival with
      | (state, book, some ended) => ⟨state, book.toList, some ended⟩
      | (state, book, none) =>
          let rest := readLoop exchange state arrivals
          { rest with books := book.toList ++ rest.books }

/-- `run_once`: connect, subscribe, read. -/
def runOnce (exchange : Exchange σ) (pair : Text) (state : σ) (connection : Connection) : Cycle σ :=
  if connection.connectedAt.isNone then ⟨state, [], some (.failed .connect)⟩
  else if (exchange.subscribeMessage pair).isSome ∧ connection.subscribeSent = false then
    ⟨state, [], some (.failed .subscribe)⟩
  else readLoop exchange state connection.arrivals

/-- `run_once_inner` at its exits: when the handshake completed, or the error with that reading
where there is one. `none` while it is still reading. -/
def runOnceInner (exchange : Exchange σ) (pair : Text) (state : σ) (connection : Connection) :
    Option (Except (Option Instant × CycleError) Instant) :=
  match connection.connectedAt with
  | none => some (.error (none, .connect))
  | some connectedAt =>
      if (exchange.subscribeMessage pair).isSome ∧ connection.subscribeSent = false then
        some (.error (some connectedAt, .subscribe))
      else
        match (readLoop exchange state connection.arrivals).ended with
        | none => none
        | some .clean => some (.ok connectedAt)
        | some (.failed error) => some (.error (some connectedAt, error))

/-- The pair `run_once` hands to `run_feed`. -/
def runOnceReturn : Except (Option Instant × CycleError) Instant → Option Instant × CycleEnd
  | .ok connectedAt => (some connectedAt, .clean)
  | .error (connectedAt, error) => (connectedAt, .failed error)

/-- Every exit reports the handshake of its connection and how the cycle ended. -/
theorem runOnceReturn_runOnceInner (exchange : Exchange σ) (pair : Text) (state : σ)
    (connection : Connection) :
    (runOnceInner exchange pair state connection).map runOnceReturn =
      (runOnce exchange pair state connection).ended.map
        fun ended => (connection.connectedAt, ended) := by
  unfold runOnceInner runOnce
  cases handshake : connection.connectedAt with
  | none => rfl
  | some connectedAt =>
    simp only [Option.isNone_some, Bool.false_eq_true, if_false]
    split
    · rfl
    · cases (readLoop exchange state connection.arrivals).ended with
      | none => rfl
      | some ended => cases ended <;> rfl

/-! ## Reconnecting -/

/-- The locals of `run_feed` with the exchange's state. -/
structure Feed (σ : Type) where
  state : σ
  backoff : Backoff
  bucket : TokenBucket

/-- `run_feed` before its loop, entered at a clock reading. -/
def Feed.start (exchange : Exchange σ) (state : σ) (now : Instant) : Feed σ where
  state
  backoff := Backoff.new
  bucket := TokenBucket.new exchange.venue.connectRate.1 exchange.venue.connectRate.2 now

/-- The backoff after a cycle; a failed connect leaves nothing to judge. -/
def judged (backoff : Backoff) (connectedAt : Option Instant) (now : Instant) : Backoff :=
  match connectedAt with
  | none => backoff
  | some connectedAt => backoff.resetIfStable connectedAt now

/-- One iteration of the loop of `run_feed` up to its sleep, `now` being the clock when the cycle is
judged: the feed, the books sent, and how long it sleeps. -/
def feedTurn (exchange : Exchange σ) (pair : Text) (feed : Feed σ) (connection : Connection)
    (now : Instant) (multiplier : ℚ) : Feed σ × List Book × Duration :=
  let cycle := runOnce exchange pair feed.state connection
  let (delay, backoff) := (judged feed.backoff connection.connectedAt now).nextDelay
  ({ feed with state := cycle.state, backoff }, cycle.books, Backoff.jittered delay multiplier)

/-- The clock readings and the jitter multiplier of one iteration: when its cycle is judged, when
its sleep is over, and when it has its token. -/
structure Timing where
  judgedAt : Instant
  multiplier : ℚ
  woke : Instant
  acquired : Instant

/-- One whole iteration: an attempt begun at `start`, its connection, the sleep, the token, and the
next attempt begun at `next`. -/
structure Iteration (exchange : Exchange σ) (pair : Text) (feed : Feed σ) (start : Instant)
    (connection : Connection) (timing : Timing) (feed' : Feed σ) (next : Instant) : Prop where
  handshake : ∀ connectedAt ∈ connection.connectedAt,
    start ≤ connectedAt ∧ connectedAt ≤ timing.judgedAt
  forward : start ≤ timing.judgedAt
  ended : (runOnce exchange pair feed.state connection).ended ≠ none
  jitter : 1 / 2 ≤ timing.multiplier ∧ timing.multiplier < 3 / 2
  sleep : timing.judgedAt +
    (feedTurn exchange pair feed connection timing.judgedAt timing.multiplier).2.2 ≤ timing.woke
  token : TokenBucket.Acquires feed.bucket timing.woke feed'.bucket timing.acquired
  turn : feed' = { (feedTurn exchange pair feed connection timing.judgedAt timing.multiplier).1 with
    bucket := feed'.bucket }
  begins : timing.acquired ≤ next

/-- A run of `run_feed`: the starts of its attempts, in order, and the feed at the last of them. -/
inductive RunFeed (exchange : Exchange σ) (pair : Text) : List Instant → Feed σ → Prop
  | first {state entered start} (begins : entered ≤ start) :
      RunFeed exchange pair [start] (Feed.start exchange state entered)
  | again {starts start feed connection timing feed' next}
      (run : RunFeed exchange pair (starts ++ [start]) feed)
      (iteration : Iteration exchange pair feed start connection timing feed' next) :
      RunFeed exchange pair (starts ++ [start] ++ [next]) feed'

end Orderbook
