import Orderbook.Exchange.Binance
import Orderbook.Exchange.Bitstamp
import Orderbook.Exchange.Kraken
import Orderbook.Feed
import Orderbook.Misc.Mpsc
import Orderbook.Server

/-!
# The process

`src/main.rs`: the three feeds, the aggregator and the server are tasks of one `JoinSet`, the feeds
send over one bounded channel, and `main` returns when the first task ends. The scheduler is an
input: an event is one step of one task, and events come in any order. A feed's step is an attempt
to connect, one turn of its read loop, or its suspended send going on; when it sleeps and for how
long is the matter of `Iteration` and left out here. Log lines are left out, and the arguments and
the configuration come before.
-/

namespace Orderbook

/-- Which supervised task a result came from. -/
inductive Component where
  | feed (venue : Venue)
  | aggregator
  | server
  deriving DecidableEq, Repr

/-- `{:?}` of a venue. -/
def Venue.debug : Venue → Text
  | .binance => "Binance".toList
  | .bitstamp => "Bitstamp".toList
  | .kraken => "Kraken".toList

/-- What `join_next` gives for a task: the result it returned, an error as its texts from the
outermost context on, or the error of a task that did not return. -/
inductive Joined where
  | finished (component : Component) (result : Except (List Text) Unit)
  | panicked (error : Text)
  | cancelled (error : Text)

/-- The end of `main`: what it returns for the first task that ended. -/
def mainResult : Option Joined → Except (List Text) Unit
  | some (.finished _ (.ok ())) => .ok ()
  | some (.finished (.feed venue) (.error e)) =>
      .error ((venue.debug ++ " feed task failed".toList) :: e)
  | some (.finished .aggregator (.error e)) => .error ("aggregator task failed".toList :: e)
  | some (.finished .server (.error e)) => .error ("server task failed".toList :: e)
  | some (.panicked error) => .error ["task panicked".toList, error]
  | some (.cancelled error) => .error ["task was cancelled".toList, error]
  | none => .ok ()

/-- How many books the channel from the feeds to the aggregator holds. -/
def FEED_CAPACITY : Nat := 32

/-- What the process takes from outside the crate. -/
structure Outside (H R : Type) where
  depth20 : Text → Option Binance.Depth20
  json : Text → Option Json.Value
  codec : Kraken.Codec
  case : CaseMapping
  histograms : HistogramApi H
  streams : WatchStreamApi R

/-- What each exchange keeps between messages. -/
def FeedState : Venue → Type
  | .binance => Unit
  | .bitstamp => Unit
  | .kraken => Kraken

/-- The exchanges `main` passes to `run_feed`. -/
def FeedState.new : (venue : Venue) → FeedState venue
  | .binance => ()
  | .bitstamp => ()
  | .kraken => Kraken.new

variable {H R : Type}

/-- Their implementations of `Exchange`. -/
def Outside.exchange (outside : Outside H R) : (venue : Venue) → Exchange (FeedState venue)
  | .binance => Binance.exchange outside.depth20 outside.case
  | .bitstamp => Bitstamp.exchange outside.json outside.case
  | .kraken => Kraken.exchange outside.codec outside.case

/-! ## Feeds -/

/-- Where the task of a feed stands: not connected, in its read loop, suspended in `tx.send`, or
panicked. -/
inductive Phase where
  | between
  | reading
  | sending
  | panicked
  deriving DecidableEq, Repr

/-- The task of a feed. -/
structure FeedTask (σ : Type) where
  state : σ
  phase : Phase

variable {σ : Type}

/-- An attempt to connect and to subscribe: the read loop is entered where both succeed. -/
def FeedTask.connect (exchange : Exchange σ) (pair : Text) (task : FeedTask σ)
    (connectedAt : Option Instant) (subscribeSent : Bool) : FeedTask σ :=
  if connectedAt.isNone then task
  else if (exchange.subscribeMessage pair).isSome ∧ subscribeSent = false then task
  else { task with phase := .reading }

/-- One turn of the read loop, and the book whose send it begins. -/
def FeedTask.arrive (exchange : Exchange σ) (task : FeedTask σ) (arrival : Arrival) :
    FeedTask σ × Option Book :=
  match readTurn exchange task.state arrival with
  | (state, book, some _) => (⟨state, .between⟩, book)
  | (state, some book, none) => (⟨state, .sending⟩, some book)
  | (state, none, none) => (⟨state, .reading⟩, none)

/-! ## The tasks together -/

/-- The process: its tasks, the channel between them, the results the `JoinSet` has ready, and what
`main` returned. -/
structure Process (H R : Type) where
  feeds : (venue : Venue) → FeedTask (FeedState venue)
  channel : Mpsc Venue Book
  service : Service H R
  aggregating : Bool
  serving : Bool
  ended : List Joined
  returned : Option (Except (List Text) Unit)

/-- What happens next. A book is received with the clock readings of the aggregator's call, and
`join_next` may give any of the tasks that ended. -/
inductive ProcessEvent where
  | connect (venue : Venue) (connectedAt : Option Instant) (subscribeSent : Bool)
  | arrive (venue : Venue) (arrival : Arrival)
  | send (venue : Venue)
  | receive (now mergedAt totalAt : Instant)
  | graceCheck (now : Instant)
  | reportTick (now : Instant)
  | subscribe (client : Nat)
  | poll (client : Nat)
  | leave (client : Nat)
  | serverEnds (result : Except Text Unit)
  | panic (component : Component) (error : Text)
  | join (choice : Nat)

/-- What an event shows: an attempt to connect, a turn of a read loop with the book it gave, a step
of the aggregator or the server, or the return of `main`. -/
inductive ProcessOutput where
  | attempted (venue : Venue) (connectedAt : Option Instant) (subscribeSent : Bool)
  | read (venue : Venue) (arrival : Arrival) (book : Option Book)
  | served (event : ServiceEvent) (output : ServiceOutput)
  | returned (result : Except (List Text) Unit)
  | nothing

/-- The process when its tasks are spawned. -/
def Process.start (outside : Outside H R) (startedAt : Instant) : Process H R where
  feeds venue := ⟨FeedState.new venue, .between⟩
  channel := Mpsc.empty
  service := Service.start outside.histograms startedAt
  aggregating := true
  serving := true
  ended := []
  returned := none

namespace Process

/-- The process with another task of a feed. -/
def withFeed (process : Process H R) (venue : Venue) (task : FeedTask (FeedState venue)) :
    Process H R :=
  { process with feeds := Function.update process.feeds venue task }

/-- Every sender of the channel was dropped with its task. -/
def sendersGone (process : Process H R) : Bool :=
  (process.feeds .binance).phase == .panicked && (process.feeds .bitstamp).phase == .panicked &&
    (process.feeds .kraken).phase == .panicked

/-- The aggregator's task is over, and with it the receiver of the channel. -/
def endAggregator (process : Process H R) (joined : Joined) : Process H R :=
  { process with
    aggregating := false
    channel := process.channel.close
    ended := process.ended ++ [joined] }

/-- One turn of the aggregator's loop. -/
def turn (outside : Outside H R) (process : Process H R) (event : Event) :
    Process H R × ProcessOutput :=
  let (service, output) :=
    serviceStep outside.histograms outside.streams process.service (.turn event)
  let process := { process with service }
  (if service.aggregator.ended then process.endAggregator (.finished .aggregator (.ok ()))
    else process, .served (.turn event) output)

/-- What `rx.recv()` finds: the oldest book; that the channel is closed; or nothing yet. -/
def receive (outside : Outside H R) (process : Process H R) (now mergedAt totalAt : Instant) :
    Process H R × ProcessOutput :=
  match process.channel.take with
  | some ((venue, book), channel) =>
      turn outside { process with channel } (.book ⟨venue, book, now, mergedAt, totalAt⟩)
  | none =>
      if process.sendersGone then turn outside process (.closed now) else (process, .nothing)

/-- A step of the server. -/
def serve (outside : Outside H R) (process : Process H R) (event : ServiceEvent) :
    Process H R × ProcessOutput :=
  let (service, output) := serviceStep outside.histograms outside.streams process.service event
  ({ process with service }, .served event output)

/-- A task panics, if it is still running. -/
def panic (process : Process H R) (component : Component) (error : Text) : Process H R :=
  match component with
  | .feed venue =>
      if (process.feeds venue).phase = .panicked then process
      else
        { process.withFeed venue { process.feeds venue with phase := .panicked } with
          channel := process.channel.forget venue
          ended := process.ended ++ [.panicked error] }
  | .aggregator =>
      if process.aggregating then process.endAggregator (.panicked error) else process
  | .server =>
      if process.serving then
        { process with serving := false, ended := process.ended ++ [.panicked error] }
      else process

/-- One event while `main` waits. An event of a task that is not there to take it changes
nothing. -/
def step (outside : Outside H R) (pair : Text) (process : Process H R) :
    ProcessEvent → Process H R × ProcessOutput
  | .connect venue connectedAt subscribeSent =>
      let task := process.feeds venue
      if task.phase = .between then
        (process.withFeed venue
            (task.connect (outside.exchange venue) pair connectedAt subscribeSent),
          .attempted venue connectedAt subscribeSent)
      else (process, .nothing)
  | .arrive venue arrival =>
      let task := process.feeds venue
      if task.phase = .reading then
        let (task, book) := task.arrive (outside.exchange venue) arrival
        ({ process.withFeed venue task with
            channel := book.elim process.channel (process.channel.offer venue) },
          .read venue arrival book)
      else (process, .nothing)
  | .send venue =>
      let task := process.feeds venue
      let channel := process.channel.settle FEED_CAPACITY venue
      if task.phase = .sending ∧ channel.waiting venue = none then
        ({ process.withFeed venue { task with phase := .reading } with channel }, .nothing)
      else (process, .nothing)
  | .receive now mergedAt totalAt =>
      if process.aggregating then process.receive outside now mergedAt totalAt
      else (process, .nothing)
  | .graceCheck now =>
      if process.aggregating then process.turn outside (.graceCheck now) else (process, .nothing)
  | .reportTick now =>
      if process.aggregating then process.turn outside (.reportTick now) else (process, .nothing)
  | .subscribe client =>
      if process.serving then process.serve outside (.subscribe client) else (process, .nothing)
  | .poll client =>
      if process.serving then process.serve outside (.poll client) else (process, .nothing)
  | .leave client =>
      if process.serving then process.serve outside (.leave client) else (process, .nothing)
  | .serverEnds result =>
      if process.serving then
        ({ process with
            serving := false
            ended := process.ended ++
              [.finished .server (result.mapError fun e => ["server task failed".toList, e])] },
          .nothing)
      else (process, .nothing)
  | .panic component error => (process.panic component error, .nothing)
  | .join choice =>
      match process.ended[choice]? with
      | none => (process, .nothing)
      | some joined =>
          ({ process with returned := some (mainResult (some joined)) },
            .returned (mainResult (some joined)))

end Process

/-- One event; nothing happens once `main` has returned, which drops every task. -/
def processStep (outside : Outside H R) (pair : Text) (process : Process H R)
    (event : ProcessEvent) : Process H R × ProcessOutput :=
  match process.returned with
  | some _ => (process, .nothing)
  | none => process.step outside pair event

end Orderbook
