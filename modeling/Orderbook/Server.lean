import Orderbook.Aggregator

/-!
# The gRPC service

`src/server.rs`: each `book_summary` call streams the summaries of the watch channel to one client
over its own clone of the receiver. `tokio_stream` is outside the crate and its `WatchStream` enters
as a `WatchStreamApi`. The router, the reflection service and the transport are left out: a client
is a stream that is polled at any moments until it is dropped. The end of a stream comes with the
end of the process and is left out with it.
-/

namespace Orderbook

/-- What the file takes from `tokio_stream`: `WatchStream::new` on a receiver of the channel, and
one poll of the stream, `none` where it is pending. -/
structure WatchStreamApi (R : Type) where
  new : Watch → R
  poll : R → Watch → R × Option (Option Summary)

/-- What one turn of the poll of the mapped stream gives: a summary; nothing because the value was
filtered out, and the stream is polled again; or nothing because it is pending. -/
inductive Polled where
  | item (summary : Summary)
  | skipped
  | pending
  deriving DecidableEq

variable {H R : Type}

/-- `rx.clone()`. -/
def Watch.cloneRx (rx : Watch) : Watch := { rx with receivers := rx.receivers + 1 }

/-- A receiver is dropped. -/
def Watch.dropRx (rx : Watch) : Watch := { rx with receivers := rx.receivers - 1 }

/-- `AggregatorService::book_summary`: the channel with the cloned receiver, and the stream. -/
def bookSummary (api : WatchStreamApi R) (rx : Watch) : Watch × R :=
  (rx.cloneRx, api.new rx.cloneRx)

/-- One turn of the poll of the stream `book_summary` returns, whose `filter_map` drops the `None`
from before the first publish. -/
def pollBookSummary (api : WatchStreamApi R) (stream : R) (rx : Watch) : R × Polled :=
  match api.poll stream rx with
  | (stream, none) => (stream, .pending)
  | (stream, some none) => (stream, .skipped)
  | (stream, some (some summary)) => (stream, .item summary)

/-- A client, from before its call to after its stream is dropped. -/
inductive Client (R : Type) where
  | absent
  | streaming (stream : R)
  | gone

/-- The aggregator's loop and all clients. The service's own receiver is one of the channel's. -/
structure Service (H R : Type) where
  aggregator : RunState H
  clients : Nat → Client R

/-- What happens next: a turn of the aggregator's loop, a call, a turn of a poll, or a departure.
Clients are numbered, and no number is used twice. -/
inductive ServiceEvent where
  | turn (event : Event)
  | subscribe (client : Nat)
  | poll (client : Nat)
  | leave (client : Nat)

/-- What an event shows: a value handed to `tx.send`, or what a client's poll gave. -/
inductive ServiceOutput where
  | sent (summary : Summary)
  | polled (client : Nat) (polled : Polled)
  | nothing
  deriving DecidableEq

/-- The service with a client in another state. -/
def Service.withClient (service : Service H R) (tx : Watch) (client : Nat) (state : Client R) :
    Service H R where
  aggregator := { service.aggregator with tx }
  clients := Function.update service.clients client state

/-- The service before any client, the aggregator just started. -/
def Service.start (histograms : HistogramApi H) (startedAt : Instant) : Service H R where
  aggregator := RunState.start histograms ⟨none, 0, 1⟩ startedAt
  clients _ := .absent

/-- One event. -/
def serviceStep (histograms : HistogramApi H) (api : WatchStreamApi R) (service : Service H R) :
    ServiceEvent → Service H R × ServiceOutput
  | .turn event =>
      let (aggregator, shown) := turn histograms service.aggregator event
      ({ service with aggregator },
        match shown.sent with
        | some summary => .sent summary
        | none => .nothing)
  | .subscribe client =>
      match service.clients client with
      | .absent =>
          let (tx, stream) := bookSummary api service.aggregator.tx
          (service.withClient tx client (.streaming stream), .nothing)
      | _ => (service, .nothing)
  | .poll client =>
      match service.clients client with
      | .streaming stream =>
          let (stream, polled) := pollBookSummary api stream service.aggregator.tx
          (service.withClient service.aggregator.tx client (.streaming stream),
            .polled client polled)
      | _ => (service, .nothing)
  | .leave client =>
      match service.clients client with
      | .streaming _ =>
          (service.withClient service.aggregator.tx.dropRx client .gone, .nothing)
      | _ => (service, .nothing)

end Orderbook
