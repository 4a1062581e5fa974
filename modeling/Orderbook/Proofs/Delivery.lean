import Orderbook.Proofs.ProcessSteps
import Orderbook.Proofs.Publish
import Mathlib.Data.List.Infix

/-!
# Books on their way to the aggregator

Whatever order the scheduler runs the tasks in, while the aggregator runs the books a feed's `parse`
gave are the books it received from the feed followed by those still in the channel: none is doubled
or overtaken by a later one of its venue, none is lost but the one that a panicking feed is sending,
and at most `FEED_CAPACITY` wait besides the one each feed is sending.
-/

namespace Orderbook

open Mpsc

variable {H R : Type}

/-! ## What the outputs tell -/

/-- The book a venue's `parse` gave, if any. -/
def ProcessOutput.parsed (venue : Venue) : ProcessOutput → Option Book
  | read other _ book => if other = venue then book else none
  | _ => none

/-- The book the aggregator received, if any. -/
def ProcessOutput.call : ProcessOutput → Option Call
  | served (.turn (.book call)) _ => some call
  | _ => none

/-- The books a venue's `parse` gave, in order. -/
def parsedBy (venue : Venue) (outputs : List ProcessOutput) : List Book :=
  outputs.filterMap (ProcessOutput.parsed venue)

/-- The aggregator's calls of `record_and_publish`, in order. -/
def callsIn (outputs : List ProcessOutput) : List Call := outputs.filterMap ProcessOutput.call

/-- The books the aggregator received from a venue, in order. -/
def receivedFrom (venue : Venue) (outputs : List ProcessOutput) : List Book :=
  bySender venue ((callsIn outputs).map fun call => (call.venue, call.book))

theorem call_nothing : ProcessOutput.call .nothing = none := rfl

theorem parsed_nothing (venue : Venue) : ProcessOutput.parsed venue .nothing = none := rfl

theorem parsedBy_concat (venue : Venue) (outputs : List ProcessOutput) (output : ProcessOutput) :
    parsedBy venue (outputs ++ [output]) =
      parsedBy venue outputs ++ (output.parsed venue).toList := by
  rw [parsedBy, List.filterMap_append]
  cases shown : output.parsed venue <;> simp [parsedBy, shown]

theorem callsIn_concat (outputs : List ProcessOutput) (output : ProcessOutput) :
    callsIn (outputs ++ [output]) = callsIn outputs ++ output.call.toList := by
  rw [callsIn, List.filterMap_append]
  cases shown : output.call <;> simp [callsIn, shown]

theorem receivedFrom_concat_of_none {output : ProcessOutput} (silent : output.call = none)
    (venue : Venue) (outputs : List ProcessOutput) :
    receivedFrom venue (outputs ++ [output]) = receivedFrom venue outputs := by
  rw [receivedFrom, callsIn_concat, silent, Option.toList_none, List.append_nil]
  rfl

theorem receivedFrom_concat_of_some {output : ProcessOutput} {call : Call}
    (shown : output.call = some call) (venue : Venue) (outputs : List ProcessOutput) :
    receivedFrom venue (outputs ++ [output]) =
      receivedFrom venue outputs ++ if call.venue = venue then [call.book] else [] := by
  rw [receivedFrom, callsIn_concat, shown, Option.toList_some, List.map_append, bySender_append]
  congr 1
  simp [bySender_cons]

theorem parsedBy_concat_of_none {output : ProcessOutput} {venue : Venue}
    (silent : output.parsed venue = none) (outputs : List ProcessOutput) :
    parsedBy venue (outputs ++ [output]) = parsedBy venue outputs := by
  rw [parsedBy_concat, silent, Option.toList_none, List.append_nil]

/-! ## The invariant -/

/-- What the channel holds against what was shown: while the aggregator runs, the books in flight
are those parsed and not received; a panicked feed took the book it was sending with it. -/
structure Delivering (outputs : List ProcessOutput) (phases : Venue → Phase)
    (channel : Mpsc Venue Book) (aggregating : Bool) : Prop where
  room : channel.queue.length ≤ FEED_CAPACITY
  waits : ∀ venue, phases venue ≠ .sending → channel.waiting venue = none
  opened : channel.closed = !aggregating
  received : ∀ venue, receivedFrom venue outputs <+: parsedBy venue outputs
  flight : aggregating = true → ∀ venue, ∃ lost : Option Book,
    receivedFrom venue outputs ++ channel.inFlight venue ++ lost.toList = parsedBy venue outputs
  whole : aggregating = true → ∀ venue, phases venue ≠ .panicked →
    receivedFrom venue outputs ++ channel.inFlight venue = parsedBy venue outputs

section Steps

variable {outputs : List ProcessOutput} {phases : Venue → Phase} {channel : Mpsc Venue Book}
  {aggregating : Bool} {output : ProcessOutput} {venue : Venue}

/-- A step that shows no book may take a feed from a phase in which it sends nothing to another. -/
theorem Delivering.moved (delivering : Delivering outputs phases channel aggregating)
    (idle : phases venue ≠ .sending) (running : phases venue ≠ .panicked) (phase : Phase)
    (parsed : ∀ other, output.parsed other = none) (calls : output.call = none) :
    Delivering (outputs ++ [output]) (Function.update phases venue phase) channel aggregating := by
  have receivedSame := fun other => receivedFrom_concat_of_none calls other outputs
  have parsedSame := fun other => parsedBy_concat_of_none (parsed other) outputs
  refine ⟨delivering.room, fun other now => ?_, delivering.opened, fun other => ?_,
    fun runs other => ?_, fun runs other alive => ?_⟩
  · by_cases same : other = venue
    · rw [same]
      exact delivering.waits venue idle
    · rw [Function.update_of_ne same] at now
      exact delivering.waits other now
  · rw [receivedSame, parsedSame]
    exact delivering.received other
  · rw [receivedSame, parsedSame]
    exact delivering.flight runs other
  · rw [receivedSame, parsedSame]
    refine delivering.whole runs other ?_
    by_cases same : other = venue
    · rw [same]
      exact running
    · rwa [Function.update_of_ne same] at alive

/-- A step that touches no feed and shows no book. -/
theorem Delivering.unmoved (delivering : Delivering outputs phases channel aggregating)
    (parsed : ∀ other, output.parsed other = none) (calls : output.call = none) :
    Delivering (outputs ++ [output]) phases channel aggregating := by
  have receivedSame := fun other => receivedFrom_concat_of_none calls other outputs
  have parsedSame := fun other => parsedBy_concat_of_none (parsed other) outputs
  refine ⟨delivering.room, delivering.waits, delivering.opened, fun other => ?_,
    fun runs other => ?_, fun runs other alive => ?_⟩
  · rw [receivedSame, parsedSame]
    exact delivering.received other
  · rw [receivedSame, parsedSame]
    exact delivering.flight runs other
  · rw [receivedSame, parsedSame]
    exact delivering.whole runs other alive

/-- A turn of a read loop that gave a book: it is the last one in flight. -/
theorem Delivering.offered (delivering : Delivering outputs phases channel aggregating)
    (reading : phases venue = .reading) (arrival : Arrival) (book : Book) :
    Delivering (outputs ++ [.read venue arrival (some book)])
      (Function.update phases venue .sending) (channel.offer venue book) aggregating := by
  have receivedSame := fun other => receivedFrom_concat_of_none
    (show ProcessOutput.call (.read venue arrival (some book)) = none from rfl) other outputs
  have free : channel.waiting venue = none :=
    delivering.waits venue (by rw [reading]; exact Phase.noConfusion)
  have alive : phases venue ≠ .panicked := by rw [reading]; exact Phase.noConfusion
  have grown : ∀ other, parsedBy other (outputs ++ [.read venue arrival (some book)]) =
      parsedBy other outputs ++ if venue = other then [book] else [] := by
    intro other
    rw [parsedBy_concat, ProcessOutput.parsed]
    by_cases same : venue = other
    · rw [if_pos same, if_pos same]
      rfl
    · rw [if_neg same, if_neg same]
      rfl
  refine ⟨delivering.room, fun other now => ?_, delivering.opened, fun other => ?_,
    fun runs other => ?_, fun runs other running => ?_⟩
  · by_cases same : other = venue
    · subst same
      rw [Function.update_self] at now
      exact absurd rfl now
    · rw [Function.update_of_ne same] at now
      rw [waiting_offer, Function.update_of_ne same]
      exact delivering.waits other now
  · rw [receivedSame, grown]
    exact (delivering.received other).trans (List.prefix_append _ _)
  · rw [receivedSame, grown, inFlight_offer _ _ _ free, ← List.append_assoc]
    by_cases same : venue = other
    · subst same
      exact ⟨none, by rw [delivering.whole runs venue alive, Option.toList_none, List.append_nil]⟩
    · rw [if_neg same, List.append_nil, List.append_nil]
      exact delivering.flight runs other
  · rw [receivedSame, grown, inFlight_offer _ _ _ free, ← List.append_assoc,
      delivering.whole runs other ?_]
    by_cases same : other = venue
    · rw [same]
      exact alive
    · rwa [Function.update_of_ne same] at running

/-- A suspended send that is over: its book is queued, or given up where nobody receives. -/
theorem Delivering.settled (delivering : Delivering outputs phases channel aggregating)
    (sending : phases venue = .sending)
    (gone : (channel.settle FEED_CAPACITY venue).waiting venue = none) :
    Delivering (outputs ++ [.nothing]) (Function.update phases venue .reading)
      (channel.settle FEED_CAPACITY venue) aggregating := by
  have alive : phases venue ≠ .panicked := by rw [sending]; exact Phase.noConfusion
  have receivedSame := fun other =>
    receivedFrom_concat_of_none call_nothing other outputs
  have parsedSame := fun other =>
    parsedBy_concat_of_none (parsed_nothing other) outputs
  have flightSame : aggregating = true → ∀ other,
      (channel.settle FEED_CAPACITY venue).inFlight other = channel.inFlight other := by
    intro runs
    refine inFlight_settle FEED_CAPACITY channel venue ?_
    rw [delivering.opened, runs]
    rfl
  refine ⟨length_settle_le delivering.room venue, fun other now => ?_, ?_, fun other => ?_,
    fun runs other => ?_, fun runs other running => ?_⟩
  · by_cases same : other = venue
    · rw [same]
      exact gone
    · rw [Function.update_of_ne same] at now
      rw [waiting_settle_of_ne _ _ same]
      exact delivering.waits other now
  · rw [closed_settle]
    exact delivering.opened
  · rw [receivedSame, parsedSame]
    exact delivering.received other
  · rw [receivedSame, parsedSame, flightSame runs]
    exact delivering.flight runs other
  · rw [receivedSame, parsedSame, flightSame runs]
    refine delivering.whole runs other ?_
    by_cases same : other = venue
    · rw [same]
      exact alive
    · rwa [Function.update_of_ne same] at running

/-- A book the aggregator takes is the oldest in flight. -/
theorem Delivering.took (delivering : Delivering outputs phases channel true)
    {rest : Mpsc Venue Book} {call : Call}
    (taken : channel.take = some ((call.venue, call.book), rest))
    (shown : output.call = some call) (parsed : ∀ other, output.parsed other = none) :
    Delivering (outputs ++ [output]) phases rest true := by
  have parsedSame := fun other => parsedBy_concat_of_none (parsed other) outputs
  have flightSame : ∀ other, receivedFrom other (outputs ++ [output]) ++ rest.inFlight other =
      receivedFrom other outputs ++ channel.inFlight other := by
    intro other
    rw [receivedFrom_concat_of_some shown, inFlight_take taken, List.append_assoc]
  refine ⟨?_, fun other now => ?_, ?_, fun other => ?_, fun _ other => ?_,
    fun _ other running => ?_⟩
  · have longer := length_take taken
    have within := delivering.room
    omega
  · rw [waiting_take taken]
    exact delivering.waits other now
  · rw [closed_take taken]
    exact delivering.opened
  · obtain ⟨lost, flight⟩ := delivering.flight rfl other
    rw [parsedSame, ← flight, ← flightSame, List.append_assoc]
    exact List.prefix_append _ _
  · rw [parsedSame, flightSame]
    exact delivering.flight rfl other
  · rw [parsedSame, flightSame]
    exact delivering.whole rfl other running

/-- The receiver is gone: what was received stays a prefix of what was parsed. -/
theorem Delivering.stopped (delivering : Delivering outputs phases channel aggregating) :
    Delivering outputs phases channel.close false :=
  ⟨Nat.zero_le _, delivering.waits, rfl, delivering.received, nofun, nofun⟩

/-- A feed that panics takes the book it is sending with it. -/
theorem Delivering.fell (delivering : Delivering outputs phases channel aggregating)
    (alive : phases venue ≠ .panicked) :
    Delivering (outputs ++ [.nothing]) (Function.update phases venue .panicked)
      (channel.forget venue) aggregating := by
  have receivedSame := fun other =>
    receivedFrom_concat_of_none call_nothing other outputs
  have parsedSame := fun other =>
    parsedBy_concat_of_none (parsed_nothing other) outputs
  refine ⟨delivering.room, fun other now => ?_, delivering.opened, fun other => ?_,
    fun runs other => ?_, fun runs other running => ?_⟩
  · rw [waiting_forget]
    by_cases same : other = venue
    · rw [same, Function.update_self]
    · rw [Function.update_of_ne same] at now ⊢
      exact delivering.waits other now
  · rw [receivedSame, parsedSame]
    exact delivering.received other
  · rw [receivedSame, parsedSame]
    by_cases same : other = venue
    · subst same
      refine ⟨channel.waiting other, ?_⟩
      rw [List.append_assoc, inFlight_forget_self]
      exact delivering.whole runs other alive
    · rw [inFlight_forget_of_ne _ same]
      exact delivering.flight runs other
  · have different : other ≠ venue := by
      rintro rfl
      rw [Function.update_self] at running
      exact running rfl
    rw [Function.update_of_ne different] at running
    rw [receivedSame, parsedSame, inFlight_forget_of_ne _ different]
    exact delivering.whole runs other running

/-- A turn of the aggregator's loop ends it or leaves the channel open. -/
theorem Delivering.turned {state : Process H R} (outside : Outside H R) {event : Event}
    (runs : state.aggregating = true)
    (delivering : ∀ output, Delivering (outputs ++ [.served (.turn event) output]) state.phases
      state.channel true) :
    Delivering (outputs ++ [(state.turn outside event).2]) (state.turn outside event).1.phases
      (state.turn outside event).1.channel (state.turn outside event).1.aggregating := by
  unfold Process.turn
  dsimp only
  split
  · exact (delivering _).stopped
  · have same := delivering
      (serviceStep outside.histograms outside.streams state.service (.turn event)).2
    rw [← runs] at same
    exact same

end Steps

/-! ## Every step -/

/-- The parts of a process that the books' way depends on are in step with what it showed. -/
abbrev Delivers (outputs : List ProcessOutput) (state : Process H R) : Prop :=
  Delivering outputs state.phases state.channel state.aggregating

theorem delivers_start (outside : Outside H R) (startedAt : Instant) :
    Delivers [] (Process.start outside startedAt) :=
  ⟨Nat.zero_le _, fun _ _ => rfl, rfl, fun _ => List.prefix_refl _,
    fun _ _ => ⟨none, rfl⟩, fun _ _ _ => rfl⟩

section Events

variable {outputs : List ProcessOutput} {state : Process H R} (outside : Outside H R)

/-- A turn that ends the read loop gives no book. -/
theorem book_of_ended {σ : Type} {exchange : Exchange σ} {kept next : σ} {arrival : Arrival}
    {book : Option Book} {ended : CycleEnd}
    (turn : readTurn exchange kept arrival = (next, book, some ended)) : book = none := by
  unfold readTurn at turn
  cases arrival with
  | idle pingSent =>
    dsimp only at turn
    split at turn <;> cases turn
    rfl
  | _ => cases turn <;> rfl

theorem delivers_nothing (delivers : Delivers outputs state) :
    Delivers (outputs ++ [.nothing]) state := delivers.unmoved (fun _ => rfl) rfl

theorem delivers_connect (delivers : Delivers outputs state) (pair : Text) {venue : Venue}
    (between : (state.feeds venue).phase = .between) (connectedAt : Option Instant)
    (subscribeSent : Bool) :
    Delivers (outputs ++ [.attempted venue connectedAt subscribeSent])
      (state.withFeed venue ((state.feeds venue).connect (outside.exchange venue) pair connectedAt
        subscribeSent)) := by
  show Delivering _ (state.withFeed _ _).phases _ _
  rw [Process.phases_withFeed]
  have now : state.phases venue = .between := between
  exact delivers.moved (by rw [now]; exact Phase.noConfusion) (by rw [now]; exact Phase.noConfusion)
    _ (fun _ => rfl) rfl

/-- A turn of a read loop gives a book and suspends in its send, or gives none. -/
theorem delivers_arrive (delivers : Delivers outputs state) {venue : Venue}
    (reading : (state.feeds venue).phase = .reading) (arrival : Arrival) :
    Delivers
      (outputs ++
        [.read venue arrival ((state.feeds venue).arrive (outside.exchange venue) arrival).2])
      { state.withFeed venue ((state.feeds venue).arrive (outside.exchange venue) arrival).1 with
        channel := ((state.feeds venue).arrive (outside.exchange venue) arrival).2.elim
          state.channel (state.channel.offer venue) } := by
  show Delivering _ (state.withFeed _ _).phases _ _
  rw [Process.phases_withFeed]
  have now : state.phases venue = .reading := reading
  have silent : ∀ phase, Delivering (outputs ++ [.read venue arrival none])
      (Function.update state.phases venue phase) state.channel state.aggregating := by
    intro phase
    refine delivers.moved (by rw [now]; exact Phase.noConfusion)
      (by rw [now]; exact Phase.noConfusion) phase (fun other => ?_) rfl
    exact ite_self none
  unfold FeedTask.arrive
  split
  · rename_i turn
    rw [book_of_ended turn]
    exact silent _
  · exact delivers.offered now arrival _
  · exact silent _

theorem delivers_send (delivers : Delivers outputs state) {venue : Venue}
    (sending : (state.feeds venue).phase = .sending)
    (gone : (state.channel.settle FEED_CAPACITY venue).waiting venue = none) :
    Delivers (outputs ++ [.nothing])
      { state.withFeed venue { state.feeds venue with phase := .reading } with
        channel := state.channel.settle FEED_CAPACITY venue } := by
  show Delivering _ (state.withFeed _ _).phases _ _
  rw [Process.phases_withFeed]
  exact delivers.settled sending gone

/-- Every step of every task keeps the books on their way in step with what was shown. -/
theorem delivers_step (delivers : Delivers outputs state) (pair : Text) (event : ProcessEvent) :
    Delivers (outputs ++ [(processStep outside pair state event).2])
      (processStep outside pair state event).1 := by
  have idle := delivers_nothing delivers
  have live : state.aggregating = true → Delivering outputs state.phases state.channel true :=
    fun runs => runs ▸ delivers
  have step := step_cases outside pair state event
  generalize processStep outside pair state event = next at step
  cases step with
  | idle => exact idle
  | connect between connectedAt subscribeSent =>
    exact delivers_connect outside delivers pair between connectedAt subscribeSent
  | arrive reading arrival => exact delivers_arrive outside delivers reading arrival
  | send sending gone => exact delivers_send delivers sending gone
  | book runs taken now mergedAt totalAt =>
    exact Delivering.turned outside runs fun _ => (live runs).took taken rfl fun _ => rfl
  | closed runs gone now mergedAt totalAt =>
    exact Delivering.turned outside runs fun _ => (live runs).unmoved (fun _ => rfl) rfl
  | graceCheck runs now =>
    exact Delivering.turned outside runs fun _ => (live runs).unmoved (fun _ => rfl) rfl
  | reportTick runs now =>
    exact Delivering.turned outside runs fun _ => (live runs).unmoved (fun _ => rfl) rfl
  | @client _ own ofClient =>
    refine delivers.unmoved (fun _ => rfl) ?_
    cases own with
    | turn event => cases ofClient
    | _ => rfl
  | serverEnds => exact idle
  | @feedPanic venue alive error =>
    show Delivering _ (state.withFeed _ _).phases _ _
    rw [Process.phases_withFeed]
    exact delivers.fell alive
  | aggregatorPanic => exact Delivering.stopped idle
  | serverPanic => exact idle
  | join => exact delivers.unmoved (fun _ => rfl) rfl

end Events

/-- The books stay on their way over whole runs, whatever the order of the events. -/
theorem delivers_final (outside : Outside H R) (pair : Text) (startedAt : Instant)
    (events : List ProcessEvent) :
    Delivers (processShows outside pair startedAt events)
      (processAfter outside pair startedAt events) := by
  apply Machine.history (P := fun _ state outputs => Delivers outputs state)
    (process outside pair) (delivers_start outside startedAt)
  intro before event delivers
  exact delivers_step outside delivers pair event

/-! ## Whole runs -/

/-- What the channel does for the books: it never holds more than its capacity; what the aggregator
received of a venue is a prefix of what its feed parsed; while both run, the rest is in flight, in
order, and once the feed has panicked all of it but at most its last book; and few books are in
flight. -/
structure BooksDelivered (outputs : List ProcessOutput) (state : Process H R) : Prop where
  room : state.channel.queue.length ≤ FEED_CAPACITY
  received : ∀ venue, receivedFrom venue outputs <+: parsedBy venue outputs
  inOrder : state.aggregating = true → ∀ venue, state.phases venue ≠ .panicked →
    receivedFrom venue outputs ++ state.channel.inFlight venue = parsedBy venue outputs
  lost : state.aggregating = true → ∀ venue, ∃ lost : Option Book,
    receivedFrom venue outputs ++ state.channel.inFlight venue ++ lost.toList =
      parsedBy venue outputs
  behind : (allVenues.map fun venue => (state.channel.inFlight venue).length).sum ≤
    FEED_CAPACITY + 3

theorem length_inFlight_le (channel : Mpsc Venue Book) (venue : Venue) :
    (channel.inFlight venue).length ≤ (bySender venue channel.queue).length + 1 := by
  rw [inFlight, List.length_append]
  have := Option.length_toList_le (o := channel.waiting venue)
  omega

/-- In every run, whatever the order of the events, no book is doubled or overtaken on its way to
the aggregator, and while that runs none is lost but at most the last one of a feed that has
panicked. -/
theorem books_delivered (outside : Outside H R) (pair : Text) (startedAt : Instant)
    (events : List ProcessEvent) :
    BooksDelivered (processShows outside pair startedAt events)
      (processAfter outside pair startedAt events) := by
  have delivers := delivers_final outside pair startedAt events
  refine ⟨delivers.room, delivers.received, delivers.whole, delivers.flight, ?_⟩
  have room := delivers.room
  generalize processAfter outside pair startedAt events = state at *
  have distinct : allVenues.Nodup := by decide
  have queued := sum_length_bySender_le distinct state.channel.queue
  have binance := length_inFlight_le state.channel .binance
  have bitstamp := length_inFlight_le state.channel .bitstamp
  have kraken := length_inFlight_le state.channel .kraken
  simp only [allVenues, List.map_cons, List.map_nil, List.sum_cons, List.sum_nil] at queued ⊢
  omega

end Orderbook
