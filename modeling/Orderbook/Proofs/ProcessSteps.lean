import Orderbook.Main
import Orderbook.Misc.Machine

/-!
# The steps of the process

What one event can do, with the guard it needs: every result about runs of the process takes its
cases from `step_cases`.
-/

namespace Orderbook

variable {H R : Type}

/-- The process as a machine. -/
def process (outside : Outside H R) (pair : Text) :
    Machine (Process H R) ProcessEvent ProcessOutput := processStep outside pair

/-- The process after some events. -/
abbrev processAfter (outside : Outside H R) (pair : Text) (startedAt : Instant)
    (events : List ProcessEvent) : Process H R :=
  (process outside pair).final (Process.start outside startedAt) events

/-- What those events showed. -/
abbrev processShows (outside : Outside H R) (pair : Text) (startedAt : Instant)
    (events : List ProcessEvent) : List ProcessOutput :=
  (process outside pair).outputs (Process.start outside startedAt) events

/-- A tick of one of the aggregator's two intervals. -/
def Event.ticks : Event → Bool
  | graceCheck _ => true
  | reportTick _ => true
  | _ => false

/-- An event of one client. -/
def ServiceEvent.ofClient : ServiceEvent → Bool
  | turn _ => false
  | _ => true

/-- What one event does to a process, and what it shows. -/
inductive StepCase (outside : Outside H R) (pair : Text) (state : Process H R) :
    ProcessEvent → Process H R × ProcessOutput → Prop
  | idle (event : ProcessEvent) : StepCase outside pair state event (state, .nothing)
  | connect {venue : Venue} (between : (state.feeds venue).phase = .between)
      (connectedAt : Option Instant) (subscribeSent : Bool) :
      StepCase outside pair state (.connect venue connectedAt subscribeSent)
        (state.withFeed venue ((state.feeds venue).connect (outside.exchange venue) pair connectedAt
          subscribeSent), .attempted venue connectedAt subscribeSent)
  | arrive {venue : Venue} (reading : (state.feeds venue).phase = .reading) (arrival : Arrival) :
      StepCase outside pair state (.arrive venue arrival)
        ({ state.withFeed venue ((state.feeds venue).arrive (outside.exchange venue) arrival).1 with
            channel := ((state.feeds venue).arrive (outside.exchange venue) arrival).2.elim
              state.channel (state.channel.offer venue) },
          .read venue arrival ((state.feeds venue).arrive (outside.exchange venue) arrival).2)
  | send {venue : Venue} (sending : (state.feeds venue).phase = .sending)
      (gone : (state.channel.settle FEED_CAPACITY venue).waiting venue = none) :
      StepCase outside pair state (.send venue)
        ({ state.withFeed venue { state.feeds venue with phase := .reading } with
            channel := state.channel.settle FEED_CAPACITY venue }, .nothing)
  | book (runs : state.aggregating = true) {venue : Venue} {book : Book} {rest : Mpsc Venue Book}
      (taken : state.channel.take = some ((venue, book), rest)) (now mergedAt totalAt : Instant) :
      StepCase outside pair state (.receive now mergedAt totalAt)
        (({ state with channel := rest } : Process H R).turn outside
          (.book ⟨venue, book, now, mergedAt, totalAt⟩))
  | closed (runs : state.aggregating = true) (gone : state.sendersGone = true)
      (now mergedAt totalAt : Instant) :
      StepCase outside pair state (.receive now mergedAt totalAt)
        (state.turn outside (.closed now))
  | graceCheck (runs : state.aggregating = true) (now : Instant) :
      StepCase outside pair state (.graceCheck now) (state.turn outside (.graceCheck now))
  | reportTick (runs : state.aggregating = true) (now : Instant) :
      StepCase outside pair state (.reportTick now) (state.turn outside (.reportTick now))
  | client {event : ProcessEvent} {own : ServiceEvent} (ofClient : own.ofClient = true) :
      StepCase outside pair state event (state.serve outside own)
  | serverEnds (serving : state.serving = true) (result : Except Text Unit) :
      StepCase outside pair state (.serverEnds result)
        ({ state with
            serving := false
            ended := state.ended ++
              [.finished .server (result.mapError fun e => ["server task failed".toList, e])] },
          .nothing)
  | feedPanic {venue : Venue} (alive : (state.feeds venue).phase ≠ .panicked) (error : Text) :
      StepCase outside pair state (.panic (.feed venue) error)
        ({ state.withFeed venue { state.feeds venue with phase := .panicked } with
            channel := state.channel.forget venue
            ended := state.ended ++ [.panicked error] }, .nothing)
  | aggregatorPanic (runs : state.aggregating = true) (error : Text) :
      StepCase outside pair state (.panic .aggregator error)
        (state.endAggregator (.panicked error), .nothing)
  | serverPanic (serving : state.serving = true) (error : Text) :
      StepCase outside pair state (.panic .server error)
        ({ state with serving := false, ended := state.ended ++ [.panicked error] }, .nothing)
  | join {joined : Joined} (member : joined ∈ state.ended) (choice : Nat) :
      StepCase outside pair state (.join choice)
        ({ state with returned := some (mainResult (some joined)) },
          .returned (mainResult (some joined)))

/-- Every event is one of the cases. -/
theorem step_cases (outside : Outside H R) (pair : Text) (state : Process H R)
    (event : ProcessEvent) :
    StepCase outside pair state event (processStep outside pair state event) := by
  unfold processStep
  split
  · exact .idle event
  · cases event with
    | connect venue connectedAt subscribeSent =>
      simp only [Process.step]
      split
      · rename_i between
        exact .connect between connectedAt subscribeSent
      · exact .idle _
    | arrive venue arrival =>
      simp only [Process.step]
      split
      · rename_i reading
        exact .arrive reading arrival
      · exact .idle _
    | send venue =>
      simp only [Process.step]
      split
      · rename_i sending
        exact .send sending.1 sending.2
      · exact .idle _
    | receive now mergedAt totalAt =>
      simp only [Process.step, Process.receive]
      split
      · rename_i runs
        split
        · rename_i taken
          exact .book runs taken now mergedAt totalAt
        · split
          · rename_i gone
            exact .closed runs gone now mergedAt totalAt
          · exact .idle _
      · exact .idle _
    | graceCheck now =>
      simp only [Process.step]
      split
      · rename_i runs
        exact .graceCheck runs now
      · exact .idle _
    | reportTick now =>
      simp only [Process.step]
      split
      · rename_i runs
        exact .reportTick runs now
      · exact .idle _
    | subscribe client =>
      simp only [Process.step]
      split
      · exact .client rfl
      · exact .idle _
    | poll client =>
      simp only [Process.step]
      split
      · exact .client rfl
      · exact .idle _
    | leave client =>
      simp only [Process.step]
      split
      · exact .client rfl
      · exact .idle _
    | serverEnds result =>
      simp only [Process.step]
      split
      · rename_i serving
        exact .serverEnds serving result
      · exact .idle _
    | panic component error =>
      simp only [Process.step, Process.panic]
      cases component with
      | feed venue =>
        dsimp only
        split
        · exact .idle _
        · rename_i alive
          exact .feedPanic alive error
      | aggregator =>
        dsimp only
        split
        · rename_i runs
          exact .aggregatorPanic runs error
        · exact .idle _
      | server =>
        dsimp only
        split
        · rename_i serving
          exact .serverPanic serving error
        · exact .idle _
    | join choice =>
      simp only [Process.step]
      split
      · exact .idle _
      · rename_i found
        exact .join (List.mem_of_getElem? found) choice

/-! ## Feeds -/

/-- The phases of the feeds. -/
def Process.phases (state : Process H R) (venue : Venue) : Phase := (state.feeds venue).phase

theorem Process.feeds_withFeed (state : Process H R) (venue : Venue)
    (task : FeedTask (FeedState venue)) :
    (state.withFeed venue task).feeds = Function.update state.feeds venue task := rfl

theorem Process.phases_withFeed (state : Process H R) (venue : Venue)
    (task : FeedTask (FeedState venue)) :
    (state.withFeed venue task).phases = Function.update state.phases venue task.phase := by
  funext other
  by_cases same : other = venue
  · subst same
    simp [Process.phases, Process.feeds_withFeed]
  · simp [Process.phases, Process.feeds_withFeed, Function.update_of_ne same]

/-! ## The aggregator's turns -/

section Turn

variable (outside : Outside H R) (state : Process H R) (event : Event)

@[simp] theorem feeds_turn : (state.turn outside event).1.feeds = state.feeds := by
  unfold Process.turn
  dsimp only
  split <;> rfl

@[simp] theorem serving_turn : (state.turn outside event).1.serving = state.serving := by
  unfold Process.turn
  dsimp only
  split <;> rfl

@[simp] theorem service_turn : (state.turn outside event).1.service =
    (serviceStep outside.histograms outside.streams state.service (.turn event)).1 := by
  unfold Process.turn
  dsimp only
  split <;> rfl

theorem shown_turn : (state.turn outside event).2 = .served (.turn event)
    (serviceStep outside.histograms outside.streams state.service (.turn event)).2 := rfl

end Turn

/-- The channel a watch would be with the service's own receiver alone. -/
def Watch.alone (tx : Watch) : Watch := { tx with receivers := 1 }

/-- What a client's event leaves as it was: all of the aggregator but the number of receivers of its
channel; and it sends nothing. -/
structure OfClient (service : Service H R) (next : Service H R × ServiceOutput) : Prop where
  aggregator : next.1.aggregator.aggregator = service.aggregator.aggregator
  tx : next.1.aggregator.tx.alone = service.aggregator.tx.alone
  startedAt : next.1.aggregator.startedAt = service.aggregator.startedAt
  ended : next.1.aggregator.ended = service.aggregator.ended
  unsent : ∀ summary, next.2 ≠ .sent summary

theorem client_serviceStep (api : HistogramApi H) (streams : WatchStreamApi R)
    (service : Service H R) {event : ServiceEvent} (ofClient : event.ofClient = true) :
    OfClient service (serviceStep api streams service event) := by
  cases event with
  | turn event => cases ofClient
  | subscribe client =>
    simp only [serviceStep]
    split <;> exact ⟨rfl, rfl, rfl, rfl, nofun⟩
  | poll client =>
    simp only [serviceStep]
    split <;> exact ⟨rfl, rfl, rfl, rfl, nofun⟩
  | leave client =>
    simp only [serviceStep]
    split <;> exact ⟨rfl, rfl, rfl, rfl, nofun⟩

/-- The loop of `run` is not over before its task is. -/
def Process.Running (state : Process H R) : Prop :=
  state.aggregating = true → state.service.aggregator.ended = false

theorem running_turn (outside : Outside H R) (state : Process H R) (event : Event) :
    (state.turn outside event).1.Running := by
  unfold Process.turn Process.Running
  dsimp only
  split
  · exact nofun
  · rename_i going
    intro _
    simpa using going

theorem running_step (outside : Outside H R) (pair : Text) {state : Process H R}
    (running : state.Running) (event : ProcessEvent) :
    (processStep outside pair state event).1.Running := by
  have step := step_cases outside pair state event
  generalize processStep outside pair state event = next at step
  cases step with
  | book => exact running_turn outside _ _
  | closed => exact running_turn outside _ _
  | graceCheck => exact running_turn outside _ _
  | reportTick => exact running_turn outside _ _
  | aggregatorPanic => exact nofun
  | client ofClient =>
    intro runs
    show (serviceStep _ _ _ _).1.aggregator.ended = false
    rw [(client_serviceStep outside.histograms outside.streams state.service ofClient).ended]
    exact running runs
  | _ => exact running

theorem running_final (outside : Outside H R) (pair : Text) (startedAt : Instant)
    (events : List ProcessEvent) : (processAfter outside pair startedAt events).Running :=
  Machine.invariant (process outside pair) (P := Process.Running) (C := fun _ => True)
    (fun _ event _ running => running_step outside pair running event) (fun _ => rfl) events
    fun _ _ => trivial

end Orderbook
