import Orderbook.Proofs.Delivery
import Orderbook.Proofs.Subscribers

/-!
# No jam between the feeds and the aggregator

A feed that finds the channel full is suspended until the aggregator takes a book. While the
aggregator runs this never jams: from every state a run reaches, the two ends of the channel alone
can bring every book to the aggregator, in few steps.
-/

namespace Orderbook

open Mpsc

variable {H R : Type}

/-! ## The two ends of the channel -/

/-- The event is a step of the channel: a suspended send goes on, or a book is received. -/
def ProcessEvent.transports : ProcessEvent → Bool
  | send _ => true
  | receive _ _ _ => true
  | _ => false

/-- How much is left to do: a book that waits is queued and then received. -/
def backlog (phases : Venue → Phase) (channel : Mpsc Venue Book) : Nat :=
  channel.queue.length + (allVenues.map fun venue => if phases venue = .sending then 2 else 0).sum

theorem backlog_resume {phases : Venue → Phase} {venue : Venue} (sending : phases venue = .sending)
    (channel : Mpsc Venue Book) :
    backlog (Function.update phases venue .reading) channel + 2 = backlog phases channel := by
  cases venue <;> simp [backlog, allVenues, Function.update, sending] <;> omega

theorem backlog_le {phases : Venue → Phase} {channel : Mpsc Venue Book}
    (room : channel.queue.length ≤ FEED_CAPACITY) : backlog phases channel ≤ 38 := by
  have bound : ∀ phase : Phase, (if phase = .sending then 2 else 0) ≤ 2 := by
    intro phase
    split <;> omega
  have first := bound (phases .binance)
  have second := bound (phases .bitstamp)
  have third := bound (phases .kraken)
  simp only [FEED_CAPACITY] at room
  simp only [backlog, allVenues, List.map_cons, List.map_nil, List.sum_cons, List.sum_nil]
  omega

/-- A book in the queue is received. -/
theorem step_receive (outside : Outside H R) (pair : Text) {state : Process H R}
    (waiting : state.returned = none) (runs : state.aggregating = true)
    (going : state.service.aggregator.ended = false) {venue : Venue} {book : Book}
    {rest : Mpsc Venue Book} (taken : state.channel.take = some ((venue, book), rest))
    (now : Instant) :
    ∃ service output, processStep outside pair state (.receive now now now) =
        ({ state with channel := rest, service },
          .served (.turn (.book ⟨venue, book, now, now, now⟩)) output) := by
  have continues : (serviceStep outside.histograms outside.streams state.service
      (.turn (.book ⟨venue, book, now, now, now⟩))).1.aggregator.ended = false := by
    simp only [serviceStep, turn, going, Bool.false_eq_true, if_false]
  refine ⟨(serviceStep outside.histograms outside.streams state.service
    (.turn (.book ⟨venue, book, now, now, now⟩))).1, (serviceStep outside.histograms outside.streams
    state.service (.turn (.book ⟨venue, book, now, now, now⟩))).2, ?_⟩
  simp only [processStep, waiting, Process.step, runs, if_true, Process.receive, taken,
    Process.turn, continues, Bool.false_eq_true, if_false]

/-- With an empty queue a suspended send goes through. -/
theorem step_send (outside : Outside H R) (pair : Text) {state : Process H R}
    (waiting : state.returned = none) {venue : Venue} (sending : state.phases venue = .sending)
    (empty : state.channel.queue = []) :
    processStep outside pair state (.send venue) =
      ({ state.withFeed venue { state.feeds venue with phase := .reading } with
          channel := state.channel.settle FEED_CAPACITY venue }, .nothing) := by
  have phase : (state.feeds venue).phase = .sending := sending
  have through : (state.channel.settle FEED_CAPACITY venue).waiting venue = none := by
    rw [waiting_settle, Function.update_self]
    right
    rw [empty]
    decide
  simp only [processStep, waiting, Process.step, phase, through, and_self, if_true]

theorem length_settle_of_empty {channel : Mpsc Venue Book} (empty : channel.queue = [])
    (venue : Venue) : (channel.settle FEED_CAPACITY venue).queue.length ≤ 1 := by
  unfold settle
  split
  · rw [empty]
    exact Nat.zero_le 1
  · split
    · show channel.queue.length ≤ 1
      rw [empty]
      exact Nat.zero_le 1
    · split
      · rw [empty]
        exact Nat.le_refl 1
      · rw [empty]
        exact Nat.zero_le 1

/-! ## Draining -/

/-- The steps `more` of the channel bring every book to the aggregator: no send is left suspended,
nothing is parsed meanwhile, and all that was parsed has been received. -/
structure Drains (outside : Outside H R) (pair : Text) (outputs : List ProcessOutput)
    (state : Process H R) (more : List ProcessEvent) : Prop where
  transports : ∀ event ∈ more, event.transports = true
  resumed : ∀ venue, ((process outside pair).final state more).phases venue ≠ .sending
  parsed : ∀ venue,
    parsedBy venue (outputs ++ (process outside pair).outputs state more) = parsedBy venue outputs
  received : ∀ venue, state.phases venue ≠ .panicked →
    receivedFrom venue (outputs ++ (process outside pair).outputs state more) =
      parsedBy venue outputs

/-- One step of the channel before the others. -/
theorem Drains.cons {outside : Outside H R} {pair : Text} {outputs : List ProcessOutput}
    {state : Process H R} {event : ProcessEvent} {more : List ProcessEvent}
    (transports : event.transports = true)
    (alive : ∀ venue, state.phases venue ≠ .panicked →
      (processStep outside pair state event).1.phases venue ≠ .panicked)
    (silent : ∀ venue, (processStep outside pair state event).2.parsed venue = none)
    (rest : Drains outside pair (outputs ++ [(processStep outside pair state event).2])
      (processStep outside pair state event).1 more) :
    Drains outside pair outputs state (event :: more) := by
  have outputsSame : outputs ++ (process outside pair).outputs state (event :: more) =
      outputs ++ [(processStep outside pair state event).2] ++
        (process outside pair).outputs (processStep outside pair state event).1 more := by
    rw [Machine.outputs_cons, List.append_assoc]
    rfl
  have parsedSame := fun venue => parsedBy_concat_of_none (silent venue) outputs
  refine ⟨?_, rest.resumed, fun venue => ?_, fun venue running => ?_⟩
  · intro other member
    rcases List.mem_cons.mp member with rfl | member
    · exact transports
    · exact rest.transports other member
  · rw [outputsSame, rest.parsed, parsedSame]
  · rw [outputsSame, rest.received venue (alive venue running), parsedSame]

/-- Nothing is left to do: every book in flight was received. -/
theorem drains_nil {outside : Outside H R} {pair : Text} {outputs : List ProcessOutput}
    {state : Process H R} (delivers : Delivers outputs state) (runs : state.aggregating = true)
    (empty : state.channel.queue = []) (resumed : ∀ venue, state.phases venue ≠ .sending) :
    Drains outside pair outputs state [] := by
  refine ⟨nofun, resumed, fun venue => ?_, fun venue running => ?_⟩
  · rw [Machine.outputs_nil, List.append_nil]
  · have whole := delivers.whole runs venue running
    rw [inFlight, empty, delivers.waits venue (resumed venue), bySender_nil, Option.toList_none,
      List.append_nil, List.append_nil] at whole
    rw [Machine.outputs_nil, List.append_nil, whole]

theorem backlog_of_take (phases : Venue → Phase) {channel rest : Mpsc Venue Book}
    {message : Venue × Book} (taken : channel.take = some (message, rest)) :
    backlog phases channel = backlog phases rest + 1 := by
  have longer := length_take taken
  rw [backlog, backlog]
  omega

/-- The channel drains. The induction is on the backlog: while the queue holds a book the aggregator
receives it, and with an empty queue any suspended send has room. -/
theorem exists_drains (outside : Outside H R) (pair : Text) (now : Instant) (n : Nat) :
    ∀ {outputs : List ProcessOutput} {state : Process H R}, Delivers outputs state →
      state.returned = none → state.aggregating = true → state.Running →
      backlog state.phases state.channel ≤ n →
      ∃ more : List ProcessEvent, more.length ≤ n ∧ Drains outside pair outputs state more := by
  induction n with
  | zero =>
    intro outputs state delivers _ runs _ done
    refine ⟨[], Nat.le_refl 0, drains_nil delivers runs ?_ fun venue sending => ?_⟩
    · rw [← List.length_eq_zero_iff]
      have := Nat.le_add_right state.channel.queue.length
        ((allVenues.map fun venue => if state.phases venue = .sending then 2 else 0).sum)
      rw [← backlog] at this
      omega
    · have := backlog_resume sending state.channel
      omega
  | succ n ih =>
    intro outputs state delivers waiting runs going left
    have next := delivers_step outside delivers pair
    have keeps := running_step outside pair going
    cases taken : state.channel.take with
    | some message =>
      obtain ⟨⟨venue, book⟩, rest⟩ := message
      obtain ⟨service, output, step⟩ :=
        step_receive outside pair waiting runs (going runs) taken now
      have delivered := next (.receive now now now)
      have running := keeps (.receive now now now)
      rw [step] at delivered running
      have fewer : backlog state.phases rest ≤ n := by
        have := backlog_of_take state.phases taken
        omega
      obtain ⟨more, short, drains⟩ := ih delivered waiting runs running fewer
      refine ⟨.receive now now now :: more, Nat.succ_le_succ short, Drains.cons rfl ?_ ?_ ?_⟩
      · rw [step]
        exact fun _ alive => alive
      · rw [step]
        exact fun _ => rfl
      · rw [step]
        exact drains
    | none =>
      have empty : state.channel.queue = [] := by
        unfold take at taken
        split at taken
        · assumption
        · cases taken
      by_cases resumed : ∀ venue, state.phases venue ≠ .sending
      · exact ⟨[], Nat.zero_le _, drains_nil delivers runs empty resumed⟩
      · obtain ⟨venue, sending⟩ := not_forall.mp resumed
        rw [not_not] at sending
        have step := step_send outside pair waiting sending empty
        have delivered := next (.send venue)
        have running := keeps (.send venue)
        rw [step] at delivered running
        have phases : ({ state.withFeed venue { state.feeds venue with phase := .reading } with
            channel := state.channel.settle FEED_CAPACITY venue } : Process H R).phases =
            Function.update state.phases venue .reading :=
          state.phases_withFeed venue { state.feeds venue with phase := .reading }
        have fewer : backlog (Function.update state.phases venue .reading)
            (state.channel.settle FEED_CAPACITY venue) ≤ n := by
          have resume := backlog_resume sending (state.channel.settle FEED_CAPACITY venue)
          have queued := length_settle_of_empty empty venue
          rw [backlog, empty, List.length_nil, Nat.zero_add] at left
          rw [backlog.eq_def state.phases] at resume
          omega
        obtain ⟨more, short, drains⟩ := ih delivered waiting runs running (phases ▸ fewer)
        refine ⟨.send venue :: more, Nat.succ_le_succ short, Drains.cons rfl ?_ ?_ ?_⟩
        · rw [step, phases]
          intro other alive
          by_cases same : other = venue
          · rw [same, Function.update_self]
            exact Phase.noConfusion
          · rwa [Function.update_of_ne same]
        · rw [step]
          exact fun _ => rfl
        · rw [step]
          exact drains

/-- From every state a run reaches while the aggregator runs and `main` waits, at most 38 steps of
the channel alone bring every book parsed by a feed that is still there to the aggregator, and leave
no feed suspended. -/
theorem channel_drains (outside : Outside H R) (pair : Text) (startedAt now : Instant)
    (events : List ProcessEvent)
    (waiting : (processAfter outside pair startedAt events).returned = none)
    (runs : (processAfter outside pair startedAt events).aggregating = true) :
    ∃ more : List ProcessEvent, more.length ≤ 38 ∧
      Drains outside pair (processShows outside pair startedAt events)
        (processAfter outside pair startedAt events) more := by
  have delivers := delivers_final outside pair startedAt events
  have running := running_final outside pair startedAt events
  exact exists_drains outside pair now 38 delivers waiting runs running (backlog_le delivers.room)

/-- A Binance payload. -/
def quote : Text :=
  "\x7b\"lastUpdateId\":1,\"bids\":[[\"8\",\"2\"]],\"asks\":[[\"9\",\"1\"]]\x7d".toList

/-- Reads the one payload. -/
def quoting : Outside Nat (Option Nat) where
  depth20 raw :=
    if raw = quote then some ⟨1, [("8".toList, "2".toList)], [("9".toList, "1".toList)]⟩ else none
  json _ := none
  codec := ⟨fun _ => none, fun _ => none, fun _ => none, fun _ => 0⟩
  case := ⟨List.map Char.toLower, List.map Char.toUpper⟩
  histograms := counting
  streams := versioned

/-- Binance connects and gives a book, whose send is still suspended. -/
def quoted : List ProcessEvent :=
  [.connect .binance (some 1) false, .arrive .binance (.text quote ⟨2, 2⟩)]

theorem channel_drains_quoted :
    (processAfter quoting [] 0 quoted).phases .binance = .sending ∧
      ∃ more : List ProcessEvent, more.length ≤ 38 ∧
        Drains quoting [] (processShows quoting [] 0 quoted) (processAfter quoting [] 0 quoted)
          more :=
  ⟨by decide +kernel, channel_drains quoting [] 0 3 quoted rfl rfl⟩

end Orderbook
