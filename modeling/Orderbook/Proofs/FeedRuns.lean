import Orderbook.Proofs.Delivery

/-!
# The feeds run their connections one after another

In the process a feed's steps are interleaved with those of every other task, and its read loop may
be suspended in a send. `feed_runs_cycles` takes this apart again: what the process shows of a feed
are its connections, each with its arrivals, and the feed's state and its books are those `run_once`
gives over these connections in turn.
-/

namespace Orderbook

variable {H R σ : Type}

/-- The connection cycles of a feed, the exchange's state kept through all of them; the outputs are
the books sent in each. -/
def connectionCycles (exchange : Exchange σ) (pair : Text) : Machine σ Connection (List Book) :=
  fun state connection =>
    ((runOnce exchange pair state connection).state, (runOnce exchange pair state connection).books)

/-! ## One more arrival -/

/-- A read loop that has not ended reads one arrival more. -/
theorem readLoop_concat {exchange : Exchange σ} {state : σ} {arrivals : List Arrival}
    (reading : (readLoop exchange state arrivals).ended = none) (arrival : Arrival) :
    readLoop exchange state (arrivals ++ [arrival]) =
      { state := (readTurn exchange (readLoop exchange state arrivals).state arrival).1
        books := (readLoop exchange state arrivals).books ++
          (readTurn exchange (readLoop exchange state arrivals).state arrival).2.1.toList
        ended := (readTurn exchange (readLoop exchange state arrivals).state arrival).2.2 } := by
  induction arrivals generalizing state with
  | nil =>
    rw [List.nil_append, readLoop.eq_def exchange state [arrival]]
    dsimp only
    split
    · rename_i turn
      simp only [readLoop, turn, List.nil_append]
    · rename_i turn
      simp only [readLoop, turn, List.nil_append, List.append_nil]
  | cons first arrivals ih =>
    rw [List.cons_append]
    cases turn : readTurn exchange state first with
    | mk next rest =>
      obtain ⟨book, ended⟩ := rest
      cases ended with
      | some ended =>
        simp only [readLoop, turn] at reading
        cases reading
      | none =>
        simp only [readLoop, turn] at reading ⊢
        rw [ih reading]
        simp only [List.append_assoc]

/-- The same for a whole cycle. -/
theorem runOnce_concat {exchange : Exchange σ} {pair : Text} {state : σ} {connection : Connection}
    (reading : (runOnce exchange pair state connection).ended = none) (arrival : Arrival) :
    runOnce exchange pair state
        { connection with arrivals := connection.arrivals ++ [arrival] } =
      { state := (readTurn exchange (runOnce exchange pair state connection).state arrival).1
        books := (runOnce exchange pair state connection).books ++
          (readTurn exchange (runOnce exchange pair state connection).state arrival).2.1.toList
        ended :=
          (readTurn exchange (runOnce exchange pair state connection).state arrival).2.2 } := by
  unfold runOnce at reading ⊢
  dsimp only
  split
  · rename_i failed
    rw [if_pos failed] at reading
    cases reading
  · rename_i connected
    rw [if_neg connected] at reading
    split
    · rename_i failed
      rw [if_pos failed] at reading
      cases reading
    · rename_i subscribed
      rw [if_neg subscribed] at reading
      exact readLoop_concat reading arrival

/-- A turn of the read loop keeps the state `parse` left and sends the book it gave. -/
theorem arrive_eq (exchange : Exchange σ) (task : FeedTask σ) (arrival : Arrival) :
    (task.arrive exchange arrival).1.state = (readTurn exchange task.state arrival).1 ∧
      (task.arrive exchange arrival).2 = (readTurn exchange task.state arrival).2.1 ∧
      ((task.arrive exchange arrival).1.phase = .between ↔
        (readTurn exchange task.state arrival).2.2 ≠ none) := by
  unfold FeedTask.arrive
  split
  · rename_i turn
    rw [turn]
    exact ⟨rfl, rfl, by simp⟩
  · rename_i turn
    rw [turn]
    exact ⟨rfl, rfl, by simp⟩
  · rename_i turn
    rw [turn]
    exact ⟨rfl, rfl, by simp⟩

theorem state_connect (exchange : Exchange σ) (pair : Text) (task : FeedTask σ)
    (connectedAt : Option Instant) (subscribeSent : Bool) :
    (task.connect exchange pair connectedAt subscribeSent).state = task.state := by
  unfold FeedTask.connect
  split
  · rfl
  · split <;> rfl

/-! ## What the process shows of a feed -/

/-- The output is one of a feed's own steps. -/
def ProcessOutput.ofFeed (venue : Venue) : ProcessOutput → Bool
  | attempted other _ _ => other == venue
  | read other _ _ => other == venue
  | _ => false

/-- One more arrival on the last connection. -/
def arriveLast (arrival : Arrival) : List Connection → List Connection
  | [] => []
  | [connection] => [{ connection with arrivals := connection.arrivals ++ [arrival] }]
  | connection :: connections => connection :: arriveLast arrival connections

theorem arriveLast_concat (arrival : Arrival) (connections : List Connection)
    (connection : Connection) :
    arriveLast arrival (connections ++ [connection]) =
      connections ++ [{ connection with arrivals := connection.arrivals ++ [arrival] }] := by
  induction connections with
  | nil => rfl
  | cons first connections ih =>
    cases connections with
    | nil => rfl
    | cons second connections =>
      rw [List.cons_append, List.cons_append, arriveLast, ← List.cons_append, ih]
      · rfl
      · simp

/-- The connections of a feed with one more output. -/
def ProcessOutput.extend (venue : Venue) (connections : List Connection) :
    ProcessOutput → List Connection
  | attempted other connectedAt subscribeSent =>
      if other = venue then connections ++ [⟨connectedAt, subscribeSent, []⟩] else connections
  | read other arrival _ => if other = venue then arriveLast arrival connections else connections
  | _ => connections

/-- The connections of a feed, each with what it gave so far. -/
def connectionsOf (venue : Venue) (outputs : List ProcessOutput) : List Connection :=
  outputs.foldl (ProcessOutput.extend venue) []

theorem connectionsOf_concat (venue : Venue) (outputs : List ProcessOutput)
    (output : ProcessOutput) :
    connectionsOf venue (outputs ++ [output]) =
      output.extend venue (connectionsOf venue outputs) := by
  rw [connectionsOf, List.foldl_append]
  rfl

theorem extend_of_other {output : ProcessOutput} {venue : Venue}
    (other : output.ofFeed venue = false) (connections : List Connection) :
    output.extend venue connections = connections := by
  cases output with
  | attempted origin connectedAt subscribeSent =>
    exact if_neg (by simpa [ProcessOutput.ofFeed] using other)
  | read origin arrival book => exact if_neg (by simpa [ProcessOutput.ofFeed] using other)
  | _ => rfl

theorem parsed_of_other {output : ProcessOutput} {venue : Venue}
    (other : output.ofFeed venue = false) : output.parsed venue = none := by
  cases output with
  | read origin arrival book => exact if_neg (by simpa [ProcessOutput.ofFeed] using other)
  | _ => rfl

/-! ## What a step does to a feed -/

/-- What one event can do to the task of a feed, with what it shows: a step of another task, which
leaves its state; an attempt to connect; or a turn of its read loop. -/
inductive FeedMove (outside : Outside H R) (pair : Text) (venue : Venue)
    (task task' : FeedTask (FeedState venue)) (output : ProcessOutput) : Prop
  | still (state : task'.state = task.state) (silent : output.ofFeed venue = false)
      (phase : task'.phase = task.phase ∨ (task.phase = .sending ∧ task'.phase = .reading) ∨
        task'.phase = .panicked)
  | attempt (between : task.phase = .between) (connectedAt : Option Instant)
      (subscribeSent : Bool) (shown : output = .attempted venue connectedAt subscribeSent)
      (next : task' = task.connect (outside.exchange venue) pair connectedAt subscribeSent)
  | arrive (reading : task.phase = .reading) (arrival : Arrival)
      (shown : output =
        .read venue arrival (task.arrive (outside.exchange venue) arrival).2)
      (next : task' = (task.arrive (outside.exchange venue) arrival).1)

section Moves

variable (outside : Outside H R) (pair : Text) (state : Process H R) (venue : Venue)

variable {outside pair state} in
theorem FeedMove.same {output : ProcessOutput} (silent : output.ofFeed venue = false) :
    FeedMove outside pair venue (state.feeds venue) (state.feeds venue) output :=
  .still rfl silent (Or.inl rfl)

variable {outside pair} in
/-- A step of a feed is none of another. -/
theorem FeedMove.withFeed {mover : Venue} {task : FeedTask (FeedState mover)}
    {output : ProcessOutput}
    (own : FeedMove outside pair mover (state.feeds mover) task output)
    (silent : ∀ other, other ≠ mover → output.ofFeed other = false) :
    FeedMove outside pair venue (state.feeds venue) ((state.withFeed mover task).feeds venue)
      output := by
  rw [Process.feeds_withFeed]
  by_cases same : venue = mover
  · subst same
    rw [Function.update_self]
    exact own
  · rw [Function.update_of_ne same]
    exact .same venue (silent venue same)

/-- Every event. -/
theorem feedMove_step (event : ProcessEvent) :
    FeedMove outside pair venue (state.feeds venue)
      ((processStep outside pair state event).1.feeds venue)
      (processStep outside pair state event).2 := by
  have step := step_cases outside pair state event
  generalize processStep outside pair state event = next at step
  cases step with
  | connect between connectedAt subscribeSent =>
    refine FeedMove.withFeed state venue (.attempt between connectedAt subscribeSent rfl rfl) ?_
    intro other different
    simpa [ProcessOutput.ofFeed] using Ne.symm different
  | arrive reading arrival =>
    refine FeedMove.withFeed state venue (.arrive reading arrival rfl rfl) ?_
    intro other different
    simpa [ProcessOutput.ofFeed] using Ne.symm different
  | send sending gone =>
    exact FeedMove.withFeed state venue (.still rfl rfl (Or.inr (Or.inl ⟨sending, rfl⟩)))
      fun _ _ => rfl
  | feedPanic alive error =>
    exact FeedMove.withFeed state venue (.still rfl rfl (Or.inr (Or.inr rfl))) fun _ _ => rfl
  | book =>
    rw [feeds_turn, shown_turn]
    exact .same venue rfl
  | closed =>
    rw [feeds_turn, shown_turn]
    exact .same venue rfl
  | graceCheck =>
    rw [feeds_turn, shown_turn]
    exact .same venue rfl
  | reportTick =>
    rw [feeds_turn, shown_turn]
    exact .same venue rfl
  | _ => exact .same venue rfl

end Moves

/-! ## Whole runs -/

section Runs

variable {exchange : Exchange σ} {pair : Text}

/-- The connections so far explain a feed: its state is what `run_once` leaves after them, every one
but the last has ended, and so has the last one unless the feed is in its read loop. -/
structure Follows (exchange : Exchange σ) (pair : Text) (start : σ) (connections : List Connection)
    (task : FeedTask σ) (books : List Book) : Prop where
  state : task.state = (connectionCycles exchange pair).final start connections
  books : books = ((connectionCycles exchange pair).outputs start connections).flatten
  ended : ∀ before connection after, connections = before ++ connection :: after →
    after ≠ [] ∨ task.phase = .between →
    (runOnce exchange pair ((connectionCycles exchange pair).final start before)
      connection).ended ≠ none
  inLoop : task.phase = .reading ∨ task.phase = .sending →
    ∃ before connection, connections = before ++ [connection] ∧
      (runOnce exchange pair ((connectionCycles exchange pair).final start before)
        connection).ended = none

theorem follows_start (start : σ) : Follows exchange pair start [] ⟨start, .between⟩ [] :=
  ⟨rfl, rfl, fun before connection after whole => by simp at whole, nofun⟩

/-- A step that is not the feed's own. -/
theorem Follows.still {start : σ} {connections : List Connection} {task task' : FeedTask σ}
    {books : List Book} (follows : Follows exchange pair start connections task books)
    (state : task'.state = task.state)
    (phase : task'.phase = task.phase ∨ (task.phase = .sending ∧ task'.phase = .reading) ∨
      task'.phase = .panicked) :
    Follows exchange pair start connections task' books := by
  refine ⟨state.trans follows.state, follows.books, fun before connection after whole last => ?_,
    fun inLoop => ?_⟩
  · refine follows.ended before connection after whole (last.imp_right fun between => ?_)
    rcases phase with same | ⟨-, reading⟩ | panicked
    · rw [← same, between]
    · rw [reading] at between
      cases between
    · rw [panicked] at between
      cases between
  · apply follows.inLoop
    rcases phase with same | ⟨sending, -⟩ | panicked
    · rwa [same] at inLoop
    · exact Or.inr sending
    · rw [panicked] at inLoop
      rcases inLoop with reading | sending
      · cases reading
      · cases sending

variable (exchange pair) in
/-- A connection just made, or failed to make. -/
theorem runOnce_fresh (state : σ) (connectedAt : Option Instant) (subscribeSent : Bool) :
    (runOnce exchange pair state ⟨connectedAt, subscribeSent, []⟩).state = state ∧
      (runOnce exchange pair state ⟨connectedAt, subscribeSent, []⟩).books = [] ∧
      (((⟨state, .between⟩ : FeedTask σ).connect exchange pair connectedAt subscribeSent).phase =
          .reading ∧
          (runOnce exchange pair state ⟨connectedAt, subscribeSent, []⟩).ended = none ∨
        ((⟨state, .between⟩ : FeedTask σ).connect exchange pair connectedAt subscribeSent).phase =
          .between ∧
          (runOnce exchange pair state ⟨connectedAt, subscribeSent, []⟩).ended ≠ none) := by
  unfold runOnce FeedTask.connect
  dsimp only
  split
  · exact ⟨rfl, rfl, Or.inr ⟨rfl, nofun⟩⟩
  · split
    · exact ⟨rfl, rfl, Or.inr ⟨rfl, nofun⟩⟩
    · exact ⟨rfl, rfl, Or.inl ⟨rfl, rfl⟩⟩

theorem split_concat {α : Type} {early before after : List α} {last x : α}
    (whole : early ++ [last] = before ++ x :: after) :
    (after = [] ∧ x = last ∧ before = early) ∨
      ∃ between, after = between ++ [last] ∧ early = before ++ x :: between := by
  rcases List.eq_nil_or_concat after with rfl | ⟨between, final, rfl⟩
  · obtain ⟨same, one⟩ := List.append_inj' whole rfl
    rw [List.cons.injEq] at one
    exact Or.inl ⟨rfl, one.1.symm, same.symm⟩
  · rw [List.concat_eq_append, ← List.cons_append, ← List.append_assoc] at whole
    obtain ⟨same, one⟩ := List.append_inj' whole rfl
    rw [List.cons.injEq] at one
    refine Or.inr ⟨between, ?_, same⟩
    rw [one.1, List.concat_eq_append]

/-- An attempt to connect. -/
theorem Follows.attempt {start : σ} {connections : List Connection} {task : FeedTask σ}
    {books : List Book} (follows : Follows exchange pair start connections task books)
    (between : task.phase = .between) (connectedAt : Option Instant) (subscribeSent : Bool) :
    Follows exchange pair start (connections ++ [⟨connectedAt, subscribeSent, []⟩])
      (task.connect exchange pair connectedAt subscribeSent) books := by
  obtain ⟨kept, phase⟩ := task
  obtain rfl : phase = .between := between
  obtain ⟨state, noBooks, outcome⟩ :=
    runOnce_fresh exchange pair kept connectedAt subscribeSent
  have state' : kept = (connectionCycles exchange pair).final start connections := follows.state
  have stays := state_connect exchange pair ⟨kept, .between⟩ connectedAt subscribeSent
  refine ⟨?_, ?_, fun before connection after whole last => ?_, fun inLoop => ?_⟩
  · rw [Machine.final_concat, ← state', stays]
    exact state.symm
  · rw [Machine.outputs_concat, ← state', List.flatten_append, ← follows.books]
    simp only [connectionCycles, noBooks, List.flatten_cons, List.flatten_nil, List.append_nil]
  · rcases split_concat whole with ⟨rfl, rfl, rfl⟩ | ⟨between, rfl, earlier⟩
    · rw [← state']
      rcases outcome with ⟨reading, -⟩ | ⟨-, ended⟩
      · rcases last with more | now
        · exact absurd rfl more
        · rw [reading] at now
          cases now
      · exact ended
    · exact follows.ended before connection between earlier (Or.inr rfl)
  · rcases outcome with ⟨-, reading⟩ | ⟨now, -⟩
    · exact ⟨connections, _, rfl, state' ▸ reading⟩
    · rw [now] at inLoop
      rcases inLoop with reading | sending
      · cases reading
      · cases sending

/-- A turn of the read loop. -/
theorem Follows.arrive {start : σ} {connections : List Connection} {task : FeedTask σ}
    {books : List Book} (follows : Follows exchange pair start connections task books)
    (reading : task.phase = .reading) (arrival : Arrival) :
    Follows exchange pair start (arriveLast arrival connections)
      (task.arrive exchange arrival).1 (books ++ (task.arrive exchange arrival).2.toList) := by
  obtain ⟨before, connection, rfl, open_⟩ := follows.inLoop (Or.inl reading)
  have grown := runOnce_concat open_ arrival
  have state := follows.state
  have sent := follows.books
  rw [Machine.final_concat] at state
  rw [Machine.outputs_concat] at sent
  have turned := arrive_eq exchange task arrival
  have now : task.state = (runOnce exchange pair
      ((connectionCycles exchange pair).final start before) connection).state := state
  rw [now] at turned
  rw [arriveLast_concat]
  refine ⟨?_, ?_, fun early other after whole last => ?_, fun inLoop => ?_⟩
  · rw [Machine.final_concat, turned.1, connectionCycles, grown]
  · rw [Machine.outputs_concat, turned.2.1, sent]
    simp only [connectionCycles, grown, List.flatten_append, List.flatten_cons, List.flatten_nil,
      List.append_nil, List.append_assoc]
  · rcases split_concat whole with ⟨rfl, rfl, rfl⟩ | ⟨between, rfl, earlier⟩
    · rcases last with more | ended
      · exact absurd rfl more
      · rw [grown]
        exact turned.2.2.mp ended
    · refine follows.ended early other (between ++ [connection]) ?_ (Or.inl (by simp))
      rw [earlier, List.append_assoc]
      rfl
  · refine ⟨before, _, rfl, ?_⟩
    rw [grown]
    by_contra ended
    have out := turned.2.2.mpr ended
    rw [out] at inLoop
    rcases inLoop with reading | sending
    · cases reading
    · cases sending

end Runs

/-- Every event of the process. -/
theorem follows_step (outside : Outside H R) (pair : Text) {outputs : List ProcessOutput}
    {state : Process H R} {venue : Venue}
    (follows : Follows (outside.exchange venue) pair (FeedState.new venue)
      (connectionsOf venue outputs) (state.feeds venue) (parsedBy venue outputs))
    (event : ProcessEvent) :
    Follows (outside.exchange venue) pair (FeedState.new venue)
      (connectionsOf venue (outputs ++ [(processStep outside pair state event).2]))
      ((processStep outside pair state event).1.feeds venue)
      (parsedBy venue (outputs ++ [(processStep outside pair state event).2])) := by
  have move := feedMove_step outside pair state venue event
  rw [connectionsOf_concat, parsedBy_concat]
  cases move with
  | still kept silent phase =>
    rw [extend_of_other silent, parsed_of_other silent, Option.toList_none, List.append_nil]
    exact follows.still kept phase
  | attempt between connectedAt subscribeSent shown next =>
    have silent : ProcessOutput.parsed venue (.attempted venue connectedAt subscribeSent) = none :=
      rfl
    rw [shown, next, ProcessOutput.extend, if_pos rfl, silent, Option.toList_none, List.append_nil]
    exact follows.attempt between connectedAt subscribeSent
  | arrive reading arrival shown next =>
    rw [shown, next, ProcessOutput.extend, if_pos rfl, ProcessOutput.parsed, if_pos rfl]
    exact follows.arrive reading arrival

/-- In every run the steps the process shows of a feed are its connections one after another, as
`run_once` runs them, with no trace of the other tasks. -/
theorem feed_runs_cycles (outside : Outside H R) (pair : Text) (startedAt : Instant)
    (events : List ProcessEvent) (venue : Venue) :
    Follows (outside.exchange venue) pair (FeedState.new venue)
      (connectionsOf venue (processShows outside pair startedAt events))
      ((processAfter outside pair startedAt events).feeds venue)
      (parsedBy venue (processShows outside pair startedAt events)) := by
  apply Machine.history (P := fun _ state outputs =>
    Follows (outside.exchange venue) pair (FeedState.new venue) (connectionsOf venue outputs)
      (state.feeds venue) (parsedBy venue outputs)) (process outside pair)
  · exact follows_start (FeedState.new venue)
  · intro before event follows
    exact follows_step outside pair follows event

end Orderbook
