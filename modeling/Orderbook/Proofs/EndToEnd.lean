import Orderbook.Proofs.FeedRuns
import Orderbook.Proofs.KrakenAtomicity
import Orderbook.Proofs.Progress
import Orderbook.Proofs.Staleness

/-!
# From a frame to a client

The process from end to end: a summary a client receives is one merge of books the aggregator had
received, each fresh and the last of its venue; these are books the venue's feed parsed, up to some
frame, in order; and each level shown stands in one of them.
-/

namespace Orderbook

open Mpsc Repeats

variable {H R σ : Type}

/-! ## The service inside the process -/

/-- The event of the service an output shows, with what the service showed. -/
def ProcessOutput.serviced : ProcessOutput → Option (ServiceEvent × ServiceOutput)
  | served event output => some (event, output)
  | _ => none

/-- The events of the service. -/
def servedEvents (outputs : List ProcessOutput) : List ServiceEvent :=
  (outputs.filterMap ProcessOutput.serviced).map Prod.fst

/-- What the service showed. -/
def servedOutputs (outputs : List ProcessOutput) : List ServiceOutput :=
  (outputs.filterMap ProcessOutput.serviced).map Prod.snd

/-- A step of the process is one of its service, shown as such, or none. -/
theorem service_processStep (outside : Outside H R) (pair : Text) (state : Process H R)
    (event : ProcessEvent) :
    ((processStep outside pair state event).2.serviced = none ∧
        (processStep outside pair state event).1.service = state.service) ∨
      ∃ own, (processStep outside pair state event).2.serviced =
          some (own, (service outside.histograms outside.streams state.service own).2) ∧
        (processStep outside pair state event).1.service =
          (service outside.histograms outside.streams state.service own).1 := by
  have step := step_cases outside pair state event
  generalize processStep outside pair state event = next at step
  cases step with
  | book => exact Or.inr ⟨_, rfl, service_turn outside _ _⟩
  | closed => exact Or.inr ⟨_, rfl, service_turn outside _ _⟩
  | graceCheck => exact Or.inr ⟨_, rfl, service_turn outside _ _⟩
  | reportTick => exact Or.inr ⟨_, rfl, service_turn outside _ _⟩
  | client => exact Or.inr ⟨_, rfl, rfl⟩
  | _ => exact Or.inl ⟨rfl, rfl⟩

/-- What the process shows of its service is a run of the service. -/
theorem service_processAfter (outside : Outside H R) (pair : Text) (startedAt : Instant)
    (events : List ProcessEvent) :
    (processAfter outside pair startedAt events).service =
        (service outside.histograms outside.streams).final
          (Service.start outside.histograms startedAt)
          (servedEvents (processShows outside pair startedAt events)) ∧
      servedOutputs (processShows outside pair startedAt events) =
        (service outside.histograms outside.streams).outputs
          (Service.start outside.histograms startedAt)
          (servedEvents (processShows outside pair startedAt events)) :=
  Machine.embeds (process outside pair) (service_processStep outside pair)
    (Process.start outside startedAt) events

theorem servedOutputs_concat (outputs : List ProcessOutput) (output : ProcessOutput) :
    servedOutputs (outputs ++ [output]) =
      servedOutputs outputs ++ (output.serviced.map Prod.snd).toList := by
  rw [servedOutputs, List.filterMap_append, List.map_append]
  cases shown : output.serviced <;> simp [servedOutputs, shown]

/-! ## What is published -/

theorem after_alone {tx : Watch} (live : tx.receivers ≠ 0) (sent : Option Summary) :
    tx.alone.after sent = (tx.after sent).alone := by
  cases sent with
  | none => rfl
  | some summary =>
    rw [Watch.after, Watch.after, Watch.send, Watch.send, if_neg live, if_neg]
    · rfl
    · exact Nat.one_ne_zero

/-- One turn of the aggregator's loop, and what it sends. -/
theorem published_turn_sent (api : HistogramApi H) {calls : List Call} {state : RunState H}
    {sent : List Summary} (running : state.ended = false) (live : state.tx.receivers ≠ 0)
    (published : Published ⟨none, 0, 1⟩ calls (state.aggregator, state.tx.alone) sent)
    (event : Event) :
    Published ⟨none, 0, 1⟩ (calls ++ event.call.toList)
      ((turn api state event).1.aggregator, (turn api state event).1.tx.alone)
      (sent ++ (turn api state event).2.sent.toList) := by
  have whole := turn_withTx api state state.tx.alone event
  have running' : ({ state with tx := state.tx.alone } : RunState H).ended = false := running
  obtain ⟨sent', next⟩ := published_turn api Nat.one_ne_zero running' published event
  have grown : sent' = sent ++ (turn api state event).2.sent.toList := by
    rw [next.stream]
    cases event with
    | book call =>
      have more := (published_concat api Nat.one_ne_zero published call).stream
      have shown : (turn api state (.book call)).2.sent =
          (publisher api (state.aggregator, state.tx.alone) call).2 := by
        rw [publisher, recordAndPublish_withTx api state.aggregator state.tx state.tx.alone call]
        simp only [turn, running, Bool.false_eq_true, if_false]
      rw [shown, more]
      rfl
    | closed now =>
      simp only [turn, running, Event.call, Bool.false_eq_true, if_false, Option.toList_none,
        List.append_nil]
      exact published.stream.symm
    | graceCheck now =>
      have nothing : (turn api state (.graceCheck now)).2.sent = none := by
        simp only [turn, running, Bool.false_eq_true, if_false]
        split <;> rfl
      rw [nothing]
      simp only [Event.call, Option.toList_none, List.append_nil]
      exact published.stream.symm
    | reportTick now =>
      simp only [turn, running, Event.call, Bool.false_eq_true, if_false, Option.toList_none,
        List.append_nil]
      exact published.stream.symm
  rw [whole, grown, after_alone live, ← turn_tx] at next
  exact next

/-- What the aggregator sent is what its calls determine. -/
def Publishes (outputs : List ProcessOutput) (state : Process H R) : Prop :=
  Published ⟨none, 0, 1⟩ (callsIn outputs)
    (state.service.aggregator.aggregator, state.service.aggregator.tx.alone)
    (sentBy (servedOutputs outputs))

theorem publishes_start (outside : Outside H R) (startedAt : Instant) :
    Publishes [] (Process.start outside startedAt) :=
  published_new outside.histograms rfl

section Steps

variable {outputs : List ProcessOutput} {state : Process H R} (outside : Outside H R)

theorem publishes_silent (publishes : Publishes outputs state) {output : ProcessOutput}
    (shown : output.serviced = none) : Publishes (outputs ++ [output]) state := by
  have calls : output.call = none := by
    cases output with
    | served => cases shown
    | _ => rfl
  rw [Publishes, callsIn_concat, servedOutputs_concat, shown, calls, Option.map_none,
    Option.toList_none, Option.toList_none, List.append_nil, List.append_nil]
  exact publishes

/-- What a turn of the aggregator's loop shows of the service. -/
theorem sent_turn (api : HistogramApi H) (streams : WatchStreamApi R) (service : Service H R)
    (event : Event) :
    (serviceStep api streams service (.turn event)).2.summary =
      (turn api service.aggregator event).2.sent := by
  simp only [serviceStep]
  split
  · rename_i sent
    rw [sent]
    rfl
  · rename_i sent
    rw [sent]
    rfl

theorem publishes_turn (publishes : Publishes outputs state)
    (running : state.service.aggregator.ended = false)
    (live : state.service.aggregator.tx.receivers ≠ 0) (event : Event) :
    Publishes (outputs ++ [(state.turn outside event).2]) (state.turn outside event).1 := by
  have next := published_turn_sent outside.histograms running live publishes event
  have calls : (state.turn outside event).2.call = event.call := by
    rw [shown_turn]
    cases event <;> rfl
  rw [Publishes, callsIn_concat, calls, servedOutputs_concat, shown_turn, service_turn]
  show Published _ _ _ (sentBy (_ ++ [_]))
  rw [sentBy_concat, sent_turn]
  exact next

theorem publishes_step (publishes : Publishes outputs state) (pair : Text)
    (running : state.Running) (live : state.service.aggregator.tx.receivers ≠ 0)
    (event : ProcessEvent) :
    Publishes (outputs ++ [(processStep outside pair state event).2])
      (processStep outside pair state event).1 := by
  have step := step_cases outside pair state event
  generalize processStep outside pair state event = next at step
  cases step with
  | @book runs _ _ rest taken =>
    have same : Publishes outputs { state with channel := rest } := publishes
    exact publishes_turn outside same (running runs) live _
  | closed runs => exact publishes_turn outside publishes (running runs) live _
  | graceCheck runs => exact publishes_turn outside publishes (running runs) live _
  | reportTick runs => exact publishes_turn outside publishes (running runs) live _
  | @client _ own ofClient =>
    have kept := client_serviceStep outside.histograms outside.streams state.service ofClient
    have silent : (serviceStep outside.histograms outside.streams state.service own).2.summary =
        none := by
      cases shown : (serviceStep outside.histograms outside.streams state.service own).2 with
      | sent summary => exact absurd shown (kept.unsent summary)
      | _ => rfl
    have calls : (state.serve outside own).2.call = none := by
      cases own with
      | turn event => cases ofClient
      | _ => rfl
    rw [Publishes, callsIn_concat, servedOutputs_concat, calls]
    show Published _ _ ((serviceStep _ _ _ _).1.aggregator.aggregator,
      (serviceStep _ _ _ _).1.aggregator.tx.alone) (sentBy (_ ++ [(serviceStep _ _ _ _).2]))
    rw [sentBy_concat_of_none silent, kept.aggregator, kept.tx, Option.toList_none,
      List.append_nil]
    exact publishes
  | _ => exact publishes_silent publishes rfl

end Steps

/-- In every run what the aggregator sent is determined by the books it received. -/
theorem publishes_final {outside : Outside H R} {seen : R → Option Nat}
    (lawful : outside.streams.Lawful seen) (pair : Text) (startedAt : Instant)
    (events : List ProcessEvent) :
    Publishes (processShows outside pair startedAt events)
      (processAfter outside pair startedAt events) := by
  apply Machine.history (P := fun _ state outputs => Publishes outputs state)
    (process outside pair) (publishes_start outside startedAt)
  intro before event publishes
  have consistent := consistent_final lawful outside.histograms startedAt
    (servedEvents (processShows outside pair startedAt before))
  rw [← (service_processAfter outside pair startedAt before).1] at consistent
  exact publishes_step outside publishes pair (running_final outside pair startedAt before)
    consistent.open event

/-! ## Frames -/

/-- An exchange's `parse` as a machine over the texts of its frames. -/
def parser (exchange : Exchange σ) : Machine σ (Text × ParseClock) (Option Book) :=
  fun state frame => exchange.parse state frame.1 frame.2

/-- The text of a frame a venue's feed read, if any. -/
def ProcessOutput.frame (venue : Venue) : ProcessOutput → Option (Text × ParseClock)
  | read other (.text raw clock) _ => if other = venue then some (raw, clock) else none
  | _ => none

/-- The texts of the frames a venue's feed read, in order. -/
def framesOf (venue : Venue) (outputs : List ProcessOutput) : List (Text × ParseClock) :=
  outputs.filterMap (ProcessOutput.frame venue)

theorem framesOf_concat (venue : Venue) (outputs : List ProcessOutput) (output : ProcessOutput) :
    framesOf venue (outputs ++ [output]) =
      framesOf venue outputs ++ (output.frame venue).toList := by
  rw [framesOf, List.filterMap_append]
  cases shown : output.frame venue <;> simp [framesOf, shown]

theorem frame_of_other {output : ProcessOutput} {venue : Venue}
    (other : output.ofFeed venue = false) : output.frame venue = none := by
  cases output with
  | read origin arrival book =>
    have different : origin ≠ venue := by simpa [ProcessOutput.ofFeed] using other
    cases arrival with
    | text raw clock => exact if_neg different
    | _ => rfl
  | _ => rfl

/-- A turn of the read loop that is no text leaves the exchange as it was. -/
theorem readTurn_of_frameless (exchange : Exchange σ) (state : σ) {arrival : Arrival}
    (frameless : ∀ raw clock, arrival ≠ .text raw clock) :
    (readTurn exchange state arrival).1 = state ∧
      (readTurn exchange state arrival).2.1 = none := by
  cases arrival with
  | text raw clock => exact absurd rfl (frameless raw clock)
  | idle pingSent =>
    simp only [readTurn]
    split <;> exact ⟨rfl, rfl⟩
  | _ => exact ⟨rfl, rfl⟩

/-- The feed's state and its books are those `parse` gives over the frames it read. -/
structure Parses (exchange : Exchange σ) (start : σ) (frames : List (Text × ParseClock))
    (task : FeedTask σ) (books : List Book) : Prop where
  state : task.state = (parser exchange).final start frames
  books : books = ((parser exchange).outputs start frames).filterMap id

/-- A turn of the read loop. -/
theorem Parses.arrive {exchange : Exchange σ} {start : σ} {frames : List (Text × ParseClock)}
    {task : FeedTask σ} {books : List Book} (parses : Parses exchange start frames task books)
    {venue : Venue} (arrival : Arrival) :
    Parses exchange start
      (frames ++ (ProcessOutput.frame venue
        (.read venue arrival (task.arrive exchange arrival).2)).toList)
      (task.arrive exchange arrival).1 (books ++ (task.arrive exchange arrival).2.toList) := by
  obtain ⟨state, book, -⟩ := arrive_eq exchange task arrival
  rw [book]
  by_cases text : ∃ raw clock, arrival = .text raw clock
  · obtain ⟨raw, clock, rfl⟩ := text
    have shown : ∀ given, ProcessOutput.frame venue (.read venue (.text raw clock) given) =
        some (raw, clock) := fun _ => if_pos rfl
    rw [shown, Option.toList_some]
    constructor
    · rw [state, Machine.final_concat, ← parses.state]
      rfl
    · rw [Machine.outputs_concat, List.filterMap_append, ← parses.books, ← parses.state]
      cases given : exchange.parse task.state raw clock with
      | mk next found => cases found <;> simp [readTurn, parser, given]
  · have frameless : ∀ raw clock, arrival ≠ .text raw clock := fun raw clock same =>
      text ⟨raw, clock, same⟩
    obtain ⟨same, none⟩ := readTurn_of_frameless exchange task.state frameless
    have shown : ∀ given, ProcessOutput.frame venue (.read venue arrival given) = Option.none := by
      intro given
      cases arrival with
      | text raw clock => exact absurd rfl (frameless raw clock)
      | _ => rfl
    rw [shown, none, Option.toList_none, Option.toList_none, List.append_nil, List.append_nil]
    exact ⟨by rw [state, same, parses.state], parses.books⟩

theorem parses_step (outside : Outside H R) (pair : Text) {outputs : List ProcessOutput}
    {state : Process H R} {venue : Venue}
    (parses : Parses (outside.exchange venue) (FeedState.new venue) (framesOf venue outputs)
      (state.feeds venue) (parsedBy venue outputs)) (event : ProcessEvent) :
    Parses (outside.exchange venue) (FeedState.new venue)
      (framesOf venue (outputs ++ [(processStep outside pair state event).2]))
      ((processStep outside pair state event).1.feeds venue)
      (parsedBy venue (outputs ++ [(processStep outside pair state event).2])) := by
  have move := feedMove_step outside pair state venue event
  rw [framesOf_concat, parsedBy_concat]
  cases move with
  | still kept silent phase =>
    rw [frame_of_other silent, parsed_of_other silent, Option.toList_none, Option.toList_none,
      List.append_nil, List.append_nil]
    exact ⟨kept.trans parses.state, parses.books⟩
  | attempt between connectedAt subscribeSent shown next =>
    have noFrame : ProcessOutput.frame venue (.attempted venue connectedAt subscribeSent) = none :=
      rfl
    have noBook : ProcessOutput.parsed venue (.attempted venue connectedAt subscribeSent) = none :=
      rfl
    rw [shown, next, noFrame, noBook, Option.toList_none, Option.toList_none, List.append_nil,
      List.append_nil]
    exact ⟨(state_connect _ _ _ _ _).trans parses.state, parses.books⟩
  | arrive reading arrival shown next =>
    have book : ProcessOutput.parsed venue (.read venue arrival
        ((state.feeds venue).arrive (outside.exchange venue) arrival).2) =
        ((state.feeds venue).arrive (outside.exchange venue) arrival).2 := if_pos rfl
    rw [shown, next, book]
    exact parses.arrive arrival

/-- In every run the books of a feed are those its exchange's `parse` gives over the frames it
read. -/
theorem parses_final (outside : Outside H R) (pair : Text) (startedAt : Instant)
    (events : List ProcessEvent) (venue : Venue) :
    Parses (outside.exchange venue) (FeedState.new venue)
      (framesOf venue (processShows outside pair startedAt events))
      ((processAfter outside pair startedAt events).feeds venue)
      (parsedBy venue (processShows outside pair startedAt events)) := by
  apply Machine.history (P := fun _ state outputs =>
    Parses (outside.exchange venue) (FeedState.new venue) (framesOf venue outputs)
      (state.feeds venue) (parsedBy venue outputs)) (process outside pair)
  · exact ⟨rfl, rfl⟩
  · intro before event parses
    exact parses_step outside pair parses event

/-! ## Kraken's frames -/

/-- A book Kraken's `parse` gives is the conversion of the book now held, and that passed the
checksum of the payload in the frame. -/
theorem Kraken.checked_of_parse {codec : Kraken.Codec} {kraken : Kraken} {raw : Text}
    {clock : ParseClock} {out : Book} (gives : (Kraken.parse codec kraken raw clock).2 = some out) :
    ∃ data held, (Kraken.incoming codec raw = .snapshot data ∨
        Kraken.incoming codec raw = .update data) ∧
      Kraken.Accepted codec data clock (Kraken.parse codec kraken raw clock).1 (some out) held := by
  have settled : ∀ (book : Kraken.KrakenBook) (data : Kraken.BookData),
      (Kraken.settle codec book data clock).2 = some out →
      Kraken.Accepted codec data clock (Kraken.settle codec book data clock).1 (some out) book := by
    intro book data given
    rcases Kraken.settle_cases codec book data clock with cleared | accepted
    · rw [cleared] at given
      cases given
    · rwa [given] at accepted
  rw [Kraken.parse_eq] at gives ⊢
  cases payload : Kraken.incoming codec raw with
  | other =>
    rw [payload] at gives
    cases gives
  | snapshot data =>
    simp only [payload] at gives ⊢
    cases built : Kraken.KrakenBook.fromSnapshot data with
    | none =>
      rw [built] at gives
      cases gives
    | some book =>
      rw [built] at gives
      exact ⟨data, book, Or.inl rfl, settled book data gives⟩
  | update data =>
    simp only [payload] at gives ⊢
    cases held : kraken.book with
    | none =>
      rw [held] at gives
      cases gives
    | some book =>
      simp only [held] at gives ⊢
      cases applied : book.applyUpdate data with
      | mk book' finished =>
        rw [applied] at gives
        cases finished with
        | false => cases gives
        | true => exact ⟨data, book', Or.inr rfl, settled book' data gives⟩

/-! ## End to end -/

/-- A book comes from a frame: `parse` gave it for the frame after those read before it. A book of
Kraken is then the conversion of a held book that passed the checksum of the payload in the
frame. -/
structure FromFrame (outside : Outside H R) (venue : Venue) (frames : List (Text × ParseClock))
    (book : Book) (before : List (Text × ParseClock)) (frame : Text × ParseClock) : Prop where
  read : before ++ [frame] <+: frames
  given : (parser (outside.exchange venue)
    ((parser (outside.exchange venue)).final (FeedState.new venue) before) frame).2 = some book
  checked : venue = .kraken → ∃ data held, (Kraken.incoming outside.codec frame.1 = .snapshot data ∨
      Kraken.incoming outside.codec frame.1 = .update data) ∧
    book = held.toModelBook frame.2 ∧ Kraken.computeChecksum outside.codec held = data.checksum

theorem exists_fromFrame {outside : Outside H R} {venue : Venue} {task : FeedTask (FeedState venue)}
    {frames : List (Text × ParseClock)} {books : List Book}
    (parses : Parses (outside.exchange venue) (FeedState.new venue) frames task books) {book : Book}
    (member : book ∈ books) :
    ∃ before frame, FromFrame outside venue frames book before frame := by
  rw [parses.books, List.mem_filterMap] at member
  obtain ⟨given, inside, same⟩ := member
  obtain rfl : given = some book := same
  obtain ⟨before, frame, read, gives⟩ := Machine.exists_of_mem_outputs _ inside
  refine ⟨before, frame, read, gives, ?_⟩
  rintro rfl
  obtain ⟨data, held, payload, accepted⟩ := Kraken.checked_of_parse gives
  exact ⟨data, held, payload, Option.some.inj accepted.converted, accepted.checked⟩

theorem mem_receivedFrom {outputs : List ProcessOutput} {call : Call}
    (called : call ∈ callsIn outputs) : call.book ∈ receivedFrom call.venue outputs := by
  rw [receivedFrom, bySender, List.mem_filterMap]
  exact ⟨(call.venue, call.book), List.mem_map.mpr ⟨call, called, rfl⟩, if_pos rfl⟩

/-- Every book the aggregator receives comes from a frame of its venue. -/
theorem fromFrame_of_call (outside : Outside H R) (pair : Text) (startedAt : Instant)
    (events : List ProcessEvent) {call : Call}
    (called : call ∈ callsIn (processShows outside pair startedAt events)) :
    ∃ before frame, FromFrame outside call.venue
      (framesOf call.venue (processShows outside pair startedAt events)) call.book before
      frame := by
  have delivered := delivers_final outside pair startedAt events
  have parsed := (delivered.received call.venue).subset (mem_receivedFrom called)
  exact exists_fromFrame (parses_final outside pair startedAt events call.venue) parsed

/-- What stands behind a summary: it is the merge at one of the aggregator's calls, and each of its
levels is a level of the last book received by then from the venue of its label, that book fresh and
parsed from a frame of the venue. -/
def Grounded (outside : Outside H R) (outputs : List ProcessOutput) (summary : Summary) : Prop :=
  ∃ before call, before ++ [call] <+: callsIn outputs ∧
    merge (received (before ++ [call]) call.now) = some summary ∧
    ∀ side : Side, ∀ level ∈ side.shown summary, ∃ venue last source,
      level = Level.of venue source ∧ source ∈ side.levels last.book ∧
      lastCall (before ++ [call]) venue = some last ∧
      call.now - last.now < venue.stalenessThreshold ∧
      ∃ earlier frame,
        FromFrame outside venue (framesOf venue outputs) last.book earlier frame

theorem exists_call_of_summary {calls : List Call} {summary : Summary}
    (member : summary ∈ summaries calls) :
    ∃ before call, before ++ [call] <+: calls ∧
      merge (received (before ++ [call]) call.now) = some summary := by
  induction calls using List.reverseRecOn with
  | nil => cases member
  | append_singleton calls call ih =>
    rw [summaries_concat, List.mem_append] at member
    rcases member with earlier | last
    · obtain ⟨before, other, inside, merged⟩ := ih earlier
      exact ⟨before, other, inside.trans (List.prefix_append _ _), merged⟩
    · exact ⟨calls, call, List.prefix_refl _, Option.mem_toList.mp last⟩

theorem mem_of_lastCall {calls : List Call} {venue : Venue} {call : Call}
    (last : lastCall calls venue = some call) : call ∈ calls ∧ call.venue = venue := by
  have member := List.mem_of_getLast? last
  simpa using member

/-- Whatever the order of the steps of all tasks, every summary any client receives is grounded in
frames the feeds read. -/
theorem received_grounded {outside : Outside H R} {seen : R → Option Nat}
    (lawful : outside.streams.Lawful seen) (pair : Text) (startedAt : Instant)
    (events : List ProcessEvent) (client : Nat) (summary : Summary)
    (member : summary ∈
      receivedBy client (servedOutputs (processShows outside pair startedAt events))) :
    Grounded outside (processShows outside pair startedAt events) summary := by
  have publishes := publishes_final lawful pair startedAt events
  have consistent := consistent_final lawful outside.histograms startedAt
    (servedEvents (processShows outside pair startedAt events))
  rw [← (service_processAfter outside pair startedAt events).2] at consistent
  have sent := (consistent.clients client).sublist.subset member
  rw [publishes.stream] at sent
  obtain ⟨before, call, inside, merged⟩ :=
    exists_call_of_summary ((dropRepeats_sublist _ _ _).subset sent)
  refine ⟨before, call, inside, merged, fun side level shown => ?_⟩
  rw [shown_of_merge merged] at shown
  obtain ⟨venue, book, source, found, level_, rfl⟩ := mem_mergeSide shown
  obtain ⟨last, ofVenue, fresh, rfl⟩ := get?_received_eq_some found
  obtain ⟨called, rfl⟩ := mem_of_lastCall ofVenue
  exact ⟨last.venue, last, source, rfl, level_, ofVenue, fresh,
    fromFrame_of_call outside pair startedAt events (inside.subset called)⟩

/-- The quoted book reaches a client. -/
def quoteDelivered : List ProcessEvent :=
  quoted ++ [.send .binance, .receive 3 3 3, .subscribe 0, .poll 0]

theorem received_quoteDelivered :
    receivedBy 0 (servedOutputs (processShows quoting [] 0 quoteDelivered)) ≠ [] := by
  decide +kernel

theorem received_grounded_quoteDelivered :
    Grounded quoting (processShows quoting [] 0 quoteDelivered)
      ((receivedBy 0 (servedOutputs (processShows quoting [] 0 quoteDelivered))).head
        received_quoteDelivered) :=
  received_grounded versioned_lawful [] 0 quoteDelivered 0 _ (List.head_mem received_quoteDelivered)

end Orderbook
