import Orderbook.Proofs.BookMessages
import Orderbook.Proofs.EndToEnd
import Orderbook.Proofs.FiniteBooks
import Orderbook.Proofs.GridPublish

/-!
# Exact from frame to client

Where the prices and amounts in the frames are written with at most 8 decimals, every book is the
rounding of an exact one, and the whole process publishes the rounded summaries of the exact
aggregator.
-/

namespace Orderbook

open Mpsc Repeats F64

/-- The texts of a level write numbers of ticks. -/
def WritesLevel (texts : Text × Text) (level : GridLevel) : Prop :=
  WritesTicks texts.1 false level.price ∧ WritesTicks texts.2 false level.amount

/-- The texts of a level are on the grid. -/
def OnGrid (texts : Text × Text) : Prop := ∃ level, WritesLevel texts level

/-- The book holds what the texts write. -/
structure GridOf (bids asks : List (Text × Text)) (grid : GridBook) : Prop where
  bids : List.Forall₂ WritesLevel bids grid.bids
  asks : List.Forall₂ WritesLevel asks grid.asks

/-! ## Levels of texts -/

theorem rounded_of_readFrom {texts : Text × Text} {level : Price × Amount} {grid : GridLevel}
    (read : ReadFrom texts level) (writes : WritesLevel texts grid) : level = grid.rounded := by
  have price := read.price
  have amount := read.amount
  rw [Price.parse, parse_of_writesTicks writes.1] at price
  rw [Amount.parse, parse_of_writesTicks writes.2] at amount
  exact Prod.ext (Option.some.inj price).symm (Option.some.inj amount).symm

theorem exists_gridLevels {texts : List (Text × Text)} {levels : List (Price × Amount)}
    (read : List.Forall₂ ReadFrom texts levels) (onGrid : ∀ text ∈ texts, OnGrid text) :
    ∃ grid : List GridLevel, List.Forall₂ WritesLevel texts grid ∧
      levels = grid.map GridLevel.rounded := by
  induction read with
  | nil => exact ⟨[], List.Forall₂.nil, rfl⟩
  | cons first _ ih =>
    rw [List.forall_mem_cons] at onGrid
    obtain ⟨grid, writes⟩ := onGrid.1
    obtain ⟨rest, writesRest, rounds⟩ := ih onGrid.2
    refine ⟨grid :: rest, List.Forall₂.cons writes writesRest, ?_⟩
    rw [rounded_of_readFrom first writes, rounds]
    rfl

theorem exists_gridBook {book : Book} {bids asks : List (Text × Text)}
    (readBids : List.Forall₂ ReadFrom bids book.bids)
    (readAsks : List.Forall₂ ReadFrom asks book.asks)
    (onGrid : ∀ text ∈ bids ++ asks, OnGrid text) :
    ∃ grid, GridOf bids asks grid ∧ RoundsBook grid book := by
  rw [List.forall_mem_append] at onGrid
  obtain ⟨gridBids, writesBids, roundsBids⟩ := exists_gridLevels readBids onGrid.1
  obtain ⟨gridAsks, writesAsks, roundsAsks⟩ := exists_gridLevels readAsks onGrid.2
  exact ⟨⟨gridBids, gridAsks⟩, ⟨writesBids, writesAsks⟩, ⟨roundsBids, roundsAsks⟩⟩

/-! ## Frames -/

variable {H R : Type}

/-- The levels of the frame's book payload, where it has one, are on the grid. -/
def FrameOnGrid (outside : Outside H R) (venue : Venue) (raw : Text) : Prop :=
  match venue with
  | .binance => ∀ payload, outside.depth20 raw = some payload →
      ∀ text ∈ payload.bids ++ payload.asks, OnGrid text
  | .bitstamp => ∀ envelope data, (outside.json raw).bind Bitstamp.Envelope.deserialize =
      some envelope → envelope.data = some data → ∀ text ∈ data.bids ++ data.asks, OnGrid text
  | .kraken => ∀ data, Kraken.incoming outside.codec raw = .snapshot data ∨
      Kraken.incoming outside.codec raw = .update data →
        ∀ wire ∈ data.bids ++ data.asks, OnGrid (wire.price.get, wire.qty.get)

/-- A book from frames on the grid rounds an exact one. -/
theorem exists_roundsBook {outside : Outside H R} {venue : Venue}
    {frames before : List (Text × ParseClock)} {frame : Text × ParseClock} {book : Book}
    (onGrid : ∀ frame ∈ frames, FrameOnGrid outside venue frame.1)
    (fromFrame : FromFrame outside venue frames book before frame) :
    ∃ grid, RoundsBook grid book := by
  have inside : frame ∈ frames := fromFrame.read.subset (by simp)
  cases venue with
  | binance =>
    obtain ⟨payload, read, holds⟩ := Binance.parse_eq_some_iff.mp fromFrame.given
    obtain ⟨grid, -, rounds⟩ :=
      exists_gridBook holds.bids holds.asks (onGrid frame inside payload read)
    exact ⟨grid, rounds⟩
  | bitstamp =>
    obtain ⟨payload, read, holds⟩ := Bitstamp.parse_eq_some_iff.mp fromFrame.given
    obtain ⟨grid, -, rounds⟩ :=
      exists_gridBook holds.bids holds.asks (onGrid frame inside _ payload read rfl)
    exact ⟨grid, rounds⟩
  | kraken =>
    obtain ⟨data, held, -, accepted⟩ := Kraken.checked_of_parse fromFrame.given
    have frames : ∀ msg ∈ before ++ [frame], FrameOnGrid outside .kraken msg.1 :=
      fun msg member => onGrid msg (fromFrame.read.subset member)
    have holds := Kraken.heldHas_texts outside.codec frames
    rw [Machine.final_concat] at holds
    have texts : ∀ text ∈ held.bids.map Kraken.KrakenLevel.texts ++
        held.asks.map Kraken.KrakenLevel.texts, OnGrid text := by
      rw [← List.map_append, List.forall_mem_map]
      exact holds held accepted.held
    have rounds : ∃ grid, GridOf _ _ grid ∧ RoundsBook grid (held.toModelBook frame.2) :=
      exists_gridBook (Kraken.readFrom_toPair held.bids) (Kraken.readFrom_toPair held.asks) texts
    rw [Option.some.inj accepted.converted]
    obtain ⟨grid, -, rounds⟩ := rounds
    exact ⟨grid, rounds⟩

/-! ## The process -/

theorem exists_gridCalls {calls : List Call}
    (rounds : ∀ call ∈ calls, ∃ grid, RoundsBook grid call.book) :
    ∃ gridCalls, List.Forall₂ RoundsCall calls gridCalls := by
  induction calls with
  | nil => exact ⟨[], List.Forall₂.nil⟩
  | cons call calls ih =>
    rw [List.forall_mem_cons] at rounds
    obtain ⟨grid, book⟩ := rounds.1
    obtain ⟨rest, brings⟩ := ih rounds.2
    exact ⟨⟨call.venue, grid, call.now⟩ :: rest, List.Forall₂.cons ⟨rfl, book, rfl⟩ brings⟩

/-- What is sent over a run of calls is what the exact aggregator publishes, rounded. -/
theorem sent_of_rounds (api : HistogramApi H) {calls : List Call} {gridCalls : List GridCall}
    (brings : List.Forall₂ RoundsCall calls gridCalls) :
    dropRepeats Summary.beq none (summaries calls) =
      (gridSent gridCalls).map GridSummary.rounded := by
  have published := ((published_new api rfl).run api Nat.one_ne_zero calls : Published
    ⟨none, 0, 1⟩ _ _ _)
  rw [List.nil_append, List.nil_append] at published
  rw [← published.stream, (publisher_refines api ⟨none, 0, 1⟩ brings).2, gridSent,
    List.filterMap_map, List.map_filterMap]
  rfl

/-- Where every frame is on the grid, the books that reach the aggregator round exact ones. -/
theorem exists_roundsCalls (outside : Outside H R) (pair : Text) (startedAt : Instant)
    (events : List ProcessEvent)
    (onGrid : ∀ venue, ∀ frame ∈ framesOf venue (processShows outside pair startedAt events),
      FrameOnGrid outside venue frame.1) :
    ∃ gridCalls,
      List.Forall₂ RoundsCall (callsIn (processShows outside pair startedAt events)) gridCalls := by
  apply exists_gridCalls
  intro call called
  obtain ⟨before, frame, fromFrame⟩ := fromFrame_of_call outside pair startedAt events called
  exact exists_roundsBook (onGrid call.venue) fromFrame

/-- What is then sent, and what a client receives of it. -/
theorem received_of_rounds {outside : Outside H R} {seen : R → Option Nat}
    (lawful : outside.streams.Lawful seen) (pair : Text) (startedAt : Instant)
    (events : List ProcessEvent) {gridCalls : List GridCall}
    (brings : List.Forall₂ RoundsCall (callsIn (processShows outside pair startedAt events))
      gridCalls) :
    sentBy (servedOutputs (processShows outside pair startedAt events)) =
        (gridSent gridCalls).map GridSummary.rounded ∧
      ∀ client, (receivedBy client
        (servedOutputs (processShows outside pair startedAt events))).Sublist
          ((gridSent gridCalls).map GridSummary.rounded) := by
  have publishes := publishes_final lawful pair startedAt events
  have consistent := consistent_final lawful outside.histograms startedAt
    (servedEvents (processShows outside pair startedAt events))
  rw [← (service_processAfter outside pair startedAt events).2] at consistent
  have sent := sent_of_rounds outside.histograms brings
  rw [← publishes.stream] at sent
  refine ⟨sent, fun client => ?_⟩
  rw [← sent]
  exact (consistent.clients client).sublist

/-- Where every frame is on the grid, whatever the order of the steps of all tasks: the books the
aggregator receives round exact ones, what it sends is what the exact aggregator publishes on these,
rounded, and every client receives some of that, in order. -/
theorem process_rounds_exact {outside : Outside H R} {seen : R → Option Nat}
    (lawful : outside.streams.Lawful seen) (pair : Text) (startedAt : Instant)
    (events : List ProcessEvent)
    (onGrid : ∀ venue, ∀ frame ∈ framesOf venue (processShows outside pair startedAt events),
      FrameOnGrid outside venue frame.1) :
    ∃ gridCalls,
      List.Forall₂ RoundsCall (callsIn (processShows outside pair startedAt events)) gridCalls ∧
      sentBy (servedOutputs (processShows outside pair startedAt events)) =
        (gridSent gridCalls).map GridSummary.rounded ∧
      ∀ client, (receivedBy client
        (servedOutputs (processShows outside pair startedAt events))).Sublist
          ((gridSent gridCalls).map GridSummary.rounded) := by
  obtain ⟨gridCalls, brings⟩ := exists_roundsCalls outside pair startedAt events onGrid
  exact ⟨gridCalls, brings, received_of_rounds lawful pair startedAt events brings⟩

/-- The one payload the sample reads is on the grid. -/
theorem quoting_onGrid (venue : Venue) (raw : Text) : FrameOnGrid quoting venue raw := by
  cases venue with
  | binance =>
    intro payload read
    have bid : OnGrid ("8".toList, "2".toList) :=
      ⟨⟨800000000, 200000000, by norm_num, by norm_num⟩, by decide +kernel, by decide +kernel⟩
    have ask : OnGrid ("9".toList, "1".toList) :=
      ⟨⟨900000000, 100000000, by norm_num, by norm_num⟩, by decide +kernel, by decide +kernel⟩
    simp only [quoting, Option.ite_none_right_eq_some, Option.some.injEq] at read
    obtain ⟨-, rfl⟩ := read
    intro text member
    rcases List.mem_append.mp member with inside | inside
    · rw [List.mem_singleton.mp inside]
      exact bid
    · rw [List.mem_singleton.mp inside]
      exact ask
  | bitstamp =>
    intro envelope data read
    cases read
  | kraken =>
    rintro data (read | read)
    · cases read
    · cases read

theorem process_rounds_exact_quoteDelivered :
    ∃ gridCalls,
      List.Forall₂ RoundsCall (callsIn (processShows quoting [] 0 quoteDelivered)) gridCalls ∧
      sentBy (servedOutputs (processShows quoting [] 0 quoteDelivered)) =
        (gridSent gridCalls).map GridSummary.rounded ∧
      sentBy (servedOutputs (processShows quoting [] 0 quoteDelivered)) ≠ [] := by
  obtain ⟨gridCalls, brings, sent, -⟩ := process_rounds_exact versioned_lawful [] 0 quoteDelivered
    fun venue frame _ => quoting_onGrid venue frame.1
  exact ⟨gridCalls, brings, sent, by decide +kernel⟩

end Orderbook
