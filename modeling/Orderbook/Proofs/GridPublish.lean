import Orderbook.Proofs.GridBooks

/-!
# Publishing exact summaries

The abstract aggregator keeps the exact book each venue sent last, merges the fresh ones in ticks,
and publishes a summary where it differs from the one before. `record_and_publish` on rounded books
publishes at the same calls, and each time the rounding.
-/

namespace Orderbook

/-- A call in ticks. -/
structure GridCall where
  venue : Venue
  book : GridBook
  now : Instant

/-- What the abstract aggregator keeps: each venue's last book and when it came, and the last
summary. -/
structure GridAggregator where
  books : BTreeMap Venue (GridBook × Instant)
  last : Option GridSummary

/-- The books that are fresh. -/
def GridAggregator.fresh (state : GridAggregator) (now : Instant) : BTreeMap Venue GridBook :=
  (state.books.filter fun venue held => decide (now - held.2 < venue.stalenessThreshold)).mapValues
    Prod.fst

/-- One call: the summary is published unless it is the last one. -/
def gridPublisher : Machine GridAggregator GridCall (Option GridSummary) := fun state call =>
  let state := { state with books := state.books.insert call.venue (call.book, call.now) }
  match gridMerge (state.fresh call.now) with
  | none => (state, none)
  | some summary =>
      ({ state with last := some summary },
        if state.last = some summary then none else some summary)

/-- The call brings the rounded book at the same time. -/
structure RoundsCall (call : Call) (grid : GridCall) : Prop where
  venue : call.venue = grid.venue
  book : RoundsBook grid.book call.book
  now : call.now = grid.now

variable {H : Type}

/-- The aggregator holds the rounded books and the rounded last summary. -/
structure RoundsAggregator (state : Aggregator H × Watch) (grid : GridAggregator) : Prop where
  books : BTreeMap.Rel (fun held venue => RoundsBook held.1 venue.book ∧ venue.lastUpdate = held.2)
    grid.books state.1.venues
  last : state.1.lastPublished = grid.last.map GridSummary.rounded

section Step

variable {state : Aggregator H × Watch} {grid : GridAggregator}

theorem fresh_rounded
    {books : BTreeMap Venue (GridBook × Instant)} {venues : BTreeMap Venue VenueState}
    (rounds : BTreeMap.Rel
      (fun held venue => RoundsBook held.1 venue.book ∧ venue.lastUpdate = held.2) books venues)
    (last : Option GridSummary) (now : Instant) :
    BTreeMap.Rel RoundsBook ((⟨books, last⟩ : GridAggregator).fresh now)
      (freshVenues venues now) := by
  refine BTreeMap.Rel.mapValues (rounds.filter fun venue held state related => ?_)
    fun held state related => related.1
  rw [decide_eq_decide, related.2, durationSince_lt_iff]

/-- The result of a call is the rounded exact result. -/
theorem mergedBy_rounded (rounds : RoundsAggregator state grid) {call : Call} {gridCall : GridCall}
    (brings : RoundsCall call gridCall) :
    mergedBy state.1.venues call =
      (gridMerge (GridAggregator.fresh
        ⟨grid.books.insert gridCall.venue (gridCall.book, gridCall.now), grid.last⟩
        gridCall.now)).map GridSummary.rounded := by
  rw [mergedBy, brings.venue, brings.now]
  apply merge_rounded
  exact fresh_rounded (rounds.books.insert _ ⟨brings.book, rfl⟩) grid.last _

theorem repeats_rounded (last : Option GridSummary) (summary : GridSummary) :
    ((last.map GridSummary.rounded).any fun before => before.beq summary.rounded) =
      decide (last = some summary) := by
  cases last with
  | none => rfl
  | some before =>
    rw [Option.map_some, Option.any_some, beq_rounded, decide_eq_decide, Option.some.injEq]

/-- One call keeps the two in step. -/
theorem publisher_rounds (api : HistogramApi H) (rounds : RoundsAggregator state grid) {call : Call}
    {gridCall : GridCall} (brings : RoundsCall call gridCall) :
    RoundsAggregator (publisher api state call).1 (gridPublisher grid gridCall).1 ∧
      (publisher api state call).2 =
        (gridPublisher grid gridCall).2.map GridSummary.rounded := by
  have books : BTreeMap.Rel
      (fun held venue => RoundsBook held.1 venue.book ∧ venue.lastUpdate = held.2)
      (grid.books.insert gridCall.venue (gridCall.book, gridCall.now))
      (publisher api state call).1.1.venues := by
    rw [publisher, venues_recordAndPublish, brings.venue]
    exact rounds.books.insert _ ⟨brings.book, brings.now⟩
  have result := mergedBy_rounded rounds brings
  unfold gridPublisher
  dsimp only
  cases merged : gridMerge (GridAggregator.fresh
      ⟨grid.books.insert gridCall.venue (gridCall.book, gridCall.now), grid.last⟩
      gridCall.now) with
  | none =>
    rw [merged, Option.map_none] at result
    have leaves := leaves_of_none api state.1 state.2 call result
    exact ⟨⟨books, leaves.lastPublished.trans rounds.last⟩, leaves.sent⟩
  | some summary =>
    rw [merged, Option.map_some] at result
    have repeats := repeats_rounded grid.last summary
    rw [← rounds.last] at repeats
    dsimp only
    by_cases same : grid.last = some summary
    · rw [decide_eq_true same] at repeats
      have leaves := leaves_of_repeat api state.1 state.2 call result repeats
      rw [if_pos same]
      exact ⟨⟨books, leaves.lastPublished⟩, leaves.sent⟩
    · rw [decide_eq_false same] at repeats
      have leaves := leaves_of_new api state.1 state.2 call result repeats
      rw [if_neg same]
      exact ⟨⟨books, leaves.lastPublished⟩, leaves.sent⟩

end Step

theorem publisher_refines (api : HistogramApi H) (tx : Watch) {calls : List Call}
    {gridCalls : List GridCall} (brings : List.Forall₂ RoundsCall calls gridCalls) :
    RoundsAggregator ((publisher api).final (Aggregator.new api, tx) calls)
        (gridPublisher.final ⟨BTreeMap.empty, none⟩ gridCalls) ∧
      (publisher api).outputs (Aggregator.new api, tx) calls =
        (gridPublisher.outputs ⟨BTreeMap.empty, none⟩ gridCalls).map
          (Option.map GridSummary.rounded) := by
  have start : RoundsAggregator (Aggregator.new api, tx) ⟨BTreeMap.empty, none⟩ :=
    ⟨fun _ => Option.Rel.none, rfl⟩
  exact Machine.refinement (R := RoundsAggregator) (C := RoundsCall)
    (f := Option.map GridSummary.rounded) (publisher api)
    (fun state grid call gridCall brings rounds => publisher_rounds api rounds brings) start brings

/-- What the exact aggregator publishes. -/
def gridSent (calls : List GridCall) : List GridSummary :=
  (gridPublisher.outputs ⟨BTreeMap.empty, none⟩ calls).filterMap id

/-- Over whole runs, the aggregator on rounded books publishes at the calls where the exact one
does, each time the rounding of the exact summary, and what it keeps rounds what the exact one
keeps. -/
theorem publishes_rounded (api : HistogramApi H) (tx : Watch) {calls : List Call}
    {gridCalls : List GridCall} (brings : List.Forall₂ RoundsCall calls gridCalls) :
    (publisher api).outputs (Aggregator.new api, tx) calls =
        (gridPublisher.outputs ⟨BTreeMap.empty, none⟩ gridCalls).map
          (Option.map GridSummary.rounded) ∧
      RoundsAggregator ((publisher api).final (Aggregator.new api, tx) calls)
        (gridPublisher.final ⟨BTreeMap.empty, none⟩ gridCalls) :=
  (publisher_refines api tx brings).symm

/-- Two venues whose books cross by 3 ticks. -/
def crossedCalls : List GridCall :=
  [⟨.binance, ⟨[⟨800000003, 200000000, by norm_num, by norm_num⟩],
      [⟨800000005, 100000000, by norm_num, by norm_num⟩]⟩, 0⟩,
    ⟨.bitstamp, ⟨[⟨799999999, 1, by norm_num, by norm_num⟩],
      [⟨800000000, 5, by norm_num, by norm_num⟩]⟩, 1⟩]

/-- The calls of the process for them. -/
def GridCall.rounded (call : GridCall) : Call where
  venue := call.venue
  book := ⟨call.book.bids.map GridLevel.rounded, call.book.asks.map GridLevel.rounded, 0, 0, 0⟩
  now := call.now
  mergedAt := call.now
  totalAt := call.now

theorem roundsCall_rounded (calls : List GridCall) :
    List.Forall₂ RoundsCall (calls.map GridCall.rounded) calls := by
  rw [List.forall₂_map_left_iff, List.forall₂_same]
  exact fun call _ => ⟨rfl, ⟨rfl, rfl⟩, rfl⟩

theorem publishes_rounded_crossedCalls :
    (publisher counting).outputs (Aggregator.new counting, ⟨none, 0, 1⟩)
        (crossedCalls.map GridCall.rounded) =
      (gridPublisher.outputs ⟨BTreeMap.empty, none⟩ crossedCalls).map
        (Option.map GridSummary.rounded) ∧
      (gridSent crossedCalls).map GridSummary.spread = [2, -3] :=
  ⟨(publishes_rounded counting ⟨none, 0, 1⟩ (roundsCall_rounded crossedCalls)).1, by decide +kernel⟩

end Orderbook
