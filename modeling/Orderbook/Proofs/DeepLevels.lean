import Orderbook.Proofs.MergeLevels
import Orderbook.Proofs.Publish

/-!
# Levels below the top

A merged side of `TOP_N` levels looks no deeper than that into any book, so books that agree on
their first `TOP_N` levels are interchangeable: for one merge, and for what an aggregator publishes
over a whole run. A call that changes a book only further down is a repeat, except where the merge
holds a NaN, which `==` takes for new each time.
-/

namespace Orderbook

open StableMerge

variable {H : Type}

/-- The books agree on the levels a merge can take. -/
def SameTop (book book' : Book) : Prop :=
  ∀ side : Side, (side.levels book).take TOP_N = (side.levels book').take TOP_N

/-- The book with both sides cut to the levels a merge can take. -/
def Book.top (book : Book) : Book :=
  { book with bids := book.bids.take TOP_N, asks := book.asks.take TOP_N }

theorem sameTop_top (book : Book) : SameTop book.top book := by
  intro side
  cases side with
  | bid => exact (List.take_take ..).trans (by rw [min_self]; rfl)
  | ask => exact (List.take_take ..).trans (by rw [min_self]; rfl)

/-! ## One merge -/

theorem cutAt_cursors (venues : BTreeMap Venue Book) (side : Side) :
    cutAt TOP_N (cursors venues side) =
      (venues.mapValues fun book => (side.levels book).take TOP_N).entries := by
  rw [cutAt, cursors, List.map_map]
  rfl

theorem mergeSide_of_sameTop {venues venues' : BTreeMap Venue Book}
    (same : BTreeMap.Rel SameTop venues venues') (side : Side) :
    mergeSide venues side = mergeSide venues' side := by
  have cut : (venues.mapValues fun book => (side.levels book).take TOP_N) =
      venues'.mapValues fun book => (side.levels book).take TOP_N :=
    BTreeMap.Rel.eq (same.mapValues fun _ _ top => top side)
  rw [mergeSide_eq, mergeSide_eq, ← greedyMerge_cutAt TOP_N (cursors venues side),
    ← greedyMerge_cutAt TOP_N (cursors venues' side), cutAt_cursors, cutAt_cursors, cut]

/-- Books with the same top merge to the same summary. -/
theorem merge_of_sameTop {venues venues' : BTreeMap Venue Book}
    (same : BTreeMap.Rel SameTop venues venues') : merge venues = merge venues' := by
  rw [merge, merge, mergeSide_of_sameTop same .bid, mergeSide_of_sameTop same .ask]

theorem merge_top (venues : BTreeMap Venue Book) :
    merge (venues.mapValues Book.top) = merge venues := by
  apply merge_of_sameTop
  intro venue
  rw [BTreeMap.get?_mapValues]
  cases venues.get? venue with
  | none => exact Option.Rel.none
  | some book => exact Option.Rel.some (sameTop_top book)

/-! ## What an aggregator publishes -/

/-- Venue states that differ at most below the top. -/
def SameState (state state' : VenueState) : Prop :=
  state.lastUpdate = state'.lastUpdate ∧ SameTop state.book state'.book

/-- Calls that differ at most below the top, and in the spans they measure. -/
structure SameCall (call call' : Call) : Prop where
  venue : call.venue = call'.venue
  now : call.now = call'.now
  top : SameTop call.book call'.book

/-- States of which a subscriber and the counters show the same. -/
structure SamePublic (state state' : Aggregator H × Watch) : Prop where
  venues : BTreeMap.Rel SameState state.1.venues state'.1.venues
  lastPublished : state.1.lastPublished = state'.1.lastPublished
  updateCount : state.1.updateCount = state'.1.updateCount
  duplicateCount : state.1.duplicateCount = state'.1.duplicateCount
  tx : state.2 = state'.2

theorem freshVenues_of_sameState {venues venues' : BTreeMap Venue VenueState}
    (same : BTreeMap.Rel SameState venues venues') (now : Instant) :
    BTreeMap.Rel SameTop (freshVenues venues now) (freshVenues venues' now) := by
  have fresh := same.filter
    (p := fun venue state =>
      decide (durationSince now state.lastUpdate < venue.stalenessThreshold))
    (q := fun venue state =>
      decide (durationSince now state.lastUpdate < venue.stalenessThreshold))
    (fun venue state state' related => by rw [related.1])
  exact fresh.mapValues fun _ _ related => related.2

/-- Two results with the same published part leave the same behind. -/
theorem samePublic_of_leaves {next next' : (Aggregator H × Watch) × Option Summary}
    {lastPublished : Option Summary} {updateCount duplicateCount : Nat} {tx : Watch}
    {sent : Option Summary}
    (venues : BTreeMap.Rel SameState next.1.1.venues next'.1.1.venues)
    (leaves : Leaves next lastPublished updateCount duplicateCount tx sent)
    (leaves' : Leaves next' lastPublished updateCount duplicateCount tx sent) :
    SamePublic next.1 next'.1 ∧ next.2 = next'.2 :=
  ⟨⟨venues, leaves.lastPublished.trans leaves'.lastPublished.symm,
    leaves.updateCount.trans leaves'.updateCount.symm,
    leaves.duplicateCount.trans leaves'.duplicateCount.symm, leaves.tx.trans leaves'.tx.symm⟩,
    leaves.sent.trans leaves'.sent.symm⟩

/-- Calls that differ only below the top have the same effect. -/
theorem publisher_of_sameCall (api : HistogramApi H) {state state' : Aggregator H × Watch}
    {call call' : Call} (same : SameCall call call') (related : SamePublic state state') :
    SamePublic (publisher api state call).1 (publisher api state' call').1 ∧
      (publisher api state call).2 = (publisher api state' call').2 := by
  obtain ⟨aggregator, tx⟩ := state
  obtain ⟨aggregator', tx'⟩ := state'
  obtain rfl : tx = tx' := related.tx
  have held : BTreeMap.Rel SameState
      (aggregator.venues.insert call.venue ⟨call.book, call.now⟩)
      (aggregator'.venues.insert call'.venue ⟨call'.book, call'.now⟩) := by
    rw [same.venue]
    exact related.venues.insert call'.venue ⟨same.now, same.top⟩
  have venues : BTreeMap.Rel SameState
      (recordAndPublish api aggregator tx call).1.1.venues
      (recordAndPublish api aggregator' tx call').1.1.venues := by
    rw [venues_recordAndPublish, venues_recordAndPublish]
    exact held
  have result : mergedBy aggregator.venues call = mergedBy aggregator'.venues call' := by
    rw [mergedBy, mergedBy, same.now]
    rw [same.now] at held
    exact merge_of_sameTop (freshVenues_of_sameState held call'.now)
  have last : aggregator.lastPublished = aggregator'.lastPublished := related.lastPublished
  have updates : aggregator.updateCount = aggregator'.updateCount := related.updateCount
  have duplicates : aggregator.duplicateCount = aggregator'.duplicateCount :=
    related.duplicateCount
  cases merged : mergedBy aggregator'.venues call' with
  | none =>
    have leaves := leaves_of_none api aggregator tx call (result.trans merged)
    rw [last, updates, duplicates] at leaves
    exact samePublic_of_leaves venues leaves (leaves_of_none api aggregator' tx call' merged)
  | some summary =>
    cases repeated : aggregator'.lastPublished.any fun last => last.beq summary with
    | true =>
      have leaves := leaves_of_repeat api aggregator tx call (result.trans merged)
        (last ▸ repeated)
      rw [updates, duplicates] at leaves
      exact samePublic_of_leaves venues leaves
        (leaves_of_repeat api aggregator' tx call' merged repeated)
    | false =>
      have leaves := leaves_of_new api aggregator tx call (result.trans merged) (last ▸ repeated)
      rw [updates, duplicates] at leaves
      exact samePublic_of_leaves venues leaves
        (leaves_of_new api aggregator' tx call' merged repeated)

/-- Over whole runs of calls that differ only below the top the same is published. -/
theorem publisher_run_of_sameCall (api : HistogramApi H) (tx : Watch) {calls calls' : List Call}
    (same : List.Forall₂ SameCall calls calls') :
    SamePublic ((publisher api).final (Aggregator.new api, tx) calls)
        ((publisher api).final (Aggregator.new api, tx) calls') ∧
      (publisher api).outputs (Aggregator.new api, tx) calls =
        (publisher api).outputs (Aggregator.new api, tx) calls' := by
  have start : SamePublic (Aggregator.new api, tx) (Aggregator.new api, tx) :=
    ⟨fun _ => Option.Rel.none, rfl, rfl, rfl, rfl⟩
  exact Machine.lockstep (R := SamePublic) (C := SameCall) (publisher api)
    (fun _ _ _ _ first related => publisher_of_sameCall api first related) start same

/-! ## A change below the top -/

/-- `call'` brings the venue of `call` a book that differs only below the top, and the other venues
show the same books at both calls. The venue map is the one `call` leaves. -/
structure DeepChange (venues : BTreeMap Venue VenueState) (call call' : Call) : Prop where
  venue : call'.venue = call.venue
  top : SameTop call.book call'.book
  others : ∀ venue, venue ≠ call.venue →
    (freshVenues venues call'.now).get? venue = (freshVenues venues call.now).get? venue

theorem get?_freshVenues (venues : BTreeMap Venue VenueState) (now : Instant) (venue : Venue) :
    (freshVenues venues now).get? venue =
      ((venues.get? venue).filter fun state =>
        decide (durationSince now state.lastUpdate < venue.stalenessThreshold)).map
          fun state => state.book := by
  rw [freshVenues, BTreeMap.get?_mapValues, BTreeMap.get?_filter]

/-- A book is fresh when it arrives. -/
theorem get?_freshVenues_insert (venues : BTreeMap Venue VenueState) (venue : Venue) (book : Book)
    (now : Instant) :
    (freshVenues (venues.insert venue ⟨book, now⟩) now).get? venue = some book := by
  have positive := venue.stalenessThreshold_pos
  rw [get?_freshVenues, BTreeMap.get?_insert, if_pos rfl]
  simp [Option.filter, durationSince, positive]

theorem mergedBy_of_deepChange {venues : BTreeMap Venue VenueState} {call call' : Call}
    (change : DeepChange (venues.insert call.venue ⟨call.book, call.now⟩) call call') :
    mergedBy (venues.insert call.venue ⟨call.book, call.now⟩) call' = mergedBy venues call := by
  symm
  apply merge_of_sameTop
  intro venue
  by_cases same : venue = call.venue
  · rw [same, get?_freshVenues_insert, ← change.venue, get?_freshVenues_insert]
    exact Option.Rel.some change.top
  · have other := change.others venue same
    rw [get?_freshVenues, get?_freshVenues] at other
    rw [get?_freshVenues, get?_freshVenues, BTreeMap.get?_insert _ call'.venue, change.venue,
      if_neg same, other]
    generalize Option.map _ _ = book
    cases book with
    | none => exact Option.Rel.none
    | some book => exact Option.Rel.some fun _ => rfl

/-- The register after a call with a merge result is that result. -/
theorem lastPublished_of_result (api : HistogramApi H) (aggregator : Aggregator H) (tx : Watch)
    (call : Call) {summary : Summary} (result : mergedBy aggregator.venues call = some summary) :
    (recordAndPublish api aggregator tx call).1.1.lastPublished = some summary := by
  cases repeated : aggregator.lastPublished.any fun last => last.beq summary with
  | true => exact (leaves_of_repeat api aggregator tx call result repeated).lastPublished
  | false => exact (leaves_of_new api aggregator tx call result repeated).lastPublished

/-- No NaN in the spread, a price or an amount. -/
structure Summary.NoNan (summary : Summary) : Prop where
  spread : summary.spread.isNan = false
  levels : ∀ level ∈ summary.bids ++ summary.asks,
    level.price.isNan = false ∧ level.amount.isNan = false

theorem Level.beqList_self_iff {levels : List Level} :
    Level.beqList levels levels = true ↔
      ∀ level ∈ levels, level.price.isNan = false ∧ level.amount.isNan = false := by
  induction levels with
  | nil => simp [Level.beqList]
  | cons level levels ih =>
    simp only [Level.beqList, Bool.and_eq_true, ih, Level.beq, F64.beq_self_iff,
      decide_true, true_and, List.forall_mem_cons]

/-- A summary equals itself under `==` exactly where it holds no NaN. -/
theorem Summary.beq_self_iff {summary : Summary} :
    summary.beq summary = true ↔ summary.NoNan := by
  simp only [Summary.beq, Bool.and_eq_true, F64.beq_self_iff, Level.beqList_self_iff]
  constructor
  · rintro ⟨⟨spread, bids⟩, asks⟩
    refine ⟨spread, fun level member => ?_⟩
    rcases List.mem_append.mp member with member | member
    · exact bids level member
    · exact asks level member
  · intro number
    refine ⟨⟨number.spread, fun level member => ?_⟩, fun level member => ?_⟩
    · exact number.levels level (List.mem_append_left _ member)
    · exact number.levels level (List.mem_append_right _ member)

theorem mergedBy_after_deepChange (api : HistogramApi H) (aggregator : Aggregator H) (tx : Watch)
    {call call' : Call}
    (change : DeepChange (recordAndPublish api aggregator tx call).1.1.venues call call') :
    mergedBy (recordAndPublish api aggregator tx call).1.1.venues call' =
      mergedBy aggregator.venues call := by
  rw [venues_recordAndPublish] at change
  rw [venues_recordAndPublish, mergedBy_of_deepChange change]

/-- A deep change right after a call with a merge result is counted as a repeat and not sent,
unless the result holds a NaN: the same result is then new to the aggregator. -/
theorem repeats_of_deepChange_iff (api : HistogramApi H) (aggregator : Aggregator H) (tx : Watch)
    {call call' : Call} {summary : Summary}
    (result : mergedBy aggregator.venues call = some summary)
    (change : DeepChange (recordAndPublish api aggregator tx call).1.1.venues call call') :
    let after := (recordAndPublish api aggregator tx call).1
    Leaves (recordAndPublish api after.1 after.2 call') (some summary) after.1.updateCount
      (after.1.duplicateCount + 1) after.2 none ↔ summary.NoNan := by
  intro after
  have again : mergedBy after.1.venues call' = some summary := by
    rw [mergedBy_after_deepChange api aggregator tx change, result]
  have last : after.1.lastPublished = some summary :=
    lastPublished_of_result api aggregator tx call result
  constructor
  · intro leaves
    by_contra nan
    have new : (after.1.lastPublished.any fun last => last.beq summary) = false := by
      rw [last]
      exact Bool.eq_false_iff.mpr fun equal => nan (Summary.beq_self_iff.mp equal)
    have sent := (leaves_of_new api after.1 after.2 call' again new).sent
    rw [leaves.sent] at sent
    cases sent
  · intro number
    apply leaves_of_repeat api after.1 after.2 call' again
    rw [last]
    exact Summary.beq_self_iff.mpr number

/-- Levels below the top do not show: books with the same top merge to the same summary, so each
book may be cut to its top; runs of calls with the same tops publish the same; and a call that
changes a book only below its top sends and counts nothing where nothing merged before it, and
otherwise is a repeat exactly if the summary before it holds no NaN. -/
theorem deep_levels_do_not_show :
    (∀ venues venues' : BTreeMap Venue Book, BTreeMap.Rel SameTop venues venues' →
      merge venues = merge venues') ∧
    (∀ venues : BTreeMap Venue Book, merge (venues.mapValues Book.top) = merge venues) ∧
    (∀ (api : HistogramApi H) (tx : Watch) (calls calls' : List Call),
      List.Forall₂ SameCall calls calls' →
        SamePublic ((publisher api).final (Aggregator.new api, tx) calls)
          ((publisher api).final (Aggregator.new api, tx) calls') ∧
        (publisher api).outputs (Aggregator.new api, tx) calls =
          (publisher api).outputs (Aggregator.new api, tx) calls') ∧
    (∀ (api : HistogramApi H) (aggregator : Aggregator H) (tx : Watch) (call call' : Call),
      DeepChange (recordAndPublish api aggregator tx call).1.1.venues call call' →
        let after := (recordAndPublish api aggregator tx call).1
        (mergedBy aggregator.venues call = none →
          Leaves (recordAndPublish api after.1 after.2 call') after.1.lastPublished
            after.1.updateCount after.1.duplicateCount after.2 none) ∧
        ∀ summary, mergedBy aggregator.venues call = some summary →
          (Leaves (recordAndPublish api after.1 after.2 call') (some summary) after.1.updateCount
            (after.1.duplicateCount + 1) after.2 none ↔ summary.NoNan)) := by
  refine ⟨fun _ _ => merge_of_sameTop, merge_top, ?_, ?_⟩
  · intro api tx calls calls' same
    exact publisher_run_of_sameCall api tx same
  · intro api aggregator tx call call' change
    refine ⟨fun nothing => ?_, fun summary result => ?_⟩
    · apply leaves_of_none
      rw [mergedBy_after_deepChange api aggregator tx change, nothing]
    · exact repeats_of_deepChange_iff api aggregator tx result change

/-- A book with ten equal bids, one more bid, and one ask. -/
def deepBook (deep : Nat) (ask : F64) : Book where
  bids := List.replicate 10 (⟨F64.ofNat 8⟩, ⟨F64.ofNat 1⟩) ++ [(⟨F64.ofNat deep⟩, ⟨F64.ofNat 1⟩)]
  asks := [(⟨ask⟩, ⟨F64.ofNat 1⟩)]
  lastUpdateId := 0
  parseStartedAt := 0
  parsedAt := 0

theorem sameTop_deepBook (deep deep' : Nat) (ask : F64) :
    SameTop (deepBook deep ask) (deepBook deep' ask) := by
  -- The asks are rewritten to the same list: comparing the books would evaluate their prices.
  have asks : ∀ n, (deepBook n ask).asks = [(⟨ask⟩, ⟨F64.ofNat 1⟩)] := fun _ => rfl
  have bids : ∀ n, (deepBook n ask).bids.take TOP_N =
      List.replicate 10 (⟨F64.ofNat 8⟩, ⟨F64.ofNat 1⟩) :=
    fun _ => List.take_left' List.length_replicate
  intro side
  cases side with
  | bid => rw [Side.levels, Side.levels, bids, bids]
  | ask => rw [Side.levels, Side.levels, asks, asks]

/-- A new aggregator called twice, the second time with another eleventh bid. -/
theorem deepChange_deepBook (api : HistogramApi H) (tx : Watch) (ask : F64) :
    DeepChange (recordAndPublish api (Aggregator.new api) tx
        ⟨.binance, deepBook 7 ask, 0, 0, 0⟩).1.1.venues
      ⟨.binance, deepBook 7 ask, 0, 0, 0⟩ ⟨.binance, deepBook 6 ask, 1, 1, 1⟩ := by
  refine ⟨rfl, sameTop_deepBook 7 6 ask, fun venue other => ?_⟩
  rw [venues_recordAndPublish, get?_freshVenues, get?_freshVenues, BTreeMap.get?_insert,
    if_neg other]
  rfl

theorem deep_levels_do_not_show_deepBook :
    let after := (recordAndPublish counting (Aggregator.new counting) ⟨none, 0, 1⟩
      ⟨.binance, deepBook 7 (F64.ofNat 9), 0, 0, 0⟩).1
    (recordAndPublish counting after.1 after.2 ⟨.binance, deepBook 6 (F64.ofNat 9), 1, 1, 1⟩).2 =
      none := by
  obtain ⟨summary, result⟩ := Option.isSome_iff_exists.mp
    (show (mergedBy (Aggregator.new counting).venues
      ⟨.binance, deepBook 7 (F64.ofNat 9), 0, 0, 0⟩).isSome = true by decide +kernel)
  have number : summary.NoNan := by
    have equal : (mergedBy (Aggregator.new counting).venues
        ⟨.binance, deepBook 7 (F64.ofNat 9), 0, 0, 0⟩).all (fun summary => summary.beq summary) =
          true := by decide +kernel
    rw [result] at equal
    exact Summary.beq_self_iff.mp equal
  obtain ⟨-, repeats⟩ := deep_levels_do_not_show.2.2.2 counting (Aggregator.new counting)
    ⟨none, 0, 1⟩ _ _ (deepChange_deepBook counting ⟨none, 0, 1⟩ (F64.ofNat 9))
  exact ((repeats summary result).mpr number).sent

/-- Where the ask is a NaN, which its text `NaN` parses to, the change below the top is sent. -/
theorem deep_change_with_nan_is_sent :
    Price.parse "NaN".toList = some ⟨F64.nan⟩ ∧
    ¬ ∀ (aggregator : Aggregator Nat) (tx : Watch) (call call' : Call) (summary : Summary),
      mergedBy aggregator.venues call = some summary →
        DeepChange (recordAndPublish counting aggregator tx call).1.1.venues call call' →
          let after := (recordAndPublish counting aggregator tx call).1
          (recordAndPublish counting after.1 after.2 call').2 = none := by
  refine ⟨by decide +kernel, fun repeats => ?_⟩
  obtain ⟨summary, result⟩ := Option.isSome_iff_exists.mp
    (show (mergedBy (Aggregator.new counting).venues
      ⟨.binance, deepBook 7 F64.nan, 0, 0, 0⟩).isSome = true by decide +kernel)
  have suppressed := repeats (Aggregator.new counting) ⟨none, 0, 1⟩ _ _ summary result
    (deepChange_deepBook counting ⟨none, 0, 1⟩ F64.nan)
  revert suppressed
  decide +kernel

end Orderbook
