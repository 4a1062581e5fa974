import Orderbook.Aggregator
import Orderbook.Proofs.Merge
import Orderbook.Misc.Machine
import Orderbook.Misc.Repeats

/-!
# The published stream

What `record_and_publish` sends is a function of the calls alone: each call merges the books each
venue sent last, as far as they are fresh (`received`), and the results are sent without repeats.
-/

namespace Orderbook

open Repeats

/-! ## Books received so far -/

/-- The venues of the process. -/
def allVenues : List Venue := [.binance, .bitstamp, .kraken]

theorem mem_allVenues (venue : Venue) : venue ∈ allVenues := by
  cases venue <;> simp [allVenues]

/-- The last call for a venue. -/
def lastCall (calls : List Call) (venue : Venue) : Option Call :=
  (calls.filter fun call => call.venue = venue).getLast?

/-- Each venue's last book, where it arrived less than the staleness threshold before `now`. -/
def received (calls : List Call) (now : Instant) : BTreeMap Venue Book :=
  BTreeMap.collect allVenues fun venue =>
    (lastCall calls venue).bind fun call =>
      if now - call.now < venue.stalenessThreshold then some call.book else none

/-- The merge results of the calls in order, each over the books received up to that call. -/
def resultsFrom (seen : List Call) : List Call → List (Option Summary)
  | [] => []
  | call :: calls =>
      merge (received (seen ++ [call]) call.now) :: resultsFrom (seen ++ [call]) calls

def results (calls : List Call) : List (Option Summary) := resultsFrom [] calls

/-- The summaries among the results. -/
def summaries (calls : List Call) : List Summary := (results calls).filterMap id

theorem lastCall_concat (calls : List Call) (call : Call) (venue : Venue) :
    lastCall (calls ++ [call]) venue =
      if call.venue = venue then some call else lastCall calls venue := by
  by_cases same : call.venue = venue
  · simp [lastCall, List.filter_append, same]
  · simp [lastCall, List.filter_append, same]

theorem get?_received (calls : List Call) (now : Instant) (venue : Venue) :
    (received calls now).get? venue =
      (lastCall calls venue).bind fun call =>
        if now - call.now < venue.stalenessThreshold then some call.book else none := by
  rw [received, BTreeMap.get?_collect, if_pos (mem_allVenues venue)]

theorem resultsFrom_concat (seen calls : List Call) (call : Call) :
    resultsFrom seen (calls ++ [call]) =
      resultsFrom seen calls ++ [merge (received (seen ++ calls ++ [call]) call.now)] := by
  induction calls generalizing seen with
  | nil => simp [resultsFrom]
  | cons first calls ih => simp [resultsFrom, ih]

theorem results_concat (calls : List Call) (call : Call) :
    results (calls ++ [call]) = results calls ++ [merge (received (calls ++ [call]) call.now)] := by
  exact resultsFrom_concat [] calls call

theorem summaries_concat (calls : List Call) (call : Call) :
    summaries (calls ++ [call]) =
      summaries calls ++ (merge (received (calls ++ [call]) call.now)).toList := by
  rw [summaries, results_concat, List.filterMap_append]
  cases merge (received (calls ++ [call]) call.now) <;> rfl

/-! ## One call -/

variable {H : Type}

/-- The aggregator and its channel, called with one book at a time; the outputs are the values
handed to `tx.send`. -/
def publisher (api : HistogramApi H) : Machine (Aggregator H × Watch) Call (Option Summary) :=
  fun state call => recordAndPublish api state.1 state.2 call

/-- The venue map holds the last book of each venue. -/
def HoldsLast (venues : BTreeMap Venue VenueState) (calls : List Call) : Prop :=
  ∀ venue, venues.get? venue =
    (lastCall calls venue).map fun call => ⟨call.book, call.now⟩

theorem holdsLast_insert {venues : BTreeMap Venue VenueState} {calls : List Call}
    (holds : HoldsLast venues calls) (call : Call) :
    HoldsLast (venues.insert call.venue ⟨call.book, call.now⟩) (calls ++ [call]) := by
  intro venue
  rw [BTreeMap.get?_insert, lastCall_concat]
  by_cases same : call.venue = venue
  · simp [same]
  · rw [if_neg same, if_neg (Ne.symm same), holds venue]

/-- `duration_since` saturates, and every threshold is positive. -/
theorem durationSince_lt_iff (now earlier : Instant) (venue : Venue) :
    durationSince now earlier < venue.stalenessThreshold ↔
      now - earlier < venue.stalenessThreshold := by
  have positive := venue.stalenessThreshold_pos
  simp only [durationSince, max_lt_iff, positive, true_and]

theorem freshVenues_eq_received {venues : BTreeMap Venue VenueState} {calls : List Call}
    (holds : HoldsLast venues calls) (now : Instant) :
    freshVenues venues now = received calls now := by
  apply BTreeMap.ext_get?
  intro venue
  rw [freshVenues, BTreeMap.get?_mapValues, BTreeMap.get?_filter, get?_received, holds venue]
  cases lastCall calls venue with
  | none => rfl
  | some call =>
    by_cases fresh : now - call.now < venue.stalenessThreshold
    · simp [Option.filter, durationSince_lt_iff, fresh]
    · simp [Option.filter, durationSince_lt_iff, fresh]

/-- The venue map a call leaves behind, whatever it publishes. -/
theorem venues_recordAndPublish (api : HistogramApi H) (aggregator : Aggregator H) (tx : Watch)
    (call : Call) :
    (recordAndPublish api aggregator tx call).1.1.venues =
      aggregator.venues.insert call.venue ⟨call.book, call.now⟩ := by
  unfold recordAndPublish
  dsimp only
  split
  · rfl
  · split <;> rfl

/-- The parts of a call's result that decide what is published. -/
structure Leaves (next : (Aggregator H × Watch) × Option Summary) (lastPublished : Option Summary)
    (updateCount duplicateCount : Nat) (tx : Watch) (sent : Option Summary) : Prop where
  lastPublished : next.1.1.lastPublished = lastPublished
  updateCount : next.1.1.updateCount = updateCount
  duplicateCount : next.1.1.duplicateCount = duplicateCount
  tx : next.1.2 = tx
  sent : next.2 = sent

section Outcomes

variable (api : HistogramApi H) (aggregator : Aggregator H) (tx : Watch) (call : Call)

/-- The merge result of a call. -/
def mergedBy (venues : BTreeMap Venue VenueState) (call : Call) : Option Summary :=
  merge (freshVenues (venues.insert call.venue ⟨call.book, call.now⟩) call.now)

/-- A call without a merge result publishes nothing and leaves the register of the last one. -/
theorem leaves_of_none (result : mergedBy aggregator.venues call = none) :
    Leaves (recordAndPublish api aggregator tx call) aggregator.lastPublished
      aggregator.updateCount aggregator.duplicateCount tx none := by
  unfold mergedBy at result
  unfold recordAndPublish
  dsimp only
  rw [result]
  exact ⟨rfl, rfl, rfl, rfl, rfl⟩

/-- A repeat is counted and registered, and not sent. -/
theorem leaves_of_repeat {summary : Summary}
    (result : mergedBy aggregator.venues call = some summary)
    (repeated : (aggregator.lastPublished.any fun last => last.beq summary) = true) :
    Leaves (recordAndPublish api aggregator tx call) (some summary)
      aggregator.updateCount (aggregator.duplicateCount + 1) tx none := by
  unfold mergedBy at result
  unfold recordAndPublish
  dsimp only
  rw [result]
  dsimp only
  rw [repeated]
  exact ⟨rfl, rfl, rfl, rfl, rfl⟩

/-- Any other result is sent, registered and counted. -/
theorem leaves_of_new {summary : Summary}
    (result : mergedBy aggregator.venues call = some summary)
    (new : (aggregator.lastPublished.any fun last => last.beq summary) = false) :
    Leaves (recordAndPublish api aggregator tx call) (some summary)
      (aggregator.updateCount + 1) aggregator.duplicateCount (tx.send (some summary))
      (some summary) := by
  unfold mergedBy at result
  unfold recordAndPublish
  dsimp only
  rw [result]
  dsimp only
  rw [new]
  exact ⟨rfl, rfl, rfl, rfl, rfl⟩

end Outcomes

/-! ## Equality of summaries -/

/-- Two published values that Rust's `==` or identity cannot tell apart. -/
def Summary.Same (a b : Summary) : Prop := a = b ∨ a.beq b = true

theorem Level.beq_trans {a b c : Level} (hab : a.beq b = true) (hbc : b.beq c = true) :
    a.beq c = true := by
  simp only [Level.beq, Bool.and_eq_true, decide_eq_true_eq] at hab hbc ⊢
  exact ⟨⟨hab.1.1.trans hbc.1.1, F64.beq_trans hab.1.2 hbc.1.2⟩, F64.beq_trans hab.2 hbc.2⟩

theorem Level.beqList_trans {as bs cs : List Level} (hab : beqList as bs = true)
    (hbc : beqList bs cs = true) : beqList as cs = true := by
  induction as generalizing bs cs with
  | nil =>
    cases bs with
    | nil => exact hbc
    | cons => cases hab
  | cons a as ih =>
    cases bs with
    | nil => cases hab
    | cons b bs =>
      cases cs with
      | nil => cases hbc
      | cons c cs =>
        simp only [beqList, Bool.and_eq_true] at hab hbc ⊢
        exact ⟨Level.beq_trans hab.1 hbc.1, ih hab.2 hbc.2⟩

theorem Summary.beq_trans {a b c : Summary} (hab : a.beq b = true) (hbc : b.beq c = true) :
    a.beq c = true := by
  simp only [Summary.beq, Bool.and_eq_true] at hab hbc ⊢
  exact ⟨⟨F64.beq_trans hab.1.1 hbc.1.1, Level.beqList_trans hab.1.2 hbc.1.2⟩,
    Level.beqList_trans hab.2 hbc.2⟩

theorem Level.beqList_symm {as bs : List Level} (same : beqList as bs = true) :
    beqList bs as = true := by
  induction as generalizing bs with
  | nil =>
    cases bs with
    | nil => rfl
    | cons => cases same
  | cons a as ih =>
    cases bs with
    | nil => cases same
    | cons b bs =>
      simp only [beqList, Level.beq, Bool.and_eq_true, decide_eq_true_eq] at same ⊢
      obtain ⟨⟨⟨label, price⟩, amount⟩, rest⟩ := same
      exact ⟨⟨⟨label.symm, F64.beq_symm price⟩, F64.beq_symm amount⟩, ih rest⟩

theorem Summary.Same.symm {a b : Summary} (same : a.Same b) : b.Same a := by
  rcases same with rfl | equal
  · exact Or.inl rfl
  · simp only [Summary.beq, Bool.and_eq_true] at equal
    refine Or.inr ?_
    simp only [Summary.beq, Bool.and_eq_true]
    exact ⟨⟨F64.beq_symm equal.1.1, Level.beqList_symm equal.1.2⟩, Level.beqList_symm equal.2⟩

theorem Summary.Same.trans_beq {a b c : Summary} (hab : a.Same b) (hbc : b.beq c = true) :
    a.Same c := by
  rcases hab with rfl | hab
  · exact Or.inr hbc
  · exact Or.inr (Summary.beq_trans hab hbc)

/-- Both absent, or the same. -/
def SameValue : Option Summary → Option Summary → Prop
  | none, none => True
  | some a, some b => a.Same b
  | _, _ => False

/-! ## Whole runs -/

/-- What the calls so far determine of the aggregator and its channel. -/
structure Published (tx : Watch) (calls : List Call) (state : Aggregator H × Watch)
    (sent : List Summary) : Prop where
  venues : HoldsLast state.1.venues calls
  lastPublished : state.1.lastPublished = (summaries calls).getLast?
  stream : sent = dropRepeats Summary.beq none (summaries calls)
  watched : SameValue state.2.value state.1.lastPublished
  lastSent : state.2.value = sent.getLast?
  version : state.2.version = tx.version + sent.length
  receivers : state.2.receivers = tx.receivers
  updates : state.1.updateCount = sent.length
  duplicates : state.1.duplicateCount + sent.length = (summaries calls).length

theorem mergedBy_eq {venues : BTreeMap Venue VenueState} {calls : List Call}
    (holds : HoldsLast venues calls) (call : Call) :
    mergedBy venues call = merge (received (calls ++ [call]) call.now) := by
  rw [mergedBy, freshVenues_eq_received (holdsLast_insert holds call)]

theorem sameValue_of_repeat {value last : Option Summary} {summary : Summary}
    (watched : SameValue value last)
    (repeated : (last.any fun before => before.beq summary) = true) :
    SameValue value (some summary) := by
  cases last with
  | none => cases repeated
  | some before =>
    cases value with
    | none => exact watched
    | some shown => exact Summary.Same.trans_beq watched repeated

section Steps

variable {tx : Watch} {calls : List Call} {call : Call} {state : Aggregator H × Watch}
  {sent : List Summary} {next : (Aggregator H × Watch) × Option Summary}

/-- A call without a merge result changes only the books held. -/
theorem Published.of_none (published : Published tx calls state sent)
    (venues : HoldsLast next.1.1.venues (calls ++ [call]))
    (leaves : Leaves next state.1.lastPublished state.1.updateCount state.1.duplicateCount state.2
      none)
    (grown : summaries (calls ++ [call]) = summaries calls) :
    Published tx (calls ++ [call]) next.1 (sent ++ next.2.toList) := by
  rw [leaves.sent, Option.toList_none, List.append_nil]
  constructor
  · exact venues
  · rw [leaves.lastPublished, grown, published.lastPublished]
  · rw [grown, published.stream]
  · rw [leaves.tx, leaves.lastPublished]
    exact published.watched
  · rw [leaves.tx, published.lastSent]
  · rw [leaves.tx, published.version]
  · rw [leaves.tx, published.receivers]
  · rw [leaves.updateCount, published.updates]
  · rw [leaves.duplicateCount, grown, published.duplicates]

/-- What the stream without repeats makes of one more result. -/
theorem Published.stream_concat (published : Published tx calls state sent) {summary : Summary}
    (grown : summaries (calls ++ [call]) = summaries calls ++ [summary]) :
    dropRepeats Summary.beq none (summaries (calls ++ [call])) =
      sent ++ if (state.1.lastPublished.any fun last => last.beq summary) = true then []
        else [summary] := by
  have before : lastOf none (summaries calls) = state.1.lastPublished := by
    rw [published.lastPublished, lastOf, Option.or_none]
  rw [grown, dropRepeats_concat, before, ← published.stream]

/-- A repeat is counted and not sent. -/
theorem Published.of_repeat (published : Published tx calls state sent) {summary : Summary}
    (venues : HoldsLast next.1.1.venues (calls ++ [call]))
    (leaves : Leaves next (some summary) state.1.updateCount (state.1.duplicateCount + 1) state.2
      none)
    (grown : summaries (calls ++ [call]) = summaries calls ++ [summary])
    (repeated : (state.1.lastPublished.any fun last => last.beq summary) = true) :
    Published tx (calls ++ [call]) next.1 (sent ++ next.2.toList) := by
  have counted := published.duplicates
  have length : (summaries (calls ++ [call])).length = (summaries calls).length + 1 := by
    rw [grown, List.length_append, List.length_singleton]
  have stream := published.stream_concat grown
  rw [repeated, if_pos rfl, List.append_nil] at stream
  rw [leaves.sent, Option.toList_none, List.append_nil]
  constructor
  · exact venues
  · rw [leaves.lastPublished, grown, List.getLast?_concat]
  · exact stream.symm
  · rw [leaves.tx, leaves.lastPublished]
    exact sameValue_of_repeat published.watched repeated
  · rw [leaves.tx, published.lastSent]
  · rw [leaves.tx, published.version]
  · rw [leaves.tx, published.receivers]
  · rw [leaves.updateCount, published.updates]
  · rw [leaves.duplicateCount, length]
    omega

/-- Any other result is sent on the channel, which has receivers. -/
theorem Published.of_new (published : Published tx calls state sent) (live : tx.receivers ≠ 0)
    {summary : Summary} (venues : HoldsLast next.1.1.venues (calls ++ [call]))
    (leaves : Leaves next (some summary) (state.1.updateCount + 1) state.1.duplicateCount
      (state.2.send (some summary)) (some summary))
    (grown : summaries (calls ++ [call]) = summaries calls ++ [summary])
    (new : (state.1.lastPublished.any fun last => last.beq summary) = false) :
    Published tx (calls ++ [call]) next.1 (sent ++ next.2.toList) := by
  have counted := published.duplicates
  have length : (summaries (calls ++ [call])).length = (summaries calls).length + 1 := by
    rw [grown, List.length_append, List.length_singleton]
  have stream := published.stream_concat grown
  have alive : state.2.receivers ≠ 0 := by rwa [published.receivers]
  have channel := leaves.tx
  have sends : (sent ++ [summary]).length = sent.length + 1 := List.length_append
  rw [new, if_neg Bool.false_ne_true] at stream
  rw [Watch.send, if_neg alive] at channel
  rw [leaves.sent, Option.toList_some]
  constructor
  · exact venues
  · rw [leaves.lastPublished, grown, List.getLast?_concat]
  · exact stream.symm
  · rw [channel, leaves.lastPublished]
    exact Or.inl rfl
  · rw [channel, List.getLast?_concat]
  · rw [channel, sends, published.version]
    rfl
  · rw [channel, published.receivers]
  · rw [leaves.updateCount, sends, published.updates]
  · rw [leaves.duplicateCount, length, sends]
    omega

end Steps

/-- One call keeps the published state in step with the specification. -/
theorem published_concat (api : HistogramApi H) {tx : Watch} (live : tx.receivers ≠ 0)
    {calls : List Call} {state : Aggregator H × Watch} {sent : List Summary}
    (published : Published tx calls state sent) (call : Call) :
    Published tx (calls ++ [call]) (publisher api state call).1
      (sent ++ (publisher api state call).2.toList) := by
  have venues : HoldsLast (publisher api state call).1.1.venues (calls ++ [call]) := by
    rw [publisher, venues_recordAndPublish]
    exact holdsLast_insert published.venues call
  have result := mergedBy_eq published.venues call
  have grown := summaries_concat calls call
  rw [← result] at grown
  cases merged : mergedBy state.1.venues call with
  | none =>
    rw [merged, Option.toList_none, List.append_nil] at grown
    exact published.of_none venues (leaves_of_none api state.1 state.2 call merged) grown
  | some summary =>
    rw [merged, Option.toList_some] at grown
    cases repeated : state.1.lastPublished.any fun last => last.beq summary with
    | true =>
      have leaves := leaves_of_repeat api state.1 state.2 call merged repeated
      exact published.of_repeat venues leaves grown repeated
    | false =>
      have leaves := leaves_of_new api state.1 state.2 call merged repeated
      exact published.of_new live venues leaves grown repeated

/-- Before any call. -/
theorem published_new (api : HistogramApi H) {tx : Watch} (unset : tx.value = none) :
    Published tx [] (Aggregator.new api, tx) [] := by
  refine ⟨fun venue => rfl, rfl, rfl, ?_, ?_, rfl, rfl, rfl, rfl⟩
  · rw [unset]
    trivial
  · rw [unset]
    rfl

/-- A run of more calls. -/
theorem Published.run (api : HistogramApi H) {tx : Watch} (live : tx.receivers ≠ 0)
    {calls : List Call} {state : Aggregator H × Watch} {sent : List Summary}
    (published : Published tx calls state sent) (more : List Call) :
    Published tx (calls ++ more) ((publisher api).final state more)
      (sent ++ ((publisher api).outputs state more).filterMap id) := by
  induction more generalizing calls state sent with
  | nil =>
    rw [List.append_nil, Machine.outputs_nil, List.filterMap_nil, List.append_nil]
    exact published
  | cons call more ih =>
    have next := ih (published_concat api live published call)
    rw [List.append_assoc, List.singleton_append, List.append_assoc] at next
    rw [Machine.outputs_cons, Machine.final_cons, List.filterMap_cons]
    cases output : (publisher api state call).2 with
    | none =>
      rw [output] at next
      exact next
    | some summary =>
      rw [output] at next
      exact next

/-- The values sent are the merge results over the fresh books each venue sent last, without
repeats; the channel's value is the last published one, and the counters count the sends and the
suppressed repeats. -/
theorem publish_eq_spec (api : HistogramApi H) (tx : Watch) (live : tx.receivers ≠ 0)
    (unset : tx.value = none) (calls : List Call) :
    Published tx calls ((publisher api).final (Aggregator.new api, tx) calls)
      (((publisher api).outputs (Aggregator.new api, tx) calls).filterMap id) := by
  apply Machine.history (P := fun calls state outputs =>
    Published tx calls state (outputs.filterMap id)) (publisher api)
  · refine ⟨fun venue => rfl, rfl, rfl, ?_, ?_, rfl, rfl, rfl, rfl⟩
    · rw [unset]
      trivial
    · rw [unset]
      rfl
  · intro before call published
    have next := published_concat api live published call
    rw [List.filterMap_append]
    cases output :
        (publisher api ((publisher api).final (Aggregator.new api, tx) before) call).2 with
    | none =>
      rw [output] at next
      simpa using next
    | some summary =>
      rw [output] at next
      simpa using next

/-- A histogram that only counts its samples. -/
def counting : HistogramApi Nat where
  new := 0
  record samples _ := some (samples + 1)
  reset _ := 0

/-- Two books of one venue with the same best levels, then a one-sided book, then a stale gap. -/
def sampleCalls : List Call :=
  [⟨.binance, plainBook [(8, 2)] [(9, 1)], 0, 0, 0⟩,
    ⟨.binance, plainBook [(8, 2)] [(9, 1)], 1, 1, 1⟩, ⟨.binance, plainBook [] [(9, 1)], 2, 2, 2⟩,
    ⟨.bitstamp, plainBook [(7, 1)] [(10, 1)], 9, 9, 9⟩]

theorem publish_eq_spec_sampleCalls :
    Published ⟨none, 0, 1⟩ sampleCalls
        ((publisher counting).final (Aggregator.new counting, ⟨none, 0, 1⟩) sampleCalls)
        (((publisher counting).outputs (Aggregator.new counting, ⟨none, 0, 1⟩)
          sampleCalls).filterMap id) ∧
      (summaries sampleCalls).length = 3 :=
  ⟨publish_eq_spec counting ⟨none, 0, 1⟩ (by decide) rfl sampleCalls, by decide +kernel⟩

end Orderbook
