import Orderbook.Proofs.ShownLevels

/-!
# How old a shown level can be

Freshness is judged only when a book arrives. A venue that went silent keeps its levels on the
channel until a later arrival gives a summary without it, so how old a shown level gets is not
bounded by the thresholds. `shown_fresh_of_rejudged` says what does bound it.
-/

namespace Orderbook

open Repeats

variable {H : Type}

/-- The loop of `run` as a machine. -/
def runLoop (api : HistogramApi H) : Machine (RunState H) Event (Shown H) := turn api

/-- The state of `run` after some events, `subscribers` besides the server's own receiver. -/
abbrev afterEvents (api : HistogramApi H) (subscribers : Nat) (startedAt : Instant)
    (events : List Event) : RunState H :=
  (runLoop api).final (RunState.start api ⟨none, 0, subscribers + 1⟩ startedAt) events

/-- The book that arrives with an event. -/
def Event.call : Event → Option Call
  | book call => some call
  | _ => none

/-- The books that arrived, in order. -/
def arrivals (events : List Event) : List Call := events.filterMap Event.call

/-- Every level shown is labelled with a venue whose last book arrived less than the staleness
threshold and a report interval before `now`. -/
def ShownFresh (calls : List Call) (value : Option Summary) (now : Instant) : Prop :=
  ∀ summary, value = some summary → ∀ side : Side, ∀ level ∈ side.shown summary,
    ∃ venue call, level.exchange = venue.display ∧ lastCall calls venue = some call ∧
      now - call.now < venue.stalenessThreshold + REPORT_INTERVAL

/-- The venue's last book is at least its staleness threshold and a report interval old. -/
def Silent (calls : List Call) (venue : Venue) (now : Instant) : Prop :=
  ∃ call, lastCall calls venue = some call ∧
    venue.stalenessThreshold + REPORT_INTERVAL ≤ now - call.now

/-- After the venue went stale a book arrived whose merge gave a summary. -/
def Rejudged (calls : List Call) (venue : Venue) : Prop :=
  ∃ last, lastCall calls venue = some last ∧ ∃ before call, before ++ [call] <+: calls ∧
    merge (received (before ++ [call]) call.now) ≠ none ∧
    venue.stalenessThreshold ≤ call.now - last.now

/-- The last merge that gave a summary has no level of the venue. -/
def Unlisted (calls : List Call) (venue : Venue) : Prop :=
  ∀ summary, (summaries calls).getLast? = some summary → ∀ side : Side,
    ∀ level ∈ side.shown summary, level.exchange ≠ venue.display

/-! ## Arrivals decide what is published -/

theorem ended_of_turn {api : HistogramApi H} {state : RunState H} {event : Event}
    (running : (turn api state event).1.ended = false) : state.ended = false := by
  cases ended : state.ended with
  | false => rfl
  | true => simp [turn, ended] at running

/-- One turn keeps the published state in step with the arrivals: ticks touch nothing published. -/
theorem published_turn (api : HistogramApi H) {tx : Watch} (live : tx.receivers ≠ 0)
    {calls : List Call} {state : RunState H} {sent : List Summary} (running : state.ended = false)
    (published : Published tx calls (state.aggregator, state.tx) sent) (event : Event) :
    ∃ sent', Published tx (calls ++ event.call.toList)
      ((turn api state event).1.aggregator, (turn api state event).1.tx) sent' := by
  have unchanged : ∀ aggregator : Aggregator H, aggregator.venues = state.aggregator.venues →
      aggregator.lastPublished = state.aggregator.lastPublished →
      aggregator.updateCount = state.aggregator.updateCount →
      aggregator.duplicateCount = state.aggregator.duplicateCount →
      Published tx (calls ++ []) (aggregator, state.tx) sent := by
    intro aggregator venues last updates duplicates
    rw [List.append_nil]
    exact ⟨venues ▸ published.venues, last ▸ published.lastPublished, published.stream,
      last ▸ published.watched, published.lastSent, published.version, published.receivers,
      updates ▸ published.updates, duplicates ▸ published.duplicates⟩
  unfold turn
  rw [running, if_neg Bool.false_ne_true]
  cases event with
  | book call => exact ⟨_, published_concat api live published call⟩
  | closed now => exact ⟨sent, unchanged _ rfl rfl rfl rfl⟩
  | graceCheck now =>
    dsimp only
    split
    · exact ⟨sent, unchanged _ rfl rfl rfl rfl⟩
    · exact ⟨sent, unchanged _ rfl rfl rfl rfl⟩
  | reportTick now => exact ⟨sent, unchanged _ rfl rfl rfl rfl⟩

/-- While the loop runs, the channel is what the arrivals make it. -/
theorem published_afterEvents (api : HistogramApi H) (subscribers : Nat) (startedAt : Instant)
    (events : List Event) :
    (afterEvents api subscribers startedAt events).ended = false →
      ∃ sent, Published ⟨none, 0, subscribers + 1⟩ (arrivals events)
        ((afterEvents api subscribers startedAt events).aggregator,
          (afterEvents api subscribers startedAt events).tx) sent := by
  apply Machine.history (P := fun events state _ => state.ended = false →
    ∃ sent, Published ⟨none, 0, subscribers + 1⟩ (arrivals events)
      (state.aggregator, state.tx) sent) (runLoop api)
  · intro _
    exact published_afterCalls api subscribers []
  · intro before event ih running
    have still := ended_of_turn running
    obtain ⟨sent, published⟩ := ih still
    have grown : arrivals (before ++ [event]) = arrivals before ++ event.call.toList := by
      rw [arrivals, List.filterMap_append]
      cases event <;> rfl
    rw [grown]
    exact published_turn api (by simp) still published event

/-! ## Labels -/

/-- The label of a level in a merge over received books is a venue fresh at the merge. -/
theorem label_of_shown {calls : List Call} {now : Instant} {summary : Summary}
    (merged : merge (received calls now) = some summary) {side : Side} {level : Level}
    (member : level ∈ side.shown summary) :
    ∃ venue call, level.exchange = venue.display ∧ lastCall calls venue = some call ∧
      now - call.now < venue.stalenessThreshold := by
  rw [shown_of_merge merged] at member
  obtain ⟨venue, book, source, found, -, rfl⟩ := mem_mergeSide member
  obtain ⟨call, last, fresh, -⟩ := get?_received_eq_some found
  exact ⟨venue, call, rfl, last, fresh⟩

/-- Every level of the last summary is labelled with a venue that has sent a book. -/
theorem sender_of_last {calls : List Call} {summary : Summary}
    (last : (summaries calls).getLast? = some summary) {side : Side} {level : Level}
    (member : level ∈ side.shown summary) :
    ∃ venue call, level.exchange = venue.display ∧ lastCall calls venue = some call := by
  induction calls using List.reverseRecOn with
  | nil => cases last
  | append_singleton calls call ih =>
    rw [summaries_concat] at last
    cases merged : merge (received (calls ++ [call]) call.now) with
    | some newest =>
      rw [merged, Option.toList_some, List.getLast?_concat] at last
      cases last
      obtain ⟨venue, held, label, found, -⟩ := label_of_shown merged member
      exact ⟨venue, held, label, found⟩
    | none =>
      rw [merged, Option.toList_none, List.append_nil] at last
      obtain ⟨venue, held, label, found⟩ := ih last
      by_cases same : call.venue = venue
      · exact ⟨venue, call, label, by rw [lastCall_concat, if_pos same]⟩
      · exact ⟨venue, held, label, by rw [lastCall_concat, if_neg same, found]⟩

/-- A venue that was stale when a later arrival gave a summary is not in the last summary. The
induction is on the arrivals, from the last one: either it gave the last summary, with the venue
filtered out, or it changed nothing. -/
theorem unlisted_of_rejudged {calls : List Call}
    (ordered : calls.Pairwise (fun a b => a.now ≤ b.now)) {venue : Venue}
    (rejudged : Rejudged calls venue) : Unlisted calls venue := by
  induction calls using List.reverseRecOn with
  | nil =>
    intro summary last
    cases last
  | append_singleton calls newest ih =>
    obtain ⟨earlier, -, newestLast⟩ := List.pairwise_append.mp ordered
    have latest : ∀ call ∈ calls ++ [newest], call.now ≤ newest.now := by
      intro call member
      rcases List.mem_append.mp member with member | member
      · exact newestLast call member newest (by simp)
      · rw [List.mem_singleton.mp member]
    obtain ⟨sender, last, before, call, within, gives, stale⟩ := rejudged
    have positive := venue.stalenessThreshold_pos
    have staleNow : venue.stalenessThreshold ≤ newest.now - sender.now := by
      have := latest call (within.subset (by simp))
      linarith
    intro summary shown side level member label
    rw [summaries_concat] at shown
    cases merged : merge (received (calls ++ [newest]) newest.now) with
    | some current =>
      rw [merged, Option.toList_some, List.getLast?_concat] at shown
      cases shown
      obtain ⟨venue', held, label', found, fresh⟩ := label_of_shown merged member
      obtain rfl : venue' = venue := Venue.display_injective (label'.symm.trans label)
      rw [last] at found
      cases found
      linarith
    | none =>
      rw [merged, Option.toList_none, List.append_nil] at shown
      have other : newest.venue ≠ venue := by
        intro same
        rw [lastCall_concat, if_pos same] at last
        cases last
        linarith
      rw [lastCall_concat, if_neg other] at last
      have inside : before ++ [call] <+: calls := by
        rcases List.prefix_concat_iff.mp within with whole | inside
        · obtain ⟨rfl, single⟩ := List.append_inj' whole rfl
          obtain rfl : call = newest := by simpa using single
          exact absurd merged gives
        · exact inside
      exact ih earlier ⟨sender, last, before, call, inside, gives, stale⟩ summary shown side level
        member label

/-- The levels shown are recent exactly when no venue silent for too long is in the last summary. -/
theorem shownFresh_iff {calls : List Call} {value : Option Summary}
    (watched : SameValue value (summaries calls).getLast?) (now : Instant) :
    ShownFresh calls value now ↔ ∀ venue, Silent calls venue now → Unlisted calls venue := by
  constructor
  · rintro fresh venue ⟨sender, last, old⟩ summary shown side level member label
    rw [shown] at watched
    cases value with
    | none => exact watched
    | some read =>
      obtain ⟨other, inside, sameLabel, -, -⟩ :=
        exists_shown_of_same (Summary.Same.symm watched) member
      obtain ⟨venue', call, label', found, recent⟩ := fresh read rfl side other inside
      obtain rfl : venue' = venue :=
        Venue.display_injective (label'.symm.trans (sameLabel.symm.trans label))
      rw [last] at found
      cases found
      linarith
  · rintro unlisted summary rfl side level member
    cases shown : (summaries calls).getLast? with
    | none =>
      rw [shown] at watched
      exact absurd watched id
    | some last =>
      rw [shown] at watched
      obtain ⟨other, inside, sameLabel, -, -⟩ := exists_shown_of_same watched member
      obtain ⟨venue, call, label, found⟩ := sender_of_last shown inside
      refine ⟨venue, call, sameLabel.trans label, found, ?_⟩
      by_contra old
      exact unlisted venue ⟨call, found, not_lt.mp old⟩ last shown side other inside label

/-- In a run whose reads meet the condition, no read shows a level of a venue silent for its
threshold and a report interval. The exact condition at a read is that no such venue is in the last
summary merged; it holds where each such venue went stale before some arrival that gave one. -/
theorem shown_fresh_of_rejudged (api : HistogramApi H) (subscribers : Nat) (startedAt : Instant)
    (events : List Event) (ordered : (events.map Event.now).Pairwise (· ≤ ·))
    (running : (afterEvents api subscribers startedAt events).ended = false) (now : Instant) :
    ((∀ venue, Silent (arrivals events) venue now → Rejudged (arrivals events) venue) →
      ShownFresh (arrivals events) (afterEvents api subscribers startedAt events).tx.value now) ∧
    (ShownFresh (arrivals events) (afterEvents api subscribers startedAt events).tx.value now ↔
      ∀ venue, Silent (arrivals events) venue now → Unlisted (arrivals events) venue) := by
  obtain ⟨sent, published⟩ := published_afterEvents api subscribers startedAt events running
  have watched := published.watched
  rw [published.lastPublished] at watched
  have inOrder : (arrivals events).Pairwise (fun a b => a.now ≤ b.now) := by
    rw [List.pairwise_map] at ordered
    refine List.Pairwise.filterMap _ ?_ ordered
    intro a a' le call isCall call' isCall'
    cases a <;> cases a' <;> simp_all [Event.call, Event.now]
  refine ⟨fun rejudged => (shownFresh_iff watched now).mpr ?_, shownFresh_iff watched now⟩
  intro venue silent
  exact unlisted_of_rejudged inOrder (rejudged venue silent)

/-- A second venue sends after the first went stale. -/
def rejudgedEvents : List Event :=
  [.book twoSided, .graceCheck 5, .book ⟨.bitstamp, plainBook [(7, 1)] [(10, 1)], 6, 6, 6⟩,
    .reportTick 30]

theorem shown_fresh_rejudgedEvents :
    ShownFresh (arrivals rejudgedEvents) (afterEvents counting 0 0 rejudgedEvents).tx.value 40 := by
  refine (shown_fresh_of_rejudged counting 0 0 rejudgedEvents (by decide +kernel)
    (by decide +kernel) 40).1 ?_
  rintro venue ⟨call, last, old⟩
  cases venue with
  | binance =>
    refine ⟨twoSided, by decide +kernel, [twoSided],
      ⟨.bitstamp, plainBook [(7, 1)] [(10, 1)], 6, 6, 6⟩, List.prefix_refl _, by decide +kernel,
      by decide +kernel⟩
  | bitstamp =>
    have recent : (lastCall (arrivals rejudgedEvents) .bitstamp).map (fun call => call.now) =
        some 6 := by decide +kernel
    rw [last, Option.map_some, Option.some_inj] at recent
    rw [recent] at old
    exact absurd old (by decide +kernel)
  | kraken =>
    have absent : lastCall (arrivals rejudgedEvents) .kraken = none := by decide +kernel
    rw [absent] at last
    cases last

/-- One book, then silence while the ticks go on. -/
def silentEvents : List Event :=
  [.book twoSided, .graceCheck 5, .reportTick 30, .reportTick 60]

/-- Ninety seconds after its only book a venue with a threshold of one and a half is shown. -/
theorem silent_venue_shown :
    (silentEvents.map Event.now).Pairwise (· ≤ ·) ∧
      (afterEvents counting 0 0 silentEvents).ended = false ∧
      ¬ ShownFresh (arrivals silentEvents) (afterEvents counting 0 0 silentEvents).tx.value 90 := by
  refine ⟨by decide +kernel, by decide +kernel, fun fresh => ?_⟩
  have value : (afterEvents counting 0 0 silentEvents).tx.value =
      merge (received [twoSided] 0) := by decide +kernel
  obtain ⟨summary, merged, bids⟩ := merge_twoSided
  obtain ⟨venue, call, -, last, recent⟩ :=
    fresh summary (value.trans merged) .bid shownBid (by simp [Side.shown, bids])
  have arrived : call.now = 0 := by
    have only :
        ((lastCall (arrivals silentEvents) venue).any fun call => call.now ≠ 0) = false := by
      cases venue <;> decide +kernel
    rw [last] at only
    simpa using only
  rw [arrived] at recent
  cases venue <;> exact absurd recent (by decide +kernel)

end Orderbook
