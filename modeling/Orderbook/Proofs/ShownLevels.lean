import Orderbook.Proofs.Publish

/-!
# Where the levels a subscriber reads come from

The channel shows the summary of the last call that gave one, up to `==`. Its levels are levels of
the books that were fresh at that call, so a later call without a result, or silence, leaves them
shown for as long as it lasts.
-/

namespace Orderbook

open Repeats

variable {H : Type}

/-- Two floats that Rust's `==` or identity cannot tell apart. -/
def F64.Same (a b : F64) : Prop := a = b ∨ a.beq b = true

/-- The shown level is a level of that side of its venue's book. -/
def LevelOf (venues : BTreeMap Venue Book) (side : Side) (level : Level) : Prop :=
  ∃ venue book source, venues.get? venue = some book ∧ source ∈ side.levels book ∧
    level.exchange = venue.display ∧ level.price.Same source.1.val ∧ level.amount.Same source.2.val

/-- The levels of a summary's side. -/
def Side.shown (side : Side) (summary : Summary) : List Level :=
  match side with
  | bid => summary.bids
  | ask => summary.asks

/-- All levels shown are levels of the given books. -/
def ShowsLevelsOf (venues : BTreeMap Venue Book) (value : Option Summary) : Prop :=
  ∀ summary, value = some summary → ∀ side : Side, ∀ level ∈ side.shown summary,
    LevelOf venues side level

/-! ## One merge -/

theorem exists_beq_of_beqList {as bs : List Level} (same : Level.beqList as bs = true)
    {a : Level} (member : a ∈ as) : ∃ b ∈ bs, a.beq b = true := by
  induction as generalizing bs with
  | nil => cases member
  | cons c as ih =>
    cases bs with
    | nil => cases same
    | cons b bs =>
      simp only [Level.beqList, Bool.and_eq_true] at same
      rcases List.mem_cons.mp member with rfl | member
      · exact ⟨b, by simp, same.1⟩
      · obtain ⟨d, inside, equal⟩ := ih same.2 member
        exact ⟨d, by simp [inside], equal⟩

/-- Each level of a side has a level of the same label, price and amount in a same summary. -/
theorem exists_shown_of_same {a b : Summary} (same : a.Same b) {side : Side} {level : Level}
    (member : level ∈ side.shown a) :
    ∃ other ∈ side.shown b, level.exchange = other.exchange ∧ level.price.Same other.price ∧
      level.amount.Same other.amount := by
  rcases same with rfl | equal
  · exact ⟨level, member, rfl, Or.inl rfl, Or.inl rfl⟩
  · simp only [Summary.beq, Bool.and_eq_true] at equal
    have lists : Level.beqList (side.shown a) (side.shown b) = true := by
      cases side with
      | bid => exact equal.1.2
      | ask => exact equal.2
    obtain ⟨other, inside, levels⟩ := exists_beq_of_beqList lists member
    simp only [Level.beq, Bool.and_eq_true, decide_eq_true_eq] at levels
    exact ⟨other, inside, levels.1.1, Or.inr levels.1.2, Or.inr levels.2⟩

theorem shown_of_merge {venues : BTreeMap Venue Book} {summary : Summary}
    (merged : merge venues = some summary) (side : Side) :
    side.shown summary = mergeSide venues side := by
  obtain ⟨bestBid, bestAsk, -, -, rfl⟩ := merge_eq_some_iff.mp merged
  cases side <;> rfl

/-- What the same summary as a merge result shows are levels of the merged books. -/
theorem showsLevelsOf_merge {venues : BTreeMap Venue Book} {merged : Summary}
    (result : merge venues = some merged) {value : Option Summary}
    (same : SameValue value (some merged)) : ShowsLevelsOf venues value := by
  rintro summary rfl side level member
  obtain ⟨other, inside, label, price, amount⟩ := exists_shown_of_same same member
  rw [shown_of_merge result] at inside
  obtain ⟨venue, book, source, found, fromBook, rfl⟩ := mem_mergeSide inside
  exact ⟨venue, book, source, found, fromBook, label, price, amount⟩

/-! ## Calls -/

/-- The books held for the venues. -/
def heldBooks (venues : BTreeMap Venue VenueState) : BTreeMap Venue Book :=
  venues.mapValues fun state => state.book

theorem LevelOf.mono {venues venues' : BTreeMap Venue Book}
    (within : ∀ venue book, venues.get? venue = some book → venues'.get? venue = some book)
    {side : Side} {level : Level} (h : LevelOf venues side level) : LevelOf venues' side level := by
  obtain ⟨venue, book, source, found, rest⟩ := h
  exact ⟨venue, book, source, within venue book found, rest⟩

theorem get?_received_eq_some {calls : List Call} {now : Instant} {venue : Venue} {book : Book}
    (found : (received calls now).get? venue = some book) :
    ∃ call, lastCall calls venue = some call ∧ now - call.now < venue.stalenessThreshold ∧
      call.book = book := by
  rw [get?_received] at found
  obtain ⟨call, last, inside⟩ := Option.bind_eq_some_iff.mp found
  by_cases fresh : now - call.now < venue.stalenessThreshold
  · rw [if_pos fresh] at inside
    exact ⟨call, last, fresh, Option.some.inj inside⟩
  · rw [if_neg fresh] at inside
    cases inside

/-- The aggregator and its channel after calls on a fresh one, `subscribers` besides the server's
own receiver. -/
abbrev afterCalls (api : HistogramApi H) (subscribers : Nat) (calls : List Call) :
    Aggregator H × Watch :=
  (publisher api).final (Aggregator.new api, ⟨none, 0, subscribers + 1⟩) calls

theorem published_afterCalls (api : HistogramApi H) (subscribers : Nat) (calls : List Call) :
    ∃ sent, Published ⟨none, 0, subscribers + 1⟩ calls (afterCalls api subscribers calls) sent :=
  ⟨_, (published_new api rfl).run api (by simp) calls⟩

/-- After a call that gives a result, every level shown is a level of the book held for its venue;
a call that gives none leaves the channel as it was, whatever it changed in the held books. -/
theorem shown_levels_held (api : HistogramApi H) (subscribers : Nat) (calls : List Call)
    (call : Call) :
    (merge (received (calls ++ [call]) call.now) ≠ none →
      ShowsLevelsOf (heldBooks (afterCalls api subscribers (calls ++ [call])).1.venues)
        (afterCalls api subscribers (calls ++ [call])).2.value) ∧
    (merge (received (calls ++ [call]) call.now) = none →
      (afterCalls api subscribers (calls ++ [call])).2 =
        (afterCalls api subscribers calls).2) := by
  obtain ⟨sent, published⟩ := published_afterCalls api subscribers (calls ++ [call])
  constructor
  · intro result
    obtain ⟨summary, merged⟩ := Option.ne_none_iff_exists'.mp result
    have last : (summaries (calls ++ [call])).getLast? = some summary := by
      rw [summaries_concat, merged, Option.toList_some, List.getLast?_concat]
    have same := published.watched
    rw [published.lastPublished, last] at same
    intro shown value side level member
    have fromMerge := showsLevelsOf_merge merged same shown value side level member
    refine fromMerge.mono fun venue book found => ?_
    obtain ⟨held, lastOfVenue, -, rfl⟩ := get?_received_eq_some found
    rw [heldBooks, BTreeMap.get?_mapValues, published.venues venue, lastOfVenue]
    rfl
  · intro result
    obtain ⟨sentBefore, before⟩ := published_afterCalls api subscribers calls
    have nothing := mergedBy_eq before.venues call
    rw [result] at nothing
    have leaves := leaves_of_none api (afterCalls api subscribers calls).1
      (afterCalls api subscribers calls).2 call nothing
    rw [afterCalls, Machine.final_concat]
    exact leaves.tx

/-- A two-sided book, then the same venue without bids. -/
def twoSided : Call := ⟨.binance, plainBook [(8, 2)] [(9, 1)], 0, 0, 0⟩

def bidsGone : Call := ⟨.binance, plainBook [] [(9, 1)], 1, 1, 1⟩

/-- The bid of `twoSided`, as published. -/
def shownBid : Level := Level.of .binance (⟨F64.ofNat 8⟩, ⟨F64.ofNat 2⟩)

theorem merge_twoSided :
    ∃ summary, merge (received [twoSided] 0) = some summary ∧ summary.bids = [shownBid] := by
  have bids : ((merge (received [twoSided] 0)).map fun summary => summary.bids) =
      some [shownBid] := by decide +kernel
  exact Option.map_eq_some_iff.mp bids

theorem shown_levels_held_twoSided :
    ShowsLevelsOf (heldBooks (afterCalls counting 0 [twoSided]).1.venues)
      (afterCalls counting 0 [twoSided]).2.value :=
  (shown_levels_held counting 0 [] twoSided).1 (by decide +kernel)

/-- The withdrawn bid is still shown. -/
theorem withdrawn_bid_shown :
    ¬ ShowsLevelsOf (heldBooks (afterCalls counting 0 [twoSided, bidsGone]).1.venues)
      (afterCalls counting 0 [twoSided, bidsGone]).2.value := by
  intro shows
  have value : (afterCalls counting 0 [twoSided, bidsGone]).2.value =
      merge (received [twoSided] 0) := by decide +kernel
  obtain ⟨summary, merged, bids⟩ := merge_twoSided
  obtain ⟨venue, book, source, found, inside, -⟩ :=
    shows summary (value.trans merged) .bid shownBid (by simp [Side.shown, bids])
  have noBids : ((heldBooks (afterCalls counting 0 [twoSided, bidsGone]).1.venues).get? venue).any
      (fun book => !book.bids.isEmpty) = false := by
    cases venue <;> decide +kernel
  rw [found] at noBids
  have empty : book.bids = [] := by simpa using noBids
  have inBids : source ∈ book.bids := inside
  rw [empty] at inBids
  cases inBids

end Orderbook
