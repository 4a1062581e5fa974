import Orderbook.Aggregator
import Orderbook.Misc.Ranks
import Orderbook.Proofs.Merge

/-!
# More venues

On sorted books a merged side is the top of the stable sort of all levels, and the levels of some
venues are among the levels of more. So at each rank the merge over more venues is not worse, and
leaving out a stale venue can only lower the best bid, raise the best ask and widen the spread.
-/

namespace Orderbook

open StableMerge

/-- Every venue of `venues` has the same book in `more`. -/
def Extends (more venues : BTreeMap Venue Book) : Prop :=
  ∀ venue book, venues.get? venue = some book → more.get? venue = some book

/-- What the freshness filter leaves out makes the difference. -/
theorem extends_freshVenues (venues : BTreeMap Venue VenueState) (now : Instant) :
    Extends (venues.mapValues fun state => state.book) (freshVenues venues now) := by
  intro venue book found
  rw [freshVenues, BTreeMap.get?_mapValues, BTreeMap.get?_filter] at found
  rw [BTreeMap.get?_mapValues]
  cases held : venues.get? venue with
  | none => simp [held] at found
  | some state =>
    simp only [held, Option.map_eq_some_iff, Option.filter_eq_some_iff] at found
    obtain ⟨state', ⟨same, -⟩, rfl⟩ := found
    rw [Option.some_inj.mp same]
    rfl

theorem booksSorted_of_extends {venues more : BTreeMap Venue Book} (extended : Extends more venues)
    (sorted : BooksSorted more) : BooksSorted venues := by
  intro entry member side
  have found := extended entry.1 entry.2 (venues.mem_entries_iff.mp member)
  exact sorted entry (more.mem_entries_iff.mpr found) side

theorem allLevels_sublist {venues more : BTreeMap Venue Book} (extended : Extends more venues)
    (side : Side) : (allLevels venues side).Sublist (allLevels more side) :=
  ((BTreeMap.entries_sublist extended).map _).flatMap _

/-- The price and the amount of a shown level. -/
def Level.pair (level : Level) : Price × Amount := (⟨level.price⟩, ⟨level.amount⟩)

/-- At each rank the merged side over more venues has a level, and it is not worse. -/
theorem mergeSide_rank_of_extends {venues more : BTreeMap Venue Book}
    (extended : Extends more venues) (sorted : BooksSorted more) (side : Side) {i : Nat}
    {level : Level} (found : (mergeSide venues side)[i]? = some level) :
    ∃ other, (mergeSide more side)[i]? = some other ∧
      NotAfter side.better other.pair level.pair := by
  obtain ⟨out, outEq, top⟩ := mergeSide_isTopOf (booksSorted_of_extends extended sorted) side
  obtain ⟨out', outEq', top'⟩ := mergeSide_isTopOf sorted side
  rw [outEq, List.getElem?_map, Option.map_eq_some_iff] at found
  obtain ⟨source, atRank, rfl⟩ := found
  rw [top.stable] at atRank
  obtain ⟨source', atRank', notWorse⟩ :=
    sortBy_rank_of_subperm (allLevels_sublist extended side).subperm atRank
  rw [← top'.stable] at atRank'
  refine ⟨Level.of source'.1 source'.2, ?_, notWorse⟩
  rw [outEq', List.getElem?_map, atRank', Option.map_some]

theorem mergeSide_length_of_extends {venues more : BTreeMap Venue Book}
    (extended : Extends more venues) (sorted : BooksSorted more) (side : Side) :
    (mergeSide venues side).length ≤ (mergeSide more side).length := by
  by_contra longer
  have inside : (mergeSide more side).length < (mergeSide venues side).length := by omega
  obtain ⟨other, found, -⟩ :=
    mergeSide_rank_of_extends extended sorted side (List.getElem?_eq_getElem inside)
  rw [List.getElem?_eq_none le_rfl] at found
  cases found

/-! ## The best prices -/

/-- The best levels of a summary. -/
structure Best (summary : Summary) (bid ask : Level) : Prop where
  bid : summary.bids.head? = some bid
  ask : summary.asks.head? = some ask

/-- The difference of the best prices without rounding, in units of `2 ^ -1074`. -/
def exactSpread (bestBid bestAsk : Level) : Int :=
  bestAsk.price.signedUnits - bestBid.price.signedUnits

/-- A level that is not worse has no worse price. -/
theorem byPrice_of_better {side : Side} {a b : Price × Amount} (h : NotAfter side.better a b) :
    NotAfter side.byPrice a b := by
  have split : side.better a b = (side.byPrice a b).then (Side.byAmount a b) := rfl
  rw [NotAfter, split] at h
  rw [NotAfter]
  cases order : side.byPrice a b with
  | lt => rfl
  | eq => rfl
  | gt => simp [order] at h

theorem best_of_extends {venues more : BTreeMap Venue Book} (extended : Extends more venues)
    (sorted : BooksSorted more) (side : Side) {level : Level}
    (first : (mergeSide venues side).head? = some level) :
    ∃ other, (mergeSide more side).head? = some other ∧
      NotAfter side.byPrice other.pair level.pair := by
  rw [List.head?_eq_getElem?] at first ⊢
  obtain ⟨other, found, notWorse⟩ := mergeSide_rank_of_extends extended sorted side first
  exact ⟨other, found, byPrice_of_better notWorse⟩

/-- With more venues each merged side is at least as long and at each rank not worse. With fewer,
such as without the stale ones, the best bid is no higher, the best ask no lower and the exact
spread no narrower. -/
theorem more_venues_not_worse {venues more : BTreeMap Venue Book} (extended : Extends more venues)
    (sorted : BooksSorted more) :
    (∀ side : Side, (mergeSide venues side).length ≤ (mergeSide more side).length ∧
      ∀ (i : Nat) (level : Level), (mergeSide venues side)[i]? = some level →
        ∃ other, (mergeSide more side)[i]? = some other ∧
          NotAfter side.better other.pair level.pair) ∧
    ∀ summary, merge venues = some summary →
      ∃ bid ask fuller bid' ask', merge more = some fuller ∧ Best summary bid ask ∧
        Best fuller bid' ask' ∧ (bid.price.totalCmp bid'.price).isLE = true ∧
        (ask'.price.totalCmp ask.price).isLE = true ∧
        exactSpread bid' ask' ≤ exactSpread bid ask := by
  constructor
  · intro side
    refine ⟨mergeSide_length_of_extends extended sorted side, fun i level found => ?_⟩
    exact mergeSide_rank_of_extends extended sorted side found
  · intro summary merged
    obtain ⟨bid, ask, bidFirst, askFirst, rfl⟩ := merge_eq_some_iff.mp merged
    obtain ⟨bid', bidFirst', bidPrice⟩ := best_of_extends extended sorted .bid bidFirst
    obtain ⟨ask', askFirst', askPrice⟩ := best_of_extends extended sorted .ask askFirst
    have bidUnits := F64.signedUnits_mono (F64.isLE_totalCmp.mp bidPrice)
    have askUnits := F64.signedUnits_mono (F64.isLE_totalCmp.mp askPrice)
    refine ⟨bid, ask, _, bid', ask', merge_eq_some_iff.mpr ⟨bid', ask', bidFirst', askFirst', rfl⟩,
      ⟨bidFirst, askFirst⟩, ⟨bidFirst', askFirst'⟩, bidPrice, askPrice, ?_⟩
    show ask'.price.signedUnits - bid'.price.signedUnits ≤
      ask.price.signedUnits - bid.price.signedUnits
    simp only [Level.pair] at bidUnits askUnits
    omega

/-- Two venues, the first of them silent for two seconds. -/
def staleVenues : BTreeMap Venue VenueState :=
  (BTreeMap.empty.insert .bitstamp ⟨plainBook [(8, 2), (6, 1)] [(9, 1)], 2⟩).insert .binance
    ⟨plainBook [(7, 2)] [(10, 3), (11, 1)], 0⟩

theorem more_venues_not_worse_staleVenues :
    (mergeSide (freshVenues staleVenues 2) .ask).length = 1 ∧
      (mergeSide (freshVenues staleVenues 2) .ask).length ≤
        (mergeSide (staleVenues.mapValues fun state => state.book) .ask).length := by
  have sorted : BooksSorted (staleVenues.mapValues fun state => state.book) := by
    intro entry member side
    cases side with
    | bid =>
      revert entry
      decide +kernel
    | ask =>
      revert entry
      decide +kernel
  exact ⟨by decide +kernel,
    ((more_venues_not_worse (extends_freshVenues staleVenues 2) sorted).1 .ask).1⟩

end Orderbook
