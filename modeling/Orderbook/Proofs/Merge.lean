import Orderbook.Merge

/-!
# The merge is a stable sort

The cursor loop of `merge_side` is the greedy merge of the venues' lists. On lists in the order of
`Side::better` it gives the first `TOP_N` levels of the stable sort of all of them, so what it
leaves out is never strictly better and full ties go to the earlier venue.
-/

namespace Orderbook

open StableMerge

/-! ## The order of a side -/

/-- The price part of `Side.better`. -/
def Side.byPrice (side : Side) (a b : Price × Amount) : Ordering :=
  match side with
  | ask => a.1.cmp b.1
  | bid => b.1.cmp a.1

/-- The amount part of `Side.better`. -/
def Side.byAmount (a b : Price × Amount) : Ordering := b.2.cmp a.2

instance (side : Side) : Std.TransCmp side.byPrice where
  eq_swap {a b} := by
    cases side with
    | bid => exact @Std.OrientedCmp.eq_swap F64 F64.totalCmp _ b.1.val a.1.val
    | ask => exact @Std.OrientedCmp.eq_swap F64 F64.totalCmp _ a.1.val b.1.val
  isLE_trans {a b c} := by
    cases side with
    | bid =>
      intro first second
      exact @Std.TransCmp.isLE_trans F64 F64.totalCmp _ c.1.val b.1.val a.1.val second first
    | ask => exact @Std.TransCmp.isLE_trans F64 F64.totalCmp _ a.1.val b.1.val c.1.val

instance : Std.TransCmp Side.byAmount where
  eq_swap {a b} := @Std.OrientedCmp.eq_swap F64 F64.totalCmp _ b.2.val a.2.val
  isLE_trans {a b c} := by
    intro first second
    exact @Std.TransCmp.isLE_trans F64 F64.totalCmp _ c.2.val b.2.val a.2.val second first

instance (side : Side) : Std.TransCmp side.better :=
  inferInstanceAs (Std.TransCmp (compareLex side.byPrice Side.byAmount))

/-! ## One side -/

/-- The levels of one side of all venues, in venue order. -/
def allLevels (venues : BTreeMap Venue Book) (side : Side) : List (Venue × (Price × Amount)) :=
  labelled (cursors venues side)

/-- The books have both sides in the order of `Side.better`. -/
def BooksSorted (venues : BTreeMap Venue Book) : Prop :=
  ∀ entry ∈ venues.entries, ∀ side : Side,
    (side.levels entry.2).Pairwise (NotAfter side.better)

theorem mergeLoop_eq (side : Side) (room : Nat) (lists : List (Venue × List (Price × Amount))) :
    mergeLoop side room lists =
      (greedyMerge side.better room lists).map fun level => Level.of level.1 level.2 := by
  induction room generalizing lists with
  | zero => rfl
  | succ room ih =>
    rw [mergeLoop, greedyMerge]
    cases minBy (byFront side.better) (fronts lists) with
    | none => rfl
    | some front => simp only [ih, List.map_cons]

theorem mergeSide_eq (venues : BTreeMap Venue Book) (side : Side) :
    mergeSide venues side =
      (greedyMerge side.better TOP_N (cursors venues side)).map
        fun level => Level.of level.1 level.2 := mergeLoop_eq side TOP_N _

theorem mem_allLevels {venues : BTreeMap Venue Book} {side : Side} {venue : Venue}
    {level : Price × Amount} :
    (venue, level) ∈ allLevels venues side ↔
      ∃ book, venues.get? venue = some book ∧ level ∈ side.levels book := by
  simp only [allLevels, mem_labelled, cursors, List.mem_map, Prod.mk.injEq, Prod.exists,
    ← BTreeMap.mem_entries_iff]
  constructor
  · rintro ⟨list, ⟨venue', book, member, rfl, rfl⟩, inside⟩
    exact ⟨book, member, inside⟩
  · rintro ⟨book, member, inside⟩
    exact ⟨_, ⟨venue, book, member, rfl, rfl⟩, inside⟩

/-- Every level of a merged side is a level of that side of its venue's book. -/
theorem mem_mergeSide {venues : BTreeMap Venue Book} {side : Side} {level : Level}
    (member : level ∈ mergeSide venues side) :
    ∃ venue book source, venues.get? venue = some book ∧ source ∈ side.levels book ∧
      level = Level.of venue source := by
  rw [mergeSide_eq, List.mem_map] at member
  obtain ⟨⟨venue, source⟩, inside, rfl⟩ := member
  obtain ⟨book, found, fromBook⟩ := mem_allLevels.mp (mem_labelled_of_mem_greedyMerge inside)
  exact ⟨venue, book, source, found, fromBook, rfl⟩

/-- The labels of all levels are in venue order. -/
theorem allLevels_venues (venues : BTreeMap Venue Book) (side : Side) :
    (allLevels venues side).Pairwise (fun a b => a.1 ≤ b.1) := by
  rw [allLevels, labelled, List.pairwise_flatMap]
  constructor
  · rintro ⟨venue, list⟩ -
    rw [List.pairwise_map]
    exact List.pairwise_of_forall fun _ _ => le_rfl
  · rw [cursors, List.pairwise_map]
    refine venues.sorted.imp fun below a memberA b memberB => ?_
    obtain ⟨_, -, rfl⟩ := List.mem_map.mp memberA
    obtain ⟨_, -, rfl⟩ := List.mem_map.mp memberB
    exact le_of_lt below

/-- What it means that `out` is the top of `all` under `Side.better`: it is the first `TOP_N` of
their stable sort, it is best-first, nothing left out is strictly better than anything in it, and
a full tie goes to the earlier venue, inside it and across the cut. -/
structure IsTopOf (side : Side) (all out : List (Venue × (Price × Amount))) : Prop where
  stable : out = (sortBy (byElement side.better) all).take TOP_N
  bestFirst : out.Pairwise fun a b => NotAfter side.better a.2 b.2
  ties : out.Pairwise fun a b => side.better a.2 b.2 = .eq → a.1 ≤ b.1
  complete : ∃ omitted, all.Perm (out ++ omitted) ∧ ∀ a ∈ out, ∀ b ∈ omitted,
    side.better b.2 a.2 ≠ .lt ∧ (side.better a.2 b.2 = .eq → a.1 ≤ b.1)

theorem isTopOf_take {side : Side} {all : List (Venue × (Price × Amount))}
    (venueOrder : all.Pairwise (fun a b => a.1 ≤ b.1)) :
    IsTopOf side all ((sortBy (byElement side.better) all).take TOP_N) := by
  have stable : (sortBy (byElement side.better) all).Pairwise
      (StablyBefore (byElement side.better) fun a b => a.1 ≤ b.1) := sortBy_stable venueOrder
  have parts := List.take_append_drop TOP_N (sortBy (byElement side.better) all)
  rw [← parts] at stable
  obtain ⟨kept, -, across⟩ := List.pairwise_append.mp stable
  have tie : ∀ {a b : Venue × (Price × Amount)},
      StablyBefore (byElement side.better) (fun a b => a.1 ≤ b.1) a b →
        side.better a.2 b.2 = .eq → a.1 ≤ b.1 := by
    rintro a b (lower | ⟨-, order⟩) equal
    · rw [show side.better a.2 b.2 = .lt from lower] at equal
      cases equal
    · exact order
  refine ⟨rfl, kept.imp fun before => before.notAfter, kept.imp tie,
    (sortBy (byElement side.better) all).drop TOP_N, ?_, ?_⟩
  · rw [parts]
    exact (sortBy_perm all).symm
  · intro a inside b omitted
    have before := across a inside b omitted
    have notAfter : NotAfter side.better a.2 b.2 := before.notAfter
    exact ⟨ne_lt_of_notAfter notAfter, tie before⟩

/-- On sorted lists a merged side is the top of all levels. -/
theorem mergeSide_isTopOf {venues : BTreeMap Venue Book} (sorted : BooksSorted venues)
    (side : Side) :
    ∃ out, mergeSide venues side = out.map (fun level => Level.of level.1 level.2) ∧
      IsTopOf side (allLevels venues side) out := by
  refine ⟨_, ?_, isTopOf_take (allLevels_venues venues side)⟩
  rw [mergeSide_eq, greedyMerge_eq_take_sortBy]
  · rfl
  · intro list member
    obtain ⟨entry, inside, rfl⟩ := List.mem_map.mp member
    exact sorted entry inside side

/-! ## Both sides -/

/-- The best of all levels of a side. -/
def IsBest (side : Side) (all : List (Venue × (Price × Amount)))
    (best : Venue × (Price × Amount)) : Prop :=
  best ∈ all ∧ ∀ other ∈ all, side.better other.2 best.2 ≠ .lt

theorem IsTopOf.head {side : Side} {all out : List (Venue × (Price × Amount))}
    (top : IsTopOf side all out) {best : Venue × (Price × Amount)} (first : out.head? = some best) :
    IsBest side all best := by
  obtain ⟨omitted, perm, cut⟩ := top.complete
  have inside : best ∈ out := List.mem_of_head? first
  refine ⟨perm.mem_iff.mpr (List.mem_append_left _ inside), fun other member => ?_⟩
  rcases List.mem_append.mp (perm.mem_iff.mp member) with kept | dropped
  · cases out with
    | nil => cases first
    | cons head tail =>
      obtain rfl : head = best := Option.some.inj first
      apply ne_lt_of_notAfter
      rcases List.mem_cons.mp kept with rfl | kept
      · exact notAfter_refl _
      · exact (List.pairwise_cons.mp top.bestFirst).1 other kept
  · exact (cut best inside other dropped).1

theorem IsTopOf.eq_nil_iff {side : Side} {all out : List (Venue × (Price × Amount))}
    (top : IsTopOf side all out) : out = [] ↔ all = [] := by
  have len : (sortBy (byElement side.better) all).length = all.length :=
    (sortBy_perm all).length_eq
  rw [top.stable, List.take_eq_nil_iff, ← List.length_eq_zero_iff, ← List.length_eq_zero_iff, len]
  simp [TOP_N]

theorem merge_eq_some_iff {venues : BTreeMap Venue Book} {summary : Summary} :
    merge venues = some summary ↔
      ∃ bestBid bestAsk, (mergeSide venues .bid).head? = some bestBid ∧
        (mergeSide venues .ask).head? = some bestAsk ∧
        summary = ⟨spreadOf bestBid bestAsk, mergeSide venues .bid, mergeSide venues .ask⟩ := by
  unfold merge
  cases bid : (mergeSide venues .bid).head? with
  | none => simp [bid]
  | some bestBid =>
    cases ask : (mergeSide venues .ask).head? with
    | none => simp [bid, ask]
    | some bestAsk => simp [bid, ask, eq_comm]

theorem merge_eq_none_iff {venues : BTreeMap Venue Book} :
    merge venues = none ↔ mergeSide venues .bid = [] ∨ mergeSide venues .ask = [] := by
  unfold merge
  generalize mergeSide venues .bid = bids, mergeSide venues .ask = asks
  cases bids with
  | nil => simp
  | cons bid bids =>
    cases asks with
    | nil => simp
    | cons ask asks => simp

/-- On books sorted by `Side.better`, each merged side is the first `TOP_N` levels of the stable
sort of all the venues' levels, and the spread is between the best bid and the best ask of all. A
summary is missing only where no venue has a level on a side. -/
theorem merge_correct (venues : BTreeMap Venue Book) (sorted : BooksSorted venues) :
    (∀ side : Side, ∃ out,
      mergeSide venues side = out.map (fun level => Level.of level.1 level.2) ∧
        IsTopOf side (allLevels venues side) out) ∧
    (∀ summary, merge venues = some summary →
      summary.bids = mergeSide venues .bid ∧ summary.asks = mergeSide venues .ask ∧
      ∃ bestBid bestAsk, IsBest .bid (allLevels venues .bid) bestBid ∧
        IsBest .ask (allLevels venues .ask) bestAsk ∧
        summary.spread =
          spreadOf (Level.of bestBid.1 bestBid.2) (Level.of bestAsk.1 bestAsk.2)) ∧
    (merge venues = none ↔ allLevels venues .bid = [] ∨ allLevels venues .ask = []) := by
  obtain ⟨bids, bidsEq, bidsTop⟩ := mergeSide_isTopOf sorted .bid
  obtain ⟨asks, asksEq, asksTop⟩ := mergeSide_isTopOf sorted .ask
  refine ⟨mergeSide_isTopOf sorted, ?_, ?_⟩
  · intro summary merged
    obtain ⟨bestBid, bestAsk, bidFirst, askFirst, rfl⟩ := merge_eq_some_iff.mp merged
    rw [bidsEq, List.head?_map, Option.map_eq_some_iff] at bidFirst
    rw [asksEq, List.head?_map, Option.map_eq_some_iff] at askFirst
    obtain ⟨bid, bidHead, rfl⟩ := bidFirst
    obtain ⟨ask, askHead, rfl⟩ := askFirst
    exact ⟨rfl, rfl, bid, ask, bidsTop.head bidHead, asksTop.head askHead, rfl⟩
  · rw [merge_eq_none_iff, bidsEq, asksEq, List.map_eq_nil_iff, List.map_eq_nil_iff,
      bidsTop.eq_nil_iff, asksTop.eq_nil_iff]

/-- A book with whole prices and amounts, parsed at time 0. -/
def plainBook (bids asks : List (Nat × Nat)) : Book where
  bids := bids.map fun level => (⟨F64.ofNat level.1⟩, ⟨F64.ofNat level.2⟩)
  asks := asks.map fun level => (⟨F64.ofNat level.1⟩, ⟨F64.ofNat level.2⟩)
  lastUpdateId := 0
  parseStartedAt := 0
  parsedAt := 0

/-- Two venues that tie on their best bid. -/
def tiedVenues : BTreeMap Venue Book :=
  (BTreeMap.empty.insert .bitstamp (plainBook [(8, 2), (6, 1)] [(9, 1)])).insert .binance
    (plainBook [(8, 2), (7, 5)] [(10, 3), (11, 1)])

theorem merge_correct_tiedVenues :
    (∃ out, mergeSide tiedVenues .bid = out.map (fun level => Level.of level.1 level.2) ∧
      IsTopOf .bid (allLevels tiedVenues .bid) out) ∧
    (mergeSide tiedVenues .bid).map (fun level => level.exchange) =
      ["binance".toList, "bitstamp".toList, "binance".toList, "bitstamp".toList] := by
  have sorted : BooksSorted tiedVenues := by
    intro entry member side
    cases side with
    | bid =>
      revert entry
      decide +kernel
    | ask =>
      revert entry
      decide +kernel
  exact ⟨(merge_correct tiedVenues sorted).1 .bid, by decide +kernel⟩

end Orderbook
