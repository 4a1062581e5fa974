import Orderbook.Misc.GreedyMerge
import Orderbook.Proofs.Merge

/-!
# What a merge keeps of its books

Whatever order the books' lists are in, a merged side is as long as there is room and there are
levels, and takes each venue's list from the front without gaps.
-/

namespace Orderbook

open StableMerge

/-- `out` takes from each venue a prefix of its list, unchanged and under its label, and is as long
as `TOP_N` and the levels allow. -/
structure Takes (venues : BTreeMap Venue Book) (side : Side) (out : List Level) : Prop where
  length : out.length =
    min TOP_N (venues.entries.map fun entry => (side.levels entry.2).length).sum
  prefixes : ∀ venue book, venues.get? venue = some book →
    ∃ taken, taken <+: side.levels book ∧
      (out.filter fun level => level.exchange = venue.display) = taken.map (Level.of venue)
  labels : ∀ level ∈ out, ∃ venue book, venues.get? venue = some book ∧
    level.exchange = venue.display

theorem total_cursors (venues : BTreeMap Venue Book) (side : Side) :
    total (cursors venues side) =
      (venues.entries.map fun entry => (side.levels entry.2).length).sum := by
  rw [total, cursors, List.map_map]
  rfl

theorem cursors_distinct (venues : BTreeMap Venue Book) (side : Side) :
    ((cursors venues side).map Prod.fst).Nodup := by
  have keys : (cursors venues side).map Prod.fst = venues.entries.map Prod.fst := by
    rw [cursors, List.map_map]
    rfl
  rw [keys]
  exact OrderedMap.keys_nodup venues.sorted

theorem mem_cursors {venues : BTreeMap Venue Book} {venue : Venue} {book : Book}
    (found : venues.get? venue = some book) (side : Side) :
    (venue, side.levels book) ∈ cursors venues side :=
  List.mem_map.mpr ⟨(venue, book), venues.mem_entries_iff.mpr found, rfl⟩

/-- The levels with a venue's label are the elements with the venue. -/
theorem filter_display (venue : Venue) (out : List (Venue × (Price × Amount))) :
    ((out.map fun level => Level.of level.1 level.2).filter fun level =>
        level.exchange = venue.display) = (ofLabel venue out).map (Level.of venue) := by
  induction out with
  | nil => rfl
  | cons level out ih =>
    obtain ⟨label, level⟩ := level
    rw [List.map_cons]
    by_cases same : label = venue
    · subst same
      rw [ofLabel_cons_self, List.filter_cons_of_pos (by simp [Level.of]), ih, List.map_cons]
    · have other : label.display ≠ venue.display :=
        fun equal => same (Venue.display_injective equal)
      rw [ofLabel_cons_of_ne same, List.filter_cons_of_neg (by simp [Level.of, other]), ih]

theorem takes_mergeSide (venues : BTreeMap Venue Book) (side : Side) :
    Takes venues side (mergeSide venues side) := by
  constructor
  · rw [mergeSide_eq, List.length_map, length_greedyMerge, total_cursors]
  · intro venue book found
    refine ⟨ofLabel venue (greedyMerge side.better TOP_N (cursors venues side)), ?_, ?_⟩
    · exact ofLabel_greedyMerge_prefix TOP_N (cursors_distinct venues side) (mem_cursors found side)
    · rw [mergeSide_eq, filter_display]
  · intro level member
    obtain ⟨venue, book, source, found, -, rfl⟩ := mem_mergeSide member
    exact ⟨venue, book, found, rfl⟩

/-- A merged side is empty only where every venue's is. -/
theorem mergeSide_eq_nil_iff {venues : BTreeMap Venue Book} {side : Side} :
    mergeSide venues side = [] ↔
      ∀ venue book, venues.get? venue = some book → side.levels book = [] := by
  rw [mergeSide_eq, List.map_eq_nil_iff, ← List.length_eq_zero_iff, length_greedyMerge]
  have none : min TOP_N (total (cursors venues side)) = 0 ↔ total (cursors venues side) = 0 := by
    rw [TOP_N]
    omega
  rw [none, total_eq_zero_iff]
  constructor
  · intro empty venue book found
    exact empty _ (mem_cursors found side)
  · rintro empty ⟨venue, list⟩ member
    obtain ⟨⟨venue', book⟩, inside, equal⟩ := List.mem_map.mp member
    simp only [Prod.mk.injEq] at equal
    obtain ⟨rfl, rfl⟩ := equal
    exact empty venue' book (venues.mem_entries_iff.mp inside)

/-! ## The loop -/

/-- One turn of the `while` loop of `merge_side`, on the levels pushed so far and the cursors;
`none` where it ends. -/
def mergeTurn (side : Side) (state : List Level × List (Venue × List (Price × Amount))) :
    Option (List Level × List (Venue × List (Price × Amount))) :=
  if state.1.length < TOP_N then
    (minBy (byFront side.better) (fronts state.2)).map fun (i, venue, level) =>
      (state.1 ++ [Level.of venue level], advance state.2 i)
  else none

/-- A number of turns, `none` where the loop ends before. -/
def mergeTurns (side : Side) :
    Nat → List Level × List (Venue × List (Price × Amount)) →
      Option (List Level × List (Venue × List (Price × Amount)))
  | 0, state => some state
  | count + 1, state => (mergeTurn side state).bind (mergeTurns side count)

/-- The loop ends when there is no more room at the latest. -/
theorem mergeTurns_ends (side : Side) (room : Nat) (out : List Level)
    (lists : List (Venue × List (Price × Amount))) (fits : out.length + room = TOP_N) :
    ∃ count ≤ room, ∃ rest,
      mergeTurns side count (out, lists) = some (out ++ mergeLoop side room lists, rest) ∧
        mergeTurn side (out ++ mergeLoop side room lists, rest) = none := by
  induction room generalizing out lists with
  | zero =>
    have full : ¬ out.length < TOP_N := by omega
    refine ⟨0, le_rfl, lists, ?_, ?_⟩
    · simp [mergeTurns, mergeLoop]
    · simp [mergeTurn, mergeLoop, full]
  | succ room ih =>
    have free : out.length < TOP_N := by omega
    cases chosen : minBy (byFront side.better) (fronts lists) with
    | none =>
      refine ⟨0, Nat.zero_le _, lists, ?_, ?_⟩
      · simp [mergeTurns, mergeLoop, chosen]
      · simp [mergeTurn, mergeLoop, chosen]
    | some front =>
      obtain ⟨i, venue, level⟩ := front
      have pushed : (out ++ [Level.of venue level]).length + room = TOP_N := by
        rw [List.length_append, List.length_singleton]
        omega
      obtain ⟨count, few, rest, turned, ended⟩ :=
        ih (out ++ [Level.of venue level]) (advance lists i) pushed
      have first : mergeTurn side (out, lists) =
          some (out ++ [Level.of venue level], advance lists i) := by
        rw [mergeTurn, if_pos free, chosen, Option.map_some]
      have loop : mergeLoop side (room + 1) lists =
          Level.of venue level :: mergeLoop side room (advance lists i) := by
        simp only [mergeLoop, chosen]
      rw [List.append_assoc, List.singleton_append, ← loop] at turned ended
      refine ⟨count + 1, by omega, rest, ?_, ended⟩
      rw [mergeTurns, first, Option.bind_some, turned]

/-- For books with lists in any order: each merged side takes prefixes of the venues' lists up to
`TOP_N` levels, its loop ends within `TOP_N` turns, and `merge` gives nothing exactly where some
side is empty in every venue. -/
theorem merge_takes_prefixes (venues : BTreeMap Venue Book) :
    (∀ side : Side, Takes venues side (mergeSide venues side) ∧
      ∃ count ≤ TOP_N, ∃ rest,
        mergeTurns side count ([], cursors venues side) = some (mergeSide venues side, rest) ∧
          mergeTurn side (mergeSide venues side, rest) = none) ∧
    (merge venues = none ↔ ∃ side : Side, ∀ venue book, venues.get? venue = some book →
      side.levels book = []) := by
  constructor
  · intro side
    exact ⟨takes_mergeSide venues side, mergeTurns_ends side TOP_N [] _ rfl⟩
  · rw [merge_eq_none_iff, mergeSide_eq_nil_iff, mergeSide_eq_nil_iff]
    constructor
    · rintro (bids | asks)
      · exact ⟨.bid, bids⟩
      · exact ⟨.ask, asks⟩
    · rintro ⟨side, empty⟩
      cases side with
      | bid => exact Or.inl empty
      | ask => exact Or.inr empty

end Orderbook
