import Mathlib.Algebra.Order.Field.Basic
import Mathlib.Algebra.Order.Ring.Rat
import Mathlib.Tactic.Linarith
import Mathlib.Tactic.Ring

/-!
# Counting points by their spacing

Points that keep a minimum distance are few in any window (`length_le_of_separated`). Where the
distance between neighbours varies but a potential pays for the short ones, the points moved by
their potentials keep it, and a window holds as many as a window longer by the potential's bound
(`count_window_le`). `Paced` builds such points one at a time.
-/

namespace Orderbook

namespace Spacing

variable {K : Type*} [Field K] [LinearOrder K] [IsStrictOrderedRing K]

/-- In order, each point at least `gap` after the ones before it. -/
def Separated (gap : K) (points : List K) : Prop := points.Pairwise fun x y => x + gap ≤ y

/-- Separated points between two bounds span all their gaps. -/
theorem length_le_of_separated {gap low high : K} {points : List K}
    (separated : Separated gap points) (within : ∀ x ∈ points, low ≤ x ∧ x ≤ high)
    (room : low ≤ high + gap) : points.length * gap ≤ high - low + gap := by
  induction points generalizing low with
  | nil =>
    simp only [List.length_nil, Nat.cast_zero, zero_mul]
    linarith
  | cons x points ih =>
    obtain ⟨first, rest⟩ := List.pairwise_cons.mp separated
    obtain ⟨above, below⟩ := within x (by simp)
    have later := ih rest
      (fun y member => ⟨first y member, (within y (by simp [member])).2⟩) (by linarith)
    rw [List.length_cons, Nat.cast_succ, add_mul, one_mul]
    linarith

/-- Times whose neighbours are at least `gap` apart up to what a potential between 0 and `slack`
pays: at most `(length + slack) / gap + 1` of them lie in a window. The points are the times moved
by their potentials. -/
theorem count_window_le {gap slack : K} (positive : 0 < gap) (slackNonneg : 0 ≤ slack)
    {points : List (K × K)} (separated : Separated gap (points.map fun p => p.1 + p.2))
    (bounded : ∀ p ∈ points, 0 ≤ p.2 ∧ p.2 ≤ slack) (start length : K) (nonneg : 0 ≤ length) :
    ((points.map Prod.fst).filter fun t => start ≤ t ∧ t ≤ start + length).length * gap ≤
      length + slack + gap := by
  have inside : ∀ x ∈ (points.filter fun p => start ≤ p.1 ∧ p.1 ≤ start + length).map
      (fun p => p.1 + p.2), start ≤ x ∧ x ≤ start + length + slack := by
    intro x member
    obtain ⟨p, kept, rfl⟩ := List.mem_map.mp member
    obtain ⟨fromRun, window⟩ := List.mem_filter.mp kept
    obtain ⟨low, high⟩ := of_decide_eq_true window
    obtain ⟨potentialLow, potentialHigh⟩ := bounded p fromRun
    constructor
    · linarith
    · linarith
  have apart : Separated gap ((points.filter fun p =>
      start ≤ p.1 ∧ p.1 ≤ start + length).map fun p => p.1 + p.2) :=
    separated.sublist (List.filter_sublist.map _)
  have spanned := length_le_of_separated apart inside (by linarith)
  rw [List.length_map] at spanned
  rw [List.filter_map, List.length_map]
  have same :
      (points.filter ((fun t => decide (start ≤ t ∧ t ≤ start + length)) ∘ Prod.fst)).length =
      (points.filter fun p => start ≤ p.1 ∧ p.1 ≤ start + length).length := rfl
  rw [same]
  linarith

/-! ## Times paced by a potential -/

/-- Times, each with a potential between 0 and `slack`, that moved by their potentials keep a gap.
The second argument is where the last of them stands moved, or where the first may be measured
from. -/
inductive Paced (gap slack : K) : List K → K → Prop
  | start (front : K) : Paced gap slack [] front
  | next {times : List K} {front t potential : K} (paced : Paced gap slack times front)
      (nonneg : 0 ≤ potential) (bounded : potential ≤ slack)
      (later : front + gap ≤ t + potential) : Paced gap slack (times ++ [t]) (t + potential)

theorem Paced.points {gap slack : K} (positive : 0 ≤ gap) {times : List K} {front : K}
    (paced : Paced gap slack times front) :
    ∃ points : List (K × K), points.map Prod.fst = times ∧
      (∀ p ∈ points, 0 ≤ p.2 ∧ p.2 ≤ slack) ∧
      Separated gap (points.map fun p => p.1 + p.2) ∧ ∀ p ∈ points, p.1 + p.2 ≤ front := by
  induction paced with
  | start => exact ⟨[], rfl, by simp, List.Pairwise.nil, by simp⟩
  | @next times front t potential _ nonneg bounded later ih =>
    obtain ⟨points, rfl, within, separated, behind⟩ := ih
    refine ⟨points ++ [(t, potential)], by simp, ?_, ?_, ?_⟩
    · intro p member
      rcases List.mem_append.mp member with member | member
      · exact within p member
      · rw [List.mem_singleton.mp member]
        exact ⟨nonneg, bounded⟩
    · rw [List.map_append]
      refine List.pairwise_append.mpr ⟨separated, List.pairwise_singleton _ _, ?_⟩
      intro x member y last
      obtain ⟨p, inside, rfl⟩ := List.mem_map.mp member
      have before := behind p inside
      rw [List.mem_singleton.mp last]
      linarith
    · intro p member
      rcases List.mem_append.mp member with member | member
      · have before := behind p member
        linarith
      · rw [List.mem_singleton.mp member]

/-- At most `(length + slack) / gap + 1` paced times lie in a window. -/
theorem Paced.count_window_le {gap slack : K} (positive : 0 < gap) (slackNonneg : 0 ≤ slack)
    {times : List K} {front : K} (paced : Paced gap slack times front) (start length : K)
    (nonneg : 0 ≤ length) :
    (times.filter fun t => start ≤ t ∧ t ≤ start + length).length * gap ≤
      length + slack + gap := by
  obtain ⟨points, rfl, bounded, separated, -⟩ := paced.points positive.le
  exact Spacing.count_window_le positive slackNonneg separated bounded start length nonneg

/-- The same for the gap a rate allows and a stock it has to fill up again. -/
theorem Paced.count_window_le_of_rate {rate stock : K} (positive : 0 < rate) (stocked : 0 ≤ stock)
    {times : List K} {front : K} (paced : Paced (1 / rate) (stock / rate) times front)
    (start length : K) (nonneg : 0 ≤ length) :
    ((times.filter fun t => start ≤ t ∧ t ≤ start + length).length : K) ≤
      stock + 1 + rate * length := by
  have counted := paced.count_window_le (one_div_pos.mpr positive)
    (div_nonneg stocked positive.le) start length nonneg
  rw [mul_one_div, div_le_iff₀ positive, add_mul, add_mul, div_mul_cancel₀ _ positive.ne',
    div_mul_cancel₀ _ positive.ne'] at counted
  linarith

end Spacing

end Orderbook
