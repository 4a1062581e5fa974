import Mathlib.Data.List.Pairwise
import Mathlib.Tactic.Common

/-!
# Walking between cuts

A sorted list of cuts, taken two at a time, divides the numbers from the first to the last into
runs: each number is in one of them, in order, and no cut lies inside a run.
-/

namespace Orderbook

namespace Cuts

/-- `windows(2)` of a slice. -/
def pairs {α : Type} (cuts : List α) : List (α × α) := cuts.zip cuts.tail

@[simp] theorem pairs_cons_cons {α : Type} (a b : α) (cuts : List α) :
    pairs (a :: b :: cuts) = (a, b) :: pairs (b :: cuts) := rfl

@[simp] theorem pairs_singleton {α : Type} (a : α) : pairs [a] = [] := rfl

/-- A run stands between two neighbours. -/
theorem split_of_mem_pairs {α : Type} {cuts : List α} {p : α × α} (member : p ∈ pairs cuts) :
    ∃ before after, cuts = before ++ p.1 :: p.2 :: after := by
  induction cuts with
  | nil => cases member
  | cons a cuts ih =>
    cases cuts with
    | nil => cases member
    | cons b cuts =>
      rw [pairs_cons_cons, List.mem_cons] at member
      rcases member with rfl | later
      · exact ⟨[], cuts, rfl⟩
      · obtain ⟨before, after, whole⟩ := ih later
        exact ⟨a :: before, after, by rw [whole]; rfl⟩

theorem mem_of_mem_pairs {α : Type} {cuts : List α} {p : α × α} (member : p ∈ pairs cuts) :
    p.1 ∈ cuts ∧ p.2 ∈ cuts := by
  have both := List.of_mem_zip (a := p.1) (b := p.2) member
  exact ⟨both.1, List.mem_of_mem_tail both.2⟩

/-- A run does not end before it starts. -/
theorem pairs_le {cuts : List Nat} (sorted : cuts.Pairwise (· ≤ ·)) {p : Nat × Nat}
    (member : p ∈ pairs cuts) : p.1 ≤ p.2 := by
  obtain ⟨before, after, rfl⟩ := split_of_mem_pairs member
  obtain ⟨-, later, -⟩ := List.pairwise_append.mp sorted
  exact (List.pairwise_cons.mp later).1 p.2 List.mem_cons_self

/-- No cut lies inside a run. -/
theorem not_inside {cuts : List Nat} (sorted : cuts.Pairwise (· ≤ ·)) {p : Nat × Nat}
    (member : p ∈ pairs cuts) {k : Nat} (cut : k ∈ cuts) : p.2 ≤ k ∨ k ≤ p.1 := by
  obtain ⟨before, after, rfl⟩ := split_of_mem_pairs member
  obtain ⟨-, later, apart⟩ := List.pairwise_append.mp sorted
  rcases List.mem_append.mp cut with earlier | inLater
  · right
    exact apart k earlier p.1 List.mem_cons_self
  · rcases List.mem_cons.mp inLater with rfl | inLater
    · exact Or.inr (Nat.le_refl _)
    · left
      rcases List.mem_cons.mp inLater with rfl | inLast
      · exact Nat.le_refl _
      · exact (List.pairwise_cons.mp (List.pairwise_cons.mp later).2).1 k inLast

/-- A sorted list starts at its least cut. -/
theorem head_of_least {cuts : List Nat} (sorted : cuts.Pairwise (· ≤ ·)) {least : Nat}
    (member : least ∈ cuts) (below : ∀ k ∈ cuts, least ≤ k) : ∃ rest, cuts = least :: rest := by
  cases cuts with
  | nil => cases member
  | cons a rest =>
    rw [List.pairwise_cons] at sorted
    have le : a ≤ least := by
      rcases List.mem_cons.mp member with rfl | later
      · exact Nat.le_refl _
      · exact sorted.1 least later
    have same : a = least := Nat.le_antisymm le (below a List.mem_cons_self)
    exact ⟨rest, by rw [same]⟩

/-- A sorted list ends at its greatest cut. -/
theorem getLast_of_greatest {a : Nat} {cuts : List Nat} (sorted : (a :: cuts).Pairwise (· ≤ ·))
    {greatest : Nat} (member : greatest ∈ a :: cuts) (above : ∀ k ∈ a :: cuts, k ≤ greatest) :
    (a :: cuts).getLast (List.cons_ne_nil a cuts) = greatest := by
  induction cuts generalizing a with
  | nil => exact (List.mem_singleton.mp member).symm
  | cons b cuts ih =>
    rw [List.getLast_cons (List.cons_ne_nil b cuts)]
    rw [List.pairwise_cons] at sorted
    apply ih sorted.2
    · rcases List.mem_cons.mp member with rfl | later
      · have le := sorted.1 b List.mem_cons_self
        have ge := above b (List.mem_cons_of_mem _ List.mem_cons_self)
        rw [Nat.le_antisymm le ge]
        exact List.mem_cons_self
      · exact later
    · exact fun k inside => above k (List.mem_cons_of_mem _ inside)

end Cuts

end Orderbook
