import Mathlib.Data.List.Basic

/-!
# Splitting at a separator

A list before and after the last place of an element, and up to the first place of one.
-/

namespace Orderbook

namespace Split

variable {α : Type} [DecidableEq α]

/-- What is before and after the last place of an element. -/
def rsplitOnce (c : α) : List α → Option (List α × List α)
  | [] => none
  | a :: rest =>
      match rsplitOnce c rest with
      | some (before, after) => some (a :: before, after)
      | none => if a = c then some ([], rest) else none

/-- The first of the pieces between the places of an element. -/
def firstPiece (c : α) (s : List α) : List α := s.takeWhile fun a => decide (a ≠ c)

theorem rsplitOnce_eq_none_iff {c : α} {s : List α} : rsplitOnce c s = none ↔ c ∉ s := by
  induction s with
  | nil => simp [rsplitOnce]
  | cons a rest ih =>
    rw [rsplitOnce, List.mem_cons, not_or]
    cases split : rsplitOnce c rest with
    | none => simp [ih.mp split, eq_comm]
    | some parts =>
      have inside : c ∈ rest := by
        by_contra absent
        rw [ih.mpr absent] at split
        cases split
      simp [inside]

theorem rsplitOnce_eq_some_iff {c : α} {s before after : List α} :
    rsplitOnce c s = some (before, after) ↔ s = before ++ c :: after ∧ c ∉ after := by
  induction s generalizing before after with
  | nil => simp [rsplitOnce]
  | cons a rest ih =>
    rw [rsplitOnce]
    cases split : rsplitOnce c rest with
    | none =>
      have absent := rsplitOnce_eq_none_iff.mp split
      constructor
      · intro here
        simp only [Option.ite_none_right_eq_some, Option.some_inj, Prod.mk.injEq] at here
        obtain ⟨rfl, rfl, rfl⟩ := here
        exact ⟨rfl, absent⟩
      · rintro ⟨whole, absent'⟩
        cases before with
        | nil =>
          obtain ⟨rfl, rfl⟩ := List.cons.inj whole
          exact if_pos rfl
        | cons b before =>
          rw [(List.cons.inj whole).2] at absent
          simp at absent
    | some parts =>
      obtain ⟨before', after'⟩ := parts
      have there := ih.mp split
      constructor
      · intro same
        cases same
        exact ⟨by rw [there.1]; rfl, there.2⟩
      · rintro ⟨whole, absent⟩
        cases before with
        | nil =>
          obtain ⟨-, rfl⟩ := List.cons.inj whole
          rw [there.1] at absent
          simp at absent
        | cons b before =>
          obtain ⟨rfl, later⟩ := List.cons.inj whole
          have same := ih.mpr ⟨later, absent⟩
          rw [split] at same
          cases same
          rfl

/-- The first piece has no such element, and the list ends with it or goes on with that element. -/
theorem firstPiece_eq_iff {c : α} {s piece : List α} :
    firstPiece c s = piece ↔ c ∉ piece ∧ (s = piece ∨ ∃ rest, s = piece ++ c :: rest) := by
  induction s generalizing piece with
  | nil =>
    rw [firstPiece, List.takeWhile_nil, eq_comm]
    constructor
    · rintro rfl
      exact ⟨List.not_mem_nil, Or.inl rfl⟩
    · rintro ⟨-, rfl | ⟨rest, whole⟩⟩
      · rfl
      · cases piece <;> cases whole
  | cons a s ih =>
    by_cases here : a = c
    · subst here
      have next : firstPiece a (a :: s) = [] := by simp [firstPiece]
      rw [next, eq_comm]
      constructor
      · rintro rfl
        exact ⟨List.not_mem_nil, Or.inr ⟨s, rfl⟩⟩
      · rintro ⟨absent, rfl | ⟨rest, whole⟩⟩
        · exact absurd List.mem_cons_self absent
        · cases piece with
          | nil => rfl
          | cons b piece =>
            rw [(List.cons.inj whole).1] at absent
            exact absurd List.mem_cons_self absent
    · have next : firstPiece c (a :: s) = a :: firstPiece c s := by simp [firstPiece, here]
      rw [next]
      constructor
      · rintro rfl
        obtain ⟨absent, rest⟩ := ih.mp rfl
        refine ⟨List.not_mem_cons_of_ne_of_not_mem (Ne.symm here) absent, ?_⟩
        exact rest.imp (congrArg _) fun ⟨rest, whole⟩ => ⟨rest, congrArg _ whole⟩
      · rintro ⟨absent, rfl | ⟨rest, whole⟩⟩
        · rw [ih.mpr ⟨fun member => absent (List.mem_cons_of_mem _ member), Or.inl rfl⟩]
        · cases piece with
          | nil => exact absurd (List.cons.inj whole).1 here
          | cons b piece =>
            obtain ⟨rfl, later⟩ := List.cons.inj whole
            rw [ih.mpr ⟨fun member => absent (List.mem_cons_of_mem _ member), Or.inr ⟨rest, later⟩⟩]

end Split

end Orderbook
