import Mathlib.Tactic.Common

/-!
# Removing repeats from a stream

`dropRepeats same last l` is the stream `l` without the elements that are the same as the element
just before them, `last` standing before the first. The comparison is with the element before in
`l`, also where that one was dropped itself.
-/

namespace Orderbook

namespace Repeats

variable {α : Type*}

/-- The elements that differ from the one before them. -/
def dropRepeats (same : α → α → Bool) : Option α → List α → List α
  | _, [] => []
  | last, a :: l =>
      if last.any fun before => same before a then dropRepeats same (some a) l
      else a :: dropRepeats same (some a) l

/-- The last element of a stream that began after `last`. -/
def lastOf (last : Option α) (l : List α) : Option α := l.getLast?.or last

variable (same : α → α → Bool)

theorem lastOf_cons (last : Option α) (a : α) (l : List α) :
    lastOf last (a :: l) = lastOf (some a) l := by
  cases h : l.getLast? <;> simp [lastOf, List.getLast?_cons, h]

theorem dropRepeats_sublist (last : Option α) (l : List α) :
    (dropRepeats same last l).Sublist l := by
  induction l generalizing last with
  | nil => exact List.nil_sublist []
  | cons a l ih =>
    rw [dropRepeats]
    split
    · exact (ih (some a)).cons a
    · exact (ih (some a)).cons_cons a

theorem dropRepeats_concat (last : Option α) (l : List α) (a : α) :
    dropRepeats same last (l ++ [a]) =
      dropRepeats same last l ++
        if (lastOf last l).any fun before => same before a then [] else [a] := by
  induction l generalizing last with
  | nil => rfl
  | cons b l ih =>
    simp only [List.cons_append, dropRepeats, ih, lastOf_cons]
    split
    · rfl
    · rfl

end Repeats

end Orderbook
