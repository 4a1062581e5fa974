import Mathlib.Data.List.Induction
import Mathlib.Tactic.Common

/-!
# Cutting a stream into windows

A stream is cut at the items that close a window. `windows` gives the closed windows in order and
the open one after the last closing item; together they hold every other item once
(`windows_flatten`).
-/

namespace Orderbook

namespace Windows

variable {α : Type*} {closes : α → Bool}

/-- One more item: it closes the open window or enters it. -/
def push (closes : α → Bool) (cut : List (List α) × List α) (a : α) : List (List α) × List α :=
  if closes a then (cut.1 ++ [cut.2], []) else (cut.1, cut.2 ++ [a])

/-- The closed windows and the open one. -/
def windows (closes : α → Bool) (l : List α) : List (List α) × List α :=
  l.foldl (push closes) ([], [])

theorem windows_concat (l : List α) (a : α) :
    windows closes (l ++ [a]) = push closes (windows closes l) a := by
  simp [windows]

theorem windows_concat_of_closes {a : α} (closing : closes a = true) (l : List α) :
    windows closes (l ++ [a]) = ((windows closes l).1 ++ [(windows closes l).2], []) := by
  rw [windows_concat, push, if_pos closing]

theorem windows_concat_of_not {a : α} (inside : closes a = false) (l : List α) :
    windows closes (l ++ [a]) = ((windows closes l).1, (windows closes l).2 ++ [a]) := by
  rw [windows_concat, push, inside]
  rfl

/-- The windows hold every item that does not close one, in order and once. -/
theorem windows_flatten (l : List α) :
    (windows closes l).1.flatten ++ (windows closes l).2 = l.filter fun a => !closes a := by
  induction l using List.reverseRecOn with
  | nil => rfl
  | append_singleton l a ih =>
    rw [List.filter_append, ← ih]
    cases closing : closes a with
    | true =>
      rw [windows_concat_of_closes closing]
      simp [closing]
    | false =>
      rw [windows_concat_of_not closing]
      simp [closing]

end Windows

end Orderbook
