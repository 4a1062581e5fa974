import Mathlib.Data.List.Basic
import Mathlib.Tactic.Common

/-!
# Texts by lines

The lines of a text whose last line is ended too, and texts put together of pieces that end theirs.
-/

namespace Orderbook

namespace Lines

/-- The lines of a text, each ended by a newline. -/
def lines (text : List Char) : List (List Char) := (text.splitOn '\n').dropLast

/-- A text whose last line is ended. -/
def Ended (text : List Char) : Prop := ∃ body, text = body ++ ['\n']

theorem lines_append (text more : List Char) :
    lines (text ++ '\n' :: more) = text.splitOn '\n' ++ lines more := by
  rw [lines, List.splitOn_append_cons_self,
    List.dropLast_append_of_ne_nil (List.splitOn_ne_nil '\n' more)]
  rfl

theorem lines_ended (body : List Char) : lines (body ++ ['\n']) = body.splitOn '\n' := by
  rw [lines_append]
  exact List.append_nil _

/-- One line. -/
theorem lines_singleton {body : List Char} (single : '\n' ∉ body) :
    lines (body ++ ['\n']) = [body] := by
  rw [lines_ended, List.splitOn_eq_singleton single]

/-- A newline inside makes the first line shorter than the text. -/
theorem short_line {body : List Char} (broken : '\n' ∈ body) :
    ∃ line ∈ lines (body ++ ['\n']), line.length < body.length := by
  obtain ⟨line, rest, rfl, first⟩ := List.eq_append_cons_of_mem broken
  refine ⟨line, ?_, ?_⟩
  · rw [lines_ended, List.splitOn_append_cons_self_of_not_mem first]
    exact List.mem_cons_self
  · rw [List.length_append, List.length_cons]
    omega

/-- The lines of pieces put together are the lines of the pieces. -/
theorem lines_flatten {pieces : List (List Char)} (ended : ∀ piece ∈ pieces, Ended piece) :
    lines pieces.flatten = pieces.flatMap lines := by
  induction pieces with
  | nil => rfl
  | cons piece pieces ih =>
    rw [List.forall_mem_cons] at ended
    obtain ⟨body, rfl⟩ := ended.1
    rw [List.flatten_cons, List.flatMap_cons, ← ih ended.2, List.append_assoc,
      List.singleton_append, lines_append, lines_ended]

theorem forall_lines_flatten {pieces : List (List Char)} (ended : ∀ piece ∈ pieces, Ended piece)
    {P : List Char → Prop} :
    (∀ line ∈ lines pieces.flatten, P line) ↔ ∀ piece ∈ pieces, ∀ line ∈ lines piece, P line := by
  rw [lines_flatten ended]
  simp only [List.mem_flatMap]
  refine ⟨?_, ?_⟩
  · intro all piece member line inside
    exact all line ⟨piece, member, inside⟩
  · rintro all line ⟨piece, member, inside⟩
    exact all piece member line inside

variable {α : Type}

theorem length_flatten_le {xs ys : List (List α)}
    (le : List.Forall₂ (fun x y => x.length ≤ y.length) xs ys) :
    xs.flatten.length ≤ ys.flatten.length := by
  induction le with
  | nil => exact Nat.le_refl _
  | cons first _ ih =>
    rw [List.flatten_cons, List.flatten_cons, List.length_append, List.length_append]
    omega

/-- Pieces none of which is longer than its partner are the same when they are the same put
together. -/
theorem flatten_inj_of_length_le {xs ys : List (List α)}
    (le : List.Forall₂ (fun x y => x.length ≤ y.length) xs ys) (same : xs.flatten = ys.flatten) :
    xs = ys := by
  induction le with
  | nil => rfl
  | @cons x y xs ys first rest ih =>
    rw [List.flatten_cons, List.flatten_cons] at same
    have total := congrArg List.length same
    rw [List.length_append, List.length_append] at total
    have tails := length_flatten_le rest
    obtain ⟨heads, later⟩ := List.append_inj same (by omega)
    rw [heads, ih later]

/-- An element moves through a list only of itself. -/
theorem eq_of_mem_of_cons_eq_concat {a : α} {xs : List α} (same : a :: xs = xs ++ [a]) :
    ∀ x ∈ xs, x = a := by
  induction xs with
  | nil => exact fun x member => absurd member List.not_mem_nil
  | cons b xs ih =>
    obtain ⟨rfl, rest⟩ := List.cons.inj same
    rw [List.forall_mem_cons]
    exact ⟨rfl, ih rest⟩

end Lines

end Orderbook
