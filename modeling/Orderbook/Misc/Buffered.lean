import Mathlib.Data.List.Basic
import Mathlib.Tactic.Common

/-!
# Buffered readers

A source gives its items in pieces, one a read. A buffered reader asks for the next piece when its
buffer is used up, so what it reads depends on the items alone, and what it leaves in the source on
the pieces: a piece it has asked for is gone from there, also the part nobody has read. `advance`
is the reader after so many items, whatever they were read for.
-/

namespace Orderbook

namespace Buffered

variable {α : Type} {capacity : Nat}

/-- What one read gives: at least one item, and no more than the buffer holds. -/
structure Piece (α : Type) (capacity : Nat) where
  items : List α
  nonempty : items ≠ []
  fits : items.length ≤ capacity

/-- What reads give after the last piece: nothing, or an error. -/
inductive Ending where
  | closed
  | failed
  deriving DecidableEq, Repr

structure Source (α : Type) (capacity : Nat) where
  pieces : List (Piece α capacity)
  ending : Ending

/-- All that is still to come from a source. -/
def Source.items (source : Source α capacity) : List α := source.pieces.flatMap Piece.items

/-- A reader and the source it reads from. -/
structure Reader (α : Type) (capacity : Nat) where
  buffered : List α
  source : Source α capacity

/-- All that can still be read. -/
def Reader.items (reader : Reader α capacity) : List α := reader.buffered ++ reader.source.items

/-- A reader that has not read yet. -/
def Reader.new (source : Source α capacity) : Reader α capacity := ⟨[], source⟩

/-- The items up to the first that stops, that one included; all if there is none. -/
def upTo (stop : α → Bool) : List α → List α
  | [] => []
  | a :: as => if stop a then [a] else a :: upTo stop as

/-- `readUntil` with the pieces still to come and the buffer. -/
def readUntilFrom (stop : α → Bool) (ending : Ending) :
    List (Piece α capacity) → List α → Option (List α × Reader α capacity)
  | [], buffered =>
      if buffered.any stop then
        some (upTo stop buffered, ⟨buffered.drop (upTo stop buffered).length, ⟨[], ending⟩⟩)
      else
        match ending with
        | .closed => some (buffered, ⟨[], ⟨[], ending⟩⟩)
        | .failed => none
  | piece :: pieces, buffered =>
      if buffered.any stop then
        some (upTo stop buffered,
          ⟨buffered.drop (upTo stop buffered).length, ⟨piece :: pieces, ending⟩⟩)
      else
        (readUntilFrom stop ending pieces piece.items).map fun read =>
          (buffered ++ read.1, read.2)

/-- Reads up to an item that stops or to the end; none if a read fails. -/
def Reader.readUntil (stop : α → Bool) (reader : Reader α capacity) :
    Option (List α × Reader α capacity) :=
  readUntilFrom stop reader.source.ending reader.source.pieces reader.buffered

/-- `advance` with the pieces still to come and the buffer. -/
def advanceFrom (ending : Ending) :
    List (Piece α capacity) → List α → Nat → Reader α capacity
  | [], buffered, n => ⟨buffered.drop n, ⟨[], ending⟩⟩
  | piece :: pieces, buffered, n =>
      if n ≤ buffered.length then ⟨buffered.drop n, ⟨piece :: pieces, ending⟩⟩
      else advanceFrom ending pieces piece.items (n - buffered.length)

/-- The reader once `n` more items are read. -/
def Reader.advance (reader : Reader α capacity) (n : Nat) : Reader α capacity :=
  advanceFrom reader.source.ending reader.source.pieces reader.buffered n

/-! ## Lines -/

theorem upTo_initial (stop : α → Bool) (items : List α) : upTo stop items <+: items := by
  induction items with
  | nil => exact List.prefix_rfl
  | cons a as ih =>
    rw [upTo]
    split
    · exact ⟨as, rfl⟩
    · exact (List.cons_prefix_cons).mpr ⟨rfl, ih⟩

theorem upTo_eq_nil_iff {stop : α → Bool} {items : List α} : upTo stop items = [] ↔ items = [] := by
  cases items with
  | nil => simp [upTo]
  | cons a as =>
    rw [upTo]
    split <;> simp

theorem upTo_of_none {stop : α → Bool} {items : List α} (none : items.any stop = false) :
    upTo stop items = items := by
  induction items with
  | nil => rfl
  | cons a as ih =>
    simp only [List.any_cons, Bool.or_eq_false_iff] at none
    rw [upTo, none.1, if_neg Bool.false_ne_true, ih none.2]

theorem upTo_append_of_any {stop : α → Bool} {items : List α} (some : items.any stop = true)
    (more : List α) : upTo stop (items ++ more) = upTo stop items := by
  induction items with
  | nil => cases some
  | cons a as ih =>
    rw [List.cons_append, upTo, upTo]
    cases stopped : stop a with
    | true => rfl
    | false =>
      rw [List.any_cons, stopped, Bool.false_or] at some
      rw [if_neg Bool.false_ne_true, if_neg Bool.false_ne_true, ih some]

theorem upTo_append_of_none {stop : α → Bool} {items : List α} (none : items.any stop = false)
    (more : List α) : upTo stop (items ++ more) = items ++ upTo stop more := by
  induction items with
  | nil => rfl
  | cons a as ih =>
    simp only [List.any_cons, Bool.or_eq_false_iff] at none
    rw [List.cons_append, upTo, none.1, if_neg Bool.false_ne_true, ih none.2, List.cons_append]

/-- Only the last item of a line stops. -/
theorem length_of_stop {stop : α → Bool} {items front : List α} {a : α}
    (within : front ++ [a] <+: upTo stop items) (stopped : stop a = true) :
    front ++ [a] = upTo stop items := by
  induction items generalizing front with
  | nil => simp [upTo] at within
  | cons b bs ih =>
    rw [upTo] at within ⊢
    split at within
    · rename_i here
      rw [if_pos here]
      have short := within.length_le
      exact within.eq_of_length_le (by simp at short ⊢)
    · rename_i goesOn
      rw [if_neg goesOn]
      cases front with
      | nil =>
        obtain ⟨rfl, -⟩ := (List.cons_prefix_cons).mp within
        exact absurd stopped goesOn
      | cons c cs =>
        obtain ⟨rfl, inside⟩ := (List.cons_prefix_cons).mp within
        rw [List.cons_append, ih inside]

/-! ## Advancing -/

theorem items_advance (reader : Reader α capacity) (n : Nat) :
    (reader.advance n).items = reader.items.drop n := by
  obtain ⟨buffered, pieces, ending⟩ := reader
  show (advanceFrom ending pieces buffered n).items =
    (buffered ++ pieces.flatMap Piece.items).drop n
  induction pieces generalizing buffered n with
  | nil => simp [advanceFrom, Reader.items, Source.items]
  | cons piece pieces ih =>
    rw [advanceFrom]
    split
    · rename_i within
      rw [List.drop_append_of_le_length within]
      rfl
    · rename_i past
      have beyond : n = buffered.length + (n - buffered.length) := by omega
      rw [ih, List.flatMap_cons]
      conv_rhs => rw [beyond, List.drop_length_add_append]

theorem advance_advance (reader : Reader α capacity) (m n : Nat) :
    (reader.advance m).advance n = reader.advance (m + n) := by
  obtain ⟨buffered, pieces, ending⟩ := reader
  show (advanceFrom ending pieces buffered m).advance n = advanceFrom ending pieces buffered (m + n)
  induction pieces generalizing buffered m with
  | nil => simp [advanceFrom, Reader.advance]
  | cons piece pieces ih =>
    by_cases within : m ≤ buffered.length
    · rw [advanceFrom, if_pos within, Reader.advance, advanceFrom, advanceFrom, List.length_drop,
        List.drop_drop]
      by_cases both : m + n ≤ buffered.length
      · rw [if_pos both, if_pos (by omega)]
      · rw [if_neg both, if_neg (by omega)]
        congr 1
        omega
    · rw [advanceFrom, if_neg within, ih, advanceFrom, if_neg (by omega)]
      congr 1
      omega

theorem ending_advance (reader : Reader α capacity) (n : Nat) :
    (reader.advance n).source.ending = reader.source.ending := by
  obtain ⟨buffered, pieces, ending⟩ := reader
  show (advanceFrom ending pieces buffered n).source.ending = ending
  induction pieces generalizing buffered n with
  | nil => rfl
  | cons piece pieces ih =>
    rw [advanceFrom]
    split
    · rfl
    · exact ih _ _

/-- Nothing stays in the buffer exactly if the reader stops where a piece ends. -/
theorem buffered_advance_iff {buffered : List α} {pieces : List (Piece α capacity)}
    {ending : Ending}
    {n : Nat} (bound : n ≤ (buffered ++ pieces.flatMap Piece.items).length) :
    (advanceFrom ending pieces buffered n).buffered = [] ↔
      ∃ k, n = buffered.length + ((pieces.take k).flatMap Piece.items).length := by
  induction pieces generalizing buffered n with
  | nil =>
    simp only [List.flatMap_nil, List.append_nil] at bound
    simp only [advanceFrom, List.drop_eq_nil_iff, List.take_nil, List.flatMap_nil, List.length_nil,
      Nat.add_zero, exists_const]
    omega
  | cons piece pieces ih =>
    have some : 0 < piece.items.length := List.length_pos_of_ne_nil piece.nonempty
    rw [advanceFrom]
    split
    · rename_i within
      rw [List.drop_eq_nil_iff]
      constructor
      · intro past
        exact ⟨0, by simp; omega⟩
      · rintro ⟨k, same⟩
        omega
    · rename_i past
      rw [List.flatMap_cons, List.length_append] at bound
      rw [ih (by omega)]
      constructor
      · rintro ⟨k, same⟩
        refine ⟨k + 1, ?_⟩
        rw [List.take_succ_cons, List.flatMap_cons, List.length_append]
        omega
      · rintro ⟨k, same⟩
        cases k with
        | zero =>
          simp only [List.take_zero, List.flatMap_nil, List.length_nil] at same
          omega
        | succ k =>
          rw [List.take_succ_cons, List.flatMap_cons, List.length_append] at same
          exact ⟨k, by omega⟩

/-! ## Reading -/

/-- A read gives the next line and moves on by it. It fails only where the source does before a
line is complete. -/
theorem readUntil_eq (stop : α → Bool) (reader : Reader α capacity) :
    reader.readUntil stop =
      if reader.items.any stop = true ∨ reader.source.ending = .closed then
        some (upTo stop reader.items, reader.advance (upTo stop reader.items).length)
      else none := by
  obtain ⟨buffered, pieces, ending⟩ := reader
  show readUntilFrom stop ending pieces buffered =
    if (buffered ++ pieces.flatMap Piece.items).any stop = true ∨ ending = .closed then
      some (upTo stop (buffered ++ pieces.flatMap Piece.items),
        advanceFrom ending pieces buffered
          (upTo stop (buffered ++ pieces.flatMap Piece.items)).length)
    else none
  induction pieces generalizing buffered with
  | nil =>
    rw [List.flatMap_nil, List.append_nil]
    cases here : buffered.any stop with
    | true => cases ending <;> simp [readUntilFrom, advanceFrom, here]
    | false =>
      rw [upTo_of_none here]
      cases ending <;> simp [readUntilFrom, advanceFrom, here]
  | cons piece pieces ih =>
    rw [readUntilFrom]
    cases here : buffered.any stop with
    | true =>
      have short : (upTo stop buffered).length ≤ buffered.length := (upTo_initial _ _).length_le
      rw [List.any_append, here, upTo_append_of_any here, advanceFrom, if_pos short]
      simp
    | false =>
      have past : piece.items ≠ [] := piece.nonempty
      rw [List.any_append, here, upTo_append_of_none here, Bool.false_or, List.flatMap_cons,
        if_neg Bool.false_ne_true, ih]
      split
      · have longer : ¬ buffered.length + (upTo stop (piece.items ++
            pieces.flatMap Piece.items)).length ≤ buffered.length := by
          have some : upTo stop (piece.items ++ pieces.flatMap Piece.items) ≠ [] := by
            rw [Ne, upTo_eq_nil_iff]
            simp [past]
          have := List.length_pos_of_ne_nil some
          omega
        rw [List.length_append, advanceFrom, if_neg longer, Nat.add_sub_cancel_left]
        rfl
      · rfl

theorem readUntil_eq_some {stop : α → Bool} {reader rest : Reader α capacity} {line : List α}
    (read : reader.readUntil stop = some (line, rest)) :
    line = upTo stop reader.items ∧ rest = reader.advance line.length ∧
      (reader.items.any stop = true ∨ reader.source.ending = .closed) := by
  rw [readUntil_eq] at read
  split at read
  · rename_i ends
    obtain ⟨rfl, rfl⟩ := Prod.mk.inj (Option.some.inj read)
    exact ⟨rfl, rfl, ends⟩
  · cases read

theorem readUntil_eq_none {stop : α → Bool} {reader : Reader α capacity}
    (failed : reader.readUntil stop = none) :
    reader.items.any stop = false ∧ reader.source.ending = .failed := by
  rw [readUntil_eq] at failed
  split at failed
  · cases failed
  · rename_i ends
    rw [not_or, Bool.not_eq_true] at ends
    refine ⟨ends.1, ?_⟩
    cases ending : reader.source.ending with
    | closed => exact absurd ending ends.2
    | failed => rfl

/-- A read that gives anything leaves less. -/
theorem length_items_of_readUntil {stop : α → Bool} {reader rest : Reader α capacity}
    {line : List α} (read : reader.readUntil stop = some (line, rest)) (some : line ≠ []) :
    rest.items.length < reader.items.length := by
  obtain ⟨isLine, rfl, -⟩ := readUntil_eq_some read
  have positive := List.length_pos_of_ne_nil some
  have within : line.length ≤ reader.items.length := by
    rw [isLine]
    exact (upTo_initial stop reader.items).length_le
  rw [items_advance, List.length_drop]
  omega

end Buffered

end Orderbook
