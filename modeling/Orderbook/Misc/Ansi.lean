import Orderbook.Misc.Machine
import Mathlib.Algebra.Group.Nat.Defs

/-!
# Terminal text

How a terminal reads text with escape sequences, as a machine over its characters: the state is the
place in a sequence and the attributes in force, the output of a character outside a sequence is
that character with its attributes. A sequence is an escape, a bracket, and parameters up to a
letter; the letter `m` selects graphic renditions.
-/

namespace Orderbook

namespace Ansi

/-- The attributes of a character. A colour is an index of the 256-colour palette. -/
structure Pen where
  foreground : Option Nat
  background : Option Nat
  bold : Bool
  faint : Bool
  deriving DecidableEq, Repr

def Pen.plain : Pen := ⟨none, none, false, false⟩

/-- One rendition without parameters of its own. -/
def rendition (code : Nat) (pen : Pen) : Pen :=
  if code = 0 then Pen.plain
  else if code = 1 then { pen with bold := true }
  else if code = 2 then { pen with faint := true }
  else if code = 22 then { pen with bold := false, faint := false }
  else if 30 ≤ code ∧ code ≤ 37 then { pen with foreground := some (code - 30) }
  else if code = 39 then { pen with foreground := none }
  else if 40 ≤ code ∧ code ≤ 47 then { pen with background := some (code - 40) }
  else if code = 49 then { pen with background := none }
  else pen

/-- The renditions in order. A colour of the palette takes three codes. -/
def renditions : List Nat → Pen → Pen
  | [], pen => pen
  | 38 :: 5 :: colour :: codes, pen => renditions codes { pen with foreground := some colour }
  | 48 :: 5 :: colour :: codes, pen => renditions codes { pen with background := some colour }
  | code :: codes, pen => renditions codes (rendition code pen)

/-- The numbers of a parameter list, which semicolons separate. -/
def codesFrom : Nat → List Char → List Nat
  | n, [] => [n]
  | n, c :: cs => if c = ';' then n :: codesFrom 0 cs else codesFrom (10 * n + (c.toNat - 48)) cs

def codes (params : List Char) : List Nat := codesFrom 0 params

/-- The place in a sequence: outside, after the escape, or in the parameters read so far. -/
inductive Place where
  | ground
  | escape
  | params (read : List Char)
  deriving DecidableEq, Repr

structure Terminal where
  place : Place
  pen : Pen
  deriving DecidableEq, Repr

/-- A terminal that waits for text with these attributes. -/
def Terminal.ground (pen : Pen) : Terminal := ⟨.ground, pen⟩

def ESC : Char := '\x1b'

def machine : Machine Terminal Char (Option (Char × Pen)) := fun terminal c =>
  match terminal.place with
  | .ground =>
      if c = ESC then ({ terminal with place := .escape }, none)
      else (terminal, some (c, terminal.pen))
  | .escape =>
      ({ terminal with place := if c = '[' then .params [] else .ground }, none)
  | .params read =>
      if c.isAlpha then
        (.ground (if c = 'm' then renditions (codes read) terminal.pen else terminal.pen), none)
      else ({ terminal with place := .params (read ++ [c]) }, none)

/-- The characters outside escape sequences, with their attributes. -/
def cells (terminal : Terminal) (text : List Char) : List (Char × Pen) :=
  (machine.outputs terminal text).filterMap id

/-- The text without its escape sequences. -/
def strip (text : List Char) : List Char := (cells (.ground .plain) text).map Prod.fst

/-- Characters that show nothing themselves. -/
def isControl (c : Char) : Bool := decide (c.toNat < 32 ∨ (127 ≤ c.toNat ∧ c.toNat < 160))

/-- What a terminal shows of a text. -/
def shown (text : List Char) : List (Char × Pen) :=
  (cells (.ground .plain) text).filter fun cell => !isControl cell.1

/-! ## Reading in parts -/

@[simp] theorem cells_nil (terminal : Terminal) : cells terminal [] = [] := rfl

theorem cells_cons (terminal : Terminal) (c : Char) (text : List Char) :
    cells terminal (c :: text) =
      (machine terminal c).2.toList ++ cells (machine terminal c).1 text := by
  rw [cells, Machine.outputs_cons, List.filterMap_cons]
  cases (machine terminal c).2 <;> rfl

theorem cells_append (terminal : Terminal) (text more : List Char) :
    cells terminal (text ++ more) =
      cells terminal text ++ cells (machine.final terminal text) more := by
  rw [cells, Machine.outputs_append, List.filterMap_append]
  rfl

theorem length_cells_le (terminal : Terminal) (text : List Char) :
    (cells terminal text).length ≤ text.length := by
  induction text generalizing terminal with
  | nil => exact Nat.le_refl 0
  | cons c text ih =>
    have rest := ih (machine terminal c).1
    rw [cells_cons, List.length_append, List.length_cons]
    cases (machine terminal c).2 with
    | none =>
      rw [Option.toList_none, List.length_nil]
      omega
    | some cell =>
      rw [Option.toList_some, List.length_singleton]
      omega

theorem isControl_ESC : isControl ESC = true := by decide

theorem ne_ESC_of_printable {text : List Char} (printable : ∀ c ∈ text, isControl c = false) :
    ∀ c ∈ text, c ≠ ESC := by
  rintro c member rfl
  have control := printable ESC member
  rw [isControl_ESC] at control
  cases control

/-- Parameters that are written out. -/
theorem notAlpha_of_all {params : List Char} (all : params.all (fun c => !c.isAlpha) = true) :
    ∀ c ∈ params, c.isAlpha = false := by
  intro c member
  have here := List.all_eq_true.mp all c member
  rwa [Bool.not_eq_true'] at here

/-- Text that is written out. -/
theorem ne_ESC_of_all {text : List Char} (all : text.all (fun c => c != ESC) = true) :
    ∀ c ∈ text, c ≠ ESC :=
  fun c member => bne_iff_ne.mp (List.all_eq_true.mp all c member)

theorem machine_text {pen : Pen} {c : Char} (plain : c ≠ ESC) :
    machine (.ground pen) c = (.ground pen, some (c, pen)) := if_neg plain

theorem machine_ESC (pen : Pen) : machine (.ground pen) ESC = (⟨.escape, pen⟩, none) := rfl

theorem machine_escape (pen : Pen) (c : Char) :
    machine ⟨.escape, pen⟩ c = (⟨if c = '[' then .params [] else .ground, pen⟩, none) := rfl

theorem machine_letter (pen : Pen) (read : List Char) {c : Char} (letter : c.isAlpha = true) :
    machine ⟨.params read, pen⟩ c =
      (.ground (if c = 'm' then renditions (codes read) pen else pen), none) := if_pos letter

theorem machine_param (pen : Pen) (read : List Char) {c : Char} (param : c.isAlpha = false) :
    machine ⟨.params read, pen⟩ c = (⟨.params (read ++ [c]), pen⟩, none) := by
  rw [machine, param]
  rfl

/-- Text without an escape is read as it is. -/
theorem read_text (pen : Pen) {text : List Char} (plain : ∀ c ∈ text, c ≠ ESC) :
    cells (.ground pen) text = text.map (fun c => (c, pen)) ∧
      machine.final (.ground pen) text = .ground pen := by
  induction text with
  | nil => exact ⟨rfl, rfl⟩
  | cons c text ih =>
    rw [List.forall_mem_cons] at plain
    obtain ⟨rest, ends⟩ := ih plain.2
    rw [cells_cons, Machine.final_cons, machine_text plain.1]
    exact ⟨by rw [rest]; rfl, ends⟩

theorem read_params (pen : Pen) (read : List Char) {params : List Char}
    (inside : ∀ c ∈ params, c.isAlpha = false) :
    cells ⟨.params read, pen⟩ params = [] ∧
      machine.final ⟨.params read, pen⟩ params = ⟨.params (read ++ params), pen⟩ := by
  induction params generalizing read with
  | nil => exact ⟨rfl, by rw [List.append_nil]; rfl⟩
  | cons c params ih =>
    rw [List.forall_mem_cons] at inside
    obtain ⟨rest, ends⟩ := ih (read ++ [c]) inside.2
    rw [cells_cons, Machine.final_cons, machine_param pen read inside.1]
    refine ⟨by rw [rest]; rfl, ?_⟩
    rw [ends, List.append_assoc, List.singleton_append]

/-- A rendition sequence shows nothing and changes the attributes. -/
theorem read_renditions (pen : Pen) {params : List Char}
    (inside : ∀ c ∈ params, c.isAlpha = false) :
    cells (.ground pen) (ESC :: '[' :: (params ++ ['m'])) = [] ∧
      machine.final (.ground pen) (ESC :: '[' :: (params ++ ['m'])) =
        .ground (renditions (codes params) pen) := by
  obtain ⟨nothing, ends⟩ := read_params pen [] inside
  rw [cells_cons, machine_ESC, cells_cons, machine_escape, if_pos rfl, cells_append, nothing, ends,
    Machine.final_cons, machine_ESC, Machine.final_cons, machine_escape, if_pos rfl,
    Machine.final_append, ends]
  exact ⟨rfl, rfl⟩

/-- The end of all attributes. -/
def RESET : List Char := ESC :: '[' :: ("0".toList ++ ['m'])

theorem read_reset (pen : Pen) :
    cells (.ground pen) RESET = [] ∧ machine.final (.ground pen) RESET = .ground .plain :=
  read_renditions pen (notAlpha_of_all rfl)

/-- No escape is read as text. -/
theorem ne_ESC_of_mem_cells {terminal : Terminal} {text : List Char} {cell : Char × Pen}
    (member : cell ∈ cells terminal text) : cell.1 ≠ ESC := by
  induction text generalizing terminal with
  | nil => cases member
  | cons c text ih =>
    rw [cells_cons, List.mem_append] at member
    rcases member with here | later
    · obtain ⟨place, pen⟩ := terminal
      cases place with
      | ground =>
        by_cases escape : c = ESC
        · simp [machine, escape] at here
        · simp only [machine, escape, if_false, Option.toList_some, List.mem_singleton] at here
          rw [here]
          exact escape
      | escape => simp [machine] at here
      | params read =>
        simp only [machine] at here
        split at here <;> simp at here
    · exact ih later

/-! ## Drawing -/

/-- A terminal without attributes reads `out` as `text` and has none afterwards, and `out` breaks no
line that `text` does not break. -/
structure Draws (out text : List Char) : Prop where
  stripped : strip out = text
  reset : machine.final (.ground .plain) out = .ground .plain
  newline : '\n' ∈ out → '\n' ∈ text

theorem Draws.ne_ESC {out text : List Char} (drawn : Draws out text) : ∀ c ∈ text, c ≠ ESC := by
  intro c member
  rw [← drawn.stripped, strip, List.mem_map] at member
  obtain ⟨cell, inside, rfl⟩ := member
  exact ne_ESC_of_mem_cells inside

theorem Draws.nil : Draws [] [] := ⟨rfl, rfl, id⟩

theorem Draws.append {out out' text text' : List Char} (first : Draws out text)
    (second : Draws out' text') : Draws (out ++ out') (text ++ text') := by
  constructor
  · rw [strip, cells_append, first.reset, List.map_append, ← first.stripped, ← second.stripped]
    rfl
  · rw [Machine.final_append, first.reset, second.reset]
  · intro member
    rcases List.mem_append.mp member with before | after
    · exact List.mem_append_left text' (first.newline before)
    · exact List.mem_append_right text (second.newline after)

/-- Text without an escape draws itself. -/
theorem draws_text {text : List Char} (plain : ∀ c ∈ text, c ≠ ESC) : Draws text text := by
  obtain ⟨same, ends⟩ := read_text Pen.plain plain
  refine ⟨?_, ends, id⟩
  rw [strip, same, List.map_map]
  exact List.map_id text

/-- A rendition sequence breaks no line. -/
theorem newline_not_mem_rendition {params : List Char} (single : '\n' ∉ params) :
    '\n' ∉ ESC :: '[' :: (params ++ ['m']) := by
  have escape : '\n' ≠ ESC := by decide
  have bracket : '\n' ≠ '[' := by decide
  have letter : '\n' ≠ 'm' := by decide
  rw [List.mem_cons, List.mem_cons, List.mem_append, List.mem_singleton]
  simp only [escape, bracket, single, letter, or_self, not_false_eq_true]

/-- Text between a rendition and its reset. -/
theorem draws_rendered {params text : List Char} (inside : ∀ c ∈ params, c.isAlpha = false)
    (single : '\n' ∉ params) (plain : ∀ c ∈ text, c ≠ ESC) :
    Draws (ESC :: '[' :: (params ++ ['m']) ++ text ++ RESET) text := by
  obtain ⟨silent, opened⟩ := read_renditions Pen.plain inside
  obtain ⟨same, kept⟩ := read_text (renditions (codes params) Pen.plain) plain
  obtain ⟨nothing, reset⟩ := read_reset (renditions (codes params) Pen.plain)
  constructor
  · rw [strip, cells_append, cells_append, Machine.final_append, opened, kept, silent, same,
      nothing, List.nil_append, List.append_nil, List.map_map]
    exact List.map_id text
  · rw [Machine.final_append, Machine.final_append, opened, kept, reset]
  · intro member
    rcases List.mem_append.mp member with before | closing
    · rcases List.mem_append.mp before with opening | inside
      · exact absurd opening (newline_not_mem_rendition single)
      · exact inside
    · exact absurd closing (newline_not_mem_rendition (by decide))

theorem draws_flatten {outs texts : List (List Char)} (drawn : List.Forall₂ Draws outs texts) :
    Draws outs.flatten texts.flatten := by
  induction drawn with
  | nil => exact Draws.nil
  | cons first _ ih => exact first.append ih

/-- A separator between the parts. -/
theorem draws_intersperse {separator : List Char} (plain : ∀ c ∈ separator, c ≠ ESC)
    {outs texts : List (List Char)} (drawn : List.Forall₂ Draws outs texts) :
    Draws (outs.intersperse separator).flatten (texts.intersperse separator).flatten := by
  induction drawn with
  | nil => exact Draws.nil
  | cons first rest ih =>
    cases rest with
    | nil => exact first.append Draws.nil
    | cons second rest => exact first.append ((draws_text plain).append ih)

end Ansi

end Orderbook
