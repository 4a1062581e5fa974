import Orderbook.Client
import Orderbook.Misc.Ansi

/-!
# What a shaded cell shows

`shade_cell` walks between sorted boundaries and starts each run with the attributes of its first
column. No boundary lies inside a run, so they are right for all of its columns.
-/

namespace Orderbook

namespace Client

open Ansi Cuts

/-! ## Attributes -/

/-- The foreground code the side's cells are drawn with. -/
def priceFg : Side → Text
  | .bid => "32".toList
  | .ask => "31".toList

/-- The background code of the side's bars. -/
def barBg : Side → Text
  | .bid => BAR_BG_BID
  | .ask => BAR_BG_ASK

/-- The colour of `priceFg`. -/
def priceColour : Side → Nat
  | .bid => 2
  | .ask => 1

/-- The colour of `barBg`. -/
def barColour : Side → Nat
  | .bid => 22
  | .ask => 52

/-- The attributes of a column: the price's colour, faint from the label on, over the bar's
background inside the bar. -/
def penAt (side : Side) (bar : Nat × Nat) (column : Nat) : Pen where
  foreground := some (priceColour side)
  background := if bar.1 ≤ column ∧ column < bar.2 then some (barColour side) else none
  bold := false
  faint := decide (CELL_FG_SPLIT ≤ column)

/-- The attributes in force before a column is written. -/
def penBefore (side : Side) (bar : Nat × Nat) : Nat → Pen
  | 0 => Pen.plain
  | column + 1 => penAt side bar column

/-- Characters from a column on, with their attributes. -/
def painted (side : Side) (bar : Nat × Nat) (start : Nat) (chars : Text) : List (Char × Pen) :=
  (chars.zipIdx start).map fun cell => (cell.1, penAt side bar cell.2)

/-! ## Runs -/

/-- The codes a run starts with. -/
def runCodes (side : Side) (bar : Nat × Nat) (start : Nat) : Text :=
  (if start < CELL_FG_SPLIT then priceFg side else "2".toList) ++ ";".toList ++
    (if bar.1 ≤ start ∧ start < bar.2 then barBg side else "49".toList)

theorem runCodes_inside (side : Side) (bar : Nat × Nat) (start : Nat) :
    ∀ c ∈ runCodes side bar start, c.isAlpha = false := by
  unfold runCodes
  cases side <;> split <;> split <;> exact notAlpha_of_all rfl

theorem newline_not_mem_runCodes (side : Side) (bar : Nat × Nat) (start : Nat) :
    '\n' ∉ runCodes side bar start := by
  unfold runCodes
  cases side <;> split <;> split <;> decide

/-- In the price's region they set both colours. -/
theorem renditions_price (side : Side) (pen : Pen) (inBar : Prop) [Decidable inBar] :
    renditions (codes (priceFg side ++ ";".toList ++ if inBar then barBg side else "49".toList))
      pen =
      { pen with
        foreground := some (priceColour side)
        background := if inBar then some (barColour side) else none } := by
  cases side <;> by_cases inside : inBar <;> simp only [inside, if_true, if_false] <;> rfl

/-- From the label on they keep the foreground's colour. -/
theorem renditions_label (side : Side) (pen : Pen) (inBar : Prop) [Decidable inBar] :
    renditions (codes ("2".toList ++ ";".toList ++ if inBar then barBg side else "49".toList))
      pen =
      { pen with
        background := if inBar then some (barColour side) else none
        faint := true } := by
  cases side <;> by_cases inside : inBar <;> simp only [inside, if_true, if_false] <;> rfl

/-- They set the attributes of the first column, whatever was written before it. -/
theorem renditions_runCodes (side : Side) (bar : Nat × Nat) (start : Nat) :
    renditions (codes (runCodes side bar start)) (penBefore side bar start) =
      penAt side bar start := by
  unfold runCodes
  by_cases price : start < CELL_FG_SPLIT
  · have bright : decide (CELL_FG_SPLIT ≤ start) = false := decide_eq_false (by omega)
    rw [if_pos price, renditions_price, penAt, bright]
    cases start with
    | zero => rfl
    | succ column =>
      have before : decide (CELL_FG_SPLIT ≤ column) = false := decide_eq_false (by omega)
      rw [penBefore, penAt, before]
  · have faint : decide (CELL_FG_SPLIT ≤ start) = true := decide_eq_true (by omega)
    rw [if_neg price, renditions_label, penAt, faint]
    cases start with
    | zero => exact absurd (by decide) price
    | succ column => rfl

theorem painted_append (side : Side) (bar : Nat × Nat) (start : Nat) (chars more : Text) :
    painted side bar start (chars ++ more) =
      painted side bar start chars ++ painted side bar (start + chars.length) more := by
  rw [painted, List.zipIdx_append, List.map_append]
  rfl

theorem map_fst_painted (side : Side) (bar : Nat × Nat) (start : Nat) (chars : Text) :
    (painted side bar start chars).map Prod.fst = chars := by
  rw [painted, List.map_map]
  exact List.zipIdx_map_fst start chars

/-- Columns with the same attributes take one run. -/
theorem painted_of_same {side : Side} {bar : Nat × Nat} {start : Nat} {chars : Text} {pen : Pen}
    (same : ∀ k, start ≤ k → k < start + chars.length → penAt side bar k = pen) :
    painted side bar start chars = chars.map fun c => (c, pen) := by
  induction chars generalizing start with
  | nil => rfl
  | cons c chars ih =>
    rw [List.length_cons] at same
    have first : penAt side bar start = pen := same start (by omega) (by omega)
    have rest : painted side bar (start + 1) chars = chars.map fun c => (c, pen) :=
      ih fun k low high => same k (by omega) (by omega)
    rw [← List.singleton_append, painted_append, List.map_append, ← rest, ← first]
    rfl

/-- The text of the columns from `start` to before `stop`. -/
def piece (chars : Text) (start stop : Nat) : Text := (chars.drop start).take (stop - start)

theorem length_piece {chars : Text} {start stop : Nat} (fits : stop ≤ chars.length) :
    (piece chars start stop).length = stop - start := by
  rw [piece, List.length_take, List.length_drop]
  omega

theorem piece_append (chars : Text) {start middle stop : Nat} (le : start ≤ middle)
    (le' : middle ≤ stop) :
    piece chars start middle ++ piece chars middle stop = piece chars start stop := by
  have width : stop - start = (middle - start) + (stop - middle) := by omega
  have column : middle = start + (middle - start) := by omega
  rw [piece, piece, piece, width, List.take_add, List.drop_drop, ← column]

theorem mem_take_of_mem_piece {chars : Text} {start stop width : Nat} (le : stop ≤ width) {c : Char}
    (member : c ∈ piece chars start stop) : c ∈ chars.take width := by
  have inside : piece chars start stop = ((chars.take width).drop start).take (stop - start) := by
    rw [piece, List.drop_take, List.take_take, Nat.min_eq_left (by omega)]
  rw [inside] at member
  exact List.mem_of_mem_drop (List.mem_of_mem_take member)

/-- What the loop writes for a run. -/
def runText (side : Side) (bar : Nat × Nat) (chars : Text) (run : Nat × Nat) : Text :=
  if run.1 = run.2 then []
  else ESC :: '[' :: (runCodes side bar run.1 ++ ['m']) ++ piece chars run.1 run.2

/-- The loop reaches its end when no run leaves the text. -/
theorem shadeRuns_eq (side : Side) (bar : Nat × Nat) (chars : Text) {runs : List (Nat × Nat)}
    (fits : ∀ run ∈ runs, run.1 ≤ run.2 ∧ run.2 ≤ chars.length) :
    shadeRuns chars (priceFg side) (barBg side) bar runs =
      some (runs.flatMap (runText side bar chars)) := by
  induction runs with
  | nil => rfl
  | cons run runs ih =>
    rw [List.forall_mem_cons] at fits
    have rest := ih fits.2
    rw [shadeRuns, rest, List.flatMap_cons, runText]
    by_cases empty : run.1 = run.2
    · rw [if_pos empty, if_pos empty]
      rfl
    · rw [if_neg empty, if_neg empty, slice, if_pos fits.1]
      simp [runCodes, piece, ESC]

/-- A run breaks no line that its columns do not break. -/
theorem newline_runText {side : Side} {bar : Nat × Nat} {chars : Text} {run : Nat × Nat}
    (broken : '\n' ∈ runText side bar chars run) : '\n' ∈ piece chars run.1 run.2 := by
  rw [runText] at broken
  split at broken
  · cases broken
  · rcases List.mem_append.mp broken with sequence | inside
    · exact absurd sequence (newline_not_mem_rendition (newline_not_mem_runCodes side bar run.1))
    · exact inside

/-- A run shows its columns, and leaves the attributes of its last one. -/
theorem read_runText {side : Side} {bar : Nat × Nat} {chars : Text} {start stop : Nat}
    (le : start ≤ stop) (fits : stop ≤ chars.length)
    (still : ∀ k, start ≤ k → k < stop → penAt side bar k = penAt side bar start)
    (plain : ∀ c ∈ piece chars start stop, c ≠ ESC) :
    cells (.ground (penBefore side bar start)) (runText side bar chars (start, stop)) =
        painted side bar start (piece chars start stop) ∧
      machine.final (.ground (penBefore side bar start)) (runText side bar chars (start, stop)) =
        .ground (penBefore side bar stop) := by
  rw [runText]
  by_cases empty : start = stop
  · subst empty
    have nothing : piece chars start start = [] := by rw [piece, Nat.sub_self, List.take_zero]
    rw [if_pos rfl, nothing]
    exact ⟨rfl, rfl⟩
  · have width : (piece chars start stop).length = stop - start := length_piece fits
    obtain ⟨silent, ends⟩ :=
      read_renditions (penBefore side bar start) (runCodes_inside side bar start)
    rw [renditions_runCodes] at ends
    obtain ⟨text, same⟩ := read_text (penAt side bar start) plain
    rw [if_neg empty, cells_append, Machine.final_append, silent, ends, text, same]
    constructor
    · rw [List.nil_append]
      symm
      apply painted_of_same
      rw [width]
      exact fun k low high => still k low (by omega)
    · obtain ⟨last, rfl⟩ : ∃ last, stop = last + 1 := ⟨stop - 1, by omega⟩
      rw [penBefore, still last (by omega) (by omega)]

/-! ## The walk -/

/-- Runs without a change of attributes inside show the columns from the first cut to the last. The
induction is on the cuts. -/
theorem read_runs (side : Side) (bar : Nat × Nat) {chars : Text} {width start : Nat}
    {cuts : List Nat} (fits : width ≤ chars.length) (plain : ∀ c ∈ chars.take width, c ≠ ESC)
    (sorted : (start :: cuts).Pairwise (· ≤ ·)) (within : ∀ k ∈ start :: cuts, k ≤ width)
    (still : ∀ run ∈ pairs (start :: cuts), ∀ k, run.1 ≤ k → k < run.2 →
      penAt side bar k = penAt side bar run.1) :
    let last := (start :: cuts).getLast (List.cons_ne_nil start cuts)
    let out := (pairs (start :: cuts)).flatMap (runText side bar chars)
    cells (.ground (penBefore side bar start)) out =
        painted side bar start (piece chars start last) ∧
      machine.final (.ground (penBefore side bar start)) out =
        .ground (penBefore side bar last) := by
  induction cuts generalizing start with
  | nil =>
    have nothing : piece chars start start = [] := by rw [piece, Nat.sub_self, List.take_zero]
    intro last out
    rw [show last = start from rfl, nothing]
    exact ⟨rfl, rfl⟩
  | cons next cuts ih =>
    intro last out
    rw [pairs_cons_cons, List.forall_mem_cons] at still
    rw [List.pairwise_cons] at sorted
    rw [List.forall_mem_cons] at within
    have le : start ≤ next := sorted.1 next List.mem_cons_self
    have nextFits : next ≤ width := within.2 next List.mem_cons_self
    have lastCut : last ∈ next :: cuts := List.getLast_mem (List.cons_ne_nil next cuts)
    have le' : next ≤ last := by
      rcases List.mem_cons.mp lastCut with same | later
      · omega
      · exact (List.pairwise_cons.mp sorted.2).1 last later
    have clean : ∀ c ∈ piece chars start next, c ≠ ESC := by
      intro c member
      exact plain c (mem_take_of_mem_piece nextFits member)
    obtain ⟨first, ends⟩ := read_runText le (by omega) still.1 clean
    obtain ⟨rest, finish⟩ := ih sorted.2 within.2 still.2
    have split : out = runText side bar chars (start, next) ++
        (pairs (next :: cuts)).flatMap (runText side bar chars) := rfl
    rw [split, cells_append, Machine.final_append, first, ends, rest, finish]
    refine ⟨?_, rfl⟩
    have column : next = start + (piece chars start next).length := by
      rw [length_piece (by omega)]
      omega
    rw [← piece_append chars le le', painted_append, ← column]
    rfl

/-! ## The boundaries -/

theorem boundaries_sorted (bar : Nat × Nat) : (boundaries bar).Pairwise (· ≤ ·) :=
  List.pairwise_insertionSort (· ≤ ·) _

theorem mem_boundaries {bar : Nat × Nat} {k : Nat} :
    k ∈ boundaries bar ↔
      k = 0 ∨ k = CELL_FG_SPLIT ∨ k = bar.1 ∨ k = bar.2 ∨ k = CELL_WIDTH := by
  rw [boundaries, List.mem_insertionSort,
    show min CELL_FG_SPLIT CELL_WIDTH = CELL_FG_SPLIT from rfl]
  simp only [List.mem_cons, List.not_mem_nil, or_false]

theorem barOf_le {fillLen : Nat} (le : fillLen ≤ CELL_WIDTH) (fillFrom : FillFrom) :
    (barOf fillLen fillFrom).1 ≤ CELL_WIDTH ∧ (barOf fillLen fillFrom).2 ≤ CELL_WIDTH := by
  cases fillFrom with
  | left => exact ⟨Nat.zero_le _, le⟩
  | right => exact ⟨Nat.sub_le _ _, Nat.le_refl _⟩

/-- Between two boundaries the attributes do not change: neither the split nor an edge of the bar
lies inside. -/
theorem penAt_between {side : Side} {bar : Nat × Nat} {run : Nat × Nat}
    (member : run ∈ pairs (boundaries bar)) {k : Nat} (low : run.1 ≤ k) (high : k < run.2) :
    penAt side bar k = penAt side bar run.1 := by
  have split := not_inside (boundaries_sorted bar) member
    (mem_boundaries.mpr (Or.inr (Or.inl rfl)))
  have opens := not_inside (boundaries_sorted bar) member
    (mem_boundaries.mpr (Or.inr (Or.inr (Or.inl rfl))))
  have closes := not_inside (boundaries_sorted bar) member
    (mem_boundaries.mpr (Or.inr (Or.inr (Or.inr (Or.inl rfl)))))
  have faint : CELL_FG_SPLIT ≤ k ↔ CELL_FG_SPLIT ≤ run.1 := by omega
  have inBar : bar.1 ≤ k ∧ k < bar.2 ↔ bar.1 ≤ run.1 ∧ run.1 < bar.2 := by omega
  simp only [penAt, faint, inBar]

theorem boundaries_le (fillLen : Nat) (fillFrom : FillFrom) :
    ∀ k ∈ boundaries (barOf (min fillLen CELL_WIDTH) fillFrom), k ≤ CELL_WIDTH := by
  have edges := barOf_le (Nat.min_le_right fillLen CELL_WIDTH) fillFrom
  intro k member
  rcases mem_boundaries.mp member with rfl | rfl | rfl | rfl | rfl
  · exact Nat.zero_le _
  · decide
  · exact edges.1
  · exact edges.2
  · exact Nat.le_refl _

/-- What `shade_cell` writes. -/
def shadedText (side : Side) (bar : Nat × Nat) (plain : Text) : Text :=
  (pairs (boundaries bar)).flatMap (runText side bar plain) ++ RESET

/-- It writes it for every text that is long enough. -/
theorem shadeCell_eq (side : Side) {plain : Text} (long : CELL_WIDTH ≤ plain.length)
    (fillLen : Nat) (fillFrom : FillFrom) :
    shadeCell plain (priceFg side) (barBg side) fillLen fillFrom =
      some (shadedText side (barOf (min fillLen CELL_WIDTH) fillFrom) plain) := by
  rw [shadeCell, shadeRuns_eq]
  · rfl
  · intro run member
    have stop := boundaries_le fillLen fillFrom run.2 (mem_of_mem_pairs member).2
    exact ⟨pairs_le (boundaries_sorted _) member, by omega⟩

section ShadedText

variable {side : Side} {bar : Nat × Nat} {plain : Text}

theorem newline_shadedText (within : ∀ k ∈ boundaries bar, k ≤ CELL_WIDTH)
    (broken : '\n' ∈ shadedText side bar plain) : '\n' ∈ plain.take CELL_WIDTH := by
  rcases List.mem_append.mp broken with inRuns | closing
  · obtain ⟨run, member, inRun⟩ := List.mem_flatMap.mp inRuns
    exact mem_take_of_mem_piece (within run.2 (mem_of_mem_pairs member).2) (newline_runText inRun)
  · exact absurd closing (newline_not_mem_rendition (by decide))

/-- A text without escapes is read whole, with the attributes of its columns. -/
theorem read_shadedText (within : ∀ k ∈ boundaries bar, k ≤ CELL_WIDTH)
    (long : CELL_WIDTH ≤ plain.length) (clean : ∀ c ∈ plain.take CELL_WIDTH, c ≠ ESC) :
    cells (.ground .plain) (shadedText side bar plain) =
        painted side bar 0 (plain.take CELL_WIDTH) ∧
      machine.final (.ground .plain) (shadedText side bar plain) = .ground .plain := by
  have sorted := boundaries_sorted bar
  obtain ⟨cuts, starts⟩ := head_of_least sorted (mem_boundaries.mpr (Or.inl rfl))
    (fun k _ => Nat.zero_le k)
  have last := getLast_of_greatest (starts ▸ sorted)
    (starts ▸ mem_boundaries.mpr (Or.inr (Or.inr (Or.inr (Or.inr rfl))))) (starts ▸ within)
  obtain ⟨text, ends⟩ := read_runs side bar long clean (starts ▸ sorted) (starts ▸ within)
    (fun run member k low high => penAt_between (starts ▸ member) low high)
  obtain ⟨silent, reset⟩ := read_reset (penBefore side bar CELL_WIDTH)
  rw [last] at text ends
  have whole : piece plain 0 CELL_WIDTH = plain.take CELL_WIDTH := rfl
  rw [whole] at text
  rw [shadedText, starts, cells_append, Machine.final_append,
    show Pen.plain = penBefore side bar 0 from rfl, text, ends, silent, reset, List.append_nil]
  exact ⟨rfl, rfl⟩

/-- Where nothing is a control character, all of it is shown. -/
theorem shown_shadedText (within : ∀ k ∈ boundaries bar, k ≤ CELL_WIDTH)
    (long : CELL_WIDTH ≤ plain.length)
    (printable : ∀ c ∈ plain.take CELL_WIDTH, isControl c = false) :
    shown (shadedText side bar plain) = painted side bar 0 (plain.take CELL_WIDTH) := by
  rw [shown, (read_shadedText within long (ne_ESC_of_printable printable)).1]
  apply List.filter_eq_self.mpr
  intro cell member
  have char : cell.1 ∈ plain.take CELL_WIDTH := by
    rw [← map_fst_painted side bar 0 (plain.take CELL_WIDTH)]
    exact List.mem_map_of_mem member
  rw [printable cell.1 char]
  rfl

end ShadedText

/-- A cell draws the text it holds. -/
theorem draws_shadeCell (side : Side) {plain : Text} (long : CELL_WIDTH ≤ plain.length)
    (clean : ∀ c ∈ plain, c ≠ ESC) (fillLen : Nat) (fillFrom : FillFrom) :
    ∃ out, shadeCell plain (priceFg side) (barBg side) fillLen fillFrom = some out ∧
      Draws out (plain.take CELL_WIDTH) := by
  have within := boundaries_le fillLen fillFrom
  obtain ⟨text, reset⟩ := @read_shadedText side _ _ within long
    fun c member => clean c (List.mem_of_mem_take member)
  refine ⟨_, shadeCell_eq side long fillLen fillFrom, ?_, reset, newline_shadedText within⟩
  rw [strip, text, map_fst_painted]

/-! ## What is shown -/

/-- The columns a bar covers: the first ones from the left, or the last ones from the right. -/
def InBar (fillLen : Nat) : FillFrom → Nat → Prop
  | .left, column => column < fillLen
  | .right, column => CELL_WIDTH - fillLen ≤ column

/-- A terminal that shows the text in order, over the bar's background inside the bar, in the
price's colour at normal intensity before the label and faint in the label, and keeps none of these
attributes. -/
structure Shows (side : Side) (bar : Nat → Prop) (text out : Text) : Prop where
  inOrder : (shown out).map Prod.fst = text
  background : ∀ (column : Nat) (c : Char) (pen : Pen), (shown out)[column]? = some (c, pen) →
    (pen.background = some (barColour side) ↔ bar column)
  price : ∀ (column : Nat) (c : Char) (pen : Pen), (shown out)[column]? = some (c, pen) →
    (pen.foreground = some (priceColour side) ∧ pen.faint = false ↔ column < CELL_FG_SPLIT)
  label : ∀ (column : Nat) (c : Char) (pen : Pen), (shown out)[column]? = some (c, pen) →
    (pen.faint = true ↔ CELL_FG_SPLIT ≤ column)
  reset : machine.final (.ground .plain) out = .ground .plain

theorem barOf_iff (fillLen : Nat) (fillFrom : FillFrom) {column : Nat}
    (inside : column < CELL_WIDTH) :
    (barOf (min fillLen CELL_WIDTH) fillFrom).1 ≤ column ∧
        column < (barOf (min fillLen CELL_WIDTH) fillFrom).2 ↔ InBar fillLen fillFrom column := by
  cases fillFrom with
  | left =>
    show 0 ≤ column ∧ column < min fillLen CELL_WIDTH ↔ column < fillLen
    omega
  | right =>
    show CELL_WIDTH - min fillLen CELL_WIDTH ≤ column ∧ column < CELL_WIDTH ↔
      CELL_WIDTH - fillLen ≤ column
    omega

theorem getElem?_painted {side : Side} {bar : Nat × Nat} {chars : Text} {column : Nat} {c : Char}
    {pen : Pen} (here : (painted side bar 0 chars)[column]? = some (c, pen)) :
    column < chars.length ∧ pen = penAt side bar column := by
  rw [painted, List.getElem?_map, List.getElem?_zipIdx, Option.map_map,
    Option.map_eq_some_iff] at here
  obtain ⟨d, at_column, same⟩ := here
  obtain ⟨inside, -⟩ := List.getElem?_eq_some_iff.mp at_column
  refine ⟨inside, ?_⟩
  rw [← (Prod.mk.inj same).2, Nat.zero_add]

theorem isControl_of_shown {text : Text} {cell : Char × Pen} (member : cell ∈ shown text) :
    isControl cell.1 = false := by
  have visible := (List.mem_filter.mp member).2
  rwa [Bool.not_eq_true'] at visible

/-- A cell is shown as it should be exactly when its text has no control characters. -/
theorem shadeCell_shows_iff (side : Side) {plain : Text} (long : CELL_WIDTH ≤ plain.length)
    (fillLen : Nat) (fillFrom : FillFrom) :
    ∃ out, shadeCell plain (priceFg side) (barBg side) fillLen fillFrom = some out ∧
      (Shows side (InBar fillLen fillFrom) (plain.take CELL_WIDTH) out ↔
        ∀ c ∈ plain.take CELL_WIDTH, isControl c = false) := by
  refine ⟨_, shadeCell_eq side long fillLen fillFrom, ?_, ?_⟩
  · intro shows c member
    rw [← shows.inOrder, List.mem_map] at member
    obtain ⟨cell, visible, rfl⟩ := member
    exact isControl_of_shown visible
  · intro printable
    have within := boundaries_le fillLen fillFrom
    have clean := ne_ESC_of_printable printable
    have whole := @shown_shadedText side _ _ within long printable
    have width : (plain.take CELL_WIDTH).length = CELL_WIDTH := by
      rw [List.length_take, Nat.min_eq_left long]
    constructor
    case inOrder => rw [whole, map_fst_painted]
    case reset => exact (read_shadedText within long clean).2
    all_goals
      intro column c pen here
      rw [whole] at here
      obtain ⟨inside, rfl⟩ := getElem?_painted here
    case background =>
      rw [width] at inside
      rw [← barOf_iff fillLen fillFrom inside, penAt]
      split
      · exact iff_of_true rfl ‹_›
      · exact iff_of_false (fun colour => by cases colour) ‹_›
    case price => simp [penAt]
    case label => simp [penAt]

/-- The cell of a bid whose bar begins in its amount. -/
theorem shadeCell_shows_iff_partialBar :
    ∃ out, shadeCell "  9.50000000    2.00000000 binance ".toList "32".toList BAR_BG_BID 18 .right =
        some out ∧
      Shows .bid (InBar 18 .right) "  9.50000000    2.00000000 binance ".toList out := by
  have printable : ("  9.50000000    2.00000000 binance ".toList.all
      fun c => isControl c == false) = true := by decide +kernel
  obtain ⟨out, written, shows⟩ := shadeCell_shows_iff .bid
    (show CELL_WIDTH ≤ "  9.50000000    2.00000000 binance ".toList.length by decide) 18 .right
  exact ⟨out, written, shows.mpr fun c member => eq_of_beq (List.all_eq_true.mp printable c member)⟩

/-- The label keeps the price's foreground, and a text with an escape loses characters. -/
theorem shadeCell_keeps_foreground :
    (¬ ∃ out, shadeCell (List.replicate 35 'a') "32".toList BAR_BG_BID 0 .left = some out ∧
      ∀ (column : Nat) (c : Char) (pen : Pen), (shown out)[column]? = some (c, pen) →
        (pen.foreground = some (priceColour .bid) ↔ column < CELL_FG_SPLIT)) ∧
    ¬ ∃ out, shadeCell (ESC :: List.replicate 34 'a') "32".toList BAR_BG_BID 0 .left = some out ∧
      (shown out).map Prod.fst = (ESC :: List.replicate 34 'a').take CELL_WIDTH := by
  constructor
  · rintro ⟨out, written, foreground⟩
    have cell : (shadeCell (List.replicate 35 'a') "32".toList BAR_BG_BID 0 .left).bind
        (fun out => (shown out)[26]?) = some ('a', ⟨some 2, none, false, true⟩) := by
      decide +kernel
    rw [written] at cell
    have early := (foreground 26 'a' ⟨some 2, none, false, true⟩ cell).mp rfl
    exact absurd early (by decide)
  · rintro ⟨out, -, whole⟩
    have escape : ESC ∈ (shown out).map Prod.fst := by
      rw [whole]
      decide
    obtain ⟨cell, visible, same⟩ := List.mem_map.mp escape
    have control := isControl_of_shown visible
    rw [same, isControl_ESC] at control
    cases control

end Client

end Orderbook
