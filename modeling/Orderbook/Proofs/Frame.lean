import Orderbook.Misc.Lines
import Orderbook.Proofs.FrameText

/-!
# The geometry of a frame

The formats of `render` have minimum widths and no maximum. A frame has its fixed width, and the
same text with colour as without, exactly when everything fits.
-/

namespace Orderbook

namespace Client

open Ansi Lines

/-! ## Rows of levels -/

/-- A level whose text ends in a blank. -/
def EndsBlank (level : Level) : Prop :=
  level.exchange.length < 8 ∨ level.exchange.getLast? = some ' '

/-- Both cells fit, or one has a single blank too much where the row has one to spare. -/
def RowFits (bid ask : Option Level) : Prop :=
  (widthOf bid = CELL_WIDTH ∧ widthOf ask = CELL_WIDTH) ∨
    (widthOf bid = CELL_WIDTH ∧
      ∃ level, ask = some level ∧ cellWidth level = CELL_WIDTH + 1 ∧ EndsBlank level) ∨
    (ask = none ∧
      ∃ level, bid = some level ∧ cellWidth level = CELL_WIDTH + 1 ∧ EndsBlank level)

theorem getLast?_cellText (level : Level) :
    (cellText level).getLast? = some ' ' ↔ EndsBlank level := by
  have label : (cellText level).getLast? = (Fmt.left 8 level.exchange).getLast? := by
    apply List.getLast?_append_of_ne_nil
    rw [← List.length_pos_iff, Fmt.length_left]
    omega
  rw [label, Fmt.left, EndsBlank]
  by_cases short : level.exchange.length < 8
  · obtain ⟨n, blanks⟩ : ∃ n, 8 - level.exchange.length = n + 1 :=
      ⟨7 - level.exchange.length, by omega⟩
    rw [blanks, List.replicate_succ', ← List.append_assoc, List.getLast?_concat]
    exact iff_of_true rfl (Or.inl short)
  · have none : 8 - level.exchange.length = 0 := by omega
    rw [none, List.replicate_zero, List.append_nil]
    exact ⟨Or.inr, fun ends => ends.resolve_left short⟩

theorem cutOf_of_exact {level : Option Level} (exact_width : widthOf level = CELL_WIDTH) :
    cutOf level = textOf level := by
  rw [cutOf, ← exact_width, ← length_textOf, List.take_length]

/-- One column too much. -/
theorem textOf_of_excess {level : Level} (excess : cellWidth level = CELL_WIDTH + 1) :
    ∃ c, textOf (some level) = cutOf (some level) ++ [c] ∧ (c = ' ' ↔ EndsBlank level) := by
  have width : ((textOf (some level)).drop CELL_WIDTH).length = 1 := by
    rw [List.length_drop, length_textOf, widthOf, excess]
    omega
  obtain ⟨c, rest⟩ := List.length_eq_one_iff.mp width
  have whole : textOf (some level) = cutOf (some level) ++ [c] := by
    rw [cutOf, ← rest, List.take_append_drop]
  refine ⟨c, whole, ?_⟩
  rw [← getLast?_cellText, show cellText level = _ from whole, List.getLast?_concat,
    Option.some_inj]

/-- The price is in the cell. -/
theorem cutOf_nonblank (level : Level) : ∃ c ∈ cutOf (some level), c ≠ ' ' := by
  obtain ⟨c, digits, price⟩ := List.exists_cons_of_ne_nil (Fmt.fixed_ne_nil 8 level.price)
  have graphic : c ≠ ' ' := by
    have first : c ∈ Fmt.fixed 8 level.price := by
      rw [price]
      exact List.mem_cons_self
    exact (fixed_graphic first).2.2
  refine ⟨c, ?_, graphic⟩
  obtain ⟨n, room⟩ : ∃ n, CELL_WIDTH - (12 - (Fmt.fixed 8 level.price).length) = n + 1 := by
    unfold CELL_WIDTH
    exact ⟨34 - (12 - (Fmt.fixed 8 level.price).length), by omega⟩
  rw [cutOf, textOf, cellText, Fmt.right, List.append_assoc, List.append_assoc, List.append_assoc,
    List.append_assoc, List.take_append, List.length_replicate, room, price]
  apply List.mem_append_right
  exact List.mem_cons_self

theorem left_of_full {bid ask : Text} (full : bid.length + 1 + ask.length = TABLE_WIDTH) :
    Fmt.left TABLE_WIDTH (beside bid ask) = bid ++ ' ' :: ask := by
  rw [Fmt.left, length_beside, full, Nat.sub_self, List.replicate_zero, List.append_nil, beside,
    List.append_assoc]
  rfl

/-- Cells that are cut leave one blank. -/
theorem left_of_cut (bid ask : Option Level) :
    Fmt.left TABLE_WIDTH (beside (cutOf bid) (cutOf ask)) =
      cutOf bid ++ ' ' :: (cutOf ask ++ [' ']) := by
  rw [Fmt.left, length_beside, length_cutOf, length_cutOf, beside, List.append_assoc,
    List.append_assoc]
  rfl

/-- A wide ask cell agrees with its cut when the column too much is blank. -/
theorem left_ask_iff {bid : Option Level} (fits : widthOf bid = CELL_WIDTH) {level : Level}
    (excess : cellWidth level = CELL_WIDTH + 1) :
    Fmt.left TABLE_WIDTH (beside (cutOf bid) (cutOf (some level))) =
        Fmt.left TABLE_WIDTH (beside (textOf bid) (textOf (some level))) ↔ EndsBlank level := by
  obtain ⟨c, whole, ends⟩ := textOf_of_excess excess
  rw [← cutOf_of_exact fits, left_of_cut, left_of_full, whole, ← ends]
  · rw [List.append_cancel_left_eq, List.cons_inj_right, List.append_cancel_left_eq,
      List.singleton_inj]
    exact eq_comm
  · rw [length_cutOf, length_textOf, widthOf, excess]
    rfl

/-- A wide bid cell moves the ask cell by a column, which shows unless there is none. -/
theorem left_bid_iff {ask : Option Level} (fits : widthOf ask = CELL_WIDTH) {level : Level}
    (excess : cellWidth level = CELL_WIDTH + 1) :
    Fmt.left TABLE_WIDTH (beside (cutOf (some level)) (cutOf ask)) =
        Fmt.left TABLE_WIDTH (beside (textOf (some level)) (textOf ask)) ↔
      ask = none ∧ EndsBlank level := by
  obtain ⟨c, whole, ends⟩ := textOf_of_excess excess
  rw [← cutOf_of_exact fits, left_of_cut, left_of_full, whole, ← ends, List.append_assoc,
    List.append_cancel_left_eq, List.singleton_append]
  · refine ⟨?_, ?_⟩
    · intro same
      obtain ⟨blank, moved⟩ := List.cons.inj same
      refine ⟨?_, blank.symm⟩
      cases ask with
      | none => rfl
      | some level =>
        obtain ⟨d, inside, graphic⟩ := cutOf_nonblank level
        exact absurd (eq_of_mem_of_cons_eq_concat moved.symm d inside) graphic
    · rintro ⟨rfl, rfl⟩
      rfl
  · rw [length_cutOf, length_textOf, widthOf, excess]
    rfl

/-- A row of levels reads the same with its cells cut exactly when it fits. -/
theorem left_rowCut_iff (summary : Summary) (i : Nat) :
    Fmt.left TABLE_WIDTH (rowCut summary i) = Fmt.left TABLE_WIDTH (rowText summary i) ↔
      RowFits summary.bids[i]? summary.asks[i]? := by
  unfold rowCut rowText
  generalize summary.bids[i]? = bid
  generalize summary.asks[i]? = ask
  refine ⟨?_, ?_⟩
  · intro same
    have widths := congrArg List.length same
    rw [Fmt.length_left, Fmt.length_left, length_beside, length_beside, length_cutOf, length_cutOf,
      length_textOf, length_textOf] at widths
    have bidWidth := le_widthOf bid
    have askWidth := le_widthOf ask
    have room : widthOf bid + widthOf ask ≤ 2 * CELL_WIDTH + 1 := by
      unfold TABLE_WIDTH CELL_WIDTH at *
      omega
    by_cases bidFits : widthOf bid = CELL_WIDTH
    · by_cases askFits : widthOf ask = CELL_WIDTH
      · exact Or.inl ⟨bidFits, askFits⟩
      · cases ask with
        | none => exact absurd rfl askFits
        | some level =>
          have excess : cellWidth level = CELL_WIDTH + 1 := by
            rw [widthOf] at askFits askWidth room
            omega
          exact Or.inr (Or.inl ⟨bidFits, level, rfl, excess, (left_ask_iff bidFits excess).mp same⟩)
    · have askFits : widthOf ask = CELL_WIDTH := by omega
      cases bid with
      | none => exact absurd rfl bidFits
      | some level =>
        have excess : cellWidth level = CELL_WIDTH + 1 := by
          rw [widthOf] at bidFits bidWidth room
          omega
        obtain ⟨missing, blank⟩ := (left_bid_iff askFits excess).mp same
        exact Or.inr (Or.inr ⟨missing, level, rfl, excess, blank⟩)
  · rintro (⟨bidFits, askFits⟩ | ⟨bidFits, level, rfl, excess, blank⟩ |
      ⟨rfl, level, rfl, excess, blank⟩)
    · rw [cutOf_of_exact bidFits, cutOf_of_exact askFits]
    · exact (left_ask_iff bidFits excess).mpr blank
    · exact (left_bid_iff rfl excess).mpr ⟨rfl, blank⟩

/-! ## Lines of the table -/

/-- Every line has the table's width with its borders. -/
def Exact (text : Text) : Prop := ∀ line ∈ lines text, visibleLen line = TABLE_WIDTH + 4

theorem exact_line_iff {body text : Text} (drawn : Draws body text) (single : '\n' ∉ text) :
    Exact (body ++ ['\n']) ↔ text.length = TABLE_WIDTH + 4 := by
  rw [Exact, lines_singleton fun broken => single (drawn.newline broken), List.forall_mem_singleton,
    visibleLen_of_draws drawn]

/-- A row before its newline. -/
def rowBody (content : Text) : Text :=
  "│ ".toList ++ content ++ List.replicate (TABLE_WIDTH - visibleLen content) ' ' ++ " │".toList

theorem row_eq (content : Text) : row content = rowBody content ++ ['\n'] := by
  rw [rowBody, List.append_assoc]
  rfl

theorem rowBody_plain {text : Text} (plain : ∀ c ∈ text, c ≠ ESC) :
    rowBody text = "│ ".toList ++ Fmt.left TABLE_WIDTH text ++ " │".toList := by
  rw [rowBody, visibleLen_of_plain plain, Fmt.left, List.append_assoc "│ ".toList]

theorem length_rowBody {text : Text} (plain : ∀ c ∈ text, c ≠ ESC) :
    (rowBody text).length = max TABLE_WIDTH text.length + 4 := by
  rw [rowBody_plain plain, List.length_append, List.length_append, Fmt.length_left,
    show "│ ".toList.length = 2 from rfl, show " │".toList.length = 2 from rfl]
  omega

/-- The padding is counted without escapes. -/
theorem draws_rowBody {content text : Text} (drawn : Draws content text) :
    Draws (rowBody content) (rowBody text) := by
  rw [rowBody, rowBody, visibleLen_of_draws drawn, visibleLen_of_plain drawn.ne_ESC]
  have blanks := draws_text (inline_blanks (TABLE_WIDTH - text.length)).ne_ESC
  have leftBorder : Draws "│ ".toList "│ ".toList := draws_text (ne_ESC_of_all rfl)
  have rightBorder : Draws " │".toList " │".toList := draws_text (ne_ESC_of_all rfl)
  exact ((leftBorder.append drawn).append blanks).append rightBorder

theorem draws_row {content text : Text} (drawn : Draws content text) :
    Draws (row content) (row text) := by
  rw [row_eq, row_eq]
  exact (draws_rowBody drawn).append (draws_text (ne_ESC_of_all rfl))

theorem single_rowBody {text : Text} (single : '\n' ∉ text) : '\n' ∉ rowBody text := by
  intro broken
  rcases List.mem_append.mp broken with before | border
  · rcases List.mem_append.mp before with content | blank
    · rcases List.mem_append.mp content with border | inside
      · exact absurd border (by decide)
      · exact single inside
    · exact absurd (List.eq_of_mem_replicate blank) (by decide)
  · exact absurd border (by decide)

theorem exact_row_iff {content text : Text} (drawn : Draws content text) (single : '\n' ∉ text) :
    Exact (row content) ↔ text.length ≤ TABLE_WIDTH := by
  rw [row_eq, exact_line_iff (draws_rowBody drawn) (single_rowBody single),
    length_rowBody drawn.ne_ESC]
  omega

/-- A row as wide as the table is not exact with a line break inside. -/
theorem single_of_exact_row {text : Text} (plain : ∀ c ∈ text, c ≠ ESC)
    (fits : text.length ≤ TABLE_WIDTH) (exact_row : Exact (row text)) : '\n' ∉ text := by
  intro broken
  have inside : '\n' ∈ rowBody text := by
    rw [rowBody, List.append_assoc, List.append_assoc]
    exact List.mem_append_right _ (List.mem_append_left _ broken)
  obtain ⟨line, member, short⟩ := short_line inside
  have width := exact_row line (by rwa [row_eq])
  have le : visibleLen line ≤ line.length := visibleLen_le line
  have whole := length_rowBody plain
  omega

theorem row_inj {text text' : Text} (plain : ∀ c ∈ text, c ≠ ESC) (plain' : ∀ c ∈ text', c ≠ ESC) :
    row text = row text' ↔ Fmt.left TABLE_WIDTH text = Fmt.left TABLE_WIDTH text' := by
  rw [row_eq, row_eq, List.append_cancel_right_eq, rowBody_plain plain, rowBody_plain plain',
    List.append_cancel_right_eq, List.append_cancel_left_eq]

/-- A border before its newline. -/
def borderBody (left right : Char) : Text :=
  left :: (List.replicate (TABLE_WIDTH + 2) '─' ++ [right])

theorem border_eq (left right : Char) : border left right = borderBody left right ++ ['\n'] := by
  rw [border, borderBody, List.cons_append, List.append_assoc]
  rfl

theorem inline_borderBody {left right : Char} (inline : Inline [left, right]) :
    Inline (borderBody left right) := by
  intro c member
  rcases List.mem_cons.mp member with rfl | later
  · exact inline c List.mem_cons_self
  · rcases List.mem_append.mp later with dash | last
    · rw [List.eq_of_mem_replicate dash]
      exact ⟨by decide, by decide⟩
    · exact inline c (List.mem_cons_of_mem _ last)

theorem draws_border {left right : Char} (inline : Inline [left, right]) :
    Draws (border left right) (border left right) := by
  rw [border_eq]
  exact (draws_text (inline_borderBody inline).ne_ESC).append (draws_text (ne_ESC_of_all rfl))

/-- A border after a sequence that shows nothing, or after none. -/
theorem exact_border {home : Text} (drawn : Draws home []) {left right : Char}
    (inline : Inline [left, right]) : Exact (home ++ border left right) := by
  have corners := inline_borderBody inline
  rw [border_eq, ← List.append_assoc,
    exact_line_iff (drawn.append (draws_text corners.ne_ESC)) corners.single]
  rfl

theorem inline_corners : Inline ['┌', '┐'] ∧ Inline ['├', '┤'] ∧ Inline ['└', '┘'] :=
  ⟨inline_of_all rfl, inline_of_all rfl, inline_of_all rfl⟩

/-! ## Frames -/

/-- The lines of a frame. -/
def pieces (home header : Text) (levels : List Text) (spread : Text) : List Text :=
  [home ++ border '┌' '┐', row header, border '├' '┤', row titles, border '├' '┤'] ++
    levels.map row ++ [border '├' '┤', row spread, border '└' '┘']

/-- The cursor's return to the first column of the first line. -/
def homeOf (colour : Bool) : Text := if colour then "\x1b[H".toList else []

theorem render_eq (venues : List Venue) (tracker : VenueTracker) (present : Venue → Bool)
    (summary : Summary) (stats : Stats) (colour : Bool) (clock : FrameClock) :
    render venues tracker present summary stats colour clock =
      ((List.range ROWS).mapM (levelContent summary colour)).map fun levels =>
        (pieces (homeOf colour) (headerLine venues tracker present clock colour) levels
          (spreadLine summary stats colour)).flatten := by
  rw [render]
  cases (List.range ROWS).mapM (levelContent summary colour) with
  | none => rfl
  | some levels => simp [pieces, homeOf]

/-- What holds of the borders and the rows holds of every piece. -/
theorem forall_pieces {P : Text → Prop} {home header spread : Text} {levels : List Text} :
    (∀ piece ∈ pieces home header levels spread, P piece) ↔
      (P (home ++ border '┌' '┐') ∧ P (border '├' '┤') ∧ P (border '└' '┘')) ∧
        P (row titles) ∧ P (row header) ∧ (∀ content ∈ levels, P (row content)) ∧
          P (row spread) := by
  simp only [pieces, List.forall_mem_append, List.forall_mem_cons, List.forall_mem_map,
    List.not_mem_nil, false_imp_iff, implies_true, and_true]
  refine ⟨?_, ?_⟩
  · rintro ⟨⟨⟨top, header, middle, titles, -⟩, levels⟩, -, spread, bottom⟩
    exact ⟨⟨top, middle, bottom⟩, titles, header, levels, spread⟩
  · rintro ⟨⟨top, middle, bottom⟩, titles, header, levels, spread⟩
    exact ⟨⟨⟨top, header, middle, titles, middle⟩, levels⟩, middle, spread, bottom⟩

theorem ended_pieces (home header : Text) (levels : List Text) (spread : Text) :
    ∀ piece ∈ pieces home header levels spread, Ended piece := by
  have rows (content : Text) : Ended (row content) := ⟨_, row_eq content⟩
  have borders (left right : Char) : Ended (border left right) := ⟨_, border_eq left right⟩
  have top : Ended (home ++ border '┌' '┐') := by
    rw [border_eq, ← List.append_assoc]
    exact ⟨_, rfl⟩
  rw [forall_pieces]
  exact ⟨⟨top, borders _ _, borders _ _⟩, rows _, rows _, fun content _ => rows content, rows _⟩

theorem draws_home (colour : Bool) : Draws (homeOf colour) [] := by
  cases colour with
  | false => exact Draws.nil
  | true => exact ⟨rfl, rfl, by decide⟩

theorem inline_titles : Inline titles := inline_of_all rfl

/-- The borders and the titles are always exact. -/
theorem exact_pieces_iff {colour : Bool} {header spread : Text} {levels : List Text} :
    Exact (pieces (homeOf colour) header levels spread).flatten ↔
      Exact (row header) ∧ (∀ content ∈ levels, Exact (row content)) ∧ Exact (row spread) := by
  have borders {left right : Char} (inline : Inline [left, right]) : Exact (border left right) :=
    exact_border Draws.nil inline
  have top := exact_border (draws_home colour) inline_corners.1
  have inTable : Exact (row titles) :=
    (exact_row_iff (draws_text inline_titles.ne_ESC) inline_titles.single).mpr (by decide)
  have lines_of_pieces := forall_lines_flatten (P := fun line => visibleLen line = TABLE_WIDTH + 4)
    (ended_pieces (homeOf colour) header levels spread)
  have parts : (∀ piece ∈ pieces (homeOf colour) header levels spread, Exact piece) ↔ _ :=
    forall_pieces
  refine ⟨?_, ?_⟩
  · intro whole
    exact (parts.mp (lines_of_pieces.mp whole)).2.2
  · intro rows
    exact lines_of_pieces.mpr (parts.mpr
      ⟨⟨top, borders inline_corners.2.1, borders inline_corners.2.2⟩, inTable, rows⟩)

theorem draws_pieces {colour : Bool} {header header' spread spread' : Text}
    {levels levels' : List Text} (headers : Draws header header')
    (rows : List.Forall₂ Draws levels levels') (spreads : Draws spread spread') :
    Draws (pieces (homeOf colour) header levels spread).flatten
      (pieces [] header' levels' spread').flatten := by
  have top := (draws_home colour).append (draws_border inline_corners.1)
  have middle := draws_border inline_corners.2.1
  have bottom := draws_border inline_corners.2.2
  have inTable := draws_row (draws_text inline_titles.ne_ESC)
  have drawnRows : List.Forall₂ Draws (levels.map row) (levels'.map row) := by
    rw [List.forall₂_map_left_iff, List.forall₂_map_right_iff]
    exact rows.imp fun _ _ => draws_row
  apply draws_flatten
  apply List.rel_append
  · apply List.rel_append
    · exact .cons top (.cons (draws_row headers) (.cons middle (.cons inTable (.cons middle .nil))))
    · exact drawnRows
  · exact .cons middle (.cons (draws_row spreads) (.cons bottom .nil))

/-! ## Widths of the other lines -/

/-- The width of one venue's status. -/
def venueWidth (tracker : VenueTracker) (present : Venue → Bool) (now : Instant) (venue : Venue) :
    Nat :=
  venue.display.length +
    if present venue then 2 else 10 + (Fmt.fixed 1 (elapsedOf tracker now venue)).length

/-- The width of the status of all venues. -/
def statusWidth (venues : List Venue) (tracker : VenueTracker) (present : Venue → Bool)
    (now : Instant) : Nat :=
  (venues.map (venueWidth tracker present now)).sum + 2 * (venues.length - 1)

/-- The width of the spread in basis points. -/
def bpsWidth (summary : Summary) : Nat :=
  match summary.bids.head?, summary.asks.head? with
  | some bid, some ask =>
      let mid := (bid.price.add ask.price).div (F64.ofNat 2)
      if mid.beq F64.zero then 3
      else (Fmt.fixed 1 ((summary.spread.div mid).mul (F64.ofNat 10000))).length + 4
  | _, _ => 3

/-- The width of the update rate. -/
def rateWidth (stats : Stats) : Nat :=
  if stats.rate.isFinite then (Fmt.fixed 1 stats.rate).length + 2 else 5

/-- The width of the bottom line. -/
def spreadWidth (summary : Summary) (stats : Stats) : Nat :=
  max 40 (max 12 (Fmt.fixed 8 summary.spread).length + bpsWidth summary + 10) +
    max 8 (Fmt.nat stats.count).length + 11 + max 8 (rateWidth stats)

theorem length_intersperse (separator : Text) (texts : List Text) :
    (texts.intersperse separator).flatten.length =
      (texts.map List.length).sum + separator.length * (texts.length - 1) := by
  induction texts with
  | nil => rfl
  | cons text texts ih =>
    cases texts with
    | nil => simp
    | cons next texts =>
      have parts : ((text :: next :: texts).intersperse separator).flatten =
          text ++ (separator ++ ((next :: texts).intersperse separator).flatten) := rfl
      rw [parts, List.length_append, List.length_append, ih]
      simp only [List.map_cons, List.sum_cons, List.length_cons, Nat.add_sub_cancel,
        Nat.mul_add_one]
      omega

theorem length_statusOf (tracker : VenueTracker) (present : Venue → Bool) (now : Instant)
    (venue : Venue) :
    (statusOf tracker present now false venue).length = venueWidth tracker present now venue := by
  rw [statusOf, venueWidth]
  split
  · rw [colourize, if_neg Bool.false_ne_true, List.length_append]
    rfl
  · rw [colourize, if_neg Bool.false_ne_true, List.length_append, List.length_append,
      List.length_append, show " ○ stale ".toList.length = 9 from rfl,
      show "s".toList.length = 1 from rfl]
    omega

theorem length_venueStatus (venues : List Venue) (tracker : VenueTracker)
    (present : Venue → Bool) (now : Instant) :
    (venueStatus venues tracker present now false).length =
      statusWidth venues tracker present now := by
  have each : List.length ∘ statusOf tracker present now false = venueWidth tracker present now :=
    funext fun venue => length_statusOf tracker present now venue
  rw [venueStatus, length_intersperse, List.map_map, each, List.length_map]
  rfl

theorem length_nowHms (secs : Nat) : (nowHms secs).length = 8 := by
  have two {n : Nat} (small : n < 100) : (Fmt.zeroPadded 2 n).length = 2 :=
    Fmt.length_zeroPadded (by omega) small
  have hours := two (n := secs / 3600 % 24) (by omega)
  have minutes := two (n := secs / 60 % 60) (by omega)
  have seconds := two (n := secs % 60) (by omega)
  rw [nowHms, List.length_append, List.length_append, List.length_append, List.length_append, hours,
    minutes, seconds]
  rfl

theorem length_headerLine (venues : List Venue) (tracker : VenueTracker)
    (present : Venue → Bool) (clock : FrameClock) :
    (headerLine venues tracker present clock false).length =
      max 56 (statusWidth venues tracker present clock.now) + 16 := by
  have inline := inline_venueStatus venues tracker present clock.now
  rw [headerLine, List.length_append, List.length_append, visibleLen_of_plain inline.ne_ESC,
    List.length_replicate, Fmt.length_right, length_nowHms, length_venueStatus]
  omega

theorem length_bpsText (summary : Summary) : (bpsText summary).length = bpsWidth summary := by
  rw [bpsText, bpsWidth]
  cases summary.bids.head? with
  | none => rfl
  | some bid =>
    cases summary.asks.head? with
    | none => rfl
    | some ask =>
      show List.length (if _ then _ else _) = if _ then _ else _
      split
      · rfl
      · rw [List.length_append]
        rfl

theorem length_rateText (stats : Stats) : (rateText stats).length = rateWidth stats := by
  rw [rateText, rateWidth]
  split
  · rw [List.length_append]
    rfl
  · rfl

theorem length_spreadLine (summary : Summary) (stats : Stats) :
    (spreadLine summary stats false).length = spreadWidth summary stats := by
  rw [spreadLine_plain, spreadField, countFields]
  simp only [List.length_append, Fmt.length_left, Fmt.length_right, length_bpsText,
    length_rateText, spreadWidth]
  rw [show "spread ".toList.length = 7 from rfl, show " (".toList.length = 2 from rfl,
    show ")".toList.length = 1 from rfl, show " updates   ".toList.length = 11 from rfl]
  omega

/-! ## Both frames -/

/-- The levels with a row. -/
def shownLevels (summary : Summary) : List Level :=
  summary.bids.take ROWS ++ summary.asks.take ROWS

theorem mem_shownLevels {summary : Summary} {level : Level} :
    level ∈ shownLevels summary ↔
      ∃ i < ROWS, summary.bids[i]? = some level ∨ summary.asks[i]? = some level := by
  have side (levels : List Level) :
      level ∈ levels.take ROWS ↔ ∃ i < ROWS, levels[i]? = some level := by
    rw [List.mem_iff_getElem?]
    apply exists_congr
    intro i
    rw [List.getElem?_take]
    by_cases shown : i < ROWS
    · rw [if_pos shown, and_iff_right shown]
    · rw [if_neg shown]
      exact iff_of_false (fun found => by cases found) (fun found => shown found.1)
  rw [shownLevels, List.mem_append, side, side]
  refine ⟨?_, ?_⟩
  · rintro (⟨i, shown, found⟩ | ⟨i, shown, found⟩)
    · exact ⟨i, shown, Or.inl found⟩
    · exact ⟨i, shown, Or.inr found⟩
  · rintro ⟨i, shown, found | found⟩
    · exact Or.inl ⟨i, shown, found⟩
    · exact Or.inr ⟨i, shown, found⟩

theorem mem_rowText {summary : Summary} {i : Nat} {level : Level}
    (found : summary.bids[i]? = some level ∨ summary.asks[i]? = some level) {c : Char}
    (member : c ∈ textOf (some level)) : c ∈ rowText summary i := by
  rw [rowText, beside]
  rcases found with bid | ask
  · rw [bid]
    exact List.mem_append_left _ (List.mem_append_left _ member)
  · rw [ask]
    exact List.mem_append_right _ member

theorem beside_ne_ESC {bid ask : Text} (bidClean : ∀ c ∈ bid, c ≠ ESC)
    (askClean : ∀ c ∈ ask, c ≠ ESC) : ∀ c ∈ beside bid ask, c ≠ ESC := by
  intro c member
  rcases List.mem_append.mp member with before | inAsk
  · rcases List.mem_append.mp before with inBid | blank
    · exact bidClean c inBid
    · rw [List.mem_singleton.mp blank]
      decide
  · exact askClean c inAsk

theorem rowText_ne_ESC {summary : Summary} {i : Nat} (bid : NoEscape summary.bids[i]?)
    (ask : NoEscape summary.asks[i]?) : ∀ c ∈ rowText summary i, c ≠ ESC :=
  beside_ne_ESC (textOf_ne_ESC bid) (textOf_ne_ESC ask)

theorem rowCut_ne_ESC {summary : Summary} {i : Nat} (bid : NoEscape summary.bids[i]?)
    (ask : NoEscape summary.asks[i]?) : ∀ c ∈ rowCut summary i, c ≠ ESC :=
  beside_ne_ESC (cutOf_ne_ESC bid) (cutOf_ne_ESC ask)

/-- The lines of the frame without colour. -/
def plainPieces (venues : List Venue) (tracker : VenueTracker) (present : Venue → Bool)
    (summary : Summary) (stats : Stats) (clock : FrameClock) (levels : Nat → Text) : List Text :=
  pieces [] (headerLine venues tracker present clock false) ((List.range ROWS).map levels)
    (spreadLine summary stats false)

theorem render_plain (venues : List Venue) (tracker : VenueTracker) (present : Venue → Bool)
    (summary : Summary) (stats : Stats) (clock : FrameClock) :
    render venues tracker present summary stats false clock =
      some (plainPieces venues tracker present summary stats clock (rowText summary)).flatten := by
  have rows : (List.range ROWS).mapM (levelContent summary false) =
      some ((List.range ROWS).map (rowText summary)) := by
    rw [funext (levelContent_plain summary)]
    exact List.mapM_pure
  rw [render_eq, rows]
  rfl

theorem exists_of_mem_left {α β : Type} {R : α → β → Prop} {xs : List α} {ys : List β}
    (related : List.Forall₂ R xs ys) {x : α} (member : x ∈ xs) : ∃ y ∈ ys, R x y := by
  induction related with
  | nil => cases member
  | @cons a b xs ys first _ ih =>
    rcases List.mem_cons.mp member with rfl | later
    · exact ⟨b, List.mem_cons_self, first⟩
    · obtain ⟨y, inside, found⟩ := ih later
      exact ⟨y, List.mem_cons_of_mem _ inside, found⟩

theorem mapM_forall₂ {α β γ : Type} {f : α → Option β} {R : β → γ → Prop} {g : α → γ}
    {items : List α} (each : ∀ item ∈ items, ∃ out, f item = some out ∧ R out (g item)) :
    ∃ outs, items.mapM f = some outs ∧ List.Forall₂ R outs (items.map g) := by
  induction items with
  | nil => exact ⟨[], rfl, .nil⟩
  | cons item items ih =>
    rw [List.forall_mem_cons] at each
    obtain ⟨out, written, related⟩ := each.1
    obtain ⟨outs, rest, all⟩ := ih each.2
    refine ⟨out :: outs, ?_, .cons related all⟩
    rw [List.mapM_cons, written, rest]
    rfl

/-- The frame with colour, whose cells are cut. -/
theorem render_coloured (venues : List Venue) (tracker : VenueTracker) (present : Venue → Bool)
    {summary : Summary} (stats : Stats) (clock : FrameClock)
    (clean : ∀ i < ROWS, NoEscape summary.bids[i]? ∧ NoEscape summary.asks[i]?) :
    ∃ levels, List.Forall₂ Draws levels ((List.range ROWS).map (rowCut summary)) ∧
      render venues tracker present summary stats true clock =
        some (pieces (homeOf true) (headerLine venues tracker present clock true) levels
          (spreadLine summary stats true)).flatten := by
  have each : ∀ i ∈ List.range ROWS, ∃ out, levelContent summary true i = some out ∧
      Draws out (rowCut summary i) := by
    intro i member
    obtain ⟨bid, ask⟩ := clean i (List.mem_range.mp member)
    exact draws_levelContent bid ask
  obtain ⟨levels, rows, drawn⟩ := mapM_forall₂ each
  refine ⟨levels, drawn, ?_⟩
  rw [render_eq, rows]
  rfl

/-- Without its escape sequences it is the plain frame of the cut cells. -/
theorem strip_coloured {venues : List Venue} {tracker : VenueTracker} {present : Venue → Bool}
    {summary : Summary} {stats : Stats} {clock : FrameClock} {levels : List Text}
    (drawn : List.Forall₂ Draws levels ((List.range ROWS).map (rowCut summary))) :
    strip (pieces (homeOf true) (headerLine venues tracker present clock true) levels
        (spreadLine summary stats true)).flatten =
      (plainPieces venues tracker present summary stats clock (rowCut summary)).flatten :=
  (draws_pieces (draws_headerLine venues tracker present clock) drawn
    (draws_spreadLine summary stats)).stripped

/-- Everything a frame shows has its room. -/
structure Fits (venues : List Venue) (tracker : VenueTracker) (present : Venue → Bool)
    (summary : Summary) (stats : Stats) (now : Instant) : Prop where
  status : statusWidth venues tracker present now ≤ 56
  spread : spreadWidth summary stats ≤ TABLE_WIDTH
  rows : ∀ i < ROWS, RowFits summary.bids[i]? summary.asks[i]?
  labels : ∀ level ∈ shownLevels summary, Inline level.exchange

/-- Every line has the table's width, with colour and without, and what colour adds is escape
sequences. -/
def FixedFrame (venues : List Venue) (tracker : VenueTracker) (present : Venue → Bool)
    (summary : Summary) (stats : Stats) (clock : FrameClock) : Prop :=
  ∃ coloured plain, render venues tracker present summary stats true clock = some coloured ∧
    render venues tracker present summary stats false clock = some plain ∧
    Exact coloured ∧ Exact plain ∧ strip coloured = plain

section FixedFrame

variable {venues : List Venue} {tracker : VenueTracker} {present : Venue → Bool}
variable {summary : Summary} {stats : Stats} {clock : FrameClock}

theorem row_rowCut_iff {i : Nat} (bid : NoEscape summary.bids[i]?)
    (ask : NoEscape summary.asks[i]?) :
    row (rowCut summary i) = row (rowText summary i) ↔
      RowFits summary.bids[i]? summary.asks[i]? := by
  rw [row_inj (rowCut_ne_ESC bid ask) (rowText_ne_ESC bid ask), left_rowCut_iff]

/-- The rows of the cut cells are the plain rows exactly when all rows fit. -/
theorem rows_eq_iff (clean : ∀ i < ROWS, NoEscape summary.bids[i]? ∧ NoEscape summary.asks[i]?) :
    ((List.range ROWS).map (rowCut summary)).map row =
        ((List.range ROWS).map (rowText summary)).map row ↔
      ∀ i < ROWS, RowFits summary.bids[i]? summary.asks[i]? := by
  rw [List.map_map, List.map_map, List.map_inj_left]
  apply forall_congr'
  intro i
  rw [List.mem_range]
  apply imp_congr_right
  intro shown
  obtain ⟨bid, ask⟩ := clean i shown
  exact row_rowCut_iff bid ask

/-- No row of cut cells is longer than the plain row. -/
theorem rows_shorter (clean : ∀ i < ROWS, NoEscape summary.bids[i]? ∧ NoEscape summary.asks[i]?) :
    List.Forall₂ (fun x y => x.length ≤ y.length)
      (((List.range ROWS).map (rowCut summary)).map row)
      (((List.range ROWS).map (rowText summary)).map row) := by
  rw [List.map_map, List.map_map]
  apply forall₂_map
  intro i member
  obtain ⟨bid, ask⟩ := clean i (List.mem_range.mp member)
  show (row (rowCut summary i)).length ≤ (row (rowText summary i)).length
  rw [row_eq, row_eq, List.length_append, List.length_append,
    length_rowBody (rowCut_ne_ESC bid ask), length_rowBody (rowText_ne_ESC bid ask),
    length_rowCut]
  unfold TABLE_WIDTH CELL_WIDTH
  omega

/-- The cut cells make the plain frame exactly when all rows fit. -/
theorem cut_frame_iff (clean : ∀ i < ROWS, NoEscape summary.bids[i]? ∧ NoEscape summary.asks[i]?) :
    (plainPieces venues tracker present summary stats clock (rowCut summary)).flatten =
        (plainPieces venues tracker present summary stats clock (rowText summary)).flatten ↔
      ∀ i < ROWS, RowFits summary.bids[i]? summary.asks[i]? := by
  rw [← rows_eq_iff clean]
  refine ⟨?_, ?_⟩
  · intro same
    apply flatten_inj_of_length_le (rows_shorter clean)
    rw [plainPieces, plainPieces, pieces, pieces, List.flatten_append, List.flatten_append,
      List.flatten_append, List.flatten_append, List.append_cancel_right_eq,
      List.append_cancel_left_eq] at same
    exact same
  · intro rows
    rw [plainPieces, plainPieces, pieces, pieces, rows]

theorem noEscape_of_labels (clean : ∀ level ∈ shownLevels summary, ESC ∉ level.exchange) :
    ∀ i < ROWS, NoEscape summary.bids[i]? ∧ NoEscape summary.asks[i]? := by
  intro i shown
  refine ⟨?_, ?_⟩
  · intro level found
    exact clean level (mem_shownLevels.mpr ⟨i, shown, Or.inl found⟩)
  · intro level found
    exact clean level (mem_shownLevels.mpr ⟨i, shown, Or.inr found⟩)

theorem single_rowCut (labels : ∀ level ∈ shownLevels summary, '\n' ∉ level.exchange) {i : Nat}
    (shown : i < ROWS) : '\n' ∉ rowCut summary i := by
  have cell {level : Option Level} (label : ∀ l ∈ level, '\n' ∉ l.exchange) :
      '\n' ∉ cutOf level := by
    intro broken
    have inText := List.mem_of_mem_take broken
    cases level with
    | none => exact absurd (List.eq_of_mem_replicate inText) (by decide)
    | some level => exact label level rfl ((mem_textOf_iff (Or.inl rfl)).mp inText)
  intro broken
  rcases List.mem_append.mp broken with before | inAsk
  · rcases List.mem_append.mp before with inBid | blank
    · refine cell (fun level found => ?_) inBid
      exact labels level (mem_shownLevels.mpr ⟨i, shown, Or.inl found⟩)
    · exact absurd blank (by decide)
  · refine cell (fun level found => ?_) inAsk
    exact labels level (mem_shownLevels.mpr ⟨i, shown, Or.inr found⟩)

/-- A row that fits is no wider than the table. -/
theorem length_rowText_le {i : Nat} (fits : RowFits summary.bids[i]? summary.asks[i]?) :
    (rowText summary i).length ≤ TABLE_WIDTH := by
  have same := congrArg List.length ((left_rowCut_iff summary i).mpr fits)
  rw [Fmt.length_left, Fmt.length_left, length_rowCut] at same
  unfold TABLE_WIDTH CELL_WIDTH at *
  omega

theorem fixedFrame_of_fits (fits : Fits venues tracker present summary stats clock.now) :
    FixedFrame venues tracker present summary stats clock := by
  have labels : ∀ level ∈ shownLevels summary, '\n' ∉ level.exchange ∧ ESC ∉ level.exchange := by
    intro level member
    have inline := fits.labels level member
    exact ⟨inline.single, fun escape => inline.ne_ESC ESC escape rfl⟩
  have clean := noEscape_of_labels fun level member => (labels level member).2
  have cut : (plainPieces venues tracker present summary stats clock (rowCut summary)).flatten =
      (plainPieces venues tracker present summary stats clock (rowText summary)).flatten :=
    (cut_frame_iff clean).mpr fits.rows
  obtain ⟨levels, drawn, written⟩ := render_coloured venues tracker present stats clock clean
  have header {content : Text}
      (draws : Draws content (headerLine venues tracker present clock false)) :
      Exact (row content) := by
    rw [exact_row_iff draws (inline_headerLine venues tracker present clock).single,
      length_headerLine]
    have status := fits.status
    unfold TABLE_WIDTH
    omega
  have spread {content : Text} (draws : Draws content (spreadLine summary stats false)) :
      Exact (row content) := by
    rw [exact_row_iff draws (inline_spreadLine summary stats).single, length_spreadLine]
    exact fits.spread
  have rows : ∀ text ∈ (List.range ROWS).map (rowCut summary), ∀ content, Draws content text →
      Exact (row content) := by
    intro text member content draws
    obtain ⟨i, inRange, rfl⟩ := List.mem_map.mp member
    have single := single_rowCut (fun level member => (labels level member).1)
      (List.mem_range.mp inRange)
    rw [exact_row_iff draws single, length_rowCut]
    decide
  refine ⟨_, _, written, render_plain venues tracker present summary stats clock, ?_, ?_, ?_⟩
  · rw [exact_pieces_iff]
    refine ⟨header (draws_headerLine venues tracker present clock), ?_,
      spread (draws_spreadLine summary stats)⟩
    intro content member
    obtain ⟨text, inRows, draws⟩ := exists_of_mem_left drawn member
    exact rows text inRows content draws
  · rw [← cut, plainPieces, show ([] : Text) = homeOf false from rfl, exact_pieces_iff]
    refine ⟨header (draws_text (inline_headerLine venues tracker present clock).ne_ESC), ?_,
      spread (draws_text (inline_spreadLine summary stats).ne_ESC)⟩
    intro text inRows
    obtain ⟨i, inRange, rfl⟩ := List.mem_map.mp inRows
    obtain ⟨bid, ask⟩ := clean i (List.mem_range.mp inRange)
    exact rows _ inRows _ (draws_text (rowCut_ne_ESC bid ask))
  · rw [strip_coloured drawn, cut]

theorem mem_plainPieces {levels : Nat → Text} {i : Nat} (shown : i < ROWS) {c : Char}
    (member : c ∈ levels i) :
    c ∈ (plainPieces venues tracker present summary stats clock levels).flatten := by
  refine List.mem_flatten.mpr ⟨row (levels i), ?_, ?_⟩
  · apply List.mem_append_left
    apply List.mem_append_right
    exact List.mem_map_of_mem (List.mem_map_of_mem (List.mem_range.mpr shown))
  · rw [row, List.append_assoc, List.append_assoc]
    exact List.mem_append_right _ (List.mem_append_left _ member)

theorem fits_of_fixedFrame (fixed : FixedFrame venues tracker present summary stats clock) :
    Fits venues tracker present summary stats clock.now := by
  obtain ⟨coloured, plain, written, plainWritten, -, exact_plain, same⟩ := fixed
  rw [render_plain, Option.some_inj] at plainWritten
  -- without its sequences the coloured frame has no escape, so no label has one
  have noEscape : ∀ level ∈ shownLevels summary, ESC ∉ level.exchange := by
    intro level member escape
    obtain ⟨i, shown, found⟩ := mem_shownLevels.mp member
    have inRow := mem_rowText found ((mem_textOf_iff (Or.inr rfl)).mpr escape)
    have inPlain : ESC ∈ plain := by
      rw [← plainWritten]
      exact mem_plainPieces shown inRow
    rw [← same, strip, List.mem_map] at inPlain
    obtain ⟨cell, visible, escape⟩ := inPlain
    exact ne_ESC_of_mem_cells visible escape
  have clean := noEscape_of_labels noEscape
  obtain ⟨levels, drawn, coloured_eq⟩ := render_coloured venues tracker present stats clock clean
  rw [coloured_eq, Option.some_inj] at written
  have cut : (plainPieces venues tracker present summary stats clock (rowCut summary)).flatten =
      (plainPieces venues tracker present summary stats clock (rowText summary)).flatten := by
    rw [plainWritten, ← same, ← written, strip_coloured drawn]
  have rows := (cut_frame_iff clean).mp cut
  rw [← plainWritten, plainPieces, show ([] : Text) = homeOf false from rfl,
    exact_pieces_iff] at exact_plain
  obtain ⟨header, exact_rows, spread⟩ := exact_plain
  refine ⟨?_, ?_, rows, ?_⟩
  · have inline := inline_headerLine venues tracker present clock
    rw [exact_row_iff (draws_text inline.ne_ESC) inline.single, length_headerLine] at header
    unfold TABLE_WIDTH at header
    omega
  · have inline := inline_spreadLine summary stats
    rwa [exact_row_iff (draws_text inline.ne_ESC) inline.single, length_spreadLine] at spread
  · intro level member c inLabel
    refine ⟨?_, fun escape => noEscape level member (escape ▸ inLabel)⟩
    rintro rfl
    obtain ⟨i, shown, found⟩ := mem_shownLevels.mp member
    obtain ⟨bid, ask⟩ := clean i shown
    have inRange := List.mem_map_of_mem (f := rowText summary) (List.mem_range.mpr shown)
    exact single_of_exact_row (rowText_ne_ESC bid ask) (length_rowText_le (rows i shown))
      (exact_rows _ inRange) (mem_rowText found ((mem_textOf_iff (Or.inl rfl)).mpr inLabel))

end FixedFrame

/-- A frame is fixed exactly when everything it shows has its room. -/
theorem fixedFrame_iff (venues : List Venue) (tracker : VenueTracker) (present : Venue → Bool)
    (summary : Summary) (stats : Stats) (clock : FrameClock) :
    FixedFrame venues tracker present summary stats clock ↔
      Fits venues tracker present summary stats clock.now :=
  ⟨fits_of_fixedFrame, fixedFrame_of_fits⟩

/-- One bid and one ask at five-digit prices. -/
def fiveDigits : Summary where
  spread := F64.ofNat 1
  bids := [⟨Venue.binance.display, F64.ofNat 65000, F64.ofNat 1⟩]
  asks := [⟨Venue.kraken.display, F64.ofNat 65001, F64.ofNat 1⟩]

/-- A price from 10000 on takes two columns more than its format has. -/
theorem fiveDigits_not_fixed :
    ¬ FixedFrame VENUES ⟨fun _ => none⟩ (fun _ => true) fiveDigits ⟨1, F64.zero⟩ ⟨0, 0⟩ := by
  intro fixed
  have wide : cellWidth ⟨Venue.binance.display, F64.ofNat 65000, F64.ofNat 1⟩ = 37 := by
    decide +kernel
  have bid : widthOf fiveDigits.bids[0]? = 37 := wide
  rcases (fits_of_fixedFrame fixed).rows 0 (by decide) with ⟨fits, -⟩ | ⟨fits, -⟩ | ⟨missing, -⟩
  · rw [bid] at fits
    exact absurd fits (by decide)
  · rw [bid] at fits
    exact absurd fits (by decide)
  · cases missing

end Client

end Orderbook
