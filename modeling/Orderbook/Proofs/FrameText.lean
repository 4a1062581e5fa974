import Orderbook.Proofs.ShadeCell

/-!
# What a frame's lines show

Every line drawn with colour shows the text of the line drawn without it. A cell shows the first
`CELL_WIDTH` characters of that text.
-/

namespace Orderbook

namespace Client

open Ansi

/-! ## Widths -/

/-- Where `visible_len` is when the terminal is at this place. -/
def skipOf : Place → Skip
  | .ground => .outside
  | .escape => .escape
  | .params _ => .sequence

theorem visibleLenFrom_skipOf (place : Place) (pen : Pen) (out : Text) :
    visibleLenFrom (skipOf place) out = (cells ⟨place, pen⟩ out).length := by
  induction out generalizing place pen with
  | nil => cases place <;> rfl
  | cons c out ih =>
    rw [cells_cons, List.length_append]
    cases place with
    | ground =>
      have here : (⟨.ground, pen⟩ : Terminal) = .ground pen := rfl
      have counted : visibleLenFrom (skipOf .ground) (c :: out) =
          if c = ESC then visibleLenFrom .escape out else visibleLenFrom .outside out + 1 := rfl
      rw [here, counted]
      by_cases escape : c = ESC
      · rw [if_pos escape, escape, machine_ESC, ← ih]
        exact (Nat.zero_add _).symm
      · rw [if_neg escape, machine_text escape, Terminal.ground, ← ih]
        exact Nat.add_comm _ 1
    | escape =>
      have counted : visibleLenFrom (skipOf .escape) (c :: out) =
          visibleLenFrom (if c = '[' then .sequence else .outside) out := rfl
      rw [counted, machine_escape, ← ih]
      by_cases bracket : c = '['
      · rw [if_pos bracket, if_pos bracket]
        exact (Nat.zero_add _).symm
      · rw [if_neg bracket, if_neg bracket]
        exact (Nat.zero_add _).symm
    | params read =>
      have counted : visibleLenFrom (skipOf (.params read)) (c :: out) =
          visibleLenFrom (if c.isAlpha then .outside else .sequence) out := rfl
      rw [counted]
      cases letter : c.isAlpha with
      | true =>
        rw [machine_letter pen read letter, Terminal.ground, ← ih]
        exact (Nat.zero_add _).symm
      | false =>
        rw [machine_param pen read letter, ← ih]
        exact (Nat.zero_add _).symm

/-- `visible_len` counts what is left without the escape sequences. -/
theorem visibleLen_eq (out : Text) : visibleLen out = (strip out).length := by
  rw [strip, List.length_map]
  exact visibleLenFrom_skipOf .ground .plain out

theorem visibleLen_of_draws {out text : Text} (drawn : Draws out text) :
    visibleLen out = text.length := by
  rw [visibleLen_eq, drawn.stripped]

theorem visibleLen_of_plain {text : Text} (plain : ∀ c ∈ text, c ≠ ESC) :
    visibleLen text = text.length := visibleLen_of_draws (draws_text plain)

theorem visibleLen_le (out : Text) : visibleLen out ≤ out.length := by
  rw [visibleLen_eq, strip, List.length_map]
  exact length_cells_le _ out

/-! ## Texts of one line -/

/-- Text without line breaks and escape sequences. -/
def Inline (text : Text) : Prop := ∀ c ∈ text, c ≠ '\n' ∧ c ≠ ESC

theorem Inline.ne_ESC {text : Text} (inline : Inline text) : ∀ c ∈ text, c ≠ ESC :=
  fun c member => (inline c member).2

theorem Inline.single {text : Text} (inline : Inline text) : '\n' ∉ text :=
  fun member => (inline '\n' member).1 rfl

@[simp] theorem inline_append {text more : Text} :
    Inline (text ++ more) ↔ Inline text ∧ Inline more := List.forall_mem_append

/-- A text that is written out. -/
theorem inline_of_all {text : Text}
    (all : text.all (fun c => c != '\n' && c != ESC) = true) : Inline text := by
  intro c member
  have here := List.all_eq_true.mp all c member
  rw [Bool.and_eq_true, bne_iff_ne, bne_iff_ne] at here
  exact here

theorem inline_blanks (n : Nat) : Inline (List.replicate n ' ') := by
  intro c member
  rw [List.eq_of_mem_replicate member]
  exact ⟨by decide, by decide⟩

theorem inline_left {width : Nat} {s : Text} (inline : Inline s) : Inline (Fmt.left width s) :=
  inline_append.mpr ⟨inline, inline_blanks _⟩

theorem inline_right {width : Nat} {s : Text} (inline : Inline s) : Inline (Fmt.right width s) :=
  inline_append.mpr ⟨inline_blanks _, inline⟩

/-- A digit is not one of the characters that are none. -/
theorem ne_of_isDigit {c d : Char} (digit : c.isDigit = true) (other : d.isDigit = false) :
    c ≠ d := by
  rintro rfl
  rw [digit] at other
  cases other

theorem inline_nat (n : Nat) : Inline (Fmt.nat n) := by
  intro c member
  have digit := Fmt.isDigit_of_mem_nat member
  exact ⟨ne_of_isDigit digit rfl, ne_of_isDigit digit rfl⟩

theorem inline_zeroPadded (width n : Nat) : Inline (Fmt.zeroPadded width n) := by
  intro c member
  have digit := Fmt.isDigit_of_mem_zeroPadded member
  exact ⟨ne_of_isDigit digit rfl, ne_of_isDigit digit rfl⟩

/-- A number has no blanks either. -/
theorem fixed_graphic {places : Nat} {x : F64} {c : Char} (member : c ∈ Fmt.fixed places x) :
    c ≠ '\n' ∧ c ≠ ESC ∧ c ≠ ' ' := by
  rcases Fmt.mem_fixed member with digit | other
  · exact ⟨ne_of_isDigit digit rfl, ne_of_isDigit digit rfl, ne_of_isDigit digit rfl⟩
  · have graphic : ".-NaNinf".toList.all
        (fun d => d != '\n' && (d != ESC && d != ' ')) = true := rfl
    have here := List.all_eq_true.mp graphic c other
    simp only [Bool.and_eq_true, bne_iff_ne] at here
    exact here

theorem inline_fixed (places : Nat) (x : F64) : Inline (Fmt.fixed places x) := by
  intro c member
  have graphic := fixed_graphic member
  exact ⟨graphic.1, graphic.2.1⟩

theorem inline_display (venue : Venue) : Inline venue.display := by
  cases venue <;> exact inline_of_all rfl

/-! ## The status line -/

theorem draws_colourize (params : Text) {text : Text} (inline : Inline text)
    (inside : ∀ c ∈ params, c.isAlpha = false) (single : '\n' ∉ params) :
    Draws (colourize text (ESC :: '[' :: (params ++ ['m'])) true) text :=
  draws_rendered inside single inline.ne_ESC

theorem inline_statusOf (tracker : VenueTracker) (present : Venue → Bool) (now : Instant)
    (venue : Venue) : Inline (statusOf tracker present now false venue) := by
  rw [statusOf]
  split
  · exact inline_append.mpr ⟨inline_display venue, inline_of_all rfl⟩
  · have stale : Inline " ○ stale ".toList := inline_of_all rfl
    have seconds : Inline "s".toList := inline_of_all rfl
    show Inline (_ ++ _ ++ _ ++ _)
    simp only [inline_append, inline_display, stale, inline_fixed, seconds, and_self]

theorem draws_statusOf (tracker : VenueTracker) (present : Venue → Bool) (now : Instant)
    (venue : Venue) :
    Draws (statusOf tracker present now true venue) (statusOf tracker present now false venue) := by
  have inline := inline_statusOf tracker present now venue
  rw [statusOf] at inline ⊢
  rw [statusOf]
  split
  · rename_i seen
    rw [if_pos seen] at inline
    exact draws_colourize "32".toList inline (notAlpha_of_all rfl) (by decide)
  · rename_i unseen
    rw [if_neg unseen] at inline
    exact draws_colourize "31".toList inline (notAlpha_of_all rfl) (by decide)

theorem forall₂_map {α β γ : Type} {R : β → γ → Prop} {f : α → β} {g : α → γ} {items : List α}
    (related : ∀ item ∈ items, R (f item) (g item)) :
    List.Forall₂ R (items.map f) (items.map g) := by
  rw [List.forall₂_map_left_iff, List.forall₂_map_right_iff]
  exact List.forall₂_same.mpr related

theorem draws_venueStatus (venues : List Venue) (tracker : VenueTracker) (present : Venue → Bool)
    (now : Instant) :
    Draws (venueStatus venues tracker present now true)
      (venueStatus venues tracker present now false) :=
  draws_intersperse (ne_ESC_of_all rfl)
    (forall₂_map fun venue _ => draws_statusOf tracker present now venue)

theorem inline_intersperse {separator : Text} (inline : Inline separator) {texts : List Text}
    (all : ∀ text ∈ texts, Inline text) : Inline (texts.intersperse separator).flatten := by
  induction texts with
  | nil => exact fun c member => absurd member List.not_mem_nil
  | cons text texts ih =>
    rw [List.forall_mem_cons] at all
    have rest := ih all.2
    cases texts with
    | nil => exact inline_append.mpr ⟨all.1, rest⟩
    | cons next texts =>
      exact inline_append.mpr ⟨all.1, inline_append.mpr ⟨inline, rest⟩⟩

theorem inline_venueStatus (venues : List Venue) (tracker : VenueTracker)
    (present : Venue → Bool) (now : Instant) :
    Inline (venueStatus venues tracker present now false) := by
  apply inline_intersperse
  · exact inline_blanks 2
  · intro text member
    obtain ⟨venue, -, rfl⟩ := List.mem_map.mp member
    exact inline_statusOf tracker present now venue

theorem inline_nowHms (secs : Nat) : Inline (nowHms secs) := by
  have colon : Inline ":".toList := inline_of_all rfl
  simp only [nowHms, inline_append, inline_zeroPadded, colon, and_self]

theorem inline_headerLine (venues : List Venue) (tracker : VenueTracker)
    (present : Venue → Bool) (clock : FrameClock) :
    Inline (headerLine venues tracker present clock false) := by
  rw [headerLine, inline_append, inline_append]
  exact ⟨⟨inline_venueStatus venues tracker present clock.now, inline_blanks _⟩,
    inline_right (inline_nowHms clock.secs)⟩

/-- The status line with colour shows the one without: its padding is counted without escapes. -/
theorem draws_headerLine (venues : List Venue) (tracker : VenueTracker)
    (present : Venue → Bool) (clock : FrameClock) :
    Draws (headerLine venues tracker present clock true)
      (headerLine venues tracker present clock false) := by
  have status := draws_venueStatus venues tracker present clock.now
  have width : visibleLen (venueStatus venues tracker present clock.now true) =
      visibleLen (venueStatus venues tracker present clock.now false) := by
    rw [visibleLen_of_draws status, visibleLen_of_plain status.ne_ESC]
  rw [headerLine, headerLine, width]
  exact (status.append (draws_text (inline_blanks _).ne_ESC)).append
    (draws_text (inline_right (inline_nowHms clock.secs)).ne_ESC)

/-! ## The bottom line -/

theorem inline_bpsText (summary : Summary) : Inline (bpsText summary) := by
  have missing : Inline "n/a".toList := inline_of_all rfl
  have unit : Inline " bps".toList := inline_of_all rfl
  rw [bpsText]
  split
  · split
    · exact missing
    · exact inline_append.mpr ⟨inline_fixed 1 _, unit⟩
  · exact missing

theorem inline_rateText (stats : Stats) : Inline (rateText stats) := by
  have unit : Inline "/s".toList := inline_of_all rfl
  have unknown : Inline "-.-/s".toList := inline_of_all rfl
  rw [rateText]
  split
  · exact inline_append.mpr ⟨inline_fixed 1 _, unit⟩
  · exact unknown

/-- The spread field before its colour. -/
def spreadField (summary : Summary) : Text :=
  Fmt.left 40 ("spread ".toList ++ Fmt.right 12 (Fmt.fixed 8 summary.spread) ++ " (".toList ++
    bpsText summary ++ ")".toList)

/-- The fields after it. -/
def countFields (stats : Stats) : Text :=
  Fmt.right 8 (Fmt.nat stats.count) ++ " updates   ".toList ++ Fmt.left 8 (rateText stats)

theorem spreadLine_eq (summary : Summary) (stats : Stats) (colour : Bool) :
    spreadLine summary stats colour =
      (if summary.spread.lt F64.zero then
        colourize (spreadField summary) "\x1b[1;31m".toList colour
      else spreadField summary) ++ countFields stats := by
  simp only [spreadLine, spreadField, countFields, List.append_assoc]

theorem inline_spreadField (summary : Summary) : Inline (spreadField summary) := by
  have name : Inline "spread ".toList := inline_of_all rfl
  have opening : Inline " (".toList := inline_of_all rfl
  have closing : Inline ")".toList := inline_of_all rfl
  have number : Inline (Fmt.right 12 (Fmt.fixed 8 summary.spread)) :=
    inline_right (inline_fixed 8 summary.spread)
  apply inline_left
  simp only [inline_append, name, number, opening, inline_bpsText summary, closing, and_self]

theorem inline_countFields (stats : Stats) : Inline (countFields stats) := by
  have words : Inline " updates   ".toList := inline_of_all rfl
  rw [countFields, inline_append, inline_append]
  exact ⟨⟨inline_right (inline_nat stats.count), words⟩, inline_left (inline_rateText stats)⟩

theorem spreadLine_plain (summary : Summary) (stats : Stats) :
    spreadLine summary stats false = spreadField summary ++ countFields stats := by
  rw [spreadLine_eq]
  split <;> rfl

theorem inline_spreadLine (summary : Summary) (stats : Stats) :
    Inline (spreadLine summary stats false) := by
  rw [spreadLine_plain, inline_append]
  exact ⟨inline_spreadField summary, inline_countFields stats⟩

theorem draws_spreadLine (summary : Summary) (stats : Stats) :
    Draws (spreadLine summary stats true) (spreadLine summary stats false) := by
  rw [spreadLine_plain, spreadLine_eq]
  refine Draws.append ?_ (draws_text (inline_countFields stats).ne_ESC)
  split
  · exact draws_colourize "1;31".toList (inline_spreadField summary) (notAlpha_of_all rfl)
      (by decide)
  · exact draws_text (inline_spreadField summary).ne_ESC

/-! ## Cells -/

/-- The width of a level's text, whose fields have widths of 12, 13 and 8 at least. -/
def cellWidth (level : Level) : Nat :=
  max 12 (Fmt.fixed 8 level.price).length + max 13 (Fmt.fixed 8 level.amount).length +
    max 8 level.exchange.length + 2

theorem length_cellText (level : Level) : (cellText level).length = cellWidth level := by
  simp only [cellText, List.length_append, Fmt.length_left, Fmt.length_right, cellWidth]
  rw [show (" ".toList : Text).length = 1 from rfl]
  omega

theorem le_cellWidth (level : Level) : CELL_WIDTH ≤ cellWidth level := by
  unfold cellWidth CELL_WIDTH
  omega

/-- What a cell holds without colour. -/
def textOf : Option Level → Text
  | none => List.replicate CELL_WIDTH ' '
  | some level => cellText level

/-- The part a cell has room for. -/
def cutOf (level : Option Level) : Text := (textOf level).take CELL_WIDTH

/-- The width a cell needs. -/
def widthOf : Option Level → Nat
  | none => CELL_WIDTH
  | some level => cellWidth level

theorem length_textOf (level : Option Level) : (textOf level).length = widthOf level := by
  cases level with
  | none => exact List.length_replicate
  | some level => exact length_cellText level

theorem le_widthOf (level : Option Level) : CELL_WIDTH ≤ widthOf level := by
  cases level with
  | none => exact Nat.le_refl _
  | some level => exact le_cellWidth level

theorem length_cutOf (level : Option Level) : (cutOf level).length = CELL_WIDTH := by
  rw [cutOf, List.length_take, length_textOf, Nat.min_eq_left (le_widthOf level)]

theorem mem_textOf_iff {level : Level} {c : Char} (other : c = '\n' ∨ c = ESC) :
    c ∈ textOf (some level) ↔ c ∈ level.exchange := by
  have blank : c ≠ ' ' := by
    rcases other with rfl | rfl <;> decide
  have outside (places : Nat) (x : F64) : c ∉ Fmt.fixed places x := by
    intro member
    have graphic := fixed_graphic member
    rcases other with rfl | rfl
    · exact graphic.1 rfl
    · exact graphic.2.1 rfl
  simp [textOf, cellText, Fmt.left, Fmt.right, blank, outside]

/-- A level whose label has no escape. -/
def NoEscape (level : Option Level) : Prop := ∀ l ∈ level, ESC ∉ l.exchange

theorem textOf_ne_ESC {level : Option Level} (clean : NoEscape level) :
    ∀ c ∈ textOf level, c ≠ ESC := by
  rintro c member rfl
  cases level with
  | none => exact absurd (List.eq_of_mem_replicate member) (by decide)
  | some level => exact clean level rfl ((mem_textOf_iff (Or.inr rfl)).mp member)

theorem cutOf_ne_ESC {level : Option Level} (clean : NoEscape level) : ∀ c ∈ cutOf level, c ≠ ESC :=
  fun c member => textOf_ne_ESC clean c (List.mem_of_mem_take member)

theorem levelCell_plain (level : Option Level) (priceFg barBg : Text) (maxAmount : F64)
    (fillFrom : FillFrom) :
    levelCell level false priceFg barBg maxAmount fillFrom = some (textOf level) := by
  cases level <;> rfl

/-- A coloured cell shows as much as it has room for. -/
theorem draws_levelCell (side : Side) {level : Option Level} (clean : NoEscape level)
    (maxAmount : F64) (fillFrom : FillFrom) :
    ∃ out, levelCell level true (priceFg side) (barBg side) maxAmount fillFrom = some out ∧
      Draws out (cutOf level) := by
  cases level with
  | none =>
    have whole : cutOf none = List.replicate CELL_WIDTH ' ' := rfl
    refine ⟨_, rfl, ?_⟩
    rw [whole]
    exact draws_text (inline_blanks CELL_WIDTH).ne_ESC
  | some level =>
    have long : CELL_WIDTH ≤ (cellText level).length := by
      rw [length_cellText]
      exact le_cellWidth level
    exact draws_shadeCell side long (textOf_ne_ESC clean) _ fillFrom

/-- Two cells side by side. -/
def beside (bid ask : Text) : Text := bid ++ " ".toList ++ ask

theorem length_beside (bid ask : Text) : (beside bid ask).length = bid.length + 1 + ask.length := by
  rw [beside, List.length_append, List.length_append]
  rfl

/-- What a row of levels holds without colour. -/
def rowText (summary : Summary) (i : Nat) : Text :=
  beside (textOf summary.bids[i]?) (textOf summary.asks[i]?)

/-- The part it has room for. -/
def rowCut (summary : Summary) (i : Nat) : Text :=
  beside (cutOf summary.bids[i]?) (cutOf summary.asks[i]?)

theorem levelContent_plain (summary : Summary) (i : Nat) :
    levelContent summary false i = some (rowText summary i) := by
  rw [levelContent, levelCell_plain, levelCell_plain]
  rfl

theorem length_rowCut (summary : Summary) (i : Nat) :
    (rowCut summary i).length = 2 * CELL_WIDTH + 1 := by
  rw [rowCut, length_beside, length_cutOf, length_cutOf]
  rfl

theorem draws_levelContent {summary : Summary} {i : Nat} (bid : NoEscape summary.bids[i]?)
    (ask : NoEscape summary.asks[i]?) :
    ∃ out, levelContent summary true i = some out ∧ Draws out (rowCut summary i) := by
  obtain ⟨left, leftWritten, leftDrawn⟩ :=
    draws_levelCell .bid bid (maxAmountOf summary) .right
  obtain ⟨right, rightWritten, rightDrawn⟩ :=
    draws_levelCell .ask ask (maxAmountOf summary) .left
  refine ⟨left ++ " ".toList ++ right, ?_, ?_⟩
  · rw [levelContent, show "32".toList = priceFg .bid from rfl,
      show BAR_BG_BID = barBg .bid from rfl, leftWritten, show "31".toList = priceFg .ask from rfl,
      show BAR_BG_ASK = barBg .ask from rfl, rightWritten]
    rfl
  · exact (leftDrawn.append (draws_text (inline_blanks 1).ne_ESC)).append rightDrawn

end Client

end Orderbook
