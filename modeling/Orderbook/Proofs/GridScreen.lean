import Orderbook.Proofs.BasisPoints
import Orderbook.Proofs.Frame
import Orderbook.Proofs.GridFrames
import Orderbook.Proofs.ViewerRuns

/-!
# Exact from frame to screen

What a terminal shows of an exact summary, written from its ticks without any `f64`, and that the
client's frames for the rounded summary show it.
-/

namespace Orderbook

open Mpsc Repeats F64 Ansi Client

/-! ## The exact screen -/

/-- A level in its columns. -/
def gridCell : Option (Venue × GridLevel) → Text
  | none => List.replicate CELL_WIDTH ' '
  | some (venue, level) =>
      Fmt.right 12 (tickText false level.price) ++ " ".toList ++
        Fmt.right 13 (tickText false level.amount) ++ " ".toList ++ Fmt.left 8 venue.display

/-- With colour, a cell is cut to its width. -/
def cutCell (colour : Bool) (cell : Text) : Text := if colour then cell.take CELL_WIDTH else cell

namespace GridSummary

/-- The `i`th row of levels. -/
def row (summary : GridSummary) (colour : Bool) (i : Nat) : Text :=
  beside (cutCell colour (gridCell summary.bids[i]?)) (cutCell colour (gridCell summary.asks[i]?))

/-- The bottom line with given basis points. -/
def spreadLine (summary : GridSummary) (points : Text) (stats : Stats) : Text :=
  Fmt.left 40 ("spread ".toList ++
      Fmt.right 12 (tickText (decide (summary.spread < 0)) summary.spread.natAbs) ++
      " (".toList ++ points ++ ")".toList) ++
    Fmt.right 8 (Fmt.nat stats.count) ++ " updates   ".toList ++ Fmt.left 8 (rateText stats)

/-- The whole screen below a header line. -/
def screen (summary : GridSummary) (colour : Bool) (header points : Text) (stats : Stats) : Text :=
  (pieces [] header ((List.range ROWS).map (summary.row colour))
    (summary.spreadLine points stats)).flatten

end GridSummary

/-! ## Frames of rounded summaries -/

theorem cellText_published (level : Venue × GridLevel) :
    cellText (publishedLevel level) = gridCell (some level) := by
  have price : Fmt.fixed 8 (publishedLevel level).price = tickText false level.2.price :=
    fixed_ticks false level.2.price_small
  have amount : Fmt.fixed 8 (publishedLevel level).amount = tickText false level.2.amount :=
    fixed_ticks false level.2.amount_le
  rw [cellText, price, amount]
  rfl

theorem textOf_published (level : Option (Venue × GridLevel)) :
    textOf (level.map publishedLevel) = gridCell level := by
  cases level with
  | none => rfl
  | some level => exact cellText_published level

theorem rowText_rounded (summary : GridSummary) (i : Nat) :
    rowText summary.rounded i = summary.row false i := by
  have bids : summary.rounded.bids[i]? = summary.bids[i]?.map publishedLevel := List.getElem?_map ..
  have asks : summary.rounded.asks[i]? = summary.asks[i]?.map publishedLevel := List.getElem?_map ..
  rw [rowText, bids, asks, textOf_published, textOf_published]
  rfl

theorem rowCut_rounded (summary : GridSummary) (i : Nat) :
    rowCut summary.rounded i = summary.row true i := by
  have bids : summary.rounded.bids[i]? = summary.bids[i]?.map publishedLevel := List.getElem?_map ..
  have asks : summary.rounded.asks[i]? = summary.asks[i]?.map publishedLevel := List.getElem?_map ..
  rw [rowCut, cutOf, cutOf, bids, asks, textOf_published, textOf_published]
  rfl

theorem spreadLine_rounded (summary : GridSummary) (stats : Stats) :
    spreadLine summary.rounded stats false =
      summary.spreadLine (bpsText summary.rounded) stats := by
  have smallB := (summary.bids.head summary.someBid).2.price_le
  have smallA := (summary.asks.head summary.someAsk).2.price_le
  have small : summary.spread.natAbs ≤ 2 ^ 52 := by
    rw [GridSummary.spread]
    omega
  have spread : Fmt.fixed 8 summary.rounded.spread =
      tickText (decide (summary.spread < 0)) summary.spread.natAbs := fixed_ticks _ small
  rw [spreadLine, spread]
  have plain (text : Text) : colourize text "\x1b[1;31m".toList false = text := rfl
  simp only [plain, ite_self]
  rfl

/-- The labels are names of venues. -/
theorem noEscape_rounded (summary : GridSummary) (i : Nat) :
    NoEscape summary.rounded.bids[i]? ∧ NoEscape summary.rounded.asks[i]? := by
  have clean (levels : List (Venue × GridLevel)) : NoEscape (levels.map publishedLevel)[i]? := by
    intro level found escape
    rw [List.getElem?_map] at found
    obtain ⟨⟨venue, _⟩, -, rfl⟩ := Option.map_eq_some_iff.mp found
    exact (inline_display venue).ne_ESC ESC escape rfl
  exact ⟨clean summary.bids, clean summary.asks⟩

/-- The frame of a rounded summary shows the screen of the exact one, coloured or not. -/
theorem render_rounded (summary : GridSummary) (colour : Bool) (tracker : VenueTracker)
    (present : Venue → Bool) (stats : Stats) (clock : FrameClock) :
    ∃ frame, render VENUES tracker present summary.rounded stats colour clock = some frame ∧
      strip frame = summary.screen colour (headerLine VENUES tracker present clock false)
        (bpsText summary.rounded) stats := by
  have spread := spreadLine_rounded summary stats
  cases colour with
  | false =>
    have rows : rowText summary.rounded = summary.row false :=
      funext (rowText_rounded summary)
    have drawn : List.Forall₂ Draws ((List.range ROWS).map (rowText summary.rounded))
        ((List.range ROWS).map (rowText summary.rounded)) := by
      rw [List.forall₂_same, List.forall_mem_map]
      intro i _
      obtain ⟨bid, ask⟩ := noEscape_rounded summary i
      exact draws_text (rowText_ne_ESC bid ask)
    have plain : Draws (pieces (homeOf false) _ _ _).flatten _ :=
      draws_pieces (draws_text (inline_headerLine VENUES tracker present clock).ne_ESC) drawn
        (draws_text (inline_spreadLine summary.rounded stats).ne_ESC)
    refine ⟨_, render_plain VENUES tracker present summary.rounded stats clock, ?_⟩
    rw [plainPieces]
    refine plain.stripped.trans ?_
    rw [rows, spread]
    rfl
  | true =>
    have rows : rowCut summary.rounded = summary.row true := funext (rowCut_rounded summary)
    obtain ⟨levels, drawn, rendered⟩ := render_coloured VENUES tracker present stats clock
      fun i _ => noEscape_rounded summary i
    refine ⟨_, rendered, ?_⟩
    rw [strip_coloured drawn, plainPieces, rows, spread]
    rfl

/-! ## The whole way -/

variable {H R : Type}

/-- Where every frame the feeds read is on the grid, whatever the order of the steps of all tasks
and whatever connections the terminal client makes: every frame it draws for a summary some client
of the server received shows the screen of a summary that the exact aggregator published. -/
theorem screens_exact {outside : Outside H R} {seen : R → Option Nat}
    (lawful : outside.streams.Lawful seen) (pair : Text) (startedAt : Instant)
    (events : List ProcessEvent)
    (onGrid : ∀ venue, ∀ frame ∈ framesOf venue (processShows outside pair startedAt events),
      FrameOnGrid outside venue frame.1) :
    ∃ gridCalls,
      List.Forall₂ RoundsCall (callsIn (processShows outside pair startedAt events)) gridCalls ∧
      ∀ client colour statsAt trackedAt viewerEvents message frame,
        message.summary ∈ receivedBy client
          (servedOutputs (processShows outside pair startedAt events)) →
        .drew message frame ∈
          Machine.outputs (viewer colour) (Viewer.start statsAt trackedAt) viewerEvents →
        ∃ summary ∈ gridSent gridCalls, ∃ header points stats,
          strip frame = summary.screen colour header points stats ∧ GivesPoints summary points := by
  obtain ⟨gridCalls, brings⟩ := exists_roundsCalls outside pair startedAt events onGrid
  refine ⟨gridCalls, brings, ?_⟩
  intro client colour statsAt trackedAt viewerEvents message frame received drawn
  have sublist := (received_of_rounds lawful pair startedAt events brings).2 client
  obtain ⟨summary, published, rounds⟩ := List.mem_map.mp (sublist.subset received)
  obtain ⟨before, event, -, drew⟩ := Machine.exists_of_mem_outputs _ drawn
  rcases viewer_cases colour
      (Machine.final (viewer colour) (Viewer.start statsAt trackedAt) before) event with
    ⟨silent, -⟩ | ⟨message', frame', drew', -, -, rendered⟩
  · rw [silent] at drew
    cases drew
  · rw [drew'] at drew
    cases drew
    rw [← rounds] at rendered
    obtain ⟨frame', rendered', shown⟩ := render_rounded summary colour _ _ _ _
    rw [rendered] at rendered'
    cases rendered'
    exact ⟨summary, published, _, _, _, shown, givesPoints_bpsText summary⟩

/-- A client that connects and reads one message draws it. -/
theorem outputs_one (colour : Bool) (message : Message) : ∃ frame,
    Machine.outputs (viewer colour) (Viewer.start 0 0) [.attempt true, .item message true] =
      [.nothing, .drew message frame] := by
  obtain ⟨frame, drawn⟩ := render_isSome VENUES
    ((Viewer.start 0 0).tracker.update VENUES message.summary message.clock.updatedAt).1
    (presentIn VENUES message.summary) message.summary
    ((Viewer.start 0 0).stats.record message.clock.elapsedAt message.clock.calculatedAt).toStats
    colour message.clock.frame
  refine ⟨frame, ?_⟩
  have taken : ({ Viewer.start 0 0 with streaming := true } : Viewer).take colour message true =
      (_, .drew message frame) := take_eq drawn
  rw [Machine.outputs_cons, Machine.outputs_cons, Machine.outputs_nil]
  exact congrArg (fun output => [.nothing, output]) (congrArg Prod.snd taken)

/-- The summary a client receives in the sample. -/
def quotedSummary : Summary :=
  (receivedBy 0 (servedOutputs (processShows quoting [] 0 quoteDelivered))).head
    received_quoteDelivered

theorem screens_exact_quoteDelivered :
    ∃ gridCalls frame, .drew (messageAt quotedSummary 4) frame ∈
        Machine.outputs (viewer true) (Viewer.start 0 0)
          [.attempt true, .item (messageAt quotedSummary 4) true] ∧
      ∃ summary ∈ gridSent gridCalls, ∃ header points stats,
        strip frame = summary.screen true header points stats ∧ GivesPoints summary points := by
  obtain ⟨gridCalls, -, screens⟩ := screens_exact versioned_lawful [] 0 quoteDelivered
    fun venue frame _ => quoting_onGrid venue frame.1
  obtain ⟨frame, outputs⟩ := outputs_one true (messageAt quotedSummary 4)
  have drawn : .drew (messageAt quotedSummary 4) frame ∈ Machine.outputs (viewer true)
      (Viewer.start 0 0) [.attempt true, .item (messageAt quotedSummary 4) true] := by
    rw [outputs]
    exact List.mem_cons_of_mem _ List.mem_cons_self
  exact ⟨gridCalls, frame, drawn, screens 0 true 0 0 _ _ _ (List.head_mem _) drawn⟩

end Orderbook
