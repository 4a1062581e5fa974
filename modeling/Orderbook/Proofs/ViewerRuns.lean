import Orderbook.Misc.Machine
import Orderbook.Proofs.Frame
import Orderbook.Proofs.Spread
import Orderbook.Viewer

/-!
# What the terminal shows over a run of the client

Whatever connections the client makes and loses, each frame it draws is a function of the messages
of all of them so far: their number, when each venue was last shown, and the rate over the last of
the windows the messages are cut into.
-/

namespace Orderbook

namespace Client

open F64

/-! ## The history a frame shows -/

/-- When the last message with a level of the venue came, or when the client began. -/
def lastShown (trackedAt : Instant) (venue : Venue) (seen : List Message) : Instant :=
  ((seen.filter fun message => presentIn VENUES message.summary venue).getLast?).elim trackedAt
    fun message => message.clock.updatedAt

/-- A window of the rate: its messages, when it began, and when the last of them closed it, long
enough after. -/
structure RateWindow where
  messages : List Message
  begun : Instant
  closedAt : Instant
  long : RATE_AFTER.lt (asSecsF64 (durationSince closedAt begun)) = true

/-- Messages for each second of it. -/
def RateWindow.rate (window : RateWindow) : F64 :=
  (ofNat window.messages.length).div (asSecsF64 (durationSince window.closedAt window.begun))

/-- Windows from `statsAt` on, each but the first begun where the one before ended. -/
inductive Tiled (statsAt : Instant) : List RateWindow → Instant → Prop where
  | none : Tiled statsAt [] statsAt
  | close {windows : List RateWindow} {window : RateWindow} {before : List Message}
      {last : Message} (tiled : Tiled statsAt windows window.begun)
      (messages : window.messages = before ++ [last])
      (closed : window.closedAt = last.clock.elapsedAt) :
      Tiled statsAt (windows ++ [window]) last.clock.calculatedAt

/-- The rate of the messages: they are cut into windows and an open rest, and it is that of the last
window. -/
structure Rated (statsAt : Instant) (seen : List Message) (stats : RunningStats)
    (windows : List RateWindow) (rest : List Message) : Prop where
  split : seen = (windows.map RateWindow.messages).flatten ++ rest
  tiled : Tiled statsAt windows stats.lastCalc
  counted : stats.countAtLastCalc = (windows.map RateWindow.messages).flatten.length
  rate : stats.rate = (windows.getLast?).elim F64.zero RateWindow.rate

/-- What the client keeps tells the messages so far. -/
structure Told (statsAt trackedAt : Instant) (seen : List Message) (stats : RunningStats)
    (tracker : VenueTracker) : Prop where
  count : stats.count = seen.length
  rated : ∃ windows rest, Rated statsAt seen stats windows rest
  lastSeen : ∀ venue, tracker.lastSeen venue = some (lastShown trackedAt venue seen)

/-- A frame is drawn, whatever the labels. -/
theorem levelContent_isSome (summary : Summary) (colour : Bool) (i : Nat) :
    ∃ content, levelContent summary colour i = some content := by
  have cell (side : Side) (level : Option Level) (maxAmount : F64) (fillFrom : FillFrom) :
      ∃ content, levelCell level colour (priceFg side) (barBg side) maxAmount fillFrom =
        some content := by
    cases level with
    | none => exact ⟨_, rfl⟩
    | some level =>
      cases colour with
      | false => exact ⟨_, rfl⟩
      | true =>
        have long : CELL_WIDTH ≤ (cellText level).length := by
          rw [length_cellText]
          exact le_cellWidth level
        exact ⟨_, shadeCell_eq side long _ fillFrom⟩
  obtain ⟨bid, left⟩ := cell .bid summary.bids[i]? (maxAmountOf summary) .right
  obtain ⟨ask, right⟩ := cell .ask summary.asks[i]? (maxAmountOf summary) .left
  refine ⟨bid ++ " ".toList ++ ask, ?_⟩
  rw [levelContent, show "32".toList = priceFg .bid from rfl,
    show BAR_BG_BID = barBg .bid from rfl, left, show "31".toList = priceFg .ask from rfl,
    show BAR_BG_ASK = barBg .ask from rfl, right]
  rfl

theorem render_isSome (venues : List Venue) (tracker : VenueTracker) (present : Venue → Bool)
    (summary : Summary) (stats : Stats) (colour : Bool) (clock : FrameClock) :
    ∃ frame, render venues tracker present summary stats colour clock = some frame := by
  have each : ∀ i ∈ List.range ROWS, ∃ content, levelContent summary colour i = some content ∧
      True := fun i _ => (levelContent_isSome summary colour i).imp fun _ drawn => ⟨drawn, trivial⟩
  obtain ⟨levels, rows, -⟩ := mapM_forall₂ (g := fun i => i) (R := fun _ _ => True) each
  rw [render_eq, rows]
  exact ⟨_, rfl⟩

/-! ## Rates -/

theorem Rated.record {statsAt : Instant} {seen : List Message} {stats : RunningStats}
    {windows : List RateWindow} {rest : List Message}
    (rated : Rated statsAt seen stats windows rest) (count : stats.count = seen.length)
    (message : Message) :
    ∃ windows rest, Rated statsAt (seen ++ [message])
      (stats.record message.clock.elapsedAt message.clock.calculatedAt) windows rest := by
  rw [RunningStats.record]
  split
  · rename_i long
    have number : stats.count + 1 - stats.countAtLastCalc = (rest ++ [message]).length := by
      rw [count, rated.counted, congrArg List.length rated.split, List.length_append,
        List.length_append, List.length_singleton]
      omega
    refine ⟨windows ++ [⟨rest ++ [message], stats.lastCalc, message.clock.elapsedAt, long⟩], [],
      ?_, .close rated.tiled rfl rfl, ?_, ?_⟩
    · rw [rated.split, List.map_append, List.flatten_append, List.map_singleton,
        List.flatten_singleton, List.append_nil, List.append_assoc]
    · rw [List.map_append, List.flatten_append, List.map_singleton, List.flatten_singleton,
        List.length_append, ← rated.counted, ← number]
      have split := congrArg List.length rated.split
      rw [List.length_append, ← rated.counted, ← count] at split
      change stats.count + 1 = _
      omega
    · rw [List.getLast?_concat, number]
      rfl
  · refine ⟨windows, rest ++ [message], ?_, rated.tiled, rated.counted, rated.rate⟩
    rw [rated.split, List.append_assoc]

theorem lastShown_concat (trackedAt : Instant) (venue : Venue) (seen : List Message)
    (message : Message) : lastShown trackedAt venue (seen ++ [message]) =
      if presentIn VENUES message.summary venue then message.clock.updatedAt
      else lastShown trackedAt venue seen := by
  rw [lastShown, lastShown, List.filter_append]
  cases shown : presentIn VENUES message.summary venue with
  | true => simp [shown]
  | false => simp [shown]

theorem Told.take {statsAt trackedAt : Instant} {seen : List Message} {stats : RunningStats}
    {tracker : VenueTracker} (told : Told statsAt trackedAt seen stats tracker)
    (message : Message) :
    Told statsAt trackedAt (seen ++ [message])
      (stats.record message.clock.elapsedAt message.clock.calculatedAt)
      (tracker.update VENUES message.summary message.clock.updatedAt).1 := by
  obtain ⟨windows, rest, rated⟩ := told.rated
  refine ⟨?_, rated.record told.count message, fun venue => ?_⟩
  · rw [RunningStats.record]
    split <;> rw [List.length_append, List.length_singleton, ← told.count]
  · rw [lastShown_concat, VenueTracker.update]
    dsimp only
    split
    · rfl
    · exact told.lastSeen venue

/-- A message whose frame is drawn. -/
theorem take_eq {colour written : Bool} {state : Viewer} {message : Message} {frame : Text}
    (drawn : render VENUES
      (state.tracker.update VENUES message.summary message.clock.updatedAt).1
      (presentIn VENUES message.summary) message.summary
      (state.stats.record message.clock.elapsedAt message.clock.calculatedAt).toStats colour
      message.clock.frame = some frame) :
    state.take colour message written =
      ({ state with
          stats := state.stats.record message.clock.elapsedAt message.clock.calculatedAt
          tracker := (state.tracker.update VENUES message.summary message.clock.updatedAt).1
          streaming := written }, .drew message frame) := by
  simp only [Viewer.take, VenueTracker.update] at drawn ⊢
  rw [drawn]

/-- A step keeps what the messages told and shows nothing, or draws the frame of one more. -/
theorem viewer_cases (colour : Bool) (state : Viewer) (event : ViewerEvent) :
    ((viewer colour state event).2 = .nothing ∧
      (viewer colour state event).1.stats = state.stats ∧
      (viewer colour state event).1.tracker = state.tracker) ∨
    ∃ message frame, (viewer colour state event).2 = .drew message frame ∧
      (viewer colour state event).1.stats =
        state.stats.record message.clock.elapsedAt message.clock.calculatedAt ∧
      (viewer colour state event).1.tracker =
        (state.tracker.update VENUES message.summary message.clock.updatedAt).1 ∧
      render VENUES (state.tracker.update VENUES message.summary message.clock.updatedAt).1
        (presentIn VENUES message.summary) message.summary
        (state.stats.record message.clock.elapsedAt message.clock.calculatedAt).toStats colour
        message.clock.frame = some frame := by
  unfold viewer
  split
  · cases event with
    | attempt connected =>
      left
      dsimp only
      split <;> exact ⟨rfl, rfl, rfl⟩
    | item message written =>
      dsimp only
      split
      · right
        obtain ⟨frame, drawn⟩ := render_isSome VENUES
          (state.tracker.update VENUES message.summary message.clock.updatedAt).1
          (presentIn VENUES message.summary) message.summary
          (state.stats.record message.clock.elapsedAt message.clock.calculatedAt).toStats colour
          message.clock.frame
        rw [take_eq drawn]
        exact ⟨message, frame, rfl, rfl, rfl, drawn⟩
      · exact Or.inl ⟨rfl, rfl, rfl⟩
    | streamEnds => exact Or.inl ⟨rfl, rfl, rfl⟩
    | interrupt => exact Or.inl ⟨rfl, rfl, rfl⟩
  · exact Or.inl ⟨rfl, rfl, rfl⟩

/-- A message at an instant. -/
def messageAt (summary : Summary) (now : Instant) : Message :=
  ⟨summary, ⟨now, now, now, 0, now⟩⟩

end Client

end Orderbook
