import Orderbook.Misc.Windows
import Orderbook.Proofs.Staleness

/-!
# The windows of the reports

`log_report` reads and resets the histograms and `run` keeps the update count of the last report.
Cut at its reports, a run falls into windows; each report shows what its window held, and what is
left in the histograms is the open window.
-/

namespace Orderbook

open Windows

variable {H : Type}

/-- What is assumed of a histogram: no sample is rejected, each counts one, and `reset` forgets
them. -/
structure HistogramApi.Counts (api : HistogramApi H) (count : H → Nat) : Prop where
  new : count api.new = 0
  record : ∀ histogram value, ∃ recorded, api.record histogram value = some recorded ∧
    count recorded = count histogram + 1
  reset : ∀ histogram, count (api.reset histogram) = 0

/-- A turn of the loop as the reports see it: whether a book was received, and what was shown. -/
structure Turned (H : Type) where
  received : Bool
  shown : Shown H

namespace Turned

/-- A summary was published. -/
def published (turned : Turned H) : Bool := turned.shown.sent.isSome

/-- A report was logged. -/
def reported (turned : Turned H) : Bool := turned.shown.report.isSome

end Turned

/-- The loop of `run`, showing its turns; a loop that has returned receives nothing. -/
def turning (api : HistogramApi H) : Machine (RunState H) Event (Turned H) := fun state event =>
  ((turn api state event).1,
    ⟨!state.ended && event.call.isSome, (turn api state event).2⟩)

/-- A report that shows what a window held. -/
structure ReportsWindow (count : H → Nat) (window : List (Turned H)) (report : Report H) :
    Prop where
  updates : report.updatesThisWindow = some (window.countP Turned.published)
  total : count report.totalHistogram = window.countP Turned.published
  mergePublish : count report.mergePublishHistogram = window.countP Turned.published
  parse : count report.parseHistogram = window.countP Turned.received

/-- The histograms, the counters and the reports so far against the windows of the run. -/
structure InWindow (count : H → Nat) (state : RunState H) (turns : List (Turned H)) : Prop where
  total : count state.aggregator.totalHistogram =
    (windows Turned.reported turns).2.countP Turned.published
  mergePublish : count state.aggregator.mergePublishHistogram =
    (windows Turned.reported turns).2.countP Turned.published
  parse : count state.aggregator.parseHistogram =
    (windows Turned.reported turns).2.countP Turned.received
  last : state.updateCountAtLastReport +
    (windows Turned.reported turns).2.countP Turned.published = state.aggregator.updateCount
  closed : ((windows Turned.reported turns).1.map (List.countP Turned.published)).sum =
    state.updateCountAtLastReport
  updates : state.aggregator.updateCount = turns.countP Turned.published
  reports : List.Forall₂ (ReportsWindow count) (windows Turned.reported turns).1
    (turns.filterMap fun turned => turned.shown.report)

/-! ## One turn -/

/-- What a call adds to the histograms and to the update count: a parse sample always, the others
only with a published summary. -/
structure Samples (count : H → Nat) (aggregator next : Aggregator H) (sent : Option Summary) :
    Prop where
  parse : count next.parseHistogram = count aggregator.parseHistogram + 1
  mergePublish : count next.mergePublishHistogram =
    count aggregator.mergePublishHistogram + sent.toList.length
  total : count next.totalHistogram = count aggregator.totalHistogram + sent.toList.length
  updates : next.updateCount = aggregator.updateCount + sent.toList.length

theorem count_recordDuration {api : HistogramApi H} {count : H → Nat} (counts : api.Counts count)
    (histogram : H) (duration : Duration) :
    count (recordDuration api histogram duration) = count histogram + 1 := by
  obtain ⟨recorded, taken, more⟩ := counts.record histogram (asNanos duration)
  rw [recordDuration, taken, Option.getD_some, more]

theorem samples_recordAndPublish {api : HistogramApi H} {count : H → Nat}
    (counts : api.Counts count) (aggregator : Aggregator H) (tx : Watch) (call : Call) :
    Samples count aggregator (recordAndPublish api aggregator tx call).1.1
      (recordAndPublish api aggregator tx call).2 := by
  unfold recordAndPublish
  dsimp only
  split
  · exact ⟨count_recordDuration counts _ _, rfl, rfl, rfl⟩
  · split
    · exact ⟨count_recordDuration counts _ _, rfl, rfl, rfl⟩
    · exact ⟨count_recordDuration counts _ _, count_recordDuration counts _ _,
        count_recordDuration counts _ _, rfl⟩

theorem reports_concat (turns : List (Turned H)) (turned : Turned H) :
    (turns ++ [turned]).filterMap (fun turned => turned.shown.report) =
      turns.filterMap (fun turned => turned.shown.report) ++ turned.shown.report.toList := by
  rw [List.filterMap_append]
  cases report : turned.shown.report <;> simp [report]

/-- A turn that logs no report adds its samples to the open window. -/
theorem InWindow.push {count : H → Nat} {state next : RunState H} {turns : List (Turned H)}
    (inWindow : InWindow count state turns) {turned : Turned H}
    (silent : turned.shown.report = none)
    (total : count next.aggregator.totalHistogram =
      count state.aggregator.totalHistogram + turned.published.toNat)
    (mergePublish : count next.aggregator.mergePublishHistogram =
      count state.aggregator.mergePublishHistogram + turned.published.toNat)
    (parse : count next.aggregator.parseHistogram =
      count state.aggregator.parseHistogram + turned.received.toNat)
    (updates : next.aggregator.updateCount =
      state.aggregator.updateCount + turned.published.toNat)
    (last : next.updateCountAtLastReport = state.updateCountAtLastReport) :
    InWindow count next (turns ++ [turned]) := by
  have inside : turned.reported = false := by simp [Turned.reported, silent]
  have counted : ∀ (p : Turned H → Bool) (l : List (Turned H)),
      (l ++ [turned]).countP p = l.countP p + (p turned).toNat := by
    intro p l
    rw [List.countP_append, List.countP_singleton]
    cases p turned <;> rfl
  refine ⟨?_, ?_, ?_, ?_, ?_, ?_, ?_⟩
  · rw [total, inWindow.total, windows_concat_of_not inside, counted]
  · rw [mergePublish, inWindow.mergePublish, windows_concat_of_not inside, counted]
  · rw [parse, inWindow.parse, windows_concat_of_not inside, counted]
  · have before := inWindow.last
    rw [last, updates, windows_concat_of_not inside, counted]
    omega
  · rw [last, windows_concat_of_not inside]
    exact inWindow.closed
  · rw [updates, inWindow.updates, counted]
  · rw [windows_concat_of_not inside, reports_concat, silent, Option.toList_none, List.append_nil]
    exact inWindow.reports

/-- A report shows the open window and closes it. -/
theorem InWindow.report {api : HistogramApi H} {count : H → Nat} (counts : api.Counts count)
    {state : RunState H} {turns : List (Turned H)} (inWindow : InWindow count state turns)
    (running : state.ended = false) (now : Instant) :
    InWindow count (turning api state (.reportTick now)).1
      (turns ++ [(turning api state (.reportTick now)).2]) := by
  have result : turning api state (.reportTick now) =
      ({ state with
          aggregator := (logReport api state.aggregator state.updateCountAtLastReport).1
          updateCountAtLastReport := state.aggregator.updateCount },
        ⟨false, none, some (logReport api state.aggregator state.updateCountAtLastReport).2⟩) := by
    simp [turning, turn, running, logReport, Event.call]
  have closing : (turning api state (.reportTick now)).2.reported = true := by
    rw [result]
    rfl
  have last := inWindow.last
  have within : state.updateCountAtLastReport ≤ state.aggregator.updateCount := by omega
  have cut := windows_concat_of_closes closing turns
  have reported : ReportsWindow count (windows Turned.reported turns).2
      (logReport api state.aggregator state.updateCountAtLastReport).2 := by
    refine ⟨?_, inWindow.total, inWindow.mergePublish, inWindow.parse⟩
    simp only [logReport, if_pos within, Option.some_inj]
    omega
  refine ⟨?_, ?_, ?_, ?_, ?_, ?_, ?_⟩
  · rw [cut, result]
    exact counts.reset _
  · rw [cut, result]
    exact counts.reset _
  · rw [cut, result]
    exact counts.reset _
  · rw [cut, result]
    rfl
  · rw [cut, result, List.map_append, List.sum_append, inWindow.closed]
    exact last
  · rw [result, List.countP_append]
    exact inWindow.updates
  · rw [cut, reports_concat, result]
    exact List.rel_append (R := ReportsWindow count) inWindow.reports
      (List.Forall₂.cons reported List.Forall₂.nil)

theorem inWindow_turn {api : HistogramApi H} {count : H → Nat} (counts : api.Counts count)
    {state : RunState H} {turns : List (Turned H)} (inWindow : InWindow count state turns)
    (event : Event) :
    InWindow count (turning api state event).1 (turns ++ [(turning api state event).2]) := by
  cases ended : state.ended with
  | true =>
    have result : turning api state event = (state, ⟨false, none, none⟩) := by
      simp [turning, turn, ended]
    rw [result]
    exact inWindow.push rfl rfl rfl rfl rfl rfl
  | false =>
    cases event with
    | book call =>
      have samples := samples_recordAndPublish counts state.aggregator state.tx call
      have sent : ∀ sent : Option Summary, sent.toList.length = sent.isSome.toNat := by
        intro sent
        cases sent <;> rfl
      have result : turning api state (.book call) =
          ({ state with
              aggregator := (recordAndPublish api state.aggregator state.tx call).1.1
              tx := (recordAndPublish api state.aggregator state.tx call).1.2 },
            ⟨true, (recordAndPublish api state.aggregator state.tx call).2, none⟩) := by
        simp [turning, turn, ended, Event.call]
      rw [result]
      refine inWindow.push rfl ?_ ?_ samples.parse ?_ rfl
      · rw [samples.total, sent]
        rfl
      · rw [samples.mergePublish, sent]
        rfl
      · rw [samples.updates, sent]
        rfl
    | closed now =>
      have result : turning api state (.closed now) =
          ({ state with ended := true }, ⟨false, none, none⟩) := by
        simp [turning, turn, ended, Event.call]
      rw [result]
      exact inWindow.push rfl rfl rfl rfl rfl rfl
    | graceCheck now =>
      have quiet : (turning api state (.graceCheck now)).2 = ⟨false, none, none⟩ ∧
          (turning api state (.graceCheck now)).1.aggregator = state.aggregator ∧
          (turning api state (.graceCheck now)).1.updateCountAtLastReport =
            state.updateCountAtLastReport := by
        simp only [turning, turn, ended, Event.call, Bool.false_eq_true, if_false]
        split <;> exact ⟨rfl, rfl, rfl⟩
      obtain ⟨shown, same, last⟩ := quiet
      rw [shown]
      exact inWindow.push rfl (by rw [same]; rfl) (by rw [same]; rfl) (by rw [same]; rfl)
        (by rw [same]; rfl) last
    | reportTick now => exact inWindow.report counts ended now

/-! ## Whole runs -/

theorem inWindow_final {api : HistogramApi H} {count : H → Nat} (counts : api.Counts count)
    (tx : Watch) (startedAt : Instant) (events : List Event) :
    InWindow count ((turning api).final (RunState.start api tx startedAt) events)
      ((turning api).outputs (RunState.start api tx startedAt) events) := by
  apply Machine.history (P := fun _ state turns => InWindow count state turns) (turning api)
  · exact ⟨counts.new, counts.new, counts.new, rfl, rfl, rfl, List.Forall₂.nil⟩
  · intro before event inWindow
    exact inWindow_turn counts inWindow event

/-- What reports show of their windows, as one list. -/
theorem updates_of_reports {count : H → Nat} {closed : List (List (Turned H))}
    {reports : List (Report H)} (shown : List.Forall₂ (ReportsWindow count) closed reports) :
    reports.map Report.updatesThisWindow =
      (closed.map (List.countP Turned.published)).map some := by
  induction shown with
  | nil => rfl
  | cons first _ ih => rw [List.map_cons, first.updates, ih, List.map_cons, List.map_cons]

/-- The reports of any run show the windows between them, each with what it held and no other
sample; the windows hold every turn but the reports once, and what the reports count adds up, with
the open window, to the summaries published. -/
theorem report_windows {api : HistogramApi H} {count : H → Nat} (counts : api.Counts count)
    (tx : Watch) (startedAt : Instant) (events : List Event) :
    let state := (turning api).final (RunState.start api tx startedAt) events
    let turns := (turning api).outputs (RunState.start api tx startedAt) events
    let reports := turns.filterMap fun turned => turned.shown.report
    InWindow count state turns ∧
      (windows Turned.reported turns).1.flatten ++ (windows Turned.reported turns).2 =
        turns.filter (fun turned => !turned.reported) ∧
      ∃ updates : List Nat, reports.map Report.updatesThisWindow = updates.map some ∧
        updates.sum + count state.aggregator.totalHistogram = state.aggregator.updateCount ∧
        state.aggregator.updateCount = turns.countP Turned.published := by
  intro state turns reports
  have inWindow : InWindow count state turns := inWindow_final counts tx startedAt events
  refine ⟨inWindow, windows_flatten turns, _, updates_of_reports inWindow.reports, ?_,
    inWindow.updates⟩
  rw [inWindow.total, inWindow.closed]
  exact inWindow.last

/-- A publish, a repeat and a one-sided book, then a report and one more book. -/
def reportedEvents : List Event :=
  (sampleCalls.take 3).map Event.book ++ [Event.reportTick 5] ++
    (sampleCalls.drop 3).map Event.book

theorem report_windows_reportedEvents :
    (let state := (turning counting).final (RunState.start counting ⟨none, 0, 1⟩ 0) reportedEvents
      let turns :=
        (turning counting).outputs (RunState.start counting ⟨none, 0, 1⟩ 0) reportedEvents
      let reports := turns.filterMap fun turned => turned.shown.report
      ∃ updates : List Nat, reports.map Report.updatesThisWindow = updates.map some ∧
        updates.sum + id state.aggregator.totalHistogram = state.aggregator.updateCount) ∧
      ((turning counting).outputs (RunState.start counting ⟨none, 0, 1⟩ 0)
        reportedEvents).filterMap (fun turned => turned.shown.report.map Report.updatesThisWindow) =
          [some 1] := by
  have counts : counting.Counts id :=
    ⟨rfl, fun histogram _ => ⟨histogram + 1, rfl, rfl⟩, fun _ => rfl⟩
  obtain ⟨-, -, updates, shown, total, -⟩ := report_windows counts ⟨none, 0, 1⟩ 0 reportedEvents
  exact ⟨⟨updates, shown, total⟩, by decide +kernel⟩

end Orderbook
