import Orderbook.Proofs.Progress
import Orderbook.Proofs.Staleness

/-!
# How the process ends

`main` returns with the first task that ended, and no feed ever returns. So it ends well in two
ways: the server ended, or the aggregator gave up, which it does only where it never received a book
for the grace period, or where every feed panicked.
-/

namespace Orderbook

variable {H R : Type}

/-! ## When the aggregator's loop ends -/

/-- A turn of a running loop ends it where the channel is closed, or at a grace check too late with
no venue heard of. -/
theorem ended_turn (api : HistogramApi H) {state : RunState H} (running : state.ended = false)
    (event : Event) :
    (turn api state event).1.ended = true ↔
      (∃ now, event = .closed now) ∨
      ∃ now, event = .graceCheck now ∧ pastGrace state.startedAt now
        state.aggregator.venues.isEmpty = true := by
  simp only [turn, running, Bool.false_eq_true, if_false]
  cases event with
  | book call => simp
  | closed now => simp
  | reportTick now => simp
  | graceCheck now =>
    dsimp only
    split
    · rename_i late
      simp [late]
    · rename_i early
      simp [running, early]

theorem startedAt_turn (api : HistogramApi H) (state : RunState H) (event : Event) :
    (turn api state event).1.startedAt = state.startedAt := by
  unfold turn
  split
  · rfl
  · cases event with
    | graceCheck now =>
      dsimp only
      split <;> rfl
    | _ => rfl

theorem venues_turn (api : HistogramApi H) {state : RunState H} (running : state.ended = false)
    (event : Event) :
    (turn api state event).1.aggregator.venues =
      match event with
      | .book call => state.aggregator.venues.insert call.venue ⟨call.book, call.now⟩
      | _ => state.aggregator.venues := by
  simp only [turn, running, Bool.false_eq_true, if_false]
  cases event with
  | book call => exact venues_recordAndPublish api state.aggregator state.tx call
  | graceCheck now =>
    dsimp only
    split <;> rfl
  | _ => rfl

/-! ## Causes -/

/-- The event behind the end of a task. -/
inductive Cause (startedAt : Instant) (events : List ProcessEvent) : Joined → Prop
  | panic {component : Component} {error : Text} (member : .panic component error ∈ events) :
      Cause startedAt events (.panicked error)
  | server {given : Except Text Unit} (member : .serverEnds given ∈ events) :
      Cause startedAt events
        (.finished .server (given.mapError fun e => ["server task failed".toList, e]))
  | grace {now : Instant} (member : .graceCheck now ∈ events)
      (late : GRACE < durationSince now startedAt) :
      Cause startedAt events (.finished .aggregator (.ok ()))
  | closed (fell : ∀ venue, ∃ error, .panic (.feed venue) error ∈ events) :
      Cause startedAt events (.finished .aggregator (.ok ()))

theorem Cause.more {startedAt : Instant} {events : List ProcessEvent} {joined : Joined}
    (cause : Cause startedAt events joined) (event : ProcessEvent) :
    Cause startedAt (events ++ [event]) joined := by
  cases cause with
  | panic member => exact .panic (List.mem_append_left _ member)
  | server member => exact .server (List.mem_append_left _ member)
  | grace member late => exact .grace (List.mem_append_left _ member) late
  | closed fell => exact .closed fun venue => (fell venue).imp fun _ => List.mem_append_left _

/-- Every feed panicked. -/
def AllFell (events : List ProcessEvent) : Prop :=
  ∀ venue, ∃ error, ProcessEvent.panic (.feed venue) error ∈ events

/-- Why the tasks that ended did, given the events and what they showed so far. -/
structure Caused (startedAt : Instant) (events : List ProcessEvent) (outputs : List ProcessOutput)
    (state : Process H R) : Prop where
  started : state.service.aggregator.startedAt = startedAt
  heard : state.service.aggregator.aggregator.venues.isEmpty = true → callsIn outputs = []
  feeds : ∀ venue, state.phases venue = .panicked →
    ∃ error, ProcessEvent.panic (.feed venue) error ∈ events
  ended : ∀ joined ∈ state.ended, Cause startedAt events joined
  aggregator : ∀ result, .finished .aggregator result ∈ state.ended →
    state.aggregating = false ∧ (callsIn outputs = [] ∨ AllFell events)
  returned : ∀ result, state.returned = some result →
    ∃ joined ∈ state.ended, result = mainResult (some joined)

theorem caused_start (outside : Outside H R) (startedAt : Instant) :
    Caused startedAt [] [] (Process.start outside startedAt) :=
  ⟨rfl, fun _ => rfl, nofun, nofun, nofun, nofun⟩

section Steps

variable {startedAt : Instant} {events : List ProcessEvent} {outputs : List ProcessOutput}
  {state : Process H R}

/-- One more event that shows no book received. -/
theorem Caused.more (caused : Caused startedAt events outputs state) (event : ProcessEvent)
    {output : ProcessOutput} (silent : output.call = none) :
    Caused startedAt (events ++ [event]) (outputs ++ [output]) state := by
  have calls : callsIn (outputs ++ [output]) = callsIn outputs := by
    rw [callsIn_concat, silent, Option.toList_none, List.append_nil]
  refine ⟨caused.started, ?_, fun venue fell => ?_, fun joined member => ?_, ?_, caused.returned⟩
  · rw [calls]
    exact caused.heard
  · exact (caused.feeds venue fell).imp fun _ => List.mem_append_left _
  · exact (caused.ended joined member).more event
  · rw [calls]
    intro result member
    obtain ⟨stopped, why⟩ := caused.aggregator result member
    refine ⟨stopped, why.imp_right fun fell venue => ?_⟩
    exact (fell venue).imp fun _ => List.mem_append_left _

/-- A feed moves, and does not panic. -/
theorem feeds_withFeed_of (feeds : ∀ venue, state.phases venue = .panicked →
      ∃ error, ProcessEvent.panic (.feed venue) error ∈ events)
    {venue : Venue} {task : FeedTask (FeedState venue)} (going : task.phase ≠ .panicked) :
    ∀ other, (state.withFeed venue task).phases other = .panicked →
      ∃ error, ProcessEvent.panic (.feed other) error ∈ events := by
  intro other fell
  rw [Process.phases_withFeed] at fell
  by_cases same : other = venue
  · rw [same, Function.update_self] at fell
    exact absurd fell going
  · rw [Function.update_of_ne same] at fell
    exact feeds other fell

/-- A turn of the aggregator that is no book: it may end the loop. -/
theorem Caused.ticked (caused : Caused startedAt events outputs state) (outside : Outside H R)
    (running : state.service.aggregator.ended = false) {event : Event} (noBook : event.call = none)
    (late : (turn outside.histograms state.service.aggregator event).1.ended = true →
      Cause startedAt events (.finished .aggregator (.ok ())) ∧
        (callsIn outputs = [] ∨ AllFell events)) :
    Caused startedAt events outputs (state.turn outside event).1 := by
  have started : (turn outside.histograms state.service.aggregator event).1.startedAt = startedAt :=
    (startedAt_turn _ _ _).trans caused.started
  have venues : (turn outside.histograms state.service.aggregator event).1.aggregator.venues =
      state.service.aggregator.aggregator.venues := by
    rw [venues_turn _ running]
    cases event with
    | book call => cases noBook
    | _ => rfl
  have heard : (turn outside.histograms
      state.service.aggregator event).1.aggregator.venues.isEmpty = true →
      callsIn outputs = [] := by
    rw [venues]
    exact caused.heard
  unfold Process.turn
  dsimp only
  split
  · rename_i gone
    obtain ⟨cause, why⟩ := late gone
    refine ⟨started, heard, caused.feeds, fun joined member => ?_, fun result member => ?_, ?_⟩
    · rcases List.mem_append.mp member with earlier | last
      · exact caused.ended joined earlier
      · rw [List.mem_singleton.mp last]
        exact cause
    · exact ⟨rfl, why⟩
    · intro result returned
      obtain ⟨joined, member, same⟩ := caused.returned result returned
      exact ⟨joined, List.mem_append_left _ member, same⟩
  · exact ⟨started, heard, caused.feeds, caused.ended, caused.aggregator, caused.returned⟩

/-- A task more that ended. -/
theorem returned_append {joined : Joined} (caused : Caused startedAt events outputs state) :
    ∀ result, state.returned = some result →
      ∃ other ∈ state.ended ++ [joined], result = mainResult (some other) := by
  intro result returned
  obtain ⟨other, member, same⟩ := caused.returned result returned
  exact ⟨other, List.mem_append_left _ member, same⟩

theorem ended_append {joined : Joined} (caused : Caused startedAt events outputs state)
    (cause : Cause startedAt events joined) :
    ∀ other ∈ state.ended ++ [joined], Cause startedAt events other := by
  intro other member
  rcases List.mem_append.mp member with earlier | last
  · exact caused.ended other earlier
  · rw [List.mem_singleton.mp last]
    exact cause

theorem aggregator_append {joined : Joined} (caused : Caused startedAt events outputs state)
    (other : ∀ result, joined ≠ .finished .aggregator result) :
    ∀ result, .finished .aggregator result ∈ state.ended ++ [joined] →
      state.aggregating = false ∧ (callsIn outputs = [] ∨ AllFell events) := by
  intro result member
  rcases List.mem_append.mp member with earlier | last
  · exact caused.aggregator result earlier
  · exact absurd (List.mem_singleton.mp last).symm (other result)

/-- A book received: the loop goes on, and the aggregator has heard of a venue. -/
theorem Caused.took (caused : Caused startedAt events outputs state) (outside : Outside H R)
    (runs : state.aggregating = true) (running : state.service.aggregator.ended = false)
    (rest : Mpsc Venue Book) (call : Call) (event : ProcessEvent) :
    Caused startedAt (events ++ [event])
      (outputs ++ [(({ state with channel := rest } : Process H R).turn outside (.book call)).2])
      (({ state with channel := rest } : Process H R).turn outside (.book call)).1 := by
  have goes : (serviceStep outside.histograms outside.streams state.service
      (.turn (.book call))).1.aggregator.ended = false := by
    simp only [serviceStep, turn, running, Bool.false_eq_true, if_false]
  have venues : (turn outside.histograms state.service.aggregator
      (.book call)).1.aggregator.venues =
        state.service.aggregator.aggregator.venues.insert call.venue ⟨call.book, call.now⟩ :=
    venues_turn _ running _
  have noEnd : ∀ result, Joined.finished .aggregator result ∉ state.ended := by
    intro result member
    obtain ⟨stopped, -⟩ := caused.aggregator result member
    rw [runs] at stopped
    cases stopped
  unfold Process.turn
  simp only [goes, Bool.false_eq_true, if_false]
  have started := (startedAt_turn outside.histograms state.service.aggregator (.book call)).trans
    caused.started
  refine ⟨started, fun empty => ?_, fun venue fell => ?_,
    fun joined member => (caused.ended joined member).more event,
    fun result member => absurd member (noEnd result), caused.returned⟩
  · have filled : (turn outside.histograms state.service.aggregator
        (.book call)).1.aggregator.venues.isEmpty = true := empty
    rw [venues, BTreeMap.isEmpty_insert] at filled
    cases filled
  · exact (caused.feeds venue fell).imp fun _ => List.mem_append_left _

/-- Every event. -/
theorem caused_step (outside : Outside H R) (pair : Text)
    (caused : Caused startedAt events outputs state) (running : state.Running)
    (event : ProcessEvent) :
    Caused startedAt (events ++ [event])
      (outputs ++ [(processStep outside pair state event).2])
      (processStep outside pair state event).1 := by
  have last : event ∈ events ++ [event] := List.mem_append_right _ (List.mem_singleton_self _)
  have step := step_cases outside pair state event
  generalize processStep outside pair state event = next at step
  have more := fun (output : ProcessOutput) (silent : output.call = none) =>
    caused.more event silent
  cases step with
  | idle => exact more .nothing rfl
  | @connect venue between connectedAt subscribeSent =>
    have same := more (.attempted venue connectedAt subscribeSent) rfl
    refine ⟨same.started, same.heard, feeds_withFeed_of same.feeds ?_, same.ended, same.aggregator,
      same.returned⟩
    unfold FeedTask.connect
    split
    · rw [between]
      exact Phase.noConfusion
    · split
      · rw [between]
        exact Phase.noConfusion
      · exact Phase.noConfusion
  | @arrive venue reading arrival =>
    have same := more
      (.read venue arrival ((state.feeds venue).arrive (outside.exchange venue) arrival).2) rfl
    refine ⟨same.started, same.heard, feeds_withFeed_of same.feeds ?_, same.ended, same.aggregator,
      same.returned⟩
    unfold FeedTask.arrive
    split <;> exact Phase.noConfusion
  | send sending gone =>
    have same := more .nothing rfl
    exact ⟨same.started, same.heard, feeds_withFeed_of same.feeds Phase.noConfusion, same.ended,
      same.aggregator, same.returned⟩
  | @book runs venue book rest taken now mergedAt totalAt =>
    exact caused.took outside runs (running runs) rest _ _
  | closed runs gone now mergedAt totalAt =>
    have same := more (state.turn outside (.closed now)).2 rfl
    have fell : AllFell (events ++ [.receive now mergedAt totalAt]) := by
      simp only [Process.sendersGone, Bool.and_eq_true, beq_iff_eq] at gone
      intro venue
      cases venue with
      | binance => exact same.feeds .binance gone.1.1
      | bitstamp => exact same.feeds .bitstamp gone.1.2
      | kraken => exact same.feeds .kraken gone.2
    exact same.ticked outside (running runs) rfl fun _ => ⟨.closed fell, Or.inr fell⟩
  | graceCheck runs now =>
    have same := more (state.turn outside (.graceCheck now)).2 rfl
    refine same.ticked outside (running runs) rfl fun gone => ?_
    rcases (ended_turn outside.histograms (running runs) _).mp gone with
      ⟨now', other⟩ | ⟨now', check, late⟩
    · cases other
    · cases check
      simp only [pastGrace, Bool.and_eq_true, decide_eq_true_eq, caused.started] at late
      exact ⟨.grace last late.1, Or.inl (same.heard late.2)⟩
  | reportTick runs now =>
    have same := more (state.turn outside (.reportTick now)).2 rfl
    refine same.ticked outside (running runs) rfl fun gone => ?_
    rcases (ended_turn outside.histograms (running runs) _).mp gone with
      ⟨now', other⟩ | ⟨now', other, -⟩
    · cases other
    · cases other
  | @client _ own ofClient =>
    have silent : (state.serve outside own).2.call = none := by
      cases own with
      | turn event => cases ofClient
      | _ => rfl
    have same := more (state.serve outside own).2 silent
    have kept := client_serviceStep outside.histograms outside.streams state.service ofClient
    refine ⟨kept.startedAt.trans same.started, fun empty => same.heard ?_, same.feeds, same.ended,
      same.aggregator, same.returned⟩
    rw [← kept.aggregator]
    exact empty
  | serverEnds serving result =>
    have same := more .nothing rfl
    exact ⟨same.started, same.heard, same.feeds, ended_append same (.server last),
      aggregator_append same nofun, returned_append same⟩
  | @feedPanic venue alive error =>
    have same := more .nothing rfl
    refine ⟨same.started, same.heard, fun other fell => ?_, ended_append same (.panic last),
      aggregator_append same nofun, returned_append same⟩
    have phases :
        (state.withFeed venue { state.feeds venue with phase := .panicked }).phases other =
          .panicked := fell
    rw [Process.phases_withFeed] at phases
    by_cases own : other = venue
    · rw [own]
      exact ⟨error, last⟩
    · rw [Function.update_of_ne own] at phases
      exact same.feeds other phases
  | aggregatorPanic runs error =>
    have same := more .nothing rfl
    refine ⟨same.started, same.heard, same.feeds, ended_append same (.panic last),
      fun result member => ?_, returned_append same⟩
    have other : ∀ result, Joined.panicked error ≠ .finished .aggregator result := nofun
    exact ⟨rfl, (aggregator_append same other result member).2⟩
  | serverPanic serving error =>
    have same := more .nothing rfl
    exact ⟨same.started, same.heard, same.feeds, ended_append same (.panic last),
      aggregator_append same nofun, returned_append same⟩
  | @join joined member choice =>
    have same := more (.returned (mainResult (some joined))) rfl
    refine ⟨same.started, same.heard, same.feeds, same.ended, same.aggregator, ?_⟩
    intro result returned
    cases returned
    exact ⟨joined, member, rfl⟩

end Steps

theorem caused_final (outside : Outside H R) (pair : Text) (startedAt : Instant)
    (events : List ProcessEvent) :
    Caused startedAt events (processShows outside pair startedAt events)
      (processAfter outside pair startedAt events) := by
  apply Machine.history (P := fun events state outputs => Caused startedAt events outputs state)
    (process outside pair) (caused_start outside startedAt)
  intro before event caused
  exact caused_step outside pair caused (running_final outside pair startedAt before) event

/-- `main` returns for one of four reasons: a task panicked, which is an error with the text of the
panic; the server ended, with its result; the aggregator found no book for the whole grace period,
which is no error; or it found every feed gone. In a run without panics whose server goes on, one
book received is enough that `main` never returns. -/
theorem main_returns (outside : Outside H R) (pair : Text) (startedAt : Instant)
    (events : List ProcessEvent) (result : Except (List Text) Unit)
    (returned : (processAfter outside pair startedAt events).returned = some result) :
    (∃ component error, ProcessEvent.panic component error ∈ events ∧
      result = .error ["task panicked".toList, error]) ∨
    (∃ given, ProcessEvent.serverEnds given ∈ events ∧
      result = given.mapError fun e =>
        ["server task failed".toList, "server task failed".toList, e]) ∨
    (result = .ok () ∧ callsIn (processShows outside pair startedAt events) = [] ∧
      ∃ now, ProcessEvent.graceCheck now ∈ events ∧ GRACE < durationSince now startedAt) ∨
    (result = .ok () ∧ AllFell events) := by
  have caused := caused_final outside pair startedAt events
  obtain ⟨joined, member, rfl⟩ := caused.returned result returned
  have cause := caused.ended joined member
  cases cause with
  | @panic component error panics => exact Or.inl ⟨component, error, panics, rfl⟩
  | @server given ends =>
    refine Or.inr (Or.inl ⟨given, ends, ?_⟩)
    cases given <;> rfl
  | @grace now checked late =>
    rcases (caused.aggregator _ member).2 with silent | fell
    · exact Or.inr (Or.inr (Or.inl ⟨rfl, silent, now, checked, late⟩))
    · exact Or.inr (Or.inr (Or.inr ⟨rfl, fell⟩))
  | closed fell => exact Or.inr (Or.inr (Or.inr ⟨rfl, fell⟩))

/-- No book within the grace period. -/
def unheard : List ProcessEvent := [.graceCheck 61, .join 0]

theorem main_returns_unheard :
    ∃ result, (processAfter quoting [] 0 unheard).returned = some result ∧
      ((∃ component error, ProcessEvent.panic component error ∈ unheard ∧
        result = .error ["task panicked".toList, error]) ∨
      (∃ given, ProcessEvent.serverEnds given ∈ unheard ∧
        result = given.mapError fun e =>
          ["server task failed".toList, "server task failed".toList, e]) ∨
      (result = .ok () ∧ callsIn (processShows quoting [] 0 unheard) = [] ∧
        ∃ now, ProcessEvent.graceCheck now ∈ unheard ∧ GRACE < durationSince now 0) ∨
      (result = .ok () ∧ AllFell unheard)) :=
  ⟨.ok (), by decide +kernel, main_returns quoting [] 0 unheard (.ok ()) (by decide +kernel)⟩

end Orderbook
