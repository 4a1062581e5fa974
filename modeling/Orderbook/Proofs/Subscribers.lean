import Orderbook.Server
import Orderbook.Misc.Machine
import Orderbook.Proofs.Publish
import Mathlib.Data.Finset.Card

/-!
# What a subscriber receives

The service runs the aggregator and any number of clients in any order of events. What one client
receives is a subsequence of what the aggregator sent, each summary the latest one at its poll, and
none of it depends on the other clients.
-/

namespace Orderbook

variable {H R : Type}

/-- What `tokio_stream` documents of a `WatchStream`, `seen` being the version it gave last: a new
one gives the current value at its first poll, and later ones the current value if one was sent
since the poll before. -/
structure WatchStreamApi.Lawful (api : WatchStreamApi R) (seen : R → Option Nat) : Prop where
  new : ∀ tx, seen (api.new tx) = none
  polled : ∀ stream tx, seen (api.poll stream tx).1 = some tx.version
  current : ∀ stream tx, seen stream ≠ some tx.version → (api.poll stream tx).2 = some tx.value
  unchanged : ∀ stream tx, seen stream = some tx.version → (api.poll stream tx).2 = none

/-- The service as a machine. -/
def service (histograms : HistogramApi H) (api : WatchStreamApi R) :
    Machine (Service H R) ServiceEvent ServiceOutput := serviceStep histograms api

/-- The value sent, if any. -/
def ServiceOutput.summary : ServiceOutput → Option Summary
  | sent summary => some summary
  | _ => none

/-- The summary a client received, if any. -/
def ServiceOutput.itemFor (client : Nat) : ServiceOutput → Option Summary
  | polled other (.item summary) => if other = client then some summary else none
  | _ => none

/-- The values the aggregator sent. -/
def sentBy (outputs : List ServiceOutput) : List Summary :=
  outputs.filterMap ServiceOutput.summary

/-- The summaries a client received. -/
def receivedBy (client : Nat) (outputs : List ServiceOutput) : List Summary :=
  outputs.filterMap (ServiceOutput.itemFor client)

theorem sentBy_concat (outputs : List ServiceOutput) (output : ServiceOutput) :
    sentBy (outputs ++ [output]) = sentBy outputs ++ output.summary.toList := by
  rw [sentBy, List.filterMap_append]
  cases output <;> rfl

theorem receivedBy_concat (client : Nat) (outputs : List ServiceOutput) (output : ServiceOutput) :
    receivedBy client (outputs ++ [output]) =
      receivedBy client outputs ++ (output.itemFor client).toList := by
  rw [receivedBy, receivedBy, List.filterMap_append]
  cases item : output.itemFor client <;> simp [item]

theorem sentBy_concat_of_none {output : ServiceOutput} (unsent : output.summary = none)
    (outputs : List ServiceOutput) : sentBy (outputs ++ [output]) = sentBy outputs := by
  rw [sentBy_concat, unsent]
  exact List.append_nil _

theorem receivedBy_concat_of_none {client : Nat} {output : ServiceOutput}
    (unseen : output.itemFor client = none) (outputs : List ServiceOutput) :
    receivedBy client (outputs ++ [output]) = receivedBy client outputs := by
  rw [receivedBy_concat, unseen]
  exact List.append_nil _

theorem itemFor_other {client other : Nat} (different : other ≠ client) (polled : Polled) :
    (ServiceOutput.polled client polled).itemFor other = none := by
  cases polled with
  | item summary => exact if_neg (Ne.symm different)
  | skipped => rfl
  | pending => rfl

/-! ## The aggregator and its channel -/

/-- The channel after a turn that may have sent a value. -/
def Watch.after (tx : Watch) : Option Summary → Watch
  | some summary => tx.send (some summary)
  | none => tx

/-- A call reads nothing of the channel. -/
theorem recordAndPublish_withTx (histograms : HistogramApi H) (aggregator : Aggregator H)
    (tx tx' : Watch) (call : Call) :
    recordAndPublish histograms aggregator tx' call =
      (((recordAndPublish histograms aggregator tx call).1.1,
        tx'.after (recordAndPublish histograms aggregator tx call).2),
        (recordAndPublish histograms aggregator tx call).2) := by
  unfold recordAndPublish
  dsimp only
  split
  · rfl
  · split <;> rfl

/-- A turn of the loop reads nothing of the channel either, and only adds what it sends. -/
theorem turn_withTx (histograms : HistogramApi H) (state : RunState H) (tx : Watch)
    (event : Event) :
    turn histograms { state with tx } event =
      ({ (turn histograms state event).1 with
          tx := tx.after (turn histograms state event).2.sent },
        (turn histograms state event).2) := by
  unfold turn
  cases ended : state.ended with
  | true => simp [ended, Watch.after]
  | false =>
    cases event with
    | book call =>
      simp only [Bool.false_eq_true, if_false,
        recordAndPublish_withTx histograms state.aggregator state.tx tx call]
    | closed now => simp [Watch.after]
    | graceCheck now =>
      simp only [Bool.false_eq_true, if_false]
      split <;> simp [ended, Watch.after]
    | reportTick now => simp [Watch.after]

theorem turn_tx (histograms : HistogramApi H) (state : RunState H) (event : Event) :
    (turn histograms state event).1.tx = state.tx.after (turn histograms state event).2.sent := by
  have whole := turn_withTx histograms state state.tx event
  exact congrArg (fun result => result.1.tx) whole

/-! ## What a run keeps -/

/-- What a client has received against what was sent: nothing before its first poll, and then a
subsequence of what was sent up to the version it saw last, caught up with it. -/
def Received (seen : R → Option Nat) (sends received : List Summary) : Client R → Prop
  | .absent => received = []
  | .streaming stream =>
      match seen stream with
      | none => received = []
      | some version => version ≤ sends.length ∧ received.Sublist (sends.take version) ∧
          received.getLast? = (sends.take version).getLast?
  | .gone => received.Sublist sends

theorem Received.sublist {seen : R → Option Nat} {sends received : List Summary}
    {client : Client R} (h : Received seen sends received client) : received.Sublist sends := by
  cases client with
  | absent =>
    rw [show received = [] from h]
    exact List.nil_sublist _
  | gone => exact h
  | streaming stream =>
    simp only [Received] at h
    cases version : seen stream with
    | none =>
      simp only [version] at h
      rw [h]
      exact List.nil_sublist _
    | some v =>
      simp only [version] at h
      exact h.2.1.trans (List.take_sublist ..)

theorem Received.more {seen : R → Option Nat} {sends received : List Summary}
    {client : Client R} (h : Received seen sends received client) (later : List Summary) :
    Received seen (sends ++ later) received client := by
  cases client with
  | absent => exact h
  | gone => exact List.Sublist.trans h (List.sublist_append_left ..)
  | streaming stream =>
    simp only [Received] at h ⊢
    cases version : seen stream with
    | none => simpa only [version] using h
    | some v =>
      simp only [version] at h ⊢
      obtain ⟨within, sub, last⟩ := h
      rw [List.take_append_of_le_length within]
      refine ⟨?_, sub, last⟩
      rw [List.length_append]
      omega

/-- The channel and the clients are in step with what was sent and received. -/
structure Consistent (seen : R → Option Nat) (outputs : List ServiceOutput)
    (state : Service H R) : Prop where
  value : state.aggregator.tx.value = (sentBy outputs).getLast?
  version : state.aggregator.tx.version = (sentBy outputs).length
  live : ∃ streaming : Finset Nat,
    (∀ client, client ∈ streaming ↔ ∃ stream, state.clients client = .streaming stream) ∧
      state.aggregator.tx.receivers = streaming.card + 1
  clients : ∀ client,
    Received seen (sentBy outputs) (receivedBy client outputs) (state.clients client)

/-- The service's own receiver keeps the channel open. -/
theorem Consistent.open {seen : R → Option Nat} {outputs : List ServiceOutput}
    {state : Service H R} (consistent : Consistent seen outputs state) :
    state.aggregator.tx.receivers ≠ 0 := by
  obtain ⟨streaming, -, count⟩ := consistent.live
  omega

theorem consistent_start (seen : R → Option Nat) (histograms : HistogramApi H)
    (startedAt : Instant) :
    Consistent seen [] (Service.start histograms startedAt : Service H R) :=
  ⟨rfl, rfl, ⟨∅, fun client => by simp [Service.start], rfl⟩, fun _ => rfl⟩

/-- A turn of the aggregator's loop sends at most one value and touches no client. -/
theorem consistent_turn {seen : R → Option Nat} {outputs : List ServiceOutput}
    {state : Service H R} (consistent : Consistent seen outputs state)
    (histograms : HistogramApi H) (api : WatchStreamApi R) (event : Event) :
    Consistent seen (outputs ++ [(serviceStep histograms api state (.turn event)).2])
      (serviceStep histograms api state (.turn event)).1 := by
  have channel := turn_tx histograms state.aggregator event
  have opened := consistent.open
  obtain ⟨streaming, member, count⟩ := consistent.live
  simp only [serviceStep]
  cases sends : (turn histograms state.aggregator event).2.sent with
  | none =>
    rw [sends] at channel
    have sent : sentBy (outputs ++ [ServiceOutput.nothing]) = sentBy outputs :=
      sentBy_concat_of_none rfl outputs
    refine ⟨?_, ?_, ⟨streaming, member, ?_⟩, fun client => ?_⟩
    · rw [channel, sent]
      exact consistent.value
    · rw [channel, sent]
      exact consistent.version
    · rw [channel]
      exact count
    · rw [sent, receivedBy_concat_of_none rfl]
      exact consistent.clients client
  | some summary =>
    rw [sends, Watch.after, Watch.send, if_neg opened] at channel
    have sent : sentBy (outputs ++ [ServiceOutput.sent summary]) = sentBy outputs ++ [summary] :=
      sentBy_concat outputs (.sent summary)
    refine ⟨?_, ?_, ⟨streaming, member, ?_⟩, fun client => ?_⟩
    · rw [channel, sent, List.getLast?_concat]
    · rw [channel, sent, List.length_append, List.length_singleton, ← consistent.version]
    · rw [channel]
      exact count
    · rw [sent, receivedBy_concat_of_none rfl]
      exact (consistent.clients client).more [summary]

/-- An event of one client leaves what was sent and the other clients as they are. -/
theorem consistent_withClient {seen : R → Option Nat} {outputs : List ServiceOutput}
    {state : Service H R} (consistent : Consistent seen outputs state) {tx : Watch} {client : Nat}
    {next : Client R} {output : ServiceOutput}
    (channel : tx.value = state.aggregator.tx.value ∧ tx.version = state.aggregator.tx.version)
    (live : ∃ streaming : Finset Nat,
      (∀ other, other ∈ streaming ↔
        ∃ stream, Function.update state.clients client next other = .streaming stream) ∧
      tx.receivers = streaming.card + 1)
    (unsent : output.summary = none)
    (others : ∀ other, other ≠ client → output.itemFor other = none)
    (received : Received seen (sentBy outputs)
      (receivedBy client outputs ++ (output.itemFor client).toList) next) :
    Consistent seen (outputs ++ [output]) (state.withClient tx client next) := by
  have sent : sentBy (outputs ++ [output]) = sentBy outputs := sentBy_concat_of_none unsent outputs
  refine ⟨?_, ?_, live, fun other => ?_⟩
  · rw [sent, ← consistent.value]
    exact channel.1
  · rw [sent, ← consistent.version]
    exact channel.2
  · rw [sent]
    show Received seen _ _ (Function.update state.clients client next other)
    by_cases same : other = client
    · rw [same, Function.update_self, receivedBy_concat]
      exact received
    · rw [Function.update_of_ne same, receivedBy_concat_of_none (others other same)]
      exact consistent.clients other

/-- Nothing changes. -/
theorem consistent_nothing {seen : R → Option Nat} {outputs : List ServiceOutput}
    {state : Service H R} (consistent : Consistent seen outputs state) :
    Consistent seen (outputs ++ [ServiceOutput.nothing]) state := by
  have sent : sentBy (outputs ++ [ServiceOutput.nothing]) = sentBy outputs :=
    sentBy_concat_of_none rfl outputs
  refine ⟨?_, ?_, consistent.live, fun client => ?_⟩
  · rw [sent, consistent.value]
  · rw [sent, consistent.version]
  · rw [sent, receivedBy_concat_of_none rfl]
    exact consistent.clients client

theorem consistent_subscribe {seen : R → Option Nat} {outputs : List ServiceOutput}
    {state : Service H R} (consistent : Consistent seen outputs state) {api : WatchStreamApi R}
    (lawful : api.Lawful seen) (histograms : HistogramApi H) (client : Nat) :
    Consistent seen (outputs ++ [(serviceStep histograms api state (.subscribe client)).2])
      (serviceStep histograms api state (.subscribe client)).1 := by
  obtain ⟨streaming, member, count⟩ := consistent.live
  have before := consistent.clients client
  cases now : state.clients client with
  | absent =>
    simp only [serviceStep, now, bookSummary]
    refine consistent_withClient consistent ⟨rfl, rfl⟩ ?_ rfl (fun _ _ => rfl) ?_
    · have unlisted : client ∉ streaming := by
        intro listed
        obtain ⟨stream, held⟩ := (member client).mp listed
        rw [now] at held
        cases held
      refine ⟨insert client streaming, fun other => ?_, ?_⟩
      · rw [Finset.mem_insert]
        by_cases same : other = client
        · rw [same, Function.update_self]
          simp
        · rw [Function.update_of_ne same, ← member]
          simp [same]
      · rw [Finset.card_insert_of_notMem unlisted]
        exact congrArg (fun receivers => receivers + 1) count
    · rw [now] at before
      simp only [Received, lawful.new]
      rw [show receivedBy client outputs = [] from before]
      rfl
  | streaming stream =>
    simp only [serviceStep, now]
    exact consistent_nothing consistent
  | gone =>
    simp only [serviceStep, now]
    exact consistent_nothing consistent

theorem consistent_leave {seen : R → Option Nat} {outputs : List ServiceOutput}
    {state : Service H R} (consistent : Consistent seen outputs state) (api : WatchStreamApi R)
    (histograms : HistogramApi H) (client : Nat) :
    Consistent seen (outputs ++ [(serviceStep histograms api state (.leave client)).2])
      (serviceStep histograms api state (.leave client)).1 := by
  obtain ⟨streaming, member, count⟩ := consistent.live
  have before := (consistent.clients client).sublist
  cases now : state.clients client with
  | absent =>
    simp only [serviceStep, now]
    exact consistent_nothing consistent
  | gone =>
    simp only [serviceStep, now]
    exact consistent_nothing consistent
  | streaming stream =>
    simp only [serviceStep, now]
    refine consistent_withClient consistent ⟨rfl, rfl⟩ ?_ rfl (fun _ _ => rfl) ?_
    · have listed : client ∈ streaming := (member client).mpr ⟨stream, now⟩
      refine ⟨streaming.erase client, fun other => ?_, ?_⟩
      · rw [Finset.mem_erase]
        by_cases same : other = client
        · rw [same, Function.update_self]
          simp
        · rw [Function.update_of_ne same, ← member]
          simp [same]
      · have positive := Finset.card_pos.mpr ⟨client, listed⟩
        rw [Finset.card_erase_of_mem listed]
        show state.aggregator.tx.receivers - 1 = _
        omega
    · simpa [ServiceOutput.itemFor, Received] using before

/-- What a poll that finds the current value gives. -/
def Polled.current : Option Summary → Polled
  | some summary => item summary
  | none => skipped

theorem pollBookSummary_eq {seen : R → Option Nat} {api : WatchStreamApi R}
    (lawful : api.Lawful seen) (stream : R) (rx : Watch) :
    pollBookSummary api stream rx =
      ((api.poll stream rx).1,
        if seen stream = some rx.version then .pending else Polled.current rx.value) := by
  unfold pollBookSummary
  cases given : api.poll stream rx with
  | mk next found =>
    by_cases same : seen stream = some rx.version
    · have nothing := lawful.unchanged stream rx same
      rw [given] at nothing
      rw [if_pos same, show found = none from nothing]
    · have value := lawful.current stream rx same
      rw [given] at value
      rw [if_neg same, show found = some rx.value from value]
      cases rx.value <;> rfl

theorem serviceStep_poll {seen : R → Option Nat} {api : WatchStreamApi R}
    (lawful : api.Lawful seen) (histograms : HistogramApi H) {state : Service H R} {client : Nat}
    {stream : R} (now : state.clients client = .streaming stream) :
    serviceStep histograms api state (.poll client) =
      (state.withClient state.aggregator.tx client
          (.streaming (api.poll stream state.aggregator.tx).1),
        .polled client
          (if seen stream = some state.aggregator.tx.version then .pending
            else Polled.current state.aggregator.tx.value)) := by
  simp only [serviceStep, now, pollBookSummary_eq lawful]

/-- The last value sent comes after all a stream received that has not seen it. -/
theorem Received.sublist_concat {seen : R → Option Nat} {sends received : List Summary} {stream : R}
    (h : Received seen sends received (.streaming stream))
    (behind : seen stream ≠ some sends.length) {summary : Summary}
    (last : sends.getLast? = some summary) : (received ++ [summary]).Sublist sends := by
  cases version : seen stream with
  | none =>
    simp only [Received, version] at h
    rw [h]
    exact List.singleton_sublist.mpr (List.mem_of_getLast? last)
  | some v =>
    simp only [Received, version] at h
    obtain ⟨within, sub, -⟩ := h
    have left : v < sends.length := by
      apply lt_of_le_of_ne within
      intro equal
      exact behind (equal ▸ version)
    have tail : summary ∈ sends.drop v := by
      apply List.mem_of_getLast?
      rw [List.getLast?_drop, if_neg (by omega), last]
    have split := sub.append (List.singleton_sublist.mpr tail)
    rwa [List.take_append_drop] at split

/-- A poll that finds a value gives the last one sent, which the client had not received. -/
theorem received_poll {seen : R → Option Nat} {outputs : List ServiceOutput}
    {state : Service H R} (consistent : Consistent seen outputs state) {api : WatchStreamApi R}
    (lawful : api.Lawful seen) {client : Nat} {stream : R}
    (now : state.clients client = .streaming stream) :
    Received seen (sentBy outputs)
      (receivedBy client outputs ++
        (ServiceOutput.itemFor client (.polled client
          (if seen stream = some state.aggregator.tx.version then .pending
            else Polled.current state.aggregator.tx.value))).toList)
      (.streaming (api.poll stream state.aggregator.tx).1) := by
  have before := consistent.clients client
  have whole := before.sublist
  rw [now] at before
  simp only [Received, lawful.polled]
  rw [consistent.version, List.take_length]
  by_cases same : seen stream = some (sentBy outputs).length
  · simp only [Received, same] at before
    rw [List.take_length] at before
    simpa [same, ServiceOutput.itemFor] using before
  · rw [if_neg same, consistent.value]
    cases last : (sentBy outputs).getLast? with
    | none =>
      have empty := List.getLast?_eq_none_iff.mp last
      rw [empty] at whole
      rw [List.sublist_nil.mp whole, empty]
      exact ⟨le_rfl, List.nil_sublist _, rfl⟩
    | some summary =>
      have item : (ServiceOutput.itemFor client
          (.polled client (Polled.current (some summary)))).toList = [summary] := by
        simp [Polled.current, ServiceOutput.itemFor]
      rw [item]
      exact ⟨le_rfl, before.sublist_concat same last, List.getLast?_concat⟩

theorem consistent_poll {seen : R → Option Nat} {outputs : List ServiceOutput}
    {state : Service H R} (consistent : Consistent seen outputs state) {api : WatchStreamApi R}
    (lawful : api.Lawful seen) (histograms : HistogramApi H) (client : Nat) :
    Consistent seen (outputs ++ [(serviceStep histograms api state (.poll client)).2])
      (serviceStep histograms api state (.poll client)).1 := by
  cases now : state.clients client with
  | absent =>
    simp only [serviceStep, now]
    exact consistent_nothing consistent
  | gone =>
    simp only [serviceStep, now]
    exact consistent_nothing consistent
  | streaming stream =>
    rw [serviceStep_poll lawful histograms now]
    obtain ⟨streaming, member, count⟩ := consistent.live
    refine consistent_withClient consistent ⟨rfl, rfl⟩ ⟨streaming, fun other => ?_, count⟩ rfl
      (fun other different => itemFor_other different _) (received_poll consistent lawful now)
    by_cases same : other = client
    · rw [same, Function.update_self, member, now]
      simp
    · rw [Function.update_of_ne same, member]

theorem consistent_step {seen : R → Option Nat} {outputs : List ServiceOutput}
    {state : Service H R} (consistent : Consistent seen outputs state) {api : WatchStreamApi R}
    (lawful : api.Lawful seen) (histograms : HistogramApi H) (event : ServiceEvent) :
    Consistent seen (outputs ++ [(serviceStep histograms api state event).2])
      (serviceStep histograms api state event).1 := by
  cases event with
  | turn event => exact consistent_turn consistent histograms api event
  | subscribe client => exact consistent_subscribe consistent lawful histograms client
  | poll client => exact consistent_poll consistent lawful histograms client
  | leave client => exact consistent_leave consistent api histograms client

/-- Whatever happens in whatever order, the service stays consistent. -/
theorem consistent_final {seen : R → Option Nat} {api : WatchStreamApi R}
    (lawful : api.Lawful seen) (histograms : HistogramApi H) (startedAt : Instant)
    (events : List ServiceEvent) :
    Consistent seen
      ((service histograms api).outputs (Service.start histograms startedAt) events)
      ((service histograms api).final (Service.start histograms startedAt) events) := by
  apply Machine.history (P := fun _ state outputs => Consistent seen outputs state)
    (service histograms api) (consistent_start seen histograms startedAt)
  intro before event consistent
  exact consistent_step consistent lawful histograms event

/-! ## One poll -/

theorem streaming_of_polled {histograms : HistogramApi H} {api : WatchStreamApi R}
    {state : Service H R} {client : Nat} {polled : Polled}
    (given : (serviceStep histograms api state (.poll client)).2 = .polled client polled) :
    ∃ stream, state.clients client = .streaming stream := by
  cases now : state.clients client with
  | streaming stream => exact ⟨stream, rfl⟩
  | absent => simp [serviceStep, now] at given
  | gone => simp [serviceStep, now] at given

/-- A summary a poll gives is the channel's value. -/
theorem value_of_item {seen : R → Option Nat} {api : WatchStreamApi R} (lawful : api.Lawful seen)
    (histograms : HistogramApi H) {state : Service H R} {client : Nat} {summary : Summary}
    (given : (serviceStep histograms api state (.poll client)).2 =
      .polled client (.item summary)) :
    state.aggregator.tx.value = some summary := by
  obtain ⟨stream, now⟩ := streaming_of_polled given
  rw [serviceStep_poll lawful histograms now] at given
  simp only [ServiceOutput.polled.injEq, true_and] at given
  by_cases same : seen stream = some state.aggregator.tx.version
  · rw [if_pos same] at given
    cases given
  · rw [if_neg same] at given
    cases value : state.aggregator.tx.value with
    | none =>
      rw [value] at given
      cases given
    | some other =>
      rw [value] at given
      cases given
      rfl

/-- A poll is pending only where the stream saw the channel's version. -/
theorem seen_of_pending {seen : R → Option Nat} {api : WatchStreamApi R}
    (lawful : api.Lawful seen) (histograms : HistogramApi H) {state : Service H R} {client : Nat}
    {stream : R} (now : state.clients client = .streaming stream)
    (pending : (serviceStep histograms api state (.poll client)).2 = .polled client .pending) :
    seen stream = some state.aggregator.tx.version := by
  rw [serviceStep_poll lawful histograms now] at pending
  simp only [ServiceOutput.polled.injEq, true_and] at pending
  by_contra other
  rw [if_neg other] at pending
  cases value : state.aggregator.tx.value <;> rw [value] at pending <;> cases pending

/-- A stream that saw the channel's version gave the last value sent. -/
theorem Consistent.caught_up {seen : R → Option Nat} {outputs : List ServiceOutput}
    {state : Service H R} (consistent : Consistent seen outputs state) {client : Nat} {stream : R}
    (now : state.clients client = .streaming stream)
    (last : seen stream = some state.aggregator.tx.version) :
    (receivedBy client outputs).getLast? = (sentBy outputs).getLast? := by
  have received := consistent.clients client
  rw [now] at received
  simp only [Received, last, consistent.version] at received
  rw [List.take_length] at received
  exact received.2.2

/-- A client that received nothing yet gets the last value sent. -/
theorem poll_first {seen : R → Option Nat} {api : WatchStreamApi R} (lawful : api.Lawful seen)
    (histograms : HistogramApi H) {outputs : List ServiceOutput} {state : Service H R}
    (consistent : Consistent seen outputs state) {client : Nat} {stream : R}
    (now : state.clients client = .streaming stream) (nothing : receivedBy client outputs = [])
    {summary : Summary} (last : (sentBy outputs).getLast? = some summary) :
    (serviceStep histograms api state (.poll client)).2 = .polled client (.item summary) := by
  have behind : seen stream ≠ some state.aggregator.tx.version := by
    intro same
    have caught := consistent.caught_up now same
    rw [nothing, last] at caught
    cases caught
  rw [serviceStep_poll lawful histograms now, if_neg behind, consistent.value, last]
  rfl

/-- Polled again at once, a stream is pending. -/
theorem poll_again {seen : R → Option Nat} {api : WatchStreamApi R} (lawful : api.Lawful seen)
    (histograms : HistogramApi H) {state : Service H R} {client : Nat} {stream : R}
    (now : state.clients client = .streaming stream) :
    (serviceStep histograms api (serviceStep histograms api state (.poll client)).1
      (.poll client)).2 = .polled client .pending := by
  rw [serviceStep_poll lawful histograms now]
  have next : (state.withClient state.aggregator.tx client (.streaming
      (api.poll stream state.aggregator.tx).1)).clients client =
      .streaming (api.poll stream state.aggregator.tx).1 := Function.update_self ..
  rw [serviceStep_poll lawful histograms next, lawful.polled]
  exact congrArg (ServiceOutput.polled client) (if_pos rfl)

/-! ## Without the other clients -/

/-- The event is the aggregator's or this client's. -/
def ServiceEvent.concerns (client : Nat) : ServiceEvent → Bool
  | turn _ => true
  | subscribe other => other = client
  | poll other => other = client
  | leave other => other = client

/-- Two states of one client that give the same from now on. -/
inductive SameClient (seen : R → Option Nat) : Client R → Client R → Prop
  | absent : SameClient seen .absent .absent
  | streaming {stream stream'} (same : seen stream = seen stream') :
      SameClient seen (.streaming stream) (.streaming stream')
  | gone : SameClient seen .gone .gone

/-- Two services that one client cannot tell apart: the same aggregator, up to how many receivers
its channel has, and the client at the same point. -/
structure Alike (seen : R → Option Nat) (client : Nat) (state state' : Service H R) : Prop where
  aggregator : state'.aggregator = { state.aggregator with tx := state'.aggregator.tx }
  value : state.aggregator.tx.value = state'.aggregator.tx.value
  version : state.aggregator.tx.version = state'.aggregator.tx.version
  client : SameClient seen (state.clients client) (state'.clients client)

/-- What another client does changes that client and the number of receivers at most, sends nothing
and gives this one nothing. -/
theorem step_of_other (histograms : HistogramApi H) (api : WatchStreamApi R) (state : Service H R)
    {client : Nat} {event : ServiceEvent} (other : event.concerns client = false) :
    serviceStep histograms api state event = (state, .nothing) ∨
      ∃ tx someone next output, someone ≠ client ∧
        serviceStep histograms api state event = (state.withClient tx someone next, output) ∧
        tx.value = state.aggregator.tx.value ∧ tx.version = state.aggregator.tx.version ∧
        output.summary = none ∧ output.itemFor client = none := by
  cases event with
  | turn event => cases other
  | subscribe someone =>
    have different : someone ≠ client := of_decide_eq_false other
    simp only [serviceStep]
    split
    · exact Or.inr ⟨_, someone, _, _, different, rfl, rfl, rfl, rfl, rfl⟩
    · exact Or.inl rfl
  | poll someone =>
    have different : someone ≠ client := of_decide_eq_false other
    simp only [serviceStep]
    split
    · exact Or.inr ⟨_, someone, _, _, different, rfl, rfl, rfl, rfl,
        itemFor_other (Ne.symm different) _⟩
    · exact Or.inl rfl
  | leave someone =>
    have different : someone ≠ client := of_decide_eq_false other
    simp only [serviceStep]
    split
    · exact Or.inr ⟨_, someone, _, _, different, rfl, rfl, rfl, rfl, rfl⟩
    · exact Or.inl rfl

/-- So it makes no difference to this one. -/
theorem alike_of_other {seen : R → Option Nat} {client : Nat} {state state' : Service H R}
    (alike : Alike seen client state state') (histograms : HistogramApi H)
    (api : WatchStreamApi R) {event : ServiceEvent} (other : event.concerns client = false) :
    Alike seen client (serviceStep histograms api state event).1 state' ∧
      (serviceStep histograms api state event).2.summary = none ∧
      (serviceStep histograms api state event).2.itemFor client = none := by
  obtain idle | ⟨tx, someone, next, output, different, step, value, version, unsent, unseen⟩ :=
    step_of_other histograms api state other
  · rw [idle]
    exact ⟨alike, rfl, rfl⟩
  · rw [step]
    refine ⟨⟨alike.aggregator, value.trans alike.value, version.trans alike.version, ?_⟩, unsent,
      unseen⟩
    show SameClient seen (Function.update state.clients someone next client) _
    rw [Function.update_of_ne (Ne.symm different)]
    exact alike.client

/-- A turn of the aggregator's loop shows the same in both and leaves them alike. -/
theorem alike_turn {seen : R → Option Nat} (api : WatchStreamApi R) (histograms : HistogramApi H)
    {client : Nat} {state state' : Service H R} (alike : Alike seen client state state')
    (opened : state.aggregator.tx.receivers ≠ 0) (opened' : state'.aggregator.tx.receivers ≠ 0)
    (event : Event) :
    Alike seen client (serviceStep histograms api state (.turn event)).1
        (serviceStep histograms api state' (.turn event)).1 ∧
      (serviceStep histograms api state (.turn event)).2 =
        (serviceStep histograms api state' (.turn event)).2 := by
  have both := turn_withTx histograms state.aggregator state'.aggregator.tx event
  rw [← alike.aggregator] at both
  have channel := turn_tx histograms state.aggregator event
  simp only [serviceStep]
  rw [both]
  refine ⟨⟨rfl, ?_, ?_, alike.client⟩, rfl⟩
  · rw [channel]
    cases (turn histograms state.aggregator event).2.sent with
    | none => exact alike.value
    | some summary => simp [Watch.after, Watch.send, opened, opened']
  · rw [channel]
    cases (turn histograms state.aggregator event).2.sent with
    | none => exact alike.version
    | some summary => simp [Watch.after, Watch.send, opened, opened', alike.version]

/-- The same change of the client in both leaves them alike. -/
theorem alike_withClient {seen : R → Option Nat} {client : Nat} {state state' : Service H R}
    (alike : Alike seen client state state') {tx tx' : Watch} {next next' : Client R}
    (channel : tx.value = state.aggregator.tx.value ∧ tx.version = state.aggregator.tx.version)
    (channel' : tx'.value = state'.aggregator.tx.value ∧
      tx'.version = state'.aggregator.tx.version)
    (same : SameClient seen next next') :
    Alike seen client (state.withClient tx client next) (state'.withClient tx' client next') := by
  refine ⟨?_, ?_, ?_, ?_⟩
  · show ({ state'.aggregator with tx := tx' } : RunState H) = _
    rw [alike.aggregator]
    rfl
  · exact channel.1.trans (alike.value.trans channel'.1.symm)
  · exact channel.2.trans (alike.version.trans channel'.2.symm)
  · show SameClient seen (Function.update state.clients client next client)
      (Function.update state'.clients client next' client)
    rw [Function.update_self, Function.update_self]
    exact same

theorem SameClient.cases {seen : R → Option Nat} {client client' : Client R}
    (same : SameClient seen client client') :
    (client = .absent ∧ client' = .absent) ∨
      (∃ stream stream', client = .streaming stream ∧ client' = .streaming stream' ∧
        seen stream = seen stream') ∨
      (client = .gone ∧ client' = .gone) := by
  cases same with
  | absent => exact Or.inl ⟨rfl, rfl⟩
  | streaming same => exact Or.inr (Or.inl ⟨_, _, rfl, rfl, same⟩)
  | gone => exact Or.inr (Or.inr ⟨rfl, rfl⟩)

/-- What the aggregator or this client does shows the same in both and leaves them alike. -/
theorem alike_step {seen : R → Option Nat} {api : WatchStreamApi R} (lawful : api.Lawful seen)
    (histograms : HistogramApi H) {client : Nat} {state state' : Service H R}
    (alike : Alike seen client state state') (opened : state.aggregator.tx.receivers ≠ 0)
    (opened' : state'.aggregator.tx.receivers ≠ 0) {event : ServiceEvent}
    (concerns : event.concerns client = true) :
    Alike seen client (serviceStep histograms api state event).1
        (serviceStep histograms api state' event).1 ∧
      (serviceStep histograms api state event).2 =
        (serviceStep histograms api state' event).2 := by
  have cases := alike.client.cases
  cases event with
  | turn event => exact alike_turn api histograms alike opened opened' event
  | subscribe other =>
    obtain rfl : other = client := of_decide_eq_true concerns
    obtain ⟨now, now'⟩ | ⟨stream, stream', now, now', -⟩ | ⟨now, now'⟩ := cases
    · simp only [serviceStep, now, now', bookSummary]
      have fresh := (lawful.new state.aggregator.tx.cloneRx).trans
        (lawful.new state'.aggregator.tx.cloneRx).symm
      exact ⟨alike_withClient alike ⟨rfl, rfl⟩ ⟨rfl, rfl⟩ (SameClient.streaming fresh), trivial⟩
    · simp only [serviceStep, now, now']
      exact ⟨alike, trivial⟩
    · simp only [serviceStep, now, now']
      exact ⟨alike, trivial⟩
  | poll other =>
    obtain rfl : other = client := of_decide_eq_true concerns
    obtain ⟨now, now'⟩ | ⟨stream, stream', now, now', same⟩ | ⟨now, now'⟩ := cases
    · simp only [serviceStep, now, now']
      exact ⟨alike, trivial⟩
    · rw [serviceStep_poll lawful histograms now, serviceStep_poll lawful histograms now', same,
        alike.value, alike.version]
      have caught := (lawful.polled stream state.aggregator.tx).trans
        ((congrArg some alike.version).trans (lawful.polled stream' state'.aggregator.tx).symm)
      exact ⟨alike_withClient alike ⟨rfl, rfl⟩ ⟨rfl, rfl⟩ (SameClient.streaming caught), rfl⟩
    · simp only [serviceStep, now, now']
      exact ⟨alike, trivial⟩
  | leave other =>
    obtain rfl : other = client := of_decide_eq_true concerns
    obtain ⟨now, now'⟩ | ⟨stream, stream', now, now', -⟩ | ⟨now, now'⟩ := cases
    · simp only [serviceStep, now, now']
      exact ⟨alike, trivial⟩
    · simp only [serviceStep, now, now']
      exact ⟨alike_withClient alike ⟨rfl, rfl⟩ ⟨rfl, rfl⟩ SameClient.gone, trivial⟩
    · simp only [serviceStep, now, now']
      exact ⟨alike, trivial⟩

section Alone

variable (histograms : HistogramApi H) (api : WatchStreamApi R) (startedAt : Instant)

/-- The service after some events. -/
abbrev serviceAfter (events : List ServiceEvent) : Service H R :=
  (service histograms api).final (Service.start histograms startedAt) events

/-- What these events showed. -/
abbrev shownBy (events : List ServiceEvent) : List ServiceOutput :=
  (service histograms api).outputs (Service.start histograms startedAt) events

/-- What the client's poll gives after these events. -/
abbrev nextPoll (events : List ServiceEvent) (client : Nat) : ServiceOutput :=
  (serviceStep histograms api (serviceAfter histograms api startedAt events) (.poll client)).2

/-- The run without the other clients ends alike and shows an observer the same who sees what is
sent or what this client receives. -/
theorem alike_final {seen : R → Option Nat} (lawful : api.Lawful seen) (client : Nat)
    (events : List ServiceEvent) (observe : ServiceOutput → Option Summary)
    (blind : ∀ output : ServiceOutput, output.summary = none → output.itemFor client = none →
      observe output = none) :
    Alike seen client (serviceAfter histograms api startedAt events)
        (serviceAfter histograms api startedAt (events.filter (·.concerns client))) ∧
      (shownBy histograms api startedAt events).filterMap observe =
        (shownBy histograms api startedAt (events.filter (·.concerns client))).filterMap
          observe := by
  have start : Consistent seen [] (Service.start histograms startedAt : Service H R) :=
    consistent_start seen histograms startedAt
  -- Both channels stay open, by the invariant of runs.
  obtain ⟨⟨alike, -⟩, observed⟩ := Machine.filter_inputs (service histograms api)
    (f := observe) (p := (·.concerns client))
    (R := fun state state' => Alike seen client state state' ∧
      (∃ outputs, Consistent seen outputs state) ∧ ∃ outputs, Consistent seen outputs state')
    (fun state state' event other ⟨alike, ⟨outputs, consistent⟩, kept⟩ => by
      obtain ⟨next, unsent, unseen⟩ := alike_of_other alike histograms api other
      exact ⟨⟨next, ⟨_, consistent_step consistent lawful histograms event⟩, kept⟩,
        blind _ unsent unseen⟩)
    (fun state state' event own ⟨alike, ⟨outputs, consistent⟩, outputs', consistent'⟩ => by
      obtain ⟨next, output⟩ := alike_step lawful histograms alike consistent.open
        consistent'.open own
      exact ⟨⟨next, ⟨_, consistent_step consistent lawful histograms event⟩,
        _, consistent_step consistent' lawful histograms event⟩, output⟩)
    ⟨⟨rfl, rfl, rfl, SameClient.absent⟩, ⟨[], start⟩, [], start⟩ events
  exact ⟨alike, observed⟩

/-- What one client is promised after any events: it received a subsequence of what was sent, and
nothing before the first send; its next poll gives the latest value sent, which it does where it
received nothing so far, or finds it caught up, as the poll after that does; and all of it is the
same without the other clients. -/
structure StreamContract (events : List ServiceEvent) (client : Nat) : Prop where
  subsequence : (receivedBy client (shownBy histograms api startedAt events)).Sublist
    (sentBy (shownBy histograms api startedAt events))
  silent : sentBy (shownBy histograms api startedAt events) = [] →
    receivedBy client (shownBy histograms api startedAt events) = []
  first : ∀ stream summary,
    (serviceAfter histograms api startedAt events).clients client = .streaming stream →
    receivedBy client (shownBy histograms api startedAt events) = [] →
    (sentBy (shownBy histograms api startedAt events)).getLast? = some summary →
    nextPoll histograms api startedAt events client = .polled client (.item summary)
  latest : ∀ summary,
    nextPoll histograms api startedAt events client = .polled client (.item summary) →
    (sentBy (shownBy histograms api startedAt events)).getLast? = some summary ∧
      (serviceAfter histograms api startedAt events).aggregator.tx.value = some summary
  caughtUp : nextPoll histograms api startedAt events client = .polled client .pending →
    (receivedBy client (shownBy histograms api startedAt events)).getLast? =
      (sentBy (shownBy histograms api startedAt events)).getLast?
  settles : ∀ polled,
    nextPoll histograms api startedAt events client = .polled client polled →
    nextPoll histograms api startedAt (events ++ [.poll client]) client = .polled client .pending
  alone :
    sentBy (shownBy histograms api startedAt (events.filter (·.concerns client))) =
        sentBy (shownBy histograms api startedAt events) ∧
      receivedBy client (shownBy histograms api startedAt (events.filter (·.concerns client))) =
        receivedBy client (shownBy histograms api startedAt events) ∧
      nextPoll histograms api startedAt (events.filter (·.concerns client)) client =
        nextPoll histograms api startedAt events client

/-- Whatever happens in whatever order, every client has its contract. -/
theorem stream_contract {seen : R → Option Nat} (lawful : api.Lawful seen)
    (events : List ServiceEvent) (client : Nat) :
    StreamContract histograms api startedAt events client := by
  have consistent := consistent_final lawful histograms startedAt events
  have filtered := consistent_final lawful histograms startedAt (events.filter (·.concerns client))
  obtain ⟨alike, sent⟩ := alike_final histograms api startedAt lawful client events
    ServiceOutput.summary fun _ unsent _ => unsent
  obtain ⟨-, received⟩ := alike_final histograms api startedAt lawful client events
    (ServiceOutput.itemFor client) fun _ _ unseen => unseen
  have sub := (consistent.clients client).sublist
  refine ⟨sub, ?_, ?_, ?_, ?_, ?_, sent.symm, received.symm, ?_⟩
  · intro empty
    rw [empty] at sub
    exact List.sublist_nil.mp sub
  · intro stream summary now nothing last
    exact poll_first lawful histograms consistent now nothing last
  · intro summary given
    have value := value_of_item lawful histograms given
    exact ⟨consistent.value.symm.trans value, value⟩
  · intro pending
    obtain ⟨stream, now⟩ := streaming_of_polled pending
    exact consistent.caught_up now (seen_of_pending lawful histograms now pending)
  · intro polled given
    obtain ⟨stream, now⟩ := streaming_of_polled given
    unfold nextPoll serviceAfter
    rw [Machine.final_concat]
    exact poll_again lawful histograms now
  · have own : (ServiceEvent.poll client).concerns client = true := decide_eq_true rfl
    exact (alike_step lawful histograms alike consistent.open filtered.open own).2.symm

end Alone

/-- A stream that remembers the version it gave last. -/
def versioned : WatchStreamApi (Option Nat) where
  new _ := none
  poll seen tx := (some tx.version, if seen = some tx.version then none else some tx.value)

theorem versioned_lawful : versioned.Lawful id where
  new _ := rfl
  polled _ _ := rfl
  current _ _ behind := if_neg behind
  unchanged _ _ same := if_pos same

/-- Client 0 stays and is slow, client 1 comes and leaves. -/
def visits : List ServiceEvent :=
  let turns := sampleCalls.map fun call => ServiceEvent.turn (.book call)
  List.flatten [[.subscribe 0, .poll 0], turns.take 2, [.subscribe 1, .poll 1], turns.drop 2,
    [.poll 1, .leave 1, .poll 0, .poll 0, .poll 1]]

theorem stream_contract_visits :
    (∀ client, StreamContract counting versioned 0 visits client) ∧
      (sentBy (shownBy counting versioned 0 visits)).length = 2 ∧
      (receivedBy 0 (shownBy counting versioned 0 visits)).length = 1 ∧
      (receivedBy 1 (shownBy counting versioned 0 visits)).length = 2 :=
  ⟨stream_contract counting versioned 0 versioned_lawful visits, by decide +kernel,
    by decide +kernel, by decide +kernel⟩

end Orderbook
