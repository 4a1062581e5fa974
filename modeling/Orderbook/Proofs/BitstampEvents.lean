import Orderbook.Exchange.Bitstamp

/-!
# How Bitstamp's lifecycle messages are recognised

`parse` looks at the event of a message after the whole envelope is deserialised, its `data`
included. A lifecycle message reaches its arm exactly when its `data` could have been a book.
-/

namespace Orderbook

namespace Bitstamp

open Json Serde

/-- The events that carry no book. -/
inductive Lifecycle where
  | subscriptionSucceeded
  | requestReconnect
  | error
  deriving DecidableEq

namespace Lifecycle

def event : Lifecycle → Text
  | subscriptionSucceeded => "bts:subscription_succeeded".toList
  | requestReconnect => "bts:request_reconnect".toList
  | error => "bts:error".toList

/-- The line of the event's own arm. -/
def line (raw : Text) : Lifecycle → LogLine
  | subscriptionSucceeded => ⟨.info, "bitstamp subscription succeeded".toList, none⟩
  | requestReconnect => ⟨.info, "bitstamp requested a reconnect".toList, none⟩
  | error => ⟨.warn, "bitstamp reported an error".toList, some raw⟩

end Lifecycle

/-! ## Payloads -/

/-- An array of pairs of strings, each spelled without an escape. -/
def IsLevels (value : Value) : Prop :=
  ∃ items, value = .array items ∧
    ∀ item ∈ items, ∃ price amount, item = .array [.string ⟨price, true⟩, .string ⟨amount, true⟩]

/-- A book payload: an object with bids and asks, each given once, or an array of the two. -/
inductive IsPayload : Value → Prop where
  | object {members : List (Str × Value)} {bids asks : Value} :
      valuesOf "bids".toList members = [bids] → valuesOf "asks".toList members = [asks] →
      IsLevels bids → IsLevels asks → IsPayload (.object members)
  | array {bids asks : Value} : IsLevels bids → IsLevels asks → IsPayload (.array [bids, asks])

theorem levels_isSome {value : Value} :
    (vec (pair str) value).isSome = true ↔ IsLevels value := by
  rw [vec_isSome, IsLevels]
  apply exists_congr
  intro items
  apply and_congr_right
  intro _
  apply forall₂_congr
  intro item _
  rw [pair_isSome]
  constructor
  · rintro ⟨first, second, rfl, firstSome, secondSome⟩
    obtain ⟨price, rfl⟩ := str_isSome.mp firstSome
    obtain ⟨amount, rfl⟩ := str_isSome.mp secondSome
    exact ⟨price, amount, rfl⟩
  · rintro ⟨price, amount, rfl⟩
    exact ⟨_, _, rfl, rfl, rfl⟩

/-- `Data` is read from book payloads, and from nothing else. -/
theorem data_isSome {value : Value} :
    (Data.deserialize value).isSome = true ↔ IsPayload value := by
  have both : (Data.deserialize value).isSome = true ↔
      ∃ bids asks, fields ["bids".toList, "asks".toList] value = some [some bids, some asks] ∧
        IsLevels bids ∧ IsLevels asks := by
    simp only [← levels_isSome]
    rw [Data.deserialize]
    cases read : fields ["bids".toList, "asks".toList] value with
    | none => simp
    | some found =>
      obtain ⟨bids, asks, rfl⟩ := fields_two read
      cases bids with
      | none => simp [required]
      | some bids =>
        cases asks with
        | none => cases vec (pair str) bids <;> simp [required]
        | some asks =>
          cases readBids : vec (pair str) bids <;> cases readAsks : vec (pair str) asks <;>
            simp [required, readBids, readAsks]
  rw [both]
  constructor
  · rintro ⟨bids, asks, read, bidLevels, askLevels⟩
    rcases fields_both_iff.mp read with ⟨members, rfl, foundBids, foundAsks⟩ | rfl
    · exact .object foundBids foundAsks bidLevels askLevels
    · exact .array bidLevels askLevels
  · intro payload
    cases payload with
    | object foundBids foundAsks bidLevels askLevels =>
      exact ⟨_, _, fields_both_iff.mpr (.inl ⟨_, rfl, foundBids, foundAsks⟩), bidLevels, askLevels⟩
    | array bidLevels askLevels =>
      exact ⟨_, _, fields_both_iff.mpr (.inr rfl), bidLevels, askLevels⟩

/-! ## Envelopes -/

/-- The `data` an envelope is read with: none, `null` or a book payload, given at most once. -/
def ReadableData (members : List (Str × Value)) : Prop :=
  valuesOf "data".toList members = [] ∨
    ∃ value, valuesOf "data".toList members = [value] ∧ (value = .null ∨ IsPayload value)

/-- The data of an object with one event, as the envelope reads it. -/
def dataOf (members : List (Str × Value)) : Option (Option Data) :=
  (field "data".toList members).bind (withDefault none (option Data.deserialize))

theorem dataOf_isSome {members : List (Str × Value)} :
    (dataOf members).isSome = true ↔ ReadableData members := by
  rw [dataOf, ReadableData, ← field_eq_none_iff]
  simp only [← field_eq_some_iff]
  cases found : field "data".toList members with
  | none => simp
  | some data =>
    cases data with
    | none => simp [withDefault]
    | some value => simp [withDefault, option_isSome, data_isSome]

/-- The envelope of an object with one event: none if the event is spelled with an escape. -/
theorem deserialize_object {members : List (Str × Value)} {event : Str}
    (named : valuesOf "event".toList members = [.string event]) :
    Envelope.deserialize (.object members) =
      if event.plain then (dataOf members).map fun data => ⟨event.text, data⟩ else none := by
  have found := field_eq_some_iff.mpr named
  rw [Envelope.deserialize, fields_object, found, dataOf]
  cases field "data".toList members with
  | none => cases event.plain <;> rfl
  | some data =>
    simp only [Option.bind_eq_bind, Option.bind_some, Option.map_some, required, str]
    cases event.plain with
    | false => rfl
    | true =>
      cases withDefault none (option Data.deserialize) data <;> rfl

/-! ## Arms -/

theorem dispatch_lifecycle (raw : Text) (lifecycle : Lifecycle) (clock : ParseClock) :
    dispatch raw ⟨lifecycle.event, none⟩ clock = (some (lifecycle.line raw), none) := by
  cases lifecycle <;> rfl

/-- Only the arm of `data` looks at the data. -/
theorem dispatch_bookless {event : Text} (bookless : event ≠ "data".toList) (raw : Text)
    (data : Option Data) (clock : ParseClock) :
    dispatch raw ⟨event, data⟩ clock = dispatch raw ⟨event, none⟩ clock := by
  rw [dispatch, dispatch, if_neg bookless, if_neg bookless]

theorem dispatch_bookless_book {event : Text} (bookless : event ≠ "data".toList) (raw : Text)
    (clock : ParseClock) : (dispatch raw ⟨event, none⟩ clock).2 = none := by
  rw [dispatch, if_neg bookless]
  split
  · rfl
  · split
    · rfl
    · split <;> rfl

theorem dispatch_ne_notAnEnvelope (raw : Text) (envelope : Envelope) (clock : ParseClock) :
    (dispatch raw envelope clock).1 ≠ some notAnEnvelope := by
  rw [dispatch]
  split
  · simp
  · split
    · simp [notAnEnvelope]
    · split
      · simp [notAnEnvelope]
      · split <;> simp [notAnEnvelope]

/-- A message of any event but `data` gives no book. It is taken by the arm of its event exactly if
the event is spelled without an escape and the data is absent, `null` or a book payload; otherwise
it is logged as no envelope at all. The arms of the lifecycle events log their own lines. -/
theorem bookless_recognized_iff (json : Text → Option Value) {raw : Text} (clock : ParseClock)
    {members : List (Str × Value)} {event : Str} (object : json raw = some (.object members))
    (named : valuesOf "event".toList members = [.string event])
    (bookless : event.text ≠ "data".toList) :
    (parseLogged json raw clock).2 = none ∧
      (parseLogged json raw clock = dispatch raw ⟨event.text, none⟩ clock ↔
        event.plain = true ∧ ReadableData members) ∧
      (¬ (event.plain = true ∧ ReadableData members) →
        parseLogged json raw clock = (some notAnEnvelope, none)) ∧
      (∀ lifecycle : Lifecycle, event.text = lifecycle.event →
        dispatch raw ⟨event.text, none⟩ clock = (some (lifecycle.line raw), none)) := by
  have arms (lifecycle : Lifecycle) (text : event.text = lifecycle.event) :
      dispatch raw ⟨event.text, none⟩ clock = (some (lifecycle.line raw), none) := by
    rw [text]
    exact dispatch_lifecycle raw lifecycle clock
  have other : ¬ (some notAnEnvelope, none) = dispatch raw ⟨event.text, none⟩ clock := by
    intro same
    exact dispatch_ne_notAnEnvelope raw ⟨event.text, none⟩ clock (by rw [← same])
  rw [parseLogged, object, Option.bind_some, deserialize_object named, ← dataOf_isSome]
  cases plain : event.plain with
  | false => simpa [other] using arms
  | true =>
    cases read : dataOf members with
    | none => simpa [other] using arms
    | some data =>
      simpa [dispatch_bookless bookless, dispatch_bookless_book bookless] using arms

/-- An error event whose data is absent. -/
def bareErrorText : Text := "\x7b\"event\":\"bts:error\"\x7d".toList

def bareErrorMembers : List (Str × Value) :=
  [(⟨"event".toList, true⟩, .string ⟨"bts:error".toList, true⟩)]

/-- `serde_json` on that event. -/
def bareErrorJson (raw : Text) : Option Value :=
  if raw = bareErrorText then some (.object bareErrorMembers) else none

theorem bookless_recognized_iff_bareError :
    parseLogged bareErrorJson bareErrorText ⟨0, 0⟩ =
      dispatch bareErrorText ⟨"bts:error".toList, none⟩ ⟨0, 0⟩ := by
  have object : bareErrorJson bareErrorText = some (.object bareErrorMembers) := if_pos rfl
  have named :
      valuesOf "event".toList bareErrorMembers = [.string ⟨"bts:error".toList, true⟩] := rfl
  have taken := bookless_recognized_iff bareErrorJson ⟨0, 0⟩ object named (by decide)
  exact taken.2.1.mpr ⟨rfl, Or.inl rfl⟩

/-- An error event as Bitstamp sends it. -/
def errorText : Text :=
  ("\x7b\"event\":\"bts:error\",\"channel\":\"\"," ++
    "\"data\":\x7b\"code\":null,\"message\":\"bad subscription\"\x7d\x7d").toList

def errorMembers : List (Str × Value) :=
  [(⟨"event".toList, true⟩, .string ⟨"bts:error".toList, true⟩),
    (⟨"channel".toList, true⟩, .string ⟨[], true⟩),
    (⟨"data".toList, true⟩, .object [(⟨"code".toList, true⟩, .null),
      (⟨"message".toList, true⟩, .string ⟨"bad subscription".toList, true⟩)])]

/-- `serde_json` on the error event. -/
def errorJson (raw : Text) : Option Value :=
  if raw = errorText then some (.object errorMembers) else none

/-- The error event, whose data is an error object, is logged at debug as no envelope. -/
theorem error_not_recognized :
    ¬ ∀ (json : Text → Option Value) (raw : Text) (clock : ParseClock)
      (members : List (Str × Value)) (lifecycle : Lifecycle),
      json raw = some (.object members) →
      valuesOf "event".toList members = [.string ⟨lifecycle.event, true⟩] →
      parseLogged json raw clock = (some (lifecycle.line raw), none) := by
  intro recognized
  have warned := recognized errorJson errorText ⟨0, 0⟩ errorMembers .error (if_pos rfl) rfl
  have logged : (parseLogged errorJson errorText ⟨0, 0⟩).1 = some notAnEnvelope := by
    rw [parseLogged, errorJson, if_pos rfl]
    decide
  rw [warned] at logged
  cases Option.some.inj logged

end Bitstamp

end Orderbook
