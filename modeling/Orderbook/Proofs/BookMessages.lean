import Orderbook.Proofs.BitstampEvents
import Orderbook.Proofs.FiniteBooks

/-!
# Which messages are books

The derived deserialisers and the parsers together, read as one grammar: the JSON values a book
comes from, and the levels it then has.
-/

namespace Orderbook

namespace Serde

open Json

variable {α β : Type}

/-! ## Values and what is read from them -/

theorem mapM_eq_some_iff {read : β → Option α} {items : List β} {outs : List α} :
    items.mapM read = some outs ↔
      List.Forall₂ (fun item out => read item = some out) items outs := by
  induction items generalizing outs with
  | nil =>
    rw [List.mapM_nil, Option.pure_def, Option.some_inj, eq_comm, List.forall₂_nil_left_iff]
  | cons item items ih =>
    rw [List.mapM_cons, List.forall₂_cons_left_iff]
    simp only [Option.bind_eq_bind, Option.bind_eq_some_iff, Option.pure_def, Option.some_inj, ih]
    constructor
    · rintro ⟨out, read, rest, others, rfl⟩
      exact ⟨out, rest, read, others, rfl⟩
    · rintro ⟨out, rest, read, others, rfl⟩
      exact ⟨out, read, rest, others, rfl⟩

theorem required_eq_some_iff {read : Value → Option α} {found : Option Value} {out : α} :
    required read found = some out ↔ ∃ value, found = some value ∧ read value = some out :=
  Option.bind_eq_some_iff

theorem str_eq_some_iff {value : Value} {text : Text} :
    str value = some text ↔ value = .string ⟨text, true⟩ := by
  cases value with
  | string s =>
    obtain ⟨spelled, plain⟩ := s
    cases plain <;> simp [str]
  | _ => simp [str]

/-- The value of a level. -/
def levelValue (level : Text × Text) : Value :=
  .array [.string ⟨level.1, true⟩, .string ⟨level.2, true⟩]

/-- The value of a side of a book. -/
def levelsValue (levels : List (Text × Text)) : Value := .array (levels.map levelValue)

theorem level_eq_some_iff {value : Value} {level : Text × Text} :
    pair str value = some level ↔ value = levelValue level := by
  constructor
  · intro read
    obtain ⟨first, second, rfl, -, -⟩ := pair_isSome.mp (Option.isSome_of_eq_some read)
    simp only [pair, Option.bind_eq_bind, Option.bind_eq_some_iff, Option.pure_def,
      Option.some_inj] at read
    obtain ⟨price, readPrice, amount, readAmount, rfl⟩ := read
    rw [str_eq_some_iff.mp readPrice, str_eq_some_iff.mp readAmount]
    rfl
  · rintro rfl
    rfl

theorem levels_eq_some_iff {value : Value} {levels : List (Text × Text)} :
    vec (pair str) value = some levels ↔ value = levelsValue levels := by
  cases value with
  | array items =>
    rw [vec, mapM_eq_some_iff, levelsValue, Value.array.injEq]
    simp only [level_eq_some_iff]
    rw [← List.forall₂_eq_eq_eq, List.forall₂_map_right_iff]
  | _ => simp [vec, levelsValue]

/-! ## Fields -/

/-- The value has just these fields for a struct of these names: an object gives each once, an array
is the list of them. -/
inductive Gives (names : List Text) : Value → List Value → Prop where
  | object {members : List (Str × Value)} {values : List Value} :
      List.Forall₂ (fun name value => valuesOf name members = [value]) names values →
      Gives names (.object members) values
  | array {values : List Value} : values.length = names.length → Gives names (.array values) values

theorem fields_eq_some_iff {names : List Text} {value : Value} {values : List Value} :
    fields names value = some (values.map some) ↔ Gives names value values := by
  constructor
  · intro read
    cases value with
    | object members =>
      rw [fields, mapM_eq_some_iff, List.forall₂_map_right_iff] at read
      exact .object (read.imp fun _ _ => field_eq_some_iff.mp)
    | array items =>
      simp only [fields, Option.ite_none_right_eq_some, Option.some_inj] at read
      obtain ⟨short, same⟩ := read
      have missing : names.length - items.length = 0 := by
        by_contra short
        have absent : none ∈ values.map some := by
          rw [← same]
          exact List.mem_append_right _ (List.mem_replicate.mpr ⟨short, rfl⟩)
        simp at absent
      rw [missing, List.replicate_zero, List.append_nil] at same
      rw [List.map_injective_iff.mpr (Option.some_injective _) same] at short missing ⊢
      exact .array (by omega)
    | _ => simp [fields] at read
  · intro gives
    cases gives with
    | object each =>
      rw [fields, mapM_eq_some_iff, List.forall₂_map_right_iff]
      exact each.imp fun _ _ => field_eq_some_iff.mpr
    | array length =>
      rw [fields, if_pos length.le, length, Nat.sub_self, List.replicate_zero, List.append_nil]

theorem length_fields {names : List Text} {value : Value} {found : List (Option Value)}
    (read : fields names value = some found) : found.length = names.length := by
  cases value with
  | object members =>
    rw [fields, mapM_eq_some_iff] at read
    exact read.length_eq.symm
  | array items =>
    simp only [fields, Option.ite_none_right_eq_some, Option.some_inj] at read
    obtain ⟨short, rfl⟩ := read
    rw [List.length_append, List.length_map, List.length_replicate]
    omega
  | _ => simp [fields] at read

/-- The number a text of digits spells. -/
def SpellsU64 (text : Text) (n : Nat) : Prop :=
  text ≠ [] ∧ (∀ c ∈ text, c.isDigit = true) ∧ F64.digitsValue text = n ∧ n < 2 ^ 64

theorem u64_eq_some_iff {value : Value} {n : Nat} :
    u64 value = some n ↔ ∃ text, value = .number text ∧ SpellsU64 text n := by
  cases value with
  | number text =>
    simp only [u64, Option.ite_none_right_eq_some, Option.some_inj, Bool.and_eq_true,
      Bool.not_eq_true', List.isEmpty_eq_false_iff, List.all_eq_true, decide_eq_true_eq,
      Value.number.injEq, SpellsU64, exists_eq_left']
    constructor
    · rintro ⟨⟨⟨some, digits⟩, small⟩, rfl⟩
      exact ⟨some, digits, rfl, small⟩
    · rintro ⟨some, digits, rfl, small⟩
      exact ⟨⟨⟨some, digits⟩, small⟩, rfl⟩
  | _ => simp [u64]

end Serde

open Json Serde

/-! ## Payloads -/

theorem Binance.deserialize_eq_some_iff {value : Value} {payload : Binance.Depth20} :
    Binance.Depth20.deserialize value = some payload ↔
      ∃ text, SpellsU64 text payload.lastUpdateId ∧
        Gives ["lastUpdateId".toList, "bids".toList, "asks".toList] value
          [.number text, levelsValue payload.bids, levelsValue payload.asks] := by
  rw [Binance.Depth20.deserialize, Option.bind_eq_bind, Option.bind_eq_some_iff]
  constructor
  · rintro ⟨found, read, taken⟩
    obtain ⟨lastUpdateId, bids, asks, rfl⟩ := List.length_eq_three.mp (length_fields read)
    simp only [Option.bind_eq_bind, Option.bind_eq_some_iff, required_eq_some_iff,
      Option.pure_def, Option.some_inj] at taken
    obtain ⟨id, ⟨idValue, rfl, readId⟩, bidLevels, ⟨bidValue, rfl, readBids⟩, askLevels,
      ⟨askValue, rfl, readAsks⟩, rfl⟩ := taken
    obtain ⟨text, rfl, spells⟩ := u64_eq_some_iff.mp readId
    obtain rfl := levels_eq_some_iff.mp readBids
    obtain rfl := levels_eq_some_iff.mp readAsks
    exact ⟨text, spells, fields_eq_some_iff.mp read⟩
  · rintro ⟨text, spells, gives⟩
    refine ⟨_, fields_eq_some_iff.mpr gives, ?_⟩
    simp only [List.map_cons, List.map_nil, required, Option.bind_some, levels_eq_some_iff.mpr rfl,
      u64_eq_some_iff.mpr ⟨text, rfl, spells⟩, Option.bind_eq_bind, Option.pure_def]

theorem Bitstamp.data_eq_some_iff {value : Value} {payload : Bitstamp.Data} :
    Bitstamp.Data.deserialize value = some payload ↔
      Gives ["bids".toList, "asks".toList] value
        [levelsValue payload.bids, levelsValue payload.asks] := by
  rw [Bitstamp.Data.deserialize, Option.bind_eq_bind, Option.bind_eq_some_iff]
  constructor
  · rintro ⟨found, read, taken⟩
    obtain ⟨bids, asks, rfl⟩ := List.length_eq_two.mp (length_fields read)
    simp only [Option.bind_eq_bind, Option.bind_eq_some_iff, required_eq_some_iff,
      Option.pure_def, Option.some_inj] at taken
    obtain ⟨bidLevels, ⟨bidValue, rfl, readBids⟩, askLevels, ⟨askValue, rfl, readAsks⟩, rfl⟩ :=
      taken
    obtain rfl := levels_eq_some_iff.mp readBids
    obtain rfl := levels_eq_some_iff.mp readAsks
    exact fields_eq_some_iff.mp read
  · intro gives
    refine ⟨_, fields_eq_some_iff.mpr gives, ?_⟩
    simp only [List.map_cons, List.map_nil, required, Option.bind_some, levels_eq_some_iff.mpr rfl,
      Option.bind_eq_bind, Option.pure_def]

/-- An envelope with a payload gives its event and the payload's value. -/
theorem Bitstamp.envelope_eq_some_iff {value : Value} {event : Text} {payload : Bitstamp.Data} :
    Bitstamp.Envelope.deserialize value = some ⟨event, some payload⟩ ↔
      ∃ data, Gives ["event".toList, "data".toList] value [.string ⟨event, true⟩, data] ∧
        Gives ["bids".toList, "asks".toList] data
          [levelsValue payload.bids, levelsValue payload.asks] := by
  rw [Bitstamp.Envelope.deserialize, Option.bind_eq_bind, Option.bind_eq_some_iff]
  constructor
  · rintro ⟨found, read, taken⟩
    obtain ⟨named, data, rfl⟩ := List.length_eq_two.mp (length_fields read)
    simp only [Option.bind_eq_bind, Option.bind_eq_some_iff, required_eq_some_iff,
      Option.pure_def, Option.some_inj, Bitstamp.Envelope.mk.injEq] at taken
    obtain ⟨text, ⟨eventValue, rfl, readEvent⟩, found, readData, rfl, rfl⟩ := taken
    obtain rfl := str_eq_some_iff.mp readEvent
    cases data with
    | none => cases readData
    | some data =>
      have read' : Bitstamp.Data.deserialize data = some payload := by
        cases data with
        | null => cases readData
        | _ =>
          rw [withDefault, option, Option.map_eq_some_iff] at readData
          · obtain ⟨_, read, same⟩ := readData
            rwa [Option.some.inj same] at read
          · intro null
            cases null
      exact ⟨data, fields_eq_some_iff.mp read, Bitstamp.data_eq_some_iff.mp read'⟩
  · rintro ⟨data, gives, payloadGiven⟩
    refine ⟨_, fields_eq_some_iff.mpr gives, ?_⟩
    have read := Bitstamp.data_eq_some_iff.mpr payloadGiven
    have given : option Bitstamp.Data.deserialize data = some (some payload) := by
      cases payloadGiven with
      | object => rw [option, read, Option.map_some]; simp
      | array => rw [option, read, Option.map_some]; simp
    simp only [List.map_cons, List.map_nil, required, Option.bind_some, withDefault, given,
      str_eq_some_iff.mpr rfl, Option.bind_eq_bind, Option.pure_def]

/-! ## Books -/

/-- The book has the levels the texts spell, this number and the times of its parse. -/
structure BookOf (bids asks : List (Text × Text)) (lastUpdateId : Nat) (clock : ParseClock)
    (book : Book) : Prop where
  bids : List.Forall₂ ReadFrom bids book.bids
  asks : List.Forall₂ ReadFrom asks book.asks
  number : book.lastUpdateId = lastUpdateId
  started : book.parseStartedAt = clock.startedAt
  finished : book.parsedAt = clock.finishedAt

theorem parseLevels_eq_some_iff {texts : List (Text × Text)} {levels : List (Price × Amount)} :
    Binance.parseLevels texts = some levels ↔ List.Forall₂ ReadFrom texts levels := by
  constructor
  · exact Binance.readFrom_parseLevels
  · intro read
    induction read with
    | nil => rfl
    | cons first _ ih =>
      rw [Binance.parseLevels, first.price, first.amount, ih]
      rfl

theorem Binance.parse_eq_some_iff {depth20 : Text → Option Depth20} {raw : Text}
    {clock : ParseClock} {book : Book} :
    parse depth20 raw clock = some book ↔ ∃ payload, depth20 raw = some payload ∧
      BookOf payload.bids payload.asks payload.lastUpdateId clock book := by
  simp only [parse, Option.bind_eq_bind, Option.pure_def, Option.bind_eq_some_iff,
    Option.some_inj, parseLevels_eq_some_iff]
  constructor
  · rintro ⟨payload, read, bids, readBids, asks, readAsks, rfl⟩
    exact ⟨payload, read, readBids, readAsks, rfl, rfl, rfl⟩
  · rintro ⟨payload, read, readBids, readAsks, number, started, finished⟩
    refine ⟨payload, read, _, readBids, _, readAsks, ?_⟩
    rw [← number, ← started, ← finished]

theorem Bitstamp.parse_eq_some_iff {json : Text → Option Value} {raw : Text} {clock : ParseClock}
    {book : Book} :
    parse json raw clock = some book ↔ ∃ payload,
      (json raw).bind Envelope.deserialize = some ⟨"data".toList, some payload⟩ ∧
        BookOf payload.bids payload.asks 0 clock book := by
  have taken (data : Option Data) : bookOf data clock = some book ↔
      ∃ payload, data = some payload ∧ BookOf payload.bids payload.asks 0 clock book := by
    simp only [bookOf, parseLevels_eq, Option.bind_eq_bind, Option.pure_def,
      Option.bind_eq_some_iff, Option.some_inj, parseLevels_eq_some_iff]
    constructor
    · rintro ⟨payload, read, bids, readBids, asks, readAsks, rfl⟩
      exact ⟨payload, read, readBids, readAsks, rfl, rfl, rfl⟩
    · rintro ⟨payload, read, readBids, readAsks, number, started, finished⟩
      refine ⟨payload, read, _, readBids, _, readAsks, ?_⟩
      rw [← number, ← started, ← finished]
  rw [parse, parseLogged]
  cases read : (json raw).bind Envelope.deserialize with
  | none => simp
  | some envelope =>
    obtain ⟨event, data⟩ := envelope
    change (dispatch raw ⟨event, data⟩ clock).2 = some book ↔ _
    by_cases isData : event = "data".toList
    · subst isData
      rw [show dispatch raw ⟨"data".toList, data⟩ clock = (none, bookOf data clock) from if_pos rfl,
        taken]
      simp
    · rw [dispatch_bookless isData, dispatch_bookless_book isData]
      simp only [reduceCtorEq, Option.some_inj, Envelope.mk.injEq, isData, false_and, exists_false]

/-- A message becomes a book exactly if it is one: of Binance, a number and two sides of pairs of
numerals; of Bitstamp, an envelope of the event `data` around two such sides. The book has every
level of the message and no other. -/
theorem message_is_book_iff (json : Text → Option Value) (raw : Text) (clock : ParseClock)
    (book : Book) :
    (Binance.parse (Binance.depth20 json) raw clock = some book ↔
      ∃ value text id bids asks, json raw = some value ∧ SpellsU64 text id ∧
        Gives ["lastUpdateId".toList, "bids".toList, "asks".toList] value
          [.number text, levelsValue bids, levelsValue asks] ∧
        BookOf bids asks id clock book) ∧
    (Bitstamp.parse json raw clock = some book ↔
      ∃ value data bids asks, json raw = some value ∧
        Gives ["event".toList, "data".toList] value [.string ⟨"data".toList, true⟩, data] ∧
        Gives ["bids".toList, "asks".toList] data [levelsValue bids, levelsValue asks] ∧
        BookOf bids asks 0 clock book) := by
  rw [Binance.parse_eq_some_iff, Bitstamp.parse_eq_some_iff]
  simp only [Binance.depth20, Option.bind_eq_some_iff, Binance.deserialize_eq_some_iff,
    Bitstamp.envelope_eq_some_iff]
  constructor
  · constructor
    · rintro ⟨payload, ⟨value, read, text, spells, gives⟩, holds⟩
      exact ⟨value, text, _, _, _, read, spells, gives, holds⟩
    · rintro ⟨value, text, id, bids, asks, read, spells, gives, holds⟩
      exact ⟨⟨id, bids, asks⟩, ⟨value, read, text, spells, gives⟩, holds⟩
  · constructor
    · rintro ⟨payload, ⟨value, read, data, envelope, gives⟩, holds⟩
      exact ⟨value, data, _, _, read, envelope, gives, holds⟩
    · rintro ⟨value, data, bids, asks, read, envelope, gives, holds⟩
      exact ⟨⟨bids, asks⟩, ⟨value, read, data, envelope, gives⟩, holds⟩

end Orderbook
