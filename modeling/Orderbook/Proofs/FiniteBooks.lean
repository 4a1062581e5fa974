import Orderbook.Exchange.Binance
import Orderbook.Proofs.BitstampEvents
import Orderbook.Proofs.DeepLevels
import Orderbook.Proofs.KrakenAtomicity
import Orderbook.Proofs.Overflow

/-!
# Finite books

`Price::parse` and `Amount::parse` take what `str::parse::<f64>` takes, which is more than numbers.
A book is finite exactly if the texts it was read from are literals below the limit; finite books
merge to summaries without a NaN.
-/

namespace Orderbook

/-- Every price and every amount is finite. -/
def Book.Finite (book : Book) : Prop :=
  ∀ level ∈ book.bids ++ book.asks, level.1.val.isFinite = true ∧ level.2.val.isFinite = true

/-- The price and the amount of a level are texts of finite numbers. -/
def FiniteTexts (level : Text × Text) : Prop :=
  F64.isFiniteText level.1 = true ∧ F64.isFiniteText level.2 = true

/-! ## Levels of texts -/

/-- A level and the texts it was read from. -/
structure ReadFrom (texts : Text × Text) (level : Price × Amount) : Prop where
  price : Price.parse texts.1 = some level.1
  amount : Amount.parse texts.2 = some level.2

theorem ReadFrom.finite_iff {texts : Text × Text} {level : Price × Amount}
    (read : ReadFrom texts level) :
    level.1.val.isFinite = true ∧ level.2.val.isFinite = true ↔ FiniteTexts texts := by
  obtain ⟨price, readPrice, samePrice⟩ := Option.map_eq_some_iff.mp read.price
  obtain ⟨amount, readAmount, sameAmount⟩ := Option.map_eq_some_iff.mp read.amount
  rw [← samePrice, ← sameAmount, F64.isFinite_of_parse readPrice, F64.isFinite_of_parse readAmount]
  rfl

theorem forall_finite_iff {texts : List (Text × Text)} {levels : List (Price × Amount)}
    (read : List.Forall₂ ReadFrom texts levels) :
    (∀ level ∈ levels, level.1.val.isFinite = true ∧ level.2.val.isFinite = true) ↔
      ∀ text ∈ texts, FiniteTexts text := by
  induction read with
  | nil => simp
  | cons first _ ih => rw [List.forall_mem_cons, List.forall_mem_cons, first.finite_iff, ih]

/-- A book read from two lists of texts is finite exactly if all the texts are. -/
theorem Book.finite_iff {book : Book} {bids asks : List (Text × Text)}
    (readBids : List.Forall₂ ReadFrom bids book.bids)
    (readAsks : List.Forall₂ ReadFrom asks book.asks) :
    book.Finite ↔ ∀ text ∈ bids ++ asks, FiniteTexts text :=
  forall_finite_iff (List.rel_append readBids readAsks)

/-! ## Binance and Bitstamp -/

theorem Binance.readFrom_parseLevels {texts : List (Text × Text)} {levels : List (Price × Amount)}
    (parsed : parseLevels texts = some levels) : List.Forall₂ ReadFrom texts levels := by
  induction texts generalizing levels with
  | nil =>
    cases parsed
    exact List.Forall₂.nil
  | cons text texts ih =>
    simp only [parseLevels, Option.bind_eq_bind, Option.pure_def, Option.bind_eq_some_iff,
      Option.some.injEq] at parsed
    obtain ⟨price, readPrice, amount, readAmount, rest, readRest, rfl⟩ := parsed
    exact List.Forall₂.cons ⟨readPrice, readAmount⟩ (ih readRest)

/-- Bitstamp's copy of the loop does the same. -/
theorem Bitstamp.parseLevels_eq (texts : List (Text × Text)) :
    parseLevels texts = Binance.parseLevels texts := by
  induction texts with
  | nil => rfl
  | cons text texts ih =>
    rw [parseLevels] at ih
    rw [parseLevels, List.mapM_cons, ih]
    simp [Binance.parseLevels, Option.bind_assoc]

theorem Binance.finite_iff {depth20 : Text → Option Depth20} {raw : Text} {clock : ParseClock}
    {payload : Depth20} {book : Book} (read : depth20 raw = some payload)
    (parsed : parse depth20 raw clock = some book) :
    book.Finite ↔ ∀ text ∈ payload.bids ++ payload.asks, FiniteTexts text := by
  simp only [parse, read, Option.bind_eq_bind, Option.pure_def, Option.bind_eq_some_iff,
    Option.some.injEq, exists_eq_left'] at parsed
  obtain ⟨bids, readBids, asks, readAsks, rfl⟩ := parsed
  exact Book.finite_iff (readFrom_parseLevels readBids) (readFrom_parseLevels readAsks)

theorem Bitstamp.finite_iff {json : Text → Option Json.Value} {raw : Text} {clock : ParseClock}
    {envelope : Envelope} {data : Data} {book : Book}
    (read : (json raw).bind Envelope.deserialize = some envelope)
    (payload : envelope.data = some data) (parsed : parse json raw clock = some book) :
    book.Finite ↔ ∀ text ∈ data.bids ++ data.asks, FiniteTexts text := by
  rw [parse, parseLogged, read] at parsed
  by_cases isData : envelope.event = "data".toList
  · simp only [dispatch, if_pos isData, payload, bookOf, parseLevels_eq, Option.bind_eq_bind,
      Option.pure_def, Option.bind_some, Option.bind_eq_some_iff, Option.some.injEq] at parsed
    obtain ⟨bids, readBids, asks, readAsks, rfl⟩ := parsed
    exact Book.finite_iff (Binance.readFrom_parseLevels readBids)
      (Binance.readFrom_parseLevels readAsks)
  · simp only [dispatch_bookless isData, dispatch_bookless_book isData] at parsed
    cases parsed

/-! ## Kraken -/

namespace Kraken

/-- The texts a level was read from. -/
def KrakenLevel.FiniteTexts (level : KrakenLevel) : Prop := Orderbook.FiniteTexts level.texts

theorem readFrom_toPair (levels : List KrakenLevel) :
    List.Forall₂ ReadFrom (levels.map KrakenLevel.texts) (levels.map KrakenLevel.toPair) := by
  rw [List.forall₂_map_left_iff, List.forall₂_map_right_iff, List.forall₂_same]
  intro level _
  exact ⟨(Option.some_get level.price_isSome).symm, (Option.some_get level.qty_isSome).symm⟩

theorem KrakenBook.finite_iff (book : KrakenBook) (clock : ParseClock) :
    (book.toModelBook clock).Finite ↔ ∀ level ∈ book.bids ++ book.asks, level.FiniteTexts := by
  have iff : (book.toModelBook clock).Finite ↔ _ :=
    Book.finite_iff (readFrom_toPair book.bids) (readFrom_toPair book.asks)
  rw [iff, ← List.map_append, List.forall_mem_map]
  rfl

/-- Every level of a payload has texts of finite numbers. -/
def BookData.FiniteTexts (data : BookData) : Prop :=
  ∀ wire ∈ data.bids ++ data.asks, Orderbook.FiniteTexts (wire.price.get, wire.qty.get)

theorem WireLevel.texts_of_toLevel {wire : WireLevel} {level : KrakenLevel}
    (converts : wire.toLevel = some level) : level.texts = (wire.price.get, wire.qty.get) := by
  obtain ⟨price, qty⟩ := WireLevel.toLevel_eq_some_iff.mp converts
  rw [price, qty]
  rfl

section Levels

variable {P : KrakenLevel → Prop}

theorem forall_toLevels {wires : List WireLevel} {levels : List KrakenLevel}
    (each : ∀ wire ∈ wires, ∀ level, wire.toLevel = some level → P level)
    (converted : toLevels wires = some levels) : ∀ level ∈ levels, P level := by
  induction wires generalizing levels with
  | nil =>
    cases converted
    simp
  | cons wire wires ih =>
    simp only [toLevels, Option.bind_eq_bind, Option.pure_def, Option.bind_eq_some_iff,
      Option.some.injEq] at converted
    obtain ⟨first, converts, rest, convertedRest, rfl⟩ := converted
    rw [List.forall_mem_cons] at each ⊢
    exact ⟨each.1 first converts, ih each.2 convertedRest⟩

theorem forall_upsert {levels : List KrakenLevel} {level : KrakenLevel} (ascending : Bool)
    (held : ∀ other ∈ levels, P other) (new : P level) :
    ∀ other ∈ upsert levels level ascending, P other := by
  intro other member
  rw [upsert, (StableMerge.sortBy_perm _).mem_iff] at member
  have retained : other ∈ levels.filter (fun existing => !existing.price.beq level.price) →
      P other := fun inside => held other (List.mem_of_mem_filter inside)
  split at member
  · rcases List.mem_append.mp member with inside | last
    · exact retained inside
    · rw [List.mem_singleton.mp last]
      exact new
  · exact retained member

theorem forall_applyLevels (ascending : Bool) {levels : List KrakenLevel} {wires : List WireLevel}
    (held : ∀ level ∈ levels, P level)
    (each : ∀ wire ∈ wires, ∀ level, wire.toLevel = some level → P level) :
    ∀ level ∈ (applyLevels ascending levels wires).1, P level := by
  induction wires generalizing levels with
  | nil => exact held
  | cons wire wires ih =>
    rw [List.forall_mem_cons] at each
    rw [applyLevels]
    cases converts : wire.toLevel with
    | none => exact held
    | some level => exact ih (forall_upsert ascending held (each.1 level converts)) each.2

end Levels

/-- Every level of a book has texts of finite numbers. -/
def KrakenBook.FiniteTexts (book : KrakenBook) : Prop :=
  ∀ level ∈ book.bids ++ book.asks, level.FiniteTexts

/-- The message carries no book payload, or one with texts of finite numbers only. -/
def FinitePayload (codec : Codec) (raw : Text) : Prop :=
  ∀ data, incoming codec raw = .snapshot data ∨ incoming codec raw = .update data →
    data.FiniteTexts

section Texts

/-! What the texts of all payloads satisfy, the texts of the held levels satisfy. -/

variable {T : Text × Text → Prop}

theorem KrakenBook.texts_fromSnapshot {data : BookData} {book : KrakenBook}
    (each : ∀ wire ∈ data.bids ++ data.asks, T (wire.price.get, wire.qty.get))
    (built : KrakenBook.fromSnapshot data = some book) :
    ∀ level ∈ book.bids ++ book.asks, T level.texts := by
  simp only [fromSnapshot, Option.bind_eq_bind, Option.pure_def, Option.bind_eq_some_iff,
    Option.some.injEq] at built
  obtain ⟨bids, readBids, asks, readAsks, rfl⟩ := built
  rw [List.forall_mem_append] at each
  have side {wires : List WireLevel} {levels : List KrakenLevel} (ascending : Bool)
      (each : ∀ wire ∈ wires, T (wire.price.get, wire.qty.get))
      (read : toLevels wires = some levels) :
      ∀ level ∈ (StableMerge.sortBy (priceCmp ascending) levels).take DEPTH, T level.texts := by
    intro level member
    have sorted := List.mem_of_mem_take member
    rw [(StableMerge.sortBy_perm _).mem_iff] at sorted
    refine forall_toLevels (P := fun level => T level.texts)
      (fun wire inside level converts => ?_) read level sorted
    rw [WireLevel.texts_of_toLevel converts]
    exact each wire inside
  rw [List.forall_mem_append]
  exact ⟨side false each.1 readBids, side true each.2 readAsks⟩

theorem KrakenBook.texts_applyUpdate {data : BookData} {book : KrakenBook}
    (each : ∀ wire ∈ data.bids ++ data.asks, T (wire.price.get, wire.qty.get))
    (held : ∀ level ∈ book.bids ++ book.asks, T level.texts) :
    ∀ level ∈ (book.applyUpdate data).1.bids ++ (book.applyUpdate data).1.asks, T level.texts := by
  rw [List.forall_mem_append] at each held
  have side (ascending : Bool) {levels : List KrakenLevel} {wires : List WireLevel}
      (heldSide : ∀ level ∈ levels, T level.texts)
      (each : ∀ wire ∈ wires, T (wire.price.get, wire.qty.get)) :
      ∀ level ∈ (applyLevels ascending levels wires).1, T level.texts := by
    refine forall_applyLevels ascending heldSide fun wire inside level converts => ?_
    rw [WireLevel.texts_of_toLevel converts]
    exact each wire inside
  have bids := side false held.1 each.1
  have asks := side true held.2 each.2
  rw [List.forall_mem_append, applyUpdate]
  cases appliedBids : applyLevels false book.bids data.bids with
  | mk newBids finishedBids =>
    rw [appliedBids] at bids
    cases finishedBids with
    | false => exact ⟨bids, held.2⟩
    | true =>
      cases appliedAsks : applyLevels true book.asks data.asks with
      | mk newAsks finishedAsks =>
        rw [appliedAsks] at asks
        cases finishedAsks with
        | false => exact ⟨bids, asks⟩
        | true =>
          exact ⟨fun level member => bids level (List.mem_of_mem_take member),
            fun level member => asks level (List.mem_of_mem_take member)⟩

theorem heldHas_texts (codec : Codec) {msgs : List (Text × ParseClock)}
    (each : ∀ msg ∈ msgs, ∀ data, incoming codec msg.1 = .snapshot data ∨
      incoming codec msg.1 = .update data →
        ∀ wire ∈ data.bids ++ data.asks, T (wire.price.get, wire.qty.get)) :
    HeldHas (fun book => ∀ level ∈ book.bids ++ book.asks, T level.texts)
      ((machine codec).final new msgs) := by
  refine Machine.invariant
    (P := HeldHas fun book => ∀ level ∈ book.bids ++ book.asks, T level.texts)
    (C := fun msg => ∀ data, incoming codec msg.1 = .snapshot data ∨
      incoming codec msg.1 = .update data →
        ∀ wire ∈ data.bids ++ data.asks, T (wire.price.get, wire.qty.get))
    (machine codec) ?_ ?_ msgs each
  · intro kraken msg payload held
    exact heldHas_parse codec
      (fun data _ carried built =>
        KrakenBook.texts_fromSnapshot (payload data (.inl carried)) built)
      (fun data _ carried has => KrakenBook.texts_applyUpdate (payload data (.inr carried)) has)
      held msg.2
  · intro book held
    cases held

end Texts

/-- After messages of finite numbers the held book has finite numbers only. -/
theorem heldHas_finiteTexts (codec : Codec) {msgs : List (Text × ParseClock)}
    (finite : ∀ msg ∈ msgs, FinitePayload codec msg.1) :
    HeldHas KrakenBook.FiniteTexts ((machine codec).final new msgs) :=
  heldHas_texts codec finite

/-- A book given out is finite exactly if the levels now held have texts of finite numbers. -/
theorem finite_iff_held (codec : Codec) (before : List (Text × ParseClock))
    (msg : Text × ParseClock) {out : Book}
    (gives : (machine codec ((machine codec).final new before) msg).2 = some out) :
    out.Finite ↔ HeldHas KrakenBook.FiniteTexts ((machine codec).final new (before ++ [msg])) := by
  obtain ⟨data, book, -, accepted, -⟩ := accepted_of_some codec before msg gives
  obtain rfl : out = book.toModelBook msg.2 := Option.some_inj.mp accepted.converted
  have held : ((machine codec).final new (before ++ [msg])).book = some book := accepted.held
  rw [KrakenBook.finite_iff]
  refine ⟨?_, ?_⟩
  · intro finite other same
    rw [held] at same
    cases same
    exact finite
  · intro has
    exact has book held

/-- In a run of messages of finite numbers every book given out is finite. -/
theorem finite_of_run (codec : Codec) {msgs : List (Text × ParseClock)}
    (finite : ∀ msg ∈ msgs, FinitePayload codec msg.1) {before : List (Text × ParseClock)}
    {msg : Text × ParseClock} (within : before ++ [msg] <+: msgs) {out : Book}
    (gives : (machine codec ((machine codec).final new before) msg).2 = some out) : out.Finite := by
  rw [finite_iff_held codec before msg gives]
  exact heldHas_finiteTexts codec fun other member => finite other (within.subset member)

end Kraken

/-! ## Merging finite books -/

namespace F64

theorem isNan_of_isFinite {x : F64} (finite : x.isFinite = true) : x.isNan = false := by
  simp only [isFinite, isNan, decide_eq_true_eq, decide_eq_false_iff_not] at finite ⊢
  omega

theorem isNan_ofSignMag_infMag (neg : Bool) : (ofSignMag neg infMag).isNan = false := by
  cases neg <;> decide

theorem isNan_sub {a b : F64} (finiteA : a.isFinite = true) (finiteB : b.isFinite = true) :
    (a.sub b).isNan = false := by
  have infiniteA : a.isInfinite = false := by
    simp only [isFinite, isInfinite, decide_eq_true_eq, beq_eq_false_iff_ne] at finiteA ⊢
    omega
  have infiniteB : b.isInfinite = false := by
    simp only [isFinite, isInfinite, decide_eq_true_eq, beq_eq_false_iff_ne] at finiteB ⊢
    omega
  simp only [sub, isNan_of_isFinite finiteA, isNan_of_isFinite finiteB, infiniteA, infiniteB,
    Bool.or_self, Bool.false_eq_true, if_false]
  split
  · cases a.sign && !b.sign <;> decide
  · exact isNan_ofRatio _ _ _

/-- The tick of the spread: a finite number other than zero. -/
theorem tick_facts : (ofNat 100000000).isNan = false ∧ (ofNat 100000000).isInfinite = false ∧
    (ofNat 100000000).isZero = false := by
  decide +kernel

theorem isNan_mul_tick {x : F64} (number : x.isNan = false) :
    (x.mul (ofNat 100000000)).isNan = false := by
  obtain ⟨tickNumber, tickFinite, tickNonzero⟩ := tick_facts
  simp only [mul, number, tickNumber, tickFinite, tickNonzero, Bool.or_self, Bool.or_false,
    Bool.false_eq_true, if_false]
  split
  · rename_i infinite
    have nonzero : x.isZero = false := by
      simp only [isInfinite, isZero, beq_iff_eq, beq_eq_false_iff_ne] at infinite ⊢
      rw [infinite]
      decide
    rw [nonzero]
    exact isNan_ofSignMag_infMag _
  · exact isNan_ofRatio _ _ _

theorem isNan_div_tick {x : F64} (number : x.isNan = false) :
    (x.div (ofNat 100000000)).isNan = false := by
  obtain ⟨tickNumber, tickFinite, tickNonzero⟩ := tick_facts
  simp only [div, number, tickNumber, tickFinite, tickNonzero, Bool.or_self, Bool.false_eq_true,
    if_false]
  split
  · exact isNan_ofSignMag_infMag _
  · exact isNan_ofRatio _ _ _

theorem isNan_round {x : F64} (number : x.isNan = false) : x.round.isNan = false := by
  rw [round]
  split
  · exact isNan_ofRatio _ _ _
  · exact number

end F64

/-- The spread of finite prices may overflow but is a number. -/
theorem isNan_spreadOf {bestBid bestAsk : Level} (bid : bestBid.price.isFinite = true)
    (ask : bestAsk.price.isFinite = true) : (spreadOf bestBid bestAsk).isNan = false :=
  F64.isNan_div_tick (F64.isNan_round (F64.isNan_mul_tick (F64.isNan_sub ask bid)))

theorem mergeSide_finite {venues : BTreeMap Venue Book}
    (finite : ∀ venue book, venues.get? venue = some book → book.Finite) {side : Side}
    {level : Level} (member : level ∈ mergeSide venues side) :
    level.price.isFinite = true ∧ level.amount.isFinite = true := by
  obtain ⟨venue, book, source, found, inside, rfl⟩ := mem_mergeSide member
  apply finite venue book found source
  cases side with
  | bid => exact List.mem_append_left _ inside
  | ask => exact List.mem_append_right _ inside

/-- Finite books merge to a summary without a NaN. -/
theorem noNan_of_merge {venues : BTreeMap Venue Book}
    (finite : ∀ venue book, venues.get? venue = some book → book.Finite) {summary : Summary}
    (merged : merge venues = some summary) : summary.NoNan := by
  obtain ⟨bestBid, bestAsk, bids, asks, rfl⟩ := merge_eq_some_iff.mp merged
  refine ⟨?_, ?_⟩
  · have bid := mergeSide_finite finite (List.mem_of_mem_head? bids)
    have ask := mergeSide_finite finite (List.mem_of_mem_head? asks)
    exact isNan_spreadOf bid.1 ask.1
  · intro level member
    have finiteLevel : level.price.isFinite = true ∧ level.amount.isFinite = true := by
      rcases List.mem_append.mp member with inside | inside
      · exact mergeSide_finite finite inside
      · exact mergeSide_finite finite inside
    exact ⟨F64.isNan_of_isFinite finiteLevel.1, F64.isNan_of_isFinite finiteLevel.2⟩

theorem finite_received {calls : List Call} (finite : ∀ call ∈ calls, call.book.Finite)
    (now : Instant) :
    ∀ venue book, (received calls now).get? venue = some book → book.Finite := by
  intro venue book found
  rw [get?_received] at found
  obtain ⟨call, last, fresh⟩ := Option.bind_eq_some_iff.mp found
  have member : call ∈ calls := List.mem_of_mem_filter (List.mem_of_getLast? last)
  split at fresh
  · obtain rfl := Option.some.inj fresh
    exact finite call member
  · cases fresh

/-- Finite books give merge results without a NaN over any run of calls. -/
theorem noNan_of_summaries {calls : List Call} (finite : ∀ call ∈ calls, call.book.Finite) :
    ∀ summary ∈ summaries calls, summary.NoNan := by
  induction calls using List.reverseRecOn with
  | nil =>
    intro summary member
    cases member
  | append_singleton calls call ih =>
    intro summary member
    rw [summaries_concat, List.mem_append] at member
    rcases member with before | last
    · exact ih (fun other inside => finite other (List.mem_append_left _ inside)) summary before
    · exact noNan_of_merge (finite_received finite call.now) (Option.mem_toList.mp last)

/-- A book of Binance or Bitstamp is finite exactly if every price and amount of its message is the
text of a finite number. For Kraken the levels now held decide, and in a run of messages of finite
numbers every book is finite. Where all books are finite no price or amount is a NaN, and every
merge result is without a NaN and `==` to itself. -/
theorem books_finite_iff (depth20 : Text → Option Binance.Depth20)
    (json : Text → Option Json.Value) (codec : Kraken.Codec) (raw : Text) (clock : ParseClock) :
    (∀ (payload : Binance.Depth20) (book : Book), depth20 raw = some payload →
        Binance.parse depth20 raw clock = some book →
          (book.Finite ↔ ∀ text ∈ payload.bids ++ payload.asks, FiniteTexts text)) ∧
    (∀ (envelope : Bitstamp.Envelope) (data : Bitstamp.Data) (book : Book),
        (json raw).bind Bitstamp.Envelope.deserialize = some envelope →
          envelope.data = some data → Bitstamp.parse json raw clock = some book →
            (book.Finite ↔ ∀ text ∈ data.bids ++ data.asks, FiniteTexts text)) ∧
    (∀ (msgs before : List (Text × ParseClock)) (msg : Text × ParseClock) (out : Book),
      before ++ [msg] <+: msgs →
        (Kraken.machine codec ((Kraken.machine codec).final Kraken.new before) msg).2 = some out →
          (out.Finite ↔ Kraken.HeldHas Kraken.KrakenBook.FiniteTexts
            ((Kraken.machine codec).final Kraken.new (before ++ [msg]))) ∧
          ((∀ msg ∈ msgs, Kraken.FinitePayload codec msg.1) → out.Finite)) ∧
    (∀ calls : List Call, (∀ call ∈ calls, call.book.Finite) →
      (∀ call ∈ calls, ∀ level ∈ call.book.bids ++ call.book.asks,
        level.1.val.isNan = false ∧ level.2.val.isNan = false) ∧
      ∀ summary ∈ summaries calls, summary.NoNan ∧ summary.beq summary = true) := by
  refine ⟨?_, ?_, ?_, ?_⟩
  · intro payload book read parsed
    exact Binance.finite_iff read parsed
  · intro envelope data book read payload parsed
    exact Bitstamp.finite_iff read payload parsed
  · intro msgs before msg out within gives
    exact ⟨Kraken.finite_iff_held codec before msg gives,
      fun finite => Kraken.finite_of_run codec finite within gives⟩
  · intro calls finite
    refine ⟨?_, ?_⟩
    · intro call member level inside
      have both := finite call member level inside
      exact ⟨F64.isNan_of_isFinite both.1, F64.isNan_of_isFinite both.2⟩
    · intro summary member
      have number := noNan_of_summaries finite summary member
      exact ⟨number, Summary.beq_self_iff.mpr number⟩

/-- A `depth20` message with a bid at `NaN`. -/
def nanText : Text :=
  "\x7b\"lastUpdateId\":1,\"bids\":[[\"NaN\",\"1\"]],\"asks\":[[\"1\",\"1\"]]\x7d".toList

/-- `serde_json` on that message. -/
def nanDepth20 (raw : Text) : Option Binance.Depth20 :=
  if raw = nanText then some ⟨1, [("NaN".toList, ['1'])], [(['1'], ['1'])]⟩ else none

/-- The message parses to a book, and the book is not finite. -/
theorem nan_enters_book :
    (Binance.parse nanDepth20 nanText ⟨0, 0⟩).isSome = true ∧
      ¬ ∀ book, Binance.parse nanDepth20 nanText ⟨0, 0⟩ = some book → book.Finite := by
  have read : nanDepth20 nanText = some ⟨1, [("NaN".toList, ['1'])], [(['1'], ['1'])]⟩ := if_pos rfl
  have parses : (Binance.parse nanDepth20 nanText ⟨0, 0⟩).isSome = true := by
    rw [Binance.parse, read]
    decide +kernel
  refine ⟨parses, fun finite => ?_⟩
  obtain ⟨book, parsed⟩ := Option.isSome_iff_exists.mp parses
  have texts := (Binance.finite_iff read parsed).mp (finite book parsed)
  have bid := texts ("NaN".toList, ['1']) List.mem_cons_self
  exact absurd bid.1 (by decide)

end Orderbook
