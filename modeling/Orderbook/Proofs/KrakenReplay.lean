import Orderbook.Proofs.KrakenParse

/-!
# The held book as a pair of bounded maps

The reference book is two finite maps from prices to the digits of price and qty; a message inserts
into them, erases from them and restricts them to their best prices. Kraken's lists, with their
retain, push, sort and truncate, replay it message by message (`replay_correct`).
-/

namespace Orderbook

namespace Kraken

open StableMerge Ladder OrderedMap

/-- One side of the reference book: price to price digits and qty digits. The bid side counts
prices downwards, so the best prices are the lowest keys of both sides. -/
abbrev RefSide := Int → Option (Text × Text)

/-- The reference book. -/
structure Reference where
  bids : RefSide
  asks : RefSide

/-- One wire level: an erasure if qty 0 removes and the qty is 0, an insertion otherwise. -/
def RefSide.put (ascending removes : Bool) (side : RefSide) (wire : WireLevel) : RefSide :=
  match F64.parse wire.price.get, F64.parse wire.qty.get with
  | some price, some qty =>
      let k := if ascending then price.key else -price.key
      if removes && qty.beq F64.zero then erase side k
      else insert side k (wire.price.get, wire.qty.get)
  | _, _ => side

/-- The levels of one side of a message in wire order. -/
def RefSide.putAll (ascending removes : Bool) (side : RefSide) (wires : List WireLevel) : RefSide :=
  wires.foldl (RefSide.put ascending removes) side

/-- The maps a snapshot lists. -/
def Reference.ofSnapshot (data : BookData) : Reference where
  bids := RefSide.putAll false false (fun _ => none) data.bids
  asks := RefSide.putAll true false (fun _ => none) data.asks

/-- The maps after an update. -/
def Reference.update (ref : Reference) (data : BookData) : Reference where
  bids := RefSide.putAll false true ref.bids data.bids
  asks := RefSide.putAll true true ref.asks data.asks

/-- Both maps restricted to their best `DEPTH` prices. -/
noncomputable def Reference.restrict (ref : Reference) : Reference where
  bids := best DEPTH ref.bids
  asks := best DEPTH ref.asks

/-- The checksum digits of the best prices of a side. -/
noncomputable def RefSide.checksumText (side : RefSide) : Text :=
  ((enumerate side).take DEPTH).flatMap fun entry =>
    stripForChecksum entry.2.1 ++ stripForChecksum entry.2.2

noncomputable def Reference.checksum (codec : Codec) (ref : Reference) : UInt32 :=
  codec.hash ((ref.asks.checksumText ++ ref.bids.checksumText).flatMap String.utf8EncodeChar)

/-- A side of the reference book, best price first. -/
noncomputable def RefSide.toPairs (side : RefSide) : List (Price × Amount) :=
  (enumerate side).filterMap fun entry =>
    match Price.parse entry.2.1, Amount.parse entry.2.2 with
    | some price, some amount => some (price, amount)
    | _, _ => none

noncomputable def Reference.toBook (ref : Reference) (clock : ParseClock) : Book where
  bids := ref.bids.toPairs
  asks := ref.asks.toPairs
  lastUpdateId := 0
  parseStartedAt := clock.startedAt
  parsedAt := clock.finishedAt

/-- A reference book is held and given where its checksum is the message's, else the state is
cleared. -/
noncomputable def Reference.settle (codec : Codec) (ref : Reference) (data : BookData)
    (clock : ParseClock) : Option Reference × Option Book :=
  if ref.checksum codec ≠ data.checksum then (none, none)
  else (some ref, some (ref.toBook clock))

/-- The reference state machine; `taking` is what it takes from a snapshot's maps. -/
noncomputable def reference (codec : Codec) (taking : Reference → Reference) :
    Machine (Option Reference) (Text × ParseClock) (Option Book) :=
  fun state msg =>
    match incoming codec msg.1 with
    | .snapshot data => (taking (Reference.ofSnapshot data)).settle codec data msg.2
    | .update data =>
        match state with
        | none => (none, none)
        | some ref => (ref.update data).restrict.settle codec data msg.2
    | .other => (state, none)

/-- Every price and qty of a payload is a JSON number. -/
def Numeric (data : BookData) : Prop :=
  ∀ wire ∈ data.bids ++ data.asks,
    Json.isNumber wire.price.get = true ∧ Json.isNumber wire.qty.get = true

instance (data : BookData) : Decidable (Numeric data) :=
  inferInstanceAs (Decidable (∀ wire ∈ data.bids ++ data.asks, _ ∧ _))

/-- The prices of a side are pairwise distinct numbers. -/
def DistinctPrices (wires : List WireLevel) : Prop :=
  (wires.map fun wire => (F64.parse wire.price.get).map F64.key).Nodup

instance (wires : List WireLevel) : Decidable (DistinctPrices wires) :=
  inferInstanceAs (Decidable (List.Nodup _))

/-- What is assumed of the book messages: numbers everywhere, distinct prices in a snapshot. -/
def Incoming.Admissible : Incoming → Prop
  | .snapshot data => Numeric data ∧ DistinctPrices data.bids ∧ DistinctPrices data.asks
  | .update data => Numeric data
  | .other => True

instance : (payload : Incoming) → Decidable payload.Admissible
  | .snapshot data =>
      inferInstanceAs
        (Decidable (Numeric data ∧ DistinctPrices data.bids ∧ DistinctPrices data.asks))
  | .update data => inferInstanceAs (Decidable (Numeric data))
  | .other => isTrue trivial

/-- A snapshot is no deeper than the subscription. -/
def Incoming.Shallow : Incoming → Prop
  | .snapshot data => data.bids.length ≤ DEPTH ∧ data.asks.length ≤ DEPTH
  | _ => True

instance : (payload : Incoming) → Decidable payload.Shallow
  | .snapshot data =>
      inferInstanceAs (Decidable (data.bids.length ≤ DEPTH ∧ data.asks.length ≤ DEPTH))
  | .update _ => isTrue trivial
  | .other => isTrue trivial

/-! ## One side -/

theorem toLevels_of_numeric {data : BookData} (numeric : Numeric data) :
    ∃ bids asks, toLevels data.bids = some bids ∧ toLevels data.asks = some asks := by
  obtain ⟨bids, convertBids⟩ := toLevels_of_isNumber fun wire member =>
    numeric wire (List.mem_append_left _ member)
  obtain ⟨asks, convertAsks⟩ := toLevels_of_isNumber fun wire member =>
    numeric wire (List.mem_append_right _ member)
  exact ⟨bids, asks, convertBids, convertAsks⟩

theorem length_of_toLevels {wires : List WireLevel} {levels : List KrakenLevel}
    (converts : toLevels wires = some levels) : levels.length = wires.length := by
  induction wires generalizing levels with
  | nil =>
    cases converts
    rfl
  | cons wire wires ih =>
    cases first : wire.toLevel with
    | none => simp [toLevels_cons_of_none first] at converts
    | some level =>
      rw [toLevels_cons_of_some first, Option.map_eq_some_iff] at converts
      obtain ⟨rest, tail, rfl⟩ := converts
      simp [ih tail]

/-- On a level that converts the reference reads what the code reads. -/
theorem put_of_toLevel (ascending removes : Bool) (side : RefSide) {wire : WireLevel}
    {level : KrakenLevel} (converts : wire.toLevel = some level) :
    RefSide.put ascending removes side wire =
      if removes && !level.kept then erase side (position ascending level)
      else insert side (position ascending level) level.texts := by
  obtain ⟨price, qty⟩ := WireLevel.toLevel_eq_some_iff.mp converts
  simp only [RefSide.put, price, qty, level.price_parses, level.qty_parses, KrakenLevel.kept,
    Bool.not_not]
  rfl

theorem putAll_of_toLevels (ascending removes : Bool) (side : RefSide) {wires : List WireLevel}
    {levels : List KrakenLevel} (converts : toLevels wires = some levels) :
    RefSide.putAll ascending removes side wires =
      levels.foldl (fun side level =>
        if removes && !level.kept then erase side (position ascending level)
        else insert side (position ascending level) level.texts) side := by
  induction wires generalizing side levels with
  | nil =>
    cases converts
    rfl
  | cons wire wires ih =>
    cases first : wire.toLevel with
    | none => simp [toLevels_cons_of_none first] at converts
    | some level =>
      rw [toLevels_cons_of_some first, Option.map_eq_some_iff] at converts
      obtain ⟨rest, tail, rfl⟩ := converts
      rw [List.foldl_cons, ← put_of_toLevel ascending removes side first, ← ih _ tail]
      rfl

theorem positions_nodup (ascending : Bool) {wires : List WireLevel} {levels : List KrakenLevel}
    (converts : toLevels wires = some levels) (distinct : DistinctPrices wires) :
    (levels.map (position ascending)).Nodup := by
  have keys : wires.map (fun wire => (F64.parse wire.price.get).map F64.key) =
      levels.map fun level => some level.price.key := by
    clear distinct
    induction wires generalizing levels with
    | nil =>
      cases converts
      rfl
    | cons wire wires ih =>
      cases first : wire.toLevel with
      | none => simp [toLevels_cons_of_none first] at converts
      | some level =>
        rw [toLevels_cons_of_some first, Option.map_eq_some_iff] at converts
        obtain ⟨rest, tail, rfl⟩ := converts
        have price := (WireLevel.toLevel_eq_some_iff.mp first).1
        rw [List.map_cons, List.map_cons, ih tail, price, level.price_parses]
        rfl
  rw [DistinctPrices, keys] at distinct
  rw [List.Nodup, List.pairwise_map] at distinct ⊢
  refine distinct.imp fun different same => different ?_
  cases ascending <;> simpa [position] using same

/-- The sorted levels of a snapshot side hold the map the snapshot lists. -/
theorem lists_snapshot (ascending : Bool) {wires : List WireLevel} {levels : List KrakenLevel}
    (converts : toLevels wires = some levels) (distinct : DistinctPrices wires) :
    Lists (position ascending) KrakenLevel.texts (sortBy (priceCmp ascending) levels)
      (RefSide.putAll ascending false (fun _ => none) wires) := by
  have nodup := positions_nodup ascending converts distinct
  refine lists_sortBy (refines_priceCmp ascending) nodup fun k v => ?_
  rw [putAll_of_toLevels ascending false _ converts]
  exact (foldl_insert_eq_some_iff nodup (fun _ => none) k v).trans (by simp)

/-- The levels of an update side take a list that holds a map to the list that holds the map the
reference makes of it. -/
theorem lists_changes (ascending : Bool) {levels updates : List KrakenLevel} {side : RefSide}
    (lists : Lists (position ascending) KrakenLevel.texts levels side) {wires : List WireLevel}
    (converts : toLevels wires = some updates) :
    Lists (position ascending) KrakenLevel.texts (changes ascending levels updates)
      (RefSide.putAll ascending true side wires) := by
  have held := lists_putAll (refines_priceCmp ascending) KrakenLevel.kept lists updates
  rw [putAll_of_toLevels ascending true side converts]
  convert held using 3
  funext level
  cases level.kept <;> rfl

/-! ## Whole books -/

/-- The sides of a book hold the maps of the reference book. -/
structure Holds (book : KrakenBook) (ref : Reference) : Prop where
  bids : Lists (position false) KrakenLevel.texts book.bids ref.bids
  asks : Lists (position true) KrakenLevel.texts book.asks ref.asks

/-- The held book is the reference state. -/
def Mirrors (kraken : Kraken) : Option Reference → Prop
  | none => kraken.book = none
  | some ref => ∃ book, kraken.book = some book ∧ Holds book ref

theorem checksumText_of_lists {ascending : Bool} {levels : List KrakenLevel} {side : RefSide}
    (lists : Lists (position ascending) KrakenLevel.texts levels side) :
    side.checksumText = checksumText levels := by
  rw [RefSide.checksumText, lists.enumerate_eq, ← List.map_take, List.flatMap_map]
  rfl

theorem toPairs_of_lists {ascending : Bool} {levels : List KrakenLevel} {side : RefSide}
    (lists : Lists (position ascending) KrakenLevel.texts levels side) :
    side.toPairs = levels.map KrakenLevel.toPair := by
  rw [RefSide.toPairs, lists.enumerate_eq, List.filterMap_map, ← List.filterMap_eq_map]
  apply List.filterMap_congr
  intro level _
  simp [KrakenLevel.texts, KrakenLevel.toPair, Price.parse, Amount.parse, level.price_parses,
    level.qty_parses]

/-- A book and the reference book it holds settle alike. -/
theorem settle_mirrors (codec : Codec) {book : KrakenBook} {ref : Reference}
    (holds : Holds book ref) (data : BookData) (clock : ParseClock) :
    Mirrors (settle codec book data clock).1 (ref.settle codec data clock).1 ∧
      (settle codec book data clock).2 = (ref.settle codec data clock).2 := by
  have sums : ref.checksum codec = computeChecksum codec book := by
    rw [Reference.checksum, computeChecksum, checksumText_of_lists holds.bids,
      checksumText_of_lists holds.asks]
  have books : ref.toBook clock = book.toModelBook clock := by
    rw [Reference.toBook, KrakenBook.toModelBook, toPairs_of_lists holds.bids,
      toPairs_of_lists holds.asks]
  unfold settle Reference.settle
  rw [sums, books]
  by_cases passes : computeChecksum codec book = data.checksum
  · rw [if_neg (not_not.mpr passes), if_neg (not_not.mpr passes)]
    exact ⟨⟨book, rfl, holds⟩, rfl⟩
  · rw [if_pos passes, if_pos passes]
    exact ⟨rfl, rfl⟩

/-- The sorted levels of a snapshot with distinct prices hold its maps. -/
theorem holds_ofSnapshot {data : BookData} {bids asks : List KrakenLevel}
    (convertBids : toLevels data.bids = some bids) (convertAsks : toLevels data.asks = some asks)
    (distinctBids : DistinctPrices data.bids) (distinctAsks : DistinctPrices data.asks) :
    Holds ⟨sortBy (priceCmp false) bids, sortBy (priceCmp true) asks⟩
      (Reference.ofSnapshot data) :=
  ⟨lists_snapshot false convertBids distinctBids, lists_snapshot true convertAsks distinctAsks⟩

/-- A snapshot with distinct prices builds the book that holds the best of its maps. -/
theorem holds_snapshot {data : BookData} (admissible : (Incoming.snapshot data).Admissible) :
    ∃ book, KrakenBook.fromSnapshot data = some book ∧
      Holds book (Reference.ofSnapshot data).restrict ∧
      ((Incoming.snapshot data).Shallow →
        (Reference.ofSnapshot data).restrict = Reference.ofSnapshot data) := by
  obtain ⟨numeric, distinctBids, distinctAsks⟩ := admissible
  obtain ⟨bids, asks, convertBids, convertAsks⟩ := toLevels_of_numeric numeric
  have whole := holds_ofSnapshot convertBids convertAsks distinctBids distinctAsks
  refine ⟨_, KrakenBook.fromSnapshot_of_toLevels convertBids convertAsks,
    ⟨whole.bids.take DEPTH, whole.asks.take DEPTH⟩, fun shallow => ?_⟩
  have bidDepth : (sortBy (priceCmp false) bids).length ≤ DEPTH := by
    rw [(sortBy_perm bids).length_eq, length_of_toLevels convertBids]
    exact shallow.1
  have askDepth : (sortBy (priceCmp true) asks).length ≤ DEPTH := by
    rw [(sortBy_perm asks).length_eq, length_of_toLevels convertAsks]
    exact shallow.2
  have bidSide := whole.bids.best_eq_self bidDepth
  have askSide := whole.asks.best_eq_self askDepth
  rw [Reference.restrict, bidSide, askSide]

/-- An update of numbers takes a book that holds the reference book to one that holds the updated
and restricted reference book. -/
theorem holds_update {book : KrakenBook} {ref : Reference} (holds : Holds book ref)
    {data : BookData} (numeric : Numeric data) :
    ∃ book', book.applyUpdate data = (book', true) ∧ Holds book' (ref.update data).restrict := by
  obtain ⟨bids, asks, convertBids, convertAsks⟩ := toLevels_of_numeric numeric
  exact ⟨_, KrakenBook.applyUpdate_of_toLevels book convertBids convertAsks,
    (lists_changes false holds.bids convertBids).take DEPTH,
    (lists_changes true holds.asks convertAsks).take DEPTH⟩

/-- One message keeps the held book and the reference state alike and gives the same output,
whatever the reference takes from a snapshot, as long as that is the best of its maps. -/
theorem step_mirrors (codec : Codec) (taking : Reference → Reference) {kraken : Kraken}
    {state : Option Reference} (msg : Text × ParseClock)
    (admissible : (incoming codec msg.1).Admissible)
    (takes : ∀ data, incoming codec msg.1 = .snapshot data →
      taking (Reference.ofSnapshot data) = (Reference.ofSnapshot data).restrict)
    (mirrors : Mirrors kraken state) :
    Mirrors (machine codec kraken msg).1 (reference codec taking state msg).1 ∧
      (machine codec kraken msg).2 = (reference codec taking state msg).2 := by
  rw [machine_eq, parse_eq]
  unfold reference
  cases payload : incoming codec msg.1 with
  | other => exact ⟨mirrors, rfl⟩
  | snapshot data =>
    rw [payload] at admissible
    obtain ⟨book, built, holds, -⟩ := holds_snapshot admissible
    simp only [built, takes data payload]
    exact settle_mirrors codec holds data msg.2
  | update data =>
    rw [payload] at admissible
    cases state with
    | none =>
      have held : kraken.book = none := mirrors
      simp only [held]
      exact ⟨held, trivial⟩
    | some ref =>
      obtain ⟨book, held, holds⟩ := mirrors
      obtain ⟨book', applied, holds'⟩ := holds_update holds admissible
      simp only [held, applied]
      exact settle_mirrors codec holds' data msg.2

theorem mirrors_new : Mirrors new none := rfl

/-- Whatever messages a fresh `Kraken` reads, it gives the books of the reference machine and holds
its state, where a snapshot replaces the maps by the best `DEPTH` prices of the ones it lists. If no
snapshot is deeper than that, so does the reference machine that takes them whole. -/
theorem replay_correct (codec : Codec) (msgs : List (Text × ParseClock))
    (admissible : ∀ msg ∈ msgs, (incoming codec msg.1).Admissible) :
    (Mirrors ((machine codec).final new msgs)
        ((reference codec Reference.restrict).final none msgs) ∧
      (machine codec).outputs new msgs = (reference codec Reference.restrict).outputs none msgs) ∧
    ((∀ msg ∈ msgs, (incoming codec msg.1).Shallow) →
      Mirrors ((machine codec).final new msgs) ((reference codec id).final none msgs) ∧
        (machine codec).outputs new msgs = (reference codec id).outputs none msgs) := by
  constructor
  · refine Machine.simulation (R := Mirrors)
      (C := fun msg => (incoming codec msg.1).Admissible) _ ?_ mirrors_new
      msgs admissible
    intro kraken state msg admissible mirrors
    exact step_mirrors codec _ msg admissible (fun _ _ => rfl) mirrors
  · intro shallow
    refine Machine.simulation (R := Mirrors)
      (C := fun msg => (incoming codec msg.1).Admissible ∧ (incoming codec msg.1).Shallow) _ ?_
      mirrors_new
      msgs fun msg member => ⟨admissible msg member, shallow msg member⟩
    intro kraken state msg both mirrors
    refine step_mirrors codec _ msg both.1 (fun data payload => ?_) mirrors
    obtain ⟨admissible, shallow⟩ := both
    rw [payload] at admissible shallow
    obtain ⟨-, -, -, whole⟩ := holds_snapshot admissible
    exact (whole shallow).symm

/-- A snapshot, a heartbeat and an update that removes a price, writes one price twice under two
spellings and removes a price that is not there. -/
def shortSnapshot : BookData where
  bids := [wireLevel "1".toList "5".toList]
  asks := [wireLevel "2".toList "5".toList]
  checksum := 3374844892

def shortUpdate : BookData where
  bids := [wireLevel "1".toList "0".toList, wireLevel "0.5".toList "7".toList,
    wireLevel "0.50".toList "8".toList, wireLevel "3".toList "0.0".toList]
  asks := []
  checksum := 265469310

def shortCodec : Codec :=
  Codec.reading [("snapshot".toList, shortSnapshot), ("update".toList, shortUpdate)]

def shortRun : List (Text × ParseClock) :=
  [(renderMessage "snapshot".toList shortSnapshot, ⟨0, 0⟩), (heartbeat, ⟨1, 1⟩),
    (renderMessage "update".toList shortUpdate, ⟨2, 2⟩)]

theorem replay_correct_shortRun :
    (machine shortCodec).outputs new shortRun =
        (reference shortCodec Reference.restrict).outputs none shortRun ∧
      (machine shortCodec).outputs new shortRun = (reference shortCodec id).outputs none shortRun ∧
      ((machine shortCodec).outputs new shortRun).map Option.isSome = [true, false, true] := by
  have replay := replay_correct shortCodec shortRun (by decide +kernel)
  exact ⟨replay.1.2, (replay.2 (by decide +kernel)).2, by decide +kernel⟩

/-- A snapshot with one bid more than `DEPTH`. -/
def deepSnapshot : BookData where
  bids := (List.range 11).map fun i => wireLevel (Nat.toDigits 10 (i + 10)) "1".toList
  asks := [wireLevel "30".toList "1".toList]
  checksum := 2211727009

/-- The best bid of `deepSnapshot` goes; the checksum is of the ten bids it still lists. -/
def bestBidGone : BookData where
  bids := [wireLevel "20".toList "0".toList]
  asks := []
  checksum := 2339101976

def deepCodec : Codec :=
  Codec.reading [("snapshot".toList, deepSnapshot), ("update".toList, bestBidGone)]

def deepRun : List (Text × ParseClock) :=
  [(renderMessage "snapshot".toList deepSnapshot, ⟨0, 0⟩),
    (renderMessage "update".toList bestBidGone, ⟨1, 1⟩)]

/-- The levels of `deepSnapshot`, sorted and not cut. -/
def deepBook : KrakenBook where
  bids := sortBy (priceCmp false) ((toLevels deepSnapshot.bids).getD [])
  asks := sortBy (priceCmp true) ((toLevels deepSnapshot.asks).getD [])

theorem holds_deepBook : Holds deepBook (Reference.ofSnapshot deepSnapshot) :=
  holds_ofSnapshot (by decide +kernel) (by decide +kernel) (by decide +kernel) (by decide +kernel)

/-- The reference machine that takes the maps of a snapshot whole gives a book for the update of
`deepRun`. -/
theorem reference_deepRun :
    ((reference deepCodec id).outputs none deepRun).map Option.isSome = [true, true] := by
  have snapshot : incoming deepCodec (renderMessage "snapshot".toList deepSnapshot) =
      .snapshot deepSnapshot := by decide +kernel
  have update : incoming deepCodec (renderMessage "update".toList bestBidGone) =
      .update bestBidGone := by decide +kernel
  have settled : (settle deepCodec deepBook deepSnapshot ⟨0, 0⟩).1 = ⟨some deepBook⟩ ∧
      (settle deepCodec deepBook deepSnapshot ⟨0, 0⟩).2.isSome = true := by decide +kernel
  have again : (settle deepCodec (deepBook.applyUpdate bestBidGone).1 bestBidGone ⟨1, 1⟩).2.isSome =
      true := by decide +kernel
  obtain ⟨mirrors, outputs⟩ := settle_mirrors deepCodec holds_deepBook deepSnapshot ⟨0, 0⟩
  rw [settled.1] at mirrors
  have first : reference deepCodec id none
      (renderMessage "snapshot".toList deepSnapshot, ⟨0, 0⟩) =
        (Reference.ofSnapshot deepSnapshot).settle deepCodec deepSnapshot ⟨0, 0⟩ := by
    simp only [reference, snapshot, id]
  simp only [deepRun, Machine.outputs_cons, Machine.outputs_nil, first, List.map_cons,
    List.map_nil, ← outputs, settled.2]
  cases state : ((Reference.ofSnapshot deepSnapshot).settle deepCodec deepSnapshot ⟨0, 0⟩).1 with
  | none =>
    rw [state] at mirrors
    cases mirrors
  | some ref =>
    rw [state] at mirrors
    obtain ⟨book, held, holds⟩ := mirrors
    obtain rfl : deepBook = book := Option.some.inj held
    obtain ⟨book', applied, holds'⟩ := holds_update holds
      (show Numeric bestBidGone by decide +kernel)
    have second := (settle_mirrors deepCodec holds' bestBidGone ⟨1, 1⟩).2
    rw [applied] at again
    rw [second] at again
    simp only [reference, update, again]

/-- The code cuts a snapshot to `DEPTH` levels a side. After the best bid of `deepSnapshot` goes it
holds nine bids where the maps of the snapshot taken whole hold ten, and it rejects the update. -/
theorem deep_snapshot_diverges :
    (∀ msg ∈ deepRun, (incoming deepCodec msg.1).Admissible) ∧
      (machine deepCodec).outputs new deepRun ≠ (reference deepCodec id).outputs none deepRun := by
  refine ⟨by decide +kernel, fun same => ?_⟩
  have code : ((machine deepCodec).outputs new deepRun).map Option.isSome = [true, false] := by
    decide +kernel
  rw [same, reference_deepRun] at code
  cases code

end Kraken

end Orderbook
