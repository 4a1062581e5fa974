import Orderbook.Proofs.KrakenLevels
import Orderbook.Misc.Machine
import Orderbook.Misc.Crc32

/-!
# What one call of Kraken's `parse` does

`incoming` says which book payload a message carries, if any. `parse_eq` says once what a call
does with it; the invariants of the held book that need nothing of the exchange follow.
-/

namespace Orderbook

namespace Kraken

open StableMerge Ladder

/-- A message as the held book sees it. -/
inductive Incoming where
  | snapshot (data : BookData)
  | update (data : BookData)
  | other
  deriving DecidableEq

/-- The book payload `parse` finds in a message. -/
def incoming (codec : Codec) (raw : Text) : Incoming :=
  match codec.peek raw, codec.bookMessage raw with
  | some peek, some msg =>
      if peek.channel = some "book".toList then
        match msg.data.head? with
        | none => .other
        | some data =>
            if msg.kind = "snapshot".toList then .snapshot data
            else if msg.kind = "update".toList then .update data
            else .other
      else .other
  | _, _ => .other

/-- The end of both book branches: the checksum decides between holding and clearing. -/
def settle (codec : Codec) (book : KrakenBook) (data : BookData) (clock : ParseClock) :
    Kraken × Option Book :=
  if computeChecksum codec book ≠ data.checksum then (⟨none⟩, none)
  else (⟨some book⟩, some (book.toModelBook clock))

/-- `parse` by the payload of the message. -/
theorem parse_eq (codec : Codec) (kraken : Kraken) (raw : Text) (clock : ParseClock) :
    parse codec kraken raw clock =
      match incoming codec raw with
      | .snapshot data =>
          match KrakenBook.fromSnapshot data with
          | none => (kraken, none)
          | some book => settle codec book data clock
      | .update data =>
          match kraken.book with
          | none => (kraken, none)
          | some book =>
              match book.applyUpdate data with
              | (book, false) => (⟨some book⟩, none)
              | (book, true) => settle codec book data clock
      | .other => (kraken, none) := by
  unfold parse incoming parseBookMessage settle
  generalize "book".toList = bookText, "subscribe".toList = subscribeText,
    "snapshot".toList = snapshotText, "update".toList = updateText
  cases codec.peek raw with
  | none => rfl
  | some peek =>
    obtain ⟨channel, method⟩ := peek
    cases channel with
    | none =>
      -- The ack is looked at only to be logged.
      cases codec.subscribeAck raw <;> cases codec.bookMessage raw <;> simp
    | some name =>
      by_cases isBook : name = bookText
      · subst isBook
        cases codec.bookMessage raw with
        | none => simp
        | some msg =>
          cases first : msg.data.head? with
          | none => simp [first]
          | some data =>
            by_cases isSnapshot : msg.kind = snapshotText
            · cases built : KrakenBook.fromSnapshot data <;> simp [first, isSnapshot, built]
            · by_cases isUpdate : msg.kind = updateText
              · have different : updateText ≠ snapshotText := isUpdate ▸ isSnapshot
                cases held : kraken.book with
                | none => simp [first, isUpdate, different]
                | some book =>
                  rcases applied : book.applyUpdate data with ⟨book', finished⟩
                  cases finished <;> simp [first, isUpdate, different, applied]
              · simp [first, isSnapshot, isUpdate]
      · cases codec.bookMessage raw <;> simp [isBook]

theorem parse_other {codec : Codec} {raw : Text} (payload : incoming codec raw = .other)
    (kraken : Kraken) (clock : ParseClock) : parse codec kraken raw clock = (kraken, none) := by
  rw [parse_eq, payload]

theorem parse_snapshot {codec : Codec} {raw : Text} {data : BookData}
    (payload : incoming codec raw = .snapshot data) (kraken : Kraken) (clock : ParseClock) :
    parse codec kraken raw clock =
      match KrakenBook.fromSnapshot data with
      | none => (kraken, none)
      | some book => settle codec book data clock := by
  cases built : KrakenBook.fromSnapshot data <;> simp only [parse_eq, payload, built]

theorem parse_update_new {codec : Codec} {raw : Text} {data : BookData}
    (payload : incoming codec raw = .update data) (clock : ParseClock) :
    parse codec new raw clock = (new, none) := by
  rw [parse_eq, payload]
  rfl

theorem parse_update {codec : Codec} {raw : Text} {data : BookData}
    (payload : incoming codec raw = .update data) {book book' : KrakenBook} {finished : Bool}
    (applied : book.applyUpdate data = (book', finished)) (clock : ParseClock) :
    parse codec ⟨some book⟩ raw clock =
      if finished = true then settle codec book' data clock else (⟨some book'⟩, none) := by
  rw [parse_eq, payload]
  simp only [applied]
  cases finished <;> rfl

/-- One `Kraken` reading raw messages, each with the clock readings of its `parse`. -/
def machine (codec : Codec) : Machine Kraken (Text × ParseClock) (Option Book) :=
  fun kraken msg => parse codec kraken msg.1 msg.2

theorem machine_eq (codec : Codec) (kraken : Kraken) (msg : Text × ParseClock) :
    machine codec kraken msg = parse codec kraken msg.1 msg.2 := rfl

/-! ## Accepted books -/

/-- What a call that gives a book leaves behind: it is the conversion of the book now held, which
passed its checksum. -/
structure Accepted (codec : Codec) (data : BookData) (clock : ParseClock) (kraken : Kraken)
    (out : Option Book) (book : KrakenBook) : Prop where
  held : kraken.book = some book
  converted : out = some (book.toModelBook clock)
  checked : computeChecksum codec book = data.checksum

theorem settle_cases (codec : Codec) (book : KrakenBook) (data : BookData) (clock : ParseClock) :
    settle codec book data clock = (⟨none⟩, none) ∨
      Accepted codec data clock (settle codec book data clock).1
        (settle codec book data clock).2 book := by
  unfold settle
  by_cases passes : computeChecksum codec book = data.checksum
  · right
    rw [if_neg (not_not.mpr passes)]
    exact ⟨rfl, rfl, passes⟩
  · left
    rw [if_pos passes]

/-- No side is deeper than `DEPTH`. -/
def KrakenBook.Cut (book : KrakenBook) : Prop :=
  book.bids.length ≤ DEPTH ∧ book.asks.length ≤ DEPTH

theorem KrakenBook.cut_fromSnapshot {data : BookData} {book : KrakenBook}
    (built : KrakenBook.fromSnapshot data = some book) : book.Cut := by
  unfold fromSnapshot at built
  simp only [Option.bind_eq_bind, Option.pure_def, Option.bind_eq_some_iff,
    Option.some.injEq] at built
  obtain ⟨bids, -, asks, -, rfl⟩ := built
  exact ⟨List.length_take_le .., List.length_take_le ..⟩

theorem KrakenBook.cut_applyUpdate {book book' : KrakenBook} {data : BookData}
    (applied : book.applyUpdate data = (book', true)) : book'.Cut := by
  rw [applyUpdate_eq] at applied
  split at applied
  · cases applied
    exact ⟨List.length_take_le .., List.length_take_le ..⟩
  · cases applied
  · cases applied

/-- The four things a call can do: nothing, clear the held book, accept a book, or stop half-way
through an update of the held book. -/
theorem parse_cases (codec : Codec) (kraken : Kraken) (raw : Text) (clock : ParseClock) :
    parse codec kraken raw clock = (kraken, none) ∨
    parse codec kraken raw clock = (⟨none⟩, none) ∨
    (∃ data book, book.Cut ∧
      Accepted codec data clock (parse codec kraken raw clock).1
        (parse codec kraken raw clock).2 book) ∨
    (∃ book data book', kraken.book = some book ∧ incoming codec raw = .update data ∧
      book.applyUpdate data = (book', false) ∧
      parse codec kraken raw clock = (⟨some book'⟩, none)) := by
  rw [parse_eq]
  cases payload : incoming codec raw with
  | other => exact Or.inl rfl
  | snapshot data =>
    simp only
    cases built : KrakenBook.fromSnapshot data with
    | none => exact Or.inl rfl
    | some book =>
      rcases settle_cases codec book data clock with cleared | accepted
      · exact Or.inr (Or.inl cleared)
      · exact Or.inr (Or.inr (Or.inl ⟨data, book, KrakenBook.cut_fromSnapshot built, accepted⟩))
  | update data =>
    simp only
    cases held : kraken.book with
    | none => exact Or.inl rfl
    | some book =>
      simp only
      cases applied : book.applyUpdate data with
      | mk book' finished =>
        cases finished with
        | false =>
          exact Or.inr (Or.inr (Or.inr ⟨book, data, book', rfl, rfl, applied, rfl⟩))
        | true =>
          rcases settle_cases codec book' data clock with cleared | accepted
          · exact Or.inr (Or.inl cleared)
          · exact Or.inr (Or.inr (Or.inl
              ⟨data, book', KrakenBook.cut_applyUpdate applied, accepted⟩))

/-- The levels of a side are kept sorted. -/
def KrakenBook.Sorted (book : KrakenBook) : Prop :=
  book.bids.Pairwise (NotAfter (priceCmp false)) ∧ book.asks.Pairwise (NotAfter (priceCmp true))

theorem KrakenBook.sorted_fromSnapshot {data : BookData} {book : KrakenBook}
    (built : KrakenBook.fromSnapshot data = some book) : book.Sorted := by
  unfold fromSnapshot at built
  simp only [Option.bind_eq_bind, Option.pure_def, Option.bind_eq_some_iff,
    Option.some.injEq] at built
  obtain ⟨bids, -, asks, -, rfl⟩ := built
  exact ⟨(sortBy_sorted bids).sublist (List.take_sublist ..),
    (sortBy_sorted asks).sublist (List.take_sublist ..)⟩

theorem KrakenBook.sorted_applyUpdate {book : KrakenBook} (sorted : book.Sorted)
    (data : BookData) : (book.applyUpdate data).1.Sorted := by
  have bids : ∀ updates, (changes false book.bids updates).Pairwise (NotAfter (priceCmp false)) :=
    putAll_sorted KrakenLevel.kept sorted.1
  have asks : ∀ updates, (changes true book.asks updates).Pairwise (NotAfter (priceCmp true)) :=
    putAll_sorted KrakenLevel.kept sorted.2
  rw [applyUpdate_eq]
  cases toLevels data.bids with
  | none => exact ⟨bids _, sorted.2⟩
  | some _ =>
    cases toLevels data.asks with
    | none => exact ⟨bids _, asks _⟩
    | some _ =>
      exact ⟨(bids _).sublist (List.take_sublist ..), (asks _).sublist (List.take_sublist ..)⟩

/-- The held book, if there is one, has the property. -/
def HeldHas (P : KrakenBook → Prop) (kraken : Kraken) : Prop :=
  ∀ book, kraken.book = some book → P book

theorem heldHas_settle (codec : Codec) {P : KrakenBook → Prop} {book : KrakenBook} (new : P book)
    (data : BookData) (clock : ParseClock) : HeldHas P (settle codec book data clock).1 := by
  intro held same
  rcases settle_cases codec book data clock with cleared | accepted
  · rw [cleared] at same
    cases same
  · rw [accepted.held] at same
    cases same
    exact new

/-- A property that snapshots have and updates keep, also those that stop half-way, is kept by
every message. -/
theorem heldHas_parse (codec : Codec) {P : KrakenBook → Prop} {kraken : Kraken} {raw : Text}
    (snapshot : ∀ data book, incoming codec raw = .snapshot data →
      KrakenBook.fromSnapshot data = some book → P book)
    (update : ∀ data book, incoming codec raw = .update data → P book →
      P (book.applyUpdate data).1)
    (held : HeldHas P kraken) (clock : ParseClock) :
    HeldHas P (parse codec kraken raw clock).1 := by
  rw [parse_eq]
  split
  · rename_i data payload
    split
    · exact held
    · rename_i book built
      exact heldHas_settle codec (snapshot data book payload built) data clock
  · rename_i data payload
    cases holding : kraken.book with
    | none => exact held
    | some book =>
      have after := update data book payload (held book holding)
      cases applied : book.applyUpdate data with
      | mk book' finished =>
        rw [applied] at after
        cases finished with
        | false =>
          intro other same
          simp only [applied, Option.some.injEq] at same
          rw [← same]
          exact after
        | true =>
          simp only [applied]
          exact heldHas_settle codec after data clock
  · exact held

/-- The held book, if there is one, has sorted sides. -/
def HeldSorted (kraken : Kraken) : Prop := ∀ book, kraken.book = some book → book.Sorted

/-- Every message keeps the sides sorted, also one that fails half-way. -/
theorem heldSorted_parse (codec : Codec) {kraken : Kraken} (sorted : HeldSorted kraken)
    (raw : Text) (clock : ParseClock) : HeldSorted (parse codec kraken raw clock).1 :=
  heldHas_parse codec (P := KrakenBook.Sorted)
    (fun _ _ _ built => KrakenBook.sorted_fromSnapshot built)
    (fun data _ _ sorted => KrakenBook.sorted_applyUpdate sorted data) sorted clock

theorem heldSorted_final (codec : Codec) (msgs : List (Text × ParseClock)) :
    HeldSorted ((machine codec).final new msgs) :=
  Machine.invariant (P := HeldSorted) (C := fun _ => True) (machine codec)
    (fun kraken msg _ sorted => heldSorted_parse codec sorted msg.1 msg.2)
    (by intro book held; simp [new] at held) msgs (fun _ _ => trivial)

/-! ## Messages as text -/

/-- A wire level as Kraken writes it. -/
def WireLevel.render (wire : WireLevel) : Text :=
  "\x7b\"price\":".toList ++ wire.price.get ++ ",\"qty\":".toList ++ wire.qty.get ++ "\x7d".toList

/-- One side of a payload as Kraken writes it. -/
def renderSide (wires : List WireLevel) : Text :=
  (wires.map WireLevel.render).intersperse ",".toList |>.flatten

/-- A book message with one payload as Kraken writes it. -/
def renderMessage (kind : Text) (data : BookData) : Text :=
  "\x7b\"channel\":\"book\",\"type\":\"".toList ++ kind ++ "\",\"data\":[\x7b\"bids\":[".toList ++
    renderSide data.bids ++ "],\"asks\":[".toList ++ renderSide data.asks ++
    "],\"checksum\":".toList ++ Nat.toDigits 10 data.checksum.toNat ++ "\x7d]\x7d".toList

def heartbeat : Text := "\x7b\"channel\":\"heartbeat\"\x7d".toList

/-- A codec that reads heartbeats and the rendered texts of the listed book messages, and takes
every other text for malformed. -/
def Codec.reading (messages : List (Text × BookData)) : Codec where
  peek raw :=
    if raw = heartbeat then some ⟨some "heartbeat".toList, none⟩
    else if messages.any fun msg => renderMessage msg.1 msg.2 = raw then
      some ⟨some "book".toList, none⟩
    else none
  bookMessage raw :=
    (messages.find? fun msg => renderMessage msg.1 msg.2 = raw).map fun msg => ⟨msg.1, [msg.2]⟩
  subscribeAck _ := none
  hash := Crc32.hash

/-- A raw value from its text, `null` where the text is not one JSON value. -/
def RawValue.ofText (s : Text) : RawValue :=
  if h : Json.isRaw s = true then ⟨s, h⟩ else ⟨"null".toList, by decide⟩

/-- A wire level from the texts of its price and qty. -/
def wireLevel (price qty : Text) : WireLevel := ⟨RawValue.ofText price, RawValue.ofText qty⟩

end Kraken

end Orderbook
