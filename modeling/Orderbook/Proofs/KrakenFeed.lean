import Orderbook.Proofs.KrakenReplay
import Orderbook.Feed

/-!
# Kraken behind the feed loop

One `Kraken` value serves every connection of a feed, so a cycle starts with the book the last one
left. `readLoop_eq` splits a cycle into the machine of `parse` over the texts delivered and the
arrivals that end it. What was held before shows in a cycle only through an update accepted before
the first snapshot whose levels convert; a cleared book stays cleared until the next snapshot.
-/

namespace Orderbook

/-- How an arrival ends the read loop of a venue, if it does. -/
def Arrival.ends (venue : Venue) : Arrival → Option CycleEnd
  | close => some .clean
  | endOfStream => some .clean
  | readError => some (.failed .read)
  | idle false => if venue = .kraken then some (.failed .ping) else none
  | _ => none

namespace Kraken

/-- The texts the read loop hands to `parse`, up to the arrival that ends it. -/
def delivered : List Arrival → List (Text × ParseClock)
  | [] => []
  | .text raw clock :: arrivals => (raw, clock) :: delivered arrivals
  | arrival :: arrivals => if (arrival.ends .kraken).isSome then [] else delivered arrivals

/-- The books a parser gives over messages. -/
def sent (codec : Codec) (kraken : Kraken) (msgs : List (Text × ParseClock)) : List Book :=
  ((machine codec).outputs kraken msgs).filterMap id

/-- An update that comes before the first snapshot whose levels all convert is accepted on the book
held at the start. -/
def Resumes (codec : Codec) (book : Option KrakenBook) : List (Text × ParseClock) → Prop
  | [] => False
  | msg :: msgs =>
      match incoming codec msg.1, book with
      | .snapshot data, book => KrakenBook.fromSnapshot data = none ∧ Resumes codec book msgs
      | .update _, none => Resumes codec none msgs
      | .update data, some book =>
          match book.applyUpdate data with
          | (book, false) => Resumes codec (some book) msgs
          | (book, true) => computeChecksum codec book = data.checksum
      | .other, book => Resumes codec book msgs

/-- No update comes before the first snapshot whose levels all convert: the exchange's guarantee. -/
def SnapshotFirst (codec : Codec) : List (Text × ParseClock) → Prop
  | [] => True
  | msg :: msgs =>
      match incoming codec msg.1 with
      | .update _ => False
      | .snapshot data => (KrakenBook.fromSnapshot data).isSome = true ∨ SnapshotFirst codec msgs
      | .other => SnapshotFirst codec msgs

/-- The message is a snapshot that becomes the held book. -/
def AcceptsSnapshot (codec : Codec) (raw : Text) : Prop :=
  ∃ data book, incoming codec raw = .snapshot data ∧ KrakenBook.fromSnapshot data = some book ∧
    computeChecksum codec book = data.checksum

/-- The message carries a snapshot. -/
def IsSnapshot (codec : Codec) (raw : Text) : Prop := ∃ data, incoming codec raw = .snapshot data

/-- The connection cycles of a feed, one `Kraken` through all of them; the outputs are the books
sent in each. -/
def cycles (codec : Codec) (case : CaseMapping) (pair : Text) :
    Machine Kraken Connection (List Book) :=
  fun kraken connection =>
    ((runOnce (exchange codec case) pair kraken connection).state,
      (runOnce (exchange codec case) pair kraken connection).books)

/-! ## One cycle -/

@[simp] theorem sent_nil (codec : Codec) (kraken : Kraken) : sent codec kraken [] = [] := rfl

theorem sent_cons (codec : Codec) (kraken : Kraken) (msg : Text × ParseClock)
    (msgs : List (Text × ParseClock)) :
    sent codec kraken (msg :: msgs) =
      (parse codec kraken msg.1 msg.2).2.toList ++
        sent codec (parse codec kraken msg.1 msg.2).1 msgs := by
  rw [sent, Machine.outputs_cons, machine_eq]
  cases (parse codec kraken msg.1 msg.2).2 <;> rfl

theorem sent_append (codec : Codec) (kraken : Kraken) (early late : List (Text × ParseClock)) :
    sent codec kraken (early ++ late) =
      sent codec kraken early ++ sent codec ((machine codec).final kraken early) late := by
  rw [sent, Machine.outputs_append, List.filterMap_append]
  rfl

/-- A cycle is the machine of `parse` over the texts delivered; which arrival ends it does not
depend on what `parse` gives. -/
theorem readLoop_eq (codec : Codec) (case : CaseMapping) (kraken : Kraken)
    (arrivals : List Arrival) :
    readLoop (exchange codec case) kraken arrivals =
      { state := (machine codec).final kraken (delivered arrivals)
        books := sent codec kraken (delivered arrivals)
        ended := arrivals.findSome? (Arrival.ends .kraken) } := by
  induction arrivals generalizing kraken with
  | nil => rfl
  | cons arrival arrivals ih =>
    cases arrival with
    | text raw clock =>
      have given : (exchange codec case).parse = parse codec := rfl
      simp only [readLoop, readTurn, given, ih, delivered, Machine.final_cons, machine_eq,
        sent_cons]
      rfl
    | ping => simp [readLoop, readTurn, ih, delivered, Arrival.ends, List.findSome?_cons]
    | pong => simp [readLoop, readTurn, ih, delivered, Arrival.ends, List.findSome?_cons]
    | close => simp [readLoop, readTurn, delivered, Arrival.ends, List.findSome?_cons]
    | binary => simp [readLoop, readTurn, ih, delivered, Arrival.ends, List.findSome?_cons]
    | frame => simp [readLoop, readTurn, ih, delivered, Arrival.ends, List.findSome?_cons]
    | readError => simp [readLoop, readTurn, delivered, Arrival.ends, List.findSome?_cons]
    | endOfStream => simp [readLoop, readTurn, delivered, Arrival.ends, List.findSome?_cons]
    | idle pingSent =>
      cases pingSent with
      | false => simp [readLoop, readTurn, exchange, delivered, Arrival.ends]
      | true => simp [readLoop, readTurn, ih, delivered, Arrival.ends, List.findSome?_cons]

/-- The texts a cycle delivers: none without a connection or where the subscribe send fails. -/
def heard (case : CaseMapping) (pair : Text) (connection : Connection) :
    List (Text × ParseClock) :=
  if connection.connectedAt.isNone then []
  else if (subscribeMessage case pair).isSome ∧ connection.subscribeSent = false then []
  else delivered connection.arrivals

theorem runOnce_eq (codec : Codec) (case : CaseMapping) (pair : Text) (kraken : Kraken)
    (connection : Connection) :
    (runOnce (exchange codec case) pair kraken connection).state =
        (machine codec).final kraken (heard case pair connection) ∧
      (runOnce (exchange codec case) pair kraken connection).books =
        sent codec kraken (heard case pair connection) := by
  unfold runOnce heard
  have subscription : (exchange codec case).subscribeMessage = subscribeMessage case := rfl
  rw [subscription, readLoop_eq]
  split
  · exact ⟨rfl, rfl⟩
  · split
    · exact ⟨rfl, rfl⟩
    · exact ⟨rfl, rfl⟩

/-- One iteration of `run_feed` moves the `Kraken` and sends books as `cycles` does, whatever the
clock and the jitter. -/
theorem feedTurn_cycles (codec : Codec) (case : CaseMapping) (pair : Text) (feed : Feed Kraken)
    (connection : Connection) (now : Instant) (multiplier : ℚ) :
    ((feedTurn (exchange codec case) pair feed connection now multiplier).1.state,
      (feedTurn (exchange codec case) pair feed connection now multiplier).2.1) =
      cycles codec case pair feed.state connection := rfl

/-! ## The book held before -/

theorem resumes_other {codec : Codec} {msg : Text × ParseClock}
    (payload : incoming codec msg.1 = .other) (book : Option KrakenBook)
    (msgs : List (Text × ParseClock)) :
    Resumes codec book (msg :: msgs) ↔ Resumes codec book msgs := by
  simp only [Resumes, payload]

theorem resumes_snapshot {codec : Codec} {msg : Text × ParseClock} {data : BookData}
    (payload : incoming codec msg.1 = .snapshot data) (book : Option KrakenBook)
    (msgs : List (Text × ParseClock)) :
    Resumes codec book (msg :: msgs) ↔
      KrakenBook.fromSnapshot data = none ∧ Resumes codec book msgs := by
  simp only [Resumes, payload]

theorem resumes_update {codec : Codec} {msg : Text × ParseClock} {data : BookData}
    (payload : incoming codec msg.1 = .update data) {book book' : KrakenBook} {finished : Bool}
    (applied : book.applyUpdate data = (book', finished)) (msgs : List (Text × ParseClock)) :
    Resumes codec (some book) (msg :: msgs) ↔
      if finished = true then computeChecksum codec book' = data.checksum
      else Resumes codec (some book') msgs := by
  cases finished <;> simp [Resumes, payload, applied]

/-- Without a held book there is nothing to resume. -/
theorem not_resumes_none (codec : Codec) (msgs : List (Text × ParseClock)) :
    ¬ Resumes codec none msgs := by
  induction msgs with
  | nil => exact id
  | cons msg msgs ih =>
    cases payload : incoming codec msg.1 with
    | other => rwa [resumes_other payload]
    | snapshot data =>
      rw [resumes_snapshot payload]
      exact fun resumes => ih resumes.2
    | update data => simpa only [Resumes, payload] using ih

theorem not_resumes_of_snapshotFirst {codec : Codec} {msgs : List (Text × ParseClock)}
    (first : SnapshotFirst codec msgs) (book : Option KrakenBook) : ¬ Resumes codec book msgs := by
  induction msgs with
  | nil => exact id
  | cons msg msgs ih =>
    unfold SnapshotFirst at first
    cases payload : incoming codec msg.1 with
    | other =>
      rw [payload] at first
      rw [resumes_other payload]
      exact ih first
    | update data =>
      rw [payload] at first
      exact absurd first id
    | snapshot data =>
      rw [payload] at first
      rw [resumes_snapshot payload]
      rintro ⟨broken, resumes⟩
      rcases first with converts | later
      · simp [broken] at converts
      · exact ih later resumes

theorem resumes_append {codec : Codec} {early : List (Text × ParseClock)} {book : Option KrakenBook}
    (resumes : Resumes codec book early) (late : List (Text × ParseClock)) :
    Resumes codec book (early ++ late) := by
  induction early generalizing book with
  | nil => exact absurd resumes id
  | cons msg early ih =>
    rw [List.cons_append]
    cases payload : incoming codec msg.1 with
    | other =>
      rw [resumes_other payload] at resumes ⊢
      exact ih resumes
    | snapshot data =>
      rw [resumes_snapshot payload] at resumes ⊢
      exact ⟨resumes.1, ih resumes.2⟩
    | update data =>
      cases book with
      | none => exact absurd resumes (not_resumes_none codec _)
      | some book =>
        cases applied : book.applyUpdate data with
        | mk book' finished =>
          rw [resumes_update payload applied] at resumes ⊢
          cases finished with
          | false => exact ih resumes
          | true => exact resumes

/-- Where no update resumes the held book, the outputs are those of a fresh parser. The induction
is on the messages: a message either leaves the fresh parser as it was or makes the two equal. -/
theorem outputs_eq_fresh {codec : Codec} {msgs : List (Text × ParseClock)} {kraken : Kraken}
    (fresh : ¬ Resumes codec kraken.book msgs) :
    (machine codec).outputs kraken msgs = (machine codec).outputs new msgs := by
  induction msgs generalizing kraken with
  | nil => rfl
  | cons msg msgs ih =>
    rw [Machine.outputs_cons, Machine.outputs_cons, machine_eq, machine_eq]
    cases payload : incoming codec msg.1 with
    | other =>
      rw [resumes_other payload] at fresh
      rw [parse_other payload, parse_other payload, ih fresh]
    | snapshot data =>
      rw [resumes_snapshot payload, not_and] at fresh
      rw [parse_snapshot payload, parse_snapshot payload]
      cases built : KrakenBook.fromSnapshot data with
      | some book => rfl
      | none => simp only [ih (fresh built)]
    | update data =>
      obtain ⟨held⟩ := kraken
      cases held with
      | none => rfl
      | some book =>
        cases applied : book.applyUpdate data with
        | mk book' finished =>
          rw [resumes_update payload applied] at fresh
          rw [parse_update payload applied, parse_update_new payload]
          cases finished with
          | false => simp only [Bool.false_eq_true, if_false, @ih ⟨some book'⟩ fresh]
          | true =>
            have fails : computeChecksum codec book' ≠ data.checksum := fresh
            simp only [if_true, settle, if_pos fails]
            rfl

/-- Without a held book nothing is given and nothing held before a snapshot is accepted. -/
theorem silent_until_accepted {codec : Codec} {msgs : List (Text × ParseClock)}
    (none_accepted : ∀ msg ∈ msgs, ¬ AcceptsSnapshot codec msg.1) {kraken : Kraken}
    (empty : kraken.book = none) :
    sent codec kraken msgs = [] ∧
      ((machine codec).final kraken msgs).book = none := by
  induction msgs generalizing kraken with
  | nil => exact ⟨rfl, empty⟩
  | cons msg msgs ih =>
    have step : (machine codec kraken msg).2 = none ∧ (machine codec kraken msg).1.book = none := by
      rw [machine_eq, parse_eq]
      cases payload : incoming codec msg.1 with
      | other => exact ⟨rfl, empty⟩
      | update data =>
        simp only [empty]
        exact ⟨trivial, trivial⟩
      | snapshot data =>
        simp only
        cases built : KrakenBook.fromSnapshot data with
        | none => exact ⟨rfl, empty⟩
        | some book =>
          have fails : computeChecksum codec book ≠ data.checksum := fun passes =>
            none_accepted msg (by simp) ⟨data, book, payload, built, passes⟩
          simp only [settle, if_pos fails]
          exact ⟨trivial, trivial⟩
    rw [sent_cons, Machine.final_cons, ← machine_eq, step.1]
    exact ih (fun other member => none_accepted other (by simp [member])) step.2

/-- A fresh parser gives no more books than one that holds a book, and fewer where an update
resumes the held book. -/
theorem sent_fresh_length (codec : Codec) (kraken : Kraken) (msgs : List (Text × ParseClock)) :
    (sent codec new msgs).length ≤ (sent codec kraken msgs).length ∧
      (Resumes codec kraken.book msgs →
        (sent codec new msgs).length < (sent codec kraken msgs).length) := by
  induction msgs generalizing kraken with
  | nil => exact ⟨le_rfl, fun resumes => absurd resumes id⟩
  | cons msg msgs ih =>
    rw [sent_cons, sent_cons]
    cases payload : incoming codec msg.1 with
    | other =>
      rw [resumes_other payload, parse_other payload, parse_other payload]
      exact ih kraken
    | snapshot data =>
      rw [resumes_snapshot payload, parse_snapshot payload, parse_snapshot payload]
      cases built : KrakenBook.fromSnapshot data with
      | some book => exact ⟨le_rfl, fun resumes => nomatch resumes.1⟩
      | none => exact ⟨(ih kraken).1, fun resumes => (ih kraken).2 resumes.2⟩
    | update data =>
      obtain ⟨held⟩ := kraken
      cases held with
      | none => exact ⟨le_rfl, fun resumes => absurd resumes (not_resumes_none codec _)⟩
      | some book =>
        cases applied : book.applyUpdate data with
        | mk book' finished =>
          rw [resumes_update payload applied, parse_update payload applied,
            parse_update_new payload]
          cases finished with
          | false => exact ih ⟨some book'⟩
          | true =>
            have rest := (ih ⟨some book'⟩).1
            by_cases passes : computeChecksum codec book' = data.checksum
            · simp only [if_true, settle, ne_eq, passes, not_true_eq_false, if_false,
                Option.toList_none, Option.toList_some, List.nil_append, List.length_append,
                List.length_singleton]
              omega
            · simp only [if_true, settle, ne_eq, passes, not_false_eq_true]
              exact ⟨le_rfl, False.elim⟩

/-- The books sent in a cycle are those of its texts read by a fresh `Kraken` exactly where no
update resumes the book the cycles before it left; then none is sent before a snapshot of the cycle
is accepted. The exchange's guarantee, a snapshot before any update, is enough. -/
theorem cycle_replays_fresh_iff (codec : Codec) (case : CaseMapping) (pair : Text)
    (before : List Connection) (connection : Connection) :
    ((cycles codec case pair ((cycles codec case pair).final new before) connection).2 =
        sent codec new (heard case pair connection) ↔
      ¬ Resumes codec ((cycles codec case pair).final new before).book
        (heard case pair connection)) ∧
    (¬ Resumes codec ((cycles codec case pair).final new before).book
        (heard case pair connection) →
      ∀ early late, heard case pair connection = early ++ late →
        (∀ msg ∈ early, ¬ AcceptsSnapshot codec msg.1) →
          sent codec ((cycles codec case pair).final new before) early = []) ∧
    (SnapshotFirst codec (heard case pair connection) →
      ¬ Resumes codec ((cycles codec case pair).final new before).book
        (heard case pair connection)) := by
  generalize (cycles codec case pair).final new before = kraken
  refine ⟨?_, ?_, fun first => not_resumes_of_snapshotFirst first _⟩
  · rw [cycles, (runOnce_eq codec case pair kraken connection).2]
    constructor
    · intro same resumes
      have fewer := (sent_fresh_length codec kraken (heard case pair connection)).2 resumes
      exact fewer.ne' (congrArg List.length same)
    · intro fresh
      rw [sent, sent, outputs_eq_fresh fresh]
  · intro fresh early late split none_accepted
    rw [split] at fresh
    have start : ¬ Resumes codec kraken.book early := fun resumes =>
      fresh (resumes_append resumes late)
    rw [sent, outputs_eq_fresh start]
    exact (silent_until_accepted none_accepted rfl).1

/-- The case mappings of ASCII text. -/
def asciiCase : CaseMapping := ⟨List.map Char.toLower, List.map Char.toUpper⟩

/-- A connection that delivers one text and is closed. -/
def delivering (raw : Text) : Connection :=
  ⟨some 0, true, [.text raw ⟨0, 0⟩, .close]⟩

/-- The second connection of `shortCodec`'s exchange gives its snapshot once more. -/
theorem cycle_replays_fresh_snapshot :
    (cycles shortCodec asciiCase "ethbtc".toList
      ((cycles shortCodec asciiCase "ethbtc".toList).final new
        [delivering (renderMessage "snapshot".toList shortSnapshot)])
      (delivering (renderMessage "snapshot".toList shortSnapshot))).2 =
    sent shortCodec new
      (heard asciiCase "ethbtc".toList
        (delivering (renderMessage "snapshot".toList shortSnapshot))) := by
  obtain ⟨same_iff, -, guarantee⟩ := cycle_replays_fresh_iff shortCodec asciiCase "ethbtc".toList
    [delivering (renderMessage "snapshot".toList shortSnapshot)]
    (delivering (renderMessage "snapshot".toList shortSnapshot))
  have first : SnapshotFirst shortCodec (heard asciiCase "ethbtc".toList
      (delivering (renderMessage "snapshot".toList shortSnapshot))) := by
    have texts : heard asciiCase "ethbtc".toList
        (delivering (renderMessage "snapshot".toList shortSnapshot)) =
          [(renderMessage "snapshot".toList shortSnapshot, ⟨0, 0⟩)] := by
      simp [heard, delivering, delivered, Arrival.ends]
    have payload : incoming shortCodec (renderMessage "snapshot".toList shortSnapshot) =
        .snapshot shortSnapshot := by decide +kernel
    simp only [texts, SnapshotFirst, payload]
    exact Or.inl (by decide +kernel)
  exact same_iff.mpr (guarantee first)

/-- A second connection whose snapshot is missing: its first message is an update that is accepted
on the book the first connection left. -/
theorem lost_snapshot_resumes :
    (cycles shortCodec asciiCase "ethbtc".toList
      ((cycles shortCodec asciiCase "ethbtc".toList).final new
        [delivering (renderMessage "snapshot".toList shortSnapshot)])
      (delivering (renderMessage "update".toList shortUpdate))).2 ≠
    sent shortCodec new
      (heard asciiCase "ethbtc".toList
        (delivering (renderMessage "update".toList shortUpdate))) := by
  intro same
  have lengths := congrArg List.length same
  revert lengths
  decide +kernel

/-! ## A cleared book -/

theorem delivered_append {early late : List Arrival}
    (reading : early.findSome? (Arrival.ends .kraken) = none) :
    delivered (early ++ late) = delivered early ++ delivered late := by
  induction early with
  | nil => rfl
  | cons arrival early ih =>
    rw [List.findSome?_cons] at reading
    cases ends : arrival.ends .kraken with
    | some ended =>
      rw [ends] at reading
      cases reading
    | none =>
      rw [ends] at reading
      have rest := ih reading
      cases arrival <;> simp_all [delivered]

/-- A text never ends the read loop. After a text that leaves no book held, with the snapshot of
the subscription already delivered, the loop reads on until the connection closes, ends, fails or
refuses a ping; up to then no book is held and none is sent. -/
theorem cleared_until_ended (codec : Codec) (case : CaseMapping) (kraken : Kraken)
    (early late : List Arrival) (raw : Text) (clock : ParseClock)
    (reading : early.findSome? (Arrival.ends .kraken) = none)
    (cleared :
      (readLoop (exchange codec case) kraken (early ++ [.text raw clock])).state.book = none)
    (once : ∀ msg ∈ delivered late, ¬ IsSnapshot codec msg.1) :
    (readLoop (exchange codec case) kraken (early ++ .text raw clock :: late)).ended =
        late.findSome? (Arrival.ends .kraken) ∧
      (readLoop (exchange codec case) kraken (early ++ .text raw clock :: late)).state.book = none ∧
      (readLoop (exchange codec case) kraken (early ++ .text raw clock :: late)).books =
        (readLoop (exchange codec case) kraken (early ++ [.text raw clock])).books := by
  have stopped : (early ++ [Arrival.text raw clock]).findSome? (Arrival.ends .kraken) = none := by
    simp [reading, Arrival.ends]
  have whole : early ++ .text raw clock :: late = (early ++ [.text raw clock]) ++ late := by simp
  have none_accepted : ∀ msg ∈ delivered late, ¬ AcceptsSnapshot codec msg.1 := by
    rintro msg member ⟨data, book, payload, -⟩
    exact once msg member ⟨data, payload⟩
  rw [readLoop_eq] at cleared
  obtain ⟨nothing, empty⟩ := silent_until_accepted none_accepted cleared
  rw [whole, readLoop_eq, readLoop_eq]
  refine ⟨?_, ?_, ?_⟩
  · simp only [List.findSome?_append, stopped, Option.none_or]
  · simp only [delivered_append stopped, Machine.final_append]
    exact empty
  · simp only [delivered_append stopped, sent_append, nothing, List.append_nil]

/-- `shortSnapshot` with a checksum that is not its own. -/
def corruptSnapshot : BookData := { shortSnapshot with checksum := 0 }

def corruptCodec : Codec := Codec.reading [("snapshot".toList, corruptSnapshot)]

/-- The text of `corruptSnapshot` clears the held book; a heartbeat and an idle ping come after. -/
theorem cleared_until_ended_corrupt :
    (readLoop (exchange corruptCodec asciiCase) new
      ([] ++ .text (renderMessage "snapshot".toList corruptSnapshot) ⟨0, 0⟩ ::
        [.text heartbeat ⟨1, 1⟩, .idle true])).state.book = none :=
  (cleared_until_ended corruptCodec asciiCase new [] [.text heartbeat ⟨1, 1⟩, .idle true]
    (renderMessage "snapshot".toList corruptSnapshot) ⟨0, 0⟩ rfl (by decide +kernel) (by
      have payload : incoming corruptCodec heartbeat = .other := by decide +kernel
      rintro msg member ⟨data, snapshot⟩
      obtain rfl : msg = (heartbeat, ⟨1, 1⟩) := by simpa [delivered, Arrival.ends] using member
      rw [payload] at snapshot
      cases snapshot)).2.1

/-- The exchange sends exactly one snapshot, and only updates and control messages after it. -/
def OneSnapshot (codec : Codec) (msgs : List (Text × ParseClock)) : Prop :=
  ∃ before snapshot after, msgs = before ++ snapshot :: after ∧
    (∀ msg ∈ before, incoming codec msg.1 = .other) ∧ IsSnapshot codec snapshot.1 ∧
    ∀ msg ∈ after, ¬ IsSnapshot codec msg.1

/-- After a snapshot that fails its checksum the read loop goes on, without a held book. -/
theorem cleared_book_keeps_reading :
    ∃ arrivals, OneSnapshot corruptCodec (delivered arrivals) ∧
      (readLoop (exchange corruptCodec asciiCase) new arrivals).state.book = none ∧
      (readLoop (exchange corruptCodec asciiCase) new arrivals).ended = none := by
  refine ⟨[.text (renderMessage "snapshot".toList corruptSnapshot) ⟨0, 0⟩,
    .text heartbeat ⟨1, 1⟩, .idle true], ⟨[], (_, _), [(heartbeat, ⟨1, 1⟩)], rfl, ?_, ?_, ?_⟩,
    by decide +kernel, by decide +kernel⟩
  · simp
  · exact ⟨corruptSnapshot, by decide +kernel⟩
  · have payload : incoming corruptCodec heartbeat = .other := by decide +kernel
    rintro msg member ⟨data, snapshot⟩
    obtain rfl : msg = (heartbeat, ⟨1, 1⟩) := by simpa using member
    rw [payload] at snapshot
    cases snapshot

end Kraken

end Orderbook
