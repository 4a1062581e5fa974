import Orderbook.Proofs.KrakenParse

/-!
# Which rejected messages leave the held book alone

`apply_update` works in place and returns at the first level that does not convert, so an update
can be rejected with some of its levels applied. `Spared` is the exact condition under which that
leaves the held book as it was, and `atomic_iff` carries it over whole runs.
-/

namespace Orderbook

namespace Kraken

open StableMerge Ladder

/-- The machine with the last accepted book beside its state. -/
def tracked (codec : Codec) :
    Machine (Kraken × Option KrakenBook) (Text × ParseClock) (Option Book) :=
  fun state msg =>
    let next := parse codec state.1 msg.1 msg.2
    ((next.1, if next.2.isSome then next.1.book else state.2), next.2)

/-- The state after messages read by a fresh `Kraken`. -/
abbrev after (codec : Codec) (msgs : List (Text × ParseClock)) : Kraken :=
  (machine codec).final new msgs

/-- The book held when `parse` last gave a book. -/
def lastAccepted (codec : Codec) (msgs : List (Text × ParseClock)) : Option KrakenBook :=
  ((tracked codec).final (new, none) msgs).2

/-- After every message of the run the held book is none or the last accepted one, whose
conversion was returned and whose checksum passed; a call that gives nothing leaves the state as
it was or clears it; and no held side is deeper than `DEPTH`. -/
structure Atomic (codec : Codec) (msgs : List (Text × ParseClock)) : Prop where
  accepted : ∀ before, before <+: msgs →
    (after codec before).book = none ∨ (after codec before).book = lastAccepted codec before
  converted : ∀ before msg out, before ++ [msg] <+: msgs →
    (machine codec (after codec before) msg).2 = some out →
      ∃ data book, Accepted codec data msg.2 (after codec (before ++ [msg])) (some out) book ∧
        lastAccepted codec (before ++ [msg]) = some book
  refused : ∀ before msg, before ++ [msg] <+: msgs →
    (machine codec (after codec before) msg).2 = none →
      after codec (before ++ [msg]) = after codec before ∨
        (after codec (before ++ [msg])).book = none
  cut : ∀ before book, before <+: msgs → (after codec before).book = some book → book.Cut

/-- The levels an update that does not fully convert applies before it stops. -/
def leftover (data : BookData) : List KrakenLevel × List KrakenLevel :=
  match toLevels data.bids with
  | some bids => (bids, leadingLevels data.asks)
  | none => (leadingLevels data.bids, [])

/-- If a book is held and the message is an update with a level that does not convert, the levels
applied before that one restate the held book. -/
def Spared (codec : Codec) (kraken : Kraken) (raw : Text) : Prop :=
  ∀ book data, kraken.book = some book → incoming codec raw = .update data →
    (toLevels data.bids = none ∨ toLevels data.asks = none) →
      Restates (position false) KrakenLevel.kept book.bids (leftover data).1 ∧
        Restates (position true) KrakenLevel.kept book.asks (leftover data).2

/-! ## One update -/

theorem applyUpdate_of_fails (book : KrakenBook) {data : BookData}
    (fails : toLevels data.bids = none ∨ toLevels data.asks = none) :
    book.applyUpdate data =
      ({ bids := changes false book.bids (leftover data).1
         asks := changes true book.asks (leftover data).2 }, false) := by
  rw [KrakenBook.applyUpdate_eq, leftover]
  cases bids : toLevels data.bids with
  | none => rfl
  | some _ =>
    have asks : toLevels data.asks = none := by simpa [bids] using fails
    rw [asks]

theorem fails_of_applyUpdate {book book' : KrakenBook} {data : BookData}
    (stopped : book.applyUpdate data = (book', false)) :
    toLevels data.bids = none ∨ toLevels data.asks = none := by
  rw [KrakenBook.applyUpdate_eq] at stopped
  split at stopped
  · cases stopped
  · exact Or.inr ‹_›
  · exact Or.inl ‹_›

/-- A stopped update gives the book back exactly when what it applied restates it. -/
theorem stopped_eq_self_iff {book : KrakenBook} (sorted : book.Sorted) {data : BookData}
    (fails : toLevels data.bids = none ∨ toLevels data.asks = none) :
    (book.applyUpdate data).1 = book ↔
      Restates (position false) KrakenLevel.kept book.bids (leftover data).1 ∧
        Restates (position true) KrakenLevel.kept book.asks (leftover data).2 := by
  rw [applyUpdate_of_fails book fails, KrakenBook.ext_iff]
  exact and_congr
    (putAll_eq_self_iff (refines_priceCmp false) KrakenLevel.kept sorted.1 _)
    (putAll_eq_self_iff (refines_priceCmp true) KrakenLevel.kept sorted.2 _)

/-! ## One message -/

/-- A message that gives no book leaves the state or clears it exactly when it is spared. -/
theorem spared_iff (codec : Codec) {kraken : Kraken} (sorted : HeldSorted kraken) (raw : Text)
    (clock : ParseClock) :
    Spared codec kraken raw ↔
      ((parse codec kraken raw clock).2 = none →
        (parse codec kraken raw clock).1 = kraken ∨
          (parse codec kraken raw clock).1.book = none) := by
  constructor
  · intro spared refused
    rcases parse_cases codec kraken raw clock with
      same | cleared | ⟨data, book, -, accepted⟩ | ⟨book, data, book', held, payload, applied, stop⟩
    · exact Or.inl (by rw [same])
    · exact Or.inr (by rw [cleared])
    · rw [accepted.converted] at refused
      cases refused
    · left
      have fails := fails_of_applyUpdate applied
      have unchanged :=
        (stopped_eq_self_iff (sorted book held) fails).mpr (spared book data held payload fails)
      rw [applied] at unchanged
      replace unchanged : book' = book := unchanged
      rw [stop, unchanged, ← held]
  · intro refused book data held payload fails
    have stop : parse codec kraken raw clock =
        (⟨some (book.applyUpdate data).1⟩, none) := by
      rw [parse_eq, payload, held]
      simp only [applyUpdate_of_fails book fails]
    rw [stop] at refused
    apply (stopped_eq_self_iff (sorted book held) fails).mp
    rcases refused rfl with same | cleared
    · have books := congrArg Kraken.book same
      rw [held] at books
      exact Option.some.inj books
    · cases cleared

/-! ## Runs -/

theorem tracked_fst (codec : Codec) (msgs : List (Text × ParseClock)) :
    ((tracked codec).final (new, none) msgs).1 = after codec msgs :=
  (Machine.simulation (R := fun s t => s.1 = t) (C := fun _ => True) (tracked codec)
    (fun s t msg _ same => by subst same; exact ⟨rfl, rfl⟩) rfl msgs fun _ _ => trivial).1

theorem after_concat (codec : Codec) (before : List (Text × ParseClock)) (msg : Text × ParseClock) :
    after codec (before ++ [msg]) = (machine codec (after codec before) msg).1 :=
  Machine.final_concat ..

theorem lastAccepted_concat (codec : Codec) (before : List (Text × ParseClock))
    (msg : Text × ParseClock) :
    lastAccepted codec (before ++ [msg]) =
      if (machine codec (after codec before) msg).2.isSome then
        (after codec (before ++ [msg])).book
      else lastAccepted codec before := by
  rw [after_concat, lastAccepted, Machine.final_concat, tracked, tracked_fst]
  rfl

/-- A call that gives a book leaves the accepted book behind. -/
theorem accepted_of_some (codec : Codec) (before : List (Text × ParseClock))
    (msg : Text × ParseClock) {out : Book}
    (gives : (machine codec (after codec before) msg).2 = some out) :
    ∃ data book, book.Cut ∧
      Accepted codec data msg.2 (after codec (before ++ [msg])) (some out) book ∧
        lastAccepted codec (before ++ [msg]) = some book := by
  rw [lastAccepted_concat, gives, after_concat]
  rw [machine_eq] at gives ⊢
  rcases parse_cases codec (after codec before) msg.1 msg.2 with
    same | cleared | ⟨data, book, cut, accepted⟩ | ⟨book, data, book', -, -, -, stop⟩
  · rw [same] at gives
    cases gives
  · rw [cleared] at gives
    cases gives
  · rw [gives] at accepted
    exact ⟨data, book, cut, accepted, accepted.held⟩
  · rw [stop] at gives
    cases gives

/-- The held book is none, or the last accepted one and cut. -/
def Tracks (codec : Codec) (before : List (Text × ParseClock)) : Prop :=
  (after codec before).book = none ∨
    ((after codec before).book = lastAccepted codec before ∧
      ∀ book, (after codec before).book = some book → book.Cut)

theorem tracks_concat (codec : Codec) {before : List (Text × ParseClock)}
    (tracks : Tracks codec before) {msg : Text × ParseClock}
    (spared : Spared codec (after codec before) msg.1) : Tracks codec (before ++ [msg]) := by
  cases gives : (machine codec (after codec before) msg).2 with
  | some out =>
    obtain ⟨data, book, cut, accepted, last⟩ := accepted_of_some codec before msg gives
    refine Or.inr ⟨by rw [accepted.held, last], fun other held => ?_⟩
    rw [accepted.held] at held
    cases held
    exact cut
  | none =>
    have refused := (spared_iff codec (heldSorted_final codec before) msg.1 msg.2).mp spared gives
    have last := lastAccepted_concat codec before msg
    rw [gives] at last
    unfold Tracks
    rw [last, after_concat, machine_eq]
    rcases refused with same | cleared
    · rw [same]
      exact tracks
    · exact Or.inl cleared

theorem tracks_of_spared (codec : Codec) {msgs : List (Text × ParseClock)}
    (spared : ∀ before msg, before ++ [msg] <+: msgs → Spared codec (after codec before) msg.1) :
    ∀ before, before <+: msgs → Tracks codec before := by
  intro before
  induction before using List.reverseRecOn with
  | nil => intro _; exact Or.inl rfl
  | append_singleton before msg ih =>
    intro within
    exact tracks_concat codec (ih ((List.prefix_append before [msg]).trans within))
      (spared before msg within)

/-- A run is atomic exactly when every message of it is spared where it arrives. -/
theorem atomic_iff (codec : Codec) (msgs : List (Text × ParseClock)) :
    Atomic codec msgs ↔
      ∀ before msg, before ++ [msg] <+: msgs → Spared codec (after codec before) msg.1 := by
  constructor
  · intro atomic before msg within
    refine (spared_iff codec (heldSorted_final codec before) msg.1 msg.2).mpr fun refused => ?_
    have := atomic.refused before msg within refused
    rwa [after_concat] at this
  · intro spared
    have tracks := tracks_of_spared codec spared
    refine ⟨?_, ?_, ?_, ?_⟩
    · intro before within
      exact (tracks before within).imp_right And.left
    · intro before msg out within gives
      obtain ⟨data, book, -, accepted, last⟩ := accepted_of_some codec before msg gives
      exact ⟨data, book, accepted, last⟩
    · intro before msg within refused
      rw [after_concat]
      exact (spared_iff codec (heldSorted_final codec before) msg.1 msg.2).mp
        (spared before msg within) refused
    · intro before book within held
      rcases tracks before within with empty | ⟨-, cut⟩
      · rw [empty] at held
        cases held
      · exact cut book held

/-- A snapshot with one bid and one ask. -/
def plainSnapshot : BookData where
  bids := [wireLevel "1".toList "5".toList]
  asks := [wireLevel "2".toList "5".toList]
  checksum := 3374844892

/-- An update whose second bid has no numeric price. -/
def brokenUpdate : BookData where
  bids := [wireLevel "1".toList "7".toList, wireLevel "null".toList "7".toList]
  asks := []
  checksum := 0

/-- A broken update after a snapshot leaves a book behind that was never accepted. -/
theorem broken_update_not_atomic :
    ¬ Atomic
      (Codec.reading [("snapshot".toList, plainSnapshot), ("update".toList, brokenUpdate)])
      [(renderMessage "snapshot".toList plainSnapshot, ⟨0, 0⟩),
        (renderMessage "update".toList brokenUpdate, ⟨1, 1⟩)] := by
  intro atomic
  have last := atomic.accepted _ (List.prefix_refl _)
  revert last
  decide +kernel

end Kraken

end Orderbook
