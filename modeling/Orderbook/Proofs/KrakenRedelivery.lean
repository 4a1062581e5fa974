import Orderbook.Proofs.KrakenReplay

/-!
# The same update twice

An accepted update leaves every level it mentions at its last mention, so applying it to its own
result can only bring back levels that the cut had dropped, and the cut drops them again.
-/

namespace Orderbook

namespace Kraken

open StableMerge Ladder

/-- An update that ran to the end finds its own result as it left it. -/
theorem KrakenBook.applyUpdate_twice {book book' : KrakenBook} (sorted : book.Sorted)
    {data : BookData} (applied : book.applyUpdate data = (book', true)) :
    book'.applyUpdate data = (book', true) := by
  rw [applyUpdate_eq] at applied ⊢
  cases bids : toLevels data.bids with
  | none => simp [bids] at applied
  | some bidLevels =>
    cases asks : toLevels data.asks with
    | none => simp [bids, asks] at applied
    | some askLevels =>
      simp only [bids, asks, Prod.mk.injEq, and_true] at applied ⊢
      subst applied
      congr 1
      · exact putAll_take_putAll (refines_priceCmp false) KrakenLevel.kept sorted.1 bidLevels DEPTH
      · exact putAll_take_putAll (refines_priceCmp true) KrakenLevel.kept sorted.2 askLevels DEPTH

/-- A payload that settles with a book settles with it again, at any clock. -/
theorem settle_again {codec : Codec} {book : KrakenBook} {data : BookData} {clock : ParseClock}
    {out : Book} (gives : (settle codec book data clock).2 = some out) (clock' : ParseClock) :
    (settle codec book data clock).1 = ⟨some book⟩ ∧
      settle codec book data clock' = (⟨some book⟩, some (book.toModelBook clock')) ∧
      out = book.toModelBook clock := by
  unfold settle at gives ⊢
  by_cases passes : computeChecksum codec book = data.checksum
  · simp only [passes, ne_eq, not_true_eq_false, if_false, Option.some_inj] at gives ⊢
    exact ⟨trivial, trivial, gives.symm⟩
  · simp [passes] at gives

/-- An update that a reachable `Kraken` accepts is accepted again when it comes again at once, with
the same sides, and leaves the held book as it is. -/
theorem redelivered_update_harmless (codec : Codec) (msgs : List (Text × ParseClock)) {raw : Text}
    {data : BookData} (update : incoming codec raw = .update data) {clock : ParseClock} {out : Book}
    (accepted : (parse codec ((machine codec).final new msgs) raw clock).2 = some out)
    (clock' : ParseClock) :
    ∃ out', parse codec (parse codec ((machine codec).final new msgs) raw clock).1 raw clock' =
        ((parse codec ((machine codec).final new msgs) raw clock).1, some out') ∧
      out'.bids = out.bids ∧ out'.asks = out.asks := by
  have sorted := heldSorted_final codec msgs
  generalize (machine codec).final new msgs = kraken at sorted accepted ⊢
  obtain ⟨held⟩ := kraken
  cases held with
  | none =>
    rw [show (⟨none⟩ : Kraken) = new from rfl, parse_update_new update] at accepted
    cases accepted
  | some book =>
    cases applied : book.applyUpdate data with
    | mk book' finished =>
      rw [parse_update update applied] at accepted ⊢
      cases finished with
      | false => cases accepted
      | true =>
        rw [if_pos rfl] at accepted ⊢
        obtain ⟨holds, again, rfl⟩ := settle_again accepted clock'
        have twice := KrakenBook.applyUpdate_twice (sorted book rfl) applied
        rw [holds, parse_update update twice, if_pos rfl, again]
        exact ⟨_, rfl, rfl, rfl⟩

/-- The update of `shortRun` comes a second time after its snapshot. -/
theorem redelivered_update_harmless_shortUpdate :
    ∃ out out' kraken,
      (parse shortCodec ((machine shortCodec).final new
        [(renderMessage "snapshot".toList shortSnapshot, ⟨0, 0⟩)])
        (renderMessage "update".toList shortUpdate) ⟨1, 1⟩) = (kraken, some out) ∧
      parse shortCodec kraken (renderMessage "update".toList shortUpdate) ⟨2, 2⟩ =
        (kraken, some out') ∧ out'.bids = out.bids ∧ out'.asks = out.asks := by
  have update : incoming shortCodec (renderMessage "update".toList shortUpdate) =
      .update shortUpdate := by decide +kernel
  have accepted : (parse shortCodec ((machine shortCodec).final new
      [(renderMessage "snapshot".toList shortSnapshot, ⟨0, 0⟩)])
      (renderMessage "update".toList shortUpdate) ⟨1, 1⟩).2.isSome = true := by decide +kernel
  obtain ⟨out, given⟩ := Option.isSome_iff_exists.mp accepted
  obtain ⟨out', again, bids, asks⟩ := redelivered_update_harmless shortCodec
    [(renderMessage "snapshot".toList shortSnapshot, ⟨0, 0⟩)] update given ⟨2, 2⟩
  generalize parse shortCodec ((machine shortCodec).final new
    [(renderMessage "snapshot".toList shortSnapshot, ⟨0, 0⟩)])
    (renderMessage "update".toList shortUpdate) ⟨1, 1⟩ = first at given again ⊢
  obtain ⟨kraken, output⟩ := first
  obtain rfl : output = some out := given
  exact ⟨out, out', kraken, rfl, again, bids, asks⟩

end Kraken

end Orderbook
