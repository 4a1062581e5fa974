import Orderbook.Proofs.KrakenAtomicity
import Orderbook.Misc.OrderedMap

/-!
# The held book and the exchange's full book

Kraken holds a full book of any depth and sends changes of its best `DEPTH` levels only. What the
code keeps of the earlier ones, together with the changes, is the best `DEPTH` levels of the full
book again (`changes_take`), over whole runs (`held_tracks_full`). A quantity may be read as its
number or as its digits: the results hold for every reading.
-/

namespace Orderbook

namespace Kraken

open StableMerge Ladder OrderedMap

variable {V : Type*}

/-- One side of the full book: positions and quantities, best first. -/
structure FullSide (V : Type*) where
  entries : List (Int × V)
  sorted : entries.Pairwise (fun a b => a.1 < b.1)

/-- The best `DEPTH` levels of a side. -/
def FullSide.top (side : FullSide V) : List (Int × V) := side.entries.take DEPTH

/-- The exchange's full book. -/
structure FullBook (V : Type*) where
  bids : FullSide V
  asks : FullSide V

/-- A level as an entry of the full book. -/
def entry (ascending : Bool) (quantity : KrakenLevel → V) (level : KrakenLevel) : Int × V :=
  (position ascending level, quantity level)

/-- The update of one side for a change of the full book: qty 0 for every price of the old best
that is gone, the new quantity for every level of the new best that was not among the old best,
and nothing else, in any order. -/
structure Reports (ascending : Bool) (quantity : KrakenLevel → V) (old new : FullSide V)
    (updates : List KrakenLevel) : Prop where
  removals : ∀ p ∈ old.top, (∀ q ∈ new.entries, q.1 ≠ p.1) →
    ∃ u ∈ updates, position ascending u = p.1 ∧ u.kept = false
  additions : ∀ q ∈ new.top, q ∉ old.top →
    ∃ u ∈ updates, entry ascending quantity u = q ∧ u.kept = true
  only : ∀ u ∈ updates,
    (u.kept = false ∧ (∃ p ∈ old.top, p.1 = position ascending u) ∧
      ∀ q ∈ new.entries, q.1 ≠ position ascending u) ∨
    (u.kept = true ∧ entry ascending quantity u ∈ new.top ∧ entry ascending quantity u ∉ old.top)

/-- What an exchange sends up to the moment its full book is `full`: snapshots with the best levels
of the full book, updates for its changes, and messages without a book, each change of the full
book after a snapshot followed by its update. -/
inductive Sends (codec : Codec) (quantity : KrakenLevel → V) :
    List (Text × ParseClock) → FullBook V → Prop
  | start (full : FullBook V) : Sends codec quantity [] full
  | snapshot {msgs full full' msg data bids asks} (sent : Sends codec quantity msgs full)
      (payload : incoming codec msg.1 = .snapshot data)
      (bidLevels : toLevels data.bids = some bids) (askLevels : toLevels data.asks = some asks)
      (bestBids : (bids.map (entry false quantity)).Perm full'.bids.top)
      (bestAsks : (asks.map (entry true quantity)).Perm full'.asks.top) :
      Sends codec quantity (msgs ++ [msg]) full'
  | update {msgs full full' msg data bids asks} (sent : Sends codec quantity msgs full)
      (payload : incoming codec msg.1 = .update data)
      (bidLevels : toLevels data.bids = some bids) (askLevels : toLevels data.asks = some asks)
      (bidChange : Reports false quantity full.bids full'.bids bids)
      (askChange : Reports true quantity full.asks full'.asks asks) :
      Sends codec quantity (msgs ++ [msg]) full'
  | other {msgs full msg} (sent : Sends codec quantity msgs full)
      (payload : incoming codec msg.1 = .other) :
      Sends codec quantity (msgs ++ [msg]) full

/-! ## One side -/

theorem FullSide.top_sorted (side : FullSide V) :
    side.top.Pairwise (fun a b => a.1 < b.1) := side.sorted.sublist (List.take_sublist ..)

/-- A level of the full book is determined by its price. -/
theorem FullSide.eq_of_fst_eq (side : FullSide V) {a b : Int × V} (ha : a ∈ side.entries)
    (hb : b ∈ side.entries) (same : a.1 = b.1) : a = b :=
  List.inj_on_of_nodup_map (keys_nodup side.sorted) ha hb same

theorem FullSide.mem_of_mem_top (side : FullSide V) {a : Int × V} (member : a ∈ side.top) :
    a ∈ side.entries := List.mem_of_mem_take member

/-- Levels held as entries of a strictly sorted list are strictly sorted. -/
theorem positions_strict {ascending : Bool} {quantity : KrakenLevel → V}
    {levels : List KrakenLevel} {entries : List (Int × V)}
    (held : levels.map (entry ascending quantity) = entries)
    (sorted : entries.Pairwise (fun a b => a.1 < b.1)) :
    levels.Pairwise (fun a b => position ascending a < position ascending b) := by
  rw [← held, List.pairwise_map] at sorted
  exact sorted

/-- An update takes the best levels of the old full book to the best levels of the new one. Levels
below the best ones are unknown, but one that enters them is mentioned, and what is not mentioned
either stays among them or is pushed out by the cut. -/
theorem changes_take {ascending : Bool} {quantity : KrakenLevel → V} {old new : FullSide V}
    {levels updates : List KrakenLevel} (sorted : levels.Pairwise (NotAfter (priceCmp ascending)))
    (held : levels.map (entry ascending quantity) = old.top)
    (reports : Reports ascending quantity old new updates) :
    ((changes ascending levels updates).take DEPTH).map (entry ascending quantity) = new.top := by
  have strict : ((changes ascending levels updates).map (entry ascending quantity)).Pairwise
      (fun a b => a.1 < b.1) :=
    List.pairwise_map.mpr (putAll_strict (refines_priceCmp ascending) KrakenLevel.kept
      (positions_strict held old.top_sorted) updates)
  rw [List.map_take]
  apply take_eq_of_covers strict new.sorted
  · intro a best
    by_cases mentioned : ∃ u ∈ updates, position ascending u = a.1
    · -- Every mention of the price is the level itself: the price is in the new book.
      have exact_mention : ∀ u ∈ updates, position ascending u = a.1 →
          u.kept = true ∧ entry ascending quantity u = a := by
        intro u member same
        rcases reports.only u member with ⟨-, -, gone⟩ | ⟨kept, inTop, -⟩
        · exact absurd same.symm (gone a (new.mem_of_mem_top best))
        · exact ⟨kept, new.eq_of_fst_eq (new.mem_of_mem_top inTop) (new.mem_of_mem_top best) same⟩
      obtain ⟨u, member, same, present⟩ := exists_mem_putAll KrakenLevel.kept
        sorted mentioned fun u member same => (exact_mention u member same).1
      exact List.mem_map.mpr ⟨u, present, (exact_mention u member same).2⟩
    · have unmentioned : ∀ u ∈ updates, position ascending u ≠ a.1 :=
        fun u member same => mentioned ⟨u, member, same⟩
      have stayed : a ∈ old.top := by
        by_contra entered
        obtain ⟨u, member, equal, -⟩ := reports.additions a best entered
        exact unmentioned u member (congrArg Prod.fst equal)
      rw [← held] at stayed
      obtain ⟨level, member, rfl⟩ := List.mem_map.mp stayed
      exact List.mem_map.mpr ⟨level,
        mem_putAll_of_unmentioned KrakenLevel.kept sorted unmentioned member, rfl⟩
  · intro a present
    obtain ⟨level, inChanges, rfl⟩ := List.mem_map.mp present
    rcases mem_putAll_cases KrakenLevel.kept sorted inChanges with ⟨member, kept⟩ | ⟨member, silent⟩
    · rcases reports.only level member with ⟨removed, -⟩ | ⟨-, inTop, -⟩
      · rw [kept] at removed
        cases removed
      · exact ⟨_, new.mem_of_mem_top inTop, rfl⟩
    · have was : entry ascending quantity level ∈ old.top := by
        rw [← held]
        exact List.mem_map_of_mem member
      by_contra gone
      have missing : ∀ q ∈ new.entries, q.1 ≠ (entry ascending quantity level).1 :=
        fun q inside same => gone ⟨q, inside, same⟩
      obtain ⟨u, mention, same, -⟩ := reports.removals _ was missing
      exact silent u mention same

/-- A snapshot with the best levels of the full book builds a side with exactly these. -/
theorem snapshot_take {ascending : Bool} {quantity : KrakenLevel → V} {full : FullSide V}
    {levels : List KrakenLevel} (best : (levels.map (entry ascending quantity)).Perm full.top) :
    ((sortBy (priceCmp ascending) levels).take DEPTH).map (entry ascending quantity) =
      full.top := by
  have perm : ((sortBy (priceCmp ascending) levels).map (entry ascending quantity)).Perm
      full.top := ((sortBy_perm levels).map _).trans best
  have nodup : (levels.map (position ascending)).Nodup := by
    have positions : levels.map (position ascending) =
        (levels.map (entry ascending quantity)).map Prod.fst := by
      rw [List.map_map]
      rfl
    rw [positions, (best.map Prod.fst).nodup_iff]
    exact keys_nodup full.top_sorted
  have strict := sortBy_strict (refines_priceCmp ascending) nodup
  have whole : (sortBy (priceCmp ascending) levels).map (entry ascending quantity) = full.top := by
    exact eq_of_perm perm (List.pairwise_map.mpr strict) full.top_sorted
  rw [List.map_take, whole]
  exact List.take_of_length_le (List.length_take_le ..)

/-! ## Runs -/

/-- The sides of a book are the best levels of the full book, in order. -/
structure IsTop (quantity : KrakenLevel → V) (full : FullBook V) (book : KrakenBook) : Prop where
  bids : book.bids.map (entry false quantity) = full.bids.top
  asks : book.asks.map (entry true quantity) = full.asks.top

theorem isTop_settle (codec : Codec) {quantity : KrakenLevel → V} {full : FullBook V}
    {book : KrakenBook} (isTop : IsTop quantity full book) (data : BookData) (clock : ParseClock) :
    ∀ held, (settle codec book data clock).1.book = some held → IsTop quantity full held := by
  intro held same
  rcases settle_cases codec book data clock with cleared | accepted
  · rw [cleared] at same
    cases same
  · rw [accepted.held] at same
    cases same
    exact isTop

/-- Whatever the exchange has sent, a held book is the best levels of its full book, in order; and
after a message that gives a book there is one. -/
theorem held_tracks_full (codec : Codec) (quantity : KrakenLevel → V)
    {msgs : List (Text × ParseClock)} {full : FullBook V} (sends : Sends codec quantity msgs full) :
    (∀ book, (after codec msgs).book = some book → IsTop quantity full book) ∧
      ∀ before msg out, msgs = before ++ [msg] →
        (machine codec (after codec before) msg).2 = some out →
          ∃ book, (after codec msgs).book = some book ∧ out = book.toModelBook msg.2 := by
  constructor
  · induction sends with
    | start full =>
      intro book held
      cases held
    | @snapshot msgs full full' msg data bids asks sent payload bidLevels askLevels bestBids
        bestAsks ih =>
      rw [after_concat, machine_eq, parse_eq, payload]
      simp only [KrakenBook.fromSnapshot_of_toLevels bidLevels askLevels]
      exact isTop_settle codec ⟨snapshot_take bestBids, snapshot_take bestAsks⟩ data msg.2
    | @update msgs full full' msg data bids asks sent payload bidLevels askLevels bidChange
        askChange ih =>
      rw [after_concat, machine_eq, parse_eq, payload]
      cases held : (after codec msgs).book with
      | none => simp [held]
      | some book =>
        have sorted := heldSorted_final codec msgs book held
        have isTop := ih book held
        simp only [KrakenBook.applyUpdate_of_toLevels book bidLevels askLevels]
        exact isTop_settle codec
          ⟨changes_take sorted.1 isTop.bids bidChange, changes_take sorted.2 isTop.asks askChange⟩
          data msg.2
    | @other msgs full msg sent payload ih =>
      rw [after_concat, machine_eq, parse_eq, payload]
      exact ih
  · rintro before msg out rfl gives
    obtain ⟨data, book, -, accepted, -⟩ := accepted_of_some codec before msg gives
    exact ⟨book, accepted.held, Option.some.inj accepted.converted⟩

/-- A full side with the given prices at quantity 1, in the order of the side. -/
def unitSide (ascending : Bool) (prices : List Nat) (distinct : (prices.map fun price =>
      if ascending then (F64.ofNat price).key else -(F64.ofNat price).key).Pairwise (· < ·)) :
    FullSide Int where
  entries := prices.map fun price =>
    (if ascending then (F64.ofNat price).key else -(F64.ofNat price).key, (F64.ofNat 1).key)
  sorted := by
    rw [List.pairwise_map] at distinct ⊢
    exact distinct

def elevenBids : FullBook Int where
  bids := unitSide false [20, 19, 18, 17, 16, 15, 14, 13, 12, 11, 10] (by decide +kernel)
  asks := unitSide true [30] (by decide +kernel)

def tenBids : FullBook Int where
  bids := unitSide false [19, 18, 17, 16, 15, 14, 13, 12, 11, 10] (by decide +kernel)
  asks := unitSide true [30] (by decide +kernel)

def topSnapshot : BookData where
  bids := [20, 19, 18, 17, 16, 15, 14, 13, 12, 11].map fun price =>
    wireLevel (Nat.toDigits 10 price) "1".toList
  asks := [wireLevel "30".toList "1".toList]
  checksum := 2211727009

/-- The best bid goes and the eleventh enters the best ten. -/
def topUpdate : BookData where
  bids := [wireLevel "10".toList "1".toList, wireLevel "20".toList "0".toList]
  asks := []
  checksum := 2339101976

def topCodec : Codec :=
  Codec.reading [("snapshot".toList, topSnapshot), ("update".toList, topUpdate)]

def topRun : List (Text × ParseClock) :=
  [(renderMessage "snapshot".toList topSnapshot, ⟨0, 0⟩),
    (renderMessage "update".toList topUpdate, ⟨1, 1⟩)]

def qtyKey (level : KrakenLevel) : Int := level.qty.key

theorem sends_topRun : Sends topCodec qtyKey topRun tenBids := by
  have snapshot : incoming topCodec (renderMessage "snapshot".toList topSnapshot) =
      .snapshot topSnapshot := by decide +kernel
  have update : incoming topCodec (renderMessage "update".toList topUpdate) =
      .update topUpdate := by decide +kernel
  have levels : ∀ wires, (toLevels wires).isSome = true →
      toLevels wires = some ((toLevels wires).getD []) := by
    intro wires converts
    obtain ⟨levels, same⟩ := Option.isSome_iff_exists.mp converts
    rw [same, Option.getD_some]
  have bestBids : (((toLevels topSnapshot.bids).getD []).map (entry false qtyKey)).Perm
      elevenBids.bids.top := by decide +kernel
  have bestAsks : (((toLevels topSnapshot.asks).getD []).map (entry true qtyKey)).Perm
      elevenBids.asks.top := by decide +kernel
  have first : Sends topCodec qtyKey
      ([] ++ [(renderMessage "snapshot".toList topSnapshot, ⟨0, 0⟩)]) elevenBids :=
    Sends.snapshot (Sends.start elevenBids) snapshot (levels _ (by decide +kernel))
      (levels _ (by decide +kernel)) bestBids bestAsks
  exact Sends.update first update (levels _ (by decide +kernel)) (levels _ (by decide +kernel))
    ⟨by decide +kernel, by decide +kernel, by decide +kernel⟩
    ⟨by decide +kernel, by decide +kernel, by decide +kernel⟩

theorem held_tracks_topRun :
    ∃ book, (after topCodec topRun).book = some book ∧ IsTop qtyKey tenBids book := by
  have held : (after topCodec topRun).book.isSome = true := by decide +kernel
  obtain ⟨book, same⟩ := Option.isSome_iff_exists.mp held
  exact ⟨book, same, (held_tracks_full topCodec qtyKey sends_topRun).1 book same⟩

end Kraken

end Orderbook
