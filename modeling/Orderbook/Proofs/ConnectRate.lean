import Orderbook.Feed
import Orderbook.Exchange.Binance
import Orderbook.Misc.Spacing

/-!
# How often a feed connects

The delays alone are as short as half a second, but each short one raises the next, and only a
connection held for the stability window resets them. With the potential `credit` every gap between
two attempts counts for a second and a half, whatever the connections do.
-/

namespace Orderbook

open Spacing

variable {σ : Type}

/-- What the gaps so far have paid ahead: nothing after a reset, half of the largest
delays later. -/
def credit (backoff : Backoff) : ℚ :=
  if backoff.attempt = 0 then 0 else if backoff.attempt = 1 then 1 else 3 / 2

theorem credit_bounds (backoff : Backoff) : 0 ≤ credit backoff ∧ credit backoff ≤ 3 / 2 := by
  unfold credit
  split
  · norm_num
  · split <;> norm_num

theorem le_shifted (attempt : Nat) : 4 ≤ Backoff.shifted (attempt + 2) := by
  unfold Backoff.shifted
  split
  · have := Nat.one_le_two_pow (n := attempt)
    rw [Nat.pow_add]
    omega
  · omega

/-- A delay under the least jitter, with the credit it uses and the credit it leaves, is worth a
second and a half. -/
theorem nextDelay_pays (backoff : Backoff) :
    3 / 2 + credit backoff - credit backoff.nextDelay.2 ≤ backoff.nextDelay.1 / 2 := by
  obtain ⟨attempt⟩ := backoff
  match attempt with
  | 0 => norm_num [credit, Backoff.nextDelay, Backoff.shifted]
  | 1 => norm_num [credit, Backoff.nextDelay, Backoff.shifted]
  | attempt + 2 =>
    have long : 4 ≤ min (Backoff.shifted (attempt + 2)) 30 :=
      le_min (le_shifted attempt) (by omega)
    have delay : (4 : ℚ) ≤ (Backoff.nextDelay ⟨attempt + 2⟩).1 := by
      simp only [Backoff.nextDelay]
      exact_mod_cast long
    have before := (credit_bounds ⟨attempt + 2⟩).2
    have after : credit (Backoff.nextDelay ⟨attempt + 2⟩).2 = 3 / 2 := by
      rw [credit, Backoff.nextDelay, if_neg (by simp only; omega), if_neg (by simp only; omega)]
    rw [after]
    linarith

theorem nextDelay_nonneg (backoff : Backoff) : 0 ≤ backoff.nextDelay.1 := Nat.cast_nonneg _

/-- A reset costs more than all the credit it cancels: the connection was held for the stability
window. -/
theorem judged_pays (backoff : Backoff) {connectedAt : Option Instant} {start now : Instant}
    (handshake : ∀ connected ∈ connectedAt, start ≤ connected ∧ connected ≤ now)
    (forward : start ≤ now) :
    credit backoff - credit (judged backoff connectedAt now) ≤ now - start := by
  cases connectedAt with
  | none =>
    rw [judged]
    linarith
  | some connected =>
    obtain ⟨begun, -⟩ := handshake connected rfl
    rw [judged, Backoff.resetIfStable]
    split
    · rename_i stable
      have held : STABILITY_WINDOW < now - connected := by
        rcases lt_max_iff.mp stable with never | held
        · exact absurd never (by decide +kernel)
        · exact held
      have window : STABILITY_WINDOW = 30 := rfl
      have most := (credit_bounds backoff).2
      have least := (credit_bounds ⟨0⟩).1
      linarith
    · linarith

theorem acquired_after {bucket bucket' : TokenBucket} {entered left : Instant}
    (acquires : TokenBucket.Acquires bucket entered bucket' left) : entered ≤ left := by
  induction acquires with
  | spent => exact le_rfl
  | slept _ later _ _ ih => exact later.trans ih

/-- Two attempts in a row are a second and a half apart, up to the credit used and left. -/
theorem iteration_gap {exchange : Exchange σ} {pair : Text} {feed feed' : Feed σ}
    {start next : Instant} {connection : Connection} {timing : Timing}
    (iteration : Iteration exchange pair feed start connection timing feed' next) :
    start + 3 / 2 + credit feed.backoff ≤ next + credit feed'.backoff := by
  have reset := judged_pays feed.backoff iteration.handshake iteration.forward
  have sleep := iteration.sleep
  have waited := acquired_after iteration.token
  have begins := iteration.begins
  have advanced : feed'.backoff =
      (judged feed.backoff connection.connectedAt timing.judgedAt).nextDelay.2 := by
    rw [iteration.turn]
    rfl
  have wait : (feedTurn exchange pair feed connection timing.judgedAt timing.multiplier).2.2 =
      (judged feed.backoff connection.connectedAt timing.judgedAt).nextDelay.1 *
        timing.multiplier := rfl
  rw [wait] at sleep
  rw [advanced]
  generalize judged feed.backoff connection.connectedAt timing.judgedAt = backoff at *
  have delay := nextDelay_pays backoff
  have shortest := mul_le_mul_of_nonneg_left iteration.jitter.1 (nextDelay_nonneg backoff)
  linarith

/-- The starts of a run are paced a second and a half apart by the credit at each of them. -/
theorem runFeed_paced {exchange : Exchange σ} {pair : Text} {starts : List Instant}
    {feed : Feed σ} (run : RunFeed exchange pair starts feed) :
    ∃ last, starts.getLast? = some last ∧
      Paced (3 / 2) (3 / 2) starts (last + credit feed.backoff) := by
  induction run with
  | @first state entered start begins =>
    obtain ⟨nonneg, bounded⟩ := credit_bounds (Feed.start exchange state entered).backoff
    exact ⟨start, rfl, Paced.next (Paced.start _) nonneg bounded (sub_add_cancel _ (3 / 2)).le⟩
  | @again starts start feed connection timing feed' next run iteration ih =>
    obtain ⟨last, same, paced⟩ := ih
    rw [List.getLast?_concat] at same
    obtain rfl : start = last := Option.some.inj same
    obtain ⟨nonneg, bounded⟩ := credit_bounds feed'.backoff
    have gap := iteration_gap iteration
    exact ⟨next, List.getLast?_concat, Paced.next paced nonneg bounded (by linarith)⟩

/-- Whatever its connections do and however the delays are jittered, a feed starts at most 300
attempts in any 300 seconds, the first one included. -/
theorem connect_rate_bounded (exchange : Exchange σ) (pair : Text) {starts : List Instant}
    {feed : Feed σ} (run : RunFeed exchange pair starts feed) (opens : Instant) :
    (starts.filter fun start => opens ≤ start ∧ start ≤ opens + 300).length ≤ 300 := by
  obtain ⟨last, -, paced⟩ := runFeed_paced run
  have counted := paced.count_window_le (by norm_num) (by norm_num) opens 300 (by norm_num)
  have few :
      ((starts.filter fun start => opens ≤ start ∧ start ≤ opens + 300).length : ℚ) ≤ 300 := by
    linarith
  exact_mod_cast few

/-- Binance with nothing readable on its socket. -/
def quietBinance : Exchange Unit := Binance.exchange (fun _ => none) ⟨id, id⟩

/-- A connection that fails at once. -/
def refused : Connection := ⟨none, false, []⟩

theorem connect_rate_bounded_refused :
    (([0, 1 / 2] : List Instant).filter fun start => 0 ≤ start ∧ start ≤ 0 + 300).length ≤ 300 := by
  have iteration : Iteration quietBinance [] (Feed.start quietBinance () 0) 0 refused
      ⟨0, 1 / 2, 1 / 2, 1 / 2⟩ ⟨(), ⟨1⟩, ⟨5, 4, 1, 1 / 2⟩⟩ (1 / 2) := by
    refine ⟨by simp [refused], le_rfl, by decide, by norm_num, by decide +kernel,
      .spent (by decide +kernel), rfl, le_rfl⟩
  have first : RunFeed quietBinance [] ([] ++ [0]) (Feed.start quietBinance () 0) :=
    RunFeed.first le_rfl
  exact connect_rate_bounded quietBinance [] (RunFeed.again first iteration) 0

end Orderbook
