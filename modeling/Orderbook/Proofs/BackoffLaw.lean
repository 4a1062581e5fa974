import Orderbook.Feed
import Orderbook.Misc.Machine

/-!
# The backoff over whole runs

The counter is advanced after every cycle and reset before that after a stable one, so it counts
the delays issued since the last stable cycle, up to where it saturates. By then the delay has long
been at its cap.
-/

namespace Orderbook

variable {σ ι : Type}

/-! ## Since the last stable cycle -/

/-- The cycles from the last one that satisfies `p` on, all of them where none does. -/
def fromLast (p : ι → Bool) : List ι → List ι
  | [] => []
  | cycle :: cycles => if cycles.any p then fromLast p cycles else cycle :: cycles

theorem fromLast_concat (p : ι → Bool) (cycles : List ι) (cycle : ι) :
    fromLast p (cycles ++ [cycle]) = if p cycle then [cycle] else fromLast p cycles ++ [cycle] := by
  induction cycles with
  | nil => simp [fromLast]
  | cons first cycles ih =>
    rw [List.cons_append, fromLast, ih, List.any_append]
    by_cases last : p cycle = true
    · simp [last]
    · by_cases earlier : cycles.any p = true
      · simp [fromLast, last, earlier]
      · simp [fromLast, last, earlier]

/-- How many delays had been issued since the last cycle that satisfies `p` when the last cycle
ended: each cycle before that is followed by one. -/
def delaysSince (p : ι → Bool) (cycles : List ι) : Nat := (fromLast p cycles).length - 1

theorem delaysSince_concat (p : ι → Bool) (cycles : List ι) (cycle : ι) :
    delaysSince p (cycles ++ [cycle]) = if p cycle then 0 else (fromLast p cycles).length := by
  rw [delaysSince, fromLast_concat]
  split
  · rfl
  · rw [List.length_append, List.length_singleton, Nat.add_sub_cancel]

/-! ## One delay -/

/-- The largest `u32`. -/
def maxAttempt : Nat := 2 ^ 32 - 1

/-- A counter after `k` delays: how far it stands, that its shift fits, and what it gives. -/
structure DelayLaw (k : Nat) (backoff : Backoff) : Prop where
  counter : backoff.attempt = min k maxAttempt
  shift : Backoff.shifted backoff.attempt < 2 ^ 64
  delay : backoff.nextDelay.1 = ((min (2 ^ k) 30 : Nat) : ℚ)
  bounds : 1 ≤ backoff.nextDelay.1 ∧ backoff.nextDelay.1 ≤ 30

theorem shifted_lt (attempt : Nat) : Backoff.shifted attempt < 2 ^ 64 := by
  unfold Backoff.shifted
  split
  · rename_i small
    exact Nat.pow_lt_pow_right (by omega) small
  · omega

/-- From the sixth delay on the cap is what counts. -/
theorem min_two_pow {k : Nat} (capped : 5 ≤ k) : min (2 ^ k) 30 = 30 := by
  have large : 2 ^ 5 ≤ 2 ^ k := Nat.pow_le_pow_right (by omega) capped
  omega

/-- Up to the cap the saturating counter and the shift that fails past 63 make no difference. -/
theorem min_shifted (k : Nat) : min (Backoff.shifted (min k maxAttempt)) 30 = min (2 ^ k) 30 := by
  by_cases small : k < 64
  · have kept : min k maxAttempt = k := min_eq_left (by unfold maxAttempt; omega)
    rw [kept, Backoff.shifted, if_pos small]
  · have far : ¬ min k maxAttempt < 64 := by
      unfold maxAttempt
      omega
    rw [Backoff.shifted, if_neg far, min_two_pow (by omega)]
    omega

theorem delayLaw_of_counter {k : Nat} {backoff : Backoff}
    (counter : backoff.attempt = min k maxAttempt) : DelayLaw k backoff := by
  have delay : backoff.nextDelay.1 = ((min (2 ^ k) 30 : Nat) : ℚ) := by
    rw [Backoff.nextDelay, counter, min_shifted]
  refine ⟨counter, shifted_lt _, delay, ?_, ?_⟩
  · rw [delay]
    have least : 1 ≤ min (2 ^ k) 30 := le_min Nat.one_le_two_pow (by omega)
    exact_mod_cast least
  · rw [delay]
    have most : min (2 ^ k) 30 ≤ 30 := min_le_right _ _
    exact_mod_cast most

theorem nextDelay_counter {k : Nat} {backoff : Backoff}
    (counter : backoff.attempt = min k maxAttempt) :
    backoff.nextDelay.2.attempt = min (k + 1) maxAttempt := by
  have advanced : backoff.nextDelay.2.attempt = min (backoff.attempt + 1) maxAttempt := rfl
  rw [advanced, counter]
  omega

/-! ## Whole runs -/

/-- One iteration of `run_feed` as its backoff sees it: the connection, when its cycle was judged,
the jitter, and the bucket once the next attempt has its token. -/
structure Reconnect where
  connection : Connection
  judgedAt : Instant
  multiplier : ℚ
  bucket : TokenBucket

/-- The cycle had connected and was held longer than the stability window. -/
def Reconnect.stable (cycle : Reconnect) : Bool :=
  cycle.connection.connectedAt.any fun connectedAt =>
    decide (STABILITY_WINDOW < durationSince cycle.judgedAt connectedAt)

/-- The loop of `run_feed`, one iteration at a time; the outputs are its sleeps. -/
def reconnecting (exchange : Exchange σ) (pair : Text) : Machine (Feed σ) Reconnect Duration :=
  fun feed cycle =>
    let turn := feedTurn exchange pair feed cycle.connection cycle.judgedAt cycle.multiplier
    ({ turn.1 with bucket := cycle.bucket }, turn.2.2)

theorem judged_eq (backoff : Backoff) (cycle : Reconnect) :
    judged backoff cycle.connection.connectedAt cycle.judgedAt =
      if cycle.stable then ⟨0⟩ else backoff := by
  unfold judged Reconnect.stable Backoff.resetIfStable
  cases cycle.connection.connectedAt with
  | none => simp
  | some connectedAt => simp

theorem reconnecting_backoff (exchange : Exchange σ) (pair : Text) (feed : Feed σ)
    (cycle : Reconnect) :
    (reconnecting exchange pair feed cycle).1.backoff =
      (judged feed.backoff cycle.connection.connectedAt cycle.judgedAt).nextDelay.2 := rfl

theorem reconnecting_sleep (exchange : Exchange σ) (pair : Text) (feed : Feed σ)
    (cycle : Reconnect) :
    (reconnecting exchange pair feed cycle).2 =
      Backoff.jittered
        (judged feed.backoff cycle.connection.connectedAt cycle.judgedAt).nextDelay.1
        cycle.multiplier := rfl

/-- The counter a cycle is judged with counts the delays since the last stable cycle. -/
theorem judged_counter {backoff : Backoff} {cycles : List Reconnect}
    (counter : backoff.attempt = min (fromLast Reconnect.stable cycles).length maxAttempt)
    (cycle : Reconnect) :
    (judged backoff cycle.connection.connectedAt cycle.judgedAt).attempt =
      min (delaysSince Reconnect.stable (cycles ++ [cycle])) maxAttempt := by
  rw [judged_eq, delaysSince_concat]
  by_cases stable : cycle.stable = true
  · rw [if_pos stable, if_pos stable]
    rfl
  · rw [if_neg stable, if_neg stable]
    exact counter

theorem length_fromLast_concat (p : ι → Bool) (cycles : List ι) (cycle : ι) :
    (fromLast p (cycles ++ [cycle])).length = delaysSince p (cycles ++ [cycle]) + 1 := by
  rw [delaysSince_concat, fromLast_concat]
  split
  · rfl
  · rw [List.length_append, List.length_singleton]

theorem counter_final (exchange : Exchange σ) (pair : Text) (state : σ) (entered : Instant)
    (cycles : List Reconnect) :
    ((reconnecting exchange pair).final (Feed.start exchange state entered)
      cycles).backoff.attempt = min (fromLast Reconnect.stable cycles).length maxAttempt := by
  apply Machine.history (P := fun cycles feed _ =>
    feed.backoff.attempt = min (fromLast Reconnect.stable cycles).length maxAttempt)
    (reconnecting exchange pair)
  · rfl
  · intro cycles cycle counter
    rw [reconnecting_backoff, length_fromLast_concat]
    exact nextDelay_counter (judged_counter counter cycle)

/-- Whatever cycles came before, the sleep after a cycle is the jittered delay for the number of
delays issued since the last stable cycle, counted without wrapping or overflow; and every exit of
a cycle reports the handshake it is judged by. -/
theorem backoff_law (exchange : Exchange σ) (pair : Text) (state : σ) (entered : Instant) :
    (∀ cycles cycle,
      let feed := (reconnecting exchange pair).final (Feed.start exchange state entered) cycles
      let backoff := judged feed.backoff cycle.connection.connectedAt cycle.judgedAt
      DelayLaw (delaysSince Reconnect.stable (cycles ++ [cycle])) backoff ∧
        (reconnecting exchange pair feed cycle).2 =
          Backoff.jittered backoff.nextDelay.1 cycle.multiplier) ∧
    ∀ (state : σ) (connection : Connection),
      (runOnceInner exchange pair state connection).map runOnceReturn =
        (runOnce exchange pair state connection).ended.map
          fun ended => (connection.connectedAt, ended) := by
  constructor
  · intro cycles cycle
    have counter := counter_final exchange pair state entered cycles
    exact ⟨delayLaw_of_counter (judged_counter counter cycle),
      reconnecting_sleep exchange pair _ cycle⟩
  · exact runOnceReturn_runOnceInner exchange pair

end Orderbook
