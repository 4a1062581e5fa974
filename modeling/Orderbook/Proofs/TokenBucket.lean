import Orderbook.Feed
import Orderbook.Misc.Machine
import Orderbook.Misc.Spacing

/-!
# The token bucket

What a bucket holds stays between nothing and its capacity, the wait of `acquire` is exactly what
the refill needs for one token, and the tokens left after each call pay for the calls that follow
in less than their share of time.
-/

namespace Orderbook

namespace TokenBucket

open Spacing

variable {capacity rate : ℚ}

/-! ## What a bucket holds -/

/-- A bucket with these settings and no less than nothing and no more than its capacity in it. -/
structure Sound (capacity rate : ℚ) (bucket : TokenBucket) : Prop where
  holds : bucket.capacity = capacity
  refills : bucket.refillPerSec = rate
  nonneg : 0 ≤ bucket.tokens
  bounded : bucket.tokens ≤ capacity

/-- What is done to a bucket: a refill, or a turn of the loop of `acquire`. -/
inductive Operation where
  | refill (now : Instant)
  | turn (now : Instant)

/-- A bucket under one operation after another, at any clock readings; the outputs are the waits. -/
def operations : Machine TokenBucket Operation (Option Duration) :=
  fun bucket operation =>
    match operation with
    | .refill now => (bucket.refill now, none)
    | .turn now => bucket.acquireTurn now

theorem sound_new (full : 0 ≤ capacity) (now : Instant) :
    Sound capacity rate (new capacity rate now) := ⟨rfl, rfl, full, le_rfl⟩

theorem durationSince_nonneg (later earlier : Instant) : 0 ≤ durationSince later earlier :=
  le_max_left _ _

theorem sound_refill (full : 0 ≤ capacity) (refills : 0 ≤ rate) {bucket : TokenBucket}
    (sound : Sound capacity rate bucket) (now : Instant) :
    Sound capacity rate (bucket.refill now) := by
  have gained : 0 ≤ durationSince now bucket.lastRefill * bucket.refillPerSec := by
    rw [sound.refills]
    exact mul_nonneg (durationSince_nonneg _ _) refills
  have nonneg := sound.nonneg
  refine ⟨sound.holds, sound.refills, le_min ?_ ?_, ?_⟩
  · linarith
  · rw [sound.holds]
    exact full
  · exact (min_le_right _ _).trans sound.holds.le

theorem acquireTurn_of_token {bucket : TokenBucket} {now : Instant}
    (enough : 1 ≤ (bucket.refill now).tokens) :
    bucket.acquireTurn now =
      ({ bucket.refill now with tokens := (bucket.refill now).tokens - 1 }, none) := by
  rw [acquireTurn]
  exact if_pos enough

theorem acquireTurn_of_deficit {bucket : TokenBucket} {now : Instant}
    (short : ¬ 1 ≤ (bucket.refill now).tokens) :
    bucket.acquireTurn now =
      (bucket.refill now, some ((1 - (bucket.refill now).tokens) / bucket.refillPerSec)) := by
  rw [acquireTurn]
  exact if_neg short

theorem sound_acquireTurn (full : 0 ≤ capacity) (refills : 0 ≤ rate) {bucket : TokenBucket}
    (sound : Sound capacity rate bucket) (now : Instant) :
    Sound capacity rate (bucket.acquireTurn now).1 := by
  have refilled := sound_refill full refills sound now
  by_cases enough : 1 ≤ (bucket.refill now).tokens
  · rw [acquireTurn_of_token enough]
    have bounded := refilled.bounded
    refine ⟨refilled.holds, refilled.refills, ?_, ?_⟩
    · show 0 ≤ (bucket.refill now).tokens - 1
      linarith
    · show (bucket.refill now).tokens - 1 ≤ capacity
      linarith
  · rw [acquireTurn_of_deficit enough]
    exact refilled

theorem sound_operations (full : 0 ≤ capacity) (refills : 0 ≤ rate) (now : Instant)
    (done : List Operation) :
    Sound capacity rate (operations.final (new capacity rate now) done) := by
  apply Machine.invariant (P := Sound capacity rate) (C := fun _ => True) operations
  · intro bucket operation _ sound
    cases operation with
    | refill now => exact sound_refill full refills sound now
    | turn now => exact sound_acquireTurn full refills sound now
  · exact sound_new full now
  · exact fun _ _ => trivial

/-! ## One `acquire` -/

/-- The wait is long enough: the turn after it finds a token. -/
theorem acquireTurn_after_wait (full : 1 ≤ capacity) (refills : 0 < rate)
    {bucket bucket' : TokenBucket} (sound : Sound capacity rate bucket) {now woke : Instant}
    {wait : Duration}
    (turn : bucket.acquireTurn now = (bucket', some wait)) (sleep : now + wait ≤ woke) :
    (bucket'.acquireTurn woke).2 = none := by
  by_cases enough : 1 ≤ (bucket.refill now).tokens
  · rw [acquireTurn_of_token enough] at turn
    cases turn
  · rw [acquireTurn_of_deficit enough] at turn
    simp only [Prod.mk.injEq, Option.some_inj] at turn
    obtain ⟨rfl, rfl⟩ := turn
    rw [sound.refills] at sleep
    have slept : (1 - (bucket.refill now).tokens) / rate ≤ durationSince woke now :=
      le_max_of_le_right (by linarith)
    have gained : 1 - (bucket.refill now).tokens ≤ durationSince woke now * rate :=
      (div_le_iff₀ refills).mp slept
    have filled : 1 ≤ ((bucket.refill now).refill woke).tokens := by
      have last : ((bucket.refill now).refill woke).tokens =
          min ((bucket.refill now).tokens + durationSince woke now * bucket.refillPerSec)
            bucket.capacity := rfl
      rw [last, sound.refills, sound.holds]
      exact le_min (by linarith) full
    rw [acquireTurn_of_token filled]

/-- `acquire` returns in its first turn, or in its second, after one sleep. -/
theorem acquires_iff (full : 1 ≤ capacity) (refills : 0 < rate) {bucket bucket' : TokenBucket}
    (sound : Sound capacity rate bucket) {entered left : Instant} :
    Acquires bucket entered bucket' left ↔
      (bucket.acquireTurn entered = (bucket', none) ∧ left = entered) ∨
      ∃ asleep wait, bucket.acquireTurn entered = (asleep, some wait) ∧ entered ≤ left ∧
        entered + wait ≤ left ∧ asleep.acquireTurn left = (bucket', none) := by
  constructor
  · intro acquires
    cases acquires with
    | spent turn => exact Or.inl ⟨turn, rfl⟩
    | slept turn later sleep rest =>
      have found := acquireTurn_after_wait full refills sound turn sleep
      cases rest with
      | spent again => exact Or.inr ⟨_, _, turn, later, sleep, again⟩
      | slept again =>
        rw [again] at found
        cases found
  · rintro (⟨turn, rfl⟩ | ⟨asleep, wait, turn, later, sleep, again⟩)
    · exact Acquires.spent turn
    · exact Acquires.slept turn later sleep (Acquires.spent again)

/-- Entered at this reading, `acquire` returns in its first turn or after one sleep, whenever that
ends. -/
def ReturnsAfterOneSleep (bucket : TokenBucket) (entered : Instant) : Prop :=
  (bucket.acquireTurn entered).2 = none ∨
    ∃ wait, (bucket.acquireTurn entered).2 = some wait ∧ ∀ woke, entered + wait ≤ woke →
      ((bucket.acquireTurn entered).1.acquireTurn woke).2 = none

theorem returnsAfterOneSleep (full : 1 ≤ capacity) (refills : 0 < rate) {bucket : TokenBucket}
    (sound : Sound capacity rate bucket) (entered : Instant) :
    bucket.ReturnsAfterOneSleep entered := by
  cases waits : (bucket.acquireTurn entered).2 with
  | none => exact Or.inl waits
  | some wait =>
    refine Or.inr ⟨wait, waits, fun woke sleep => ?_⟩
    exact acquireTurn_after_wait full refills sound (Prod.ext rfl waits) sleep

/-! ## What the tokens left pay for -/

/-- Between two readings a refill gains at most its rate. -/
theorem refill_tokens_le (refills : 0 ≤ rate) {bucket : TokenBucket}
    (sound : Sound capacity rate bucket) {since now : Instant} (last : bucket.lastRefill ≤ since)
    (later : since ≤ now) :
    (bucket.refill now).tokens ≤ (bucket.refill since).tokens + rate * (now - since) := by
  have gained : 0 ≤ rate * (now - since) := mul_nonneg refills (by linarith)
  show min (bucket.tokens + durationSince now bucket.lastRefill * bucket.refillPerSec)
      bucket.capacity ≤
    min (bucket.tokens + durationSince since bucket.lastRefill * bucket.refillPerSec)
      bucket.capacity + rate * (now - since)
  have whole : durationSince now bucket.lastRefill = now - bucket.lastRefill :=
    max_eq_right (by linarith)
  have part : durationSince since bucket.lastRefill = since - bucket.lastRefill :=
    max_eq_right (by linarith)
  rw [whole, part, sound.refills, sound.holds, ← min_add_add_right]
  refine min_le_min (by linarith) ?_
  linarith

/-- A second refill at the same reading changes nothing. -/
theorem refill_self {bucket : TokenBucket} (sound : Sound capacity rate bucket) :
    bucket.refill bucket.lastRefill = bucket := by
  have still : durationSince bucket.lastRefill bucket.lastRefill = 0 := by
    simp [durationSince]
  have within : min bucket.tokens bucket.capacity = bucket.tokens :=
    min_eq_left (sound.bounded.trans sound.holds.ge)
  simp only [refill, still, zero_mul, add_zero, within]

/-- What a finished `acquire` leaves: a refilled bucket one token short of what it could hold, and
of what it held at an earlier reading with what came in since. -/
structure Granted (capacity rate : ℚ) (bucket : TokenBucket) (since : Instant)
    (bucket' : TokenBucket) (granted : Instant) : Prop where
  sound : Sound capacity rate bucket'
  lastRefill : bucket'.lastRefill = granted
  room : bucket'.tokens + 1 ≤ capacity
  pays : bucket'.tokens + 1 ≤ (bucket.refill since).tokens + rate * (granted - since)

/-- A turn that spends a token leaves the rest of the refill. -/
theorem granted_of_turn (full : 0 ≤ capacity) (refills : 0 ≤ rate) {bucket bucket' : TokenBucket}
    (sound : Sound capacity rate bucket) {since now : Instant} (last : bucket.lastRefill ≤ since)
    (later : since ≤ now) (turn : bucket.acquireTurn now = (bucket', none)) :
    Granted capacity rate bucket since bucket' now := by
  have refilled := sound_refill full refills sound now
  have kept := sound_acquireTurn full refills sound now
  rw [turn] at kept
  by_cases enough : 1 ≤ (bucket.refill now).tokens
  · rw [acquireTurn_of_token enough] at turn
    simp only [Prod.mk.injEq, and_true] at turn
    have left : bucket'.tokens + 1 = (bucket.refill now).tokens := by
      rw [← turn]
      exact sub_add_cancel _ 1
    refine ⟨kept, ?_, ?_, ?_⟩
    · rw [← turn]
      rfl
    · rw [left]
      exact refilled.bounded
    · rw [left]
      exact refill_tokens_le refills sound last later
  · rw [acquireTurn_of_deficit enough] at turn
    cases turn

theorem granted_of_acquires (full : 1 ≤ capacity) (refills : 0 < rate)
    {bucket bucket' : TokenBucket} (sound : Sound capacity rate bucket)
    {since entered left : Instant} (last : bucket.lastRefill ≤ since) (later : since ≤ entered)
    (acquires : Acquires bucket entered bucket' left) :
    Granted capacity rate bucket since bucket' left := by
  have holds : 0 ≤ capacity := by linarith
  rcases (acquires_iff full refills sound).mp acquires with
    ⟨turn, rfl⟩ | ⟨asleep, wait, turn, forward, -, again⟩
  · exact granted_of_turn holds refills.le sound last later turn
  · have short : ¬ 1 ≤ (bucket.refill entered).tokens := by
      intro enough
      rw [acquireTurn_of_token enough] at turn
      cases turn
    rw [acquireTurn_of_deficit short] at turn
    obtain rfl : bucket.refill entered = asleep := congrArg Prod.fst turn
    have refilled := sound_refill holds refills.le sound entered
    have granted := granted_of_turn holds refills.le refilled (le_refl entered) forward again
    have first := refill_tokens_le refills.le sound last later
    have second : (bucket.refill entered).refill entered = bucket.refill entered :=
      refill_self refilled
    have pays := granted.pays
    rw [second] at pays
    refine ⟨granted.sound, granted.lastRefill, granted.room, ?_⟩
    linarith

/-! ## Whole runs -/

/-- Calls of `acquire` one after another from `new`: when they returned, in order, the bucket, and
the clock after the last of them. -/
inductive AcquireRun (capacity rate : ℚ) : List Instant → TokenBucket → Instant → Prop
  | new {now} : AcquireRun capacity rate [] (new capacity rate now) now
  | acquire {completions bucket left entered bucket' left'}
      (run : AcquireRun capacity rate completions bucket left) (forward : left ≤ entered)
      (acquires : Acquires bucket entered bucket' left') :
      AcquireRun capacity rate (completions ++ [left']) bucket' left'

/-- The completions are paced by the tokens short of what an `acquire` can leave. -/
theorem acquireRun_paced (full : 1 ≤ capacity) (refills : 0 < rate) {completions : List Instant}
    {bucket : TokenBucket} {left : Instant}
    (run : AcquireRun capacity rate completions bucket left) :
    Sound capacity rate bucket ∧ bucket.lastRefill = left ∧
      Paced (1 / rate) ((capacity - 1) / rate) completions
        (left + (capacity - 1 - bucket.tokens) / rate) := by
  induction run with
  | new => exact ⟨sound_new (by linarith) _, rfl, Paced.start _⟩
  | @acquire completions bucket left entered bucket' left' run forward acquires ih =>
    obtain ⟨sound, last, paced⟩ := ih
    have granted := granted_of_acquires full refills sound last.le forward acquires
    have held := congrArg TokenBucket.tokens (refill_self sound)
    rw [last] at held
    have pays := granted.pays
    have room := granted.room
    have nonneg := granted.sound.nonneg
    refine ⟨granted.sound, granted.lastRefill, Paced.next paced ?_ ?_ ?_⟩
    · exact div_nonneg (by linarith) refills.le
    · exact div_le_div_of_nonneg_right (by linarith) refills.le
    · have share : (bucket'.tokens + 1 - bucket.tokens) / rate ≤ left' - left :=
        (div_le_iff₀ refills).mpr (by linarith)
      have parts : (capacity - 1 - bucket.tokens) / rate + 1 / rate =
          (bucket'.tokens + 1 - bucket.tokens) / rate +
            (capacity - 1 - bucket'.tokens) / rate := by ring
      linarith

/-- The bucket over whole runs: after every operation it holds no less than nothing and no more
than its capacity; each `acquire` returns after at most one sleep; and in any window as many
return as the capacity and the refill over the window allow. -/
theorem token_bucket_law (full : 1 ≤ capacity) (refills : 0 < rate) :
    (∀ now done, 0 ≤ (operations.final (new capacity rate now) done).tokens ∧
      (operations.final (new capacity rate now) done).tokens ≤ capacity) ∧
    ∀ completions bucket left, AcquireRun capacity rate completions bucket left →
      (0 ≤ bucket.tokens ∧ bucket.tokens ≤ capacity) ∧
      (∀ entered, left ≤ entered → bucket.ReturnsAfterOneSleep entered) ∧
      ∀ opens length, 0 ≤ length →
        ((completions.filter fun t => opens ≤ t ∧ t ≤ opens + length).length : ℚ) ≤
          capacity + rate * length := by
  constructor
  · intro now done
    have sound : Sound capacity rate (operations.final (new capacity rate now) done) :=
      sound_operations (by linarith) refills.le now done
    exact ⟨sound.nonneg, sound.bounded⟩
  · intro completions bucket left run
    obtain ⟨sound, -, paced⟩ := acquireRun_paced full refills run
    refine ⟨⟨sound.nonneg, sound.bounded⟩, fun entered _ =>
      returnsAfterOneSleep full refills sound entered, fun opens length nonneg => ?_⟩
    have counted :=
      paced.count_window_le_of_rate refills (by linarith) opens length nonneg
    linarith

/-- A bucket of one token is asked twice at the same reading. -/
theorem token_bucket_law_twice :
    AcquireRun 1 2 [0, 1 / 2] ⟨1, 0, 2, 1 / 2⟩ (1 / 2) ∧
      (([0, 1 / 2] : List Instant).filter fun t => 0 ≤ t ∧ t ≤ 0 + 1 / 2).length ≤
        (1 : ℚ) + 2 * (1 / 2) := by
  have first : AcquireRun 1 2 ([] ++ [0]) ⟨1, 0, 2, 0⟩ 0 :=
    AcquireRun.acquire AcquireRun.new le_rfl (Acquires.spent (by decide +kernel))
  have asks : acquireTurn ⟨1, 0, 2, 0⟩ 0 = (⟨1, 0, 2, 0⟩, some (1 / 2)) := by decide +kernel
  have second : Acquires ⟨1, 0, 2, 0⟩ 0 ⟨1, 0, 2, 1 / 2⟩ (1 / 2) :=
    Acquires.slept asks (by norm_num) (by norm_num) (Acquires.spent (by decide +kernel))
  have run := AcquireRun.acquire first le_rfl second
  exact ⟨run, ((token_bucket_law le_rfl (by norm_num)).2 _ _ _ run).2.2 0 (1 / 2) (by norm_num)⟩

end TokenBucket

end Orderbook
