import Orderbook.Proofs.ConnectRate
import Orderbook.Proofs.TokenBucket

/-!
# How often the bucket alone lets a feed connect

`run_feed` attempts first and takes a token before each further attempt. With the delays left open,
a window of 300 seconds can hold the first attempt, a full bucket and all that is refilled, so the
bucket is a cap of 300 attempts exactly where its capacity and its refill over the window stay
below that.
-/

namespace Orderbook

open Spacing TokenBucket

variable {σ : Type} {capacity rate : ℚ} {entered : Instant}

/-- The attempts of a feed whose retries come at any moments: when each started, in order, and the
bucket at the last of them. -/
inductive Retries (capacity rate : ℚ) (entered : Instant) : List Instant → TokenBucket → Prop
  | first {start} (begins : entered ≤ start) :
      Retries capacity rate entered [start] (TokenBucket.new capacity rate entered)
  | again {starts start bucket retry bucket' granted next}
      (run : Retries capacity rate entered (starts ++ [start]) bucket) (due : start ≤ retry)
      (token : Acquires bucket retry bucket' granted) (begins : granted ≤ next) :
      Retries capacity rate entered (starts ++ [start] ++ [next]) bucket'

/-- A run of `run_feed` is such a run: its delays and its connections decide the moments. -/
theorem runFeed_retries {exchange : Exchange σ} {pair : Text} {starts : List Instant}
    {feed : Feed σ} (run : RunFeed exchange pair starts feed) :
    ∃ entered, Retries exchange.venue.connectRate.1 exchange.venue.connectRate.2 entered starts
      feed.bucket := by
  induction run with
  | @first state entered start begins => exact ⟨entered, Retries.first begins⟩
  | @again starts start feed connection timing feed' next run iteration ih =>
    obtain ⟨entered, retries⟩ := ih
    have delay := mul_nonneg
      (nextDelay_nonneg (judged feed.backoff connection.connectedAt timing.judgedAt))
      (by linarith [iteration.jitter.1] : (0 : ℚ) ≤ timing.multiplier)
    have sleep : timing.judgedAt +
        (judged feed.backoff connection.connectedAt timing.judgedAt).nextDelay.1 *
          timing.multiplier ≤ timing.woke := iteration.sleep
    have forward := iteration.forward
    exact ⟨entered, Retries.again retries (by linarith) iteration.token iteration.begins⟩

/-! ## At most -/

/-- What a bucket is short of, as the time it takes to refill. -/
theorem shortfall_bounds (full : 1 ≤ capacity) (refills : 0 < rate) {bucket : TokenBucket}
    (sound : Sound capacity rate bucket) (now : Instant) :
    0 ≤ (capacity - (bucket.refill now).tokens) / rate ∧
      (capacity - (bucket.refill now).tokens) / rate ≤ capacity / rate := by
  have refilled := sound_refill (by linarith) refills.le sound now
  have nonneg := refilled.nonneg
  have bounded := refilled.bounded
  exact ⟨div_nonneg (by linarith) refills.le,
    div_le_div_of_nonneg_right (by linarith) refills.le⟩

/-- The starts are paced by what the bucket is short of at each of them. -/
theorem retries_paced (full : 1 ≤ capacity) (refills : 0 < rate) {starts : List Instant}
    {bucket : TokenBucket} (run : Retries capacity rate entered starts bucket) :
    Sound capacity rate bucket ∧ ∃ last, starts.getLast? = some last ∧
      bucket.lastRefill ≤ last ∧
        Paced (1 / rate) (capacity / rate) starts
          (last + (capacity - (bucket.refill last).tokens) / rate) := by
  induction run with
  | @first start begins =>
    have sound : Sound capacity rate (TokenBucket.new capacity rate entered) :=
      sound_new (by linarith) entered
    obtain ⟨nonneg, bounded⟩ := shortfall_bounds full refills sound start
    exact ⟨sound, start, rfl, begins,
      Paced.next (Paced.start _) nonneg bounded (sub_add_cancel _ (1 / rate)).le⟩
  | @again starts start bucket retry bucket' granted next run due token begins ih =>
    obtain ⟨sound, last, same, before, paced⟩ := ih
    rw [List.getLast?_concat] at same
    obtain rfl : start = last := Option.some.inj same
    have grant := granted_of_acquires full refills sound before due token
    obtain ⟨nonneg, bounded⟩ := shortfall_bounds full refills grant.sound next
    refine ⟨grant.sound, next, List.getLast?_concat, grant.lastRefill.trans_le begins,
      Paced.next paced nonneg bounded ?_⟩
    -- From the start before to the grant, and from the grant to this start.
    have first := grant.pays
    have second := refill_tokens_le refills.le grant.sound grant.lastRefill.le begins
    have held := congrArg TokenBucket.tokens (refill_self grant.sound)
    rw [grant.lastRefill] at held
    have share : ((bucket'.refill next).tokens + 1 - (bucket.refill start).tokens) / rate ≤
        next - start := (div_le_iff₀ refills).mpr (by linarith)
    have parts : (capacity - (bucket.refill start).tokens) / rate + 1 / rate =
        ((bucket'.refill next).tokens + 1 - (bucket.refill start).tokens) / rate +
          (capacity - (bucket'.refill next).tokens) / rate := by ring
    linarith

/-- A window holds at most a full bucket, what is refilled over it, and one attempt more. -/
theorem retries_window_le (full : 1 ≤ capacity) (refills : 0 < rate) {starts : List Instant}
    {bucket : TokenBucket} (run : Retries capacity rate entered starts bucket)
    (opens length : ℚ) (nonneg : 0 ≤ length) :
    ((starts.filter fun t => opens ≤ t ∧ t ≤ opens + length).length : ℚ) ≤
      capacity + 1 + rate * length := by
  obtain ⟨-, last, -, -, paced⟩ := retries_paced full refills run
  exact paced.count_window_le_of_rate refills (by linarith) opens length nonneg

/-! ## As many as that -/

/-- A bucket asked right at its last refill gives its next token, at once or at the end of an exact
sleep, which leaves it empty. -/
theorem exists_acquires (full : 1 ≤ capacity) (refills : 0 < rate) {bucket : TokenBucket}
    (sound : Sound capacity rate bucket) :
    ∃ bucket' granted, Acquires bucket bucket.lastRefill bucket' granted ∧
      bucket.lastRefill ≤ granted ∧
      bucket'.tokens + 1 = bucket.tokens + rate * (granted - bucket.lastRefill) ∧
      (granted = bucket.lastRefill ∨ bucket'.tokens = 0) := by
  have kept := refill_self sound
  by_cases enough : 1 ≤ bucket.tokens
  · have held : 1 ≤ (bucket.refill bucket.lastRefill).tokens := by rwa [kept]
    have turn := acquireTurn_of_token held
    refine ⟨_, bucket.lastRefill, Acquires.spent turn, le_rfl, ?_, Or.inl rfl⟩
    simp [kept]
  · have short : ¬ 1 ≤ (bucket.refill bucket.lastRefill).tokens := by rwa [kept]
    have turn := acquireTurn_of_deficit short
    have wait : 0 ≤ (1 - bucket.tokens) / rate :=
      div_nonneg (by linarith) refills.le
    rw [kept, sound.refills] at turn
    have slept : durationSince (bucket.lastRefill + (1 - bucket.tokens) / rate)
        bucket.lastRefill = (1 - bucket.tokens) / rate := by
      rw [durationSince, add_sub_cancel_left, max_eq_right wait]
    have filled : (bucket.refill (bucket.lastRefill + (1 - bucket.tokens) / rate)).tokens = 1 := by
      show min (bucket.tokens + durationSince _ bucket.lastRefill * bucket.refillPerSec)
        bucket.capacity = 1
      rw [slept, sound.refills, sound.holds, div_mul_cancel₀ _ refills.ne', add_sub_cancel,
        min_eq_left full]
    have again := acquireTurn_of_token filled.ge
    refine ⟨_, bucket.lastRefill + (1 - bucket.tokens) / rate,
      Acquires.slept turn (by linarith) le_rfl (Acquires.spent again), by linarith, ?_, Or.inr ?_⟩
    · simp only [filled, add_sub_cancel_left, mul_div_cancel₀ _ refills.ne']
      ring
    · simp only [filled, sub_self]

/-- Retries that all ask as early as they can: `n` of them have their tokens once that many were
in the bucket or came in. -/
theorem exists_retries (full : 1 ≤ capacity) (refills : 0 < rate) (entered : Instant) (n : Nat) :
    ∃ starts bucket, Retries capacity rate entered (starts ++ [bucket.lastRefill]) bucket ∧
      Sound capacity rate bucket ∧ starts.length = n ∧
      (∀ start ∈ starts ++ [bucket.lastRefill], entered ≤ start ∧ start ≤ bucket.lastRefill) ∧
      bucket.tokens + n = capacity + rate * (bucket.lastRefill - entered) ∧
      (bucket.lastRefill = entered ∨ bucket.tokens = 0) := by
  induction n with
  | zero =>
    refine ⟨[], TokenBucket.new capacity rate entered, Retries.first le_rfl,
      sound_new (by linarith) entered, rfl, ?_, ?_, Or.inl rfl⟩
    · intro start member
      rw [List.mem_singleton.mp member]
      exact ⟨le_rfl, le_rfl⟩
    · simp [TokenBucket.new]
  | succ n ih =>
    obtain ⟨starts, bucket, run, sound, count, within, supply, waited⟩ := ih
    obtain ⟨bucket', granted, acquires, later, paid, waits⟩ := exists_acquires full refills sound
    have grant := granted_of_acquires full refills sound le_rfl le_rfl acquires
    obtain rfl : bucket'.lastRefill = granted := grant.lastRefill
    refine ⟨starts ++ [bucket.lastRefill], bucket', Retries.again run le_rfl acquires le_rfl,
      grant.sound, ?_, ?_, ?_, ?_⟩
    · rw [List.length_append, count, List.length_singleton]
    · intro start member
      rcases List.mem_append.mp member with member | member
      · obtain ⟨low, high⟩ := within start member
        exact ⟨low, high.trans later⟩
      · rw [List.mem_singleton.mp member]
        obtain ⟨low, -⟩ := within bucket.lastRefill (by simp)
        exact ⟨low.trans later, le_rfl⟩
    · rw [Nat.cast_succ]
      linarith
    · rcases waits with same | empty
      · rcases waited with first | empty
        · exact Or.inl (same.trans first)
        · have nonneg := grant.sound.nonneg
          rw [same, empty] at paid
          linarith
      · exact Or.inr empty

/-- Where the supply over a length of time allows, that many retries and the first attempt start
within it. -/
theorem exists_window (full : 1 ≤ capacity) (refills : 0 < rate) (entered : Instant) {n : Nat}
    {length : ℚ} (nonneg : 0 ≤ length) (supply : n ≤ capacity + rate * length) :
    ∃ starts bucket, Retries capacity rate entered starts bucket ∧
      (starts.filter fun t => entered ≤ t ∧ t ≤ entered + length).length = n + 1 := by
  obtain ⟨starts, bucket, run, -, count, within, supplied, waited⟩ :=
    exists_retries full refills entered n
  refine ⟨_, bucket, run, ?_⟩
  have ends : bucket.lastRefill ≤ entered + length := by
    rcases waited with first | empty
    · linarith
    · rw [empty] at supplied
      have scaled : rate * (bucket.lastRefill - entered) ≤ rate * length := by linarith
      have span := le_of_mul_le_mul_left scaled refills
      linarith
  have all : ∀ start ∈ starts ++ [bucket.lastRefill],
      decide (entered ≤ start ∧ start ≤ entered + length) = true := by
    intro start member
    obtain ⟨low, high⟩ := within start member
    exact decide_eq_true ⟨low, high.trans ends⟩
  rw [List.filter_eq_self.mpr all, List.length_append, count, List.length_singleton]

/-- The bucket alone keeps the attempts of every schedule to 300 in any 300 seconds exactly where
its capacity and what it refills over them stay below 300, whenever the process starts. -/
theorem bucket_is_cap_iff (full : 1 ≤ capacity) (refills : 0 < rate) (entered : Instant) :
    (∀ starts bucket, Retries capacity rate entered starts bucket → ∀ opens : Instant,
      (starts.filter fun t => opens ≤ t ∧ t ≤ opens + 300).length ≤ 300) ↔
        capacity + 300 * rate < 300 := by
  constructor
  · intro capped
    by_contra enough
    have supply : ((300 : Nat) : ℚ) ≤ capacity + rate * 300 := by
      push_cast
      linarith
    obtain ⟨starts, bucket, run, count⟩ :=
      exists_window full refills entered (by norm_num) supply
    have few := capped starts bucket run entered
    omega
  · intro below starts bucket run opens
    have counted := retries_window_le full refills run opens 300 (by norm_num)
    have few :
        ((starts.filter fun t => opens ≤ t ∧ t ≤ opens + 300).length : ℚ) < 301 := by linarith
    have few' : (starts.filter fun t => opens ≤ t ∧ t ≤ opens + 300).length < 301 := by
      exact_mod_cast few
    omega

theorem bucket_is_cap_iff_half :
    (∀ starts bucket, Retries 5 (1 / 2) 0 starts bucket → ∀ opens : Instant,
      (starts.filter fun t => opens ≤ t ∧ t ≤ opens + 300).length ≤ 300) ∧
      (5 : ℚ) + 300 * (1 / 2) < 300 := by
  have below : (5 : ℚ) + 300 * (1 / 2) < 300 := by norm_num
  exact ⟨(bucket_is_cap_iff (by norm_num) (by norm_num) 0).mpr below, below⟩

/-- Binance's bucket lets 306 attempts start in 300 seconds and no more: the first one, five tokens
at once and one token a second. -/
theorem binance_exceeds_cap :
    (∃ starts bucket,
      Retries Venue.binance.connectRate.1 Venue.binance.connectRate.2 0 starts bucket ∧
      (starts.filter fun t => (0 : Instant) ≤ t ∧ t ≤ 0 + 300).length = 306) ∧
    ∀ starts bucket,
      Retries Venue.binance.connectRate.1 Venue.binance.connectRate.2 0 starts bucket →
        ∀ opens : Instant,
          (starts.filter fun t => opens ≤ t ∧ t ≤ opens + 300).length ≤ 306 := by
  have full : 1 ≤ Venue.binance.connectRate.1 := by norm_num [Venue.connectRate]
  have refills : 0 < Venue.binance.connectRate.2 := by norm_num [Venue.connectRate]
  have supply : Venue.binance.connectRate.1 + Venue.binance.connectRate.2 * 300 = 305 := by
    norm_num [Venue.connectRate]
  constructor
  · have enough : ((305 : Nat) : ℚ) ≤
        Venue.binance.connectRate.1 + Venue.binance.connectRate.2 * 300 := by
      rw [supply]
      norm_num
    exact exists_window full refills 0 (by norm_num) enough
  · intro starts bucket run opens
    have counted := retries_window_le full refills run opens 300 (by norm_num)
    have few :
        ((starts.filter fun t => opens ≤ t ∧ t ≤ opens + 300).length : ℚ) ≤ 306 := by linarith
    exact_mod_cast few

end Orderbook
