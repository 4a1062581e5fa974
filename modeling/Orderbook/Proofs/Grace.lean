import Orderbook.Proofs.BackoffLaw
import Orderbook.Proofs.ConnectRate
import Orderbook.Proofs.Staleness
import Orderbook.Proofs.TokenBucket

/-!
# The grace period against the backoff

The grace period is meant to cover one lap of the backoff. The nominal delays of a lap are 61
seconds, the jittered ones up to half as much again, and the grace period is 60: which of the two
comes first is decided by the jitter, the clock and the first grace check after the 60 seconds.
-/

namespace Orderbook

open TokenBucket

variable {σ H : Type}

/-! ## A feed whose attempts fail at once -/

/-- The delay after a failed attempt: its jitter, and how late its sleep ended and the next attempt
began. -/
structure FailedAttempt where
  multiplier : ℚ
  late : Duration

/-- A feed all of whose attempts so far failed at once, the first of them begun at `first`: its
failed attempts in order, and when the next one begins. -/
inductive Failing (exchange : Exchange σ) (pair : Text) (first : Instant) :
    List FailedAttempt → Feed σ → Instant → Prop
  | begins {state entered} (enter : entered ≤ first) :
      Failing exchange pair first [] (Feed.start exchange state entered) first
  | again {attempts feed start connection timing feed' next}
      (run : Failing exchange pair first attempts feed start)
      (iteration : Iteration exchange pair feed start connection timing feed' next)
      (refused : connection.connectedAt = none) (atOnce : timing.judgedAt = start) :
      Failing exchange pair first
        (attempts ++ [⟨timing.multiplier,
          timing.woke - (start + (feedTurn exchange pair feed connection timing.judgedAt
            timing.multiplier).2.2) + (next - timing.acquired)⟩]) feed' next

/-- The nominal delay after `k` delays. -/
def nominalDelay (k : Nat) : Duration := ((min (2 ^ k) 30 : Nat) : ℚ)

theorem nominalDelay_nonneg (k : Nat) : 0 ≤ nominalDelay k := Nat.cast_nonneg _

/-- The jittered delays of some attempts with their lateness, from the `k`-th delay on. -/
def spentFrom (k : Nat) : List FailedAttempt → Duration
  | [] => 0
  | attempt :: attempts =>
      nominalDelay k * attempt.multiplier + attempt.late + spentFrom (k + 1) attempts

/-- The jittered delays of a lap with their lateness. -/
def spent (attempts : List FailedAttempt) : Duration := spentFrom 0 attempts

theorem spentFrom_concat (k : Nat) (attempts : List FailedAttempt) (attempt : FailedAttempt) :
    spentFrom k (attempts ++ [attempt]) =
      spentFrom k attempts +
        (nominalDelay (k + attempts.length) * attempt.multiplier + attempt.late) := by
  induction attempts generalizing k with
  | nil => simp [spentFrom]
  | cons first attempts ih =>
    rw [List.cons_append, spentFrom, spentFrom, ih (k + 1), List.length_cons,
      Nat.add_assoc, Nat.add_comm 1]
    ring

theorem spent_concat (attempts : List FailedAttempt) (attempt : FailedAttempt) :
    spent (attempts ++ [attempt]) =
      spent attempts +
        (nominalDelay attempts.length * attempt.multiplier + attempt.late) := by
  rw [spent, spentFrom_concat, Nat.zero_add]
  rfl

theorem connectRate_bounds (venue : Venue) :
    venue.connectRate.1 = 5 ∧ 1 / 2 ≤ venue.connectRate.2 := by
  cases venue <;> norm_num [Venue.connectRate]

/-- A bucket that will hold a token at this reading gives it at once. -/
theorem acquires_at_once {bucket bucket' : TokenBucket} {entered left : Instant}
    (enough : 1 ≤ (bucket.refill entered).tokens)
    (acquires : Acquires bucket entered bucket' left) :
    left = entered ∧
      bucket' = { bucket.refill entered with tokens := (bucket.refill entered).tokens - 1 } := by
  have turn := acquireTurn_of_token enough
  cases acquires with
  | spent first =>
    rw [turn] at first
    exact ⟨rfl, (congrArg Prod.fst first).symm⟩
  | slept first =>
    rw [turn] at first
    cases first

/-- What holds of a feed when its next attempt begins: the counter counts its delays, and its
bucket has lost no more than a token for each of them. -/
structure Counts (exchange : Exchange σ) (attempts : List FailedAttempt) (feed : Feed σ)
    (start : Instant) : Prop where
  counter : feed.backoff.attempt = min attempts.length maxAttempt
  sound : Sound exchange.venue.connectRate.1 exchange.venue.connectRate.2 feed.bucket
  last : feed.bucket.lastRefill ≤ start
  tokens : 5 - (attempts.length : ℚ) ≤ feed.bucket.tokens

/-- The bucket never makes such a feed wait: five tokens for the first five delays, and from then
on each delay is long enough for a token. -/
theorem refill_of_counts {exchange : Exchange σ} {attempts : List FailedAttempt} {feed : Feed σ}
    {start woke : Instant} (counts : Counts exchange attempts feed start) {multiplier : ℚ}
    (least : 1 / 2 ≤ multiplier)
    (sleep : start + nominalDelay attempts.length * multiplier ≤ woke) :
    1 ≤ (feed.bucket.refill woke).tokens ∧
      feed.bucket.tokens ≤ (feed.bucket.refill woke).tokens := by
  obtain ⟨capacity, rate⟩ := connectRate_bounds exchange.venue
  have nonneg := counts.sound.nonneg
  have bounded := counts.sound.bounded
  have kept := counts.tokens
  have last := counts.last
  have delayNonneg := nominalDelay_nonneg attempts.length
  have delay : nominalDelay attempts.length / 2 ≤ woke - feed.bucket.lastRefill := by
    have shortest := mul_le_mul_of_nonneg_left least delayNonneg
    linarith
  have elapsed : durationSince woke feed.bucket.lastRefill = woke - feed.bucket.lastRefill :=
    max_eq_right (by linarith)
  have refilled : (feed.bucket.refill woke).tokens =
      min (feed.bucket.tokens + (woke - feed.bucket.lastRefill) * exchange.venue.connectRate.2)
        5 := by
    rw [← elapsed, ← counts.sound.refills, ← capacity, ← counts.sound.holds]
    rfl
  have gained : (woke - feed.bucket.lastRefill) * (1 / 2) ≤
      (woke - feed.bucket.lastRefill) * exchange.venue.connectRate.2 :=
    mul_le_mul_of_nonneg_left rate (by linarith)
  rw [capacity] at bounded
  rw [refilled]
  refine ⟨le_min ?_ (by norm_num), le_min (by linarith) bounded⟩
  by_cases early : attempts.length < 5
  · have few : (attempts.length : ℚ) + 1 ≤ 5 := by exact_mod_cast early
    linarith
  · have long : nominalDelay attempts.length = 30 := by
      rw [nominalDelay, min_two_pow (by omega)]
      norm_num
    linarith

theorem counts_begins {exchange : Exchange σ} {state : σ} {entered first : Instant}
    (enter : entered ≤ first) : Counts exchange [] (Feed.start exchange state entered) first := by
  obtain ⟨capacity, -⟩ := connectRate_bounds exchange.venue
  refine ⟨rfl, sound_new (by rw [capacity]; norm_num) entered, enter, ?_⟩
  show 5 - ((0 : Nat) : ℚ) ≤ exchange.venue.connectRate.1
  rw [capacity]
  norm_num

/-- A failed attempt that is judged at once sleeps for the jittered nominal delay. -/
theorem sleep_of_counts {exchange : Exchange σ} {attempts : List FailedAttempt} {feed : Feed σ}
    {start : Instant} (counts : Counts exchange attempts feed start) (pair : Text)
    {connection : Connection} (refused : connection.connectedAt = none) (now : Instant)
    (multiplier : ℚ) :
    (feedTurn exchange pair feed connection now multiplier).2.2 =
        nominalDelay attempts.length * multiplier ∧
      (feedTurn exchange pair feed connection now multiplier).1.backoff.attempt =
        min (attempts.length + 1) maxAttempt := by
  have unjudged : judged feed.backoff connection.connectedAt now = feed.backoff := by
    rw [refused, judged]
  have delay := (delayLaw_of_counter counts.counter).delay
  constructor
  · show Backoff.jittered (judged feed.backoff connection.connectedAt now).nextDelay.1 _ = _
    rw [unjudged, Backoff.jittered, delay, nominalDelay]
  · show (judged feed.backoff connection.connectedAt now).nextDelay.2.attempt = _
    rw [unjudged, nextDelay_counter counts.counter]

/-- The next attempt of a failing feed begins after all its jittered delays with their lateness. -/
theorem failing_next {exchange : Exchange σ} {pair : Text} {first : Instant}
    {attempts : List FailedAttempt} {feed : Feed σ} {next : Instant}
    (run : Failing exchange pair first attempts feed next) :
    Counts exchange attempts feed next ∧ next = first + spent attempts := by
  induction run with
  | begins enter => exact ⟨counts_begins enter, (add_zero first).symm⟩
  | @again attempts feed start connection timing feed' next run iteration refused atOnce ih =>
    obtain ⟨counts, rfl⟩ := ih
    obtain ⟨wait, advanced⟩ :=
      sleep_of_counts counts pair refused timing.judgedAt timing.multiplier
    have sleep := iteration.sleep
    rw [wait, atOnce] at sleep
    obtain ⟨enough, kept⟩ := refill_of_counts counts iteration.jitter.1 sleep
    obtain ⟨prompt, bucket⟩ := acquires_at_once enough iteration.token
    obtain ⟨capacity, rate⟩ := connectRate_bounds exchange.venue
    have positive : 0 ≤ nominalDelay attempts.length * timing.multiplier :=
      mul_nonneg (nominalDelay_nonneg _) (le_trans (by norm_num) iteration.jitter.1)
    have later : feed.bucket.lastRefill ≤ timing.woke := by
      have last := counts.last
      linarith
    have grant := granted_of_acquires (by rw [capacity]; norm_num) (by linarith) counts.sound
      le_rfl later iteration.token
    refine ⟨⟨?_, grant.sound, grant.lastRefill.trans_le iteration.begins, ?_⟩, ?_⟩
    · rw [iteration.turn, List.length_append, List.length_singleton]
      exact advanced
    · rw [bucket, List.length_append, List.length_singleton, Nat.cast_add, Nat.cast_one]
      have before := counts.tokens
      show _ ≤ (feed.bucket.refill timing.woke).tokens - 1
      linarith
    · rw [spent_concat, wait, prompt]
      ring

/-- Every choice of jitter is that of a failing feed whose sleeps end on time. -/
theorem exists_failing (exchange : Exchange σ) (pair : Text) (state : σ) (first : Instant)
    (multipliers : List ℚ) (jitter : ∀ m ∈ multipliers, 1 / 2 ≤ m ∧ m < 3 / 2) :
    ∃ feed next,
      Failing exchange pair first (multipliers.map fun m => ⟨m, 0⟩) feed next := by
  induction multipliers using List.reverseRecOn with
  | nil => exact ⟨Feed.start exchange state first, first, Failing.begins le_rfl⟩
  | append_singleton multipliers m ih =>
    obtain ⟨feed, start, run⟩ := ih fun m member => jitter m (by simp [member])
    have bounds := jitter m (by simp)
    obtain ⟨counts, -⟩ := failing_next run
    have unreachable : refused.connectedAt = none := rfl
    obtain ⟨wait, -⟩ := sleep_of_counts counts pair unreachable start m
    obtain ⟨enough, -⟩ := refill_of_counts counts bounds.1 le_rfl
    rw [← wait] at enough
    have iteration : Iteration exchange pair feed start refused
        ⟨start, m, start + (feedTurn exchange pair feed refused start m).2.2,
          start + (feedTurn exchange pair feed refused start m).2.2⟩
        { (feedTurn exchange pair feed refused start m).1 with
          bucket := (feed.bucket.acquireTurn
            (start + (feedTurn exchange pair feed refused start m).2.2)).1 }
        (start + (feedTurn exchange pair feed refused start m).2.2) := by
      refine ⟨by simp [refused], le_rfl, by simp [runOnce, refused], bounds, le_rfl, ?_, rfl,
        le_rfl⟩
      refine Acquires.spent (Prod.ext rfl ?_)
      rw [acquireTurn_of_token enough]
    have longer := Failing.again run iteration unreachable rfl
    simp only [sub_self, add_zero] at longer
    exact ⟨_, _, by simpa using longer⟩

/-! ## The aggregator meanwhile -/

/-- A tick of one of the two intervals of `run`. -/
def Event.isTick : Event → Bool
  | graceCheck _ => true
  | reportTick _ => true
  | _ => false

/-- Without books a tick ends the loop where it is a grace check past the grace period. -/
theorem turn_of_tick (api : HistogramApi H) {state : RunState H} {event : Event}
    (tick : event.isTick = true) (empty : state.aggregator.venues.isEmpty = true) :
    (turn api state event).1.startedAt = state.startedAt ∧
      (turn api state event).1.aggregator.venues.isEmpty = true ∧
      ((turn api state event).1.ended = true ↔ state.ended = true ∨
        ∃ now, event = Event.graceCheck now ∧ GRACE < durationSince now state.startedAt) := by
  unfold turn
  cases finished : state.ended with
  | true => simp [empty, finished]
  | false =>
    cases event with
    | book call => cases tick
    | closed now => cases tick
    | graceCheck now =>
      simp only [Bool.false_eq_true, if_false, pastGrace, empty, Bool.and_true,
        decide_eq_true_eq]
      by_cases late : GRACE < durationSince now state.startedAt
      · simp [late, empty]
      · simp [late, empty, finished]
    | reportTick now => simp [logReport, empty]

/-- Without books the loop ends at the first grace check past the grace period. -/
theorem ended_iff_of_ticks (api : HistogramApi H) (subscribers : Nat) (startedAt : Instant)
    (events : List Event) (ticks : ∀ event ∈ events, event.isTick = true) :
    (afterEvents api subscribers startedAt events).startedAt = startedAt ∧
      (afterEvents api subscribers startedAt events).aggregator.venues.isEmpty = true ∧
      ((afterEvents api subscribers startedAt events).ended = true ↔
        ∃ now, Event.graceCheck now ∈ events ∧ GRACE < durationSince now startedAt) := by
  revert ticks
  apply Machine.history (P := fun events state _ =>
    (∀ event ∈ events, event.isTick = true) → state.startedAt = startedAt ∧
      state.aggregator.venues.isEmpty = true ∧ (state.ended = true ↔
        ∃ now, Event.graceCheck now ∈ events ∧ GRACE < durationSince now startedAt)) (runLoop api)
  · intro _
    exact ⟨rfl, rfl, by simp [RunState.start]⟩
  · intro before event ih ticks
    obtain ⟨started, empty, ended⟩ := ih fun event member => ticks event (by simp [member])
    obtain ⟨started', empty', ended'⟩ := turn_of_tick api (ticks event (by simp)) empty
    refine ⟨started'.trans started, empty', ended'.trans ?_⟩
    rw [ended, started]
    constructor
    · rintro (⟨now, member, late⟩ | ⟨now, rfl, late⟩)
      · exact ⟨now, by simp [member], late⟩
      · exact ⟨now, by simp, late⟩
    · rintro ⟨now, member, late⟩
      rcases List.mem_append.mp member with member | member
      · exact Or.inl ⟨now, member, late⟩
      · exact Or.inr ⟨now, (List.mem_singleton.mp member).symm, late⟩

/-- No book arrives before `next`: until then the aggregator's events are its ticks. -/
def Quiet (events : List Event) (next : Instant) : Prop :=
  ∀ event ∈ events, event.now < next → event.isTick = true

/-- What the aggregator has run through before `next`. -/
def eventsBefore (events : List Event) (next : Instant) : List Event :=
  events.filter fun event => event.now < next

/-- A feed whose attempts fail at once begins the attempt after its sixth delay before the
aggregator gives up exactly where no grace check past the grace period comes before the six
jittered delays and what the clock added to them are over. -/
theorem grace_covers_lap_iff (api : HistogramApi H) (subscribers : Nat) (startedAt : Instant)
    {exchange : Exchange σ} {pair : Text} {first : Instant} {a b c d e f : FailedAttempt}
    {feed : Feed σ} {seventh : Instant}
    (run : Failing exchange pair first [a, b, c, d, e, f] feed seventh) {events : List Event}
    (quiet : Quiet events seventh) :
    (afterEvents api subscribers startedAt (eventsBefore events seventh)).ended = false ↔
      ∀ now, Event.graceCheck now ∈ events → GRACE < durationSince now startedAt →
        first + (1 * a.multiplier + 2 * b.multiplier + 4 * c.multiplier + 8 * d.multiplier +
            16 * e.multiplier + 30 * f.multiplier) +
          (a.late + b.late + c.late + d.late + e.late + f.late) ≤ now := by
  have lap : first + (1 * a.multiplier + 2 * b.multiplier + 4 * c.multiplier + 8 * d.multiplier +
        16 * e.multiplier + 30 * f.multiplier) +
      (a.late + b.late + c.late + d.late + e.late + f.late) = seventh := by
    rw [(failing_next run).2]
    simp only [spent, spentFrom, nominalDelay]
    norm_num
    ring
  have ticks : ∀ event ∈ eventsBefore events seventh, event.isTick = true := by
    intro event member
    obtain ⟨inside, early⟩ := List.mem_filter.mp member
    exact quiet event inside (of_decide_eq_true early)
  have ends := (ended_iff_of_ticks api subscribers startedAt _ ticks).2.2
  rw [lap, ← Bool.not_eq_true, ends]
  constructor
  · intro running now member late
    by_contra early
    exact running ⟨now, List.mem_filter.mpr ⟨member, decide_eq_true (not_le.mp early)⟩, late⟩
  · rintro covered ⟨now, member, late⟩
    obtain ⟨inside, early⟩ := List.mem_filter.mp member
    exact absurd (of_decide_eq_true early) (not_lt.mpr (covered now inside late))

/-- Grace checks on time, `n` of them. -/
def checksOnTime (startedAt : Instant) (n : Nat) : List Event :=
  (List.range n).map fun (k : Nat) => .graceCheck (startedAt + GRACE_CHECK_INTERVAL * (k + 1))

theorem quiet_checksOnTime (startedAt : Instant) (n : Nat) (next : Instant) :
    Quiet (checksOnTime startedAt n) next := by
  intro event member _
  obtain ⟨k, -, rfl⟩ := List.mem_map.mp member
  rfl

/-- The first check on time that is past the grace period comes after 65 seconds. -/
theorem late_checkOnTime {startedAt now : Instant} {n : Nat}
    (member : Event.graceCheck now ∈ checksOnTime startedAt n)
    (late : GRACE < durationSince now startedAt) : startedAt + 65 ≤ now := by
  obtain ⟨k, -, same⟩ := List.mem_map.mp member
  obtain rfl : startedAt + GRACE_CHECK_INTERVAL * (k + 1) = now := by injection same
  have grace : GRACE = 60 := rfl
  have interval : GRACE_CHECK_INTERVAL = 5 := rfl
  have span : (60 : ℚ) < 5 * (k + 1) := by
    rcases lt_max_iff.mp late with never | past
    · rw [grace] at never
      norm_num at never
    · rw [grace, interval] at past
      linarith
  have checks : 13 ≤ k + 1 := by
    have more : (12 : ℚ) < ((k + 1 : Nat) : ℚ) := by
      push_cast
      linarith
    have more' : 12 < k + 1 := by exact_mod_cast more
    omega
  have scaled : (13 : ℚ) ≤ (k : ℚ) + 1 := by exact_mod_cast checks
  rw [interval]
  linarith

/-- Delays that are all nominal end within the grace period and its next check. -/
theorem grace_covers_lap_iff_nominal :
    ∃ feed seventh, Failing quietBinance [] 0 (List.replicate 6 ⟨1, 0⟩) feed seventh ∧
      (afterEvents counting 0 0 (eventsBefore (checksOnTime 0 20) seventh)).ended = false := by
  obtain ⟨feed, seventh, run⟩ := exists_failing quietBinance [] () 0 (List.replicate 6 1)
    (by decide +kernel)
  refine ⟨feed, seventh, run, (grace_covers_lap_iff counting 0 0 run
    (quiet_checksOnTime 0 20 seventh)).mpr ?_⟩
  intro now member late
  have past := late_checkOnTime member late
  linarith

/-- With every delay a fifth longer than nominal, grace checks on time end the aggregator before
the attempt after the sixth delay. -/
theorem grace_ends_before_lap :
    ∃ feed seventh, Failing quietBinance [] 0 (List.replicate 6 ⟨6 / 5, 0⟩) feed seventh ∧
      (afterEvents counting 0 0 (eventsBefore (checksOnTime 0 20) seventh)).ended = true := by
  obtain ⟨feed, seventh, run⟩ := exists_failing quietBinance [] () 0 (List.replicate 6 (6 / 5))
    (by decide +kernel)
  have lap : seventh = 366 / 5 := by
    rw [(failing_next run).2]
    decide +kernel
  refine ⟨feed, seventh, run, ?_⟩
  rw [lap]
  decide +kernel

end Orderbook
