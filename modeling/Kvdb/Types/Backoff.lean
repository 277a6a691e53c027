import Mathlib.Algebra.Order.Field.Rat
import Mathlib.Algebra.Order.Ring.Pow
import Mathlib.Tactic.NormNum
import Kvdb.Types.Jobs

/-!
# The backoff schedule of a job (`Job.next_retry_delay`)

`documentedDelay` is what the docstring of `Job` says of `retry_delay` and `retry_backoff`;
`nextRetryDelay?` is what the code computes, with the `OverflowError` of a power that is no float.
`rnd = 1` stands for the delay before jitter. The cap that `next_retry_delay` passes on is
`retry_delay` itself, so the delay never grows.
-/

namespace Kvdb

/-- `exponential_backoff`, where `base_delay * 2 ** max(attempts - 1, 0)` may overflow: an integer
from `2 ** 1024` on does not convert to a float. -/
def exponentialBackoff? (attempts : ℤ) (baseDelay : ℚ) (maxDelay : Option ℚ) (rnd : ℚ) :
    Option ℚ :=
  if 1024 ≤ max (attempts - 1) 0 then none
  else some (exponentialBackoff attempts baseDelay maxDelay rnd)

namespace Job

variable {V : Type}

/-- `next_retry_delay`, `none` where it raises. -/
def nextRetryDelay? (job : Job V) (rnd : ℚ) : Option ℚ :=
  if job.retryBackoff.truthy then
    exponentialBackoff? job.attempts job.retryDelay (some job.retryDelay) rnd
  else some job.retryDelay

/-- The delay before jitter, from the docstring of `Job`. -/
def documentedDelay (job : Job V) : ℚ :=
  match job.retryBackoff with
  | .flag true => job.retryDelay * 2 ^ (job.attempts - 1).toNat
  | .flag false => job.retryDelay
  | .limit m =>
    if m = 0 then job.retryDelay else min m (job.retryDelay * 2 ^ (job.attempts - 1).toNat)

/-- The delay before jitter is the documented one and no smaller than after fewer attempts, and the
jitter takes it to something between 0 and itself. -/
structure FollowsBackoff (job : Job V) : Prop where
  delay : job.nextRetryDelay? 1 = some job.documentedDelay
  mono : ∀ n, 1 ≤ n → n ≤ job.attempts →
    ∃ y ≤ job.documentedDelay, ({ job with attempts := n } : Job V).nextRetryDelay? 1 = some y
  jitter : ∀ rnd, 0 ≤ rnd → rnd < 1 →
    ∃ z, job.nextRetryDelay? rnd = some z ∧ 0 ≤ z ∧ z ≤ job.documentedDelay

/-- There is no backoff, or it is the first retry and no cap cuts the delay, or the cap is the delay
of the first retry. -/
def BackoffFlat (job : Job V) : Prop :=
  match job.retryBackoff with
  | .flag true => job.attempts = 1
  | .flag false => True
  | .limit m =>
    m = 0 ∨ job.attempts = 1 ∧ job.retryDelay ≤ m ∨ job.attempts ≤ 1024 ∧ m = job.retryDelay

instance (job : Job V) : Decidable job.BackoffFlat :=
  match h : job.retryBackoff with
  | .flag true => decidable_of_iff (job.attempts = 1) (by simp [BackoffFlat, h])
  | .flag false => .isTrue (by simp [BackoffFlat, h])
  | .limit m =>
    decidable_of_iff
      (m = 0 ∨ job.attempts = 1 ∧ job.retryDelay ≤ m ∨ job.attempts ≤ 1024 ∧ m = job.retryDelay)
      (by simp [BackoffFlat, h])

/-! ## What the code computes -/

/-- A delay that is capped by itself. -/
theorem min_mul_two_pow {d : ℚ} (hd : 0 ≤ d) (k : ℕ) : min d (d * 2 ^ k) = d :=
  min_eq_left (le_mul_of_one_le_right hd (one_le_pow₀ one_le_two))

theorem nextRetryDelay?_of_falsy (job : Job V) (h : job.retryBackoff.truthy = false) (rnd : ℚ) :
    job.nextRetryDelay? rnd = some job.retryDelay := by
  simp [nextRetryDelay?, h]

theorem nextRetryDelay?_of_truthy (job : Job V) (hd : 0 ≤ job.retryDelay)
    (h : job.retryBackoff.truthy = true) (hn : job.attempts ≤ 1024) (rnd : ℚ) :
    job.nextRetryDelay? rnd = some (job.retryDelay * rnd) := by
  have hmax : ¬ 1024 ≤ max (job.attempts - 1) 0 := by omega
  simp only [nextRetryDelay?, if_pos h, exponentialBackoff?, if_neg hmax, exponentialBackoff,
    Option.elim_some, min_mul_two_pow hd]

theorem nextRetryDelay?_overflow {job : Job V} (h : job.retryBackoff.truthy = true)
    (hn : 1024 < job.attempts) (rnd : ℚ) : job.nextRetryDelay? rnd = none := by
  have hmax : 1024 ≤ max (job.attempts - 1) 0 := by omega
  simp only [nextRetryDelay?, if_pos h, exponentialBackoff?, if_pos hmax]

/-- A truthy backoff with a delay in return: no overflow, and the delay of the first retry. -/
theorem nextRetryDelay?_eq_some {job : Job V} (hd : 0 ≤ job.retryDelay)
    (h : job.retryBackoff.truthy = true) {x : ℚ} (hx : job.nextRetryDelay? 1 = some x) :
    job.attempts ≤ 1024 ∧ x = job.retryDelay := by
  rcases lt_or_ge 1024 job.attempts with hn | hn
  · rw [nextRetryDelay?_overflow h hn] at hx
    cases hx
  · rw [nextRetryDelay?_of_truthy job hd h hn, mul_one] at hx
    exact ⟨hn, (Option.some.inj hx).symm⟩

/-- The code follows the documentation wherever it documents the delay of the first retry. -/
theorem followsBackoff_of_eq {job : Job V} (hd : 0 < job.retryDelay)
    (h : job.documentedDelay = job.retryDelay)
    (hn : job.retryBackoff.truthy = true → job.attempts ≤ 1024) : job.FollowsBackoff := by
  cases hb : job.retryBackoff.truthy with
  | false =>
    exact {
      delay := by rw [nextRetryDelay?_of_falsy job hb, h]
      mono := fun n _ _ => ⟨job.retryDelay, h.ge,
        nextRetryDelay?_of_falsy { job with attempts := n } hb 1⟩
      jitter := fun rnd _ _ =>
        ⟨job.retryDelay, nextRetryDelay?_of_falsy job hb rnd, hd.le, h.ge⟩ }
  | true =>
    have hle := hn hb
    refine {
      delay := by rw [nextRetryDelay?_of_truthy job hd.le hb hle, h, mul_one]
      mono := ?_
      jitter := ?_ }
    · intro n _ hnle
      refine ⟨job.retryDelay * 1, by rw [h, mul_one], ?_⟩
      exact nextRetryDelay?_of_truthy { job with attempts := n } hd.le hb (hnle.trans hle) 1
    · intro rnd h0 h1
      refine ⟨job.retryDelay * rnd, nextRetryDelay?_of_truthy job hd.le hb hle rnd,
        mul_nonneg hd.le h0, ?_⟩
      rw [h]
      exact mul_le_of_le_one_right hd.le h1.le

/-! ## Where the documentation says so -/

/-- Only the first retry has an exponent of 0. -/
theorem mul_two_pow_eq_self {d : ℚ} (hd : 0 < d) {n : ℤ} (hn : 1 ≤ n) :
    d * 2 ^ (n - 1).toNat = d ↔ n = 1 := by
  rw [mul_eq_left₀ hd.ne']
  constructor
  · intro h
    by_contra hne
    have hk : (n - 1).toNat ≠ 0 := by omega
    exact (one_lt_pow₀ (one_lt_two : (1 : ℚ) < 2) hk).ne' h
  · intro h
    simp [h]

theorem min_eq_iff_of_lt {d m x : ℚ} (h : d < x) : min m x = d ↔ m = d := by
  constructor
  · intro he
    rcases min_choice m x with hm | hm
    · rwa [hm] at he
    · rw [hm] at he
      exact absurd he h.ne'
  · intro he
    rw [he]
    exact min_eq_left h.le

theorem documentedDelay_eq_iff {job : Job V} (hd : 0 < job.retryDelay) (hn : 1 ≤ job.attempts) :
    job.documentedDelay = job.retryDelay ∧
        (job.retryBackoff.truthy = true → job.attempts ≤ 1024) ↔ job.BackoffFlat := by
  cases hb : job.retryBackoff with
  | flag b =>
    cases b with
    | false => simp [documentedDelay, BackoffFlat, RetryBackoff.truthy, hb]
    | true =>
      simp only [documentedDelay, BackoffFlat, RetryBackoff.truthy, hb,
        mul_two_pow_eq_self hd hn, forall_const]
      omega
  | limit m =>
    simp only [documentedDelay, BackoffFlat, RetryBackoff.truthy, hb, decide_eq_true_eq]
    by_cases hm : m = 0
    · simp [hm]
    rw [if_neg hm]
    by_cases h1 : job.attempts = 1
    · have hpow : job.retryDelay * 2 ^ (job.attempts - 1).toNat = job.retryDelay := by simp [h1]
      rw [hpow, min_eq_right_iff]
      constructor
      · intro h
        exact .inr (.inl ⟨h1, h.1⟩)
      · intro h
        rcases h with h | h | h
        · exact absurd h hm
        · exact ⟨h.2, fun _ => by omega⟩
        · exact ⟨h.2.ge, fun _ => h.1⟩
    · have hlt : job.retryDelay < job.retryDelay * 2 ^ (job.attempts - 1).toNat := by
        have hk : (job.attempts - 1).toNat ≠ 0 := by omega
        exact lt_mul_of_one_lt_right hd (one_lt_pow₀ one_lt_two hk)
      rw [min_eq_iff_of_lt hlt]
      constructor
      · intro h
        exact .inr (.inr ⟨h.2 hm, h.1⟩)
      · intro h
        rcases h with h | h | h
        · exact absurd h hm
        · exact absurd h.1 h1
        · exact ⟨h.2, fun _ => h.1⟩

/-- **The backoff is the documented one** only where the documentation has it flat. -/
theorem followsBackoff_iff (job : Job V) (hd : 0 < job.retryDelay) (hn : 1 ≤ job.attempts) :
    job.FollowsBackoff ↔ job.BackoffFlat := by
  rw [← documentedDelay_eq_iff hd hn]
  constructor
  · intro h
    cases hb : job.retryBackoff.truthy with
    | false =>
      have hdelay := h.delay
      rw [nextRetryDelay?_of_falsy job hb] at hdelay
      exact ⟨(Option.some.inj hdelay).symm, fun h => nomatch h⟩
    | true =>
      obtain ⟨hle, heq⟩ := nextRetryDelay?_eq_some hd.le hb h.delay
      exact ⟨heq, fun _ => hle⟩
  · intro h
    exact followsBackoff_of_eq hd h.1 h.2

/-- The default settings, before the second retry. -/
theorem followsBackoff_iff_first :
    (0 < ({ function := "f", key := "k", attempts := 1 } : Job Unit).retryDelay ∧
      1 ≤ ({ function := "f", key := "k", attempts := 1 } : Job Unit).attempts) ∧
    ({ function := "f", key := "k", attempts := 1 } : Job Unit).FollowsBackoff :=
  ⟨⟨by decide +kernel, by decide⟩,
    (followsBackoff_iff { function := "f", key := "k", attempts := 1 } (by decide +kernel)
      (by decide)).2 (by decide +kernel)⟩

/-- Before the second retry the documented delay is 120 seconds; the code waits at most 60. -/
theorem not_followsBackoff_second :
    ¬ ({ function := "f", key := "k", attempts := 2 } : Job Unit).FollowsBackoff := by
  intro h
  exact absurd h.delay (by decide +kernel)

end Job

end Kvdb
