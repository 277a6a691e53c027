import Kvdb.Components.Reestablish

/-!
# When the wait has an answer

`reestablishConnection_eq_some` says when the loop ends: at the first attempt that is accepted, or when the
running sum of the pauses reaches the delay. `reestablishes_iff` is the condition for the answer.
-/

namespace Kvdb.Reestablish

open Lib Python

variable {v : Variant} {interval maxDelay : ℚ} {host : ℕ → Attempt}

/-- The variables after some refused attempts. -/
def afterRefused (interval : ℚ) (k : ℕ) : Loop where
  duration := runningSum interval k
  err := if k = 0 then .none else .unbound
  attempts := k

/-- The loop ends after `n` refused attempts. -/
def EndsAt (v : Variant) (interval maxDelay : ℚ) (host : ℕ → Attempt) (n : ℕ) (o : Outcome) : Prop :=
  runningSum interval n < maxDelay ∧ host n = .accepted ∧ o = .returned true ∨
    maxDelay ≤ runningSum interval n ∧ o = giveUp v (if n = 0 then .none else .unbound)

/-- Before it ends, there is time and every attempt is refused. -/
def GoesOn (interval maxDelay : ℚ) (host : ℕ → Attempt) (k : ℕ) : Prop :=
  runningSum interval k < maxDelay ∧ host k = .refused

theorem GoesOn.not_endsAt {k : ℕ} (h : GoesOn interval maxDelay host k) (o : Outcome) :
    ¬ EndsAt v interval maxDelay host k o := by
  rintro (⟨-, haccepted, -⟩ | ⟨hover, -⟩)
  · rw [h.2] at haccepted
    cases haccepted
  · exact absurd h.1 (not_lt.2 hover)

theorem reestablishConnection_goesOn {fuel k : ℕ} (h : GoesOn interval maxDelay host k) :
    reestablishConnection v interval maxDelay host (fuel + 1) (afterRefused interval k) =
      reestablishConnection v interval maxDelay host fuel (afterRefused interval (k + 1)) := by
  have hlt : (afterRefused interval k).duration < maxDelay := h.1
  have hhost : host (afterRefused interval k).attempts = .refused := h.2
  rw [reestablishConnection, if_pos hlt, hhost]
  rfl

theorem reestablishConnection_ends {fuel k n : ℕ} {o : Outcome}
    (h : ¬ GoesOn interval maxDelay host k) :
    reestablishConnection v interval maxDelay host (fuel + 1) (afterRefused interval k) = some (o, n) ↔
      k = n ∧ EndsAt v interval maxDelay host k o := by
  rw [reestablishConnection]
  by_cases hlt : (afterRefused interval k).duration < maxDelay
  · have hlt' : runningSum interval k < maxDelay := hlt
    have hhost : host (afterRefused interval k).attempts = .accepted := by
      cases hk : host (afterRefused interval k).attempts with
      | accepted => rfl
      | refused => exact absurd ⟨hlt, hk⟩ h
    have hhost' : host k = .accepted := hhost
    rw [if_pos hlt, hhost]
    simp [EndsAt, hlt', hhost', not_le.2 hlt', afterRefused, and_comm, eq_comm]
  · have hle : maxDelay ≤ runningSum interval k := not_lt.1 hlt
    rw [if_neg hlt]
    simp [EndsAt, hle, not_lt.2 hle, afterRefused, and_comm, eq_comm]

/-- **When the loop ends**, from any number of refused attempts on. -/
theorem reestablishConnection_eq_some {fuel k n : ℕ} {o : Outcome} :
    reestablishConnection v interval maxDelay host fuel (afterRefused interval k) = some (o, n) ↔
      k ≤ n ∧ n < k + fuel ∧ (∀ m, k ≤ m → m < n → GoesOn interval maxDelay host m) ∧
        EndsAt v interval maxDelay host n o := by
  induction fuel generalizing k with
  | zero =>
    refine iff_of_false (fun h => by cases h) ?_
    rintro ⟨hle, hlt, -⟩
    omega
  | succ fuel ih =>
    by_cases hk : GoesOn interval maxDelay host k
    · rw [reestablishConnection_goesOn hk, ih]
      constructor
      · rintro ⟨hle, hlt, hbefore, hends⟩
        refine ⟨by omega, by omega, fun m hm hmn => ?_, hends⟩
        rcases hm.eq_or_lt with rfl | hm
        · exact hk
        · exact hbefore m hm hmn
      · rintro ⟨hle, hlt, hbefore, hends⟩
        have hne : k ≠ n := by
          rintro rfl
          exact hk.not_endsAt o hends
        exact ⟨by omega, by omega, fun m hm hmn => hbefore m (by omega) hmn, hends⟩
    · rw [reestablishConnection_ends hk]
      constructor
      · rintro ⟨rfl, hends⟩
        exact ⟨le_rfl, by omega, fun m hm hmn => absurd hmn (not_lt.2 hm), hends⟩
      · rintro ⟨hle, -, hbefore, hends⟩
        have heq : k = n := by
          by_contra hne
          exact hk (hbefore k le_rfl (by omega))
        exact ⟨heq, heq ▸ hends⟩

/-! ## The answer -/

/-- An attempt within the budget is accepted, and none is made after the time is over. -/
def Succeeds (interval maxDelay : ℚ) (host : ℕ → Attempt) : Prop :=
  ∃ j < budget interval maxDelay, host j = .accepted ∧ ∀ k ≤ j, runningSum interval k < maxDelay

/-- Every attempt within the budget is refused, and then the time is over. -/
def TimesOut (interval maxDelay : ℚ) (host : ℕ → Attempt) : Prop :=
  (∀ k < budget interval maxDelay, host k = .refused) ∧
    ∃ n ≤ budget interval maxDelay, maxDelay ≤ runningSum interval n

/-- The synchronous variant has an answer for the time being over only if it made no attempt. -/
def Answers (interval maxDelay : ℚ) (host : ℕ → Attempt) : Variant → Prop
  | .sync => maxDelay = 0 ∨ Succeeds interval maxDelay host
  | .async => Succeeds interval maxDelay host ∨ TimesOut interval maxDelay host

theorem reestablishes_iff_endsAt : Reestablishes v interval maxDelay host ↔
    ∃ n ≤ budget interval maxDelay, ∃ answer, (∀ m < n, GoesOn interval maxDelay host m) ∧
      EndsAt v interval maxDelay host n (.returned answer) ∧
      (answer = true ↔ ∃ k < budget interval maxDelay, host k = .accepted) := by
  have hinit : ({} : Loop) = afterRefused interval 0 := rfl
  rw [Reestablishes, hinit]
  simp only [reestablishConnection_eq_some]
  constructor
  · rintro ⟨fuel, answer, n, ⟨-, -, hbefore, hends⟩, hanswer, hle⟩
    exact ⟨n, hle, answer, fun m hm => hbefore m (Nat.zero_le m) hm, hends, hanswer⟩
  · rintro ⟨n, hle, answer, hbefore, hends, hanswer⟩
    exact ⟨n + 1, answer, n, ⟨Nat.zero_le n, by omega, fun m _ hm => hbefore m hm, hends⟩, hanswer, hle⟩

theorem refused_of_ne {a : Attempt} (h : a ≠ .accepted) : a = .refused := by
  cases a with
  | refused => rfl
  | accepted => exact absurd rfl h

/-- The first attempt that is accepted ends the loop. -/
theorem Succeeds.reestablishes (h : Succeeds interval maxDelay host) (v : Variant) :
    Reestablishes v interval maxDelay host := by
  obtain ⟨j, hj, haccepted, htime⟩ := h
  have hexists : ∃ n, host n = .accepted := ⟨j, haccepted⟩
  obtain ⟨n, hn, hfirst⟩ : ∃ n, host n = .accepted ∧ ∀ m < n, host m ≠ .accepted :=
    ⟨Nat.find hexists, Nat.find_spec hexists, fun m hm => Nat.find_min hexists hm⟩
  have hle : n ≤ j := by
    by_contra hlt
    exact hfirst j (not_le.1 hlt) haccepted
  refine reestablishes_iff_endsAt.2 ⟨n, by omega, true, fun m hm => ?_, ?_, ?_⟩
  · exact ⟨htime m (by omega), refused_of_ne (hfirst m hm)⟩
  · exact .inl ⟨htime n hle, hn, rfl⟩
  · exact iff_of_true rfl ⟨j, hj, haccepted⟩

/-- With no attempt accepted the asynchronous variant waits until the time is over. -/
theorem TimesOut.reestablishes (h : TimesOut interval maxDelay host) :
    Reestablishes .async interval maxDelay host := by
  obtain ⟨hrefused, j, hj, hover⟩ := h
  have hexists : ∃ n, maxDelay ≤ runningSum interval n := ⟨j, hover⟩
  obtain ⟨n, hn, hfirst⟩ : ∃ n, maxDelay ≤ runningSum interval n ∧
      ∀ m < n, runningSum interval m < maxDelay :=
    ⟨Nat.find hexists, Nat.find_spec hexists, fun m hm => not_le.1 (Nat.find_min hexists hm)⟩
  have hle : n ≤ j := by
    by_contra hlt
    exact absurd (hfirst j (not_le.1 hlt)) (not_lt.2 hover)
  refine reestablishes_iff_endsAt.2 ⟨n, by omega, false, fun m hm => ?_, .inr ⟨hn, rfl⟩, ?_⟩
  · exact ⟨hfirst m hm, hrefused m (by omega)⟩
  · refine iff_of_false Bool.false_ne_true ?_
    rintro ⟨k, hk, haccepted⟩
    rw [hrefused k hk] at haccepted
    cases haccepted

/-- Without time there is no attempt. -/
theorem reestablishes_zero (v : Variant) : Reestablishes v interval 0 host := by
  have hbudget : budget interval 0 = 0 := by simp [budget]
  refine reestablishes_iff_endsAt.2 ⟨0, Nat.zero_le _, false, fun m hm => absurd hm (Nat.not_lt_zero m),
    .inr ⟨le_rfl, ?_⟩, ?_⟩
  · cases v <;> rfl
  · simp [hbudget]

/-- The loop ends with an answer. -/
theorem Reestablishes.answers (hdelay : 0 ≤ maxDelay) (h : Reestablishes v interval maxDelay host) :
    Answers interval maxDelay host v := by
  obtain ⟨n, hle, answer, hbefore, hends, hanswer⟩ := reestablishes_iff_endsAt.1 h
  rcases hends with ⟨htime, haccepted, ho⟩ | ⟨hover, ho⟩
  · have hsucceeds : Succeeds interval maxDelay host := by
      cases ho
      obtain ⟨k, hk, hkaccepted⟩ := hanswer.1 rfl
      have hnk : n ≤ k := by
        by_contra hlt
        rw [(hbefore k (not_le.1 hlt)).2] at hkaccepted
        cases hkaccepted
      refine ⟨n, by omega, haccepted, fun m hm => ?_⟩
      rcases hm.eq_or_lt with rfl | hm
      · exact htime
      · exact (hbefore m hm).1
    cases v with
    | sync => exact .inr hsucceeds
    | async => exact .inl hsucceeds
  · cases v with
    | sync =>
      by_cases hn : n = 0
      · subst hn
        exact .inl (le_antisymm hover hdelay)
      · rw [if_neg hn] at ho
        cases ho
    | async =>
      cases ho
      refine .inr ⟨fun k hk => refused_of_ne fun haccepted => ?_, n, hle, hover⟩
      exact Bool.false_ne_true (hanswer.2 ⟨k, hk, haccepted⟩)

/-- **The wait has its answer** if and only if an attempt is accepted in time; or, in the asynchronous
variant, the time is over after the attempts of the budget; or, in the other, there was no attempt. -/
theorem reestablishes_iff (hdelay : 0 ≤ maxDelay) :
    Reestablishes v interval maxDelay host ↔ Answers interval maxDelay host v := by
  refine ⟨Reestablishes.answers hdelay, fun h => ?_⟩
  cases v with
  | sync =>
    rcases h with rfl | h
    · exact reestablishes_zero .sync
    · exact h.reestablishes .sync
  | async =>
    rcases h with h | h
    · exact h.reestablishes .async
    · exact h.reestablishes

theorem reestablishes_second :
    Reestablishes .sync (3 / 2) 3 fun k => if k = 1 then .accepted else .refused := by
  refine (reestablishes_iff (by norm_num)).2 (.inr ⟨1, Nat.lt_ceil.2 (by norm_num), rfl, ?_⟩)
  decide +kernel

/-- **The host refuses every connection**: with the defaults, the synchronous variant raises. -/
theorem reestablishes_broken :
    ¬ ∀ (v : Variant) (interval maxDelay : ℚ) (host : ℕ → Attempt), 0 < interval → 0 ≤ maxDelay →
      Reestablishes v interval maxDelay host := by
  intro h
  obtain ⟨n, -, answer, -, hends, -⟩ := reestablishes_iff_endsAt.1
    (h .sync (3 / 2) 120 (fun _ => .refused) (by norm_num) (by norm_num))
  rcases hends with ⟨-, haccepted, -⟩ | ⟨hover, ho⟩
  · cases haccepted
  · by_cases hn : n = 0
    · subst hn
      exact absurd hover (by simp [runningSum])
    · rw [if_neg hn] at ho
      cases ho

/-- Ten pauses of `0.1` are not yet `1.0`. -/
example : runningSum (toDouble (1 / 10)) 10 < 1 := by decide +kernel

/-! ## Sums that are not rounded -/

/-- **Without rounding** the asynchronous variant always has its answer, and the synchronous one where
an attempt is accepted. -/
theorem answers_of_exact (hinterval : 0 < interval)
    (hexact : ∀ k ≤ budget interval maxDelay, toDouble (k * interval) = k * interval) :
    Answers interval maxDelay host .async ∧
      (Answers interval maxDelay host .sync ↔
        maxDelay = 0 ∨ ∃ k < budget interval maxDelay, host k = .accepted) := by
  have hsum : ∀ n ≤ budget interval maxDelay, runningSum interval n = n * interval := fun n hn =>
    runningSum_eq fun k hk => hexact k (hk.trans hn)
  have htime : ∀ n < budget interval maxDelay, runningSum interval n < maxDelay := by
    intro n hn
    rw [hsum n hn.le, ← lt_div_iff₀ hinterval]
    exact Nat.lt_ceil.1 hn
  have hover : maxDelay ≤ runningSum interval (budget interval maxDelay) := by
    rw [hsum _ le_rfl, ← div_le_iff₀ hinterval]
    exact Nat.le_ceil _
  have hsucceeds : Succeeds interval maxDelay host ↔
      ∃ k < budget interval maxDelay, host k = .accepted := by
    constructor
    · rintro ⟨j, hj, haccepted, -⟩
      exact ⟨j, hj, haccepted⟩
    · rintro ⟨j, hj, haccepted⟩
      exact ⟨j, hj, haccepted, fun k hk => htime k (by omega)⟩
  refine ⟨?_, or_congr_right hsucceeds⟩
  by_cases hany : ∃ k < budget interval maxDelay, host k = .accepted
  · exact .inl (hsucceeds.2 hany)
  · exact .inr ⟨fun k hk => refused_of_ne fun haccepted => hany ⟨k, hk, haccepted⟩, _, le_rfl, hover⟩

end Kvdb.Reestablish
