import Kvdb.Utils.Cron
import Mathlib.Data.Int.ModEq
import Mathlib.Tactic.Ring

/-!
# The numbers of a cron expression

The carries keep the duration (`normalize_total`). For offsets, `mem_offsetValues` says what is in the list;
`within_iff` is when the numbers are within a period, `offsetValues_iff` when they are the shifted grid.
-/

namespace Kvdb.Cron

/-! ## Carries -/

namespace TimeValues

/-- The duration in seconds; a month has four weeks. -/
def total (v : TimeValues) : ℕ :=
  v.seconds.getD 0 + 60 * (v.minutes + 60 * (v.hours + 24 * (v.days + 7 * (v.weeks + 4 * v.months))))

/-- No unit reaches the next one. -/
structure Carried (v : TimeValues) : Prop where
  seconds : v.seconds.getD 0 < 60
  minutes : v.minutes < 60
  hours : v.hours < 24
  days : v.days < 7
  weeks : v.weeks < 4

end TimeValues

theorem carry_spec {base : ℕ} (h : 0 < base) (value next : ℕ) :
    (carry base value next).1 + base * (carry base value next).2 = value + base * next ∧
      (carry base value next).1 < base := by
  unfold carry
  split
  · refine ⟨?_, Nat.mod_lt value h⟩
    have hdiv := Nat.mod_add_div value base
    rw [Nat.mul_add]
    omega
  · exact ⟨rfl, by omega⟩

theorem carrySeconds_spec (value : Option ℕ) (next : ℕ) :
    (carrySeconds value next).1.getD 0 + 60 * (carrySeconds value next).2 = value.getD 0 + 60 * next ∧
      (carrySeconds value next).1.getD 0 < 60 := by
  cases value with
  | none => exact ⟨rfl, Nat.succ_pos 59⟩
  | some value => exact carry_spec (by decide) value next

/-- **The carries keep the duration**, and leave every unit below the next one. -/
theorem normalize_total (v : TimeValues) : v.normalize.total = v.total ∧ v.normalize.Carried := by
  obtain ⟨hseconds, hs⟩ := carrySeconds_spec v.seconds v.minutes
  obtain ⟨s, mi, h₁⟩ : ∃ s mi, carrySeconds v.seconds v.minutes = (s, mi) := ⟨_, _, rfl⟩
  obtain ⟨hminutes, hmi⟩ := carry_spec (show 0 < 60 by decide) mi v.hours
  obtain ⟨mi', h, h₂⟩ : ∃ mi' h, carry 60 mi v.hours = (mi', h) := ⟨_, _, rfl⟩
  obtain ⟨hhours, hh⟩ := carry_spec (show 0 < 24 by decide) h v.days
  obtain ⟨h', d, h₃⟩ : ∃ h' d, carry 24 h v.days = (h', d) := ⟨_, _, rfl⟩
  obtain ⟨hdays, hd⟩ := carry_spec (show 0 < 7 by decide) d v.weeks
  obtain ⟨d', w, h₄⟩ : ∃ d' w, carry 7 d v.weeks = (d', w) := ⟨_, _, rfl⟩
  obtain ⟨hweeks, hw⟩ := carry_spec (show 0 < 4 by decide) w v.months
  obtain ⟨w', mo, h₅⟩ : ∃ w' mo, carry 4 w v.months = (w', mo) := ⟨_, _, rfl⟩
  simp only [h₁, h₂, h₃, h₄, h₅] at hseconds hs hminutes hmi hhours hh hdays hd hweeks hw
  simp only [TimeValues.normalize, TimeValues.total, h₁, h₂, h₃, h₄, h₅]
  exact ⟨by omega, hs, hmi, hh, hd, hw⟩

/-! ## Offsets -/

variable {div start num : ℕ} {operator : OffsetOperator}

theorem mem_offsetValues {v : ℤ} : v ∈ offsetValues div start operator num ↔
    v = baseOffset start operator num ∨ ∃ i, 1 ≤ i ∧ i < div / start ∧
      v = offsetValue div start (baseOffset start operator num) i := by
  rw [offsetValues, List.mem_cons, List.mem_map]
  refine or_congr_right ⟨?_, ?_⟩
  · rintro ⟨i, hi, rfl⟩
    obtain ⟨hlo, hhi⟩ := List.mem_range'_1.1 hi
    exact ⟨i, hlo, by omega, rfl⟩
  · rintro ⟨i, hlo, hhi, rfl⟩
    exact ⟨i, List.mem_range'_1.2 ⟨hlo, by omega⟩, rfl⟩

/-- The offsets whose numbers are within the period. -/
def Within (div start : ℕ) : OffsetOperator → ℕ → Prop
  | .plus, num => start + num < div ∧ ¬ start ∣ div - num
  | .minus, num => num ≤ start ∧ start < div + num ∧ ¬ (num = 0 ∧ start ∣ div)

/-- A running value that is the period itself is not reduced. -/
theorem offsetValue_eq_div {base : ℤ} {i : ℕ} (h : base + start * i = div) :
    offsetValue div start base i = div := by
  rw [offsetValue, h, if_neg (lt_irrefl _)]

/-- A multiple of the start that is at most the period, and more than the start, is reached. -/
theorem exists_round {q : ℕ} (hstart : 1 ≤ start) (hlt : start < start * q) (hle : start * q ≤ div) :
    ∃ i, 1 ≤ i ∧ i < div / start ∧ start * q = start + start * i := by
  have hq : 1 < q := by
    by_contra hq
    have hmul := Nat.mul_le_mul_left start (not_lt.1 hq)
    omega
  have hdiv : q ≤ div / start := (Nat.le_div_iff_mul_le hstart).2 (by rwa [Nat.mul_comm])
  refine ⟨q - 1, by omega, by omega, ?_⟩
  obtain ⟨i, rfl⟩ : ∃ i, q = i + 1 := ⟨q - 1, by omega⟩
  rw [Nat.add_sub_cancel, Nat.mul_succ, Nat.add_comm]

theorem Within.of_within (hstart : 1 ≤ start)
    (h : ∀ v ∈ offsetValues div start operator num, 0 ≤ v ∧ v < div) :
    Within div start operator num := by
  obtain ⟨hlo, hhi⟩ := h _ (mem_offsetValues.2 (.inl rfl))
  have hne : ∀ i, 1 ≤ i → i < div / start → baseOffset start operator num + (start * i : ℕ) ≠ div := by
    intro i hi hlt heq
    obtain ⟨-, hv⟩ := h _ (mem_offsetValues.2 (.inr ⟨i, hi, hlt, rfl⟩))
    rw [offsetValue_eq_div (by exact_mod_cast heq)] at hv
    exact lt_irrefl _ hv
  cases operator with
  | plus =>
    simp only [baseOffset] at hlo hhi hne
    refine ⟨by omega, ?_⟩
    rintro ⟨q, hq⟩
    obtain ⟨i, hi, hlt, hmul⟩ := exists_round hstart
      (show start < start * q by omega) (show start * q ≤ div by omega)
    exact hne i hi hlt (by omega)
  | minus =>
    simp only [baseOffset] at hlo hhi hne
    refine ⟨by omega, by omega, ?_⟩
    rintro ⟨rfl, q, hq⟩
    obtain ⟨i, hi, hlt, hmul⟩ := exists_round hstart
      (show start < start * q by omega) (show start * q ≤ div by omega)
    exact hne i hi hlt (by omega)

/-- What the rounds add is less than the period. -/
theorem mul_le_of_round {i : ℕ} (h : i < div / start) : start * i + start ≤ div := by
  have hmul := Nat.mul_le_mul_left start (Nat.succ_le_of_lt h)
  exact hmul.trans (Nat.mul_div_le div start)

/-- The running values are below the period, or reduced; none is the period. -/
theorem Within.add_ne (hstart : 1 ≤ start) (h : Within div start operator num) {i : ℕ}
    (hi : i < div / start) : baseOffset start operator num + (start * i : ℕ) ≠ div := by
  have hle := mul_le_of_round hi
  intro heq
  cases operator with
  | plus =>
    obtain ⟨hlt, hdvd⟩ := h
    simp only [baseOffset] at heq
    refine hdvd ⟨i + 1, ?_⟩
    rw [Nat.mul_succ]
    omega
  | minus =>
    obtain ⟨-, -, hdvd⟩ := h
    simp only [baseOffset] at heq
    refine hdvd ⟨by omega, i + 1, ?_⟩
    rw [Nat.mul_succ]
    omega

theorem Within.base (h : Within div start operator num) :
    0 ≤ baseOffset start operator num ∧ baseOffset start operator num < div := by
  cases operator with
  | plus =>
    obtain ⟨hlt, -⟩ := h
    simp only [baseOffset]
    omega
  | minus =>
    obtain ⟨hle, hlt, -⟩ := h
    simp only [baseOffset]
    omega

/-- Then every number is a remainder. -/
theorem Within.offsetValue_eq (hstart : 1 ≤ start) (h : Within div start operator num) {i : ℕ}
    (hi : i < div / start) : offsetValue div start (baseOffset start operator num) i =
      (baseOffset start operator num + start * i) % div := by
  have hne := h.add_ne hstart hi
  obtain ⟨hlo, -⟩ := h.base
  rw [Nat.cast_mul] at hne
  have hpos : (0 : ℤ) ≤ start * i :=
    Int.mul_nonneg (Int.natCast_nonneg _) (Int.natCast_nonneg _)
  unfold offsetValue
  split
  · rfl
  · rw [Int.emod_eq_of_lt (by omega) (by omega)]

/-- **Offsets within the period.** -/
theorem within_iff (hstart : 1 ≤ start) :
    (∀ v ∈ offsetValues div start operator num, 0 ≤ v ∧ v < div) ↔ Within div start operator num := by
  refine ⟨Within.of_within hstart, ?_⟩
  intro h v hv
  have hbase := h.base
  rcases mem_offsetValues.1 hv with rfl | ⟨i, -, hi, rfl⟩
  · exact hbase
  · rw [h.offsetValue_eq hstart hi]
    exact ⟨Int.emod_nonneg _ (by omega), Int.emod_lt_of_pos _ (by omega)⟩

/-- The list is of the remainders. -/
theorem Within.offsetValues_eq (hstart : 1 ≤ start) (hle : start ≤ div)
    (h : Within div start operator num) : offsetValues div start operator num =
      (List.range (div / start)).map fun i => (baseOffset start operator num + start * (i : ℕ)) % div := by
  obtain ⟨hlo, hlt⟩ := h.base
  obtain ⟨k, hk⟩ : ∃ k, div / start = k + 1 :=
    Nat.exists_eq_succ_of_ne_zero (Nat.div_pos hle hstart).ne'
  rw [offsetValues, hk, Nat.add_sub_cancel, List.range_eq_range', List.range'_succ, List.map_cons]
  congr 1
  · rw [Nat.cast_zero, mul_zero, add_zero, Int.emod_eq_of_lt hlo hlt]
  · refine List.map_congr_left fun i hi => ?_
    obtain ⟨-, hi⟩ := List.mem_range'_1.1 hi
    exact h.offsetValue_eq hstart (by omega)

/-! ## The shifted grid -/

/-- `m`, or `-m`. -/
def shift (operator : OffsetOperator) (num : ℕ) : ℤ :=
  match operator with
  | .minus => -num
  | .plus => num

theorem baseOffset_eq : baseOffset start operator num = start + shift operator num := by
  cases operator with
  | plus => rfl
  | minus => exact sub_eq_add_neg _ _

/-- The multiples of the interval, shifted. -/
structure ShiftedGrid (div start : ℕ) (operator : OffsetOperator) (num : ℕ) (xs : List ℤ) : Prop where
  mem : ∀ v, v ∈ xs ↔ ∃ k : ℕ, k < div / start ∧ v = (k * start + shift operator num) % div
  nodup : xs.Nodup
  within : ∀ v ∈ xs, 0 ≤ v ∧ v < div

/-- Multiples of the interval below the period differ in their remainders. -/
theorem nodup_remainders (hstart : 1 ≤ start) (k : ℕ) (c : ℤ) :
    ((List.range k).map fun i => (c + start * (i : ℕ)) % ((start * k : ℕ) : ℤ)).Nodup := by
  refine List.Nodup.map_on ?_ List.nodup_range
  intro i hi j hj heq
  rw [Nat.cast_mul] at heq
  have hmul : (start * i : ℤ) ≡ start * j [ZMOD start * k] := Int.ModEq.add_left_cancel' c heq
  have hmod : (i : ℤ) ≡ j [ZMOD k] := Int.ModEq.mul_left_cancel' (by omega) hmul
  exact (Int.natCast_modEq_iff.1 hmod).eq_of_lt_of_lt (List.mem_range.1 hi) (List.mem_range.1 hj)

/-- The grid may begin with any of its points. -/
theorem mem_remainders (start : ℕ) {k : ℕ} (hk : 1 ≤ k) (s v : ℤ) :
    (∃ i < k, v = (start + s + start * (i : ℕ)) % ((start * k : ℕ) : ℤ)) ↔
      ∃ j < k, v = ((j : ℕ) * start + s) % ((start * k : ℕ) : ℤ) := by
  have hsucc : ∀ i : ℕ, (start + s + start * i : ℤ) = ((i + 1 : ℕ) : ℤ) * start + s := by
    intro i
    push_cast
    ring
  have hlast : ((k : ℤ) * start + s) % ((start * k : ℕ) : ℤ) =
      (((0 : ℕ) : ℤ) * start + s) % ((start * k : ℕ) : ℤ) := by
    have hcast : (k : ℤ) * start = ((start * k : ℕ) : ℤ) := by
      push_cast
      ring
    rw [hcast, Int.add_emod_left, Nat.cast_zero, zero_mul, zero_add]
  constructor
  · rintro ⟨i, hi, rfl⟩
    rw [hsucc]
    rcases (Nat.succ_le_of_lt hi).lt_or_eq with hlt | heq
    · exact ⟨i + 1, hlt, rfl⟩
    · exact ⟨0, hk, by rw [← heq] at hlast ⊢; exact hlast⟩
  · rintro ⟨j, hj, rfl⟩
    cases j with
    | zero =>
      refine ⟨k - 1, by omega, ?_⟩
      rw [hsucc, Nat.sub_add_cancel hk, hlast]
    | succ j => exact ⟨j, by omega, by rw [hsucc]⟩

/-- The offsets that shift the grid. -/
def Shifts (div start : ℕ) : OffsetOperator → ℕ → Prop
  | .plus, num => start + num < div ∧ ¬ start ∣ num
  | .minus, num => 1 ≤ num ∧ num ≤ start

theorem within_iff_shifts (hdiv : 0 < div) (hdvd : start ∣ div) :
    Within div start operator num ↔ Shifts div start operator num := by
  have hle := Nat.le_of_dvd hdiv hdvd
  cases operator with
  | plus =>
    refine and_congr_right fun hlt => not_congr ?_
    exact (Nat.dvd_sub_iff_right (by omega) hdvd)
  | minus =>
    simp only [Within, Shifts, hdvd, and_true]
    omega

/-- **The offsets are the shifted grid** if and only if they shift it to points below the period. -/
theorem offsetValues_iff (hstart : 1 ≤ start) (hdiv : 0 < div) (hdvd : start ∣ div) :
    ShiftedGrid div start operator num (offsetValues div start operator num) ↔
      Shifts div start operator num := by
  rw [← within_iff_shifts hdiv hdvd]
  refine ⟨fun h => (within_iff hstart).1 h.within, fun h => ?_⟩
  have hle := Nat.le_of_dvd hdiv hdvd
  have hk := Nat.div_pos hle hstart
  have hmul : start * (div / start) = div := Nat.mul_div_cancel' hdvd
  have heq := h.offsetValues_eq hstart hle
  refine ⟨fun v => ?_, ?_, (within_iff hstart).2 h⟩
  · have hgrid := mem_remainders start hk (shift operator num) v
    rw [hmul] at hgrid
    rw [heq, List.mem_map, baseOffset_eq, ← hgrid]
    simp only [List.mem_range, eq_comm]
  · have hnodup := nodup_remainders hstart (div / start) (baseOffset start operator num)
    rw [hmul] at hnodup
    rw [heq]
    exact hnodup

/-- `every 15 -= 5 minutes`. -/
theorem offsetValues_fifteen : ShiftedGrid 60 15 .minus 5 (offsetValues 60 15 .minus 5) :=
  (offsetValues_iff (by decide) (by decide) (by decide)).2 ⟨by decide, by decide⟩

/-- **A point at the period**: `every 15 += 15 minutes` has the minute `60`. -/
theorem offsetValues_broken :
    ¬ ∀ (div start num : ℕ) (operator : OffsetOperator), 1 ≤ start → 0 < div → start ∣ div →
      ShiftedGrid div start operator num (offsetValues div start operator num) := by
  intro h
  have hwithin := (h 60 15 15 .plus (by decide) (by decide) (by decide)).within
  exact absurd (hwithin 60 (by decide)).2 (lt_irrefl _)

end Kvdb.Cron
