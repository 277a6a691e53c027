import Mathlib.Algebra.Order.Field.Power
import Mathlib.Algebra.Order.Field.Rat
import Mathlib.Data.Nat.Log
import Mathlib.Tactic.Linarith
import Mathlib.Tactic.Positivity

/-!
# Rounding to integers and to doubles

`roundHalfEven`: the nearest integer, ties to the even one. `toDouble`: the nearest number with a
significand of 53 bits, ties to the even one; the exponent is not bounded, so it is the nearest double
for numbers that are neither too large nor too small.

A number is changed by at most the 53rd part, in binary, of itself (`abs_toDouble_sub_le`).
`runningSum` adds a number up in doubles.
-/

namespace Lib

/-- The nearest integer, ties to the even one. -/
def roundHalfEven (x : ℚ) : ℤ :=
  let r := x - x.floor
  if r < 1 / 2 ∨ r = 1 / 2 ∧ x.floor % 2 = 0 then x.floor else x.floor + 1

theorem abs_roundHalfEven_sub_le (x : ℚ) : |roundHalfEven x - x| ≤ 1 / 2 := by
  have hlo := Rat.floor_le x
  have hhi := Rat.lt_floor_add_one x
  push_cast at hhi
  unfold roundHalfEven
  dsimp only
  split
  · rename_i h
    have hr : x - x.floor ≤ 1 / 2 := h.elim le_of_lt fun h => h.1.le
    rw [abs_le]
    constructor <;> linarith
  · rename_i h
    have hr : 1 / 2 ≤ x - x.floor := not_lt.1 fun hlt => h (.inl hlt)
    push_cast
    rw [abs_le]
    constructor <;> linarith

/-- Nothing else is so near. -/
theorem roundHalfEven_eq {x : ℚ} {n : ℤ} (h : |(n : ℚ) - x| < 1 / 2) : roundHalfEven x = n := by
  have hx := abs_le.1 (abs_roundHalfEven_sub_le x)
  have hn := abs_lt.1 h
  have hlt : ((roundHalfEven x : ℤ) : ℚ) < (n + 1 : ℤ) := by push_cast; linarith
  have hgt : ((n - 1 : ℤ) : ℚ) < (roundHalfEven x : ℤ) := by push_cast; linarith
  have hlt' := Int.cast_lt.1 hlt
  have hgt' := Int.cast_lt.1 hgt
  omega

/-- The exponent of the leading bit. -/
def binaryExponent (x : ℚ) : ℤ :=
  let e : ℤ := Nat.log2 x.num.natAbs - Nat.log2 x.den
  if (2 : ℚ) ^ e ≤ |x| then e else e - 1

theorem two_zpow_binaryExponent_le {x : ℚ} (h : x ≠ 0) : (2 : ℚ) ^ binaryExponent x ≤ |x| := by
  unfold binaryExponent
  dsimp only
  split
  · assumption
  have hnum : x.num.natAbs ≠ 0 := by simpa using h
  have hn : (2 : ℚ) ^ Nat.log2 x.num.natAbs ≤ (x.num.natAbs : ℕ) := by
    exact_mod_cast Nat.log2_self_le hnum
  have hd : ((x.den : ℕ) : ℚ) ≤ 2 ^ (Nat.log2 x.den + 1) := by
    exact_mod_cast (Nat.lt_log2_self (n := x.den)).le
  have hpos : (0 : ℚ) < x.den := by exact_mod_cast x.den_pos
  calc (2 : ℚ) ^ ((Nat.log2 x.num.natAbs : ℤ) - Nat.log2 x.den - 1)
    _ = 2 ^ Nat.log2 x.num.natAbs / 2 ^ (Nat.log2 x.den + 1) := by
      rw [sub_sub, zpow_sub₀ two_ne_zero]
      norm_cast
    _ ≤ (x.num.natAbs : ℕ) / (x.den : ℕ) := by gcongr
    _ = |x| := by
      conv_rhs => rw [← Rat.num_div_den x, abs_div]
      rw [Nat.abs_cast, Nat.cast_natAbs, Int.cast_abs]

/-- The nearest number with a significand of 53 bits, ties to the even one. -/
def toDouble (x : ℚ) : ℚ :=
  let ulp := (2 : ℚ) ^ (binaryExponent x - 52)
  roundHalfEven (x / ulp) * ulp

theorem abs_toDouble_sub_le (x : ℚ) : |toDouble x - x| ≤ |x| / 2 ^ 53 := by
  by_cases hx : x = 0
  · subst hx
    have h0 : roundHalfEven 0 = 0 := roundHalfEven_eq (by norm_num)
    simp [toDouble, h0]
  have hulp : (0 : ℚ) < 2 ^ (binaryExponent x - 52) := by positivity
  have hle := two_zpow_binaryExponent_le hx
  have hexp : (2 : ℚ) ^ (binaryExponent x - 52) = 2 ^ binaryExponent x / 2 ^ 52 := by
    rw [zpow_sub₀ two_ne_zero]
    norm_cast
  calc |toDouble x - x|
    _ = |roundHalfEven (x / 2 ^ (binaryExponent x - 52)) - x / 2 ^ (binaryExponent x - 52)| *
          2 ^ (binaryExponent x - 52) := by
      rw [← abs_of_pos hulp, ← abs_mul, abs_of_pos hulp, sub_mul, div_mul_cancel₀ _ hulp.ne']
      rfl
    _ ≤ 1 / 2 * 2 ^ (binaryExponent x - 52) := by
      gcongr
      exact abs_roundHalfEven_sub_le _
    _ ≤ |x| / 2 ^ 53 := by
      rw [hexp]
      linarith

/-! ## Sums -/

/-- The number added up, and rounded after every addition. -/
def runningSum (x : ℚ) : ℕ → ℚ
  | 0 => 0
  | k + 1 => toDouble (runningSum x k + x)

/-- Multiples that are doubles are not rounded. -/
theorem runningSum_eq {x : ℚ} {n : ℕ} (h : ∀ k ≤ n, toDouble (k * x) = k * x) :
    runningSum x n = n * x := by
  induction n with
  | zero => simp [runningSum]
  | succ n ih =>
    have hnext := h (n + 1) le_rfl
    rw [runningSum, ih fun k hk => h k (Nat.le_succ_of_le hk)]
    push_cast at hnext ⊢
    rwa [add_mul, one_mul] at hnext ⊢

end Lib
