import Mathlib.Data.List.Induction

/-!
# Decimal numbers

`Nat.toDigits 10` writes a number and `Nat.ofDigitChars 10` reads digits; a text of digits is the number
that it reads as, after some zeros (`exists_zeros_append`).
-/

namespace Lib

/-- All characters are digits. -/
def Digits (cs : List Char) : Prop := ∀ c ∈ cs, c.isDigit = true

instance (cs : List Char) : Decidable (Digits cs) :=
  List.decidableBAll (fun c : Char => c.isDigit = true) cs

theorem digits_toDigits (n : ℕ) : Digits (Nat.toDigits 10 n) := fun _ hc =>
  Nat.isDigit_of_mem_toDigits (by decide) (by decide) hc

theorem digits_append {cs ds : List Char} (h : Digits cs) (h' : Digits ds) : Digits (cs ++ ds) :=
  fun c hc => (List.mem_append.1 hc).elim (h c) (h' c)

theorem digits_replicate_zero (k : ℕ) : Digits (List.replicate k '0') := fun c hc => by
  rw [List.eq_of_mem_replicate hc]
  decide

theorem exists_digitChar {c : Char} (h : c.isDigit = true) : ∃ d < 10, Nat.digitChar d = c := by
  obtain ⟨hlo, hhi⟩ := Char.isDigit_iff_toNat.1 h
  have hlo' : 48 ≤ c.toNat := hlo
  have hhi' : c.toNat ≤ 57 := hhi
  refine ⟨c.toNat - 48, by omega, Char.toNat_inj.1 ?_⟩
  rw [Nat.toNat_digitChar_of_lt_ten (by omega)]
  omega

/-- Digits that do not begin with a zero are as the number is written. -/
theorem toDigits_ofDigitChars {c : Char} {cs : List Char} (h : Digits (c :: cs)) (hc : c ≠ '0') :
    Nat.toDigits 10 (Nat.ofDigitChars 10 (c :: cs) 0) = c :: cs := by
  induction cs using List.reverseRecOn with
  | nil =>
    obtain ⟨d, hd, rfl⟩ := exists_digitChar (h c List.mem_cons_self)
    rw [Nat.ofDigitChars_cons_digitChar_of_lt_ten hd, Nat.ofDigitChars_nil, Nat.mul_zero,
      Nat.zero_add, Nat.toDigits_of_lt_base hd]
  | append_singleton cs e ih =>
    rw [← List.cons_append] at h ⊢
    obtain ⟨d, hd, rfl⟩ := exists_digitChar (h e (List.mem_append_right _ List.mem_cons_self))
    have hw := ih fun c hm => h c (List.mem_append_left _ hm)
    have hpos : 0 < Nat.ofDigitChars 10 (c :: cs) 0 := by
      refine Nat.pos_of_ne_zero fun h0 => hc ?_
      rw [h0, Nat.toDigits_zero] at hw
      exact (List.cons.inj hw).1.symm
    rw [Nat.ofDigitChars_append, Nat.ofDigitChars_cons_digitChar_of_lt_ten hd, Nat.ofDigitChars_nil,
      ← Nat.toDigits_append_toDigits (by decide) hpos hd, hw, Nat.toDigits_of_lt_base hd]

theorem exists_zeros_append {cs : List Char} (h : Digits cs) (hn : Nat.ofDigitChars 10 cs 0 ≠ 0) :
    ∃ k c ds, cs = List.replicate k '0' ++ c :: ds ∧ c ≠ '0' ∧
      Nat.toDigits 10 (Nat.ofDigitChars 10 cs 0) = c :: ds := by
  induction cs with
  | nil => exact absurd Nat.ofDigitChars_nil hn
  | cons c cs ih =>
    by_cases hc : c = '0'
    · subst hc
      have hzero : Nat.ofDigitChars 10 ('0' :: cs) 0 = Nat.ofDigitChars 10 cs 0 :=
        Nat.ofDigitChars_cons
      rw [hzero] at hn ⊢
      obtain ⟨k, c, ds, hk, hc, hw⟩ := ih (fun c hm => h c (List.mem_cons_of_mem _ hm)) hn
      exact ⟨k + 1, c, ds, congrArg ('0' :: ·) hk, hc, hw⟩
    · exact ⟨0, c, cs, rfl, hc, toDigits_ofDigitChars h hc⟩

end Lib
