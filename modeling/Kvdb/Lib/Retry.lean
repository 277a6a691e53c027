import Mathlib.Data.List.Basic

/-!
# A retried call on a state

`f w s` is one attempt of a fallible call in the circumstances `w`; it may leave a changed state also
where it fails. `Retries call f again stop`: `call` repeats `f` along a list of circumstances, after
the errors that `again` admits and until `stop`. Nothing is undone between two attempts: the next one
starts from what the failed one left (`Retries.ok_cons`).

`retry` is such a call.
-/

namespace Lib

/-- How a retried call fails: with the error of its last attempt, or because it had to stop. -/
inductive RetryFailure (ε : Type*)
  | raised (e : ε)
  | exhausted (e : ε)

variable {ω σ ε β : Type*}

/-- `call` repeats `f`; `none` while it still does. -/
structure Retries (call : List ω → σ → Option (Except (RetryFailure ε) β) × σ)
    (f : ω → σ → Except ε β × σ) (again : ε → Bool) (stop : ω → Bool) : Prop where
  nil : ∀ s, call [] s = (none, s)
  ok : ∀ {w s b t} ws, f w s = (.ok b, t) → call (w :: ws) s = (some (.ok b), t)
  raised : ∀ {w s e t} ws, f w s = (.error e, t) → again e = false →
    call (w :: ws) s = (some (.error (.raised e)), t)
  exhausted : ∀ {w s e t} ws, f w s = (.error e, t) → again e = true → stop w = true →
    call (w :: ws) s = (some (.error (.exhausted e)), t)
  retried : ∀ {w s e t} ws, f w s = (.error e, t) → again e = true → stop w = false →
    call (w :: ws) s = call ws t

/-- Repeat `f`. -/
def retry (f : ω → σ → Except ε β × σ) (again : ε → Bool) (stop : ω → Bool) :
    List ω → σ → Option (Except (RetryFailure ε) β) × σ
  | [], s => (none, s)
  | w :: ws, s =>
    match f w s with
    | (.ok b, t) => (some (.ok b), t)
    | (.error e, t) =>
      if again e = false then (some (.error (.raised e)), t)
      else if stop w then (some (.error (.exhausted e)), t)
      else retry f again stop ws t

theorem retry_retries (f : ω → σ → Except ε β × σ) (again : ε → Bool) (stop : ω → Bool) :
    Retries (retry f again stop) f again stop where
  nil _ := rfl
  ok ws h := by simp [retry, h]
  raised ws h ha := by simp [retry, h, ha]
  exhausted ws h ha hs := by simp [retry, h, ha, hs]
  retried ws h ha hs := by simp [retry, h, ha, hs]

/-- The attempt failed, and the next one follows. -/
def FailsOver (f : ω → σ → Except ε β × σ) (again : ε → Bool) (stop : ω → Bool) (w : ω) (s t : σ) :
    Prop :=
  ∃ e, f w s = (.error e, t) ∧ again e = true ∧ stop w = false

/-- A normal return is that of the first attempt, or one from what the first attempt left. -/
theorem Retries.ok_cons {call : List ω → σ → Option (Except (RetryFailure ε) β) × σ}
    {f : ω → σ → Except ε β × σ} {again : ε → Bool} {stop : ω → Bool}
    (h : Retries call f again stop) {w : ω} {ws : List ω} {s u : σ} {b : β}
    (hc : call (w :: ws) s = (some (.ok b), u)) :
    f w s = (.ok b, u) ∨
      ∃ t, FailsOver f again stop w s t ∧ call ws t = (some (.ok b), u) := by
  cases hf : f w s with
  | mk r t =>
    cases r with
    | ok b' =>
      rw [h.ok ws hf] at hc
      cases hc
      exact .inl rfl
    | error e =>
      cases ha : again e with
      | false =>
        rw [h.raised ws hf ha] at hc
        cases hc
      | true =>
        cases hs : stop w with
        | true =>
          rw [h.exhausted ws hf ha hs] at hc
          cases hc
        | false =>
          rw [h.retried ws hf ha hs] at hc
          exact .inr ⟨t, ⟨e, hf, ha, hs⟩, hc⟩

end Lib
