import Mathlib.Data.List.Basic

/-!
# Programs that raise

`Program σ ε α`: a program on a state `σ` that returns an `α` or raises an `ε`; what it did before an
exception stays done. `handle` is a `try` statement with its `except` clauses.

* `Keeps I x`: `x` leaves a state that `I` relates to the one it began in (a frame rule for every way
  to compose programs).
* `Takes view x v a v'`: `x` returns `a`, and takes what `view` sees of the state from `v` to `v'`.
* `Accounts I log Bad quiet x`: `x` writes what it does into a log, and it raises, apart from the
  exceptions that are `quiet`, exactly if it does something `Bad`.
-/

namespace Lib

variable {σ ε α β A : Type}

/-- A program on `σ`. -/
def Program (σ ε α : Type) := σ → Except ε α × σ

namespace Program

instance : Monad (Program σ ε) where
  pure a := fun s => (.ok a, s)
  bind x f := fun s =>
    match x s with
    | (.ok a, t) => f a t
    | (.error e, t) => (.error e, t)

def raise (e : ε) : Program σ ε α := fun s => (.error e, s)

/-- A step that does not raise. -/
def act (f : σ → α × σ) : Program σ ε α := fun s => (.ok (f s).1, (f s).2)

/-- `h` has the clause for each exception that is caught. -/
def handle (x : Program σ ε α) (h : ε → Option (Program σ ε α)) : Program σ ε α := fun s =>
  match x s with
  | (.ok a, t) => (.ok a, t)
  | (.error e, t) => ((h e).getD (raise e)) t

theorem pure_apply (a : α) (s : σ) : (pure a : Program σ ε α) s = (.ok a, s) := rfl

theorem bind_apply (x : Program σ ε α) (f : α → Program σ ε β) (s : σ) :
    (x >>= f) s =
      match x s with
      | (.ok a, t) => f a t
      | (.error e, t) => (.error e, t) := rfl

theorem bind_of_ok {x : Program σ ε α} {s t : σ} {a : α} (h : x s = (.ok a, t))
    (f : α → Program σ ε β) : (x >>= f) s = f a t := by
  rw [bind_apply, h]

theorem bind_of_error {x : Program σ ε α} {s t : σ} {e : ε} (h : x s = (.error e, t))
    (f : α → Program σ ε β) : (x >>= f) s = (.error e, t) := by
  rw [bind_apply, h]

theorem handle_of_ok {x : Program σ ε α} {s t : σ} {a : α} (h : x s = (.ok a, t))
    (k : ε → Option (Program σ ε α)) : x.handle k s = (.ok a, t) := by
  rw [handle, h]

theorem handle_of_error {x : Program σ ε α} {s t : σ} {e : ε} (h : x s = (.error e, t))
    (k : ε → Option (Program σ ε α)) : x.handle k s = (k e).getD (raise e) t := by
  rw [handle, h]

theorem ok_of_bind {x : Program σ ε α} {f : α → Program σ ε β} {s t : σ} {b : β}
    (h : (x >>= f) s = (.ok b, t)) : ∃ a u, x s = (.ok a, u) ∧ f a u = (.ok b, t) := by
  rcases hx : x s with ⟨e | a, u⟩
  · rw [bind_of_error hx] at h
    cases h
  · rw [bind_of_ok hx] at h
    exact ⟨a, u, rfl, h⟩

theorem ok_of_handle {x : Program σ ε α} {k : ε → Option (Program σ ε α)} {s t : σ} {a : α}
    (h : x.handle k s = (.ok a, t)) :
    x s = (.ok a, t) ∨ ∃ e y u, k e = some y ∧ x s = (.error e, u) ∧ y u = (.ok a, t) := by
  rcases hx : x s with ⟨e | b, u⟩
  · rw [handle_of_error hx] at h
    cases hk : k e with
    | none =>
      rw [hk] at h
      cases h
    | some y =>
      rw [hk] at h
      exact .inr ⟨e, y, u, hk, rfl, h⟩
  · rw [handle_of_ok hx] at h
    exact .inl h

/-! ## Frames -/

/-- What `x` leaves is related to what it found. -/
def Keeps (I : σ → σ → Prop) (x : Program σ ε α) : Prop := ∀ s, I s (x s).2

namespace Keeps

variable {I : σ → σ → Prop} {x : Program σ ε α} {f : α → Program σ ε β}

theorem pure [Std.Refl I] (a : α) : Keeps I (pure a : Program σ ε α) := fun s => Std.Refl.refl s

theorem raise [Std.Refl I] (e : ε) : Keeps I (raise e : Program σ ε α) := fun s => Std.Refl.refl s

theorem bind [IsTrans σ I] (hx : Keeps I x) (hf : ∀ a, Keeps I (f a)) : Keeps I (x >>= f) := by
  intro s
  have hs := hx s
  rw [bind_apply]
  rcases h : x s with ⟨_ | a, t⟩
  · rwa [h] at hs
  · rw [h] at hs
    exact IsTrans.trans _ _ _ hs (hf a t)

theorem handle [Std.Refl I] [IsTrans σ I] (hx : Keeps I x) {k : ε → Option (Program σ ε α)}
    (hk : ∀ e y, k e = some y → Keeps I y) : Keeps I (x.handle k) := by
  intro s
  have hs := hx s
  rw [Program.handle]
  rcases h : x s with ⟨e | a, t⟩
  · rw [h] at hs
    refine IsTrans.trans _ _ _ hs ?_
    show I t ((k e).getD _ t).2
    cases hke : k e with
    | none => exact Std.Refl.refl t
    | some y => exact hk e y hke t
  · rwa [h] at hs

end Keeps

/-! ## Results -/

/-- As `view` sees it, `x` takes `v` to `v'` and returns `a`. -/
def Takes {τ : Type} (view : σ → τ) (x : Program σ ε α) (v : τ) (a : α) (v' : τ) : Prop :=
  ∀ s, view s = v → ∃ t, x s = (.ok a, t) ∧ view t = v'

namespace Takes

variable {τ : Type} {view : σ → τ} {v v' v'' : τ} {x : Program σ ε α} {f : α → Program σ ε β}
  {a : α} {b : β}

theorem pure : Takes view (pure a : Program σ ε α) v a v := fun s hs => ⟨s, rfl, hs⟩

theorem bind (hx : Takes view x v a v') (hf : Takes view (f a) v' b v'') :
    Takes view (x >>= f) v b v'' := by
  intro s hs
  obtain ⟨t, hx, ht⟩ := hx s hs
  obtain ⟨u, hf, hu⟩ := hf t ht
  exact ⟨u, (bind_of_ok hx f).trans hf, hu⟩

theorem handle (hx : Takes view x v a v') (k : ε → Option (Program σ ε α)) :
    Takes view (x.handle k) v a v' := by
  intro s hs
  obtain ⟨t, hx, ht⟩ := hx s hs
  exact ⟨t, handle_of_ok hx k, ht⟩

end Takes

/-! ## Accounts -/

/-- `x` moves along `I`, and what it adds to the log has something bad exactly if `x` raises what is
not quiet. -/
def Accounts (I : σ → σ → Prop) (log : σ → List A) (Bad : A → Prop) (quiet : ε → Prop)
    (x : Program σ ε α) : Prop :=
  ∀ s, I s (x s).2 ∧ ∃ as, log (x s).2 = log s ++ as ∧
    ((∃ a ∈ as, Bad a) ↔ ∃ e, (x s).1 = .error e ∧ ¬ quiet e)

namespace Accounts

variable {I : σ → σ → Prop} {log : σ → List A} {Bad : A → Prop} {quiet quiet' : ε → Prop}
  {x : Program σ ε α} {f : α → Program σ ε β}

theorem keeps (hx : Accounts I log Bad quiet x) : Keeps I x := fun s => (hx s).1

theorem pure [Std.Refl I] (a : α) : Accounts I log Bad quiet (pure a : Program σ ε α) :=
  fun s => ⟨Std.Refl.refl s, [], (List.append_nil _).symm, by simp [pure_apply]⟩

theorem raise [Std.Refl I] {e : ε} (h : quiet e) :
    Accounts I log Bad quiet (raise e : Program σ ε α) :=
  fun s => ⟨Std.Refl.refl s, [], (List.append_nil _).symm, by simpa [Program.raise] using h⟩

/-- Only the second part of what was added can have something bad. -/
theorem exists_bad_append {as bs : List A} (h : ¬ ∃ a ∈ as, Bad a) :
    (∃ a ∈ as ++ bs, Bad a) ↔ ∃ a ∈ bs, Bad a := by
  constructor
  · intro hw
    obtain ⟨b, hb, hw⟩ := hw
    rcases List.mem_append.1 hb with hb | hb
    · exact absurd ⟨b, hb, hw⟩ h
    · exact ⟨b, hb, hw⟩
  · intro hw
    obtain ⟨b, hb, hw⟩ := hw
    exact ⟨b, List.mem_append_right _ hb, hw⟩

theorem bind [IsTrans σ I] (hx : Accounts I log Bad quiet x)
    (hf : ∀ a, Accounts I log Bad quiet (f a)) : Accounts I log Bad quiet (x >>= f) := by
  intro s
  obtain ⟨hI, as, hlog, hbad⟩ := hx s
  rcases h : x s with ⟨e | a, t⟩
  · rw [h] at hI hlog hbad
    rw [bind_of_error h]
    exact ⟨hI, as, hlog, by simpa using hbad⟩
  · rw [h] at hI hlog hbad
    obtain ⟨hI', bs, hlog', hbad'⟩ := hf a t
    rw [bind_of_ok h]
    refine ⟨IsTrans.trans _ _ _ hI hI', as ++ bs, by rw [hlog', hlog, List.append_assoc], ?_⟩
    rw [exists_bad_append (by simpa using hbad), hbad']

/-- The exceptions that are caught are quiet. -/
theorem handle [IsTrans σ I] (hx : Accounts I log Bad quiet x) {k : ε → Option (Program σ ε α)}
    (hk : ∀ e y, k e = some y → quiet e ∧ Accounts I log Bad quiet' y)
    (hnone : ∀ e, k e = none → (quiet e ↔ quiet' e)) :
    Accounts I log Bad quiet' (x.handle k) := by
  intro s
  obtain ⟨hI, as, hlog, hbad⟩ := hx s
  rcases h : x s with ⟨e | a, t⟩
  · rw [h] at hI hlog hbad
    rw [handle_of_error h]
    cases hke : k e with
    | none =>
      refine ⟨hI, as, hlog, hbad.trans ?_⟩
      show _ ↔ ∃ e', Except.error e = Except.error e' ∧ _
      simp [hnone e hke]
    | some y =>
      obtain ⟨hq, hy⟩ := hk e y hke
      obtain ⟨hI', bs, hlog', hbad'⟩ := hy t
      rw [Option.getD_some]
      refine ⟨IsTrans.trans _ _ _ hI hI', as ++ bs, by rw [hlog', hlog, List.append_assoc], ?_⟩
      rw [exists_bad_append (by simpa [hq] using hbad), hbad']
  · rw [h] at hI hlog hbad
    rw [handle_of_ok h]
    exact ⟨hI, as, hlog, by simpa using hbad⟩

end Accounts

end Program

end Lib
