import Kvdb.Lib.Machine

/-!
# Noninterference

`M.Isolates C I ins sim`: in runs within `C`, whose states satisfy `I`, a step that is not in `ins` is
not seen by `sim`, and one that is in `ins` can be taken from every state that is alike, and ends
alike. Then a run can be purged of all steps that are not in `ins` (`Isolates.run`): what `sim` shows
of its end is as if they had never been taken.
-/

namespace Lib

namespace Machine

variable {σ α : Type*}

/-- The unwinding conditions. -/
structure Isolates (M : Machine σ α) (C : σ → α → Prop) (I : σ → Prop) (ins : α → Bool)
    (sim : σ → σ → Prop) : Prop where
  inv : ∀ s a t, I s → C s a → M.step s a = some t → I t
  outside : ∀ s s' a t, I s → sim s s' → C s a → ins a = false → M.step s a = some t → sim t s'
  inside : ∀ s s' a t, I s → I s' → sim s s' → C s a → ins a = true → M.step s a = some t →
    ∃ t', M.step s' a = some t' ∧ C s' a ∧ sim t t'

variable {M : Machine σ α} {C : σ → α → Prop} {I : σ → Prop} {ins : α → Bool}
  {sim : σ → σ → Prop} {s s' t : σ} {as : List α}

/-- **The purged run** ends alike. -/
theorem Isolates.run (h : M.Isolates C I ins sim) (hs : I s) (hs' : I s') (hsim : sim s s')
    (hr : M.Run C s as t) : ∃ t', M.Run C s' (as.filter ins) t' ∧ sim t t' := by
  induction hr with
  | nil => exact ⟨s', .nil, hsim⟩
  | @snoc as t u a hr hc hstep ih =>
    obtain ⟨t', hr', ht'⟩ := ih
    have hI : I t := hr.inv I hs h.inv
    cases ha : ins a with
    | false =>
      refine ⟨t', ?_, h.outside t t' a u hI ht' hc ha hstep⟩
      rwa [List.filter_append, List.filter_singleton, ha, cond_false, List.append_nil]
    | true =>
      obtain ⟨u', hstep', hc', hu'⟩ :=
        h.inside t t' a u hI (hr'.inv I hs' h.inv) ht' hc ha hstep
      refine ⟨u', ?_, hu'⟩
      rw [List.filter_append, List.filter_singleton, ha, cond_true]
      exact .snoc hr' hc' hstep'

end Machine

end Lib
