import Kvdb.Components.Lock

/-!
# Mutual exclusion of the locks

In a run of clean steps the lock of every holder stays on the server until the holder releases it or
its time is over, and there is at most one holder (`exclusive_of_clean`). A session lock whose clients
have lock objects of their own needs no condition (`session_exclusive`). The condition is exact: after
a step outside it, some continuation removes the lock of a holder (`breaks_of_not_clean`).
-/

namespace Kvdb

namespace Locks

open Lib (update_cases)

variable {C S : Type} [DecidableEq C] [DecidableEq S] {slot : C → S} {fallback : Bool}
  {s s' : Locks C S}

/-! ## The branches of a step -/

/-- From `s` the step `e` leads to the state. -/
inductive LockStep (slot : C → S) (fallback : Bool) (s : Locks C S) :
    LockEv C → Locks C S → Prop
  | taken {c : C} (hc : s.place c = .idle) (h : s.stored = none) :
    LockStep slot fallback s (.acquire c)
      { s with
        stored := some s.fresh
        created := Function.update s.created (slot c) true
        place := Function.update s.place c (.acquired s.fresh)
        fresh := s.fresh + 1
        holding := Function.update s.holding c (some s.fresh) }
  | refused {c : C} (hc : s.place c = .idle) (h : s.stored ≠ none) :
    LockStep slot fallback s (.acquire c)
      { s with created := Function.update s.created (slot c) true }
  | keep {c : C} {t : ℕ} (hc : s.place c = .acquired t) :
    LockStep slot fallback s (.keep c)
      { s with
        token := Function.update s.token (slot c) (some t)
        place := Function.update s.place c .idle }
  | nothing {c : C} (hc : s.place c = .idle) (h : s.created (slot c) = false) :
    LockStep slot fallback s (.release c) s
  | take {c : C} {t : ℕ} (hc : s.place c = .idle) (h : s.created (slot c) = true)
      (ht : s.token (slot c) = some t) :
    LockStep slot fallback s (.release c)
      { s with
        token := Function.update s.token (slot c) none
        place := Function.update s.place c (.releasing t)
        holding := Function.update s.holding c none }
  | empty {c : C} (hc : s.place c = .idle) (h : s.created (slot c) = true)
      (ht : s.token (slot c) = none) :
    LockStep slot fallback s (.release c)
      { s with
        place := Function.update s.place c (raised fallback)
        holding := Function.update s.holding c none }
  | unlock {c : C} {t : ℕ} (hc : s.place c = .releasing t) (h : s.stored = some t) :
    LockStep slot fallback s (.unlock c)
      { s with stored := none, place := Function.update s.place c .idle }
  | notOwned {c : C} {t : ℕ} (hc : s.place c = .releasing t) (h : s.stored ≠ some t) :
    LockStep slot fallback s (.unlock c) { s with place := Function.update s.place c (raised fallback) }
  | delete {c : C} (hc : s.place c = .deleting) :
    LockStep slot fallback s (.delete c)
      { s with stored := none, place := Function.update s.place c .idle }
  | expire {t : ℕ} :
    LockStep slot fallback s (.expire t)
      { s with
        stored := if s.stored = some t then none else s.stored
        holding := fun c => if s.holding c = some t then none else s.holding c }

theorem lockStep_of_step {e : LockEv C} (h : s.step slot fallback e = some s') :
    LockStep slot fallback s e s' := by
  cases e with
  | acquire c =>
    simp only [step] at h
    split at h
    · split at h
      · cases h
        exact .taken ‹_› ‹_›
      · cases h
        exact .refused ‹_› ‹_›
    · cases h
  | keep c =>
    simp only [step] at h
    split at h
    · cases h
      exact .keep ‹_›
    · cases h
  | release c =>
    simp only [step] at h
    split at h
    · split at h
      · split at h
        · cases h
          exact .take ‹_› ‹_› ‹_›
        · cases h
          exact .empty ‹_› ‹_› ‹_›
      · rename_i hcreated
        cases h
        exact .nothing ‹_› (Bool.eq_false_of_not_eq_true hcreated)
    · cases h
  | unlock c =>
    simp only [step] at h
    split at h
    · split at h
      · cases h
        exact .unlock ‹_› ‹_›
      · cases h
        exact .notOwned ‹_› ‹_›
    · cases h
  | delete c =>
    simp only [step] at h
    split at h
    · cases h
      exact .delete ‹_›
    · cases h
  | expire t =>
    cases h
    exact .expire

theorem step_of_lockStep {e : LockEv C} (h : LockStep slot fallback s e s') :
    s.step slot fallback e = some s' := by
  cases h <;> simp [step, *]

/-! ## The invariant -/

structure LockInv (s : Locks C S) : Prop where
  kept : ∀ c t, s.holding c = some t → s.stored = some t
  uniq : ∀ c c' t, s.holding c = some t → s.holding c' = some t → c = c'
  old : ∀ t, (∃ k, s.token k = some t) ∨ (∃ c, s.place c = .acquired t ∨ s.place c = .releasing t) →
    t < s.fresh
  /-- The token of a release under way is no holder's. -/
  released : ∀ c t, s.place c = .releasing t → ∀ c', s.holding c' ≠ some t
  calm : ∀ c, s.place c ≠ .deleting

omit [DecidableEq C] [DecidableEq S] in
theorem LockInv.exclusive (h : LockInv s) : Exclusive s := by
  refine ⟨h.kept, fun c c' hc hc' => ?_⟩
  obtain ⟨t, ht⟩ := Option.ne_none_iff_exists'.1 hc
  obtain ⟨t', ht'⟩ := Option.ne_none_iff_exists'.1 hc'
  have heq : t = t' := Option.some.inj ((h.kept c t ht).symm.trans (h.kept c' t' ht'))
  exact h.uniq c c' t ht (heq ▸ ht')

omit [DecidableEq C] [DecidableEq S] in
theorem lockInv_init : LockInv ({} : Locks C S) where
  kept _ _ h := by cases h
  uniq _ _ _ h := by cases h
  old _ h := by obtain ⟨_, h⟩ | ⟨_, h | h⟩ := h <;> cases h
  released _ _ h := by cases h
  calm _ h := by cases h

omit [DecidableEq S] in
/-- A client goes on to a place where it has no token in hand. -/
theorem LockInv.move (h : LockInv s) (c : C) :
    LockInv { s with place := Function.update s.place c .idle } := by
  have hplace : ∀ c' p, Function.update s.place c .idle c' = p → p ≠ .idle → s.place c' = p := by
    intro c' p hp hne
    rcases update_cases hp with ⟨-, hidle⟩ | ⟨-, hp⟩
    · exact absurd hidle.symm hne
    · exact hp
  refine ⟨h.kept, h.uniq, fun t ht => h.old t (ht.imp_right ?_), fun c' t hc' => ?_, fun c' hc' => ?_⟩
  · rintro ⟨c', hc' | hc'⟩
    · exact ⟨c', .inl (hplace c' _ hc' (by simp))⟩
    · exact ⟨c', .inr (hplace c' _ hc' (by simp))⟩
  · exact h.released c' t (hplace c' _ hc' (by simp))
  · exact h.calm c' (hplace c' _ hc' (by simp))

omit [DecidableEq C] [DecidableEq S] in
/-- Some clients do not hold the lock any more. -/
theorem LockInv.unhold (h : LockInv s) (holding : C → Option ℕ)
    (hsub : ∀ c t, holding c = some t → s.holding c = some t) : LockInv { s with holding } where
  kept c t ht := h.kept c t (hsub c t ht)
  uniq c c' t h1 h2 := h.uniq c c' t (hsub c t h1) (hsub c' t h2)
  old := h.old
  released c t hp c' hh := h.released c t hp c' (hsub c' t hh)
  calm := h.calm

omit [DecidableEq S] in
theorem holding_of_update {c c' : C} {t : ℕ} (h : Function.update s.holding c none c' = some t) :
    c' ≠ c ∧ s.holding c' = some t := by
  rcases update_cases h with ⟨-, hn⟩ | h
  · cases hn
  · exact h

theorem lockInv_step {e : LockEv C} (h : LockInv s) (hC : Clean slot fallback s e)
    (hs : LockStep slot fallback s e s') : LockInv s' := by
  cases hs with
  | @taken c hc hfree =>
    -- nobody holds a lock, since none is stored
    have hheld : ∀ c' t, Function.update s.holding c (some s.fresh) c' = some t →
        c' = c ∧ t = s.fresh := by
      intro c' t ht
      rcases update_cases ht with ⟨hcc, ht⟩ | ⟨-, ht⟩
      · exact ⟨hcc, (Option.some.inj ht).symm⟩
      · have hstored := h.kept c' t ht
        rw [hfree] at hstored
        cases hstored
    refine ⟨fun c' t ht => ?_, fun c' c'' t ht ht' => ?_, fun t ht => ?_, fun c' t hp c'' hh => ?_,
      fun c' hp => ?_⟩
    · rw [(hheld c' t ht).2]
    · rw [(hheld c' t ht).1, (hheld c'' t ht').1]
    · refine Nat.lt_succ_iff.2 ?_
      rcases ht with ht | ⟨c', hp | hp⟩
      · exact (h.old t (.inl ht)).le
      · rcases update_cases hp with ⟨-, hp⟩ | ⟨-, hp⟩
        · cases hp
          exact le_rfl
        · exact (h.old t (.inr ⟨c', .inl hp⟩)).le
      · rcases update_cases hp with ⟨-, hp⟩ | ⟨-, hp⟩
        · cases hp
        · exact (h.old t (.inr ⟨c', .inr hp⟩)).le
    · rcases update_cases hp with ⟨-, hp⟩ | ⟨-, hp⟩
      · cases hp
      · have hlt := h.old t (.inr ⟨c', .inr hp⟩)
        have heq := (hheld c'' t hh).2
        omega
    · rcases update_cases hp with ⟨-, hp⟩ | ⟨-, hp⟩
      · cases hp
      · exact h.calm c' hp
  | refused hc hfree => exact ⟨h.kept, h.uniq, h.old, h.released, h.calm⟩
  | @keep c t hc =>
    have hlt : t < s.fresh := h.old t (.inr ⟨c, .inl hc⟩)
    have hmove := h.move c
    refine ⟨hmove.kept, hmove.uniq, fun t' ht' => ?_, hmove.released, hmove.calm⟩
    rcases ht' with ⟨k, hk⟩ | ht'
    · rcases update_cases hk with ⟨-, hk⟩ | ⟨-, hk⟩
      · exact Option.some.inj hk ▸ hlt
      · exact h.old t' (.inl ⟨k, hk⟩)
    · exact hmove.old t' (.inr ht')
  | nothing hc hcreated => exact h
  | @take c t hc hcreated ht =>
    have hother := (hC hcreated).1
    have hrest := h.unhold (Function.update s.holding c none)
      fun c' t' ht' => (holding_of_update ht').2
    refine ⟨hrest.kept, hrest.uniq, fun t' ht' => ?_, fun c' t' hp c'' hh => ?_, fun c' hp => ?_⟩
    · rcases ht' with ⟨k, hk⟩ | ⟨c', hp | hp⟩
      · rcases update_cases hk with ⟨-, hn⟩ | ⟨-, hk⟩
        · cases hn
        · exact h.old t' (.inl ⟨k, hk⟩)
      · rcases update_cases hp with ⟨-, hp⟩ | ⟨-, hp⟩
        · cases hp
        · exact h.old t' (.inr ⟨c', .inl hp⟩)
      · rcases update_cases hp with ⟨-, hp⟩ | ⟨-, hp⟩
        · cases hp
          exact h.old t (.inl ⟨_, ht⟩)
        · exact h.old t' (.inr ⟨c', .inr hp⟩)
    · obtain ⟨hne, hh'⟩ := holding_of_update hh
      rcases update_cases hp with ⟨-, hp⟩ | ⟨-, hp⟩
      · cases hp
        refine hother c'' hne (by simp [hh']) ?_
        rw [ht, hh']
      · exact hrest.released c' t' hp c'' hh
    · rcases update_cases hp with ⟨-, hp⟩ | ⟨-, hp⟩
      · cases hp
      · exact h.calm c' hp
  | @empty c hc hcreated ht =>
    have hfall : fallback = false := by
      by_contra hfall
      exact (hC hcreated).2 (Bool.eq_true_of_not_eq_false hfall) ht
    subst hfall
    exact (h.move c).unhold _ fun c' t' ht' => (holding_of_update ht').2
  | @unlock c t hc hstored =>
    have hmove := h.move c
    refine ⟨fun c' t' ht' => ?_, hmove.uniq, hmove.old, hmove.released, hmove.calm⟩
    have hkept := h.kept c' t' ht'
    rw [hstored] at hkept
    cases hkept
    exact absurd ht' (h.released c t hc c')
  | @notOwned c t hc hstored =>
    have hfall : fallback = false := by
      by_contra hfall
      exact hstored (hC (Bool.eq_true_of_not_eq_false hfall) t hc)
    subst hfall
    exact h.move c
  | delete hc => exact absurd hc (h.calm _)
  | @expire t =>
    have hheld : ∀ c' t', (if s.holding c' = some t then none else s.holding c') = some t' →
        t' ≠ t ∧ s.holding c' = some t' := by
      intro c' t' ht'
      split at ht'
      · cases ht'
      · rename_i hne
        refine ⟨?_, ht'⟩
        rintro rfl
        exact hne ht'
    have hrest := h.unhold _ fun c' t' ht' => (hheld c' t' ht').2
    refine ⟨fun c' t' ht' => ?_, hrest.uniq, h.old, hrest.released, h.calm⟩
    obtain ⟨hne, hh⟩ := hheld c' t' ht'
    have hkept := h.kept c' t' hh
    show (if s.stored = some t then none else s.stored) = some t'
    rw [if_neg ?_, hkept]
    rw [hkept]
    intro heq
    exact hne (Option.some.inj heq)

theorem lockInv_of_run {es : List (LockEv C)}
    (h : (lockMachine slot fallback).Run (Clean slot fallback) (lockMachine slot fallback).init es s) :
    LockInv s :=
  h.inv LockInv lockInv_init fun _ _ _ ht hC hu => lockInv_step ht hC (lockStep_of_step hu)

/-- **Mutual exclusion** in every run of clean steps. -/
theorem exclusive_of_clean {es : List (LockEv C)}
    (h : (lockMachine slot fallback).Run (Clean slot fallback) (lockMachine slot fallback).init es s) :
    Exclusive s :=
  (lockInv_of_run h).exclusive

/-! ## Lock objects that are not shared -/

/-- The token of a holder is in no other lock object than its own. -/
def OwnTokens (slot : C → S) (s : Locks C S) : Prop :=
  ∀ c t, s.holding c = some t →
    (∀ k, s.token k = some t → k = slot c) ∧ ∀ c', s.place c' = .acquired t → c' = c

omit [DecidableEq C] [DecidableEq S] in
/-- No token moves, and no client begins to hold one. -/
theorem OwnTokens.sub (h : OwnTokens slot s)
    (hheld : ∀ c t, s'.holding c = some t → s.holding c = some t)
    (htoken : ∀ k t, s'.token k = some t → s.token k = some t)
    (hplace : ∀ c t, s'.place c = .acquired t → s.place c = .acquired t) : OwnTokens slot s' := by
  intro c t hc
  obtain ⟨h1, h2⟩ := h c t (hheld c t hc)
  exact ⟨fun k hk => h1 k (htoken k t hk), fun c' hc' => h2 c' (hplace c' t hc')⟩

theorem ownTokens_step {e : LockEv C} (hI : LockInv s) (h : OwnTokens slot s)
    (hs : LockStep slot fallback s e s') : OwnTokens slot s' := by
  have hplace : ∀ {c : C} {p : LockAt}, (∀ t, p ≠ .acquired t) → ∀ c' t,
      Function.update s.place c p c' = .acquired t → s.place c' = .acquired t := by
    intro c p hp c' t hc'
    rcases update_cases hc' with ⟨-, hpt⟩ | ⟨-, hc'⟩
    · exact absurd hpt (hp t)
    · exact hc'
  have hheld : ∀ c c' t, Function.update s.holding c none c' = some t → s.holding c' = some t :=
    fun _ _ _ ht => (holding_of_update ht).2
  have hraised : ∀ t, raised fallback ≠ .acquired t := by
    intro t
    unfold raised
    split <;> simp
  cases hs with
  | @taken c hc hfree =>
    intro c' t ht
    rcases update_cases ht with ⟨rfl, heq⟩ | ⟨-, ht⟩
    · obtain rfl : s.fresh = t := Option.some.inj heq
      refine ⟨fun k hk => ?_, fun c'' hc'' => ?_⟩
      · exact absurd (hI.old s.fresh (.inl ⟨k, hk⟩)) (lt_irrefl _)
      · rcases update_cases hc'' with ⟨rfl, -⟩ | ⟨-, hc''⟩
        · rfl
        · exact absurd (hI.old s.fresh (.inr ⟨c'', .inl hc''⟩)) (lt_irrefl _)
    · have hstored := hI.kept c' t ht
      rw [hfree] at hstored
      cases hstored
  | refused hc hfree => exact h
  | @keep c t hc =>
    intro c' t' ht'
    obtain ⟨h1, h2⟩ := h c' t' ht'
    refine ⟨fun k hk => ?_, fun c'' hc'' => h2 c'' (hplace (by simp) c'' t' hc'')⟩
    rcases update_cases hk with ⟨hkc, heq⟩ | ⟨-, hk⟩
    · obtain rfl : t = t' := Option.some.inj heq
      rw [hkc, h2 c hc]
    · exact h1 k hk
  | nothing hc hcreated => exact h
  | @take c t hc hcreated ht =>
    refine h.sub (hheld c) (fun k t' hk => ?_) (hplace (by simp))
    rcases update_cases hk with ⟨-, hn⟩ | ⟨-, hk⟩
    · cases hn
    · exact hk
  | @empty c hc hcreated ht => exact h.sub (hheld c) (fun _ _ => id) (hplace hraised)
  | unlock hc hstored | delete hc =>
    exact h.sub (fun _ _ => id) (fun _ _ => id) (hplace (by simp))
  | notOwned hc hstored => exact h.sub (fun _ _ => id) (fun _ _ => id) (hplace hraised)
  | @expire t =>
    refine h.sub (fun c t' ht' => ?_) (fun _ _ => id) fun _ _ => id
    dsimp only at ht'
    split at ht'
    · cases ht'
    · exact ht'

/-- **A session lock, released without `force`**: clients with lock objects of their own exclude each
other in every run, whatever they release and however late. -/
theorem session_exclusive (hslot : Function.Injective slot) {es : List (LockEv C)}
    (h : (lockMachine slot false).Run Lib.Machine.Any (lockMachine slot false).init es s) :
    Exclusive s := by
  have hinv : LockInv s ∧ OwnTokens slot s := by
    refine h.inv (fun s => LockInv s ∧ OwnTokens slot s) ⟨lockInv_init, fun c t ht => by cases ht⟩ ?_
    intro t e u hI _ hu
    have hstep := lockStep_of_step hu
    have hC : Clean slot false t e := by
      cases e with
      | release c =>
        refine fun _ => ⟨fun c' hne hc' heq => ?_, fun hf => absurd hf Bool.false_ne_true⟩
        obtain ⟨tok, ht⟩ := Option.ne_none_iff_exists'.1 hc'
        exact hne (hslot ((hI.2 c' tok ht).1 (slot c) (heq.trans ht)).symm)
      | unlock c => exact fun hf => absurd hf Bool.false_ne_true
      | _ => trivial
    exact ⟨lockInv_step hI.1 hC hstep, ownTokens_step hI.1 hI.2 hstep⟩
  exact hinv.1.exclusive

/-! ## The condition is exact -/

/-- From here on some steps remove the lock of a holder. -/
def Breaks (slot : C → S) (fallback : Bool) (s : Locks C S) : Prop :=
  ∃ es u, (lockMachine slot fallback).Run Lib.Machine.Any s es u ∧ ¬ Exclusive u

theorem Breaks.next {e : LockEv C} (hs : LockStep slot fallback s e s')
    (h : Breaks slot fallback s') : Breaks slot fallback s := by
  obtain ⟨es, u, hr, hu⟩ := h
  have h1 : (lockMachine slot fallback).Run Lib.Machine.Any s [e] s' :=
    .single trivial (step_of_lockStep hs)
  exact ⟨_, u, h1.append hr, hu⟩

/-- The `DEL` of one client comes when the other has just taken the lock. -/
theorem breaks_of_free {c c' : C} (hc : s.place c = .deleting) (hc' : s.place c' = .idle)
    (hne : c' ≠ c) (hfree : s.stored = none) : Breaks slot fallback s := by
  refine Breaks.next (.taken hc' hfree) ?_
  have hdel : Function.update s.place c' (.acquired s.fresh) c = .deleting := by
    rw [Function.update_of_ne hne.symm, hc]
  refine Breaks.next (.delete hdel) ?_
  refine ⟨[], _, .nil, fun hex => ?_⟩
  have hkept := hex.kept c' s.fresh (Function.update_self ..)
  cases hkept

theorem breaks_of_idle {c c' : C} (hc : s.place c = .deleting) (hc' : s.place c' = .idle)
    (hne : c' ≠ c) : Breaks slot fallback s := by
  cases hstored : s.stored with
  | none => exact breaks_of_free hc hc' hne hstored
  | some t =>
    refine Breaks.next (.expire (t := t)) ?_
    exact breaks_of_free hc hc' hne (if_pos hstored)

/-- After a release that has raised, whatever the other client is doing. -/
theorem breaks_of_deleting {c c' : C} (hc : s.place c = .deleting) (hne : c' ≠ c) :
    Breaks slot fallback s := by
  have hother : ∀ p, Function.update s.place c' p c = .deleting := by
    intro p
    rw [Function.update_of_ne hne.symm, hc]
  cases hc' : s.place c' with
  | idle => exact breaks_of_idle hc hc' hne
  | acquired t =>
    refine Breaks.next (.keep hc') ?_
    exact breaks_of_idle (hother _) (Function.update_self ..) hne
  | deleting =>
    refine Breaks.next (.delete hc') ?_
    exact breaks_of_idle (hother _) (Function.update_self ..) hne
  | releasing t =>
    by_cases hstored : s.stored = some t
    · refine Breaks.next (.unlock hc' hstored) ?_
      exact breaks_of_idle (hother _) (Function.update_self ..) hne
    · refine Breaks.next (.notOwned hc' hstored) ?_
      cases fallback with
      | false => exact breaks_of_idle (hother _) (Function.update_self ..) hne
      | true =>
        have hdel : Function.update s.place c' (raised true) c' = .deleting :=
          Function.update_self ..
        refine Breaks.next (.delete hdel) ?_
        have hc : Function.update (Function.update s.place c' (raised true)) c' .idle c = .deleting :=
          (Function.update_of_ne hne.symm ..).trans (hother _)
        exact breaks_of_idle hc (Function.update_self ..) hne

/-- **After a step that is not clean** some continuation removes the lock of a holder. -/
theorem breaks_of_not_clean [Nontrivial C] {es : List (LockEv C)}
    (h : (lockMachine slot fallback).Run (Clean slot fallback) (lockMachine slot fallback).init es s)
    {e : LockEv C} (hs : (lockMachine slot fallback).step s e = some s')
    (hC : ¬ Clean slot fallback s e) : Breaks slot fallback s' := by
  have hI := lockInv_of_run h
  have hstep : LockStep slot fallback s e s' := lockStep_of_step hs
  cases e with
  | release c =>
    obtain ⟨c₀, hne₀⟩ := exists_ne c
    simp only [Clean, Classical.not_imp, not_and_or, not_forall, not_not] at hC
    obtain ⟨hcreated, hC⟩ := hC
    cases hstep with
    | nothing hc hn => simp [hn] at hcreated
    | @take _ t hc _ ht =>
      -- the token is that of another holder, whose lock the script removes
      rcases hC with ⟨c', hne, hheld, heq⟩ | ⟨-, hnone⟩
      · have hheld' : s.holding c' = some t := heq.symm.trans ht
        refine Breaks.next (.unlock (Function.update_self ..) (hI.kept c' t hheld')) ?_
        refine ⟨[], _, .nil, fun hex => ?_⟩
        have hkept := hex.kept c' t ((Function.update_of_ne hne ..).trans hheld')
        cases hkept
      · simp [ht] at hnone
    | empty hc _ ht =>
      rcases hC with ⟨c', -, hheld, heq⟩ | ⟨hfall, -⟩
      · exact absurd (heq.symm.trans ht) hheld
      · subst hfall
        exact breaks_of_deleting (c := c) (Function.update_self ..) hne₀
  | unlock c =>
    obtain ⟨c₀, hne₀⟩ := exists_ne c
    simp only [Clean, Classical.not_imp, not_forall] at hC
    obtain ⟨rfl, t, ht, hstored⟩ := hC
    cases hstep with
    | @unlock _ t' hc h' =>
      rw [ht] at hc
      cases hc
      exact absurd h' hstored
    | notOwned hc h' => exact breaks_of_deleting (c := c) (Function.update_self ..) hne₀
  | acquire | keep | delete | expire => exact absurd trivial hC

/-! ## Two runs -/

/-- Two clients of the context lock, one after the other, with an `acquire` that is refused. -/
theorem exclusive_in_turn :
    ∃ s, (lockMachine (id : Bool → Bool) true).Run (Clean id true) (lockMachine id true).init
        [.acquire false, .keep false, .acquire true, .release false, .unlock false, .acquire true,
          .keep true] s ∧
      s.holding true ≠ none ∧ Exclusive s := by
  obtain ⟨s, hs, hheld⟩ : ∃ s, (lockMachine (id : Bool → Bool) true).Run (Clean id true)
      (lockMachine id true).init
      [.acquire false, .keep false, .acquire true, .release false, .unlock false, .acquire true,
        .keep true] s ∧ s.holding true ≠ none :=
    Lib.Machine.exists_run (by decide +kernel) (by decide +kernel)
  exact ⟨s, hs, hheld, exclusive_of_clean hs⟩

/-- **The release after a refused `acquire`** raises and deletes the key of the other client, so both
hold the lock. -/
theorem exclusive_broken :
    ∃ s, (lockMachine (id : Bool → Bool) true).Run Lib.Machine.Any (lockMachine id true).init
        [.acquire false, .keep false, .acquire true, .release true, .delete true, .acquire true] s ∧
      ¬ Exclusive s := by
  obtain ⟨s, hs, h1, h2⟩ : ∃ s, (lockMachine (id : Bool → Bool) true).Run Lib.Machine.Any
      (lockMachine id true).init
      [.acquire false, .keep false, .acquire true, .release true, .delete true, .acquire true] s ∧
      (s.holding false ≠ none ∧ s.holding true ≠ none) :=
    Lib.Machine.exists_run (by decide +kernel) (by decide +kernel)
  exact ⟨s, hs, fun hex => Bool.false_ne_true (hex.alone false true h1 h2)⟩

end Locks

end Kvdb
