import Mathlib.Data.List.Basic

/-!
# Machines and their runs

`Machine σ α`: an initial state and a partial step on actions. `M.Run C s as t`: the actions `as`
lead from `s` to `t`, every step within the condition `C` (on the state before the step and the
action). Runs are built at the end, so that a run from a fixed state is an induction with the last
step in hand (`Run.inv`).

* `exec` computes a run; `run_of_exec` turns a computed run into a `Run`.
* `M.observe g₀ obs` is `M` with a history component `γ` that every step updates; a run of it is a
  run of `M` (`Run.forget`), and every run of `M` has one (`Run.observe`).
* `Simulates f g`: every step of `M` is a step of `N` under the state map `f` and the action map
  `g`; runs are carried over (`Simulates.run`).
-/

namespace Lib

/-- A function that was changed at one place. -/
theorem update_cases {α β : Type*} [DecidableEq α] {f : α → β} {a b : α} {v w : β}
    (h : Function.update f a v b = w) : b = a ∧ v = w ∨ b ≠ a ∧ f b = w := by
  by_cases hb : b = a
  · subst hb
    exact .inl ⟨rfl, (Function.update_self ..).symm.trans h⟩
  · exact .inr ⟨hb, (Function.update_of_ne hb ..).symm.trans h⟩

/-- An initial state and a partial step on actions. -/
structure Machine (σ α : Type*) where
  init : σ
  step : σ → α → Option σ

namespace Machine

variable {σ τ α β γ : Type*}

/-- Execute the actions; `none` if one of them is not enabled. -/
def exec (M : Machine σ α) : σ → List α → Option σ
  | s, [] => some s
  | s, a :: as => (M.step s a).bind fun t => exec M t as

/-- The actions `as` lead from `s` to `t`, every step within `C`. -/
inductive Run (M : Machine σ α) (C : σ → α → Prop) (s : σ) : List α → σ → Prop
  | nil : Run M C s [] s
  | snoc {as : List α} {t u : σ} {a : α} :
      Run M C s as t → C t a → M.step t a = some u → Run M C s (as ++ [a]) u

/-- `C` restricts nothing. -/
def Any : σ → α → Prop := fun _ _ => True

instance (s : σ) (a : α) : Decidable (Any s a) := .isTrue trivial

namespace Run

variable {M : Machine σ α} {C C' : σ → α → Prop} {s t u : σ} {as bs : List α}

/-- Another condition, if the run so far (which is one within both) is enough for it. -/
theorem imp (h : M.Run C s as t)
    (hC : ∀ {bs u b v}, M.Run C s bs u → M.Run C' s bs u → C u b → M.step u b = some v → C' u b) :
    M.Run C' s as t := by
  induction h with
  | nil => exact .nil
  | snoc hr hc hs ih => exact .snoc ih (hC hr ih hc hs) hs

theorem mono (h : M.Run C s as t) (hC : ∀ s a, C s a → C' s a) : M.Run C' s as t :=
  h.imp fun _ _ hc _ => hC _ _ hc

theorem append (h1 : M.Run C s as t) (h2 : M.Run C t bs u) : M.Run C s (as ++ bs) u := by
  induction h2 with
  | nil => simpa using h1
  | snoc _ hc hs ih => rw [← List.append_assoc]; exact .snoc ih hc hs

theorem single {a : α} (hc : C s a) (hs : M.step s a = some t) : M.Run C s [a] t :=
  .snoc .nil hc hs

/-- **The invariant rule**: what holds at the start and is kept by every step within `C` holds
after every run within `C`. -/
theorem inv (I : σ → Prop) (h0 : I s)
    (hstep : ∀ t a u, I t → C t a → M.step t a = some u → I u) (h : M.Run C s as t) : I t := by
  induction h with
  | nil => exact h0
  | snoc _ hc hs ih => exact hstep _ _ _ ih hc hs

end Run

/-- All steps of the computed run of `as` from `s` are within `C`. -/
def Meets (M : Machine σ α) (C : σ → α → Prop) : σ → List α → Prop
  | _, [] => True
  | s, a :: as => C s a ∧ ((M.step s a).elim True fun t => Meets M C t as)

instance Meets.decidable (M : Machine σ α) (C : σ → α → Prop) [∀ s a, Decidable (C s a)] :
    ∀ (s : σ) (as : List α), Decidable (M.Meets C s as)
  | _, [] => .isTrue trivial
  | s, a :: as =>
    match h : M.step s a with
    | none => decidable_of_iff (C s a) (by simp [Meets, h])
    | some t =>
      have := Meets.decidable M C t as
      decidable_of_iff (C s a ∧ M.Meets C t as) (by simp [Meets, h])

/-- A computed run is a run. -/
theorem run_of_exec {M : Machine σ α} {C : σ → α → Prop} :
    ∀ {as : List α} {s t : σ}, M.exec s as = some t → M.Meets C s as → M.Run C s as t
  | [], _, _, h, _ => by cases h; exact .nil
  | a :: as, s, t, h, hC => by
    obtain ⟨u, hu, ht⟩ := Option.bind_eq_some_iff.1 h
    have hrest : M.Meets C u as := by simpa [Meets, hu] using hC.2
    exact (Run.single hC.1 hu).append (run_of_exec ht hrest)

/-- A computed run to a state with the property `P`. -/
theorem exists_run {M : Machine σ α} {C : σ → α → Prop} {P : σ → Prop} {as : List α} {s : σ}
    (h : ∃ t ∈ M.exec s as, P t) (hC : M.Meets C s as) : ∃ t, M.Run C s as t ∧ P t := by
  obtain ⟨t, ht, hP⟩ := h
  exact ⟨t, run_of_exec ht hC, hP⟩

/-! ## Histories -/

/-- `M` with a history component that every step updates. -/
def observe (M : Machine σ α) (g₀ : γ) (obs : γ → σ → α → γ) : Machine (σ × γ) α where
  init := (M.init, g₀)
  step p a := (M.step p.1 a).map fun t => (t, obs p.2 p.1 a)

theorem observe_step {M : Machine σ α} {g₀ : γ} {obs : γ → σ → α → γ} {p q : σ × γ} {a : α} :
    (M.observe g₀ obs).step p a = some q ↔ M.step p.1 a = some q.1 ∧ q.2 = obs p.2 p.1 a := by
  obtain ⟨t, g⟩ := q
  simp only [observe, Option.map_eq_some_iff, Prod.mk.injEq]
  constructor
  · rintro ⟨u, hu, rfl, rfl⟩; exact ⟨hu, rfl⟩
  · rintro ⟨hu, rfl⟩; exact ⟨t, hu, rfl, rfl⟩

/-- A run with a history is a run. -/
theorem Run.forget {M : Machine σ α} {g₀ : γ} {obs : γ → σ → α → γ} {C : σ × γ → α → Prop}
    {C' : σ → α → Prop} (hC : ∀ p a, C p a → C' p.1 a) {p q : σ × γ} {as : List α}
    (h : (M.observe g₀ obs).Run C p as q) : M.Run C' p.1 as q.1 := by
  induction h with
  | nil => exact .nil
  | snoc _ hc hs ih => exact .snoc ih (hC _ _ hc) (observe_step.1 hs).1

/-- Every run has its history. -/
theorem Run.observe {M : Machine σ α} {C : σ → α → Prop} {s t : σ} {as : List α}
    (h : M.Run C s as t) (g₀ : γ) (obs : γ → σ → α → γ) :
    ∃ g, (M.observe g₀ obs).Run (fun p a => C p.1 a) (s, g₀) as (t, g) := by
  induction h with
  | nil => exact ⟨g₀, .nil⟩
  | snoc _ hc hs ih =>
    obtain ⟨g, hg⟩ := ih
    exact ⟨obs g _ _, .snoc hg hc (observe_step.2 ⟨hs, rfl⟩)⟩

/-! ## Simulation -/

/-- Every step of `M` is a step of `N` under the state map `f` and the action map `g`. -/
structure Simulates (M : Machine σ α) (N : Machine τ β) (f : σ → τ) (g : σ → α → β) : Prop where
  init : f M.init = N.init
  step : ∀ s a t, M.step s a = some t → N.step (f s) (g s a) = some (f t)

/-- A run of `M` is a run of `N`. -/
theorem Simulates.run {M : Machine σ α} {N : Machine τ β} {f : σ → τ} {g : σ → α → β}
    (h : Simulates M N f g) {C : σ → α → Prop} {D : τ → β → Prop}
    (hC : ∀ s a, C s a → D (f s) (g s a)) {s t : σ} {as : List α} (hr : M.Run C s as t) :
    ∃ bs, N.Run D (f s) bs (f t) := by
  induction hr with
  | nil => exact ⟨[], .nil⟩
  | snoc _ hc hs ih =>
    obtain ⟨bs, hb⟩ := ih
    exact ⟨bs ++ [_], .snoc hb (hC _ _ hc) (h.step _ _ _ hs)⟩

end Machine

end Lib
