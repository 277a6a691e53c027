import Kvdb.Lib.Program
import Mathlib.Data.List.Count

/-!
# Two runs of a program

`Relates A G Q x y`: from states that `A` relates, `x` and `y` lead to states that `A` relates and return
what `Q` relates, or raise the same, if both end in a state that is `G`. `G` is a condition that a
later state can only lose (`Keeps (Backwards G)`), so every state on the way has it: a condition on the
steps of a run, read off a log. `foldl_relates` is the rule for two loops whose elements need not come
in the same order: one element matters, and the others leave the relation as it is.
-/

namespace Lib

variable {σ ε α β α' β' : Type}

/-! ## Loops -/

section Loops

variable {A : σ → σ → Prop} {G : σ → Prop} {op op' : σ → α → σ}

theorem good_of_foldl (hback : ∀ s a, G (op s a) → G s) {l : List α} {s : σ}
    (h : G (l.foldl op s)) : G s := by
  induction l generalizing s with
  | nil => exact h
  | cons a l ih => exact hback s a (ih h)

/-- Elements that leave the relation as it is, in the second loop. -/
theorem foldl_relates_right (hback : ∀ t a, G (op' t a) → G t) {l : List α}
    (hr : ∀ a ∈ l, ∀ s t, A s t → G (op' t a) → A s (op' t a)) {s t : σ} (hA : A s t)
    (hG : G (l.foldl op' t)) : A s (l.foldl op' t) := by
  induction l generalizing t with
  | nil => exact hA
  | cons a l ih =>
    have hstep := hr a List.mem_cons_self s t hA (good_of_foldl hback hG)
    exact ih (fun b hb => hr b (List.mem_cons_of_mem _ hb)) hstep hG

/-- **Two loops** in which only `a` matters, and comes equally often. -/
theorem foldl_relates [BEq α] [LawfulBEq α] (hback : ∀ s a, G (op s a) → G s)
    (hback' : ∀ t a, G (op' t a) → G t) {a : α} {l l' : List α}
    (hop : ∀ s t, A s t → G (op s a) → G (op' t a) → A (op s a) (op' t a))
    (hl : ∀ b ∈ l, b ≠ a → ∀ s t, A s t → G (op s b) → A (op s b) t)
    (hr : ∀ b ∈ l', b ≠ a → ∀ s t, A s t → G (op' t b) → A s (op' t b))
    (hcount : l.count a = l'.count a) {s t : σ} (hA : A s t) (hG : G (l.foldl op s))
    (hG' : G (l'.foldl op' t)) : A (l.foldl op s) (l'.foldl op' t) := by
  induction l generalizing s t l' with
  | nil =>
    have hno : ∀ b ∈ l', b ≠ a := by
      intro b hb hba
      subst hba
      exact absurd hcount.symm (Nat.ne_of_gt (List.count_pos_iff.2 hb))
    exact foldl_relates_right hback' (fun b hb => hr b hb (hno b hb)) hA hG'
  | cons b l ih =>
    have hl' : ∀ c ∈ l, c ≠ a → ∀ s t, A s t → G (op s c) → A (op s c) t :=
      fun c hc => hl c (List.mem_cons_of_mem _ hc)
    by_cases hb : b = a
    · subst hb
      rw [List.count_cons_self] at hcount
      induction l' generalizing t with
      | nil => simp at hcount
      | cons c l' ih' =>
        have hr' : ∀ d ∈ l', d ≠ b → ∀ s t, A s t → G (op' t d) → A s (op' t d) :=
          fun d hd => hr d (List.mem_cons_of_mem _ hd)
        by_cases hc : c = b
        · subst hc
          rw [List.count_cons_self, Nat.succ_inj] at hcount
          exact ih hl' hr' hcount
            (hop s t hA (good_of_foldl hback hG) (good_of_foldl hback' hG')) hG hG'
        · rw [List.count_cons_of_ne hc] at hcount
          have hstep := hr c List.mem_cons_self hc s t hA (good_of_foldl hback' hG')
          exact ih' hstep hG' hr' hcount
    · rw [List.count_cons_of_ne hb] at hcount
      exact ih hl' hr hcount (hl b List.mem_cons_self hb s t hA (good_of_foldl hback hG)) hG hG'

end Loops

namespace Program

/-- What is good after a step was good before it. -/
def Backwards (G : σ → Prop) (s t : σ) : Prop := G t → G s

instance (G : σ → Prop) : Std.Refl (Backwards G) := ⟨fun _ => id⟩

instance (G : σ → Prop) : IsTrans σ (Backwards G) := ⟨fun _ _ _ h h' => h ∘ h'⟩

/-- What was good before a step is good after it. -/
def Forwards (G : σ → Prop) (s t : σ) : Prop := G s → G t

instance (G : σ → Prop) : Std.Refl (Forwards G) := ⟨fun _ => id⟩

instance (G : σ → Prop) : IsTrans σ (Forwards G) := ⟨fun _ _ _ h h' => h' ∘ h⟩

theorem Keeps.act {I : σ → σ → Prop} {f : σ → α × σ} (h : ∀ s, I s (f s).2) :
    Keeps I (act f : Program σ ε α) := h

theorem Keeps.forM {I : σ → σ → Prop} [Std.Refl I] [IsTrans σ I] {f : α → Program σ ε Unit}
    {l : List α} (h : ∀ a ∈ l, Keeps I (f a)) : Keeps I (l.forM f) := by
  induction l with
  | nil => exact Keeps.pure ()
  | cons a l ih =>
    exact Keeps.bind (h a List.mem_cons_self) fun _ => ih fun b hb => h b (List.mem_cons_of_mem _ hb)

/-- Two results. -/
def SameResult (Q : α → β → Prop) : Except ε α → Except ε β → Prop
  | .ok a, .ok b => Q a b
  | .error e, .error e' => e = e'
  | _, _ => False

/-- Two programs, from states that are related to states that are related. -/
def Relates (A : σ → σ → Prop) (G : σ → Prop) (Q : α → β → Prop) (x : Program σ ε α)
    (y : Program σ ε β) : Prop :=
  ∀ s t, A s t → G (x s).2 → G (y t).2 → SameResult Q (x s).1 (y t).1 ∧ A (x s).2 (y t).2

namespace Relates

variable {A : σ → σ → Prop} {G : σ → Prop} {Q : α → β → Prop} {Q' : α' → β' → Prop}
  {x : Program σ ε α} {y : Program σ ε β} {f : α → Program σ ε α'} {g : β → Program σ ε β'}

theorem act {f : σ → α × σ} {g : σ → β × σ}
    (h : ∀ s t, A s t → G (f s).2 → G (g t).2 → Q (f s).1 (g t).1 ∧ A (f s).2 (g t).2) :
    Relates A G Q (act f : Program σ ε α) (act g) := h

theorem bind (hx : Relates A G Q x y) (hf : ∀ a b, Q a b → Relates A G Q' (f a) (g b))
    (hbf : ∀ a, Keeps (Backwards G) (f a)) (hbg : ∀ b, Keeps (Backwards G) (g b)) :
    Relates A G Q' (x >>= f) (y >>= g) := by
  intro s t hA hG hG'
  have hxy := hx s t hA
  rcases hs : x s with ⟨e | a, s'⟩
  · rw [bind_of_error hs] at hG ⊢
    rcases ht : y t with ⟨e' | b, t'⟩
    · rw [bind_of_error ht] at hG' ⊢
      rw [hs, ht] at hxy
      exact hxy hG hG'
    · rw [bind_of_ok ht] at hG'
      rw [hs, ht] at hxy
      exact absurd (hxy hG (hbg b t' hG')).1 id
  · rw [bind_of_ok hs] at hG ⊢
    rcases ht : y t with ⟨e' | b, t'⟩
    · rw [bind_of_error ht] at hG'
      rw [hs, ht] at hxy
      exact absurd (hxy (hbf a s' hG) hG').1 id
    · rw [bind_of_ok ht] at hG' ⊢
      rw [hs, ht] at hxy
      obtain ⟨hQ, hA'⟩ := hxy (hbf a s' hG) (hbg b t' hG')
      exact hf a b hQ s' t' hA' hG hG'

/-- The same loop. -/
theorem forM {f g : α → Program σ ε Unit}
    (hbf : ∀ a, Keeps (Backwards G) (f a)) (hbg : ∀ a, Keeps (Backwards G) (g a)) {l : List α}
    (h : ∀ a ∈ l, Relates A G (fun _ _ => True) (f a) (g a)) :
    Relates A G (fun _ _ => True) (l.forM f) (l.forM g) := by
  induction l with
  | nil => exact fun s t hA _ _ => ⟨trivial, hA⟩
  | cons a l ih =>
    have hl : ∀ b ∈ l, Relates A G (fun _ _ => True) (f b) (g b) :=
      fun b hb => h b (List.mem_cons_of_mem _ hb)
    exact bind (h a List.mem_cons_self) (fun _ _ _ => ih hl) (fun _ => Keeps.forM fun b _ => hbf b)
      fun _ => Keeps.forM fun b _ => hbg b

end Relates

end Program

end Lib
