import Kvdb.Lib.TwoRuns
import Kvdb.Tasks.Partials

/-!
# Two states that agree on a method of a class

For a class `T` and a method `m` of it, `Agree` relates two states in which the dictionaries of the
classes that `T` inherits from are the same for `m` and for `cls`, and so is all that does not depend on
keyword arguments (`outline`). `Clean` says that no write has changed one of these dictionaries but for
a class that `T` inherits from, and none has changed the class-level dictionary of `T` while another
method was registered. Here is what each step of the compilation does to them.
-/

namespace Kvdb.TaskPartials

open Lib Python

variable {V : Type}

/-- `T` and the classes it inherits from. -/
inductive Inherits (H : Classes V) (T : String) : String → Prop
  | self : Inherits H T T
  | base {cls base : String} : Inherits H T cls → base ∈ H.bases cls → Inherits H T base

/-- The keys that matter for `m`. -/
def Key (m k : String) : Prop := k = m ∨ k = "cls"

/-- What does not depend on keyword arguments. -/
structure Outline where
  registered : List String
  functions : String → List String
  registeredFunctions : String → Option (List String)
  compiled : Bool
  bound : Bool
  initialized : List (String × String)

def State.outline (s : State V) : Outline :=
  ⟨s.registered, s.functions, s.registeredFunctions, s.compiled, s.bound, s.initialized⟩

/-- The registrations of `m` in `T`. -/
def State.registrationsOf (s : State V) (T m : String) : List (Registration V) :=
  s.registrations.filter fun r => r.cls = T ∧ r.func = m

section Relations

variable (H : Classes V) (T m k : String)

/-- The same dictionaries under `k`. -/
structure AgreeAt (s t : State V) : Prop where
  partials : ∀ cls, Inherits H T cls → (s.partials cls).get? k = (t.partials cls).get? k
  heap : ∀ cls, Inherits H T cls → s.heap (cls, k) = t.heap (cls, k)
  classPartials : s.classPartials T k = t.classPartials T k

/-- A dictionary was made for the key it is held under, and those that `T` inherits for a class it
inherits from. -/
def Owned (s : State V) : Prop :=
  ∀ cls k r, (s.partials cls).get? k = some r →
    r.2 = k ∧ (Inherits H T cls → Inherits H T r.1)

structure Agree (s t : State V) : Prop where
  outline : s.outline = t.outline
  registrations : s.registrationsOf T m = t.registrationsOf T m
  parts : ∀ k, Key m k → AgreeAt H T k s t
  left : Owned H T s
  right : Owned H T t

/-- No write of another class has changed a dictionary that counts, nor has another method. -/
structure Clean (s : State V) : Prop where
  writes : ∀ w ∈ s.writes, ¬ Inherits H T w.writer → Inherits H T w.ref.1 → Key m w.ref.2 →
    w.after = w.before
  clsWrites : ∀ w ∈ s.clsWrites, w.cls = T → w.func ≠ m → w.after = w.before

/-- What is noted is added to what there is. -/
structure Noted (s t : State V) : Prop where
  writes : s.writes <+: t.writes
  clsWrites : s.clsWrites <+: t.clsWrites

/-- A step of the compilation: only dictionaries change. -/
structure Still (s t : State V) : Prop extends Noted s t where
  outline : t.outline = s.outline
  registrations : t.registrations = s.registrations

end Relations

variable {H : Classes V} {T m k cls : String} {s t u : State V}

instance : Std.Refl (Noted (V := V)) := ⟨fun _ => ⟨List.prefix_rfl, List.prefix_rfl⟩⟩

instance : IsTrans (State V) Noted :=
  ⟨fun _ _ _ h h' => ⟨h.writes.trans h'.writes, h.clsWrites.trans h'.clsWrites⟩⟩

theorem noted_foldl {α : Type} {op : State V → α → State V} (h : ∀ s a, Noted s (op s a))
    (l : List α) (s : State V) : Noted s (l.foldl op s) :=
  List.foldlRecOn l op (Std.Refl.refl s) fun _ hs a _ => IsTrans.trans _ _ _ hs (h _ a)

namespace Still

theorem refl (s : State V) : Still s s := ⟨Std.Refl.refl s, rfl, rfl⟩

theorem trans (h : Still s t) (h' : Still t u) : Still s u :=
  ⟨IsTrans.trans _ _ _ h.toNoted h'.toNoted, h'.outline.trans h.outline,
    h'.registrations.trans h.registrations⟩

theorem foldl {α : Type} {op : State V → α → State V} (h : ∀ s a, Still s (op s a)) (l : List α)
    (s : State V) : Still s (l.foldl op s) := by
  induction l generalizing s with
  | nil => exact refl s
  | cons a l ih => exact (h s a).trans (ih _)

end Still

/-- What was noted before was clean. -/
theorem Clean.of_noted (h : Clean H T m t) (hn : Noted s t) : Clean H T m s :=
  ⟨fun w hm => h.writes w (hn.writes.subset hm), fun w hm => h.clsWrites w (hn.clsWrites.subset hm)⟩

namespace AgreeAt

theorem refl (s : State V) : AgreeAt H T k s s := ⟨fun _ _ => rfl, fun _ _ => rfl, rfl⟩

theorem symm (h : AgreeAt H T k s t) : AgreeAt H T k t s :=
  ⟨fun c hc => (h.partials c hc).symm, fun c hc => (h.heap c hc).symm, h.classPartials.symm⟩

theorem trans (h : AgreeAt H T k s t) (h' : AgreeAt H T k t u) : AgreeAt H T k s u :=
  ⟨fun c hc => (h.partials c hc).trans (h'.partials c hc),
    fun c hc => (h.heap c hc).trans (h'.heap c hc), h.classPartials.trans h'.classPartials⟩

end AgreeAt

/-! ## The operations on dictionaries -/

section Operations

variable {k' : String} {r : Ref} {kwargs kwargs' : Kwargs V}

theorem still_write (s : State V) (cls : String) (r : Ref) (kwargs : Kwargs V) :
    Still s (s.write cls r kwargs) :=
  ⟨⟨List.prefix_append _ _, List.prefix_rfl⟩, rfl, rfl⟩

theorem still_point (s : State V) (cls k : String) (r : Ref) : Still s (s.point cls k r) :=
  ⟨⟨List.prefix_rfl, List.prefix_rfl⟩, rfl, rfl⟩

theorem still_create (s : State V) (cls k : String) (kwargs : Kwargs V) :
    Still s (s.create cls k kwargs) :=
  ⟨⟨List.prefix_rfl, List.prefix_rfl⟩, rfl, rfl⟩

theorem still_popPartials (s : State V) (cls k : String) : Still s (s.popPartials cls k) :=
  ⟨⟨List.prefix_rfl, List.prefix_rfl⟩, rfl, rfl⟩

theorem still_addPartials (s : State V) (cls k : String) (kwargs : Kwargs V) :
    Still s (s.addPartials cls k kwargs) := by
  unfold State.addPartials
  split
  · exact Still.refl s
  · exact ⟨⟨List.prefix_rfl, List.prefix_rfl⟩, rfl, rfl⟩

theorem still_give (s : State V) (cls k : String) (kwargs : Kwargs V) :
    Still s (s.give cls k kwargs) := by
  unfold State.give
  split
  · exact Still.refl s
  · split
    · exact still_write ..
    · exact still_create ..

/-- A write that counts changes nothing, or is for another key. -/
theorem agreeAt_write (h : r.2 = k → Inherits H T r.1 → kwargs = s.heap r) :
    AgreeAt H T k s (s.write cls r kwargs) := by
  refine ⟨fun _ _ => rfl, fun c hc => ?_, rfl⟩
  show _ = Function.update s.heap r kwargs (c, k)
  by_cases hr : (c, k) = r
  · subst hr
    rw [Function.update_self, h rfl hc]
  · rw [Function.update_of_ne hr]

theorem AgreeAt.write (h : AgreeAt H T k s t) :
    AgreeAt H T k (s.write cls r kwargs) (t.write cls r kwargs) := by
  refine ⟨h.partials, fun c hc => ?_, h.classPartials⟩
  show Function.update s.heap r kwargs (c, k) = Function.update t.heap r kwargs (c, k)
  by_cases hr : (c, k) = r
  · rw [hr, Function.update_self, Function.update_self]
  · rw [Function.update_of_ne hr, Function.update_of_ne hr]
    exact h.heap c hc

theorem get?_point (s : State V) (cls k' c k : String) (r : Ref) :
    ((s.point cls k' r).partials c).get? k =
      if c = cls ∧ k = k' then some r else (s.partials c).get? k := by
  show (Function.update s.partials cls ((s.partials cls).setItem k' r) c).get? k = _
  by_cases hc : c = cls
  · subst hc
    rw [Function.update_self, Dict.get?_setItem]
    simp
  · rw [Function.update_of_ne hc, if_neg fun h => hc h.1]

theorem agreeAt_point (h : Inherits H T cls → k' ≠ k) : AgreeAt H T k s (s.point cls k' r) := by
  refine ⟨fun c hc => ?_, fun _ _ => rfl, rfl⟩
  rw [get?_point, if_neg]
  intro hw
  obtain ⟨rfl, rfl⟩ := hw
  exact h hc rfl

theorem AgreeAt.point (h : AgreeAt H T k s t) :
    AgreeAt H T k (s.point cls k' r) (t.point cls k' r) := by
  refine ⟨fun c hc => ?_, h.heap, h.classPartials⟩
  rw [get?_point, get?_point, h.partials c hc]

theorem agreeAt_create (h : Inherits H T cls → k' ≠ k) :
    AgreeAt H T k s (s.create cls k' kwargs) := by
  refine ⟨(agreeAt_point h).partials, fun c hc => ?_, rfl⟩
  show _ = Function.update s.heap (cls, k') kwargs (c, k)
  rw [Function.update_of_ne]
  intro hw
  obtain ⟨rfl, rfl⟩ := Prod.mk.inj hw
  exact h hc rfl

theorem AgreeAt.create (h : AgreeAt H T k s t) :
    AgreeAt H T k (s.create cls k' kwargs) (t.create cls k' kwargs) := by
  have hw : AgreeAt H T k (s.write cls (cls, k') kwargs) (t.write cls (cls, k') kwargs) := h.write
  exact ⟨h.point.partials, hw.heap, h.classPartials⟩

theorem get?_popPartials (s : State V) (cls k' c k : String) :
    ((s.popPartials cls k').partials c).get? k =
      if c = cls ∧ k = k' then none else (s.partials c).get? k := by
  show (Function.update s.partials cls ((s.partials cls).pop k') c).get? k = _
  by_cases hc : c = cls
  · subst hc
    rw [Function.update_self, Dict.get?_pop]
    simp
  · rw [Function.update_of_ne hc, if_neg fun h => hc h.1]

theorem AgreeAt.popPartials (h : AgreeAt H T k s t) :
    AgreeAt H T k (s.popPartials cls k') (t.popPartials cls k') := by
  refine ⟨fun c hc => ?_, h.heap, h.classPartials⟩
  rw [get?_popPartials, get?_popPartials, h.partials c hc]

theorem setClassPartials_apply (s : State V) (cls k' c k : String) (kwargs : Kwargs V) :
    (s.setClassPartials cls k' kwargs).classPartials c k =
      if c = cls ∧ k = k' then some kwargs else s.classPartials c k := by
  show Function.update s.classPartials cls _ c k = _
  by_cases hc : c = cls
  · subst hc
    rw [Function.update_self, Function.update_apply]
    simp
  · rw [Function.update_of_ne hc, if_neg fun h => hc h.1]

theorem agreeAt_addPartials (h : cls = T → k' ≠ k) :
    AgreeAt H T k s (s.addPartials cls k' kwargs) := by
  unfold State.addPartials
  split
  · exact AgreeAt.refl s
  · refine ⟨fun _ _ => rfl, fun _ _ => rfl, ?_⟩
    rw [setClassPartials_apply, if_neg]
    intro hw
    obtain ⟨rfl, rfl⟩ := hw
    exact h rfl rfl

theorem AgreeAt.addPartials (h : AgreeAt H T k s t) (hk : cls = T → k' = k → kwargs = kwargs') :
    AgreeAt H T k (s.addPartials cls k' kwargs) (t.addPartials cls k' kwargs') := by
  by_cases hw : cls = T ∧ k' = k
  · obtain ⟨rfl, rfl⟩ := hw
    obtain rfl := hk rfl rfl
    unfold State.addPartials
    rw [h.classPartials]
    split
    · exact h
    · refine ⟨h.partials, h.heap, ?_⟩
      rw [setClassPartials_apply, setClassPartials_apply, if_pos ⟨rfl, rfl⟩, if_pos ⟨rfl, rfl⟩]
  · rw [not_and] at hw
    exact (agreeAt_addPartials hw).symm.trans (h.trans (agreeAt_addPartials hw))

/-- What a class that `T` inherits from holds. -/
theorem AgreeAt.held (h : AgreeAt H T k s t) (ho : Owned H T s) (hc : Inherits H T cls) :
    s.held cls k = t.held cls k := by
  unfold State.held
  rw [← h.partials cls hc]
  cases hr : (s.partials cls).get? k with
  | none => rfl
  | some r =>
    obtain ⟨hk, hi⟩ := ho cls k r hr
    obtain ⟨c, k'⟩ := r
    obtain rfl : k' = k := hk
    exact h.heap c (hi hc)

theorem Owned.of_partials (h : Owned H T s) (hp : t.partials = s.partials) : Owned H T t := by
  unfold Owned
  rwa [hp]

theorem Owned.addPartials (h : Owned H T s) : Owned H T (s.addPartials cls k kwargs) := by
  refine h.of_partials ?_
  unfold State.addPartials
  split <;> rfl

theorem Owned.point (h : Owned H T s) (hr : r.2 = k ∧ (Inherits H T cls → Inherits H T r.1)) :
    Owned H T (s.point cls k r) := by
  intro c k' r' hr'
  rw [get?_point] at hr'
  split at hr'
  · rename_i hw
    obtain ⟨rfl, rfl⟩ := hw
    obtain rfl := Option.some.inj hr'
    exact hr
  · exact h c k' r' hr'

theorem Owned.create (h : Owned H T s) : Owned H T (s.create cls k kwargs) :=
  (h.point ⟨rfl, id⟩ : Owned H T (s.point cls k (cls, k))).of_partials rfl

theorem Owned.popPartials (h : Owned H T s) : Owned H T (s.popPartials cls k) := by
  intro c k' r' hr'
  rw [get?_popPartials] at hr'
  split at hr'
  · cases hr'
  · exact h c k' r' hr'

theorem Owned.give (h : Owned H T s) : Owned H T (s.give cls k kwargs) := by
  unfold State.give
  split
  · exact h
  · split
    · exact h.of_partials rfl
    · exact h.create

/-- The last write is clean. -/
theorem Clean.eq_of_write (h : Clean H T m (s.write cls r kwargs)) (hc : ¬ Inherits H T cls)
    (hr : Inherits H T r.1) (hk : Key m r.2) : kwargs = s.heap r :=
  h.writes ⟨cls, r, s.heap r, kwargs⟩ (List.mem_append_right _ (List.mem_singleton.2 rfl)) hc hr hk

end Operations

/-! ## What a subclass inherits -/

section Inherit

variable {p : String × Ref} {subcls : String}

theorem still_inheritOne (H : Classes V) (subcls : String) (s : State V) (p : String × Ref) :
    Still s (inheritOne H subcls s p) := by
  unfold inheritOne
  split
  · split
    · exact still_write ..
    · exact still_create ..
  · exact still_point ..

theorem Owned.inheritOne (h : Owned H T s)
    (hp : p.2.2 = p.1 ∧ (Inherits H T subcls → Inherits H T p.2.1)) :
    Owned H T (inheritOne H subcls s p) := by
  unfold TaskPartials.inheritOne
  split
  · split
    · exact h.of_partials rfl
    · exact h.create
  · exact h.point hp

/-- Another key, or a class that does not count. -/
theorem agreeAt_inheritOne (ho : Owned H T s) (hk : Key m k)
    (hp : p.1 = k → ¬ Inherits H T subcls) (hc : Clean H T m (inheritOne H subcls s p)) :
    AgreeAt H T k s (inheritOne H subcls s p) := by
  unfold inheritOne at hc ⊢
  split
  · rename_i hn
    rw [if_pos hn] at hc
    cases hr : (s.partials subcls).get? p.1 with
    | some r =>
      rw [hr] at hc
      refine agreeAt_write fun hrk hri => hc.eq_of_write (hp ?_) hri (hrk ▸ hk)
      exact (ho _ _ r hr).1.symm.trans hrk
    | none => exact agreeAt_create fun hi he => hp he hi
  · exact agreeAt_point fun hi he => hp he hi

/-- The key that counts, of a class that does. -/
theorem AgreeAt.inheritOne (h : AgreeAt H T k s t) (ho : Owned H T s) (hs : Inherits H T subcls)
    {c : String} (hc : Inherits H T c) :
    AgreeAt H T k (inheritOne H subcls s (k, (c, k))) (inheritOne H subcls t (k, (c, k))) := by
  unfold TaskPartials.inheritOne
  simp only
  rw [← h.heap c hc, ← h.partials subcls hs]
  split
  · cases hr : (s.partials subcls).get? k with
    | some r =>
      obtain ⟨c', k'⟩ := r
      obtain ⟨hk', hi⟩ := ho _ _ _ hr
      obtain rfl : k' = k := hk'
      simp only
      rw [← h.heap c' (hi hs)]
      exact h.write
    | none => exact h.create
  · exact h.point

/-- The partials of the parent that a subclass takes. -/
def taken (clsKwargs : Kwargs V) (parent : String) (s : State V) : Dict String Ref :=
  (s.partials parent).filter fun p => (clsKwargs.get? p.1).isNone

theorem get?_taken (clsKwargs : Kwargs V) (parent : String) (s : State V) (k : String) :
    (taken clsKwargs parent s).get? k =
      if (clsKwargs.get? k).isNone then (s.partials parent).get? k else none :=
  Dict.get?_filter_key _ (fun k => (clsKwargs.get? k).isNone) k

theorem owned_taken (ho : Owned H T s) {clsKwargs : Kwargs V} {parent : String}
    (hpar : Inherits H T subcls → Inherits H T parent)
    (hp : p ∈ (taken clsKwargs parent s).items) :
    p.2.2 = p.1 ∧ (Inherits H T subcls → Inherits H T p.2.1) := by
  have hget := Dict.mem_items.1 (show (p.1, p.2) ∈ (taken clsKwargs parent s).items from hp)
  rw [get?_taken] at hget
  split at hget
  · obtain ⟨hk, hi⟩ := ho _ _ _ hget
    exact ⟨hk, fun hs => hi (hpar hs)⟩
  · cases hget

theorem owned_foldl_inheritOne {l : List (String × Ref)} (ho : Owned H T s)
    (hl : ∀ p ∈ l, p.2.2 = p.1 ∧ (Inherits H T subcls → Inherits H T p.2.1)) :
    Owned H T (l.foldl (inheritOne H subcls) s) :=
  List.foldlRecOn l _ ho fun _ h p hp => h.inheritOne (hl p hp)

theorem clean_back_inheritOne (s : State V) (p : String × Ref)
    (h : Clean H T m (inheritOne H subcls s p)) : Clean H T m s :=
  h.of_noted (still_inheritOne H subcls s p).toNoted

/-- The items of a class that does not count, or of other keys. -/
theorem agreeAt_foldl_inheritOne (hk : Key m k) {l : List (String × Ref)} (ho : Owned H T s)
    (hl : ∀ p ∈ l, p.2.2 = p.1 ∧ (Inherits H T subcls → Inherits H T p.2.1))
    (hq : ∀ p ∈ l, p.1 = k → ¬ Inherits H T subcls)
    (hc : Clean H T m (l.foldl (inheritOne H subcls) s)) :
    AgreeAt H T k s (l.foldl (inheritOne H subcls) s) := by
  have h : AgreeAt H T k s (l.foldl (inheritOne H subcls) s) ∧
      Owned H T (l.foldl (inheritOne H subcls) s) := by
    refine foldl_relates_right (A := fun s t => AgreeAt H T k s t ∧ Owned H T t)
      clean_back_inheritOne (fun p hp s t h hc => ⟨?_, h.2.inheritOne (hl p hp)⟩)
      ⟨AgreeAt.refl s, ho⟩ hc
    exact h.1.trans (agreeAt_inheritOne h.2 hk (hq p hp) hc)
  exact h.1

theorem Inherits.parent (h : Inherits H T cls) {parent : String}
    (hp : H.lastParent cls = some parent) : Inherits H T parent :=
  h.base (List.mem_of_mem_head? hp)

/-- The items of a class that counts. -/
theorem AgreeAt.foldl_inheritOne (h : AgreeAt H T k s t) (hk : Key m k) (hs : Owned H T s)
    (ht : Owned H T t) (hsub : Inherits H T subcls) {d d' : Dict String Ref}
    (hget : d.get? k = d'.get? k)
    (hd : ∀ p ∈ d.items, p.2.2 = p.1 ∧ (Inherits H T subcls → Inherits H T p.2.1))
    (hd' : ∀ p ∈ d'.items, p.2.2 = p.1 ∧ (Inherits H T subcls → Inherits H T p.2.1))
    (hc : Clean H T m (d.items.foldl (TaskPartials.inheritOne H subcls) s))
    (hc' : Clean H T m (d'.items.foldl (TaskPartials.inheritOne H subcls) t)) :
    AgreeAt H T k (d.items.foldl (TaskPartials.inheritOne H subcls) s)
      (d'.items.foldl (TaskPartials.inheritOne H subcls) t) := by
  cases hr : d.get? k with
  | none =>
    -- no item of either has the key
    have hno : ∀ p ∈ d.items, p.1 = k → ¬ Inherits H T subcls := by
      intro p hp he
      rw [← he, Dict.mem_items.1 (show (p.1, p.2) ∈ d.items from hp)] at hr
      cases hr
    have hno' : ∀ p ∈ d'.items, p.1 = k → ¬ Inherits H T subcls := by
      intro p hp he
      rw [hget, ← he, Dict.mem_items.1 (show (p.1, p.2) ∈ d'.items from hp)] at hr
      cases hr
    exact (agreeAt_foldl_inheritOne hk hs hd hno hc).symm.trans
      (h.trans (agreeAt_foldl_inheritOne hk ht hd' hno' hc'))
  | some r =>
    have hmem := Dict.mem_items.2 hr
    have hmem' := Dict.mem_items.2 (hget.symm.trans hr)
    obtain ⟨c, k'⟩ := r
    obtain ⟨hk', hi⟩ := hd _ hmem
    have hcls := hi hsub
    obtain rfl : k' = k := hk'
    have hne : ∀ p ∈ d.items, p ≠ (k', (c, k')) → p.1 = k' → ¬ Inherits H T subcls := by
      intro p hp hpa he
      have hpr := Dict.mem_items.1 (show (p.1, p.2) ∈ d.items from hp)
      rw [he, hr] at hpr
      exact absurd (Prod.ext he (Option.some.inj hpr).symm) hpa
    have hne' : ∀ p ∈ d'.items, p ≠ (k', (c, k')) → p.1 = k' → ¬ Inherits H T subcls := by
      intro p hp hpa he
      have hpr := Dict.mem_items.1 (show (p.1, p.2) ∈ d'.items from hp)
      rw [he, ← hget, hr] at hpr
      exact absurd (Prod.ext he (Option.some.inj hpr).symm) hpa
    have hagree := foldl_relates (a := (k', (c, k')))
      (A := fun s t => AgreeAt H T k' s t ∧ Owned H T s ∧ Owned H T t)
      clean_back_inheritOne clean_back_inheritOne
      (fun s t h _ _ => ⟨h.1.inheritOne h.2.1 hsub hcls, h.2.1.inheritOne ⟨rfl, fun _ => hcls⟩,
        h.2.2.inheritOne ⟨rfl, fun _ => hcls⟩⟩)
      (fun p hp hpa s t h hc => ⟨(agreeAt_inheritOne h.2.1 hk (hne p hp hpa) hc).symm.trans h.1,
        h.2.1.inheritOne (hd p hp), h.2.2⟩)
      (fun p hp hpa s t h hc => ⟨h.1.trans (agreeAt_inheritOne h.2.2 hk (hne' p hp hpa) hc),
        h.2.1, h.2.2.inheritOne (hd' p hp)⟩)
      (by rw [(d.nodup.of_map _).count, (d'.nodup.of_map _).count, if_pos hmem, if_pos hmem'])
      ⟨h, hs, ht⟩ hc hc'
    exact hagree.1

theorem still_inherit (H : Classes V) (clsKwargs : Kwargs V) (subcls : String) (s : State V) :
    Still s (inherit H clsKwargs subcls s) := by
  unfold inherit
  split
  · exact Still.refl s
  · exact Still.foldl (still_inheritOne H subcls) _ s

theorem Owned.inherit (h : Owned H T s) (clsKwargs : Kwargs V) :
    Owned H T (inherit H clsKwargs subcls s) := by
  unfold TaskPartials.inherit
  split
  · exact h
  · rename_i parent hpar
    exact owned_foldl_inheritOne h fun p hp => owned_taken h (fun hs => hs.parent hpar) hp

theorem AgreeAt.inherit (h : AgreeAt H T k s t) (hk : Key m k) (hs : Owned H T s)
    (ht : Owned H T t) {clsKwargs clsKwargs' : Kwargs V}
    (hkw : Inherits H T subcls → clsKwargs = clsKwargs')
    (hc : Clean H T m (TaskPartials.inherit H clsKwargs subcls s))
    (hc' : Clean H T m (TaskPartials.inherit H clsKwargs' subcls t)) :
    AgreeAt H T k (TaskPartials.inherit H clsKwargs subcls s)
      (TaskPartials.inherit H clsKwargs' subcls t) := by
  unfold TaskPartials.inherit at hc hc' ⊢
  cases hpar : H.lastParent subcls with
  | none => exact h
  | some parent =>
    rw [hpar] at hc hc'
    by_cases hsub : Inherits H T subcls
    · obtain rfl := hkw hsub
      have hp := hsub.parent hpar
      refine h.foldl_inheritOne hk hs ht hsub ?_ (fun p hp' => ?_) (fun p hp' => ?_) hc hc'
      · exact (get?_taken clsKwargs parent s k).trans (by
          rw [h.partials parent hp]
          exact (get?_taken clsKwargs parent t k).symm)
      · exact owned_taken hs (fun _ => hp) hp'
      · exact owned_taken ht (fun _ => hp) hp'
    · have hq := agreeAt_foldl_inheritOne hk hs
        (fun p hp => owned_taken hs (fun hs => absurd hs hsub) hp) (fun _ _ _ => hsub) hc
      have hq' := agreeAt_foldl_inheritOne hk ht
        (fun p hp => owned_taken ht (fun hs => absurd hs hsub) hp) (fun _ _ _ => hsub) hc'
      exact hq.symm.trans (h.trans hq')

end Inherit

/-! ## A method -/

section Method

variable {subcls func : String}

theorem Agree.of_still {s' t' : State V} (h : Agree H T m s t) (hs : Still s s') (ht : Still t t')
    (hparts : ∀ k, Key m k → AgreeAt H T k s' t') (hl : Owned H T s') (hr : Owned H T t') :
    Agree H T m s' t' where
  outline := hs.outline.trans (h.outline.trans ht.outline.symm)
  registrations := by
    have hreg := h.registrations
    unfold State.registrationsOf at hreg ⊢
    rw [hs.registrations, ht.registrations, hreg]
  parts := hparts
  left := hl
  right := hr

theorem still_compileKwargs (cls subcls : String) (s : State V) (func : String) :
    Still s (compileKwargs cls subcls s func) := by
  unfold compileKwargs
  split
  · refine Still.trans ?_ (still_addPartials ..)
    split
    · exact Still.refl s
    · exact still_write ..
  · exact still_addPartials ..

theorem Owned.compileKwargs (h : Owned H T s) : Owned H T (compileKwargs cls subcls s func) := by
  unfold TaskPartials.compileKwargs
  split
  · refine Owned.addPartials ?_
    split
    · exact h
    · exact h.of_partials rfl
  · exact h.addPartials

/-- Another method, or a class that does not count. -/
theorem agreeAt_compileKwargs (ho : Owned H T s) (hk : Key m k)
    (hq : func = k → ¬ Inherits H T subcls)
    (hc : Clean H T m (compileKwargs cls subcls s func)) :
    AgreeAt H T k s (compileKwargs cls subcls s func) := by
  have hadd : subcls = T → func ≠ k := fun hT he => hq he (hT ▸ Inherits.self)
  unfold compileKwargs at hc ⊢
  cases hr : (s.partials cls).get? func with
  | none => exact agreeAt_addPartials hadd
  | some r =>
    rw [hr] at hc
    refine AgreeAt.trans ?_ (agreeAt_addPartials hadd)
    have hc' := hc.of_noted (still_addPartials ..).toNoted
    split
    · exact AgreeAt.refl s
    · rename_i hne
      rw [if_neg hne] at hc'
      refine agreeAt_write fun hrk hri => hc'.eq_of_write (hq ?_) hri (hrk ▸ hk)
      exact (ho _ _ r hr).1.symm.trans hrk

/-- The method that counts, in a class that does. -/
theorem AgreeAt.compileKwargs (h : AgreeAt H T k s t) (ho : Owned H T s)
    (hsub : Inherits H T subcls) (hcls : Inherits H T cls) :
    AgreeAt H T k (compileKwargs cls subcls s k) (compileKwargs cls subcls t k) := by
  unfold TaskPartials.compileKwargs
  simp only
  rw [← h.held ho hsub, ← h.partials cls hcls]
  cases hr : (s.partials cls).get? k with
  | none => exact h.addPartials fun _ _ => rfl
  | some r =>
    obtain ⟨c, k'⟩ := r
    obtain ⟨hk', hi⟩ := ho _ _ _ hr
    obtain rfl : k' = k := hk'
    simp only
    rw [← h.heap c (hi hcls)]
    split
    · exact h.addPartials fun _ _ => h.heap c (hi hcls)
    · have hw : AgreeAt H T k'
          (s.write subcls (c, k') ((s.heap (c, k')).update (s.held subcls k')))
          (t.write subcls (c, k') ((s.heap (c, k')).update (s.held subcls k'))) := h.write
      exact hw.addPartials fun _ _ => hw.heap c (hi hcls)

theorem clean_back_compileKwargs (s : State V) (func : String)
    (h : Clean H T m (compileKwargs cls subcls s func)) : Clean H T m s :=
  h.of_noted (still_compileKwargs cls subcls s func).toNoted

/-- The same methods in any orders. -/
theorem AgreeAt.foldl_compileKwargs (h : AgreeAt H T k s t) (hk : Key m k) (hs : Owned H T s)
    (ht : Owned H T t) (hsub : Inherits H T subcls → Inherits H T cls) {l l' : List String}
    (hcount : l.count k = l'.count k)
    (hc : Clean H T m (l.foldl (TaskPartials.compileKwargs cls subcls) s))
    (hc' : Clean H T m (l'.foldl (TaskPartials.compileKwargs cls subcls) t)) :
    AgreeAt H T k (l.foldl (TaskPartials.compileKwargs cls subcls) s)
      (l'.foldl (TaskPartials.compileKwargs cls subcls) t) := by
  have hagree := foldl_relates (a := k)
    (A := fun s t => AgreeAt H T k s t ∧ Owned H T s ∧ Owned H T t)
    clean_back_compileKwargs clean_back_compileKwargs
    (fun s t h hc hc' => ⟨?_, h.2.1.compileKwargs, h.2.2.compileKwargs⟩)
    (fun f _ hf s t h hc =>
      ⟨(agreeAt_compileKwargs h.2.1 hk (fun he => absurd he hf) hc).symm.trans h.1,
        h.2.1.compileKwargs, h.2.2⟩)
    (fun f _ hf s t h hc =>
      ⟨h.1.trans (agreeAt_compileKwargs h.2.2 hk (fun he => absurd he hf) hc), h.2.1,
        h.2.2.compileKwargs⟩)
    hcount ⟨h, hs, ht⟩ hc hc'
  · exact hagree.1
  · by_cases hi : Inherits H T subcls
    · exact h.1.compileKwargs h.2.1 hi (hsub hi)
    · exact (agreeAt_compileKwargs h.2.1 hk (fun _ => hi) hc).symm.trans
        (h.1.trans (agreeAt_compileKwargs h.2.2 hk (fun _ => hi) hc'))

theorem Owned.foldl_compileKwargs (h : Owned H T s) (l : List String) :
    Owned H T (l.foldl (TaskPartials.compileKwargs cls subcls) s) :=
  List.foldlRecOn l _ h fun _ h _ _ => h.compileKwargs

/-- The same methods in any orders, and everything that is to agree. -/
theorem Agree.foldl_compileKwargs (h : Agree H T m s t)
    (hsub : Inherits H T subcls → Inherits H T cls) {l l' : List String} (hp : l.Perm l')
    (hc : Clean H T m (l.foldl (TaskPartials.compileKwargs cls subcls) s))
    (hc' : Clean H T m (l'.foldl (TaskPartials.compileKwargs cls subcls) t)) :
    Agree H T m (l.foldl (TaskPartials.compileKwargs cls subcls) s)
      (l'.foldl (TaskPartials.compileKwargs cls subcls) t) :=
  h.of_still (Still.foldl (still_compileKwargs cls subcls) l s)
    (Still.foldl (still_compileKwargs cls subcls) l' t)
    (fun k hk => (h.parts k hk).foldl_compileKwargs hk h.left h.right hsub (hp.count_eq k) hc hc')
    (h.left.foldl_compileKwargs l) (h.right.foldl_compileKwargs l')

theorem outline_addFunctions (h : s.outline = t.outline) (cls : String) (fs : List String) :
    (s.addFunctions cls fs).outline = (t.addFunctions cls fs).outline := by
  have hout : ∀ s : State V, (s.addFunctions cls fs).outline =
      { s.outline with
        registeredFunctions := Function.update s.outline.registeredFunctions cls
          (some (fs.foldl addTo ((s.outline.registeredFunctions cls).getD []))) } := fun _ => rfl
  rw [hout, hout, h]

/-- Only the outline changes. -/
theorem Agree.of_outline (h : Agree H T m s t) {s' t' : State V} (ho : s'.outline = t'.outline)
    (hs : s'.registrations = s.registrations ∧ s'.partials = s.partials ∧ s'.heap = s.heap ∧
      s'.classPartials = s.classPartials)
    (ht : t'.registrations = t.registrations ∧ t'.partials = t.partials ∧ t'.heap = t.heap ∧
      t'.classPartials = t.classPartials) : Agree H T m s' t' := by
  obtain ⟨hr, hp, hh, hc⟩ := hs
  obtain ⟨hr', hp', hh', hc'⟩ := ht
  refine ⟨ho, ?_, fun k hk => ⟨?_, ?_, ?_⟩, h.left.of_partials hp, h.right.of_partials hp'⟩
  · have hreg := h.registrations
    unfold State.registrationsOf at hreg ⊢
    rw [hr, hr', hreg]
  · rw [hp, hp']
    exact (h.parts k hk).partials
  · rw [hh, hh']
    exact (h.parts k hk).heap
  · rw [hc, hc']
    exact (h.parts k hk).classPartials

theorem Agree.addFunctions (h : Agree H T m s t) (cls : String) (fs : List String) :
    Agree H T m (s.addFunctions cls fs) (t.addFunctions cls fs) :=
  h.of_outline (outline_addFunctions h.outline cls fs) ⟨rfl, rfl, rfl, rfl⟩ ⟨rfl, rfl, rfl, rfl⟩

theorem Agree.compileMethod (h : Agree H T m s t) (hsub : Inherits H T subcls → Inherits H T cls)
    (func : String) (hc : Clean H T m (compileMethod H cls subcls s func))
    (hc' : Clean H T m (compileMethod H cls subcls t func)) :
    Agree H T m (compileMethod H cls subcls s func) (compileMethod H cls subcls t func) := by
  unfold TaskPartials.compileMethod at hc hc' ⊢
  split
  · rename_i ha
    rw [if_pos ha] at hc hc'
    exact (h.addFunctions subcls [func]).foldl_compileKwargs hsub (List.Perm.refl [func]) hc hc'
  · exact h

end Method

/-! ## A subclass -/

section Subclass

variable {order order' : IterOrder String} {subcls func : String} {clsKwargs clsKwargs' : Kwargs V}

theorem still_compileCls (clsKwargs : Kwargs V) (subcls : String) (s : State V) :
    Still s (compileCls clsKwargs subcls s) :=
  ((still_addPartials ..).trans (still_popPartials ..)).trans (still_addPartials ..)

theorem Agree.compileCls (h : Agree H T m s t)
    (hkw : Inherits H T subcls → clsKwargs = clsKwargs') :
    Agree H T m (compileCls clsKwargs subcls s) (compileCls clsKwargs' subcls t) := by
  refine h.of_still (still_compileCls ..) (still_compileCls ..) (fun k hk => ?_)
    h.left.addPartials.popPartials.addPartials h.right.addPartials.popPartials.addPartials
  have hadd : ∀ k, Key m k → AgreeAt H T k (s.addPartials subcls "cls" clsKwargs)
      (t.addPartials subcls "cls" clsKwargs') := fun k hk =>
    (h.parts k hk).addPartials fun hT _ => hkw (hT ▸ Inherits.self)
  refine (hadd k hk).popPartials.addPartials fun hT _ => ?_
  exact (hadd "cls" (.inr rfl)).held h.left.addPartials (hT ▸ Inherits.self)

theorem Agree.copyParent (h : Agree H T m s t) {parent : String}
    (hpar : H.lastParent subcls = some parent) (fs : List String) :
    Agree H T m (copyParent subcls parent fs s) (copyParent subcls parent fs t) := by
  have howned : ∀ {s : State V}, Owned H T s → Owned H T (TaskPartials.copyParent subcls parent fs s) := by
    intro s ho c k r hr
    have hr' : (Function.update s.partials subcls (s.partials parent) c).get? k = some r := hr
    by_cases hc : c = subcls
    · subst hc
      rw [Function.update_self] at hr'
      exact (ho parent k r hr').imp_right fun hi hs => hi (hs.parent hpar)
    · rw [Function.update_of_ne hc] at hr'
      exact ho c k r hr'
  refine ⟨?_, h.registrations, fun k hk => ⟨fun c hc => ?_, (h.parts k hk).heap,
    (h.parts k hk).classPartials⟩, howned h.left, howned h.right⟩
  · have hout : ∀ s : State V, (TaskPartials.copyParent subcls parent fs s).outline =
        { s.outline with
          registeredFunctions := Function.update s.outline.registeredFunctions subcls (some fs) } :=
      fun _ => rfl
    rw [hout, hout, h.outline]
  · show (Function.update s.partials subcls (s.partials parent) c).get? k =
      (Function.update t.partials subcls (t.partials parent) c).get? k
    by_cases he : c = subcls
    · subst he
      rw [Function.update_self, Function.update_self]
      exact (h.parts k hk).partials parent (hc.parent hpar)
    · rw [Function.update_of_ne he, Function.update_of_ne he]
      exact (h.parts k hk).partials c hc

end Subclass

end Kvdb.TaskPartials
