import Kvdb.Tasks.Proof.PartialsRuns

/-!
# Keyword arguments that stay where they are

`Event.Local`: a class that gives the method `m` keyword arguments has no subclass but those that `T`
inherits from, and no class has keyword arguments of its own. Then every write is clean
(`clean_of_local`), so what siblings and other methods are given never comes to `m` in `T`
(`registrationsOf_of_local`).
-/

namespace Kvdb.TaskPartials

open Lib Python

variable {V : Type} {H : Classes V} {T m cls subcls parent k : String}
  {order order' : IterOrder String} {s : State V} {r : Ref} {kwargs : Kwargs V}

variable (H T) in
/-- `T` inherits from all classes that inherit from this one. -/
def Owns (cls : String) : Prop := ∀ sub, Inherits H sub cls → Inherits H T sub

theorem Owns.inherits (h : Owns H T cls) : Inherits H T cls := h cls .self

theorem Owns.sub (h : Owns H T cls) (hb : cls ∈ H.bases subcls) : Owns H T subcls :=
  fun sub hs => h sub (hs.base hb)

variable (H T m) in
def Event.Local : Event V → Prop
  | .registerMethod cls func kwargs => func ≠ "cls" ∧ (func = m → kwargs.items ≠ [] → Owns H T cls)
  | .registerClass _ kwargs => kwargs.items = []
  | _ => True

/-! ## The invariant -/

variable (H T m) in
/-- A dictionary that a class may hold. -/
structure Fits (cls k : String) (r : Ref) : Prop where
  made : r.2 = k
  method : k ≠ "cls"
  owned : k = m → Owns H T cls

theorem Fits.sub (h : Fits H T m cls k r) (hb : cls ∈ H.bases subcls) : Fits H T m subcls k r :=
  ⟨h.made, h.method, fun hk => (h.owned hk).sub hb⟩

theorem Fits.inherits (h : Fits H T m cls k r) (hk : Key m r.2) : Inherits H T cls :=
  (h.owned (h.made ▸ hk.resolve_right (h.made ▸ h.method))).inherits

variable (H T m) in
structure Confined (s : State V) : Prop where
  parts : ∀ cls k r, (s.partials cls).get? k = some r → Fits H T m cls k r
  classParts : ∀ cls, s.classPartials cls "cls" = none
  writes : ∀ w ∈ s.writes, Key m w.ref.2 → Inherits H T w.writer
  clsWrites : s.clsWrites = []

namespace Confined

theorem clean (h : Confined H T m s) : Clean H T m s where
  writes w hw hn _ hk := absurd (h.writes w hw hk) hn
  clsWrites w hw := by
    rw [h.clsWrites] at hw
    cases hw

theorem get?_cls (h : Confined H T m s) (cls : String) : (s.partials cls).get? "cls" = none := by
  cases hr : (s.partials cls).get? "cls" with
  | none => rfl
  | some r => exact absurd rfl (h.parts _ _ _ hr).method

theorem held_cls (h : Confined H T m s) (cls : String) : s.held cls "cls" = {} := by
  rw [State.held, h.get?_cls]
  rfl

/-! ## The operations on dictionaries -/

theorem write (h : Confined H T m s) (hr : Fits H T m cls k r) :
    Confined H T m (s.write cls r kwargs) where
  parts := h.parts
  classParts := h.classParts
  clsWrites := h.clsWrites
  writes w hw hk := by
    rcases List.mem_append.1 hw with hw | hw
    · exact h.writes w hw hk
    · obtain rfl := List.mem_singleton.1 hw
      exact hr.inherits hk

theorem point (h : Confined H T m s) (hr : Fits H T m cls k r) :
    Confined H T m (s.point cls k r) where
  classParts := h.classParts
  writes := h.writes
  clsWrites := h.clsWrites
  parts c k' r' hr' := by
    rw [get?_point] at hr'
    split at hr'
    · rename_i hw
      obtain ⟨rfl, rfl⟩ := hw
      obtain rfl := Option.some.inj hr'
      exact hr
    · exact h.parts c k' r' hr'

theorem create (h : Confined H T m s) (hk : k ≠ "cls") (hm : k = m → Owns H T cls) :
    Confined H T m (s.create cls k kwargs) :=
  have hpoint : Confined H T m (s.point cls k (cls, k)) := h.point ⟨rfl, hk, hm⟩
  ⟨hpoint.parts, h.classParts, h.writes, h.clsWrites⟩

theorem popPartials (h : Confined H T m s) : Confined H T m (s.popPartials cls k) where
  classParts := h.classParts
  writes := h.writes
  clsWrites := h.clsWrites
  parts c k' r hr := by
    rw [get?_popPartials] at hr
    split at hr
    · cases hr
    · exact h.parts c k' r hr

theorem addPartials (h : Confined H T m s) (hk : kwargs.items ≠ [] → k ≠ "cls") :
    Confined H T m (s.addPartials cls k kwargs) := by
  unfold State.addPartials
  split
  · exact h
  · rename_i hne
    refine ⟨h.parts, fun c => ?_, h.writes, h.clsWrites⟩
    rw [setClassPartials_apply, if_neg fun hc => hk (by simpa using hne) hc.2.symm]
    exact h.classParts c

theorem give (h : Confined H T m s) (hk : kwargs.items ≠ [] → k ≠ "cls" ∧ (k = m → Owns H T cls)) :
    Confined H T m (s.give cls k kwargs) := by
  unfold State.give
  split
  · exact h
  · rename_i hne
    obtain ⟨hcls, hm⟩ := hk (by simpa using hne)
    split
    · rename_i r hr
      exact h.write (h.parts _ _ _ hr)
    · exact h.create hcls hm

/-! ## Registration -/

theorem registerMethod {func : String} (h : Confined H T m s)
    (hl : (Event.registerMethod cls func kwargs).Local H T m) :
    Confined H T m (s.registerMethod cls func kwargs) := by
  have hfirst : Confined H T m (s.addFirst cls) := by
    unfold State.addFirst
    split
    · refine ⟨fun c k r hr => ?_, h.classParts, h.writes, h.clsWrites⟩
      have hr : (Function.update s.partials cls {} c).get? k = some r := hr
      rw [Function.update_apply] at hr
      split at hr
      · cases hr
      · exact h.parts c k r hr
    · exact h
  exact Confined.give (s := (s.addFirst cls).addMethod cls func)
    ⟨hfirst.parts, hfirst.classParts, hfirst.writes, hfirst.clsWrites⟩ fun hne =>
      ⟨hl.1, fun hm => hl.2 hm hne⟩

theorem defineClass (h : Confined H T m s) (cls : String) : Confined H T m (s.defineClass cls) := by
  have hadd : Confined H T m (s.addClass cls) := by
    refine ⟨h.parts, fun c => ?_, h.writes, h.clsWrites⟩
    show Function.update s.classPartials cls (fun _ => none) c "cls" = none
    rw [Function.update_apply]
    split
    · rfl
    · exact h.classParts c
  unfold State.defineClass
  split
  · exact h
  · split
    · exact hadd
    · exact ⟨hadd.parts, hadd.classParts, hadd.writes, hadd.clsWrites⟩

theorem registerClass (h : Confined H T m s) (hl : kwargs.items = []) :
    Confined H T m (s.registerClass cls kwargs) := by
  unfold State.registerClass
  split
  · exact h.give fun hne => absurd hl hne
  · exact h

/-! ## Compilation -/

theorem inheritOne {p : String × Ref} (h : Confined H T m s) (hp : Fits H T m subcls p.1 p.2) :
    Confined H T m (inheritOne H subcls s p) := by
  unfold TaskPartials.inheritOne
  split
  · split
    · rename_i r hr
      exact h.write (h.parts _ _ _ hr)
    · exact h.create hp.method hp.owned
  · exact h.point hp

theorem inherit {clsKwargs : Kwargs V} (h : Confined H T m s) :
    Confined H T m (inherit H clsKwargs subcls s) := by
  unfold TaskPartials.inherit
  split
  · exact h
  · rename_i parent hpar
    refine List.foldlRecOn _ _ h fun t ht p hp => ht.inheritOne ?_
    have hget := Dict.mem_items.1 (show (p.1, p.2) ∈ (taken clsKwargs parent s).items from hp)
    rw [get?_taken] at hget
    split at hget
    · exact (h.parts _ _ _ hget).sub (List.mem_of_head? hpar)
    · cases hget

/-- Only a dictionary that the subclass may hold too is changed for it. -/
theorem compileKwargs (h : Confined H T m s) (hb : cls ∈ H.bases subcls) (func : String) :
    Confined H T m (compileKwargs cls subcls s func) := by
  unfold TaskPartials.compileKwargs
  dsimp only
  split
  · rename_i r hr
    have hfits := (h.parts _ _ _ hr).sub hb
    refine Confined.addPartials ?_ fun _ => hfits.method
    split
    · exact h
    · exact h.write hfits
  · refine h.addPartials fun hne hf => hne ?_
    rw [hf, h.held_cls]
    rfl

theorem compileMethod (h : Confined H T m s) (hb : cls ∈ H.bases subcls) (func : String) :
    Confined H T m (compileMethod H cls subcls s func) := by
  unfold TaskPartials.compileMethod
  split
  · exact Confined.compileKwargs (s := s.addFunctions subcls [func])
      ⟨h.parts, h.classParts, h.writes, h.clsWrites⟩ hb func
  · exact h

theorem compileOwn (h : Confined H T m s) (hb : cls ∈ H.bases subcls) :
    Confined H T m (compileOwn H cls subcls s) := by
  have hfold : ∀ {s : State V} (l : List String), Confined H T m s →
      Confined H T m (l.foldl (TaskPartials.compileMethod H cls subcls) s) := fun l hs =>
    List.foldlRecOn l _ hs fun _ ht func _ => ht.compileMethod hb func
  have hboth := hfold (s.functions cls) (hfold (s.functions subcls) h)
  exact ⟨hboth.parts, hboth.classParts, hboth.writes, hboth.clsWrites⟩

theorem compileCls (h : Confined H T m s) : Confined H T m (compileCls {} subcls s) := by
  have hsame : Confined H T m (s.addPartials subcls "cls" {}) := h.addPartials fun hne => absurd rfl hne
  refine hsame.popPartials.addPartials fun hne => absurd ?_ hne
  rw [hsame.held_cls]

theorem compileOther (hb : cls ∈ H.bases subcls) (other : String) :
    Program.Keeps (Program.Forwards (Confined H T m)) (compileOther H order cls subcls other) := by
  intro s h
  unfold TaskPartials.compileOther
  split
  · exact h
  · split
    · exact h
    · split
      · exact h
      · split
        · exact h
        · refine List.foldlRecOn _ _ ?_ fun _ ht func _ => ht.compileKwargs hb func
          exact ⟨h.parts, h.classParts, h.writes, h.clsWrites⟩

theorem compileMethods (hb : cls ∈ H.bases subcls) :
    Program.Keeps (Program.Forwards (Confined H T m)) (compileMethods H order cls {} subcls) :=
  fun s h => Program.Keeps.forM (l := s.registered) (fun other _ => compileOther hb other) _
    (h.compileCls.compileOwn hb)

theorem copyParent (h : Confined H T m s) (hb : parent ∈ H.bases subcls) (fs : List String) :
    Confined H T m (copyParent subcls parent fs s) := by
  refine ⟨fun c k r hr => ?_, h.classParts, h.writes, h.clsWrites⟩
  have hr : (Function.update s.partials subcls (s.partials parent) c).get? k = some r := hr
  rw [Function.update_apply] at hr
  split at hr
  · rename_i hc
    exact hc ▸ (h.parts _ _ _ hr).sub hb
  · exact h.parts c k r hr

theorem compileSubclass (hb : cls ∈ H.bases subcls) :
    Program.Keeps (Program.Forwards (Confined H T m)) (compileSubclass H order cls {} subcls) := by
  intro s h
  have hinherit : Confined H T m (TaskPartials.inherit H {} subcls s) := h.inherit
  unfold TaskPartials.compileSubclass
  dsimp only
  split
  · split
    · exact hinherit
    · rename_i parent hpar
      split
      · exact hinherit
      · exact compileMethods hb _ (hinherit.copyParent (List.mem_of_head? hpar) _)
  · exact compileMethods hb _ hinherit

theorem compileClass (cls : String) :
    Program.Keeps (Program.Forwards (Confined H T m)) (compileClass H order cls) := by
  intro s h
  have hpop : popCls cls s = (.ok (s.held cls "cls"),
      (s.popPartials cls "cls").addPartials cls "cls" (s.held cls "cls")) := rfl
  rw [h.held_cls] at hpop
  unfold TaskPartials.compileClass
  rw [Program.bind_of_ok hpop]
  refine Program.Keeps.forM (fun subcls hsub => compileSubclass ?_) _
    (h.popPartials.addPartials fun hne => absurd rfl hne)
  exact of_decide_eq_true (List.mem_filter.1 hsub).2

theorem compileTasks : Program.Keeps (Program.Forwards (Confined H T m)) (compileTasks H order) := by
  intro s h
  unfold TaskPartials.compileTasks
  split
  · exact h
  · have habcs : Program.Keeps (Program.Forwards (Confined H T m)) (compileAbcs H order) :=
      fun s h => Program.Keeps.forM (l := s.registered) (fun cls _ => compileClass cls) _
        ⟨h.parts, h.classParts, h.writes, h.clsWrites⟩
    refine Program.Keeps.bind habcs (fun _ => Program.Keeps.act fun _ ht => ?_) s h
    exact ⟨ht.parts, ht.classParts, ht.writes, ht.clsWrites⟩

/-! ## Instances -/

theorem registerFunction (h : Confined H T m s) (func : String) :
    Confined H T m (registerFunction H cls s func) := by
  unfold TaskPartials.registerFunction
  rw [h.classParts cls]
  exact ⟨h.parts, h.classParts, h.writes, h.clsWrites⟩

theorem finish {queue : String} {fs : List String} (h : Confined H T m s) :
    Confined H T m (finish H order cls queue fs s) := by
  have hfold := List.foldlRecOn (order.list fs) (TaskPartials.registerFunction H cls) h
    fun _ ht func _ => ht.registerFunction func
  exact ⟨hfold.parts, hfold.classParts, hfold.writes, hfold.clsWrites⟩

theorem mergeParent {fs : List String} (h : Confined H T m s) :
    Confined H T m (mergeParent cls parent fs s) := by
  refine ⟨h.parts, fun c => ?_, h.writes, h.clsWrites⟩
  show Function.update s.classPartials cls _ c "cls" = none
  rw [Function.update_apply]
  split
  · dsimp only
    rw [h.get?_cls, h.classParts]
    split <;> rfl
  · exact h.classParts c

theorem registerAbcTask {queue : String} (h : Confined H T m s) :
    Confined H T m (registerAbcTask H order cls queue s) := by
  unfold TaskPartials.registerAbcTask
  split
  · exact h
  · split
    · exact h.finish
    · split
      · exact h
      · split
        · exact h.mergeParent.finish
        · exact h

/-! ## Runs -/

theorem step {e : Event V} (h : Confined H T m s) (hl : e.Local H T m) :
    Confined H T m (step H order s e) := by
  cases e with
  | registerMethod cls func kwargs => exact h.registerMethod hl
  | defineClass cls => exact h.defineClass cls
  | registerClass cls kwargs => exact h.registerClass hl
  | instantiate cls queue =>
    exact Program.Keeps.bind compileTasks (fun _ => Program.Keeps.act fun _ ht => ht.registerAbcTask)
      s h

theorem init : Confined H T m ({} : State V) where
  parts _ _ _ hr := by cases hr
  classParts _ := rfl
  writes _ hw := by cases hw
  clsWrites := rfl

end Confined

theorem clean_of_local {es : List (Event V)} (h : ∀ e ∈ es, e.Local H T m) :
    Clean H T m (run H order es) :=
  (List.foldlRecOn es (step H order) Confined.init fun _ hs e he => hs.step (h e he)).clean

/-- **Siblings and other methods** may be given anything. -/
theorem registrationsOf_of_local {es es' : List (Event V)} (h : List.Forall₂ (Alike H T m) es es')
    (hl : ∀ e ∈ es, e.Local H T m) (hl' : ∀ e ∈ es', e.Local H T m) :
    (run H order es).registrationsOf T m = (run H order' es').registrationsOf T m := by
  refine (agree_run h (fun e he => ?_) (clean_of_local hl) (clean_of_local hl')).registrations
  cases e with
  | registerMethod cls func kwargs => exact fun _ => (hl _ he).1
  | _ => trivial

end Kvdb.TaskPartials
