import Kvdb.Tasks.Proof.Partials

/-!
# What a method is registered with depends on its own keyword arguments
-/

namespace Kvdb.TaskPartials

open Lib Python

variable {V : Type} {H : Classes V} {T m cls subcls : String} {order order' : IterOrder String}
  {s t : State V} {clsKwargs clsKwargs' : Kwargs V}

theorem Agree.registered (h : Agree H T m s t) : s.registered = t.registered :=
  congrArg Outline.registered h.outline

theorem Agree.functions (h : Agree H T m s t) : s.functions = t.functions :=
  congrArg Outline.functions h.outline

theorem Agree.registeredFunctions (h : Agree H T m s t) :
    s.registeredFunctions = t.registeredFunctions :=
  congrArg Outline.registeredFunctions h.outline

theorem Agree.compiled (h : Agree H T m s t) : s.compiled = t.compiled :=
  congrArg Outline.compiled h.outline

theorem Agree.bound (h : Agree H T m s t) : s.bound = t.bound := congrArg Outline.bound h.outline

theorem Agree.initialized (h : Agree H T m s t) : s.initialized = t.initialized :=
  congrArg Outline.initialized h.outline

/-! ## What the compilation notes -/

theorem noted_compileMethod (H : Classes V) (cls subcls : String) (s : State V) (func : String) :
    Noted s (compileMethod H cls subcls s func) := by
  unfold compileMethod
  split
  · exact IsTrans.trans s (s.addFunctions subcls [func]) _
      ⟨List.prefix_rfl, List.prefix_rfl⟩ (still_compileKwargs ..).toNoted
  · exact Std.Refl.refl s

theorem noted_compileOwn (H : Classes V) (cls subcls : String) (s : State V) :
    Noted s (compileOwn H cls subcls s) := by
  have h := noted_foldl (noted_compileMethod H cls subcls)
  have hown := IsTrans.trans _ _ _ (h (s.functions subcls) s) (h (s.functions cls) _)
  exact ⟨hown.writes, hown.clsWrites⟩

theorem keeps_compileOther (H : Classes V) (order : IterOrder String) (cls subcls other : String) :
    Program.Keeps Noted (compileOther H order cls subcls other) := by
  intro s
  unfold compileOther
  split
  · exact Std.Refl.refl s
  · split
    · exact Std.Refl.refl s
    · split
      · exact Std.Refl.refl s
      · split
        · exact Std.Refl.refl s
        · exact IsTrans.trans s (s.addFunctions subcls _) _ ⟨List.prefix_rfl, List.prefix_rfl⟩
            (Still.foldl (still_compileKwargs cls subcls) _ _).toNoted

theorem keeps_compileMethods (H : Classes V) (order : IterOrder String) (cls : String)
    (clsKwargs : Kwargs V) (subcls : String) :
    Program.Keeps Noted (compileMethods H order cls clsKwargs subcls) := by
  intro s
  have hcls := (still_compileCls clsKwargs subcls s).toNoted
  have hown := noted_compileOwn H cls subcls (compileCls clsKwargs subcls s)
  exact IsTrans.trans _ _ _ (IsTrans.trans _ _ _ hcls hown)
    (Program.Keeps.forM (l := s.registered)
      (fun other _ => keeps_compileOther H order cls subcls other) _)

theorem keeps_compileSubclass (H : Classes V) (order : IterOrder String) (cls : String)
    (clsKwargs : Kwargs V) (subcls : String) :
    Program.Keeps Noted (compileSubclass H order cls clsKwargs subcls) := by
  intro s
  have hi := (still_inherit H clsKwargs subcls s).toNoted
  unfold compileSubclass
  dsimp only
  split
  · split
    · exact hi
    · split
      · exact hi
      · rename_i parent _ _ fs _
        have hcopy : Noted s (copyParent subcls parent fs (inherit H clsKwargs subcls s)) :=
          ⟨hi.writes, hi.clsWrites⟩
        exact IsTrans.trans s _ _ hcopy (keeps_compileMethods H order cls clsKwargs subcls _)
  · exact IsTrans.trans s _ _ hi (keeps_compileMethods H order cls clsKwargs subcls _)

theorem keeps_popCls (cls : String) : Program.Keeps Noted (popCls cls : Compiler V (Kwargs V)) :=
  Program.Keeps.act fun _ => ((still_popPartials ..).trans (still_addPartials ..)).toNoted

theorem keeps_compileClass (H : Classes V) (order : IterOrder String) (cls : String) :
    Program.Keeps Noted (compileClass H order cls) := fun s =>
  Program.Keeps.bind (keeps_popCls cls)
    (fun clsKwargs => Program.Keeps.forM
      fun subcls _ => keeps_compileSubclass H order cls clsKwargs subcls) s

theorem keeps_compileTasks (H : Classes V) (order : IterOrder String) :
    Program.Keeps Noted (compileTasks H order) := by
  intro s
  unfold compileTasks
  split
  · exact Std.Refl.refl s
  · refine Program.Keeps.bind (fun s => ?_) (fun _ => Program.Keeps.act fun s => ?_) s
    · exact IsTrans.trans s { s with bound := false } _ ⟨List.prefix_rfl, List.prefix_rfl⟩
        (Program.Keeps.forM (l := s.registered) (fun cls _ => keeps_compileClass H order cls) _)
    · exact ⟨List.prefix_rfl, List.prefix_rfl⟩

theorem backwards_of_noted {α : Type} {x : Compiler V α} (h : Program.Keeps Noted x) :
    Program.Keeps (Program.Backwards (Clean H T m)) x := fun s hc => hc.of_noted (h s)

/-! ## Two compilations -/

theorem Agree.foldl_compileMethod (hsub : Inherits H T subcls → Inherits H T cls) (l : List String)
    (h : Agree H T m s t) (hc : Clean H T m (l.foldl (TaskPartials.compileMethod H cls subcls) s))
    (hc' : Clean H T m (l.foldl (TaskPartials.compileMethod H cls subcls) t)) :
    Agree H T m (l.foldl (TaskPartials.compileMethod H cls subcls) s)
      (l.foldl (TaskPartials.compileMethod H cls subcls) t) := by
  induction l generalizing s t with
  | nil => exact h
  | cons f l ih =>
    have hrest := noted_foldl (noted_compileMethod H cls subcls) l
    exact ih (h.compileMethod hsub f (hc.of_noted (hrest _)) (hc'.of_noted (hrest _))) hc hc'

theorem Agree.compileOwn (h : Agree H T m s t) (hsub : Inherits H T subcls → Inherits H T cls)
    (hc : Clean H T m (TaskPartials.compileOwn H cls subcls s))
    (hc' : Clean H T m (TaskPartials.compileOwn H cls subcls t)) :
    Agree H T m (TaskPartials.compileOwn H cls subcls s)
      (TaskPartials.compileOwn H cls subcls t) := by
  have hn := noted_foldl (noted_compileMethod H cls subcls) (s.functions cls)
  unfold TaskPartials.compileOwn at hc hc' ⊢
  rw [← h.functions] at hc' ⊢
  have hcl : Clean H T m ((s.functions cls).foldl (TaskPartials.compileMethod H cls subcls)
      ((s.functions subcls).foldl (TaskPartials.compileMethod H cls subcls) s)) :=
    ⟨hc.writes, hc.clsWrites⟩
  have hcl' : Clean H T m ((s.functions cls).foldl (TaskPartials.compileMethod H cls subcls)
      ((s.functions subcls).foldl (TaskPartials.compileMethod H cls subcls) t)) :=
    ⟨hc'.writes, hc'.clsWrites⟩
  have hown := Agree.foldl_compileMethod hsub _
    (Agree.foldl_compileMethod hsub _ h (hcl.of_noted (hn _)) (hcl'.of_noted (hn _))) hcl hcl'
  refine hown.of_outline ?_ ⟨rfl, rfl, rfl, rfl⟩ ⟨rfl, rfl, rfl, rfl⟩
  show Outline.mk _ _ _ _ _ _ = Outline.mk _ _ _ _ _ _
  rw [hown.registered, hown.functions, hown.registeredFunctions, hown.compiled, hown.initialized,
    h.bound]

theorem relates_compileOther (hsub : Inherits H T subcls → Inherits H T cls) (other : String) :
    Program.Relates (Agree H T m) (Clean H T m) (fun _ _ => True)
      (compileOther H order cls subcls other) (compileOther H order' cls subcls other) := by
  intro s t h hc hc'
  unfold compileOther at hc hc' ⊢
  rw [← h.registeredFunctions, ← h.bound] at hc' ⊢
  by_cases ho : other = cls
  · rw [if_pos ho, if_pos ho]
    exact ⟨trivial, h⟩
  rw [if_neg ho] at hc hc' ⊢
  rw [if_neg ho]
  cases hf : s.registeredFunctions other with
  | none => exact ⟨trivial, h⟩
  | some fs =>
    simp only [hf] at hc hc' ⊢
    by_cases he : (fs.filter (H.hasattr subcls)).isEmpty = true
    · rw [if_pos he, if_pos he]
      exact ⟨trivial, h⟩
    rw [if_neg he] at hc hc' ⊢
    rw [if_neg he]
    by_cases hb : (!s.bound) = true
    · rw [if_pos hb, if_pos hb]
      exact ⟨rfl, h⟩
    rw [if_neg hb] at hc hc' ⊢
    rw [if_neg hb]
    have hperm := ((order.perm fs).trans (order'.perm fs).symm).filter (H.hasattr subcls)
    exact ⟨trivial, (h.addFunctions subcls _).foldl_compileKwargs hsub hperm hc hc'⟩

theorem relates_compileMethods (hsub : Inherits H T subcls → Inherits H T cls)
    (hkw : Inherits H T subcls → clsKwargs = clsKwargs') :
    Program.Relates (Agree H T m) (Clean H T m) (fun _ _ => True)
      (compileMethods H order cls clsKwargs subcls)
      (compileMethods H order' cls clsKwargs' subcls) := by
  intro s t h hc hc'
  unfold compileMethods at hc hc' ⊢
  rw [← h.registered] at hc' ⊢
  have hother : ∀ order : IterOrder String, Program.Keeps Noted
      (s.registered.forM (compileOther H order cls subcls)) := fun order =>
    Program.Keeps.forM (l := s.registered) fun other _ => keeps_compileOther H order cls subcls other
  have hown := (h.compileCls hkw).compileOwn hsub (hc.of_noted (hother order _))
    (hc'.of_noted (hother order' _))
  exact Program.Relates.forM (fun f => backwards_of_noted (keeps_compileOther H order cls subcls f))
    (fun f => backwards_of_noted (keeps_compileOther H order' cls subcls f))
    (fun f _ => relates_compileOther hsub f) _ _ hown hc hc'

theorem relates_compileSubclass (hcls : cls ∈ H.bases subcls)
    (hkw : Inherits H T subcls → clsKwargs = clsKwargs') :
    Program.Relates (Agree H T m) (Clean H T m) (fun _ _ => True)
      (compileSubclass H order cls clsKwargs subcls)
      (compileSubclass H order' cls clsKwargs' subcls) := by
  have hsub : Inherits H T subcls → Inherits H T cls := fun hs => hs.base hcls
  intro s t h hc hc'
  unfold compileSubclass at hc hc' ⊢
  dsimp only at hc hc' ⊢
  -- what the subclass inherits, as far as the rest is clean
  have hinherit (hs : Clean H T m (inherit H clsKwargs subcls s))
      (ht : Clean H T m (inherit H clsKwargs' subcls t)) :
      Agree H T m (inherit H clsKwargs subcls s) (inherit H clsKwargs' subcls t) :=
    h.of_still (still_inherit ..) (still_inherit ..)
      (fun k hk => (h.parts k hk).inherit hk h.left h.right hkw hs ht) (h.left.inherit _)
      (h.right.inherit _)
  have hfunctions : (inherit H clsKwargs' subcls t).functions =
      (inherit H clsKwargs subcls s).functions :=
    congrArg Outline.functions ((still_inherit ..).outline.trans
      (h.outline.symm.trans (still_inherit ..).outline.symm))
  have hregistered : (inherit H clsKwargs' subcls t).registeredFunctions =
      (inherit H clsKwargs subcls s).registeredFunctions :=
    congrArg Outline.registeredFunctions ((still_inherit ..).outline.trans
      (h.outline.symm.trans (still_inherit ..).outline.symm))
  have hmethods : Program.Relates (Agree H T m) (Clean H T m) (fun _ _ => True)
      (compileMethods H order cls clsKwargs subcls)
      (compileMethods H order' cls clsKwargs' subcls) := relates_compileMethods hsub hkw
  have hback {order : IterOrder String} {clsKwargs : Kwargs V} {s : State V} :=
    backwards_of_noted (H := H) (T := T) (m := m)
      (keeps_compileMethods H order cls clsKwargs subcls) s
  rw [hfunctions] at hc' ⊢
  by_cases hf : (inherit H clsKwargs subcls s).functions subcls = []
  · rw [if_pos hf] at hc hc' ⊢
    rw [if_pos hf]
    cases hpar : H.lastParent subcls with
    | none =>
      simp only [hpar] at hc hc' ⊢
      exact ⟨trivial, hinherit hc hc'⟩
    | some parent =>
      simp only [hpar, hregistered] at hc hc' ⊢
      cases hfs : (inherit H clsKwargs subcls s).registeredFunctions parent with
      | none =>
        simp only [hfs] at hc hc' ⊢
        exact ⟨rfl, hinherit hc hc'⟩
      | some fs =>
        simp only [hfs] at hc hc' ⊢
        have hs := hback hc
        have ht := hback hc'
        exact hmethods _ _ ((hinherit ⟨hs.writes, hs.clsWrites⟩
          ⟨ht.writes, ht.clsWrites⟩).copyParent hpar fs) hc hc'
  · rw [if_neg hf] at hc hc' ⊢
    rw [if_neg hf]
    exact hmethods _ _ (hinherit (hback hc) (hback hc')) hc hc'

theorem relates_popCls (cls : String) :
    Program.Relates (Agree H T m) (Clean H T m)
      (fun clsKwargs clsKwargs' => Inherits H T cls → clsKwargs = clsKwargs')
      (popCls cls : Compiler V (Kwargs V)) (popCls cls) := by
  refine Program.Relates.act fun s t h _ _ => ?_
  have hheld : Inherits H T cls → s.held cls "cls" = t.held cls "cls" :=
    (h.parts "cls" (.inr rfl)).held h.left
  refine ⟨hheld, h.of_still ((still_popPartials ..).trans (still_addPartials ..))
    ((still_popPartials ..).trans (still_addPartials ..)) (fun k hk => ?_)
    h.left.popPartials.addPartials h.right.popPartials.addPartials⟩
  exact (h.parts k hk).popPartials.addPartials fun hT _ => hheld (hT ▸ Inherits.self)

theorem relates_compileClass (cls : String) :
    Program.Relates (Agree H T m) (Clean H T m) (fun _ _ => True) (compileClass H order cls)
      (compileClass H order' cls) := by
  intro s t h
  unfold compileClass
  rw [← h.registered]
  have hback (order : IterOrder String) (clsKwargs : Kwargs V) (subcls : String) :=
    backwards_of_noted (H := H) (T := T) (m := m)
      (keeps_compileSubclass H order cls clsKwargs subcls)
  refine Program.Relates.bind (relates_popCls cls) (fun clsKwargs clsKwargs' hkw => ?_)
    (fun _ => Program.Keeps.forM fun subcls _ => hback order _ subcls)
    (fun _ => Program.Keeps.forM fun subcls _ => hback order' _ subcls)
    s t h
  refine Program.Relates.forM (hback order _) (hback order' _) fun subcls hs => ?_
  have hcls : cls ∈ H.bases subcls := of_decide_eq_true (List.mem_filter.1 hs).2
  exact relates_compileSubclass hcls fun hi => hkw (hi.base hcls)

theorem relates_compileTasks :
    Program.Relates (Agree H T m) (Clean H T m) (fun _ _ => True) (compileTasks H order)
      (compileTasks H order') := by
  intro s t h
  unfold compileTasks
  rw [← h.compiled]
  by_cases hcomp : s.compiled = true
  · rw [if_pos hcomp, if_pos hcomp]
    exact fun _ _ => ⟨trivial, h⟩
  rw [if_neg hcomp, if_neg hcomp]
  have hdone (s : State V) : Noted s { s with compiled := true } := ⟨List.prefix_rfl, List.prefix_rfl⟩
  refine Program.Relates.bind (Q := fun _ _ => True) ?_ (fun _ _ _ => ?_)
    (fun _ => backwards_of_noted (Program.Keeps.act hdone))
    (fun _ => backwards_of_noted (Program.Keeps.act hdone)) s t h
  · intro s t h
    unfold compileAbcs
    rw [← h.registered]
    refine Program.Relates.forM (fun cls => backwards_of_noted (keeps_compileClass H order cls))
      (fun cls => backwards_of_noted (keeps_compileClass H order' cls))
      (fun cls _ => relates_compileClass cls) _ _
      (h.of_outline ?_ ⟨rfl, rfl, rfl, rfl⟩ ⟨rfl, rfl, rfl, rfl⟩)
    show Outline.mk _ _ _ _ _ _ = Outline.mk _ _ _ _ _ _
    rw [h.functions, h.registeredFunctions, h.compiled, h.initialized]
  · refine Program.Relates.act fun s t h _ _ => ⟨trivial, ?_⟩
    have hout := congrArg (fun o : Outline => { o with compiled := true }) h.outline
    exact h.of_outline hout ⟨rfl, rfl, rfl, rfl⟩ ⟨rfl, rfl, rfl, rfl⟩

/-! ## An instance -/

theorem Agree.symm (h : Agree H T m s t) : Agree H T m t s :=
  ⟨h.outline.symm, h.registrations.symm, fun k hk => (h.parts k hk).symm, h.right, h.left⟩

section Instance

variable {func parent : String} {fs : List String}

theorem noted_registerFunction (H : Classes V) (cls : String) (s : State V) (func : String) :
    Noted s (registerFunction H cls s func) := by
  unfold registerFunction
  dsimp only
  split
  · exact ⟨List.prefix_rfl, List.prefix_rfl⟩
  · exact ⟨List.prefix_rfl, List.prefix_append _ _⟩

theorem registrations_registerFunction (H : Classes V) (cls : String) (s : State V)
    (func : String) :
    (registerFunction H cls s func).registrations = s.registrations ++
      ((finalKwargs H cls func (partialKwargs H cls func s)).map fun kwargs =>
        ⟨cls, func, kwargs⟩).toList := by
  unfold registerFunction
  dsimp only
  split <;> rfl

theorem registrationsOf_registerFunction (H : Classes V) (cls : String) (s : State V)
    (func : String) :
    (registerFunction H cls s func).registrationsOf T m = s.registrationsOf T m ++
      if cls = T ∧ func = m then
        ((finalKwargs H cls func (partialKwargs H cls func s)).map fun kwargs =>
          ⟨cls, func, kwargs⟩).toList
      else [] := by
  unfold State.registrationsOf
  rw [registrations_registerFunction, List.filter_append]
  congr 1
  cases finalKwargs H cls func (partialKwargs H cls func s) with
  | none => simp
  | some kwargs =>
    by_cases hw : cls = T ∧ func = m
    · rw [if_pos hw]
      exact List.filter_eq_self.2 fun r hr => by
        obtain rfl := List.mem_singleton.1 hr
        exact decide_eq_true hw
    · rw [if_neg hw]
      exact List.filter_eq_nil_iff.2 fun r hr => by
        obtain rfl := List.mem_singleton.1 hr
        exact fun h => hw (of_decide_eq_true h)

/-- The class-level dictionary after a method was registered. -/
theorem classPartials_registerFunction (H : Classes V) (cls : String) (s : State V)
    (func c k : String) :
    (registerFunction H cls s func).classPartials c k =
      if c = cls ∧ k = "cls" then
        (s.classPartials cls "cls").map fun _ => partialKwargs H cls func s
      else s.classPartials c k := by
  unfold registerFunction
  dsimp only
  cases hc : s.classPartials cls "cls" with
  | none =>
    show s.classPartials c k = _
    by_cases hw : c = cls ∧ k = "cls"
    · rw [if_pos hw, hw.1, hw.2, hc, Option.map_none]
    · rw [if_neg hw]
  | some before => exact setClassPartials_apply ..

theorem still_parts_registerFunction (H : Classes V) (cls : String) (s : State V)
    (func : String) :
    (registerFunction H cls s func).outline = s.outline ∧
      (registerFunction H cls s func).partials = s.partials ∧
      (registerFunction H cls s func).heap = s.heap := by
  unfold registerFunction
  dsimp only
  split <;> exact ⟨rfl, rfl, rfl⟩

/-- Another method, or another class. -/
theorem Agree.registerOther (h : Agree H T m s t) (hne : cls = T → func ≠ m)
    (hc : Clean H T m (registerFunction H cls s func)) :
    Agree H T m (registerFunction H cls s func) t := by
  obtain ⟨hout, hpart, hheap⟩ := still_parts_registerFunction H cls s func
  refine ⟨hout.trans h.outline, ?_, fun k hk => ⟨?_, ?_, ?_⟩, h.left.of_partials hpart, h.right⟩
  · rw [registrationsOf_registerFunction, if_neg fun hw => hne hw.1 hw.2, List.append_nil]
    exact h.registrations
  · rw [hpart]
    exact (h.parts k hk).partials
  · rw [hheap]
    exact (h.parts k hk).heap
  · rw [classPartials_registerFunction, ← (h.parts k hk).classPartials]
    split
    · rename_i hw
      obtain ⟨rfl, rfl⟩ := hw
      cases hbefore : s.classPartials T "cls" with
      | none => rfl
      | some before =>
        -- the write that was noted
        have hmem : (⟨T, func, before, partialKwargs H T func s⟩ : ClsWrite V) ∈
            (registerFunction H T s func).clsWrites := by
          unfold registerFunction
          dsimp only
          rw [hbefore]
          exact List.mem_append_right _ (List.mem_singleton.2 rfl)
        exact congrArg some (hc.clsWrites _ hmem rfl (hne rfl))
    · rfl

/-- The method itself. -/
theorem Agree.registerFunction (h : Agree H T m s t) :
    Agree H T m (registerFunction H T s m) (registerFunction H T t m) := by
  obtain ⟨hout, hpart, hheap⟩ := still_parts_registerFunction H T s m
  obtain ⟨hout', hpart', hheap'⟩ := still_parts_registerFunction H T t m
  have hkw : partialKwargs H T m s = partialKwargs H T m t := by
    unfold partialKwargs
    rw [(h.parts m (.inl rfl)).classPartials, (h.parts "cls" (.inr rfl)).classPartials]
  refine ⟨hout.trans (h.outline.trans hout'.symm), ?_, fun k hk => ⟨?_, ?_, ?_⟩,
    h.left.of_partials hpart, h.right.of_partials hpart'⟩
  · rw [registrationsOf_registerFunction, registrationsOf_registerFunction, hkw, h.registrations]
  · rw [hpart, hpart']
    exact (h.parts k hk).partials
  · rw [hheap, hheap']
    exact (h.parts k hk).heap
  · rw [classPartials_registerFunction, classPartials_registerFunction, hkw,
      (h.parts k hk).classPartials, (h.parts "cls" (.inr rfl)).classPartials]

theorem Agree.registerAll (h : Agree H T m s t) {l l' : List String} (hp : l.Perm l')
    (hc : Clean H T m (l.foldl (TaskPartials.registerFunction H cls) s))
    (hc' : Clean H T m (l'.foldl (TaskPartials.registerFunction H cls) t)) :
    Agree H T m (l.foldl (TaskPartials.registerFunction H cls) s)
      (l'.foldl (TaskPartials.registerFunction H cls) t) := by
  have hback (s : State V) (func : String)
      (hc : Clean H T m (TaskPartials.registerFunction H cls s func)) : Clean H T m s :=
    hc.of_noted (noted_registerFunction H cls s func)
  refine foldl_relates (a := m) hback hback (fun s t h hc hc' => ?_)
    (fun f _ hf s t h hc => h.registerOther (fun _ => hf) hc)
    (fun f _ hf s t h hc => (h.symm.registerOther (fun _ => hf) hc).symm) (hp.count_eq m) h hc hc'
  by_cases hT : cls = T
  · subst hT
    exact h.registerFunction
  · have hleft := h.registerOther (fun he => absurd he hT) hc
    exact (hleft.symm.registerOther (fun he => absurd he hT) hc').symm

theorem Agree.mergeParent (h : Agree H T m s t) (hpar : H.lastParent cls = some parent)
    (fs : List String) : Agree H T m (mergeParent cls parent fs s) (mergeParent cls parent fs t) := by
  refine ⟨h.outline, h.registrations, fun k hk => ⟨(h.parts k hk).partials, (h.parts k hk).heap, ?_⟩,
    h.left.of_partials rfl, h.right.of_partials rfl⟩
  have hp := h.parts k hk
  show Function.update s.classPartials cls _ T k = Function.update t.classPartials cls _ T k
  by_cases hT : T = cls
  · subst hT
    have hparent : Inherits H T parent := Inherits.self.parent hpar
    rw [Function.update_self, Function.update_self, hp.classPartials, ← hp.partials parent hparent]
    cases hr : (s.partials parent).get? k with
    | none => rfl
    | some r =>
      obtain ⟨hk', hi⟩ := h.left _ _ _ hr
      obtain ⟨c, k'⟩ := r
      obtain rfl : k' = k := hk'
      rw [Option.map_some, Option.map_some, hp.heap c (hi hparent)]
  · rw [Function.update_of_ne hT, Function.update_of_ne hT]
    exact hp.classPartials

theorem noted_finish (H : Classes V) (order : IterOrder String) (cls queue : String) (fs : List String)
    (s : State V) :
    Noted s (finish H order cls queue fs s) := by
  have h := noted_foldl (noted_registerFunction H cls) (order.list fs) s
  exact ⟨h.writes, h.clsWrites⟩

theorem Agree.finish (h : Agree H T m s t) (queue : String) (fs : List String)
    (hc : Clean H T m (finish H order cls queue fs s))
    (hc' : Clean H T m (finish H order' cls queue fs t)) :
    Agree H T m (finish H order cls queue fs s) (finish H order' cls queue fs t) := by
  have hall := h.registerAll ((order.perm fs).trans (order'.perm fs).symm)
    ⟨hc.writes, hc.clsWrites⟩ ⟨hc'.writes, hc'.clsWrites⟩
  have hout := congrArg
    (fun o : Outline => { o with initialized := o.initialized ++ [(queue, cls)] }) hall.outline
  exact hall.of_outline hout ⟨rfl, rfl, rfl, rfl⟩ ⟨rfl, rfl, rfl, rfl⟩

theorem noted_registerAbcTask (H : Classes V) (order : IterOrder String) (cls queue : String)
    (s : State V) : Noted s (registerAbcTask H order cls queue s) := by
  unfold registerAbcTask
  split
  · exact Std.Refl.refl s
  · split
    · exact noted_finish ..
    · split
      · exact Std.Refl.refl s
      · split
        · rename_i parent _ _ f fs _
          have hf := noted_finish H order cls queue (f :: fs)
            (TaskPartials.mergeParent cls parent (f :: fs) s)
          exact ⟨hf.writes, hf.clsWrites⟩
        · exact Std.Refl.refl s

theorem Agree.registerAbcTask (h : Agree H T m s t) (queue : String)
    (hc : Clean H T m (registerAbcTask H order cls queue s))
    (hc' : Clean H T m (registerAbcTask H order' cls queue t)) :
    Agree H T m (registerAbcTask H order cls queue s) (registerAbcTask H order' cls queue t) := by
  unfold TaskPartials.registerAbcTask at hc hc' ⊢
  rw [← h.initialized, ← h.registeredFunctions] at hc' ⊢
  by_cases hi : (queue, cls) ∈ s.initialized
  · rw [if_pos hi, if_pos hi]
    exact h
  rw [if_neg hi] at hc hc' ⊢
  rw [if_neg hi]
  cases hfs : (s.registeredFunctions cls).getD [] with
  | cons f fs =>
    simp only [hfs] at hc hc' ⊢
    exact h.finish queue (f :: fs) hc hc'
  | nil =>
    simp only [hfs] at hc hc' ⊢
    cases hpar : H.lastParent cls with
    | none => exact h
    | some parent =>
      simp only [hpar] at hc hc' ⊢
      cases hps : (s.registeredFunctions parent).getD [] with
      | nil => exact h
      | cons f fs =>
        simp only [hps] at hc hc' ⊢
        exact (h.mergeParent hpar (f :: fs)).finish queue (f :: fs) hc hc'

end Instance

/-! ## Events -/

section Events

variable {k func : String} {kwargs kwargs' : Kwargs V}

/-- Keyword arguments for another key, or for a class that does not count. -/
theorem agreeAt_give (ho : Owned H T s) (hk : Key m k) (hq : func = k → ¬ Inherits H T cls)
    (hc : Clean H T m (s.give cls func kwargs)) : AgreeAt H T k s (s.give cls func kwargs) := by
  unfold State.give at hc ⊢
  split
  · exact AgreeAt.refl s
  · rename_i hne
    rw [if_neg hne] at hc
    cases hr : (s.partials cls).get? func with
    | none => exact agreeAt_create fun hi he => hq he hi
    | some r =>
      rw [hr] at hc
      refine agreeAt_write fun hrk hri => hc.eq_of_write (hq ?_) hri (hrk ▸ hk)
      exact (ho _ _ r hr).1.symm.trans hrk

theorem AgreeAt.give (h : AgreeAt H T k s t) (ho : Owned H T s) (hcls : Inherits H T cls) :
    AgreeAt H T k (s.give cls k kwargs) (t.give cls k kwargs) := by
  unfold State.give
  rw [← h.partials cls hcls]
  split
  · exact h
  · cases hr : (s.partials cls).get? k with
    | none => exact h.create
    | some r =>
      obtain ⟨c, k'⟩ := r
      obtain ⟨hk', hi⟩ := ho _ _ _ hr
      obtain rfl : k' = k := hk'
      simp only
      rw [← h.heap c (hi hcls)]
      exact h.write

theorem Agree.give (h : Agree H T m s t)
    (hkw : Inherits H T cls → Key m func → kwargs = kwargs')
    (hc : Clean H T m (s.give cls func kwargs)) (hc' : Clean H T m (t.give cls func kwargs')) :
    Agree H T m (s.give cls func kwargs) (t.give cls func kwargs') := by
  refine h.of_still (still_give ..) (still_give ..) (fun k hk => ?_) h.left.give h.right.give
  by_cases hw : func = k ∧ Inherits H T cls
  · obtain ⟨rfl, hi⟩ := hw
    obtain rfl := hkw hi hk
    exact (h.parts func hk).give h.left hi
  · have hq : func = k → ¬ Inherits H T cls := fun he hi => hw ⟨he, hi⟩
    exact (agreeAt_give h.left hk hq hc).symm.trans
      ((h.parts k hk).trans (agreeAt_give h.right hk hq hc'))

theorem Agree.addFirst (h : Agree H T m s t) (cls : String) :
    Agree H T m (s.addFirst cls) (t.addFirst cls) := by
  have howned : ∀ {s : State V}, Owned H T s →
      ∀ c k r, (Function.update s.partials cls {} c).get? k = some r →
        r.2 = k ∧ (Inherits H T c → Inherits H T r.1) := by
    intro s ho c k r hr
    by_cases hc : c = cls
    · subst hc
      rw [Function.update_self, Dict.get?_empty] at hr
      cases hr
    · rw [Function.update_of_ne hc] at hr
      exact ho c k r hr
  unfold State.addFirst
  by_cases hf : s.functions cls = []
  · have hf' : t.functions cls = [] := h.functions ▸ hf
    rw [if_pos hf, if_pos hf']
    refine ⟨?_, h.registrations, fun k hk => ⟨fun c hi => ?_, (h.parts k hk).heap,
      (h.parts k hk).classPartials⟩, howned h.left, howned h.right⟩
    · exact congrArg (fun o : Outline => { o with
        registeredFunctions := Function.update o.registeredFunctions cls (some []) }) h.outline
    · show (Function.update s.partials cls {} c).get? k = (Function.update t.partials cls {} c).get? k
      by_cases hc : c = cls
      · subst hc
        rw [Function.update_self, Function.update_self]
      · rw [Function.update_of_ne hc, Function.update_of_ne hc]
        exact (h.parts k hk).partials c hi
  · have hf' : t.functions cls ≠ [] := h.functions ▸ hf
    rw [if_neg hf, if_neg hf']
    exact h

theorem Agree.addMethod (h : Agree H T m s t) (cls func : String) :
    Agree H T m (s.addMethod cls func) (t.addMethod cls func) := by
  have hout := congrArg (fun o : Outline => { o with
    functions := Function.update o.functions cls (addTo (o.functions cls) func) }) h.outline
  exact h.of_outline hout ⟨rfl, rfl, rfl, rfl⟩ ⟨rfl, rfl, rfl, rfl⟩

theorem Agree.addClass (h : Agree H T m s t) (cls : String) :
    Agree H T m (s.addClass cls) (t.addClass cls) := by
  refine ⟨?_, h.registrations, fun k hk => ⟨(h.parts k hk).partials, (h.parts k hk).heap, ?_⟩,
    h.left.of_partials rfl, h.right.of_partials rfl⟩
  · exact congrArg (fun o : Outline => { o with registered := o.registered ++ [cls] }) h.outline
  · show Function.update s.classPartials cls _ T k = Function.update t.classPartials cls _ T k
    by_cases hT : T = cls
    · subst hT
      rw [Function.update_self, Function.update_self]
    · rw [Function.update_of_ne hT, Function.update_of_ne hT]
      exact (h.parts k hk).classPartials

theorem Agree.defineClass (h : Agree H T m s t) (cls : String) :
    Agree H T m (s.defineClass cls) (t.defineClass cls) := by
  unfold State.defineClass
  rw [← h.registered, ← h.functions]
  split
  · exact h
  · split
    · exact h.addClass cls
    · exact (h.addClass cls).addFunctions cls _

theorem Agree.registerClass (h : Agree H T m s t) (hkw : Inherits H T cls → kwargs = kwargs')
    (hc : Clean H T m (s.registerClass cls kwargs))
    (hc' : Clean H T m (t.registerClass cls kwargs')) :
    Agree H T m (s.registerClass cls kwargs) (t.registerClass cls kwargs') := by
  unfold State.registerClass at hc hc' ⊢
  rw [← h.registered] at hc' ⊢
  split
  · rename_i hr
    rw [if_pos hr] at hc hc'
    exact h.give (fun hi _ => hkw hi) hc hc'
  · exact h

theorem noted_registerMethod (s : State V) (cls func : String) (kwargs : Kwargs V) :
    Noted s (s.registerMethod cls func kwargs) := by
  have hgive := still_give ((s.addFirst cls).addMethod cls func) cls func kwargs
  refine IsTrans.trans s _ _ ?_ hgive.toNoted
  unfold State.addFirst
  split <;> exact ⟨List.prefix_rfl, List.prefix_rfl⟩

theorem noted_defineClass (s : State V) (cls : String) : Noted s (s.defineClass cls) := by
  unfold State.defineClass
  split
  · exact Std.Refl.refl s
  · split <;> exact ⟨List.prefix_rfl, List.prefix_rfl⟩

theorem noted_registerClass (s : State V) (cls : String) (kwargs : Kwargs V) :
    Noted s (s.registerClass cls kwargs) := by
  unfold State.registerClass
  split
  · exact (still_give ..).toNoted
  · exact Std.Refl.refl s

theorem keeps_instantiate (H : Classes V) (order : IterOrder String) (cls queue : String) :
    Program.Keeps Noted (instantiate H order cls queue) :=
  Program.Keeps.bind (keeps_compileTasks H order) fun _ =>
    Program.Keeps.act fun s => noted_registerAbcTask H order cls queue s

theorem noted_step (H : Classes V) (order : IterOrder String) (s : State V) (e : Event V) :
    Noted s (step H order s e) := by
  cases e with
  | registerMethod cls func kwargs => exact noted_registerMethod ..
  | defineClass cls => exact noted_defineClass ..
  | registerClass cls kwargs => exact noted_registerClass ..
  | instantiate cls queue => exact keeps_instantiate H order cls queue s

/-- Two events that differ at most in keyword arguments that are not those of `m`, in `T` and the
classes it inherits from, or of these classes. -/
inductive Alike (H : Classes V) (T m : String) : Event V → Event V → Prop
  | registerMethod {cls func : String} {kwargs kwargs' : Kwargs V}
    (h : Inherits H T cls → func = m → kwargs = kwargs') :
    Alike H T m (.registerMethod cls func kwargs) (.registerMethod cls func kwargs')
  | defineClass (cls : String) : Alike H T m (.defineClass cls) (.defineClass cls)
  | registerClass {cls : String} {kwargs kwargs' : Kwargs V}
    (h : Inherits H T cls → kwargs = kwargs') :
    Alike H T m (.registerClass cls kwargs) (.registerClass cls kwargs')
  | instantiate (cls queue : String) : Alike H T m (.instantiate cls queue) (.instantiate cls queue)

/-- No method of `T` or a class it inherits from is named `cls`. -/
def Event.Plain (H : Classes V) (T : String) : Event V → Prop
  | .registerMethod cls func _ => Inherits H T cls → func ≠ "cls"
  | _ => True

theorem Agree.step (h : Agree H T m s t) {e e' : Event V} (he : Alike H T m e e')
    (hp : e.Plain H T) (hc : Clean H T m (step H order s e))
    (hc' : Clean H T m (step H order' t e')) :
    Agree H T m (step H order s e) (step H order' t e') := by
  cases he with
  | registerMethod hkw =>
    exact ((h.addFirst _).addMethod _ _).give
      (fun hi hk => hkw hi (hk.resolve_right (hp hi))) hc hc'
  | defineClass cls => exact h.defineClass cls
  | registerClass hkw => exact h.registerClass hkw hc hc'
  | instantiate cls queue =>
    have hback (order : IterOrder String) : Program.Keeps (Program.Backwards (Clean H T m))
        (Program.act fun s => ((), TaskPartials.registerAbcTask H order cls queue s) :
          Compiler V Unit) :=
      backwards_of_noted (Program.Keeps.act fun s => noted_registerAbcTask H order cls queue s)
    have hrel : Program.Relates (Agree H T m) (Clean H T m) (fun _ _ => True)
        (instantiate H order cls queue) (instantiate H order' cls queue) := by
      refine Program.Relates.bind relates_compileTasks (fun _ _ _ => Program.Relates.act
        fun s t h hc hc' => ⟨trivial, ?_⟩) (fun _ => hback order) (fun _ => hback order')
      exact h.registerAbcTask queue hc hc'
    exact (hrel s t h hc hc').2

theorem owned_init : Owned H T ({} : State V) := by
  intro cls k r hr
  cases hr

theorem agree_foldl {es es' : List (Event V)} (hes : List.Forall₂ (Alike H T m) es es')
    (hp : ∀ e ∈ es, e.Plain H T) (h : Agree H T m s t)
    (hc : Clean H T m (es.foldl (step H order) s)) (hc' : Clean H T m (es'.foldl (step H order') t)) :
    Agree H T m (es.foldl (step H order) s) (es'.foldl (step H order') t) := by
  induction hes generalizing s t with
  | nil => exact h
  | @cons e e' es es' he _ ih =>
    have hs : Clean H T m (step H order s e) := hc.of_noted (noted_foldl (noted_step H order) es _)
    have ht : Clean H T m (step H order' t e') :=
      hc'.of_noted (noted_foldl (noted_step H order') es' _)
    exact ih (fun e he => hp e (List.mem_cons_of_mem _ he)) (h.step he (hp e List.mem_cons_self) hs ht)
      hc hc'

theorem agree_run {es es' : List (Event V)} (h : List.Forall₂ (Alike H T m) es es')
    (hp : ∀ e ∈ es, e.Plain H T) (hc : Clean H T m (run H order es))
    (hc' : Clean H T m (run H order' es')) : Agree H T m (run H order es) (run H order' es') :=
  agree_foldl h hp ⟨rfl, rfl, fun _ _ => AgreeAt.refl _, owned_init, owned_init⟩ hc hc'

/-- **What a method is registered with** in two runs that differ at most in keyword arguments that are
not its own nor those of its class and the classes it inherits from. -/
theorem registrationsOf_of_alike {es es' : List (Event V)} (h : List.Forall₂ (Alike H T m) es es')
    (hp : ∀ e ∈ es, e.Plain H T) (hc : Clean H T m (run H order es))
    (hc' : Clean H T m (run H order' es')) :
    (run H order es).registrationsOf T m = (run H order' es').registrationsOf T m :=
  (agree_run h hp hc hc').registrations

end Events

/-! ## A class with two subclasses -/

/-- A class `Base` whose subclasses `Left` and `Right` have its methods `load` and `store`. -/
def twoSubclasses : Classes String where
  bases cls :=
    if cls = "Left" ∨ cls = "Right" then ["Base"] else if cls = "Base" then ["TaskABC"] else []
  hasattr _ func := func = "load" ∨ func = "store"
  defaultName cls func := cls ++ "." ++ func
  workerAttributes _ _ := none
  validateCronjob _ _ kwargs := some kwargs
  validateFunction _ _ kwargs := some kwargs
  cronjobName _ _ := none
  functionName _ _ := none
  nested := true
  merge d d' := d.update d'

def asListed : IterOrder String := ⟨id, fun _ => List.Perm.refl _⟩

/-- `Base` is registered as silenced, and its method `load` with `kwargs`. -/
def withOtherMethod (kwargs : Kwargs String) : List (Event String) :=
  [.registerMethod "Base" "load" kwargs, .registerMethod "Base" "store" {}, .defineClass "Base",
    .registerClass "Base" (Dict.ofPairs [("silenced", "True")]), .defineClass "Left",
    .instantiate "Left" "queue"]

/-- `Left` registers `func` with `kwargs`, and `Right` is instantiated. -/
def withSibling (func : String) (kwargs : Kwargs String) : List (Event String) :=
  [.registerMethod "Base" "load" (Dict.ofPairs [("timeout", "1")]), .defineClass "Base",
    .registerMethod "Left" func kwargs, .defineClass "Left", .defineClass "Right",
    .instantiate "Right" "queue"]

theorem not_inherits_left : ¬ Inherits twoSubclasses "Right" "Left" := by
  have hbases : ∀ cls, Inherits twoSubclasses "Right" cls →
      cls = "Right" ∨ cls = "Base" ∨ cls = "TaskABC" := by
    intro cls h
    induction h with
    | self => exact .inl rfl
    | base _ hb ih =>
      obtain rfl | rfl | rfl := ih
      · exact .inr (.inl (List.mem_singleton.1 hb))
      · exact .inr (.inr (List.mem_singleton.1 hb))
      · cases hb
  intro h
  exact absurd (hbases _ h) (by decide)

theorem alike_withOtherMethod (kwargs kwargs' : Kwargs String) :
    List.Forall₂ (Alike twoSubclasses "Left" "store") (withOtherMethod kwargs)
      (withOtherMethod kwargs') :=
  .cons (.registerMethod fun _ h => absurd h (by decide)) <|
    .cons (.registerMethod fun _ _ => rfl) <| .cons (.defineClass _) <|
    .cons (.registerClass fun _ => rfl) <| .cons (.defineClass _) <| .cons (.instantiate _ _) .nil

theorem alike_withSibling (func m : String) (kwargs kwargs' : Kwargs String) :
    List.Forall₂ (Alike twoSubclasses "Right" m) (withSibling func kwargs)
      (withSibling func kwargs') :=
  .cons (.registerMethod fun _ _ => rfl) <| .cons (.defineClass _) <|
    .cons (.registerMethod fun h _ => absurd h not_inherits_left) <| .cons (.defineClass _) <|
    .cons (.defineClass _) <| .cons (.instantiate _ _) .nil

/-- The keyword arguments of `load` are those of `store`, and those that `Left` gives are those of
`Right`. -/
theorem registrationsOf_of_alike_broken :
    (∃ kwargs kwargs', List.Forall₂ (Alike twoSubclasses "Left" "store") (withOtherMethod kwargs)
        (withOtherMethod kwargs') ∧
      (run twoSubclasses asListed (withOtherMethod kwargs)).registrationsOf "Left" "store" ≠
        (run twoSubclasses asListed (withOtherMethod kwargs')).registrationsOf "Left" "store") ∧
      ∃ kwargs kwargs', List.Forall₂ (Alike twoSubclasses "Right" "load")
          (withSibling "load" kwargs) (withSibling "load" kwargs') ∧
        (run twoSubclasses asListed (withSibling "load" kwargs)).registrationsOf "Right" "load" ≠
          (run twoSubclasses asListed (withSibling "load" kwargs')).registrationsOf "Right" "load" := by
  refine ⟨⟨Dict.ofPairs [("timeout", "1")], {}, alike_withOtherMethod _ _, fun h => ?_⟩,
    ⟨Dict.ofPairs [("retries", "3")], {}, alike_withSibling _ _ _ _, fun h => ?_⟩⟩
  all_goals
    have hitems := congrArg (List.map fun r => r.kwargs.items) h
    revert hitems
    decide

/-- Where `Left` registers a method that `Base` does not have, `Right` is not changed. -/
theorem registrationsOf_of_alike_sibling :
    (run twoSubclasses asListed (withSibling "store"
        (Dict.ofPairs [("retries", "3")]))).registrationsOf "Right" "load" =
      (run twoSubclasses asListed (withSibling "store" {})).registrationsOf "Right" "load" := by
  have hplain (kwargs : Kwargs String) :
      ∀ e ∈ withSibling "store" kwargs, e.Plain twoSubclasses "Right" := by
    simp [withSibling, Event.Plain]
  have hclean (kwargs : Kwargs String)
      (hw : ∀ w ∈ (run twoSubclasses asListed (withSibling "store" kwargs)).writes,
        w.after.items = w.before.items)
      (hcls : (run twoSubclasses asListed (withSibling "store" kwargs)).clsWrites.length = 0) :
      Clean twoSubclasses "Right" "load"
        (run twoSubclasses asListed (withSibling "store" kwargs)) := by
    refine ⟨fun w hm _ _ _ => Dict.ext (hw w hm), fun w hm => ?_⟩
    rw [List.length_eq_zero_iff.1 hcls] at hm
    cases hm
  exact registrationsOf_of_alike (alike_withSibling "store" "load" _ _) (hplain _)
    (hclean _ (by decide) (by decide)) (hclean _ (by decide) (by decide))

end Kvdb.TaskPartials
