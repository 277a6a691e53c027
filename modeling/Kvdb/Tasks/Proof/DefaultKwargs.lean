import Kvdb.Tasks.DefaultKwargs

/-!
# A call merges the registered defaults exactly if it changes none of them

`mergeKwarg` raises for a key with a registered default if the defaults were given inside `kwargs`
only, as there is no `function_default_kwargs` then; a mapping that equals the default of the signature
is merged into the registered default in place; and of lists only those with hashable elements have a
union. `HarmlessAt` says of one keyword that none of this shows, and then each call of a run returns
what it would return alone (`run_merges_iff`).
-/

namespace Kvdb.DefaultKwargs

open Lib Python

variable {ω : Type} (R : Runtime ω)

/-! ## The union of two lists -/

theorem distinct_concat (xs : List ω) (x : ω) :
    R.distinct (xs ++ [x]) =
      if (R.distinct xs).any fun y => R.same y x then R.distinct xs else R.distinct xs ++ [x] := by
  unfold Runtime.distinct
  rw [List.foldl_append]
  rfl

theorem pairwise_distinct (xs : List ω) :
    (R.distinct xs).Pairwise fun a b => R.same a b = false := by
  induction xs using List.reverseRecOn with
  | nil => exact List.Pairwise.nil
  | append_singleton xs x ih =>
    rw [distinct_concat]
    split
    · exact ih
    · rename_i hx
      refine List.pairwise_append.2 ⟨ih, List.pairwise_singleton _ _, fun a ha b hb => ?_⟩
      obtain rfl := List.mem_singleton.1 hb
      rw [List.any_eq_true] at hx
      exact Bool.eq_false_iff.2 fun hs => hx ⟨a, ha, hs⟩

theorem mem_of_mem_distinct {xs : List ω} {z : ω} (hz : z ∈ R.distinct xs) : z ∈ xs := by
  induction xs using List.reverseRecOn with
  | nil => exact hz
  | append_singleton xs x ih =>
    rw [distinct_concat] at hz
    split at hz
    · exact List.mem_append_left _ (ih hz)
    · rcases List.mem_append.1 hz with hz | hz
      · exact List.mem_append_left _ (ih hz)
      · exact List.mem_append_right _ hz

theorem exists_same_distinct {xs : List ω} {x : ω} (hx : x ∈ xs) :
    ∃ z ∈ R.distinct xs, R.same z x = true := by
  induction xs using List.reverseRecOn with
  | nil => cases hx
  | append_singleton xs y ih =>
    rw [distinct_concat]
    rcases List.mem_append.1 hx with hx | hx
    · obtain ⟨z, hz, hs⟩ := ih hx
      split
      · exact ⟨z, hz, hs⟩
      · exact ⟨z, List.mem_append_left _ hz, hs⟩
    · obtain rfl := List.mem_singleton.1 hx
      split
      · rename_i hy
        exact List.any_eq_true.1 hy
      · exact ⟨x, List.mem_append_right _ hx, R.same_refl x⟩

theorem isUnion_order (ys xs : List ω) :
    IsUnion R ys xs (R.order (R.distinct (ys ++ xs))) where
  distinct := by
    have hp := R.order_perm (R.distinct (ys ++ xs))
    refine (hp.pairwise_iff fun {a b} h => ?_).2 (pairwise_distinct R _)
    rw [R.same_symm, h]
  subset z hz := mem_of_mem_distinct R ((R.order_perm _).mem_iff.1 hz)
  covers x hx := by
    obtain ⟨z, hz, hs⟩ := exists_same_distinct R hx
    exact ⟨z, (R.order_perm _).mem_iff.2 hz, hs⟩

theorem unionList_eq_ok {d v : Value ω} {xs : List ω} :
    R.unionList d xs = .ok v ↔ ∃ ys, d = .list ys ∧ (∀ x ∈ ys ++ xs, R.hashable x = true) ∧
      v = .list (R.order (R.distinct (ys ++ xs))) := by
  unfold Runtime.unionList
  cases d with
  | none | mapping _ | object _ => simp
  | list ys =>
    have hall : ((ys ++ xs).all R.hashable = true) ↔ ∀ x ∈ ys ++ xs, R.hashable x = true :=
      List.all_eq_true
    simp only [Value.list.injEq, exists_eq_left']
    split
    · rename_i h
      rw [Except.ok.injEq]
      exact ⟨fun hv => ⟨hall.1 h, hv.symm⟩, fun hv => hv.2.symm⟩
    · rename_i h
      refine ⟨fun hv => ?_, fun hv => absurd (hall.2 hv.1) h⟩
      cases hv

/-! ## One keyword -/

variable {R} {fields : TaskFields ω} {tf : TaskFunction ω} {k : String} {d v x : Value ω}

theorem defaultKwargs_of_registered (hd : tf.registered.get? k = some d) :
    tf.defaultKwargs = some tf.registered := by
  unfold TaskFunction.registered at hd ⊢
  cases h : tf.defaultKwargs with
  | none =>
    rw [h] at hd
    cases hd
  | some D => rfl

/-- A registered default stays as it is exactly if it is merged to itself. -/
theorem setDefault_eq_self (hd : tf.registered.get? k = some d) :
    tf.setDefault k x = tf ↔ x = d := by
  constructor
  · intro h
    have hget : (tf.setDefault k x).registered.get? k = some x := by
      show (tf.registered.setItem k x).get? k = some x
      rw [Dict.get?_setItem, if_pos rfl]
    rw [h, hd] at hget
    exact (Option.some.inj hget).symm
  · intro h
    subst h
    unfold TaskFunction.setDefault
    rw [Dict.setItem_self hd, ← defaultKwargs_of_registered hd]

/-- `function_default_kwargs` has the parameters of the keys that the field had. -/
theorem equalsDefault_iff (fields : TaskFields ω) (given : Kwargs ω) (k : String)
    (hnone : R.eq .none v = false) :
    equalsDefault R (fields.parameters.filter fun p => (given.get? p.1).isSome) k v = true ↔
      (given.get? k).isSome = true ∧ fields.IsSignatureDefault R k v := by
  unfold equalsDefault TaskFields.IsSignatureDefault
  rw [Dict.get?_filter_key _ fun k => (given.get? k).isSome]
  by_cases hk : (given.get? k).isSome = true
  · rw [if_pos hk]
    rcases fields.parameters.get? k with _ | _ | s <;> simp [hnone, hk]
  · rw [if_neg hk]
    simp [hnone, hk]

/-- A value that is to be merged with `d` does no harm; `given`: its key has a default in the field. -/
def HarmlessValue (R : Runtime ω) (given : Bool) (d : Value ω) : Value ω → Prop
  | .mapping items => R.updateDict d (.mapping items) = (if given then d else .mapping items, none)
  | .list xs => ∃ ys, d = .list ys ∧
      if given then ∀ x ∈ ys ++ xs, R.hashable x = true else IsUnion R ys xs xs
  | _ => True

/-- The keyword `k` does no harm, where `d` is registered for it: the defaults were given as the field,
and a value that equals the default of the signature is merged into `d` without a change. -/
def HarmlessAt (R : Runtime ω) (fields : TaskFields ω) (k : String) (d v : Value ω) : Prop :=
  ∃ given, fields.defaultKwargs = some given ∧
    (fields.IsSignatureDefault R k v → HarmlessValue R (given.get? k).isSome d v)

/-- A call does no harm. -/
def Harmless (R : Runtime ω) (fields : TaskFields ω) (call : Kwargs ω) : Prop :=
  call.get? "self" = none ∧ ∀ k v d, call.get? k = some v → fields.registered.get? k = some d →
    HarmlessAt R fields k d v

theorem becomes_self (hv : fields.IsSignatureDefault R k v →
      (∀ items, v ≠ .mapping items) ∧ ∀ xs, v ≠ .list xs) :
    Becomes R fields k d v v where
  differs _ := rfl
  mapping hs items h := absurd h ((hv hs).1 items)
  list hs xs h := absurd h ((hv hs).2 xs)

theorem becomes_mapping {items : List (ω × ω)} (hs : fields.IsSignatureDefault R k (.mapping items)) :
    Becomes R fields k d (.mapping items) x ↔ R.updateDict d (.mapping items) = (x, none) := by
  constructor
  · exact fun h => h.mapping hs items rfl
  · intro h
    refine ⟨fun hn => absurd hs hn, fun _ _ _ => h, fun _ xs he => ?_⟩
    cases he

theorem becomes_list {xs : List ω} (hs : fields.IsSignatureDefault R k (.list xs)) :
    Becomes R fields k d (.list xs) x ↔
      ∃ ys zs, d = .list ys ∧ x = .list zs ∧ IsUnion R ys xs zs := by
  constructor
  · exact fun h => h.list hs xs rfl
  · intro h
    refine ⟨fun hn => absurd hs hn, fun _ items he => ?_, fun _ xs' he => ?_⟩
    · cases he
    · obtain rfl := Value.list.inj he
      exact h

section Given

variable {given : Kwargs ω} (hg : fields.defaultKwargs = some given)
  (hd : (validateFunction fields).registered.get? k = some d)

include hg in
theorem functionDefaultKwargs_of_given :
    (validateFunction fields).functionDefaultKwargs =
      some (fields.parameters.filter fun p => (given.get? p.1).isSome) := by
  rw [validateFunction, hg]
  rfl

include hg hd

/-- Only a mapping or a list that equals the default of the signature is merged. -/
theorem mergeKwarg_of_unequal
    (h : equalsDefault R (fields.parameters.filter fun p => (given.get? p.1).isSome) k v = true →
      (∀ items, v ≠ .mapping items) ∧ ∀ xs, v ≠ .list xs) :
    mergeKwarg R k v (validateFunction fields) = (.ok v, validateFunction fields) := by
  have hf := functionDefaultKwargs_of_given hg
  unfold mergeKwarg
  simp only [hd, hf]
  split
  · rename_i he
    obtain ⟨hm, hl⟩ := h he
    cases v with
    | mapping items => exact absurd rfl (hm items)
    | list xs => exact absurd rfl (hl xs)
    | none | object _ => rfl
  · rfl

theorem mergeKwarg_mapping {items : List (ω × ω)}
    (he : equalsDefault R (fields.parameters.filter fun p => (given.get? p.1).isSome) k
      (.mapping items) = true) :
    mergeKwarg R k (.mapping items) (validateFunction fields) = (.ok x, validateFunction fields) ↔
      R.updateDict d (.mapping items) = (d, none) ∧ x = d := by
  have hf := functionDefaultKwargs_of_given hg
  unfold mergeKwarg
  simp only [hd, hf, he, if_true]
  rcases R.updateDict d (.mapping items) with ⟨a, _ | e⟩
  · simp only [Prod.mk.injEq, Except.ok.injEq, setDefault_eq_self hd, and_true]
    constructor
    · intro h
      obtain ⟨rfl, rfl⟩ := h
      exact ⟨rfl, rfl⟩
    · intro h
      obtain ⟨rfl, rfl⟩ := h
      exact ⟨rfl, rfl⟩
  · simp

theorem mergeKwarg_list {xs : List ω}
    (he : equalsDefault R (fields.parameters.filter fun p => (given.get? p.1).isSome) k
      (.list xs) = true) :
    mergeKwarg R k (.list xs) (validateFunction fields) = (.ok x, validateFunction fields) ↔
      R.unionList d xs = .ok x := by
  have hf := functionDefaultKwargs_of_given hg
  unfold mergeKwarg
  simp only [hd, hf, he, if_true, Prod.mk.injEq, and_true]

theorem becomes_mapping_iff {items : List (ω × ω)}
    (hs : fields.IsSignatureDefault R k (.mapping items)) :
    (∃ x, mergeKwarg R k (.mapping items) (validateFunction fields) =
        (.ok x, validateFunction fields) ∧ Becomes R fields k d (.mapping items) x) ↔
      HarmlessValue R (given.get? k).isSome d (.mapping items) := by
  have heq := equalsDefault_iff fields given k (R.eq_none_mapping items)
  simp only [HarmlessValue, becomes_mapping hs]
  by_cases hk : (given.get? k).isSome = true
  · simp only [mergeKwarg_mapping hg hd (heq.2 ⟨hk, hs⟩), if_pos hk]
    constructor
    · intro h
      obtain ⟨x, ⟨hu, -⟩, -⟩ := h
      exact hu
    · exact fun h => ⟨d, ⟨h, rfl⟩, h⟩
  · have hv : mergeKwarg R k (.mapping items) (validateFunction fields) =
        (.ok (.mapping items), validateFunction fields) :=
      mergeKwarg_of_unequal hg hd fun h => absurd (heq.1 h).1 hk
    simp only [hv, if_neg hk]
    constructor
    · intro h
      obtain ⟨x, hx, hu⟩ := h
      obtain rfl := Except.ok.inj (Prod.ext_iff.1 hx).1
      exact hu
    · exact fun h => ⟨_, rfl, h⟩

theorem becomes_list_iff {xs : List ω} (hs : fields.IsSignatureDefault R k (.list xs)) :
    (∃ x, mergeKwarg R k (.list xs) (validateFunction fields) =
        (.ok x, validateFunction fields) ∧ Becomes R fields k d (.list xs) x) ↔
      HarmlessValue R (given.get? k).isSome d (.list xs) := by
  have heq := equalsDefault_iff fields given k (R.eq_none_list xs)
  simp only [HarmlessValue, becomes_list hs]
  by_cases hk : (given.get? k).isSome = true
  · simp only [mergeKwarg_list hg hd (heq.2 ⟨hk, hs⟩), if_pos hk, unionList_eq_ok]
    constructor
    · intro h
      obtain ⟨x, ⟨ys, hy, hall, -⟩, -⟩ := h
      exact ⟨ys, hy, hall⟩
    · intro h
      obtain ⟨ys, hy, hall⟩ := h
      exact ⟨_, ⟨ys, hy, hall, rfl⟩, ys, _, hy, rfl, isUnion_order R ys xs⟩
  · have hv : mergeKwarg R k (.list xs) (validateFunction fields) =
        (.ok (.list xs), validateFunction fields) :=
      mergeKwarg_of_unequal hg hd fun h => absurd (heq.1 h).1 hk
    simp only [hv, if_neg hk]
    constructor
    · intro h
      obtain ⟨x, hx, ys, zs, hy, rfl, hu⟩ := h
      obtain rfl := Value.list.inj (Except.ok.inj (Prod.ext_iff.1 hx).1)
      exact ⟨ys, hy, hu⟩
    · intro h
      obtain ⟨ys, hy, hu⟩ := h
      exact ⟨_, rfl, ys, xs, hy, rfl, hu⟩

end Given

/-- One keyword is merged as it is to be, with no trace, exactly if it does no harm. -/
theorem harmlessAt_iff (hd : (validateFunction fields).registered.get? k = some d) :
    (∃ x, mergeKwarg R k v (validateFunction fields) = (.ok x, validateFunction fields) ∧
      Becomes R fields k d v x) ↔ HarmlessAt R fields k d v := by
  unfold HarmlessAt
  cases hg : fields.defaultKwargs with
  | none =>
    have hf : (validateFunction fields).functionDefaultKwargs = none := by
      rw [validateFunction, hg]
      rfl
    unfold mergeKwarg
    simp [hd, hf]
  | some given =>
    simp only [Option.some.injEq, exists_eq_left']
    by_cases hs : fields.IsSignatureDefault R k v
    · simp only [hs, true_imp_iff]
      cases v with
      | mapping items => exact becomes_mapping_iff hg hd hs
      | list xs => exact becomes_list_iff hg hd hs
      | none | object _ =>
        refine iff_of_true ⟨_, mergeKwarg_of_unequal hg hd fun _ => ?_, becomes_self fun _ => ?_⟩ trivial
        · simp
        · simp
    · refine iff_of_true ⟨v, mergeKwarg_of_unequal hg hd fun h => ⟨?_, ?_⟩, becomes_self ?_⟩
        fun h => absurd h hs
      · intro items hv
        subst hv
        exact hs ((equalsDefault_iff fields given k (R.eq_none_mapping items)).1 h).2
      · intro xs hv
        subst hv
        exact hs ((equalsDefault_iff fields given k (R.eq_none_list xs)).1 h).2
      · exact fun h => absurd h hs

/-! ## The keywords of a call -/

variable (R) in
/-- Only the registered default of the keyword can change. -/
theorem mergeKwarg_after (k : String) (v : Value ω) (tf : TaskFunction ω) :
    (mergeKwarg R k v tf).2 = tf ∨
      ∃ d x, tf.registered.get? k = some d ∧ (mergeKwarg R k v tf).2 = tf.setDefault k x := by
  unfold mergeKwarg
  cases hd : tf.registered.get? k with
  | none => exact .inl rfl
  | some d =>
    cases tf.functionDefaultKwargs with
    | none => exact .inl rfl
    | some functionDefaults =>
      dsimp only
      split
      · cases v with
        | mapping items =>
          refine .inr ⟨d, (R.updateDict d (.mapping items)).1, rfl, ?_⟩
          dsimp only
          split <;> rfl
        | none | list _ | object _ => exact .inl rfl
      · exact .inl rfl

theorem registered_mergeKwarg {k' : String} (hk : k' ≠ k) :
    (mergeKwarg R k v tf).2.registered.get? k' = tf.registered.get? k' := by
  rcases mergeKwarg_after R k v tf with h | ⟨d, x, -, h⟩
  · rw [h]
  · rw [h]
    exact (Dict.get?_setItem ..).trans (if_neg hk)

theorem mergeLoop_ok_cons {p : String × Value ω} {items : List (String × Value ω)}
    {kwargs r : Kwargs ω} {tf' : TaskFunction ω}
    (h : mergeLoop R (p :: items) kwargs tf = (.ok r, tf')) :
    ∃ x t, mergeKwarg R p.1 p.2 tf = (.ok x, t) ∧
      mergeLoop R items (kwargs.setItem p.1 x) t = (.ok r, tf') :=
  Program.ok_of_bind h

/-- The defaults of the other keys. -/
theorem registered_mergeLoop {items : List (String × Value ω)} {kwargs r : Kwargs ω}
    {tf' : TaskFunction ω} (h : mergeLoop R items kwargs tf = (.ok r, tf'))
    (hk : k ∉ items.map Prod.fst) : tf'.registered.get? k = tf.registered.get? k := by
  induction items generalizing kwargs tf with
  | nil =>
    cases h
    rfl
  | cons p items ih =>
    obtain ⟨x, t, hx, hrest⟩ := mergeLoop_ok_cons h
    rw [List.map_cons, List.mem_cons, not_or] at hk
    rw [ih hrest hk.2]
    have ht : t = (mergeKwarg R p.1 p.2 tf).2 := by rw [hx]
    rw [ht]
    exact registered_mergeKwarg hk.1

/-- A loop that leaves no trace has merged each keyword without one. -/
theorem mergeLoop_ok {items : List (String × Value ω)} {kwargs r : Kwargs ω}
    (hn : (items.map Prod.fst).Nodup) (h : mergeLoop R items kwargs tf = (.ok r, tf)) :
    (∀ p ∈ items, ∃ x, mergeKwarg R p.1 p.2 tf = (.ok x, tf) ∧ r.get? p.1 = some x) ∧
      ∀ k, k ∉ items.map Prod.fst → r.get? k = kwargs.get? k := by
  induction items generalizing kwargs with
  | nil =>
    cases h
    exact ⟨fun p hp => absurd hp List.not_mem_nil, fun _ _ => rfl⟩
  | cons p items ih =>
    obtain ⟨x, t, hx, hrest⟩ := mergeLoop_ok_cons h
    obtain ⟨hp, hn⟩ := List.nodup_cons.1 hn
    have ht : t = tf := by
      have hafter := mergeKwarg_after R p.1 p.2 tf
      rw [hx] at hafter
      rcases hafter with h | ⟨d, y, hd, h⟩
      · exact h
      · -- the rest of the loop leaves the default of `p.1` as it is here
        have hset : t.registered.get? p.1 = some y := by
          rw [show t = tf.setDefault p.1 y from h]
          exact (Dict.get?_setItem ..).trans (if_pos rfl)
        have hsame := registered_mergeLoop hrest hp
        rw [hset, hd] at hsame
        exact h.trans ((setDefault_eq_self hd).2 (Option.some.inj hsame).symm)
    subst ht
    obtain ⟨hitems, hframe⟩ := ih hn hrest
    constructor
    · intro q hq
      rcases List.mem_cons.1 hq with rfl | hq
      · refine ⟨x, hx, ?_⟩
        rw [hframe _ hp, Dict.get?_setItem, if_pos rfl]
      · exact hitems q hq
    · intro k hk
      rw [List.map_cons, List.mem_cons, not_or] at hk
      rw [hframe k hk.2, Dict.get?_setItem, if_neg hk.1]

theorem mergeLoop_of_forall {items : List (String × Value ω)}
    (h : ∀ p ∈ items, ∃ x, mergeKwarg R p.1 p.2 tf = (.ok x, tf)) (kwargs : Kwargs ω) :
    ∃ r, mergeLoop R items kwargs tf = (.ok r, tf) := by
  induction items generalizing kwargs with
  | nil => exact ⟨kwargs, rfl⟩
  | cons p items ih =>
    obtain ⟨x, hx⟩ := h p List.mem_cons_self
    obtain ⟨r, hr⟩ := ih (fun q hq => h q (List.mem_cons_of_mem _ hq)) (kwargs.setItem p.1 x)
    exact ⟨r, (Program.bind_of_ok hx _).trans hr⟩

/-! ## A call -/

section Call

variable {call r : Kwargs ω}

/-- The merged keywords with the registered defaults of the others. -/
def withRest (fields : TaskFields ω) (call r : Kwargs ω) : Kwargs ω :=
  r.update (fields.registered.filter fun p => (call.get? p.1).isNone)

theorem get?_withRest (hr : ∀ k, call.get? k = none → r.get? k = none) (k : String) :
    (withRest fields call r).get? k =
      if (call.get? k).isNone then fields.registered.get? k else r.get? k := by
  rw [withRest, Dict.get?_update, Dict.get?_filter_key _ fun k => (call.get? k).isNone]
  cases h : call.get? k with
  | none => simp [hr k h]
  | some v => simp

theorem merges_withRest (hr : ∀ k, (call.get? k).isSome = (r.get? k).isSome) :
    Merges R fields call (withRest fields call r) ↔
      (∀ k v, call.get? k = some v → fields.registered.get? k = none → r.get? k = some v) ∧
        ∀ k v d, call.get? k = some v → fields.registered.get? k = some d →
          ∃ x, r.get? k = some x ∧ Becomes R fields k d v x := by
  have hget : ∀ k, (withRest fields call r).get? k =
      if (call.get? k).isNone then fields.registered.get? k else r.get? k :=
    get?_withRest fun k hk => by
      have h := hr k
      rw [hk] at h
      exact Option.isNone_iff_eq_none.1 (by simpa using h)
  have hcall : ∀ {k v}, call.get? k = some v →
      (withRest fields call r).get? k = r.get? k := fun h => by simp [hget, h]
  constructor
  · intro h
    refine ⟨fun k v hk hd => ?_, fun k v d hk hd => ?_⟩
    · exact (hcall hk).symm.trans (h.unregistered k v hk hd)
    · obtain ⟨x, hx, hb⟩ := h.merged k v d hk hd
      exact ⟨x, (hcall hk).symm.trans hx, hb⟩
  · intro h
    obtain ⟨hun, hme⟩ := h
    refine ⟨fun k => ?_, fun k d hk hd => ?_, fun k v hk hd => ?_, fun k v d hk hd => ?_⟩
    · rw [hget]
      have h := hr k
      cases hk : call.get? k with
      | none => simp
      | some v => simp [← h, hk]
    · simpa [hget, hk] using hd
    · exact (hcall hk).trans (hun k v hk hd)
    · obtain ⟨x, hx, hb⟩ := hme k v d hk hd
      exact ⟨x, (hcall hk).trans hx, hb⟩

variable (R fields call) in
/-- The call alone, on the `TaskFunction` as it was built. -/
def alone : Except Fault (Kwargs ω) × TaskFunction ω :=
  updateFunctionKwargs R call (validateFunction fields)

theorem alone_of_loop (hself : call.get? "self" = none)
    (hne : fields.registered.items.isEmpty = false) :
    alone R fields call =
      (mergeLoop R call.items call >>= fun r =>
        (pure (withRest fields call r) : Program (TaskFunction ω) Fault (Kwargs ω)))
        (validateFunction fields) := by
  have hempty : ¬ fields.registered.items.isEmpty = true := Bool.eq_false_iff.1 hne
  unfold alone updateFunctionKwargs
  rw [hself]
  exact (if_neg (by simp)).trans (if_neg hempty)

/-- A keyword without a registered default. -/
theorem mergeKwarg_unregistered (h : tf.registered.get? k = none) :
    mergeKwarg R k v tf = (.ok v, tf) := by
  unfold mergeKwarg
  rw [h]

/-- If no keyword does harm, each is merged as it is to be. -/
theorem exists_merged (h : ∀ k v d, call.get? k = some v → fields.registered.get? k = some d →
      HarmlessAt R fields k d v) (p : String × Value ω) (hp : p ∈ call.items) :
    ∃ x, mergeKwarg R p.1 p.2 (validateFunction fields) = (.ok x, validateFunction fields) ∧
      (fields.registered.get? p.1 = none → x = p.2) ∧
      ∀ d, fields.registered.get? p.1 = some d → Becomes R fields p.1 d p.2 x := by
  have hv := Dict.mem_items.1 hp
  cases hd : fields.registered.get? p.1 with
  | none =>
    exact ⟨p.2, mergeKwarg_unregistered hd, fun _ => rfl, fun d h => absurd h (by simp)⟩
  | some d =>
    obtain ⟨x, hx, hb⟩ := (harmlessAt_iff hd).2 (h _ _ d hv hd)
    refine ⟨x, hx, fun h => absurd h (by simp), fun d' h => ?_⟩
    obtain rfl := Option.some.inj h
    exact hb

theorem merges_alone_of_harmless (h : Harmless R fields call) :
    (alone R fields call).2 = validateFunction fields ∧
      ∃ result, (alone R fields call).1 = .ok result ∧ Merges R fields call result := by
  obtain ⟨hself, hkeys⟩ := h
  cases hne : fields.registered.items.isEmpty with
  | true =>
    have hnone : ∀ k, fields.registered.get? k = none := fun k => by
      rw [Dict.get?, List.isEmpty_iff.1 hne]
      rfl
    have halone : alone R fields call = (.ok call, validateFunction fields) := by
      unfold alone updateFunctionKwargs
      rw [hself]
      exact (if_neg (by simp)).trans (if_pos hne)
    rw [halone]
    refine ⟨rfl, call, rfl, fun k => ?_, fun k d _ hd => ?_, fun k v hk _ => hk, fun k v d _ hd => ?_⟩
    · simp [hnone]
    · simp [hnone] at hd
    · simp [hnone] at hd
  | false =>
    have hex := exists_merged hkeys
    obtain ⟨r, hr⟩ := mergeLoop_of_forall (fun p hp => (hex p hp).imp fun x hx => hx.1) call
    obtain ⟨hitems, hframe⟩ := mergeLoop_ok call.nodup hr
    have hvalue : ∀ {k v}, call.get? k = some v → ∃ x, r.get? k = some x ∧
        (fields.registered.get? k = none → x = v) ∧
        ∀ d, fields.registered.get? k = some d → Becomes R fields k d v x := by
      intro k v hk
      obtain ⟨x, hx, hun, hb⟩ := hex (k, v) (Dict.mem_items.2 hk)
      obtain ⟨y, hy, hget⟩ := hitems (k, v) (Dict.mem_items.2 hk)
      obtain rfl : x = y := Except.ok.inj (Prod.ext_iff.1 (hx.symm.trans hy)).1
      exact ⟨x, hget, hun, hb⟩
    have hsome : ∀ k, (call.get? k).isSome = (r.get? k).isSome := by
      intro k
      cases hk : call.get? k with
      | none =>
        have hnot : k ∉ call.items.map Prod.fst := by
          rw [← Dict.isSome_get?_iff_mem, hk]
          simp
        rw [hframe k hnot, hk]
      | some v =>
        obtain ⟨x, hx, -⟩ := hvalue hk
        rw [hx]
        rfl
    rw [alone_of_loop hself hne, Program.bind_of_ok hr]
    refine ⟨rfl, _, rfl, (merges_withRest hsome).2 ⟨fun k v hk hd => ?_, fun k v d hk hd => ?_⟩⟩
    · obtain ⟨x, hx, hun, -⟩ := hvalue hk
      rw [hx, hun hd]
    · obtain ⟨x, hx, -, hb⟩ := hvalue hk
      exact ⟨x, hx, hb d hd⟩

theorem harmless_of_merges_alone {result : Kwargs ω}
    (ha : (alone R fields call).2 = validateFunction fields)
    (hr : (alone R fields call).1 = .ok result) (hm : Merges R fields call result) :
    Harmless R fields call := by
  have hself : call.get? "self" = none := by
    by_contra hs
    have halone : alone R fields call = (.error .typeError, validateFunction fields) := by
      unfold alone updateFunctionKwargs
      rw [if_pos (Option.isSome_iff_ne_none.2 hs)]
    rw [halone] at hr
    cases hr
  refine ⟨hself, fun k v d hk hd => (harmlessAt_iff hd).1 ?_⟩
  have hne : fields.registered.items.isEmpty = false := by
    rw [List.isEmpty_eq_false_iff_exists_mem]
    exact ⟨(k, d), Dict.mem_items.2 hd⟩
  have hout : alone R fields call = (.ok result, validateFunction fields) := Prod.ext hr ha
  have hbind := (alone_of_loop hself hne).symm.trans hout
  obtain ⟨r, t, hloop, hpure⟩ := Program.ok_of_bind hbind
  obtain ⟨hres, rfl⟩ := Prod.mk.inj hpure
  obtain rfl := Except.ok.inj hres
  obtain ⟨hitems, hframe⟩ := mergeLoop_ok call.nodup hloop
  obtain ⟨x, hx, hget⟩ := hitems (k, v) (Dict.mem_items.2 hk)
  obtain ⟨y, hy, hb⟩ := hm.merged k v d hk hd
  refine ⟨x, hx, ?_⟩
  have hnone : ∀ k, call.get? k = none → r.get? k = none := by
    intro k hk
    have hnot : k ∉ call.items.map Prod.fst := by
      rw [← Dict.isSome_get?_iff_mem, hk]
      simp
    rw [hframe k hnot, hk]
  rw [get?_withRest hnone, hk] at hy
  obtain rfl : x = y := Option.some.inj (hget.symm.trans (by simpa using hy))
  exact hb

end Call

/-! ## A run -/

/-- In a run every call merges the defaults, leaves them as they were and returns what it returns
alone, whatever was called before, exactly if no call does harm. -/
theorem run_merges_iff (R : Runtime ω) (fields : TaskFields ω) (calls : List (Kwargs ω)) :
    (∀ o ∈ run R calls (validateFunction fields), o.Merges R fields ∧
        o.reply = (updateFunctionKwargs R o.call (validateFunction fields)).1) ↔
      ∀ call ∈ calls, Harmless R fields call := by
  induction calls with
  | nil => exact iff_of_true (fun o ho => absurd ho List.not_mem_nil) fun c hc => absurd hc List.not_mem_nil
  | cons call calls ih =>
    rw [run, List.forall_mem_cons, List.forall_mem_cons]
    constructor
    · intro h
      obtain ⟨⟨⟨hafter, result, hreply, hmerges⟩, -⟩, hrest⟩ := h
      refine ⟨harmless_of_merges_alone hafter hreply hmerges, ih.1 ?_⟩
      rwa [show (updateFunctionKwargs R call (validateFunction fields)).2 = _ from hafter] at hrest
    · intro h
      obtain ⟨hafter, hmerges⟩ := merges_alone_of_harmless h.1
      refine ⟨⟨⟨hafter, hmerges⟩, rfl⟩, ?_⟩
      rw [show (updateFunctionKwargs R call (validateFunction fields)).2 = _ from hafter]
      exact ih.2 h.2

/-- Values that are integers, mappings and lists of them. -/
def integers : Runtime ℤ where
  eq a b := decide (a = b)
  eq_none_mapping _ := by simp
  eq_none_list _ := by simp
  same a b := decide (a = b)
  same_refl a := by simp
  same_symm a b := by simp [eq_comm]
  hashable _ := true
  order xs := xs
  order_perm xs := List.Perm.refl xs
  updateDict
    | .mapping xs, .mapping ys => (.mapping (ys.foldl (fun d p => assign d p.1 p.2) xs), none)
    | a, .mapping [] => (a, none)
    | a, _ => (a, some .updateDict)

/-- `def f(n = 1)` with a default for `n` inside `kwargs`. -/
def insideKwargs : TaskFields ℤ where
  parameters := Dict.ofPairs [("n", some (.object 1))]
  kwargsDefaults := some (some (Dict.ofPairs [("n", .object 2)]))

/-- `def f(options = {1: 20})` with the default `{1: 10}` as the field. -/
def asField : TaskFields ℤ where
  parameters := Dict.ofPairs [("options", some (.mapping [(1, 20)]))]
  defaultKwargs := some (Dict.ofPairs [("options", .mapping [(1, 10)])])

/-- A call that passes a keyword with a default inside `kwargs` raises, and after a call with the
mapping of the signature one without it gets another default than before. -/
theorem run_merges_broken :
    (¬ ∀ o ∈ run integers [Dict.ofPairs [("n", .object 3)]] (validateFunction insideKwargs),
        o.Merges integers insideKwargs) ∧
      ¬ ∀ o ∈ run integers [Dict.ofPairs [("options", .mapping [(1, 20)])], {}]
          (validateFunction asField),
        o.reply = (updateFunctionKwargs integers o.call (validateFunction asField)).1 := by
  constructor
  · intro h
    obtain ⟨-, result, hreply, -⟩ := h _ List.mem_cons_self
    cases hreply
  · intro h
    have hsecond := h _ (List.mem_cons_of_mem _ List.mem_cons_self)
    have hvalue := congrArg (fun r => r.toOption.bind fun d => d.get? "options") hsecond
    revert hvalue
    decide

end Kvdb.DefaultKwargs
