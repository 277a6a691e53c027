import Kvdb.Types.Proof.Create

/-!
# The keywords of a call, with a prefix for the properties of the job

With `job_function_kwarg_prefix` set, `enqueue` passes only the extracted keywords to `create`, so
no keyword is left for the function (`functionKeywords_enqueueKwargs`). `Partitions` and
`CronReaches` are what a caller and the schedule tick expect; `partitions_iff` says when they get it.
-/

namespace Kvdb

open Python Redis

variable {V : Type} {p : String}

/-! ## The extraction -/

theorem exists_append_of_isPrefix {k : String} (h : p.toList <+: k.toList) : ∃ g, k = p ++ g := by
  obtain ⟨t, ht⟩ := h
  refine ⟨String.ofList t, String.toList_inj.1 ?_⟩
  rw [String.toList_append, String.toList_ofList, ht]

theorem toList_ne_nil (hp : p ≠ "") : p.toList ≠ [] := by
  intro h
  exact hp (String.toList_inj.1 h)

/-- The prefix goes, and what else of it is in the name. -/
theorem removeText_append (hp : p ≠ "") (g : String) : removeText p (p ++ g) = removeText p g := by
  rw [removeText, String.toList_append, remove_append (toList_ne_nil hp)]
  rfl

theorem removeText_eq_self (hp : p ≠ "") {g : String} :
    removeText p g = g ↔ ¬ p.toList <:+: g.toList := by
  rw [← String.toList_inj, removeText, String.toList_ofList, remove_eq_self]
  exact or_iff_right (toList_ne_nil hp)

/-- An extracted keyword comes from one with the prefix, and is no None. -/
theorem mem_enqueueKwargs (hp : p ≠ "") {kwargs : Kwargs V} {f : String} {v : PyObj V}
    (h : (f, v) ∈ (enqueueKwargs (some p) kwargs).items) :
    f ∈ jobFields ∧ v.isNone = false ∧
      ∃ g, (p ++ g, v) ∈ kwargs.items ∧ removeText p g = f := by
  simp only [enqueueKwargs, if_neg hp, extractKwargs, Dict.filter, if_true, Bool.false_eq_true,
    if_false, List.mem_filter] at h
  have hv : v.isNone = false := by simpa using h.1.2
  have hmem := mem_of_lastOf ((Dict.get?_ofPairs _ _).symm.trans (Dict.mem_items.1 h.1.1))
  obtain ⟨⟨k, w⟩, hk, hif⟩ := List.mem_filterMap.1 hmem
  split at hif
  · rename_i hcond
    obtain ⟨rfl, rfl⟩ := Prod.mk.inj (Option.some.inj hif)
    obtain ⟨g, rfl⟩ := exists_append_of_isPrefix hcond.1
    exact ⟨hcond.2, hv, g, hk, (removeText_append hp g).symm⟩
  · cases hif

/-- A keyword whose name is read back is extracted, unless another one is taken for it. -/
theorem mem_enqueueKwargs_of (hp : p ≠ "") {kwargs : Kwargs V} {f : String} {v : PyObj V}
    (hf : f ∈ jobFields) (hv : v.isNone = false) (hmem : (p ++ f, v) ∈ kwargs.items)
    (hself : removeText p f = f)
    (hother : ∀ g w, (p ++ g, w) ∈ kwargs.items → removeText p g = f → g = f) :
    (f, v) ∈ (enqueueKwargs (some p) kwargs).items := by
  simp only [enqueueKwargs, if_neg hp, extractKwargs, Dict.filter, if_true, Bool.false_eq_true,
    if_false, List.mem_filter]
  refine ⟨⟨?_, by simp [hv]⟩, by simp⟩
  rw [Dict.mem_items, Dict.get?_ofPairs]
  have hread : removeText p (p ++ f) = f := (removeText_append hp f).trans hself
  have hin : (f, v) ∈ kwargs.items.filterMap fun (kw : String × PyObj V) =>
      if p.toList <+: kw.1.toList ∧ removeText p kw.1 ∈ jobFields then
        some (removeText p kw.1, kw.2)
      else none := by
    refine List.mem_filterMap.2 ⟨_, hmem, ?_⟩
    rw [if_pos ⟨by simp, by rwa [hread]⟩, hread]
  cases hl : lastOf _ f with
  | none => exact absurd (List.mem_map_of_mem hin) (lastOf_eq_none.1 hl)
  | some w =>
    obtain ⟨⟨k, w'⟩, hk, hif⟩ := List.mem_filterMap.1 (mem_of_lastOf hl)
    split at hif
    · rename_i hcond
      obtain ⟨hkf, rfl⟩ := Prod.mk.inj (Option.some.inj hif)
      obtain ⟨g, rfl⟩ := exists_append_of_isPrefix hcond.1
      obtain rfl := hother g _ hk ((removeText_append hp g).symm.trans hkf)
      rw [Dict.mem_items] at hk hmem
      rw [← hk, hmem]
    · cases hif

/-- No keyword is left for the function. -/
theorem functionKeywords_enqueueKwargs (hp : p ≠ "") (kwargs : Kwargs V) :
    functionKeywords (enqueueKwargs (some p) kwargs) = [] := by
  refine List.filter_eq_nil_iff.2 fun kw hkw => ?_
  obtain ⟨f, v⟩ := kw
  simpa using (mem_enqueueKwargs hp hkw).1

theorem mem_jobProperties_enqueueKwargs (hp : p ≠ "") {kwargs : Kwargs V}
    {kw : String × PyObj V} :
    kw ∈ jobProperties (enqueueKwargs (some p) kwargs) ↔
      kw ∈ (enqueueKwargs (some p) kwargs).items := by
  rw [jobProperties, List.mem_filter, and_iff_left_iff_imp]
  intro h
  obtain ⟨f, v⟩ := kw
  simpa using (mem_enqueueKwargs hp h).1

/-- **A name that is read back does not contain the prefix**, if every name of `S` in the call is read
back: the keyword that a longer name would be taken for has lost its prefix in turn. -/
theorem not_infix_of_routed (hp : p ≠ "") {kwargs : Kwargs V} {S : List String} {M : ℕ}
    (hM : ∀ f ∈ S, f.toList.length ≤ M)
    (hrouted : ∀ f ∈ S, ∀ v, (p ++ f, v) ∈ kwargs.items →
      (f, v) ∈ (enqueueKwargs (some p) kwargs).items)
    (hother : ∀ g v, (p ++ g, v) ∈ kwargs.items → g ∉ S → removeText p g ∉ S)
    {f : String} (hf : f ∈ S) {v : PyObj V} (hmem : (p ++ f, v) ∈ kwargs.items) :
    ¬ p.toList <:+: f.toList := by
  -- by induction on how much shorter it is than the longest name
  induction hn : M - f.toList.length using Nat.strong_induction_on generalizing f v with
  | _ n ih =>
    obtain ⟨-, -, g, hg, hread⟩ := mem_enqueueKwargs hp (hrouted f hf v hmem)
    by_cases hgf : g = f
    · subst hgf
      exact (removeText_eq_self hp).1 hread
    have hgS : g ∈ S := by
      by_contra hgS
      exact hother g v hg hgS (hread ▸ hf)
    have hlt : f.toList.length < g.toList.length := by
      rw [← hread, removeText, String.toList_ofList]
      refine length_remove_lt fun he => hgf ?_
      rw [← hread, removeText, he, String.ofList_toList]
    have hle := hM g hgS
    have hg' := ih _ (by omega) hgS hg rfl
    exact absurd (((removeText_eq_self hp).2 hg').symm.trans hread) hgf

/-! ## The keywords of a call -/

/-- What a caller expects: each keyword `p ++ f` with a field `f` becomes the property `f`, every
other one a keyword of the function, and `create` raises nothing of its own. -/
structure Partitions (p : String) (jobOrFunc : JobOrFunc V) (kwargs : Kwargs V) : Prop where
  properties : ∀ f ∈ jobFields, ∀ v, (f, v) ∈ jobProperties (enqueueKwargs (some p) kwargs) ↔
    kwargs.get? (p ++ f) = some v
  keywords : ∀ k v, (k, v) ∈ functionKeywords (enqueueKwargs (some p) kwargs) ↔
    kwargs.get? k = some v ∧ ∀ f ∈ jobFields, k ≠ p ++ f
  accepted : (createJob (fun _ _ => some fun _ => .none) jobOrFunc []
    (enqueueKwargs (some p) kwargs)).isSome = true

/-- Every keyword is a property with the prefix, which does not occur in its name again, and is no
None; `function` is not passed along with a name. -/
structure Prefixed (p : String) (jobOrFunc : JobOrFunc V) (kwargs : Kwargs V) : Prop where
  keyword : ∀ k v, kwargs.get? k = some v → ∃ f ∈ jobFields, k = p ++ f ∧
    ¬ p.toList <:+: f.toList ∧ v.isNone = false
  jobOrFunc : match jobOrFunc with
    | .job _ => True
    | .name _ | .callable _ => kwargs.get? (p ++ "function") = none
    | .other => False

theorem length_jobFields : ∀ f ∈ jobFields, f.toList.length ≤ 19 := by decide

theorem append_inj_right {f g : String} (h : p ++ f = p ++ g) : f = g := by
  have hl := congrArg String.toList h
  rw [String.toList_append, String.toList_append] at hl
  exact String.toList_inj.1 (List.append_cancel_left hl)

/-- Without keywords of the function `create` raises nothing but for a second `function`. -/
theorem isSome_createJob_iff {kwargs : Kwargs V} (h : functionKeywords kwargs = [])
    (jobOrFunc : JobOrFunc V) :
    (createJob (fun _ _ => some fun _ => .none) jobOrFunc [] kwargs).isSome = true ↔
      match jobOrFunc with
      | .job _ => True
      | .name _ | .callable _ => kwargs.get? "function" = none
      | .other => False := by
  have hfields : ∀ kw ∈ kwargs.items, kw.1 ∈ jobFields := by
    intro kw hkw
    by_contra hnot
    have hmem : kw ∈ functionKeywords kwargs := List.mem_filter.2 ⟨hkw, by simpa using hnot⟩
    simp [h] at hmem
  obtain ⟨jobKwargs, hk, -⟩ := foldlM_createStep_kwargs
    (d := Dict.ofPairs [("kwargs", .dict []), ("args", .tuple [])]) hfields
  have hcreate : createKwargs [] kwargs = some jobKwargs := hk
  have hfunction := createKwargs_get? hcreate (f := "function") (by decide) (by decide)
  rw [if_pos (by decide)] at hfunction
  rw [createJob, hcreate, Option.bind_some]
  cases jobOrFunc with
  | job job => simp
  | other => simp
  | name function | callable function =>
    simp only [hfunction]
    cases kwargs.get? "function" <;> simp

theorem partitions_iff_prefixed (hp : p ≠ "") (jobOrFunc : JobOrFunc V) (kwargs : Kwargs V) :
    Partitions p jobOrFunc kwargs ↔ Prefixed p jobOrFunc kwargs := by
  have hnone := functionKeywords_enqueueKwargs hp kwargs
  constructor
  · intro h
    have hfield : ∀ k v, (k, v) ∈ kwargs.items → ∃ f ∈ jobFields, k = p ++ f := by
      intro k v hkv
      by_contra hnot
      have hmem := (h.keywords k v).2 ⟨Dict.mem_items.1 hkv, fun f hf he => hnot ⟨f, hf, he⟩⟩
      simp [hnone] at hmem
    have hrouted : ∀ f ∈ jobFields, ∀ v, (p ++ f, v) ∈ kwargs.items →
        (f, v) ∈ (enqueueKwargs (some p) kwargs).items := fun f hf v hmem =>
      (mem_jobProperties_enqueueKwargs hp).1 ((h.properties f hf v).2 (Dict.mem_items.1 hmem))
    have hother : ∀ g v, (p ++ g, v) ∈ kwargs.items → g ∉ jobFields →
        removeText p g ∉ jobFields := by
      intro g v hmem hg
      obtain ⟨f, hf, he⟩ := hfield _ v hmem
      exact absurd (append_inj_right he ▸ hf) hg
    refine ⟨fun k v hkv => ?_, ?_⟩
    · have hmem := Dict.mem_items.2 hkv
      obtain ⟨f, hf, rfl⟩ := hfield k v hmem
      exact ⟨f, hf, rfl, not_infix_of_routed hp length_jobFields hrouted hother hf hmem,
        (mem_enqueueKwargs hp (hrouted f hf v hmem)).2.1⟩
    · have haccepted := (isSome_createJob_iff hnone jobOrFunc).1 h.accepted
      have hfunction : (enqueueKwargs (some p) kwargs).get? "function" = none →
          kwargs.get? (p ++ "function") = none := by
        intro hget
        refine Option.eq_none_iff_forall_ne_some.2 fun v hv => ?_
        have hin := hrouted "function" (by decide) v (Dict.mem_items.2 hv)
        rw [Dict.mem_items, hget] at hin
        cases hin
      cases jobOrFunc with
      | job job => trivial
      | other => exact haccepted
      | name function | callable function => exact hfunction haccepted
  · intro h
    have hread : ∀ g w, (p ++ g, w) ∈ kwargs.items → removeText p g = g := by
      intro g w hg
      obtain ⟨f, -, he, hinfix, -⟩ := h.keyword _ w (Dict.mem_items.1 hg)
      obtain rfl := append_inj_right he
      exact (removeText_eq_self hp).2 hinfix
    have hmem : ∀ f v, (f, v) ∈ (enqueueKwargs (some p) kwargs).items ↔
        (p ++ f, v) ∈ kwargs.items := by
      intro f v
      constructor
      · intro hin
        obtain ⟨-, -, g, hg, rfl⟩ := mem_enqueueKwargs hp hin
        rwa [hread g v hg]
      · intro hin
        obtain ⟨f', hf', he, hinfix, hv⟩ := h.keyword _ v (Dict.mem_items.1 hin)
        obtain rfl := append_inj_right he
        refine mem_enqueueKwargs_of hp hf' hv hin (hread f v hin) fun g w hg hgf => ?_
        exact (hread g w hg).symm.trans hgf
    refine ⟨fun f hf v => ?_, fun k v => ?_, (isSome_createJob_iff hnone jobOrFunc).2 ?_⟩
    · rw [mem_jobProperties_enqueueKwargs hp, hmem, Dict.mem_items]
    · rw [hnone]
      refine iff_of_false List.not_mem_nil fun hw => ?_
      obtain ⟨f, hf, he, -⟩ := h.keyword k v hw.1
      exact hw.2 f hf he
    · have hfunction : kwargs.get? (p ++ "function") = none →
          (enqueueKwargs (some p) kwargs).get? "function" = none := by
        intro hget
        refine Option.eq_none_iff_forall_ne_some.2 fun v hv => ?_
        have hin := (hmem "function" v).1 (Dict.mem_items.2 hv)
        rw [Dict.mem_items, hget] at hin
        cases hin
      have hjob := h.jobOrFunc
      cases jobOrFunc with
      | job job => trivial
      | other => exact hjob
      | name function | callable function => exact hfunction hjob

/-! ## The keywords of a cron job -/

/-- The key, the callback and the time of the job that a cron job enqueues. -/
def CronKwargs.properties (cron : CronKwargs V) (jobKey : PyObj V) (nextScheduled : ℤ) :
    List (String × PyObj V) :=
  ("scheduled", .int nextScheduled) :: (if jobKey.isNone then [] else [("key", jobKey)]) ++
    match truthyStr cron.callback with
    | some callback =>
      ("job_callback", .str callback) ::
        cron.callbackKwargs.elim [] fun kwargs => [("job_callback_kwargs", .dict kwargs.items)]
    | none => []

/-- The keywords that reach `create` when the call of `to_enqueue_kwargs` is enqueued. -/
def CronKwargs.enqueued (cron : CronKwargs V) (p : String) (jobKey : PyObj V) (kwargs : Kwargs V)
    (nextScheduled : ℤ) : Kwargs V :=
  enqueueKwargs (some p)
    (restKwargs (cron.toEnqueueKwargs jobKey true (some p) kwargs nextScheduled))

/-- What the schedule tick expects: the defaults reach the function, the others the job. -/
structure CronReaches (p : String) (cron : CronKwargs V) (jobKey : PyObj V) (kwargs : Kwargs V)
    (nextScheduled : ℤ) : Prop where
  defaults : ∀ k v, (cron.defaults kwargs).get? k = some v →
    (k, v) ∈ functionKeywords (cron.enqueued p jobKey kwargs nextScheduled)
  properties : ∀ kw ∈ cron.properties jobKey nextScheduled,
    kw ∈ jobProperties (cron.enqueued p jobKey kwargs nextScheduled)

/-- There are no defaults, and the prefix does not occur in the names of the others. -/
structure CronPlain (p : String) (cron : CronKwargs V) (jobKey : PyObj V) (kwargs : Kwargs V)
    (nextScheduled : ℤ) : Prop where
  noDefaults : (cron.defaults kwargs).items = []
  names : ∀ kw ∈ cron.properties jobKey nextScheduled, ¬ p.toList <:+: kw.1.toList

/-- The names of `properties`. -/
def cronNames : List String := ["scheduled", "key", "job_callback", "job_callback_kwargs"]

section
variable {cron : CronKwargs V} {jobKey : PyObj V} {kwargs : Kwargs V} {nextScheduled : ℤ}

theorem mem_properties {f : String} {v : PyObj V}
    (h : (f, v) ∈ cron.properties jobKey nextScheduled) : f ∈ cronNames ∧ v.isNone = false := by
  simp only [CronKwargs.properties, List.cons_append, List.mem_cons, List.mem_append] at h
  rcases h with he | hmem | hmem
  · cases he
    exact ⟨by decide, rfl⟩
  · split at hmem
    · cases hmem
    · rename_i hkey
      cases List.mem_singleton.1 hmem
      exact ⟨by decide, by simpa using hkey⟩
  · split at hmem
    · rcases List.mem_cons.1 hmem with he | hmem
      · cases he
        exact ⟨by decide, rfl⟩
      · cases hck : cron.callbackKwargs with
        | none =>
          rw [hck] at hmem
          cases hmem
        | some ck =>
          rw [hck] at hmem
          cases List.mem_singleton.1 hmem
          exact ⟨by decide, rfl⟩
    · cases hmem

/-- Without defaults `to_enqueue_kwargs` has these keywords and `bypass_lock`. -/
theorem plainKwargs_items (h : (cron.defaults kwargs).items = []) :
    (cron.plainKwargs jobKey true kwargs nextScheduled).items =
      (cron.properties jobKey nextScheduled).tail ++
        cron.bypassLock.elim [] (fun b => [("bypass_lock", .bool b)]) ++
        [("scheduled", .int nextScheduled)] := by
  have hd : updateKwargs (Dict.ofPairs [("key", jobKey)]) (cron.defaults kwargs) =
      Dict.ofPairs [("key", jobKey)] := by
    rw [updateKwargs, h]
    rfl
  simp only [CronKwargs.plainKwargs, hd, CronKwargs.properties]
  cases truthyStr cron.callback <;> cases cron.callbackKwargs <;> cases cron.bypassLock <;>
    cases hn : jobKey.isNone <;>
    simp [Dict.ofPairs, Dict.setItem, Dict.filter, assign, hn]

theorem mem_plainKwargs (h : (cron.defaults kwargs).items = []) {f : String} {v : PyObj V} :
    (f, v) ∈ (cron.plainKwargs jobKey true kwargs nextScheduled).items ↔
      (f, v) ∈ cron.properties jobKey nextScheduled ∨
        (f, v) ∈ cron.bypassLock.elim [] fun b => [("bypass_lock", PyObj.bool b)] := by
  have hcons : cron.properties jobKey nextScheduled = ("scheduled", .int nextScheduled) ::
      (cron.properties jobKey nextScheduled).tail := rfl
  rw [plainKwargs_items h, List.mem_append, List.mem_append, List.mem_singleton]
  conv_rhs => rw [hcons, List.mem_cons]
  tauto

theorem mem_plainKwargs_name (h : (cron.defaults kwargs).items = []) {f : String} {v : PyObj V}
    (hmem : (f, v) ∈ (cron.plainKwargs jobKey true kwargs nextScheduled).items) :
    (f, v) ∈ cron.properties jobKey nextScheduled ∨ f = "bypass_lock" := by
  rcases (mem_plainKwargs h).1 hmem with hin | hin
  · exact .inl hin
  · cases hb : cron.bypassLock with
    | none =>
      rw [hb] at hin
      cases hin
    | some b =>
      rw [hb] at hin
      exact .inr (Prod.mk.inj (List.mem_singleton.1 hin)).1

/-- With the prefix none of the keywords is a parameter of `enqueue`. -/
theorem append_ne_parameter (p : String) {f : String} (h : f ∈ "bypass_lock" :: cronNames) :
    p ++ f ∉ ["job_or_func", "return_existing_job"] := by
  intro hin
  have hsuffix : ∀ k ∈ ["job_or_func", "return_existing_job"], ∀ f ∈ "bypass_lock" :: cronNames,
      ¬ f.toList <:+ k.toList := by decide
  refine hsuffix _ hin f h ?_
  rw [String.toList_append]
  exact List.suffix_append _ _

/-- The keywords of the call, with the prefix. -/
theorem mem_restKwargs (h : (cron.defaults kwargs).items = []) {f : String} {v : PyObj V} :
    (p ++ f, v) ∈ (restKwargs (cron.toEnqueueKwargs jobKey true (some p) kwargs
        nextScheduled)).items ↔
      (f, v) ∈ (cron.plainKwargs jobKey true kwargs nextScheduled).items := by
  rw [Dict.mem_items, Dict.mem_items, restKwargs, Dict.get?_popAll, CronKwargs.toEnqueueKwargs,
    Dict.get?_setItem, Dict.get?_ofPairs]
  have hlast' : lastOf ((cron.plainKwargs jobKey true kwargs nextScheduled).items.map
      fun (kw : String × PyObj V) => (p ++ kw.1, kw.2)) (p ++ f) =
      (cron.plainKwargs jobKey true kwargs nextScheduled).get? f := by
    have hlast := lastOf_map (f := fun k => p ++ k) (g := fun w : PyObj V => w) (k := f)
      fun kw (_ : kw ∈ (cron.plainKwargs jobKey true kwargs nextScheduled).items) he =>
        append_inj_right he
    rw [Option.map_id'] at hlast
    exact hlast
  rw [hlast']
  by_cases hin : p ++ f ∈ ["job_or_func", "return_existing_job"]
  · rw [if_pos hin]
    refine iff_of_false nofun fun hget => ?_
    rcases mem_plainKwargs_name h (Dict.mem_items.2 hget) with hprop | rfl
    · exact append_ne_parameter p (List.mem_cons_of_mem _ (mem_properties hprop).1) hin
    · exact append_ne_parameter p List.mem_cons_self hin
  · have hne : p ++ f ≠ "job_or_func" := fun he => hin (he ▸ List.mem_cons_self)
    rw [if_neg hin, if_neg hne]

/-- `bypass_lock` is taken for none of the others. -/
theorem removeText_bypassLock (p : String) : removeText p "bypass_lock" ∉ cronNames := by
  intro hin
  have hsub : ∀ f ∈ cronNames, ¬ f.toList.Sublist "bypass_lock".toList := by decide
  refine hsub _ hin ?_
  rw [removeText, String.toList_ofList]
  exact remove_sublist _ _ _

theorem cronReaches_iff (hp : p ≠ "") :
    CronReaches p cron jobKey kwargs nextScheduled ↔
      CronPlain p cron jobKey kwargs nextScheduled := by
  have hnone := functionKeywords_enqueueKwargs hp
    (restKwargs (cron.toEnqueueKwargs jobKey true (some p) kwargs nextScheduled))
  constructor
  · intro h
    have hdefaults : (cron.defaults kwargs).items = [] := by
      refine List.eq_nil_iff_forall_not_mem.2 fun kw hkw => ?_
      have hin := h.defaults kw.1 kw.2 (Dict.mem_items.1 hkw)
      rw [CronKwargs.enqueued, hnone] at hin
      cases hin
    refine ⟨hdefaults, fun kw hkw => ?_⟩
    obtain ⟨f, v⟩ := kw
    refine not_infix_of_routed (S := cronNames) (M := 19) hp (by decide) ?_ ?_
      (mem_properties hkw).1 ((mem_restKwargs hdefaults).2 ((mem_plainKwargs hdefaults).2 (.inl hkw)))
    · intro g hg w hmem
      rcases mem_plainKwargs_name hdefaults ((mem_restKwargs hdefaults).1 hmem) with hprop | rfl
      · exact (mem_jobProperties_enqueueKwargs hp).1 (h.properties _ hprop)
      · exact absurd hg (by decide)
    · intro g w hmem hg
      rcases mem_plainKwargs_name hdefaults ((mem_restKwargs hdefaults).1 hmem) with hprop | rfl
      · exact absurd (mem_properties hprop).1 hg
      · exact removeText_bypassLock p
  · intro h
    have hdefaults := h.noDefaults
    refine ⟨fun k v hkv => ?_, fun kw hkw => ?_⟩
    · rw [← Dict.mem_items, hdefaults] at hkv
      cases hkv
    · obtain ⟨f, v⟩ := kw
      obtain ⟨hf, hv⟩ := mem_properties hkw
      have hfields : ∀ f ∈ cronNames, f ∈ jobFields := by decide
      have hread := fun {g w} (hg : (g, w) ∈ cron.properties jobKey nextScheduled) =>
        (removeText_eq_self hp).2 (h.names (g, w) hg)
      refine (mem_jobProperties_enqueueKwargs hp).2 ?_
      refine mem_enqueueKwargs_of hp (hfields f hf) hv
        ((mem_restKwargs hdefaults).2 ((mem_plainKwargs hdefaults).2 (.inl hkw))) (hread hkw) ?_
      intro g w hmem hgf
      rcases mem_plainKwargs_name hdefaults ((mem_restKwargs hdefaults).1 hmem) with hprop | rfl
      · exact (hread hprop).symm.trans hgf
      · exact absurd (hgf ▸ hf) (removeText_bypassLock p)

end

/-- **The keywords are partitioned** if and only if all of them are properties with the prefix, and a
cron job has no defaults. -/
theorem partitions_iff (p : String) (hp : p ≠ "") (jobOrFunc : JobOrFunc V) (kwargs : Kwargs V)
    (cron : CronKwargs V) (jobKey : PyObj V) (cronKwargs : Kwargs V) (nextScheduled : ℤ) :
    Partitions p jobOrFunc kwargs ∧ CronReaches p cron jobKey cronKwargs nextScheduled ↔
      Prefixed p jobOrFunc kwargs ∧ CronPlain p cron jobKey cronKwargs nextScheduled :=
  and_congr (partitions_iff_prefixed hp jobOrFunc kwargs) (cronReaches_iff hp)

/-- A call with a timeout for the job, and a cron job without defaults. -/
theorem partitions_timeout :
    "x_" ≠ "" ∧
      Partitions "x_" (.name "f") (Dict.ofPairs [("x_timeout", .int 5)] : Kwargs Unit) ∧
      CronReaches "x_" ({ functionName := "f" } : CronKwargs Unit) (.str "cronjob:f") {} 7 := by
  refine ⟨by decide, (partitions_iff "x_" (by decide) (.name "f")
    (Dict.ofPairs [("x_timeout", .int 5)]) { functionName := "f" } (.str "cronjob:f") {} 7).2
    ⟨⟨fun k v hkv => ?_, rfl⟩, ⟨rfl, fun kw hkw => ?_⟩⟩⟩
  · rw [Dict.get?_ofPairs, lastOf_singleton] at hkv
    split at hkv
    · rename_i hk
      subst hk
      cases hkv
      exact ⟨"timeout", by decide, by decide, by decide, rfl⟩
    · cases hkv
  · rcases List.mem_cons.1 hkw with he | hmem
    · cases he
      decide
    · cases List.mem_singleton.1 hmem
      decide

/-- The keyword of the function does not reach it. -/
theorem not_partitions_keyword :
    ¬ (Partitions "_" (.name "f") (Dict.ofPairs [("_timeout", .int 5), ("a", .int 1)] : Kwargs Unit) ∧
      CronReaches "_" ({ functionName := "f" } : CronKwargs Unit) (.str "cronjob:f") {} 7) := by
  intro h
  have hin := (h.1.keywords "a" (.int 1)).2 ⟨rfl, by decide⟩
  rw [functionKeywords_enqueueKwargs (by decide)] at hin
  cases hin

end Kvdb
