import Kvdb.Types.Create

/-!
# What `Job.create` leaves of a job

`createKwargs_get?` and its siblings say what `create` assigns to each field. `Preserves` is what a
caller expects of a job that is passed with arguments and keywords: the keywords of the function are
merged into those the job has. `create` meets it if and only if nothing of the job's `args` and `kwargs`
is left to keep (`callPreserved_iff`).
-/

namespace Kvdb

open Python Redis

variable {V : Type}

/-! ## The fields after `create` -/

theorem setAll_apply (job : JobAttrs V) (items : List (String × PyObj V)) (f : String) :
    job.setAll items f = (lastOf items f).getD (job f) := by
  induction items generalizing job with
  | nil => rfl
  | cons kw items ih =>
    obtain ⟨k, v⟩ := kw
    refine (ih _).trans ?_
    rw [lastOf_cons]
    by_cases hk : f = k
    · subst hk
      simp
    · simp [hk]

/-- A keyword that is a field sets the field. -/
theorem createStep_field {d : Kwargs V} {k : String} (hk : k ∈ jobFields) (v : PyObj V) :
    createStep d (k, v) = some (d.setItem k v) :=
  if_pos hk

/-- The others go to `kwargs`. -/
theorem createStep_function {d d' : Kwargs V} {k : String} {v : PyObj V} (hk : k ∉ jobFields)
    (h : createStep d (k, v) = some d') :
    ∃ items, d.get? "kwargs" = some (.dict items) ∧
      d' = d.setItem "kwargs" (.dict (assign items k v)) := by
  simp only [createStep, if_neg hk] at h
  split at h
  · rename_i items hd
    exact ⟨items, hd, (Option.some.inj h).symm⟩
  · cases h

/-- The fields other than `kwargs` are those of the keywords. -/
theorem foldlM_createStep_get? {items : List (String × PyObj V)} {d d' : Kwargs V}
    (h : items.foldlM createStep d = some d') {f : String} (hf : f ≠ "kwargs") :
    d'.get? f = if f ∈ jobFields then (lastOf items f).or (d.get? f) else d.get? f := by
  induction items generalizing d with
  | nil =>
    cases h
    split <;> rfl
  | cons kw items ih =>
    obtain ⟨k, v⟩ := kw
    obtain ⟨e, he, hrest⟩ := Option.bind_eq_some_iff.1 h
    have hget : e.get? f = if f = k ∧ k ∈ jobFields then some v else d.get? f := by
      by_cases hk : k ∈ jobFields
      · rw [createStep_field hk] at he
        cases he
        rw [Dict.get?_setItem]
        simp [hk]
      · obtain ⟨items', -, rfl⟩ := createStep_function hk he
        rw [Dict.get?_setItem, if_neg hf]
        simp [hk]
    rw [ih hrest, hget, lastOf_cons]
    by_cases hfield : f ∈ jobFields
    · rw [if_pos hfield, if_pos hfield]
      by_cases hk : f = k
      · have hk' : f = k ∧ k ∈ jobFields := ⟨hk, hk ▸ hfield⟩
        rw [if_pos hk', if_pos hk]
        cases lastOf items f <;> rfl
      · rw [if_neg fun hk' => hk hk'.1, if_neg hk, Option.or_none]
    · rw [if_neg hfield, if_neg hfield, if_neg]
      intro hk
      exact hfield (hk.1 ▸ hk.2)

/-- Without keywords of the function `kwargs` is a field like the others. -/
theorem foldlM_createStep_kwargs {items : List (String × PyObj V)} {d : Kwargs V}
    (h : ∀ kw ∈ items, kw.1 ∈ jobFields) :
    ∃ d', items.foldlM createStep d = some d' ∧
      d'.get? "kwargs" = (lastOf items "kwargs").or (d.get? "kwargs") := by
  induction items generalizing d with
  | nil => exact ⟨d, rfl, rfl⟩
  | cons kw items ih =>
    obtain ⟨k, v⟩ := kw
    obtain ⟨d', hd', hget⟩ := ih (d := d.setItem k v) fun kw hkw => h kw (List.mem_cons_of_mem _ hkw)
    have hstep := createStep_field (d := d) (h (k, v) List.mem_cons_self) v
    refine ⟨d', Option.bind_eq_some_iff.2 ⟨_, hstep, hd'⟩, ?_⟩
    rw [hget, Dict.get?_setItem, lastOf_cons]
    cases lastOf items "kwargs" with
    | some => rfl
    | none => by_cases hk : "kwargs" = k <;> simp [hk]

/-- Unless `kwargs` is passed, it gets the keywords of the function. -/
theorem foldlM_createStep_function {items : List (String × PyObj V)} {d d' : Kwargs V}
    {acc : List (String × PyObj V)} (h : items.foldlM createStep d = some d')
    (hn : ((acc ++ items).map Prod.fst).Nodup) (hd : d.get? "kwargs" = some (.dict acc))
    (hk : "kwargs" ∉ items.map Prod.fst) :
    d'.get? "kwargs" = some (.dict (acc ++ items.filter fun kw => kw.1 ∉ jobFields)) := by
  induction items generalizing d acc with
  | nil =>
    cases h
    simpa using hd
  | cons kw items ih =>
    obtain ⟨k, v⟩ := kw
    obtain ⟨e, he, hrest⟩ := Option.bind_eq_some_iff.1 h
    rw [List.map_cons, List.mem_cons, not_or] at hk
    have hnext : (((acc ++ [(k, v)]) ++ items).map Prod.fst).Nodup := by simpa using hn
    by_cases hfield : k ∈ jobFields
    · rw [createStep_field hfield] at he
      cases he
      have hskip : ((acc ++ items).map Prod.fst).Nodup := by
        refine hn.sublist (List.Sublist.map _ ?_)
        exact List.Sublist.append_left (List.sublist_cons_self _ _) acc
      have hget : (d.setItem k v).get? "kwargs" = some (.dict acc) := by
        rw [Dict.get?_setItem, if_neg hk.1, hd]
      rw [ih hrest hskip hget hk.2, List.filter_cons_of_neg (by simpa using hfield)]
    · obtain ⟨acc', hacc', rfl⟩ := createStep_function hfield he
      obtain rfl : acc = acc' := by
        rw [hd] at hacc'
        exact PyObj.dict.inj (Option.some.inj hacc')
      -- the keyword is a new one, at the end
      have hnew : assign acc k v = acc ++ [(k, v)] := by
        refine if_neg fun hmem => ?_
        rw [List.map_append, List.nodup_append] at hn
        exact hn.2.2 k hmem k (by simp) rfl
      have hget : (d.setItem "kwargs" (.dict (assign acc k v))).get? "kwargs" =
          some (.dict (acc ++ [(k, v)])) := by
        rw [Dict.get?_setItem, if_pos rfl, hnew]
      rw [ih hrest hnext hget hk.2, List.filter_cons_of_pos (by simpa using hfield),
        List.append_assoc, List.singleton_append]

/-- No keyword of the function comes after a `kwargs` that is no dictionary. -/
def assignable : Bool → List (String × PyObj V) → Bool
  | _, [] => true
  | isDict, (k, v) :: items =>
    if k ∈ jobFields then assignable (if k = "kwargs" then v.isDict else isDict) items
    else isDict && assignable isDict items

theorem createStep_eq_none {d : Kwargs V} {k : String} {v w : PyObj V} (hk : k ∉ jobFields)
    (hd : d.get? "kwargs" = some w) (hw : w.isDict = false) : createStep d (k, v) = none := by
  simp only [createStep, if_neg hk, hd]
  cases w with
  | dict items => cases hw
  | none | bool _ | int _ | float _ | str _ | obj _ | tuple _ => rfl

/-- `create` raises nothing else. -/
theorem isSome_foldlM_createStep {items : List (String × PyObj V)} {d : Kwargs V} {w : PyObj V}
    (hd : d.get? "kwargs" = some w) :
    (items.foldlM createStep d).isSome = assignable w.isDict items := by
  induction items generalizing d w with
  | nil => rfl
  | cons kw items ih =>
    obtain ⟨k, v⟩ := kw
    rw [List.foldlM_cons, assignable]
    by_cases hfield : k ∈ jobFields
    · rw [createStep_field hfield, if_pos hfield]
      by_cases hk : k = "kwargs"
      · subst hk
        rw [if_pos rfl]
        exact ih (by rw [Dict.get?_setItem, if_pos rfl])
      · rw [if_neg hk]
        exact ih (by rw [Dict.get?_setItem, if_neg (Ne.symm hk), hd])
    · rw [if_neg hfield]
      cases hw : w.isDict with
      | false =>
        rw [createStep_eq_none hfield hd hw]
        rfl
      | true =>
        obtain ⟨acc, rfl⟩ : ∃ acc, w = .dict acc := by
          cases w with
          | dict acc => exact ⟨acc, rfl⟩
          | none | bool _ | int _ | float _ | str _ | obj _ | tuple _ => cases hw
        have hstep : createStep d (k, v) =
            some (d.setItem "kwargs" (.dict (assign acc k v))) := by
          simp only [createStep, if_neg hfield, hd]
        have hget : (d.setItem "kwargs" (.dict (assign acc k v))).get? "kwargs" =
            some (.dict (assign acc k v)) := by
          rw [Dict.get?_setItem, if_pos rfl]
        rw [hstep]
        exact ih hget

section
variable {args : List (PyObj V)} {kwargs jobKwargs : Kwargs V}
  (h : createKwargs args kwargs = some jobKwargs)
include h

theorem createKwargs_get? {f : String} (ha : f ≠ "args") (hk : f ≠ "kwargs") :
    jobKwargs.get? f = if f ∈ jobFields then kwargs.get? f else none := by
  rw [foldlM_createStep_get? h hk, Dict.get?_ofPairs]
  have hlast : lastOf [("kwargs", PyObj.dict []), ("args", .tuple args)] f = none := by
    rw [lastOf_eq_none]
    simp [ha, hk]
  rw [hlast, Option.or_none]
  rfl

theorem createKwargs_args :
    jobKwargs.get? "args" = (kwargs.get? "args").or (some (.tuple args)) := by
  rw [foldlM_createStep_get? h (by decide), if_pos (by decide)]
  rfl

theorem createKwargs_function (hk : kwargs.get? "kwargs" = none) :
    jobKwargs.get? "kwargs" = some (.dict (functionKeywords kwargs)) := by
  have hd : (Dict.ofPairs [("kwargs", PyObj.dict []), ("args", .tuple args)]).get? "kwargs" =
      some (.dict []) := rfl
  refine foldlM_createStep_function h ?_ hd (lastOf_eq_none.1 hk)
  exact kwargs.nodup

theorem createKwargs_kwargs (hf : functionKeywords kwargs = []) {v : PyObj V}
    (hv : kwargs.get? "kwargs" = some v) : jobKwargs.get? "kwargs" = some v := by
  have hfields : ∀ kw ∈ kwargs.items, kw.1 ∈ jobFields := by
    intro kw hkw
    by_contra hnot
    have hmem : kw ∈ functionKeywords kwargs := List.mem_filter.2 ⟨hkw, by simpa using hnot⟩
    simp [hf] at hmem
  obtain ⟨d', hd', hget⟩ := foldlM_createStep_kwargs
    (d := Dict.ofPairs [("kwargs", .dict []), ("args", .tuple args)]) hfields
  obtain rfl : jobKwargs = d' := Option.some.inj (h.symm.trans hd')
  rw [hget, show lastOf kwargs.items "kwargs" = some v from hv, Option.some_or]

end

/-! ## A job that is passed again -/

/-- What a caller expects of a job that is passed with these arguments and keywords: what is passed
is set, nothing else is. Of the job's `kwargs`, only the keywords that are passed change. -/
structure Preserves (job job' : JobAttrs V) (args : List (PyObj V)) (kwargs : Kwargs V) : Prop where
  other : ∀ f ∉ jobFields, job' f = job f
  property : ∀ f ∈ jobFields, f ≠ "args" → f ≠ "kwargs" →
    job' f = (kwargs.get? f).getD (job f)
  keptArgs : args = [] → kwargs.get? "args" = none → job' "args" = job "args"
  keptKwargs : functionKeywords kwargs = [] → kwargs.get? "kwargs" = none →
    job' "kwargs" = job "kwargs"
  newArgs : args ≠ [] → kwargs.get? "args" = none → job' "args" = .tuple args
  givenArgs : ∀ v, kwargs.get? "args" = some v → job' "args" = v
  newKwargs : functionKeywords kwargs ≠ [] → kwargs.get? "kwargs" = none →
    ∃ items, job' "kwargs" = .dict items ∧
      ∀ k, lastOf items k = (lastOf (functionKeywords kwargs) k).or (lastOf (job "kwargs").items k)
  givenKwargs : functionKeywords kwargs = [] → ∀ v, kwargs.get? "kwargs" = some v →
    job' "kwargs" = v

/-- `args` and `kwargs` are passed, or the job has none, or each of its keywords is passed again; and
the keywords can be assigned. -/
structure Repeatable (job : JobAttrs V) (args : List (PyObj V)) (kwargs : Kwargs V) : Prop where
  assignable : assignable true kwargs.items = true
  noArgs : args ≠ [] ∨ kwargs.get? "args" ≠ none ∨ job "args" = .tuple []
  noKwargs : kwargs.get? "kwargs" ≠ none ∨
    (functionKeywords kwargs = [] ∧ job "kwargs" = .dict []) ∨
    (functionKeywords kwargs ≠ [] ∧ ∀ k ∈ (job "kwargs").items.map Prod.fst,
      k ∈ (functionKeywords kwargs).map Prod.fst)

/-- Creating, enqueueing and re-enqueueing a job with these arguments and keywords preserve what is
not passed. With a prefix, the keywords that reach `create` are those that are extracted. -/
structure CallPreserved (construct : String → Kwargs V → Option (JobAttrs V))
    (kwargPrefix : Option String) (queue queued : PyObj V) (job : JobAttrs V)
    (args : List (PyObj V)) (kwargs : Kwargs V) : Prop where
  created : ∃ job', createJob construct (.job job) args kwargs = some job' ∧
    Preserves job job' args kwargs
  enqueued : ∃ job', createJob construct (.job job) args (enqueueKwargs kwargPrefix kwargs) =
      some job' ∧ Preserves job job' args (enqueueKwargs kwargPrefix kwargs) ∧
    enqueueJob construct kwargPrefix queue queued (.job job) args kwargs =
      some (job'.setAll (enqueueAttrs queue queued))
  reenqueued : args = [] → kwargs.items = [] → ∃ job', Preserves job job' [] {} ∧
    reenqueueJob construct kwargPrefix queue queued job =
      some (job'.setAll (enqueueAttrs queue queued))

section
variable {construct : String → Kwargs V → Option (JobAttrs V)} {job : JobAttrs V}
  {args : List (PyObj V)} {kwargs : Kwargs V}

theorem createJob_job :
    createJob construct (.job job) args kwargs =
      (createKwargs args kwargs).map fun jobKwargs => job.setAll jobKwargs.items := by
  cases hk : createKwargs args kwargs <;> simp [createJob, hk]

/-- The attributes after `create`. -/
theorem createJob_apply {jobKwargs : Kwargs V} {job' : JobAttrs V}
    (hk : createKwargs args kwargs = some jobKwargs)
    (h : createJob construct (.job job) args kwargs = some job') (f : String) :
    job' f = (jobKwargs.get? f).getD (job f) := by
  rw [createJob_job, hk] at h
  obtain rfl : job.setAll jobKwargs.items = job' := Option.some.inj h
  exact setAll_apply job jobKwargs.items f

/-- A dictionary is what it becomes with the items of another merged under it if and only if it has
all keys of the other. -/
theorem lastOf_or_self_iff {items old : List (String × PyObj V)} :
    (∀ k, lastOf items k = (lastOf items k).or (lastOf old k)) ↔
      ∀ k ∈ old.map Prod.fst, k ∈ items.map Prod.fst := by
  refine forall_congr' fun k => ?_
  rw [← not_imp_not, ← lastOf_eq_none, ← lastOf_eq_none]
  cases lastOf items k with
  | some v => simp
  | none => simp [eq_comm]

theorem exists_createKwargs :
    (∃ jobKwargs, createKwargs args kwargs = some jobKwargs) ↔
      assignable true kwargs.items = true := by
  have hd : (Dict.ofPairs [("kwargs", PyObj.dict []), ("args", .tuple args)]).get? "kwargs" =
      some (.dict []) := rfl
  rw [← Option.isSome_iff_exists, createKwargs, isSome_foldlM_createStep hd]
  rfl

/-- `create` preserves what is not passed, but for `args` and the keywords in `kwargs`. -/
theorem preserves_iff :
    (∃ job', createJob construct (.job job) args kwargs = some job' ∧
      Preserves job job' args kwargs) ↔ Repeatable job args kwargs := by
  constructor
  · intro hw
    obtain ⟨job', h, hp⟩ := hw
    have hc := h
    rw [createJob_job] at hc
    obtain ⟨jobKwargs, hk, -⟩ := Option.map_eq_some_iff.1 hc
    have happly := createJob_apply hk h
    refine ⟨exists_createKwargs.1 ⟨jobKwargs, hk⟩, ?_, ?_⟩
    · by_cases ha : args = []
      · cases hg : kwargs.get? "args" with
        | some v => exact .inr (.inl (by simp))
        | none =>
          have hargs := happly "args"
          rw [createKwargs_args hk, hg, hp.keptArgs ha hg, ha] at hargs
          exact .inr (.inr hargs)
      · exact .inl ha
    · cases hg : kwargs.get? "kwargs" with
      | some v => exact .inl (by simp)
      | none =>
        have hkwargs := happly "kwargs"
        rw [createKwargs_function hk hg] at hkwargs
        by_cases hf : functionKeywords kwargs = []
        · rw [hp.keptKwargs hf hg, hf] at hkwargs
          exact .inr (.inl ⟨hf, hkwargs⟩)
        · obtain ⟨items, hitems, hmerged⟩ := hp.newKwargs hf hg
          obtain rfl : items = functionKeywords kwargs := PyObj.dict.inj (hitems.symm.trans hkwargs)
          exact .inr (.inr ⟨hf, lastOf_or_self_iff.1 hmerged⟩)
  · intro hr
    obtain ⟨jobKwargs, hk⟩ := exists_createKwargs.2 hr.assignable
    have h : createJob construct (.job job) args kwargs = some (job.setAll jobKwargs.items) := by
      rw [createJob_job, hk, Option.map_some]
    have happly := createJob_apply hk h
    refine ⟨_, h, ?_⟩
    have hargs := happly "args"
    rw [createKwargs_args hk] at hargs
    exact {
      other := fun f hf => by
        have hne : ∀ g ∈ jobFields, f ≠ g := fun g hg he => hf (he ▸ hg)
        rw [happly, createKwargs_get? hk (hne _ (by decide)) (hne _ (by decide)), if_neg hf,
          Option.getD_none]
      property := fun f hf hfa hfk => by rw [happly, createKwargs_get? hk hfa hfk, if_pos hf]
      keptArgs := fun ha hg => by
        rcases hr.noArgs with hne | hne | hjob
        · exact absurd ha hne
        · exact absurd hg hne
        · rw [hargs, hg, ha, hjob]
          rfl
      keptKwargs := fun hf hg => by
        rcases hr.noKwargs with hne | ⟨-, hjob⟩ | ⟨hne, -⟩
        · exact absurd hg hne
        · rw [happly, createKwargs_function hk hg, hf, hjob]
          rfl
        · exact absurd hf hne
      newArgs := fun _ hg => by
        rw [hargs, hg]
        rfl
      givenArgs := fun v hv => by
        rw [hargs, hv]
        rfl
      newKwargs := fun hf hg => by
        refine ⟨functionKeywords kwargs, ?_, ?_⟩
        · rw [happly, createKwargs_function hk hg]
          rfl
        · rcases hr.noKwargs with hne | ⟨hnone, -⟩ | ⟨-, hcovered⟩
          · exact absurd hg hne
          · exact absurd hnone hf
          · exact lastOf_or_self_iff.2 hcovered
      givenKwargs := fun hf v hv => by
        rw [happly, createKwargs_kwargs hk hf hv]
        rfl }

/-- The call of `enqueue`, from that of `create`. -/
theorem enqueueJob_eq {kwargPrefix : Option String} {queue queued : PyObj V} {job' : JobAttrs V}
    (h : createJob construct (.job job) args (enqueueKwargs kwargPrefix kwargs) = some job') :
    enqueueJob construct kwargPrefix queue queued (.job job) args kwargs =
      some (job'.setAll (enqueueAttrs queue queued)) := by
  rw [enqueueJob, h, Option.map_some]

/-- No keywords are extracted from none. -/
theorem enqueueKwargs_empty (kwargPrefix : Option String) :
    enqueueKwargs kwargPrefix ({} : Kwargs V) = {} := by
  unfold enqueueKwargs
  split
  · split
    · rfl
    · simp [extractKwargs, Dict.filter, Dict.ofPairs]
  · rfl

end

/-- **A job that is passed again keeps its call** if and only if its `args` are passed or empty, and
its `kwargs` are passed, empty or covered by the keywords that are passed. -/
theorem callPreserved_iff (construct : String → Kwargs V → Option (JobAttrs V))
    (kwargPrefix : Option String) (queue queued : PyObj V) (job : JobAttrs V)
    (args : List (PyObj V)) (kwargs : Kwargs V) :
    CallPreserved construct kwargPrefix queue queued job args kwargs ↔
      Repeatable job args kwargs ∧ Repeatable job args (enqueueKwargs kwargPrefix kwargs) := by
  constructor
  · intro h
    obtain ⟨job', hc, hp, -⟩ := h.enqueued
    exact ⟨preserves_iff.1 h.created, preserves_iff.1 ⟨job', hc, hp⟩⟩
  · intro h
    obtain ⟨job', hc, hp⟩ := preserves_iff.2 h.2
    refine ⟨preserves_iff.2 h.1, ⟨job', hc, hp, enqueueJob_eq hc⟩, fun ha hk => ?_⟩
    obtain ⟨items, hnodup⟩ := kwargs
    subst ha
    subst hk
    have hempty : enqueueKwargs kwargPrefix ({} : Kwargs V) = {} := enqueueKwargs_empty kwargPrefix
    have hc' : createJob construct (.job job) [] (enqueueKwargs kwargPrefix {}) = some job' := hc
    refine ⟨job', ?_, enqueueJob_eq hc'⟩
    have hp' : Preserves job job' [] (enqueueKwargs kwargPrefix {}) := hp
    rwa [hempty] at hp'

/-- A job with an argument and a keyword is created again without them. -/
theorem not_callPreserved_args :
    ¬ CallPreserved (fun _ _ => none) none .none (.int 1)
      (({ function := "f", key := "k", args := [()], kwargs := [("a", ())] } : Job Unit).attrs
        "global" .none) [] {} := by
  intro h
  rcases (preserves_iff.1 h.created).noArgs with hne | hne | hargs
  · exact hne rfl
  · exact hne rfl
  · exact nomatch hargs

/-! ## The validated job -/

/-- The attributes that two jobs share. -/
theorem attrs_congr {queueName : String} {queue : PyObj V} {job : Job V} {args : List V}
    {kwargs : List (String × V)} {f : String} (ha : f ≠ "args") (hk : f ≠ "kwargs") :
    ({ job with args, kwargs } : Job V).attrs queueName queue f = job.attrs queueName queue f := by
  unfold Job.attrs
  split <;> first | rfl | contradiction

/-- A job that is passed alone loses its arguments. -/
theorem createJob_attrs (construct : String → Kwargs V → Option (JobAttrs V)) (queueName : String)
    (queue : PyObj V) (job : Job V) :
    createJob construct (.job (job.attrs queueName queue)) [] {} =
      some (({ job with args := [], kwargs := [] } : Job V).attrs queueName queue) := by
  have hcreate : createKwargs [] ({} : Kwargs V) =
      some (Dict.ofPairs [("kwargs", .dict []), ("args", .tuple [])]) := rfl
  rw [createJob_job, hcreate, Option.map_some]
  refine congrArg some (funext fun f => ?_)
  rw [setAll_apply]
  by_cases ha : f = "args"
  · subst ha
    rfl
  by_cases hk : f = "kwargs"
  · subst hk
    rfl
  have hnone : lastOf (Dict.ofPairs [("kwargs", .dict []), ("args", .tuple [])] : Kwargs V).items f =
      none := by
    rw [lastOf_eq_none]
    simp [Dict.ofPairs, Dict.setItem, assign, ha, hk]
  rw [hnone, Option.getD_none]
  exact (attrs_congr ha hk).symm

/-- What `enqueue` sets on a validated job. -/
theorem attrs_enqueued (queueName : String) (queue queue' : PyObj V) (job : Job V) (now : ℤ) :
    (job.attrs queueName queue').setAll (enqueueAttrs queue (.int now)) =
      ({ job with queued := now, status := .queued } : Job V).attrs queueName queue := by
  funext f
  rw [setAll_apply]
  by_cases hqueue : f = "queue"
  · subst hqueue
    rfl
  by_cases hqueued : f = "queued"
  · subst hqueued
    rfl
  by_cases hstatus : f = "status"
  · subst hstatus
    rfl
  have hnone : lastOf (enqueueAttrs queue (.int now)) f = none := by
    rw [lastOf_eq_none]
    simp [enqueueAttrs, hqueue, hqueued, hstatus]
  rw [hnone, Option.getD_none]
  unfold Job.attrs
  split <;> first | rfl | contradiction

end Kvdb
