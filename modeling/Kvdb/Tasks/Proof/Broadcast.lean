import Kvdb.Tasks.Broadcast
import Kvdb.Tasks.Proof.Heartbeats
import Kvdb.Tasks.Proof.Lanes
import Kvdb.Types.Proof.Partition

/-!
# Whom a broadcast reaches

Without a prefix the worker that is merged in at the end decides the route of the job, so each worker
with a heartbeat gets one job, under a key of its own (`Delivers`). With a prefix `enqueue` drops the
worker again, because its name has no prefix, and `map` looks for a key that is not there.
-/

namespace Kvdb

open Python Redis Lib TaskQueue CallConfig

variable {V : Type} {q : CallConfig V} {construct : String → Kwargs V → Option (JobAttrs V)}
  {queue : PyObj V}

/-! ## The keyword arguments -/

theorem kwarg_of_plain (hq : truthyStr q.kwargPrefix = none) (name : String) :
    q.kwarg name = name := by
  rw [kwarg, hq]

theorem kwarg_of_prefixed {p : String} (hq : truthyStr q.kwargPrefix = some p) (name : String) :
    q.kwarg name = p ++ name := by
  rw [kwarg, hq]

/-- What comes later in the display counts. -/
theorem get?_mergedKw (timeout key : PyObj V) (kwargs kw workerKw : Kwargs V) (f : String) :
    (q.mergedKw timeout key kwargs kw workerKw).get? f =
      (workerKw.get? f).or ((kw.get? f).or ((kwargs.get? f).or
        (lastOf [(q.jobTimeoutKwarg, timeout), (q.jobKeyKwarg, key)] f))) := by
  rw [mergedKw, Dict.get?_update, Dict.get?_update, Dict.get?_update, Dict.get?_ofPairs]

theorem pop_pop (kw : Kwargs V) (k : String) : (kw.pop k).pop k = kw.pop k := by
  ext1
  simp [Dict.pop]

theorem jobKey_pop (kw : Kwargs V) (n : ℕ) :
    q.jobKey (kw.pop q.jobKeyKwarg) n = (.str (q.defaultKey n), n + 1) := by
  rw [jobKey, Dict.get?_pop, if_pos rfl]

/-- The keys of the jobs for `len` workers: the first one may be that of the call. -/
def CallConfig.jobKeys (q : CallConfig V) (kw : Kwargs V) (n : ℕ) : ℕ → List (PyObj V)
  | 0 => []
  | len + 1 =>
    (q.jobKey kw n).1 ::
      (List.range' (q.jobKey kw n).2 len).map fun n => PyObj.str (q.defaultKey n)

theorem length_jobKeys (kw : Kwargs V) (n len : ℕ) : (q.jobKeys kw n len).length = len := by
  cases len with
  | zero => rfl
  | succ len => simp [CallConfig.jobKeys]

theorem jobKeys_pop (kw : Kwargs V) (n len : ℕ) :
    q.jobKeys (kw.pop q.jobKeyKwarg) n len =
      (List.range' n len).map fun n => PyObj.str (q.defaultKey n) := by
  cases len with
  | zero => rfl
  | succ len => rw [CallConfig.jobKeys, jobKey_pop, List.range'_succ, List.map_cons]

/-- **One item for each worker**, with its key. -/
theorem spread_fst (timeout : PyObj V) (kwargs kw : Kwargs V) (workerKws : List (Kwargs V)) (n : ℕ) :
    (q.spread timeout kwargs kw workerKws n).1 =
      List.zipWith (fun workerKw key =>
        q.mergedKw timeout key kwargs (kw.pop q.jobKeyKwarg) workerKw)
        workerKws (q.jobKeys kw n workerKws.length) := by
  induction workerKws generalizing kw n with
  | nil => rfl
  | cons workerKw workerKws ih =>
    rw [spread, List.length_cons, CallConfig.jobKeys, List.zipWith_cons_cons]
    dsimp only
    rw [ih, jobKeys_pop, pop_pop]

theorem spreadAll_singleton (timeout : PyObj V) (kwargs kw : Kwargs V)
    (workerKws : List (Kwargs V)) (n : ℕ) :
    (q.spreadAll timeout kwargs workerKws [kw] n).1 =
      (q.spread timeout kwargs kw workerKws n).1 := by
  simp [spreadAll]

/-- What holds of every item. -/
theorem forall_mem_spreadAll {P : Kwargs V → Prop} {timeout : PyObj V} {kwargs : Kwargs V}
    {workerKws iterKwargs : List (Kwargs V)}
    (h : ∀ kw ∈ iterKwargs, ∀ workerKw ∈ workerKws, ∀ key,
      P (q.mergedKw timeout key kwargs (kw.pop q.jobKeyKwarg) workerKw))
    (n : ℕ) : ∀ item ∈ (q.spreadAll timeout kwargs workerKws iterKwargs n).1, P item := by
  induction iterKwargs generalizing n with
  | nil => exact fun item hitem => nomatch hitem
  | cons kw iterKwargs ih =>
    intro item hitem
    rw [spreadAll] at hitem
    rcases List.mem_append.1 hitem with hfirst | hrest
    · rw [spread_fst, ← List.map_uncurry_zip_eq_zipWith] at hfirst
      obtain ⟨⟨workerKw, key⟩, hzip, rfl⟩ := List.mem_map.1 hfirst
      exact h kw List.mem_cons_self workerKw (List.of_mem_zip hzip).1 key
    · exact ih (fun kw hkw => h kw (List.mem_cons_of_mem _ hkw)) _ item hrest

/-! ## The jobs -/

/-- A text or None. -/
def PyObj.isText : PyObj V → Bool
  | none | str _ => true
  | _ => false

/-- What the constructor does with the fields that are texts, and with `kwargs`: it keeps what has its
type, and without a worker there is none. -/
structure Constructs (construct : String → Kwargs V → Option (JobAttrs V)) : Prop where
  text : ∀ {function jobKwargs job}, construct function jobKwargs = some job →
    ∀ f ∈ ["key", "worker_id", "worker_name"], ∀ v : PyObj V, v.isText = true →
      jobKwargs.get? f = some v → job f = v
  worker : ∀ {function jobKwargs job}, construct function jobKwargs = some job →
    ∀ f ∈ ["worker_id", "worker_name"], jobKwargs.get? f = none → job f = .none
  kwargs : ∀ {function jobKwargs job}, construct function jobKwargs = some job →
    ∀ items, jobKwargs.get? "kwargs" = some (.dict items) → job "kwargs" = .dict items

/-- The call is of a function. -/
def JobOrFunc.isFunction : JobOrFunc V → Bool
  | name _ | callable _ => true
  | job _ | other => false

/-- A function is passed to the next call as it is. -/
theorem after_of_isFunction {jobOrFunc : JobOrFunc V} (h : jobOrFunc.isFunction = true)
    (stored : JobAttrs V) : jobOrFunc.after stored = jobOrFunc := by
  cases jobOrFunc with
  | name _ | callable _ | other => rfl
  | job _ => cases h

theorem createJob_function {jobOrFunc : JobOrFunc V} (h : jobOrFunc.isFunction = true)
    {args : List (PyObj V)} {kwargs : Kwargs V} {job : JobAttrs V}
    (hjob : createJob construct jobOrFunc args kwargs = some job) :
    ∃ function jobKwargs, createKwargs args kwargs = some jobKwargs ∧
      construct function jobKwargs = some job := by
  obtain ⟨jobKwargs, hk, hjob⟩ := Option.bind_eq_some_iff.1 hjob
  cases jobOrFunc with
  | job _ | other => cases h
  | name function | callable function =>
    dsimp only at hjob
    split at hjob
    · cases hjob
    · exact ⟨function, jobKwargs, hk, hjob⟩

/-- What `enqueue` leaves of the keywords, of a call that is not refused. -/
theorem enqueueCall_eq_some {queued : PyObj V} {jobOrFunc : JobOrFunc V} {kw : Kwargs V}
    {stored : JobAttrs V} (h : enqueueCall q construct queue queued jobOrFunc kw = some stored) :
    ∃ job, createJob construct jobOrFunc []
        (enqueueKwargs q.kwargPrefix (kw.pop "return_existing_job")) = some job ∧
      ∀ f, lastOf (enqueueAttrs queue queued) f = none → stored f = job f := by
  rw [enqueueCall] at h
  split at h
  · cases h
  obtain ⟨job, hjob, rfl⟩ := Option.map_eq_some_iff.1 h
  refine ⟨job, hjob, fun f hf => ?_⟩
  rw [setAll_apply, hf, Option.getD_none]

/-- A field that is a text, from the keywords that reach `create`. -/
theorem enqueueCall_field {queued : PyObj V} {jobOrFunc : JobOrFunc V}
    (hf : jobOrFunc.isFunction = true) {kw : Kwargs V} {stored : JobAttrs V}
    (h : enqueueCall q construct queue queued jobOrFunc kw = some stored) {f : String}
    (hfield : f ∈ ["key", "worker_id", "worker_name"]) :
    ∃ function jobKwargs job, construct function jobKwargs = some job ∧ stored f = job f ∧
      jobKwargs.get? f =
        (enqueueKwargs q.kwargPrefix (kw.pop "return_existing_job")).get? f := by
  obtain ⟨job, hjob, hstored⟩ := enqueueCall_eq_some h
  obtain ⟨function, jobKwargs, hk, hconstruct⟩ := createJob_function hf hjob
  have hne : f ∈ jobFields ∧ f ≠ "args" ∧ f ≠ "kwargs" ∧
      lastOf (enqueueAttrs queue queued) f = none := by
    simp only [List.mem_cons, List.not_mem_nil, or_false] at hfield
    rcases hfield with rfl | rfl | rfl <;> exact ⟨by decide, by decide, by decide, rfl⟩
  refine ⟨function, jobKwargs, job, hconstruct, hstored f hne.2.2.2, ?_⟩
  rw [createKwargs_get? hk hne.2.1 hne.2.2.1, if_pos hne.1]

theorem enqueueCall_text (hc : Constructs construct) {queued : PyObj V} {jobOrFunc : JobOrFunc V}
    (hf : jobOrFunc.isFunction = true) {kw : Kwargs V} {stored : JobAttrs V}
    (h : enqueueCall q construct queue queued jobOrFunc kw = some stored) {f : String}
    (hfield : f ∈ ["key", "worker_id", "worker_name"]) {v : PyObj V} (hv : v.isText = true)
    (hget : (enqueueKwargs q.kwargPrefix (kw.pop "return_existing_job")).get? f = some v) :
    stored f = v := by
  obtain ⟨function, jobKwargs, job, hconstruct, hstored, hjob⟩ := enqueueCall_field hf h hfield
  rw [hstored]
  exact hc.text hconstruct f hfield v hv (hjob.trans hget)

theorem enqueueCall_worker (hc : Constructs construct) {queued : PyObj V}
    {jobOrFunc : JobOrFunc V} (hf : jobOrFunc.isFunction = true) {kw : Kwargs V}
    {stored : JobAttrs V}
    (h : enqueueCall q construct queue queued jobOrFunc kw = some stored) {f : String}
    (hfield : f ∈ ["worker_id", "worker_name"])
    (hget : (enqueueKwargs q.kwargPrefix (kw.pop "return_existing_job")).get? f = none) :
    stored f = .none := by
  obtain ⟨function, jobKwargs, job, hconstruct, hstored, hjob⟩ :=
    enqueueCall_field hf h (List.mem_cons_of_mem _ hfield)
  rw [hstored]
  exact hc.worker hconstruct f hfield (hjob.trans hget)

/-- **The calls one by one**: each one is of the function, on its own keywords. -/
theorem enqueueCalls_eq_some {queued : ℕ → PyObj V} {jobOrFunc : JobOrFunc V}
    (hf : jobOrFunc.isFunction = true) {kws : List (Kwargs V)} {i : ℕ}
    {stored : List (JobAttrs V)}
    (h : enqueueCalls q construct queue queued jobOrFunc kws i = some stored) :
    List.Forall₂ (fun kw attrs => ∃ queued,
      enqueueCall q construct queue queued jobOrFunc kw = some attrs) kws stored := by
  induction kws generalizing i stored with
  | nil =>
    cases h
    exact .nil
  | cons kw kws ih =>
    obtain ⟨first, hfirst, hrest⟩ := Option.bind_eq_some_iff.1 h
    rw [after_of_isFunction hf] at hrest
    obtain ⟨rest, hcalls, rfl⟩ := Option.map_eq_some_iff.1 hrest
    exact .cons ⟨_, hfirst⟩ (ih hcalls)

theorem forall_mem_of_forall₂ {α β : Type*} {P : β → Prop} {xs : List α} {ys : List β}
    (h : List.Forall₂ (fun _ y => P y) xs ys) : ∀ y ∈ ys, P y := by
  induction h with
  | nil => exact fun y hy => (List.not_mem_nil hy).elim
  | cons hy _ ih => exact List.forall_mem_cons.2 ⟨hy, ih⟩

/-! ## The routes -/

theorem ofStr_eq_none {o : Option String} : (PyObj.ofStr o : PyObj V) = .none ↔ o = none := by
  cases o <;> simp [PyObj.ofStr]

theorem ofStr_eq_str {o : Option String} {s : String} :
    (PyObj.ofStr o : PyObj V) = .str s ↔ o = some s := by
  cases o <;> simp [PyObj.ofStr]

section
variable {queueName : String} {job : Job V}

theorem route_of_workerId {w : String} (h : job.attrs queueName queue "worker_id" = .str w)
    (hw : w ≠ "") : job.route = some w := by
  have hattr : PyObj.ofStr (V := V) job.workerId = .str w := h
  simp [Job.route, ofStr_eq_str.1 hattr, truthyStr, hw]

theorem route_of_none (hid : job.attrs queueName queue "worker_id" = .none)
    (hname : job.attrs queueName queue "worker_name" = .none) : job.route = none := by
  have hattrId : PyObj.ofStr (V := V) job.workerId = .none := hid
  have hattrName : PyObj.ofStr (V := V) job.workerName = .none := hname
  simp [Job.route, ofStr_eq_none.1 hattrId, ofStr_eq_none.1 hattrName, truthyStr]

theorem key_of_attrs {key : String} (h : job.attrs queueName queue "key" = .str key) :
    job.key = key :=
  PyObj.str.inj h

end

/-! ## Without a prefix -/

theorem enqueueKwargs_of_plain {p : Option String} (hp : truthyStr p = none) (kwargs : Kwargs V) :
    enqueueKwargs p kwargs = kwargs := by
  cases p with
  | none => rfl
  | some s =>
    have hs : s = "" := by
      by_contra hs
      simp [truthyStr, hs] at hp
    simp [enqueueKwargs, hs]

theorem get?_workerIdKw (w f : String) :
    (workerIdKw w : Kwargs V).get? f = if f = "worker_id" then some (.str w) else none := by
  rw [workerIdKw, Dict.get?_ofPairs, lastOf_singleton]

theorem get?_workerNameKw (w f : String) :
    (workerNameKw w : Kwargs V).get? f = if f = "worker_name" then some (.str w) else none := by
  rw [workerNameKw, Dict.get?_ofPairs, lastOf_singleton]

/-- The keywords of the function are those of the call. -/
def CallsWith (kwargs : Kwargs V) (attrs : JobAttrs V) : Prop :=
  ∃ items, attrs "kwargs" = .dict items ∧
    ∀ k, k ∉ jobFields → k ≠ "return_existing_job" → lastOf items k = kwargs.get? k

theorem lastOf_functionKeywords (kwargs : Kwargs V) {k : String} (hk : k ∉ jobFields) :
    lastOf (functionKeywords kwargs) k = kwargs.get? k := by
  have hget := Dict.get?_filter_key kwargs (fun k => decide (k ∉ jobFields)) k
  rw [if_pos (decide_eq_true hk)] at hget
  exact hget

section
variable (hq : truthyStr q.kwargPrefix = none)
include hq

theorem jobKeyKwarg_of_plain : q.jobKeyKwarg = "key" := kwarg_of_plain hq "key"

theorem jobTimeoutKwarg_of_plain : q.jobTimeoutKwarg = "timeout" := kwarg_of_plain hq "timeout"

/-- The key of an item whose worker is merged in. -/
theorem get?_key_mergedKw (timeout key : PyObj V) (kwargs kw workerKw : Kwargs V)
    (hworker : workerKw.get? "key" = none) :
    (q.mergedKw timeout key ((kwargs.pop q.jobTimeoutKwarg).pop q.jobKeyKwarg)
      (kw.pop q.jobKeyKwarg) workerKw).get? "key" = some key := by
  have hlast : lastOf [("timeout", timeout), ("key", key)] "key" = some key := rfl
  rw [get?_mergedKw, jobKeyKwarg_of_plain hq, jobTimeoutKwarg_of_plain hq, hworker,
    Dict.get?_pop, if_pos rfl, Dict.get?_pop, if_pos rfl, hlast]
  rfl

theorem get?_function_mergedKw (timeout key : PyObj V) (kwargs : Kwargs V) (w : String) {k : String}
    (hk : k ∉ jobFields) :
    (q.mergedKw timeout key ((kwargs.pop q.jobTimeoutKwarg).pop q.jobKeyKwarg)
      (kwargs.pop q.jobKeyKwarg) (workerIdKw w)).get? k = kwargs.get? k := by
  have hne : ∀ f ∈ jobFields, k ≠ f := fun f hf he => hk (he ▸ hf)
  have hworker : k ≠ "worker_id" := hne _ (by decide)
  have hkey : k ≠ "key" := hne _ (by decide)
  have htimeout : k ≠ "timeout" := hne _ (by decide)
  have hlast : lastOf [("timeout", timeout), ("key", key)] k = none := by
    rw [lastOf_eq_none]
    simp [hkey, htimeout]
  rw [get?_mergedKw, jobKeyKwarg_of_plain hq, jobTimeoutKwarg_of_plain hq, hlast,
    get?_workerIdKw, if_neg hworker, Dict.get?_pop, if_neg hkey, Dict.get?_pop, if_neg hkey,
    Dict.get?_pop, if_neg htimeout]
  cases kwargs.get? k <;> rfl

/-- **The job for a worker**: it has the key, is routed to the worker, and is the same call. -/
theorem enqueueCall_workerId (hc : Constructs construct) {queued : PyObj V}
    {jobOrFunc : JobOrFunc V} (hf : jobOrFunc.isFunction = true) {timeout : PyObj V}
    {kwargs : Kwargs V} (hkwargs : kwargs.get? "kwargs" = none) {w key : String}
    {attrs : JobAttrs V}
    (h : enqueueCall q construct queue queued jobOrFunc
      (q.mergedKw timeout (.str key) ((kwargs.pop q.jobTimeoutKwarg).pop q.jobKeyKwarg)
        (kwargs.pop q.jobKeyKwarg) (workerIdKw w)) = some attrs) :
    attrs "key" = .str key ∧ attrs "worker_id" = .str w ∧ CallsWith kwargs attrs := by
  refine ⟨enqueueCall_text hc hf h (by simp) rfl ?_, enqueueCall_text hc hf h (by simp) rfl ?_, ?_⟩
  · rw [enqueueKwargs_of_plain hq, Dict.get?_pop, if_neg (by decide)]
    exact get?_key_mergedKw hq _ _ _ _ _ (by rw [get?_workerIdKw, if_neg (by decide)])
  · rw [enqueueKwargs_of_plain hq, Dict.get?_pop, if_neg (by decide), get?_mergedKw,
      get?_workerIdKw, if_pos rfl, Option.some_or]
  · obtain ⟨job, hjob, hstored⟩ := enqueueCall_eq_some h
    obtain ⟨function, jobKwargs, hk, hconstruct⟩ := createJob_function hf hjob
    rw [enqueueKwargs_of_plain hq] at hk
    have hnone : (q.mergedKw timeout (.str key) ((kwargs.pop q.jobTimeoutKwarg).pop q.jobKeyKwarg)
        (kwargs.pop q.jobKeyKwarg) (workerIdKw w)).get? "kwargs" = none := by
      rw [get?_mergedKw, jobKeyKwarg_of_plain hq, jobTimeoutKwarg_of_plain hq, get?_workerIdKw,
        if_neg (by decide), Dict.get?_pop, if_neg (by decide), Dict.get?_pop, if_neg (by decide),
        Dict.get?_pop, if_neg (by decide), hkwargs]
      rfl
    have hitems := createKwargs_function hk (by rw [Dict.get?_pop, if_neg (by decide), hnone])
    refine ⟨_, (hstored "kwargs" rfl).trans (hc.kwargs hconstruct _ hitems), fun k hfield hne => ?_⟩
    rw [lastOf_functionKeywords _ hfield, Dict.get?_pop, if_neg hne]
    exact get?_function_mergedKw hq _ _ _ _ hfield

end

/-! ## The keys -/

/-- The keys of the jobs are texts: the one of the call, if there is one, and default keys. -/
theorem exists_keys {kw : Kwargs V}
    (hkey : ∀ v, kw.get? q.jobKeyKwarg = some v → ∃ s, v = .str s) (n len : ℕ) :
    ∃ keys : List String, q.jobKeys kw n len = keys.map PyObj.str ∧
      ∀ {f : String → String}, Function.Injective (fun m => f (q.defaultKey m)) →
        (∀ s, kw.get? q.jobKeyKwarg = some (.str s) → ∀ m, f s ≠ f (q.defaultKey m)) →
        (keys.map f).Nodup := by
  cases len with
  | zero => exact ⟨[], rfl, fun _ _ => List.nodup_nil⟩
  | succ len =>
    obtain ⟨first, m, hfirst, hcase⟩ : ∃ first m, q.jobKey kw n = (.str first, m) ∧
        (kw.get? q.jobKeyKwarg = some (.str first) ∨ first = q.defaultKey n ∧ n < m) := by
      rw [CallConfig.jobKey]
      cases hget : kw.get? q.jobKeyKwarg with
      | none => exact ⟨_, _, rfl, .inr ⟨rfl, n.lt_succ_self⟩⟩
      | some v =>
        obtain ⟨s, rfl⟩ := hkey v hget
        dsimp only
        split
        · exact ⟨s, n, rfl, .inl rfl⟩
        · exact ⟨_, _, rfl, .inr ⟨rfl, n.lt_succ_self⟩⟩
    refine ⟨first :: (List.range' m len).map q.defaultKey, ?_, fun hinj happart => ?_⟩
    · rw [CallConfig.jobKeys, hfirst, List.map_cons, List.map_map]
      rfl
    · rw [List.map_cons, List.map_map, List.nodup_cons]
      refine ⟨fun hmem => ?_, (List.nodup_range' ..).map hinj⟩
      obtain ⟨k, hk, heq⟩ := List.mem_map.1 hmem
      rcases hcase with hgiven | ⟨rfl, hlt⟩
      · exact happart first hgiven k heq.symm
      · have hkn : k = n := hinj heq
        have hle := (List.mem_range'_1.1 hk).1
        omega

/-! ## The jobs on the server -/

/-- The steps of the calls. -/
def enqueueActs (jobs : List (Job V)) : List (Act V) := jobs.map fun job => .enqueue job job.queued

section
variable (c : QueueConfig)

theorem abort_enqueue (db : Db V) (job : Job V) (now : ℤ) :
    (apply c db (.enqueue job now)).abort = db.abort := by
  rw [apply, TaskQueue.enqueue, enqueueScript]
  split
  · split <;> rfl
  · rfl

theorem lanes_enqueue_of_ne (db : Db V) {job : Job V} {r : Route} (h : job.route ≠ r) (now : ℤ) :
    (apply c db (.enqueue job now)).lanes r = db.lanes r := by
  rw [apply_lanes, laneOp, if_neg fun hr => h hr.1]
  rfl

theorem lanes_enqueueActs_of_notMem {db : Db V} {jobs : List (Job V)} {r : Route}
    (h : r ∉ jobs.map Job.route) : (run c db (enqueueActs jobs)).lanes r = db.lanes r := by
  induction jobs generalizing db with
  | nil => rfl
  | cons job jobs ih =>
    rw [List.map_cons, List.mem_cons, not_or] at h
    have hrun : run c db (enqueueActs (job :: jobs)) =
        run c (apply c db (.enqueue job job.queued)) (enqueueActs jobs) := rfl
    rw [hrun, ih h.2, lanes_enqueue_of_ne c db (Ne.symm h.1)]

/-- **Each route gets the job that is for it.** -/
theorem lanes_enqueueActs {db : Db V} {jobs : List (Job V)} (hroutes : (jobs.map Job.route).Nodup)
    (hfresh : ∀ job ∈ jobs,
      enqueueAccepts db job.route (job.id c.toKeyConfig) (job.abortId c.toKeyConfig) = true) :
    ∀ job ∈ jobs, (run c db (enqueueActs jobs)).lanes job.route =
      (db.lanes job.route).apply (.add (job.id c.toKeyConfig) job.scheduled) := by
  induction jobs generalizing db with
  | nil => exact fun job hjob => (List.not_mem_nil hjob).elim
  | cons job jobs ih =>
    rw [List.map_cons, List.nodup_cons] at hroutes
    obtain ⟨hnew, hroutes⟩ := hroutes
    have hother : ∀ job' ∈ jobs, job.route ≠ job'.route := fun job' hjob' he =>
      hnew (he ▸ List.mem_map_of_mem hjob')
    have hfresh' : ∀ job' ∈ jobs,
        enqueueAccepts (apply c db (.enqueue job job.queued)) job'.route (job'.id c.toKeyConfig)
          (job'.abortId c.toKeyConfig) = true := by
      intro job' hjob'
      rw [enqueueAccepts, lanes_enqueue_of_ne c db (hother job' hjob'), abort_enqueue]
      exact hfresh job' (List.mem_cons_of_mem _ hjob')
    have hrun : run c db (enqueueActs (job :: jobs)) =
        run c (apply c db (.enqueue job job.queued)) (enqueueActs jobs) := rfl
    intro job' hjob'
    rw [hrun]
    rcases List.mem_cons.1 hjob' with rfl | hjob'
    · rw [lanes_enqueueActs_of_notMem c hnew, apply_lanes, laneOp,
        if_pos ⟨rfl, hfresh _ List.mem_cons_self⟩]
    · rw [ih hroutes hfresh' job' hjob', lanes_enqueue_of_ne c db (hother job' hjob')]

end

/-! ## Whom it reaches -/

/-- What the calls of a broadcast are on, worker by worker. -/
theorem forall₂_broadcast {queued : ℕ → PyObj V} {jobOrFunc : JobOrFunc V}
    (hf : jobOrFunc.isFunction = true) {ids : List String} {workers : Dict String (PyObj V)}
    {kwargs : Kwargs V} {n : ℕ} {stored : List (JobAttrs V)}
    (h : broadcast q construct queue queued jobOrFunc {} (some ids) workers kwargs n = some stored) :
    ∃ timeout, List.Forall₂ (fun p attrs => ∃ queued,
      enqueueCall q construct queue queued jobOrFunc
        (q.mergedKw timeout p.2 ((kwargs.pop q.jobTimeoutKwarg).pop q.jobKeyKwarg)
          (kwargs.pop q.jobKeyKwarg) (workerIdKw p.1)) = some attrs)
      (List.zip ids (q.jobKeys kwargs n ids.length)) stored := by
  rw [broadcast] at h
  split at h
  · cases h
  obtain ⟨kws, hkws, hcalls⟩ := Option.bind_eq_some_iff.1 h
  obtain rfl := Option.some.inj hkws
  have hitems := enqueueCalls_eq_some hf hcalls
  rw [spreadAll_singleton, spread_fst, List.length_map, List.zipWith_map_left,
    ← List.map_uncurry_zip_eq_zipWith, List.forall₂_map_left_iff] at hitems
  exact ⟨_, hitems⟩

/-- Each of the workers gets one job of this call, on its own route and under an id of its own; no other
route changes. -/
structure Delivers (c : QueueConfig) (queueName : String) (queue : PyObj V) (kwargs : Kwargs V)
    (db : Db V) (jobs : List (Job V)) (reached : String → Prop) : Prop where
  ids : (jobs.map fun job => job.id c.toKeyConfig).Nodup
  one : ∀ w, reached w → ∃! job, job ∈ jobs ∧ job.route = some w
  placed : ∀ job ∈ jobs, ∃ w, reached w ∧ job.route = some w ∧
    CallsWith kwargs (job.attrs queueName queue) ∧
    (run c db (enqueueActs jobs)).lanes (some w) =
      (db.lanes (some w)).apply (.add (job.id c.toKeyConfig) job.scheduled)
  others : ∀ r, (∀ w, reached w → r ≠ some w) →
    (run c db (enqueueActs jobs)).lanes r = db.lanes r

theorem delivers_of_ids (c : QueueConfig) (hq : truthyStr q.kwargPrefix = none)
    (hc : Constructs construct) {queued : ℕ → PyObj V} {jobOrFunc : JobOrFunc V}
    (hf : jobOrFunc.isFunction = true) {ids : List String} (hids : ids.Nodup) (hne : ∀ w ∈ ids, w ≠ "")
    {workers : Dict String (PyObj V)} {kwargs : Kwargs V} (hkwargs : kwargs.get? "kwargs" = none)
    (hkey : ∀ v, kwargs.get? "key" = some v → ∃ s, v = .str s ∧
      ∀ m, c.jobId s ≠ c.jobId (q.defaultKey m))
    (hinj : Function.Injective fun m => c.jobId (q.defaultKey m)) {n : ℕ} {queueName : String}
    {jobs : List (Job V)}
    (h : broadcast q construct queue queued jobOrFunc {} (some ids) workers kwargs n =
      some (jobs.map (Job.attrs queueName queue)))
    {db : Db V} (hfresh : ∀ job ∈ jobs,
      enqueueAccepts db job.route (job.id c.toKeyConfig) (job.abortId c.toKeyConfig) = true) :
    Delivers c queueName queue kwargs db jobs (· ∈ ids) := by
  have hkeyKwarg := jobKeyKwarg_of_plain hq
  have htexts : ∀ v, kwargs.get? q.jobKeyKwarg = some v → ∃ s, v = .str s := fun v hv =>
    (hkey v (hkeyKwarg ▸ hv)).imp fun s hs => hs.1
  obtain ⟨keys, hkeys, hnodup⟩ := exists_keys htexts n ids.length
  have hlen : keys.length = ids.length := by
    have hlength := congrArg List.length hkeys
    rw [length_jobKeys, List.length_map] at hlength
    exact hlength.symm
  obtain ⟨timeout, hcalls⟩ := forall₂_broadcast hf h
  rw [hkeys, List.zip_map_right, List.forall₂_map_left_iff, List.forall₂_map_right_iff] at hcalls
  have hnonempty : ∀ p ∈ List.zip ids keys, p.1 ≠ "" := fun p hp => hne p.1 (List.of_mem_zip hp).1
  have hall : List.Forall₂ (fun p job => job.key = p.2 ∧ job.route = some p.1 ∧
      CallsWith kwargs (job.attrs queueName queue)) (List.zip ids keys) jobs := by
    refine ((List.forall₂_and_left _ _).2 ⟨hnonempty, hcalls⟩).imp fun p job hp => ?_
    obtain ⟨hw, queued, hcall⟩ := hp
    obtain ⟨hk, hid, hsame⟩ := enqueueCall_workerId hq hc hf hkwargs hcall
    exact ⟨key_of_attrs hk, route_of_workerId hid hw, hsame⟩
  have hroutes : jobs.map Job.route = ids.map some := by
    have heq : (List.zip ids keys).map (fun p => some p.1) = jobs.map Job.route := by
      refine (congrFun (congrFun List.forall₂_eq_eq_eq _) _).mp ?_
      rw [List.forall₂_map_left_iff, List.forall₂_map_right_iff]
      exact hall.imp fun p job hp => hp.2.1.symm
    rw [← heq]
    conv_rhs => rw [← List.map_fst_zip hlen.ge, List.map_map]
    rfl
  have hidsEq : (jobs.map fun job => job.id c.toKeyConfig) = keys.map fun key => c.jobId key := by
    have heq : (List.zip ids keys).map (fun p => c.jobId p.2) =
        jobs.map fun job => job.id c.toKeyConfig := by
      refine (congrFun (congrFun List.forall₂_eq_eq_eq _) _).mp ?_
      rw [List.forall₂_map_left_iff, List.forall₂_map_right_iff]
      exact hall.imp fun p job hp => by rw [Job.id, hp.1]
    rw [← heq]
    conv_rhs => rw [← List.map_snd_zip hlen.le, List.map_map]
    rfl
  have hroutesNodup : (jobs.map Job.route).Nodup := by
    rw [hroutes]
    exact hids.map (Option.some_injective _)
  have hplaced := lanes_enqueueActs c hroutesNodup hfresh
  have hmem : ∀ job ∈ jobs, ∃ w ∈ ids, job.route = some w := by
    intro job hjob
    have hroute : job.route ∈ ids.map some := hroutes ▸ List.mem_map_of_mem hjob
    obtain ⟨w, hw, he⟩ := List.mem_map.1 hroute
    exact ⟨w, hw, he.symm⟩
  have hcalled : ∀ job ∈ jobs, CallsWith kwargs (job.attrs queueName queue) :=
    forall_mem_of_forall₂ (hall.imp fun p job hp => hp.2.2)
  exact {
    ids := by
      rw [hidsEq]
      refine hnodup hinj fun s hs m => ?_
      obtain ⟨s', hs', happart⟩ := hkey _ (hkeyKwarg ▸ hs)
      obtain rfl := PyObj.str.inj hs'
      exact happart m
    one := fun w hw => by
      have hroute : some w ∈ jobs.map Job.route := hroutes ▸ List.mem_map_of_mem hw
      obtain ⟨job, hjob, he⟩ := List.mem_map.1 hroute
      refine ⟨job, ⟨hjob, he⟩, fun job' hjob' => ?_⟩
      exact List.inj_on_of_nodup_map hroutesNodup hjob'.1 hjob (hjob'.2.trans he.symm)
    placed := fun job hjob => by
      obtain ⟨w, hw, he⟩ := hmem job hjob
      exact ⟨w, hw, he, hcalled job hjob, he ▸ hplaced job hjob⟩
    others := fun r hr => by
      refine lanes_enqueueActs_of_notMem c fun hin => ?_
      rw [hroutes] at hin
      obtain ⟨w, hw, he⟩ := List.mem_map.1 hin
      exact hr w hw he.symm }

/-! ## A constructor -/

/-- The text, if it is one. -/
def textOf : Option (PyObj V) → Option String
  | some (.str s) => some s
  | _ => none

/-- A constructor for jobs with a key, a worker and keywords. -/
def plainConstruct (function : String) (jobKwargs : Kwargs V) : Option (JobAttrs V) :=
  match jobKwargs.get? "key" with
  | some (.str key) =>
    some (Function.update
      (({ function, key, workerId := textOf (jobKwargs.get? "worker_id")
          workerName := textOf (jobKwargs.get? "worker_name") } : Job V).attrs "global" .none)
      "kwargs" ((jobKwargs.get? "kwargs").getD (.dict [])))
  | _ => none

theorem ofStr_textOf {v : PyObj V} (h : v.isText = true) :
    PyObj.ofStr (textOf (some v)) = v := by
  cases v with
  | none | str _ => rfl
  | bool _ | int _ | float _ | obj _ | tuple _ | dict _ => cases h

theorem plainConstruct_eq_some {function : String} {jobKwargs : Kwargs V}
    {job : JobAttrs V} (h : plainConstruct function jobKwargs = some job) :
    ∃ key, jobKwargs.get? "key" = some (.str key) ∧ job = Function.update
      (({ function, key, workerId := textOf (jobKwargs.get? "worker_id")
          workerName := textOf (jobKwargs.get? "worker_name") } : Job V).attrs "global" .none)
      "kwargs" ((jobKwargs.get? "kwargs").getD (.dict [])) := by
  rw [plainConstruct] at h
  split at h
  · rename_i key hkey
    exact ⟨key, hkey, (Option.some.inj h).symm⟩
  · cases h

theorem constructs_plainConstruct : Constructs (plainConstruct (V := V)) where
  text hconstruct f hf v hv hget := by
    obtain ⟨key, hkey, rfl⟩ := plainConstruct_eq_some hconstruct
    simp only [List.mem_cons, List.not_mem_nil, or_false] at hf
    rcases hf with rfl | rfl | rfl
    · obtain rfl := Option.some.inj (hkey.symm.trans hget)
      rfl
    · rw [hget, Function.update_of_ne (by decide)]
      exact ofStr_textOf hv
    · rw [hget, Function.update_of_ne (by decide)]
      exact ofStr_textOf hv
  worker hconstruct f hf hget := by
    obtain ⟨key, hkey, rfl⟩ := plainConstruct_eq_some hconstruct
    rcases List.mem_pair.1 hf with rfl | rfl
    · rw [hget, Function.update_of_ne (by decide)]
      rfl
    · rw [hget, Function.update_of_ne (by decide)]
      rfl
  kwargs hconstruct items hget := by
    obtain ⟨key, hkey, rfl⟩ := plainConstruct_eq_some hconstruct
    rw [Function.update_self, hget, Option.getD_some]

/-- What is stored of a job without keywords. -/
theorem setAll_update_attrs (job : Job V) (hjob : job.kwargs = []) (now : ℤ) :
    JobAttrs.setAll (Function.update (job.attrs "global" .none) "kwargs" (.dict []))
      (enqueueAttrs .none (.int now)) =
        ({ job with queued := now, status := .queued } : Job V).attrs "global" .none := by
  have hself : (.dict [] : PyObj V) = job.attrs "global" .none "kwargs" := by
    rw [Job.attrs, hjob]
    rfl
  rw [hself, Function.update_eq_self]
  exact attrs_enqueued "global" .none .none job now

/-- Keys of one letter. -/
def letterKeys (p : Option String) : CallConfig ByteArray where
  kwargPrefix := p
  defaultKey n := String.ofList (List.replicate n 'k')
  truthyObj _ := true

theorem jobId_letterKeys_injective (p : Option String) (c : KeyConfig) :
    Function.Injective fun n => c.jobId ((letterKeys p).defaultKey n) := by
  intro n m h
  have hplain : ∀ n, KeyConfig.keyFromId (c.jobId ((letterKeys p).defaultKey n)) =
      (letterKeys p).defaultKey n := by
    intro n
    refine (KeyConfig.keyFromId_jobId c _).2 fun hmem => ?_
    have hk := List.eq_of_mem_replicate (String.toList_ofList ▸ hmem)
    cases hk
  have hkeys := congrArg KeyConfig.keyFromId h
  dsimp only at hkeys
  rw [hplain, hplain] at hkeys
  have hlen := congrArg (fun s => s.toList.length) hkeys
  simpa [letterKeys] using hlen

/-! ## The workers with a heartbeat -/

/-- A worker is registered by a heartbeat. -/
theorem exists_beat {b : Backend ByteArray V} {interval : ℤ} {es : List (ℕ × Heartbeats.Event V)}
    {workers : TtlMap String V} {id : String}
    (h : es.foldl (Heartbeats.register b interval) workers id ≠ none) :
    workers id ≠ none ∨ ∃ e ∈ es, ∃ name ttl, e.2 = .beat id name ttl := by
  induction es generalizing workers with
  | nil => exact .inl h
  | cons e es ih =>
    rcases ih h with hstep | ⟨e', he', hbeat⟩
    · by_cases hbeat : ∃ name ttl, e.2 = .beat id name ttl
      · exact .inr ⟨e, List.mem_cons_self, hbeat⟩
      · refine .inl fun hnone => hstep ?_
        obtain ⟨t, ev⟩ := e
        cases ev with
        | store key value ex => exact hnone
        | beat id' name ttl =>
          have hne : id ≠ id' := by
            rintro rfl
            exact hbeat ⟨name, ttl, rfl⟩
          simp only [Heartbeats.register]
          cases b.orExpiration (some (Heartbeats.orInterval interval ttl)) with
          | none => exact (Function.update_of_ne hne ..).trans hnone
          | some ex =>
            dsimp only
            split
            · exact (Function.update_of_ne hne ..).trans hnone
            · exact hnone
    · exact .inr ⟨e', List.mem_cons_of_mem _ he', hbeat⟩

/-- The job of the worker `w`. -/
def workerJob : Job ByteArray :=
  { function := "f", key := "k", workerId := some "w", queued := 5, status := .queued }

theorem getWorkerIds_named :
    Heartbeats.getWorkerIds Heartbeats.queueBackend true Heartbeats.namedServer = some ["w"] := by
  decide +kernel

theorem broadcast_named :
    broadcast (letterKeys none) plainConstruct .none (fun _ => .int 5) (.name "f") {}
      (some ["w"]) {} {} 1 = some ([workerJob].map (Job.attrs "global" .none)) := by
  refine Eq.trans (b := some [JobAttrs.setAll (Function.update
    (({ function := "f", key := "k", workerId := some "w" } : Job ByteArray).attrs "global" .none)
      "kwargs" (.dict [])) (enqueueAttrs .none (.int 5))]) rfl ?_
  rw [setAll_update_attrs _ rfl]
  rfl

theorem truthyStr_eq_some {o : Option String} {p : String} (h : truthyStr o = some p) :
    o = some p ∧ p ≠ "" := by
  cases o with
  | none => cases h
  | some s =>
    by_cases hs : s = ""
    · simp [truthyStr, hs] at h
    · obtain rfl : s = p := by simpa [truthyStr, hs] using h
      exact ⟨rfl, hs⟩

/-- A character that is only at the start of a name is not in what follows a prefix. -/
theorem notMem_of_append_eq {p g name : String} (hp : p ≠ "") (h : p ++ g = name) {x : Char}
    (hx : x ∉ name.toList.tail) : x ∉ g.toList := by
  intro hmem
  obtain ⟨y, ys, hy⟩ := List.exists_cons_of_ne_nil (toList_ne_nil hp)
  refine hx ?_
  rw [← h, String.toList_append, hy, List.cons_append, List.tail_cons]
  exact List.mem_append_right _ hmem

theorem removeText_ne {p g f : String} {x : Char} (hf : x ∈ f.toList) (hg : x ∉ g.toList) :
    removeText p g ≠ f := by
  rintro rfl
  rw [removeText, String.toList_ofList] at hf
  exact hg ((remove_sublist p.toList 0 g.toList).subset hf)

/-- The two fields that route a job. -/
def workerFields : List String := ["worker_id", "worker_name"]

theorem w_mem_workerFields {f : String} (hf : f ∈ workerFields) : 'w' ∈ f.toList := by
  rcases List.mem_pair.1 hf with rfl | rfl <;> decide

/-- No keyword of the call is taken for a worker. -/
def Unrouted (p : String) (kwargs : Kwargs V) : Prop :=
  ∀ g v, kwargs.get? (p ++ g) = some v → removeText p g ∉ workerFields

/-- **The worker that is merged in is lost**: the name of its field has no prefix. -/
theorem get?_enqueueKwargs_item {p : String} (hp : truthyStr q.kwargPrefix = some p)
    {timeout key : PyObj V} {kwargs kw workerKw : Kwargs V} (hkwargs : Unrouted p kwargs)
    (hkw : Unrouted p kw) (hworker : ∀ f v, workerKw.get? f = some v → f ∈ workerFields)
    {f : String} (hf : f ∈ workerFields) :
    (enqueueKwargs q.kwargPrefix ((q.mergedKw timeout key kwargs kw workerKw).pop
      "return_existing_job")).get? f = none := by
  obtain ⟨hkwarg, hne⟩ := truthyStr_eq_some hp
  have hw := w_mem_workerFields hf
  by_contra hsome
  obtain ⟨v, hv⟩ := Option.ne_none_iff_exists'.1 hsome
  rw [hkwarg] at hv
  obtain ⟨-, -, g, hg, hread⟩ := mem_enqueueKwargs hne (Dict.mem_items.2 hv)
  rw [Dict.mem_items, Dict.get?_pop] at hg
  split at hg
  · cases hg
  rw [get?_mergedKw, jobTimeoutKwarg, jobKeyKwarg, kwarg_of_prefixed hp, kwarg_of_prefixed hp,
    Option.or_eq_some_iff, Option.or_eq_some_iff, Option.or_eq_some_iff] at hg
  rcases hg with hg | ⟨-, hg | ⟨-, hg | ⟨-, hg⟩⟩⟩
  · rcases List.mem_pair.1 (hworker _ _ hg) with he | he
    · exact removeText_ne hw (notMem_of_append_eq hne he (by decide)) hread
    · exact removeText_ne hw (notMem_of_append_eq hne he (by decide)) hread
  · exact hkw g v hg (hread ▸ hf)
  · exact hkwargs g v hg (hread ▸ hf)
  · -- the name is the one of the timeout or of the key
    rcases List.mem_pair.1 (mem_of_lastOf hg) with he | he
    · obtain rfl := append_inj_right (Prod.mk.inj he).1
      exact removeText_ne hw (by decide) hread
    · obtain rfl := append_inj_right (Prod.mk.inj he).1
      exact removeText_ne hw (by decide) hread

theorem Unrouted.pop {p : String} {kwargs : Kwargs V} (h : Unrouted p kwargs) (k : String) :
    Unrouted p (kwargs.pop k) := by
  intro g v hg
  rw [Dict.get?_pop] at hg
  split at hg
  · cases hg
  · exact h g v hg

/-- The workers that the queue selects by itself. -/
theorem workerFields_of_workerKws {s : Selection V} (hsel : s.workersSelected = [])
    (hselector : s.workerSelector = none) {ids : Option (List String)}
    {workers : Dict String (PyObj V)} {workerKws : List (Kwargs V)}
    (h : s.workerKws ids workers = some workerKws) :
    ∀ workerKw ∈ workerKws, ∀ f v, workerKw.get? f = some v → f ∈ workerFields := by
  intro workerKw hworker f v hget
  have hone : ∃ name, workerKw = workerIdKw name ∨ workerKw = workerNameKw name := by
    rw [Selection.workerKws, hsel, hselector] at h
    simp only [List.isEmpty_nil, Bool.not_true, Bool.false_eq_true, if_false] at h
    split at h
    · cases h
      obtain ⟨name, -, rfl⟩ := List.mem_map.1 hworker
      exact ⟨name, .inr rfl⟩
    · obtain ⟨ids', -, rfl⟩ := Option.map_eq_some_iff.1 h
      obtain ⟨name, -, rfl⟩ := List.mem_map.1 hworker
      exact ⟨name, .inl rfl⟩
  obtain ⟨name, rfl | rfl⟩ := hone
  · rw [get?_workerIdKw] at hget
    split at hget
    · rename_i hf
      exact hf ▸ List.mem_cons_self
    · cases hget
  · rw [get?_workerNameKw] at hget
    split at hget
    · rename_i hf
      exact hf ▸ List.mem_cons_of_mem _ List.mem_cons_self
    · cases hget

/-- **With a prefix a broadcast reaches no worker**: all its jobs are on the common queue, whatever
workers the queue selects. -/
theorem broadcast_common (c : QueueConfig) {p : String} (hp : truthyStr q.kwargPrefix = some p)
    (hc : Constructs construct) {queued : ℕ → PyObj V} {jobOrFunc : JobOrFunc V}
    (hf : jobOrFunc.isFunction = true) {s : Selection V} (hsel : s.workersSelected = [])
    (hselector : s.workerSelector = none) {ids : Option (List String)}
    {workers : Dict String (PyObj V)} {kwargs : Kwargs V} (hkwargs : Unrouted p kwargs) {n : ℕ}
    {queueName : String} {jobs : List (Job V)}
    (h : broadcast q construct queue queued jobOrFunc s ids workers kwargs n =
      some (jobs.map (Job.attrs queueName queue))) (db : Db V) :
    (∃ workerKws, { s with broadcast := true }.workerKws ids workers = some workerKws ∧
      jobs.length = workerKws.length) ∧
    (∀ job ∈ jobs, job.route = none) ∧
    ∀ w, (run c db (enqueueActs jobs)).lanes (some w) = db.lanes (some w) := by
  rw [broadcast] at h
  split at h
  · cases h
  obtain ⟨kws, hkws, hcalls⟩ := Option.bind_eq_some_iff.1 h
  rw [prepareJobKws, if_pos (by simp [Selection.isMade])] at hkws
  obtain ⟨workerKws, hworkers, rfl⟩ := Option.map_eq_some_iff.1 hkws
  have hitems := enqueueCalls_eq_some hf hcalls
  rw [List.forall₂_map_right_iff] at hitems
  have hlost : ∀ item ∈ (q.spreadAll ((kwargs.get? q.jobTimeoutKwarg).getD (.int q.jobTimeout))
      ((kwargs.pop q.jobTimeoutKwarg).pop q.jobKeyKwarg) workerKws [kwargs] n).1,
      ∀ f ∈ workerFields,
        (enqueueKwargs q.kwargPrefix (item.pop "return_existing_job")).get? f = none := by
    refine forall_mem_spreadAll (fun kw hkw workerKw hworker key f hfield => ?_) n
    obtain rfl := List.mem_singleton.1 hkw
    exact get?_enqueueKwargs_item hp ((hkwargs.pop _).pop _) (hkwargs.pop _)
      (workerFields_of_workerKws (s := { s with broadcast := true }) hsel hselector hworkers
        workerKw hworker) hfield
  have hroutes : ∀ job ∈ jobs, job.route = none := by
    refine forall_mem_of_forall₂ (((List.forall₂_and_left _ _).2 ⟨hlost, hitems⟩).imp fun item job hi => ?_)
    obtain ⟨hnone, queued, hcall⟩ := hi
    have hattr : ∀ f ∈ workerFields, job.attrs queueName queue f = .none := fun f hfield =>
      enqueueCall_worker hc hf hcall hfield (hnone f hfield)
    exact route_of_none (hattr _ (by decide)) (hattr _ (by decide))
  refine ⟨⟨workerKws, hworkers, ?_⟩, hroutes, fun w => lanes_enqueueActs_of_notMem c fun hmem => ?_⟩
  · rw [← hitems.length_eq, spreadAll_singleton, spread_fst, List.length_zipWith, length_jobKeys,
      min_self]
  · obtain ⟨job, hjob, hroute⟩ := List.mem_map.1 hmem
    rw [hroutes job hjob] at hroute
    cases hroute

/-- The jobs for the workers `a` and `b`. -/
def commonJobs : List (Job ByteArray) :=
  [{ function := "f", key := "k", queued := 5, status := .queued },
    { function := "f", key := "kk", queued := 5, status := .queued }]

theorem broadcast_commonJobs :
    broadcast (letterKeys (some "job_")) plainConstruct .none (fun _ => .int 5) (.name "f")
      { workerNames := ["a", "b"] } none {} {} 1 =
        some (commonJobs.map (Job.attrs "global" .none)) := by
  refine Eq.trans (b := some ([{ function := "f", key := "k" }, { function := "f", key := "kk" }].map
    fun job : Job ByteArray => JobAttrs.setAll (Function.update (job.attrs "global" .none) "kwargs"
      (.dict [])) (enqueueAttrs .none (.int 5)))) rfl ?_
  rw [List.map_cons, List.map_singleton, setAll_update_attrs _ rfl, setAll_update_attrs _ rfl]
  rfl

theorem broadcast_common_two :
    (∃ workerKws, ({ workerNames := ["a", "b"], broadcast := true } : Selection ByteArray).workerKws
      none {} = some workerKws ∧ commonJobs.length = workerKws.length) ∧
    (∀ job ∈ commonJobs, job.route = none) ∧
    ∀ w, (run {} ({} : Db ByteArray) (enqueueActs commonJobs)).lanes (some w) =
      ({} : Db ByteArray).lanes (some w) := by
  have hkwargs : Unrouted "job_" ({} : Kwargs ByteArray) := by
    intro g v hg
    rw [Dict.get?_empty] at hg
    cases hg
  exact broadcast_common {} rfl constructs_plainConstruct rfl rfl rfl hkwargs broadcast_commonJobs {}

/-! ## What `map` waits for -/

/-- The keys and the jobs come from the same items. -/
theorem forall₂_mapCall {queued : PyObj V} {jobOrFunc : JobOrFunc V} {kws : List (Kwargs V)}
    {keys : List (PyObj V)} {stored : List (JobAttrs V)} (hkeys : mapJobKeys kws = some keys)
    (hstored : kws.mapM (enqueueCall q construct queue queued jobOrFunc) = some stored) :
    List.Forall₂ (fun key attrs => ∃ kw : Kwargs V, kw.get? "key" = some key ∧
      enqueueCall q construct queue queued jobOrFunc kw = some attrs) keys stored := by
  induction kws generalizing keys stored with
  | nil =>
    cases hkeys
    cases hstored
    exact .nil
  | cons kw kws ih =>
    rw [mapJobKeys, List.mapM_cons] at hkeys
    rw [List.mapM_cons] at hstored
    obtain ⟨key, hkey, hkeys⟩ := Option.bind_eq_some_iff.1 hkeys
    obtain ⟨keys', hkeys', hkeys⟩ := Option.bind_eq_some_iff.1 hkeys
    obtain ⟨attrs, hattrs, hstored⟩ := Option.bind_eq_some_iff.1 hstored
    obtain ⟨stored', hstored', hstored⟩ := Option.bind_eq_some_iff.1 hstored
    cases hkeys
    cases hstored
    exact .cons ⟨kw, hkey, hattrs⟩ (ih hkeys' hstored')

theorem length_append_toList (p name : String) :
    (p ++ name).toList.length = p.toList.length + name.toList.length := by
  rw [String.toList_append, List.length_append]

/-- The plain name of the key is the name of nothing that the queue adds. -/
theorem get?_key_prefixed {p : String} (hp : truthyStr q.kwargPrefix = some p)
    {timeout key : PyObj V} {kwargs kw workerKw : Kwargs V} (hkwargs : kwargs.get? "key" = none)
    (hkw : kw.get? "key" = none) (hworker : workerKw.get? "key" = none) :
    (q.mergedKw timeout key kwargs kw workerKw).get? "key" = none := by
  have hlen : 0 < p.toList.length :=
    List.length_pos_of_ne_nil (toList_ne_nil (truthyStr_eq_some hp).2)
  have hne : ∀ name ∈ ["timeout", "key"], "key" ≠ p ++ name := by
    intro name hname he
    have hlength := congrArg (fun s => s.toList.length) he
    rw [length_append_toList] at hlength
    rcases List.mem_pair.1 hname with rfl | rfl
    · have hlong : "timeout".toList.length = 7 ∧ "key".toList.length = 3 := by decide
      omega
    · omega
  have hlast : lastOf [(p ++ "timeout", timeout), (p ++ "key", key)] "key" = none := by
    rw [lastOf_eq_none]
    simpa using ⟨hne "timeout" (by simp), hne "key" (by simp)⟩
  rw [get?_mergedKw, hworker, hkw, hkwargs, jobTimeoutKwarg, jobKeyKwarg, kwarg_of_prefixed hp,
    kwarg_of_prefixed hp, hlast]
  rfl

/-- The items of a call have no plain key, if nothing that is passed has. -/
theorem get?_key_prepareJobKws {p : String} (hp : truthyStr q.kwargPrefix = some p)
    {s : Selection V} (hsel : s.workersSelected = []) (hselector : s.workerSelector = none)
    {ids : Option (List String)} {workers : Dict String (PyObj V)} {kwargs : Kwargs V}
    (hkwargs : kwargs.get? "key" = none) {iterKwargs : List (Kwargs V)}
    (hiter : ∀ kw ∈ iterKwargs, kw.get? "key" = none) {n : ℕ} {kws : List (Kwargs V) × ℕ}
    (h : q.prepareJobKws iterKwargs s ids workers kwargs n = some kws) :
    ∀ item ∈ kws.1, item.get? "key" = none := by
  have hpop : ∀ {kw : Kwargs V} (k : String), kw.get? "key" = none →
      (kw.pop k).get? "key" = none := by
    intro kw k hkw
    rw [Dict.get?_pop, hkw, ite_self]
  have hall : ∀ workerKws : List (Kwargs V), (∀ workerKw ∈ workerKws, workerKw.get? "key" = none) →
      ∀ item ∈ (q.spreadAll ((kwargs.get? q.jobTimeoutKwarg).getD (.int q.jobTimeout))
        ((kwargs.pop q.jobTimeoutKwarg).pop q.jobKeyKwarg) workerKws iterKwargs n).1,
        item.get? "key" = none := fun workerKws hworkers =>
    forall_mem_spreadAll (fun kw hkw workerKw hworker key =>
      get?_key_prefixed hp (hpop _ (hpop _ hkwargs)) (hpop _ (hiter kw hkw))
        (hworkers workerKw hworker)) n
  rw [prepareJobKws] at h
  split at h
  · obtain ⟨workerKws, hworkers, rfl⟩ := Option.map_eq_some_iff.1 h
    refine hall workerKws fun workerKw hworker => ?_
    by_contra hsome
    obtain ⟨v, hv⟩ := Option.ne_none_iff_exists'.1 hsome
    exact absurd (workerFields_of_workerKws hsel hselector hworkers workerKw hworker _ v hv)
      (by decide)
  · cases h
    refine hall [{}] fun workerKw hworker => ?_
    obtain rfl := List.mem_singleton.1 hworker
    rfl

end Kvdb
