import Kvdb.Types.Jobs

/-!
# The serialized job (`Job.serialize` and `Job.deserialize` of `types/jobs.py`)

A job is dumped to a dictionary of its plain fields, without those that are None, and five fields that
go through the serializer of the queue one by one; the dictionary goes through it once more. With
`raise_errors = False` a serializer gives None for what it cannot encode or decode
(`BaseSerializer.dumps`, `loads`). What is loaded goes through the validation of the model, which is
a parameter for the five fields (`JobValidation`).

`V` are the objects other than None, `W` what they are encoded to, `B` what a dictionary is encoded to.
An exception is `none` of the outer `Option`.
-/

namespace Kvdb

/-- The plain fields of a job, any of which may be None; of a dictionary, those that it has. -/
structure JobFields where
  function : String
  key : Option String
  status : Option JobStatus
  timeout : Option ℤ
  retries : Option ℤ
  ttl : Option ℤ
  retryDelay : Option ℚ
  maxStuckDuration : Option ℚ
  heartbeat : Option ℤ
  scheduled : Option ℤ
  attempts : Option ℤ
  completed : Option ℤ
  queued : Option ℤ
  started : Option ℤ
  touched : Option ℤ
  deriving DecidableEq

/-- The fields that go through the serializer. -/
structure JobPayload (α : Type) where
  args : α
  kwargs : α
  result : α
  error : α
  metadata : α
  deriving DecidableEq

/-- A job, as it is in memory. -/
structure JobModel (V : Type) where
  fields : JobFields
  payload : JobPayload (Option V)
  deriving DecidableEq

/-- The dictionary of a job. -/
structure JobData (W : Type) where
  fields : JobFields
  queueName : String
  payload : JobPayload (Option W)
  deriving DecidableEq

/-- The defaults of `settings.tasks`, and the key that `get_default_job_key` makes. -/
structure JobDefaults where
  jobTimeout : ℤ
  jobRetries : ℤ
  jobRetryDelay : ℚ
  newKey : String

/-- `model_validate` of the plain fields. -/
def JobFields.validate (d : JobDefaults) (f : JobFields) : JobFields :=
  let timeout := f.timeout.getD d.jobTimeout
  { function := f.function
    key := some (f.key.getD d.newKey)
    status := some (f.status.getD .new)
    timeout := some timeout
    retries := some (f.retries.getD d.jobRetries)
    ttl := some (f.ttl.getD (timeout * 2))
    retryDelay := some (f.retryDelay.getD d.jobRetryDelay)
    maxStuckDuration := some (f.maxStuckDuration.getD (timeout * 4))
    heartbeat := some (f.heartbeat.getD 0)
    scheduled := some (f.scheduled.getD 0)
    attempts := some (f.attempts.getD 0)
    completed := some (f.completed.getD 0)
    queued := some (f.queued.getD 0)
    started := some (f.started.getD 0)
    touched := some (f.touched.getD 0) }

/-- No field is None. -/
def JobFields.Filled (f : JobFields) : Prop :=
  f.key.isSome ∧ f.status.isSome ∧ f.timeout.isSome ∧ f.retries.isSome ∧ f.ttl.isSome ∧
    f.retryDelay.isSome ∧ f.maxStuckDuration.isSome ∧ f.heartbeat.isSome ∧ f.scheduled.isSome ∧
    f.attempts.isSome ∧ f.completed.isSome ∧ f.queued.isSome ∧ f.started.isSome ∧ f.touched.isSome

/-- What is None is filled in, and so it changes. -/
theorem JobFields.validate_eq_self {d : JobDefaults} {f : JobFields} :
    f.validate d = f ↔ f.Filled := by
  have hfield : ∀ {α : Type} {x : Option α} {a : α}, some (x.getD a) = x ↔ x.isSome := by
    intro α x a
    cases x <;> simp
  obtain ⟨function, key, status, timeout, retries, ttl, retryDelay, maxStuckDuration, heartbeat,
    scheduled, attempts, completed, queued, started, touched⟩ := f
  simp only [validate, Filled, JobFields.mk.injEq, hfield, true_and]

/-- A validated job has a value for every default. -/
theorem JobFields.filled_validate {d : JobDefaults} {f : JobFields} : (f.validate d).Filled := by
  simp [Filled, validate]

namespace JobPayload

variable {α β γ : Type}

def toList (p : JobPayload α) : List α := [p.args, p.kwargs, p.result, p.error, p.metadata]

def map (f : α → β) (p : JobPayload α) : JobPayload β :=
  ⟨f p.args, f p.kwargs, f p.result, f p.error, f p.metadata⟩

/-- A function for each field, which may raise. -/
def apply (fs : JobPayload (α → Option β)) (p : JobPayload α) : Option (JobPayload β) := do
  let args ← fs.args p.args
  let kwargs ← fs.kwargs p.kwargs
  let result ← fs.result p.result
  let error ← fs.error p.error
  let metadata ← fs.metadata p.metadata
  return ⟨args, kwargs, result, error, metadata⟩

/-- The same function on every field. -/
def traverse (f : α → Option β) : JobPayload α → Option (JobPayload β) := apply ⟨f, f, f, f, f⟩

/-- A relation on the fields, one by one. -/
def Forall₂ (R : α → β → Prop) (p : JobPayload α) (q : JobPayload β) : Prop :=
  R p.args q.args ∧ R p.kwargs q.kwargs ∧ R p.result q.result ∧ R p.error q.error ∧
    R p.metadata q.metadata

theorem apply_eq_some {fs : JobPayload (α → Option β)} {p : JobPayload α} {q : JobPayload β} :
    fs.apply p = some q ↔ fs.args p.args = some q.args ∧ fs.kwargs p.kwargs = some q.kwargs ∧
      fs.result p.result = some q.result ∧ fs.error p.error = some q.error ∧
      fs.metadata p.metadata = some q.metadata := by
  obtain ⟨args, kwargs, result, error, metadata⟩ := q
  simp only [apply, Option.bind_eq_bind, Option.pure_def, Option.bind_eq_some_iff,
    Option.some.injEq, JobPayload.mk.injEq]
  constructor
  · intro hw
    obtain ⟨_, ha, _, hk, _, hr, _, he, _, hm, rfl, rfl, rfl, rfl, rfl⟩ := hw
    exact ⟨ha, hk, hr, he, hm⟩
  · intro hw
    obtain ⟨ha, hk, hr, he, hm⟩ := hw
    exact ⟨_, ha, _, hk, _, hr, _, he, _, hm, rfl, rfl, rfl, rfl, rfl⟩

theorem traverse_eq_some {f : α → Option β} {p : JobPayload α} {q : JobPayload β} :
    p.traverse f = some q ↔ f p.args = some q.args ∧ f p.kwargs = some q.kwargs ∧
      f p.result = some q.result ∧ f p.error = some q.error ∧ f p.metadata = some q.metadata :=
  apply_eq_some

/-- Three functions one after the other give the payload back exactly if they do so on every field. -/
theorem apply_traverse_map_eq_self {fs : JobPayload (β → Option γ)} {f : α → Option β} {g : γ → α}
    {p : JobPayload γ} :
    (∃ q, (p.map g).traverse f = some q ∧ fs.apply q = some p) ↔
      fs.Forall₂ (fun check x => (f (g x)).bind check = some x) p := by
  simp only [traverse_eq_some, apply_eq_some, Forall₂, map, Option.bind_eq_some_iff]
  constructor
  · intro hw
    obtain ⟨q, ⟨ha, hk, hr, he, hm⟩, ha', hk', hr', he', hm'⟩ := hw
    exact ⟨⟨_, ha, ha'⟩, ⟨_, hk, hk'⟩, ⟨_, hr, hr'⟩, ⟨_, he, he'⟩, ⟨_, hm, hm'⟩⟩
  · intro hw
    obtain ⟨⟨a, ha, ha'⟩, ⟨k, hk, hk'⟩, ⟨r, hr, hr'⟩, ⟨e, he, he'⟩, ⟨m, hm, hm'⟩⟩ := hw
    exact ⟨⟨a, k, r, e, m⟩, ⟨ha, hk, hr, he, hm⟩, ha', hk', hr', he', hm'⟩

theorem traverse_of_forall {f : α → Option β} {g : α → β} {p : JobPayload α}
    (h : ∀ x ∈ p.toList, f x = some (g x)) : p.traverse f = some (p.map g) := by
  rw [traverse_eq_some]
  simpa [toList, map] using h

theorem traverse_eq_none {f : α → Option β} {p : JobPayload α} {x : α} (hx : x ∈ p.toList)
    (h : f x = none) : p.traverse f = none := by
  refine Option.eq_none_iff_forall_not_mem.2 fun q hq => ?_
  obtain ⟨ha, hk, hr, he, hm⟩ := traverse_eq_some.1 hq
  simp only [toList, List.mem_cons, List.not_mem_nil, or_false] at hx
  rcases hx with rfl | rfl | rfl | rfl | rfl <;> simp_all

end JobPayload

/-- The serializer of a queue; a `none` without a value is an exception. -/
structure JobSerializer (V W B : Type) where
  raiseErrors : Bool
  encode : Option V → Option W
  /-- What was not encoded comes as None. -/
  decode : Option W → Option (Option V)
  encodeData : JobData W → Option B
  decodeData : B → Option (JobData W)

namespace JobSerializer

variable {V W B : Type} (S : JobSerializer V W B)

/-- The handler of `dumps`. -/
def dumped {α : Type} (encoded : Option α) : Option (Option α) :=
  match encoded with
  | some w => some (some w)
  | none => if S.raiseErrors then none else some none

def dumps (x : Option V) : Option (Option W) := S.dumped (S.encode x)

def loads (data : Option W) : Option (Option V) :=
  match S.decode data with
  | some x => some x
  | none => if S.raiseErrors then none else some none

/-- `loads` of the dictionary; what is not a dictionary is no job. -/
def loadsData (data : Option B) : Option (JobData W) := data.bind S.decodeData

end JobSerializer

/-- What `model_validate` makes of an object, by the type of its field: `List[Any]`, `Dict[str, Any]`,
and `Union[str, Exception, Any]` of `error`. A `none` is a `ValidationError`. -/
structure JobValidation (V : Type) where
  list : V → Option V
  dict : V → Option V
  error : V → Option V

namespace JobValidation

variable {V : Type}

/-- `Optional` of a type: None is valid. -/
def optional (check : V → Option V) : Option V → Option (Option V)
  | some v => (check v).map some
  | none => some none

/-- The declared types of the five fields; a result is `Any`. -/
def fields (K : JobValidation V) : JobPayload (Option V → Option (Option V)) where
  args := optional K.list
  kwargs := optional K.dict
  result := some
  error := optional K.error
  metadata := optional K.dict

end JobValidation

variable {V W B : Type} (S : JobSerializer V W B) (K : JobValidation V) (queueName : String)
  (d : JobDefaults)

namespace JobModel

variable (job : JobModel V)

/-- `Job.serialize`, for a job of the queue. -/
def serialize : Option (Option B) := do
  let payload ← job.payload.traverse S.dumps
  S.dumped (S.encodeData { fields := job.fields, queueName, payload })

/-- `TaskQueue.deserialize`, with `Job.deserialize`. -/
def deserialize (data : Option B) : Option (JobModel V) := do
  let data ← S.loadsData data
  let payload ← data.payload.traverse S.loads
  let payload ← K.fields.apply payload
  if data.queueName = queueName then some { fields := data.fields.validate d, payload } else none

/-- Serializing raises, or the job comes back. -/
def Preserved : Prop :=
  job.serialize S queueName = none ∨ ∃ data, job.serialize S queueName = some data ∧
    deserialize S K queueName d data = some job

/-- The dictionary, with None for what cannot be encoded. -/
def data : JobData W where
  fields := job.fields
  queueName := queueName
  payload := job.payload.map S.encode

/-- The serializer raises errors, and there is one. -/
def Raises : Prop :=
  S.raiseErrors = true ∧
    ((∃ x ∈ job.payload.toList, S.encode x = none) ∨ S.encodeData (job.data S queueName) = none)

/-- No plain field is None, the dictionary can be encoded, and each of the five values comes back from
the serializer and the validation of its field. -/
structure Keeps : Prop where
  filled : job.fields.Filled
  encodes : S.encodeData (job.data S queueName) ≠ none
  survives : K.fields.Forall₂ (fun check x => (S.loads (S.encode x)).bind check = some x) job.payload

variable {S K queueName d job}

theorem serialize_of_raises (h : job.Raises S queueName) : job.serialize S queueName = none := by
  obtain ⟨hraise, hfail⟩ := h
  have hdumped : ∀ {α : Type}, S.dumped (none : Option α) = none := by
    intro α
    simp [JobSerializer.dumped, hraise]
  by_cases hx : ∃ x ∈ job.payload.toList, S.encode x = none
  · obtain ⟨x, hx, hnone⟩ := hx
    have htraverse : job.payload.traverse S.dumps = none :=
      JobPayload.traverse_eq_none hx (by rw [JobSerializer.dumps, hnone, hdumped])
    simp [serialize, htraverse]
  · have hnone := hfail.resolve_left hx
    have hdumps : job.payload.traverse S.dumps = some (job.payload.map S.encode) := by
      refine JobPayload.traverse_of_forall fun x hx' => ?_
      obtain ⟨w, hw⟩ := Option.ne_none_iff_exists'.1 fun hn => hx ⟨x, hx', hn⟩
      simp [JobSerializer.dumps, JobSerializer.dumped, hw]
    simp only [serialize, hdumps, Option.bind_eq_bind, Option.bind_some]
    exact (congrArg S.dumped hnone).trans hdumped

/-- Without an exception the dictionary is `data`. -/
theorem serialize_of_not_raises (h : ¬job.Raises S queueName) :
    job.serialize S queueName = some (S.encodeData (job.data S queueName)) := by
  have hdumped : ∀ {α : Type} (o : Option α), (S.raiseErrors = true → o ≠ none) →
      S.dumped o = some o := by
    intro α o ho
    cases o with
    | some w => rfl
    | none => simpa [JobSerializer.dumped] using fun hr => ho hr rfl
  have hdumps : job.payload.traverse S.dumps = some (job.payload.map S.encode) :=
    JobPayload.traverse_of_forall fun x hx =>
      hdumped _ fun hr hnone => h ⟨hr, .inl ⟨x, hx, hnone⟩⟩
  simp only [serialize, hdumps, Option.bind_eq_bind, Option.bind_some]
  exact hdumped _ fun hr hnone => h ⟨hr, .inr hnone⟩

theorem deserialize_data (hS : ∀ data b, S.encodeData data = some b → S.decodeData b = some data) :
    deserialize S K queueName d (S.encodeData (job.data S queueName)) = some job ↔
      job.Keeps S K queueName := by
  cases hb : S.encodeData (job.data S queueName) with
  | none => exact ⟨nofun, fun h => absurd hb h.encodes⟩
  | some b =>
    have hload : S.loadsData (some b) = some (job.data S queueName) := hS _ _ hb
    simp only [deserialize, hload, Option.bind_eq_bind, Option.bind_some, if_pos, data,
      Option.bind_eq_some_iff]
    constructor
    · intro hw
      obtain ⟨loaded, hloaded, payload, hp, heq⟩ := hw
      have hjob := Option.some.inj heq
      have hfields : job.fields.validate d = job.fields := congrArg JobModel.fields hjob
      have hpayload : payload = job.payload := congrArg JobModel.payload hjob
      rw [hpayload] at hp
      exact ⟨JobFields.validate_eq_self.1 hfields, by simp [hb],
        JobPayload.apply_traverse_map_eq_self.1 ⟨loaded, hloaded, hp⟩⟩
    · intro h
      obtain ⟨loaded, hloaded, hp⟩ := JobPayload.apply_traverse_map_eq_self.2 h.survives
      refine ⟨loaded, hloaded, _, hp, ?_⟩
      rw [JobFields.validate_eq_self.2 h.filled]

/-- **A job is preserved** exactly if its serializer raises an error, or each of its values comes back
from the serializer and the validation and none of its plain fields is None. -/
theorem preserved_iff (hS : ∀ data b, S.encodeData data = some b → S.decodeData b = some data) :
    job.Preserved S K queueName d ↔ job.Raises S queueName ∨ job.Keeps S K queueName := by
  by_cases hr : job.Raises S queueName
  · exact ⟨fun _ => .inl hr, fun _ => .inl (serialize_of_raises hr)⟩
  · have hs := serialize_of_not_raises hr
    rw [← deserialize_data (d := d) hS]
    constructor
    · intro hw
      rcases hw with hnone | ⟨data, hdata, hjob⟩
      · rw [hs] at hnone
        cases hnone
      · rw [hs] at hdata
        cases hdata
        exact .inr hjob
    · intro h
      exact .inr ⟨_, hs, h.resolve_left hr⟩

/-! ## A serializer that does not raise -/

/-- Objects of every shape that matters. -/
inductive Sample
  | list
  | tuple
  /-- A dictionary with a text as its key. -/
  | textDict
  | intDict
  /-- A function, which cannot be encoded. -/
  | lambda
  deriving DecidableEq

/-- A tuple becomes a list; the keys of a dictionary have to be texts. -/
def sampleValidation : JobValidation Sample where
  list
    | .list | .tuple => some .list
    | _ => none
  dict
    | .textDict => some .textDict
    | _ => none
  error := some

def quietSerializer : JobSerializer Sample (Option Sample) (JobData (Option Sample)) where
  raiseErrors := false
  encode x := if x = some .lambda then none else some x
  decode data := some (data.getD none)
  encodeData := some
  decodeData := some

def defaults : JobDefaults := ⟨900, 1, 60, "fresh"⟩

def plainFields : JobFields :=
  JobFields.validate defaults
    ⟨"f", some "k", none, none, none, none, none, none, none, none, none, none, none, none, none⟩

/-- A job without a result. -/
theorem preserved_plain :
    let job : JobModel Sample := ⟨plainFields, some .list, some .textDict, none, none, some .textDict⟩
    job.Preserved quietSerializer sampleValidation "q" defaults := by
  intro job
  refine (preserved_iff fun data b h => ?_).2 (.inr ⟨?_, ?_, ?_⟩)
  · cases h
    rfl
  · exact JobFields.filled_validate
  · exact Option.some_ne_none _
  · exact ⟨rfl, rfl, rfl, rfl, rfl⟩

/-- A result that cannot be encoded comes back as None, a job without a key with a new one, a tuple of
arguments as a list; and a keyword dictionary with an int as its key does not come back at all. -/
theorem preserved_broken :
    let dump (job : JobModel Sample) := job.serialize quietSerializer "q"
    let load := deserialize quietSerializer sampleValidation "q" defaults
    let job (key : Option String) (args kwargs : Sample) (result : Option Sample) :
        JobModel Sample :=
      ⟨{ plainFields with key }, some args, some kwargs, result, none, some .textDict⟩
    (dump (job (some "k") .list .textDict (some .lambda))).bind load =
        some (job (some "k") .list .textDict none) ∧
      (dump (job none .list .textDict none)).bind load =
        some (job (some "fresh") .list .textDict none) ∧
      (dump (job (some "k") .tuple .textDict none)).bind load =
        some (job (some "k") .list .textDict none) ∧
      (dump (job (some "k") .list .intDict none)).bind load = none ∧
      ¬(job (some "k") .list .textDict (some .lambda)).Preserved quietSerializer sampleValidation "q"
        defaults := by
  intro dump load job
  have hback : (dump (job (some "k") .list .textDict (some .lambda))).bind load =
      some (job (some "k") .list .textDict none) := by
    decide +kernel
  refine ⟨hback, by decide +kernel, by decide +kernel, by decide +kernel, ?_⟩
  intro hw
  rcases hw with hnone | ⟨data, hdata, hload⟩
  · cases hnone
  · rw [show dump (job (some "k") .list .textDict (some .lambda)) = some data from hdata,
      Option.bind_some, show load data = some _ from hload] at hback
    cases congrArg (fun o => o.map fun j => j.payload.result) hback

end JobModel

end Kvdb
