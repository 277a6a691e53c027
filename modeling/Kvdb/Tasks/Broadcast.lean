import Kvdb.Tasks.Heartbeats
import Kvdb.Tasks.Queue
import Kvdb.Types.Create

/-!
# One call for several workers (`TaskQueue.broadcast`, `prepare_job_kws`, `map`)

A call selects workers, and makes keyword arguments of `enqueue` for each of them. What the queue
itself reads of the keywords has the prefix (`job_timeout_kwarg`, `job_key_kwarg`), the worker that is
merged in at the end has not. The keys that are not passed come from `get_default_job_key`; its answers
are `defaultKey`, one for each call.
-/

namespace Kvdb

open Python Redis

variable {V : Type}

/-- `bool(x)`; an object that is not looked at says it itself. -/
def PyObj.truthy (truthyObj : V → Bool) : PyObj V → Bool
  | none => false
  | bool b => b
  | int n => n ≠ 0
  | float x => x ≠ 0
  | str s => s ≠ ""
  | obj v => truthyObj v
  | tuple xs => !xs.isEmpty
  | dict items => !items.isEmpty

/-! ## The selection of workers -/

/-- What a call says about its workers. An empty list selects nothing, as none does. -/
structure Selection (V : Type) where
  broadcast : Bool := false
  workersSelected : List (Kwargs V) := []
  /-- On the attributes of the workers; `none` is an exception. -/
  workerSelector : Option (Dict String (PyObj V) → Option (List (Kwargs V))) := none
  workerNames : List String := []

namespace Selection

/-- Whether workers are selected at all. -/
def isMade (s : Selection V) : Bool :=
  s.broadcast || s.workerSelector.isSome || !s.workerNames.isEmpty || !s.workersSelected.isEmpty

end Selection

/-- `{"worker_id": id}`. -/
def workerIdKw (id : String) : Kwargs V := Dict.ofPairs [("worker_id", .str id)]

/-- `{"worker_name": name}`. -/
def workerNameKw (name : String) : Kwargs V := Dict.ofPairs [("worker_name", .str name)]

/-- `get_worker_attributes`: those of the ids with a heartbeat, from the entry `workers`. -/
def getWorkerAttributes (ids : List String) (workers : Dict String (PyObj V)) :
    Dict String (PyObj V) :=
  Dict.ofPairs (ids.map fun id => (id, (workers.get? id).getD (.dict [])))

/-- `worker_kws`; the ids are read if they are asked for. -/
def Selection.workerKws (s : Selection V) (ids : Option (List String))
    (workers : Dict String (PyObj V)) : Option (List (Kwargs V)) :=
  if !s.workersSelected.isEmpty then some s.workersSelected
  else
    match s.workerSelector with
    | some select => ids.bind fun ids => select (getWorkerAttributes ids workers)
    | none =>
      if !s.workerNames.isEmpty then some (s.workerNames.map workerNameKw)
      else ids.map fun ids => ids.map workerIdKw

/-! ## The keyword arguments -/

/-- What the functions below read of the queue. -/
structure CallConfig (V : Type) where
  kwargPrefix : Option String := none
  jobTimeout : ℤ := 900
  defaultKey : ℕ → String
  truthyObj : V → Bool

namespace CallConfig

variable (q : CallConfig V)

/-- `f'{prefix}{name}'`, or the name alone. -/
def kwarg (name : String) : String :=
  match truthyStr q.kwargPrefix with
  | some p => p ++ name
  | none => name

def jobTimeoutKwarg : String := q.kwarg "timeout"

def jobKeyKwarg : String := q.kwarg "key"

/-- `kw.pop(self.job_key_kwarg, None) or self.config.get_default_job_key()`, and how many default keys
there are afterwards. -/
def jobKey (kw : Kwargs V) (n : ℕ) : PyObj V × ℕ :=
  match kw.get? q.jobKeyKwarg with
  | some key => if key.truthy q.truthyObj then (key, n) else (.str (q.defaultKey n), n + 1)
  | none => (.str (q.defaultKey n), n + 1)

/-- `{timeout_kwarg: timeout, key_kwarg: key, **kwargs, **kw, **worker_kw}`. -/
def mergedKw (timeout key : PyObj V) (kwargs kw workerKw : Kwargs V) : Kwargs V :=
  (((Dict.ofPairs [(q.jobTimeoutKwarg, timeout), (q.jobKeyKwarg, key)]).update kwargs).update
    kw).update workerKw

/-- One item for each worker. Its key is popped for the first one and is gone for the others. -/
def spread (timeout : PyObj V) (kwargs : Kwargs V) :
    Kwargs V → List (Kwargs V) → ℕ → List (Kwargs V) × ℕ
  | _, [], n => ([], n)
  | kw, workerKw :: workerKws, n =>
    let key := q.jobKey kw n
    let kw := kw.pop q.jobKeyKwarg
    let rest := spread timeout kwargs kw workerKws key.2
    (q.mergedKw timeout key.1 kwargs kw workerKw :: rest.1, rest.2)

/-- The items, one after the other. -/
def spreadAll (timeout : PyObj V) (kwargs : Kwargs V) (workerKws : List (Kwargs V)) :
    List (Kwargs V) → ℕ → List (Kwargs V) × ℕ
  | [], n => ([], n)
  | kw :: iterKwargs, n =>
    let first := q.spread timeout kwargs kw workerKws n
    let rest := spreadAll timeout kwargs workerKws iterKwargs first.2
    (first.1 ++ rest.1, rest.2)

/-- `prepare_job_kws`, after `n` default keys; `none` is an exception of the selection. -/
def prepareJobKws (iterKwargs : List (Kwargs V)) (s : Selection V) (ids : Option (List String))
    (workers : Dict String (PyObj V)) (kwargs : Kwargs V) (n : ℕ) :
    Option (List (Kwargs V) × ℕ) :=
  let timeout := (kwargs.get? q.jobTimeoutKwarg).getD (.int q.jobTimeout)
  let kwargs := (kwargs.pop q.jobTimeoutKwarg).pop q.jobKeyKwarg
  if s.isMade then
    (s.workerKws ids workers).map fun workerKws =>
      q.spreadAll timeout kwargs workerKws iterKwargs n
  -- no worker is merged in
  else some (q.spreadAll timeout kwargs [{}] iterKwargs n)

end CallConfig

/-! ## The calls of `enqueue` -/

section
variable (q : CallConfig V) (construct : String → Kwargs V → Option (JobAttrs V)) (queue : PyObj V)

/-- `enqueue(job_or_func, **kw)`: a keyword that is a parameter already raises. -/
def enqueueCall (queued : PyObj V) (jobOrFunc : JobOrFunc V) (kw : Kwargs V) :
    Option (JobAttrs V) :=
  if (kw.get? "self").isSome ∨ (kw.get? "job_or_func").isSome then none
  else enqueueJob construct q.kwargPrefix queue queued jobOrFunc [] (kw.pop "return_existing_job")

/-- What is passed to the next call: a job is the same object, with what the last call has set. -/
def JobOrFunc.after : JobOrFunc V → JobAttrs V → JobOrFunc V
  | .job _, stored => .job stored
  | jobOrFunc, _ => jobOrFunc

/-- The calls in their order, at the times `queued`; the jobs as they are stored. -/
def enqueueCalls (queued : ℕ → PyObj V) :
    JobOrFunc V → List (Kwargs V) → ℕ → Option (List (JobAttrs V))
  | _, [], _ => some []
  | jobOrFunc, kw :: kws, i =>
    (enqueueCall q construct queue (queued i) jobOrFunc kw).bind fun job =>
      (enqueueCalls queued (jobOrFunc.after job) kws (i + 1)).map (job :: ·)

/-- `broadcast` with `enqueue = True`. The keywords are passed on beside `iter_kwargs` and
`broadcast`. -/
def broadcast (queued : ℕ → PyObj V) (jobOrFunc : JobOrFunc V) (s : Selection V)
    (ids : Option (List String)) (workers : Dict String (PyObj V)) (kwargs : Kwargs V) (n : ℕ) :
    Option (List (JobAttrs V)) :=
  if (kwargs.get? "iter_kwargs").isSome ∨ (kwargs.get? "broadcast").isSome then none
  else
    (q.prepareJobKws [kwargs] { s with broadcast := true } ids workers kwargs n).bind fun kws =>
      enqueueCalls q construct queue queued jobOrFunc kws.1 0

/-- `[key["key"] for key in iter_kwargs]`; `none` is the `KeyError`. -/
def mapJobKeys (kws : List (Kwargs V)) : Option (List (PyObj V)) := kws.mapM fun kw => kw.get? "key"

/-- `map` of a function, up to the wait: the keys that it waits for, and its jobs. -/
def mapCall (queued : PyObj V) (jobOrFunc : JobOrFunc V) (iterKwargs : List (Kwargs V))
    (s : Selection V) (ids : Option (List String)) (workers : Dict String (PyObj V))
    (kwargs : Kwargs V) (n : ℕ) : Option (List (PyObj V) × List (JobAttrs V)) :=
  (q.prepareJobKws iterKwargs s ids workers kwargs n).bind fun kws =>
    (mapJobKeys kws.1).bind fun jobKeys =>
      (kws.1.mapM (enqueueCall q construct queue queued jobOrFunc)).map fun jobs => (jobKeys, jobs)

end

end Kvdb
