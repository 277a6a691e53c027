import Kvdb.Lib.Python
import Kvdb.Types.Jobs

/-!
# How a call becomes a job (`Job.create`, `BaseModel.extract_kwargs`, `CronJob.to_enqueue_kwargs`)

The arguments of `enqueue` are partitioned into properties of the job and arguments of its function.
A job is here the object with its attributes (`JobAttrs`), any Python objects: `setattr` checks
nothing. `Job.attrs` are the attributes of a validated job. The constructor of the model is the
parameter `construct`.
-/

namespace Kvdb

open Python

/-- A Python object, as far as the functions below look at it; a list and a tuple are the same. -/
inductive PyObj (V : Type)
  | none
  | bool (b : Bool)
  | int (n : ℤ)
  | float (x : ℚ)
  | str (s : String)
  | obj (v : V)
  | tuple (xs : List (PyObj V))
  | dict (items : List (String × PyObj V))

variable {V : Type}

def PyObj.isNone : PyObj V → Bool
  | none => true
  | _ => false

@[simp] theorem PyObj.isNone_none : (none : PyObj V).isNone = true := rfl

@[simp] theorem PyObj.isNone_bool (b : Bool) : (bool b : PyObj V).isNone = false := rfl

@[simp] theorem PyObj.isNone_int (n : ℤ) : (int n : PyObj V).isNone = false := rfl

@[simp] theorem PyObj.isNone_str (s : String) : (str s : PyObj V).isNone = false := rfl

@[simp] theorem PyObj.isNone_dict (items : List (String × PyObj V)) :
    (dict items).isNone = false := rfl

def PyObj.isDict : PyObj V → Bool
  | dict _ => true
  | _ => false

/-- The items of a dictionary. -/
def PyObj.items : PyObj V → List (String × PyObj V)
  | dict items => items
  | _ => []

/-- Keyword arguments. -/
abbrev Kwargs (V : Type) := Dict String (PyObj V)

/-- `model_fields` of `Job`. -/
def jobFields : List String :=
  ["timeout", "retries", "ttl", "retry_delay", "retry_backoff", "max_stuck_duration", "heartbeat",
    "scheduled", "progress", "attempts", "completed", "queued", "started", "touched", "queue",
    "function", "args", "kwargs", "key", "result", "error", "status", "metadata", "worker_id",
    "worker_name", "job_callback", "job_callback_kwargs", "bypass_lock", "queue_name"]

/-! ## `Job.create` -/

/-- The attributes of a job object. -/
abbrev JobAttrs (V : Type) := String → PyObj V

def PyObj.ofOption : Option V → PyObj V
  | some v => obj v
  | .none => none

def PyObj.ofStr : Option String → PyObj V
  | some s => str s
  | .none => none

def JobStatus.value : JobStatus → String
  | new => "NEW"
  | deferred => "DEFERRED"
  | queued => "QUEUED"
  | active => "ACTIVE"
  | aborted => "ABORTED"
  | failed => "FAILED"
  | complete => "COMPLETE"
  | rescheduled => "RESCHEDULED"

/-- The attributes of a job of this queue. -/
def Job.attrs (queueName : String) (queue : PyObj V) (job : Job V) : JobAttrs V
  | "timeout" => job.timeout.elim .none .int
  | "retries" => .int job.retries
  | "ttl" => .int job.ttl
  | "retry_delay" => .float job.retryDelay
  | "retry_backoff" =>
    match job.retryBackoff with
    | .flag b => .bool b
    | .limit d => .float d
  | "max_stuck_duration" => .float job.maxStuckDuration
  | "heartbeat" => .int job.heartbeat
  | "scheduled" => .int job.scheduled
  | "progress" =>
    .dict [("total", .int job.progress.total), ("completed", .int job.progress.completed)]
  | "attempts" => .int job.attempts
  | "completed" => .int job.completed
  | "queued" => .int job.queued
  | "started" => .int job.started
  | "touched" => .int job.touched
  | "queue" => queue
  | "function" => .str job.function
  | "args" => .tuple (job.args.map .obj)
  | "kwargs" => .dict (job.kwargs.map fun kw => (kw.1, .obj kw.2))
  | "key" => .str job.key
  | "result" => .ofOption job.result
  | "error" => .ofOption job.error
  | "status" => .str job.status.value
  | "metadata" => .dict (job.metadata.map fun kw => (kw.1, .obj kw.2))
  | "worker_id" => .ofStr job.workerId
  | "worker_name" => .ofStr job.workerName
  | "job_callback" => .ofStr job.jobCallback
  | "job_callback_kwargs" => .dict (job.jobCallbackKwargs.map fun kw => (kw.1, .obj kw.2))
  | "bypass_lock" => job.bypassLock.elim .none .bool
  | "queue_name" => .str queueName
  | _ => .none

/-- `setattr` of each item. -/
def JobAttrs.setAll (job : JobAttrs V) (items : List (String × PyObj V)) : JobAttrs V :=
  items.foldl (fun job p => Function.update job p.1 p.2) job

/-- One keyword in the loop of `create`; `none` is the `TypeError` of an item assignment to something
that is no dictionary. -/
def createStep (jobKwargs : Kwargs V) (kw : String × PyObj V) : Option (Kwargs V) :=
  if kw.1 ∈ jobFields then some (jobKwargs.setItem kw.1 kw.2)
  else
    match jobKwargs.get? "kwargs" with
    | some (.dict items) => some (jobKwargs.setItem "kwargs" (.dict (assign items kw.1 kw.2)))
    | _ => none

/-- `job_kwargs` of `create`. -/
def createKwargs (args : List (PyObj V)) (kwargs : Kwargs V) : Option (Kwargs V) :=
  kwargs.items.foldlM createStep (Dict.ofPairs [("kwargs", .dict []), ("args", .tuple args)])

/-- `job_or_func`: a name, a job, a function with this name, or something else. -/
inductive JobOrFunc (V : Type)
  | name (function : String)
  | job (job : JobAttrs V)
  | callable (function : String)
  | other

/-- `Job.create`; `none` is an exception. -/
def createJob (construct : String → Kwargs V → Option (JobAttrs V)) (jobOrFunc : JobOrFunc V)
    (args : List (PyObj V)) (kwargs : Kwargs V) : Option (JobAttrs V) :=
  (createKwargs args kwargs).bind fun jobKwargs =>
    match jobOrFunc with
    | .job job => some (job.setAll jobKwargs.items)
    -- a keyword `function` would be given twice
    | .name function | .callable function =>
      if (jobKwargs.get? "function").isSome then none else construct function jobKwargs
    | .other => none

/-- The keywords that become properties of the job. -/
def jobProperties (kwargs : Kwargs V) : List (String × PyObj V) :=
  kwargs.items.filter fun kw => kw.1 ∈ jobFields

/-- The keywords that become keyword arguments of the function. -/
def functionKeywords (kwargs : Kwargs V) : List (String × PyObj V) :=
  kwargs.items.filter fun kw => kw.1 ∉ jobFields

/-! ## `extract_kwargs` -/

/-- `k.replace(p, '')`. -/
def removeText (p k : String) : String := String.ofList (remove p.toList 0 k.toList)

/-- `Job.extract_kwargs` (`_include` leaves the dictionary as it is). -/
def extractKwargs (p : Option String) (includePrefix : Bool) (exclude : List String)
    (excludeNone : Bool) (kwargs : Kwargs V) : Kwargs V :=
  let extracted :=
    match p with
    | some p =>
      if p = "" then kwargs.filter fun kw => kw.1 ∈ jobFields
      else Dict.ofPairs (kwargs.items.filterMap fun (kw : String × PyObj V) =>
        if p.toList <+: kw.1.toList ∧ removeText p kw.1 ∈ jobFields then
          some (if includePrefix then kw.1 else removeText p kw.1, kw.2)
        else none)
    | none => kwargs.filter fun kw => kw.1 ∈ jobFields
  let extracted := if excludeNone then extracted.filter fun kw => !kw.2.isNone else extracted
  extracted.filter fun kw => kw.1 ∉ exclude

/-! ## `TaskQueue.enqueue` -/

/-- The keywords that `enqueue` hands on to `create`. -/
def enqueueKwargs (kwargPrefix : Option String) (kwargs : Kwargs V) : Kwargs V :=
  match kwargPrefix with
  | some p => if p = "" then kwargs else extractKwargs (some p) false [] true kwargs
  | none => kwargs

/-- What `enqueue` itself sets: the queue, the time and `QUEUED`. -/
def enqueueAttrs (queue queued : PyObj V) : List (String × PyObj V) :=
  [("queue", queue), ("queued", queued), ("status", .str "QUEUED")]

/-- The job that `enqueue` stores. -/
def enqueueJob (construct : String → Kwargs V → Option (JobAttrs V)) (kwargPrefix : Option String)
    (queue queued : PyObj V) (jobOrFunc : JobOrFunc V) (args : List (PyObj V)) (kwargs : Kwargs V) :
    Option (JobAttrs V) :=
  (createJob construct jobOrFunc args (enqueueKwargs kwargPrefix kwargs)).map fun job =>
    job.setAll (enqueueAttrs queue queued)

/-- `Job.enqueue`, of a job that is not refused. -/
def reenqueueJob (construct : String → Kwargs V → Option (JobAttrs V)) (kwargPrefix : Option String)
    (queue queued : PyObj V) (job : JobAttrs V) : Option (JobAttrs V) :=
  enqueueJob construct kwargPrefix queue queued (.job job) [] {}

/-! ## `CronJob.to_enqueue_kwargs` -/

/-- What `to_enqueue_kwargs` reads of a cron job. -/
structure CronKwargs (V : Type) where
  functionName : String
  defaultKwargs : Option (Kwargs V) := none
  callback : Option String := none
  callbackKwargs : Option (Kwargs V) := none
  bypassLock : Option Bool := none

/-- `d.update(kwargs)`. -/
def updateKwargs (d kwargs : Kwargs V) : Kwargs V :=
  kwargs.items.foldl (fun d kw => d.setItem kw.1 kw.2) d

/-- `default_kwargs`, with the keywords of the call. -/
def CronKwargs.defaults (cron : CronKwargs V) (kwargs : Kwargs V) : Kwargs V :=
  updateKwargs (cron.defaultKwargs.getD {}) kwargs

/-- `enqueue_kwargs`, before the prefix. -/
def CronKwargs.plainKwargs (cron : CronKwargs V) (jobKey : PyObj V) (excludeNone : Bool)
    (kwargs : Kwargs V) (nextScheduled : ℤ) : Kwargs V :=
  let d : Kwargs V := updateKwargs (Dict.ofPairs [("key", jobKey)]) (cron.defaults kwargs)
  let d :=
    match truthyStr cron.callback with
    | some callback =>
      (d.setItem "job_callback" (.str callback)).setItem "job_callback_kwargs"
        (cron.callbackKwargs.elim .none fun kwargs => .dict kwargs.items)
    | none => d
  let d := cron.bypassLock.elim d fun b => d.setItem "bypass_lock" (.bool b)
  let d := if excludeNone then d.filter fun kw => !kw.2.isNone else d
  d.setItem "scheduled" (.int nextScheduled)

/-- `to_enqueue_kwargs`. -/
def CronKwargs.toEnqueueKwargs (cron : CronKwargs V) (jobKey : PyObj V) (excludeNone : Bool)
    (kwargPrefix : Option String) (kwargs : Kwargs V) (nextScheduled : ℤ) : Kwargs V :=
  let d := cron.plainKwargs jobKey excludeNone kwargs nextScheduled
  let d :=
    match kwargPrefix with
    | some p => Dict.ofPairs (d.items.map fun (kw : String × PyObj V) => (p ++ kw.1, kw.2))
    | none => d
  d.setItem "job_or_func" (.str cron.functionName)

/-- The keywords of a call of `enqueue` that are not parameters of its own. -/
def restKwargs (kwargs : Kwargs V) : Kwargs V := kwargs.popAll ["job_or_func", "return_existing_job"]

end Kvdb
