import Kvdb.Tasks.Calls

/-!
# `TaskWorker.process_queue` from stage to stage

One call of `process_queue` from the answer of `dequeue_job_id` on, with its exception handlers, as a
program on its local variables (`Proc`). `Stages` says of everything that it calls how it goes: what
raises, and for a transaction whether it is executed before that. `processQueue` is the steps that the
call takes on the server, and those of the abort poll if it has cancelled the function: the poll finishes
the job then. The messages of `notify`, the logs and `after_process` are left out; what these raise is in
`Stages` where it reaches a handler.
-/

namespace Kvdb

open TaskQueue

/-! ## What is raised -/

/-- An exception, by the `except` clause of `process_queue` that takes it; none takes `fatal`. -/
inductive Raised (V : Type)
  | jobError (error : V)
  | cancelled (error : V)
  | exception (error : V)
  | fatal (error : V)
  deriving DecidableEq

/-- A subclass of `Exception`, which `contextlib.suppress(Exception)` takes. -/
def Raised.isException {V : Type} : Raised V → Bool
  | .jobError _ | .exception _ => true
  | .cancelled _ | .fatal _ => false

/-- How a call goes that executes a transaction. -/
inductive Fate (V : Type)
  | done
  /-- It raises before the transaction is executed. -/
  | before (r : Raised V)
  /-- It raises after that, in `notify` or later. -/
  | after (r : Raised V)
  deriving DecidableEq

namespace Fate

variable {V : Type}

def executes : Fate V → Bool
  | .done | .after _ => true
  | .before _ => false

def raised : Fate V → Option (Raised V)
  | .done => none
  | .before r | .after r => some r

end Fate

/-- What the interpreter raises by itself. -/
inductive BuiltinError
  | valueError (msg : String)
  | keyError (key : String)
  | attributeError (msg : String)
  | typeError (msg : String)
  deriving DecidableEq

/-- The values that Python makes of errors and texts, and their truth. -/
structure Py (V : Type) where
  error : BuiltinError → V
  str : String → V
  truthy : V → Bool

/-- `x or y`. -/
def Py.or {V : Type} (py : Py V) (x : Option V) (y : V) : V :=
  match x with
  | some v => if py.truthy v then v else y
  | none => y

/-! ## Functions -/

/-- `exclude_retry_exceptions`; a class is given by its instances. -/
inductive ExcludeRetryExceptions (V : Type)
  | none
  | flag (b : Bool)
  | list (classes : List (V → Bool))
  | set (classes : List (V → Bool))

structure TaskFunction (V : Type) where
  excludeRetryExceptions : ExcludeRetryExceptions V := .none
  isCronjob : Bool := false
  silenced : Bool := false
  silencedStages : List String := []

namespace TaskFunction

variable {V : Type} (py : Py V) (f : TaskFunction V)

def isSilenced (stage : String) : Bool := f.silenced ∨ stage ∈ f.silencedStages

/-- `should_retry_on_error`; `isinstance` takes a tuple, but no set. -/
def shouldRetryOnError (error : V) : Except (Raised V) Bool :=
  match f.excludeRetryExceptions with
  | .none => .ok true
  | .flag b => .ok !b
  | .list classes => .ok !(classes.any fun isInstance => isInstance error)
  | .set _ => .error (.exception (py.error (.typeError
      "isinstance() arg 2 must be a type, a tuple of types, or a union")))

end TaskFunction

/-- The functions of a queue. -/
structure QueueTasks (V : Type) where
  queueName : String := "global"
  functions : List (String × TaskFunction V) := []
  hasChildObjects : Bool := false
  childObjectMapping : List (String × String) := []

namespace QueueTasks

variable {V : Type} (py : Py V) (tasks : QueueTasks V)

def getFunctionNameListStr : String := "\n- ".intercalate (tasks.functions.map Prod.fst)

def notFound (function : String) : Raised V :=
  .exception (py.error (.valueError ("Function " ++ function ++ " not found in queue `" ++
    tasks.queueName ++ "`\nValid Functions: " ++ tasks.getFunctionNameListStr)))

def isFunctionSilenced (function stage : String) : Except (Raised V) Bool :=
  match tasks.functions.lookup function with
  | none => .error (tasks.notFound py function)
  | some f => .ok (f.isSilenced stage)

/-- `ensure_job_in_functions`: the name of the job's function from then on. -/
def ensureJobInFunctions (function : String) : Except (Raised V) String :=
  match tasks.functions.lookup function with
  | some _ => .ok function
  | none =>
    if tasks.hasChildObjects then
      match tasks.childObjectMapping.lookup function with
      | none => .error (tasks.notFound py function)
      | some name => .ok name
    else .error (tasks.notFound py function)

end QueueTasks

/-- What `process_queue` reads of its worker. -/
structure JobWorker (V : Type) where
  workerId : String
  name : String
  functions : List (String × TaskFunction V) := []
  queueTasks : QueueTasks V := {}

/-- The job is not rejected. -/
def JobWorker.accepts {V : Type} (w : JobWorker V) (job : Job V) : Bool :=
  (truthyStr job.workerId).all (· = w.workerId) ∧ (truthyStr job.workerName).all (· = w.name)

/-! ## The stages of a call -/

structure Stages (V : Type) where
  /-- `get_job_by_id`: a lost connection, a record that cannot be read. -/
  read : Option (Raised V) := none
  update : Fate V := .done
  beforeProcess : Option (Raised V) := none
  createTask : Option (Raised V) := none
  /-- The poll flags the job as aborted while its function runs, and cancels it; its `finish` follows. -/
  poll : Option (V × Fate V) := none
  /-- `asyncio.wait_for(task, job.timeout)`. -/
  run : Except (Raised V) (Option V) := .ok none
  finish : Fate V := .done
  getNextCronRunData : Option (Raised V) := none
  /-- `get_exc_error`. -/
  excError : V
  push : Fate V := .done
  retry : Fate V := .done
  skipUpdate : Fate V := .done
  finishFailed : Fate V := .done
  onFailureCallback : Option (Raised V) := none
  started : ℤ := 0
  touched : ℤ := 0
  completed : ℤ := 0
  exited : ℤ := 0
  polled : ℤ := 0
  rnd : ℚ := 0
  time : ℚ := 0

/-- The local variables, and the steps on the server so far. -/
structure Local (V : Type) where
  job : Job V
  function : Option (TaskFunction V) := none
  /-- `job_task_contexts[job]["aborted"]`. -/
  aborted : Bool := false
  acts : List (Act V) := []

/-- A program that may raise. What it did until then stays. -/
abbrev Proc (V α : Type) := ExceptT (Raised V) (StateM (Local V)) α

namespace Proc

variable {V : Type}

def emit (a : Act V) : Proc V Unit := modify fun s => { s with acts := s.acts ++ [a] }

def setJob (f : Job V → Job V) : Proc V Unit := modify fun s => { s with job := f s.job }

def raise : Option (Raised V) → Proc V Unit
  | none => pure ()
  | some r => throw r

/-- A call that executes the transaction `a`. -/
def call (fate : Fate V) (a : Act V) : Proc V Unit := do
  if fate.executes then emit a
  raise fate.raised

/-- `Job.update`. -/
def update (fate : Fate V) (now : ℤ) : Proc V Unit := do
  let job := (← get).job
  setJob fun job => { job with touched := now }
  tryCatch (call fate (.update job now)) fun r => if r.isException then pure () else throw r

def finish (fate : Fate V) (status : JobStatus) (result error : Option V) (now : ℤ) :
    Proc V Unit := do
  let job := (← get).job
  setJob fun job => job.complete status result error now
  call fate (.finish job status result error now)

def retry (c : QueueConfig) (push fate : Fate V) (error : V) (now : ℤ) (rnd time : ℚ) :
    Proc V Unit := do
  let job := (← get).job
  setJob fun job => job.reset .queued (some error) now
  call push (.pushBg (job.id c.toKeyConfig))
  call fate (.retry job (some error) now rnd time)

/-- The function, for its attribute `name`. -/
def function (py : Py V) (name : String) : Proc V (TaskFunction V) := do
  match (← get).function with
  | some f => pure f
  | none =>
    throw (.exception (py.error (.attributeError
      ("'NoneType' object has no attribute '" ++ name ++ "'"))))

end Proc

namespace JobWorker

open Proc

variable {V : Type} (c : QueueConfig) (py : Py V) (w : JobWorker V) (o : Stages V)

/-- The `try` block of an accepted job, until its function is looked up. -/
def prepare : Proc V (TaskFunction V) := do
  setJob fun job => job.start o.started
  update o.update o.touched
  raise o.beforeProcess
  let name ← ofExcept (w.queueTasks.ensureJobInFunctions py (← get).job.function)
  setJob fun job => { job with function := name }
  let _ ← ofExcept (w.queueTasks.isFunctionSilenced py name "process")
  match w.functions.lookup name with
  | none => throw (.exception (py.error (.keyError name)))
  | some f => do
    modify fun s => { s with function := some f }
    pure f

/-- The next run of a cron job is logged. -/
def nextCronRun (f : TaskFunction V) : Proc V Unit := do
  if f.isCronjob then
    let silenced ← ofExcept (w.queueTasks.isFunctionSilenced py (← get).job.function "finish")
    if !silenced then raise o.getNextCronRunData

/-- The rest of it. -/
def perform (f : TaskFunction V) : Proc V Unit := do
  raise o.createTask
  modify fun s => { s with aborted := o.poll.isSome }
  let result ← ofExcept o.run
  finish o.finish .complete result none o.completed
  w.nextCronRun py o f

def tryBlock : Proc V Unit := do
  let f ← w.prepare py o
  w.perform py o f

/-- `finish` as `FAILED`, and the callback. -/
def fail (error : V) : Proc V Unit := do
  finish o.finishFailed .failed none (some error) o.exited
  let _ ← Proc.function py "run_on_failure_callback"
  raise o.onFailureCallback

/-- The handlers. -/
def handler : Raised V → Proc V Unit
  | .jobError jobE => do
    let job := (← get).job
    if job.retries < job.attempts then fail py o o.excError
    else
      let f ← Proc.function py "should_retry_on_error"
      if ← ofExcept (f.shouldRetryOnError py (py.or job.error jobE)) then
        retry c o.push o.retry o.excError o.exited o.rnd o.time
      else
        setJob fun job => { job with retries := 0 }
        update o.skipUpdate o.exited
        fail py o jobE
  | .cancelled jobE => do
    let s ← get
    if !s.job.isComplete && !s.aborted then
      let f ← Proc.function py "should_retry_on_error"
      if ← ofExcept (f.shouldRetryOnError py (py.or s.job.error jobE)) then
        retry c o.push o.retry (py.str "cancelled") o.exited o.rnd o.time
  | .exception jobE => do
    let job := (← get).job
    if job.retries < job.attempts then fail py o o.excError
    else
      let f ← Proc.function py "should_retry_on_error"
      if ← ofExcept (f.shouldRetryOnError py jobE) then
        retry c o.push o.retry o.excError o.exited o.rnd o.time
      else
        setJob fun job => { job with retries := 0 }
        fail py o jobE
  | .fatal jobE => throw (.fatal jobE)

/-- The `finish` of the poll that has cancelled the function. -/
def pollFinish : Proc V Unit := do
  if (← get).aborted then
    match o.poll with
    | some (error, fate) => finish fate .aborted none (some error) o.polled
    | none => pure ()

/-- The call of an accepted job, and the poll. -/
def attempt : Proc V Unit := do
  tryCatch (tryCatch (w.tryBlock py o) (handler c py o)) fun _ => pure ()
  pollFinish o

/-- The steps of `process_queue` on the server after the dequeue of an id with this record. -/
def processQueue (record : Option (Job V)) : List (Act V) :=
  match record with
  | none => []
  | some job =>
    if o.read.isSome then []
    else if w.accepts job then ((w.attempt c py o).run.run { job }).2.acts
    else []

end JobWorker

end Kvdb
