import Kvdb.Tasks.Queue

/-!
# The programs of the clients and workers

`Sys ι V` is the server together with the tasks `ι` (of any number of clients and workers) that use
it; each task holds its own copy of a job. A task runs one program of `tasks/queue.py` or
`tasks/worker.py` at a time, from one command on the server to the next:

* `TaskWorker.process_queue`: `fetched`, `starting`, `running`, then `finishing` and `completed`, or
  `handling` the exits of an exception handler;
* `TaskQueue.sweep`: `snapshot`, `sweeping`;
* `TaskQueue.abort`: `aborting`, `abortLast`;
* `TaskWorker.abort`, the abort poll: `polled`, `cancelling`, `abortLast`;
* `TaskQueue._reschedule`: `rescheduling`, `rescheduled`.

`leave` ends a task anywhere: a rejected job, a lost connection, a crash. `notify` has a step of its
own only where its failure reaches an exception handler (`raised`). The copies of a job that tasks of
one worker share as an object are separate here.
-/

namespace Kvdb

open Redis Lib

/-- What is left to do for an exception handler of `process_queue`. -/
inductive Exit (V : Type)
  | retry (error : V)
  | update
  | finishFailed (error : V)
  deriving DecidableEq

/-- Where a task is in its program. -/
inductive Task (ι V : Type)
  | idle
  /-- `dequeue_job_id` has answered; `get_job_by_id` is next. -/
  | fetched (jobId : String)
  /-- The job is read; the update as `ACTIVE` is next. -/
  | starting (job : Job V)
  /-- The function runs. -/
  | running (job : Job V) (aborted : Bool)
  /-- The function has returned; the transaction of `finish` is next. -/
  | finishing (job : Job V) (result : Option V)
  /-- It is executed; `notify` is next. -/
  | completed (job : Job V)
  | handling (job : Job V) (todo : List (Exit V))
  /-- The active ids are read; `MGET` is next. -/
  | snapshot (r : Route) (jobIds : List String)
  | sweeping (r : Route) (todo : List (String × Option (Job V)))
  /-- The transaction of `abort` is executed. -/
  | aborting (job : Job V) (error : V) (dequeued : ℕ)
  /-- The deletion of the abort key is next. -/
  | abortLast (job : Job V)
  /-- The poll has read the abort key of the job of task `k`. -/
  | polled (k : ι) (job : Job V) (error : V)
  /-- The poll has cancelled the function; `finish` is next. -/
  | cancelling (job : Job V) (error : V)
  | rescheduling (job : Job V) (error : Option V) (waitTime : ℚ)
  /-- The first transaction of `_reschedule` is executed. -/
  | rescheduled (job : Job V) (error : Option V) (waitTime : ℚ)
  deriving DecidableEq

/-- How the function of a job ends: `retryable` is `should_retry_on_error`, `none` if the worker has
not looked the function up yet. -/
inductive Outcome (V : Type)
  | returned (result : Option V)
  | jobError (excError jobE : V) (retryable : Option Bool)
  | exception (excError jobE : V) (retryable : Option Bool)
  | cancelled (error : V) (retryable : Option Bool)

/-- The server and the tasks. -/
structure Sys (ι V : Type) where
  db : Db V := {}
  tasks : ι → Task ι V := fun _ => .idle

/-! ## The exception handlers of `process_queue` -/

section
variable {ι V : Type}

/-- The handler takes the branch of `job.retry`. -/
def retriesOnError (job : Job V) (retryable : Option Bool) : Bool :=
  job.attempts ≤ job.retries ∧ retryable = some true

def retriesOnCancel (job : Job V) (aborted : Bool) (retryable : Option Bool) : Bool :=
  job.isComplete = false ∧ aborted = false ∧ retryable = some true

/-- The handlers of `JobError` and of `Exception`; without a function the `AttributeError` leaves
them. -/
def onError (job : Job V) (excError : V) (retryable : Option Bool) (skip : List (Exit V)) :
    Task ι V :=
  if job.retries < job.attempts then .handling job [.finishFailed excError]
  else
    match retryable with
    | some true => .handling job [.retry excError]
    | some false => .handling { job with retries := 0 } skip
    | none => .handling job []

/-- What `process_queue` does next. -/
def onOutcome (job : Job V) (aborted : Bool) : Outcome V → Task ι V
  | .returned result => .finishing job result
  | .jobError excError jobE retryable =>
    onError job excError retryable [.update, .finishFailed jobE]
  | .exception excError jobE retryable => onError job excError retryable [.finishFailed jobE]
  | .cancelled error retryable =>
    if retriesOnCancel job aborted retryable then .handling job [.retry error] else .idle

/-- The job in `job_task_contexts`. -/
def Task.context : Task ι V → Option (Job V)
  | .running job _ | .finishing job _ | .completed job | .handling job _ => some job
  | _ => none

/-- `job.started = now()`, `ACTIVE`, one more attempt. -/
def Job.start (job : Job V) (now : ℤ) : Job V :=
  { job with started := now, status := .active, attempts := job.attempts + 1 }

/-- The sweep takes a job that is not incomplete or is stuck. -/
def Job.swept (job : Job V) (now : ℤ) : Bool :=
  job.status ∉ incompleteJobStatuses ∨ job.stuck now

end

/-! ## The steps of a task -/

/-- A step of one task. -/
inductive Move (ι V : Type)
  | dequeue (r : Route)
  | fetch
  | start (now : ℤ)
  | outcome (o : Outcome V)
  | finish (now : ℤ)
  /-- `notify` after the transaction of `finish`. -/
  | published
  /-- `finish` raises, in its transaction or in `notify`. -/
  | raised (now : ℤ) (excError jobE : V) (retryable : Option Bool)
  | exit (now : ℤ) (rnd time : ℚ)
  | leave
  | sweep (r : Route) (lock : ℕ)
  | sweepGet
  | sweepItem (error : V) (now : ℤ)
  | abort (job : Job V) (error : V) (ttl : ℕ)
  | abortRest (now : ℤ)
  | abortLast
  /-- The poll looks at the job of task `k`. -/
  | poll (k : ι)
  | pollFinish (now : ℤ)
  /-- `_reschedule` of the job of task `k`. -/
  | reschedule (k : ι) (error : Option V) (waitTime : ℚ)
  | rescheduleFinish (now : ℤ)
  | reschedulePut (now : ℤ) (time : ℚ)

variable {ι V : Type} (c : QueueConfig)

/-- A step of a task at `t`: its effect on the server, and where the task is then. -/
def move (s : Sys ι V) (t : Task ι V) : Move ι V → Option (Act V × Task ι V)
  | .dequeue r =>
    match t with
    | .idle =>
      some (.dequeue r, (s.db.lanes r).queued.getLast?.elim .idle fun jobId => .fetched jobId)
    | _ => none
  | .fetch =>
    match t with
    | .fetched jobId =>
      some (.read, (s.db.records.get jobId).elim .idle fun job => .starting job)
    | _ => none
  | .start now =>
    match t with
    | .starting job =>
      some (.update (job.start now) now, .running { job.start now with touched := now } false)
    | _ => none
  | .outcome o =>
    match t with
    | .running job aborted => some (.read, onOutcome job aborted o)
    | _ => none
  | .finish now =>
    match t with
    | .finishing job result =>
      some (.finish job .complete result none now,
        .completed (job.complete .complete result none now))
    | _ => none
  | .published =>
    match t with
    | .completed job => some (.publish (job.id c.toKeyConfig) job.status, .idle)
    | _ => none
  | .raised now excError jobE retryable =>
    match t with
    | .finishing job result =>
      some (.read, onError (job.complete .complete result none now) excError retryable
        [.finishFailed jobE])
    | .completed job => some (.read, onError job excError retryable [.finishFailed jobE])
    | _ => none
  | .exit now rnd time =>
    match t with
    | .handling job (.retry error :: todo) =>
      some (.retry job (some error) now rnd time,
        .handling (job.reset .queued (some error) now) todo)
    | .handling job (.update :: todo) =>
      some (.update job now, .handling { job with touched := now } todo)
    | .handling job (.finishFailed error :: todo) =>
      some (.finish job .failed none (some error) now,
        .handling (job.complete .failed none (some error) now) todo)
    | _ => none
  | .leave => some (.read, .idle)
  | .sweep r lock =>
    match t with
    | .idle =>
      some (.cleanup r lock,
        match (cleanupScript s.db r lock).2 with
        | some (jobId :: jobIds) => .snapshot r (jobId :: jobIds)
        | _ => .idle)
    | _ => none
  | .sweepGet =>
    match t with
    | .snapshot r jobIds =>
      some (.read, .sweeping r (jobIds.map fun jobId => (jobId, s.db.records.get jobId)))
    | _ => none
  | .sweepItem error now =>
    match t with
    | .sweeping r ((jobId, none) :: todo) => some (.sweepMissing r jobId, .sweeping r todo)
    | .sweeping r ((_, some job) :: todo) =>
      some (if job.swept now then .finish job .aborted none (some error) now else .read,
        .sweeping r todo)
    | _ => none
  | .abort job error ttl =>
    match t with
    | .idle =>
      some (.abort job error ttl, .aborting job error (TaskQueue.abortDequeued c s.db job))
    | _ => none
  | .abortRest now =>
    match t with
    | .aborting job error dequeued =>
      if dequeued = 0 then some (.dropActive job, .idle)
      else some (.finish job .aborted none (some error) now, .abortLast job)
    | _ => none
  | .abortLast =>
    match t with
    | .abortLast job => some (.dropAbort job, .idle)
    | _ => none
  | .poll k =>
    match t, (s.tasks k).context with
    | .idle, some job =>
      some (.read, (s.db.abort.get (job.abortId c.toKeyConfig)).elim .idle fun error =>
        .polled k job error)
    | _, _ => none
  | .pollFinish now =>
    match t with
    | .cancelling job error => some (.finish job .aborted none (some error) now, .abortLast job)
    | _ => none
  | .reschedule k error waitTime =>
    match t, (s.tasks k).context with
    | .idle, some job => some (.read, .rescheduling job error waitTime)
    | _, _ => none
  | .rescheduleFinish now =>
    match t with
    | .rescheduling job error waitTime =>
      some (.finish job .rescheduled none error now, .rescheduled job error waitTime)
    | _ => none
  | .reschedulePut now time =>
    match t with
    | .rescheduled job error waitTime => some (.reschedule job error now waitTime time, .idle)
    | _ => none

/-! ## The system -/

/-- A step of the system. -/
inductive Ev (ι V : Type)
  | enqueue (job : Job V) (now : ℤ)
  | schedule (r : Route) (lock : ℕ) (now : ℚ)
  | advance (ms : ℕ)
  /-- The background tasks of the push list, started by any task. -/
  | pushBg (jobId : String)
  | removeBg (jobId : String)
  | move (i : ι) (m : Move ι V)
  /-- The poll `i` flags the task `k` as aborted and cancels its function. -/
  | cancel (i k : ι)

variable [DecidableEq ι]

/-- A step: its effect on the server, and the tasks after it. -/
def Sys.plan (s : Sys ι V) : Ev ι V → Option (Act V × (ι → Task ι V))
  | .enqueue job now => some (.enqueue job now, s.tasks)
  | .schedule r lock now => some (.schedule r lock now, s.tasks)
  | .advance ms => some (.advance ms, s.tasks)
  | .pushBg jobId => some (.pushBg jobId, s.tasks)
  | .removeBg jobId => some (.removeBg jobId, s.tasks)
  | .move i m => (move c s (s.tasks i) m).map fun (a, t) => (a, Function.update s.tasks i t)
  | .cancel i k =>
    match s.tasks i, s.tasks k with
    | .polled k' job error, .running job' _ =>
      if k' = k ∧ job'.id c.toKeyConfig = job.id c.toKeyConfig then
        some (.read, Function.update (Function.update s.tasks k (.running job' true)) i
          (.cancelling job' error))
      else none
    | _, _ => none

/-- All runs of the tasks `ι` of clients and workers. -/
def system : Machine (Sys ι V) (Ev ι V) where
  init := {}
  step s e := (s.plan c e).map fun (a, tasks) => { db := apply c s.db a, tasks }

/-- The step that the system takes on the server. -/
def Sys.act (s : Sys ι V) (e : Ev ι V) : Act V := ((s.plan c e).map Prod.fst).getD .read

/-- The programs take only steps of the queue's machine. -/
theorem system_simulates :
    Machine.Simulates (system c) (machine c) (Sys.db (ι := ι) (V := V)) (Sys.act c) where
  init := rfl
  step s e t h := by
    obtain ⟨⟨a, tasks⟩, hp, rfl⟩ := Option.map_eq_some_iff.1 h
    simp only [machine, Sys.act, hp, Option.map_some, Option.getD_some]

end Kvdb
