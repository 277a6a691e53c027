import Mathlib.Algebra.Order.Ring.Rat
import Mathlib.Data.List.Infix
import Mathlib.Data.List.TakeWhile

/-!
# Jobs (`types/jobs.py`, `types/common.py`)

`Job V` is the record of one run of a function, `V` the type of the Python objects it carries
(arguments, result, error, metadata). It is the validated record: `timeout`, `retries`, `ttl`,
`retry_delay` and `max_stuck_duration` have their defaults filled in (the default settings), so
only `timeout` keeps its optional type, which `stuck` tests. Times are milliseconds (`now`),
`scheduled` and the durations are seconds.

A job's keys depend on its queue (`KeyConfig`) and on the worker it is routed to (`Route`): the
queued, active and incomplete keys carry the worker id or name as a suffix.
-/

namespace Kvdb

/-! ## Statuses -/

inductive JobStatus
  | new
  | deferred
  | queued
  | active
  | aborted
  | failed
  | complete
  | rescheduled
  deriving DecidableEq, Repr

/-- `INCOMPLETE_JOB_STATUSES`. -/
def incompleteJobStatuses : List JobStatus := [.new, .deferred, .queued, .active, .rescheduled]

/-- `TERMINAL_JOB_STATUSES`. -/
def terminalJobStatuses : List JobStatus := [.complete, .failed, .aborted]

/-- `UNSUCCESSFUL_TERMINAL_JOB_STATUSES`. -/
def unsuccessfulTerminalJobStatuses : List JobStatus := terminalJobStatuses.filter (· ≠ .complete)

/-! ## Keys -/

/-- What the keys of a queue are made of: `create_namespace` and `job_prefix`. -/
structure KeyConfig where
  queueName : String := "global"
  queuePrefix : String := "_kvq_"
  jobPrefix : String := "job"
  deriving DecidableEq, Repr

namespace KeyConfig

def createNamespace (c : KeyConfig) (ns : String) : String :=
  c.queuePrefix ++ ":" ++ c.queueName ++ ":" ++ ns

def jobIdPrefix (c : KeyConfig) : String := c.createNamespace c.jobPrefix

def abortIdPrefix (c : KeyConfig) : String := c.createNamespace "abort"

/-- `TaskQueue.job_id` of a key: a key that contains the prefix is taken to be an id. -/
def jobId (c : KeyConfig) (key : String) : String :=
  if c.jobIdPrefix.toList <:+: key.toList then key else c.jobIdPrefix ++ ":" ++ key

/-- `Job.key_from_id`: `job_id.rsplit(":", 1)[-1]`. -/
def keyFromId (jobId : String) : String :=
  String.ofList (jobId.toList.reverse.takeWhile (· ≠ ':')).reverse

theorem colon_notMem_keyFromId (jobId : String) : ':' ∉ (keyFromId jobId).toList := by
  intro h
  simp only [keyFromId, String.toList_ofList, List.mem_reverse] at h
  simpa using List.mem_takeWhile_imp h

theorem colon_mem_jobIdPrefix (c : KeyConfig) : ':' ∈ c.jobIdPrefix.toList := by
  simp [jobIdPrefix, createNamespace]

/-- **The key is read back from the id** if and only if it contains no colon. -/
theorem keyFromId_jobId (c : KeyConfig) (key : String) :
    keyFromId (c.jobId key) = key ↔ ':' ∉ key.toList := by
  constructor
  · intro h
    rw [← h]
    exact colon_notMem_keyFromId _
  · intro h
    have hkey : ∀ x ∈ key.toList.reverse, decide (x ≠ ':') = true := by
      intro x hx
      simpa using fun e : x = ':' => h (e ▸ List.mem_reverse.1 hx)
    have hid : c.jobId key = c.jobIdPrefix ++ ":" ++ key :=
      if_neg fun hp => h (hp.subset (colon_mem_jobIdPrefix c))
    rw [hid, keyFromId, String.toList_append, String.toList_append, List.reverse_append,
      List.takeWhile_append_of_pos hkey]
    simp

end KeyConfig

/-- The suffix of the queued, active and incomplete keys: none, or a worker's id or name. -/
abbrev Route := Option String

/-! ## The record -/

structure JobProgress where
  total : ℤ := 0
  completed : ℤ := 0
  deriving DecidableEq, Repr

/-- `retry_backoff: Union[bool, float]`. -/
inductive RetryBackoff
  | flag (b : Bool)
  | limit (d : ℚ)
  deriving DecidableEq

/-- Python truth value. -/
def RetryBackoff.truthy : RetryBackoff → Bool
  | .flag b => b
  | .limit d => d ≠ 0

structure Job (V : Type) where
  function : String
  args : List V := []
  kwargs : List (String × V) := []
  key : String
  result : Option V := none
  error : Option V := none
  status : JobStatus := .new
  metadata : List (String × V) := []
  workerId : Option String := none
  workerName : Option String := none
  jobCallback : Option String := none
  jobCallbackKwargs : List (String × V) := []
  bypassLock : Option Bool := none
  timeout : Option ℤ := some 900
  retries : ℤ := 1
  ttl : ℤ := 1800
  retryDelay : ℚ := 60
  retryBackoff : RetryBackoff := .flag true
  maxStuckDuration : ℚ := 3600
  heartbeat : ℤ := 0
  scheduled : ℤ := 0
  progress : JobProgress := {}
  attempts : ℤ := 0
  completed : ℤ := 0
  queued : ℤ := 0
  started : ℤ := 0
  touched : ℤ := 0
  deriving DecidableEq

/-- `seconds`: milliseconds to seconds. -/
def seconds (ms : ℤ) : ℚ := ms / 1000

/-- `exponential_backoff` with jitter: `rnd` is what `random.random()` returns. -/
def exponentialBackoff (attempts : ℤ) (baseDelay : ℚ) (maxDelay : Option ℚ) (rnd : ℚ) : ℚ :=
  let backoff := baseDelay * 2 ^ (max (attempts - 1) 0).toNat
  (maxDelay.elim backoff fun m => min m backoff) * rnd

/-- A truthy worker id or name. -/
def truthyStr : Option String → Option String
  | some s => if s = "" then none else some s
  | none => none

namespace Job

variable {V : Type}

/-- The suffix of `queued_key`, `active_key` and `incomplete_key`. -/
def route (job : Job V) : Route :=
  match truthyStr job.workerId with
  | some w => some w
  | none => truthyStr job.workerName

def id (c : KeyConfig) (job : Job V) : String := c.jobId job.key

def abortId (c : KeyConfig) (job : Job V) : String := c.abortIdPrefix ++ ":" ++ job.key

/-- `next_retry_delay`; `max_delay = self.retry_delay` is never `True`, the field being a float. -/
def nextRetryDelay (job : Job V) (rnd : ℚ) : ℚ :=
  if job.retryBackoff.truthy then
    exponentialBackoff job.attempts job.retryDelay (some job.retryDelay) rnd
  else job.retryDelay

def reset (job : Job V) (status : JobStatus) (error : Option V) (now : ℤ) : Job V :=
  { job with
    status, error, completed := 0, started := 0, progress := { total := 0, completed := 0 }
    touched := now }

def complete (job : Job V) (status : JobStatus) (result error : Option V) (now : ℤ) : Job V :=
  { job with
    status, result, error, completed := now
    progress := { job.progress with completed := job.progress.total } }

def isComplete (job : Job V) : Bool := job.status = .complete

/-- `stuck`: an active job past its timeout or its heartbeat. -/
def stuck (job : Job V) (now : ℤ) : Bool :=
  job.status = .active ∧
    ((job.timeout.elim job.maxStuckDuration fun t => (t : ℚ)) < seconds (now - job.started) ∨
      job.heartbeat ≠ 0 ∧ (job.heartbeat : ℚ) < seconds (now - job.touched))

section
variable (c : KeyConfig) (job : Job V) (s : JobStatus) (r e : Option V) (now : ℤ)

@[simp] theorem route_reset : (job.reset s e now).route = job.route := rfl

end

end Job

end Kvdb
