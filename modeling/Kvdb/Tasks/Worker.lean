import Kvdb.Tasks.Queue

/-!
# The task worker (`tasks/worker.py`): its schedule tick and its processing tasks

`TaskWorker.schedule` is one tick of the upkeep: it enqueues the next run of every cron job and
promotes the due jobs of the cron job's queue. The servers of the queues are `Servers V`, one `Db`
for each queue name; `nextScheduled` is what the cron library computes.

`TaskWorker.loops` is the machine of the processing tasks: `start` spawns them, a task may end at
any time, and the done callback of a task spawns its replacements.
-/

namespace Kvdb

open Redis Lib

/-! ## Cron jobs -/

structure CronJob (V : Type) where
  functionName : String
  queueName : String
  unique : Bool := true
  /-- `int(croniter(cron, now).get_next())`. -/
  nextScheduled : ℚ → ℤ
  /-- The job that `default_kwargs` describe, with the key it has when the job is not unique. -/
  defaults : Job V

/-- The job that a tick enqueues, from `to_enqueue_kwargs`. -/
def CronJob.job {V : Type} (cron : CronJob V) (c : QueueConfig) (cronjobPrefix : String) (now : ℚ) :
    Job V :=
  { cron.defaults with
    function := cron.functionName
    key :=
      if cron.unique then c.jobId (cronjobPrefix ++ ":" ++ cron.functionName)
      else cron.defaults.key
    scheduled := cron.nextScheduled now }

/-- A worker: the queues it serves and its cron jobs. -/
structure TaskWorker (V : Type) where
  queues : List QueueConfig := []
  cronjobs : List (CronJob V) := []
  cronjobPrefix : String := "cronjob"
  maxConcurrency : ℕ := 150
  maxBroadcastConcurrency : ℕ := 50

namespace TaskWorker

variable {V : Type} (w : TaskWorker V)

def queueNames : List String := w.queues.map fun c => c.queueName

/-- `queue_dict`: the last queue of a name. -/
def queueDict (name : String) : Option QueueConfig :=
  w.queues.reverse.find? fun c => c.queueName = name

/-! ## The schedule tick -/

/-- The server of every queue. -/
abbrev Servers (V : Type) := String → Db V

/-- One round of the loop of `schedule`; `none` is the `KeyError` of a queue that is not served. -/
def scheduleOne (lock : ℕ) (now : ℚ) (dbs : Servers V) (cron : CronJob V) : Option (Servers V) :=
  (w.queueDict cron.queueName).map fun c =>
    let db := (TaskQueue.enqueue c (dbs cron.queueName) (cron.job c w.cronjobPrefix now)
      (1000 * now).floor).1
    Function.update dbs cron.queueName (scheduleScript db none lock now).1

/-- `schedule`; a `KeyError` ends it (the upkeep loop logs it). -/
def scheduleLoop (lock : ℕ) (now : ℚ) : Servers V → List (CronJob V) → Servers V
  | dbs, [] => dbs
  | dbs, cron :: crons =>
    match w.scheduleOne lock now dbs cron with
    | none => dbs
    | some dbs' => scheduleLoop lock now dbs' crons

def schedule (lock : ℕ) (now : ℚ) (dbs : Servers V) : Servers V :=
  w.scheduleLoop lock now dbs w.cronjobs

/-! ## The processing tasks -/

/-- The two kinds of processing task; `process_task` passes its number on. -/
inductive Loop
  | process (concurrencyId : ℕ)
  | broadcast
  deriving DecidableEq, Repr

/-- A task of a kind for a queue. -/
structure LoopTask where
  loop : Loop
  queueName : String
  deriving DecidableEq, Repr

/-- The tasks that run, and those that ended and whose callback has not run yet. -/
structure Loops where
  live : List LoopTask := []
  ended : List LoopTask := []
  started : Bool := false
  event : Bool := false
  deriving DecidableEq, Repr

/-- Spawn one task for every queue, unless the worker is stopping. -/
def spawn (loop : Loop) (s : Loops) : Loops :=
  if s.event then s
  else { s with live := s.live ++ w.queueNames.map fun queueName => { loop, queueName } }

def processTask (concurrencyId : ℕ) (s : Loops) : Loops := w.spawn (.process concurrencyId) s

def broadcastProcessTask (s : Loops) : Loops := w.spawn .broadcast s

/-- The two loops of `start`. -/
def startTasks (s : Loops) : Loops :=
  let s := (List.range w.maxConcurrency).foldl (fun s cid => w.processTask cid s) s
  (List.range w.maxBroadcastConcurrency).foldl (fun s _ => w.broadcastProcessTask s) s

/-- What happens to the tasks of a worker. -/
inductive LoopAct
  | start
  /-- A task ends, in whatever way. -/
  | complete (t : LoopTask)
  /-- The done callback of a task. -/
  | callback (t : LoopTask)
  /-- The worker is told to stop. -/
  | set
  deriving DecidableEq, Repr

def loopStep (s : Loops) : LoopAct → Option Loops
  | .start => if s.started then none else some { w.startTasks s with started := true }
  | .complete t =>
    if t ∈ s.live then some { s with live := s.live.erase t, ended := t :: s.ended } else none
  | .callback t =>
    if t ∈ s.ended then
      some (match t.loop with
        | .process cid => w.processTask cid { s with ended := s.ended.erase t }
        | .broadcast => w.broadcastProcessTask { s with ended := s.ended.erase t })
    else none
  | .set => some { s with event := true }

/-- The tasks of a worker, in every order of completion. -/
def loops : Machine Loops LoopAct where
  init := {}
  step := w.loopStep

end TaskWorker

end Kvdb
