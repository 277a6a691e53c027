import Kvdb.Tasks.Queue

/-!
# The transactions as lists of commands

What `finish`, `retry`, `_reschedule` and `abort` queue on their pipeline, command by command, and
what the commands do. Run in one block they are the transactions of `Kvdb/Tasks/Queue.lean`
(`runCmds_finish` and its siblings).
-/

namespace Kvdb

open Redis Lib TaskQueue

/-- A command on one of the queue's keys. -/
inductive Cmd (V : Type)
  | lremActive (r : Route) (count : ℕ) (jobId : String)
  | lremQueued (r : Route) (count : ℕ) (jobId : String)
  | rpushQueued (r : Route) (jobId : String)
  | zadd (r : Route) (jobId : String) (score : ℚ)
  | zrem (r : Route) (jobId : String)
  | set (jobId : String) (job : Job V)
  | setex (jobId : String) (ttl : ℕ) (job : Job V)
  | delete (jobId : String)
  | expire (jobId : String) (ttl : ℕ)
  | setexAbort (abortId : String) (ttl : ℕ) (error : V)
  | rpushPush (jobId : String)
  | expirePush (ttl : ℕ)
  | lremPush (count : ℕ) (jobId : String)

variable {V : Type} (c : QueueConfig)

/-- The effect of a command. -/
def Cmd.run (db : Db V) : Cmd V → Db V
  | .lremActive r count jobId => db.onLane r fun l => l.lremActive count jobId
  | .lremQueued r count jobId => db.onLane r fun l => l.lremQueued count jobId
  | .rpushQueued r jobId => db.onLane r fun l => l.rpush [jobId]
  | .zadd r jobId score => db.onLane r fun l => l.zadd jobId score
  | .zrem r jobId => db.onLane r fun l => l.zrem jobId
  | .set jobId job => { db with records := db.records.set jobId job }
  | .setex jobId ttl job => { db with records := db.records.setex db.clock jobId ttl job }
  | .delete jobId => { db with records := db.records.del jobId }
  | .expire jobId ttl => { db with records := db.records.expire db.clock jobId ttl }
  | .setexAbort abortId ttl error => { db with abort := db.abort.setex db.clock abortId ttl error }
  | .rpushPush jobId => { db with pushQueue := db.pushQueue ++ [jobId] }
  | .expirePush ttl => { db with pushExpireAt := some (db.clock + 1000 * ttl) }
  | .lremPush count jobId =>
    { db with
      pushQueue := lrem count jobId db.pushQueue
      pushExpireAt := if lrem count jobId db.pushQueue = [] then none else db.pushExpireAt }

/-- A `MULTI`/`EXEC` block. -/
def runCmds (db : Db V) (cmds : List (Cmd V)) : Db V := cmds.foldl Cmd.run db

/-- `PushQueue.push_pipeline`. -/
def pushPipeline (jobId : String) : List (Cmd V) :=
  if c.pushToQueueEnabled then [.rpushPush jobId, .expirePush c.pushToQueueTtl] else []

/-- `PushQueue.remove_pipeline`. -/
def removePipeline (jobId : String) : List (Cmd V) :=
  if c.pushToQueueEnabled then [.lremPush 1 jobId] else []

/-- What `finish` queues, of a job that is already completed. -/
def finishCmds (job : Job V) : List (Cmd V) :=
  [.lremActive job.route 1 (job.id c.toKeyConfig), .zrem job.route (job.id c.toKeyConfig)] ++
    (if 0 < job.ttl then [.setex (job.id c.toKeyConfig) job.ttl.toNat job]
      else if job.ttl = 0 then [.set (job.id c.toKeyConfig) job]
      else [.delete (job.id c.toKeyConfig)]) ++
    removePipeline c (job.id c.toKeyConfig)

/-- What `retry` queues, of a job that is already reset. -/
def retryCmds (job : Job V) (rnd time : ℚ) : List (Cmd V) :=
  [.lremActive job.route 1 (job.id c.toKeyConfig),
      .lremQueued job.route 1 (job.id c.toKeyConfig)] ++
    (if job.nextRetryDelay rnd ≠ 0 then
        [.zadd job.route (job.id c.toKeyConfig) (time + job.nextRetryDelay rnd)]
      else
        [.zadd job.route (job.id c.toKeyConfig) job.scheduled,
          .rpushQueued job.route (job.id c.toKeyConfig)]) ++
    [.set (job.id c.toKeyConfig) job]

/-- What the second part of `_reschedule` queues. -/
def rescheduleCmds (job : Job V) (waitTime time : ℚ) : List (Cmd V) :=
  [.lremActive job.route 1 (job.id c.toKeyConfig), .lremQueued job.route 1 (job.id c.toKeyConfig),
      .zadd job.route (job.id c.toKeyConfig) (time + waitTime)] ++
    pushPipeline c (job.id c.toKeyConfig) ++ [.set (job.id c.toKeyConfig) job]

/-- What `abort` queues. -/
def abortCmds (job : Job V) (error : V) (ttl : ℕ) : List (Cmd V) :=
  [.lremQueued job.route 0 (job.id c.toKeyConfig), .zrem job.route (job.id c.toKeyConfig),
    .expire (job.id c.toKeyConfig) (ttl + 1), .setexAbort (job.abortId c.toKeyConfig) ttl error]

/-- Two commands on one route. -/
@[simp] theorem onLane_onLane (db : Db V) (r : Route)
    (f g : DelayQueue String → DelayQueue String) :
    (db.onLane r f).onLane r g = db.onLane r fun l => g (f l) := by
  simp [Db.onLane]

theorem runCmds_append (db : Db V) (xs ys : List (Cmd V)) :
    runCmds db (xs ++ ys) = runCmds (runCmds db xs) ys := List.foldl_append

theorem runCmds_push (db : Db V) (jobId : String) :
    runCmds db (pushPipeline c jobId) = db.pushAdd c jobId := by
  unfold pushPipeline Db.pushAdd
  split <;> rfl

theorem runCmds_remove (db : Db V) (jobId : String) :
    runCmds db (removePipeline c jobId) = db.pushRemove c jobId := by
  unfold removePipeline Db.pushRemove
  split <;> rfl

theorem runCmds_finish (db : Db V) (job : Job V) :
    runCmds db (finishCmds c job) = finishTx c db job := by
  rw [finishCmds, runCmds_append, runCmds_append, runCmds_remove]
  unfold finishTx
  split
  · simp [runCmds, Cmd.run]
  · split <;> simp [runCmds, Cmd.run]

theorem runCmds_retry (db : Db V) (job : Job V) (rnd time : ℚ) :
    runCmds db (retryCmds c job rnd time) = retryTx c db job rnd time := by
  rw [retryCmds, runCmds_append, runCmds_append]
  unfold retryTx
  split <;> simp [runCmds, Cmd.run]

theorem runCmds_reschedule (db : Db V) (job : Job V) (waitTime time : ℚ) :
    runCmds db (rescheduleCmds c job waitTime time) = rescheduleTx c db job waitTime time := by
  rw [rescheduleCmds, runCmds_append, runCmds_append, runCmds_push]
  simp [rescheduleTx, runCmds, Cmd.run]

theorem runCmds_abort (db : Db V) (job : Job V) (error : V) (ttl : ℕ) :
    runCmds db (abortCmds c job error ttl) = abortTx c db job error ttl := by
  simp [abortCmds, abortTx, runCmds, Cmd.run, Db.onLane]

end Kvdb
