import Kvdb.Lib.Machine
import Kvdb.Tasks.Static

/-!
# The task queue (`tasks/queue.py`) as a machine of atomic steps

Every Lua script, every `MULTI`/`EXEC` block and every single command a client or worker issues is
one step (`Act`), with the client's own copy of the job as its argument; `step c db a` is its effect
on the server. Any client may issue any step at any time, with any copy of a job: the runs of
`machine c` are all interleavings of any number of clients and workers, crashed ones included (a
client that stops issues no more steps). `Kvdb/Tasks/Process.lean` adds the clients' programs.

`laneOp` says what a step does to the lists and scores of a route, as an operation of `DelayQueue`.
-/

namespace Kvdb

open Redis Lib

/-- The configuration of a task queue. -/
structure QueueConfig extends KeyConfig where
  pushToQueueEnabled : Bool := false
  pushToQueueTtl : ℕ := 600
  version : ℕ × ℕ × ℕ := (7, 2, 0)
  deriving DecidableEq

/-! ## The push list (`PushQueue`) -/

namespace Db

variable {V : Type}

/-- `RPUSH` and `EXPIRE` of the push list. -/
def pushAdd (db : Db V) (c : QueueConfig) (jobId : String) : Db V :=
  if c.pushToQueueEnabled then
    { db with
      pushQueue := db.pushQueue ++ [jobId]
      pushExpireAt := some (db.clock + 1000 * c.pushToQueueTtl) }
  else db

/-- `LREM` of one entry; an empty list is no key and has no expiry. -/
def pushRemove (db : Db V) (c : QueueConfig) (jobId : String) : Db V :=
  if c.pushToQueueEnabled then
    { db with
      pushQueue := lrem 1 jobId db.pushQueue
      pushExpireAt := if lrem 1 jobId db.pushQueue = [] then none else db.pushExpireAt }
  else db

end Db

/-! ## The transactions -/

namespace TaskQueue

variable {V : Type} (c : QueueConfig)

/-- `enqueue`: the job as it is stored. -/
def enqueuedJob (job : Job V) (now : ℤ) : Job V := { job with queued := now, status := .queued }

def enqueue (db : Db V) (job : Job V) (now : ℤ) : Db V × Bool :=
  enqueueScript db job.route (job.id c.toKeyConfig) (job.abortId c.toKeyConfig)
    (enqueuedJob job now) job.scheduled

/-- `version < (6, 2, 0)`. -/
def oldVersion : Bool := c.version.1 < 6 ∨ c.version.1 = 6 ∧ c.version.2.1 < 2

/-- `dequeue_func_method`: `BRPOPLPUSH` on an old server, else `BLMOVE` from `RIGHT` to `LEFT`. -/
def dequeueFuncMethod (l : DelayQueue String) : DelayQueue String :=
  if oldVersion c then l.rpoplpush else l.lmove .right .left

/-- `dequeue_job_id` on a route; on an empty list it blocks until its timeout. -/
def dequeueJobId (db : Db V) (r : Route) : Db V := db.onLane r (dequeueFuncMethod c)

/-- The transaction of `finish`, of a job that is already completed. -/
def finishTx (db : Db V) (job : Job V) : Db V :=
  let db := db.onLane job.route fun l =>
    (l.lremActive 1 (job.id c.toKeyConfig)).zrem (job.id c.toKeyConfig)
  let db :=
    if 0 < job.ttl then
      { db with records := db.records.setex db.clock (job.id c.toKeyConfig) job.ttl.toNat job }
    else if job.ttl = 0 then { db with records := db.records.set (job.id c.toKeyConfig) job }
    else { db with records := db.records.del (job.id c.toKeyConfig) }
  db.pushRemove c (job.id c.toKeyConfig)

/-- The transaction of `retry`, of a job that is already reset; `rnd` is the jitter, `time` is
`time.time()`. -/
def retryTx (db : Db V) (job : Job V) (rnd time : ℚ) : Db V :=
  let db := db.onLane job.route fun l =>
    (l.lremActive 1 (job.id c.toKeyConfig)).lremQueued 1 (job.id c.toKeyConfig)
  let db :=
    if job.nextRetryDelay rnd ≠ 0 then
      db.onLane job.route fun l => l.zadd (job.id c.toKeyConfig) (time + job.nextRetryDelay rnd)
    else
      db.onLane job.route fun l =>
        (l.zadd (job.id c.toKeyConfig) job.scheduled).rpush [job.id c.toKeyConfig]
  { db with records := db.records.set (job.id c.toKeyConfig) job }

/-- The second transaction of `_reschedule`, of a job that is already reset. -/
def rescheduleTx (db : Db V) (job : Job V) (waitTime time : ℚ) : Db V :=
  let db := db.onLane job.route fun l =>
    ((l.lremActive 1 (job.id c.toKeyConfig)).lremQueued 1 (job.id c.toKeyConfig)).zadd
      (job.id c.toKeyConfig) (time + waitTime)
  let db := db.pushAdd c (job.id c.toKeyConfig)
  { db with records := db.records.set (job.id c.toKeyConfig) job }

/-- The transaction of `abort`. -/
def abortTx (db : Db V) (job : Job V) (error : V) (ttl : ℕ) : Db V :=
  let db := db.onLane job.route fun l =>
    (l.lremQueued 0 (job.id c.toKeyConfig)).zrem (job.id c.toKeyConfig)
  { db with
    records := db.records.expire db.clock (job.id c.toKeyConfig) (ttl + 1)
    abort := db.abort.setex db.clock (job.abortId c.toKeyConfig) ttl error }

/-- `dequeued`: the first answer of the transaction of `abort`. -/
def abortDequeued (db : Db V) (job : Job V) : ℕ :=
  lremCount 0 (job.id c.toKeyConfig) (db.lanes job.route).queued

/-- The transaction of `sweep` for a job it cannot read. -/
def sweepMissingTx (db : Db V) (r : Route) (jobId : String) : Db V :=
  (db.onLane r fun l => (l.lremActive 0 jobId).zrem jobId).pushRemove c jobId

/-- The transaction of `check_stuck_jobs`. -/
def checkStuckTx (db : Db V) (job : Job V) : Db V :=
  db.onLane job.route fun l =>
    (((l.lremActive 1 (job.id c.toKeyConfig)).lpush (job.id c.toKeyConfig)).zrem
      (job.id c.toKeyConfig)).zadd (job.id c.toKeyConfig) job.scheduled

end TaskQueue

/-! ## The machine -/

/-- One atomic step of some client on the server. -/
inductive Act (V : Type)
  | enqueue (job : Job V) (now : ℤ)
  | schedule (r : Route) (lock : ℕ) (now : ℚ)
  | cleanup (r : Route) (lock : ℕ)
  | dequeue (r : Route)
  | finish (job : Job V) (status : JobStatus) (result error : Option V) (now : ℤ)
  | retry (job : Job V) (error : Option V) (now : ℤ) (rnd time : ℚ)
  /-- The second transaction of `_reschedule`; the first one is a `finish` as `RESCHEDULED`. -/
  | reschedule (job : Job V) (error : Option V) (now : ℤ) (waitTime time : ℚ)
  | abort (job : Job V) (error : V) (ttl : ℕ)
  /-- `alrem` of `abort`, when nothing was dequeued. -/
  | dropActive (job : Job V)
  /-- `adelete` of the abort key. -/
  | dropAbort (job : Job V)
  | sweepMissing (r : Route) (jobId : String)
  /-- `TaskQueue.update`: the record is set. -/
  | update (job : Job V) (now : ℤ)
  | saddStuck (jobId : String)
  | checkStuck (job : Job V)
  | sremStuck (jobId : String)
  /-- The background tasks of the push list. -/
  | pushBg (jobId : String)
  | removeBg (jobId : String)
  | publish (jobId : String) (status : JobStatus)
  /-- A command that changes nothing (`GET`, `MGET`, `KEYS`, `TYPE`, `TTL`, a pop that times out). -/
  | read
  | advance (ms : ℕ)

open TaskQueue

variable {V : Type} (c : QueueConfig)

/-- The effect of a step on the server. -/
def apply (db : Db V) : Act V → Db V
  | .enqueue job now => (TaskQueue.enqueue c db job now).1
  | .schedule r lock now => (scheduleScript db r lock now).1
  | .cleanup r lock => (cleanupScript db r lock).1
  | .dequeue r => dequeueJobId c db r
  | .finish job status result error now => finishTx c db (job.complete status result error now)
  | .retry job error now rnd time => retryTx c db (job.reset .queued error now) rnd time
  | .reschedule job error now waitTime time =>
    rescheduleTx c db (job.reset .queued error now) waitTime time
  | .abort job error ttl => abortTx c db job error ttl
  | .dropActive job => db.onLane job.route fun l => l.lremActive 0 (job.id c.toKeyConfig)
  | .dropAbort job => { db with abort := db.abort.del (job.abortId c.toKeyConfig) }
  | .sweepMissing r jobId => sweepMissingTx c db r jobId
  | .update job now =>
    { db with records := db.records.set (job.id c.toKeyConfig) { job with touched := now } }
  | .saddStuck jobId => { db with stuck := insert jobId db.stuck }
  | .checkStuck job => checkStuckTx c db job
  | .sremStuck jobId => { db with stuck := db.stuck.erase jobId }
  | .pushBg jobId => db.pushAdd c jobId
  | .removeBg jobId => db.pushRemove c jobId
  | .publish jobId status => { db with published := db.published ++ [(jobId, status)] }
  | .read => db
  | .advance ms => db.advance ms

/-- All interleavings of the steps of any number of clients and workers on an empty server. -/
def machine : Machine (Db V) (Act V) where
  init := {}
  step db a := some (apply c db a)

/-- The steps `as` taken one after the other. -/
def run (db : Db V) (as : List (Act V)) : Db V := as.foldl (apply c) db

theorem exec_machine (db : Db V) (as : List (Act V)) :
    (machine c).exec db as = some (run c db as) := by
  induction as generalizing db with
  | nil => rfl
  | cons a as ih => exact ih (apply c db a)

section Histories
variable {γ : Type*} (note : γ → Db V → Act V → γ)

/-- The queue with a history that `note` keeps. -/
def noted (g₀ : γ) : Machine (Db V × γ) (Act V) := (machine c).observe g₀ note

/-- The state and the history after the steps `as`. -/
def runNoted (p : Db V × γ) (as : List (Act V)) : Db V × γ :=
  as.foldl (fun p a => (apply c p.1 a, note p.2 p.1 a)) p

variable {c note}

theorem exec_noted {g₀ : γ} (p : Db V × γ) (as : List (Act V)) :
    (noted c note g₀).exec p as = some (runNoted c note p as) := by
  induction as generalizing p with
  | nil => rfl
  | cons a as ih => exact ih (apply c p.1 a, note p.2 p.1 a)

theorem noted_step {g₀ : γ} {p q : Db V × γ} {a : Act V} (h : (noted c note g₀).step p a = some q) :
    q = (apply c p.1 a, note p.2 p.1 a) := by
  obtain ⟨hs, hg⟩ := Machine.observe_step.1 h
  exact Prod.ext (Option.some.inj hs).symm hg

end Histories

/-! ## What a step does to the lists and scores of a route -/

/-- The operation a step performs on the lists and scores of route `r`. -/
def laneOp (db : Db V) (r : Route) : Act V → DelayQueue.Op String
  | .enqueue job _ =>
    if job.route = r ∧ enqueueAccepts db r (job.id c.toKeyConfig) (job.abortId c.toKeyConfig) then
      .add (job.id c.toKeyConfig) job.scheduled
    else .keep
  | .schedule r' _ now => if r' = r ∧ db.scheduled.exists? r = false then .promote now else .keep
  | .dequeue r' => if r' = r then .serve .right .left else .keep
  | .finish job _ _ _ _ => if job.route = r then .drop (job.id c.toKeyConfig) else .keep
  | .retry job error now rnd time =>
    if job.route = r then
      if (job.reset .queued error now).nextRetryDelay rnd ≠ 0 then
        .delay (job.id c.toKeyConfig) (time + (job.reset .queued error now).nextRetryDelay rnd)
      else .requeue (job.id c.toKeyConfig) job.scheduled
    else .keep
  | .reschedule job _ _ waitTime time =>
    if job.route = r then .delay (job.id c.toKeyConfig) (time + waitTime) else .keep
  | .abort job _ _ => if job.route = r then .cancel (job.id c.toKeyConfig) else .keep
  | .dropActive job => if job.route = r then .release (job.id c.toKeyConfig) else .keep
  | .sweepMissing r' jobId => if r' = r then .purge jobId else .keep
  | .checkStuck job =>
    if job.route = r then .restore (job.id c.toKeyConfig) job.scheduled else .keep
  | .cleanup .. | .dropAbort _ | .update .. | .saddStuck _ | .sremStuck _ | .pushBg _ | .removeBg _
  | .publish .. | .read | .advance _ => .keep

/-! ## The record that a step stores -/

/-- The record that a step stores. -/
def Act.writes (db : Db V) : Act V → Option (Job V)
  | .enqueue job now =>
    if enqueueAccepts db job.route (job.id c.toKeyConfig) (job.abortId c.toKeyConfig) then
      some (enqueuedJob job now)
    else none
  | .finish job status result error now => some (job.complete status result error now)
  | .retry job error now _ _ | .reschedule job error now _ _ => some (job.reset .queued error now)
  | .update job now => some { job with touched := now }
  | _ => none

end Kvdb
