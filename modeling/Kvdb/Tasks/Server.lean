import Kvdb.Lib.Keyspace
import Kvdb.Tasks.Queue

/-!
# The queues of one server

`Db` gives every list, score and record of a queue a place of its own. On the server they stand under
strings in one keyspace, which all the queues of a database share: `key` is the key that the source
makes for each of them (`create_namespace`, `Job.queued_key` and its siblings, `job_id`, `abort_id`;
the records are those of ids with the queue's prefix, see `SharedQueue.key_job`), and `Server.apply`
is the step of a client as the commands that it sends. A script stops at a command that fails; in a
transaction the other commands are executed.

`server q` is the machine of a family `q` of queues on one server.
-/

namespace Kvdb

open Redis TaskQueue

/-- What a queue keeps under a key of its own. A record is given by what follows the prefix of its id,
an abort key by the key of the job. -/
inductive QueueKey
  | queued (r : Route)
  | active (r : Route)
  | incomplete (r : Route)
  | scheduled (r : Route)
  | sweep (r : Route)
  | job (rest : String)
  | abort (key : String)
  | stuck
  | push
  deriving DecidableEq

/-- A queue with the key of its push list, which is read if the list is enabled. -/
structure SharedQueue extends QueueConfig where
  pushToQueueKey : String := "push"
  deriving DecidableEq

namespace SharedQueue

variable (q : SharedQueue)

/-- A key with the suffix of a route. -/
def routed (ns : String) : Route → String
  | none => q.createNamespace ns
  | some w => q.createNamespace ns ++ ":" ++ w

def key : QueueKey → String
  | .queued r => q.routed "queued" r
  | .active r => q.routed "active" r
  | .incomplete r => q.routed "incomplete" r
  | .scheduled r => q.routed "scheduled" r
  | .sweep r => q.routed "sweep" r
  | .job rest => q.jobIdPrefix ++ ":" ++ rest
  | .abort key => q.abortIdPrefix ++ ":" ++ key
  | .stuck => q.createNamespace "stuck"
  | .push => q.pushToQueueKey

/-- `job_id` keeps a key that contains the prefix; any other gets a record of its own. -/
theorem key_job {key : String} (h : ¬ q.jobIdPrefix.toList <:+: key.toList) :
    q.jobId key = q.key (.job key) :=
  if_neg h

end SharedQueue

/-- What is serialized: a job, the error of an abort key, or the 1 of a lock. -/
inductive Blob (V : Type)
  | job (job : Job V)
  | error (error : V)
  | one

/-- The server: its keyspace, the messages published so far with their channels, and its time. -/
structure Server (V : Type) where
  keys : TtlMap String (Entry String (Blob V)) := fun _ => none
  published : List (String × JobStatus) := []
  clock : ℕ := 0

abbrev KeyCommand (V : Type) := Command String String (Blob V)

namespace Server

variable {V : Type} (q : SharedQueue)

/-- A command that may fail. -/
def exec? (s : Server V) (cmd : KeyCommand V) : Option (Server V) :=
  (cmd.exec s.keys s.clock).map fun m => { s with keys := m }

/-- A single command. -/
def exec (s : Server V) (cmd : KeyCommand V) : Server V := (s.exec? cmd).getD s

/-- A `MULTI`/`EXEC` block. -/
def transaction (s : Server V) (cmds : List (KeyCommand V)) : Server V := cmds.foldl exec s

/-- The commands of a script. -/
def script (s : Server V) : List (KeyCommand V) → Server V
  | [] => s
  | cmd :: cmds => (s.exec? cmd).elim s fun s => s.script cmds

/-! ## The scripts -/

def scheduleScript (s : Server V) (r : Route) (lock : ℕ) (now : ℚ) : Server V :=
  if s.keys.exists? (q.key (.scheduled r)) then s
  else
    let s := s.exec (.setex (q.key (.scheduled r)) lock .one)
    match Container.zsets.fetch (s.keys (q.key (.incomplete r))) with
    | none => s
    | some z =>
      let jobs := z.rangeByScore 1 now
      if jobs = [] then s
      else s.script [.zadd (q.key (.incomplete r)) 0 jobs, .rpush (q.key (.queued r)) jobs]

def cleanupScript (s : Server V) (r : Route) (lock : ℕ) : Server V :=
  if s.keys.exists? (q.key (.sweep r)) then s
  else s.exec (.setex (q.key (.sweep r)) lock .one)

/-- What `EnqueueScript` writes. -/
def enqueueCmds (job : Job V) : List (KeyCommand V) :=
  [.set (job.id q.toKeyConfig) (.job job),
      .zadd (q.key (.incomplete job.route)) job.scheduled [job.id q.toKeyConfig]] ++
    if job.scheduled = 0 then
      [.rpush (q.key (.queued job.route)) [job.id q.toKeyConfig]]
    else []

def enqueue (s : Server V) (job : Job V) (now : ℤ) : Server V :=
  match Container.zsets.fetch (s.keys (q.key (.incomplete job.route))) with
  | none => s
  | some z =>
    if z.score (job.id q.toKeyConfig) = none ∧
        s.keys.exists? (job.abortId q.toKeyConfig) = false then
      s.script (enqueueCmds q (enqueuedJob job now))
    else s

/-! ## The transactions -/

/-- `PushQueue.push_pipeline`. -/
def pushCmds (jobId : String) : List (KeyCommand V) :=
  if q.pushToQueueEnabled then
    [.rpush (q.key .push) [jobId], .expire (q.key .push) q.pushToQueueTtl]
  else []

/-- `PushQueue.remove_pipeline`. -/
def removeCmds (jobId : String) : List (KeyCommand V) :=
  if q.pushToQueueEnabled then [.lrem (q.key .push) 1 jobId] else []

def finishCmds (job : Job V) : List (KeyCommand V) :=
  [.lrem (q.key (.active job.route)) 1 (job.id q.toKeyConfig),
      .zrem (q.key (.incomplete job.route)) (job.id q.toKeyConfig)] ++
    (if 0 < job.ttl then [.setex (job.id q.toKeyConfig) job.ttl.toNat (.job job)]
      else if job.ttl = 0 then [.set (job.id q.toKeyConfig) (.job job)]
      else [.del (job.id q.toKeyConfig)]) ++
    removeCmds q (job.id q.toKeyConfig)

def retryCmds (job : Job V) (rnd time : ℚ) : List (KeyCommand V) :=
  [.lrem (q.key (.active job.route)) 1 (job.id q.toKeyConfig),
      .lrem (q.key (.queued job.route)) 1 (job.id q.toKeyConfig)] ++
    (if job.nextRetryDelay rnd ≠ 0 then
        [.zadd (q.key (.incomplete job.route)) (time + job.nextRetryDelay rnd)
          [job.id q.toKeyConfig]]
      else
        [.zadd (q.key (.incomplete job.route)) job.scheduled [job.id q.toKeyConfig],
          .rpush (q.key (.queued job.route)) [job.id q.toKeyConfig]]) ++
    [.set (job.id q.toKeyConfig) (.job job)]

def rescheduleCmds (job : Job V) (waitTime time : ℚ) : List (KeyCommand V) :=
  [.lrem (q.key (.active job.route)) 1 (job.id q.toKeyConfig),
      .lrem (q.key (.queued job.route)) 1 (job.id q.toKeyConfig),
      .zadd (q.key (.incomplete job.route)) (time + waitTime) [job.id q.toKeyConfig]] ++
    pushCmds q (job.id q.toKeyConfig) ++ [.set (job.id q.toKeyConfig) (.job job)]

def abortCmds (job : Job V) (error : V) (ttl : ℕ) : List (KeyCommand V) :=
  [.lrem (q.key (.queued job.route)) 0 (job.id q.toKeyConfig),
    .zrem (q.key (.incomplete job.route)) (job.id q.toKeyConfig),
    .expire (job.id q.toKeyConfig) (ttl + 1),
    .setex (job.abortId q.toKeyConfig) ttl (.error error)]

def sweepMissingCmds (r : Route) (jobId : String) : List (KeyCommand V) :=
  [.lrem (q.key (.active r)) 0 jobId, .zrem (q.key (.incomplete r)) jobId] ++ removeCmds q jobId

def checkStuckCmds (job : Job V) : List (KeyCommand V) :=
  [.lrem (q.key (.active job.route)) 1 (job.id q.toKeyConfig),
    .lpush (q.key (.queued job.route)) (job.id q.toKeyConfig),
    .zrem (q.key (.incomplete job.route)) (job.id q.toKeyConfig),
    .zadd (q.key (.incomplete job.route)) job.scheduled [job.id q.toKeyConfig]]

/-- `dequeue_func_method`: both commands move from the right to the left. -/
def dequeueCmd (r : Route) : KeyCommand V :=
  .lmove (q.key (.queued r)) (q.key (.active r)) .right .left

/-- Time passes on the server. -/
def advance (s : Server V) (ms : ℕ) : Server V :=
  { s with keys := s.keys.evict (s.clock + ms), clock := s.clock + ms }

/-- The effect of a client's step for the queue `q`. -/
def apply (s : Server V) : Act V → Server V
  | .enqueue job now => s.enqueue q job now
  | .schedule r lock now => s.scheduleScript q r lock now
  | .cleanup r lock => s.cleanupScript q r lock
  | .dequeue r => s.exec (dequeueCmd q r)
  | .finish job status result error now =>
    s.transaction (finishCmds q (job.complete status result error now))
  | .retry job error now rnd time =>
    s.transaction (retryCmds q (job.reset .queued error now) rnd time)
  | .reschedule job error now waitTime time =>
    s.transaction (rescheduleCmds q (job.reset .queued error now) waitTime time)
  | .abort job error ttl => s.transaction (abortCmds q job error ttl)
  | .dropActive job => s.exec (.lrem (q.key (.active job.route)) 0 (job.id q.toKeyConfig))
  | .dropAbort job => s.exec (.del (job.abortId q.toKeyConfig))
  | .sweepMissing r jobId => s.transaction (sweepMissingCmds q r jobId)
  | .update job now => s.exec (.set (job.id q.toKeyConfig) (.job { job with touched := now }))
  | .saddStuck jobId => s.exec (.sadd (q.key .stuck) jobId)
  | .checkStuck job => s.transaction (checkStuckCmds q job)
  | .sremStuck jobId => s.exec (.srem (q.key .stuck) jobId)
  | .pushBg jobId => s.transaction (pushCmds q jobId)
  | .removeBg jobId => s.transaction (removeCmds q jobId)
  | .publish jobId status => { s with published := s.published ++ [(jobId, status)] }
  | .read => s
  | .advance ms => s.advance ms

end Server

/-- Any client of any of the queues takes a step. -/
def server {V : Type} {ι : Type*} (q : ι → SharedQueue) : Lib.Machine (Server V) (ι × Act V) where
  init := {}
  step s e := some (s.apply (q e.1) e.2)

/-! ## What a queue sees of the server -/

/-- The job of a record. -/
def Blob.asJob {V : Type} : Blob V → Option (Job V)
  | .job j => some j
  | _ => none

/-- The error of an abort key. -/
def Blob.asError {V : Type} : Blob V → Option V
  | .error e => some e
  | _ => none

namespace SharedQueue

variable {V : Type} (q : SharedQueue)

/-- A string cell of the keyspace, read as `f` reads its string. -/
def strCell {α : Type*} (f : Blob V → Option α) (c : Cell (Entry String (Blob V))) :
    Option (Cell α) :=
  (c.value.asStr.bind f).map fun x => ⟨x, c.expireAt⟩

/-- The strings under the keys that start with `p`. -/
def strings {α : Type*} (p : String) (f : Blob V → Option α)
    (m : TtlMap String (Entry String (Blob V))) : TtlMap String α := fun k =>
  if p.toList <+: k.toList then (m k).bind (strCell f) else none

/-- A lock is held if its key exists, whatever it holds. -/
def lockCell (c : Cell (Entry String (Blob V))) : Cell Unit := ⟨(), c.expireAt⟩

/-- The queue pushes to its push list, or `x` is another key. -/
def Uses (x : QueueKey) : Prop := x = .push → q.pushToQueueEnabled = true

instance : DecidablePred q.Uses := fun x =>
  inferInstanceAs (Decidable (x = .push → q.pushToQueueEnabled = true))

/-- What is stored under a key that the queue uses. -/
def under (s : Server V) (x : QueueKey) : Option (Cell (Entry String (Blob V))) :=
  if q.Uses x then s.keys (q.key x) else none

/-- The state of the queue that the keys stand for. -/
def view (s : Server V) : Db V where
  lanes r :=
    { queued := Container.lists.contents (q.under s (.queued r))
      active := Container.lists.contents (q.under s (.active r))
      incomplete := Container.zsets.contents (q.under s (.incomplete r)) }
  scheduled r := (q.under s (.scheduled r)).map lockCell
  sweep r := (q.under s (.sweep r)).map lockCell
  records := strings (q.jobIdPrefix ++ ":") Blob.asJob s.keys
  abort := strings (q.abortIdPrefix ++ ":") Blob.asError s.keys
  stuck := Container.sets.contents (q.under s .stuck)
  pushQueue := Container.lists.contents (q.under s .push)
  pushExpireAt := (q.under s .push).bind Cell.expireAt
  published := s.published.filter fun m => (q.jobIdPrefix ++ ":").toList <+: m.1.toList
  clock := s.clock

end SharedQueue

end Kvdb
