import Mathlib.Data.Finset.Basic
import Kvdb.Lib.DelayQueue
import Kvdb.Types.Jobs

/-!
# The queue's keys on the server and its Lua scripts (`tasks/static.py`)

`Db V` is what one task queue keeps on the Redis server: for every route the queued list, the
active list and the incomplete sorted set (`lanes`), the two locks of the upkeep scripts, the job
records (stored under the job's id, serialized), the abort keys, the set of jobs seen stuck, the
push list, and the messages published so far. `clock` is the server's time in milliseconds; keys
past their deadline are removed when it advances (`advance`).

Records hold the job that was serialized. The argument limits of the Lua runtime (`unpack`) and the
servers' memory are not modelled.
-/

namespace Kvdb

open Redis Lib

/-- What one task queue keeps on the server. -/
structure Db (V : Type) where
  lanes : Route → DelayQueue String := fun _ => {}
  scheduled : TtlMap Route Unit := fun _ => none
  sweep : TtlMap Route Unit := fun _ => none
  records : TtlMap String (Job V) := fun _ => none
  abort : TtlMap String V := fun _ => none
  stuck : Finset String := ∅
  pushQueue : List String := []
  pushExpireAt : Option ℕ := none
  published : List (String × JobStatus) := []
  clock : ℕ := 0

namespace Db

variable {V : Type}

/-- Change the lists and scores of one route. -/
def onLane (db : Db V) (r : Route) (f : DelayQueue String → DelayQueue String) : Db V :=
  { db with lanes := Function.update db.lanes r (f (db.lanes r)) }

/-- Time passes on the server. -/
def advance (db : Db V) (ms : ℕ) : Db V :=
  let now := db.clock + ms
  { db with
    scheduled := db.scheduled.evict now
    sweep := db.sweep.evict now
    records := db.records.evict now
    abort := db.abort.evict now
    pushQueue := if db.pushExpireAt.any fun t => decide (t ≤ now) then [] else db.pushQueue
    pushExpireAt := db.pushExpireAt.filter fun t => decide (now < t)
    clock := now }

end Db

variable {V : Type}

/-- `ScheduleScript`: `KEYS` are the scheduled, incomplete and queued keys of the route, `ARGV` the
lock's seconds and the current time. -/
def scheduleScript (db : Db V) (r : Route) (lock : ℕ) (now : ℚ) : Db V × Option (List String) :=
  if db.scheduled.exists? r then (db, none)
  else
    let db := { db with scheduled := db.scheduled.setex db.clock r lock () }
    let jobs := (db.lanes r).due now
    if jobs = [] then (db, some jobs)
    else (db.onLane r fun l => (l.zaddAll 0 jobs).rpush jobs, some jobs)

/-- `CleanupScript`: `KEYS` are the sweep and active keys of the route, `ARGV` the lock's seconds. -/
def cleanupScript (db : Db V) (r : Route) (lock : ℕ) : Db V × Option (List String) :=
  if db.sweep.exists? r then (db, none)
  else ({ db with sweep := db.sweep.setex db.clock r lock () }, some (db.lanes r).active)

/-- What `EnqueueScript` tests: the id has no score and there is no abort key. -/
def enqueueAccepts (db : Db V) (r : Route) (jobId abortId : String) : Bool :=
  (db.lanes r).incomplete.score jobId = none ∧ db.abort.exists? abortId = false

/-- `EnqueueScript`: `KEYS` are the incomplete key, the job's id, the queued key and the abort id,
`ARGV` the serialized job and its `scheduled`. -/
def enqueueScript (db : Db V) (r : Route) (jobId abortId : String) (data : Job V) (score : ℤ) :
    Db V × Bool :=
  if enqueueAccepts db r jobId abortId then
    let db := { db with records := db.records.set jobId data }
    let db := db.onLane r fun l => l.zadd jobId score
    (if score = 0 then db.onLane r fun l => l.rpush [jobId] else db, true)
  else (db, false)

end Kvdb
