import Kvdb.Tasks.Queue

/-!
# The stuck-job pass (`TaskQueue.check_stuck_jobs`)

A pass goes through the reply of `KEYS job_id_prefix*`. A job that looks stuck is put into the stuck
set the first time, and pushed to the queued list when a later pass finds it there.
-/

namespace Kvdb

open Redis Lib

variable {V : Type} (c : QueueConfig)

/-- The job under a key, if the pass takes it for stuck. -/
def stuckCandidate (db : Db V) (jobId : String) : Option (Job V) :=
  if 0 < db.records.ttl db.clock jobId then none
  else
    (db.records.get jobId).filter fun job =>
      !decide (0 < job.scheduled ∨ "cronjob".toList <:+: (job.id c.toKeyConfig).toList ∨
        job.status = .active)

/-- One round of the loop. -/
def checkStuckJob (db : Db V) (jobId : String) : Db V :=
  match stuckCandidate c db jobId with
  | none => db
  | some job =>
    if jobId ∈ db.stuck then apply c (apply c db (.checkStuck job)) (.sremStuck jobId)
    else apply c db (.saddStuck jobId)

/-- A pass over the keys `jobIds`. -/
def checkStuckJobs (db : Db V) (jobIds : List String) : Db V :=
  jobIds.foldl (checkStuckJob c) db

/-- A job that may be pushed: in neither list, and not finished. -/
structure Fit (db : Db V) (job : Job V) : Prop where
  unlisted : job.id c.toKeyConfig ∉ (db.lanes job.route).queued ++ (db.lanes job.route).active
  unfinished : job.status ∉ terminalJobStatuses

/-- What the round for a key pushes is fit. -/
def RoundSafe (db : Db V) (jobId : String) : Prop :=
  ∀ job, stuckCandidate c db jobId = some job → jobId ∈ db.stuck → Fit c db job

/-- Every round of a pass is safe. -/
def PassSafe : Db V → List String → Prop
  | _, [] => True
  | db, jobId :: jobIds => RoundSafe c db jobId ∧ PassSafe (checkStuckJob c db jobId) jobIds

/-- Successive passes are safe, each after a time of waiting. -/
def PassesSafe (jobIds : List String) : Db V → List ℕ → Prop
  | _, [] => True
  | db, ms :: waits =>
    PassSafe c (db.advance ms) jobIds ∧
      PassesSafe jobIds (checkStuckJobs c (db.advance ms) jobIds) waits

/-- The number of passes that take the job under a key for stuck. -/
def candidatePasses (jobId : String) : Db V → List ℕ → ℕ
  | _, [] => 0
  | db, ms :: waits =>
    (if (stuckCandidate c (db.advance ms) jobId).isSome then 1 else 0) +
      candidatePasses jobId (db.advance ms) waits

end Kvdb
