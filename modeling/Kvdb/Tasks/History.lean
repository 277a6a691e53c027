import Kvdb.Tasks.Queue

/-!
# What has become of a job

`History` records along a run which jobs are open: accepted by `enqueue` and not yet finished for
good or aborted. Between the two transactions of `_reschedule` an open job is also recorded in
`between`. It is proof-only: no step reads it.
-/

namespace Kvdb

open Redis Lib TaskQueue

/-- The open jobs, by route and id. -/
structure History where
  opened : Finset (Route × String) := ∅
  between : Finset (Route × String) := ∅

variable {V : Type} (c : QueueConfig)

/-- The route of a job's lists and its id. -/
def Job.slot (job : Job V) : Route × String := (job.route, job.id c.toKeyConfig)

/-- `enqueue` of this job would be accepted. -/
def Job.accepted (job : Job V) (db : Db V) : Prop :=
  enqueueAccepts db job.route (job.id c.toKeyConfig) (job.abortId c.toKeyConfig) = true

instance (job : Job V) (db : Db V) : Decidable (job.accepted c db) :=
  inferInstanceAs (Decidable (_ = true))

/-- What a step does to the jobs that are open. -/
def History.note (h : History) (db : Db V) : Act V → History
  | .enqueue job _ =>
    if job.accepted c db then
      { opened := insert (job.slot c) h.opened, between := h.between.erase (job.slot c) }
    else h
  | .finish job status _ _ _ =>
    if status ∈ terminalJobStatuses then { h with opened := h.opened.erase (job.slot c) }
    else { h with between := insert (job.slot c) h.between }
  | .retry job _ _ _ _ | .reschedule job _ _ _ _ =>
    { h with between := h.between.erase (job.slot c) }
  | .abort job _ _ => { h with opened := h.opened.erase (job.slot c) }
  | _ => h

/-- The queue with the jobs that are open. -/
abbrev recorded : Machine (Db V × History) (Act V) := noted c (fun h db a => h.note c db a) {}

/-- The queue and its open jobs after the steps `as`. -/
abbrev record (as : List (Act V)) : Db V × History :=
  runNoted c (fun h db a => h.note c db a) ({}, {}) as

end Kvdb
