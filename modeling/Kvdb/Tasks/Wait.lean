import Mathlib.Algebra.BigOperators.Group.List.Basic
import Mathlib.Logic.Function.Iterate
import Kvdb.Types.Jobs

/-!
# Waiting for jobs (`TaskQueue.wait_for_jobs`, `TaskQueue.as_jobs_complete`)

Both poll a list of jobs and remove jobs from the list they iterate over. `pollStep` is one round of
their loop (or the end of a pass over the list), with the position `i` of the iteration, which a
removal does not set back. What the refreshes come to is given by `visits`: the `n`-th refresh of a
key, with the `enqueue` that follows a `RuntimeError`.
-/

namespace Kvdb

/-- What comes of a refresh. -/
inductive Visit (V : Type)
  /-- The job takes over the attributes of the record. -/
  | read (fetched : Job V)
  /-- `AttributeError`: there is no record. -/
  | missing
  /-- `RuntimeError`, and the job is enqueued. -/
  | enqueued
  /-- `RuntimeError`, `enqueue` is refused, and its refresh reads the record. -/
  | reread (fetched : Job V)
  /-- `RuntimeError`, `enqueue` is refused, and its refresh raises `AttributeError`. -/
  | lost
  deriving DecidableEq

namespace Visit

variable {V : Type}

/-- It ends the job: completed, failed or missing. -/
def ends : Visit V → Bool
  | read fetched | reread fetched => fetched.status ∈ terminalJobStatuses
  | missing | lost => true
  | enqueued => false

/-- The job that is read as completed. -/
def completed? : Visit V → Option (Job V)
  | read fetched | reread fetched => if fetched.status = .complete then some fetched else none
  | missing | lost | enqueued => none

/-- The caller's copy of the job after the refresh; the record of a key has this key. -/
def refreshed (job : Job V) : Visit V → Job V
  | read fetched | reread fetched => { fetched with key := job.key }
  | enqueued => { job with status := .queued }
  | missing | lost => job

end Visit

/-- How the two differ: what they give for a completed job, and when they stop at the end of a pass
(`cancel_func` answers, or `max_wait_duration` is over). -/
structure PollConfig (V R : Type) where
  raiseExceptions : Bool := false
  give : Job V → R
  stops : ℕ → Bool := fun _ => false

/-- The loop: the list, the position in it, the passes done, the refreshes done, and what it has
given so far. -/
structure Poll (V R : Type) where
  jobs : List (Job V)
  i : ℕ := 0
  pass : ℕ := 0
  seen : String → ℕ := fun _ => 0
  results : List R := []

/-- The call; with an exception, what a generator has yielded before it. -/
inductive Polled (V R : Type)
  | running (s : Poll V R)
  | returned (results : List R)
  | raised (results : List R)

section
variable {V R : Type} (cfg : PollConfig V R) (visits : String → ℕ → Visit V)

/-- `jobs.remove(job)`; jobs are equal when their keys are. `none` is the `ValueError`. -/
def removeJob (jobs : List (Job V)) (key : String) : Option (List (Job V)) :=
  if jobs.any fun job => job.key = key then some (jobs.eraseP fun job => job.key = key) else none

/-- The end of a round: is the job complete, has it failed? -/
def checkJob (s : Poll V R) (job : Job V) : Polled V R :=
  if job.status = .complete then
    let results := s.results ++ [cfg.give job]
    match removeJob s.jobs job.key with
    | some jobs => .running { s with jobs, results }
    | none => .raised results
  else if job.status ∈ unsuccessfulTerminalJobStatuses then
    if cfg.raiseExceptions then .raised s.results
    else
      match removeJob s.jobs job.key with
      | some jobs => .running { s with jobs }
      | none => .raised s.results
  else .running s

/-- A round for the job at `i` that has this outcome of its refresh. -/
def pollJob (s : Poll V R) (job : Job V) : Visit V → Polled V R
  | .lost => .raised s.results
  | .missing =>
    if cfg.raiseExceptions then .raised s.results
    else
      match removeJob s.jobs job.key with
      -- the round goes on with the copy that could not be refreshed
      | some jobs => checkJob cfg { s with jobs, i := s.i + 1 } job
      | none => .raised s.results
  | v =>
    checkJob cfg { s with jobs := s.jobs.set s.i (v.refreshed job), i := s.i + 1 } (v.refreshed job)

/-- A round, or the end of a pass. -/
def pollStep : Polled V R → Polled V R
  | .running s =>
    match s.jobs[s.i]? with
    | some job =>
      pollJob cfg { s with seen := Function.update s.seen job.key (s.seen job.key + 1) } job
        (visits job.key (s.seen job.key))
    | none =>
      if cfg.stops s.pass ∨ s.jobs = [] then .returned s.results
      else .running { s with i := 0, pass := s.pass + 1 }
  | p => p

/-- The loop on these jobs comes to return the results. -/
def Returns (jobs : List (Job V)) (results : List R) : Prop :=
  ∃ k, (pollStep cfg visits)^[k] (.running { jobs }) = .returned results

end

section
variable {V : Type} (raiseExceptions : Bool)

def waitForJobs : PollConfig V (Option V) where
  raiseExceptions
  give job := job.result

/-- With `cancel_func` and `max_wait_duration` in `stops`. -/
def asJobsComplete (returnResults : Bool) (stops : ℕ → Bool) : PollConfig V (Option V ⊕ Job V) where
  raiseExceptions
  give job := if returnResults then .inl job.result else .inr job
  stops

/-- The job comes to its end at its `n`-th refresh. -/
def EndsAt (v : ℕ → Visit V) (n : ℕ) : Prop := (v n).ends = true ∧ ∀ k < n, (v k).ends = false

instance (v : ℕ → Visit V) (n : ℕ) : Decidable (EndsAt v n) :=
  inferInstanceAs (Decidable (_ ∧ _))

/-- Without exceptions both end and give one result for each job that completed, the same ones. -/
def YieldsOnce (jobs : List (Job V)) (visits : String → ℕ → Visit V) (n : String → ℕ) : Prop :=
  ∃ ws ys, Returns (waitForJobs false) visits jobs ws ∧
    Returns (asJobsComplete false true fun _ => false) visits jobs ys ∧
    ws.Perm (jobs.filterMap fun job => (visits job.key (n job.key)).completed?.map Job.result) ∧
    ys.Perm (ws.map .inl)

/-- The job does not end with its refresh after a refused `enqueue`, and if there is no record at the
first refresh, the caller's copy is not terminal. -/
def Refreshable (visits : String → ℕ → Visit V) (n : String → ℕ) (job : Job V) : Prop :=
  visits job.key (n job.key) ≠ .lost ∧
    (visits job.key 0 = .missing → job.status ∉ terminalJobStatuses)

instance [DecidableEq V] (visits : String → ℕ → Visit V) (n : String → ℕ) (job : Job V) :
    Decidable (Refreshable visits n job) :=
  inferInstanceAs (Decidable (_ ∧ (_ → _)))

end

end Kvdb
