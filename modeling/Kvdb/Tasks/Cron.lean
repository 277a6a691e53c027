import Kvdb.Tasks.Worker

/-!
# The ticks of several workers

`cronMachine`: any number of workers that serve one queue with the cron jobs `crons`. A round of
`TaskWorker.schedule` takes four steps: `to_enqueue_kwargs` reads the clock and computes the next
time of the cron job, the enqueue script runs, `queue.schedule` reads the clock, its script runs.
Between any two of them other workers take steps; jobs are dequeued and finished in between. All
workers read one clock, in milliseconds.

`noteCron` keeps, for one cron job, the accepted enqueues with their times, and when each was pushed
to the queued list. `Once` is what a unique cron job is for.
-/

namespace Kvdb

open Redis Lib

/-- The id under which a cron job is enqueued. -/
def CronJob.id {V : Type} (cron : CronJob V) (c : QueueConfig) (cronjobPrefix : String) : String :=
  (cron.job c cronjobPrefix 0).id c.toKeyConfig

/-- The route of the job that is enqueued. -/
def CronJob.route {V : Type} (cron : CronJob V) : Route := cron.defaults.route

/-- Where the upkeep of a worker is. -/
inductive TickAt (V : Type)
  | idle
  /-- The kwargs were made at the time `now`; the enqueue script comes next. -/
  | enqueueing (cron : CronJob V) (now : ℕ)
  /-- `queue.schedule` comes next. -/
  | enqueued
  /-- `queue.schedule` has read the clock; its script comes next. -/
  | scheduling (r : Route) (now : ℕ)

structure CronQueue (W V : Type) where
  db : Db V := {}
  /-- The clock of the workers. -/
  now : ℕ := 0
  place : W → TickAt V := fun _ => .idle

inductive CronEv (W V : Type)
  /-- A round for the cron job number `i` begins. -/
  | tick (w : W) (i : ℕ)
  | enqueue (w : W) (queued : ℤ)
  /-- `queue.schedule`, in a round or (also for a worker's own route) in the upkeep of a worker. -/
  | ask (w : W) (r : Route)
  | schedule (w : W) (lock : ℕ)
  | dequeue (r : Route)
  /-- An active job completes. -/
  | finish (job : Job V) (result : Option V) (now : ℤ)
  | advance (ms : ℕ)

namespace CronQueue

variable {W V : Type} [DecidableEq W]

def go (s : CronQueue W V) (w : W) (p : TickAt V) : CronQueue W V :=
  { s with place := Function.update s.place w p }

/-- A step of some client on the server. -/
def issue (c : QueueConfig) (s : CronQueue W V) (a : Act V) : CronQueue W V :=
  { s with db := apply c s.db a }

variable (c : QueueConfig) (cronjobPrefix : String) (crons : List (CronJob V)) (s : CronQueue W V)

def step : CronEv W V → Option (CronQueue W V)
  | .tick w i =>
    match s.place w, crons[i]? with
    | .idle, some cron => some (s.go w (.enqueueing cron s.now))
    | _, _ => none
  | .enqueue w queued =>
    match s.place w with
    | .enqueueing cron now =>
      some ((s.issue c (.enqueue (cron.job c cronjobPrefix (seconds now)) queued)).go w .enqueued)
    | _ => none
  | .ask w r =>
    match s.place w with
    | .idle => some (s.go w (.scheduling r s.now))
    | .enqueued => some (s.go w (.scheduling none s.now))
    | _ => none
  | .schedule w lock =>
    match s.place w with
    | .scheduling r now => some ((s.issue c (.schedule r lock (seconds now))).go w .idle)
    | _ => none
  | .dequeue r => some (s.issue c (.dequeue r))
  | .finish job result now =>
    if job.id c.toKeyConfig ∈ (s.db.lanes job.route).active then
      some (s.issue c (.finish job .complete result none now))
    else none
  | .advance ms => some { s.issue c (.advance ms) with now := s.now + ms }

end CronQueue

def cronMachine (W V : Type) [DecidableEq W] (c : QueueConfig) (cronjobPrefix : String)
    (crons : List (CronJob V)) : Machine (CronQueue W V) (CronEv W V) where
  init := {}
  step := CronQueue.step c cronjobPrefix crons

/-! ## The occurrences of one cron job -/

/-- An accepted enqueue: its time, and when it was pushed to the queued list. -/
structure Occurrence where
  scheduled : ℤ
  pushes : List ℕ := []
  deriving DecidableEq, Repr

section
variable {W V : Type} [DecidableEq W] (c : QueueConfig) (cronjobPrefix : String)
  (crons : List (CronJob V)) (cron : CronJob V)

/-- The queue of the cron job's runs. -/
def CronQueue.lane (s : CronQueue W V) : DelayQueue String := s.db.lanes cron.route

/-- The time of the cron job's enqueue, if the event is one and it is accepted. -/
def CronQueue.accepted (s : CronQueue W V) : CronEv W V → Option ℤ
  | .enqueue w _ =>
    match s.place w with
    | .enqueueing cron' now =>
      let job := cron'.job c cronjobPrefix (seconds now)
      if job.id c.toKeyConfig = cron.id c cronjobPrefix ∧ job.route = cron.route ∧
          enqueueAccepts s.db job.route (job.id c.toKeyConfig) (job.abortId c.toKeyConfig) then
        some job.scheduled
      else none
    | _ => none
  | _ => none

/-- The copies that the event puts in line. -/
def CronQueue.pushed (s : CronQueue W V) (e : CronEv W V) : ℕ :=
  (s.step c cronjobPrefix crons e).elim 0 fun s' =>
    (s'.lane cron).queued.count (cron.id c cronjobPrefix) -
      (s.lane cron).queued.count (cron.id c cronjobPrefix)

/-- A push belongs to the last accepted enqueue. -/
def notePush (n now : ℕ) : List Occurrence → List Occurrence
  | [] => []
  | o :: log => { o with pushes := o.pushes ++ List.replicate n now } :: log

/-- The accepted enqueues of the cron job, the last one first. -/
def noteCron (log : List Occurrence) (s : CronQueue W V) (e : CronEv W V) : List Occurrence :=
  notePush (s.pushed c cronjobPrefix crons cron e) s.now
    (match s.accepted c cronjobPrefix cron e with
      | some scheduled => { scheduled } :: log
      | none => log)

/-- The machine with the occurrences of the cron job. -/
def notedCron : Machine (CronQueue W V × List Occurrence) (CronEv W V) :=
  (cronMachine W V c cronjobPrefix crons).observe [] (noteCron c cronjobPrefix crons cron)

end

/-- The runs of `x` that wait for their time, wait in line, or are active. -/
def pendingRuns (q : DelayQueue String) (x : String) : ℕ :=
  ((q.incomplete.score x).elim 0 fun s => if 1 ≤ s then 1 else 0) + q.copies x

/-- **At most one run for each occurrence.** -/
structure Once (q : DelayQueue String) (x : String) (log : List Occurrence) : Prop where
  single : pendingRuns q x ≤ 1
  increasing : (log.map Occurrence.scheduled).Pairwise (· > ·)
  pushed_once : ∀ o ∈ log, o.pushes.length ≤ 1
  in_time : ∀ o ∈ log, ∀ t ∈ o.pushes, (o.scheduled : ℚ) ≤ seconds t

end Kvdb
