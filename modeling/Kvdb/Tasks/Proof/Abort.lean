import Kvdb.Tasks.Proof.Lanes
import Kvdb.Tasks.Proof.PushQueue
import Kvdb.Tasks.Proof.Records

/-!
# The abort of a job that is not running

`abort` finishes a job as `ABORTED` if its first command has removed the id from the queued list. A job
that only has a score (a delayed enqueue, a delayed retry, a reschedule) is not in this list: its score
is gone then, and its record stays as it was, for `ttl + 1` seconds, and nobody is told. `aborted_iff` is
the exact condition for what an abort is to leave behind.
-/

namespace Kvdb

open Redis Lib TaskQueue

variable {V : Type} (c : QueueConfig)

/-- The server after a call of `abort`. -/
def abort (db : Db V) (job : Job V) (error : V) (ttl : ℕ) (now : ℤ) : Db V :=
  run c db ((Call.abort job error ttl now).steps c db)

/-- The id is in none of the job's lists, the record is that of an aborted job with this error, and the
subscribers were told so. -/
structure Aborted (db db' : Db V) (job : Job V) (error : V) : Prop where
  queued : job.id c.toKeyConfig ∉ (db'.lanes job.route).queued
  active : job.id c.toKeyConfig ∉ (db'.lanes job.route).active
  incomplete : (db'.lanes job.route).incomplete.score (job.id c.toKeyConfig) = none
  pushed : job.id c.toKeyConfig ∉ db'.pushQueue
  record : ∃ j, db'.records.get (job.id c.toKeyConfig) = some j ∧ j.status = .aborted ∧
    j.error = some error
  notified : ∃ ms, db'.published = db.published ++ ms ∧
    (job.id c.toKeyConfig, JobStatus.aborted) ∈ ms

/-- The id is queued, active once at most, on the push list no more often than it is removed from it, and
the job keeps a record. -/
structure Abortable (db : Db V) (job : Job V) : Prop where
  queued : job.id c.toKeyConfig ∈ (db.lanes job.route).queued
  active : (db.lanes job.route).active.count (job.id c.toKeyConfig) ≤ 1
  pushed : db.pushQueue.count (job.id c.toKeyConfig) ≤ if c.pushToQueueEnabled then 2 else 0
  ttl : 0 ≤ job.ttl

variable {c} {db : Db V} {job : Job V} {error : V} {ttl : ℕ} {now : ℤ}

/-! ## The two branches -/

theorem pushRemove_pushQueue (db : Db V) (jobId : String) :
    (db.pushRemove c jobId).pushQueue =
      if c.pushToQueueEnabled then db.pushQueue.erase jobId else db.pushQueue := by
  unfold Db.pushRemove
  split
  · exact lrem_one _ _
  · rfl

theorem finishTx_pushQueue (db : Db V) (job : Job V) :
    (finishTx c db job).pushQueue =
      if c.pushToQueueEnabled then db.pushQueue.erase (job.id c.toKeyConfig)
      else db.pushQueue := by
  have h : ∀ db' : Db V, db'.pushQueue = db.pushQueue →
      (db'.pushRemove c (job.id c.toKeyConfig)).pushQueue =
        if c.pushToQueueEnabled then db.pushQueue.erase (job.id c.toKeyConfig)
        else db.pushQueue := by
    intro db' h'
    rw [pushRemove_pushQueue, h']
  unfold finishTx
  dsimp only
  apply h
  split
  · rfl
  · split <;> rfl

theorem finishTx_published (db : Db V) (job : Job V) :
    (finishTx c db job).published = db.published := by
  unfold finishTx Db.pushRemove
  (repeat' split) <;> rfl

theorem abort_queued (h : job.id c.toKeyConfig ∈ (db.lanes job.route).queued) :
    abort c db job error ttl now =
      run c db [.abort job error ttl, .finish job .aborted none (some error) now,
        .publish (job.id c.toKeyConfig) .aborted, .dropAbort job,
        .removeBg (job.id c.toKeyConfig)] := by
  have hn : abortDequeued c db job ≠ 0 := fun hn => lremCount_zero.1 hn h
  simp only [abort, Call.steps, Call.first, Call.rest, hn, ↓reduceIte, List.cons_append,
    List.nil_append]

theorem abort_unqueued (h : job.id c.toKeyConfig ∉ (db.lanes job.route).queued) :
    abort c db job error ttl now =
      run c db [.abort job error ttl, .dropActive job, .removeBg (job.id c.toKeyConfig)] := by
  have hn : abortDequeued c db job = 0 := lremCount_zero.2 h
  simp only [abort, Call.steps, Call.first, Call.rest, hn, ↓reduceIte, List.cons_append,
    List.nil_append]

/-- The lists of a job whose id was queued. -/
theorem abort_queued_lanes (h : job.id c.toKeyConfig ∈ (db.lanes job.route).queued) :
    (abort c db job error ttl now).lanes job.route =
      ((db.lanes job.route).apply (.cancel (job.id c.toKeyConfig))).apply
        (.drop (job.id c.toKeyConfig)) := by
  rw [abort_queued h]
  simp only [run, List.foldl_cons, List.foldl_nil, apply_lanes, laneOp, ↓reduceIte,
    DelayQueue.apply]

theorem abort_queued_records (h : job.id c.toKeyConfig ∈ (db.lanes job.route).queued) :
    (abort c db job error ttl now).records.get (job.id c.toKeyConfig) =
      if 0 ≤ job.ttl then some (job.complete .aborted none (some error) now) else none := by
  have hrec : (abort c db job error ttl now).records =
      (finishTx c (apply c db (.abort job error ttl))
        (job.complete .aborted none (some error) now)).records := by
    rw [abort_queued h]
    simp only [run, List.foldl_cons, List.foldl_nil, apply, pushRemove_records]
  rw [hrec]
  exact finishTx_get c _ (job.complete .aborted none (some error) now)

theorem abort_queued_pushQueue (h : job.id c.toKeyConfig ∈ (db.lanes job.route).queued) :
    (abort c db job error ttl now).pushQueue =
      if c.pushToQueueEnabled then
        (db.pushQueue.erase (job.id c.toKeyConfig)).erase (job.id c.toKeyConfig)
      else db.pushQueue := by
  rw [abort_queued h]
  simp only [run, List.foldl_cons, List.foldl_nil, apply, pushRemove_pushQueue,
    finishTx_pushQueue]
  split <;> rfl

theorem abort_queued_published (h : job.id c.toKeyConfig ∈ (db.lanes job.route).queued) :
    (abort c db job error ttl now).published =
      db.published ++ [(job.id c.toKeyConfig, .aborted)] := by
  rw [abort_queued h]
  simp only [run, List.foldl_cons, List.foldl_nil, apply, Db.pushRemove]
  split <;> exact congrArg (· ++ _) (finishTx_published _ _)

/-- Nobody is told of the abort of a job whose id was not queued. -/
theorem abort_unqueued_published (h : job.id c.toKeyConfig ∉ (db.lanes job.route).queued) :
    (abort c db job error ttl now).published = db.published := by
  rw [abort_unqueued h]
  simp only [run, List.foldl_cons, List.foldl_nil, apply, Db.pushRemove]
  split <;> rfl

/-! ## What it leaves behind -/

/-- One of the active copies is removed. -/
theorem abort_queued_active (h : job.id c.toKeyConfig ∈ (db.lanes job.route).queued) :
    job.id c.toKeyConfig ∉ ((abort c db job error ttl now).lanes job.route).active ↔
      (db.lanes job.route).active.count (job.id c.toKeyConfig) ≤ 1 := by
  rw [abort_queued_lanes h, ← List.count_eq_zero]
  simp only [DelayQueue.apply, DelayQueue.zrem, DelayQueue.lremActive, DelayQueue.lremQueued,
    lrem_one, List.count_erase_self]
  omega

/-- Two of the pushed entries are removed, one by `finish` and one at the end of `abort`. -/
theorem abort_queued_pushed (h : job.id c.toKeyConfig ∈ (db.lanes job.route).queued) :
    job.id c.toKeyConfig ∉ (abort c db job error ttl now).pushQueue ↔
      db.pushQueue.count (job.id c.toKeyConfig) ≤ if c.pushToQueueEnabled then 2 else 0 := by
  rw [abort_queued_pushQueue h, ← List.count_eq_zero]
  split
  · rw [List.count_erase_self, List.count_erase_self]
    omega
  · omega

theorem aborted_of_queued (h : job.id c.toKeyConfig ∈ (db.lanes job.route).queued)
    (hactive : (db.lanes job.route).active.count (job.id c.toKeyConfig) ≤ 1)
    (hpushed : db.pushQueue.count (job.id c.toKeyConfig) ≤ if c.pushToQueueEnabled then 2 else 0)
    (httl : 0 ≤ job.ttl) : Aborted c db (abort c db job error ttl now) job error where
  queued := by
    rw [abort_queued_lanes h]
    exact not_mem_lrem_zero _ _
  active := (abort_queued_active h).2 hactive
  incomplete := by
    rw [abort_queued_lanes h]
    simp only [DelayQueue.apply, DelayQueue.zrem, ZSet.score_rem, ↓reduceIte]
  pushed := (abort_queued_pushed h).2 hpushed
  record := by
    rw [abort_queued_records h, if_pos httl]
    exact ⟨_, rfl, rfl, rfl⟩
  notified := ⟨_, abort_queued_published h, List.mem_singleton.2 rfl⟩

/-- **An abort leaves behind an aborted job** if and only if the id was queued (with no copies elsewhere
but one active and two pushed ones) and the job keeps a record. -/
theorem aborted_iff (c : QueueConfig) (db : Db V) (job : Job V) (error : V) (ttl : ℕ) (now : ℤ) :
    Aborted c db (abort c db job error ttl now) job error ↔ Abortable c db job := by
  constructor
  · intro h
    have hq : job.id c.toKeyConfig ∈ (db.lanes job.route).queued := by
      by_contra hq
      obtain ⟨ms, hms, hmem⟩ := h.notified
      rw [abort_unqueued_published hq] at hms
      have hnil : ms = [] := List.self_eq_append_right.1 hms
      rw [hnil] at hmem
      cases hmem
    refine ⟨hq, (abort_queued_active hq).1 h.active, (abort_queued_pushed hq).1 h.pushed, ?_⟩
    obtain ⟨j, hj, -⟩ := h.record
    rw [abort_queued_records hq] at hj
    by_contra hneg
    rw [if_neg hneg] at hj
    cases hj
  · intro h
    exact aborted_of_queued h.queued h.active h.pushed h.ttl

/-- A job for second 100, enqueued and aborted before that. -/
def laterJob : Job String := { function := "f", key := "k", scheduled := 100 }

/-- Its record stays that of a queued job, and its subscribers hear nothing. -/
theorem not_aborted_scheduled :
    let db := run {} {} [.enqueue laterJob 0]
    (db.lanes none).incomplete.score (laterJob.id {}) = some 100 ∧
      ((abort {} db laterJob "Aborted" 5 1000).records.get (laterJob.id {})).map Job.status =
        some .queued ∧
      ¬ Aborted {} db (abort {} db laterJob "Aborted" 5 1000) laterJob "Aborted" := by
  have hstatus : ((abort {} (run {} {} [.enqueue laterJob 0]) laterJob "Aborted" 5
      1000).records.get (laterJob.id {})).map Job.status = some .queued := by
    decide +kernel
  refine ⟨by decide +kernel, hstatus, ?_⟩
  intro h
  obtain ⟨j, hj, haborted, -⟩ := h.record
  rw [show (({} : QueueConfig).toKeyConfig) = {} from rfl] at hj
  rw [hj, Option.map_some, haborted] at hstatus
  cases hstatus

end Kvdb
