import Kvdb.Tasks.History

/-!
# Steps on the server as operations on a delayed queue

`apply_lanes`: on the lists and scores of a route, a step of any client is the operation `laneOp`
of `DelayQueue`, so the invariants of `Kvdb/Lib/DelayQueue.lean` carry over to the server, route by
route. `LaneStep`: the operations that a step can be, one constructor for each kind (`laneStep`); the
invariants of the lists take a step apart with it. `laneOp_omits`: only the steps that place a job
(`Act.places`) add its id to a route.
-/

namespace Kvdb

open Redis Lib TaskQueue

variable {V : Type} (c : QueueConfig)

/-! ## Lists and scores -/

theorem onLane_lanes (db : Db V) (r r' : Route) (f : DelayQueue String → DelayQueue String) :
    (db.onLane r f).lanes r' = if r = r' then f (db.lanes r') else db.lanes r' := by
  simp only [Db.onLane, Function.update_apply]
  by_cases h : r = r'
  · subst h; simp
  · simp [h, Ne.symm h]

@[simp] theorem pushAdd_lanes (db : Db V) (jobId : String) :
    (db.pushAdd c jobId).lanes = db.lanes := by
  unfold Db.pushAdd; split <;> rfl

@[simp] theorem pushRemove_lanes (db : Db V) (jobId : String) :
    (db.pushRemove c jobId).lanes = db.lanes := by
  unfold Db.pushRemove; split <;> rfl

theorem enqueueScript_lanes (db : Db V) (r r' : Route) (jobId abortId : String) (data : Job V)
    (score : ℤ) :
    (enqueueScript db r jobId abortId data score).1.lanes r' =
      (db.lanes r').apply
        (if r = r' ∧ enqueueAccepts db r' jobId abortId then .add jobId score else .keep) := by
  unfold enqueueScript
  by_cases hr : r = r'
  · subst hr
    by_cases ha : enqueueAccepts db r jobId abortId
    · by_cases hs : score = 0 <;>
        simp [ha, hs, onLane_lanes, DelayQueue.apply]
    · simp [ha, DelayQueue.apply]
  · by_cases ha : enqueueAccepts db r jobId abortId
    · by_cases hs : score = 0 <;> simp [ha, hs, hr, onLane_lanes, DelayQueue.apply]
    · simp [ha, hr, DelayQueue.apply]

theorem scheduleScript_lanes (db : Db V) (r r' : Route) (lock : ℕ) (now : ℚ) :
    (scheduleScript db r lock now).1.lanes r' =
      (db.lanes r').apply
        (if r = r' ∧ db.scheduled.exists? r' = false then .promote now else .keep) := by
  unfold scheduleScript
  by_cases hr : r = r'
  · subst hr
    cases hl : db.scheduled.exists? r with
    | true => simp [DelayQueue.apply]
    | false =>
      by_cases hd : (db.lanes r).due now = []
      · simp [hd, DelayQueue.apply, DelayQueue.rpush, DelayQueue.zaddAll, ZSet.addAll]
      · simp [hd, onLane_lanes, DelayQueue.apply]
  · simp only [hr, false_and, ↓reduceIte, DelayQueue.apply]
    split
    · rfl
    · split
      · rfl
      · rw [onLane_lanes, if_neg hr]

theorem finishTx_lanes (db : Db V) (job : Job V) (r : Route) :
    (finishTx c db job).lanes r =
      (db.lanes r).apply
        (if job.route = r then .drop (job.id c.toKeyConfig) else .keep) := by
  have h : ∀ db' : Db V, db'.lanes = (db.onLane job.route fun l =>
      (l.lremActive 1 (job.id c.toKeyConfig)).zrem (job.id c.toKeyConfig)).lanes →
      (db'.pushRemove c (job.id c.toKeyConfig)).lanes r = (db.lanes r).apply
        (if job.route = r then .drop (job.id c.toKeyConfig) else .keep) := by
    intro db' h'
    rw [pushRemove_lanes, h', onLane_lanes]
    split <;> rfl
  unfold finishTx
  dsimp only
  apply h
  split
  · rfl
  · split <;> rfl

theorem retryTx_lanes (db : Db V) (job : Job V) (rnd time : ℚ) (r : Route) :
    (retryTx c db job rnd time).lanes r =
      (db.lanes r).apply
        (if job.route = r then
          if job.nextRetryDelay rnd ≠ 0 then
            .delay (job.id c.toKeyConfig) (time + job.nextRetryDelay rnd)
          else .requeue (job.id c.toKeyConfig) job.scheduled
        else .keep) := by
  unfold retryTx
  by_cases hr : job.route = r
  · by_cases hd : job.nextRetryDelay rnd = 0 <;> simp [hr, hd, onLane_lanes, DelayQueue.apply]
  · by_cases hd : job.nextRetryDelay rnd = 0 <;> simp [hr, hd, onLane_lanes, DelayQueue.apply]

/-- **A step on the lists and scores of a route** is an operation of the delayed queue. -/
theorem apply_lanes (db : Db V) (a : Act V) (r : Route) :
    (apply c db a).lanes r = (db.lanes r).apply (laneOp c db r a) := by
  cases a with
  | enqueue job now =>
    simp only [apply, TaskQueue.enqueue, laneOp, enqueueScript_lanes]
  | schedule r' lock now => simp only [apply, laneOp, scheduleScript_lanes]
  | cleanup r' lock =>
    simp only [apply, laneOp, cleanupScript]
    split <;> rfl
  | dequeue r' =>
    simp only [apply, laneOp, dequeueJobId, onLane_lanes, dequeueFuncMethod]
    split
    · split <;> rfl
    · rfl
  | finish job status result error now => simp only [apply, laneOp, finishTx_lanes]; rfl
  | retry job error now rnd time => simp only [apply, laneOp, retryTx_lanes]; rfl
  | reschedule job error now waitTime time =>
    simp only [apply, laneOp, rescheduleTx, pushAdd_lanes, onLane_lanes, Job.route_reset]
    split <;> rfl
  | abort job error ttl =>
    simp only [apply, laneOp, abortTx, onLane_lanes]
    split <;> rfl
  | dropActive job =>
    simp only [apply, laneOp, onLane_lanes]
    split <;> rfl
  | sweepMissing r' jobId =>
    simp only [apply, laneOp, sweepMissingTx, pushRemove_lanes, onLane_lanes]
    split <;> rfl
  | checkStuck job =>
    simp only [apply, laneOp, checkStuckTx, onLane_lanes]
    split <;> rfl
  | pushBg jobId => simp [apply, laneOp, DelayQueue.apply]
  | removeBg jobId => simp [apply, laneOp, DelayQueue.apply]
  | _ => rfl

/-! ## What a step can do to a route -/

/-- On route `r` the step `a` is the operation `op`: the branches of `laneOp`. -/
inductive LaneStep (db : Db V) : Route → Act V → DelayQueue.Op String → Prop
  | keep {r : Route} {a : Act V} : LaneStep db r a .keep
  | enqueue {job : Job V} {now : ℤ} (ha : job.accepted c db) :
    LaneStep db job.route (.enqueue job now) (.add (job.id c.toKeyConfig) job.scheduled)
  | schedule {r : Route} {lock : ℕ} {now : ℚ} :
    LaneStep db r (.schedule r lock now) (.promote now)
  | dequeue {r : Route} : LaneStep db r (.dequeue r) (.serve .right .left)
  | finish {job : Job V} {status : JobStatus} {result error : Option V} {now : ℤ} :
    LaneStep db job.route (.finish job status result error now) (.drop (job.id c.toKeyConfig))
  | delay {job : Job V} {error : Option V} {now : ℤ} {rnd time : ℚ}
      (hd : (job.reset .queued error now).nextRetryDelay rnd ≠ 0) :
    LaneStep db job.route (.retry job error now rnd time)
      (.delay (job.id c.toKeyConfig) (time + (job.reset .queued error now).nextRetryDelay rnd))
  | requeue {job : Job V} {error : Option V} {now : ℤ} {rnd time : ℚ}
      (hd : (job.reset .queued error now).nextRetryDelay rnd = 0) :
    LaneStep db job.route (.retry job error now rnd time)
      (.requeue (job.id c.toKeyConfig) job.scheduled)
  | reschedule {job : Job V} {error : Option V} {now : ℤ} {waitTime time : ℚ} :
    LaneStep db job.route (.reschedule job error now waitTime time)
      (.delay (job.id c.toKeyConfig) (time + waitTime))
  | abort {job : Job V} {error : V} {ttl : ℕ} :
    LaneStep db job.route (.abort job error ttl) (.cancel (job.id c.toKeyConfig))
  | dropActive {job : Job V} :
    LaneStep db job.route (.dropActive job) (.release (job.id c.toKeyConfig))
  | sweepMissing {r : Route} {jobId : String} :
    LaneStep db r (.sweepMissing r jobId) (.purge jobId)
  | checkStuck {job : Job V} :
    LaneStep db job.route (.checkStuck job) (.restore (job.id c.toKeyConfig) job.scheduled)

theorem laneStep (db : Db V) (r : Route) (a : Act V) : LaneStep c db r a (laneOp c db r a) := by
  cases a with
  | enqueue job now =>
    simp only [laneOp]
    split
    · rename_i h
      obtain ⟨rfl, ha⟩ := h
      exact .enqueue ha
    · exact .keep
  | schedule r' lock now =>
    simp only [laneOp]
    split
    · rename_i h
      obtain ⟨rfl, -⟩ := h
      exact .schedule
    · exact .keep
  | retry job error now rnd time =>
    simp only [laneOp]
    split
    · rename_i hr
      subst hr
      split
      · rename_i hd
        exact .delay hd
      · rename_i hd
        exact .requeue (not_not.1 hd)
    · exact .keep
  | dequeue | finish | reschedule | abort | dropActive | sweepMissing | checkStuck =>
    simp only [laneOp]
    split
    · rename_i hr
      subst hr
      constructor
    · exact .keep
  | _ => exact .keep

/-- The job that a step puts in line or gives a score. -/
def Act.places (db : Db V) : Act V → Option (Job V)
  | .enqueue job _ => if job.accepted c db then some job else none
  | .retry job _ _ _ _ | .reschedule job _ _ _ _ | .checkStuck job => some job
  | _ => none

theorem laneOp_omits {db : Db V} {a : Act V} {r : Route} {id : String}
    (h : ∀ job, a.places c db = some job → job.slot c ≠ (r, id)) :
    (laneOp c db r a).Omits id := by
  suffices hop : ∀ op, LaneStep c db r a op → op.Omits id from hop _ (laneStep c db r a)
  intro op hl
  cases hl with
  | enqueue ha =>
    rintro rfl
    exact h _ (if_pos ha) rfl
  | delay | requeue | reschedule | checkStuck =>
    rintro rfl
    exact h _ rfl rfl
  | _ => trivial

/-- An id that is clear on a route stays so in every step that places no job there under it. -/
theorem clear_apply {db : Db V} {a : Act V} {r : Route} {id : String} (hc : (db.lanes r).Clear id)
    (h : ∀ job, a.places c db = some job → job.slot c ≠ (r, id)) :
    ((apply c db a).lanes r).Clear id := by
  rw [apply_lanes]
  exact hc.apply (laneOp_omits c h)

theorem gone_apply {db : Db V} {a : Act V} {r : Route} {id : String} (hg : (db.lanes r).Gone id)
    (h : ∀ job, a.places c db = some job → job.slot c ≠ (r, id)) :
    ((apply c db a).lanes r).Gone id := by
  rw [apply_lanes]
  exact hg.apply (laneOp_omits c h)

end Kvdb
