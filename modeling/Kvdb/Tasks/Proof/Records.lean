import Kvdb.Tasks.Queue

/-!
# The job records

`recordStep` says what a step does to the record under an id: nothing, unless it stores a record of
that id (`Act.writes`) or the record expires. `Keyed db`: the record under an id is that of a job with
this id, in every reachable state (`keyed_of_run`).
-/

namespace Kvdb

open Redis Lib TaskQueue

variable {V : Type} (c : QueueConfig)

@[simp] theorem pushAdd_records (db : Db V) (jobId : String) :
    (db.pushAdd c jobId).records = db.records := by
  unfold Db.pushAdd; split <;> rfl

@[simp] theorem pushRemove_records (db : Db V) (jobId : String) :
    (db.pushRemove c jobId).records = db.records := by
  unfold Db.pushRemove; split <;> rfl

@[simp] theorem onLane_records (db : Db V) (r : Route)
    (f : DelayQueue String → DelayQueue String) : (db.onLane r f).records = db.records := rfl

@[simp] theorem scheduleScript_records (db : Db V) (r : Route) (lock : ℕ) (now : ℚ) :
    (scheduleScript db r lock now).1.records = db.records := by
  unfold scheduleScript
  dsimp only
  (repeat' split) <;> rfl

@[simp] theorem cleanupScript_records (db : Db V) (r : Route) (lock : ℕ) :
    (cleanupScript db r lock).1.records = db.records := by
  unfold cleanupScript
  split <;> rfl

theorem enqueue_records (db : Db V) (job : Job V) (now : ℤ) :
    (TaskQueue.enqueue c db job now).1.records =
      if enqueueAccepts db job.route (job.id c.toKeyConfig) (job.abortId c.toKeyConfig) then
        db.records.set (job.id c.toKeyConfig) (enqueuedJob job now)
      else db.records := by
  unfold TaskQueue.enqueue enqueueScript
  split
  · split <;> rfl
  · rfl

theorem finishTx_records (db : Db V) (job : Job V) :
    (finishTx c db job).records =
      if 0 < job.ttl then db.records.setex db.clock (job.id c.toKeyConfig) job.ttl.toNat job
      else if job.ttl = 0 then db.records.set (job.id c.toKeyConfig) job
      else db.records.del (job.id c.toKeyConfig) := by
  unfold finishTx
  rw [pushRemove_records]
  split
  · rfl
  · split <;> rfl

/-- What `finish` leaves of the record of its job. -/
theorem finishTx_get (db : Db V) (job : Job V) :
    (finishTx c db job).records.get (job.id c.toKeyConfig) =
      if 0 ≤ job.ttl then some job else none := by
  rw [finishTx_records]
  split
  · rw [TtlMap.get_setex, if_pos rfl, if_pos (by omega)]
  · split
    · rw [TtlMap.get_set, if_pos rfl, if_pos (by omega)]
    · rw [TtlMap.get_del, if_pos rfl, if_neg (by omega)]

@[simp] theorem retryTx_records (db : Db V) (job : Job V) (rnd time : ℚ) :
    (retryTx c db job rnd time).records = db.records.set (job.id c.toKeyConfig) job := by
  unfold retryTx
  split <;> rfl

@[simp] theorem rescheduleTx_records (db : Db V) (job : Job V) (waitTime time : ℚ) :
    (rescheduleTx c db job waitTime time).records =
      db.records.set (job.id c.toKeyConfig) job := by
  simp only [rescheduleTx, pushAdd_records, onLane_records]

/-! ## What a step writes -/

variable {c} {db db' : Db V} {a : Act V} {id : String} {job : Job V}

/-- The record under `id` after a step: as before, the one that the step stores (or deletes, for a
negative `ttl`), or expired. -/
inductive RecordStep (c : QueueConfig) (db : Db V) (a : Act V) (id : String) :
    Option (Job V) → Prop
  | same : RecordStep c db a id (db.records.get id)
  | written {j : Job V} (hw : a.writes c db = some j) (hj : j.id c.toKeyConfig = id) :
    RecordStep c db a id (some j)
  | deleted {j : Job V} (hw : a.writes c db = some j) (hj : j.id c.toKeyConfig = id)
      (ht : j.ttl < 0) : RecordStep c db a id none
  | expired {ms : ℕ} (ha : a = .advance ms) : RecordStep c db a id none

theorem RecordStep.congr (h : db'.records = db.records) :
    RecordStep c db a id (db'.records.get id) := by
  rw [h]
  exact .same

/-- A step that sets the record it stores. -/
theorem RecordStep.set (job : Job V) (hw : a.writes c db = some job)
    (h : ∀ k, db'.records.get k =
      if k = job.id c.toKeyConfig then some job else db.records.get k) :
    RecordStep c db a id (db'.records.get id) := by
  rw [h]
  split
  · rename_i hid
    exact .written hw hid.symm
  · exact .same

/-- **The record under an id after a step.** -/
theorem recordStep (c : QueueConfig) (db : Db V) (a : Act V) (id : String) :
    RecordStep c db a id ((apply c db a).records.get id) := by
  cases a with
  | enqueue job now =>
    have hr := enqueue_records c db job now
    split at hr
    · rename_i ha
      refine .set (enqueuedJob job now) (if_pos ha) fun k => ?_
      rw [apply, hr, TtlMap.get_set]
      rfl
    · exact .congr hr
  | schedule r lock now => exact .congr (scheduleScript_records db r lock now)
  | cleanup r lock => exact .congr (cleanupScript_records db r lock)
  | finish job status result error now =>
    have hr := finishTx_records c db (job.complete status result error now)
    split at hr
    · refine .set (job.complete status result error now) rfl fun k => ?_
      rw [apply, hr, TtlMap.get_setex]
    · split at hr
      · refine .set (job.complete status result error now) rfl fun k => ?_
        rw [apply, hr, TtlMap.get_set]
      · rw [apply, hr, TtlMap.get_del]
        split
        · rename_i h0 h1 hid
          exact .deleted rfl hid.symm (by omega)
        · exact .same
  | retry job error now rnd time =>
    refine .set (job.reset .queued error now) rfl fun k => ?_
    rw [apply, retryTx_records, TtlMap.get_set]
  | reschedule job error now waitTime time =>
    refine .set (job.reset .queued error now) rfl fun k => ?_
    rw [apply, rescheduleTx_records, TtlMap.get_set]
  | abort job error ttl =>
    have hr : (apply c db (.abort job error ttl)).records.get id = db.records.get id := by
      simp only [apply, abortTx, onLane_records, TtlMap.get_expire]
    rw [hr]
    exact .same
  | update job now => exact .set { job with touched := now } rfl (TtlMap.get_set _ _ · _)
  | sweepMissing r jobId => exact .congr (by simp [apply, sweepMissingTx])
  | pushBg jobId => exact .congr (by simp [apply])
  | removeBg jobId => exact .congr (by simp [apply])
  | advance ms =>
    cases hj : (apply c db (.advance ms)).records.get id with
    | none => exact .expired rfl
    | some job =>
      have h : db.records.get id = some job := TtlMap.get_evict hj
      rw [← h]
      exact .same
  | _ => exact .congr rfl

/-- A record was there before the step, or the step stores it. -/
theorem get_apply (h : (apply c db a).records.get id = some job) :
    db.records.get id = some job ∨ a.writes c db = some job ∧ job.id c.toKeyConfig = id := by
  have hr := recordStep c db a id
  generalize (apply c db a).records.get id = o at hr h
  cases hr with
  | same => exact .inl h
  | written hw hj =>
    cases h
    exact .inr ⟨hw, hj⟩
  | deleted | expired => cases h

/-- A step that stores no record of this id leaves it alone; it may expire. -/
theorem get_apply_of_ne (h : ∀ j, a.writes c db = some j → j.id c.toKeyConfig ≠ id) :
    (apply c db a).records.get id = db.records.get id ∨
      (∃ ms, a = .advance ms) ∧ (apply c db a).records.get id = none := by
  have hr := recordStep c db a id
  generalize (apply c db a).records.get id = o at hr ⊢
  cases hr with
  | same => exact .inl rfl
  | written hw hj | deleted hw hj _ => exact absurd hj (h _ hw)
  | expired ha => exact .inr ⟨⟨_, ha⟩, rfl⟩

theorem get_apply_of_none (h : a.writes c db = none) (id : String) :
    (apply c db a).records.get id = db.records.get id ∨
      (∃ ms, a = .advance ms) ∧ (apply c db a).records.get id = none := by
  refine get_apply_of_ne fun j hj => ?_
  rw [h] at hj
  cases hj

/-! ## Records under their ids -/

/-- Every record is under the id of its job. -/
def Keyed (c : QueueConfig) (db : Db V) : Prop :=
  ∀ id job, db.records.get id = some job → job.id c.toKeyConfig = id

theorem Keyed.congr (h : Keyed c db) (hr : db'.records = db.records) : Keyed c db' := by
  intro id job hj
  rw [hr] at hj
  exact h id job hj

theorem Keyed.step (h : Keyed c db) (a : Act V) : Keyed c (apply c db a) := by
  intro id job hj
  rcases get_apply hj with hj | ⟨-, hid⟩
  · exact h id job hj
  · exact hid

theorem keyed_of_run {as : List (Act V)} {C : Db V → Act V → Prop}
    (h : (machine c).Run C (machine c).init as db) : Keyed c db := by
  refine h.inv (Keyed c) (fun id job hj => by cases hj) fun t a u ht _ hu => ?_
  obtain rfl : apply c t a = u := Option.some.inj hu
  exact ht.step a

end Kvdb
