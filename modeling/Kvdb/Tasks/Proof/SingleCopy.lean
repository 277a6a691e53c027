import Kvdb.Tasks.Proof.Lanes

/-!
# Single copy

`SingleCopy db`: on every route an id is listed at most once, and no queued id has a score that a
later tick of `schedule` would push again. Every run whose steps are clean keeps it
(`singleCopy_of_clean`): `retry` without a delay pushes an id and rewrites its score with
`job.scheduled`, so a job that was submitted with a time is pushed a second time by the next tick
(`singleCopy_broken`).
-/

namespace Kvdb

open Redis Lib TaskQueue

variable {V : Type} (c : QueueConfig)

/-- Every id is listed once, and no queued id is promoted again. -/
structure SingleCopy (db : Db V) : Prop where
  once : ∀ r id, ((db.lanes r).queued ++ (db.lanes r).active).count id ≤ 1
  settled : ∀ r id now, id ∈ (db.lanes r).queued → id ∉ (db.lanes r).due now

/-- `SingleCopy`, with the active ids settled too: the invariant of the steps. -/
def Settled (db : Db V) : Prop := ∀ r, (db.lanes r).Single

theorem Settled.singleCopy {db : Db V} (h : Settled db) : SingleCopy db where
  once r id := List.nodup_iff_count_le_one.1 (h r).nodup id
  settled r id _ hid hd :=
    (h r).settled id (List.mem_append_left _ hid) (DelayQueue.promotable_of_due hd)

/-- An accepted enqueue (with a time that is ever due) meets no listed copy of its id, a retry
without delay has no time to come, and a stuck job is not queued. -/
def CleanStep (db : Db V) : Act V → Prop
  | .enqueue job _ =>
    enqueueAccepts db job.route (job.id c.toKeyConfig) (job.abortId c.toKeyConfig) = true →
      job.scheduled < 0 ∨
        job.id c.toKeyConfig ∉ (db.lanes job.route).queued ++ (db.lanes job.route).active
  | .retry job error now rnd _ =>
    (job.reset .queued error now).nextRetryDelay rnd = 0 → job.scheduled ≤ 0
  | .checkStuck job => job.id c.toKeyConfig ∉ (db.lanes job.route).queued ∧ job.scheduled ≤ 0
  | _ => True

instance (db : Db V) (a : Act V) : Decidable (CleanStep c db a) := by
  induction a using Act.casesOn <;> (dsimp only [CleanStep]; infer_instance)

theorem fresh_add {q : DelayQueue String} {x : String} {s : ℤ} :
    (DelayQueue.Op.add x (s : ℚ)).Fresh q ↔ s < 0 ∨ x ∉ q.queued ++ q.active := by
  have hs : ((s : ℚ) ≠ 0 ∧ (s : ℚ) < 1) ↔ s < 0 := by
    norm_cast
    omega
  show (x ∉ q.queued ++ q.active ∨ (s : ℚ) ≠ 0 ∧ (s : ℚ) < 1) ↔ _
  rw [hs, or_comm]

theorem cast_lt_one {s : ℤ} : (s : ℚ) < 1 ↔ s ≤ 0 := by
  norm_cast
  omega

/-- A step is clean iff what it does on every route is fresh. -/
theorem cleanStep_iff (db : Db V) (a : Act V) :
    CleanStep c db a ↔ ∀ r, (laneOp c db r a).Fresh (db.lanes r) := by
  constructor
  · intro h r
    suffices hop : ∀ op, LaneStep c db r a op → op.Fresh (db.lanes r) from hop _ (laneStep c db r a)
    intro op hl
    cases hl with
    | enqueue ha => exact fresh_add.2 (h ha)
    | requeue hd => exact cast_lt_one.2 (h hd)
    | checkStuck => exact ⟨h.1, cast_lt_one.2 h.2⟩
    | _ => trivial
  · intro h
    cases a with
    | enqueue job now =>
      intro ha
      have hr := h job.route
      simp only [laneOp, ha, and_self, ↓reduceIte] at hr
      exact fresh_add.1 hr
    | retry job error now rnd time =>
      intro hd
      have hr := h job.route
      simp only [laneOp, ↓reduceIte, hd, ne_eq, not_true_eq_false] at hr
      exact cast_lt_one.1 hr
    | checkStuck job =>
      have hr := h job.route
      simp only [laneOp, ↓reduceIte] at hr
      exact ⟨hr.1, cast_lt_one.1 hr.2⟩
    | _ => trivial

/-- **The clean steps are exactly those that keep the invariant.** -/
theorem Settled.step_iff {db : Db V} (h : Settled db) (a : Act V) :
    Settled (apply c db a) ↔ CleanStep c db a := by
  rw [cleanStep_iff]
  constructor
  · intro h' r
    have hr := h' r
    rw [apply_lanes] at hr
    exact DelayQueue.Op.Fresh.of_single hr
  · intro hf r
    rw [apply_lanes]
    exact (h r).apply (hf r)

/-- **Single copy**, in every state of every run of clean steps. -/
theorem singleCopy_of_clean {as : List (Act V)} {db : Db V}
    (h : (machine c).Run (CleanStep c) (machine c).init as db) : SingleCopy db := by
  have hs : Settled db := by
    refine h.inv Settled (fun _ => DelayQueue.single_empty) fun t a u ht hc hu => ?_
    obtain rfl : apply c t a = u := Option.some.inj hu
    exact (ht.step_iff c a).2 hc
  exact hs.singleCopy

/-! ## A delayed job that is retried without delay -/

/-- The operations of the queue's users and workers, without the stuck-job pass. -/
def Act.JobOp : Act V → Prop
  | .finish _ status _ _ _ => status ∈ terminalJobStatuses
  | .reschedule .. | .saddStuck _ | .checkStuck _ | .sremStuck _ => False
  | _ => True

instance (a : Act V) : Decidable a.JobOp := by
  induction a using Act.casesOn <;> (dsimp only [Act.JobOp]; infer_instance)

/-- A job for second 100, whose retries wait 0 seconds. -/
def lateJob : Job String := { function := "f", key := "k", scheduled := 100, retryDelay := 0 }

/-- The job is promoted and dequeued, its function raises, and it is retried at once. -/
def lateRetry : List (Act String) :=
  let active := { lateJob with status := .active, attempts := 1 }
  [.enqueue lateJob 0, .schedule none 1 200, .dequeue none, .update active 200000,
    .retry active (some "error") 201000 0 201, .advance 1000, .schedule none 1 202]

/-- The next tick pushes the retried job a second time. -/
theorem singleCopy_broken :
    ∃ db, (machine {}).Run (fun _ a => a.JobOp) (machine {}).init lateRetry db ∧
      (db.lanes none).queued = ["_kvq_:global:job:k", "_kvq_:global:job:k"] ∧
      ¬ SingleCopy db := by
  have hq : ((run {} (machine {}).init lateRetry).lanes none).queued =
      ["_kvq_:global:job:k", "_kvq_:global:job:k"] := by decide +kernel
  refine ⟨_, Machine.run_of_exec (exec_machine {} _ lateRetry) (by decide +kernel), hq, ?_⟩
  intro h
  have h2 := h.once none "_kvq_:global:job:k"
  rw [hq, List.count_append, show List.count _ [_, _] = 2 by decide] at h2
  omega

/-- The same run with a job to be run at once is clean. -/
theorem singleCopy_run_now :
    SingleCopy (run {} (machine {}).init
      [.enqueue { lateJob with scheduled := 0 } 0, .dequeue none,
        .retry { lateJob with scheduled := 0 } none 201000 0 201, .schedule none 1 202]) :=
  singleCopy_of_clean {} (Machine.run_of_exec (exec_machine {} _ _) (by decide +kernel))

end Kvdb
