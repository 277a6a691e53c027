import Kvdb.Tasks.Proof.NoLoss

/-!
# Uniqueness of an open job

`enqueue` refuses an id that has a score. `Guarded p`: every open job has a score, or stands between
the two transactions of `_reschedule`. So an enqueue of an open id is refused in every run without
an enqueue in that window and without one to another route (`enqueue_refused`), whose keys differ.
-/

namespace Kvdb

open Redis Lib TaskQueue

variable {V : Type} (c : QueueConfig)

/-- Every open job has a score, unless it is being rescheduled. -/
def Guarded (p : Db V × History) : Prop :=
  ∀ j ∈ p.2.opened, j ∈ p.2.between ∨ (p.1.lanes j.1).Scored j.2

/-- An open id is enqueued only to the same route and not between the two transactions of
`_reschedule`; no sweep takes an open job for a missing one. -/
def SerialStep (p : Db V × History) : Act V → Prop
  | .enqueue job _ => ∀ j ∈ p.2.opened, j.2 = job.id c.toKeyConfig →
      j.1 = job.route ∧ j ∉ p.2.between
  | .sweepMissing r jobId => (r, jobId) ∉ p.2.opened
  | _ => True

instance (p : Db V × History) (a : Act V) : Decidable (SerialStep c p a) := by
  induction a using Act.casesOn <;> (dsimp only [SerialStep]; infer_instance)

/-- What takes the score of an open job closes the job or begins to reschedule it. -/
theorem spares_of_serial {p : Db V × History} {a : Act V} (hs : SerialStep c p a)
    {j : Route × String} (hj : j ∈ p.2.opened) (hj' : j ∈ (p.2.note c p.1 a).opened) :
    j ∈ (p.2.note c p.1 a).between ∨ (laneOp c p.1 j.1 a).Spares j.2 := by
  obtain ⟨r, id⟩ := j
  suffices h : ∀ op, LaneStep c p.1 r a op →
      (r, id) ∈ (p.2.note c p.1 a).between ∨ op.Spares id from h _ (laneStep c p.1 r a)
  intro op hl
  cases hl with
  | @finish job status =>
    by_cases hid : id = job.id c.toKeyConfig
    · subst hid
      left
      simp only [History.note] at hj' ⊢
      split at hj'
      · exact absurd rfl (Finset.ne_of_mem_erase hj')
      · rename_i ht
        rw [if_neg ht]
        exact Finset.mem_insert_self _ _
    · exact .inr hid
  | abort =>
    right
    rintro rfl
    exact absurd rfl (Finset.ne_of_mem_erase hj')
  | sweepMissing =>
    right
    rintro rfl
    exact hs hj
  | _ => exact .inr trivial

theorem scored_accepted {db : Db V} {job : Job V} (now : ℤ) (hacc : job.accepted c db) :
    ((apply c db (.enqueue job now)).lanes job.route).Scored (job.id c.toKeyConfig) := by
  rw [apply_lanes, laneOp_accepted c now hacc]
  simp only [DelayQueue.apply]
  split <;> exact DelayQueue.scored_zadd_self

/-- A step that ends the reschedule of an open job gives it a score. -/
theorem scored_of_between {p : Db V × History} {a : Act V} {j : Route × String}
    (hj : j ∈ p.2.between) (hj' : j ∉ (p.2.note c p.1 a).between) :
    ((apply c p.1 a).lanes j.1).Scored j.2 := by
  have erased : ∀ {job : Job V}, j ∉ p.2.between.erase (job.slot c) → j = job.slot c :=
    fun h => by_contra fun hne => h (Finset.mem_erase.2 ⟨hne, hj⟩)
  cases a with
  | enqueue job now =>
    simp only [History.note] at hj'
    split at hj'
    · rename_i hacc
      obtain rfl := erased hj'
      exact scored_accepted c now hacc
    · exact absurd hj hj'
  | finish job status result error now =>
    simp only [History.note] at hj'
    split at hj'
    · exact absurd hj hj'
    · exact absurd (Finset.mem_insert_of_mem hj) hj'
  | retry job error now rnd time =>
    obtain rfl := erased hj'
    rw [apply_lanes]
    simp only [Job.slot, laneOp, ↓reduceIte]
    split <;> exact DelayQueue.scored_zadd_self
  | reschedule job error now waitTime time =>
    obtain rfl := erased hj'
    rw [apply_lanes]
    simp only [Job.slot, laneOp, ↓reduceIte]
    exact DelayQueue.scored_zadd_self
  | _ => exact absurd hj hj'

theorem Guarded.step {p : Db V × History} (h : Guarded p) {a : Act V} (hs : SerialStep c p a) :
    Guarded (apply c p.1 a, p.2.note c p.1 a) := by
  intro j hj'
  rcases opened_note c hj' with hj | ⟨job, now, rfl, hacc, rfl⟩
  · rcases h j hj with hb | hsc
    · by_cases hb' : j ∈ (p.2.note c p.1 a).between
      · exact .inl hb'
      · exact .inr (scored_of_between c hb hb')
    · rcases spares_of_serial c hs hj hj' with hb' | hsp
      · exact .inl hb'
      · right
        show ((apply c p.1 a).lanes j.1).Scored j.2
        rw [apply_lanes]
        exact hsc.apply hsp
  · exact .inr (scored_accepted c now hacc)

theorem guarded_of_serial {as : List (Act V)} {p : Db V × History}
    (h : (recorded c).Run (SerialStep c) (recorded c).init as p) : Guarded p := by
  refine h.inv Guarded (fun j hj => absurd hj (Finset.notMem_empty j)) fun t a u ht hs hu => ?_
  rw [noted_step hu]
  exact ht.step c hs

/-- **Uniqueness of enqueue**: in every run of serial steps, an enqueue of an id that is open (on
whichever route) is refused. -/
theorem enqueue_refused {as : List (Act V)} {p : Db V × History}
    (h : (recorded c).Run (SerialStep c) (recorded c).init as p) {job : Job V} {now : ℤ}
    (hs : SerialStep c p (.enqueue job now)) {r : Route}
    (ho : (r, job.id c.toKeyConfig) ∈ p.2.opened) :
    (TaskQueue.enqueue c p.1 job now).2 = false := by
  obtain ⟨hr, hb⟩ := hs _ ho rfl
  dsimp only at hr
  subst hr
  obtain ⟨s, hsc⟩ := ((guarded_of_serial c h) _ ho).resolve_left hb
  have hrej : enqueueAccepts p.1 job.route (job.id c.toKeyConfig) (job.abortId c.toKeyConfig) =
      false := by
    simp only [enqueueAccepts, hsc, reduceCtorEq, false_and, decide_false]
  simp only [TaskQueue.enqueue, enqueueScript, hrej, Bool.false_eq_true, ↓reduceIte]

/-! ## An enqueue in the window -/

/-- The steps of the queue's users and workers, sweeps and stuck-job passes apart. -/
def Act.UserOp : Act V → Prop
  | .cleanup .. | .sweepMissing .. | .saddStuck _ | .checkStuck _ | .sremStuck _ => False
  | _ => True

instance (a : Act V) : Decidable a.UserOp := by
  induction a using Act.casesOn <;> (dsimp only [Act.UserOp]; infer_instance)

/-- While a worker reschedules the job, its id is enqueued and accepted again. -/
theorem enqueue_refused_broken :
    ∃ p, (recorded {}).Run (fun _ a => a.UserOp) (recorded {}).init halfReschedule p ∧
      (none, plainJob.id {}) ∈ p.2.opened ∧
      (TaskQueue.enqueue {} p.1 plainJob 3000).2 = true :=
  ⟨_, Machine.run_of_exec (exec_noted _ _) (by decide +kernel), by decide +kernel,
    by decide +kernel⟩

/-- An enqueue of the id while the job is active, outside the window. -/
theorem enqueue_refused_active :
    (TaskQueue.enqueue {} (record {}
      [.enqueue plainJob 0, .dequeue none, .update plainJob 1000]).1 plainJob 2000).2 = false :=
  enqueue_refused {} (Machine.run_of_exec (exec_noted _ _) (by decide +kernel))
    (by decide +kernel) (by decide +kernel : (none, plainJob.id {}) ∈ _)

end Kvdb
