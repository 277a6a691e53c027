import Kvdb.Tasks.History
import Kvdb.Tasks.Proof.Lanes

/-!
# No lost job

`NoLoss p`: every open job is queued, active, or in the sorted set with a score that some tick of
`schedule` promotes. Runs of safe steps keep it (`noLoss_of_safe`). What breaks it is the first
transaction of `_reschedule`, which takes the job's last place on the server, and a `scheduled`
below 0, which `enqueue` accepts and no tick ever finds.
-/

namespace Kvdb

open Redis Lib TaskQueue

variable {V : Type} (c : QueueConfig)

/-- Every open job has a place on the server. -/
def NoLoss (p : Db V × History) : Prop := ∀ j ∈ p.2.opened, (p.1.lanes j.1).Holds j.2

/-- An accepted job has a time at or after 0 (or is still listed), a delay ends at a time that is
ever due, and what finishes as not terminal, or drops an open job, leaves it a place. -/
def SafeStep (p : Db V × History) : Act V → Prop
  | .enqueue job _ =>
    job.accepted c p.1 → 0 ≤ job.scheduled ∨
      job.id c.toKeyConfig ∈ (p.1.lanes job.route).queued ++ (p.1.lanes job.route).active
  | .finish job status _ _ _ =>
    status ∉ terminalJobStatuses → job.slot c ∈ p.2.opened →
      job.id c.toKeyConfig ∈ (p.1.lanes job.route).queued ∨
        1 < (p.1.lanes job.route).active.count (job.id c.toKeyConfig)
  | .retry job error now rnd time =>
    (job.reset .queued error now).nextRetryDelay rnd ≠ 0 → job.slot c ∈ p.2.opened →
      1 ≤ time + (job.reset .queued error now).nextRetryDelay rnd
  | .reschedule job _ _ waitTime time => job.slot c ∈ p.2.opened → 1 ≤ time + waitTime
  | .dropActive job => job.slot c ∉ p.2.opened
  | .sweepMissing r jobId => (r, jobId) ∉ p.2.opened
  | _ => True

instance (p : Db V × History) (a : Act V) : Decidable (SafeStep c p a) := by
  induction a using Act.casesOn <;> (dsimp only [SafeStep]; infer_instance)

/-- A job that is open after a step was open before it, or the step is its accepted enqueue. -/
theorem opened_note {p : Db V × History} {a : Act V} {j : Route × String}
    (h : j ∈ (p.2.note c p.1 a).opened) :
    j ∈ p.2.opened ∨ ∃ job now, a = .enqueue job now ∧ job.accepted c p.1 ∧ j = job.slot c := by
  cases a with
  | enqueue job now =>
    simp only [History.note] at h
    split at h
    · rename_i hacc
      rcases Finset.mem_insert.1 h with rfl | h
      · exact .inr ⟨job, now, rfl, hacc, rfl⟩
      · exact .inl h
    · exact .inl h
  | finish job status result error now =>
    simp only [History.note] at h
    split at h
    · exact .inl (Finset.mem_of_mem_erase h)
    · exact .inl h
  | abort job error ttl => exact .inl (Finset.mem_of_mem_erase h)
  | _ => exact .inl h

/-- A time that the condition on `enqueue` admits gives the new item a place. -/
theorem add_keeps {q : DelayQueue String} {x : String} {s : ℤ}
    (h : 0 ≤ s ∨ x ∈ q.queued ++ q.active) :
    (s : ℚ) = 0 ∨ 1 ≤ (s : ℚ) ∨ x ∈ q.queued ++ q.active := by
  rcases h with h0 | hm
  · rcases h0.eq_or_lt with h0 | h0
    · exact .inl (by rw [← h0]; rfl)
    · exact .inr (.inl (by exact_mod_cast h0))
  · exact .inr (.inr hm)

/-- A job that is open before and after a safe step keeps its place. -/
theorem keeps_of_safe {p : Db V × History} {a : Act V} (hs : SafeStep c p a) {j : Route × String}
    (hj : j ∈ p.2.opened) (hj' : j ∈ (p.2.note c p.1 a).opened) :
    (laneOp c p.1 j.1 a).Keeps (p.1.lanes j.1) j.2 := by
  obtain ⟨r, id⟩ := j
  suffices h : ∀ op, LaneStep c p.1 r a op → op.Keeps (p.1.lanes r) id from
    h _ (laneStep c p.1 r a)
  intro op hl
  cases hl with
  | enqueue ha =>
    rintro rfl
    exact add_keeps (hs ha)
  | finish =>
    rintro rfl
    simp only [History.note] at hj'
    split at hj'
    · exact absurd rfl (Finset.ne_of_mem_erase hj')
    · rename_i ht
      exact hs ht hj
  | delay hd =>
    rintro rfl
    exact hs hd hj
  | abort =>
    rintro rfl
    exact absurd rfl (Finset.ne_of_mem_erase hj')
  | reschedule | dropActive | sweepMissing =>
    rintro rfl
    exact hs hj
  | _ => trivial

theorem laneOp_accepted {db : Db V} {job : Job V} (now : ℤ) (hacc : job.accepted c db) :
    laneOp c db job.route (.enqueue job now) = .add (job.id c.toKeyConfig) job.scheduled := by
  simp only [laneOp, true_and]
  exact if_pos hacc

/-- An accepted job has a place. -/
theorem holds_enqueue {p : Db V × History} {job : Job V} {now : ℤ} (hacc : job.accepted c p.1)
    (hs : SafeStep c p (.enqueue job now)) :
    ((apply c p.1 (.enqueue job now)).lanes job.route).Holds (job.id c.toKeyConfig) := by
  rw [apply_lanes, laneOp_accepted c now hacc]
  exact DelayQueue.holds_add (add_keeps (hs hacc))

/-- A safe step loses no job. -/
theorem NoLoss.step {p : Db V × History} (h : NoLoss p) {a : Act V} (hs : SafeStep c p a) :
    NoLoss (apply c p.1 a, p.2.note c p.1 a) := by
  intro j hj'
  rcases opened_note c hj' with hj | ⟨job, now, rfl, hacc, rfl⟩
  · show ((apply c p.1 a).lanes j.1).Holds j.2
    rw [apply_lanes]
    exact (h j hj).apply (keeps_of_safe c hs hj hj')
  · exact holds_enqueue c hacc hs

/-- **No lost job**, in every state of every run of safe steps. -/
theorem noLoss_of_safe {as : List (Act V)} {p : Db V × History}
    (h : (recorded c).Run (SafeStep c) (recorded c).init as p) : NoLoss p := by
  refine h.inv NoLoss (fun j hj => absurd hj (Finset.notMem_empty j)) fun t a u ht hs hu => ?_
  rw [noted_step hu]
  exact ht.step c hs

/-! ## A rescheduled job -/

/-- The operations between `enqueue` and `finish`. -/
def Act.ServeOp : Act V → Prop
  | .enqueue .. | .schedule .. | .dequeue _ | .finish .. | .retry .. | .reschedule .. | .update ..
  | .publish .. | .read | .advance _ => True
  | _ => False

instance (a : Act V) : Decidable a.ServeOp := by
  induction a using Act.casesOn <;> (dsimp only [Act.ServeOp]; infer_instance)

/-- A job to be run at once. -/
def plainJob : Job String := { function := "f", key := "k" }

/-- The job is dequeued, and the worker begins to reschedule it. -/
def halfReschedule : List (Act String) :=
  let active := { plainJob with status := .active, attempts := 1 }
  [.enqueue plainJob 0, .dequeue none, .update active 1000,
    .finish active .rescheduled none none 2000]

/-- Between the two transactions of `_reschedule` the job is in none of the three places. -/
theorem noLoss_broken :
    ∃ p, (recorded {}).Run (fun _ a => a.ServeOp) (recorded {}).init halfReschedule p ∧
      (none, "_kvq_:global:job:k") ∈ p.2.opened ∧ ¬ NoLoss p := by
  have ho : (none, "_kvq_:global:job:k") ∈
      (record {} halfReschedule).2.opened := by decide +kernel
  have hl : let l := (record {} halfReschedule).1.lanes none
      l.queued = [] ∧ l.active = [] ∧ l.incomplete.score "_kvq_:global:job:k" = none := by
    decide +kernel
  refine ⟨record {} halfReschedule, Machine.run_of_exec (exec_noted _ _) (by decide +kernel), ho,
    fun h => ?_⟩
  rcases h _ ho with hq | ha | ⟨s, hs, -⟩
  · simp [hl.1] at hq
  · simp [hl.2.1] at ha
  · simp [hl.2.2] at hs

/-- A run of safe steps, through a delayed retry and the tick that ends the delay. -/
theorem noLoss_retried :
    NoLoss (record {}
      [.enqueue plainJob 0, .dequeue none, .retry plainJob none 1000 (1 / 2) 1, .advance 60000,
        .schedule none 1 61]) :=
  noLoss_of_safe {} (Machine.run_of_exec (exec_noted _ _) (by decide +kernel))

end Kvdb
