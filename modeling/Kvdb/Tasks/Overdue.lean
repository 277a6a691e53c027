import Mathlib.Tactic.NormNum
import Kvdb.Tasks.Process

/-!
# Which jobs the sweep reaps (`TaskQueue.sweep`, `Job.stuck`)

The loop of `sweep` as a list of steps on the server, from the active ids, their records and the
clock readings (`sweepActs`; the sweeping tasks of `Kvdb/Tasks/Process.lean` take these steps,
`exec_sweeping`). `Job.Overdue` is what the docstring of `Job` says of `timeout` and `heartbeat`,
where 0 stands for disabled. `stuck` reads a timeout of 0 as one that has passed.
-/

namespace Kvdb

open Lib

variable {V : Type}

/-! ## The loop -/

/-- `validate_job_props` on the timeout, which `deserialize` runs. -/
def Job.validateTimeout (jobTimeout : ℤ) (job : Job V) : Job V :=
  { job with timeout := some (job.timeout.getD jobTimeout) }

/-- The step of `sweep` for an active id with this record, the clock at `now`. -/
def sweepAct (jobTimeout : ℤ) (r : Route) (error : V) :
    String × Option (Job V) × ℤ → Option (Act V)
  | (jobId, none, _) => some (.sweepMissing r jobId)
  | (_, some job, now) =>
    if (job.validateTimeout jobTimeout).swept now then
      some (.finish (job.validateTimeout jobTimeout) .aborted none (some error) now)
    else none

/-- The steps of the loop of `sweep`. -/
def sweepActs (jobTimeout : ℤ) (r : Route) (error : V) (items : List (String × Option (Job V) × ℤ)) :
    List (Act V) :=
  items.filterMap (sweepAct jobTimeout r error)

/-- The entry of a sweeping task for an item. -/
def sweepEntry (jobTimeout : ℤ) (item : String × Option (Job V) × ℤ) : String × Option (Job V) :=
  (item.1, item.2.1.map (Job.validateTimeout jobTimeout))

section System
variable {ι : Type} (c : QueueConfig)

theorem move_sweepItem (jobTimeout : ℤ) (s : Sys ι V) (r : Route) (error : V)
    (item : String × Option (Job V) × ℤ) (todo : List (String × Option (Job V))) :
    move c s (.sweeping r (sweepEntry jobTimeout item :: todo)) (.sweepItem error item.2.2) =
      some ((sweepAct jobTimeout r error item).getD .read, .sweeping r todo) := by
  obtain ⟨jobId, job, now⟩ := item
  cases job with
  | none => rfl
  | some job =>
    simp only [sweepEntry, Option.map_some, move, sweepAct]
    split <;> rfl

/-- A sweeping task goes through its jobs with the steps of `sweepActs`. -/
theorem exec_sweeping [DecidableEq ι] (jobTimeout : ℤ) (i : ι) (r : Route) (error : V)
    (items : List (String × Option (Job V) × ℤ)) (s : Sys ι V)
    (hs : s.tasks i = .sweeping r (items.map (sweepEntry jobTimeout))) :
    (system c).exec s (items.map fun item => .move i (.sweepItem error item.2.2)) =
      some {
        db := run c s.db (sweepActs jobTimeout r error items)
        tasks := Function.update s.tasks i (.sweeping r []) } := by
  induction items generalizing s with
  | nil =>
    have hs' : s.tasks i = .sweeping r [] := hs
    have htasks : Function.update s.tasks i (.sweeping r []) = s.tasks := by
      rw [← hs', Function.update_eq_self]
    simp only [List.map_nil, Machine.exec, sweepActs, List.filterMap_nil, run, List.foldl_nil,
      htasks]
  | cons item items ih =>
    have hplan : s.plan c (.move i (.sweepItem error item.2.2)) =
        some ((sweepAct jobTimeout r error item).getD .read,
          Function.update s.tasks i (.sweeping r (items.map (sweepEntry jobTimeout)))) := by
      simp only [Sys.plan, hs, List.map_cons, move_sweepItem, Option.map_some]
    simp only [List.map_cons, Machine.exec, system, hplan, Option.map_some, Option.bind_some]
    refine (ih _ (Function.update_self ..)).trans ?_
    cases ha : sweepAct jobTimeout r error item with
    | none => simp [sweepActs, ha, apply]
    | some a => simp [sweepActs, ha, run]

end System

/-! ## What it reaps -/

/-- Past a timeout or a heartbeat that is not disabled. -/
def Job.Overdue (jobTimeout : ℤ) (job : Job V) (now : ℤ) : Prop :=
  job.timeout.getD jobTimeout ≠ 0 ∧
      ((job.timeout.getD jobTimeout : ℤ) : ℚ) < seconds (now - job.started) ∨
    job.heartbeat ≠ 0 ∧ (job.heartbeat : ℚ) < seconds (now - job.touched)

/-- Its timeout is not disabled, or it has not run yet by this clock, or its heartbeat is overdue. -/
def Job.Timed (jobTimeout : ℤ) (job : Job V) (now : ℤ) : Prop :=
  job.timeout.getD jobTimeout ≠ 0 ∨ now ≤ job.started ∨
    job.heartbeat ≠ 0 ∧ (job.heartbeat : ℚ) < seconds (now - job.touched)

/-- Of the jobs that are stored as active the sweep finishes, as aborted, those that are overdue. -/
def ReapsOverdue (jobTimeout : ℤ) (r : Route) (error : V)
    (items : List (String × Option (Job V) × ℤ)) : Prop :=
  ∀ jobId job now, (jobId, some job, now) ∈ items → job.status = .active →
    (.finish (job.validateTimeout jobTimeout) .aborted none (some error) now ∈
        sweepActs jobTimeout r error items ↔
      job.Overdue jobTimeout now)

theorem zero_lt_seconds {ms : ℤ} : 0 < seconds ms ↔ 0 < ms := by
  have h1000 : (0 : ℚ) < 1000 := by norm_num
  rw [seconds, lt_div_iff₀ h1000, zero_mul, Int.cast_pos]

/-- The sweep takes an active job that `deserialize` returns when it is `stuck`. -/
theorem swept_validateTimeout {jobTimeout : ℤ} {job : Job V} {now : ℤ} (h : job.status = .active) :
    (job.validateTimeout jobTimeout).swept now = true ↔
      ((job.timeout.getD jobTimeout : ℤ) : ℚ) < seconds (now - job.started) ∨
        job.heartbeat ≠ 0 ∧ (job.heartbeat : ℚ) < seconds (now - job.touched) := by
  simp [Job.swept, Job.stuck, Job.validateTimeout, h, incompleteJobStatuses]

/-- It takes the overdue jobs, and those that run with a timeout of 0. -/
theorem swept_iff_overdue {jobTimeout : ℤ} {job : Job V} {now : ℤ} (h : job.status = .active) :
    ((job.validateTimeout jobTimeout).swept now = true ↔ job.Overdue jobTimeout now) ↔
      job.Timed jobTimeout now := by
  rw [swept_validateTimeout h]
  unfold Job.Overdue Job.Timed
  by_cases hbeat : job.heartbeat ≠ 0 ∧ (job.heartbeat : ℚ) < seconds (now - job.touched)
  · simp [hbeat]
  by_cases ht : job.timeout.getD jobTimeout = 0
  · simp only [ht, hbeat, Int.cast_zero, zero_lt_seconds, ne_eq, not_true, false_and, or_false,
      false_or, iff_false]
    omega
  · simp [hbeat, ht]

/-- What the loop finishes is an item that it takes. -/
theorem finish_mem_sweepActs {jobTimeout : ℤ} {r : Route} {error : V}
    {items : List (String × Option (Job V) × ℤ)} {jobId : String} {job : Job V} {now : ℤ}
    (hmem : (jobId, some job, now) ∈ items) :
    .finish (job.validateTimeout jobTimeout) .aborted none (some error) now ∈
        sweepActs jobTimeout r error items ↔
      (job.validateTimeout jobTimeout).swept now = true := by
  rw [sweepActs, List.mem_filterMap]
  constructor
  · intro h
    obtain ⟨⟨jobId', job', now'⟩, -, hact⟩ := h
    cases job' with
    | none => cases hact
    | some job' =>
      simp only [sweepAct] at hact
      split at hact
      · rename_i hswept
        obtain ⟨hjob, -, -, -, hnow⟩ := Act.finish.inj (Option.some.inj hact)
        rwa [← hjob, ← hnow]
      · cases hact
  · intro h
    exact ⟨_, hmem, if_pos h⟩

/-- **The sweep reaps the overdue jobs** if and only if no active job with a timeout of 0 is running,
but for one with an overdue heartbeat. -/
theorem reapsOverdue_iff (jobTimeout : ℤ) (r : Route) (error : V)
    (items : List (String × Option (Job V) × ℤ)) :
    ReapsOverdue jobTimeout r error items ↔
      ∀ jobId job now, (jobId, some job, now) ∈ items → job.status = .active →
        job.Timed jobTimeout now := by
  constructor
  · intro h jobId job now hmem hactive
    have hreaps := h jobId job now hmem hactive
    rw [finish_mem_sweepActs hmem] at hreaps
    exact (swept_iff_overdue hactive).1 hreaps
  · intro h jobId job now hmem hactive
    rw [finish_mem_sweepActs hmem]
    exact (swept_iff_overdue hactive).2 (h jobId job now hmem hactive)

/-- An active job without a timeout and a heartbeat. -/
def untimedJob : Job Unit :=
  { function := "f"
    key := "k"
    status := .active
    timeout := some 0
    started := 1000
    touched := 1000 }

/-- It is swept a second after it was started. -/
theorem not_reapsOverdue_untimed :
    ¬ ReapsOverdue 900 none () [("job", some untimedJob, 2000)] := by
  intro h
  have hmem : ("job", some untimedJob, 2000) ∈ [("job", some untimedJob, (2000 : ℤ))] :=
    List.mem_singleton.2 rfl
  have hoverdue := (h _ _ _ hmem rfl).1 ((finish_mem_sweepActs hmem).2 (by decide +kernel))
  rcases hoverdue with ht | hbeat
  · exact ht.1 rfl
  · exact hbeat.1 rfl

end Kvdb
