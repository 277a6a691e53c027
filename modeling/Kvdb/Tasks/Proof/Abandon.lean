import Kvdb.Tasks.Proof.ProcessQueue
import Kvdb.Tasks.Proof.Records

/-!
# Which exits of `process_queue` abandon a job

`notAbandoned_iff`: the id that a call of `process_queue` has made active is released again, by a `finish`
or a `retry` that is executed, if and only if `Settles` holds of the job, the worker and what its calls
raise. Left active is a job whose record cannot be read, a job that the worker rejects, a job with attempts
left when something is raised before its function is looked up (the handlers ask the function, which is
`None` then), a cancelled job that may not be retried or is already marked as complete, and a job whose
handler fails itself.
-/

namespace Kvdb

open Lib TaskQueue

variable {V : Type} {c : QueueConfig} {py : Py V} {w : JobWorker V} {o : Stages V}

/-! ## The call of an accepted job -/

/-- The `finish` of the poll is executed. -/
def Stages.pollFinishes (o : Stages V) : Bool := o.poll.any fun p => p.2.executes

theorem pollFinish_settled (s : Local V) :
    ((JobWorker.pollFinish o).exec s).2.settled =
      (s.settled || (s.aborted && o.pollFinishes)) := by
  simp only [JobWorker.pollFinish, Proc.exec_bind, Proc.exec_get]
  cases ha : s.aborted with
  | false => simp
  | true =>
    cases hp : o.poll with
    | none => simp [Stages.pollFinishes, hp]
    | some p => simp [Stages.pollFinishes, hp, Proc.exec_finish, Local.settled, Act.takes]

theorem lookup_of_not_early {function : String} (h : w.raisesEarly py o function = none) :
    ∃ f, w.lookup py function = .ok f := by
  unfold JobWorker.raisesEarly at h
  split at h
  · cases h
  · cases h
  · cases h
  · exact ⟨_, ‹_›⟩

theorem raisesLate_function (job : Job V) (name : String) :
    o.raisesLate { job with function := name } =
      (o.raisesLate job).map fun x => (x.1, { x.2.1 with function := name }, x.2.2) := by
  unfold Stages.raisesLate
  cases o.createTask with
  | some r => rfl
  | none =>
    cases o.run with
    | error r => rfl
    | ok result => cases o.finish <;> rfl

theorem handles_function {f : TaskFunction V} {job : Job V} {name : String} {aborted : Bool}
    {r : Raised V} :
    JobWorker.Handles py o f { job with function := name } aborted r ↔
      JobWorker.Handles py o f job aborted r := by
  cases r <;> rfl

variable (c py w o) in
/-- The exits that release the id of the job. -/
structure Settles (slot : Route × String) (job : Job V) : Prop where
  slot : job.slot c = slot
  accepted : w.accepts job = true
  early : ∀ r ∈ w.raisesEarly py o job.function,
    r.isException = true ∧ job.retries < job.attempts + 1 ∧ o.finishFailed.executes = true
  late : w.raisesEarly py o job.function = none → ∀ f, w.lookup py job.function = .ok f →
    ∀ x ∈ o.raisesLate (o.running job),
      x.2.2 = true ∧ o.pollFinishes = true ∨ JobWorker.Handles py o f x.2.1 x.2.2 x.1

/-- A `try` block that raises goes to a handler, and then the poll may finish the job. -/
theorem attempt_error {job : Job V} {r : Raised V} {s : Local V}
    (h : (w.tryBlock py o).exec { job } = (.error r, s)) :
    ((w.attempt c py o).exec { job }).2 =
      ((JobWorker.pollFinish o).exec ((JobWorker.handler c py o r).exec s).2).2 := by
  simp only [JobWorker.attempt, Proc.exec_bind, Proc.exec_tryCatch, h]
  cases hh : (JobWorker.handler c py o r).exec s with
  | mk x s' => cases x <;> rfl

theorem attempt_ok {job : Job V} {s : Local V}
    (h : (w.tryBlock py o).exec { job } = (.ok (), s)) :
    ((w.attempt c py o).exec { job }).2 = ((JobWorker.pollFinish o).exec s).2 := by
  simp only [JobWorker.attempt, Proc.exec_bind, Proc.exec_tryCatch, h]

/-- A call whose `try` block releases the id has released it at the end. -/
theorem attempt_of_settled {job : Job V}
    (h : ((w.tryBlock py o).exec { job }).2.settled = true) :
    ((w.attempt c py o).exec { job }).2.settled = true := by
  cases ht : (w.tryBlock py o).exec { job } with
  | mk x s =>
    rw [ht] at h
    cases x with
    | ok u =>
      rw [attempt_ok ht, pollFinish_settled, h, Bool.true_or]
    | error r =>
      have hs := (within_handler (c := c) py o r s).settled h
      rw [attempt_error ht, pollFinish_settled, hs, Bool.true_or]

/-- Something is raised before the function is known. -/
theorem attempt_early {job : Job V} {r : Raised V}
    (h : w.raisesEarly py o job.function = some r) :
    ((w.attempt c py o).exec { job }).2.settled = true ↔
      r.isException = true ∧ job.retries < job.attempts + 1 ∧
        o.finishFailed.executes = true := by
  obtain ⟨s, hexec, hsettled, hfun, haborted, hretries, hattempts⟩ :=
    prepare_early (s := { job }) h
  have ht : (w.tryBlock py o).exec { job } = (.error r, s) := by
    simp only [JobWorker.tryBlock, Proc.exec_bind, hexec]
  have hcarry : ((JobWorker.handler c py o r).exec s).2.aborted = false :=
    (within_handler py o r s).aborted.trans haborted
  have hhandler := handler_unknown py o c r hfun hsettled
  rw [hretries, hattempts] at hhandler
  rw [attempt_error ht, pollFinish_settled, hcarry, Bool.false_and, Bool.or_false]
  exact hhandler

/-- Something is raised by the function or around it. -/
theorem attempt_late {job : Job V} {f : TaskFunction V} {x : Raised V × Job V × Bool}
    (h : w.raisesEarly py o job.function = none) (hf : w.lookup py job.function = .ok f)
    (hx : o.raisesLate (o.running job) = some x) :
    ((w.attempt c py o).exec { job }).2.settled = true ↔
      x.2.2 = true ∧ o.pollFinishes = true ∨ JobWorker.Handles py o f x.2.1 x.2.2 x.1 := by
  obtain ⟨s, name, hexec, hsettled, hfun, haborted, hjob⟩ := prepare_known (s := { job }) h hf
  have hx' : o.raisesLate s.job = some (x.1, { x.2.1 with function := name }, x.2.2) := by
    rw [hjob, raisesLate_function, hx, Option.map_some]
  obtain ⟨s', hexec', hsettled', hfun', hjob', haborted'⟩ :=
    perform_late py w (f := f) hx' haborted
  have ht : (w.tryBlock py o).exec { job } = (.error x.1, s') := by
    simp only [JobWorker.tryBlock, Proc.exec_bind, hexec, hexec']
  have hcarry : ((JobWorker.handler c py o x.1).exec s').2.aborted = x.2.2 :=
    (within_handler py o x.1 s').aborted.trans haborted'
  have hhandler := handler_known py o c x.1 (hfun'.trans hfun)
    (hsettled'.trans hsettled)
  rw [hjob', haborted', handles_function] at hhandler
  rw [attempt_error ht, pollFinish_settled, hcarry, Bool.or_eq_true, hhandler, Bool.and_eq_true]
  exact or_comm

/-- Nothing is raised before the id is released. -/
theorem attempt_done {job : Job V} {f : TaskFunction V}
    (h : w.raisesEarly py o job.function = none) (hf : w.lookup py job.function = .ok f)
    (hx : o.raisesLate (o.running job) = none) :
    ((w.attempt c py o).exec { job }).2.settled = true := by
  obtain ⟨s, name, hexec, -, -, -, hjob⟩ := prepare_known (s := { job }) h hf
  have hx' : o.raisesLate s.job = none := by
    rw [hjob, raisesLate_function, hx, Option.map_none]
  have ht : (w.tryBlock py o).exec { job } = (w.perform py o f).exec s := by
    simp only [JobWorker.tryBlock, Proc.exec_bind, hexec]
  refine attempt_of_settled ?_
  rw [ht]
  exact perform_done hx'

theorem attempt_settled {job : Job V} :
    ((w.attempt c py o).exec { job }).2.settled = true ↔
      (∀ r ∈ w.raisesEarly py o job.function, r.isException = true ∧
        job.retries < job.attempts + 1 ∧ o.finishFailed.executes = true) ∧
      (w.raisesEarly py o job.function = none → ∀ f, w.lookup py job.function = .ok f →
        ∀ x ∈ o.raisesLate (o.running job),
          x.2.2 = true ∧ o.pollFinishes = true ∨
            JobWorker.Handles py o f x.2.1 x.2.2 x.1) := by
  cases h : w.raisesEarly py o job.function with
  | some r => simp [attempt_early h]
  | none =>
    obtain ⟨f, hf⟩ := lookup_of_not_early h
    cases hx : o.raisesLate (o.running job) with
    | some x => simp [attempt_late h hf hx, hf]
    | none => simp [attempt_done h hf hx]

/-! ## What the steps do to the active list -/

theorem count_lrem_one (x y : String) (l : List String) :
    (Redis.lrem 1 x l).count y = l.count y - if x = y then 1 else 0 := by
  rw [Redis.lrem_one]
  split
  · rename_i h
    rw [← h, List.count_erase_self]
  · rename_i h
    rw [List.count_erase_of_ne (Ne.symm h), Nat.sub_zero]

/-- A step on a job takes its id from the active list, once, if it is a `finish` or a `retry`. -/
theorem active_count_apply {db : Db V} {a : Act V} {slot : Route × String} (ha : a.Of c slot)
    (r : Route) (id : String) :
    ((apply c db a).lanes r).active.count id =
      (db.lanes r).active.count id - if a.takes = true ∧ slot = (r, id) then 1 else 0 := by
  -- one active copy of the job's id is removed on its route
  have htake : ∀ (job : Job V) (l : List String), job.slot c = slot →
      l = (if job.route = r then Redis.lrem 1 (job.id c.toKeyConfig) (db.lanes r).active
        else (db.lanes r).active) →
      l.count id = (db.lanes r).active.count id - if slot = (r, id) then 1 else 0 := by
    rintro job l rfl rfl
    simp only [Job.slot, Prod.mk.injEq]
    split
    · rename_i hr
      simp only [count_lrem_one, hr, true_and]
    · rename_i hr
      simp only [hr, false_and, ↓reduceIte, Nat.sub_zero]
  rw [apply_lanes]
  cases a with
  | finish job status result error now =>
    simp only [Act.takes, true_and, laneOp]
    refine htake job _ ha ?_
    split <;> rfl
  | retry job error now rnd time =>
    simp only [Act.takes, true_and, laneOp]
    refine htake job _ ha ?_
    split
    · split <;> rfl
    · rfl
  | update | pushBg => simp [laneOp, DelayQueue.apply, Act.takes]
  | _ => exact ha.elim

theorem active_count_run {as : List (Act V)} {slot : Route × String} (h : ∀ a ∈ as, a.Of c slot)
    (db : Db V) (r : Route) (id : String) :
    ((run c db as).lanes r).active.count id =
      (db.lanes r).active.count id - if slot = (r, id) then as.countP Act.takes else 0 := by
  induction as generalizing db with
  | nil => simp [run]
  | cons a as ih =>
    obtain ⟨ha, has⟩ := List.forall_mem_cons.1 h
    show ((run c (apply c db a) as).lanes r).active.count id = _
    rw [ih has, active_count_apply ha, List.countP_cons]
    by_cases hslot : slot = (r, id)
    · by_cases ht : a.takes = true
      · simp only [hslot, ht, and_self, ↓reduceIte]
        omega
      · simp [hslot, ht]
    · simp [hslot]

theorem active_count_dequeue {db : Db V} {r : Route} {id : String}
    (h : (db.lanes r).queued.getLast? = some id) :
    ((apply c db (.dequeue r)).lanes r).active.count id = (db.lanes r).active.count id + 1 := by
  rw [apply_lanes]
  simp only [laneOp, ↓reduceIte, DelayQueue.apply]
  rcases DelayQueue.lmove_right_left (db.lanes r) with ⟨hnil, -⟩ | ⟨l, x, hq, hmove⟩
  · rw [hnil] at h
    cases h
  · rw [hq, List.getLast?_concat] at h
    cases h
    rw [hmove, List.count_cons_self]

/-! ## The call of a dequeued job -/

/-- The active list of the route holds the id no more often than before. -/
def NotAbandoned (db db' : Db V) (r : Route) (id : String) : Prop :=
  (db'.lanes r).active.count id ≤ (db.lanes r).active.count id

instance (db db' : Db V) (r : Route) (id : String) : Decidable (NotAbandoned db db' r id) :=
  inferInstanceAs (Decidable (_ ≤ _))

variable (c py w o) in
/-- The dequeue of an id, and `process_queue` with the record that it reads. -/
def dequeueAndProcess (db : Db V) (r : Route) (id : String) : Db V :=
  run c (apply c db (.dequeue r)) (w.processQueue c py o ((apply c db (.dequeue r)).records.get id))

/-- All steps of the call are on the job. -/
theorem processQueue_of {job : Job V} :
    ∀ a ∈ w.processQueue c py o (some job), a.Of c (job.slot c) := by
  intro a ha
  obtain ⟨as, hacts, hof⟩ := (within_attempt (c := c) py w o { job }).acts
  simp only [JobWorker.processQueue] at ha
  split at ha
  · cases ha
  · split at ha
    · have hrun : ((w.attempt c py o).run.run { job }).2.acts = as :=
        hacts.trans (List.nil_append as)
      rw [hrun] at ha
      exact hof a ha
    · cases ha

theorem processQueue_any {job : Job V} :
    (w.processQueue c py o (some job)).any Act.takes = true ↔
      o.read = none ∧ w.accepts job = true ∧
        ((w.attempt c py o).exec { job }).2.settled = true := by
  simp only [JobWorker.processQueue]
  cases hr : o.read with
  | some r => simp
  | none =>
    cases ha : w.accepts job with
    | false => simp
    | true => simp [Local.settled, Proc.exec]

/-- The id is released if the call takes the step that does so, on the slot that it was taken from. -/
theorem notAbandoned_iff_takes {db : Db V} {r : Route} {id : String} {job : Job V}
    (h : (db.lanes r).queued.getLast? = some id) (hj : db.records.get id = some job) :
    NotAbandoned db (dequeueAndProcess c py w o db r id) r id ↔
      job.slot c = (r, id) ∧ (w.processQueue c py o (some job)).any Act.takes = true := by
  have hrec : (apply c db (.dequeue r)).records.get id = some job := hj
  have hpos : (w.processQueue c py o (some job)).any Act.takes = true ↔
      0 < (w.processQueue c py o (some job)).countP Act.takes := by
    rw [List.any_eq_true, List.countP_pos_iff]
  rw [NotAbandoned, dequeueAndProcess, hrec, active_count_run processQueue_of,
    active_count_dequeue h, hpos]
  by_cases hslot : job.slot c = (r, id)
  · simp only [hslot, ↓reduceIte, true_and]
    omega
  · simp [hslot]

/-- **A dequeued job is not abandoned** if and only if its record is read and its exit settles it. -/
theorem notAbandoned_iff (c : QueueConfig) (py : Py V) (w : JobWorker V) (o : Stages V) (db : Db V)
    (r : Route) (id : String) (h : (db.lanes r).queued.getLast? = some id) :
    NotAbandoned db (dequeueAndProcess c py w o db r id) r id ↔
      o.read = none ∧ ∃ job, db.records.get id = some job ∧ Settles c py w o (r, id) job := by
  cases hj : db.records.get id with
  | none =>
    have hrec : (apply c db (.dequeue r)).records.get id = none := hj
    have hcount := active_count_dequeue (c := c) h
    simp only [NotAbandoned, dequeueAndProcess, hrec, JobWorker.processQueue, run, List.foldl_nil,
      hcount, reduceCtorEq, false_and, exists_false, and_false, iff_false]
    omega
  | some job =>
    rw [notAbandoned_iff_takes h hj, processQueue_any, attempt_settled]
    constructor
    · intro hs
      obtain ⟨hslot, hread, haccepts, hearly, hlate⟩ := hs
      exact ⟨hread, job, rfl, hslot, haccepts, hearly, hlate⟩
    · intro hs
      obtain ⟨hread, job', hj', hslot, haccepts, hearly, hlate⟩ := hs
      cases hj'
      exact ⟨hslot, hread, haccepts, hearly, hlate⟩

/-! ## A job whose function the worker does not know -/

/-- Errors and texts as their texts. -/
def textPy : Py String where
  error
    | .valueError msg | .attributeError msg | .typeError msg => msg
    | .keyError key => key
  str := id
  truthy s := s ≠ ""

/-- A worker without functions. -/
def bareWorker : JobWorker String := { workerId := "w", name := "n" }

/-- A job with the default settings, enqueued. -/
def unknownJob : Db String :=
  run {} {} [.enqueue { function := "f", key := "k" } 0]

/-- It has an attempt left, and stays in the active list. -/
theorem abandoned_unknown :
    (unknownJob.lanes none).queued.getLast? = some "_kvq_:global:job:k" ∧
      ¬ NotAbandoned unknownJob
        (dequeueAndProcess {} textPy bareWorker { excError := "ValueError" } unknownJob none
          "_kvq_:global:job:k") none "_kvq_:global:job:k" := by
  decide +kernel

/-- A worker that knows its function completes it. -/
theorem notAbandoned_completed :
    NotAbandoned unknownJob
      (dequeueAndProcess {} textPy
        { bareWorker with functions := [("f", {})], queueTasks := { functions := [("f", {})] } }
        { excError := "ValueError" } unknownJob none "_kvq_:global:job:k")
      none "_kvq_:global:job:k" := by
  refine (notAbandoned_iff _ _ _ _ _ _ _ (by decide +kernel)).2 ⟨rfl, _, rfl, ?_⟩
  refine ⟨by decide +kernel, by decide +kernel, fun r hr => ?_, fun _ f _ x hx => ?_⟩
  · cases hr
  · cases hx

end Kvdb
