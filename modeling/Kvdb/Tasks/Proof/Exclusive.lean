import Kvdb.Lib.Ticket
import Kvdb.Tasks.Proof.Attempts
import Kvdb.Tasks.Proof.Provenance

/-!
# One worker at a time

`Calm`: the runs in which a job is submitted on one route, and in which nobody but the task that
processes it settles it or puts it back while it is in line or in hand (a sweep, an abort, a
reschedule); no retry puts it in line under a time to come, and no `notify` of its completion fails.
Then the job has a ticket in every state (`Ticketed`): it is processed by one task at a time
(`oneWorker_of_run`), and it goes from one step to the next as `Ticket.next` says (`lifecycle_of_run`).
-/

namespace Kvdb

open Redis Lib TaskQueue

variable {ι V : Type} (c : QueueConfig) (slot : Route × String)

/-- `process_queue` has the job in hand: its next steps run it, finish it or put it back. -/
def Task.Works (id : String) : Task ι V → Prop
  | .fetched jobId => jobId = id
  | .starting job | .running job _ | .finishing job _ => job.id c.toKeyConfig = id
  | .handling job todo => todo.isEmpty = false ∧ job.id c.toKeyConfig = id
  | _ => False

instance (id : String) (t : Task ι V) : Decidable (t.Works c id) := by
  induction t using Task.casesOn <;> (dsimp only [Task.Works]; infer_instance)

/-- The id of the job that a step settles or puts back although its task does not process it. -/
def Task.settles (t : Task ι V) : Move ι V → Option String
  | .sweepItem _ now =>
    match t with
    | .sweeping _ ((jobId, none) :: _) => some jobId
    | .sweeping _ ((_, some job) :: _) =>
      if job.swept now then some (job.id c.toKeyConfig) else none
    | _ => none
  | .abortRest _ =>
    match t with
    | .aborting job _ dequeued => if dequeued = 0 then none else some (job.id c.toKeyConfig)
    | _ => none
  | .pollFinish _ =>
    match t with
    | .cancelling job _ => some (job.id c.toKeyConfig)
    | _ => none
  | .rescheduleFinish _ =>
    match t with
    | .rescheduling job _ _ => some (job.id c.toKeyConfig)
    | _ => none
  | .reschedulePut _ _ =>
    match t with
    | .rescheduled job _ _ => some (job.id c.toKeyConfig)
    | _ => none
  | _ => none

/-- No task processes the job, and it is not in line. -/
def Sys.Untouched (s : Sys ι V) : Prop :=
  slot.2 ∉ (s.db.lanes slot.1).queued ∧ ∀ k, ¬ (s.tasks k).Works c slot.2

/-- The condition on the steps. -/
def Calm (s : Sys ι V) : Ev ι V → Prop
  | .enqueue job _ => job.id c.toKeyConfig = slot.2 → job.route = slot.1
  | .move _ (.abort job _ _) =>
    job.id c.toKeyConfig = slot.2 → job.route = slot.1 ∧ ∀ k, ¬ (s.tasks k).Works c slot.2
  | .move i (.raised ..) =>
    match s.tasks i with
    | .completed job => job.id c.toKeyConfig ≠ slot.2
    | _ => True
  | .move i (.exit _ rnd _) =>
    match s.tasks i with
    | .handling job (.retry _ :: _) =>
      job.id c.toKeyConfig = slot.2 → job.nextRetryDelay rnd = 0 → job.scheduled < 1
    | _ => True
  | .move i m => (s.tasks i).settles c m = some slot.2 → s.Untouched c slot
  | _ => True

instance [Fintype ι] (s : Sys ι V) : Decidable (s.Untouched c slot) := by
  unfold Sys.Untouched
  infer_instance

instance [Fintype ι] (s : Sys ι V) (e : Ev ι V) : Decidable (Calm c slot s e) := by
  induction e using Ev.casesOn with
  | move i m =>
    induction m using Move.casesOn
    case raised =>
      dsimp only [Calm]
      generalize s.tasks i = t
      induction t using Task.casesOn <;> (dsimp only; infer_instance)
    case exit =>
      dsimp only [Calm]
      generalize s.tasks i = t
      induction t using Task.casesOn
      case handling todo =>
        induction todo using List.casesOn with
        | nil => exact .isTrue trivial
        | cons exit _ => induction exit using Exit.casesOn <;> (dsimp only; infer_instance)
      all_goals exact .isTrue trivial
    all_goals (dsimp only [Calm]; infer_instance)
  | _ => dsimp only [Calm]; infer_instance

/-- What a handler has left to do. -/
inductive Todo : List (Exit V) → Prop
  | done : Todo []
  | retry (error : V) : Todo [.retry error]
  | fail (error : V) : Todo [.finishFailed error]
  | updateFail (error : V) : Todo [.update, .finishFailed error]

/-- The handler of the task ends with the step that settles its job. -/
def Task.Brief : Task ι V → Prop
  | .handling _ todo => Todo todo
  | _ => True

/-- The ticket of the job. -/
def Sys.At (s : Sys ι V) (t : Ticket) : Prop :=
  (s.db.lanes slot.1).At slot.2 (fun k => (s.tasks k).Works c slot.2) t

/-- The invariant of calm runs. -/
structure Ticketed (s : Sys ι V) : Prop where
  ticket : ∃ t, s.At c slot t
  elsewhere : ∀ r, r ≠ slot.1 → (s.db.lanes r).Gone slot.2
  keyed : Keyed c s.db
  stored : ∀ job, s.db.records.get slot.2 = some job → job.route = slot.1
  copies : ∀ i, ∀ job ∈ (s.tasks i).copies, job.id c.toKeyConfig = slot.2 → job.route = slot.1
  brief : ∀ i, (s.tasks i).Brief

variable {c slot} {s s' : Sys ι V} {t t' : Task ι V} {m : Move ι V} {a : Act V} {id : String}
  {job : Job V} {k : Ticket}

/-! ## Tasks -/

theorem route_of_order {job' : Job V} (h : job.order = job'.order) : job.route = job'.route := by
  have hid : job.order.workerId = job'.order.workerId := congrArg Job.workerId h
  have hname : job.order.workerName = job'.order.workerName := congrArg Job.workerName h
  change job.workerId = job'.workerId at hid
  change job.workerName = job'.workerName at hname
  simp only [Job.route, hid, hname]

theorem brief_onError {e : V} {b : Option Bool} {skip : List (Exit V)} (h : Todo skip) :
    (onError job e b skip : Task ι V).Brief := by
  unfold onError
  split
  · exact .fail e
  · split
    · exact .retry e
    · exact h
    · exact .done

theorem MoveStep.brief (h : MoveStep c s t m a t') (ht : t.Brief) : t'.Brief := by
  cases h with
  | @outcome job aborted o =>
    cases o with
    | returned result => trivial
    | jobError e e' b => exact brief_onError (.updateFail _)
    | exception e e' b => exact brief_onError (.fail _)
    | cancelled e b =>
      simp only [onOutcome]
      split
      · exact .retry _
      · trivial
  | finishRaised | notifyRaised => exact brief_onError (.fail _)
  | retry | failed =>
    cases ht
    exact .done
  | update =>
    cases ht
    exact .fail _
  | _ => trivial

theorem works_onError {e : V} {b : Option Bool} {skip : List (Exit V)}
    (h : (onError job e b skip : Task ι V).Works c id) : job.id c.toKeyConfig = id := by
  obtain ⟨job', todo, ho, hid, -, -⟩ := onError_eq ι c job e b skip
  rw [ho] at h
  exact hid.symm.trans h.2

theorem works_onOutcome {aborted : Bool} {o : Outcome V}
    (h : (onOutcome job aborted o : Task ι V).Works c id) : job.id c.toKeyConfig = id := by
  cases o with
  | returned result => exact h
  | jobError e e' b | exception e e' b => exact works_onError h
  | cancelled e b =>
    simp only [onOutcome] at h
    split at h
    · exact h.2
    · exact h.elim

/-! ## Tickets -/

section
variable [DecidableEq ι] {i : ι} {tasks : ι → Task ι V}

omit [DecidableEq ι] in
theorem at_server : ({ db := apply c s.db a, tasks } : Sys ι V).At c slot k ↔
    ((s.db.lanes slot.1).apply (laneOp c s.db slot.1 a)).At slot.2
      (fun j => (tasks j).Works c slot.2) k := by
  rw [Sys.At, apply_lanes]

theorem works_update {j : ι} : (Function.update tasks i t' j).Works c id ↔
    j = i ∧ t'.Works c id ∨ j ≠ i ∧ (tasks j).Works c id := by
  rw [Function.update_apply]
  split <;> rename_i h <;> simp [h]

/-- When the only task that processes the job is done with it, nobody processes it. -/
theorem free_of_done (h : s.At c slot k) (hi : (s.tasks i).Works c slot.2)
    (hn : ¬ t'.Works c slot.2) (j : ι) : ¬ (Function.update s.tasks i t' j).Works c slot.2 := by
  intro hj
  rcases works_update.1 hj with ⟨-, hw⟩ | ⟨hne, hw⟩
  · exact hn hw
  · exact hne (Place.unique h hw hi)

/-- And nobody does when a task that does not process it takes a step. -/
theorem free_of_free (h : ∀ j, ¬ (s.tasks j).Works c slot.2) (hn : ¬ t'.Works c slot.2) (j : ι) :
    ¬ (Function.update s.tasks i t' j).Works c slot.2 := by
  intro hj
  rcases works_update.1 hj with ⟨-, hw⟩ | ⟨-, hw⟩
  · exact hn hw
  · exact h j hw

/-- A step that leaves the line and the score of the job alone, of a task that does not take it in
hand. -/
theorem at_same
    (h : s.At c slot k)
    (hq : ((apply c s.db a).lanes slot.1).queued.count slot.2 =
      (s.db.lanes slot.1).queued.count slot.2)
    (hs : ((apply c s.db a).lanes slot.1).incomplete.score slot.2 =
      (s.db.lanes slot.1).incomplete.score slot.2)
    (hw : t'.Works c slot.2 → (s.tasks i).Works c slot.2) :
    ∃ k' ∈ k.next,
      ({ db := apply c s.db a, tasks := Function.update s.tasks i t' } : Sys ι V).At c slot k' := by
  by_cases hi : (s.tasks i).Works c slot.2 ∧ ¬ t'.Works c slot.2
  · exact (DelayQueue.At.congr h hq hs fun _ => Iff.rfl).letGo hi.1 (free_of_done h hi.1 hi.2)
  · refine ⟨k, k.mem_next_self, DelayQueue.At.congr h hq hs fun j => ?_⟩
    rw [works_update]
    by_cases hj : j = i
    · subst hj
      have hiff : t'.Works c slot.2 ↔ (s.tasks j).Works c slot.2 :=
        ⟨hw, fun hold => not_not.1 fun hn => hi ⟨hold, hn⟩⟩
      simp [hiff]
    · simp [hj]

/-- Such as one on other jobs. -/
theorem at_quiet (h : s.At c slot k) (ha : (laneOp c s.db slot.1 a).Avoids (s.db.lanes slot.1) slot.2)
    (hl : (laneOp c s.db slot.1 a).Leaves (s.db.lanes slot.1) slot.2)
    (hw : t'.Works c slot.2 → (s.tasks i).Works c slot.2) :
    ∃ k' ∈ k.next,
      ({ db := apply c s.db a, tasks := Function.update s.tasks i t' } : Sys ι V).At c slot k' :=
  at_same h (by rw [apply_lanes]; exact DelayQueue.count_queued_apply ha hl)
    (by rw [apply_lanes]; exact (DelayQueue.same_apply ha).score) hw

/-- The transaction of `finish` by the task that processes the job, or on another job. -/
theorem at_finish {status : JobStatus} {result error : Option V} {now : ℤ} (h : s.At c slot k)
    (hr : job.id c.toKeyConfig = slot.2 → job.route = slot.1)
    (hi : job.id c.toKeyConfig = slot.2 → (s.tasks i).Works c slot.2)
    (hn : ¬ t'.Works c slot.2) :
    ∃ k' ∈ k.next,
      ({ db := apply c s.db (.finish job status result error now)
         tasks := Function.update s.tasks i t' } : Sys ι V).At c slot k' := by
  by_cases hid : job.id c.toKeyConfig = slot.2
  · have hop : laneOp c s.db slot.1 (.finish job status result error now) = .drop slot.2 := by
      simp only [laneOp, hr hid, hid, ↓reduceIte]
    simp only [at_server, hop]
    exact DelayQueue.At.drop h (hi hid) (free_of_done h (hi hid) hn)
  · refine at_quiet h (DelayQueue.Op.Avoids.ite fun _ => Ne.symm hid) ?_ fun hw => absurd hw hn
    simp only [laneOp]
    split <;> trivial

/-- The transaction of `finish` by another task, on a job that is neither in line nor in hand. -/
theorem at_settle {status : JobStatus} {result error : Option V} {now : ℤ} (h : s.At c slot k)
    (hr : job.id c.toKeyConfig = slot.2 → job.route = slot.1)
    (hu : job.id c.toKeyConfig = slot.2 → s.Untouched c slot) (hn : ¬ t'.Works c slot.2) :
    ∃ k' ∈ k.next,
      ({ db := apply c s.db (.finish job status result error now)
         tasks := Function.update s.tasks i t' } : Sys ι V).At c slot k' := by
  by_cases hid : job.id c.toKeyConfig = slot.2
  · have hop : laneOp c s.db slot.1 (.finish job status result error now) = .drop slot.2 := by
      simp only [laneOp, hr hid, hid, ↓reduceIte]
    obtain ⟨hq, hfree⟩ := hu hid
    simp only [at_server, hop]
    exact DelayQueue.At.clear (q := (s.db.lanes slot.1).lremActive 1 slot.2) hq
      (free_of_free hfree hn) k
  · refine at_quiet h (DelayQueue.Op.Avoids.ite fun _ => Ne.symm hid) ?_ fun hw => absurd hw hn
    simp only [laneOp]
    split <;> trivial

/-- A step that the lists of the route do not notice. -/
theorem at_keep (h : s.At c slot k) (ha : laneOp c s.db slot.1 a = .keep)
    (hw : t'.Works c slot.2 → (s.tasks i).Works c slot.2) :
    ∃ k' ∈ k.next,
      ({ db := apply c s.db a, tasks := Function.update s.tasks i t' } : Sys ι V).At c slot k' :=
  at_quiet h (by rw [ha]; trivial) (by rw [ha]; trivial) hw

/-- The transaction of `retry`. -/
theorem at_retry {error : Option V} {now : ℤ} {rnd time : ℚ} (h : s.At c slot k)
    (hr : job.id c.toKeyConfig = slot.2 → job.route = slot.1)
    (hi : job.id c.toKeyConfig = slot.2 → (s.tasks i).Works c slot.2)
    (hn : ¬ t'.Works c slot.2)
    (hs : job.id c.toKeyConfig = slot.2 → job.nextRetryDelay rnd = 0 → job.scheduled < 1) :
    ∃ k' ∈ k.next,
      ({ db := apply c s.db (.retry job error now rnd time)
         tasks := Function.update s.tasks i t' } : Sys ι V).At c slot k' := by
  by_cases hid : job.id c.toKeyConfig = slot.2
  · have hfree := free_of_done h (hi hid) hn
    have hdelay : (job.reset .queued error now).nextRetryDelay rnd = job.nextRetryDelay rnd := rfl
    simp only [at_server, laneOp, hr hid, hid, hdelay, ↓reduceIte]
    by_cases hd : job.nextRetryDelay rnd = 0
    · simp only [hd, ne_eq, not_true_eq_false, ↓reduceIte]
      exact DelayQueue.At.requeue h (hi hid) hfree (by exact_mod_cast hs hid hd)
    · simp only [hd, ne_eq, not_false_eq_true, ↓reduceIte]
      exact DelayQueue.At.delay h (hi hid) hfree _
  · refine at_quiet h (DelayQueue.Op.Avoids.ite fun _ => ?_) ?_ fun hw => absurd hw hn
    · split <;> exact Ne.symm hid
    · simp only [laneOp]
      (repeat' split) <;> trivial

/-- The second transaction of `_reschedule`. -/
theorem at_reschedule {error : Option V} {now : ℤ} {waitTime time : ℚ} (h : s.At c slot k)
    (hr : job.id c.toKeyConfig = slot.2 → job.route = slot.1)
    (hu : job.id c.toKeyConfig = slot.2 → s.Untouched c slot) (hn : ¬ t'.Works c slot.2) :
    ∃ k' ∈ k.next,
      ({ db := apply c s.db (.reschedule job error now waitTime time)
         tasks := Function.update s.tasks i t' } : Sys ι V).At c slot k' := by
  by_cases hid : job.id c.toKeyConfig = slot.2
  · obtain ⟨hq, hfree⟩ := hu hid
    simp only [at_server, laneOp, hr hid, hid, ↓reduceIte]
    exact DelayQueue.At.put h hq (free_of_free hfree hn) _
  · refine at_quiet h (DelayQueue.Op.Avoids.ite fun _ => Ne.symm hid) ?_ fun hw => absurd hw hn
    simp only [laneOp]
    split <;> trivial

/-- The transaction of `abort`. -/
theorem at_abort {error : V} {ttl : ℕ} (h : s.At c slot k)
    (hr : job.id c.toKeyConfig = slot.2 →
      job.route = slot.1 ∧ ∀ j, ¬ (s.tasks j).Works c slot.2)
    (hn : ¬ t'.Works c slot.2) :
    ∃ k' ∈ k.next,
      ({ db := apply c s.db (.abort job error ttl)
         tasks := Function.update s.tasks i t' } : Sys ι V).At c slot k' := by
  by_cases hid : job.id c.toKeyConfig = slot.2
  · obtain ⟨hroute, hfree⟩ := hr hid
    simp only [at_server, laneOp, hroute, hid, ↓reduceIte]
    exact DelayQueue.At.clear (q := (s.db.lanes slot.1).lremQueued 0 slot.2) (not_mem_lrem_zero _ _)
      (free_of_free hfree hn) k
  · refine at_quiet h (DelayQueue.Op.Avoids.ite fun _ => Ne.symm hid) ?_ fun hw => absurd hw hn
    simp only [laneOp]
    split <;> trivial

/-- The last step of `abort`, when nothing was in line. -/
theorem at_release (h : s.At c slot k) (hw : t'.Works c slot.2 → (s.tasks i).Works c slot.2) :
    ∃ k' ∈ k.next,
      ({ db := apply c s.db (.dropActive job)
         tasks := Function.update s.tasks i t' } : Sys ι V).At c slot k' := by
  refine at_same h ?_ ?_ hw <;> rw [apply_lanes] <;> simp only [laneOp] <;> split <;> rfl

/-- The transaction of `sweep` for a job it cannot read. -/
theorem at_purge {r : Route} {jobId : String} (h : s.At c slot k)
    (hu : jobId = slot.2 → s.Untouched c slot) (hn : ¬ t'.Works c slot.2) :
    ∃ k' ∈ k.next,
      ({ db := apply c s.db (.sweepMissing r jobId)
         tasks := Function.update s.tasks i t' } : Sys ι V).At c slot k' := by
  by_cases hid : jobId = slot.2 ∧ r = slot.1
  · obtain ⟨rfl, rfl⟩ := hid
    obtain ⟨hq, hfree⟩ := hu rfl
    simp only [at_server, laneOp, ↓reduceIte]
    exact DelayQueue.At.clear (q := (s.db.lanes slot.1).lremActive 0 slot.2) hq
      (free_of_free hfree hn) k
  · refine at_quiet h (DelayQueue.Op.Avoids.ite fun hr => ?_) ?_ fun hw => absurd hw hn
    · exact fun he => hid ⟨he.symm, hr⟩
    · simp only [laneOp]
      split <;> trivial

omit [DecidableEq ι] in
theorem not_works_of_brief {exit : Exit V} {todo : List (Exit V)} (h : Todo (exit :: todo))
    (he : exit ≠ .update) : ¬ (.handling job todo : Task ι V).Works c id := by
  intro hw
  cases h with
  | retry | fail => cases hw.1
  | updateFail => exact he rfl

/-! ## One step -/

/-- A task takes a step. -/
theorem at_move (h : Ticketed c slot s) (hk : s.At c slot k) (hm : MoveStep c s (s.tasks i) m a t')
    (hc : Calm c slot s (.move i m)) (hd : ∀ r, m ≠ .dequeue r) :
    ∃ k' ∈ k.next,
      ({ db := apply c s.db a, tasks := Function.update s.tasks i t' } : Sys ι V).At c slot k' := by
  have hcopies := h.copies i
  have hbrief := h.brief i
  generalize hi : s.tasks i = t at hm hcopies hbrief
  have hmine : ∀ {P : Prop}, (P → t.Works c slot.2) → P → (s.tasks i).Works c slot.2 :=
    fun hP hp => hi ▸ hP hp
  cases hm with
  | blocked | dequeued => exact absurd rfl (hd _)
  | missing | published | leave | locked | sweep | sweepGet | spared | abortLast | notAborted | poll
  | reschedule => exact at_keep hk rfl False.elim
  | fetch hr => exact at_keep hk rfl (hmine fun hid => (h.keyed _ _ hr).symm.trans hid)
  | start => exact at_keep hk rfl (hmine fun hid => hid)
  | outcome => exact at_keep hk rfl (hmine works_onOutcome)
  | finishRaised => exact at_keep hk rfl (hmine works_onError)
  | notifyRaised =>
    simp only [Calm, hi] at hc
    exact at_keep hk rfl fun hw => absurd (works_onError hw) hc
  | update => exact at_keep hk rfl (hmine fun hw => ⟨rfl, hw.2⟩)
  | finish =>
    exact at_finish hk (hcopies _ (List.mem_singleton_self _)) (hmine fun hid => hid) fun hw => hw
  | failed =>
    exact at_finish hk (hcopies _ (List.mem_singleton_self _)) (hmine fun hid => ⟨rfl, hid⟩)
      (not_works_of_brief hbrief fun he => by cases he)
  | retry =>
    simp only [Calm, hi] at hc
    exact at_retry hk (hcopies _ (List.mem_singleton_self _)) (hmine fun hid => ⟨rfl, hid⟩)
      (not_works_of_brief hbrief fun he => by cases he) hc
  | sweepMissing =>
    simp only [Calm, hi, Task.settles, Option.some.injEq] at hc
    exact at_purge hk hc fun hw => hw
  | swept hs =>
    simp only [Calm, hi, Task.settles, hs, ↓reduceIte, Option.some.injEq] at hc
    exact at_settle hk (hcopies _ (List.mem_cons_self ..)) hc fun hw => hw
  | abort => exact at_abort hk hc fun hw => hw
  | dropActive => exact at_release hk False.elim
  | abortFinish hn =>
    simp only [Calm, hi, Task.settles, hn, ↓reduceIte, Option.some.injEq] at hc
    exact at_settle hk (hcopies _ (List.mem_singleton_self _)) hc fun hw => hw
  | pollFinish | rescheduleFinish =>
    simp only [Calm, hi, Task.settles, Option.some.injEq] at hc
    exact at_settle hk (hcopies _ (List.mem_singleton_self _)) hc fun hw => hw
  | reschedulePut =>
    simp only [Calm, hi, Task.settles, Option.some.injEq] at hc
    exact at_reschedule hk (hcopies _ (List.mem_singleton_self _)) hc fun hw => hw

/-- A task asks for a job. -/
theorem at_dequeue {r : Route} (h : Ticketed c slot s) (hk : s.At c slot k) :
    ∃ k' ∈ k.next,
      ({ db := apply c s.db (.dequeue r)
         tasks := Function.update s.tasks i
          ((s.db.lanes r).queued.getLast?.elim .idle fun jobId => .fetched jobId) } :
        Sys ι V).At c slot k' := by
  by_cases hr : r = slot.1 ∧ (s.db.lanes r).queued.getLast? = some slot.2
  · obtain ⟨rfl, hq⟩ := hr
    simp only [at_server, laneOp, ↓reduceIte, hq, Option.elim_some]
    refine DelayQueue.At.serve (i := i) hk hq ?_ fun j hj => ?_
    · exact works_update.2 (.inl ⟨rfl, rfl⟩)
    · exact (works_update.1 hj).imp And.left And.right
  · refine at_quiet hk ?_ ?_ fun hw => ?_
    · exact DelayQueue.Op.Avoids.ite fun _ => trivial
    · simp only [laneOp]
      split
      · rename_i he
        subst he
        intro x l hp hx
        rw [pop_right_eq_some] at hp
        refine hr ⟨rfl, ?_⟩
        rw [hp, List.getLast?_concat, hx]
      · trivial
    · cases hq : (s.db.lanes r).queued.getLast? with
      | none =>
        rw [hq] at hw
        exact hw.elim
      | some jobId =>
        rw [hq] at hw
        obtain rfl : jobId = slot.2 := hw
        by_cases he : r = slot.1
        · exact absurd ⟨he, hq⟩ hr
        · exact absurd (List.mem_of_getLast? hq) (h.elsewhere r he).queued

theorem step_dequeue {r : Route} (h : (system c).step s (.move i (.dequeue r)) = some s') :
    s' = { db := apply c s.db (.dequeue r)
           tasks := Function.update s.tasks i
            ((s.db.lanes r).queued.getLast?.elim .idle fun jobId => .fetched jobId) } := by
  obtain ⟨⟨a, tasks⟩, hp, rfl⟩ := Option.map_eq_some_iff.1 h
  obtain ⟨⟨a', t⟩, hm, ht⟩ := Option.map_eq_some_iff.1 hp
  cases ht
  simp only [move] at hm
  split at hm <;> cases hm
  rfl

omit [DecidableEq ι] in
/-- A client enqueues a job. -/
theorem at_enqueue {now : ℤ} (hk : s.At c slot k) :
    ∃ k' ∈ k.next, ({ s with db := apply c s.db (.enqueue job now) } : Sys ι V).At c slot k' := by
  simp only [at_server, laneOp]
  split
  · rename_i ha
    obtain ⟨-, ha⟩ := ha
    by_cases hid : job.id c.toKeyConfig = slot.2
    · simp only [enqueueAccepts, decide_eq_true_eq, hid] at ha
      rw [hid]
      exact DelayQueue.At.add hk ha.1 _
    · exact ⟨k, k.mem_next_self, DelayQueue.At.aside hk (Ne.symm hid) trivial fun _ => Iff.rfl⟩
  · exact ⟨k, k.mem_next_self, hk⟩

/-- A poll cancels the function of a job. -/
theorem works_cancel {i j j' : ι} {job job' : Job V} {error : V} {aborted : Bool}
    (hi : s.tasks i = .polled j job error) (hj : s.tasks j = .running job' aborted) :
    (Function.update (Function.update s.tasks j (.running job' true)) i
      (.cancelling job' error) j').Works c id ↔ (s.tasks j').Works c id := by
  rw [works_update, works_update]
  by_cases hji : j' = i
  · subst hji
    simp [hi, Task.Works]
  · by_cases hjj : j' = j
    · subst hjj
      simp [hji, hj, Task.Works]
    · simp [hji, hjj]

/-- **A step of a calm run** takes the ticket to one of the next. -/
theorem Ticketed.at_step {e : Ev ι V} (h : Ticketed c slot s) (hk : s.At c slot k)
    (hc : Calm c slot s e) (hs : (system c).step s e = some s') :
    ∃ k' ∈ k.next, s'.At c slot k' := by
  by_cases hd : ∃ i r, e = .move i (.dequeue r)
  · obtain ⟨i, r, rfl⟩ := hd
    rw [step_dequeue hs]
    exact at_dequeue h hk
  have hstep := sysStep_of_step hs
  cases hstep with
  | enqueue => exact at_enqueue hk
  | @schedule r lock now =>
    simp only [at_server, laneOp]
    split
    · exact DelayQueue.At.promote hk now
    · exact ⟨k, k.mem_next_self, hk⟩
  | advance | pushBg | removeBg =>
    refine ⟨k, k.mem_next_self, ?_⟩
    simp only [at_server]
    exact hk
  | @move i m a t hm => exact at_move h hk hm hc fun r hr => hd ⟨i, r, hr ▸ rfl⟩
  | cancel hi hj =>
    exact ⟨k, k.mem_next_self, DelayQueue.At.congr hk rfl rfl fun _ => works_cancel hi hj⟩

omit [DecidableEq ι] in
/-- The job that a step of a task puts back is a copy of the task. -/
theorem route_of_places (h : MoveStep c s t m a t')
    (ht : ∀ job ∈ t.copies, job.id c.toKeyConfig = slot.2 → job.route = slot.1)
    (hp : a.places c s.db = some job) (hid : job.id c.toKeyConfig = slot.2) :
    job.route = slot.1 := by
  cases h <;> cases hp <;> exact ht _ (List.mem_singleton_self _) hid

theorem Ticketed.step {e : Ev ι V} (h : Ticketed c slot s) (hc : Calm c slot s e)
    (hs : (system c).step s e = some s') : Ticketed c slot s' := by
  have hticket : ∃ t, s'.At c slot t := by
    obtain ⟨k, hk⟩ := h.ticket
    obtain ⟨k', -, hk'⟩ := h.at_step hk hc hs
    exact ⟨k', hk'⟩
  have hstored : ∀ {a : Act V}, (∀ job, a.writes c s.db = some job → job.id c.toKeyConfig = slot.2 →
      job.route = slot.1) → ∀ job, (apply c s.db a).records.get slot.2 = some job →
      job.route = slot.1 := by
    intro a hw job hj
    rcases get_apply hj with ho | ⟨hj', hid⟩
    · exact h.stored job ho
    · exact hw job hj' hid
  have helse : ∀ {a : Act V}, (∀ job, a.places c s.db = some job → job.id c.toKeyConfig = slot.2 →
      job.route = slot.1) → ∀ r, r ≠ slot.1 → ((apply c s.db a).lanes r).Gone slot.2 := by
    intro a hp r hr
    refine gone_apply c (h.elsewhere r hr) fun job hj hslot => hr ?_
    obtain ⟨hroute, hid⟩ := Prod.mk.inj hslot
    exact hroute.symm.trans (hp job hj hid)
  have hstep := sysStep_of_step hs
  cases hstep with
  | enqueue =>
    refine ⟨hticket, helse fun j hj hid => ?_, h.keyed.step _, hstored fun j hj hid => ?_, h.copies,
      h.brief⟩
    · obtain ⟨-, hj⟩ := Option.ite_none_right_eq_some.1 hj
      cases hj
      exact hc hid
    · obtain ⟨-, hj⟩ := Option.ite_none_right_eq_some.1 hj
      cases hj
      exact hc hid
  | schedule | pushBg | removeBg =>
    refine ⟨hticket, helse ?_, h.keyed.step _, hstored ?_, h.copies, h.brief⟩ <;>
      (intro _ hj; cases hj)
  | advance =>
    refine ⟨hticket, helse (a := .advance _) ?_, h.keyed.step _, hstored ?_, h.copies, h.brief⟩ <;>
      (intro _ hj; cases hj)
  | @move i m a t hm =>
    refine ⟨hticket, helse fun j hj hid => route_of_places hm (h.copies i) hj hid, h.keyed.step _,
      hstored fun j hj hid => ?_, ?_, forall_tasks (fun _ t => t.Brief) (hm.brief (h.brief i)) h.brief⟩
    · obtain ⟨j', hj', ho⟩ := hm.writes_copy hj
      rw [← route_of_order ho]
      exact h.copies i j' hj' ((id_of_order ho _).trans hid)
    · refine forall_tasks (fun _ t => ∀ job ∈ t.copies, job.id c.toKeyConfig = slot.2 →
        job.route = slot.1) (fun j hj hid => ?_) h.copies
      rcases hm.copies hj with ⟨j', hj', ho⟩ | ⟨id, hr⟩ | ⟨error, ttl, rfl⟩ | ⟨k, hk⟩
      · rw [← route_of_order ho]
        exact h.copies i j' hj' ((id_of_order ho _).trans hid)
      · obtain rfl : slot.2 = id := hid.symm.trans (h.keyed id j hr)
        exact h.stored j hr
      · exact (hc hid).1
      · exact h.copies k j hk hid
  | @cancel i k job job' error aborted hi hk =>
    have hjob : ∀ j ∈ (.running job' aborted : Task ι V).copies, j.id c.toKeyConfig = slot.2 →
      j.route = slot.1 := hk ▸ h.copies k
    exact ⟨hticket, h.elsewhere, h.keyed, h.stored,
      forall_tasks (fun _ t => ∀ job ∈ t.copies, job.id c.toKeyConfig = slot.2 →
        job.route = slot.1) hjob (forall_tasks (fun _ t => ∀ job ∈ t.copies,
        job.id c.toKeyConfig = slot.2 → job.route = slot.1) hjob h.copies),
      forall_tasks (fun _ t => t.Brief) trivial (forall_tasks (fun _ t => t.Brief) trivial h.brief)⟩

omit [DecidableEq ι] in
theorem ticketed_init : Ticketed c slot ({} : Sys ι V) where
  ticket := ⟨.absent, .absent rfl rfl fun _ => id⟩
  elsewhere _ _ := { queued := List.not_mem_nil, active := List.not_mem_nil, score := rfl }
  keyed _ _ h := by cases h
  stored _ h := by cases h
  copies _ _ h := by cases h
  brief _ := trivial

theorem ticketed_of_run {as : List (Ev ι V)} {s : Sys ι V}
    (h : (system c).Run (Calm c slot) (system c).init as s) : Ticketed c slot s :=
  h.inv (Ticketed c slot) ticketed_init fun _ _ _ hs hc hstep => hs.step hc hstep

/-- A job fails in the hands of a worker, is put back, and is taken up by another one. -/
def calmRun : List (Ev (Fin 2) String) :=
  [.enqueue { function := "f", key := "k", retries := 1 } 0, .move task₀ (.dequeue none),
    .move task₀ .fetch, .move task₀ (.start 1000),
    .move task₀ (.outcome (.exception "e" "e" (some true))), .move task₀ (.exit 2000 0 2),
    .move task₁ (.dequeue none), .move task₁ .fetch, .move task₁ (.start 3000)]

def calmSlot : Route × String := (none, "_kvq_:global:job:k")

/-- **At most one task works on a job** at a time, and then it is not in line. -/
theorem oneWorker_of_run {as : List (Ev ι V)} {s : Sys ι V}
    (h : (system c).Run (Calm c slot) (system c).init as s) :
    {k | (s.tasks k).Works c slot.2}.Subsingleton ∧
      ∀ k, (s.tasks k).Works c slot.2 → ∀ r, slot.2 ∉ (s.db.lanes r).queued := by
  have hticketed := ticketed_of_run h
  obtain ⟨t, ht⟩ := hticketed.ticket
  refine ⟨fun i hi j hj => Place.unique ht hi hj, fun k hk r => ?_⟩
  by_cases hr : r = slot.1
  · subst hr
    obtain ⟨-, hn, -⟩ := Place.of_held ht hk
    exact List.count_eq_zero.1 hn
  · exact (hticketed.elsewhere r hr).queued

theorem oneWorker_calm :
    ∃ s, (system {}).Run (Calm {} calmSlot) (system {}).init calmRun s ∧
      (s.tasks 1).Works {} calmSlot.2 ∧ {k | (s.tasks k).Works {} calmSlot.2}.Subsingleton := by
  have hrun : ∃ s, (system {}).Run (Calm {} calmSlot) (system {}).init calmRun s ∧
      (s.tasks 1).Works {} calmSlot.2 := Machine.exists_run (by decide +kernel) (by decide +kernel)
  obtain ⟨s, hr, hw⟩ := hrun
  exact ⟨s, hr, hw, (oneWorker_of_run hr).1⟩

end

end Kvdb
