import Kvdb.Tasks.Process
import Kvdb.Tasks.Proof.Lanes

/-!
# What a step of a task can do

`MoveStep c s t m a t'`: the branches of `move`, one constructor each (`moveStep_of_move`);
`SysStep c s e s'`: the steps of the system (`sysStep_of_step`). The invariants of the system take a
step apart with them and never unfold `move`.

`Task.Requeues slot`: the task is about to put the job of this slot back. Only such a task places a
job (`MoveStep.places`), and `Sys.decision` is the step that makes a task one
(`MoveStep.requeues_iff`).
-/

namespace Kvdb

open Redis Lib TaskQueue

variable {ι V : Type} (c : QueueConfig)

/-- In state `s` a task at `t` takes the step `m`, does `a` on the server and is then at `t'`. -/
inductive MoveStep (s : Sys ι V) : Task ι V → Move ι V → Act V → Task ι V → Prop
  | blocked {r : Route} : MoveStep s .idle (.dequeue r) (.dequeue r) .idle
  | dequeued {r : Route} {jobId : String} (h : (s.db.lanes r).queued.getLast? = some jobId) :
    MoveStep s .idle (.dequeue r) (.dequeue r) (.fetched jobId)
  | missing {jobId : String} : MoveStep s (.fetched jobId) .fetch .read .idle
  | fetch {jobId : String} {job : Job V} (h : s.db.records.get jobId = some job) :
    MoveStep s (.fetched jobId) .fetch .read (.starting job)
  | start {job : Job V} {now : ℤ} :
    MoveStep s (.starting job) (.start now) (.update (job.start now) now)
      (.running { job.start now with touched := now } false)
  | outcome {job : Job V} {aborted : Bool} {o : Outcome V} :
    MoveStep s (.running job aborted) (.outcome o) .read (onOutcome job aborted o)
  | finish {job : Job V} {result : Option V} {now : ℤ} :
    MoveStep s (.finishing job result) (.finish now) (.finish job .complete result none now)
      (.completed (job.complete .complete result none now))
  | published {job : Job V} :
    MoveStep s (.completed job) .published (.publish (job.id c.toKeyConfig) job.status) .idle
  | finishRaised {job : Job V} {result : Option V} {now : ℤ} {e e' : V} {b : Option Bool} :
    MoveStep s (.finishing job result) (.raised now e e' b) .read
      (onError (job.complete .complete result none now) e b [.finishFailed e'])
  | notifyRaised {job : Job V} {now : ℤ} {e e' : V} {b : Option Bool} :
    MoveStep s (.completed job) (.raised now e e' b) .read (onError job e b [.finishFailed e'])
  | retry {job : Job V} {error : V} {todo : List (Exit V)} {now : ℤ} {rnd time : ℚ} :
    MoveStep s (.handling job (.retry error :: todo)) (.exit now rnd time)
      (.retry job (some error) now rnd time)
      (.handling (job.reset .queued (some error) now) todo)
  | update {job : Job V} {todo : List (Exit V)} {now : ℤ} {rnd time : ℚ} :
    MoveStep s (.handling job (.update :: todo)) (.exit now rnd time) (.update job now)
      (.handling { job with touched := now } todo)
  | failed {job : Job V} {error : V} {todo : List (Exit V)} {now : ℤ} {rnd time : ℚ} :
    MoveStep s (.handling job (.finishFailed error :: todo)) (.exit now rnd time)
      (.finish job .failed none (some error) now)
      (.handling (job.complete .failed none (some error) now) todo)
  | leave {t : Task ι V} : MoveStep s t .leave .read .idle
  | locked {r : Route} {lock : ℕ} : MoveStep s .idle (.sweep r lock) (.cleanup r lock) .idle
  | sweep {r : Route} {lock : ℕ} :
    MoveStep s .idle (.sweep r lock) (.cleanup r lock) (.snapshot r (s.db.lanes r).active)
  | sweepGet {r : Route} {jobIds : List String} :
    MoveStep s (.snapshot r jobIds) .sweepGet .read
      (.sweeping r (jobIds.map fun jobId => (jobId, s.db.records.get jobId)))
  | sweepMissing {r : Route} {jobId : String} {todo : List (String × Option (Job V))} {error : V}
      {now : ℤ} :
    MoveStep s (.sweeping r ((jobId, none) :: todo)) (.sweepItem error now)
      (.sweepMissing r jobId) (.sweeping r todo)
  | swept {r : Route} {jobId : String} {job : Job V} {todo : List (String × Option (Job V))}
      {error : V} {now : ℤ} (h : job.swept now = true) :
    MoveStep s (.sweeping r ((jobId, some job) :: todo)) (.sweepItem error now)
      (.finish job .aborted none (some error) now) (.sweeping r todo)
  | spared {r : Route} {jobId : String} {job : Job V} {todo : List (String × Option (Job V))}
      {error : V} {now : ℤ} :
    MoveStep s (.sweeping r ((jobId, some job) :: todo)) (.sweepItem error now) .read
      (.sweeping r todo)
  | abort {job : Job V} {error : V} {ttl : ℕ} :
    MoveStep s .idle (.abort job error ttl) (.abort job error ttl)
      (.aborting job error (abortDequeued c s.db job))
  | dropActive {job : Job V} {error : V} {now : ℤ} :
    MoveStep s (.aborting job error 0) (.abortRest now) (.dropActive job) .idle
  | abortFinish {job : Job V} {error : V} {n : ℕ} {now : ℤ} (h : n ≠ 0) :
    MoveStep s (.aborting job error n) (.abortRest now)
      (.finish job .aborted none (some error) now) (.abortLast job)
  | abortLast {job : Job V} : MoveStep s (.abortLast job) .abortLast (.dropAbort job) .idle
  | notAborted {k : ι} : MoveStep s .idle (.poll k) .read .idle
  | poll {k : ι} {job : Job V} {error : V} (h : (s.tasks k).context = some job) :
    MoveStep s .idle (.poll k) .read (.polled k job error)
  | pollFinish {job : Job V} {error : V} {now : ℤ} :
    MoveStep s (.cancelling job error) (.pollFinish now)
      (.finish job .aborted none (some error) now) (.abortLast job)
  | reschedule {k : ι} {job : Job V} {error : Option V} {waitTime : ℚ}
      (h : (s.tasks k).context = some job) :
    MoveStep s .idle (.reschedule k error waitTime) .read (.rescheduling job error waitTime)
  | rescheduleFinish {job : Job V} {error : Option V} {waitTime : ℚ} {now : ℤ} :
    MoveStep s (.rescheduling job error waitTime) (.rescheduleFinish now)
      (.finish job .rescheduled none error now) (.rescheduled job error waitTime)
  | reschedulePut {job : Job V} {error : Option V} {waitTime time : ℚ} {now : ℤ} :
    MoveStep s (.rescheduled job error waitTime) (.reschedulePut now time)
      (.reschedule job error now waitTime time) .idle

variable {c} {s : Sys ι V} {t t' : Task ι V} {m : Move ι V} {a : Act V}

theorem cleanupScript_snd {db : Db V} {r : Route} {lock : ℕ} {jobIds : List String}
    (h : (cleanupScript db r lock).2 = some jobIds) : jobIds = (db.lanes r).active := by
  unfold cleanupScript at h
  split at h
  · cases h
  · exact (Option.some.inj h).symm

theorem moveStep_of_move (h : move c s t m = some (a, t')) : MoveStep c s t m a t' := by
  cases m with
  | dequeue r =>
    simp only [move] at h
    split at h <;> cases h
    cases hq : (s.db.lanes r).queued.getLast? with
    | none => exact .blocked
    | some jobId => exact .dequeued hq
  | fetch =>
    simp only [move] at h
    split at h <;> cases h
    rename_i jobId
    cases hj : s.db.records.get jobId with
    | none => exact .missing
    | some job => exact .fetch hj
  | raised =>
    simp only [move] at h
    split at h <;> cases h
    · exact .finishRaised
    · exact .notifyRaised
  | exit =>
    simp only [move] at h
    split at h <;> cases h
    · exact .retry
    · exact .update
    · exact .failed
  | leave =>
    obtain ⟨rfl, rfl⟩ := Prod.mk.inj (Option.some.inj h)
    exact .leave
  | sweep r lock =>
    simp only [move] at h
    split at h <;> cases h
    split
    · rename_i hs
      rw [cleanupScript_snd hs]
      exact .sweep
    · exact .locked
  | sweepItem error now =>
    simp only [move] at h
    split at h <;> cases h
    · exact .sweepMissing
    · split
      · rename_i hs
        exact .swept hs
      · exact .spared
  | abortRest now =>
    simp only [move] at h
    split at h
    · split at h <;> cases h
      · rename_i hn
        subst hn
        exact .dropActive
      · rename_i hn
        exact .abortFinish hn
    · cases h
  | poll k =>
    simp only [move] at h
    split at h <;> cases h
    rename_i job hk
    cases ha : s.db.abort.get (job.abortId c.toKeyConfig) with
    | none => exact .notAborted
    | some error => exact .poll hk
  | reschedule k error waitTime =>
    simp only [move] at h
    split at h <;> cases h
    rename_i job hk
    exact .reschedule hk
  | _ =>
    simp only [move] at h
    split at h <;> cases h
    constructor

variable (c) [DecidableEq ι]

/-- The steps of the system. -/
inductive SysStep (s : Sys ι V) : Ev ι V → Sys ι V → Prop
  | enqueue {job : Job V} {now : ℤ} :
    SysStep s (.enqueue job now) { s with db := apply c s.db (.enqueue job now) }
  | schedule {r : Route} {lock : ℕ} {now : ℚ} :
    SysStep s (.schedule r lock now) { s with db := apply c s.db (.schedule r lock now) }
  | advance {ms : ℕ} : SysStep s (.advance ms) { s with db := apply c s.db (.advance ms) }
  | pushBg {jobId : String} :
    SysStep s (.pushBg jobId) { s with db := apply c s.db (.pushBg jobId) }
  | removeBg {jobId : String} :
    SysStep s (.removeBg jobId) { s with db := apply c s.db (.removeBg jobId) }
  | move {i : ι} {m : Move ι V} {a : Act V} {t : Task ι V} (h : MoveStep c s (s.tasks i) m a t) :
    SysStep s (.move i m) { db := apply c s.db a, tasks := Function.update s.tasks i t }
  | cancel {i k : ι} {job job' : Job V} {error : V} {aborted : Bool}
      (hi : s.tasks i = .polled k job error) (hk : s.tasks k = .running job' aborted) :
    SysStep s (.cancel i k)
      { s with
        tasks := Function.update (Function.update s.tasks k (.running job' true)) i
          (.cancelling job' error) }

variable {c}

theorem sysStep_of_step {e : Ev ι V} {s' : Sys ι V} (h : (system c).step s e = some s') :
    SysStep c s e s' := by
  obtain ⟨⟨a, tasks⟩, hp, rfl⟩ := Option.map_eq_some_iff.1 h
  cases e with
  | enqueue job now => cases hp; exact .enqueue
  | schedule r lock now => cases hp; exact .schedule
  | advance ms => cases hp; exact .advance
  | pushBg jobId => cases hp; exact .pushBg
  | removeBg jobId => cases hp; exact .removeBg
  | move i m =>
    obtain ⟨⟨a', t⟩, hm, ht⟩ := Option.map_eq_some_iff.1 hp
    cases ht
    exact .move (moveStep_of_move hm)
  | cancel i k =>
    simp only [Sys.plan] at hp
    split at hp
    · rename_i k' job error job' aborted hi hk
      split at hp
      · rename_i hc
        obtain ⟨rfl, -⟩ := hc
        cases hp
        exact .cancel hi hk
      · cases hp
    · cases hp

/-- What holds of every task holds after a step of one of them, if it holds of that one then. -/
theorem forall_tasks (P : ι → Task ι V → Prop) {tasks : ι → Task ι V} {i : ι} {t : Task ι V}
    (hi : P i t) (h : ∀ k, P k (tasks k)) : ∀ k, P k (Function.update tasks i t k) :=
  (Function.forall_update_iff tasks P).2 ⟨hi, fun k _ => h k⟩

omit [DecidableEq ι]

/-! ## Jobs that are put back -/

def Exit.isRetry : Exit V → Bool
  | .retry _ => true
  | _ => false

variable (c) in
/-- The task is about to put the job of this slot back. -/
def Task.Requeues (slot : Route × String) : Task ι V → Prop
  | .handling job todo => job.slot c = slot ∧ todo.any Exit.isRetry = true
  | .rescheduling job _ _ | .rescheduled job _ _ => job.slot c = slot
  | _ => False

instance (slot : Route × String) (t : Task ι V) : Decidable (t.Requeues c slot) := by
  induction t using Task.casesOn <;> (dsimp only [Task.Requeues]; infer_instance)

/-- The handler of this outcome takes the branch of `job.retry`. -/
def Outcome.retries (job : Job V) (aborted : Bool) : Outcome V → Bool
  | .returned _ => false
  | .jobError _ _ retryable | .exception _ _ retryable => retriesOnError job retryable
  | .cancelled _ retryable => retriesOnCancel job aborted retryable

variable (c) in
/-- The slot of the job that a step decides to put back: an exception handler takes the branch of
`job.retry`, or `_reschedule` begins. -/
def Sys.decision (s : Sys ι V) (t : Task ι V) : Move ι V → Option (Route × String)
  | .outcome o =>
    match t with
    | .running job aborted => if o.retries job aborted then some (job.slot c) else none
    | _ => none
  | .raised _ _ _ retryable =>
    match t with
    | .finishing job _ | .completed job =>
      if retriesOnError job retryable then some (job.slot c) else none
    | _ => none
  | .reschedule k _ _ => (s.tasks k).context.map fun job => job.slot c
  | _ => none

theorem requeues_onError {job : Job V} {e : V} {b : Option Bool} {skip : List (Exit V)}
    {slot : Route × String} (hs : skip.any Exit.isRetry = false) :
    (onError job e b skip : Task ι V).Requeues c slot ↔
      retriesOnError job b = true ∧ job.slot c = slot := by
  have hle : ¬ job.retries < job.attempts ↔ job.attempts ≤ job.retries := not_lt
  unfold onError
  split
  · rename_i hlt
    simp [Task.Requeues, Exit.isRetry, retriesOnError, hlt]
  · rename_i hlt
    have hr := hle.1 hlt
    cases b with
    | none => simp [Task.Requeues, retriesOnError]
    | some b =>
      cases b
      · simp [Task.Requeues, retriesOnError, hs]
      · simp [Task.Requeues, Exit.isRetry, retriesOnError, hr]

theorem requeues_onOutcome {job : Job V} {aborted : Bool} {o : Outcome V}
    {slot : Route × String} :
    (onOutcome job aborted o : Task ι V).Requeues c slot ↔
      o.retries job aborted = true ∧ job.slot c = slot := by
  cases o with
  | returned result => simp [onOutcome, Task.Requeues, Outcome.retries]
  | jobError e e' b => exact requeues_onError rfl
  | exception e e' b => exact requeues_onError rfl
  | cancelled e b =>
    simp only [onOutcome, Outcome.retries]
    split
    · rename_i hr
      simp [Task.Requeues, Exit.isRetry, hr]
    · rename_i hr
      simp [Task.Requeues, hr]

/-- **Only a task that has decided to do so puts a job back.** -/
theorem MoveStep.places (h : MoveStep c s t m a t') {job : Job V}
    (hp : a.places c s.db = some job) : t.Requeues c (job.slot c) := by
  cases h <;> cases hp
  · exact ⟨rfl, rfl⟩
  · rfl

/-- A task that is about to put a job back was so before the step, or the step decides it. -/
theorem MoveStep.requeues (h : MoveStep c s t m a t') {slot : Route × String}
    (ht : t'.Requeues c slot) : t.Requeues c slot ∨ s.decision c t m = some slot := by
  cases h with
  | outcome =>
    obtain ⟨hr, hs⟩ := requeues_onOutcome.1 ht
    exact .inr (by simp only [Sys.decision, hr, ↓reduceIte, hs])
  | finishRaised | notifyRaised =>
    obtain ⟨hr, hs⟩ := (requeues_onError rfl).1 ht
    have hr' : retriesOnError _ _ = true := hr
    exact .inr ((if_pos hr').trans (congrArg some hs))
  | retry | update | failed =>
    obtain ⟨hs, hx⟩ := ht
    exact .inl ⟨hs, by simp [hx]⟩
  | reschedule hk =>
    have hs : Job.slot c _ = slot := ht
    exact .inr (by simp only [Sys.decision, hk, Option.map_some, hs])
  | rescheduleFinish => exact .inl ht
  | _ => exact ht.elim

/-- And such a decision makes it one. -/
theorem MoveStep.requeues_of_decision (h : MoveStep c s t m a t') {slot : Route × String}
    (hd : s.decision c t m = some slot) : t'.Requeues c slot := by
  cases h with
  | outcome =>
    simp only [Sys.decision, Option.ite_none_right_eq_some, Option.some.injEq] at hd
    exact requeues_onOutcome.2 hd
  | finishRaised | notifyRaised =>
    simp only [Sys.decision, Option.ite_none_right_eq_some, Option.some.injEq] at hd
    exact (requeues_onError rfl).2 hd
  | reschedule hk =>
    simp only [Sys.decision, hk, Option.map_some, Option.some.injEq] at hd
    exact hd
  | _ => cases hd

end Kvdb
