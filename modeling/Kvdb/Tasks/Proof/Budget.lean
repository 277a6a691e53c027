import Kvdb.Tasks.Proof.Attempts

/-!
# The retry budget of a job

`Persists`: the runs in question, in which the job is submitted without a time, every attempt ends in an
error that may be retried, and nobody aborts or reschedules the job or crashes with it. Two things stop
such a job all the same. A sweep that has listed it as active finishes it as `ABORTED` once it has failed.
And `next_retry_delay` raises from the attempt 1025 on, so the handler leaves the job where it is.

`inBudget_of_run`: where neither happens (`WithinBudget`), the function is started as often as
`Job.budget` says, `retries + 1` times for a new job, and the job is then `FAILED` for good.
-/

namespace Kvdb

open Redis Lib TaskQueue

variable {ι V : Type} (c : QueueConfig) (slot : Route × String)

/-! ## The runs -/

/-- An exception, a timeout or a `JobError`, and `should_retry_on_error` says yes. -/
def Outcome.retryable : Outcome V → Bool
  | .jobError _ _ (some true) | .exception _ _ (some true) => true
  | _ => false

/-- `next_retry_delay` raises, and so does the handler. -/
def Task.overflows : Task ι V → Bool
  | .handling job (.retry _ :: _) => (job.nextRetryDelay? 1).isNone
  | _ => false

/-- No retry of the job overflows. -/
def Job.Fits (job : Job V) : Prop :=
  job.retryBackoff.truthy = true → job.retries ≤ 1024 ∨ job.retries ≤ job.attempts

instance (job : Job V) : Decidable job.Fits := inferInstanceAs (Decidable (_ → _))

/-- The job is submitted on one route and without a time. A task that has it in hand goes on with it
unless its handler raises, and its function ends in an error that may be retried. -/
def Persists (s : Sys ι V) : Ev ι V → Prop
  | .enqueue job _ =>
    job.id c.toKeyConfig = slot.2 → job.route = slot.1 ∧ job.scheduled = 0
  | .cancel _ k => ¬ (s.tasks k).Has c slot.2
  | .move i (.outcome o) => (s.tasks i).Has c slot.2 → o.retryable = true
  | .move i (.exit ..) => (s.tasks i).Has c slot.2 → (s.tasks i).overflows = false
  | .move i .leave => (s.tasks i).Has c slot.2 → (s.tasks i).overflows = true
  | .move _ (.abort job _ _) => job.id c.toKeyConfig ≠ slot.2
  | .move _ (.reschedule k _ _) =>
    (s.tasks k).context.map (fun job => job.id c.toKeyConfig) ≠ some slot.2
  | _ => True

instance (s : Sys ι V) (e : Ev ι V) : Decidable (Persists c slot s e) := by
  induction e using Ev.casesOn with
  | move i m => induction m using Move.casesOn <;> (dsimp only [Persists]; infer_instance)
  | _ => dsimp only [Persists]; infer_instance

/-- No retry of the job overflows, a delayed one ends at a time that comes, and a sweep takes the job
only when it is gone and its record does not outlive it. -/
def WithinBudget (s : Sys ι V) : Ev ι V → Prop
  | .enqueue job _ => job.accepted c s.db → job.id c.toKeyConfig = slot.2 → job.Fits
  | .move i (.exit _ rnd time) =>
    match s.tasks i with
    | .handling job (.retry _ :: _) =>
      job.slot c = slot → job.nextRetryDelay rnd ≠ 0 → 1 ≤ time + job.nextRetryDelay rnd
    | _ => True
  | .move i (.sweepItem _ now) =>
    match s.tasks i with
    | .sweeping _ ((jobId, none) :: _) => jobId = slot.2 → (s.db.lanes slot.1).Gone slot.2
    | .sweeping _ ((_, some job) :: _) =>
      job.swept now = true → job.id c.toKeyConfig = slot.2 →
        (s.db.lanes slot.1).Gone slot.2 ∧ job.ttl < 0
    | _ => True
  | _ => True

instance (s : Sys ι V) (e : Ev ι V) : Decidable (WithinBudget c slot s e) := by
  induction e using Ev.casesOn with
  | move i m =>
    induction m using Move.casesOn
    case exit =>
      dsimp only [WithinBudget]
      generalize s.tasks i = t
      induction t using Task.casesOn
      case handling todo =>
        induction todo using List.casesOn with
        | nil => exact .isTrue trivial
        | cons exit _ => induction exit using Exit.casesOn <;> (dsimp only; infer_instance)
      all_goals exact .isTrue trivial
    case sweepItem =>
      dsimp only [WithinBudget]
      generalize s.tasks i = t
      induction t using Task.casesOn
      case sweeping todo =>
        induction todo using List.casesOn with
        | nil => exact .isTrue trivial
        | cons x _ =>
          induction x using Prod.casesOn with
          | mk _ job => induction job using Option.casesOn <;> (dsimp only; infer_instance)
      all_goals exact .isTrue trivial
    all_goals exact .isTrue trivial
  | _ => dsimp only [WithinBudget]; infer_instance

/-- The function is started within the budget. Until the job has failed, it is in line, waits for a
time that comes, or a task has it in hand; it fails when the budget is used up, and is not retried. -/
structure Life.InBudget (l : Life V) (s : Sys ι V) : Prop where
  bound : l.starts ≤ l.job.budget
  alive : l.failed = false → (slot.2 ∈ (s.db.lanes slot.1).queued ∨
    (s.db.lanes slot.1).Promotable slot.2) ∨ ∃ k, (s.tasks k).Has c slot.2
  ended : l.failed = true → l.starts = l.job.budget ∧ l.retried + 1 = l.starts ∧
    (s.db.lanes slot.1).Gone slot.2 ∧ (∀ k, ¬ (s.tasks k).Has c slot.2) ∧
      ∀ job, s.db.records.get slot.2 = some job → job.status = .failed

/-! ## The invariant -/

/-- The next steps of the task neither report the job as complete nor abort it. -/
def Task.Plain (id : String) : Task ι V → Prop
  | .completed job | .aborting job _ _ => job.id c.toKeyConfig ≠ id
  | _ => True

/-- The invariant of the steps. -/
structure Budgeted (s : Sys ι V) (o : Option (Life V)) : Prop where
  course : Course c slot s o
  elsewhere : ∀ r, r ≠ slot.1 → (s.db.lanes r).Gone slot.2
  plain : ∀ k, (s.tasks k).Plain c slot.2
  fits : ∀ l ∈ o, l.job.Fits

variable {c slot} {s s' : Sys ι V} {l : Life V} {job : Job V} {t t' : Task ι V} {m : Move ι V}
  {a : Act V} {o : Option (Life V)}

theorem Course.inBudget (h : Course c slot s (some l)) : l.InBudget c slot s := by
  cases h with
  | ready hq _ _ _ hs _ hf =>
    refine ⟨hs.le, fun _ => .inl hq.queued_or_promotable, fun he => ?_⟩
    rw [hf] at he
    cases he
  | @held _ i _ ha _ hf =>
    refine ⟨?_, fun _ => .inr ⟨i, ha.has⟩, fun he => by simp [hf] at he⟩
    generalize s.tasks i = t at ha
    cases ha with
    | fetched _ _ hs | starting _ hs | retry _ hs => exact hs.le
    | running _ hs => exact hs
    | fail _ hs => exact hs.le
  | failed hg hfree hs hr hrec hf =>
    refine ⟨hs.le, fun he => ?_, fun _ => ⟨hs, hr, hg, hfree, hrec⟩⟩
    rw [hf] at he
    cases he

/-! ## Copies and counts -/

namespace Life.Copy

theorem start (h : l.Copy c slot job) (now : ℤ) :
    l.start.Copy c slot { job.start now with touched := now } where
  slot := h.slot
  scheduled := h.scheduled
  retries := h.retries
  backoff := h.backoff
  attempts := by
    have ha := h.attempts
    simp only [Job.start, Life.start]
    omega

theorem retry (h : l.Copy c slot job) (error : Option V) (now : ℤ) :
    l.retry.Copy c slot (job.reset .queued error now) :=
  ⟨h.slot, h.scheduled, h.retries, h.backoff, h.attempts⟩

/-- An attempt after which the handler finishes the job is the last one. -/
theorem last (h : l.Copy c slot job) (hs : l.starts ≤ l.job.budget) (hr : l.retried + 1 = l.starts)
    (hlt : job.retries < job.attempts) : l.starts = l.job.budget := by
  have ha := h.attempts
  have hret := h.retries
  unfold Job.budget at hs ⊢
  omega

/-- An attempt after which it does not is not. -/
theorem more (h : l.Copy c slot job) (hle : job.attempts ≤ job.retries) :
    l.starts < l.job.budget := by
  have ha := h.attempts
  have hret := h.retries
  unfold Job.budget
  omega

/-- A retry within the budget does not overflow. -/
theorem not_overflows (h : l.Copy c slot job) (hf : l.job.Fits) (hs : l.starts < l.job.budget)
    (hr : l.retried + 1 = l.starts) : (job.nextRetryDelay? 1).isNone = false := by
  have ha := h.attempts
  have hret := h.retries
  cases hb : job.retryBackoff.truthy with
  | false =>
    rw [job.nextRetryDelay?_of_falsy hb]
    rfl
  | true =>
    have hfit := hf (h.backoff ▸ hb)
    unfold Job.budget at hs
    have hmax : ¬ 1024 ≤ max (job.attempts - 1) 0 := by omega
    simp only [Job.nextRetryDelay?, if_pos hb, exponentialBackoff?, if_neg hmax]
    rfl

end Life.Copy

/-! ## The steps of a task that has the job in hand -/

/-- A failed attempt goes to the exit that its copy of the job decides on. -/
theorem attempting_onError {record : Option (Cell (Job V))} {e : V} (skip : List (Exit V))
    (hc : l.Copy c slot job) (hs : l.starts ≤ l.job.budget) (hr : l.retried + 1 = l.starts) :
    Attempting c slot l record (onError job e (some true) skip : Task ι V) := by
  unfold onError
  split
  · rename_i hlt
    exact .fail hc (hc.last hs hr hlt) hr
  · rename_i hle
    exact .retry hc (hc.more (not_lt.1 hle)) hr

theorem attempting_onOutcome {record : Option (Cell (Job V))} {aborted : Bool} {o : Outcome V}
    (ho : o.retryable = true) (hc : l.Copy c slot job) (hs : l.starts ≤ l.job.budget)
    (hr : l.retried + 1 = l.starts) :
    Attempting c slot l record (onOutcome job aborted o : Task ι V) := by
  cases o with
  | returned | cancelled => cases ho
  | jobError e e' b | exception e e' b =>
    cases b with
    | none => cases ho
    | some b =>
      cases b
      · cases ho
      · simp only [onOutcome]
        exact attempting_onError _ hc hs hr

/-- `retry` puts the job in line, or lets it wait for a time that comes. -/
theorem ready_retry {error : Option V} {now : ℤ} {rnd time : ℚ} (hc : l.Copy c slot job)
    (hq : (s.db.lanes slot.1).Served slot.2)
    (ht : job.nextRetryDelay rnd ≠ 0 → 1 ≤ time + job.nextRetryDelay rnd) :
    ((apply c s.db (.retry job error now rnd time)).lanes slot.1).Ready slot.2 := by
  have hroute : job.route = slot.1 := congrArg Prod.fst hc.slot
  have hid : job.id c.toKeyConfig = slot.2 := congrArg Prod.snd hc.slot
  rw [apply_lanes]
  simp only [laneOp, hroute, ↓reduceIte, hid]
  split
  · rename_i hd
    exact hq.delay (ht hd)
  · rw [hc.scheduled]
    exact hq.requeue

section
variable {i : ι} {db : Db V}

theorem free_update [DecidableEq ι] (ht : ¬ t'.Has c slot.2)
    (hfree : ∀ k, k ≠ i → ¬ (s.tasks k).Has c slot.2) :
    Sys.Free c { db, tasks := Function.update s.tasks i t' } slot.2 := by
  intro k
  by_cases hk : k = i
  · subst hk
    simpa only [Function.update_self] using ht
  · simpa only [Function.update_of_ne hk] using hfree k hk

theorem course_held [DecidableEq ι] (hq : (db.lanes slot.1).Served slot.2)
    (ha : Attempting c slot l (db.records slot.2) t')
    (hfree : ∀ k, k ≠ i → ¬ (s.tasks k).Has c slot.2) (hf : l.failed = false) :
    Course c slot { db, tasks := Function.update s.tasks i t' } (some l) := by
  refine .held (i := i) hq ?_ (fun k hk => ?_) hf
  · simpa only [Function.update_self] using ha
  · simpa only [Function.update_of_ne hk] using hfree k hk

/-- After its step a task is where `move` says. -/
theorem task_of_step [DecidableEq ι] {tasks : ι → Task ι V}
    (hm : move c s (s.tasks i) m = some (a, t))
    (h : (system c).step s (.move i m) = some { db, tasks }) : tasks i = t := by
  simp only [system, Sys.plan, hm, Option.map_some, Option.some.injEq, Sys.mk.injEq] at h
  rw [← h.2, Function.update_self]

/-- The handler of a job that fits does not raise. -/
theorem Attempting.not_overflows {record : Option (Cell (Job V))}
    (h : Attempting c slot l record t) (hfits : l.job.Fits) : t.overflows = false := by
  cases h with
  | retry hc hs hr => exact hc.not_overflows hfits hs hr
  | _ => rfl

/-- The start of the function is one more attempt. -/
theorem course_start [DecidableEq ι] {now : ℤ} (hq : (s.db.lanes slot.1).Served slot.2)
    (hc : l.Copy c slot job) (hlt : l.starts < l.job.budget) (hr : l.retried = l.starts)
    (hfree : ∀ k, k ≠ i → ¬ (s.tasks k).Has c slot.2) (hf : l.failed = false) :
    Course c slot { db := apply c s.db (.update (job.start now) now)
                    tasks := Function.update s.tasks i
                      (.running { job.start now with touched := now } false) } (some l.start) := by
  refine course_held ?_ (.running (hc.start now) ?_ ?_) hfree hf
  · rw [apply_lanes]
    exact hq
  · show ((l.starts + 1 : ℕ) : ℤ) ≤ _
    push_cast
    exact hlt
  · show l.retried + 1 = l.starts + 1
    rw [hr]

theorem course_retry [DecidableEq ι] {error : V} {now : ℤ} {rnd time : ℚ}
    (hq : (s.db.lanes slot.1).Served slot.2) (hc : l.Copy c slot job)
    (hlt : l.starts < l.job.budget) (hr : l.retried + 1 = l.starts)
    (hfree : ∀ k, k ≠ i → ¬ (s.tasks k).Has c slot.2) (hf : l.failed = false)
    (ht : job.nextRetryDelay rnd ≠ 0 → 1 ≤ time + job.nextRetryDelay rnd) :
    Course c slot { db := apply c s.db (.retry job (some error) now rnd time)
                    tasks := Function.update s.tasks i
                      (.handling (job.reset .queued (some error) now) []) } (some l.retry) := by
  have hrec : (apply c s.db (.retry job (some error) now rnd time)).records slot.2 =
      some ⟨job.reset .queued (some error) now, none⟩ := by
    rw [apply, retryTx_records]
    exact (TtlMap.set_apply ..).trans (if_pos (congrArg Prod.snd hc.slot).symm)
  exact .ready (ready_retry hc hq ht) (free_update (fun h => by cases h.1) hfree) hrec
    (hc.retry (some error) now) hlt hr hf

/-- The last attempt ends the job. -/
theorem course_fail [DecidableEq ι] {error : V} {now : ℤ}
    (hq : (s.db.lanes slot.1).Served slot.2) (hc : l.Copy c slot job)
    (heq : l.starts = l.job.budget) (hr : l.retried + 1 = l.starts)
    (hfree : ∀ k, k ≠ i → ¬ (s.tasks k).Has c slot.2) :
    Course c slot { db := apply c s.db (.finish job .failed none (some error) now)
                    tasks := Function.update s.tasks i
                      (.handling (job.complete .failed none (some error) now) []) }
      (some l.fail) := by
  have hroute : job.route = slot.1 := congrArg Prod.fst hc.slot
  have hid : job.id c.toKeyConfig = slot.2 := congrArg Prod.snd hc.slot
  refine .failed ?_ (free_update (fun h => by cases h.1) hfree) heq hr (fun job' hj => ?_) rfl
  · rw [apply_lanes]
    simp only [laneOp, hroute, ↓reduceIte, hid]
    exact hq.drop
  · -- the record is deleted if the `ttl` is negative
    have hget := finishTx_get c s.db (job.complete .failed none (some error) now)
    have hj' := hget.symm.trans ((congrArg _ hid).trans hj)
    split at hj' <;> cases hj'
    rfl

/-- **A step of the task that has the job in hand.** -/
theorem course_attempt [DecidableEq ι] (hq : (s.db.lanes slot.1).Served slot.2)
    (ha : Attempting c slot l (s.db.records slot.2) (s.tasks i))
    (hfree : ∀ k, k ≠ i → ¬ (s.tasks k).Has c slot.2) (hf : l.failed = false)
    (hfits : l.job.Fits) (hp : Persists c slot s (.move i m))
    (hb : WithinBudget c slot s (.move i m)) (hm : MoveStep c s (s.tasks i) m a t')
    (hs : (system c).step s (.move i m) =
      some { db := apply c s.db a, tasks := Function.update s.tasks i t' }) :
    Course c slot { db := apply c s.db a, tasks := Function.update s.tasks i t' }
      (noteLife c slot (some l) s (.move i m)) := by
  have hhas := ha.has
  have hleave : m ≠ .leave := by
    rintro rfl
    cases (hp hhas).symm.trans (ha.not_overflows hfits)
  generalize hi : s.tasks i = t at ha hm hhas
  cases ha with
  | @fetched job hrec hc hlt hr =>
    have hj : s.db.records.get slot.2 = some job := by simp [TtlMap.get, hrec]
    cases hm with
    | missing =>
      have hidle := task_of_step (a := .read) (t := .starting job) (by simp [move, hi, hj]) hs
      rw [Function.update_self] at hidle
      cases hidle
    | fetch hj' =>
      cases hj.symm.trans hj'
      exact course_held hq (.starting hc hlt hr) hfree hf
    | leave => exact absurd rfl hleave
  | @starting job hc hlt hr =>
    cases hm with
    | start =>
      simp only [noteLife, hi, hc.slot, ↓reduceIte, Option.map_some]
      exact course_start hq hc hlt hr hfree hf
    | leave => exact absurd rfl hleave
  | @running job aborted hc hle hr =>
    cases hm with
    | outcome =>
      simp only [Persists, hi] at hp
      exact course_held hq (attempting_onOutcome (hp hhas) hc hle hr) hfree hf
    | leave => exact absurd rfl hleave
  | @retry job error hc hlt hr =>
    cases hm with
    | retry =>
      simp only [noteLife, hi, hc.slot, ↓reduceIte, Option.map_some]
      simp only [WithinBudget, hi] at hb
      exact course_retry hq hc hlt hr hfree hf (hb hc.slot)
    | leave => exact absurd rfl hleave
  | @fail job error hc heq hr =>
    cases hm with
    | failed =>
      simp only [noteLife, hi, hc.slot, ↓reduceIte, Option.map_some]
      exact course_fail hq hc heq hr hfree
    | leave => exact absurd rfl hleave

/-! ## The steps of the other tasks -/

/-- A task that has the job in hand is attempting it. -/
theorem Course.attempting (h : Course c slot s o) (hh : (s.tasks i).Has c slot.2) :
    ∃ l, o = some l ∧ (s.db.lanes slot.1).Served slot.2 ∧
      Attempting c slot l (s.db.records slot.2) (s.tasks i) ∧
        (∀ k, k ≠ i → ¬ (s.tasks k).Has c slot.2) ∧ l.failed = false := by
  cases h with
  | unknown _ hfree | ready _ hfree | failed _ hfree => exact absurd hh (hfree i)
  | @held l k hq ha hfree hf =>
    have hik : i = k := by
      by_contra hne
      exact hfree i hne hh
    subst hik
    exact ⟨l, rfl, hq, ha, hfree, hf⟩

/-- A task that names the job has it in hand, or begins or ends an abort of it, or sweeps it. -/
theorem MoveStep.names (h : MoveStep c s t m a t') {id : String} (hn : a.names c s.db = some id) :
    t.Has c id ∨ ¬ t.Plain c id ∨
      (∃ job error ttl, m = .abort job error ttl ∧ job.id c.toKeyConfig = id) ∨
      (∃ r todo error now, t = .sweeping r ((id, none) :: todo) ∧ m = .sweepItem error now ∧
        a = .sweepMissing r id) ∨
      ∃ r jobId job todo error now, t = .sweeping r ((jobId, some job) :: todo) ∧
        m = .sweepItem error now ∧ job.swept now = true ∧
          a = .finish job .aborted none (some error) now ∧ job.id c.toKeyConfig = id := by
  cases h with
  | start | finish | pollFinish | rescheduleFinish | reschedulePut =>
    exact .inl (Option.some.inj hn)
  | retry | update | failed => exact .inl ⟨rfl, Option.some.inj hn⟩
  | dropActive => exact .inr (.inl fun hp => hp (Option.some.inj hn))
  | abortFinish hne => exact .inl ⟨hne, Option.some.inj hn⟩
  | abort => exact .inr (.inr (.inl ⟨_, _, _, rfl, Option.some.inj hn⟩))
  | sweepMissing =>
    cases hn
    exact .inr (.inr (.inr (.inl ⟨_, _, _, _, rfl, rfl, rfl⟩)))
  | swept hs =>
    exact .inr (.inr (.inr (.inr ⟨_, _, _, _, _, _, rfl, rfl, hs, rfl, Option.some.inj hn⟩)))
  | _ => cases hn

theorem MoveStep.plain (h : MoveStep c s t m a t') {id : String}
    (hfin : ∀ job result, t = .finishing job result → job.id c.toKeyConfig ≠ id)
    (habort : ∀ job error ttl, m = .abort job error ttl → job.id c.toKeyConfig ≠ id) :
    t'.Plain c id := by
  have honError : ∀ (job : Job V) (e : V) (b : Option Bool) (skip : List (Exit V)),
      (onError job e b skip : Task ι V).Plain c id := by
    intro job e b skip
    obtain ⟨job', todo, ho, -⟩ := onError_eq ι c job e b skip
    rw [ho]
    trivial
  cases h with
  | finish =>
    have hid := hfin _ _ rfl
    exact hid
  | abort => exact habort _ _ _ rfl
  | @outcome job aborted o =>
    cases o with
    | returned => trivial
    | jobError | exception => exact honError ..
    | cancelled =>
      simp only [onOutcome]
      split <;> trivial
  | finishRaised | notifyRaised => exact honError ..
  | _ => trivial

theorem noteLife_other (hh : ¬ (s.tasks i).Has c slot.2) : noteLife c slot o s (.move i m) = o := by
  generalize hi : s.tasks i = t at hh
  cases m with
  | start =>
    simp only [noteLife, hi]
    split
    · rename_i job
      exact if_neg fun hs => hh (show job.id c.toKeyConfig = slot.2 from congrArg Prod.snd hs)
    · rfl
  | exit =>
    simp only [noteLife, hi]
    split
    · exact if_neg fun hs => hh ⟨rfl, congrArg Prod.snd hs⟩
    · exact if_neg fun hs => hh ⟨rfl, congrArg Prod.snd hs⟩
    · rfl
  | _ => rfl

/-- The task that takes the job up has it in hand. -/
theorem course_dequeue [DecidableEq ι] (h : Course c slot s o)
    (hq : (s.db.lanes slot.1).queued.getLast? = some slot.2) :
    Course c slot { db := apply c s.db (.dequeue slot.1)
                    tasks := Function.update s.tasks i (.fetched slot.2) } o := by
  have hmem := List.mem_of_getLast? hq
  cases h with
  | unknown hg | failed hg => exact absurd hmem hg.queued
  | held hs => exact absurd hmem hs.queued
  | ready hready hfree hrec hc hs hr hf =>
    refine course_held ?_ (.fetched hrec hc hs hr) (fun k _ => hfree k) hf
    rw [apply_lanes]
    simp only [laneOp, ↓reduceIte]
    exact hready.serve hq

/-- A sweep that is within the budget meets a job that is gone. -/
theorem course_sweep [DecidableEq ι] (h : Course c slot s o) (hg : (s.db.lanes slot.1).Gone slot.2)
    (hplaces : a.places c s.db = none)
    (hrec : ∀ job, (apply c s.db a).records.get slot.2 = some job →
      s.db.records.get slot.2 = some job) (ht : ¬ t'.Has c slot.2) :
    Course c slot { db := apply c s.db a, tasks := Function.update s.tasks i t' } o := by
  refine h.gone hg (gone_apply c hg fun job hj => ?_)
    (free_update ht fun k _ => (h.of_gone hg).1 k) hrec
  rw [hplaces] at hj
  cases hj

/-- **A step of a task that does not have the job in hand, then or after it.** -/
theorem course_other [DecidableEq ι] (h : Course c slot s o) (hplain : (s.tasks i).Plain c slot.2)
    (hp : Persists c slot s (.move i m)) (hb : WithinBudget c slot s (.move i m))
    (hh : ¬ (s.tasks i).Has c slot.2) (hh' : ¬ t'.Has c slot.2)
    (hm : MoveStep c s (s.tasks i) m a t')
    (hs : (system c).step s (.move i m) =
      some { db := apply c s.db a, tasks := Function.update s.tasks i t' }) :
    Course c slot { db := apply c s.db a, tasks := Function.update s.tasks i t' } o := by
  by_cases hn : a.names c s.db = some slot.2
  · rcases hm.names hn with hhas | hnp | ⟨job, error, ttl, rfl, hid⟩ |
      ⟨r, todo, error, now, hi, rfl, rfl⟩ | ⟨r, jobId, job, todo, error, now, hi, rfl, hsw, rfl, hid⟩
    · exact absurd hhas hh
    · exact absurd hplain hnp
    · exact absurd hid hp
    · simp only [WithinBudget, hi] at hb
      refine course_sweep h (hb trivial) rfl (fun job hj => ?_) hh'
      exact (get_apply hj).resolve_right fun hw => by cases hw.1
    · simp only [WithinBudget, hi] at hb
      obtain ⟨hg, httl⟩ := hb hsw hid
      refine course_sweep h hg rfl (fun job' hj => ?_) hh'
      have hget := finishTx_get c s.db (job.complete .aborted none (some error) now)
      rw [← hid] at hj
      cases (hget.trans (if_neg (not_le.2 httl))).symm.trans hj
  · refine h.aside (aside_of_names hn ?_ fun k => ?_)
    · rintro rfl hq
      generalize hi : s.tasks i = t at hm
      have hidle : t = .idle ∧ m = .dequeue slot.1 := by
        cases hm <;> exact ⟨rfl, rfl⟩
      obtain ⟨rfl, rfl⟩ := hidle
      have hfetched := task_of_step (a := .dequeue slot.1) (t := .fetched slot.2)
        (by simp [move, hi, hq]) hs
      rw [Function.update_self] at hfetched
      exact hh' (hfetched ▸ rfl)
    · by_cases hk : k = i
      · subst hk
        rw [Function.update_self]
        exact .inr ⟨hh, hh'⟩
      · exact .inl (Function.update_of_ne hk ..)

/-! ## Every step -/

/-- An accepted job is one that was gone. -/
theorem Course.gone_of_accepted (h : Course c slot s o) (ha : job.accepted c s.db)
    (hslot : job.slot c = slot) : (s.db.lanes slot.1).Gone slot.2 := by
  have hscore : (s.db.lanes slot.1).incomplete.score slot.2 = none := by
    subst hslot
    simp only [Job.accepted, enqueueAccepts, decide_eq_true_eq] at ha
    exact ha.1
  have hnot : ¬ (s.db.lanes slot.1).Scored slot.2 := by
    rintro ⟨x, hx⟩
    rw [hscore] at hx
    cases hx
  cases h with
  | unknown hg | failed hg => exact hg
  | ready hq => exact absurd hq.scored hnot
  | held hq => exact absurd ⟨0, hq.score⟩ hnot

theorem course_enqueue {now : ℤ} (h : Course c slot s o)
    (hp : Persists c slot s (.enqueue job now)) :
    Course c slot { s with db := apply c s.db (.enqueue job now) }
      (noteLife c slot o s (.enqueue job now)) := by
  by_cases ha : job.accepted c s.db ∧ job.slot c = slot
  · obtain ⟨hacc, hslot⟩ := ha
    have hg := h.gone_of_accepted hacc hslot
    have hroute : job.route = slot.1 := congrArg Prod.fst hslot
    have hid : job.id c.toKeyConfig = slot.2 := congrArg Prod.snd hslot
    have hscheduled := (hp hid).2
    have hacc' : enqueueAccepts s.db slot.1 slot.2 (job.abortId c.toKeyConfig) = true := by
      rw [← hroute, ← hid]
      exact hacc
    have haccepts : enqueueAccepts s.db job.route (job.id c.toKeyConfig)
        (job.abortId c.toKeyConfig) = true := hacc
    have hrec : (apply c s.db (.enqueue job now)).records slot.2 =
        some ⟨enqueuedJob job now, none⟩ := by
      rw [apply, enqueue_records, if_pos haccepts]
      exact (TtlMap.set_apply ..).trans (if_pos hid.symm)
    simp only [noteLife, if_pos (And.intro hacc hslot)]
    refine .ready ?_ (h.of_gone hg).1 hrec
      ⟨hslot, hscheduled, rfl, rfl, by simp [enqueuedJob]⟩ ?_ rfl rfl
    · rw [apply_lanes]
      simp only [laneOp, hroute, hid, hacc', and_self, ↓reduceIte, hscheduled, Int.cast_zero]
      exact DelayQueue.ready_add hg
    · show ((0 : ℕ) : ℤ) < job.budget
      unfold Job.budget
      omega
  · simp only [noteLife, if_neg ha]
    refine h.aside (aside_of_names (fun hn => ha ?_) (by simp) fun k => .inl rfl)
    simp only [Act.names, Option.ite_none_right_eq_some, Option.some.injEq] at hn
    exact ⟨hn.1, Prod.ext (hp hn.2).1 hn.2⟩

/-- The job is put back on its own route. -/
theorem Course.route_of_places (h : Course c slot s o) (hm : MoveStep c s (s.tasks i) m a t')
    (hj : a.places c s.db = some job) (hid : job.id c.toKeyConfig = slot.2) :
    job.route = slot.1 := by
  have hreq := hm.places hj
  have hhas : (s.tasks i).Has c slot.2 := by
    rw [← hid]
    exact has_of_requeues hreq
  obtain ⟨l, -, -, ha, -⟩ := h.attempting hhas
  generalize s.tasks i = t at ha hreq
  cases ha with
  | retry hc | fail hc => exact congrArg Prod.fst (hreq.1.symm.trans hc.slot)
  | _ => exact hreq.elim

theorem fits_note (h : ∀ l ∈ o, l.job.Fits) : ∀ l ∈ noteLife c slot o s (.move i m), l.job.Fits := by
  have hmap : ∀ f : Life V → Life V, (∀ l, (f l).job = l.job) → ∀ l ∈ o.map f, l.job.Fits := by
    intro f hf l hl
    obtain ⟨l', hl', rfl⟩ := Option.map_eq_some_iff.1 hl
    rw [hf]
    exact h l' hl'
  cases m with
  | start =>
    simp only [noteLife]
    split
    · split
      · exact hmap _ fun _ => rfl
      · exact h
    · exact h
  | exit =>
    simp only [noteLife]
    split
    · split
      · exact hmap _ fun _ => rfl
      · exact h
    · split
      · exact hmap _ fun _ => rfl
      · exact h
    · exact h
  | _ => exact h

/-- What no step places stays gone on the other routes. -/
theorem Budgeted.elsewhere_apply (h : Budgeted c slot s o)
    (hr : ∀ job, a.places c s.db = some job → job.id c.toKeyConfig = slot.2 → job.route = slot.1) :
    ∀ r, r ≠ slot.1 → ((apply c s.db a).lanes r).Gone slot.2 := by
  intro r hne
  refine gone_apply c (h.elsewhere r hne) fun job hj hs => hne ?_
  rw [← hr job hj (congrArg Prod.snd hs)]
  exact (congrArg Prod.fst hs).symm

/-- A step of the server that is about no job. -/
theorem Budgeted.server (h : Budgeted c slot s o) (hn : a.names c s.db = none)
    (hd : ∀ r, a ≠ .dequeue r) : Budgeted c slot { s with db := apply c s.db a } o where
  course := by
    refine h.course.aside (aside_of_names ?_ (fun he => absurd he (hd _)) fun k => .inl rfl)
    rw [hn]
    exact nofun
  elsewhere := h.elsewhere_apply fun job hj _ => by
    rw [names_of_places hj] at hn
    cases hn
  plain := h.plain
  fits := h.fits

theorem Budgeted.enqueue {now : ℤ} (h : Budgeted c slot s o)
    (hp : Persists c slot s (.enqueue job now)) (hb : WithinBudget c slot s (.enqueue job now)) :
    Budgeted c slot { s with db := apply c s.db (.enqueue job now) }
      (noteLife c slot o s (.enqueue job now)) where
  course := course_enqueue h.course hp
  elsewhere := h.elsewhere_apply fun job' hj hid => by
    simp only [Act.places, Option.ite_none_right_eq_some, Option.some.injEq] at hj
    obtain ⟨-, rfl⟩ := hj
    exact (hp hid).1
  plain := h.plain
  fits l hl := by
    simp only [noteLife] at hl
    split at hl
    · rename_i ha
      cases hl
      exact hb ha.1 (congrArg Prod.snd ha.2)
    · exact h.fits l hl

theorem Budgeted.cancel [DecidableEq ι] {k : ι} {job' : Job V} {error : V} {aborted : Bool}
    (h : Budgeted c slot s o) (hp : Persists c slot s (.cancel i k))
    (hi : s.tasks i = .polled k job error) (hk : s.tasks k = .running job' aborted) :
    Budgeted c slot { s with
      tasks := Function.update (Function.update s.tasks k (.running job' true)) i
        (.cancelling job' error) } o := by
  have hid : job'.id c.toKeyConfig ≠ slot.2 := by
    simp only [Persists, hk] at hp
    exact hp
  have hpi : ¬ (s.tasks i).Has c slot.2 := by
    rw [hi]
    exact fun hh => hh
  refine ⟨?_, h.elsewhere, ?_, h.fits⟩
  · refine h.course.aside (aside_of_names (a := .read) nofun nofun fun k' => ?_)
    by_cases hk' : k' = i
    · subst hk'
      rw [Function.update_self]
      exact .inr ⟨hpi, hid⟩
    · rw [Function.update_of_ne hk']
      by_cases hkk : k' = k
      · subst hkk
        rw [Function.update_self]
        exact .inr ⟨hp, hid⟩
      · exact .inl (Function.update_of_ne hkk ..)
  · exact forall_tasks (fun _ t => t.Plain c slot.2) trivial
      (forall_tasks (fun _ t => t.Plain c slot.2) trivial h.plain)

/-- What a task does not have in hand and has after its step, it has just taken from the queue. -/
theorem Budgeted.dequeued (h : Budgeted c slot s o) (hk : Keyed c s.db)
    (hp : Persists c slot s (.move i m)) (hh : ¬ (s.tasks i).Has c slot.2)
    (hh' : t'.Has c slot.2) (hm : MoveStep c s (s.tasks i) m a t') :
    t' = .fetched slot.2 ∧ a = .dequeue slot.1 ∧
      (s.db.lanes slot.1).queued.getLast? = some slot.2 := by
  have htake := (hm.has hk hh').resolve_left hh
  have hplain := h.plain i
  generalize s.tasks i = t at hm htake hplain hh
  cases hm with
  | @dequeued r jobId hq =>
    have hid : jobId = slot.2 := hh'
    subst hid
    have hr : r = slot.1 := by
      by_contra hne
      exact (h.elsewhere r hne).queued (List.mem_of_getLast? hq)
    subst hr
    exact ⟨rfl, rfl, hq⟩
  | notifyRaised =>
    simp only [Sys.takes, Option.ite_none_left_eq_some, Option.some.injEq] at htake
    exact absurd htake.2 hplain
  | abort =>
    simp only [Sys.takes, Option.ite_none_left_eq_some, Option.some.injEq] at htake
    exact absurd htake.2 hp
  | reschedule => exact absurd htake hp
  | blocked => exact hh'.elim
  | _ => cases htake

theorem Budgeted.move [DecidableEq ι] (h : Budgeted c slot s o) (hk : Keyed c s.db)
    (hp : Persists c slot s (.move i m)) (hb : WithinBudget c slot s (.move i m))
    (hm : MoveStep c s (s.tasks i) m a t')
    (hs : (system c).step s (.move i m) =
      some { db := apply c s.db a, tasks := Function.update s.tasks i t' }) :
    Budgeted c slot { db := apply c s.db a, tasks := Function.update s.tasks i t' }
      (noteLife c slot o s (.move i m)) where
  course := by
    by_cases hh : (s.tasks i).Has c slot.2
    · obtain ⟨l, rfl, hq, ha, hfree, hf⟩ := h.course.attempting hh
      exact course_attempt hq ha hfree hf (h.fits l rfl) hp hb hm hs
    · rw [noteLife_other hh]
      by_cases hh' : t'.Has c slot.2
      · obtain ⟨rfl, rfl, hq⟩ := h.dequeued hk hp hh hh' hm
        exact course_dequeue h.course hq
      · exact course_other h.course (h.plain i) hp hb hh hh' hm hs
  elsewhere := h.elsewhere_apply fun _ hj hid => h.course.route_of_places hm hj hid
  plain := by
    refine forall_tasks (fun _ t => t.Plain c slot.2) (hm.plain ?_ ?_) h.plain
    · intro job result hi hid
      obtain ⟨l, -, -, ha, -⟩ := h.course.attempting (i := i) (by rw [hi]; exact hid)
      rw [hi] at ha
      cases ha
    · rintro job error ttl rfl
      exact hp
  fits := fits_note h.fits

theorem Budgeted.step [DecidableEq ι] {p p' : Sys ι V × Option (Life V)}
    (h : Budgeted c slot p.1 p.2) (hk : Keyed c p.1.db) {e : Ev ι V}
    (hf : Persists c slot p.1 e ∧ WithinBudget c slot p.1 e)
    (hp : (withLife c slot).step p e = some p') : Budgeted c slot p'.1 p'.2 := by
  obtain ⟨s, o⟩ := p
  obtain ⟨s', o'⟩ := p'
  obtain ⟨hs, hn⟩ := Machine.observe_step.1 hp
  dsimp only at hn hs
  subst hn
  cases sysStep_of_step hs with
  | enqueue => exact h.enqueue hf.1 hf.2
  | schedule | advance | pushBg | removeBg => exact h.server rfl nofun
  | move hm => exact h.move hk hf.1 hf.2 hm hs
  | cancel hi hk => exact h.cancel hf.1 hi hk

theorem budgeted_of_run [DecidableEq ι] {es : List (Ev ι V)} {p : Sys ι V × Option (Life V)}
    (h : (withLife c slot).Run (fun p e => Persists c slot p.1 e ∧ WithinBudget c slot p.1 e)
      (withLife c slot).init es p) : Budgeted c slot p.1 p.2 := by
  induction h with
  | nil =>
    have hgone : ∀ r : Route, ((({} : Db V).lanes r)).Gone slot.2 := fun r =>
      ⟨⟨List.not_mem_nil, rfl⟩, List.not_mem_nil⟩
    exact ⟨.unknown (hgone _) fun k hh => hh, fun r _ => hgone r, fun _ => trivial,
      fun _ hl => by cases hl⟩
  | @snoc es t u e hr hf hp ih =>
    have hs : (system c).Run Machine.Any (system c).init es t.1 := hr.forget fun _ _ _ => trivial
    exact ih.step (keyed_of_system hs) hf hp

end

/-- **The retry budget**, in every state of a run that persists and is within it. -/
theorem inBudget_of_run [DecidableEq ι] (c : QueueConfig) (slot : Route × String)
    {es : List (Ev ι V)} {p : Sys ι V × Option (Life V)}
    (h : (withLife c slot).Run (fun p e => Persists c slot p.1 e ∧ WithinBudget c slot p.1 e)
      (withLife c slot).init es p) : ∀ l ∈ p.2, l.InBudget c slot p.1 := by
  intro l hl
  have hcourse := (budgeted_of_run h).course
  rw [Option.mem_def.1 hl] at hcourse
  exact hcourse.inBudget

/-! ## Two attempts, and a late sweep -/

/-- A job that is tried on two workers: the function raises an exception, and a `JobError` after the
retry. -/
def triedRun : List (Ev (Fin 2) String) :=
  [.enqueue { function := "f", key := "k" } 0,
    .move task₀ (.dequeue none), .move task₀ .fetch, .move task₀ (.start 1000),
    .move task₀ (.outcome (.exception "error" "error" (some true))),
    .move task₀ (.exit 2000 (1 / 2) 2), .schedule none 1 32,
    .move task₁ (.dequeue none), .move task₁ .fetch, .move task₁ (.start 33000),
    .move task₁ (.outcome (.jobError "error" "error" (some true))), .move task₁ (.exit 34000 0 34)]

/-- One retry, two starts. -/
theorem inBudget_tried :
    ∃ p, (withLife {} (none, sweptId)).Run
        (fun p e => Persists {} (none, sweptId) p.1 e ∧ WithinBudget {} (none, sweptId) p.1 e)
        (withLife {} (none, sweptId)).init triedRun p ∧
      (∃ l ∈ p.2, l.job.retries = 1 ∧ l.starts = 2 ∧ l.retried = 1 ∧ l.failed = true) ∧
        ∀ l ∈ p.2, l.InBudget {} (none, sweptId) p.1 := by
  have h : ∃ p, (withLife {} (none, sweptId)).Run
      (fun p e => Persists {} (none, sweptId) p.1 e ∧ WithinBudget {} (none, sweptId) p.1 e)
      (withLife {} (none, sweptId)).init triedRun p ∧
        ∃ l ∈ p.2, l.job.retries = 1 ∧ l.starts = 2 ∧ l.retried = 1 ∧ l.failed = true :=
    Machine.exists_run (by decide +kernel) (by decide +kernel)
  obtain ⟨p, hr, hl⟩ := h
  exact ⟨p, hr, hl, inBudget_of_run _ _ hr⟩

/-- A job without retries fails while a sweep has it on its list; then the sweep reads its record. -/
def failedThenSwept : List (Ev (Fin 2) String) :=
  [.enqueue { function := "f", key := "k", retries := 0 } 0,
    .move task₀ (.dequeue none), .move task₀ .fetch, .move task₀ (.start 1000),
    .move task₁ (.sweep none 60), .move task₀ (.outcome (.exception "error" "error" (some true))),
    .move task₀ (.exit 2000 0 2), .move task₁ .sweepGet, .move task₁ (.sweepItem "swept" 3000)]

/-- The job ends as `ABORTED`. -/
theorem not_inBudget_swept :
    ∃ p, (withLife {} (none, sweptId)).Run (fun p e => Persists {} (none, sweptId) p.1 e)
        (withLife {} (none, sweptId)).init failedThenSwept p ∧
      ∃ l ∈ p.2, l.job.attempts = 0 ∧ l.job.retries = 0 ∧ ¬ l.InBudget {} (none, sweptId) p.1 := by
  have h : ∃ p, (withLife {} (none, sweptId)).Run (fun p e => Persists {} (none, sweptId) p.1 e)
      (withLife {} (none, sweptId)).init failedThenSwept p ∧
        (p.1.db.records.get sweptId).map Job.status = some .aborted ∧
          ∃ l ∈ p.2, l.job.attempts = 0 ∧ l.job.retries = 0 ∧ l.failed = true :=
    Machine.exists_run (by decide +kernel) (by decide +kernel)
  obtain ⟨p, hr, hrec, l, hl, ha, hret, hf⟩ := h
  refine ⟨p, hr, l, hl, ha, hret, fun hb => ?_⟩
  obtain ⟨job, hj, hstatus⟩ := Option.map_eq_some_iff.1 hrec
  obtain ⟨-, -, -, -, hfailed⟩ := hb.ended hf
  cases (hfailed job hj).symm.trans hstatus

end Kvdb
