import Kvdb.Tasks.Worker
import Kvdb.Tasks.Proof.Lanes

/-!
# What a schedule tick covers

The schedule call of a queue stands inside the loop over the cron jobs. `schedule_iff`: a tick covers
every served queue exactly when each of them that has a due job has a cron job that the loop reaches;
a worker without cron jobs promotes nothing. The first call on a queue does the work, later ones in
the same tick find the lock taken.
-/

namespace Kvdb

open Redis Lib

variable {V : Type}

/-- What a tick at `now` owes to a queue: no id is due any more, and each that was has been pushed
once. -/
structure Covered (now : ℚ) (db db' : Db V) : Prop where
  none_due : (db'.lanes none).due now = []
  pushed : ∀ x ∈ (db.lanes none).due now,
    (db'.lanes none).queued.count x = (db.lanes none).queued.count x + 1

/-- The script promotes all that is due on a free lock. -/
theorem covered_scheduleScript {db : Db V} (lock : ℕ) (now : ℚ)
    (hfree : db.scheduled.exists? none = false) :
    Covered now db (scheduleScript db none lock now).1 := by
  have hl := scheduleScript_lanes db none none lock now
  simp only [hfree, and_self, ↓reduceIte] at hl
  refine ⟨List.eq_nil_iff_forall_not_mem.2 fun x hx => ?_, fun x hx => ?_⟩
  · rw [hl] at hx
    obtain ⟨s, hs, h1, h2⟩ := DelayQueue.mem_due.1 hx
    have hp := DelayQueue.promotable_promote.1 ⟨s, hs, h1⟩
    rw [DelayQueue.score_promote, if_neg hp.2] at hs
    exact hp.2 (DelayQueue.mem_due.2 ⟨s, hs, h1, h2⟩)
  · rw [hl]
    show ((db.lanes none).queued ++ (db.lanes none).due now).count x = _
    rw [List.count_append, List.count_eq_one_of_mem (DelayQueue.nodup_due _ _) hx]

/-- It takes the lock. -/
theorem scheduleScript_lock (db : Db V) (lock : ℕ) (now : ℚ) :
    (scheduleScript db none lock now).1.scheduled.exists? none = true := by
  unfold scheduleScript
  split
  · assumption
  · dsimp only
    split <;> simp [TtlMap.exists?, TtlMap.setex_apply, Db.onLane]

/-- On a taken lock it does nothing. -/
theorem scheduleScript_locked {db : Db V} (lock : ℕ) (now : ℚ)
    (h : db.scheduled.exists? none = true) : (scheduleScript db none lock now).1 = db := by
  simp [scheduleScript, h]

/-! ## The next run of a cron job -/

section
variable (c : QueueConfig) {now : ℚ} (db : Db V) {job : Job V} (t : ℤ)

/-- `enqueue` of a job that is not due: the due ids stay, and none of them is pushed. -/
theorem enqueue_later (hlate : now < job.scheduled) (x : String) :
    (x ∈ ((TaskQueue.enqueue c db job t).1.lanes none).due now ↔ x ∈ (db.lanes none).due now) ∧
      (1 ≤ now → ((TaskQueue.enqueue c db job t).1.lanes none).queued =
        (db.lanes none).queued) := by
  have hl : (TaskQueue.enqueue c db job t).1.lanes none =
      (db.lanes none).apply (laneOp c db none (.enqueue job t)) :=
    apply_lanes c db (.enqueue job t) none
  rw [hl]
  simp only [laneOp]
  split
  · rename_i hacc
    have hnone : (db.lanes none).incomplete.score (job.id c.toKeyConfig) = none := by
      have ha := hacc.2
      simp only [enqueueAccepts, decide_eq_true_eq] at ha
      exact ha.1
    constructor
    · have hadd : x ∈ ((db.lanes none).zadd (job.id c.toKeyConfig) job.scheduled).due now ↔
          x ∈ (db.lanes none).due now := by
        simp only [DelayQueue.mem_due, DelayQueue.zadd, ZSet.score_add]
        split
        · rename_i hx
          subst hx
          simp only [hnone, Option.some.injEq, reduceCtorEq, false_and, exists_false, iff_false]
          rintro ⟨s, rfl, -, hs⟩
          exact absurd hs (not_le.2 hlate)
        · rfl
      simp only [DelayQueue.apply]
      split <;> exact hadd
    · intro h1
      have hs : (job.scheduled : ℚ) ≠ 0 := ne_of_gt (zero_lt_one.trans_le (h1.trans hlate.le))
      simp only [DelayQueue.apply, hs, ↓reduceIte]
      rfl
  · exact ⟨.rfl, fun _ => rfl⟩

/-- `enqueue` does not touch the lock. -/
theorem enqueue_lock : (TaskQueue.enqueue c db job t).1.scheduled = db.scheduled := by
  unfold TaskQueue.enqueue enqueueScript
  split
  · split <;> rfl
  · rfl

end

/-- Due ids are not there before second 1. -/
theorem one_le_of_due {q : DelayQueue String} {now : ℚ} {x : String} (h : x ∈ q.due now) :
    1 ≤ now := by
  obtain ⟨s, -, h1, h2⟩ := DelayQueue.mem_due.1 h
  exact h1.trans h2

/-- An enqueue of a later job before the script changes nothing about what is covered. -/
theorem Covered.of_enqueue_before {c : QueueConfig} {now : ℚ} {db db' : Db V} (job : Job V) {t : ℤ}
    (hlate : now < job.scheduled) (h : Covered now (TaskQueue.enqueue c db job t).1 db') :
    Covered now db db' := by
  refine ⟨h.none_due, fun x hx => ?_⟩
  obtain ⟨hdue, hq⟩ := enqueue_later c db t hlate x
  rw [h.pushed x (hdue.2 hx), hq (one_le_of_due hx)]

/-- Nor does one after it. -/
theorem Covered.enqueue_after {c : QueueConfig} {now : ℚ} {db db' : Db V} (job : Job V) {t : ℤ}
    (hlate : now < job.scheduled) (h : Covered now db db') :
    Covered now db (TaskQueue.enqueue c db' job t).1 := by
  refine ⟨List.eq_nil_iff_forall_not_mem.2 fun x hx => ?_, fun x hx => ?_⟩
  · have hx' := (enqueue_later c db' t hlate x).1.1 hx
    rw [h.none_due] at hx'
    cases hx'
  · rw [(enqueue_later c db' t hlate x).2 (one_le_of_due hx)]
    exact h.pushed x hx

namespace TaskWorker

variable (w : TaskWorker V)

/-! ## The loop over the cron jobs -/

/-- The worker serves a queue of that name. -/
def serves (name : String) : Bool := (w.queueDict name).isSome

/-- The cron jobs before the first one whose queue is not served. -/
def reached (crons : List (CronJob V)) : List (CronJob V) :=
  crons.takeWhile fun cron => w.serves cron.queueName

/-- A queue after a call for it in this tick: covered, and the lock is taken. -/
structure Ticked (now : ℚ) (db db' : Db V) : Prop where
  covered : Covered now db db'
  locked : db'.scheduled.exists? none = true

section
variable {w} {lock : ℕ} {now : ℚ} {dbs dbs' : Servers V} {cron : CronJob V}

theorem scheduleOne_other (h : w.scheduleOne lock now dbs cron = some dbs') {q : String}
    (hq : cron.queueName ≠ q) : dbs' q = dbs q := by
  obtain ⟨c, -, rfl⟩ := Option.map_eq_some_iff.1 h
  exact Function.update_of_ne hq.symm _ _

/-- The first round for a queue covers it. -/
theorem scheduleOne_first (h : w.scheduleOne lock now dbs cron = some dbs')
    (hlate : now < cron.nextScheduled now)
    (hfree : (dbs cron.queueName).scheduled.exists? none = false) :
    Ticked now (dbs cron.queueName) (dbs' cron.queueName) := by
  obtain ⟨c, -, rfl⟩ := Option.map_eq_some_iff.1 h
  rw [Function.update_self]
  refine ⟨.of_enqueue_before (cron.job c w.cronjobPrefix now) hlate
    (covered_scheduleScript lock now ?_), scheduleScript_lock _ _ _⟩
  rw [enqueue_lock, hfree]

/-- Later rounds leave it covered. -/
theorem scheduleOne_again {db : Db V} (h : w.scheduleOne lock now dbs cron = some dbs')
    (hlate : now < cron.nextScheduled now) (ht : Ticked now db (dbs cron.queueName)) :
    Ticked now db (dbs' cron.queueName) := by
  obtain ⟨c, -, rfl⟩ := Option.map_eq_some_iff.1 h
  rw [Function.update_self]
  have hlock : (TaskQueue.enqueue c (dbs cron.queueName) (cron.job c w.cronjobPrefix now)
      (1000 * now).floor).1.scheduled.exists? none = true := by rw [enqueue_lock, ht.locked]
  rw [scheduleScript_locked lock now hlock]
  exact ⟨ht.covered.enqueue_after (cron.job c w.cronjobPrefix now) hlate, hlock⟩

/-- The rest of the loop leaves a covered queue covered. -/
theorem scheduleLoop_again {db : Db V} {q : String} :
    ∀ {crons : List (CronJob V)} {dbs : Servers V},
      (∀ cron ∈ crons, now < cron.nextScheduled now) → Ticked now db (dbs q) →
        Ticked now db (w.scheduleLoop lock now dbs crons q)
  | [], _, _, ht => ht
  | cron :: crons, dbs, hlate, ht => by
    unfold scheduleLoop
    cases hone : w.scheduleOne lock now dbs cron with
    | none => exact ht
    | some dbs' =>
      refine scheduleLoop_again (fun cron' hm => hlate cron' (List.mem_cons_of_mem _ hm)) ?_
      by_cases hq : cron.queueName = q
      · subst hq
        exact scheduleOne_again hone (hlate cron List.mem_cons_self) ht
      · rw [scheduleOne_other hone hq]
        exact ht

/-- **The loop covers a queue if it reaches a cron job of the queue, and else leaves it alone.** -/
theorem scheduleLoop_spec {q : String} :
    ∀ {crons : List (CronJob V)} {dbs : Servers V},
      (∀ cron ∈ crons, now < cron.nextScheduled now) → (dbs q).scheduled.exists? none = false →
        ((∃ cron ∈ w.reached crons, cron.queueName = q) →
            Ticked now (dbs q) (w.scheduleLoop lock now dbs crons q)) ∧
          ((¬ ∃ cron ∈ w.reached crons, cron.queueName = q) →
            w.scheduleLoop lock now dbs crons q = dbs q)
  | [], _, _, _ => ⟨fun ⟨_, hm, _⟩ => absurd hm List.not_mem_nil, fun _ => rfl⟩
  | cron :: crons, dbs, hlate, hfree => by
    have hrest : ∀ cron' ∈ crons, now < cron'.nextScheduled now :=
      fun cron' hm => hlate cron' (List.mem_cons_of_mem _ hm)
    unfold scheduleLoop
    cases hone : w.scheduleOne lock now dbs cron with
    | none =>
      have hs : w.serves cron.queueName = false := by
        simpa [scheduleOne, serves] using hone
      simp [reached, hs]
    | some dbs' =>
      have hs : w.serves cron.queueName = true := by
        obtain ⟨c, hc, -⟩ := Option.map_eq_some_iff.1 hone
        simp [serves, hc]
      have hreach : w.reached (cron :: crons) = cron :: w.reached crons := by
        simp [reached, hs]
      rw [hreach]
      by_cases hq : cron.queueName = q
      · subst hq
        have hfirst := scheduleOne_first hone (hlate cron List.mem_cons_self) hfree
        exact ⟨fun _ => scheduleLoop_again hrest hfirst,
          fun hno => absurd ⟨cron, List.mem_cons_self, rfl⟩ hno⟩
      · have hsame := scheduleOne_other hone hq
        have hfree' : (dbs' q).scheduled.exists? none = false := by rw [hsame, hfree]
        have ih := scheduleLoop_spec hrest hfree'
        rw [hsame] at ih
        simpa [hq] using ih

end

/-- **Schedule tick coverage**, on free locks: exactly when every served queue with a due id has a
cron job that the loop reaches. -/
theorem schedule_iff (lock : ℕ) (now : ℚ) (dbs : Servers V)
    (hfree : ∀ q ∈ w.queueNames, (dbs q).scheduled.exists? none = false)
    (hlate : ∀ cron ∈ w.cronjobs, now < cron.nextScheduled now) :
    (∀ q ∈ w.queueNames, Covered now (dbs q) (w.schedule lock now dbs q)) ↔
      ∀ q ∈ w.queueNames, ((dbs q).lanes none).due now ≠ [] →
        ∃ cron ∈ w.reached w.cronjobs, cron.queueName = q := by
  constructor
  · intro hall q hq hdue
    by_contra hno
    have hsame : w.scheduleLoop lock now dbs w.cronjobs q = dbs q :=
      (scheduleLoop_spec hlate (hfree q hq)).2 hno
    have hc := (hall q hq).none_due
    rw [schedule, hsame] at hc
    exact hdue hc
  · intro hcond q hq
    by_cases hr : ∃ cron ∈ w.reached w.cronjobs, cron.queueName = q
    · exact ((scheduleLoop_spec hlate (hfree q hq)).1 hr).covered
    · have hdue : ((dbs q).lanes none).due now = [] := by
        by_contra hne
        exact hr (hcond q hq hne)
      rw [schedule, (scheduleLoop_spec hlate (hfree q hq)).2 hr]
      exact ⟨hdue, fun x hx => by rw [hdue] at hx; cases hx⟩

/-! ## A worker without cron jobs -/

/-- A queue with one job for second 100. -/
def oneDelayed : Servers String := fun _ =>
  run {} (machine {}).init [.enqueue { function := "f", key := "k", scheduled := 100 } 0]

/-- At second 200 the lock is free, and the tick of a worker of the queue leaves the job due. -/
theorem schedule_broken :
    let w : TaskWorker String := { queues := [{}] }
    "global" ∈ w.queueNames ∧ (oneDelayed "global").scheduled.exists? none = false ∧
      ((oneDelayed "global").lanes none).due 200 = ["_kvq_:global:job:k"] ∧
      ¬ Covered 200 (oneDelayed "global") (w.schedule 1 200 oneDelayed "global") := by
  have hdue : ((oneDelayed "global").lanes none).due 200 = ["_kvq_:global:job:k"] := by
    decide +kernel
  refine ⟨by decide, by decide +kernel, hdue, fun h => ?_⟩
  have hn : ((oneDelayed "global").lanes none).due 200 = [] := h.none_due
  rw [hdue] at hn
  cases hn

/-- The same queue served with a cron job of its own. -/
def withCron : TaskWorker String :=
  { queues := [{}]
    cronjobs := [{
      functionName := "g", queueName := "global", nextScheduled := fun now => now.floor + 1
      defaults := { function := "g", key := "g" } }] }

theorem schedule_withCron :
    Covered 200 (oneDelayed "global") (withCron.schedule 1 200 oneDelayed "global") := by
  refine (withCron.schedule_iff 1 200 oneDelayed (fun q _ => ?_) (fun cron hm => ?_)).2 ?_
    "global" (by decide)
  · show (oneDelayed "global").scheduled.exists? none = false
    decide +kernel
  · obtain rfl := List.mem_singleton.1 hm
    decide +kernel
  · intro q hq _
    obtain rfl := List.mem_singleton.1 hq
    exact ⟨_, List.mem_singleton.2 rfl, rfl⟩

end TaskWorker

end Kvdb
