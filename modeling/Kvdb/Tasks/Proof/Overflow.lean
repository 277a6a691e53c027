import Kvdb.Tasks.Proof.Budget

/-!
# A job that outlives its backoff

`exists_overflow`: a job with a backoff and more than 1024 retries that is tried again and again, by one
task and with nothing else on the server, is left in the active list when `next_retry_delay` raises: the
condition of the retry budget is exact in this.
-/

namespace Kvdb

open Redis Lib TaskQueue

variable {V : Type} {c : QueueConfig} {slot : Route × String} {job₀ job : Job V} {n : ℤ} {e : V}
  {db : Db V} {l : Life V}

/-! ## One attempt -/

variable (c slot) in
/-- A copy of the job with `n` attempts. -/
structure Job.Tried (job₀ : Job V) (n : ℤ) (job : Job V) : Prop where
  slot : job.slot c = slot
  scheduled : job.scheduled = 0
  retries : job.retries = job₀.retries
  backoff : job.retryBackoff.truthy = true
  attempts : job.attempts = n

variable (slot) in
/-- The job is listed once, in line or not, and has the score 0. -/
structure Lone (inLine : Bool) (db : Db V) : Prop where
  queued : (db.lanes slot.1).queued = if inLine then [slot.2] else []
  active : (db.lanes slot.1).active = if inLine then [] else [slot.2]
  score : (db.lanes slot.1).incomplete.score slot.2 = some 0

variable (c slot) in
/-- The runs of one task. -/
abbrev LoneRun (db : Db V) (t : Task Unit V) (o : Option (Life V)) (es : List (Ev Unit V))
    (db' : Db V) (t' : Task Unit V) (o' : Option (Life V)) : Prop :=
  (withLife c slot).Run (fun p e => Persists c slot p.1 e)
    ({ db, tasks := fun _ => t }, o) es ({ db := db', tasks := fun _ => t' }, o')

theorem run_move {m : Move Unit V} {a : Act V} {t t' : Task Unit V} {o o' : Option (Life V)}
    (hm : move c { db, tasks := fun _ => t } t m = some (a, t'))
    (hp : Persists c slot { db, tasks := fun _ => t } (.move () m))
    (ho : noteLife c slot o { db, tasks := fun _ => t } (.move () m) = o') :
    LoneRun c slot db t o [.move () m] (apply c db a) t' o' := by
  refine .single hp (Machine.observe_step.2 ⟨?_, ho.symm⟩)
  have htasks : Function.update (fun _ : Unit => t) () t' = fun _ => t' := by
    funext k
    exact Function.update_self ..
  simp only [system, Sys.plan, hm, Option.map_some, htasks]

/-- An attempt, up to the decision of its handler. -/
theorem exists_attempt (h : Lone slot true db) (hj : db.records.get slot.2 = some job)
    (ht : job₀.Tried c slot n job) (hle : n + 1 ≤ job₀.retries) (e : V) (l : Life V) :
    ∃ es db' job', LoneRun c slot db .idle (some l) es db' (.handling job' [.retry e])
        (some l.start) ∧
      Lone slot false db' ∧ job₀.Tried c slot (n + 1) job' := by
  have hretries : ¬ job.retries < job.attempts + 1 := by
    rw [ht.retries, ht.attempts]
    omega
  have h1 : LoneRun c slot db .idle (some l) [.move () (.dequeue slot.1)]
      (apply c db (.dequeue slot.1)) (.fetched slot.2) (some l) :=
    run_move (by simp [move, h.queued]) trivial rfl
  have hj' : (apply c db (.dequeue slot.1)).records.get slot.2 = some job := hj
  have h2 : LoneRun c slot (apply c db (.dequeue slot.1)) (.fetched slot.2) (some l)
      [.move () .fetch] (apply c db (.dequeue slot.1)) (.starting job) (some l) :=
    run_move (a := .read) (by simp [move, hj']) trivial rfl
  have h3 : LoneRun c slot (apply c db (.dequeue slot.1)) (.starting job) (some l)
      [.move () (.start 0)]
      (apply c (apply c db (.dequeue slot.1)) (.update (job.start 0) 0))
      (.running { job.start 0 with touched := 0 } false) (some l.start) :=
    run_move rfl trivial (by simp [noteLife, ht.slot])
  have h4 : LoneRun c slot (apply c (apply c db (.dequeue slot.1)) (.update (job.start 0) 0))
      (.running { job.start 0 with touched := 0 } false) (some l.start)
      [.move () (.outcome (.exception e e (some true)))]
      (apply c (apply c db (.dequeue slot.1)) (.update (job.start 0) 0))
      (.handling { job.start 0 with touched := 0 } [.retry e]) (some l.start) := by
    refine run_move (a := .read) ?_ (fun _ => rfl) rfl
    simp [move, onOutcome, onError, Job.start, hretries]
  refine ⟨_, _, _, ((h1.append h2).append h3).append h4, ?_,
    ⟨ht.slot, ht.scheduled, ht.retries, ht.backoff, congrArg (· + 1) ht.attempts⟩⟩
  have hlane : (apply c (apply c db (.dequeue slot.1)) (.update (job.start 0) 0)).lanes slot.1 =
      (db.lanes slot.1).apply (.serve .right .left) := by
    simp [apply_lanes, laneOp, DelayQueue.apply]
  have hq := h.queued
  have ha := h.active
  rcases (db.lanes slot.1).lmove_right_left with ⟨hnil, -⟩ | ⟨rest, x, hx, hmove⟩
  · rw [hnil] at hq
    cases hq
  · have hone : rest ++ [x] = [] ++ [slot.2] := hx.symm.trans hq
    obtain ⟨rfl, hlast⟩ := List.append_inj' hone rfl
    cases hlast
    constructor
    all_goals rw [hlane, DelayQueue.apply, hmove]
    · rfl
    · simp [ha]
    · exact h.score

/-- Its `retry`, without a delay. -/
theorem exists_retry (h : Lone slot false db) (ht : job₀.Tried c slot n job) (hn : n ≤ 1024)
    (e : V) (l : Life V) :
    ∃ es db' job', LoneRun c slot db (.handling job [.retry e]) (some l) es db' .idle
        (some l.retry) ∧
      Lone slot true db' ∧ db'.records.get slot.2 = some job' ∧ job₀.Tried c slot n job' := by
  have hroute : job.route = slot.1 := congrArg Prod.fst ht.slot
  have hid : job.id c.toKeyConfig = slot.2 := congrArg Prod.snd ht.slot
  have hmax : ¬ 1024 ≤ max (job.attempts - 1) 0 := by
    rw [ht.attempts]
    omega
  have h1 : LoneRun c slot db (.handling job [.retry e]) (some l) [.move () (.exit 0 0 0)]
      (apply c db (.retry job (some e) 0 0 0)) (.handling (job.reset .queued (some e) 0) [])
      (some l.retry) := by
    refine run_move rfl (fun _ => ?_) (by simp [noteLife, ht.slot])
    simp [Task.overflows, Job.nextRetryDelay?, ht.backoff, exponentialBackoff?, hmax]
  have h2 : LoneRun c slot (apply c db (.retry job (some e) 0 0 0))
      (.handling (job.reset .queued (some e) 0) []) (some l.retry) [.move () .leave]
      (apply c db (.retry job (some e) 0 0 0)) .idle (some l.retry) :=
    run_move (a := .read) rfl (fun hh => by cases hh.1) rfl
  have hlane : (apply c db (.retry job (some e) 0 0 0)).lanes slot.1 =
      (db.lanes slot.1).apply (.requeue slot.2 0) := by
    have hdelay : (job.reset .queued (some e) 0).nextRetryDelay 0 = 0 := by
      have hb : (job.reset .queued (some e) 0).retryBackoff.truthy = true := ht.backoff
      simp [Job.nextRetryDelay, hb, exponentialBackoff]
    simp [apply_lanes, laneOp, hroute, hid, hdelay, ht.scheduled]
  refine ⟨_, _, job.reset .queued (some e) 0, h1.append h2, ?_, ?_,
    ⟨ht.slot, ht.scheduled, ht.retries, ht.backoff, ht.attempts⟩⟩
  · have hq := h.queued
    have ha := h.active
    constructor
    all_goals rw [hlane]
    · simp [DelayQueue.apply, DelayQueue.rpush, DelayQueue.zadd, DelayQueue.lremQueued,
        DelayQueue.lremActive, hq]
    · simp [DelayQueue.apply, DelayQueue.rpush, DelayQueue.zadd, DelayQueue.lremQueued,
        DelayQueue.lremActive, ha]
    · simp [DelayQueue.apply, DelayQueue.rpush, DelayQueue.zadd, ZSet.score_add]
  · rw [apply, retryTx_records, TtlMap.get_set]
    exact if_pos hid.symm

/-! ## Attempt after attempt -/

/-- The job is accepted by an empty server. -/
theorem exists_enqueue (hs : job₀.scheduled = 0) (hb : job₀.retryBackoff.truthy = true) :
    ∃ es db job, LoneRun c (job₀.slot c) {} .idle none es db .idle (some { job := job₀ }) ∧
      Lone (job₀.slot c) true db ∧ db.records.get (job₀.slot c).2 = some job ∧
        job₀.Tried c (job₀.slot c) job₀.attempts job := by
  have hacc : enqueueAccepts ({} : Db V) job₀.route (job₀.id c.toKeyConfig)
      (job₀.abortId c.toKeyConfig) = true := rfl
  have haccepted : job₀.accepted c ({} : Db V) := hacc
  have hrun : LoneRun c (job₀.slot c) {} .idle none [.enqueue job₀ 0]
      (apply c {} (.enqueue job₀ 0)) .idle (some { job := job₀ }) :=
    .single (fun _ => ⟨rfl, hs⟩)
      (Machine.observe_step.2 ⟨rfl, (if_pos (And.intro haccepted rfl)).symm⟩)
  have hlane : (apply c {} (.enqueue job₀ 0)).lanes job₀.route =
      ({} : DelayQueue String).apply (.add (job₀.id c.toKeyConfig) 0) := by
    simp [apply_lanes, laneOp, hacc, hs]
  refine ⟨_, _, enqueuedJob job₀ 0, hrun, ?_, ?_, ⟨rfl, hs, rfl, hb, rfl⟩⟩
  · constructor
    all_goals rw [show (job₀.slot c).1 = job₀.route from rfl, hlane]
    · simp [DelayQueue.apply, DelayQueue.rpush, DelayQueue.zadd, Job.slot]
    · simp [DelayQueue.apply, DelayQueue.rpush, DelayQueue.zadd]
    · simp [DelayQueue.apply, DelayQueue.rpush, DelayQueue.zadd, ZSet.score_add, Job.slot]
  · rw [apply, enqueue_records, if_pos hacc, TtlMap.get_set]
    exact if_pos rfl

/-- The job is in line after `k` attempts, none of which came to the overflow. -/
theorem exists_attempts (hs : job₀.scheduled = 0) (hb : job₀.retryBackoff.truthy = true) (e : V) :
    ∀ k : ℕ, job₀.attempts + k ≤ 1024 ∨ k = 0 → job₀.attempts + k ≤ job₀.retries ∨ k = 0 →
      ∃ es db job l, LoneRun c (job₀.slot c) {} .idle none es db .idle (some l) ∧
        Lone (job₀.slot c) true db ∧ db.records.get (job₀.slot c).2 = some job ∧
          job₀.Tried c (job₀.slot c) (job₀.attempts + k) job ∧ l.job = job₀ ∧ l.failed = false
  | 0, _, _ => by
    obtain ⟨es, db, job, hrun, hlone, hj, ht⟩ := exists_enqueue (c := c) hs hb
    exact ⟨es, db, job, _, hrun, hlone, hj, by simpa using ht, rfl, rfl⟩
  | k + 1, hn, hr => by
    have hn' : job₀.attempts + (k + 1 : ℕ) ≤ 1024 := hn.resolve_right (Nat.succ_ne_zero k)
    have hr' : job₀.attempts + (k + 1 : ℕ) ≤ job₀.retries := hr.resolve_right (Nat.succ_ne_zero k)
    push_cast at hn' hr'
    obtain ⟨es, db, job, l, hrun, hlone, hj, ht, hl, hf⟩ :=
      exists_attempts hs hb e k (.inl (by omega)) (.inl (by omega))
    obtain ⟨es', db', job', hrun', hlone', ht'⟩ := exists_attempt hlone hj ht (by omega) e l
    obtain ⟨es'', db'', job'', hrun'', hlone'', hj'', ht''⟩ :=
      exists_retry hlone' ht' (by omega) e l.start
    refine ⟨_, db'', job'', l.start.retry, (hrun.append hrun').append hrun'', hlone'', hj'', ?_, hl,
      hf⟩
    push_cast
    rwa [← add_assoc]

/-- **A job whose retries overflow is left behind**, neither failed nor to be tried again. -/
theorem exists_overflow (c : QueueConfig) (hs : job₀.scheduled = 0) (hfit : ¬ job₀.Fits) (e : V) :
    ∃ es p, (withLife c (job₀.slot c)).Run (fun p e => Persists c (job₀.slot c) p.1 e)
        (withLife (ι := Unit) c (job₀.slot c)).init es p ∧
      ∃ l ∈ p.2, l.job = job₀ ∧ ¬ l.InBudget c (job₀.slot c) p.1 := by
  obtain ⟨hb, hretries⟩ : job₀.retryBackoff.truthy = true ∧
      ¬ (job₀.retries ≤ 1024 ∨ job₀.retries ≤ job₀.attempts) := by
    simpa only [Job.Fits, Classical.not_imp] using hfit
  -- as many attempts as it takes until the next one is the first to overflow
  obtain ⟨es, db, job, l, hrun, hlone, hj, ht, hl, hf⟩ :=
    exists_attempts (c := c) hs hb e (1024 - job₀.attempts).toNat (by omega) (by omega)
  obtain ⟨es', db', job', hrun', hlone', ht'⟩ := exists_attempt hlone hj ht (by omega) e l
  have hleave : LoneRun c (job₀.slot c) db' (.handling job' [.retry e]) (some l.start)
      [.move () .leave] db' .idle (some l.start) := by
    refine run_move (a := .read) rfl (fun _ => ?_) rfl
    have hn := ht'.attempts
    have hover := Job.nextRetryDelay?_overflow ht'.backoff (by omega) 1
    simp only [Task.overflows, hover, Option.isNone_none]
  refine ⟨_, _, (hrun.append hrun').append hleave, l.start, rfl, hl, fun hbudget => ?_⟩
  rcases hbudget.alive hf with (hq | ⟨x, hx, h1⟩) | ⟨k, hk⟩
  · rw [hlone'.queued] at hq
    cases hq
  · rw [hlone'.score] at hx
    cases hx
    exact absurd h1 (by norm_num)
  · exact hk

/-- A new job with 1025 retries and the default backoff is not tried once more after 1025 attempts. -/
theorem not_inBudget_overflow :
    let job : Job String := { function := "f", key := "k", retries := 1025 }
    ∃ es p, (withLife {} (job.slot {})).Run (fun p e => Persists {} (job.slot {}) p.1 e)
        (withLife (ι := Unit) {} (job.slot {})).init es p ∧
      ∃ l ∈ p.2, l.job = job ∧ ¬ l.InBudget {} (job.slot {}) p.1 :=
  exists_overflow {} rfl (by decide) "error"

end Kvdb
