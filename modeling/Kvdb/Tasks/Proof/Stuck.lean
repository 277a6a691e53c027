import Kvdb.Tasks.Stuck
import Kvdb.Tasks.Proof.Lanes
import Kvdb.Tasks.Proof.Records

/-!
# What the stuck-job pass pushes

A pass takes a queued job that nobody has dequeued yet for stuck: the first pass marks it, the second
one pushes it, and so on in turns. `passes_iff` says for every number of passes when all of them are
safe. A round touches nothing of the other ids (`checkStuckJob_frame`), so a pass does to each id
what its own round does (`Alike`).
-/

namespace Kvdb

open Redis Lib TaskQueue

variable {V : Type} {c : QueueConfig}

/-- The two states agree on an id, and on all records. -/
structure Alike (jobId : String) (db db' : Db V) : Prop where
  records : db'.records = db.records
  clock : db'.clock = db.clock
  stuck : jobId ∈ db'.stuck ↔ jobId ∈ db.stuck
  listed : ∀ r, jobId ∈ (db'.lanes r).queued ++ (db'.lanes r).active ↔
    jobId ∈ (db.lanes r).queued ++ (db.lanes r).active

theorem Alike.refl (jobId : String) (db : Db V) : Alike jobId db db :=
  ⟨rfl, rfl, .rfl, fun _ => .rfl⟩

theorem Alike.trans {jobId : String} {db db' db'' : Db V} (h : Alike jobId db db')
    (h' : Alike jobId db' db'') : Alike jobId db db'' where
  records := h'.records.trans h.records
  clock := h'.clock.trans h.clock
  stuck := h'.stuck.trans h.stuck
  listed r := (h'.listed r).trans (h.listed r)

section
variable {jobId : String} {db db' : Db V}

theorem Alike.candidate (h : Alike jobId db db') (k : String) :
    stuckCandidate c db' k = stuckCandidate c db k := by
  simp only [stuckCandidate, h.records, h.clock]

theorem get_of_candidate {job : Job V} (h : stuckCandidate c db jobId = some job) :
    db.records.get jobId = some job := by
  unfold stuckCandidate at h
  split at h
  · cases h
  · exact (Option.filter_eq_some_iff.1 h).1

theorem Alike.fit (h : Alike jobId db db') {job : Job V} (hid : job.id c.toKeyConfig = jobId) :
    Fit c db' job ↔ Fit c db job := by
  subst hid
  exact ⟨fun hf => ⟨fun hl => hf.unlisted ((h.listed _).2 hl), hf.unfinished⟩,
    fun hf => ⟨fun hl => hf.unlisted ((h.listed _).1 hl), hf.unfinished⟩⟩

theorem Alike.roundSafe (h : Alike jobId db db') (hk : Keyed c db) :
    RoundSafe c db' jobId ↔ RoundSafe c db jobId := by
  simp only [RoundSafe, h.candidate, h.stuck]
  refine forall_congr' fun job => imp_congr_right fun hc => imp_congr_right fun _ => ?_
  exact h.fit (hk _ _ (get_of_candidate hc))

/-! ## One round -/

/-- What a round does to its own id. -/
theorem checkStuckJob_records (db : Db V) (jobId : String) :
    (checkStuckJob c db jobId).records = db.records ∧
      (checkStuckJob c db jobId).clock = db.clock := by
  unfold checkStuckJob
  split
  · exact ⟨rfl, rfl⟩
  · split <;> exact ⟨rfl, rfl⟩

theorem checkStuckJob_keyed (hk : Keyed c db) : Keyed c (checkStuckJob c db jobId) :=
  hk.congr (checkStuckJob_records db jobId).1

/-- A round that takes nothing for stuck does nothing. -/
theorem checkStuckJob_none (h : stuckCandidate c db jobId = none) :
    checkStuckJob c db jobId = db := by
  simp only [checkStuckJob, h]

/-- The first round of a candidate only marks it. -/
theorem checkStuckJob_mark {job : Job V} (h : stuckCandidate c db jobId = some job)
    (hs : jobId ∉ db.stuck) :
    checkStuckJob c db jobId = { db with stuck := insert jobId db.stuck } := by
  simp only [checkStuckJob, h, hs, ↓reduceIte]
  rfl

/-- The round of a marked candidate pushes it and takes the mark. -/
theorem checkStuckJob_push {job : Job V} (h : stuckCandidate c db jobId = some job)
    (hs : jobId ∈ db.stuck) (hid : job.id c.toKeyConfig = jobId) :
    jobId ∉ (checkStuckJob c db jobId).stuck ∧
      jobId ∈ ((checkStuckJob c db jobId).lanes job.route).queued := by
  have heq : checkStuckJob c db jobId =
      apply c (apply c db (.checkStuck job)) (.sremStuck jobId) := by
    simp only [checkStuckJob, h, hs, ↓reduceIte]
  rw [heq]
  constructor
  · exact Finset.notMem_erase _ _
  · rw [apply_lanes, apply_lanes]
    simp only [laneOp, ↓reduceIte, DelayQueue.apply, DelayQueue.lpush, push, DelayQueue.zadd,
      DelayQueue.zrem, hid]
    exact List.mem_cons_self

/-- A round touches nothing of another id. -/
theorem checkStuckJob_frame (hk : Keyed c db) {other : String} (hne : jobId ≠ other) :
    Alike jobId db (checkStuckJob c db other) := by
  obtain ⟨hrec, hclk⟩ := checkStuckJob_records (c := c) db other
  cases hcand : stuckCandidate c db other with
  | none =>
    rw [checkStuckJob_none hcand]
    exact .refl _ _
  | some job =>
    by_cases hs : other ∈ db.stuck
    · have hid := hk _ _ (get_of_candidate hcand)
      have heq : checkStuckJob c db other =
          apply c (apply c db (.checkStuck job)) (.sremStuck other) := by
        simp only [checkStuckJob, hcand, hs, ↓reduceIte]
      refine ⟨hrec, hclk, ?_, fun r => ?_⟩
      · rw [heq]
        show jobId ∈ db.stuck.erase other ↔ _
        simp [hne]
      · rw [heq, apply_lanes, apply_lanes]
        by_cases hr : job.route = r
        · simp only [laneOp, hr, ↓reduceIte, DelayQueue.apply, DelayQueue.lpush, push,
            DelayQueue.zadd, DelayQueue.zrem, DelayQueue.lremActive, hid, List.mem_append,
            List.mem_cons, hne, false_or, mem_lrem_ne hne]
        · simp only [laneOp, hr, ↓reduceIte, DelayQueue.apply]
    · rw [checkStuckJob_mark hcand hs]
      exact ⟨rfl, rfl, by simp [hne], fun r => .rfl⟩

end

/-! ## One pass -/

theorem checkStuckJobs_keyed {db : Db V} (hk : Keyed c db) (jobIds : List String) :
    Keyed c (checkStuckJobs c db jobIds) := by
  induction jobIds generalizing db with
  | nil => exact hk
  | cons id ids ih => exact ih (checkStuckJob_keyed hk)

/-- A pass touches nothing of an id that is not in it. -/
theorem checkStuckJobs_frame {jobId : String} {jobIds : List String} (hn : jobId ∉ jobIds) :
    ∀ {db : Db V}, Keyed c db → Alike jobId db (checkStuckJobs c db jobIds) := by
  induction jobIds with
  | nil => exact fun _ => .refl _ _
  | cons id ids ih =>
    intro db hk
    rw [List.mem_cons, not_or] at hn
    exact (checkStuckJob_frame hk hn.1).trans (ih hn.2 (checkStuckJob_keyed hk))

/-- A pass does to an id in it what the round of the id does. -/
theorem checkStuckJobs_round {jobId : String} {jobIds : List String} (hm : jobId ∈ jobIds)
    (hnd : jobIds.Nodup) :
    ∀ {db : Db V}, Keyed c db → ∃ db', Alike jobId db db' ∧ Keyed c db' ∧
      Alike jobId (checkStuckJob c db' jobId) (checkStuckJobs c db jobIds) := by
  induction jobIds with
  | nil => cases hm
  | cons id ids ih =>
    intro db hk
    obtain ⟨hnot, hnd⟩ := List.nodup_cons.1 hnd
    rcases List.mem_cons.1 hm with rfl | hm
    · exact ⟨db, .refl _ _, hk, checkStuckJobs_frame hnot (checkStuckJob_keyed hk)⟩
    · have hne : jobId ≠ id := fun h => hnot (h ▸ hm)
      obtain ⟨db', ha, hk', hb⟩ := ih hm hnd (checkStuckJob_keyed hk)
      exact ⟨db', (checkStuckJob_frame hk hne).trans ha, hk', hb⟩

/-- A pass is safe iff each of its rounds would be, taken alone. -/
theorem passSafe_iff {jobIds : List String} (hnd : jobIds.Nodup) :
    ∀ {db : Db V}, Keyed c db →
      (PassSafe c db jobIds ↔ ∀ jobId ∈ jobIds, RoundSafe c db jobId) := by
  induction jobIds with
  | nil => simp [PassSafe]
  | cons id ids ih =>
    intro db hk
    obtain ⟨hnot, hnd⟩ := List.nodup_cons.1 hnd
    rw [PassSafe, ih hnd (checkStuckJob_keyed hk), List.forall_mem_cons]
    refine and_congr_right fun _ => forall_congr' fun jobId => imp_congr_right fun hm => ?_
    have hne : jobId ≠ id := fun h => hnot (h ▸ hm)
    exact (checkStuckJob_frame hk hne).roundSafe hk

/-! ## Successive passes -/

/-- When `m` passes that take an id for stuck are safe: they mark and push it in turns, and what a
pass has pushed the next push finds in the queued list. -/
def Tolerates (marked fit : Prop) (m : ℕ) : Prop :=
  (marked → (1 ≤ m → fit) ∧ m < 3) ∧ (¬ marked → (2 ≤ m → fit) ∧ m < 4)

theorem tolerates_zero (marked fit : Prop) : Tolerates marked fit 0 :=
  ⟨fun _ => ⟨fun h => by omega, by omega⟩, fun _ => ⟨fun h => by omega, by omega⟩⟩

/-- A push, and what follows it. -/
theorem tolerates_push {marked fit : Prop} (hm : marked) (m : ℕ) :
    Tolerates marked fit (1 + m) ↔ fit ∧ Tolerates False False m := by
  simp only [Tolerates, hm, true_imp_iff, not_true_eq_false, false_imp_iff, and_true, true_and,
    not_false_eq_true, imp_false]
  constructor
  · rintro ⟨hf, hlt⟩
    exact ⟨hf (by omega), by omega, by omega⟩
  · rintro ⟨hf, hlt, -⟩
    exact ⟨fun _ => hf, by omega⟩

/-- A mark, and what follows it. -/
theorem tolerates_mark {marked fit : Prop} (hm : ¬ marked) (m : ℕ) :
    Tolerates marked fit (1 + m) ↔ Tolerates True fit m := by
  simp only [Tolerates, hm, true_imp_iff, not_true_eq_false, false_imp_iff, and_true, true_and,
    not_false_eq_true]
  constructor
  · rintro ⟨hf, hlt⟩
    exact ⟨fun h => hf (by omega), by omega⟩
  · rintro ⟨hf, hlt⟩
    exact ⟨fun h => hf (by omega), by omega⟩

theorem tolerates_congr {marked marked' fit fit' : Prop} (hm : marked ↔ marked')
    (hf : fit ↔ fit') (m : ℕ) : Tolerates marked fit m ↔ Tolerates marked' fit' m := by
  rw [propext hm, propext hf]

/-- The job under a key is fit to be pushed. -/
def FitKey (c : QueueConfig) (db : Db V) (jobId : String) : Prop :=
  ∀ job, db.records.get jobId = some job → Fit c db job

section
variable {jobId : String} {db db' : Db V}

theorem Alike.fitKey (h : Alike jobId db db') (hk : Keyed c db) :
    FitKey c db' jobId ↔ FitKey c db jobId := by
  simp only [FitKey, h.records]
  exact forall_congr' fun job => imp_congr_right fun hj => h.fit (hk _ _ hj)

/-- Without a record an id is never taken for stuck. -/
theorem candidatePasses_none (h : db.records.get jobId = none) (waits : List ℕ) :
    candidatePasses c jobId db waits = 0 := by
  induction waits generalizing db with
  | nil => rfl
  | cons ms waits ih =>
    have hnone : (db.advance ms).records.get jobId = none := by
      by_contra hne
      obtain ⟨job, hj⟩ := Option.ne_none_iff_exists'.1 hne
      rw [TtlMap.get_evict hj] at h
      cases h
    have hcand : stuckCandidate c (db.advance ms) jobId = none := by
      by_contra hne
      obtain ⟨job, hj⟩ := Option.ne_none_iff_exists'.1 hne
      rw [get_of_candidate hj] at hnone
      cases hnone
    simp [candidatePasses, hcand, ih hnone]

theorem candidatePasses_congr (hr : db'.records = db.records) (hc : db'.clock = db.clock)
    (waits : List ℕ) : candidatePasses c jobId db' waits = candidatePasses c jobId db waits := by
  induction waits generalizing db db' with
  | nil => rfl
  | cons ms waits ih =>
    have hr' : (db'.advance ms).records = (db.advance ms).records := by
      simp [Db.advance, hr, hc]
    have hc' : (db'.advance ms).clock = (db.advance ms).clock := by simp [Db.advance, hc]
    have hcand : stuckCandidate c (db'.advance ms) jobId =
        stuckCandidate c (db.advance ms) jobId := by
      unfold stuckCandidate
      rw [hr', hc']
    simp only [candidatePasses, hcand, ih hr' hc']

/-- One round and what the rest of the passes tolerates. -/
theorem roundSafe_and_tolerates (hk : Keyed c db) (m : ℕ) :
    RoundSafe c db jobId ∧
        Tolerates (jobId ∈ (checkStuckJob c db jobId).stuck)
          (FitKey c (checkStuckJob c db jobId) jobId) m ↔
      Tolerates (jobId ∈ db.stuck) (FitKey c db jobId)
        ((if (stuckCandidate c db jobId).isSome then 1 else 0) + m) := by
  cases hcand : stuckCandidate c db jobId with
  | none =>
    rw [checkStuckJob_none hcand]
    simp [RoundSafe, hcand]
  | some job =>
    have hget := get_of_candidate hcand
    have hid := hk _ _ hget
    have hfit : FitKey c db jobId ↔ Fit c db job := by
      simp only [FitKey, hget, Option.some.injEq, forall_eq']
    simp only [Option.isSome_some, ↓reduceIte]
    by_cases hs : jobId ∈ db.stuck
    · obtain ⟨hs', hq'⟩ := checkStuckJob_push hcand hs hid
      have hunfit : FitKey c (checkStuckJob c db jobId) jobId ↔ False := by
        refine ⟨fun hf => ?_, False.elim⟩
        have hfj := hf job (by rw [(checkStuckJob_records db jobId).1, hget])
        exact hfj.unlisted (hid.symm ▸ List.mem_append_left _ hq')
      rw [tolerates_push hs, tolerates_congr (iff_false_intro hs') hunfit, hfit]
      simp [RoundSafe, hcand, hs]
    · rw [tolerates_mark hs, checkStuckJob_mark hcand hs]
      have hsafe : RoundSafe c db jobId := fun _ _ hs' => absurd hs' hs
      have hmark : jobId ∈ insert jobId db.stuck := Finset.mem_insert_self _ _
      have hsame : FitKey c { db with stuck := insert jobId db.stuck } jobId ↔
          FitKey c db jobId :=
        ⟨fun hf j hj => ⟨(hf j hj).unlisted, (hf j hj).unfinished⟩,
          fun hf j hj => ⟨(hf j hj).unlisted, (hf j hj).unfinished⟩⟩
      rw [and_iff_right hsafe]
      exact tolerates_congr (iff_true_intro hmark) hsame m

/-- Waiting changes the fitness of no id that is still taken for stuck later. -/
theorem tolerates_advance (ms : ℕ) (waits : List ℕ) :
    Tolerates (jobId ∈ db.stuck) (FitKey c (db.advance ms) jobId)
        (candidatePasses c jobId db (ms :: waits)) ↔
      Tolerates (jobId ∈ db.stuck) (FitKey c db jobId)
        (candidatePasses c jobId db (ms :: waits)) := by
  cases hget : (db.advance ms).records.get jobId with
  | none =>
    have hcand : stuckCandidate c (db.advance ms) jobId = none := by
      by_contra hne
      obtain ⟨job, hj⟩ := Option.ne_none_iff_exists'.1 hne
      rw [get_of_candidate hj] at hget
      cases hget
    have hm : candidatePasses c jobId db (ms :: waits) = 0 := by
      simp [candidatePasses, hcand, candidatePasses_none hget]
    rw [hm]
    exact iff_of_true (tolerates_zero _ _) (tolerates_zero _ _)
  | some job =>
    have hbefore : db.records.get jobId = some job := TtlMap.get_evict hget
    refine tolerates_congr .rfl ?_ _
    simp only [FitKey, hget, hbefore, Option.some.injEq, forall_eq']
    exact ⟨fun hf => ⟨hf.unlisted, hf.unfinished⟩, fun hf => ⟨hf.unlisted, hf.unfinished⟩⟩

/-- One pass and what the rest of the passes tolerates. -/
theorem pass_and_tolerates (hk : Keyed c db) {jobIds : List String} (hm : jobId ∈ jobIds)
    (hnd : jobIds.Nodup) {ms : ℕ} {waits : List ℕ} :
    RoundSafe c (db.advance ms) jobId ∧
        Tolerates (jobId ∈ (checkStuckJobs c (db.advance ms) jobIds).stuck)
          (FitKey c (checkStuckJobs c (db.advance ms) jobIds) jobId)
          (candidatePasses c jobId (checkStuckJobs c (db.advance ms) jobIds) waits) ↔
      Tolerates (jobId ∈ db.stuck) (FitKey c db jobId)
        (candidatePasses c jobId db (ms :: waits)) := by
  have hk1 : Keyed c (db.advance ms) := hk.step (.advance ms)
  -- the pass is the round of the id, between rounds that do not touch it
  obtain ⟨db1, ha, hk', hb⟩ := checkStuckJobs_round hm hnd hk1
  obtain ⟨hrec, hclk⟩ := checkStuckJob_records (c := c) db1 jobId
  have hcount : candidatePasses c jobId (checkStuckJobs c (db.advance ms) jobIds) waits =
      candidatePasses c jobId (db.advance ms) waits :=
    candidatePasses_congr (hb.records.trans (hrec.trans ha.records))
      (hb.clock.trans (hclk.trans ha.clock)) waits
  rw [hcount, ← tolerates_advance, ← ha.roundSafe hk1,
    tolerates_congr hb.stuck (hb.fitKey (checkStuckJob_keyed hk')), roundSafe_and_tolerates hk',
    tolerates_congr ha.stuck (ha.fitKey hk1), ha.candidate]
  rfl

end

/-- **When successive stuck-job passes are safe**: for each id by the number of the passes that take
it for stuck. In every reachable state, for every reply of `KEYS` and all waiting times. -/
theorem passes_iff {as : List (Act V)} {db : Db V}
    (h : (machine c).Run Machine.Any (machine c).init as db) {jobIds : List String}
    (hnd : jobIds.Nodup) (waits : List ℕ) :
    PassesSafe c jobIds db waits ↔
      ∀ jobId ∈ jobIds,
        Tolerates (jobId ∈ db.stuck) (FitKey c db jobId) (candidatePasses c jobId db waits) := by
  have hk := keyed_of_run h
  clear h as
  induction waits generalizing db with
  | nil => simp [PassesSafe, candidatePasses, tolerates_zero]
  | cons ms waits ih =>
    have hk1 : Keyed c (db.advance ms) := hk.step (.advance ms)
    rw [PassesSafe]
    refine (and_congr (passSafe_iff hnd hk1) (ih (checkStuckJobs_keyed hk1 jobIds))).trans ?_
    rw [← forall₂_and]
    refine forall₂_congr fun jobId hm => ?_
    exact pass_and_tolerates hk hm hnd

/-! ## A job that waits for a worker -/

/-- A job is enqueued, to be run at once. -/
def waitingJob : Job String := { function := "f", key := "k" }

/-- The queue with that job. -/
def waiting : Db String := run {} (machine {}).init [.enqueue waitingJob 0]

theorem waiting_run :
    (machine {}).Run Machine.Any (machine {}).init [.enqueue waitingJob 0] waiting :=
  Machine.run_of_exec (exec_machine {} _ _) ⟨trivial, trivial⟩

/-- Two passes put the waiting job into the queued list a second time. -/
theorem passes_broken :
    (∃ as, (machine {}).Run Machine.Any (machine {}).init as waiting) ∧
      ¬ PassesSafe {} [waitingJob.id {}] waiting [0, 60000] ∧
      ((checkStuckJobs {} (checkStuckJobs {} waiting [waitingJob.id {}])
        [waitingJob.id {}]).lanes none).queued = [waitingJob.id {}, waitingJob.id {}] := by
  refine ⟨⟨_, waiting_run⟩, ?_, by decide +kernel⟩
  rintro ⟨-, ⟨h, -⟩, -⟩
  have hfit := h (enqueuedJob waitingJob 0) (by decide +kernel) (by decide +kernel)
  exact hfit.unlisted (by decide +kernel)

/-- A single pass only marks it. -/
theorem passes_once : PassesSafe {} [waitingJob.id {}] waiting [60000] := by
  refine (passes_iff waiting_run (List.nodup_singleton _) [60000]).2 fun jobId hm => ?_
  obtain rfl := List.mem_singleton.1 hm
  have hone : candidatePasses {} (waitingJob.id {}) waiting [60000] = 1 := by decide +kernel
  have hmark : waitingJob.id {} ∉ waiting.stuck := by decide +kernel
  rw [hone]
  exact ⟨fun h => absurd h hmark, fun _ => ⟨fun h => by omega, by omega⟩⟩

end Kvdb
