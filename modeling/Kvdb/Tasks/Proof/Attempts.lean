import Kvdb.Tasks.Proof.Terminal
import Kvdb.Types.Backoff

/-!
# The attempts of a job

`Life`: a job from the moment it is accepted, with its starts, its retries and its end (`noteLife`).
`Attempting`: a task has the job in hand, and its copy has counted the starts. `Course`: where the job is
in every state, in line or waiting with its record, in the hands of one task, or failed and gone.

`Aside s s'`: what a step that is about other jobs does to this one; it keeps the course
(`Course.aside`). Such are the steps that do not name the id (`Act.names`, `aside_of_names`).
-/

namespace Kvdb

open Redis Lib TaskQueue

variable {ι V : Type} (c : QueueConfig) (slot : Route × String)

/-! ## A job and its attempts -/

/-- A job since it was accepted. -/
structure Life (V : Type) where
  job : Job V
  starts : ℕ := 0
  retried : ℕ := 0
  failed : Bool := false

/-- The starts of a job whose attempts all fail: one more than its retries, if it is new. -/
def Job.budget (job : Job V) : ℤ := max 1 (job.retries + 1 - job.attempts)

namespace Life

def start (l : Life V) : Life V := { l with starts := l.starts + 1 }

def retry (l : Life V) : Life V := { l with retried := l.retried + 1 }

def fail (l : Life V) : Life V := { l with failed := true }

/-- A copy of the job after the attempts that were started. -/
structure Copy (l : Life V) (job : Job V) : Prop where
  slot : job.slot c = slot
  scheduled : job.scheduled = 0
  retries : job.retries = l.job.retries
  backoff : job.retryBackoff = l.job.retryBackoff
  attempts : job.attempts = l.job.attempts + l.starts

end Life

/-- What the steps of the system say of the job of this slot. -/
def noteLife (l : Option (Life V)) (s : Sys ι V) : Ev ι V → Option (Life V)
  | .enqueue job _ => if job.accepted c s.db ∧ job.slot c = slot then some { job } else l
  | .move i (.start _) =>
    match s.tasks i with
    | .starting job => if job.slot c = slot then l.map Life.start else l
    | _ => l
  | .move i (.exit ..) =>
    match s.tasks i with
    | .handling job (.retry _ :: _) => if job.slot c = slot then l.map Life.retry else l
    | .handling job (.finishFailed _ :: _) => if job.slot c = slot then l.map Life.fail else l
    | _ => l
  | _ => l

/-- The system with the life of the job of this slot. -/
abbrev withLife [DecidableEq ι] : Machine (Sys ι V × Option (Life V)) (Ev ι V) :=
  (system c).observe none (noteLife c slot)

/-- A task has the job in hand: between the dequeue and the end of its handler. `record` is what is
stored under the id. -/
inductive Attempting (l : Life V) (record : Option (Cell (Job V))) : Task ι V → Prop
  | fetched {job : Job V} (hrec : record = some ⟨job, none⟩) (hc : l.Copy c slot job)
      (hs : l.starts < l.job.budget) (hr : l.retried = l.starts) :
    Attempting l record (.fetched slot.2)
  | starting {job : Job V} (hc : l.Copy c slot job) (hs : l.starts < l.job.budget)
      (hr : l.retried = l.starts) : Attempting l record (.starting job)
  | running {job : Job V} {aborted : Bool} (hc : l.Copy c slot job)
      (hs : l.starts ≤ l.job.budget) (hr : l.retried + 1 = l.starts) :
    Attempting l record (.running job aborted)
  | retry {job : Job V} {error : V} (hc : l.Copy c slot job) (hs : l.starts < l.job.budget)
      (hr : l.retried + 1 = l.starts) : Attempting l record (.handling job [.retry error])
  | fail {job : Job V} {error : V} (hc : l.Copy c slot job) (hs : l.starts = l.job.budget)
      (hr : l.retried + 1 = l.starts) : Attempting l record (.handling job [.finishFailed error])

/-- No task has the job in hand. -/
def Sys.Free (s : Sys ι V) (id : String) : Prop := ∀ k, ¬ (s.tasks k).Has c id

/-- Where the job is. -/
inductive Course (s : Sys ι V) : Option (Life V) → Prop
  | unknown (hg : (s.db.lanes slot.1).Gone slot.2) (hfree : s.Free c slot.2) : Course s none
  | ready {l : Life V} {job : Job V} (hq : (s.db.lanes slot.1).Ready slot.2)
      (hfree : s.Free c slot.2) (hrec : s.db.records slot.2 = some ⟨job, none⟩)
      (hc : l.Copy c slot job) (hs : l.starts < l.job.budget) (hr : l.retried = l.starts)
      (hf : l.failed = false) : Course s (some l)
  | held {l : Life V} {i : ι} (hq : (s.db.lanes slot.1).Served slot.2)
      (ha : Attempting c slot l (s.db.records slot.2) (s.tasks i))
      (hfree : ∀ k, k ≠ i → ¬ (s.tasks k).Has c slot.2) (hf : l.failed = false) :
    Course s (some l)
  | failed {l : Life V} (hg : (s.db.lanes slot.1).Gone slot.2) (hfree : s.Free c slot.2)
      (hs : l.starts = l.job.budget) (hr : l.retried + 1 = l.starts)
      (hrec : ∀ job, s.db.records.get slot.2 = some job → job.status = .failed)
      (hf : l.failed = true) : Course s (some l)

variable {c slot} {s s' : Sys ι V} {l : Life V} {job : Job V}

theorem Attempting.has {record : Option (Cell (Job V))} {t : Task ι V}
    (h : Attempting c slot l record t) : t.Has c slot.2 := by
  cases h with
  | fetched => rfl
  | starting hc | running hc => exact congrArg Prod.snd hc.slot
  | retry hc | fail hc => exact ⟨rfl, congrArg Prod.snd hc.slot⟩

/-- A job that is gone is unknown, or has failed. -/
theorem Course.of_gone {o : Option (Life V)} (h : Course c slot s o)
    (hg : (s.db.lanes slot.1).Gone slot.2) :
    s.Free c slot.2 ∧ ∀ l ∈ o, l.starts = l.job.budget ∧ l.retried + 1 = l.starts ∧
      (∀ job, s.db.records.get slot.2 = some job → job.status = .failed) ∧ l.failed = true := by
  cases h with
  | unknown _ hfree => exact ⟨hfree, fun _ h => by cases h⟩
  | ready hq => exact absurd hq.scored hg.not_scored
  | held hq => exact absurd ⟨0, hq.score⟩ hg.not_scored
  | failed _ hfree hs hr hrec hf =>
    refine ⟨hfree, fun _ h => ?_⟩
    cases h
    exact ⟨hs, hr, hrec, hf⟩

/-- And stays so in a step that leaves it gone, in no hands and with no record but the old one. -/
theorem Course.gone {o : Option (Life V)} (h : Course c slot s o)
    (hg : (s.db.lanes slot.1).Gone slot.2) (hg' : (s'.db.lanes slot.1).Gone slot.2)
    (hfree : s'.Free c slot.2)
    (hrec : ∀ job, s'.db.records.get slot.2 = some job →
      s.db.records.get slot.2 = some job) : Course c slot s' o := by
  obtain ⟨-, hl⟩ := h.of_gone hg
  cases o with
  | none => exact .unknown hg' hfree
  | some l =>
    obtain ⟨hs, hr, hold, hf⟩ := hl l rfl
    exact .failed hg' hfree hs hr (fun job hj => hold job (hrec job hj)) hf

/-! ## Steps on other jobs -/

variable (c slot) in
/-- What a step does to this job that is about another one. -/
structure Aside (s s' : Sys ι V) : Prop where
  ready : (s.db.lanes slot.1).Ready slot.2 → (s'.db.lanes slot.1).Ready slot.2
  served : (s.db.lanes slot.1).Served slot.2 → (s'.db.lanes slot.1).Served slot.2
  gone : (s.db.lanes slot.1).Gone slot.2 → (s'.db.lanes slot.1).Gone slot.2
  cell : ∀ job, s.db.records slot.2 = some ⟨job, none⟩ → s'.db.records slot.2 = some ⟨job, none⟩
  record : ∀ job, s'.db.records.get slot.2 = some job → s.db.records.get slot.2 = some job
  tasks : ∀ k, s'.tasks k = s.tasks k ∨
    ¬ (s.tasks k).Has c slot.2 ∧ ¬ (s'.tasks k).Has c slot.2

theorem Aside.free (h : Aside c slot s s') (k : ι) (hk : ¬ (s.tasks k).Has c slot.2) :
    ¬ (s'.tasks k).Has c slot.2 := by
  rcases h.tasks k with he | ⟨-, hn⟩
  · rwa [he]
  · exact hn

theorem Attempting.aside {t : Task ι V} (h : Aside c slot s s')
    (ha : Attempting c slot l (s.db.records slot.2) t) :
    Attempting c slot l (s'.db.records slot.2) t := by
  cases ha with
  | fetched hrec hc hs hr => exact .fetched (h.cell _ hrec) hc hs hr
  | starting hc hs hr => exact .starting hc hs hr
  | running hc hs hr => exact .running hc hs hr
  | retry hc hs hr => exact .retry hc hs hr
  | fail hc hs hr => exact .fail hc hs hr

theorem Course.aside {o : Option (Life V)} (hc : Course c slot s o) (h : Aside c slot s s') :
    Course c slot s' o := by
  cases hc with
  | unknown hg hfree => exact .unknown (h.gone hg) fun k => h.free k (hfree k)
  | ready hq hfree hrec hcopy hs hr hf =>
    exact .ready (h.ready hq) (fun k => h.free k (hfree k)) (h.cell _ hrec) hcopy hs hr hf
  | @held l i hq ha hfree hf =>
    have hi : s'.tasks i = s.tasks i := (h.tasks i).resolve_right fun hn => hn.1 ha.has
    exact .held (h.served hq) (hi ▸ ha.aside h) (fun k hk => h.free k (hfree k hk)) hf
  | failed hg hfree hs hr hrec hf =>
    exact .failed (h.gone hg) (fun k => h.free k (hfree k)) hs hr
      (fun job hj => hrec job (h.record job hj)) hf

/-! ## The job that a step is about -/

variable (c) in
/-- The id of the job that a step is about. -/
def Act.names (db : Db V) : Act V → Option String
  | .enqueue job _ => if job.accepted c db then some (job.id c.toKeyConfig) else none
  | .finish job _ _ _ _ | .retry job _ _ _ _ | .reschedule job _ _ _ _ | .abort job _ _
  | .dropActive job | .update job _ | .checkStuck job => some (job.id c.toKeyConfig)
  | .sweepMissing _ jobId => some jobId
  | _ => none

variable {db : Db V} {a : Act V} {r : Route} {id : String}

theorem names_of_places (h : a.places c db = some job) :
    a.names c db = some (job.id c.toKeyConfig) := by
  cases a with
  | enqueue job' now =>
    simp only [Act.places, Option.ite_none_right_eq_some] at h
    obtain ⟨hacc, h⟩ := h
    cases h
    exact if_pos hacc
  | retry | reschedule | checkStuck => cases h; rfl
  | _ => cases h

/-- A step on another job, and no promotion of this one, avoids it. -/
theorem laneOp_avoids (hn : a.names c db ≠ some id)
    (hd : ∀ now, laneOp c db r a = .promote now → id ∉ (db.lanes r).due now) :
    (laneOp c db r a).Avoids (db.lanes r) id := by
  have hl := laneStep c db r a
  generalize laneOp c db r a = op at hl hd ⊢
  cases hl with
  | keep | dequeue => trivial
  | schedule => exact hd _ rfl
  | enqueue ha => exact fun he => hn (he ▸ if_pos ha)
  | finish | delay | requeue | reschedule | abort | dropActive | sweepMissing | checkStuck =>
    exact fun he => hn (congrArg some he.symm)

theorem ready_apply (h : (db.lanes r).Ready id) (hn : a.names c db ≠ some id)
    (hq : a = .dequeue r → (db.lanes r).queued.getLast? ≠ some id) :
    ((apply c db a).lanes r).Ready id := by
  have havoids := laneOp_avoids (r := r) hn
  have hl := laneStep c db r a
  rw [apply_lanes]
  generalize laneOp c db r a = op at hl havoids ⊢
  cases hl with
  | schedule => exact h.promote _
  | dequeue =>
    refine h.apply trivial fun x l hp he => hq rfl ?_
    rw [pop_right_eq_some.1 hp, List.getLast?_concat, he]
  | _ => exact h.apply (havoids nofun) trivial

theorem served_apply (h : (db.lanes r).Served id) (hn : a.names c db ≠ some id) :
    ((apply c db a).lanes r).Served id := by
  rw [apply_lanes]
  exact h.apply (laneOp_avoids hn fun now _ => h.toRunning.not_due now)

theorem gone_of_names (h : (db.lanes r).Gone id) (hn : a.names c db ≠ some id) :
    ((apply c db a).lanes r).Gone id := by
  refine gone_apply c h fun job hp hs => hn ?_
  exact (names_of_places hp).trans (congrArg some (congrArg Prod.snd hs))

/-- A record without a deadline stays. -/
theorem cell_apply (hn : a.names c db ≠ some id) (h : db.records id = some ⟨job, none⟩) :
    (apply c db a).records id = some ⟨job, none⟩ := by
  have hne : ∀ job' : Job V, a.names c db = some (job'.id c.toKeyConfig) →
      id ≠ job'.id c.toKeyConfig := fun _ hj he => hn (he ▸ hj)
  cases a with
  | enqueue job' now =>
    rw [apply, enqueue_records]
    split
    · rename_i ha
      rw [TtlMap.set_apply, if_neg (hne job' (if_pos ha)), h]
    · exact h
  | schedule => rw [apply, scheduleScript_records, h]
  | cleanup => rw [apply, cleanupScript_records, h]
  | finish job' =>
    rw [apply, finishTx_records]
    have hid := hne job' rfl
    split
    · exact (TtlMap.setex_apply ..).trans ((if_neg hid).trans h)
    · split
      · exact (TtlMap.set_apply ..).trans ((if_neg hid).trans h)
      · exact (TtlMap.del_apply ..).trans ((if_neg hid).trans h)
  | retry job' =>
    rw [apply, retryTx_records]
    exact (TtlMap.set_apply ..).trans ((if_neg (hne job' rfl)).trans h)
  | reschedule job' =>
    rw [apply, rescheduleTx_records]
    exact (TtlMap.set_apply ..).trans ((if_neg (hne job' rfl)).trans h)
  | abort job' =>
    exact (TtlMap.expire_apply ..).trans ((if_neg (hne job' rfl)).trans h)
  | update job' => exact (TtlMap.set_apply ..).trans ((if_neg (hne job' rfl)).trans h)
  | sweepMissing => simpa [apply, sweepMissingTx] using h
  | pushBg => simpa [apply] using h
  | removeBg => simpa [apply] using h
  | advance ms =>
    show (db.records id).filter _ = _
    rw [h]
    rfl
  | _ => exact h

theorem get_of_names (hn : a.names c db ≠ some id)
    (h : (apply c db a).records.get id = some job) : db.records.get id = some job := by
  refine (get_apply h).resolve_right ?_
  rintro ⟨hw, hid⟩
  refine hn ?_
  rw [← hid]
  cases a with
  | enqueue job' now =>
    simp only [Act.writes, Option.ite_none_right_eq_some] at hw
    obtain ⟨ha, hw⟩ := hw
    cases hw
    exact if_pos ha
  | finish | retry | reschedule | update => cases hw; rfl
  | _ => cases hw

/-- **A step that does not name the job**, and does not take it up, leaves it where it is. -/
theorem aside_of_names {tasks : ι → Task ι V} (hn : a.names c s.db ≠ some slot.2)
    (hq : a = .dequeue slot.1 → (s.db.lanes slot.1).queued.getLast? ≠ some slot.2)
    (ht : ∀ k, tasks k = s.tasks k ∨ ¬ (s.tasks k).Has c slot.2 ∧ ¬ (tasks k).Has c slot.2) :
    Aside c slot s { db := apply c s.db a, tasks } where
  ready h := ready_apply h hn hq
  served h := served_apply h hn
  gone h := gone_of_names h hn
  cell _ h := cell_apply hn h
  record _ h := get_of_names hn h
  tasks := ht

end Kvdb
