import Mathlib.Data.Fintype.Basic
import Kvdb.Tasks.Proof.Process
import Kvdb.Tasks.Proof.Records

/-!
# A completed job stays completed

`TerminalStable s e s'`: the step `e` changes no record of a completed job, unless it enqueues the id
anew or time expires the record. The invariant `Kept` says that no task has a completed job in hand
(`Task.Has`), that no route lists it (`DelayQueue.Gone`), and that a sweep that still lists it began
before it was completed (`late`). A sweep decides on what it has read by then and finishes the job
whatever the record says now; runs in which no sweep takes a late job, and no other task works on a
job when it is completed, keep every completed record (`terminal_of_kept`).
-/

namespace Kvdb

open Redis Lib TaskQueue

variable {ι V : Type} (c : QueueConfig)

/-! ## Jobs in hand -/

/-- The next steps of the task write the record of this id. -/
def Task.Has (id : String) : Task ι V → Prop
  | .fetched jobId => jobId = id
  | .starting job | .running job _ | .finishing job _ | .cancelling job _ | .rescheduling job _ _
  | .rescheduled job _ _ => job.id c.toKeyConfig = id
  | .handling job todo => todo.isEmpty = false ∧ job.id c.toKeyConfig = id
  | .aborting job _ dequeued => dequeued ≠ 0 ∧ job.id c.toKeyConfig = id
  | _ => False

instance (id : String) (t : Task ι V) : Decidable (t.Has c id) := by
  induction t using Task.casesOn <;> (dsimp only [Task.Has]; infer_instance)

/-- The task is a sweep that has this id on its list. -/
def Task.Lists (id : String) : Task ι V → Prop
  | .snapshot _ jobIds => id ∈ jobIds
  | .sweeping _ todo => ∃ x ∈ todo, ∃ job ∈ x.2, job.id c.toKeyConfig = id
  | _ => False

/-- The id that a step of a sweep finishes as aborted. -/
def Task.sweeps (t : Task ι V) : Move ι V → Option String
  | .sweepItem _ now =>
    match t with
    | .sweeping _ ((_, some job) :: _) =>
      if job.swept now then some (job.id c.toKeyConfig) else none
    | _ => none
  | _ => none

/-- The id that a step takes in hand. -/
def Sys.takes (s : Sys ι V) (t : Task ι V) : Move ι V → Option String
  | .dequeue r => (s.db.lanes r).queued.getLast?
  | .abort job _ _ =>
    if abortDequeued c s.db job = 0 then none else some (job.id c.toKeyConfig)
  | .raised _ _ _ retryable =>
    match t with
    | .completed job =>
      if job.attempts ≤ job.retries ∧ retryable = none then none else some (job.id c.toKeyConfig)
    | _ => none
  | .reschedule k _ _ => (s.tasks k).context.map fun job => job.id c.toKeyConfig
  | _ => none

/-- No update of a completed job is to come. -/
def Task.Sound : Task ι V → Prop
  | .running job _ => job.status ≠ .complete
  | .handling job todo => .update ∈ todo → job.status ≠ .complete
  | _ => True

variable {c} {s : Sys ι V} {t t' : Task ι V} {m : Move ι V} {a : Act V} {id : String}

/-- A handler keeps the id, and updates only what it was given to update. -/
theorem onError_eq (ι : Type) (c : QueueConfig) (job : Job V) (e : V) (b : Option Bool)
    (skip : List (Exit V)) :
    ∃ job' todo, (onError job e b skip : Task ι V) = .handling job' todo ∧
      job'.id c.toKeyConfig = job.id c.toKeyConfig ∧ job'.status = job.status ∧
        (.update ∈ todo → .update ∈ skip) := by
  unfold onError
  split
  · exact ⟨job, _, rfl, rfl, rfl, by simp⟩
  · split
    · exact ⟨job, _, rfl, rfl, rfl, by simp⟩
    · exact ⟨_, skip, rfl, rfl, rfl, fun h => h⟩
    · exact ⟨job, _, rfl, rfl, rfl, by simp⟩

theorem has_onError {job : Job V} {e : V} {b : Option Bool} {skip : List (Exit V)}
    (h : (onError job e b skip : Task ι V).Has c id) : job.id c.toKeyConfig = id := by
  obtain ⟨job', todo, ho, hid, -, -⟩ := onError_eq ι c job e b skip
  rw [ho] at h
  exact hid.symm.trans h.2

theorem not_lists_onError {job : Job V} {e : V} {b : Option Bool} {skip : List (Exit V)} :
    ¬ (onError job e b skip : Task ι V).Lists c id := by
  obtain ⟨job', todo, ho, -⟩ := onError_eq ι c job e b skip
  rw [ho]
  exact fun h => h

theorem sound_onError {job : Job V} {e : V} {b : Option Bool} {skip : List (Exit V)}
    (h : .update ∈ skip → job.status ≠ .complete) : (onError job e b skip : Task ι V).Sound := by
  obtain ⟨job', todo, ho, -, hs, hu⟩ := onError_eq ι {} job e b skip
  rw [ho]
  exact fun hm hj => h (hu hm) (hs ▸ hj)

theorem MoveStep.sound (h : MoveStep c s t m a t') (ht : t.Sound) : t'.Sound := by
  cases h with
  | start => exact fun h => by cases h
  | @outcome job aborted o =>
    cases o with
    | returned result => trivial
    | jobError e e' b => exact sound_onError fun _ => ht
    | exception e e' b => exact sound_onError fun _ => ht
    | cancelled e b =>
      simp only [onOutcome]
      split
      · exact fun _ => ht
      · trivial
  | finishRaised | notifyRaised => exact sound_onError (by simp)
  | retry => exact fun _ h => by cases h
  | update => exact fun hm => ht (List.mem_cons_self ..)
  | failed => exact fun _ h => by cases h
  | _ => trivial

/-- **A task writes only the record of a job it has in hand, or that it sweeps.** -/
theorem MoveStep.writes (h : MoveStep c s t m a t') {job : Job V}
    (hw : a.writes c s.db = some job) :
    t.Has c (job.id c.toKeyConfig) ∨ t.sweeps c m = some (job.id c.toKeyConfig) := by
  cases h with
  | start | finish | retry | update | failed | pollFinish | rescheduleFinish | reschedulePut =>
    cases hw
    first
      | exact .inl rfl
      | exact .inl ⟨rfl, rfl⟩
  | abortFinish hn =>
    cases hw
    exact .inl ⟨hn, rfl⟩
  | swept hs =>
    cases hw
    exact .inr (if_pos hs)
  | _ => cases hw

/-- Only `process_queue` writes a completed record. -/
theorem MoveStep.writes_complete (h : MoveStep c s t m a t') (ht : t.Sound) {job : Job V}
    (hw : a.writes c s.db = some job) (hc : job.status = .complete) :
    ∃ job' result now, t = .finishing job' result ∧ m = .finish now ∧
      job = job'.complete .complete result none now := by
  cases h with
  | finish =>
    cases hw
    exact ⟨_, _, _, rfl, rfl, rfl⟩
  | update =>
    cases hw
    exact absurd hc (ht (List.mem_cons_self ..))
  | _ => cases hw <;> cases hc

/-- What a task has in hand, it had before or takes now. -/
theorem MoveStep.has (h : MoveStep c s t m a t') (hk : Keyed c s.db) (ht : t'.Has c id) :
    t.Has c id ∨ s.takes c t m = some id := by
  cases h with
  | dequeued hq =>
    cases ht
    exact .inr hq
  | fetch hj => exact .inl ((hk _ _ hj).symm.trans ht)
  | start | rescheduleFinish => exact .inl ht
  | @outcome job aborted o =>
    refine .inl ?_
    cases o with
    | returned result => exact ht
    | jobError e e' b => exact has_onError ht
    | exception e e' b => exact has_onError ht
    | cancelled e b =>
      simp only [onOutcome] at ht
      split at ht
      · exact ht.2
      · exact ht.elim
  | finishRaised =>
    have hid := has_onError ht
    exact .inl hid
  | notifyRaised =>
    have hid := has_onError ht
    refine .inr ((if_neg ?_).trans (congrArg some hid))
    rintro ⟨hle, rfl⟩
    simp only [onError, not_lt.2 hle, ↓reduceIte] at ht
    cases ht.1
  | retry | update | failed => exact .inl ⟨rfl, ht.2⟩
  | abort =>
    obtain ⟨hn, hid⟩ := ht
    exact .inr ((if_neg hn).trans (congrArg some hid))
  | reschedule hj =>
    have hid : Job.id c.toKeyConfig _ = id := ht
    exact .inr (by simp only [Sys.takes, hj, Option.map_some, hid])
  | _ => exact ht.elim

/-- What a sweep lists, it listed before, or it is active now. -/
theorem MoveStep.lists (h : MoveStep c s t m a t') (hk : Keyed c s.db) (ht : t'.Lists c id) :
    t.Lists c id ∨ ∃ r lock, m = .sweep r lock ∧ id ∈ (s.db.lanes r).active := by
  cases h with
  | sweep => exact .inr ⟨_, _, rfl, ht⟩
  | sweepGet =>
    obtain ⟨x, hx, job, hj, hid⟩ := ht
    obtain ⟨jobId, hm, rfl⟩ := List.mem_map.1 hx
    rw [← hid, hk _ _ hj]
    exact .inl hm
  | sweepMissing | swept | spared =>
    obtain ⟨x, hx, job, hj, hid⟩ := ht
    exact .inl ⟨x, List.mem_cons_of_mem _ hx, job, hj, hid⟩
  | @outcome job aborted o =>
    cases o with
    | returned result => exact ht.elim
    | jobError e e' b | exception e e' b => exact absurd ht not_lists_onError
    | cancelled e b =>
      simp only [onOutcome] at ht
      split at ht <;> exact ht.elim
  | finishRaised | notifyRaised => exact absurd ht not_lists_onError
  | _ => exact ht.elim

theorem MoveStep.idle_of_sweep {r : Route} {lock : ℕ} (h : MoveStep c s t (.sweep r lock) a t') :
    t = .idle := by
  cases h <;> rfl

theorem MoveStep.lists_of_sweeps (h : MoveStep c s t m a t') (hs : t.sweeps c m = some id) :
    t.Lists c id := by
  cases h with
  | swept | spared =>
    simp only [Task.sweeps, Option.ite_none_right_eq_some, Option.some.injEq] at hs
    exact ⟨_, List.mem_cons_self .., _, rfl, hs.2⟩
  | _ => cases hs

theorem has_of_requeues {slot : Route × String} (h : t.Requeues c slot) : t.Has c slot.2 := by
  cases t with
  | handling job todo =>
    obtain ⟨hs, hx⟩ := h
    refine ⟨?_, congrArg Prod.snd hs⟩
    cases todo with
    | nil => cases hx
    | cons => rfl
  | rescheduling | rescheduled => exact congrArg Prod.snd h
  | _ => exact h.elim

/-! ## Runs -/

/-- The record under `id` is that of a completed job. -/
def Db.Completed (db : Db V) (id : String) : Prop :=
  ∃ job ∈ db.records.get id, job.isComplete = true

/-- The record under `id` is that of a job that was completed on another route. -/
def Db.Foreign (db : Db V) (r : Route) (id : String) : Prop :=
  ∃ job ∈ db.records.get id, job.isComplete = true ∧ job.route ≠ r

instance (db : Db V) (id : String) : Decidable (db.Completed id) := by
  unfold Db.Completed
  infer_instance

instance (db : Db V) (r : Route) (id : String) : Decidable (db.Foreign r id) := by
  unfold Db.Foreign
  infer_instance

variable (c)

/-- The ids that were completed since the last sweep of each task began, and not accepted again. -/
def noteLate [DecidableEq ι] (late : ι → Finset String) (s : Sys ι V) (e : Ev ι V) (k : ι) :
    Finset String :=
  match e with
  | .enqueue job _ =>
    if job.accepted c s.db then (late k).erase (job.id c.toKeyConfig) else late k
  | .move i (.finish _) =>
    match s.tasks i with
    | .finishing job _ =>
      if 0 ≤ job.ttl then insert (job.id c.toKeyConfig) (late k) else late k
    | _ => late k
  | .move i (.sweep _ _) => if k = i then ∅ else late k
  | _ => late k

/-- The system with the jobs that sweeps are late for. -/
abbrev withLate [DecidableEq ι] : Machine (Sys ι V × (ι → Finset String)) (Ev ι V) :=
  (system c).observe (fun _ => ∅) (noteLate c)

/-- A job is completed (and its result kept) only while no other task has it in hand and no other
copy of its id is listed on its route; no sweep takes a job that was completed since it began; a
completed job is not handled because of its `notify`, not rescheduled, and not found listed on a route
it was not completed on. -/
def TerminalStep (p : Sys ι V × (ι → Finset String)) : Ev ι V → Prop
  | .move i (.finish _) =>
    match p.1.tasks i with
    | .finishing job _ => 0 ≤ job.ttl →
        (∀ k, k ≠ i → ¬ (p.1.tasks k).Has c (job.id c.toKeyConfig)) ∧
          job.id c.toKeyConfig ∉ (p.1.db.lanes job.route).queued ∧
            (p.1.db.lanes job.route).active.count (job.id c.toKeyConfig) ≤ 1
    | _ => True
  | .move i (.sweepItem error now) =>
    ∀ id ∈ (p.1.tasks i).sweeps c (.sweepItem error now), id ∉ p.2 i
  | .move i (.raised now e e' b) =>
    ∀ id ∈ p.1.takes c (p.1.tasks i) (.raised now e e' b), ¬ p.1.db.Completed id
  | .move i (.reschedule k error waitTime) =>
    ∀ id ∈ p.1.takes c (p.1.tasks i) (.reschedule k error waitTime), ¬ p.1.db.Completed id
  | .move _ (.dequeue r) => ∀ id ∈ (p.1.db.lanes r).queued.getLast?, ¬ p.1.db.Foreign r id
  | .move _ (.sweep r _) => ∀ id ∈ (p.1.db.lanes r).active, ¬ p.1.db.Foreign r id
  | .move _ (.abort job _ _) =>
    abortDequeued c p.1.db job ≠ 0 → ¬ p.1.db.Foreign job.route (job.id c.toKeyConfig)
  | _ => True

instance [DecidableEq ι] [Fintype ι] (p : Sys ι V × (ι → Finset String)) (e : Ev ι V) :
    Decidable (TerminalStep c p e) := by
  induction e using Ev.casesOn with
  | move i m =>
    induction m using Move.casesOn
    case finish =>
      dsimp only [TerminalStep]
      generalize p.1.tasks i = t
      induction t using Task.casesOn <;> (dsimp only; infer_instance)
    all_goals (dsimp only [TerminalStep]; infer_instance)
  | _ => dsimp only [TerminalStep]; infer_instance

/-- A step keeps the status and the result of completed jobs, unless it enqueues the id anew; the
records may expire. -/
def TerminalStable (s : Sys ι V) (e : Ev ι V) (s' : Sys ι V) : Prop :=
  ∀ id job, s.db.records.get id = some job → job.status = .complete →
    (∃ job', s'.db.records.get id = some job' ∧ job'.status = .complete ∧
        job'.result = job.result) ∨
      (∃ job' now, e = .enqueue job' now ∧ job'.accepted c s.db ∧ job'.id c.toKeyConfig = id) ∨
        (∃ ms, e = .advance ms) ∧ s'.db.records.get id = none

/-- The job `id` of route `r` is done: nothing on the server or in a task leads to a new record. -/
structure AtRest (s : Sys ι V) (late : ι → Finset String) (id : String) (r : Route) : Prop where
  gone : (s.db.lanes r).Gone id
  free : ∀ k, ¬ (s.tasks k).Has c id
  late : ∀ k, (s.tasks k).Lists c id → id ∈ late k

/-- The invariant of the steps. -/
structure Kept (p : Sys ι V × (ι → Finset String)) : Prop where
  sound : ∀ k, (p.1.tasks k).Sound
  rest : ∀ id job, p.1.db.records.get id = some job → job.status = .complete →
    AtRest c p.1 p.2 id job.route

variable {c} {late late' : ι → Finset String} {r : Route}

theorem AtRest.server (h : AtRest c s late id r)
    (ha : ∀ job, a.places c s.db = some job → job.slot c ≠ (r, id)) :
    AtRest c { s with db := apply c s.db a } late id r :=
  ⟨gone_apply c h.gone ha, h.free, h.late⟩

theorem AtRest.move [DecidableEq ι] (h : AtRest c s late id r) (hk : Keyed c s.db) {i : ι}
    (hm : MoveStep c s (s.tasks i) m a t) (ht : s.takes c (s.tasks i) m ≠ some id)
    (hs : ∀ r' lock, m = .sweep r' lock → id ∉ (s.db.lanes r').active)
    (hl : ∀ k, id ∈ late k → id ∈ late' k ∨ k = i ∧ ∃ r' lock, m = .sweep r' lock) :
    AtRest c { db := apply c s.db a, tasks := Function.update s.tasks i t } late' id r where
  gone := by
    refine gone_apply c h.gone fun job hj hslot => ?_
    have hh := has_of_requeues (hm.places hj)
    rw [hslot] at hh
    exact h.free i hh
  free :=
    forall_tasks (fun _ t => ¬ t.Has c id) (fun hh => (hm.has hk hh).elim (h.free i) ht) h.free
  late k hh := by
    simp only [Function.update_apply] at hh
    split at hh
    · rename_i hki
      subst hki
      rcases hm.lists hk hh with ho | ⟨r', lock, rfl, hin⟩
      · rcases hl k (h.late k ho) with hin | ⟨-, r', lock, rfl⟩
        · exact hin
        · rw [hm.idle_of_sweep] at ho
          exact ho.elim
      · exact absurd hin (hs r' lock rfl)
    · rename_i hki
      exact (hl k (h.late k hh)).resolve_right fun hc => hki hc.1

/-! ## Steps -/

/-- No task takes a completed job in hand. -/
theorem Kept.takes_ne (h : Kept c (s, late)) {i : ι} (hf : TerminalStep c (s, late) (.move i m))
    {job : Job V} (hj : s.db.records.get id = some job) (hc : job.status = .complete) :
    s.takes c (s.tasks i) m ≠ some id := by
  have hgone := (h.rest id job hj hc).gone
  have hcomp : job.isComplete = true := by simp [Job.isComplete, hc]
  have hroute : ∀ r, ¬ s.db.Foreign r id → job.route = r := by
    intro r hn
    by_contra hr
    exact hn ⟨job, hj, hcomp, hr⟩
  intro ht
  cases m with
  | dequeue r =>
    obtain rfl := hroute r (hf id ht)
    exact hgone.queued (List.mem_of_getLast? ht)
  | abort job' error ttl =>
    simp only [Sys.takes, Option.ite_none_left_eq_some, Option.some.injEq] at ht
    obtain ⟨hn, hid⟩ := ht
    have hr := hroute job'.route (hid ▸ hf hn)
    refine hn (lremCount_zero.2 ?_)
    rw [hid, ← hr]
    exact hgone.queued
  | raised now e e' b => exact hf id ht ⟨job, hj, hcomp⟩
  | reschedule k error waitTime => exact hf id ht ⟨job, hj, hcomp⟩
  | _ => cases ht

theorem Kept.not_active (h : Kept c (s, late)) {i : ι} {lock : ℕ}
    (hf : TerminalStep c (s, late) (.move i (.sweep r lock))) {job : Job V}
    (hj : s.db.records.get id = some job) (hc : job.status = .complete) :
    id ∉ (s.db.lanes r).active := by
  intro hin
  have hcomp : job.isComplete = true := by simp [Job.isComplete, hc]
  by_cases hr : job.route = r
  · subst hr
    exact (h.rest id job hj hc).gone.active hin
  · exact hf id hin ⟨job, hj, hcomp, hr⟩

/-- The step of a task leaves a completed job at rest. -/
theorem Kept.rest_move [DecidableEq ι] (h : Kept c (s, late)) (hk : Keyed c s.db) {i : ι}
    (hf : TerminalStep c (s, late) (.move i m)) (hm : MoveStep c s (s.tasks i) m a t) {job : Job V}
    (hj : s.db.records.get id = some job) (hc : job.status = .complete) :
    AtRest c { db := apply c s.db a, tasks := Function.update s.tasks i t }
      (noteLate c late s (.move i m)) id job.route := by
  refine (h.rest id job hj hc).move hk hm (h.takes_ne hf hj hc) ?_ ?_
  · rintro r' lock rfl
    exact h.not_active hf hj hc
  · intro k hin
    cases m with
    | sweep r' lock =>
      by_cases hki : k = i
      · exact .inr ⟨hki, r', lock, rfl⟩
      · exact .inl (by simpa [noteLate, hki] using hin)
    | finish now =>
      refine .inl ?_
      simp only [noteLate]
      split
      · split
        · exact Finset.mem_insert_of_mem hin
        · exact hin
      · exact hin
    | _ => exact .inl hin

/-- The `finish` of `process_queue` leaves its job at rest. -/
theorem Kept.rest_finish [DecidableEq ι] {i : ι} {job : Job V} {result : Option V} {now : ℤ}
    (hi : s.tasks i = .finishing job result) (ht : 0 ≤ job.ttl)
    (hf : TerminalStep c (s, late) (.move i (.finish now))) :
    AtRest c
      { db := apply c s.db (.finish job .complete result none now)
        tasks := Function.update s.tasks i (.completed (job.complete .complete result none now)) }
      (noteLate c late s (.move i (.finish now))) (job.id c.toKeyConfig) job.route := by
  simp only [TerminalStep, hi] at hf
  obtain ⟨hfree, hq, ha⟩ := hf ht
  refine ⟨?_, fun k hh => ?_, fun k _ => ?_⟩
  · simp only [apply_lanes, laneOp, ↓reduceIte]
    exact DelayQueue.gone_drop hq ha
  · by_cases hki : k = i
    · subst hki
      simp only [Function.update_self] at hh
      exact hh
    · simp only [Function.update_of_ne hki] at hh
      exact hfree k hki hh
  · simp only [noteLate, hi, ht, ↓reduceIte]
    exact Finset.mem_insert_self _ _

/-- An accepted id has a record that is not completed. -/
theorem not_complete_enqueue {db : Db V} {job j : Job V} {now : ℤ} (ha : job.accepted c db)
    (hid : job.id c.toKeyConfig = id)
    (hj : (apply c db (.enqueue job now)).records.get id = some j) : j.status ≠ .complete := by
  have ha' : enqueueAccepts db job.route (job.id c.toKeyConfig) (job.abortId c.toKeyConfig) := ha
  rw [apply, enqueue_records, if_pos ha', TtlMap.get_set, if_pos hid.symm] at hj
  cases hj
  exact fun hc => by cases hc

theorem Kept.rest_enqueue [DecidableEq ι] (h : Kept c (s, late)) {job j : Job V} {now : ℤ}
    (hj : (apply c s.db (.enqueue job now)).records.get id = some j) (hc : j.status = .complete) :
    AtRest c { s with db := apply c s.db (.enqueue job now) }
      (noteLate c late s (.enqueue job now)) id j.route := by
  have hne : job.accepted c s.db → job.id c.toKeyConfig ≠ id :=
    fun ha hid => not_complete_enqueue ha hid hj hc
  have hj' : s.db.records.get id = some j := by
    refine (get_apply hj).resolve_right fun hw => ?_
    simp only [Act.writes, Option.ite_none_right_eq_some] at hw
    obtain ⟨⟨-, hw⟩, -⟩ := hw
    cases hw
    cases hc
  have hr := (h.rest id j hj' hc).server (a := .enqueue job now) fun job' hp hslot => by
    simp only [Act.places, Option.ite_none_right_eq_some] at hp
    obtain ⟨ha, hp⟩ := hp
    cases hp
    exact hne ha (congrArg Prod.snd hslot)
  refine ⟨hr.gone, hr.free, fun k hk => ?_⟩
  simp only [noteLate]
  split
  · rename_i ha
    exact Finset.mem_erase.2 ⟨(hne ha).symm, hr.late k hk⟩
  · exact hr.late k hk

theorem Kept.cancel [DecidableEq ι] (h : Kept c (s, late)) {i k : ι} {job : Job V} {error : V}
    {aborted : Bool} (hk : s.tasks k = .running job aborted) :
    Kept c ({ s with
      tasks := Function.update (Function.update s.tasks k (.running job true)) i
        (.cancelling job error) }, late) := by
  have hsound := h.sound k
  rw [hk] at hsound
  refine ⟨?_, fun id j hj hc => ?_⟩
  · exact forall_tasks (fun _ t => t.Sound) trivial
      (forall_tasks (fun _ t => t.Sound) hsound h.sound)
  · have hr := h.rest id j hj hc
    have hfree := hr.free k
    rw [hk] at hfree
    refine ⟨hr.gone, ?_, ?_⟩
    · exact forall_tasks (fun _ t => ¬ t.Has c id) hfree
        (forall_tasks (fun _ t => ¬ t.Has c id) hfree hr.free)
    · exact forall_tasks (fun l t => t.Lists c id → id ∈ late l) False.elim
        (forall_tasks (fun l t => t.Lists c id → id ∈ late l) False.elim hr.late)

theorem Kept.server (h : Kept c (s, late)) (hw : a.writes c s.db = none)
    (hp : a.places c s.db = none) : Kept c ({ s with db := apply c s.db a }, late) := by
  refine ⟨h.sound, fun id j hj hc => ?_⟩
  rcases get_apply hj with hj' | ⟨hj', -⟩
  · refine (h.rest id j hj' hc).server fun job hjob => ?_
    rw [hp] at hjob
    cases hjob
  · rw [hw] at hj'
    cases hj'

theorem Kept.step [DecidableEq ι] {p p' : Sys ι V × (ι → Finset String)} (h : Kept c p)
    (hk : Keyed c p.1.db) {e : Ev ι V} (hf : TerminalStep c p e)
    (hp : (withLate c).step p e = some p') : Kept c p' := by
  obtain ⟨s, late⟩ := p
  obtain ⟨s', late'⟩ := p'
  obtain ⟨hs, hn⟩ := Machine.observe_step.1 hp
  dsimp only at hn hs
  subst hn
  cases sysStep_of_step hs with
  | enqueue => exact ⟨h.sound, fun id j hj hc => h.rest_enqueue hj hc⟩
  | schedule | advance | pushBg | removeBg => exact h.server rfl rfl
  | @move i m a t hm =>
    refine ⟨?_, fun id j hj hc => ?_⟩
    · exact forall_tasks (fun _ t => t.Sound) (hm.sound (h.sound i)) h.sound
    · rcases get_apply hj with hj' | ⟨hw, hid⟩
      · exact h.rest_move hk hf hm hj' hc
      · obtain ⟨job, result, now, hi, rfl, rfl⟩ := hm.writes_complete (h.sound i) hw hc
        rw [hi] at hm
        cases hm
        subst hid
        have ht : 0 ≤ job.ttl := by
          by_contra hneg
          have hget := finishTx_get c s.db (job.complete .complete result none now)
          cases (hget.trans (if_neg hneg)).symm.trans hj
        exact Kept.rest_finish hi ht hf
  | cancel hi hk => exact h.cancel hk

/-- The programs take only steps of the queue's machine, which keep the records under their ids. -/
theorem keyed_of_system [DecidableEq ι] {C : Sys ι V → Ev ι V → Prop} {es : List (Ev ι V)}
    (h : (system c).Run C (system c).init es s) : Keyed c s.db := by
  obtain ⟨as, hr⟩ := (system_simulates c).run (D := Machine.Any) (fun _ _ _ => trivial) h
  exact keyed_of_run hr

theorem kept_of_run [DecidableEq ι] {es : List (Ev ι V)} {p : Sys ι V × (ι → Finset String)}
    (h : (withLate c).Run (TerminalStep c) (withLate c).init es p) : Kept c p := by
  induction h with
  | nil => exact ⟨fun _ => trivial, fun id job hj => by cases hj⟩
  | @snoc es t u e hr hf hp ih =>
    have hs : (system c).Run Machine.Any (system c).init es t.1 := hr.forget fun _ _ _ => trivial
    exact ih.step (keyed_of_system hs) hf hp

theorem Kept.stable_move [DecidableEq ι] (h : Kept c (s, late)) {i : ι}
    (hf : TerminalStep c (s, late) (.move i m)) (hm : MoveStep c s (s.tasks i) m a t) {job : Job V}
    (hj : s.db.records.get id = some job) (hc : job.status = .complete) :
    (apply c s.db a).records.get id = some job := by
  have hr := h.rest id job hj hc
  have hne : ∀ j, a.writes c s.db = some j → j.id c.toKeyConfig ≠ id := by
    rintro j hw rfl
    rcases hm.writes hw with hh | hh
    · exact hr.free i hh
    · have hlate := hr.late i (hm.lists_of_sweeps hh)
      cases m with
      | sweepItem error now => exact hf _ hh hlate
      | _ => cases hh
  rcases get_apply_of_ne hne with hsame | ⟨⟨ms, rfl⟩, -⟩
  · rw [hsame, hj]
  · generalize s.tasks i = t₀ at hm
    cases hm

/-- A step that writes no record changes none; only `advance` lets one expire. -/
theorem TerminalStable.server {e : Ev ι V} (hw : a.writes c s.db = none)
    (ha : ∀ ms, a = .advance ms → e = .advance ms) :
    TerminalStable c s e { s with db := apply c s.db a } := by
  intro id job hj hc
  rcases get_apply_of_none hw id with hsame | ⟨⟨ms, hms⟩, hnone⟩
  · exact .inl ⟨job, hsame.trans hj, hc, rfl⟩
  · exact .inr (.inr ⟨⟨ms, ha ms hms⟩, hnone⟩)

theorem TerminalStable.enqueue {job : Job V} {now : ℤ} :
    TerminalStable c s (.enqueue job now) { s with db := apply c s.db (.enqueue job now) } := by
  intro id j hj hc
  by_cases ha : job.accepted c s.db ∧ job.id c.toKeyConfig = id
  · exact .inr (.inl ⟨job, now, rfl, ha⟩)
  · have hne : ∀ j', Act.writes c s.db (.enqueue job now) = some j' → j'.id c.toKeyConfig ≠ id := by
      intro j' hw hid
      simp only [Act.writes, Option.ite_none_right_eq_some] at hw
      obtain ⟨hacc, hw⟩ := hw
      cases hw
      exact ha ⟨hacc, hid⟩
    rcases get_apply_of_ne hne with hsame | ⟨⟨ms, hms⟩, -⟩
    · exact .inl ⟨j, hsame.trans hj, hc, rfl⟩
    · cases hms

/-- **A completed job stays completed**, in every step after every run of such steps. -/
theorem terminal_of_kept [DecidableEq ι] {es : List (Ev ι V)}
    {p p' : Sys ι V × (ι → Finset String)} {e : Ev ι V}
    (h : (withLate c).Run (TerminalStep c) (withLate c).init es p) (hf : TerminalStep c p e)
    (hp : (withLate c).step p e = some p') : TerminalStable c p.1 e p'.1 := by
  have hk := kept_of_run h
  obtain ⟨s, late⟩ := p
  obtain ⟨s', late'⟩ := p'
  obtain ⟨hs, -⟩ := Machine.observe_step.1 hp
  dsimp only at hs
  cases sysStep_of_step hs with
  | enqueue => exact .enqueue
  | schedule | pushBg | removeBg => exact .server rfl fun ms hms => by cases hms
  | advance => exact .server rfl fun ms hms => by cases hms; rfl
  | move hm => exact fun id job hj hc => .inl ⟨job, hk.stable_move hf hm hj hc, hc, rfl⟩
  | cancel => exact fun id job hj hc => .inl ⟨job, hj, hc, rfl⟩

/-! ## A sweep that meets a completed job -/

/-- A job, and the id of its record. -/
def sweptJob : Job String := { function := "f", key := "k" }

def sweptId : String := "_kvq_:global:job:k"

def task₀ : Fin 2 := ⟨0, Nat.two_pos⟩

def task₁ : Fin 2 := ⟨1, Nat.one_lt_two⟩

/-- Task 0 processes the job; task 1 sweeps, and reads the job before or after it is completed. -/
def sweptRun (readFirst : Bool) : List (Ev (Fin 2) String) :=
  [.enqueue sweptJob 0, .move task₀ (.dequeue none), .move task₀ .fetch, .move task₀ (.start 1000),
      .move task₁ (.sweep none 60)] ++
    (if readFirst then
      [.move task₁ .sweepGet, .move task₀ (.outcome (.returned (some "result"))),
        .move task₀ (.finish 2000)]
    else
      [.move task₀ (.outcome (.returned (some "result"))), .move task₀ (.finish 2000),
        .move task₁ .sweepGet])

/-- The status of the record after the run and after the sweep's next step. -/
def Swept (p : Sys (Fin 2) String × (Fin 2 → Finset String)) (status : JobStatus) : Prop :=
  (p.1.db.records.get sweptId).map Job.status = some .complete ∧
    ∃ p' ∈ (withLate {}).step p (.move task₁ (.sweepItem "swept" 3000)),
      (p'.1.db.records.get sweptId).map Job.status = some status

instance (p : Sys (Fin 2) String × (Fin 2 → Finset String)) (status : JobStatus) :
    Decidable (Swept p status) := by
  unfold Swept
  infer_instance

/-- The sweep lists the job while it is active, reads its completed record and aborts it. -/
theorem terminal_broken :
    ∃ p p', (withLate {}).Run Machine.Any (withLate {}).init (sweptRun false) p ∧
      (withLate {}).step p (.move 1 (.sweepItem "swept" 3000)) = some p' ∧
        ¬ TerminalStable {} p.1 (.move 1 (.sweepItem "swept" 3000)) p'.1 := by
  have h : ∃ p, (withLate {}).Run Machine.Any (withLate {}).init (sweptRun false) p ∧
      Swept p .aborted := Machine.exists_run (by decide +kernel) (by decide +kernel)
  obtain ⟨p, hr, hc, p', hp, hs⟩ := h
  refine ⟨p, p', hr, hp, fun hst => ?_⟩
  obtain ⟨job, hj, hjc⟩ := Option.map_eq_some_iff.1 hc
  rcases hst sweptId job hj hjc with ⟨job', hj', hc', -⟩ | ⟨_, _, he, _⟩ | ⟨⟨_, he⟩, _⟩
  · rw [hj', Option.map_some, hc'] at hs
    cases hs
  · cases he
  · cases he

/-- A sweep that has read the job as active, and not stuck, leaves the completed record alone. -/
theorem terminal_readFirst :
    ∃ p p', (withLate {}).Run Machine.Any (withLate {}).init (sweptRun true) p ∧
      Swept p .complete ∧
        (withLate {}).step p (.move 1 (.sweepItem "swept" 3000)) = some p' ∧
          TerminalStable {} p.1 (.move 1 (.sweepItem "swept" 3000)) p'.1 := by
  have h : ∃ p, (withLate {}).Run (TerminalStep {}) (withLate {}).init (sweptRun true) p ∧
      (Swept p .complete ∧ TerminalStep {} p (.move 1 (.sweepItem "swept" 3000))) :=
    Machine.exists_run (by decide +kernel) (by decide +kernel)
  obtain ⟨p, hr, hc, hf⟩ := h
  obtain ⟨-, p', hp, -⟩ := id hc
  exact ⟨p, p', hr.mono fun _ _ _ => trivial, hc, hp, terminal_of_kept hr hf hp⟩

end Kvdb