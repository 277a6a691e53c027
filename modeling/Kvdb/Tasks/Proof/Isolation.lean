import Kvdb.Lib.Noninterference
import Kvdb.Tasks.Proof.Leases
import Kvdb.Tasks.Proof.Provenance

/-!
# Tenants of a queue

`Tenant`: a part of a queue, with routes, job ids, abort keys and tasks of its own. In a run in which
no client and no task crosses the line (`Ev.Within`) nothing does (`Apart`), and the tenant sees what
it would see alone: take all steps of the others out of the run, and its tasks, its lists, its records,
its locks and its messages are the same (`isolation_of_run`).

What is shared is left out of the view: the push list, whose expiry every push renews, and the set of
jobs seen stuck.
-/

namespace Kvdb

open Redis Lib TaskQueue

variable {ι V : Type} (c : QueueConfig)

/-- A part of a queue. -/
structure Tenant (ι : Type) where
  routes : Route → Bool
  ids : String → Bool
  aborts : String → Bool
  tasks : ι → Bool

namespace Tenant

variable (p : Tenant ι)

/-- The job is on the side `b`. -/
structure Side (b : Bool) (job : Job V) : Prop where
  route : p.routes job.route = b
  id : p.ids (job.id c.toKeyConfig) = b
  abort : p.aborts (job.abortId c.toKeyConfig) = b

instance (b : Bool) (job : Job V) : Decidable (p.Side c b job) :=
  decidable_of_iff (p.routes job.route = b ∧ p.ids (job.id c.toKeyConfig) = b ∧
    p.aborts (job.abortId c.toKeyConfig) = b)
    ⟨fun h => ⟨h.1, h.2.1, h.2.2⟩, fun h => ⟨h.route, h.id, h.abort⟩⟩

/-- The server shows the tenant the same. -/
structure Same (db db' : Db V) : Prop where
  lanes : ∀ r, p.routes r = true → db.lanes r = db'.lanes r
  scheduled : ∀ r, p.routes r = true → db.scheduled r = db'.scheduled r
  sweep : ∀ r, p.routes r = true → db.sweep r = db'.sweep r
  records : ∀ id, p.ids id = true → db.records id = db'.records id
  abort : ∀ id, p.aborts id = true → db.abort id = db'.abort id
  published : db.published.filter (fun m => p.ids m.1) = db'.published.filter fun m => p.ids m.1
  clock : db.clock = db'.clock

end Tenant

/-- The step is on the side `b`; time is the tenant's, too. -/
def Act.On (p : Tenant ι) (b : Bool) : Act V → Prop
  | .enqueue job _ | .finish job _ _ _ _ | .retry job _ _ _ _ | .reschedule job _ _ _ _
  | .abort job _ _ | .dropActive job | .dropAbort job | .update job _ | .checkStuck job =>
    p.Side c b job
  | .schedule r _ _ | .cleanup r _ | .dequeue r => p.routes r = b
  | .sweepMissing r jobId => p.routes r = b ∧ p.ids jobId = b
  | .publish jobId _ => p.ids jobId = b
  | .advance _ => b = true
  | .saddStuck _ | .sremStuck _ | .pushBg _ | .removeBg _ | .read => True

variable {c} {p : Tenant ι} {db db' : Db V} {a : Act V} {job : Job V} {id : String} {r : Route}
  {b : Bool}

/-! ## The server -/

namespace Tenant

theorem Same.refl (p : Tenant ι) (db : Db V) : p.Same db db :=
  ⟨fun _ _ => rfl, fun _ _ => rfl, fun _ _ => rfl, fun _ _ => rfl, fun _ _ => rfl, rfl, rfl⟩

theorem Same.trans {db₁ db₂ db₃ : Db V} (h : p.Same db₁ db₂) (h' : p.Same db₂ db₃) :
    p.Same db₁ db₃ where
  lanes r hr := (h.lanes r hr).trans (h'.lanes r hr)
  scheduled r hr := (h.scheduled r hr).trans (h'.scheduled r hr)
  sweep r hr := (h.sweep r hr).trans (h'.sweep r hr)
  records id hid := (h.records id hid).trans (h'.records id hid)
  abort id hid := (h.abort id hid).trans (h'.abort id hid)
  published := h.published.trans h'.published
  clock := h.clock.trans h'.clock

theorem Same.symm (h : p.Same db db') : p.Same db' db where
  lanes r hr := (h.lanes r hr).symm
  scheduled r hr := (h.scheduled r hr).symm
  sweep r hr := (h.sweep r hr).symm
  records id hid := (h.records id hid).symm
  abort id hid := (h.abort id hid).symm
  published := h.published.symm
  clock := h.clock.symm

theorem Same.accepts (h : p.Same db db') (hs : p.Side c true job) :
    enqueueAccepts db job.route (job.id c.toKeyConfig) (job.abortId c.toKeyConfig) =
      enqueueAccepts db' job.route (job.id c.toKeyConfig) (job.abortId c.toKeyConfig) := by
  rw [enqueueAccepts, enqueueAccepts, decide_eq_decide, TtlMap.exists?, TtlMap.exists?,
    h.lanes _ hs.route, h.abort _ hs.abort]

/-- A place of one side is not a place of the other one. -/
theorem ne_of_sides {α : Type*} {f : α → Bool} {x y : α} (hx : f x = true) (hy : f y = false) :
    x ≠ y := by
  rintro rfl
  exact Bool.noConfusion (hx.symm.trans hy)

end Tenant

open Tenant

/-- **The lists of a route** after a step of the others, -/
theorem lanes_outside (h : a.On c p false) (hr : p.routes r = true) :
    (apply c db a).lanes r = db.lanes r := by
  have hop : laneOp c db r a = .keep := by
    cases a with
    | enqueue | finish | retry | reschedule | abort | dropActive | checkStuck =>
      simp only [laneOp, ne_comm.1 (ne_of_sides hr h.route), false_and, ↓reduceIte]
    | schedule | dequeue => simp only [laneOp, ne_comm.1 (ne_of_sides hr h), false_and, ↓reduceIte]
    | sweepMissing => simp only [laneOp, ne_comm.1 (ne_of_sides hr h.1), ↓reduceIte]
    | _ => rfl
  rw [apply_lanes, hop]
  rfl

/-- and after one of the tenant. -/
theorem lanes_inside (h : p.Same db db') (ha : a.On c p true) (hr : p.routes r = true) :
    (apply c db a).lanes r = (apply c db' a).lanes r := by
  have hop : laneOp c db r a = laneOp c db' r a := by
    cases a with
    | enqueue job now =>
      by_cases he : job.route = r
      · subst he
        simp only [laneOp, h.accepts ha]
      · simp only [laneOp, he, false_and, ↓reduceIte]
    | schedule =>
      have hlock : db.scheduled.exists? r = db'.scheduled.exists? r := by
        rw [TtlMap.exists?, TtlMap.exists?, h.scheduled r hr]
      simp only [laneOp, hlock]
    | _ => rfl
  rw [apply_lanes, apply_lanes, hop, h.lanes r hr]

/-! ### Records -/

/-- Eviction at the same time keeps places the same. -/
theorem evict_congr {κ β : Type*} {m m' : TtlMap κ β} {k : κ} (now : ℕ) (h : m k = m' k) :
    m.evict now k = m'.evict now k := by
  simp only [TtlMap.evict, h]

theorem records_outside (h : a.On c p false) (hid : p.ids id = true) :
    (apply c db a).records id = db.records id := by
  cases a with
  | enqueue job now =>
    rw [apply, enqueue_records]
    split
    · rw [TtlMap.set_apply, if_neg (ne_of_sides hid h.id)]
    · rfl
  | schedule r lock now => rw [apply, scheduleScript_records]
  | cleanup r lock => rw [apply, cleanupScript_records]
  | finish job status result error now =>
    have hne : id ≠ (job.complete status result error now).id c.toKeyConfig := ne_of_sides hid h.id
    rw [apply, finishTx_records]
    split
    · rw [TtlMap.setex_apply, if_neg hne]
    · split
      · rw [TtlMap.set_apply, if_neg hne]
      · rw [TtlMap.del_apply, if_neg hne]
  | retry job error now rnd time =>
    have hne : id ≠ (job.reset .queued error now).id c.toKeyConfig := ne_of_sides hid h.id
    rw [apply, retryTx_records, TtlMap.set_apply, if_neg hne]
  | reschedule job error now waitTime time =>
    have hne : id ≠ (job.reset .queued error now).id c.toKeyConfig := ne_of_sides hid h.id
    rw [apply, rescheduleTx_records, TtlMap.set_apply, if_neg hne]
  | abort job error ttl =>
    exact (TtlMap.expire_apply ..).trans (if_neg (ne_of_sides hid h.id))
  | update job now => exact (TtlMap.set_apply ..).trans (if_neg (ne_of_sides hid h.id))
  | sweepMissing r jobId => simp only [apply, sweepMissingTx, pushRemove_records, onLane_records]
  | pushBg => rw [apply, pushAdd_records]
  | removeBg => rw [apply, pushRemove_records]
  | advance => cases h
  | _ => rfl

theorem records_inside (h : p.Same db db') (ha : a.On c p true) (hid : p.ids id = true) :
    (apply c db a).records id = (apply c db' a).records id := by
  have hrec := h.records id hid
  cases a with
  | enqueue job now =>
    simp only [apply, enqueue_records, h.accepts ha]
    split
    · rw [TtlMap.set_apply, TtlMap.set_apply, hrec]
    · exact hrec
  | schedule r lock now => simpa only [apply, scheduleScript_records] using hrec
  | cleanup r lock => simpa only [apply, cleanupScript_records] using hrec
  | finish job status result error now =>
    simp only [apply, finishTx_records, h.clock]
    split
    · rw [TtlMap.setex_apply, TtlMap.setex_apply, hrec]
    · split
      · rw [TtlMap.set_apply, TtlMap.set_apply, hrec]
      · rw [TtlMap.del_apply, TtlMap.del_apply, hrec]
  | retry job error now rnd time =>
    simp only [apply, retryTx_records]
    rw [TtlMap.set_apply, TtlMap.set_apply, hrec]
  | reschedule job error now waitTime time =>
    simp only [apply, rescheduleTx_records]
    rw [TtlMap.set_apply, TtlMap.set_apply, hrec]
  | abort job error ttl =>
    have hold : db.records (job.id c.toKeyConfig) = db'.records (job.id c.toKeyConfig) :=
      h.records _ ha.id
    refine (TtlMap.expire_apply ..).trans (Eq.trans ?_ (TtlMap.expire_apply ..).symm)
    have hclock : (db.onLane job.route fun l =>
        (l.lremQueued 0 (job.id c.toKeyConfig)).zrem (job.id c.toKeyConfig)).clock = db'.clock :=
      h.clock
    rw [onLane_records, onLane_records, hold, hrec, hclock]
    rfl
  | update job now =>
    simp only [apply]
    rw [TtlMap.set_apply, TtlMap.set_apply, hrec]
  | sweepMissing r jobId =>
    simpa only [apply, sweepMissingTx, pushRemove_records, onLane_records] using hrec
  | pushBg => simpa only [apply, pushAdd_records] using hrec
  | removeBg => simpa only [apply, pushRemove_records] using hrec
  | advance ms =>
    show db.records.evict (db.clock + ms) id = db'.records.evict (db'.clock + ms) id
    rw [h.clock]
    exact evict_congr _ hrec
  | _ => exact hrec

/-! ### Locks, abort keys and time -/

theorem scheduled_outside (h : a.On c p false) (hr : p.routes r = true) :
    (apply c db a).scheduled r = db.scheduled r := by
  refine (congrFun (congrArg Keys.scheduled (apply_keys db a)) r).trans ?_
  cases a with
  | schedule => exact lockKey_of_ne (ne_of_sides hr h)
  | advance => cases h
  | _ => rfl

theorem sweep_outside (h : a.On c p false) (hr : p.routes r = true) :
    (apply c db a).sweep r = db.sweep r := by
  refine (congrFun (congrArg Keys.sweep (apply_keys db a)) r).trans ?_
  cases a with
  | cleanup => exact lockKey_of_ne (ne_of_sides hr h)
  | advance => cases h
  | _ => rfl

theorem abort_outside (h : a.On c p false) (hid : p.aborts id = true) :
    (apply c db a).abort id = db.abort id := by
  refine (congrFun (congrArg Keys.abort (apply_keys db a)) id).trans ?_
  cases a with
  | abort => exact (TtlMap.setex_apply ..).trans (if_neg (ne_of_sides hid h.abort))
  | dropAbort => exact (TtlMap.del_apply ..).trans (if_neg (ne_of_sides hid h.abort))
  | advance => cases h
  | _ => rfl

theorem clock_outside (h : a.On c p false) : (apply c db a).clock = db.clock := by
  refine (congrArg Keys.clock (apply_keys db a)).trans ?_
  cases a with
  | advance => cases h
  | _ => rfl

theorem scheduled_inside (h : p.Same db db') (ha : a.On c p true) (hr : p.routes r = true) :
    (apply c db a).scheduled r = (apply c db' a).scheduled r := by
  have hold := h.scheduled r hr
  refine (congrFun (congrArg Keys.scheduled (apply_keys db a)) r).trans (Eq.trans ?_
    (congrFun (congrArg Keys.scheduled (apply_keys db' a)) r).symm)
  cases a with
  | schedule r' lock now =>
    simp only [Act.keys, h.clock]
    exact lockKey_congr _ hold (h.scheduled r' ha)
  | advance ms =>
    simp only [Act.keys, Db.keys, Db.advance, h.clock]
    exact evict_congr _ hold
  | _ => exact hold

theorem sweep_inside (h : p.Same db db') (ha : a.On c p true) (hr : p.routes r = true) :
    (apply c db a).sweep r = (apply c db' a).sweep r := by
  have hold := h.sweep r hr
  refine (congrFun (congrArg Keys.sweep (apply_keys db a)) r).trans (Eq.trans ?_
    (congrFun (congrArg Keys.sweep (apply_keys db' a)) r).symm)
  cases a with
  | cleanup r' lock =>
    simp only [Act.keys, h.clock]
    exact lockKey_congr _ hold (h.sweep r' ha)
  | advance ms =>
    simp only [Act.keys, Db.keys, Db.advance, h.clock]
    exact evict_congr _ hold
  | _ => exact hold

theorem abort_inside (h : p.Same db db') (hid : p.aborts id = true) :
    (apply c db a).abort id = (apply c db' a).abort id := by
  have hold := h.abort id hid
  refine (congrFun (congrArg Keys.abort (apply_keys db a)) id).trans (Eq.trans ?_
    (congrFun (congrArg Keys.abort (apply_keys db' a)) id).symm)
  cases a with
  | abort job error ttl =>
    simp only [Act.keys, h.clock]
    rw [TtlMap.setex_apply, TtlMap.setex_apply, hold]
  | dropAbort =>
    simp only [Act.keys]
    rw [TtlMap.del_apply, TtlMap.del_apply, hold]
  | advance ms =>
    simp only [Act.keys, Db.keys, Db.advance, h.clock]
    exact evict_congr _ hold
  | _ => exact hold

theorem clock_inside (h : p.Same db db') : (apply c db a).clock = (apply c db' a).clock := by
  refine (congrArg Keys.clock (apply_keys db a)).trans (Eq.trans ?_
    (congrArg Keys.clock (apply_keys db' a)).symm)
  cases a with
  | advance ms => exact congrArg (· + ms) h.clock
  | _ => exact h.clock

/-! ### Both views -/

/-- **A step of the others** is not seen. -/
theorem same_outside (h : a.On c p false) (db : Db V) : p.Same (apply c db a) db where
  lanes _ hr := lanes_outside h hr
  scheduled _ hr := scheduled_outside h hr
  sweep _ hr := sweep_outside h hr
  records _ hid := records_outside h hid
  abort _ hid := abort_outside h hid
  published := by
    rw [apply_published, List.filter_append]
    cases a with
    | publish jobId =>
      have hp : p.ids jobId = false := h
      simp [Act.message, hp]
    | _ => exact List.append_nil _
  clock := clock_outside h

/-- **A step of the tenant** does the same on servers that show it the same. -/
theorem same_inside (h : p.Same db db') (ha : a.On c p true) :
    p.Same (apply c db a) (apply c db' a) where
  lanes _ hr := lanes_inside h ha hr
  scheduled _ hr := scheduled_inside h ha hr
  sweep _ hr := sweep_inside h ha hr
  records _ hid := records_inside h ha hid
  abort _ hid := abort_inside h hid
  published := by
    rw [apply_published, apply_published, List.filter_append, List.filter_append, h.published]
  clock := clock_inside h

/-! ## Tasks -/

variable (c) in
/-- What a task has from the server is on the side `b`. -/
def Task.On (p : Tenant ι) (b : Bool) : Task ι V → Prop
  | .idle => True
  | .fetched jobId => p.ids jobId = b
  | .snapshot r jobIds => p.routes r = b ∧ ∀ jobId ∈ jobIds, p.ids jobId = b
  | .sweeping r todo =>
    p.routes r = b ∧ ∀ x ∈ todo, p.ids x.1 = b ∧ ∀ job ∈ x.2, p.Side c b job
  | .polled k job _ => p.tasks k = b ∧ p.Side c b job
  | .starting job | .running job _ | .finishing job _ | .completed job | .handling job _
  | .aborting job _ _ | .abortLast job | .cancelling job _ | .rescheduling job _ _
  | .rescheduled job _ _ => p.Side c b job

variable (c) in
/-- The step does not cross the line. -/
def Ev.Within (p : Tenant ι) : Ev ι V → Prop
  | .enqueue job _ => p.Side c (p.routes job.route) job
  | .move i (.dequeue r) | .move i (.sweep r _) => p.routes r = p.tasks i
  | .move i (.abort job _ _) => p.Side c (p.tasks i) job
  | .move i (.poll k) | .move i (.reschedule k _ _) | .cancel i k => p.tasks k = p.tasks i
  | _ => True

instance (p : Tenant ι) (e : Ev ι V) : Decidable (e.Within c p) := by
  induction e using Ev.casesOn with
  | move i m => induction m using Move.casesOn <;> (dsimp only [Ev.Within]; infer_instance)
  | _ => dsimp only [Ev.Within]; infer_instance

variable (c p) in
/-- Nothing has crossed the line. -/
structure Apart (s : Sys ι V) : Prop where
  keyed : Keyed c s.db
  lanes : ∀ r id, ¬ (s.db.lanes r).Gone id → p.ids id = p.routes r
  records : ∀ id job, s.db.records.get id = some job → p.Side c (p.ids id) job
  tasks : ∀ i, (s.tasks i).On c p (p.tasks i)

variable {s s' : Sys ι V} {t t' : Task ι V} {m : Move ι V} {i : ι}

namespace Tenant

theorem Side.congr {job' : Job V} (h : p.Side c b job) (ho : job.order = job'.order) :
    p.Side c b job' := by
  have hkey : job.order.key = job'.order.key := congrArg Job.key ho
  have hid : job.order.workerId = job'.order.workerId := congrArg Job.workerId ho
  have hname : job.order.workerName = job'.order.workerName := congrArg Job.workerName ho
  change job.key = job'.key at hkey
  change job.workerId = job'.workerId at hid
  change job.workerName = job'.workerName at hname
  refine ⟨?_, ?_, ?_⟩
  · rw [← h.route, Job.route, Job.route, hid, hname]
  · rw [← h.id, Job.id, Job.id, hkey]
  · rw [← h.abort, Job.abortId, Job.abortId, hkey]

end Tenant

theorem side_of_places (h : a.On c p b) (hp : a.places c db = some job) : p.Side c b job := by
  cases a with
  | enqueue =>
    obtain ⟨-, hp⟩ := Option.ite_none_right_eq_some.1 hp
    cases hp
    exact h
  | retry | reschedule | checkStuck =>
    cases hp
    exact h
  | _ => cases hp

theorem side_of_writes (h : a.On c p b) (hw : a.writes c db = some job) : p.Side c b job := by
  cases a with
  | enqueue =>
    obtain ⟨-, hw⟩ := Option.ite_none_right_eq_some.1 hw
    cases hw
    exact Side.congr h rfl
  | finish | retry | reschedule | update =>
    cases hw
    exact Side.congr h rfl
  | _ => cases hw

/-- A step of the server on one side, with tasks that stay on theirs. -/
theorem Apart.server (h : Apart c p s) (ha : a.On c p b) {tasks : ι → Task ι V}
    (ht : ∀ i, (tasks i).On c p (p.tasks i)) : Apart c p { db := apply c s.db a, tasks } where
  keyed := h.keyed.step a
  lanes r id hn := by
    by_contra hne
    refine hn (gone_apply c ?_ fun job hp hslot => hne ?_)
    · by_contra hg
      exact hne (h.lanes r id hg)
    · obtain ⟨rfl, rfl⟩ := Prod.mk.inj hslot
      have hside := side_of_places ha hp
      exact hside.id.trans hside.route.symm
  records id job hj := by
    rcases get_apply hj with ho | ⟨hw, rfl⟩
    · exact h.records id job ho
    · have hside := side_of_writes ha hw
      rwa [hside.id]
  tasks := ht

theorem on_onError {e : V} {retryable : Option Bool} {skip : List (Exit V)}
    (h : p.Side c b job) : (onError job e retryable skip : Task ι V).On c p b := by
  unfold onError
  split
  · exact h
  · split
    · exact h
    · exact h.congr rfl
    · exact h

theorem on_onOutcome {aborted : Bool} {o : Outcome V} (h : p.Side c b job) :
    (onOutcome job aborted o : Task ι V).On c p b := by
  cases o with
  | returned => exact h
  | jobError | exception => exact on_onError h
  | cancelled =>
    simp only [onOutcome]
    split
    · exact h
    · trivial

theorem side_of_context (h : t.context = some job) (ht : t.On c p b) : p.Side c b job := by
  cases t <;> cases h <;> exact ht

/-- **A step of a task** is on its side, and so is the task then. -/
theorem MoveStep.on (h : MoveStep c s (s.tasks i) m a t') (hs : Apart c p s)
    (hw : (Ev.move i m).Within c p) : a.On c p (p.tasks i) ∧ t'.On c p (p.tasks i) := by
  have ht := hs.tasks i
  have hcontext : ∀ {k job}, (s.tasks k).context = some job → p.tasks k = p.tasks i →
      p.Side c (p.tasks i) job := fun hk hki => hki ▸ side_of_context hk (hs.tasks _)
  have hlisted : ∀ {r id}, ¬ (s.db.lanes r).Gone id → p.routes r = p.tasks i →
      p.ids id = p.tasks i := fun hn hr => (hs.lanes _ _ hn).trans hr
  have hrecord : ∀ {id job}, s.db.records.get id = some job → p.ids id = p.tasks i →
      p.Side c (p.tasks i) job := fun hj hid => hid ▸ hs.records _ _ hj
  generalize s.tasks i = t at h ht
  cases h with
  | blocked => exact ⟨hw, trivial⟩
  | dequeued hq =>
    exact ⟨hw, hlisted (fun hg => hg.queued (List.mem_of_getLast? hq)) hw⟩
  | missing | leave | notAborted => exact ⟨trivial, trivial⟩
  | fetch hr => exact ⟨trivial, hrecord hr ht⟩
  | start => exact ⟨ht.congr rfl, ht.congr rfl⟩
  | outcome => exact ⟨trivial, on_onOutcome ht⟩
  | finish => exact ⟨ht, ht.congr rfl⟩
  | published => exact ⟨ht.id, trivial⟩
  | finishRaised => exact ⟨trivial, on_onError (ht.congr rfl)⟩
  | notifyRaised => exact ⟨trivial, on_onError ht⟩
  | retry | update | failed => exact ⟨ht, ht.congr rfl⟩
  | locked => exact ⟨hw, trivial⟩
  | sweep => exact ⟨hw, hw, fun jobId hm => hlisted (fun hg => hg.active hm) hw⟩
  | sweepGet =>
    refine ⟨trivial, ht.1, fun x hx => ?_⟩
    obtain ⟨jobId, hm, rfl⟩ := List.mem_map.1 hx
    exact ⟨ht.2 jobId hm, fun job hj => hrecord hj (ht.2 jobId hm)⟩
  | sweepMissing =>
    exact ⟨⟨ht.1, (ht.2 _ (List.mem_cons_self ..)).1⟩, ht.1,
      fun x hx => ht.2 x (List.mem_cons_of_mem _ hx)⟩
  | swept =>
    exact ⟨(ht.2 _ (List.mem_cons_self ..)).2 _ rfl, ht.1,
      fun x hx => ht.2 x (List.mem_cons_of_mem _ hx)⟩
  | spared => exact ⟨trivial, ht.1, fun x hx => ht.2 x (List.mem_cons_of_mem _ hx)⟩
  | abort => exact ⟨hw, hw⟩
  | dropActive | abortLast | reschedulePut => exact ⟨ht, trivial⟩
  | abortFinish | pollFinish | rescheduleFinish => exact ⟨ht, ht⟩
  | poll hk => exact ⟨trivial, hw, hcontext hk hw⟩
  | reschedule hk => exact ⟨trivial, hcontext hk hw⟩

/-! ## The system -/

variable (p) in
/-- The step is the tenant's; time is everyone's, the push list no one's. -/
def Ev.inside : Ev ι V → Bool
  | .enqueue job _ => p.routes job.route
  | .schedule r _ _ => p.routes r
  | .advance _ => true
  | .pushBg _ | .removeBg _ => false
  | .move i _ | .cancel i _ => p.tasks i

variable (p) in
/-- The tenant sees the same. -/
structure SameView (s s' : Sys ι V) : Prop where
  db : p.Same s.db s'.db
  tasks : ∀ i, p.tasks i = true → s.tasks i = s'.tasks i

theorem cleanupScript_reply (db : Db V) (r : Route) (lock : ℕ) :
    (cleanupScript db r lock).2 =
      if db.sweep.exists? r then none else some (db.lanes r).active := by
  unfold cleanupScript
  split <;> rfl

/-- A task of the tenant takes the same step. -/
theorem move_sameView (h : SameView p s s') (hs : Apart c p s) (hi : p.tasks i = true)
    (hw : (Ev.move i m).Within c p) : move c s (s.tasks i) m = move c s' (s.tasks i) m := by
  have ht : (s.tasks i).On c p true := hi ▸ hs.tasks i
  have hget : ∀ {id}, p.ids id = true → s.db.records.get id = s'.db.records.get id := by
    intro id hid
    rw [TtlMap.get, TtlMap.get, h.db.records id hid]
  generalize s.tasks i = t at ht
  cases m with
  | dequeue r =>
    have hr : p.routes r = true := Eq.trans hw hi
    simp only [move, h.db.lanes r hr]
  | fetch =>
    cases t with
    | fetched jobId => simp only [move, hget ht]
    | _ => rfl
  | sweep r lock =>
    have hr : p.routes r = true := Eq.trans hw hi
    have hex : s.db.sweep.exists? r = s'.db.sweep.exists? r := by
      rw [TtlMap.exists?, TtlMap.exists?, h.db.sweep r hr]
    simp only [move, cleanupScript_reply, hex, h.db.lanes r hr]
  | sweepGet =>
    cases t with
    | snapshot r jobIds =>
      have hmap : (jobIds.map fun jobId => (jobId, s.db.records.get jobId)) =
          jobIds.map fun jobId => (jobId, s'.db.records.get jobId) :=
        List.map_congr_left fun jobId hm => by rw [hget (ht.2 jobId hm)]
      simp only [move, hmap]
    | _ => rfl
  | abort job error ttl =>
    have hside : p.Side c true job := hi ▸ hw
    simp only [move, abortDequeued, h.db.lanes _ hside.route]
  | poll k =>
    have hk : p.tasks k = true := Eq.trans hw hi
    have hold : (s.tasks k).On c p true := hk ▸ hs.tasks k
    simp only [move, ← h.tasks k hk]
    cases hc : (s.tasks k).context with
    | none => cases t <;> rfl
    | some job =>
      have hside := side_of_context hc hold
      have habort : s.db.abort.get (job.abortId c.toKeyConfig) =
          s'.db.abort.get (job.abortId c.toKeyConfig) := by
        rw [TtlMap.get, TtlMap.get, h.db.abort _ hside.abort]
      cases t with
      | idle => simp only [habort]
      | _ => rfl
  | reschedule k =>
    have hk : p.tasks k = true := Eq.trans hw hi
    simp only [move, ← h.tasks k hk]
  | _ => rfl

variable [DecidableEq ι] {e : Ev ι V}

theorem Apart.step (h : Apart c p s) (hw : e.Within c p) (hs : (system c).step s e = some s') :
    Apart c p s' := by
  have hstep := sysStep_of_step hs
  cases hstep with
  | enqueue => exact h.server (a := .enqueue _ _) hw h.tasks
  | schedule => exact h.server (a := .schedule _ _ _) rfl h.tasks
  | advance => exact h.server (a := .advance _) rfl h.tasks
  | pushBg => exact h.server (a := .pushBg _) (b := true) trivial h.tasks
  | removeBg => exact h.server (a := .removeBg _) (b := true) trivial h.tasks
  | @move i m a t hm =>
    obtain ⟨ha, ht⟩ := hm.on h hw
    exact h.server ha (forall_tasks (fun i t => t.On c p (p.tasks i)) ht h.tasks)
  | @cancel i k job job' error aborted hi hk =>
    have hk' : p.Side c (p.tasks i) job' := by
      have hside := h.tasks k
      rw [hk] at hside
      exact hw ▸ hside
    refine ⟨h.keyed, h.lanes, h.records, ?_⟩
    refine forall_tasks (fun i t => t.On c p (p.tasks i)) hk' ?_
    exact forall_tasks (fun i t => t.On c p (p.tasks i)) (hw.symm ▸ hk') h.tasks

/-- A step of the others is not seen. -/
theorem sameView_outside (h : SameView p s s') (hI : Apart c p s) (hw : e.Within c p)
    (ho : e.inside p = false) {u : Sys ι V} (hs : (system c).step s e = some u) :
    SameView p u s' := by
  have hserver : ∀ {a : Act V}, a.On c p false → p.Same (apply c s.db a) s'.db :=
    fun ha => (same_outside ha s.db).trans h.db
  have hother : ∀ {i : ι}, p.tasks i = false → ∀ (t : Task ι V) (tasks : ι → Task ι V),
      (∀ k, p.tasks k = true → tasks k = s'.tasks k) →
      ∀ k, p.tasks k = true → Function.update tasks i t k = s'.tasks k := by
    intro i hi t tasks ht k hk
    rw [Function.update_of_ne (ne_of_sides hk hi)]
    exact ht k hk
  have hstep := sysStep_of_step hs
  cases hstep with
  | @enqueue job now =>
    have hside : p.Side c false job := by
      have hr : p.routes job.route = false := ho
      exact hr ▸ hw
    exact ⟨hserver (a := .enqueue job now) hside, h.tasks⟩
  | schedule => exact ⟨hserver (a := .schedule _ _ _) ho, h.tasks⟩
  | advance => cases ho
  | pushBg => exact ⟨hserver (a := .pushBg _) trivial, h.tasks⟩
  | removeBg => exact ⟨hserver (a := .removeBg _) trivial, h.tasks⟩
  | @move i m a t hm =>
    have hi : p.tasks i = false := ho
    obtain ⟨ha, -⟩ := hm.on hI hw
    exact ⟨hserver (hi ▸ ha), hother hi t s.tasks h.tasks⟩
  | @cancel i k =>
    have hi : p.tasks i = false := ho
    exact ⟨h.db, hother hi _ _ (hother (Eq.trans hw hi) _ _ h.tasks)⟩

/-- A step of the tenant is the same from states that show it the same. -/
theorem sameView_inside (h : SameView p s s') (hI : Apart c p s) (hw : e.Within c p)
    (ho : e.inside p = true) {u : Sys ι V} (hs : (system c).step s e = some u) :
    ∃ u', (system c).step s' e = some u' ∧ SameView p u u' := by
  have htasks : ∀ {tasks tasks' : ι → Task ι V} (i : ι) (t : Task ι V),
      (∀ k, p.tasks k = true → tasks k = tasks' k) → ∀ k, p.tasks k = true →
        Function.update tasks i t k = Function.update tasks' i t k := by
    intro tasks tasks' i t ht k hk
    rw [Function.update_apply, Function.update_apply, ht k hk]
  obtain ⟨⟨a, tasks⟩, hp, rfl⟩ := Option.map_eq_some_iff.1 hs
  -- it is enough that the plan is the same
  suffices hplan : a.On c p true ∧ ∃ tasks', s'.plan c e = some (a, tasks') ∧
      ∀ k, p.tasks k = true → tasks k = tasks' k by
    obtain ⟨ha, tasks', hp', ht⟩ := hplan
    exact ⟨_, Option.map_eq_some_iff.2 ⟨_, hp', rfl⟩, same_inside h.db ha, ht⟩
  cases e with
  | enqueue job now =>
    cases hp
    have hr : p.routes job.route = true := ho
    have hside : p.Side c true job := hr ▸ hw
    exact ⟨hside, _, rfl, h.tasks⟩
  | schedule r lock now =>
    cases hp
    exact ⟨ho, _, rfl, h.tasks⟩
  | advance ms =>
    cases hp
    exact ⟨rfl, _, rfl, h.tasks⟩
  | pushBg | removeBg => cases ho
  | move i m =>
    have hi : p.tasks i = true := ho
    obtain ⟨⟨a', t⟩, hm, heq⟩ := Option.map_eq_some_iff.1 hp
    cases heq
    have hon := ((moveStep_of_move hm).on hI hw).1
    rw [hi] at hon
    rw [move_sameView h hI hi hw] at hm
    refine ⟨hon, Function.update s'.tasks i t, ?_, htasks i t h.tasks⟩
    rw [Sys.plan, ← h.tasks i hi, hm]
    rfl
  | cancel i k =>
    have hi : p.tasks i = true := ho
    have hk : p.tasks k = true := Eq.trans hw hi
    simp only [Sys.plan, ← h.tasks i hi, ← h.tasks k hk]
    simp only [Sys.plan] at hp
    split at hp
    · split at hp
      · rename_i hc
        cases hp
        rw [if_pos hc]
        exact ⟨trivial, _, rfl, htasks i _ (htasks k _ h.tasks)⟩
      · cases hp
    · cases hp

theorem isolates : (system c).Isolates (fun _ e => e.Within c p) (Apart c p) (Ev.inside p)
    (SameView (ι := ι) (V := V) p) where
  inv _ _ _ hI hw hs := hI.step hw hs
  outside _ _ _ _ hI h hw ho hs := sameView_outside h hI hw ho hs
  inside _ _ _ _ hI _ h hw ho hs := by
    obtain ⟨u', hs', hu⟩ := sameView_inside h hI hw ho hs
    exact ⟨u', hs', hw, hu⟩

omit [DecidableEq ι] in
theorem apart_init : Apart c p ({} : Sys ι V) where
  keyed _ _ h := by cases h
  lanes _ _ hn :=
    absurd { queued := List.not_mem_nil, active := List.not_mem_nil, score := rfl } hn
  records _ _ h := by cases h
  tasks _ := trivial

/-- Two workers: one serves its own route, the other one the common route. -/
def ownWorker : Tenant (Fin 2) where
  routes r := r = some "w"
  ids id := id = "_kvq_:global:job:k"
  aborts id := id = "_kvq_:global:abort:k"
  tasks i := i = task₀

/-- Both are given a job and take it up. -/
def sharedRun : List (Ev (Fin 2) String) :=
  [.enqueue { function := "f", key := "j" } 0,
    .enqueue { function := "f", key := "k", workerId := some "w" } 0, .move task₁ (.dequeue none),
    .move task₀ (.dequeue (some "w")), .move task₁ .fetch, .move task₀ .fetch, .advance 5,
    .move task₁ (.start 1), .move task₀ (.start 2)]

/-- **A tenant sees what it would see alone.** -/
theorem isolation_of_run {es : List (Ev ι V)} {s : Sys ι V}
    (h : (system c).Run (fun _ e => e.Within c p) (system c).init es s) :
    ∃ s', (system c).Run (fun _ e => e.Within c p) (system c).init (es.filter (Ev.inside p)) s' ∧
      SameView p s s' :=
  isolates.run apart_init apart_init ⟨.refl p _, fun _ _ => rfl⟩ h

theorem isolation_shared :
    ∃ s s', (system {}).Run (fun _ e => e.Within {} ownWorker) (system {}).init sharedRun s ∧
      ((s.tasks 0).context.isSome ∧ (s.tasks 1).context.isSome) ∧
      (system {}).Run (fun _ e => e.Within {} ownWorker) (system {}).init
        (sharedRun.filter (Ev.inside ownWorker)) s' ∧
      SameView ownWorker s s' := by
  have hrun : ∃ s, (system {}).Run (fun _ e => e.Within {} ownWorker) (system {}).init sharedRun s ∧
      ((s.tasks 0).context.isSome ∧ (s.tasks 1).context.isSome) :=
    Machine.exists_run (by decide +kernel) (by decide +kernel)
  obtain ⟨s, hr, hboth⟩ := hrun
  obtain ⟨s', hr', ha⟩ := isolation_of_run hr
  exact ⟨s, s', hr, hboth, hr', ha⟩

end Kvdb
