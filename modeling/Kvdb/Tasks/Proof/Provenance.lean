import Kvdb.Tasks.Proof.Terminal

/-!
# Where jobs and results come from

`JobLedger` records along a run of the system which jobs were accepted by `enqueue`, which were
named to `abort`, and which calls of a function returned. Nothing on the server or in the hands of a
task is without an entry: an id that is listed, scored, stored or in hand was accepted (`Accounted`),
a job that is stored or in hand is one that a client handed in, as it was ordered (`Intact`), and a
record that says `COMPLETE` has the result of a call of this job (`Earned`).
-/

namespace Kvdb

open Redis Lib TaskQueue

variable {ι V : Type}

/-- What a client orders with a job: all but what the programs write to it. -/
def Job.order (job : Job V) : Job V :=
  { job with
    status := .new, result := none, error := none, retries := 0, progress := {}, attempts := 0
    completed := 0, queued := 0, started := 0, touched := 0 }

/-- The jobs that clients handed in, and the calls that returned. -/
structure JobLedger (V : Type) where
  accepted : List (Job V) := []
  aborted : List (Job V) := []
  returned : List (Job V × Option V) := []

variable (c : QueueConfig)

def noteLedger (l : JobLedger V) (s : Sys ι V) : Ev ι V → JobLedger V
  | .enqueue job _ =>
    if job.accepted c s.db then { l with accepted := job :: l.accepted } else l
  | .move _ (.abort job _ _) => { l with aborted := job :: l.aborted }
  | .move i (.outcome (.returned result)) =>
    match s.tasks i with
    | .running job _ => { l with returned := (job, result) :: l.returned }
    | _ => l
  | _ => l

/-- The system with its ledger. -/
abbrev withLedger [DecidableEq ι] : Machine (Sys ι V × JobLedger V) (Ev ι V) :=
  (system c).observe {} (noteLedger c)

namespace JobLedger

/-- A job with this id was accepted. -/
def Accepted (l : JobLedger V) (id : String) : Prop := ∃ job ∈ l.accepted, job.id c.toKeyConfig = id

/-- A client handed in this job. -/
def Ordered (l : JobLedger V) (job : Job V) : Prop :=
  ∃ j ∈ l.accepted ++ l.aborted, j.order = job.order

/-- A call of this job returned the result. -/
def Returned (l : JobLedger V) (job : Job V) (result : Option V) : Prop :=
  ∃ run ∈ l.returned, run.1.order = job.order ∧ run.2 = result

/-- Nothing is struck out. -/
structure Grows (l l' : JobLedger V) : Prop where
  accepted : l.accepted ⊆ l'.accepted
  aborted : l.aborted ⊆ l'.aborted
  returned : l.returned ⊆ l'.returned

variable {c} {l l' : JobLedger V} {id : String} {job job' : Job V} {result : Option V}

theorem Grows.refl (l : JobLedger V) : l.Grows l :=
  ⟨List.Subset.refl _, List.Subset.refl _, List.Subset.refl _⟩

theorem Accepted.mono (h : l.Accepted c id) (hg : l.Grows l') : l'.Accepted c id := by
  obtain ⟨j, hj, hid⟩ := h
  exact ⟨j, hg.accepted hj, hid⟩

theorem Ordered.mono (h : l.Ordered job) (hg : l.Grows l') : l'.Ordered job := by
  obtain ⟨j, hj, ho⟩ := h
  refine ⟨j, ?_, ho⟩
  rw [List.mem_append] at hj ⊢
  exact hj.imp (fun h => hg.accepted h) fun h => hg.aborted h

theorem Ordered.congr (h : l.Ordered job) (ho : job.order = job'.order) : l.Ordered job' := by
  obtain ⟨j, hj, h⟩ := h
  exact ⟨j, hj, h.trans ho⟩

theorem Returned.mono (h : l.Returned job result) (hg : l.Grows l') : l'.Returned job result := by
  obtain ⟨run, hr, h⟩ := h
  exact ⟨run, hg.returned hr, h⟩

theorem Returned.congr (h : l.Returned job result) (ho : job.order = job'.order) :
    l.Returned job' result := by
  obtain ⟨run, hr, h, hres⟩ := h
  exact ⟨run, hr, h.trans ho, hres⟩

theorem ordered_of_accepted (h : job ∈ l.accepted) : l.Ordered job :=
  ⟨job, List.mem_append_left _ h, rfl⟩

theorem ordered_of_aborted (h : job ∈ l.aborted) : l.Ordered job :=
  ⟨job, List.mem_append_right _ h, rfl⟩

end JobLedger

variable {c} {l : JobLedger V} {s s' : Sys ι V} {e : Ev ι V} {t t' : Task ι V} {m : Move ι V}
  {a : Act V} {id : String} {job : Job V}

theorem grows_note (l : JobLedger V) (s : Sys ι V) (e : Ev ι V) : l.Grows (noteLedger c l s e) := by
  unfold noteLedger
  split
  · split
    · exact ⟨List.subset_cons_self .., List.Subset.refl _, List.Subset.refl _⟩
    · exact .refl l
  · exact ⟨List.Subset.refl _, List.subset_cons_self .., List.Subset.refl _⟩
  · split
    · exact ⟨List.Subset.refl _, List.Subset.refl _, List.subset_cons_self ..⟩
    · exact .refl l
  · exact .refl l

/-! ## What a task got from the server -/

/-- The jobs that a task has a copy of. -/
def Task.copies : Task ι V → List (Job V)
  | .starting job | .running job _ | .finishing job _ | .completed job | .handling job _
  | .aborting job _ _ | .abortLast job | .polled _ job _ | .cancelling job _ | .rescheduling job _ _
  | .rescheduled job _ _ => [job]
  | .sweeping _ todo => todo.filterMap Prod.snd
  | .idle | .fetched _ | .snapshot _ _ => []

variable (c) in
/-- The ids that a task knows from the server; `abort` may be called with any job. -/
def Task.ids : Task ι V → List String
  | .fetched jobId => [jobId]
  | .starting job | .running job _ | .finishing job _ | .completed job | .handling job _
  | .polled _ job _ | .cancelling job _ | .rescheduling job _ _ | .rescheduled job _ _ =>
    [job.id c.toKeyConfig]
  | .snapshot _ jobIds => jobIds
  | .sweeping _ todo =>
    todo.map Prod.fst ++ (todo.filterMap Prod.snd).map fun job => job.id c.toKeyConfig
  | .aborting job _ dequeued => if dequeued = 0 then [] else [job.id c.toKeyConfig]
  | .idle | .abortLast _ => []

theorem id_of_order {job' : Job V} (h : job.order = job'.order) (c : KeyConfig) :
    job.id c = job'.id c := by
  have hkey : job.order.key = job'.order.key := congrArg Job.key h
  change job.key = job'.key at hkey
  simp only [Job.id, hkey]

/-- A handler has the job it was given, but for its retries. -/
theorem copies_onError {job' : Job V} {e : V} {b : Option Bool} {skip : List (Exit V)}
    (h : job' ∈ (onError job e b skip : Task ι V).copies) : job'.order = job.order := by
  unfold onError at h
  split at h
  · rw [List.mem_singleton.1 h]
  · split at h <;> rw [List.mem_singleton.1 h]
    rfl

theorem ids_onError {e : V} {b : Option Bool} {skip : List (Exit V)} :
    (onError job e b skip : Task ι V).ids c = [job.id c.toKeyConfig] := by
  obtain ⟨job', todo, ho, hid, -, -⟩ := onError_eq ι c job e b skip
  rw [ho, ← hid]
  rfl

theorem ids_onOutcome {aborted : Bool} {o : Outcome V}
    (h : id ∈ (onOutcome job aborted o : Task ι V).ids c) : id = job.id c.toKeyConfig := by
  cases o with
  | returned result => exact List.mem_singleton.1 h
  | jobError e e' b | exception e e' b =>
    simp only [onOutcome, ids_onError] at h
    exact List.mem_singleton.1 h
  | cancelled e b =>
    simp only [onOutcome] at h
    split at h
    · exact List.mem_singleton.1 h
    · cases h

theorem copies_onOutcome {aborted : Bool} {o : Outcome V} {job' : Job V}
    (h : job' ∈ (onOutcome job aborted o : Task ι V).copies) : job'.order = job.order := by
  cases o with
  | returned result => rw [List.mem_singleton.1 h]
  | jobError e e' b | exception e e' b => exact copies_onError h
  | cancelled e b =>
    simp only [onOutcome] at h
    split at h
    · rw [List.mem_singleton.1 h]
    · cases h

theorem copies_of_context (h : t.context = some job) : job ∈ t.copies := by
  cases t <;> cases h <;> exact List.mem_singleton_self _

theorem ids_of_context (h : t.context = some job) : job.id c.toKeyConfig ∈ t.ids c := by
  cases t <;> cases h <;> exact List.mem_singleton_self _

/-- **A copy after a step** is one that the task had, up to what the programs write; or it is read
from its record, named to `abort`, or the copy of another task of the worker. -/
theorem MoveStep.copies (h : MoveStep c s t m a t') (hj : job ∈ t'.copies) :
    (∃ j ∈ t.copies, j.order = job.order) ∨ (∃ id, s.db.records.get id = some job) ∨
      (∃ error ttl, m = .abort job error ttl) ∨ ∃ k, job ∈ (s.tasks k).copies := by
  cases h with
  | fetch hr =>
    obtain rfl := List.mem_singleton.1 hj
    exact .inr (.inl ⟨_, hr⟩)
  | outcome => exact .inl ⟨_, List.mem_singleton_self _, (copies_onOutcome hj).symm⟩
  | finishRaised => exact .inl ⟨_, List.mem_singleton_self _, (copies_onError hj).symm⟩
  | notifyRaised => exact .inl ⟨_, List.mem_singleton_self _, (copies_onError hj).symm⟩
  | start | finish | retry | update | failed | abortFinish | pollFinish | rescheduleFinish =>
    cases hj with
    | head => exact .inl ⟨_, List.mem_singleton_self _, rfl⟩
    | tail _ h => cases h
  | sweepGet =>
    obtain ⟨x, hx, hxj⟩ := List.mem_filterMap.1 hj
    obtain ⟨jobId, -, rfl⟩ := List.mem_map.1 hx
    exact .inr (.inl ⟨jobId, hxj⟩)
  | sweepMissing | swept | spared =>
    refine .inl ⟨job, ?_, rfl⟩
    obtain ⟨x, hx, hxj⟩ := List.mem_filterMap.1 hj
    exact List.mem_filterMap.2 ⟨x, List.mem_cons_of_mem _ hx, hxj⟩
  | abort =>
    obtain rfl := List.mem_singleton.1 hj
    exact .inr (.inr (.inl ⟨_, _, rfl⟩))
  | poll hk | reschedule hk =>
    obtain rfl := List.mem_singleton.1 hj
    exact .inr (.inr (.inr ⟨_, copies_of_context hk⟩))
  | _ => cases hj

/-- **An id that a task knows after a step** it knew before, or it is listed, stored or known to
another task. -/
theorem MoveStep.ids (h : MoveStep c s t m a t') (hk : Keyed c s.db) (hid : id ∈ t'.ids c) :
    id ∈ t.ids c ∨ (∃ r, ¬ (s.db.lanes r).Gone id) ∨ (∃ k, id ∈ (s.tasks k).ids c) := by
  cases h with
  | dequeued hq =>
    obtain rfl := List.mem_singleton.1 hid
    exact .inr (.inl ⟨_, fun hg => hg.queued (List.mem_of_getLast? hq)⟩)
  | fetch hr =>
    obtain rfl := List.mem_singleton.1 hid
    rw [hk _ _ hr]
    exact .inl (List.mem_singleton_self _)
  | outcome =>
    rw [ids_onOutcome hid]
    exact .inl (List.mem_singleton_self _)
  | finishRaised | notifyRaised =>
    rw [ids_onError] at hid
    exact .inl hid
  | start | finish | retry | update | failed | rescheduleFinish => exact .inl hid
  | sweep => exact .inr (.inl ⟨_, fun hg => hg.active hid⟩)
  | sweepGet =>
    refine .inl ?_
    rcases List.mem_append.1 hid with hl | hl
    · obtain ⟨x, hx, rfl⟩ := List.mem_map.1 hl
      obtain ⟨jobId, hm, rfl⟩ := List.mem_map.1 hx
      exact hm
    · obtain ⟨job, hj, rfl⟩ := List.mem_map.1 hl
      obtain ⟨x, hx, hxj⟩ := List.mem_filterMap.1 hj
      obtain ⟨jobId, hm, rfl⟩ := List.mem_map.1 hx
      rw [hk _ _ hxj]
      exact hm
  | sweepMissing =>
    refine .inl ?_
    simp only [Task.ids, List.map_cons, List.filterMap_cons_none, List.mem_append,
      List.mem_cons] at hid ⊢
    tauto
  | swept | spared =>
    refine .inl ?_
    simp only [Task.ids, List.map_cons, List.mem_append, List.mem_cons] at hid ⊢
    tauto
  | abort =>
    simp only [Task.ids] at hid
    split at hid
    · cases hid
    · rename_i hn
      obtain rfl := List.mem_singleton.1 hid
      refine .inr (.inl ⟨_, fun hg => hn (lremCount_zero.2 hg.queued)⟩)
  | poll hk | reschedule hk =>
    obtain rfl := List.mem_singleton.1 hid
    exact .inr (.inr ⟨_, ids_of_context hk⟩)
  | _ => cases hid

/-- **A record that a task writes** is one of its copies, but for what the programs write. -/
theorem MoveStep.writes_copy (h : MoveStep c s t m a t') (hw : a.writes c s.db = some job) :
    ∃ j ∈ t.copies, j.order = job.order := by
  cases h with
  | start | finish | retry | update | failed | abortFinish | pollFinish | rescheduleFinish
  | reschedulePut =>
    cases hw
    exact ⟨_, List.mem_singleton_self _, rfl⟩
  | swept => cases hw; exact ⟨_, List.mem_cons_self .., rfl⟩
  | _ => cases hw

theorem MoveStep.writes_id (h : MoveStep c s t m a t') (hw : a.writes c s.db = some job) :
    job.id c.toKeyConfig ∈ t.ids c := by
  cases h with
  | abortFinish hn =>
    cases hw
    simp only [Task.ids, hn, ↓reduceIte]
    exact List.mem_singleton_self _
  | start | finish | retry | update | failed | pollFinish | rescheduleFinish | reschedulePut =>
    cases hw
    exact List.mem_singleton_self _
  | swept =>
    cases hw
    exact List.mem_append_right _ (List.mem_cons_self ..)
  | _ => cases hw

theorem ids_of_requeues {slot : Route × String} (h : t.Requeues c slot) : slot.2 ∈ t.ids c := by
  cases t with
  | handling job todo =>
    rw [← h.1]
    exact List.mem_singleton_self _
  | rescheduling | rescheduled =>
    obtain rfl : Job.slot c _ = slot := h
    exact List.mem_singleton_self _
  | _ => exact h.elim

/-! ## A job that is served -/

/-- A job is enqueued, run by a worker and completed. -/
def servedRun : List (Ev (Fin 1) String) :=
  [.enqueue { function := "f", key := "k" } 0, .move 0 (.dequeue none), .move 0 .fetch,
    .move 0 (.start 1000), .move 0 (.outcome (.returned (some "result"))), .move 0 (.finish 2000),
    .move 0 .published]

/-- The record of the job says that it is completed. -/
def Completed (p : Sys (Fin 1) String × JobLedger String) : Prop :=
  ∃ job ∈ p.1.db.records.get "_kvq_:global:job:k", job.status = .complete

instance (p : Sys (Fin 1) String × JobLedger String) : Decidable (Completed p) := by
  unfold Completed
  infer_instance

theorem run_served : ∃ p, (withLedger {}).Run Machine.Any (withLedger {}).init servedRun p ∧
    Completed p := Machine.exists_run (by decide +kernel) (by decide +kernel)

/-! ## Ids -/

variable (c) in
/-- Every id on the server and in a task was accepted by an enqueue. -/
structure Accounted (p : Sys ι V × JobLedger V) : Prop where
  keyed : Keyed c p.1.db
  gone : ∀ id, ¬ p.2.Accepted c id → ∀ r, (p.1.db.lanes r).Gone id
  stored : ∀ id job, p.1.db.records.get id = some job → p.2.Accepted c id
  known : ∀ i, ∀ id ∈ (p.1.tasks i).ids c, p.2.Accepted c id

theorem accounted_init : Accounted c (({}, {}) : Sys ι V × JobLedger V) where
  keyed _ _ h := by cases h
  gone _ _ _ := { queued := List.not_mem_nil, active := List.not_mem_nil, score := rfl }
  stored _ _ h := by cases h
  known _ _ h := by cases h

/-- A step of the server that places and stores only accepted ids. -/
theorem Accounted.server {l' : JobLedger V} (h : Accounted c (s, l)) (hg : l.Grows l')
    (hp : ∀ job, a.places c s.db = some job → l'.Accepted c (job.id c.toKeyConfig))
    (hw : ∀ job, a.writes c s.db = some job → l'.Accepted c (job.id c.toKeyConfig))
    {tasks : ι → Task ι V} (ht : ∀ i, ∀ id ∈ (tasks i).ids c, l'.Accepted c id) :
    Accounted c ({ db := apply c s.db a, tasks }, l') where
  keyed := h.keyed.step a
  gone id hid r := by
    refine gone_apply c (h.gone id (fun ha => hid (ha.mono hg)) r) fun job hj hs => hid ?_
    obtain rfl : job.id c.toKeyConfig = id := congrArg Prod.snd hs
    exact hp job hj
  stored id job hj := by
    rcases get_apply hj with ho | ⟨hj', rfl⟩
    · exact (h.stored id job ho).mono hg
    · exact hw job hj'
  known := ht

variable [DecidableEq ι]

theorem Accounted.step (h : Accounted c (s, l)) (hs : (system c).step s e = some s') :
    Accounted c (s', noteLedger c l s e) := by
  have hg := grows_note (c := c) l s e
  have hold : ∀ i, ∀ id ∈ (s.tasks i).ids c, (noteLedger c l s e).Accepted c id :=
    fun i id hid => (h.known i id hid).mono hg
  have hstep := sysStep_of_step hs
  cases hstep with
  | @enqueue job now =>
    have hacc : job.accepted c s.db →
        (noteLedger c l s (.enqueue job now)).Accepted c (job.id c.toKeyConfig) := by
      intro ha
      simp only [noteLedger, ha, ↓reduceIte]
      exact ⟨job, List.mem_cons_self .., rfl⟩
    refine h.server hg (fun j hj => ?_) (fun j hj => ?_) hold
    · obtain ⟨ha, hj⟩ := Option.ite_none_right_eq_some.1 hj
      cases hj
      exact hacc ha
    · obtain ⟨ha, hj⟩ := Option.ite_none_right_eq_some.1 hj
      cases hj
      exact hacc ha
  | schedule | advance | pushBg | removeBg =>
    exact h.server hg (fun j hj => by cases hj) (fun j hj => by cases hj) hold
  | @move i m a t hm =>
    refine h.server hg (fun j hj => ?_) (fun j hj => ?_) ?_
    · exact hold i _ (ids_of_requeues (hm.places hj))
    · exact hold i _ (hm.writes_id hj)
    · refine forall_tasks (fun _ t => ∀ id ∈ t.ids c, JobLedger.Accepted c _ id)
        (fun id hid => ?_) hold
      rcases hm.ids h.keyed hid with hid | ⟨r, hr⟩ | ⟨k, hk⟩
      · exact hold i id hid
      · refine JobLedger.Accepted.mono ?_ hg
        by_contra hn
        exact hr (h.gone id hn r)
      · exact hold k id hk
  | @cancel i k job job' error aborted hi hk =>
    have hjob : ∀ id ∈ (.running job' aborted : Task ι V).ids c, JobLedger.Accepted c _ id :=
      hk ▸ hold k
    exact {
      keyed := h.keyed
      gone := fun id hid => h.gone id fun ha => hid (ha.mono hg)
      stored := fun id job hj => (h.stored id job hj).mono hg
      known := forall_tasks (fun _ t => ∀ id ∈ t.ids c, JobLedger.Accepted c _ id) hjob
        (forall_tasks (fun _ t => ∀ id ∈ t.ids c, JobLedger.Accepted c _ id) hjob hold) }

/-- **No job comes from nowhere**, in whatever order clients and workers take their steps. -/
theorem accounted_of_run {as : List (Ev ι V)} {p : Sys ι V × JobLedger V}
    (h : (withLedger c).Run Machine.Any (withLedger c).init as p) : Accounted c p := by
  refine h.inv (Accounted c) accounted_init fun q e q' hq _ hs => ?_
  obtain ⟨hs, hn⟩ := Machine.observe_step.1 hs
  obtain ⟨s', l'⟩ := q'
  obtain rfl : l' = noteLedger c q.2 q.1 e := hn
  exact Accounted.step hq hs

theorem accounted_served :
    ∃ p, (withLedger {}).Run Machine.Any (withLedger {}).init servedRun p ∧ Accounted {} p := by
  obtain ⟨p, hr, -⟩ := run_served
  exact ⟨p, hr, accounted_of_run hr⟩

/-! ## Orders -/

omit [DecidableEq ι] in
/-- Every job on the server, in a task and in a call was handed in by a client, as it is. -/
structure Intact (p : Sys ι V × JobLedger V) : Prop where
  stored : ∀ id job, p.1.db.records.get id = some job → p.2.Ordered job
  copies : ∀ i, ∀ job ∈ (p.1.tasks i).copies, p.2.Ordered job
  runs : ∀ run ∈ p.2.returned, p.2.Ordered run.1

omit [DecidableEq ι] in
theorem intact_init : Intact (({}, {}) : Sys ι V × JobLedger V) where
  stored _ _ h := by cases h
  copies _ _ h := by cases h
  runs _ h := by cases h

omit [DecidableEq ι] in
/-- The calls that return are those of copies. -/
theorem runs_note (h : Intact (s, l)) {run : Job V × Option V}
    (hr : run ∈ (noteLedger c l s e).returned) : (noteLedger c l s e).Ordered run.1 := by
  have hg := grows_note (c := c) l s e
  by_cases ho : run ∈ l.returned
  · exact (h.runs run ho).mono hg
  · unfold noteLedger at hr
    split at hr
    · split at hr <;> exact absurd hr ho
    · exact absurd hr ho
    · split at hr
      · rename_i hi
        rcases List.mem_cons.1 hr with rfl | hr
        · exact (h.copies _ _ (by rw [hi]; exact List.mem_singleton_self _)).mono hg
        · exact absurd hr ho
      · exact absurd hr ho
    · exact absurd hr ho

theorem Intact.step (h : Intact (s, l)) (hs : (system c).step s e = some s') :
    Intact (s', noteLedger c l s e) := by
  have hg := grows_note (c := c) l s e
  have hold : ∀ i, ∀ job ∈ (s.tasks i).copies, (noteLedger c l s e).Ordered job :=
    fun i job hj => (h.copies i job hj).mono hg
  have hstored : ∀ id job, s.db.records.get id = some job → (noteLedger c l s e).Ordered job :=
    fun id job hj => (h.stored id job hj).mono hg
  have hstep := sysStep_of_step hs
  cases hstep with
  | @enqueue job now =>
    refine ⟨fun id j hj => ?_, hold, fun _ hr => runs_note h hr⟩
    rcases get_apply hj with ho | ⟨hw, -⟩
    · exact hstored id j ho
    · obtain ⟨ha, hw⟩ := Option.ite_none_right_eq_some.1 hw
      cases hw
      have hacc : job.accepted c s.db := ha
      have hm : job ∈ (noteLedger c l s (.enqueue job now)).accepted := by
        simp only [noteLedger, hacc, ↓reduceIte, List.mem_cons, true_or]
      exact (JobLedger.ordered_of_accepted hm).congr rfl
  | schedule | advance | pushBg | removeBg =>
    refine ⟨fun id j hj => ?_, hold, fun _ hr => runs_note h hr⟩
    rcases get_apply hj with ho | ⟨hw, -⟩
    · exact hstored id j ho
    · cases hw
  | @move i m a t hm =>
    refine ⟨fun id j hj => ?_, ?_, fun _ hr => runs_note h hr⟩
    · rcases get_apply hj with ho | ⟨hw, -⟩
      · exact hstored id j ho
      · obtain ⟨j', hj', horder⟩ := hm.writes_copy hw
        exact (hold i j' hj').congr horder
    · refine forall_tasks (fun _ t => ∀ job ∈ t.copies, JobLedger.Ordered _ job)
        (fun j hj => ?_) hold
      rcases hm.copies hj with ⟨j', hj', horder⟩ | ⟨id, hr⟩ | ⟨error, ttl, rfl⟩ | ⟨k, hk⟩
      · exact (hold i j' hj').congr horder
      · exact hstored id j hr
      · exact JobLedger.ordered_of_aborted (List.mem_cons_self ..)
      · exact hold k j hk
  | @cancel i k job job' error aborted hi hk =>
    have hjob : ∀ j ∈ (.running job' aborted : Task ι V).copies, JobLedger.Ordered _ j :=
      hk ▸ hold k
    exact ⟨hstored, forall_tasks (fun _ t => ∀ job ∈ t.copies, JobLedger.Ordered _ job) hjob
      (forall_tasks (fun _ t => ∀ job ∈ t.copies, JobLedger.Ordered _ job) hjob hold),
      fun _ hr => runs_note h hr⟩

/-- **A job stays as it was ordered**, on the server and in every task. -/
theorem intact_of_run {as : List (Ev ι V)} {p : Sys ι V × JobLedger V}
    (h : (withLedger c).Run Machine.Any (withLedger c).init as p) : Intact p := by
  refine h.inv Intact intact_init fun q e q' hq _ hs => ?_
  obtain ⟨hs, hn⟩ := Machine.observe_step.1 hs
  obtain ⟨s', l'⟩ := q'
  obtain rfl : l' = noteLedger c q.2 q.1 e := hn
  exact Intact.step hq hs

theorem intact_served :
    ∃ p, (withLedger {}).Run Machine.Any (withLedger {}).init servedRun p ∧ Intact p := by
  obtain ⟨p, hr, -⟩ := run_served
  exact ⟨p, hr, intact_of_run hr⟩

/-! ## Results -/

omit [DecidableEq ι]

/-- The message of a step. -/
def Act.message : Act V → List (String × JobStatus)
  | .publish jobId status => [(jobId, status)]
  | _ => []

theorem apply_published (db : Db V) (a : Act V) :
    (apply c db a).published = db.published ++ a.message := by
  have hrem : ∀ (db : Db V) jobId, (db.pushRemove c jobId).published = db.published := by
    intro db jobId
    unfold Db.pushRemove; split <;> rfl
  have hadd : ∀ (db : Db V) jobId, (db.pushAdd c jobId).published = db.published := by
    intro db jobId
    unfold Db.pushAdd; split <;> rfl
  cases a with
  | publish => rfl
  | enqueue =>
    simp only [apply, TaskQueue.enqueue, enqueueScript, Act.message, List.append_nil]
    (repeat' split) <;> rfl
  | schedule =>
    simp only [apply, scheduleScript, Act.message, List.append_nil]
    (repeat' split) <;> rfl
  | cleanup =>
    simp only [apply, cleanupScript, Act.message, List.append_nil]
    split <;> rfl
  | finish =>
    simp only [apply, finishTx, Act.message, List.append_nil, hrem]
    (repeat' split) <;> rfl
  | retry =>
    simp only [apply, retryTx, Act.message, List.append_nil]
    split <;> rfl
  | reschedule => simp only [apply, rescheduleTx, Act.message, List.append_nil, hadd, Db.onLane]
  | sweepMissing => simp only [apply, sweepMissingTx, Act.message, List.append_nil, hrem, Db.onLane]
  | pushBg => simp only [apply, hadd, Act.message, List.append_nil]
  | removeBg => simp only [apply, hrem, Act.message, List.append_nil]
  | _ => exact (List.append_nil _).symm

/-- The task has the result of a call. -/
def Task.Earned (l : JobLedger V) : Task ι V → Prop
  | .finishing job result => l.Returned job result
  | .completed job => l.Returned job job.result
  | _ => True

variable (c) in
/-- A job is completed with the result of one of its calls only. -/
structure Earned (p : Sys ι V × JobLedger V) : Prop where
  stored : ∀ id job, p.1.db.records.get id = some job → job.status = .complete →
    p.2.Returned job job.result
  published : ∀ id, (id, .complete) ∈ p.1.db.published →
    ∃ run ∈ p.2.returned, run.1.id c.toKeyConfig = id
  tasks : ∀ i, (p.1.tasks i).Earned p.2
  sound : ∀ i, (p.1.tasks i).Sound

theorem earned_init : Earned c (({}, {}) : Sys ι V × JobLedger V) where
  stored _ _ h := by cases h
  published _ h := by cases h
  tasks _ := trivial
  sound _ := trivial

theorem Task.Earned.mono {l' : JobLedger V} (h : t.Earned l) (hg : l.Grows l') : t.Earned l' := by
  cases t <;> first | exact JobLedger.Returned.mono h hg | trivial

theorem earned_onError {e : V} {b : Option Bool} {skip : List (Exit V)} :
    (onError job e b skip : Task ι V).Earned l := by
  obtain ⟨job', todo, ho, -⟩ := onError_eq ι {} job e b skip
  rw [ho]
  trivial

/-- A call that returns is noted. -/
theorem earned_onOutcome {i : ι} {aborted : Bool} {o : Outcome V}
    (hi : s.tasks i = .running job aborted) :
    (onOutcome job aborted o : Task ι V).Earned (noteLedger c l s (.move i (.outcome o))) := by
  cases o with
  | returned result =>
    simp only [onOutcome, Task.Earned, noteLedger, hi]
    exact ⟨(job, result), List.mem_cons_self .., rfl, rfl⟩
  | jobError e e' b | exception e e' b => exact earned_onError
  | cancelled e b =>
    simp only [onOutcome]
    split <;> trivial

theorem MoveStep.earned {i : ι} (h : MoveStep c s (s.tasks i) m a t)
    (ht : (s.tasks i).Earned (noteLedger c l s (.move i m))) :
    t.Earned (noteLedger c l s (.move i m)) := by
  generalize hi : s.tasks i = t₀ at h ht
  cases h with
  | outcome => exact earned_onOutcome hi
  | finish => exact JobLedger.Returned.congr ht rfl
  | finishRaised | notifyRaised => exact earned_onError
  | _ => trivial

theorem MoveStep.earned_record (h : MoveStep c s t m a t') (ht : t.Earned l) (hsound : t.Sound)
    (hw : a.writes c s.db = some job) (hc : job.status = .complete) :
    l.Returned job job.result := by
  obtain ⟨job', result, now, rfl, -, rfl⟩ := h.writes_complete hsound hw hc
  exact JobLedger.Returned.congr ht rfl

theorem MoveStep.earned_message (h : MoveStep c s t m a t') (ht : t.Earned l)
    (hm : (id, .complete) ∈ a.message) : ∃ run ∈ l.returned, run.1.id c.toKeyConfig = id := by
  cases h with
  | published =>
    obtain ⟨rfl, -⟩ := Prod.mk.inj (List.mem_singleton.1 hm)
    obtain ⟨run, hr, ho, -⟩ := ht
    exact ⟨run, hr, id_of_order ho _⟩
  | _ => cases hm

variable [DecidableEq ι]

theorem Earned.step (h : Earned c (s, l)) (hs : (system c).step s e = some s') :
    Earned c (s', noteLedger c l s e) := by
  have hg := grows_note (c := c) l s e
  have hstored : ∀ id job, s.db.records.get id = some job → job.status = .complete →
      (noteLedger c l s e).Returned job job.result :=
    fun id job hj hc => (h.stored id job hj hc).mono hg
  have hpublished : ∀ id, (id, .complete) ∈ s.db.published →
      ∃ run ∈ (noteLedger c l s e).returned, run.1.id c.toKeyConfig = id := by
    intro id hm
    obtain ⟨run, hr, hid⟩ := h.published id hm
    exact ⟨run, hg.returned hr, hid⟩
  have hold : ∀ i, (s.tasks i).Earned (noteLedger c l s e) := fun i => (h.tasks i).mono hg
  have hstep := sysStep_of_step hs
  cases hstep with
  | @enqueue job now =>
    refine ⟨fun id j hj hc => ?_, fun id hm => ?_, hold, h.sound⟩
    · rcases get_apply hj with ho | ⟨hw, -⟩
      · exact hstored id j ho hc
      · obtain ⟨-, hw⟩ := Option.ite_none_right_eq_some.1 hw
        cases hw
        cases hc
    · rw [apply_published] at hm
      exact hpublished id ((List.mem_append.1 hm).resolve_right List.not_mem_nil)
  | schedule | advance | pushBg | removeBg =>
    refine ⟨fun id j hj hc => ?_, fun id hm => ?_, hold, h.sound⟩
    · rcases get_apply hj with ho | ⟨hw, -⟩
      · exact hstored id j ho hc
      · cases hw
    · rw [apply_published] at hm
      exact hpublished id ((List.mem_append.1 hm).resolve_right List.not_mem_nil)
  | @move i m a t hm =>
    refine ⟨fun id j hj hc => ?_, fun id hp => ?_, ?_, ?_⟩
    · rcases get_apply hj with ho | ⟨hw, -⟩
      · exact hstored id j ho hc
      · exact hm.earned_record (hold i) (h.sound i) hw hc
    · rw [apply_published] at hp
      exact (List.mem_append.1 hp).elim (hpublished id) (hm.earned_message (hold i))
    · exact forall_tasks (fun _ t => t.Earned _) (hm.earned (hold i)) hold
    · exact forall_tasks (fun _ t => t.Sound) (hm.sound (h.sound i)) h.sound
  | @cancel i k job job' error aborted hi hk =>
    have hjob : Task.Sound (.running job' aborted : Task ι V) := hk ▸ h.sound k
    exact ⟨hstored, hpublished,
      forall_tasks (fun _ t => t.Earned _) trivial
        (forall_tasks (fun _ t => t.Earned _) trivial hold),
      forall_tasks (fun _ t => t.Sound) trivial (forall_tasks (fun _ t => t.Sound) hjob h.sound)⟩

/-- **No result comes from nowhere**: a completed record has the result of a call of its job. -/
theorem earned_of_run {as : List (Ev ι V)} {p : Sys ι V × JobLedger V}
    (h : (withLedger c).Run Machine.Any (withLedger c).init as p) : Earned c p := by
  refine h.inv (Earned c) earned_init fun q e q' hq _ hs => ?_
  obtain ⟨hs, hn⟩ := Machine.observe_step.1 hs
  obtain ⟨s', l'⟩ := q'
  obtain rfl : l' = noteLedger c q.2 q.1 e := hn
  exact Earned.step hq hs

theorem earned_served :
    ∃ p, (withLedger {}).Run Machine.Any (withLedger {}).init servedRun p ∧ Earned {} p ∧
      ∃ job ∈ p.1.db.records.get "_kvq_:global:job:k", p.2.Returned job job.result := by
  obtain ⟨p, hr, job, hj, hc⟩ := run_served
  have he := earned_of_run hr
  exact ⟨p, hr, he, job, hj, he.stored _ job hj hc⟩

end Kvdb
