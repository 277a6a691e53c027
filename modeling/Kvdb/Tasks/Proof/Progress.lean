import Kvdb.Tasks.Proof.Leases
import Kvdb.Tasks.Proof.Provenance
import Kvdb.Tasks.Proof.TaskRun

/-!
# No dead ends

Whatever clients and workers have done, crashed ones included, one idle task can still complete every
job that is in line or waits for its time (`progress_of_run`). `run_tick` waits until the lock of the
schedule is free and lets the job's time come, `run_ahead` takes the jobs before it out of the line, and
`run_complete` runs it.
-/

namespace Kvdb

open Redis Lib TaskQueue

variable {ι V : Type} [DecidableEq ι] {c : QueueConfig} {S : Sys ι V} {i : ι} {r : Route}
  {id : String} {job : Job V}

/-- A step of the schedule script, or of time. -/
def Ev.Tick : Ev ι V → Prop
  | .schedule .. | .advance _ => True
  | _ => False

/-- The job at the end of the line is taken up and dropped by a task that crashes. -/
theorem run_drop (hi : S.tasks i = .idle) {l : List String} {x : String}
    (hq : (S.db.lanes r).queued = l ++ [x]) :
    (system c).Run (fun _ e => e.By i) S [.move i (.dequeue r), .move i .leave]
        { S with db := apply c S.db (.dequeue r) } ∧
      ((apply c S.db (.dequeue r)).lanes r).queued = l := by
  refine ⟨?_, ?_⟩
  · have hdequeue : (system c).step S (.move i (.dequeue r)) = some
        { db := apply c S.db (.dequeue r), tasks := Function.update S.tasks i (.fetched x) } :=
      step_move (by simp only [hi, move, hq, List.getLast?_concat, Option.elim_some])
    have hleave : (system c).step
        { db := apply c S.db (.dequeue r), tasks := Function.update S.tasks i (.fetched x) }
        (.move i .leave) = some
          { db := apply c S.db (.dequeue r)
            tasks := Function.update (Function.update S.tasks i (.fetched x)) i .idle } := rfl
    rw [Function.update_idem, ← hi, Function.update_eq_self] at hleave
    have hone : (system c).Run (fun _ e => e.By i) S [.move i (.dequeue r)] _ := .single rfl hdequeue
    exact hone.snoc rfl hleave
  · rw [apply_lanes, laneOp, if_pos rfl]
    rcases (S.db.lanes r).lmove_right_left with ⟨hnil, -⟩ | ⟨l', y, hl, hmove⟩
    · rw [hnil] at hq
      exact absurd hq.symm (List.append_ne_nil_of_right_ne_nil _ (List.cons_ne_nil _ _))
    · rw [hl] at hq
      rw [DelayQueue.apply, hmove, ← (List.append_inj' hq rfl).1]

/-- The jobs before this one are taken out of the line. -/
theorem run_ahead (hi : S.tasks i = .idle) {l l' : List String}
    (hq : (S.db.lanes r).queued = l ++ id :: l') :
    ∃ es S', (system c).Run (fun _ e => e.By i) S es S' ∧ S'.tasks = S.tasks ∧
      S'.db.records = S.db.records ∧ (S'.db.lanes r).queued = l ++ [id] := by
  induction l' using List.reverseRecOn generalizing S with
  | nil => exact ⟨[], S, .nil, rfl, rfl, hq⟩
  | append_singleton l' x ih =>
    have hlast : (S.db.lanes r).queued = (l ++ id :: l') ++ [x] := by
      rw [hq, List.append_assoc, List.cons_append]
    obtain ⟨hdrop, hrest⟩ := run_drop (c := c) hi hlast
    obtain ⟨es, S', hr, ht, hrec, hline⟩ :=
      ih (S := { S with db := apply c S.db (.dequeue r) }) hi hrest
    exact ⟨_, S', hdrop.append hr, ht, hrec, hline⟩

/-- A worker completes a job that it has read. -/
theorem run_complete (hi : S.tasks i = .starting job) (ht : 0 ≤ job.ttl) (result : Option V) :
    ∃ es S', (system c).Run (fun _ e => e.By i) S es S' ∧
      S'.tasks = Function.update S.tasks i .idle ∧
      ∃ job', S'.db.records.get (job.id c.toKeyConfig) = some job' ∧ job'.status = .complete ∧
        job'.result = result ∧ job'.order = job.order := by
  have hstarting : Reaches c i S [] (.starting job) := hi ▸ Reaches.here
  have hrunning := hstarting.move (.start 0) fun _ => rfl
  have hfinishing := hrunning.look (.outcome (.returned result)) fun _ => rfl
  have hcompleted := hfinishing.move (.finish 0) fun _ => rfl
  obtain ⟨es, hr⟩ := hcompleted.move .published fun _ => rfl
  refine ⟨es, _, hr, rfl, ({ job.start 0 with touched := 0 } : Job V).complete .complete result none 0,
    ?_, rfl, rfl, rfl⟩
  exact (finishTx_get c _ _).trans (if_pos ht)

/-! ## Time -/

/-- Every lock has a deadline. -/
def LocksTimed (db : Db V) : Prop :=
  ∀ r cell, db.scheduled r = some cell → ∃ t, cell.expireAt = some t

omit [DecidableEq ι] in
theorem LocksTimed.apply {db : Db V} (h : LocksTimed db) (a : Act V) : LocksTimed (apply c db a) := by
  have hkeys : (Kvdb.apply c db a).scheduled = (a.keys c db).scheduled :=
    congrArg Keys.scheduled (apply_keys db a)
  intro r cell hcell
  rw [hkeys] at hcell
  cases a with
  | schedule r' lock now =>
    have hcell : lockKey db.scheduled db.clock r' lock r = some cell := hcell
    by_cases hr : r = r'
    · subst hr
      cases hex : db.scheduled.exists? r with
      | false =>
        have hleased : lockKey db.scheduled db.clock r lock r = _ := leased_lockKey hex
        rw [hleased] at hcell
        cases hcell
        exact ⟨_, rfl⟩
      | true =>
        rw [lockKey, if_pos hex] at hcell
        exact h r cell hcell
    · rw [lockKey_of_ne hr] at hcell
      exact h r cell hcell
  | advance ms =>
    exact h r cell (Option.filter_eq_some_iff.1 hcell).1
  | _ => exact h r cell hcell

theorem locksTimed_of_run {es : List (Ev ι V)} {s : Sys ι V}
    (h : (system c).Run Machine.Any (system c).init es s) : LocksTimed s.db := by
  refine h.inv (fun s => LocksTimed s.db) (fun _ _ hcell => by cases hcell) fun s e s' hs _ hstep => ?_
  obtain ⟨a, ha⟩ := step_db hstep
  rw [ha]
  exact hs.apply a

omit [DecidableEq ι] in
/-- The lock of the schedule is free at some time. -/
theorem exists_free {db : Db V} (h : LocksTimed db) (r : Route) :
    ∃ ms, (db.advance ms).scheduled.exists? r = false := by
  cases hcell : db.scheduled r with
  | none =>
    refine ⟨0, ?_⟩
    rw [TtlMap.exists?]
    show ((db.scheduled r).filter _).isSome = false
    rw [hcell]
    rfl
  | some cell =>
    obtain ⟨t, ht⟩ := h r cell hcell
    refine ⟨t, ?_⟩
    rw [TtlMap.exists?]
    show ((db.scheduled r).filter _).isSome = false
    rw [hcell, Option.filter_some]
    simp [ht]

/-- The time of a job comes. -/
theorem run_tick (h : LocksTimed S.db) (hp : (S.db.lanes r).Promotable id)
    (hj : S.db.records id = some ⟨job, none⟩) :
    ∃ es S', (system c).Run (fun _ e => e.Tick) S es S' ∧ S'.tasks = S.tasks ∧
      S'.db.records id = some ⟨job, none⟩ ∧ id ∈ (S'.db.lanes r).queued := by
  obtain ⟨ms, hfree⟩ := exists_free h r
  obtain ⟨x, hx, h1⟩ := hp
  refine ⟨[.advance ms, .schedule r 1 x],
    { S with db := apply c (apply c S.db (.advance ms)) (.schedule r 1 x) },
    (Machine.Run.single trivial rfl).snoc trivial rfl, rfl, ?_, ?_⟩
  · rw [apply, scheduleScript_records]
    show (S.db.records id).filter _ = _
    rw [hj]
    rfl
  · have hop : laneOp c (apply c S.db (.advance ms)) r (.schedule r 1 x) = .promote x :=
      if_pos ⟨rfl, hfree⟩
    rw [apply_lanes, hop]
    exact List.mem_append_right _ (DelayQueue.mem_due.2 ⟨x, hx, h1, le_rfl⟩)

theorem keyed_step (s : Sys ι V) (e : Ev ι V) (s' : Sys ι V) (h : Keyed c s.db)
    (hs : (system c).step s e = some s') : Keyed c s'.db := by
  obtain ⟨a, ha⟩ := step_db hs
  rw [ha]
  exact h.step a

/-- **No dead ends**: from every state that is reached one idle task can complete a job that is in line
or waits for its time. Nothing moves but this task, the schedule script and time. -/
theorem progress_of_run {es : List (Ev ι V)} {s : Sys ι V}
    (h : (system c).Run Machine.Any (system c).init es s) (hi : s.tasks i = .idle)
    (hq : id ∈ (s.db.lanes r).queued ∨ (s.db.lanes r).Promotable id)
    (hj : s.db.records id = some ⟨job, none⟩) (ht : 0 ≤ job.ttl) (result : Option V) :
    ∃ es' s', (system c).Run (fun _ e => e.By i ∨ e.Tick) s es' s' ∧ s'.tasks = s.tasks ∧
      ∃ job', s'.db.records.get id = some job' ∧ job'.status = .complete ∧
        job'.result = result ∧ job'.order = job.order := by
  -- the job comes into line
  have hline : ∃ es s', (system c).Run (fun _ e => e.Tick) s es s' ∧ s'.tasks = s.tasks ∧
      s'.db.records id = some ⟨job, none⟩ ∧ id ∈ (s'.db.lanes r).queued := by
    rcases hq with hq | hp
    · exact ⟨[], s, .nil, rfl, hj, hq⟩
    · exact run_tick (locksTimed_of_run h) hp hj
  obtain ⟨es₁, s₁, hr₁, htasks₁, hj₁, hq₁⟩ := hline
  -- and to its end
  obtain ⟨l, l', hl⟩ := List.append_of_mem hq₁
  obtain ⟨es₂, s₂, hr₂, htasks₂, hrec₂, hq₂⟩ :=
    run_ahead (c := c) (i := i) (by rw [htasks₁, hi]) hl
  have hi₂ : s₂.tasks i = .idle := by rw [htasks₂, htasks₁, hi]
  have hget : s₂.db.records.get id = some job := by rw [TtlMap.get, hrec₂, hj₁]; rfl
  have hr₃ := run_fetch (c := c) hi₂ (by rw [hq₂, List.getLast?_concat])
  rw [hget, Option.elim_some] at hr₃
  have hkeyed : Keyed c s₂.db := ((h.append (hr₁.mono fun _ _ _ => trivial)).append
    (hr₂.mono fun _ _ _ => trivial)).inv (fun s => Keyed c s.db)
    (fun _ _ hj => by cases hj) fun s e s' hs _ hstep => keyed_step s e s' hs hstep
  -- it is run
  have hid : job.id c.toKeyConfig = id :=
    hkeyed id job hget
  obtain ⟨es₄, s₄, hr₄, htasks₄, job', hj', hdone⟩ := run_complete (c := c)
    (S := { db := apply c s₂.db (.dequeue r), tasks := Function.update s₂.tasks i (.starting job) })
    (Function.update_self ..) ht result
  rw [Function.update_idem, ← hi₂, Function.update_eq_self, htasks₂, htasks₁] at htasks₄
  have hcome : (system c).Run (fun _ e => e.By i ∨ e.Tick) s es₁ s₁ := hr₁.mono fun _ _ => .inr
  have hwork := (hr₂.append hr₃).append hr₄
  exact ⟨_, s₄, hcome.append (hwork.mono fun _ _ => .inl), htasks₄, job', hid ▸ hj', hdone⟩

/-- One job is lost by a worker that crashes, the other one waits. -/
def waitingRun : List (Ev (Fin 2) String) :=
  [.enqueue { function := "f", key := "j" } 0,
    .enqueue { function := "f", key := "k", scheduled := 100 } 0, .schedule none 1 5,
    .move task₀ (.dequeue none), .move task₀ .fetch, .move task₀ .leave]

theorem progress_waiting :
    ∃ s s', (system {}).Run Machine.Any (system {}).init waitingRun s ∧
      (∃ es', (system {}).Run (fun _ e => e.By task₁ ∨ e.Tick) s es' s') ∧
      ∃ job, s'.db.records.get "_kvq_:global:job:k" = some job ∧ job.result = some "result" := by
  have hrun : ∃ s, (system {}).Run Machine.Any (system {}).init waitingRun s ∧
      s.tasks task₁ = .idle ∧
      ((s.db.lanes none).incomplete.score "_kvq_:global:job:k").any (fun x => 1 ≤ x) = true ∧
      (s.db.records "_kvq_:global:job:k").any
        (fun cell => cell.expireAt = none ∧ 0 ≤ cell.value.ttl) = true :=
    Machine.exists_run (by decide +kernel) (by decide +kernel)
  obtain ⟨s, hr, hi, hscore, hcell⟩ := hrun
  obtain ⟨x, hx, h1⟩ := Option.any_eq_true _ _ |>.1 hscore
  obtain ⟨⟨job, expireAt⟩, hj, hc⟩ := Option.any_eq_true _ _ |>.1 hcell
  obtain ⟨rfl, ht⟩ := of_decide_eq_true hc
  obtain ⟨es', s', hr', -, job', hj', -, hres, -⟩ :=
    progress_of_run hr hi (.inr ⟨x, hx, of_decide_eq_true h1⟩) hj ht (some "result")
  exact ⟨s, s', hr, ⟨es', hr'⟩, job', hj', hres⟩

end Kvdb
