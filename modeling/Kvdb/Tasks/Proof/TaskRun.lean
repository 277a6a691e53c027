import Kvdb.Tasks.Proof.Abandon

/-!
# A call of `process_queue` is a run of its task

The two models of `process_queue` agree: what a call leaves on the server, however its parts end,
is left by a run of one task of `system` (`exists_run_process`). `Reaches` is such a run, built step
by step along the call (`reaches_perform`, `reaches_handler`, `reaches_attempt`).

The task has no step for an update that is lost before it reaches the server, none for a job that
gets the name of another function, and the poll is a task of its own; `Stages.Regular` and the
hypothesis on child objects leave these out.
-/

namespace Kvdb

open Lib TaskQueue

variable {ι V : Type}

/-- `Job.update` reaches the server, nothing but the function raises a `JobError`, and no poll
interferes. -/
structure Stages.Regular (o : Stages V) : Prop where
  update : o.update.executes = true
  touched : o.touched = o.started
  poll : o.poll = none
  finish : ∀ e, o.finish.raised ≠ some (.jobError e)
  getNextCronRunData : ∀ e, o.getNextCronRunData ≠ some (.jobError e)
  skipUpdate : o.skipUpdate.executes = true

/-- A call in which nothing fails. -/
example (excError : V) : ({ excError } : Stages V).Regular where
  update := rfl
  touched := rfl
  poll := rfl
  finish _ h := by cases h
  getNextCronRunData _ h := by cases h
  skipUpdate := rfl

/-- What the handlers of the task see of it. -/
def Raised.outcome (py : Py V) (excError : V) (s : Local V) : Raised V → Option (Outcome V)
  | .jobError e => some (.jobError excError e (retryable (py.or s.job.error e)))
  | .cancelled e => some (.cancelled (py.str "cancelled") (retryable (py.or s.job.error e)))
  | .exception e => some (.exception excError e (retryable e))
  | .fatal _ => none
where
  retryable (e : V) : Option Bool :=
    s.function.bind fun f => (f.shouldRetryOnError py e).toOption

/-! ## Runs of one task -/

/-- A step of the task `i`, or of the background tasks of the push list. -/
def Ev.By (i : ι) : Ev ι V → Prop
  | .move j _ => j = i
  | .pushBg _ => True
  | _ => False

variable [DecidableEq ι] {c : QueueConfig} {i : ι} {S : Sys ι V}

variable (c i S) in
/-- From `S` the task gets to `t` by the steps `acts` on the server; the others do not move. -/
def Reaches (acts : List (Act V)) (t : Task ι V) : Prop :=
  ∃ es, (system c).Run (fun _ e => e.By i) S es
    { db := run c S.db acts, tasks := Function.update S.tasks i t }

namespace Reaches

variable {acts : List (Act V)} {t t' : Task ι V}

theorem here : Reaches c i S [] (S.tasks i) := by
  refine ⟨[], ?_⟩
  rw [Function.update_eq_self]
  exact .nil

theorem snoc {e : Ev ι V} {a : Act V} (h : Reaches c i S acts t) (hby : e.By i)
    (he : ∀ S' : Sys ι V, S'.tasks = Function.update S.tasks i t →
      S'.plan c e = some (a, Function.update S.tasks i t')) : Reaches c i S (acts ++ [a]) t' := by
  obtain ⟨es, hr⟩ := h
  have hplan := he { db := run c S.db acts, tasks := Function.update S.tasks i t } rfl
  refine ⟨es ++ [e], hr.snoc hby ?_⟩
  have hrun : run c S.db (acts ++ [a]) = apply c (run c S.db acts) a := List.foldl_concat ..
  simp only [system, hplan, Option.map_some, hrun]

theorem move {a : Act V} (m : Move ι V) (h : Reaches c i S acts t)
    (hm : ∀ S' : Sys ι V, move c S' t m = some (a, t')) : Reaches c i S (acts ++ [a]) t' := by
  refine h.snoc (e := .move i m) rfl fun S' hS' => ?_
  simp only [Sys.plan, hS', Function.update_self, hm, Option.map_some, Function.update_idem]

/-- A step that leaves the server as it is. -/
theorem look (m : Move ι V) (h : Reaches c i S acts t)
    (hm : ∀ S' : Sys ι V, Kvdb.move c S' t m = some (.read, t')) : Reaches c i S acts t' := by
  obtain ⟨es, hr⟩ := h.move m hm
  have hrun : run c S.db (acts ++ [.read]) = run c S.db acts := List.foldl_concat ..
  exact ⟨es, hrun ▸ hr⟩

theorem leave (h : Reaches c i S acts t) : Reaches c i S acts .idle :=
  h.look .leave fun _ => rfl

theorem push (jobId : String) (h : Reaches c i S acts t) :
    Reaches c i S (acts ++ [.pushBg jobId]) t :=
  h.snoc (e := .pushBg jobId) trivial fun S' hS' => by rw [Sys.plan, hS']

end Reaches

/-! ## The handlers -/

variable {py : Py V} {w : JobWorker V} {o : Stages V}

/-- A call that the task finds at `t`, and whose step takes it to `t'`. -/
theorem reaches_acts {acts : List (Act V)} {t t' : Task ι V} {a : Act V} (fate : Fate V)
    (h : Reaches c i S acts t) (h' : Reaches c i S (acts ++ [a]) t') :
    Reaches c i S (acts ++ fate.acts a) .idle := by
  unfold Fate.acts
  split
  · exact h'.leave
  · rw [List.append_nil]
    exact h.leave

theorem reaches_fail {s : Local V} {error : V}
    (h : Reaches c i S s.acts (.handling s.job [.finishFailed error])) :
    Reaches c i S ((JobWorker.fail py o error).exec s).2.acts .idle := by
  have hfinish := h.move (.exit o.exited o.rnd o.time) fun _ => rfl
  have hacts : ((JobWorker.fail py o error).exec s).2.acts =
      s.acts ++ o.finishFailed.acts (.finish s.job .failed none (some error) o.exited) := by
    simp only [JobWorker.fail, Proc.exec_bind, Proc.exec_finish, Proc.exec_function,
      Proc.exec_raise]
    cases o.finishFailed.raised with
    | some r => rfl
    | none =>
      simp only [Proc.result]
      cases s.function <;> rfl
  rw [hacts]
  exact reaches_acts _ h hfinish

theorem reaches_retry {s : Local V} {error : V}
    (h : Reaches c i S s.acts (.handling s.job [.retry error])) :
    Reaches c i S
      ((Proc.retry c o.push o.retry error o.exited o.rnd o.time).exec s).2.acts .idle := by
  have hpush := h.push (s.job.id c.toKeyConfig)
  have hretry := hpush.move (.exit o.exited o.rnd o.time) fun _ => rfl
  simp only [Proc.exec_retry]
  cases hp : o.push.raised with
  | some r => exact reaches_acts _ h hpush
  | none =>
    have hexecutes : o.push.executes = true := by
      cases hf : o.push with
      | done => rfl
      | before r | after r => simp [hf, Fate.raised] at hp
    simp only [Fate.acts, hexecutes, ↓reduceIte]
    exact reaches_acts _ hpush hretry

/-- A handler that retries the job or finishes it, as `onError` has it. -/
theorem reaches_onError {s : Local V} {e : V} {skip : List (Exit V)} {giveUp : Proc V Unit}
    (h : Reaches c i S s.acts (onError s.job o.excError (Raised.outcome.retryable py s e) skip))
    (hskip : Reaches c i S s.acts (.handling { s.job with retries := 0 } skip) →
      Reaches c i S (giveUp.exec s).2.acts .idle) :
    Reaches c i S
      ((if s.job.retries < s.job.attempts then JobWorker.fail py o o.excError
        else do
          let f ← Proc.function py "should_retry_on_error"
          if ← ofExcept (f.shouldRetryOnError py e) then
            Proc.retry c o.push o.retry o.excError o.exited o.rnd o.time
          else giveUp : Proc V Unit).exec s).2.acts .idle := by
  unfold onError at h
  split
  · rename_i hlt
    rw [if_pos hlt] at h
    exact reaches_fail h
  · rename_i hlt
    rw [if_neg hlt] at h
    simp only [Proc.exec_bind, Proc.exec_function]
    cases hf : s.function with
    | none => exact h.leave
    | some f =>
      simp only [Raised.outcome.retryable, hf, Option.bind_some] at h
      simp only [Proc.exec_ofExcept]
      cases hr : f.shouldRetryOnError py e with
      | error r => exact h.leave
      | ok b =>
        simp only [hr, Except.toOption] at h
        cases b with
        | true => exact reaches_retry h
        | false => exact hskip h

/-- The handlers leave what the exits of the task leave. -/
theorem reaches_handler {s : Local V} {t : Task ι V} (r : Raised V)
    (hskip : o.skipUpdate.executes = true) (h : Reaches c i S s.acts t)
    (ht : ∀ x, r.outcome py o.excError s = some x →
      Reaches c i S s.acts (onOutcome s.job s.aborted x)) :
    Reaches c i S ((JobWorker.handler c py o r).exec s).2.acts .idle := by
  cases r with
  | jobError e =>
    simp only [JobWorker.handler, Proc.exec_bind, Proc.exec_get]
    refine reaches_onError (ht _ rfl) fun hgive => ?_
    have hupdate := hgive.move (.exit o.exited o.rnd o.time) fun _ => rfl
    simp only [Proc.setJob, Proc.exec_bind, Proc.exec_modify, Proc.exec_update, Fate.acts, hskip,
      ↓reduceIte]
    cases o.skipUpdate.escapes with
    | some r => exact hupdate.leave
    | none => exact reaches_fail hupdate
  | exception e =>
    simp only [JobWorker.handler, Proc.exec_bind, Proc.exec_get]
    refine reaches_onError (ht _ rfl) fun hgive => ?_
    simp only [Proc.setJob, Proc.exec_bind, Proc.exec_modify]
    exact reaches_fail hgive
  | cancelled e =>
    have hretry := ht _ rfl
    simp only [onOutcome, retriesOnCancel] at hretry
    simp only [JobWorker.handler, Proc.exec_bind, Proc.exec_get]
    split
    · rename_i hnot
      simp only [Proc.exec_bind, Proc.exec_function]
      cases hf : s.function with
      | none => exact h.leave
      | some f =>
        simp only [Proc.exec_ofExcept]
        cases hr : f.shouldRetryOnError py (py.or s.job.error e) with
        | error r => exact h.leave
        | ok b =>
          cases b with
          | false => exact h.leave
          | true =>
            refine reaches_retry ?_
            simpa [Raised.outcome.retryable, hf, hr, Except.toOption, hnot] using hretry
    · exact h.leave
  | fatal e => exact h.leave

/-! ## The `try` block -/

/-- What the handlers make of an error while the function runs, or before that. -/
theorem reaches_running {s : Local V} (r : Raised V) (ho : o.Regular) (ha : s.aborted = false)
    (h : Reaches c i S s.acts (.running s.job false)) :
    Reaches c i S ((JobWorker.handler c py o r).exec s).2.acts .idle := by
  refine reaches_handler r ho.skipUpdate h fun x _ => ?_
  rw [ha]
  exact h.look (.outcome x) fun _ => rfl

/-- What they make of an error of `finish`, or after it. -/
theorem reaches_finished {s : Local V} {t : Task ι V} (r : Raised V) (ho : o.Regular)
    (hr : ∀ e, r ≠ .jobError e) (hs : s.job.isComplete = true) (h : Reaches c i S s.acts t)
    (ht : ∀ e retryable,
      Reaches c i S s.acts (onError s.job o.excError retryable [.finishFailed e])) :
    Reaches c i S ((JobWorker.handler c py o r).exec s).2.acts .idle := by
  refine reaches_handler r ho.skipUpdate h fun x hx => ?_
  cases r with
  | jobError e => exact absurd rfl (hr e)
  | cancelled e =>
    cases hx
    simp only [onOutcome, retriesOnCancel, hs, Bool.true_eq_false, false_and, decide_false,
      Bool.false_eq_true, ↓reduceIte]
    exact h.leave
  | exception e =>
    cases hx
    exact ht e _
  | fatal e => cases hx

variable (py w) in
theorem nextCronRun_cases (ho : o.Regular) (s : Local V) (f : TaskFunction V) :
    (w.nextCronRun py o f).exec s = (.ok (), s) ∨
      ∃ r, (w.nextCronRun py o f).exec s = (.error r, s) ∧ ∀ e, r ≠ .jobError e := by
  unfold JobWorker.nextCronRun
  split
  · simp only [Proc.exec_bind, Proc.exec_get, Proc.exec_ofExcept,
      QueueTasks.isFunctionSilenced]
    cases w.queueTasks.functions.lookup s.job.function with
    | none => exact .inr ⟨_, rfl, fun e he => by cases he⟩
    | some g =>
      dsimp only
      cases g.isSilenced "finish" with
      | true => exact .inl rfl
      | false =>
        cases hn : o.getNextCronRunData with
        | none => exact .inl rfl
        | some r =>
          exact .inr ⟨r, rfl, fun e he => ho.getNextCronRunData e (hn.trans (congrArg some he))⟩
  · exact .inl rfl

theorem reaches_perform {s : Local V} {f : TaskFunction V} (ho : o.Regular)
    (ha : s.aborted = false) (h : Reaches c i S s.acts (.running s.job false)) :
    Reaches c i S
      ((tryCatch (w.perform py o f) (JobWorker.handler c py o)).exec s).2.acts .idle := by
  simp only [Proc.exec_tryCatch, JobWorker.perform, Proc.exec_bind, Proc.exec_modify,
    Proc.exec_raise, Proc.exec_ofExcept, Proc.exec_finish, ho.poll, Option.isSome_none]
  cases hc : o.createTask with
  | some r => exact reaches_running r ho ha h
  | none =>
    simp only [Proc.result]
    cases hrun : o.run with
    | error r => exact reaches_running r ho rfl h
    | ok result =>
      have hfinishing := h.look (.outcome (.returned result)) fun _ => rfl
      have hcompleted := hfinishing.move (.finish o.completed) fun _ => rfl
      cases hf : o.finish with
      | before r =>
        simp only [Fate.raised, Fate.acts, Fate.executes, Bool.false_eq_true, ↓reduceIte,
          List.append_nil]
        refine reaches_finished r ho (fun e he => ho.finish e ?_) rfl hfinishing fun e x => ?_
        · rw [hf, Fate.raised, he]
        · exact hfinishing.look (.raised o.completed o.excError e x) fun _ => rfl
      | after r =>
        simp only [Fate.raised, Fate.acts, Fate.executes, ↓reduceIte]
        refine reaches_finished r ho (fun e he => ho.finish e ?_) rfl hcompleted fun e x => ?_
        · rw [hf, Fate.raised, he]
        · exact hcompleted.look (.raised o.completed o.excError e x) fun _ => rfl
      | done =>
        simp only [Fate.raised, Fate.acts, Fate.executes, ↓reduceIte]
        -- what is left is the next run of a cron job
        obtain hn | ⟨r, hn, hr⟩ := nextCronRun_cases py w ho _ f
        · rw [hn]
          exact hcompleted.leave
        · rw [hn]
          exact reaches_finished r ho hr rfl hcompleted fun e x =>
            hcompleted.look (.raised o.completed o.excError e x) fun _ => rfl

variable (py w) in
/-- The first part: the update of the job, and the lookup of its function. -/
theorem prepare_regular (ho : o.Regular) (hw : w.queueTasks.hasChildObjects = false)
    (job : Job V) :
    ∃ x s', (w.prepare py o).exec { job } = (x, s') ∧ s'.aborted = false ∧
      s'.job = { job.start o.started with touched := o.started } ∧
      s'.acts = [.update (job.start o.started) o.started] := by
  simp only [JobWorker.prepare, Proc.setJob, Proc.exec_bind, Proc.exec_modify, Proc.exec_update,
    Proc.exec_raise, Proc.exec_get, Proc.exec_ofExcept, Fate.acts, ho.update, ho.touched,
    ↓reduceIte, List.nil_append]
  cases o.update.escapes with
  | some r => exact ⟨_, _, rfl, rfl, rfl, rfl⟩
  | none =>
    cases o.beforeProcess with
    | some r => exact ⟨_, _, rfl, rfl, rfl, rfl⟩
    | none =>
      have hname : (job.start o.started).function = job.function := rfl
      simp only [Proc.result, QueueTasks.ensureJobInFunctions, QueueTasks.isFunctionSilenced, hw,
        hname]
      cases hq : w.queueTasks.functions.lookup job.function with
      | none => exact ⟨_, _, rfl, rfl, rfl, rfl⟩
      | some f =>
        simp only [hq]
        cases w.functions.lookup job.function with
        | none => exact ⟨_, _, rfl, rfl, rfl, rfl⟩
        | some g => exact ⟨_, _, rfl, rfl, rfl, rfl⟩

/-- Without the poll, nothing follows the handlers. -/
theorem attempt_acts (ho : o.Regular) (s : Local V) :
    ((w.attempt c py o).exec s).2.acts =
      ((tryCatch (w.tryBlock py o) (JobWorker.handler c py o)).exec s).2.acts := by
  rw [JobWorker.attempt, Proc.exec_bind, Proc.exec_tryCatch]
  cases (tryCatch (w.tryBlock py o) (JobWorker.handler c py o)).exec s with
  | mk x s' =>
    cases x <;> simp only [Proc.exec_pure, JobWorker.pollFinish, Proc.exec_bind, Proc.exec_get,
      ho.poll, ite_self]

theorem reaches_attempt {job : Job V} (ho : o.Regular)
    (hw : w.queueTasks.hasChildObjects = false) (h : S.tasks i = .starting job) :
    Reaches c i S ((w.attempt c py o).exec { job }).2.acts .idle := by
  have hstart : Reaches c i S [.update (job.start o.started) o.started]
      (.running { job.start o.started with touched := o.started } false) :=
    (h ▸ Reaches.here).move (.start o.started) fun _ => rfl
  obtain ⟨x, s', hx, ha, hjob, hacts⟩ := prepare_regular py w ho hw job
  rw [← hacts, ← hjob] at hstart
  rw [attempt_acts ho, Proc.exec_tryCatch, JobWorker.tryBlock, Proc.exec_bind, hx]
  cases x with
  | error r => exact reaches_running r ho ha hstart
  | ok f =>
    rw [← Proc.exec_tryCatch]
    exact reaches_perform ho ha hstart

/-! ## From the dequeue on -/

variable (c py w) in
theorem reaches_processQueue {job : Job V} (ho : o.Regular)
    (hw : w.queueTasks.hasChildObjects = false) (h : S.tasks i = .starting job) :
    Reaches c i S (w.processQueue c py o (some job)) .idle := by
  simp only [JobWorker.processQueue]
  split
  · exact Reaches.here.leave
  · split
    · exact reaches_attempt ho hw h
    · exact Reaches.here.leave

theorem step_move {m : Move ι V} {a : Act V} {t : Task ι V}
    (h : move c S (S.tasks i) m = some (a, t)) :
    (system c).step S (.move i m) =
      some { db := apply c S.db a, tasks := Function.update S.tasks i t } := by
  simp only [system, Sys.plan, h, Option.map_some]

/-- The dequeue of an id, and the read of its record. -/
theorem run_fetch (hi : S.tasks i = .idle) {r : Route} {id : String}
    (h : (S.db.lanes r).queued.getLast? = some id) :
    (system c).Run (fun _ e => e.By i) S [.move i (.dequeue r), .move i .fetch]
      { db := apply c S.db (.dequeue r)
        tasks := Function.update S.tasks i
          ((S.db.records.get id).elim .idle fun job => .starting job) } := by
  have hdequeue : (system c).step S (.move i (.dequeue r)) = some
      { db := apply c S.db (.dequeue r), tasks := Function.update S.tasks i (.fetched id) } :=
    step_move (by simp only [hi, move, h, Option.elim_some])
  have hfetch : move c
      { db := apply c S.db (.dequeue r), tasks := Function.update S.tasks i (.fetched id) }
      (Function.update S.tasks i (.fetched id) i) .fetch =
        some (.read, (S.db.records.get id).elim .idle fun job => .starting job) := by
    rw [Function.update_self]
    rfl
  have hstep := step_move hfetch
  rw [Function.update_idem] at hstep
  have hone : (system c).Run (fun _ e => e.By i) S [.move i (.dequeue r)] _ := .single rfl hdequeue
  exact hone.snoc rfl hstep

/-- **Every call of `process_queue` is a run of a task**: what it leaves on the server from the
dequeue on, a run of `system` leaves in which no other task moves. -/
theorem exists_run_process (c : QueueConfig) (py : Py V) (w : JobWorker V) (o : Stages V)
    (ho : o.Regular) (hw : w.queueTasks.hasChildObjects = false) (i : ι) (S : Sys ι V)
    (hi : S.tasks i = .idle) (r : Route) (id : String)
    (h : (S.db.lanes r).queued.getLast? = some id) :
    ∃ es, (system c).Run (fun _ e => e.By i) S es
      { S with db := dequeueAndProcess c py w o S.db r id } := by
  have hrun := run_fetch (c := c) hi h
  have hrec : (apply c S.db (.dequeue r)).records.get id = S.db.records.get id := rfl
  have hidle : Function.update S.tasks i .idle = S.tasks := by rw [← hi, Function.update_eq_self]
  unfold dequeueAndProcess
  rw [hrec]
  cases hj : S.db.records.get id with
  | none =>
    rw [hj, Option.elim_none, hidle] at hrun
    exact ⟨_, hrun⟩
  | some job =>
    rw [hj, Option.elim_some] at hrun
    have hstarting : ({ db := apply c S.db (.dequeue r)
                        tasks := Function.update S.tasks i (.starting job) } : Sys ι V).tasks i =
        .starting job := Function.update_self ..
    obtain ⟨es, hes⟩ := reaches_processQueue c py w ho hw hstarting
    rw [Function.update_idem, hidle] at hes
    exact ⟨_, hrun.append hes⟩

end Kvdb
