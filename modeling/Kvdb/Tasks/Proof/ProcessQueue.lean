import Kvdb.Tasks.ProcessQueue
import Kvdb.Tasks.Proof.Lanes

/-!
# The exits of `process_queue`

What a call of `process_queue` leaves of its job, followed through the code: where the `try` block stops
(`prepare_early`, `prepare_known`, `perform_late`, `perform_done`), what the handlers make of it
(`handler_unknown` while the function is not looked up, `handler_known` after that), and what no part of
the call changes (`Carries`, by `Within`). `Local.settled`: a step that releases the id is taken.
-/

namespace Kvdb

open Lib TaskQueue

variable {V : Type}

/-! ## Programs that may raise -/

namespace Proc

variable {α β : Type}

/-- The result, and the local variables then. -/
def exec (p : Proc V α) (s : Local V) : Except (Raised V) α × Local V := p.run.run s

@[simp] theorem exec_pure (a : α) (s : Local V) : (pure a : Proc V α).exec s = (.ok a, s) := rfl

@[simp] theorem exec_throw (r : Raised V) (s : Local V) :
    (throw r : Proc V α).exec s = (.error r, s) := rfl

@[simp] theorem exec_get (s : Local V) : (get : Proc V (Local V)).exec s = (.ok s, s) := rfl

@[simp] theorem exec_modify (f : Local V → Local V) (s : Local V) :
    (modify f : Proc V Unit).exec s = (.ok (), f s) := rfl

@[simp] theorem exec_ofExcept (x : Except (Raised V) α) (s : Local V) :
    (ofExcept x : Proc V α).exec s = (x, s) := by
  cases x <;> rfl

@[simp] theorem exec_bind (p : Proc V α) (f : α → Proc V β) (s : Local V) :
    (p >>= f).exec s =
      match p.exec s with
      | (.ok a, s') => (f a).exec s'
      | (.error r, s') => (.error r, s') := by
  show ExceptT.bindCont f (p s).1 (p s).2 = _
  cases hp : p s with
  | mk x s' =>
    have hp' : p.exec s = (x, s') := hp
    rw [hp']
    cases x <;> rfl

@[simp] theorem exec_tryCatch (p : Proc V α) (h : Raised V → Proc V α) (s : Local V) :
    (tryCatch p h).exec s =
      match p.exec s with
      | (.ok a, s') => (.ok a, s')
      | (.error r, s') => (h r).exec s' := by
  cases hp : p s with
  | mk x s' =>
    have hp' : p.exec s = (x, s') := hp
    rw [hp']
    show (ExceptT.tryCatch p h) s = _
    simp only [ExceptT.tryCatch, ExceptT.mk, bind, StateT.bind, hp]
    cases x <;> rfl

/-- `none`: it returns. -/
def result : Option (Raised V) → Except (Raised V) Unit
  | none => .ok ()
  | some r => .error r

@[simp] theorem exec_raise (r : Option (Raised V)) (s : Local V) :
    (raise r).exec s = (result r, s) := by
  cases r <;> rfl

end Proc

/-- What a call raises that suppresses every `Exception`. -/
def Fate.escapes (fate : Fate V) : Option (Raised V) := fate.raised.filter fun r => !r.isException

/-- What a call does to the steps so far. -/
def Fate.acts (fate : Fate V) (a : Act V) : List (Act V) := if fate.executes then [a] else []

namespace Proc

theorem exec_call (fate : Fate V) (a : Act V) (s : Local V) :
    (call fate a).exec s =
      (result fate.raised, { s with acts := s.acts ++ fate.acts a }) := by
  cases fate <;> simp [call, emit, Fate.executes, Fate.raised, Fate.acts]

theorem exec_update (fate : Fate V) (now : ℤ) (s : Local V) :
    (update fate now).exec s =
      (result fate.escapes,
        { s with
          job := { s.job with touched := now }
          acts := s.acts ++ fate.acts (.update s.job now) }) := by
  simp only [update, setJob, exec_bind, exec_get, exec_modify, exec_tryCatch, exec_call]
  cases hr : fate.raised with
  | none => simp [Fate.escapes, hr, result]
  | some r => cases he : r.isException <;> simp [Fate.escapes, hr, he, result, Option.filter]

theorem exec_finish (fate : Fate V) (status : JobStatus) (res error : Option V) (now : ℤ)
    (s : Local V) :
    (finish fate status res error now).exec s =
      (result fate.raised,
        { s with
          job := s.job.complete status res error now
          acts := s.acts ++ fate.acts (.finish s.job status res error now) }) := by
  simp only [finish, setJob, exec_bind, exec_get, exec_modify, exec_call]

theorem exec_retry (c : QueueConfig) (push fate : Fate V) (error : V) (now : ℤ) (rnd time : ℚ)
    (s : Local V) :
    (retry c push fate error now rnd time).exec s =
      match push.raised with
      | some r =>
        (.error r,
          { s with
            job := s.job.reset .queued (some error) now
            acts := s.acts ++ push.acts (.pushBg (s.job.id c.toKeyConfig)) })
      | none =>
        (result fate.raised,
          { s with
            job := s.job.reset .queued (some error) now
            acts := s.acts ++ push.acts (.pushBg (s.job.id c.toKeyConfig)) ++
              fate.acts (.retry s.job (some error) now rnd time) }) := by
  simp only [retry, setJob, exec_bind, exec_get, exec_modify, exec_call]
  cases push.raised <;> rfl

theorem exec_function (py : Py V) (name : String) (s : Local V) :
    (Proc.function py name).exec s =
      (match s.function with
        | some f => .ok f
        | none => .error (.exception (py.error (.attributeError
            ("'NoneType' object has no attribute '" ++ name ++ "'")))), s) := by
  simp only [Proc.function, exec_bind, exec_get]
  cases s.function <;> rfl

end Proc

/-! ## The steps that release an id -/

/-- The step takes the id of its job from the active list. -/
def Act.takes : Act V → Bool
  | .finish .. | .retry .. => true
  | _ => false

/-- A `finish` or a `retry` is executed. -/
def Local.settled (s : Local V) : Bool := s.acts.any Act.takes

@[simp] theorem any_takes_acts (fate : Fate V) (a : Act V) :
    (fate.acts a).any Act.takes = (fate.executes && a.takes) := by
  unfold Fate.acts
  split
  · rename_i h
    simp [h]
  · rename_i h
    simp [h]

/-! ## Where the `try` block stops -/

section
variable (py : Py V) (w : JobWorker V) (o : Stages V)

/-- The function that the name of a job's function stands for. -/
def JobWorker.lookup (function : String) : Except (Raised V) (TaskFunction V) := do
  let name ← w.queueTasks.ensureJobInFunctions py function
  let _ ← w.queueTasks.isFunctionSilenced py name "process"
  match w.functions.lookup name with
  | none => .error (.exception (py.error (.keyError name)))
  | some f => .ok f

/-- What is raised before the function is known. -/
def JobWorker.raisesEarly (function : String) : Option (Raised V) :=
  match o.update.escapes, o.beforeProcess, w.lookup py function with
  | some r, _, _ => some r
  | none, some r, _ => some r
  | none, none, .error r => some r
  | none, none, .ok _ => none

/-- The job while its function runs. -/
def Stages.running (job : Job V) : Job V := { job.start o.started with touched := o.touched }

/-- What is raised after that and before `finish` has released the id, with the job and the flag of the
poll at this time. -/
def Stages.raisesLate (job : Job V) : Option (Raised V × Job V × Bool) :=
  match o.createTask, o.run, o.finish with
  | some r, _, _ => some (r, job, false)
  | none, .error r, _ => some (r, job, o.poll.isSome)
  | none, .ok result, .before r =>
    some (r, job.complete .complete result none o.completed, o.poll.isSome)
  | none, .ok _, _ => none

end

section
variable {py : Py V} {w : JobWorker V} {o : Stages V}

theorem prepare_early {s : Local V} {r : Raised V}
    (h : w.raisesEarly py o s.job.function = some r) :
    ∃ s', (w.prepare py o).exec s = (.error r, s') ∧ s'.settled = s.settled ∧
      s'.function = s.function ∧ s'.aborted = s.aborted ∧ s'.job.retries = s.job.retries ∧
      s'.job.attempts = s.job.attempts + 1 := by
  simp only [JobWorker.prepare, Proc.setJob, Proc.exec_bind, Proc.exec_modify, Proc.exec_update,
    Proc.exec_raise, Proc.exec_get, Proc.exec_ofExcept]
  cases hu : o.update.escapes with
  | some r' =>
    simp only [JobWorker.raisesEarly, hu, Option.some.injEq] at h
    subst h
    exact ⟨_, rfl, by simp [Local.settled, Act.takes], rfl, rfl, rfl, rfl⟩
  | none =>
    cases hb : o.beforeProcess with
    | some r' =>
      simp only [JobWorker.raisesEarly, hu, hb, Option.some.injEq] at h
      subst h
      exact ⟨_, rfl, by simp [Local.settled, Act.takes], rfl, rfl, rfl, rfl⟩
    | none =>
      simp only [JobWorker.raisesEarly, hu, hb, JobWorker.lookup] at h
      simp only [Proc.result, Job.start]
      cases hn : w.queueTasks.ensureJobInFunctions py s.job.function with
      | error r' =>
        simp only [hn, bind, Except.bind, Option.some.injEq] at h
        subst h
        exact ⟨_, rfl, by simp [Local.settled, Act.takes], rfl, rfl, rfl, rfl⟩
      | ok name =>
        cases hs : w.queueTasks.isFunctionSilenced py name "process" with
        | error r' =>
          simp only [hn, hs, bind, Except.bind, Option.some.injEq] at h
          subst h
          simp only [hs]
          exact ⟨_, rfl, by simp [Local.settled, Act.takes], rfl, rfl, rfl, rfl⟩
        | ok silenced =>
          cases hf : w.functions.lookup name with
          | none =>
            simp only [hn, hs, hf, bind, Except.bind, Option.some.injEq] at h
            subst h
            simp only [hs, hf, Proc.exec_throw]
            exact ⟨_, rfl, by simp [Local.settled, Act.takes], rfl, rfl, rfl, rfl⟩
          | some f => simp [hn, hs, hf, bind, Except.bind] at h

theorem prepare_known {s : Local V} {f : TaskFunction V}
    (h : w.raisesEarly py o s.job.function = none) (hf : w.lookup py s.job.function = .ok f) :
    ∃ s' name, (w.prepare py o).exec s = (.ok f, s') ∧ s'.settled = s.settled ∧
      s'.function = some f ∧ s'.aborted = s.aborted ∧
      s'.job = { o.running s.job with function := name } := by
  simp only [JobWorker.prepare, Proc.setJob, Proc.exec_bind, Proc.exec_modify, Proc.exec_update,
    Proc.exec_raise, Proc.exec_get, Proc.exec_ofExcept]
  cases hu : o.update.escapes with
  | some r => simp [JobWorker.raisesEarly, hu] at h
  | none =>
    cases hb : o.beforeProcess with
    | some r => simp [JobWorker.raisesEarly, hu, hb] at h
    | none =>
      simp only [JobWorker.lookup] at hf
      simp only [Proc.result, Job.start]
      cases hn : w.queueTasks.ensureJobInFunctions py s.job.function with
      | error r => simp [hn, bind, Except.bind] at hf
      | ok name =>
        cases hs : w.queueTasks.isFunctionSilenced py name "process" with
        | error r => simp [hn, hs, bind, Except.bind] at hf
        | ok silenced =>
          cases hl : w.functions.lookup name with
          | none => simp [hn, hs, hl, bind, Except.bind] at hf
          | some g =>
            simp only [hn, hs, hl, bind, Except.bind, Except.ok.injEq] at hf
            subst hf
            simp only [hs, hl, Proc.exec_bind, Proc.exec_modify, Proc.exec_pure]
            exact ⟨_, name, rfl, by simp [Local.settled, Act.takes], rfl, rfl, rfl⟩

variable (py w) in
theorem perform_late {s : Local V} {f : TaskFunction V} {x : Raised V × Job V × Bool}
    (h : o.raisesLate s.job = some x) (ha : s.aborted = false) :
    ∃ s', (w.perform py o f).exec s = (.error x.1, s') ∧ s'.settled = s.settled ∧
      s'.function = s.function ∧ s'.job = x.2.1 ∧ s'.aborted = x.2.2 := by
  simp only [JobWorker.perform, Proc.exec_bind, Proc.exec_modify, Proc.exec_raise,
    Proc.exec_ofExcept, Proc.exec_finish]
  cases hc : o.createTask with
  | some r =>
    simp only [Stages.raisesLate, hc, Option.some.injEq] at h
    subst h
    exact ⟨_, rfl, rfl, rfl, rfl, ha⟩
  | none =>
    simp only [Proc.result]
    cases hr : o.run with
    | error r =>
      simp only [Stages.raisesLate, hc, hr, Option.some.injEq] at h
      subst h
      exact ⟨_, rfl, rfl, rfl, rfl, rfl⟩
    | ok result =>
      cases hf : o.finish with
      | before r =>
        simp only [Stages.raisesLate, hc, hr, hf, Option.some.injEq] at h
        subst h
        simp only [Fate.raised]
        exact ⟨_, rfl, by simp [Local.settled, Fate.executes], rfl, rfl, rfl⟩
      | done | after => simp [Stages.raisesLate, hc, hr, hf] at h

theorem exec_nextCronRun (s : Local V) (f : TaskFunction V) :
    ((w.nextCronRun py o f).exec s).2 = s := by
  unfold JobWorker.nextCronRun
  split
  · simp only [Proc.exec_bind, Proc.exec_get, Proc.exec_ofExcept]
    cases w.queueTasks.isFunctionSilenced py s.job.function "finish" with
    | error r => rfl
    | ok silenced => cases silenced <;> simp
  · rfl

theorem perform_done {s : Local V} {f : TaskFunction V} (h : o.raisesLate s.job = none) :
    ((w.perform py o f).exec s).2.settled = true := by
  simp only [JobWorker.perform, Proc.exec_bind, Proc.exec_modify, Proc.exec_raise,
    Proc.exec_ofExcept, Proc.exec_finish]
  cases hc : o.createTask with
  | some r => simp [Stages.raisesLate, hc] at h
  | none =>
    simp only [Proc.result]
    cases hr : o.run with
    | error r => simp [Stages.raisesLate, hc, hr] at h
    | ok result =>
      cases hf : o.finish with
      | before r => simp [Stages.raisesLate, hc, hr, hf] at h
      | done =>
        simp only [Fate.raised, exec_nextCronRun]
        simp [Local.settled, Act.takes, Fate.executes]
      | after r =>
        simp only [Fate.raised]
        simp [Local.settled, Act.takes, Fate.executes]

/-! ## What the handlers make of it -/

variable {c : QueueConfig}

/-- The call of `fail` finishes the job, whatever the callback does. -/
theorem fail_settled (s : Local V) (error : V) :
    ((JobWorker.fail py o error).exec s).2.settled =
      (s.settled || o.finishFailed.executes) := by
  simp only [JobWorker.fail, Proc.exec_bind, Proc.exec_finish, Proc.exec_function,
    Proc.exec_raise]
  cases hr : o.finishFailed.raised with
  | some r => simp [Proc.result, Local.settled, Act.takes]
  | none =>
    simp only [Proc.result]
    cases s.function <;> simp [Local.settled, Act.takes]

/-- The `retry` of a handler is executed. -/
def Stages.retries (o : Stages V) : Bool := o.push.raised.isNone && o.retry.executes

theorem retry_settled (s : Local V) (error : V) (now : ℤ) (rnd time : ℚ) :
    ((Proc.retry c o.push o.retry error now rnd time).exec s).2.settled =
      (s.settled || o.retries) := by
  simp only [Proc.exec_retry]
  cases hp : o.push.raised with
  | some r => simp [Stages.retries, hp, Local.settled, Act.takes]
  | none => simp [Stages.retries, hp, Local.settled, Act.takes]

variable (py o) in
/-- A handler that knows the function releases the id of a job that it finds so. -/
def JobWorker.Handles (f : TaskFunction V) (job : Job V) (aborted : Bool) : Raised V → Prop
  | .jobError jobE =>
    if job.retries < job.attempts then o.finishFailed.executes = true
    else
      match f.shouldRetryOnError py (py.or job.error jobE) with
      | .ok true => o.retries = true
      | .ok false => o.skipUpdate.escapes = none ∧ o.finishFailed.executes = true
      | .error _ => False
  | .cancelled jobE =>
    job.isComplete = false ∧ aborted = false ∧
      f.shouldRetryOnError py (py.or job.error jobE) = .ok true ∧ o.retries = true
  | .exception jobE =>
    if job.retries < job.attempts then o.finishFailed.executes = true
    else
      match f.shouldRetryOnError py jobE with
      | .ok true => o.retries = true
      | .ok false => o.finishFailed.executes = true
      | .error _ => False
  | .fatal _ => False

variable (c py o) in
/-- Without a function it can only finish a job that has no attempts left. -/
theorem handler_unknown {s : Local V} (r : Raised V) (hf : s.function = none)
    (hs : s.settled = false) :
    ((JobWorker.handler c py o r).exec s).2.settled = true ↔
      r.isException = true ∧ s.job.retries < s.job.attempts ∧
        o.finishFailed.executes = true := by
  cases r with
  | jobError e | exception e =>
    simp only [JobWorker.handler, Proc.exec_bind, Proc.exec_get]
    split
    · rename_i hlt
      simp [fail_settled, hs, Raised.isException, hlt]
    · rename_i hlt
      simp [Proc.exec_function, hf, hs, hlt]
  | cancelled e =>
    simp only [JobWorker.handler, Proc.exec_bind, Proc.exec_get]
    split <;> simp [Proc.exec_function, hf, hs, Raised.isException]
  | fatal e => simp [JobWorker.handler, hs, Raised.isException]

variable (c py o) in
theorem handler_known {s : Local V} {f : TaskFunction V} (r : Raised V)
    (hf : s.function = some f) (hs : s.settled = false) :
    ((JobWorker.handler c py o r).exec s).2.settled = true ↔
      JobWorker.Handles py o f s.job s.aborted r := by
  have hacts : s.acts.any Act.takes = false := hs
  cases r with
  | jobError e =>
    simp only [JobWorker.handler, JobWorker.Handles, Proc.exec_bind, Proc.exec_get]
    split
    · simp [fail_settled, hs]
    · simp only [Proc.exec_bind, Proc.exec_function, hf, Proc.exec_ofExcept]
      cases f.shouldRetryOnError py (py.or s.job.error e) with
      | error r => simp [hs]
      | ok b =>
        cases b with
        | true => simp [retry_settled, hs]
        | false =>
          simp only [Bool.false_eq_true, ↓reduceIte, Proc.setJob, Proc.exec_bind,
            Proc.exec_modify, Proc.exec_update]
          cases o.skipUpdate.escapes with
          | some r => simp [Proc.result, Local.settled, Act.takes, hacts]
          | none =>
            simp only [Proc.result, fail_settled]
            simp [Local.settled, Act.takes, hacts]
  | exception e =>
    simp only [JobWorker.handler, JobWorker.Handles, Proc.exec_bind, Proc.exec_get]
    split
    · simp [fail_settled, hs]
    · simp only [Proc.exec_bind, Proc.exec_function, hf, Proc.exec_ofExcept]
      cases f.shouldRetryOnError py e with
      | error r => simp [hs]
      | ok b =>
        cases b with
        | true => simp [retry_settled, hs]
        | false =>
          simp only [Bool.false_eq_true, ↓reduceIte, Proc.setJob, Proc.exec_bind,
            Proc.exec_modify, fail_settled]
          simp [Local.settled, hacts]
  | cancelled e =>
    simp only [JobWorker.handler, JobWorker.Handles, Proc.exec_bind, Proc.exec_get]
    cases hc : s.job.isComplete with
    | true => simp [hs]
    | false =>
      cases ha : s.aborted with
      | true => simp [hs]
      | false =>
        simp only [Bool.not_false, Bool.and_self, ↓reduceIte, Proc.exec_bind, Proc.exec_function, hf,
          Proc.exec_ofExcept]
        cases f.shouldRetryOnError py (py.or s.job.error e) with
        | error r => simp [hs]
        | ok b => cases b <;> simp [retry_settled, hs]
  | fatal e => simp [JobWorker.handler, JobWorker.Handles, hs]

end

/-! ## What the steps of a call have in common -/

/-- A step on the job of this slot. -/
def Act.Of (c : QueueConfig) (slot : Route × String) : Act V → Prop
  | .update job _ | .finish job _ _ _ _ | .retry job _ _ _ _ => job.slot c = slot
  | .pushBg _ => True
  | _ => False

/-- From `s` to `s'` the job stays the same, and only steps on it are taken. -/
structure Extends (c : QueueConfig) (s s' : Local V) : Prop where
  slot : s'.job.slot c = s.job.slot c
  acts : ∃ as, s'.acts = s.acts ++ as ∧ ∀ a ∈ as, a.Of c (s.job.slot c)

/-- And the flag of the poll stays as it was. -/
structure Carries (c : QueueConfig) (s s' : Local V) : Prop extends Extends c s s' where
  aborted : s'.aborted = s.aborted

variable {c : QueueConfig}

theorem Extends.of_acts_eq {s s' : Local V} (hslot : s'.job.slot c = s.job.slot c)
    (hacts : s'.acts = s.acts) : Extends c s s' :=
  ⟨hslot, [], by rw [hacts, List.append_nil], fun _ h => absurd h List.not_mem_nil⟩

theorem Extends.of_append {s s' : Local V} {as : List (Act V)}
    (hslot : s'.job.slot c = s.job.slot c) (hacts : s'.acts = s.acts ++ as)
    (hof : ∀ a ∈ as, a.Of c (s.job.slot c)) : Extends c s s' := ⟨hslot, as, hacts, hof⟩

theorem Extends.trans {s s' s'' : Local V} (h : Extends c s s') (h' : Extends c s' s'') :
    Extends c s s'' := by
  obtain ⟨as, has, hof⟩ := h.acts
  obtain ⟨as', has', hof'⟩ := h'.acts
  refine ⟨h'.slot.trans h.slot, as ++ as', by rw [has', has, List.append_assoc], ?_⟩
  intro a ha
  rcases List.mem_append.1 ha with ha | ha
  · exact hof a ha
  · rw [← h.slot]
    exact hof' a ha

theorem Carries.refl (s : Local V) : Carries c s s := ⟨.of_acts_eq rfl rfl, rfl⟩

instance : IsTrans (Local V) (Extends c) := ⟨fun _ _ _ => Extends.trans⟩

instance : IsTrans (Local V) (Carries c) :=
  ⟨fun _ _ _ h h' => ⟨h.toExtends.trans h'.toExtends, h'.aborted.trans h.aborted⟩⟩

theorem Extends.settled {s s' : Local V} (h : Extends c s s') (hs : s.settled = true) :
    s'.settled = true := by
  obtain ⟨as, has, -⟩ := h.acts
  have hacts : s.acts.any Act.takes = true := hs
  simp only [Local.settled, has, List.any_append, hacts, Bool.true_or]

theorem of_acts {fate : Fate V} {a b : Act V} {slot : Route × String} (hb : b ∈ fate.acts a)
    (ha : a.Of c slot) : b.Of c slot := by
  unfold Fate.acts at hb
  split at hb
  · rwa [List.mem_singleton.1 hb]
  · cases hb

namespace Proc

variable {α β : Type}

/-- What the program does to the local variables is within `R`. -/
def Within (R : Local V → Local V → Prop) (p : Proc V α) : Prop := ∀ s, R s (p.exec s).2

section
variable {R : Local V → Local V → Prop} [IsTrans (Local V) R]

theorem Within.bind {p : Proc V α} {f : α → Proc V β} (hp : p.Within R)
    (hf : ∀ a, (f a).Within R) : (p >>= f).Within R := by
  intro s
  have hps := hp s
  rw [exec_bind]
  cases h : p.exec s with
  | mk x s' =>
    rw [h] at hps
    cases x with
    | ok a => exact trans_of R hps (hf a s')
    | error r => exact hps

theorem Within.tryCatch {p : Proc V α} {f : Raised V → Proc V α} (hp : p.Within R)
    (hf : ∀ r, (f r).Within R) : (tryCatch p f : Proc V α).Within R := by
  intro s
  have hps := hp s
  rw [exec_tryCatch]
  cases h : p.exec s with
  | mk x s' =>
    rw [h] at hps
    cases x with
    | ok a => exact hps
    | error r => exact trans_of R hps (hf r s')

end

theorem Within.extends {p : Proc V α} (h : p.Within (Carries c)) : p.Within (Extends c) :=
  fun s => (h s).toExtends

theorem within_get : (get : Proc V (Local V)).Within (Carries c) := Carries.refl

theorem within_ofExcept {x : Except (Raised V) α} :
    (ofExcept x : Proc V α).Within (Carries c) := by
  intro s
  rw [exec_ofExcept]
  exact .refl s

theorem within_raise {r : Option (Raised V)} : (raise r).Within (Carries c) := by
  intro s
  rw [exec_raise]
  exact .refl s

theorem within_function {py : Py V} {name : String} :
    (Proc.function py name).Within (Carries c) := by
  intro s
  rw [exec_function]
  exact .refl s

theorem within_setJob {f : Job V → Job V} (h : ∀ job, (f job).slot c = job.slot c) :
    (setJob f).Within (Carries c) := fun s => ⟨.of_acts_eq (h s.job) rfl, rfl⟩

theorem within_update {fate : Fate V} {now : ℤ} : (update fate now).Within (Carries c) := by
  intro s
  rw [exec_update]
  exact ⟨.of_append rfl rfl fun _ h => of_acts h rfl, rfl⟩

theorem within_finish {fate : Fate V} {status : JobStatus} {res error : Option V} {now : ℤ} :
    (finish fate status res error now).Within (Carries c) := by
  intro s
  rw [exec_finish]
  exact ⟨.of_append rfl rfl fun _ h => of_acts h rfl, rfl⟩

theorem within_retry {push fate : Fate V} {error : V} {now : ℤ} {rnd time : ℚ} :
    (retry c push fate error now rnd time).Within (Carries c) := by
  intro s
  have hpush : ∀ a ∈ push.acts (.pushBg (s.job.id c.toKeyConfig)), a.Of c (s.job.slot c) :=
    fun _ h => of_acts h trivial
  rw [exec_retry]
  cases push.raised with
  | some r => exact ⟨.of_append rfl rfl hpush, rfl⟩
  | none =>
    refine ⟨.of_append rfl (List.append_assoc ..) fun a ha => ?_, rfl⟩
    rcases List.mem_append.1 ha with ha | ha
    · exact hpush a ha
    · exact of_acts ha rfl

end Proc

open Proc

section
variable (py : Py V) (w : JobWorker V) (o : Stages V)

theorem within_fail {error : V} : (JobWorker.fail py o error).Within (Carries c) :=
  .bind within_finish fun _ => .bind within_function fun _ => within_raise

theorem within_handler (r : Raised V) : (JobWorker.handler c py o r).Within (Carries c) := by
  have hretries : (setJob fun job : Job V => { job with retries := 0 }).Within (Carries c) :=
    within_setJob fun _ => rfl
  cases r with
  | jobError e =>
    refine .bind within_get fun s => ?_
    dsimp only
    split
    · exact within_fail py o
    · refine .bind within_function fun f => .bind within_ofExcept fun b => ?_
      split
      · exact within_retry
      · exact .bind hretries fun _ => .bind within_update fun _ => within_fail py o
  | exception e =>
    refine .bind within_get fun s => ?_
    dsimp only
    split
    · exact within_fail py o
    · refine .bind within_function fun f => .bind within_ofExcept fun b => ?_
      split
      · exact within_retry
      · exact .bind hretries fun _ => within_fail py o
  | cancelled e =>
    refine .bind within_get fun s => ?_
    split
    · refine .bind within_function fun f => .bind within_ofExcept fun b => ?_
      split
      · exact within_retry
      · exact Carries.refl
    · exact Carries.refl
  | fatal e => exact Carries.refl

theorem within_tryBlock : (w.tryBlock py o).Within (Extends c) := by
  have hstart : (setJob fun job : Job V => job.start o.started).Within (Carries c) :=
    within_setJob fun _ => rfl
  have hname : ∀ name, (setJob fun job : Job V => { job with function := name }).Within (Carries c) :=
    fun name => within_setJob fun _ => rfl
  refine .bind ?_ fun f => ?_
  · refine .bind hstart.extends fun _ => ?_
    refine .bind within_update.extends fun _ => .bind within_raise.extends fun _ => ?_
    refine .bind within_get.extends fun s => .bind within_ofExcept.extends fun name => ?_
    refine .bind (hname name).extends fun _ => ?_
    refine .bind within_ofExcept.extends fun _ => ?_
    split
    · exact Within.extends Carries.refl
    · exact .bind (fun s => .of_acts_eq rfl rfl) fun _ => Within.extends Carries.refl
  · refine .bind within_raise.extends fun _ => .bind (fun s => .of_acts_eq rfl rfl) fun _ => ?_
    refine .bind within_ofExcept.extends fun _ => .bind within_finish.extends fun _ => ?_
    intro s
    rw [exec_nextCronRun]
    exact .of_acts_eq rfl rfl

theorem within_pollFinish : (JobWorker.pollFinish o).Within (Carries c) := by
  refine .bind within_get fun s => ?_
  split
  · split
    · exact within_finish
    · exact Carries.refl
  · exact Carries.refl

/-- All steps of a call are on its job. -/
theorem within_attempt : (w.attempt c py o).Within (Extends c) := by
  refine .bind (.tryCatch (.tryCatch (within_tryBlock py w o) fun r => ?_) fun _ => ?_) fun _ => ?_
  · exact (within_handler py o r).extends
  · exact Within.extends Carries.refl
  · exact (within_pollFinish o).extends

end

end Kvdb
