import Kvdb.Tasks.Process

/-!
# The calls of a queue's methods (`tasks/queue.py`)

`Call`: a call of `enqueue`, `retry`, `_reschedule`, `abort` or `finish`, as the steps that it takes on
the server (`Call.steps`), with the calls of `PushQueue` outside the transactions and with `notify`.
`clients` is any number of clients, each of which has one call under way at a time; between two steps of
a call the others may take theirs. `exec_call` is a call that is left alone. `exec_aborting` compares the
steps of `abort` with those of the task in `Kvdb/Tasks/Process.lean`.
-/

namespace Kvdb

open Lib TaskQueue

/-- A call, with the clock readings and the jitter that it will see. -/
inductive Call (V : Type)
  | enqueue (job : Job V) (now : ℤ)
  | retry (job : Job V) (error : V) (now : ℤ) (rnd time : ℚ)
  | reschedule (job : Job V) (error : Option V) (waitTime : ℚ) (now now' : ℤ) (time : ℚ)
  /-- `SETEX` refuses a `ttl` of 0. -/
  | abort (job : Job V) (error : V) (ttl : ℕ) (now : ℤ)
  | finish (job : Job V) (status : JobStatus) (result error : Option V) (now : ℤ)

namespace Call

variable {V : Type} (c : QueueConfig)

/-- The first step. -/
def first : Call V → Act V
  | .enqueue job now => .enqueue job now
  -- `push` is called while the transaction is put together
  | .retry job _ _ _ _ => .pushBg (job.id c.toKeyConfig)
  | .reschedule job error _ now _ _ => .finish job .rescheduled none error now
  | .abort job error ttl _ => .abort job error ttl
  | .finish job status result error now => .finish job status result error now

/-- The steps after it, of a call that finds the server in this state. -/
def rest (db : Db V) : Call V → List (Act V)
  | .enqueue .. => []
  | .retry job error now rnd time =>
    [.retry job (some error) now rnd time, .publish (job.id c.toKeyConfig) .queued]
  | .reschedule job error waitTime now now' time =>
    [.publish (job.id c.toKeyConfig) .rescheduled,
      .reschedule (job.complete .rescheduled none error now) error now' waitTime time,
      .publish (job.id c.toKeyConfig) .queued]
  | .abort job error _ now =>
    (if abortDequeued c db job = 0 then [.dropActive job]
      else [.finish job .aborted none (some error) now, .publish (job.id c.toKeyConfig) .aborted,
        .dropAbort job]) ++ [.removeBg (job.id c.toKeyConfig)]
  | .finish job status _ _ _ => [.publish (job.id c.toKeyConfig) status]

def steps (db : Db V) (k : Call V) : List (Act V) := k.first c :: k.rest c db

end Call

/-! ## Clients -/

/-- The server, and what the calls under way still have to do. -/
structure Clients (ι V : Type) where
  db : Db V := {}
  todo : ι → List (Act V) := fun _ => []

inductive ClientEv (ι V : Type)
  | call (i : ι) (k : Call V)
  /-- The next step of the call under way. -/
  | proceed (i : ι)
  /-- The call ends here: an error, a crash. -/
  | leave (i : ι)
  /-- The workers' loops. -/
  | schedule (r : Route) (lock : ℕ) (now : ℚ)
  | dequeue (r : Route)
  | advance (ms : ℕ)

variable {ι V : Type} [DecidableEq ι] (c : QueueConfig)

/-- The step that an event takes on the server, and what is left to do after it. -/
def Clients.plan (s : Clients ι V) : ClientEv ι V → Option (Act V × (ι → List (Act V)))
  | .call i k =>
    if s.todo i = [] then some (k.first c, Function.update s.todo i (k.rest c s.db)) else none
  | .proceed i =>
    match s.todo i with
    | [] => none
    | a :: as => some (a, Function.update s.todo i as)
  | .leave i => some (.read, Function.update s.todo i [])
  | .schedule r lock now => some (.schedule r lock now, s.todo)
  | .dequeue r => some (.dequeue r, s.todo)
  | .advance ms => some (.advance ms, s.todo)

/-- All runs of the calls of the clients `ι`. -/
def clients : Machine (Clients ι V) (ClientEv ι V) where
  init := {}
  step s e := (s.plan c e).map fun (a, todo) => { db := apply c s.db a, todo }

def Clients.act (s : Clients ι V) (e : ClientEv ι V) : Act V :=
  ((s.plan c e).map Prod.fst).getD .read

/-- A step of the clients is a step on the server. -/
theorem clients_step {s s' : Clients ι V} {e : ClientEv ι V}
    (h : (clients c).step s e = some s') : s'.db = apply c s.db (s.act c e) := by
  obtain ⟨⟨a, todo⟩, hp, rfl⟩ := Option.map_eq_some_iff.1 h
  simp only [Clients.act, hp, Option.map_some, Option.getD_some]

theorem clients_simulates :
    Machine.Simulates (clients c) (machine c) (Clients.db (ι := ι) (V := V)) (Clients.act c) where
  init := rfl
  step _ _ _ h := congrArg some (clients_step c h).symm

/-! ## A call that is left alone -/

theorem exec_proceed (i : ι) (as : List (Act V)) (s : Clients ι V) (hs : s.todo i = as) :
    (clients c).exec s (List.replicate as.length (.proceed i)) =
      some { db := run c s.db as, todo := Function.update s.todo i [] } := by
  induction as generalizing s with
  | nil =>
    have htodo : Function.update s.todo i [] = s.todo := by
      rw [← hs, Function.update_eq_self]
    simp only [List.length_nil, List.replicate_zero, Machine.exec, run, List.foldl_nil, htodo]
  | cons a as ih =>
    have hplan : s.plan c (.proceed i) = some (a, Function.update s.todo i as) := by
      simp only [Clients.plan, hs]
    simp only [List.length_cons, List.replicate_succ, Machine.exec, clients, hplan,
      Option.map_some, Option.bind_some]
    refine (ih _ (Function.update_self ..)).trans ?_
    simp [run]

/-- A call that is left alone takes its steps one after the other. -/
theorem exec_call (i : ι) (k : Call V) (s : Clients ι V) (hs : s.todo i = []) :
    (clients c).exec s (.call i k :: List.replicate (k.rest c s.db).length (.proceed i)) =
      some { db := run c s.db (k.steps c s.db), todo := s.todo } := by
  have hplan : s.plan c (.call i k) =
      some (k.first c, Function.update s.todo i (k.rest c s.db)) := by
    simp only [Clients.plan, hs, ↓reduceIte]
  have htodo : Function.update (Function.update s.todo i (k.rest c s.db)) i [] = s.todo := by
    rw [Function.update_idem, ← hs, Function.update_eq_self]
  simp only [Machine.exec, clients, hplan, Option.map_some, Option.bind_some]
  refine (exec_proceed c i _ _ (Function.update_self ..)).trans ?_
  simp only [htodo, Call.steps, run, List.foldl_cons]

/-- `notify`. -/
def Act.isPublish : Act V → Bool
  | .publish .. => true
  | _ => false

/-- The task that aborts a job takes the steps of the call, but for `notify`. -/
theorem exec_aborting (i : ι) (job : Job V) (error : V) (ttl : ℕ) (now : ℤ) (s : Sys ι V)
    (hs : s.tasks i = .idle) :
    ∃ es, (system c).exec s es = some { s with
      db := run c s.db
        (((Call.abort job error ttl now).steps c s.db).filter fun a => !a.isPublish) } := by
  have htasks : Function.update s.tasks i .idle = s.tasks := by
    rw [← hs, Function.update_eq_self]
  by_cases hn : abortDequeued c s.db job = 0
  · refine ⟨[.move i (.abort job error ttl), .move i (.abortRest now),
      .removeBg (job.id c.toKeyConfig)], ?_⟩
    simp only [Machine.exec, system, Sys.plan, move, hs, hn, Option.map_some, Option.map_map,
      Option.bind_some, Function.update_idem, Function.update_self, ↓reduceIte,
      Function.comp_apply, htasks, run, Act.isPublish, Call.steps, Call.first, Call.rest,
      List.cons_append, List.nil_append, Bool.not_false, List.filter_cons_of_pos,
      List.filter_nil, List.foldl_cons, List.foldl_nil]
  · refine ⟨[.move i (.abort job error ttl), .move i (.abortRest now), .move i .abortLast,
      .removeBg (job.id c.toKeyConfig)], ?_⟩
    simp only [Machine.exec, system, Sys.plan, move, hs, hn, Option.map_some, Option.map_map,
      Option.bind_some, Function.update_idem, Function.update_self, ↓reduceIte,
      Function.comp_apply, htasks, run, Act.isPublish, Call.steps, Call.first, Call.rest,
      List.cons_append, List.nil_append, Bool.not_false, List.filter_cons_of_pos, Bool.not_true,
      Bool.false_eq_true, not_false_eq_true, List.filter_cons_of_neg, List.filter_nil,
      List.foldl_cons, List.foldl_nil]

end Kvdb
