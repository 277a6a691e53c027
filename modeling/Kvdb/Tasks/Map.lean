import Mathlib.Data.Finset.Image
import Kvdb.Tasks.Queue

/-!
# `TaskQueue.map` and its listener

`map` creates the task of `listen`, enqueues its jobs and waits for the task. `MapState` is the
server together with this call: what is left to enqueue, where the task of `listen` is, the messages
that were delivered to it, the pending keys. `mapMachine` runs it among any number of other clients
and workers: `client a` is any step of theirs, `notify` publishes the status of a job that one of
them has stored. A message reaches a subscription that is in force when it is published, no other.
-/

namespace Kvdb

open Redis Lib TaskQueue

variable {V : Type} (c : QueueConfig)

/-- The message of the `notify` that follows a step. -/
def Act.notifies : Act V → Option (String × JobStatus)
  | .finish job status _ _ _ => some (job.id c.toKeyConfig, status)
  | .retry job _ _ _ _ | .reschedule job _ _ _ _ => some (job.id c.toKeyConfig, .queued)
  | .update job _ => some (job.id c.toKeyConfig, job.status)
  | _ => none

/-- Where the task of `listen` is. -/
inductive Listener
  /-- It has not run yet. -/
  | created
  /-- `job_ids` is computed, `SUBSCRIBE` is under way. -/
  | subscribing (jobIds : Finset String)
  /-- The subscription is in force. -/
  | listening (jobIds : Finset String)
  | stopped
  deriving DecidableEq

namespace Listener

def hears : Listener → String → Bool
  | listening jobIds, channel => channel ∈ jobIds
  | _, _ => false

/-- Not before the subscription. -/
def subscribed : Listener → Bool
  | created | subscribing _ => false
  | listening _ | stopped => true

end Listener

/-- The server, the steps that others still have to notify about, and one call of `map`. `status` is
the status of the job last stored under an id. -/
structure MapState (V : Type) where
  db : Db V := {}
  status : String → Option JobStatus := fun _ => none
  unnotified : List (String × JobStatus) := []
  todo : List (Job V) := []
  enqueued : Finset String := ∅
  listener : Listener := .created
  inbox : List (String × JobStatus) := []
  pending : Finset String := ∅

/-- `callback`: the pending keys afterwards, and whether `listen` stops. -/
def mapCallback (returnExceptions : Bool) (pending : Finset String) (jobKey : String)
    (status : JobStatus) : Finset String × Bool :=
  let pending := if status ∈ terminalJobStatuses then pending.erase jobKey else pending
  (pending, decide (status ∈ unsuccessfulTerminalJobStatuses ∧ returnExceptions = false ∨
    pending = ∅))

inductive MapEv (V : Type)
  /-- The task of `listen` begins to run. -/
  | listen
  /-- The server executes `SUBSCRIBE`. -/
  | subscribe
  /-- One of the `enqueue`s of `map`. -/
  | enqueue (i : ℕ) (now : ℤ)
  /-- A step of another client or of a worker. -/
  | client (a : Act V)
  /-- One of the outstanding `notify`s. -/
  | notify (i : ℕ)
  /-- `listen` takes the next message. -/
  | receive

namespace MapState

/-- A step on the server. -/
def serve (s : MapState V) (a : Act V) : MapState V :=
  { s with
    db := apply c s.db a
    status := (a.writes c s.db).elim s.status fun job =>
      Function.update s.status (job.id c.toKeyConfig) (some job.status)
    unnotified := s.unnotified ++ (a.notifies c).toList }

def step (returnExceptions : Bool) (s : MapState V) : MapEv V → Option (MapState V)
  | .listen =>
    match s.listener with
    | .created => some { s with listener := .subscribing (s.pending.image c.jobId) }
    | _ => none
  | .subscribe =>
    match s.listener with
    | .subscribing jobIds =>
      -- without a channel `pubsub.listen()` ends at once
      some { s with listener := if jobIds = ∅ then .stopped else .listening jobIds }
    | _ => none
  | .enqueue i now =>
    match s.todo[i]? with
    | some job =>
      some { s.serve c (.enqueue job now) with
        todo := s.todo.eraseIdx i
        enqueued := insert (job.id c.toKeyConfig) s.enqueued }
    | none => none
  | .client a =>
    match a with
    | .publish .. => none
    | a => some (s.serve c a)
  | .notify i =>
    match s.unnotified[i]? with
    | some (jobId, status) =>
      some { s with
        db := apply c s.db (.publish jobId status)
        unnotified := s.unnotified.eraseIdx i
        inbox := if s.listener.hears jobId then s.inbox ++ [(jobId, status)] else s.inbox }
    | none => none
  | .receive =>
    match s.listener, s.inbox with
    | .listening _, (jobId, status) :: inbox =>
      let r := mapCallback returnExceptions s.pending (KeyConfig.keyFromId jobId) status
      some { s with
        pending := r.1
        inbox := if r.2 then [] else inbox
        listener := if r.2 then .stopped else s.listener }
    | _, _ => none

end MapState

/-- The runs of `map` of these jobs among other clients and workers. -/
def mapMachine (jobs : List (Job V)) (returnExceptions : Bool) :
    Machine (MapState V) (MapEv V) where
  init := { todo := jobs, pending := (jobs.map Job.key).toFinset }
  step := MapState.step c returnExceptions

namespace MapState

/-- The job last stored under this id is terminal. -/
def Terminal (s : MapState V) (jobId : String) : Prop :=
  ∃ status ∈ terminalJobStatuses, s.status jobId = some status

instance (s : MapState V) (jobId : String) : Decidable (s.Terminal jobId) :=
  List.decidableBEx ..

/-- All jobs are enqueued and terminal, and no message about one of them is outstanding or
unprocessed. -/
structure Settled (jobs : List (Job V)) (s : MapState V) : Prop where
  enqueued : s.todo = []
  terminal : ∀ job ∈ jobs, s.Terminal (job.id c.toKeyConfig)
  notified : ∀ job ∈ jobs, ∀ m ∈ s.unnotified, m.1 ≠ job.id c.toKeyConfig
  processed : s.inbox = []

instance (jobs : List (Job V)) (s : MapState V) : Decidable (s.Settled c jobs) :=
  decidable_of_iff (s.todo.isEmpty = true ∧ (∀ job ∈ jobs, s.Terminal (job.id c.toKeyConfig)) ∧
    (∀ job ∈ jobs, ∀ m ∈ s.unnotified, m.1 ≠ job.id c.toKeyConfig) ∧ s.inbox = [])
    ⟨fun ⟨h1, h2, h3, h4⟩ => ⟨List.isEmpty_iff.1 h1, h2, h3, h4⟩,
      fun ⟨h1, h2, h3, h4⟩ => ⟨List.isEmpty_iff.2 h1, h2, h3, h4⟩⟩

/-- `map` has what it waits for: nothing is pending, or (without `return_exceptions`) a job was
unsuccessful. -/
def Answered (jobs : List (Job V)) (returnExceptions : Bool) (s : MapState V) : Prop :=
  s.pending = ∅ ∨
    returnExceptions = false ∧ ∃ job ∈ jobs, ∃ status ∈ unsuccessfulTerminalJobStatuses,
      (job.id c.toKeyConfig, status) ∈ s.db.published

instance (jobs : List (Job V)) (returnExceptions : Bool) (s : MapState V) :
    Decidable (s.Answered c jobs returnExceptions) :=
  inferInstanceAs (Decidable (_ = _ ∨ _ = _ ∧ ∃ job ∈ jobs, ∃ status ∈ _, _ ∈ _))

/-- The step does not leave a job of `map` terminal without its message being delivered: the status
of a terminal job is published after the subscription, and `enqueue` is not refused for a job that is
terminal already. -/
def Timely (s : MapState V) : MapEv V → Prop
  | .notify i =>
    ∀ m, s.unnotified[i]? = some m → m.2 ∈ terminalJobStatuses → m.1 ∈ s.enqueued →
      s.Terminal m.1 → s.listener.subscribed = true
  | .enqueue i _ =>
    ∀ job, s.todo[i]? = some job → s.Terminal (job.id c.toKeyConfig) →
      job.id c.toKeyConfig ∉ s.enqueued →
      enqueueAccepts s.db job.route (job.id c.toKeyConfig) (job.abortId c.toKeyConfig) = true
  | _ => True

instance (s : MapState V) : ∀ e : MapEv V, Decidable (s.Timely c e)
  | .notify i =>
    inferInstanceAs (Decidable (∀ m ∈ s.unnotified[i]?, m.2 ∈ terminalJobStatuses →
      m.1 ∈ s.enqueued → s.Terminal m.1 → s.listener.subscribed = true))
  | .enqueue i _ =>
    inferInstanceAs (Decidable (∀ job ∈ s.todo[i]?, s.Terminal (job.id c.toKeyConfig) →
      job.id c.toKeyConfig ∉ s.enqueued →
      enqueueAccepts s.db job.route (job.id c.toKeyConfig) (job.abortId c.toKeyConfig) = true))
  | .listen | .subscribe | .client _ | .receive => .isTrue trivial

end MapState

end Kvdb
