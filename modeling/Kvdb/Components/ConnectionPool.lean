import Kvdb.Lib.Machine
import Mathlib.Data.Finset.Basic

/-!
# Connection pools (`components/connection_pool.py`, `components/connection_pool_optimized.py`)

The pools of the three kinds, and their tasks from one await to the next (for the synchronous pool:
its threads, from one blocking call to the next). The optimized pool inherits from the asynchronous
one `make_connection`, `ensure_connection`, `release` of redis-py and `disconnect`.

* `PoolAt`: where a task is in `get_connection` (up to `restoring`), `release`, `warm_pool` or
  `disconnect`, with the connection in its hands.
* `afterAwait`: `is_healthy`, the reconnection of the optimized pool, and `ensure_connection`, which
  change nothing in the pool.
* The other functions are the stretches of code under the lock, which go on without an await.

The outcome of every await is part of the event: a truth value (of `is_healthy`,
`can_read_destructive`, `reestablish_connection`; any for the others) or an exception, by the handlers
that catch it. A lock is taken by any task that waits for it; a `notify` wakes any waiting task.
A task releases a connection that it was handed.
-/

namespace Kvdb

inductive PoolKind
  | sync
  | async
  | optimized
  deriving DecidableEq

structure PoolConfig where
  kind : PoolKind
  maxConnections : ℕ
  /-- `auto_pause_enabled`. -/
  autoPause : Bool
  /-- `auto_reset_enabled`. -/
  autoReset : Bool

/-- Exceptions, by the handlers. -/
inductive Exc
  /-- `TimeoutError` of redis. -/
  | timeout
  /-- `ConnectionError` of redis. -/
  | connection
  /-- `ConnectionError` of kvdb, or an `OSError`. -/
  | os
  /-- Another `Exception`. -/
  | other
  /-- `CancelledError`, or another `BaseException`. -/
  | cancelled
  deriving DecidableEq

/-- What comes of an await. -/
inductive AwaitOutcome
  | returned (result : Bool)
  | raised (e : Exc)
  deriving DecidableEq

/-- Where a task is. -/
inductive PoolAt
  | idle
  /-- It has popped the connection without the lock, and waits for the lock. -/
  | fast (c : ℕ)
  /-- It waits for the lock. -/
  | slow
  /-- In `reset_pool`, with the lock. -/
  | resetting
  /-- It waits for the lock of the condition. -/
  | blocking
  /-- In `wait` of the condition. -/
  | waiting
  /-- In `is_healthy`. -/
  | checking (c : ℕ)
  /-- In `disconnect` of an unhealthy connection. -/
  | closing (c : ℕ)
  /-- In `connect` of an unhealthy connection. -/
  | reopening (c : ℕ)
  /-- In the first `connect` of `ensure_connection`. -/
  | connecting (c : ℕ)
  /-- In `reestablish_connection` after it. -/
  | pausing (c : ℕ)
  /-- In the first read of `ensure_connection`. -/
  | reading (c : ℕ)
  /-- In `disconnect` of its handler. -/
  | disconnecting (c : ℕ)
  /-- In `connect` of its handler. -/
  | reconnecting (c : ℕ)
  /-- In the read of its handler. -/
  | rereading (c : ℕ)
  /-- In `reestablish_connection` of its handler. -/
  | repausing (c : ℕ)
  /-- In `release` of the handler of other exceptions. -/
  | restoring (c : ℕ)
  /-- `get_connection` has returned the connection. -/
  | holding (c : ℕ)
  /-- In `release` of the task. -/
  | releasing (c : ℕ)
  /-- In `warm_pool`, waiting for the lock. -/
  | warmLock (target : ℕ)
  /-- In `connect` of `warm_pool`, with the lock. -/
  | warming (c target : ℕ)
  /-- In `disconnect` of the pool, waiting for the lock. -/
  | closeLock
  /-- In `disconnect` of the pool, with the lock. -/
  | closingAll
  deriving DecidableEq

/-- The task is in `get_connection`. -/
def PoolAt.getting : PoolAt → Bool
  | .idle | .holding _ | .releasing _ | .warmLock _ | .warming _ _ | .closeLock | .closingAll => false
  | _ => true

structure Pool (T : Type) where
  /-- `_available_connections`, the last one first. -/
  available : List ℕ := []
  /-- `_in_use_connections`. -/
  inUse : Finset ℕ := ∅
  /-- `_created_connections`. -/
  created : ℕ := 0
  /-- The task that keeps `_lock` over an await. -/
  lock : Option T := none
  /-- The tasks in `wait` that have not been notified. -/
  waiters : List T := []
  /-- The tasks in `wait` that have been notified. -/
  notified : List T := []
  /-- The number of connections made so far; they are `0`, `1`, … -/
  made : ℕ := 0
  /-- The first connection made after the last `reset`. -/
  first : ℕ := 0
  place : T → PoolAt := fun _ => .idle

inductive PoolEv (T : Type)
  /-- `get_connection`, up to its first await. -/
  | get (t : T)
  /-- `release` of the connection of the task. -/
  | release (t : T)
  | warm (t : T) (target : ℕ)
  | disconnect (t : T)
  /-- The await is over; `wake` is the place of the waiting task that a `notify` wakes. -/
  | proceed (t : T) (outcome : AwaitOutcome) (wake : ℕ)
  deriving DecidableEq

/-- The exceptions after which `ensure_connection` tries to reestablish the connection. -/
def PoolConfig.pauses (cfg : PoolConfig) (e : Exc) : Bool :=
  cfg.autoPause && (e = .timeout || e = .connection && cfg.kind ≠ .sync)

/-- Caught by `(errors.ConnectionError, rerrors.ConnectionError, ConnectionError, OSError)`. -/
def Exc.isConnection (e : Exc) : Bool := e = .connection || e = .os

/-- The next place of a task that is checking or ensuring its connection. -/
def afterAwait (cfg : PoolConfig) : PoolAt → AwaitOutcome → Option PoolAt
  | .checking c, .returned healthy => some (if healthy then .connecting c else .closing c)
  -- `is_healthy` takes an exception for unhealthy
  | .checking c, .raised e => some (if e = .cancelled then .idle else .closing c)
  | .closing c, .returned _ => some (.reopening c)
  | .reopening c, .returned _ => some (.connecting c)
  | .connecting c, .returned _ => some (.reading c)
  | .connecting c, .raised e => some (if cfg.pauses e then .pausing c else .idle)
  | .pausing c, .returned ok => some (if ok then .reading c else .idle)
  -- the synchronous pool raises `ConnectionError` if there are data, the others go on
  | .reading c, .returned data =>
    some (if data && cfg.kind = .sync then .disconnecting c else .holding c)
  | .reading c, .raised e => some (if e.isConnection then .disconnecting c else .restoring c)
  | .disconnecting c, .returned _ => some (.reconnecting c)
  | .reconnecting c, .returned _ => some (.rereading c)
  | .rereading c, .returned data => some (if data then .repausing c else .holding c)
  | .rereading c, .raised e => some (if e.isConnection then .repausing c else .idle)
  | .repausing c, .returned ok => some (if ok then .holding c else .idle)
  | .closing _, .raised _ | .reopening _, .raised _ | .pausing _, .raised _
  | .disconnecting _, .raised _ | .reconnecting _, .raised _ | .repausing _, .raised _ => some .idle
  | _, _ => none

namespace Pool

variable {T : Type} [DecidableEq T] (cfg : PoolConfig) (s : Pool T) (t : T)

def go (p : PoolAt) : Pool T := { s with place := Function.update s.place t p }

/-- What follows an `async with` of the lock: nothing but a cancellation interrupts the waiting. -/
def locked (o : AwaitOutcome) (next : Option (Pool T)) : Option (Pool T) :=
  match o with
  | .returned _ => if s.lock = none then next else none
  | .raised .cancelled => some (s.go t .idle)
  | .raised _ => none

/-- `make_connection`; the callers have tested its limit. -/
def makeConnection : Pool T := { s with created := s.created + 1, made := s.made + 1 }

/-- A new connection of the base pools, in use. -/
def addMade : Pool T := { s.makeConnection with inUse := insert s.made s.inUse }

/-- A new connection of `get_connection_optimized`, in use. -/
def addMadeOptimized : Pool T :=
  { s.addMade with created := s.addMade.created + 1 }

/-- `reset`. -/
def reset : Pool T := { s with available := [], inUse := ∅, created := 0, first := s.made }

/-- `release` of redis-py; a connection that is not in use is refused. -/
def releaseConnection (c : ℕ) : Pool T :=
  if c ∈ s.inUse then { s with available := c :: s.available, inUse := s.inUse.erase c } else s

/-- `notify` of the condition. -/
def notify (wake : ℕ) : Option (Pool T) :=
  match s.waiters[wake]? with
  | some w => some { s with waiters := s.waiters.eraseIdx wake, notified := s.notified ++ [w] }
  | none => if s.waiters = [] then some s else none

/-! ## The stretches under the lock -/

/-- The fast path: in use, unless it is so already. -/
def fastPath (c : ℕ) : Pool T :=
  if c ∈ s.inUse then { s with available := c :: s.available }.go t .slow
  else { s with inUse := insert c s.inUse }.go t (.checking c)

/-- The slow path. -/
def slowPath : Pool T :=
  match s.available with
  | c :: rest => { s with available := rest, inUse := insert c s.inUse }.go t (.checking c)
  | [] =>
    if cfg.maxConnections ≤ s.created then s.go t .blocking
    else s.addMadeOptimized.go t (.checking s.made)

/-- A round of the wait path. -/
def waitPath : Pool T :=
  match s.available with
  | c :: rest =>
    if c ∈ s.inUse then { s with waiters := s.waiters ++ [t] }.go t .waiting
    else { s with available := rest, inUse := insert c s.inUse }.go t (.checking c)
  | [] =>
    if s.created < cfg.maxConnections then s.addMadeOptimized.go t (.checking s.made)
    else { s with waiters := s.waiters ++ [t] }.go t .waiting

/-- `get_connection` of the base pools; without `auto_reset_enabled` an exhausted pool raises. -/
def basePath : Pool T :=
  match s.available with
  | c :: rest => { s with available := rest, inUse := insert c s.inUse }.go t (.connecting c)
  | [] =>
    if s.created < cfg.maxConnections then s.addMade.go t (.connecting s.made)
    else if cfg.autoReset then
      if cfg.kind = .sync then s.reset.addMade.go t (.connecting s.made)
      else { s with lock := some t }.go t .resetting
    else s.go t .idle

/-- `release`. The optimized one waits for the lock, under which it does the `notify`; that of the
asynchronous pool waits for nothing. -/
def release (c : ℕ) (cancelled : PoolAt) (o : AwaitOutcome) (wake : ℕ) : Option (Pool T) :=
  match o with
  | .returned _ =>
    if cfg.kind = .optimized then
      if s.lock = none then
        if c ∈ s.inUse then ((s.releaseConnection c).go t .idle).notify wake
        else some (s.go t .idle)
      else none
    else if cfg.kind = .async ∨ s.lock = none then some ((s.releaseConnection c).go t .idle)
    else none
  | .raised .cancelled => if cfg.kind = .optimized then some (s.go t cancelled) else none
  | .raised _ => none

/-- A round of the loop of `warm_pool`, and its end. -/
def warmLoop (target : ℕ) : Pool T :=
  if s.created < min target cfg.maxConnections then
    { s.makeConnection with lock := some t }.go t (.warming s.made target)
  else { s with lock := none }.go t .idle

/-! ## Steps -/

/-- The await of the task is over. -/
def proceed (o : AwaitOutcome) (wake : ℕ) : Option (Pool T) :=
  match s.place t with
  | .fast c => s.locked t o (some (s.fastPath t c))
  | .slow =>
    s.locked t o (some (if cfg.kind = .optimized then s.slowPath cfg t else s.basePath cfg t))
  | .blocking => s.locked t o (some (s.waitPath cfg t))
  | .waiting =>
    match o with
    | .returned _ =>
      if t ∈ s.notified ∧ s.lock = none then
        some ({ s with notified := s.notified.erase t }.waitPath cfg t)
      else none
    | .raised .cancelled =>
      some ({ s with waiters := s.waiters.erase t, notified := s.notified.erase t }.go t .idle)
    | .raised _ => none
  | .resetting =>
    match o with
    | .returned _ => some ({ s.reset.addMade with lock := none }.go t (.connecting s.made))
    | .raised .cancelled => some ({ s with lock := none }.go t .idle)
    | .raised _ => none
  | .restoring c => s.release cfg t c .idle o wake
  -- after a cancellation the connection is still in use
  | .releasing c => s.release cfg t c (.holding c) o wake
  | .warmLock target => s.locked t o (some (s.warmLoop cfg t target))
  | .warming c target =>
    match o with
    | .returned _ =>
      some ({ s with available := c :: s.available, created := s.created + 1 }.warmLoop cfg t target)
    | .raised _ => some ({ s with lock := none }.go t .idle)
  | .closeLock => s.locked t o (some ({ s with lock := some t }.go t .closingAll))
  | .closingAll => some ({ s with lock := none }.go t .idle)
  | p => (afterAwait cfg p o).map (s.go t)

def step : PoolEv T → Option (Pool T)
  | .get t =>
    if s.place t = .idle then
      if cfg.kind = .optimized then
        match s.available with
        | c :: rest => some ({ s with available := rest }.go t (.fast c))
        | [] => some (s.go t .slow)
      else some (s.go t .slow)
    else none
  | .release t =>
    match s.place t with
    | .holding c => some (s.go t (.releasing c))
    | _ => none
  | .warm t target =>
    if s.place t = .idle ∧ cfg.kind = .optimized then some (s.go t (.warmLock target)) else none
  | .disconnect t => if s.place t = .idle then some (s.go t .closeLock) else none
  | .proceed t o wake => s.proceed cfg t o wake

end Pool

/-- The tasks of one pool. -/
def poolMachine (T : Type) [DecidableEq T] (cfg : PoolConfig) : Lib.Machine (Pool T) (PoolEv T) where
  init := {}
  step := Pool.step cfg

end Kvdb
