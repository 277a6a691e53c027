import Kvdb.Io.Cachify

/-!
# Clients that share the cache of a function (`io/cachify/base.py`)

The functions of `Kvdb/Io/Cachify.lean` as programs of single accesses to the store (`CacheOp`), run
by any number of tasks in any order. `hits`, `keyhits`, `timestamps` and `expirations` are entries of
`data` that a task reads whole, changes in its own copy and writes back. A background task of
`aretrieve` is a task of its own here.
-/

namespace Kvdb

open Python

/-- The accesses to the store. -/
inductive CacheOp (K : Type)
  -- `add_hit`
  | containsHits
  | resetHits
  | getHits
  | setHits
  -- `add_key_hit`, `add_key_timestamp`, `add_key_expiration`
  | getKeyhits
  | setKeyHit (key : K)
  | getTimestamps
  | setTimestamp (key : K)
  | getExpirations
  | setExpiration (key : K) (ttl : ℚ)
  -- `expire_cache_expired_keys`
  | getOverdue
  | popExpirations
  | popKeyhits
  | popTimestamps
  -- `check_cache_policies`
  | checkNumKeys (key : K) (maxSize : ℕ)
  | getNumKeys
  | getRanked (key : K) (maxSize : ℕ)
  | clear
  deriving DecidableEq

/-- A task: the accesses it has still to make, and its variables. -/
structure CacheTask (K : Type) where
  todo : List (CacheOp K) := []
  hits : ℕ := 0
  keyhits : Dict K ℕ := {}
  timestamps : Dict K ℚ := {}
  expirations : Dict K ℚ := {}
  /-- `to_delete`, `keys_to_delete`. -/
  keys : List K := []
  numKeys : ℕ := 0

/-! ## Programs -/

namespace CacheOp

variable {K : Type} (cfg : CachifyConfig) (key : K)

def addHit : List (CacheOp K) := [.containsHits, .getHits, .setHits]

def addKeyHit : List (CacheOp K) := [.getKeyhits, .setKeyHit key]

def addKeyTimestamp : List (CacheOp K) := [.getTimestamps, .setTimestamp key]

/-- `add_key_expiration`; without a hash the deadline is the server's. -/
def addKeyExpiration : Option Number → List (CacheOp K)
  | some ttl => if cfg.hsetEnabled then [.getExpirations, .setExpiration key ttl.toRat] else []
  | none => []

/-- What follows if keys are overdue. -/
def expire : List (CacheOp K) :=
  [.getKeyhits, .getTimestamps, .popExpirations, .popKeyhits, .popTimestamps, .clear]

/-- What follows if there are too many keys. -/
def shrink (maxSize : ℕ) : List (CacheOp K) := [.getNumKeys, .getRanked key maxSize, .clear]

def validateCachePolicies : List (CacheOp K) :=
  addHit ++ .getOverdue ::
    match cfg.hsetEnabled, cfg.cacheMaxSize with
    | true, some maxSize =>
      (if cfg.isAsync then addKeyTimestamp key ++ addKeyHit key
        else addKeyHit key ++ addKeyTimestamp key) ++ [.checkNumKeys key maxSize]
    | _, _ => []

end CacheOp

/-! ## Accesses -/

namespace CacheTask

variable {K V : Type} [DecidableEq K] (cfg : CachifyConfig) (now : ℚ) (s : Cachify K V)
  (c : CacheTask K)

/-- One access: the store and the task after it. -/
def access : CacheOp K → Cachify K V × CacheTask K
  | .containsHits => (s, if s.data.hits = none then { c with todo := .resetHits :: c.todo } else c)
  | .resetHits => ({ s with data := { s.data with hits := some 0 } }, c)
  -- if there are none, the sum raises and 1 is written
  | .getHits => (s, { c with hits := s.data.hits.getD 0 })
  | .setHits => ({ s with data := { s.data with hits := some (c.hits + 1) } }, c)
  | .getKeyhits => (s, { c with keyhits := s.data.keyhits })
  | .setKeyHit key =>
    let keyhits := c.keyhits.setItem key ((c.keyhits.get? key).getD 0 + 1)
    ({ s with data := { s.data with keyhits } }, c)
  | .getTimestamps => (s, { c with timestamps := s.data.timestamps })
  | .setTimestamp key =>
    ({ s with data := { s.data with timestamps := c.timestamps.setItem key now } }, c)
  | .getExpirations => (s, { c with expirations := s.data.expirations })
  | .setExpiration key ttl =>
    ({ s with data := { s.data with expirations := c.expirations.setItem key (now + ttl) } }, c)
  | .getOverdue =>
    let keys := s.data.toDelete now
    (s, { c with
      expirations := s.data.expirations
      keys
      todo := if keys = [] then c.todo else CacheOp.expire ++ c.todo })
  | .popExpirations =>
    ({ s with data := { s.data with expirations := c.expirations.popAll c.keys } }, c)
  | .popKeyhits => ({ s with data := { s.data with keyhits := c.keyhits.popAll c.keys } }, c)
  | .popTimestamps =>
    ({ s with data := { s.data with timestamps := c.timestamps.popAll c.keys } }, c)
  | .checkNumKeys key maxSize =>
    (s, if s.numKeys ≤ maxSize then c
      else { c with todo := CacheOp.shrink key maxSize ++ c.todo })
  | .getNumKeys => (s, { c with numKeys := s.numKeys })
  | .getRanked key maxSize =>
    (s, { c with keys := (upTo (s.data.ranked cfg) (c.numKeys - maxSize)).erase key })
  | .clear => (s.clear cfg c.keys, c)

end CacheTask

/-! ## Any number of tasks -/

structure SharedCache (W K V : Type) where
  cache : Cachify K V := {}
  now : ℚ := 0
  task : W → CacheTask K := fun _ => {}

inductive SharedCacheEv (W K V : Type)
  | set (w : W) (key : K) (value : V) (ttl : Option Number)
  | retrieve (w : W) (key : K)
  | access (w : W)
  | advance (t : ℚ)
  deriving DecidableEq

namespace SharedCache

variable {W K V : Type} [DecidableEq W] [DecidableEq K] (cfg : CachifyConfig)
  (s : SharedCache W K V)

/-- The task starts a program. -/
def start (w : W) (todo : List (CacheOp K)) : SharedCache W K V :=
  { s with task := Function.update s.task w { s.task w with todo } }

def step : SharedCacheEv W K V → Option (SharedCache W K V)
  -- the value is written first
  | .set w key value ttl =>
    if (s.task w).todo = [] then
      let ttl := Cachify.effectiveTtl cfg ttl
      let deadline := if cfg.hsetEnabled then none else Cachify.serverDeadline s.now ttl
      let values := s.cache.values.setItem key (value, deadline)
      some ({ s with cache := { s.cache with values } }.start w
        (CacheOp.addKeyExpiration cfg key ttl))
    else none
  -- and read first; a miss ends the call
  | .retrieve w key =>
    if (s.task w).todo = [] then
      some (if (s.cache.get s.now key).isSome then
        s.start w (CacheOp.validateCachePolicies cfg key) else s)
    else none
  | .access w =>
    match (s.task w).todo with
    | [] => none
    | op :: rest =>
      let r := { s.task w with todo := rest }.access cfg s.now s.cache op
      some { s with cache := r.1, task := Function.update s.task w r.2 }
  | .advance t => if 0 ≤ t then some { s with now := s.now + t } else none

end SharedCache

def sharedCacheMachine (W K V : Type) [DecidableEq W] [DecidableEq K] (cfg : CachifyConfig) :
    Lib.Machine (SharedCache W K V) (SharedCacheEv W K V) where
  init := {}
  step := SharedCache.step cfg

end Kvdb
