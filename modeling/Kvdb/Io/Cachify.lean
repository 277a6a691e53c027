import Kvdb.Lib.Machine
import Kvdb.Lib.Python
import Mathlib.Algebra.Order.Ring.Rat

/-!
# The cache of one function (`io/cachify/base.py`)

`Cachify K V` is what the cache of one cachified function keeps on the server: the values, by key (the
fields of one hash, or keys of their own if `hset_enabled` is off; these can have a deadline), and the
dictionaries of `data`. The functions are `set`, `retrieve`, `validateCachePolicies` and `clear`, each
as one step. `Kvdb/Io/CachifyTasks.lean` has the accesses to `data` one by one.

`data` is a dictionary of another library: `invalidate_cache` changes the values that it has fetched
from it and calls `flush`. Which of them are saved then is a parameter.

`cacheMachine`: any order of these, with a clock. A hit owes one run of `validate_cache_policies` for
its key: `retrieve` runs it at once, `aretrieve` leaves it to a background task.

The functions that exclude, overwrite or decode values are left out.
-/

namespace Kvdb

open Python

inductive CachePolicy
  | lru
  | lfu
  | fifo
  | lifo
  deriving DecidableEq, Repr

/-- An int or a float. -/
inductive Number
  | int (n : ℤ)
  | float (x : ℚ)
  deriving DecidableEq

namespace Number

instance (n : ℕ) : OfNat Number n := ⟨.int n⟩

def toRat : Number → ℚ
  | int n => n
  | float x => x

/-- `EXPIRE` takes an integer whose deadline is in the range of the server's milliseconds. -/
def expires (now : ℚ) : Number → Bool
  | int n => decide (-(2 ^ 63) ≤ 1000 * n ∧ 1000 * (now + n) < 2 ^ 63)
  | float _ => false

end Number

structure CachifyConfig where
  hsetEnabled : Bool := true
  ttl : Option Number := some 600
  cacheMaxSize : Option ℕ := none
  cacheMaxSizePolicy : CachePolicy := .lfu
  isAsync : Bool := false
  deriving DecidableEq

/-- The keys of `data`. -/
structure CacheData (K : Type) where
  hits : Option ℕ := none
  keyhits : Dict K ℕ := {}
  timestamps : Dict K ℚ := {}
  expirations : Dict K ℚ := {}

structure Cachify (K V : Type) where
  /-- The values, and their deadlines on the server. -/
  values : Dict K (V × Option ℚ) := {}
  data : CacheData K := {}

namespace CacheData

variable {K : Type} [DecidableEq K] (d : CacheData K)

def addHit : CacheData K := { d with hits := some (d.hits.getD 0 + 1) }

def addKeyHit (key : K) : CacheData K :=
  { d with keyhits := d.keyhits.setItem key ((d.keyhits.get? key).getD 0 + 1) }

def addKeyTimestamp (key : K) (now : ℚ) : CacheData K :=
  { d with timestamps := d.timestamps.setItem key now }

def addKeyExpiration (key : K) (deadline : ℚ) : CacheData K :=
  { d with expirations := d.expirations.setItem key deadline }

/-- The keys whose deadline is over. -/
def toDelete (now : ℚ) : List K :=
  (d.expirations.items.filter fun p => p.2 < now).map Prod.fst

/-- The keys are popped from the three dictionaries. -/
def popKeys (keys : List K) : CacheData K :=
  { d with
    keyhits := d.keyhits.popAll keys
    timestamps := d.timestamps.popAll keys
    expirations := d.expirations.popAll keys }

/-- The keys in the order of the policy. -/
def ranked (cfg : CachifyConfig) : List K :=
  match cfg.cacheMaxSizePolicy with
  -- only the async check sorts the other way
  | .lru => d.timestamps.sortedKeys cfg.isAsync
  | .lfu => d.keyhits.sortedKeys false
  | .fifo => d.timestamps.sortedKeys true
  | .lifo => d.timestamps.sortedKeys false

/-- The keys that have metadata. -/
def keys : Finset K := d.keyhits.keySet ∪ d.timestamps.keySet ∪ d.expirations.keySet

end CacheData

namespace Cachify

variable {K V : Type} [DecidableEq K] (cfg : CachifyConfig) (s : Cachify K V)

/-- `_exists` and `_get`. -/
def get (now : ℚ) (key : K) : Option V :=
  (s.values.get? key).bind fun c => if c.2.all fun t => decide (now < t) then some c.1 else none

/-- `num_keys`. -/
def numKeys : ℕ := s.values.items.length

/-- `clear`; no keys at all are all keys. Without a hash this raises after `data` was cleared. -/
def clear (keys : List K) : Cachify K V :=
  if keys ≠ [] then { s with values := s.values.popAll keys }
  else if cfg.hsetEnabled then {}
  else { s with data := {} }

/-- `cache_kwargs.get('ttl') or self.ttl`. -/
def effectiveTtl (ttl : Option Number) : Option Number :=
  if ttl.all fun t => t.toRat = 0 then cfg.ttl else ttl

/-- The deadline after a time to live. -/
def deadline (now : ℚ) (ttl : Option Number) : Option ℚ := ttl.map fun t => now + t.toRat

/-- The deadline that the server sets. It answers with an error to any other `EXPIRE`, which `set`
swallows. -/
def serverDeadline (now : ℚ) (ttl : Option Number) : Option ℚ :=
  deadline now (ttl.filter fun t => t.expires now)

def set (now : ℚ) (key : K) (value : V) (ttl : Option Number) : Cachify K V :=
  let ttl := effectiveTtl cfg ttl
  if cfg.hsetEnabled then
    { s with
      values := s.values.setItem key (value, none)
      data := (deadline now ttl).elim s.data fun t => s.data.addKeyExpiration key t }
  else { s with values := s.values.setItem key (value, serverDeadline now ttl) }

def expireCacheExpiredKeys (now : ℚ) : Cachify K V :=
  let keys := s.data.toDelete now
  if keys = [] then s else { s with data := s.data.popKeys keys }.clear cfg keys

/-- `keys_to_delete`. -/
def keysToDelete (key : K) (maxSize : ℕ) : List K :=
  ((s.data.ranked cfg).take (s.numKeys - maxSize)).erase key

def checkCachePolicies (key : K) (maxSize : ℕ) : Cachify K V :=
  if s.numKeys ≤ maxSize then s else s.clear cfg (s.keysToDelete cfg key maxSize)

/-- The state in which the check begins. -/
def beforeCheck (now : ℚ) (key : K) : Cachify K V :=
  let s := { s with data := s.data.addHit }.expireCacheExpiredKeys cfg now
  { s with data := (s.data.addKeyHit key).addKeyTimestamp key now }

/-- `data[name].pop(key, None)` before `data.flush()`, which saves the dictionary `d'` in place of `d`
if `saves d d'`. -/
def popSaved {β : Type} (saves : Dict K β → Dict K β → Bool) (d : Dict K β) (key : K) : Dict K β :=
  if key ∈ d.keySet then if saves d (d.pop key) then d.pop key else d else d

def invalidateCache (saves : ∀ β, Dict K β → Dict K β → Bool) (key : K) : Cachify K V :=
  { values := s.values.pop key
    data := { s.data with
      keyhits := popSaved (saves ℕ) s.data.keyhits key
      timestamps := popSaved (saves ℚ) s.data.timestamps key
      expirations := popSaved (saves ℚ) s.data.expirations key } }

def validateCachePolicies (now : ℚ) (key : K) : Cachify K V :=
  match cfg.hsetEnabled, cfg.cacheMaxSize with
  | true, some maxSize => (s.beforeCheck cfg now key).checkCachePolicies cfg key maxSize
  | _, _ => { s with data := s.data.addHit }.expireCacheExpiredKeys cfg now

end Cachify

/-! ## Runs -/

structure CacheRun (K V : Type) where
  cache : Cachify K V := {}
  now : ℚ := 0
  /-- The runs of `validate_cache_policies` that are owed. -/
  owed : List K := []

inductive CacheEv (K V : Type)
  | set (key : K) (value : V) (ttl : Option Number)
  | retrieve (key : K)
  | validate (key : K)
  | clear (keys : List K)
  | advance (t : ℚ)
  deriving DecidableEq

namespace CacheRun

variable {K V : Type} [DecidableEq K] (cfg : CachifyConfig) (s : CacheRun K V)

def step : CacheEv K V → Option (CacheRun K V)
  | .set key value ttl => some { s with cache := s.cache.set cfg s.now key value ttl }
  | .retrieve key =>
    some (if (s.cache.get s.now key).isSome then { s with owed := key :: s.owed } else s)
  | .validate key =>
    if key ∈ s.owed then
      some { s with
        cache := s.cache.validateCachePolicies cfg s.now key
        owed := s.owed.erase key }
    else none
  | .clear keys => some { s with cache := s.cache.clear cfg keys }
  | .advance t => if 0 ≤ t then some { s with now := s.now + t } else none

end CacheRun

def cacheMachine (K V : Type) [DecidableEq K] (cfg : CachifyConfig) :
    Lib.Machine (CacheRun K V) (CacheEv K V) where
  init := {}
  step := CacheRun.step cfg

end Kvdb
