import Kvdb.Io.Cachify
import Kvdb.Lib.Program

/-!
# Calls of a cachified function (`io/cachify/base.py`)

`syncWrapper` and `asyncWrapper` are the wrappers of `create_sync_decorator` and
`create_async_decorator`, as programs on the cache of the function (`Cachify`). Every access to the
store is an access of its own (`Access`); each can fail, or the time of the `with self.safely()` around
it can end in it. In the synchronous variant the end of that time has no effect (`timeout` does not
raise); in the other one it cancels what is awaited.

The wrapped function, the user's callables, the key of a call and the coding of values are parameters.
What `ThreadPooler.background_task` runs is no part of the call. `post_init_hook`, the retries of
`retry_enabled` and the logging are left out.
-/

namespace Kvdb.Cachify

open Lib Python

inductive KwArg (P : Type)
  | none
  | bool (b : Bool)
  | num (n : Number)
  | other (p : P)

namespace KwArg

variable {P : Type}

/-- `is True`. -/
def isTrue : Option (KwArg P) → Bool
  | some (.bool b) => b
  | _ => false

/-- A number, if it can be added to one. A bool can, and like a float it is nothing for `EXPIRE`. -/
def num? : KwArg P → Option Number
  | .num n => some n
  | .bool b => some (.float (if b then 1 else 0))
  | _ => Option.none

end KwArg

/-- The arguments of a call; the wrapper looks into the keyword arguments only. -/
structure CallArgs (A P : Type) where
  args : A
  kwargs : Dict String (KwArg P) := {}

/-- `cache_kwargs`. -/
structure CacheKwargs (P : Type) where
  disabled : Option (KwArg P) := none
  invalidate : Option (KwArg P) := none
  overwrite : Option (KwArg P) := none
  ttl : Option (KwArg P) := none
  exclude : Option (KwArg P) := none

/-- What the function raises. -/
inductive FuncExc (E : Type)
  | exception (e : E)
  | baseException (e : E)

inductive Exc (E : Type)
  /-- An error of the store. -/
  | store
  | typeError
  | hook
  | function (e : FuncExc E)
  /-- `CancelledError`, within `move_on_after`. -/
  | cancelled

/-- An instance of `Exception`. -/
def Exc.isException {E : Type} : Exc E → Bool
  | .function (.baseException _) | .cancelled => false
  | _ => true

inductive Proc
  | shouldInvalidate
  | invalidateCache
  | retrieve
  | addHit
  | expireCacheExpiredKeys
  | addKeyHit
  | addKeyTimestamp
  | checkCachePolicies
  | set
  deriving DecidableEq

inductive Access
  /-- The accesses of a function, in the order of its text. -/
  | store (proc : Proc) (i : ℕ)
  | hook (isHit : Bool)
  deriving DecidableEq

/-- A fault of an access, whether or not the store has done it. -/
inductive Fault
  | error (done : Bool)
  | timeout (done : Bool)

structure CallEnv where
  ping : Bool := true
  /-- `timed_cache` of `lzo` calls the function and passes on what it returns or raises; or it raises
  before that. -/
  timedCacheCalls : Bool := true
  faults : Proc → ℕ → Option Fault := fun _ _ => none
  /-- `post_call_hook` raises, on a hit and on a miss. -/
  hookRaises : Bool → Bool := fun _ => false

/-- What a call changes. -/
structure CallState (K R : Type) where
  cache : Cachify K R := {}
  now : ℚ := 0
  sessionAvailable : Option Bool := none
  executions : ℕ := 0
  log : List Access := []

inductive ExcludeExceptions (V : Type)
  | no
  | all
  | listed (isInstance : V → Bool)

structure CachifyOptions (A P E V R K : Type) extends CachifyConfig where
  /-- The value of the n-th execution; `none` is `None`. -/
  func : ℕ → CallArgs A P → Except (FuncExc E) (Option V)
  key : CallArgs A P → K
  /-- `encode_hit`, unless it raises. -/
  encodeHit : Option V → CallArgs A P → Option R
  /-- `decode_hit`, unless it raises or returns `None`. -/
  decodeHit : R → CallArgs A P → Option V
  disabled : Option (Bool ⊕ (CallArgs A P → Bool)) := none
  disabledKws : List String := ["cache_disable"]
  invalidateAfter : Option (ℤ ⊕ (Option ℕ → CallArgs A P → Bool)) := none
  invalidateIf : Option (CallArgs A P → Bool) := none
  invalidateKws : List String := ["cache_invalidate"]
  overwriteIf : Option (CallArgs A P → Bool) := none
  overwriteKws : List String := ["cache_overwrite"]
  ttlKws : List String := ["cache_ttl"]
  excludeIf : Option (Option V → CallArgs A P → Bool) := none
  excludeKws : List String := ["cache_exclude"]
  excludeNull : Bool := true
  excludeExceptions : ExcludeExceptions V := .all
  isExceptionValue : V → Bool := fun _ => false
  raiseExceptions : Bool := true
  postCallHook : Bool := false
  disableBackgroundTasks : Bool := false

abbrev Call (E K R α : Type) := Program (CallState K R) (Exc E) α

namespace CachifyOptions

variable {A P E V R K : Type} (cfg : CachifyOptions A P E V R K)

/-! ## Decisions -/

/-- The first of the keywords that is given, and the arguments without it. -/
def popFirst (kws : List String) (kwargs : Dict String (KwArg P)) :
    Option (KwArg P) × Dict String (KwArg P) :=
  match kws.find? fun kw => (kwargs.get? kw).isSome with
  | some kw => (kwargs.get? kw, kwargs.pop kw)
  | none => (none, kwargs)

def extractCacheKwargs (a : CallArgs A P) : CacheKwargs P × CallArgs A P :=
  let (disabled, kwargs) := popFirst cfg.disabledKws a.kwargs
  let (invalidate, kwargs) := popFirst cfg.invalidateKws kwargs
  let (overwrite, kwargs) := popFirst cfg.overwriteKws kwargs
  let (ttl, kwargs) := popFirst cfg.ttlKws kwargs
  let (exclude, kwargs) := popFirst cfg.excludeKws kwargs
  ({ disabled, invalidate, overwrite, ttl, exclude }, { a with kwargs })

/-- `should_disable` and `ashould_disable`. -/
def shouldDisable (ck : CacheKwargs P) (a : CallArgs A P) : Bool :=
  -- `if self.disabled is not None: self.disabled` returns nothing
  if KwArg.isTrue ck.disabled then true
  else
    match cfg.disabled with
    | some (.inr f) => f a
    | _ => false

/-- `should_invalidate` and `ashould_invalidate`, given `_hits`. -/
def shouldInvalidate (hits : Option ℕ) (ck : CacheKwargs P) (a : CallArgs A P) : Bool :=
  match cfg.invalidateIf with
  | some f => f a
  | none =>
    if KwArg.isTrue ck.invalidate then true
    else
      match cfg.invalidateAfter with
      | some (.inl n) => hits.any fun (hits : ℕ) => decide (n ≤ (hits : ℤ))
      | some (.inr f) => f hits a
      | none => false

/-- `ashould_invalidate` comes to `_hits = await self.anum_hits`. -/
def readsHits (ck : CacheKwargs P) : Bool :=
  cfg.invalidateIf.isNone && !KwArg.isTrue ck.invalidate && cfg.invalidateAfter.isSome

def shouldOverwrite (ck : CacheKwargs P) (a : CallArgs A P) : Bool :=
  match cfg.overwriteIf with
  | some f => f a
  | none => KwArg.isTrue ck.overwrite

def shouldCacheValue (value : Option V) (ck : CacheKwargs P) (a : CallArgs A P) : Bool :=
  if cfg.excludeNull && value.isNone then false
  else
    match cfg.excludeExceptions with
    -- the answer for a list is final
    | .listed isInstance => !value.any isInstance
    | .all =>
      if value.any cfg.isExceptionValue then false
      else if KwArg.isTrue ck.exclude then false
      else !cfg.excludeIf.any fun f => f value a
    | .no =>
      if KwArg.isTrue ck.exclude then false else !cfg.excludeIf.any fun f => f value a

/-! ## Accesses to the store -/

variable (env : CallEnv) {α : Type}

/-- An access to the store; `awaited` ones are cancelled when the time ends. -/
def access (proc : Proc) (i : ℕ) (awaited : Bool) (f : ℚ → Cachify K R → α × Cachify K R) :
    Call E K R α := fun s =>
  let before := { s with log := s.log ++ [.store proc i] }
  let after := { before with cache := (f s.now s.cache).2 }
  match env.faults proc i with
  | some (.error done) => (.error .store, if done then after else before)
  | some (.timeout done) =>
    if awaited && cfg.isAsync then (.error .cancelled, if done then after else before)
    else (.ok (f s.now s.cache).1, after)
  | none => (.ok (f s.now s.cache).1, after)

def read (proc : Proc) (i : ℕ) (awaited : Bool) (f : ℚ → Cachify K R → α) : Call E K R α :=
  cfg.access env proc i awaited fun now s => (f now s, s)

def write (proc : Proc) (i : ℕ) (awaited : Bool) (f : ℚ → Cachify K R → Cachify K R) :
    Call E K R Unit :=
  cfg.access env proc i awaited fun now s => ((), f now s)

/-- A change of `data`. -/
def writeData (proc : Proc) (i : ℕ) (awaited : Bool) (f : ℚ → CacheData K → CacheData K) :
    Call E K R Unit :=
  cfg.write env proc i awaited fun now s => { s with data := f now s.data }

/-- `with self.safely()`; `none` if it was left early. -/
def safely (x : Call E K R α) : Call E K R (Option α) :=
  (x >>= fun a => pure (some a)).handle fun
    | .cancelled => some (pure none)
    | _ => none

/-- `except Exception`. -/
def excepting (x : Call E K R α) (h : Exc E → Call E K R α) : Call E K R α :=
  x.handle fun e => if e.isException then some (h e) else none

variable [DecidableEq K]

/-! ## Metadata -/

/-- The `try` of `add_hit`. -/
def incrementHits : Call E K R Unit :=
  excepting
    (do
      match ← cfg.read env .addHit 2 false fun _ s => s.data.hits with
      | some hits =>
        cfg.writeData env .addHit 3 false fun _ d => { d with hits := some (hits + 1) }
      | none => Program.raise .typeError)
    fun _ => cfg.writeData env .addHit 4 true fun _ d => { d with hits := some 1 }

def addHit : Call E K R Unit := do
  let _ ← safely do
    if !(← cfg.read env .addHit 0 true fun _ s => s.data.hits.isSome) then
      cfg.writeData env .addHit 1 true fun _ d => { d with hits := some 0 }
    cfg.incrementHits env

def expireCacheExpiredKeys : Call E K R Unit := do
  let _ ← safely do
    let (expirations, toDelete) ← cfg.read env .expireCacheExpiredKeys 0 true fun now s =>
      (s.data.expirations, s.data.toDelete now)
    if toDelete ≠ [] then
      let keyhits ← cfg.read env .expireCacheExpiredKeys 1 true fun _ s => s.data.keyhits
      let timestamps ← cfg.read env .expireCacheExpiredKeys 2 true fun _ s => s.data.timestamps
      cfg.writeData env .expireCacheExpiredKeys 3 true fun _ d =>
        { d with expirations := expirations.popAll toDelete }
      cfg.writeData env .expireCacheExpiredKeys 4 true fun _ d =>
        { d with keyhits := keyhits.popAll toDelete }
      cfg.writeData env .expireCacheExpiredKeys 5 true fun _ d =>
        { d with timestamps := timestamps.popAll toDelete }
      cfg.write env .expireCacheExpiredKeys 6 true fun _ s =>
        { s with values := s.values.popAll toDelete }

def addKeyHit (key : K) : Call E K R Unit := do
  let _ ← safely do
    let keyhits ← cfg.read env .addKeyHit 0 true fun _ s => s.data.keyhits
    cfg.writeData env .addKeyHit 1 true fun _ d =>
      { d with keyhits := keyhits.setItem key ((keyhits.get? key).getD 0 + 1) }

def addKeyTimestamp (key : K) : Call E K R Unit := do
  let _ ← safely do
    let timestamps ← cfg.read env .addKeyTimestamp 0 true fun _ s => s.data.timestamps
    cfg.writeData env .addKeyTimestamp 1 true fun now d =>
      { d with timestamps := timestamps.setItem key now }

/-- `num_keys`, where a number is needed. -/
def numKeys (i : ℕ) : Call E K R ℕ := do
  match ← safely (cfg.read env .checkCachePolicies i true fun _ s => s.numKeys) with
  | some n => pure n
  | none => Program.raise .typeError

def checkCachePolicies (key : K) (maxSize : ℕ) : Call E K R Unit := do
  if (← cfg.numKeys env 0) ≤ maxSize then return
  let numKeys ← cfg.numKeys env 1
  let ranked ← cfg.read env .checkCachePolicies 2 false fun _ s =>
    s.data.ranked cfg.toCachifyConfig
  let keysToDelete := (ranked.take (numKeys - maxSize)).erase key
  -- `clear`
  if keysToDelete ≠ [] then
    cfg.write env .checkCachePolicies 3 false fun _ s =>
      { s with values := s.values.popAll keysToDelete }
  else
    cfg.writeData env .checkCachePolicies 3 false fun _ _ => {}
    cfg.write env .checkCachePolicies 4 false fun _ s => { s with values := {} }

/-- `validate_cache_policies` and `avalidate_cache_policies`. -/
def validateCachePolicies (key : K) : Call E K R Unit := do
  cfg.addHit env
  cfg.expireCacheExpiredKeys env
  match cfg.hsetEnabled, cfg.cacheMaxSize with
  | true, some maxSize =>
    if cfg.isAsync then
      cfg.addKeyTimestamp env key
      cfg.addKeyHit env key
    else
      cfg.addKeyHit env key
      cfg.addKeyTimestamp env key
    cfg.checkCachePolicies env key maxSize
  | _, _ => pure ()

/-! ## Invalidation -/

/-- `if key in data.get(name, {}): data[name].pop(key, None)`: the changed dictionary. -/
def popTracked {β : Type} (i : ℕ) (key : K) (f : CacheData K → Dict K β) :
    Call E K R (Option (Dict K β)) := do
  if key ∈ (← cfg.read env .invalidateCache i false fun _ s => f s.data).keySet then
    let d ← cfg.read env .invalidateCache (i + 1) false fun _ s => f s.data
    return some (d.pop key)
  else return none

/-- What `flush` saves. -/
def saved {β : Type} (saves : Dict K β → Dict K β → Bool) (d : Dict K β) :
    Option (Dict K β) → Dict K β
  | some d' => if saves d d' then d' else d
  | none => d

variable (saves : ∀ β, Dict K β → Dict K β → Bool)

def invalidateCache (key : K) : Call E K R Unit := do
  let _ ← safely do
    let keyhits ← cfg.popTracked env 0 key CacheData.keyhits
    let timestamps ← cfg.popTracked env 2 key CacheData.timestamps
    let expirations ← cfg.popTracked env 4 key CacheData.expirations
    cfg.writeData env .invalidateCache 6 false fun _ d =>
      { d with
        keyhits := saved (saves ℕ) d.keyhits keyhits
        timestamps := saved (saves ℚ) d.timestamps timestamps
        expirations := saved (saves ℚ) d.expirations expirations }
    -- the coroutine of the asynchronous client is awaited by the wrapper
    cfg.write env .invalidateCache 7 false fun _ s => { s with values := s.values.pop key }

/-- `num_hits` of `ashould_invalidate`; `should_invalidate` gets no `_hits`. -/
def numHits (ck : CacheKwargs P) : Call E K R (Option ℕ) :=
  if cfg.isAsync && cfg.readsHits ck then
    safely (cfg.read env .shouldInvalidate 0 true fun _ s => s.data.hits.getD 0)
  else pure none

/-! ## `retrieve` and `set` -/

variable (ck : CacheKwargs P) (a : CallArgs A P)

/-- What `retrieve` reads. -/
def lookup (key : K) : Call E K R (Option R) :=
  excepting
    (do
      let value ← safely do
        if !(← cfg.read env .retrieve 0 true fun now s => (s.get now key).isSome) then return none
        cfg.read env .retrieve 1 true fun now s => s.get now key
      return value.join)
    fun _ => pure none

/-- `retrieve` and `aretrieve`; `none` is `ENOVAL`. -/
def retrieve (key : K) : Call E K R (Option V) := do
  if cfg.shouldOverwrite ck a then return none
  match ← cfg.lookup env key with
  | none => return none
  | some value =>
    if !cfg.isAsync || cfg.disableBackgroundTasks then cfg.validateCachePolicies env key
    return cfg.decodeHit value a

/-- `_expire` of a key of its own. What the server refuses raises in `set`, which swallows it. -/
def expire (s : Cachify K R) (key : K) (now : ℚ) (ttl : Number) : Cachify K R :=
  match s.values.get? key, serverDeadline now (some ttl) with
  | some (value, _), some t => { s with values := s.values.setItem key (value, some t) }
  | _, _ => s

/-- `add_key_expiration(key, cache_kwargs.get('ttl') or self.ttl)`. -/
def addKeyExpiration (key : K) : Call E K R Unit := do
  match ck.ttl with
  | some (.other _) => Program.raise .typeError
  | ttl =>
    match Cachify.effectiveTtl cfg.toCachifyConfig (ttl.bind KwArg.num?) with
    | none => pure ()
    | some ttl =>
      let _ ← safely do
        if cfg.hsetEnabled then
          let expirations ← cfg.read env .set 1 true fun _ s => s.data.expirations
          cfg.writeData env .set 2 true fun now d =>
            { d with expirations := expirations.setItem key (now + ttl.toRat) }
        else
          cfg.write env .set 1 true fun now s => expire s key now ttl

/-- `set` and `aset`. -/
def set (key : K) (value : Option V) : Call E K R Unit :=
  excepting
    (do
      let _ ← safely do
        match cfg.encodeHit value a with
        | some value =>
          cfg.write env .set 0 true fun _ s =>
            { s with values := s.values.setItem key (value, none) }
          cfg.addKeyExpiration env ck key
        | none => Program.raise .typeError)
    fun _ => pure ()

/-! ## Wrappers -/

/-- An execution of the function. -/
def execute : Call E K R (Option V) := fun s =>
  ((cfg.func s.executions a).mapError .function, { s with executions := s.executions + 1 })

def isSessionAvailable : Call E K R Bool := fun s =>
  match s.sessionAvailable with
  | some b => (.ok b, s)
  | none => if env.ping then (.ok true, { s with sessionAvailable := some true }) else (.ok false, s)

/-- The call without a session. -/
def callUnavailable : Call E K R (Option V) := do
  let value ← excepting
    (do
      if env.timedCacheCalls then return some (← cfg.execute a)
      Program.raise .typeError)
    fun _ => pure none
  match value with
  | some value => return value
  | none => cfg.execute a

/-- `run_post_call_hook`; a background task in the asynchronous variant. -/
def runPostCallHook (isHit : Bool) : Call E K R Unit := fun s =>
  if cfg.postCallHook && !cfg.isAsync then
    (if env.hookRaises isHit then .error .hook else .ok (),
      { s with log := s.log ++ [.hook isHit] })
  else (.ok (), s)

/-- `should_invalidate` and `invalidate_cache`. -/
def invalidateFirst (key : K) : Call E K R Unit := do
  if cfg.shouldInvalidate (← cfg.numHits env ck) ck a then cfg.invalidateCache env saves key

/-- The value of the cache. -/
def find (key : K) : Call E K R (Option V) := do
  cfg.invalidateFirst env saves ck a key
  cfg.retrieve env ck a key

/-- The value of the function, given what is done with it. -/
def compute (runCacheOperation : CacheKwargs P → CallArgs A P → K → Option V → Call E K R Unit)
    (key : K) : Call E K R (Option V) :=
  excepting
    (do
      let value ← cfg.execute a
      runCacheOperation ck a key value
      return value)
    fun e => if cfg.raiseExceptions then Program.raise e else pure none

variable (runCacheOperation : CacheKwargs P → CallArgs A P → K → Option V → Call E K R Unit)

/-- A call with a session. -/
def callAvailable : Call E K R (Option V) := do
  let (ck, a) := cfg.extractCacheKwargs a
  if cfg.shouldDisable ck a then return ← cfg.execute a
  let key := cfg.key a
  match ← cfg.find env saves ck a key with
  | none => cfg.compute ck a runCacheOperation key
  | some value =>
    cfg.runPostCallHook env true
    return some value

def callWith : Call E K R (Option V) := do
  if !(← isSessionAvailable env) then cfg.callUnavailable env a
  else cfg.callAvailable env saves a runCacheOperation

/-- `_arun_cache_operation`. -/
def cacheValue (key : K) (value : Option V) : Call E K R Unit := do
  if cfg.shouldCacheValue value ck a then cfg.set env ck a key value
  cfg.runPostCallHook env false

def syncWrapper : Call E K R (Option V) := cfg.callWith env saves a (cfg.cacheValue env)

def asyncWrapper : Call E K R (Option V) :=
  cfg.callWith env saves a fun ck a key value =>
    if cfg.disableBackgroundTasks then cfg.cacheValue env ck a key value else pure ()

/-- The wrapper of the variant. -/
def wrapper : Call E K R (Option V) :=
  if cfg.isAsync then cfg.asyncWrapper env saves a else cfg.syncWrapper env saves a

end CachifyOptions

end Kvdb.Cachify
