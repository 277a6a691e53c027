import Kvdb.Lib.Python
import Mathlib.Logic.Function.Basic

/-!
# Closing locks (`components/lock.py`, `close_locks` and `aclose_locks` of `components/session.py`)

The lock objects of one session (`state.locks` or `state.alocks`), and the values of their keys on
the server. A lock object keeps its token in `local`: a `threading.local`, where a thread has the
attribute `token` if it has made or acquired the lock, or a plain namespace. `release` of redis-py
takes the token out, raises if there is none, and runs a script that deletes the key if it has that
token and raises otherwise.
-/

namespace Kvdb

/-- `local` of a lock object. -/
inductive LockLocal (Th τ : Type)
  /-- `threading.local()`; a thread without the attribute has `none`. -/
  | threads (token : Th → Option (Option τ))
  /-- `SimpleNamespace()`. -/
  | shared (token : Option τ)

inductive LockExc
  /-- `LockError`. -/
  | unlocked
  /-- `LockNotOwnedError`. -/
  | notOwned
  /-- `AttributeError`: `local` has no attribute `token`. -/
  | noToken
  /-- `TypeError`: what is awaited is no awaitable. -/
  | noAwaitable
  deriving DecidableEq

/-- What `release` of an `AsyncLock` returns. -/
inductive Releasing (τ : Type)
  | value (result : Bool)
  /-- The coroutine of `do_release`. -/
  | coroutine (expectedToken : τ) (force : Option Bool) (raiseErrors : Bool)

variable {Th τ : Type}

namespace LockLocal

/-- `self.local.token`. -/
def read (me : Th) : LockLocal Th τ → Option (Option τ)
  | .threads token => token me
  | .shared token => some token

/-- `self.local.token = token`. -/
def write [DecidableEq Th] (me : Th) (token : Option τ) : LockLocal Th τ → LockLocal Th τ
  | .threads tokens => .threads (Function.update tokens me (some token))
  | .shared _ => .shared token

/-- Some thread of the session has the token. -/
def Has (token : τ) : LockLocal Th τ → Prop
  | .threads tokens => ∃ th, tokens th = some (some token)
  | .shared token' => token' = some token

end LockLocal

structure LockObject (Th τ : Type) where
  «local» : LockLocal Th τ
  /-- `_force_unlock`. -/
  forceUnlock : Option Bool := none

/-- The values of the keys on the server. -/
abbrev LockStore (τ : Type) := String → Option τ

/-- The script of `release`. -/
def luaRelease [DecidableEq τ] (name : String) (expectedToken : τ) (stored : LockStore τ) :
    LockStore τ × Bool :=
  if stored name = some expectedToken then (Function.update stored name none, true)
  else (stored, false)

/-- `if force is None: force = self._force_unlock`, as a condition. -/
def LockObject.forced (lock : LockObject Th τ) (force : Option Bool) : Bool :=
  (force.or lock.forceUnlock).getD false

/-- What a method of a lock object leaves, and what it returns or raises. -/
abbrev LockResult (Th τ α : Type) := LockObject Th τ × LockStore τ × Except LockExc α

section Release

variable [DecidableEq Th] [DecidableEq τ]
variable (me : Th) (name : String) (force : Option Bool) (raiseErrors : Bool)

/-- `release` of redis-py. -/
def superRelease (lock : LockObject Th τ) (stored : LockStore τ) : LockResult Th τ Unit :=
  match lock.local.read me with
  | none => (lock, stored, .error .noToken)
  | some none => (lock, stored, .error .unlocked)
  | some (some expectedToken) =>
    let lock := { lock with «local» := lock.local.write me none }
    match luaRelease name expectedToken stored with
    | (stored, true) => (lock, stored, .ok ())
    | (stored, false) => (lock, stored, .error .notOwned)

/-- `Lock.release`; `none` is `None`. -/
def lockRelease (lock : LockObject Th τ) (stored : LockStore τ) : LockResult Th τ (Option Bool) :=
  match superRelease me name lock stored with
  | (lock', stored, .ok ()) => (lock', stored, .ok none)
  | (lock', stored, .error e) =>
    if e = .notOwned ∨ e = .unlocked then
      if lock.forced force then (lock', Function.update stored name none, .ok (some true))
      else if raiseErrors then (lock', stored, .error e)
      else (lock', stored, .ok none)
    else (lock', stored, .error e)

/-- `AsyncLock.do_release`. -/
def doRelease (expectedToken : τ) (lock : LockObject Th τ) (stored : LockStore τ) :
    LockResult Th τ (Option Bool) :=
  match luaRelease name expectedToken stored with
  | (stored, true) => (lock, stored, .ok none)
  | (stored, false) =>
    if raiseErrors && !lock.forced force then (lock, stored, .error .notOwned)
    else if lock.forced force then (lock, Function.update stored name none, .ok (some true))
    else (lock, stored, .ok none)

/-- `AsyncLock.release`. -/
def asyncLockRelease (lock : LockObject Th τ) (stored : LockStore τ) :
    LockResult Th τ (Releasing τ) :=
  match lock.local.read me with
  | none => (lock, stored, .error .noToken)
  | some none =>
    if raiseErrors then (lock, stored, .error .unlocked) else (lock, stored, .ok (.value false))
  | some (some expectedToken) =>
    ({ lock with «local» := lock.local.write me none }, stored,
      .ok (.coroutine expectedToken force raiseErrors))

/-- `await`. -/
def awaitRelease : Releasing τ → LockObject Th τ → LockStore τ → LockResult Th τ (Option Bool)
  | .value _, lock, stored => (lock, stored, .error .noAwaitable)
  | .coroutine expectedToken force raiseErrors, lock, stored =>
    doRelease name force raiseErrors expectedToken lock stored

/-- The release of one lock in the loop. -/
def releaseOne : Python.Variant → LockObject Th τ → LockStore τ → LockResult Th τ (Option Bool)
  | .sync, lock, stored => lockRelease me name force raiseErrors lock stored
  | .async, lock, stored =>
    match asyncLockRelease me force raiseErrors lock stored with
    | (lock, stored, .ok releasing) => awaitRelease name releasing lock stored
    | (lock, stored, .error e) => (lock, stored, .error e)

end Release

/-- `names` of `close_locks`. -/
inductive LockNames
  | all
  | one (name : String)
  | list (names : List String)

structure LockSession (Th τ : Type) where
  /-- `state.locks`, or `state.alocks`. -/
  locks : Python.Dict String (LockObject Th τ) := {}
  stored : LockStore τ := fun _ => none

namespace LockSession

def named (s : LockSession Th τ) : LockNames → List String
  | .all => s.locks.items.map Prod.fst
  | .one name => [name]
  | .list names => names

section Close

variable [DecidableEq Th] [DecidableEq τ]
variable (variant : Python.Variant) (me : Th) (force : Option Bool) (raiseErrors : Bool)

/-- The loop of `close_locks`, with what it raises. -/
def closeLoop : List String → LockSession Th τ → LockSession Th τ × Option LockExc
  | [], s => (s, none)
  | name :: names, s =>
    match s.locks.get? name with
    | none => closeLoop names s
    | some lock =>
      match releaseOne me name force raiseErrors variant lock s.stored with
      | (_, stored, .ok _) => closeLoop names { s with locks := s.locks.pop name, stored }
      | (lock, stored, .error e) => ({ s with locks := s.locks.setItem name lock, stored }, some e)

/-- `close_locks`, `aclose_locks`. -/
def closeLocks (names : LockNames) (s : LockSession Th τ) : LockSession Th τ × Option LockExc :=
  closeLoop variant me force raiseErrors (s.named names) s

end Close

/-- The session holds the lock: its key has a token that a thread of the session got. -/
def Holds (s : LockSession Th τ) (name : String) : Prop :=
  ∃ lock token, s.locks.get? name = some lock ∧ lock.local.Has token ∧ s.stored name = some token

/-- Nothing is raised, the named locks are removed, and those that the session holds are released.
-/
structure Closed (s : LockSession Th τ) (names : List String)
    (out : LockSession Th τ × Option LockExc) : Prop where
  quiet : out.2 = none
  removed : ∀ name ∈ names, out.1.locks.get? name = none
  released : ∀ name ∈ names, s.Holds name → out.1.stored name = none

end LockSession

end Kvdb
