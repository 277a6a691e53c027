import Kvdb.Lib.Hash
import Kvdb.Lib.Machine
import Kvdb.Lib.Redis
import Mathlib.Data.List.Infix

/-!
# The persistence backend (`components/persistence.py`)

`Backend R V`: the configuration of a `KVDBStatefulBackend` with a base key, `R` the type of the raw
values on the server, `V` that of the Python values. The serializer and what the server does with a
raw value (`INCRBY`, glob patterns) are parameters.

* hset mode (`HsetStore`): all values in the hash `base_key`, their deadlines (in seconds) in the
  hash `exp_index_key`; the Lua scripts are `luaHget`, `luaHset`, `luaHdel`.
* plain-key mode: every value under a key of its own (`get_key`), with the server's own expiry
  (`Redis.TtlMap`, in milliseconds).

`hsetOp` and `plainOp` are the operations of the backend in the two modes, at a time `now` in seconds;
`twins` runs the same operations in both. The synchronous and the asynchronous methods are the same
here, and `_raw`, which leaves out the serializer in both modes, is not modelled.
-/

namespace Kvdb

open Redis Lib

/-- A backend with a base key. -/
structure Backend (R V : Type) where
  baseKey : String
  keyjoin : String := ":"
  expiration : Option ℤ := none
  /-- `encode_value`. -/
  encode : V → R
  /-- `decode_value`; `none` if it raises. -/
  decode : R → Option V
  /-- `INCRBY` and `HINCRBY` on a value, `none` for an error: the new raw value and the reply. -/
  incr : Option R → ℤ → Option (R × ℤ)
  /-- The keys that a pattern of `KEYS` matches. -/
  globMatch : String → String → Bool

namespace Backend

variable {R V : Type} (b : Backend R V)

def getKey (key : String) : String :=
  if b.baseKey = "" then key
  else if b.baseKey.toList <:+: key.toList then key
  else b.baseKey ++ b.keyjoin ++ key

/-- `ex or self.expiration`. -/
def orExpiration : Option ℤ → Option ℤ
  | some 0 | none => b.expiration
  | some ex => some ex

end Backend

/-! ## Operations -/

/-- An operation of the backend. -/
inductive Op (V : Type)
  | set (key : String) (value : V) (ex : Option ℤ)
  | setBatch (data : List (String × V)) (ex : Option ℤ)
  | get (key : String) (default : Option V)
  | delete (key : String)
  | contains (key : String)
  /-- Without keys everything is cleared. -/
  | clear (keys : List String)
  | expire (key : String) (ex : ℤ)
  | incrby (key : String) (amount : ℤ)
  /-- `_run_expiration_check`, for all keys if there are none; it does nothing to plain keys. -/
  | expirationCheck (keys : List String)
  deriving DecidableEq

/-- What an operation returns; `exists` answers `1` and `0` for the truth values of `hexists`. -/
inductive Reply (V : Type)
  | none
  | value (v : V)
  | bool (b : Bool)
  | int (n : ℤ)
  | error
  deriving DecidableEq

/-- The reply with a default value. -/
def Reply.ofDefault {V : Type} (default : Option V) : Reply V := default.elim .none .value

/-! ## hset mode -/

/-- The hashes `base_key` and `exp_index_key`. -/
structure HsetStore (R : Type) where
  data : Hash String R := ∅
  expIndex : Hash String ℤ := ∅

namespace HsetStore

variable {R V : Type} (s : HsetStore R)

/-- `_lua_hget_script`. -/
def luaHget (key : String) (now : ℤ) : Option R × HsetStore R :=
  match s.data.hget key with
  | none => (none, s)
  | some val =>
    match s.expIndex.hget key with
    | some exp =>
      if exp < now then (none, { data := s.data.hdel key, expIndex := s.expIndex.hdel key })
      else (some val, s)
    | none => (some val, s)

/-- `_lua_hset_script`. -/
def luaHset (key : String) (val : R) (expTime : Option ℤ) : HsetStore R where
  data := s.data.hset key val
  expIndex := expTime.elim s.expIndex fun t => s.expIndex.hset key t

/-- `_lua_hdel_script`. -/
def luaHdel (key : String) : HsetStore R where
  data := s.data.hdel key
  expIndex := s.expIndex.hdel key

def hsetExpire (now : ℤ) (key : String) (ex : ℤ) : HsetStore R :=
  { s with expIndex := s.expIndex.hset key (now + ex) }

def hsetExpireBatch (now : ℤ) (keys : List String) (ex : ℤ) : HsetStore R :=
  { s with expIndex := s.expIndex.hsetAll (keys.map fun k => (k, now + ex)) }

/-- `hset_expiration_check`. -/
def hsetExpirationCheck (now : ℤ) (key : String) : HsetStore R :=
  if s.expIndex.hexists key then
    match s.expIndex.hget key with
    | none => { s with expIndex := s.expIndex.hdel key }
    | some exp =>
      if exp < now then { data := s.data.hdel key, expIndex := s.expIndex.hdel key } else s
  else s

/-- One round of the loop of `_run_expiration_check`. -/
def expireItem (now : ℤ) (s : HsetStore R) : String × Option ℤ → HsetStore R
  | (_, none) => s
  | (key, some exp) =>
    if exp < now then { data := s.data.hdel key, expIndex := s.expIndex.hdel key } else s

/-- The fields and deadlines that `_run_expiration_check` goes through. -/
def expItems (keys : List String) : List (String × Option ℤ) :=
  (if keys = [] then s.expIndex.hkeys else keys).map fun k => (k, s.expIndex.hget k)

def runExpirationCheck (now : ℤ) (keys : List String) : HsetStore R :=
  (s.expItems keys).foldl (expireItem now) s

end HsetStore

open HsetStore

variable {R V : Type} (b : Backend R V)

/-- The operations in hset mode. -/
def hsetOp (now : ℕ) (s : HsetStore R) : Op V → Reply V × HsetStore R
  | .set key value ex =>
    (.none, s.luaHset key (b.encode value) ((b.orExpiration ex).map fun ex => now + ex))
  | .setBatch data ex =>
    if data = [] then (.error, s)
    else
      let s := { s with data := s.data.hsetAll (data.map fun p => (p.1, b.encode p.2)) }
      (.none, (b.orExpiration ex).elim s fun ex => s.hsetExpireBatch now (data.map Prod.fst) ex)
  | .get key default =>
    match s.luaHget key now with
    | (none, s) => (.ofDefault default, s)
    | (some val, s) =>
      match b.decode val with
      | some v => (.value v, s)
      | none => (.ofDefault default, s.luaHdel key)
  | .delete key => (.none, s.luaHdel key)
  | .contains key =>
    let s := s.hsetExpirationCheck now key
    (.bool (s.data.hexists key), s)
  | .clear keys =>
    if keys = [] then (.none, { s with data := ∅ })
    else (.none, { data := s.data.hdelAll keys, expIndex := s.expIndex.hdelAll keys })
  | .expire key ex => (.none, s.hsetExpire now key ex)
  | .incrby key amount =>
    match b.incr (s.data.hget key) amount with
    | some (val, n) => (.int n, { s with data := s.data.hset key val })
    | none => (.error, s)
  | .expirationCheck keys => (.none, s.runExpirationCheck now keys)

/-! ## Plain-key mode -/

/-- `EXPIRE` at the time `now`; a deadline that has passed deletes the key. -/
def expireKey (now : ℕ) (m : TtlMap String R) (key : String) (ex : ℤ) : TtlMap String R :=
  if 0 < ex then m.expire (1000 * now) key ex.toNat else m.del key

/-- `INCRBY` keeps the deadline. -/
def storeIncr (m : TtlMap String R) (key : String) (val : R) : TtlMap String R :=
  Function.update m key (some { value := val, expireAt := (m key).bind Cell.expireAt })

/-- The operations on the keys that are left at the time `now`. -/
def plainLive (now : ℕ) (m : TtlMap String R) : Op V → Reply V × TtlMap String R
  | .set key value ex =>
    match b.orExpiration ex with
    | none => (.none, m.set (b.getKey key) (b.encode value))
    | some ex =>
      if 0 < ex then
        (.none, m.setex (1000 * now) (b.getKey key) ex.toNat (b.encode value))
      else (.error, m)
  | .setBatch data ex =>
    if data = [] then (.error, m)
    else
      let m := data.foldl (fun m p => m.set (b.getKey p.1) (b.encode p.2)) m
      (.none, (b.orExpiration ex).elim m fun ex =>
        data.foldl (fun m p => expireKey now m (b.getKey p.1) ex) m)
  | .get key default =>
    match m.get (b.getKey key) with
    | none => (.ofDefault default, m)
    | some val =>
      match b.decode val with
      | some v => (.value v, m)
      | none => (.ofDefault default, m.del (b.getKey key))
  | .delete key => (.none, m.del (b.getKey key))
  | .contains key => (.bool (m.exists? (b.getKey key)), m)
  | .clear keys =>
    if keys = [] then
      (.none, fun k => if b.globMatch (b.baseKey ++ b.keyjoin ++ "*") k then none else m k)
    else (.none, keys.foldl (fun m k => m.del (b.getKey k)) m)
  | .expire key ex => (.none, expireKey now m (b.getKey key) ex)
  | .incrby key amount =>
    match b.incr (m.get (b.getKey key)) amount with
    | some (val, n) => (.int n, storeIncr m (b.getKey key) val)
    | none => (.error, m)
  | .expirationCheck _ => (.none, m)

/-- The operations in plain-key mode. -/
def plainOp (now : ℕ) (m : TtlMap String R) (op : Op V) : Reply V × TtlMap String R :=
  plainLive b now (m.evict (1000 * now)) op

/-! ## Both modes -/

/-- The same backend in both modes, and what the operations have returned. -/
structure Twins (R V : Type) where
  clock : ℕ := 0
  hset : HsetStore R := {}
  plain : TtlMap String R := fun _ => none
  hsetReplies : List (Reply V) := []
  plainReplies : List (Reply V) := []

/-- Operations in both modes, each at a time not before the last one. -/
def twins : Machine (Twins R V) (ℕ × Op V) where
  init := {}
  step s a :=
    if s.clock ≤ a.1 then
      some {
        clock := a.1
        hset := (hsetOp b a.1 s.hset a.2).2
        plain := (plainOp b a.1 s.plain a.2).2
        hsetReplies := s.hsetReplies ++ [(hsetOp b a.1 s.hset a.2).1]
        plainReplies := s.plainReplies ++ [(plainOp b a.1 s.plain a.2).1] }
    else none

/-- A backend whose values are integers. -/
def intBackend : Backend ℤ ℤ where
  baseKey := "b"
  encode := id
  decode := some
  incr o n := some (o.getD 0 + n, o.getD 0 + n)
  globMatch pattern key := pattern.toList.dropLast.isPrefixOf key.toList

end Kvdb
