import Kvdb.Components.Clone
import Kvdb.Lib.Machine
import Kvdb.Lib.Program

/-!
# The storage helpers of a cachified function (`io/cachify/base.py`)

`_get`, `_set`, `_delete`, `_clear`, `_exists`, `_length`, `_keys`, `_values`, `_items` and `clear`, as
programs on the keys of the server. With `hset_enabled` the values are the fields of one hash, otherwise
they have keys of their own, below `cache_field`. The dictionary `data` is a hash under
`cache_field:data` in both modes.

`True` counts as 1 among the replies, as it does in Python. The decoding of what is listed is left out.
-/

namespace Kvdb.CacheStore

open Lib Redis

variable {R : Type} [DecidableEq R]

/-- The keys of a server. -/
abbrev Server (R : Type) [DecidableEq R] := Hash String (Stored R)

inductive StoreExc
  /-- The value of the key has another type. -/
  | wrongType
  | typeError
  deriving DecidableEq

inductive Reply (R : Type)
  | num (n : ℕ)
  | value (v : Option R)
  | keys (ks : List String)
  | values (vs : List R)
  | items (kvs : List (String × R))
  deriving DecidableEq

abbrev Command (R : Type) [DecidableEq R] := Program (Server R) StoreExc (Reply R)

/-! ## Commands -/

/-- The fields of a hash; a key that does not exist has none. -/
def fields (server : Server R) (name : String) : Option (Hash String R) :=
  match server.hget name with
  | none => some ∅
  | some (.hash h) => some h
  | some _ => none

/-- `HGET`, `HEXISTS`, `HLEN`, `HKEYS`, `HVALS` and `HGETALL`. -/
def readHash (name : String) (f : Hash String R → Reply R) : Command R := fun server =>
  match fields server name with
  | some h => (.ok (f h), server)
  | none => (.error .wrongType, server)

/-- `HSET` and `HDEL`; an empty hash is removed. -/
def writeHash (name : String) (f : Hash String R → ℕ × Hash String R) : Command R := fun server =>
  match fields server name with
  | some h =>
    (.ok (.num (f h).1),
      if (f h).2.hkeys = [] then server.hdel name else server.hset name (.hash (f h).2))
  | none => (.error .wrongType, server)

/-- How many of the keys are removed. -/
def delCount {β : Type} (h : Hash String β) : List String → ℕ
  | [] => 0
  | k :: ks => (if h.hexists k then 1 else 0) + delCount (h.hdel k) ks

def hset (name key : String) (value : R) : Command R :=
  writeHash name fun h => (if h.hexists key then 0 else 1, h.hset key value)

def hdel (name : String) (keys : List String) : Command R :=
  writeHash name fun h => (delCount h keys, h.hdelAll keys)

/-- `GET`. -/
def getString (name : String) : Command R := fun server =>
  match server.hget name with
  | none => (.ok (.value none), server)
  | some (.string v) => (.ok (.value (some v)), server)
  | some _ => (.error .wrongType, server)

/-- `SET`. -/
def setString (name : String) (value : R) : Command R := fun server =>
  (.ok (.num 1), server.hset name (.string value))

/-- `DEL`. -/
def del (names : List String) : Command R := fun server =>
  (.ok (.num (delCount server names)), server.hdelAll names)

/-- `EXISTS`. -/
def existsKey (name : String) : Command R := fun server =>
  (.ok (.num (if server.hexists name then 1 else 0)), server)

/-! ## Helpers -/

structure StoreConfig where
  cacheField : String
  hsetEnabled : Bool := true

namespace StoreConfig

variable (cfg : StoreConfig)

def getKey (key : String) : String :=
  if cfg.hsetEnabled then key else cfg.cacheField ++ ":" ++ key

/-- `self.get_key(self.cache_field, '*')`, which takes one argument only. -/
def getKeyOfAll : Command R := Program.raise .typeError

/-- `_get`. -/
def get (key : String) : Command R :=
  if cfg.hsetEnabled then readHash cfg.cacheField fun h => .value (h.hget key)
  else getString (cfg.getKey key)

/-- `_set`. -/
def set (key : String) (value : R) : Command R :=
  if cfg.hsetEnabled then hset cfg.cacheField key value else setString (cfg.getKey key) value

/-- `_delete`. -/
def delete (key : String) : Command R :=
  if cfg.hsetEnabled then hdel cfg.cacheField [key] else del [cfg.getKey key]

/-- `_clear`. -/
def clearKeys (keys : List String) : Command R :=
  if cfg.hsetEnabled then
    if keys ≠ [] then hdel cfg.cacheField keys else del [cfg.cacheField]
  else if keys ≠ [] then del (keys.map cfg.getKey)
  else getKeyOfAll

/-- `_exists`. -/
def «exists» (key : String) : Command R :=
  if cfg.hsetEnabled then
    readHash cfg.cacheField fun h => .num (if h.hexists key then 1 else 0)
  else existsKey (cfg.getKey key)

/-- `_length`. -/
def length : Command R :=
  if cfg.hsetEnabled then readHash cfg.cacheField fun h => .num h.hkeys.length else getKeyOfAll

/-- `_keys`. -/
def keys : Command R :=
  if cfg.hsetEnabled then readHash cfg.cacheField fun h => .keys h.hkeys else getKeyOfAll

/-- `_values`. -/
def values : Command R :=
  if cfg.hsetEnabled then readHash cfg.cacheField fun h => .values (h.hgetall.map Prod.snd)
  else getKeyOfAll

/-- `_items`. -/
def items : Command R :=
  if cfg.hsetEnabled then readHash cfg.cacheField fun h => .items h.hgetall else getKeyOfAll

/-- `self.data.clear()`. -/
def clearData : Command R := del [cfg.cacheField ++ ":data"]

def clear (keys : List String) : Command R :=
  if keys ≠ [] then
    if cfg.hsetEnabled then hdel cfg.cacheField keys else del (keys.map cfg.getKey)
  else do
    let _ ← cfg.clearData
    if cfg.hsetEnabled then del [cfg.cacheField] else getKeyOfAll

end StoreConfig

/-! ## Runs in both modes -/

inductive StoreOp (R : Type)
  | get (key : String)
  | set (key : String) (value : R)
  | delete (key : String)
  | clearKeys (keys : List String)
  | existsKey (key : String)
  | length
  | keys
  | values
  | items
  | clear (keys : List String)
  deriving DecidableEq

def StoreOp.run (cfg : StoreConfig) : StoreOp R → Command R
  | .get key => cfg.get key
  | .set key value => cfg.set key value
  | .delete key => cfg.delete key
  | .clearKeys ks => cfg.clearKeys ks
  | .existsKey key => cfg.exists key
  | .length => cfg.length
  | .keys => cfg.keys
  | .values => cfg.values
  | .items => cfg.items
  | .clear ks => cfg.clear ks

structure Modes (R : Type) [DecidableEq R] where
  hset : Server R
  plain : Server R

/-- Each operation in both modes, each on a server of its own; `aside` is stored on both before. -/
def modesMachine (field : String) (aside : Server R) : Machine (Modes R) (StoreOp R) where
  init := { hset := aside, plain := aside }
  step s op := some
    { hset := (op.run { cacheField := field } s.hset).2
      plain := (op.run { cacheField := field, hsetEnabled := false } s.plain).2 }

end Kvdb.CacheStore
