import Kvdb.Components.Dump

/-!
# Reads in hset mode (`components/persistence.py`)

The read operations of a backend in hset mode, all at the time `now`, with what the session makes of
the responses (`decodeResponse`) and then `decode_value`, a parameter. `iterate` returns the fields
as the session does: bytes, or the texts and `None` of a session that decodes responses;
`get_all_keys` decodes the bytes.
-/

namespace Kvdb

open Redis Python HsetStore

/-- What a read raises. -/
inductive ViewExc
  /-- `UnicodeDecodeError` in the session. -/
  | unicode
  /-- The server refuses a command without fields. -/
  | response
  /-- `NotImplementedError`: there is no base key. -/
  | notImplemented
  /-- `AttributeError` of `decode_value`. -/
  | attribute
  /-- Another exception of `decode_value`. -/
  | other
  deriving DecidableEq

/-- A backend in hset mode. -/
structure HsetReader (V : Type) where
  baseKey : String
  decodeResponses : Bool
  /-- `decode_value`. -/
  decodeValue : PyVal → Except ViewExc V

namespace HsetReader

variable {V : Type} (r : HsetReader V) (now : ℤ)

/-- A value as the session returns it. -/
def response (raw : ByteArray) : Except ViewExc PyVal :=
  (decodeResponse r.decodeResponses raw).elim (.error .unicode) .ok

/-- A field as the session returns it. -/
def fieldResponse (field : String) : PyVal :=
  if r.decodeResponses then (responseKey true field).elim .null .str else .bytes field.toUTF8

variable (s : HsetStore ByteArray)

/-- `get`; `none` is `None`. -/
def get (key : String) (default : Option V) :
    Except ViewExc (Option V) × HsetStore ByteArray :=
  match s.luaHget key now with
  | (none, s) => (.ok default, s)
  | (some raw, s) =>
    match r.response raw with
    | .error e => (.error e, s)
    | .ok .null => (.ok default, s)
    | .ok value =>
      match r.decodeValue value with
      | .ok v => (.ok (some v), s)
      | .error _ => (.ok default, s.luaHdel key)

/-- `contains`. -/
def contains (key : String) : Bool × HsetStore ByteArray :=
  let s := s.hsetExpirationCheck now key
  (s.data.hexists key, s)

/-- `HMGET`: `None` for a field that is missing. -/
def hmget (keys : List String) : Except ViewExc (List PyVal) :=
  if keys = [] then .error .response
  else keys.mapM fun key => (s.data.hget key).elim (.ok .null) r.response

/-- The loop of `get_values`. -/
def valuesLoop (s : HsetStore ByteArray) :
    List (String × PyVal) → List (Option V) × HsetStore ByteArray
  | [] => ([], s)
  | (key, value) :: items =>
    match r.decodeValue value with
    | .ok v =>
      let (results, s) := valuesLoop s items
      (some v :: results, s)
    | .error _ =>
      let (results, s) := valuesLoop (s.luaHdel key) items
      (none :: results, s)

/-- `get_values`. -/
def getValues (keys : List String) : Except ViewExc (List (Option V)) × HsetStore ByteArray :=
  let s := s.runExpirationCheck now keys
  match r.hmget s keys with
  | .ok values =>
    let (results, s) := r.valuesLoop s (keys.zip values)
    (.ok results, s)
  | .error e => (.error e, s)

/-- `iterate`. -/
def iterate : List PyVal × HsetStore ByteArray :=
  let s := s.runExpirationCheck now []
  (s.data.hkeys.map r.fieldResponse, s)

/-- `length`. -/
def length : ℕ × HsetStore ByteArray :=
  let s := s.runExpirationCheck now []
  (s.data.hkeys.length, s)

/-- `get_all_keys`. -/
def getAllKeys : Except ViewExc (List PyKey) × HsetStore ByteArray :=
  if r.baseKey = "" then (.error .notImplemented, s)
  else
    let s := s.runExpirationCheck now []
    (.ok (s.data.hkeys.map (responseKey r.decodeResponses)), s)

/-- `HGETALL`. -/
def hgetall : Except ViewExc (List (PyKey × PyVal)) :=
  s.data.hgetall.mapM fun p =>
    (r.response p.2).map fun value => (responseKey r.decodeResponses p.1, value)

/-- The loop of `get_all_data`. -/
def dataLoop (results : Dict PyKey V) (s : HsetStore ByteArray) :
    List (PyKey × PyVal) → Except ViewExc (Dict PyKey V) × HsetStore ByteArray
  | [] => (.ok results, s)
  | (key, value) :: items =>
    match r.decodeValue value with
    | .ok v => dataLoop (results.setItem key v) s items
    -- `None` is encoded as `null`
    | .error .attribute => dataLoop results (s.luaHdel (key.getD encoderNullValue)) items
    | .error e => (.error e, s)

/-- `get_all_data`. -/
def getAllData : Except ViewExc (Dict PyKey V) × HsetStore ByteArray :=
  let s := s.runExpirationCheck now []
  match r.hgetall s with
  | .ok items => r.dataLoop {} s items
  | .error e => (.error e, s)

/-- The value that is stored under a key, if the backend can read it. -/
def storedValue (key : String) : Option V :=
  match (s.data.hget key).map r.response with
  | some (.ok .null) => none
  | some (.ok value) => (r.decodeValue value).toOption
  | _ => none

/-- The reads agree on the keys and on their values. -/
structure Agree : Prop where
  /-- `get_all_keys` lists the keys that `contains` finds, each once, and `length` is their number.
  -/
  listed : ∃ keys : List String, (r.getAllKeys now s).1 = .ok (keys.map some) ∧ keys.Nodup ∧
    (∀ k, k ∈ keys ↔ (contains now s k).1 = true) ∧ (length now s).1 = keys.length
  /-- So does `iterate`, in the form of the session. -/
  iterated : ∀ k, r.fieldResponse k ∈ (r.iterate now s).1 ↔ (contains now s k).1 = true
  /-- `get` returns the stored value, and the default for the others. -/
  stored : ∀ k, (contains now s k).1 = true ↔
    ∃ v, r.storedValue s k = some v ∧ ∀ default, (r.get now s k default).1 = .ok (some v)
  missing : ∀ k, (contains now s k).1 = false →
    ∀ default, (r.get now s k default).1 = .ok default
  values : ∀ keys, keys ≠ [] → (∀ k ∈ keys, (contains now s k).1 = true) →
    ∃ values, (r.getValues now s keys).1 = .ok values ∧
      keys.map (fun k => (r.get now s k none).1) = values.map .ok
  data : ∃ data, (r.getAllData now s).1 = .ok data ∧
    (∀ k, (contains now s k).1 = true → (r.get now s k none).1 = .ok (data.get? (some k))) ∧
    ∀ key, data.get? key ≠ none → ∃ k, key = some k ∧ (contains now s k).1 = true

/-- There is a base key; every value of a key that has not expired can be read and is no `None`, and
no such key is taken for `None`. -/
structure Readable : Prop where
  base : r.baseKey ≠ ""
  value : ∀ k raw, (s.luaHget k now).1 = some raw →
    ∃ value v, r.response raw = .ok value ∧ value ≠ .null ∧ r.decodeValue value = .ok v
  key : r.decodeResponses = true → (s.luaHget encoderNullValue now).1 = none

end HsetReader

end Kvdb
