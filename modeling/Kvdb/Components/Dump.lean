import Kvdb.Components.Persistence
import Kvdb.Lib.Python
import Mathlib

/-!
# Dump and load (`components/persistence.py`)

`dump_data_raw` and `load_data_raw` of a backend in hset mode, whose raw values are bytes. What the
session returns depends on `decodeResponses`: bytes, or what `Encoder.decode` makes of them, a text or
`None` for `null` (no serializer in the session). `none` is an exception.

A dump is a dictionary of the values under their exported keys, with the deadlines under `_exp_` and
the keys of the values in hexadecimal under `_hexed_`.
-/

namespace Kvdb

open Redis Python HsetStore

/-- A key of a dump: `None` or a text. -/
abbrev PyKey := Option String

/-- A value of a dump. -/
inductive PyVal
  /-- `None`. -/
  | null
  | str (s : String)
  | bytes (bs : ByteArray)
  | list (keys : List PyKey)
  | dict (exps : Dict String ℤ)

/-- `ENCODER_NULL_VALUE`. -/
def encoderNullValue : String := "null"

def expEntry : PyKey := some "_exp_"

def hexedEntry : PyKey := some "_hexed_"

/-! ## Responses -/

section Responses

variable (decodeResponses : Bool)

/-- `Encoder.decode` of a value. -/
def decodeResponse (value : ByteArray) : Option PyVal :=
  if decodeResponses then
    if value = encoderNullValue.toUTF8 then some .null else (String.fromUTF8? value).map .str
  else some (.bytes value)

/-- A field of a hash as a key, bytes decoded. -/
def responseKey (field : String) : PyKey :=
  if decodeResponses ∧ field = encoderNullValue then none else some field

/-- `str` of a field of a hash. -/
def responseStr (field : String) : String :=
  if decodeResponses then if field = encoderNullValue then "None" else field
  else bytesRepr field.toUTF8.data.toList

end Responses

namespace Backend

variable {V : Type} (b : Backend ByteArray V)

/-- `key.replace(f'{self.base_key}{self.keyjoin}', '')`. -/
def stripBase (key : String) : String :=
  String.ofList (remove (b.baseKey ++ b.keyjoin).toList 0 key.toList)

/-! ## Dump -/

/-- The key in the dump; `None` has no `replace`, and no base key is in it. -/
def exportKey (excludeBaseKey : Bool) : PyKey → Option PyKey
  | some key => some (some (if excludeBaseKey then b.stripBase key else b.getKey key))
  | none => if ¬ excludeBaseKey ∧ b.baseKey = "" then some none else none

/-- `results['_hexed_'].append(key)`, on a new list if there is none. -/
def appendHexed (results : Dict PyKey PyVal) (key : PyKey) : Option (Dict PyKey PyVal) :=
  match results.get? hexedEntry with
  | none => some (results.setItem hexedEntry (.list [key]))
  | some (.list keys) => some (results.setItem hexedEntry (.list (keys ++ [key])))
  | some _ => none

/-- One round of the loop of `get_all_data_raw`. -/
def dumpItem (decodeResponses excludeBaseKey : Bool) (results : Dict PyKey PyVal)
    (item : String × ByteArray) : Option (Dict PyKey PyVal) := do
  let key ← b.exportKey excludeBaseKey (responseKey decodeResponses item.1)
  match ← decodeResponse decodeResponses item.2 with
  | .bytes value =>
    match String.fromUTF8? value with
    | some text => return results.setItem key (.str text)
    | none =>
      let results ← appendHexed results key
      return results.setItem key (.str (String.ofList (hex value.data.toList)))
  | value => return results.setItem key value

/-- The entry `_exp_`. -/
def expResults (decodeResponses : Bool) (s : HsetStore ByteArray) : Dict PyKey PyVal :=
  if s.expIndex.hkeys = [] then {}
  else
    Dict.setItem {} expEntry
      (.dict (.ofPairs (s.expIndex.hgetall.map fun p => (responseStr decodeResponses p.1, p.2))))

/-- `get_all_data_raw`, after the expiration check. -/
def getAllDataRaw (decodeResponses : Bool) (s : HsetStore ByteArray) (excludeBaseKey : Bool) :
    Option (Dict PyKey PyVal) :=
  s.data.hgetall.foldlM (b.dumpItem decodeResponses excludeBaseKey) (expResults decodeResponses s)

def dumpDataRaw (decodeResponses : Bool) (s : HsetStore ByteArray) (includeBaseKey : Bool) :
    Option (Dict PyKey PyVal) :=
  b.getAllDataRaw decodeResponses s (!includeBaseKey)

end Backend

/-! ## Load -/

/-- What `for key in hexed` goes through. -/
def PyVal.iterate : PyVal → Option (List PyKey)
  | .list keys => some keys
  | .str s => some (s.toList.map fun c => some (String.singleton c))
  | .dict exps => some (exps.items.map fun p => some p.1)
  -- numbers, which are no keys
  | .bytes _ => some []
  | .null => none

def PyVal.unhexlify : PyVal → Option ByteArray
  | .str s => (Python.unhexlify s.toList).map fun bs => ⟨bs.toArray⟩
  | .bytes bs =>
    (Python.unhexlify (bs.data.toList.map fun x => Char.ofNat x.toNat)).map fun bs => ⟨bs.toArray⟩
  | _ => none

/-- `data[key] = binascii.unhexlify(data[key])`; exceptions are logged. -/
def unhexItem (data : Dict PyKey PyVal) (key : PyKey) : Dict PyKey PyVal :=
  match (data.get? key).bind PyVal.unhexlify with
  | some bs => data.setItem key (.bytes bs)
  | none => data

/-- `Encoder.encode` of a value of the mapping. -/
def PyVal.encode : PyVal → Option ByteArray
  | .null => some encoderNullValue.toUTF8
  | .str s => some s.toUTF8
  | .bytes bs => some bs
  | .list _ | .dict _ => none

/-- A pair of the mapping. -/
def encodePair (p : PyKey × PyVal) : Option (String × ByteArray) :=
  p.2.encode.map fun value => (p.1.getD encoderNullValue, value)

/-- The backend after a load, with the expiry that the hash of the values has as a key. -/
structure Loaded where
  store : HsetStore ByteArray
  ttl : Option ℤ := none

namespace Backend

variable {V : Type} (b : Backend ByteArray V)

/-- `EXPIRE` of the base key; an expiry that is not positive deletes the hash. -/
def expireBase (store : HsetStore ByteArray) : Loaded :=
  match b.expiration with
  | none => { store }
  | some ex => if 0 < ex then { store, ttl := some ex } else { store := { store with data := ∅ } }

/-- The last lines of `load_data_raw`, by what was under `_exp_`: a value that is true and no mapping
raises. -/
def loadExps (store : HsetStore ByteArray) : Option PyVal → Option Loaded
  | some (.dict exps) =>
    if exps.items = [] then some (b.expireBase store)
    else some { store := { store with expIndex := store.expIndex.hsetAll exps.items } }
  | some (.str s) => if s = "" then some (b.expireBase store) else none
  | some (.bytes bs) => if bs.size = 0 then some (b.expireBase store) else none
  | some (.list keys) => if keys = [] then some (b.expireBase store) else none
  | some .null | none => some (b.expireBase store)

/-- The keys without the base key. -/
def importKeys (includesBaseKey : Bool) (data : Dict PyKey PyVal) : Option (Dict PyKey PyVal) :=
  if includesBaseKey then do
    return .ofPairs (← data.items.mapM fun p => p.1.map fun key => (some (b.stripBase key), p.2))
  else some data

def loadDataRaw (store : HsetStore ByteArray) (data : Dict PyKey PyVal) (includesBaseKey : Bool) :
    Option Loaded := do
  let hexed ← ((data.get? hexedEntry).getD (.list [])).iterate
  let expIndex := data.get? expEntry
  let data := ((data.pop hexedEntry).pop expEntry)
  let data := hexed.foldl unhexItem data
  let data ← b.importKeys includesBaseKey data
  let mapping ← data.items.mapM encodePair
  -- HSET without fields is refused
  if mapping = [] then none
  else b.loadExps { store with data := store.data.hsetAll mapping } expIndex

/-! ## Round trip -/

/-- The dump of a backend, loaded into an empty one of the same configuration. -/
def reload (decodeResponses includeBaseKey : Bool) (s : HsetStore ByteArray) : Option Loaded := do
  b.loadDataRaw {} (← b.dumpDataRaw decodeResponses s includeBaseKey) includeBaseKey

/-- The backend that was loaded has the keys, the values and the deadlines of the other. -/
structure SameContent (s : HsetStore ByteArray) (t : Loaded) : Prop where
  data : ∀ k, t.store.data.hget k = s.data.hget k
  expIndex : ∀ k, t.store.expIndex.hget k = s.expIndex.hget k
  ttl : t.ttl = none

/-- Dump, at the time `now`, and load. -/
def RoundTrips (decodeResponses includeBaseKey : Bool) (now : ℤ) (s : HsetStore ByteArray) : Prop :=
  ∃ t, b.reload decodeResponses includeBaseKey (s.runExpirationCheck now []) = some t ∧
    SameContent (s.runExpirationCheck now []) t

/-- The content that a dump keeps: at least one value; no key contains the base key with the join or is
exported as one of the two entries; no expiry of the backend, unless there is a deadline; no deadlines
if the session returns bytes; and if it decodes them, only texts as values, and no key `null`. -/
structure Dumpable (decodeResponses includeBaseKey : Bool) (s : HsetStore ByteArray) : Prop where
  nonempty : s.data.hkeys ≠ []
  plain : ∀ k ∈ s.data.hkeys, (b.baseKey ++ b.keyjoin).toList = [] ∨
    ¬ (b.baseKey ++ b.keyjoin).toList <:+: k.toList
  unreserved : ∀ k ∈ s.data.hkeys, (if includeBaseKey then b.getKey k else k) ∉ ["_exp_", "_hexed_"]
  timeless : s.expIndex.hkeys = [] → b.expiration = none
  undecoded : decodeResponses = false → s.expIndex.hkeys = []
  decoded : decodeResponses = true →
    (∀ k v, s.data.hget k = some v → v.IsValidUTF8) ∧
      encoderNullValue ∉ s.data.hkeys ∧ encoderNullValue ∉ s.expIndex.hkeys

end Backend

end Kvdb
