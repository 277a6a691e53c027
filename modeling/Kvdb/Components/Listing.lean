import Kvdb.Components.Dump

/-!
# Listings (`components/persistence.py`)

The names of the server and the listings of a backend: in plain-key mode with `KEYS`, and with a
pattern in both modes (`get_keys`, `aget_keys`). A `Keyspace` has the keys of the server, those of
others too, in the order of `KEYS`, without those whose time is over. `none` is an exception.
-/

namespace Kvdb

open Redis

/-- The keys of the server. -/
abbrev Keyspace := Hash String ByteArray

/-- `KEYS`. -/
def Keyspace.keys (server : Keyspace) (globMatch : String → String → Bool) (pattern : String) :
    List String :=
  server.hkeys.filter (globMatch pattern)

/-- `key.replace(…, '')` on every key; `None` has no `replace`. -/
def replaceKeys (replace : String → String) (keys : List PyKey) : Option (List PyKey) :=
  keys.mapM fun key => key.map fun key => some (replace key)

namespace Backend

variable {V : Type} (b : Backend ByteArray V) (decodeResponses : Bool)

/-! ## Plain-key mode -/

/-- The pattern of the listings. -/
def listPattern : String := b.baseKey ++ b.keyjoin ++ "*"

/-- `_fetch_set_keys`: bytes are decoded here, or have been before. -/
def fetchSetKeys (server : Keyspace) : List PyKey :=
  (server.keys b.globMatch b.listPattern).map (responseKey decodeResponses)

/-- `set`. -/
def setKey (server : Keyspace) (key : String) (value : V) : Keyspace :=
  server.hset (b.getKey key) (b.encode value)

/-- `clear` without keys. -/
def clearKeys (server : Keyspace) : Keyspace :=
  server.hdelAll (server.keys b.globMatch b.listPattern)

/-- `length`. -/
def length (server : Keyspace) : Option ℕ :=
  if b.baseKey = "" then none else some (server.keys b.globMatch b.listPattern).length

/-- `get_all_keys`. -/
def getAllKeys (server : Keyspace) (excludeBaseKey : Bool) : Option (List PyKey) :=
  if b.baseKey = "" then none
  else if excludeBaseKey then replaceKeys b.stripBase (b.fetchSetKeys decodeResponses server)
  else some (b.fetchSetKeys decodeResponses server)

/-! ## With a pattern -/

/-- `base_pattern` in plain-key mode, of `get_keys` and of `aget_keys`. -/
def basePattern (pattern : String) : Python.Variant → String
  | .sync => b.baseKey ++ pattern
  | .async => b.baseKey ++ b.keyjoin ++ pattern

/-- `get_keys` in plain-key mode. -/
def plainGetKeys (v : Python.Variant) (server : Keyspace) (pattern : String)
    (excludeBaseKey : Bool) : Option (List PyKey) :=
  let keys := (server.keys b.globMatch (b.basePattern pattern v)).map (responseKey decodeResponses)
  if excludeBaseKey then replaceKeys b.stripBase keys else some keys

/-- `re.match(pattern, key)`, as a truth value; `none` if `re` refuses the pattern. -/
abbrev ReMatch := String → String → Option Bool

/-- `[key for key in keys if re.match(pattern, key)]`; `None` is no text. -/
def matchKeys (reMatch : ReMatch) (pattern : String) : List PyKey → Option (List PyKey)
  | [] => some []
  | none :: _ => none
  | some key :: keys => do
    let found ← reMatch pattern key
    let keys ← matchKeys reMatch pattern keys
    return if found then some key :: keys else keys

/-- `get_keys` and `aget_keys` in hset mode. -/
def hsetGetKeys (reMatch : ReMatch) (now : ℤ) (s : HsetStore ByteArray) (pattern : String)
    (excludeBaseKey : Bool) : Option (List PyKey) := do
  let s := s.runExpirationCheck now []
  let keys ← matchKeys reMatch pattern (s.data.hkeys.map (responseKey decodeResponses))
  if excludeBaseKey then replaceKeys b.stripBase keys else some keys

/-! ## Patterns with a star at the end -/

/-- Glob patterns whose only special character is a `*` at the end, if there is one. -/
def starMatch (pattern name : String) : Bool :=
  if pattern.toList.getLast? = some '*' then pattern.toList.dropLast.isPrefixOf name.toList
  else pattern == name

/-- A backend with such patterns whose values are bytes. -/
def starBackend : Backend ByteArray ByteArray where
  baseKey := "b"
  encode := id
  decode := some
  incr _ _ := none
  globMatch := starMatch

end Backend

end Kvdb
