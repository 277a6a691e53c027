import Kvdb.Components.Listing

/-!
# Bulk operations (`components/persistence.py`)

`dump_data_raw`, `migrate_schema` and `replicate_from` in both modes. `Fetched` is what they fetch:
the dictionary of `HGETALL`, or the list of `MGET`, with `None` for a key that is missing. Their
loops ask it for its `items()`, which a list does not have. The synchronous and the asynchronous
functions are the same here; `none` is an exception. `recode` is `decode` with the schema map and
`encode` of the serializer.
-/

namespace Kvdb

open Redis Python HsetStore

/-- The values that the session has fetched. -/
inductive Fetched
  | dict (items : List (String × ByteArray))
  | list (values : List (Option ByteArray))

/-- `data.items()`; a list raises `AttributeError`. -/
def Fetched.items : Fetched → Option (List (String × ByteArray))
  | .dict items => some items
  | .list _ => none

/-- `if data`. -/
def Fetched.isTrue : Fetched → Bool
  | .dict items => !items.isEmpty
  | .list values => !values.isEmpty

/-- `MGET`; without keys the session returns the empty list. -/
def Keyspace.mget (server : Keyspace) (keys : List String) : Fetched := .list (keys.map server.hget)

/-- `MSET` of what `items()` gives; the server refuses it without keys. -/
def Keyspace.mset (server : Keyspace) (data : Fetched) : Option Keyspace := do
  let items ← data.items
  if items = [] then none else some (server.hsetAll items)

/-- `HSET` with a mapping, which is refused without fields. -/
def hsetMapping {κ β : Type} [DecidableEq κ] (hash : Hash κ β) (items : List (κ × β)) :
    Option (Hash κ β) :=
  if items = [] then none else some (hash.hsetAll items)

namespace Backend

variable {V : Type} (b : Backend ByteArray V)

/-! ## `dump_data_raw` -/

/-- The loop of `get_all_data_raw`. -/
def rawResults (decodeResponses excludeBaseKey : Bool) (results : Dict PyKey PyVal)
    (data : Fetched) : Option (Dict PyKey PyVal) := do
  (← data.items).foldlM (b.dumpItem decodeResponses excludeBaseKey) results

/-- In hset mode, after the expiration check. -/
def hsetDumpDataRaw (decodeResponses includeBaseKey : Bool) (s : HsetStore ByteArray) :
    Option (Dict PyKey PyVal) :=
  b.rawResults decodeResponses (!includeBaseKey) (expResults decodeResponses s)
    (.dict s.data.hgetall)

/-- The names of `_fetch_set_keys`, as they go back to the server. -/
def setNames (server : Keyspace) : List String := server.keys b.globMatch b.listPattern

def plainDumpDataRaw (decodeResponses includeBaseKey : Bool) (server : Keyspace) :
    Option (Dict PyKey PyVal) :=
  b.rawResults decodeResponses (!includeBaseKey) {} (server.mget (b.setNames server))

/-! ## `migrate_schema` -/

section Migrate

variable (recode : ByteArray → Option ByteArray)

/-- The loop of `migrate_schema`: the results, for every key. -/
def migrated (data : Fetched) : Option (List (String × ByteArray)) := do
  (← data.items).mapM fun p => (recode p.2).map fun value => (p.1, value)

/-- In hset mode, after the expiration check. -/
def hsetMigrateSchema (s : HsetStore ByteArray) : Option (HsetStore ByteArray) := do
  let results ← migrated recode (.dict s.data.hgetall)
  let data ← hsetMapping s.data results
  return { s with data }

def plainMigrateSchema (server : Keyspace) : Option Keyspace := do
  let results ← migrated recode (server.mget (b.setNames server))
  server.mset (.dict results)

end Migrate

/-! ## `replicate_from` -/

def hsetReplicateFrom (source s : HsetStore ByteArray) : Option (HsetStore ByteArray) :=
  if source.data.hgetall = [] then some s
  else do
    let data ← hsetMapping s.data source.data.hgetall
    if source.expIndex.hgetall = [] then return { s with data }
    else
      let expIndex ← hsetMapping s.expIndex source.expIndex.hgetall
      return { data, expIndex }

def plainReplicateFrom (source server : Keyspace) : Option Keyspace :=
  let data := source.mget (b.setNames source)
  if data.isTrue then server.mset data else some server

/-! ## What they are for -/

/-- The dump is that of hset mode, but for the deadlines. -/
def DumpsAs (decodeResponses includeBaseKey : Bool) (server : Keyspace) (s : HsetStore ByteArray) :
    Prop :=
  ∃ results, b.plainDumpDataRaw decodeResponses includeBaseKey server = some results ∧
    ∀ results', b.hsetDumpDataRaw decodeResponses includeBaseKey { s with expIndex := ∅ } =
      some results' → ∀ key, results.get? key = results'.get? key

/-- Every value is rewritten under its own key. -/
def MigratesAs (recode : ByteArray → Option ByteArray) (server : Keyspace) : Prop :=
  ∃ server', b.plainMigrateSchema recode server = some server' ∧
    ∀ n, server'.hget n =
      if n ∈ b.setNames server then (server.hget n).bind recode else server.hget n

/-- Every value of the source is added under its own key. -/
def ReplicatesAs (source server : Keyspace) : Prop :=
  ∃ server', b.plainReplicateFrom source server = some server' ∧
    ∀ n, server'.hget n = if n ∈ b.setNames source then source.hget n else server.hget n

end Backend

end Kvdb
