import Kvdb.Lib.Python
import Kvdb.Lib.Redis

/-!
# Cloning (`_aclone` of `components/persistence.py`)

The copy of the keys of one server to another one, from one key to the next. `copyFields` is the
loop over the fields of a hash, which three of its four branches share, and `hashCopy` chooses the
branch.

Raw values go from session to session as they are. What a session makes of a Python set or list as
one argument (`encodeSet`, `encodeList`; `none` if it refuses it, as one without a serializer does),
the decoding with the schema map (`migrate`) and the patterns of `KEYS` are parameters.
-/

namespace Kvdb

open Redis

variable {R : Type} [DecidableEq R]

/-- The value of a key. -/
inductive Stored (R : Type) [DecidableEq R]
  | string (value : R)
  | hash (fields : Hash String R)
  | set (members : Finset R)
  | list (items : List R)
  | zset (members : ZSet R)

/-- `TYPE`. -/
def Stored.keyType : Stored R → String
  | .string _ => "string"
  | .hash _ => "hash"
  | .set _ => "set"
  | .list _ => "list"
  | .zset _ => "zset"

/-- What comes of `decode` with the schema map and `encode`. -/
inductive Recoded (R : Type)
  | value (v : R)
  /-- `decode` raises. -/
  | undecodable
  /-- `encode` raises. -/
  | unencodable
  deriving DecidableEq

/-- The arguments of `_aclone`. -/
structure CloneConfig (R : Type) [DecidableEq R] where
  source : String → Option (Stored R)
  fromBaseKey : String
  toBaseKey : String
  /-- `None` unless `can_migrate_schema`. -/
  migrate : Option (R → Recoded R) := none
  excluded : List String := []
  /-- `filter_function(key, key_type)`. -/
  filterFunction : Option (String → String → Bool) := none
  hsetKeyFunction : Option (String → String) := none
  raiseErrors : Bool := true
  overwrite : Option Bool := none
  globMatch : String → String → Bool
  encodeSet : Finset R → Option R
  encodeList : List R → Option R

/-- What the copy of one key comes to. -/
inductive CopyEnd
  | completed
  | skipped
  /-- An exception. -/
  | failed
  deriving DecidableEq

/-- The loop over the fields of a hash: the results, and what it adds to the report. -/
structure HashCopy (R : Type) where
  results : List (String × R) := []
  completedHkeys : List String := []
  skippedHkeys : List String := []
  errors : ℕ := 0
  /-- An exception; nothing is written. -/
  failed : Bool := false

/-- The copy of one key: what is stored under the new one, if anything. -/
structure KeyCopy (R : Type) [DecidableEq R] where
  write : Option (Stored R) := none
  fields : HashCopy R := {}
  ending : CopyEnd

/-- The target and the report. -/
structure CloneState (R : Type) [DecidableEq R] where
  target : Hash String (Stored R)
  completed : ℕ := 0
  errors : ℕ := 0
  skipped : ℕ := 0
  completedKeys : List String := []
  completedHkeys : List String := []
  skippedHkeys : List String := []
  /-- An exception has left the function. -/
  raised : Bool := false

namespace CloneConfig

variable (cfg : CloneConfig R)

/-- `key.replace(from_base_key, to_base_key)`. -/
def toKey (key : String) : String :=
  if cfg.fromBaseKey = cfg.toBaseKey then key
  else String.ofList (Python.replace cfg.fromBaseKey.toList cfg.toBaseKey.toList 0 key.toList)

/-- `(key in excluded) or (filter_function and filter_function(key, key_type = …))`. -/
def rejects (key keyType : String) : Bool :=
  key ∈ cfg.excluded || cfg.filterFunction.any fun filter => filter key keyType

/-- `existing_keys`. -/
def existingKeys (target : Hash String (Stored R)) : List String :=
  if cfg.overwrite = some false then
    target.hkeys.filter (cfg.globMatch (cfg.toBaseKey ++ "*")) ++
      target.hkeys.filter (cfg.globMatch ("_exp_:" ++ cfg.toBaseKey ++ "*"))
  else []

/-- `'_exp_:' not in key and can_migrate_schema`. -/
def migrateOf (key : String) : Option (R → Recoded R) :=
  if "_exp_:".toList <:+: key.toList then none else cfg.migrate

/-! ## Hashes -/

/-- The loop over the fields. -/
def copyFields (toKey : String) (skips : String → Bool) (recode : R → Recoded R) :
    List (String × R) → HashCopy R
  | [] => {}
  | (k, v) :: data =>
    if skips k then
      let copy := copyFields toKey skips recode data
      { copy with skippedHkeys := (toKey ++ ":" ++ k) :: copy.skippedHkeys }
    else
      let k := (cfg.hsetKeyFunction.getD id) k
      match recode v with
      | .value v =>
        let copy := copyFields toKey skips recode data
        { copy with
          results := (k, v) :: copy.results
          completedHkeys := (toKey ++ ":" ++ k) :: copy.completedHkeys }
      | .undecodable =>
        if cfg.raiseErrors then { failed := true }
        else
          let copy := copyFields toKey skips recode data
          { copy with errors := copy.errors + 1 }
      | .unencodable => { failed := true }

/-- The test of the loops that ask for the existing fields. -/
def skipsField (existingHkeys : List String) (k : String) : Bool :=
  cfg.rejects k "hash_item" || k ∈ existingHkeys

/-- The branch without a loop. -/
def copiesPlainly (key : String) (existingHkeys : List String) : Prop :=
  (cfg.migrateOf key).isNone ∧ existingHkeys = [] ∧ cfg.filterFunction.isNone ∧
    cfg.hsetKeyFunction.isNone

instance (key : String) (existingHkeys : List String) :
    Decidable (cfg.copiesPlainly key existingHkeys) :=
  inferInstanceAs (Decidable (_ ∧ _ ∧ _ ∧ _))

/-- The four branches. -/
def hashCopy (key : String) (existingHkeys : List String) (data : List (String × R)) : HashCopy R :=
  let toKey := cfg.toKey key
  match cfg.migrateOf key with
  | some recode => cfg.copyFields toKey (cfg.skipsField existingHkeys) recode data
  | none =>
    if existingHkeys ≠ [] then cfg.copyFields toKey (cfg.skipsField existingHkeys) .value data
    else if cfg.filterFunction.isSome ∨ cfg.hsetKeyFunction.isSome then
      cfg.copyFields toKey (fun k => cfg.rejects k "hash_item") .value data
    else { results := data, completedHkeys := data.map fun p => toKey ++ ":" ++ p.1 }

/-- `HKEYS` of the new key unless `overwrite`; another type of value is refused. -/
def existingHkeys : Option (Stored R) → Option (List String)
  | none => some []
  | some (.hash fields) => if cfg.overwrite = some true then some [] else some fields.hkeys
  | some _ => if cfg.overwrite = some true then some [] else none

/-- `HMSET`. -/
def hmset (results : List (String × R)) : Option (Stored R) → Option (Stored R)
  | none => some (.hash (Hash.hsetAll ∅ results))
  | some (.hash fields) => some (.hash (fields.hsetAll results))
  | some _ => none

/-- The copy of a hash; `old` is the value of the new key. -/
def copyHash (key : String) (data : Hash String R) (old : Option (Stored R)) : KeyCopy R :=
  match cfg.existingHkeys old with
  | none => { ending := .failed }
  | some existing =>
    let fields := cfg.hashCopy key existing data.hgetall
    if fields.failed then { fields, ending := .failed }
    else if fields.results = [] then { fields, ending := .completed }
    else
      match hmset fields.results old with
      | some write => { write := some write, fields, ending := .completed }
      -- the last branch reports its fields after the command
      | none =>
        { fields := if cfg.copiesPlainly key existing then {} else fields, ending := .failed }

/-! ## All types -/

/-- `SADD` of one member. -/
def sadd (member : R) : Option (Stored R) → Option (Stored R)
  | none => some (.set {member})
  | some (.set members) => some (.set (insert member members))
  | some _ => none

/-- `RPUSH` of one item. -/
def rpush (item : R) : Option (Stored R) → Option (Stored R)
  | none => some (.list [item])
  | some (.list items) => some (.list (items ++ [item]))
  | some _ => none

/-- A command that is refused raises. -/
def commandCopy (write : Option (Stored R)) : KeyCopy R :=
  match write with
  | some write => { write := some write, ending := .completed }
  | none => { ending := .failed }

/-- The copy of one key; `old` is the value of the new key. -/
def copyKey (existing : List String) (key : String) (old : Option (Stored R)) :
    Option (Stored R) → KeyCopy R
  | some (.string v) =>
    if cfg.toKey key ∈ existing then { ending := .skipped }
    else
      match cfg.migrateOf key with
      | some recode =>
        match recode v with
        | .value v => { write := some (.string v), ending := .completed }
        -- `errors += 1` without an exception, which has the same effect
        | .undecodable | .unencodable => { ending := .failed }
      | none => { write := some (.string v), ending := .completed }
  | some (.hash data) => cfg.copyHash key data old
  | some (.set members) =>
    if key ∈ existing then { ending := .skipped }
    else commandCopy ((cfg.encodeSet members).bind fun member => sadd member old)
  | some (.list items) =>
    if key ∈ existing then { ending := .skipped }
    else commandCopy ((cfg.encodeList items).bind fun item => rpush item old)
  -- `azadd(to_key, k, v)`: a member is no mapping
  | some (.zset _) => if key ∈ existing then { ending := .skipped } else { ending := .failed }
  | none => { ending := .completed }

/-- One round of the loop over `from_keys`. -/
def cloneKey (existing : List String) (st : CloneState R) (key : String) : CloneState R :=
  let stored := cfg.source key
  let keyType := stored.elim "none" Stored.keyType
  let toKey := cfg.toKey key
  if cfg.rejects key keyType || cfg.rejects toKey keyType then
    { st with skipped := st.skipped + 1 }
  else
    let copy := cfg.copyKey existing key (st.target.hget toKey) stored
    let st := { st with
      target := copy.write.elim st.target (st.target.hset toKey)
      completedHkeys := st.completedHkeys ++ copy.fields.completedHkeys
      skippedHkeys := st.skippedHkeys ++ copy.fields.skippedHkeys
      errors := st.errors + copy.fields.errors }
    match copy.ending with
    | .completed =>
      { st with completed := st.completed + 1, completedKeys := st.completedKeys ++ [key] }
    | .skipped => { st with skipped := st.skipped + 1 }
    | .failed =>
      if cfg.raiseErrors then { st with raised := true } else { st with errors := st.errors + 1 }

/-- `_aclone`. -/
def aclone (target : Hash String (Stored R)) (fromKeys : List String) : CloneState R :=
  fromKeys.foldl
    (fun st key => if st.raised then st else cfg.cloneKey (cfg.existingKeys target) st key)
    { target }

end CloneConfig

end Kvdb
