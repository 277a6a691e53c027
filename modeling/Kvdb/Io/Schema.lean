import Kvdb.Io.Objects

/-!
# Schema maps (`io/serializers/utils.py`, `io/serializers/_json.py`)

`deserialize_object` with a schema map, on the JSON values that `serialize_object` writes. A dict
with the key `__type__` is `tagged`; other dicts do not have this key. The map is asked for the
class of the root only: the elements of lists and dicts are deserialized without it.

`Reader C O` is what the code calls to make an object (`O`) of a tagged value: the classes (`C`),
numpy and the readers of the texts. `JsonText` is the JSON library, with the compressor of the
serializer.
-/

namespace Kvdb

/-- The primitives of JSON. -/
inductive JsonAtom
  | null
  | bool (b : Bool)
  | int (n : ℤ)
  | float (x : ℚ)
  | str (s : String)
  deriving DecidableEq

/-- A key of a dict without `__type__`. -/
abbrev FieldName := { k : String // k ≠ "__type__" }

inductive Json
  | atom (a : JsonAtom)
  | list (items : List Json)
  | dict (fields : List (FieldName × Json))
  /-- `__type__`, `__class__` and `value`. -/
  | tagged (type : String) (className : Option String) (value : Json)

/-- What is deserialized. -/
inductive Decoded (O : Type)
  | atom (a : JsonAtom)
  | list (items : List (Decoded O))
  | dict (fields : List (FieldName × Decoded O))
  | object (o : O)

/-- What an import, or a call that imports, comes to. -/
inductive Imported (α : Type)
  | ok (a : α)
  | importError
  /-- Another exception. -/
  | raised

namespace Imported

variable {α β : Type}

def bind (x : Imported α) (f : α → Imported β) : Imported β :=
  match x with
  | .ok a => f a
  | .importError => .importError
  | .raised => .raised

def ofOption : Option α → Imported α
  | some a => .ok a
  | none => .raised

end Imported

structure Reader (C O : Type) where
  getObjectClass : String → Imported C
  /-- `obj_class(**obj_value)`. -/
  callKwargs : C → Json → Imported O
  /-- `obj_class(obj_value)`. -/
  call : C → Json → Option O
  /-- `np.array(obj_value, dtype = dtype)`; it raises without numpy. -/
  array : Option String → Json → Option O
  /-- The types that are read without a class. -/
  read : String → Json → Option O
  /-- `serialize_object` of an object, as the JSON library reads it. -/
  serialize : O → Option Json

/-- `schema_map`. -/
abbrev SchemaMap := String → Option String

/-- `schema_map[name]`, if the map is there and has it. -/
def SchemaMap.resolve (schemaMap : Option SchemaMap) (name : String) : String :=
  (schemaMap.bind fun m => m name).getD name

@[simp] theorem SchemaMap.resolve_none : SchemaMap.resolve none = id := rfl

/-- How the value of a type is read. -/
inductive Reading
  | kwargs
  | array
  | call
  /-- Without a class. -/
  | plain

/-- The types that `deserialize_object` asks for. -/
def Reading.of : String → Option Reading
  | "pydantic" | "dataclass" => some .kwargs
  | "numpy" => some .array
  | "path" | "enum" => some .call
  | "pickle" | "datetime" | "timedelta" | "uuid" | "bytes" | "set" => some .plain
  | _ => none

/-- `dtype.replace("numpy.", "")`. -/
def dtypeOf (className : String) : String :=
  String.ofList (Python.remove "numpy.".toList 0 className.toList)

namespace Reader

variable {C O : Type} (R : Reader C O)

/-- `get_object_class(obj["__class__"])`. -/
def classOf (className : Option String) : Imported C :=
  match className with
  | some name => R.getObjectClass name
  | none => .raised

/-- The object of a tagged value. -/
def build (type : String) (className : Option String) (value : Json) : Imported O :=
  match Reading.of type with
  | some .kwargs => (R.classOf className).bind fun c => R.callKwargs c value
  | some .array => .ofOption (R.array (className.map dtypeOf) value)
  | some .call => (R.classOf className).bind fun c => .ofOption (R.call c value)
  | some .plain => .ofOption (R.read type value)
  | none => .raised

mutual

def deserialize (allowFailedImport : Bool) (schemaMap : Option SchemaMap) :
    Json → Option (Decoded O)
  | .atom a => some (.atom a)
  | .list items => (deserializeItems items).map .list
  | .dict fields => (deserializeFields fields).map .dict
  | .tagged type className value =>
    match R.build type (className.map (SchemaMap.resolve schemaMap)) value with
    | .ok o => some (.object o)
    | .importError =>
      if type = "pydantic" ∧ allowFailedImport then deserialize allowFailedImport schemaMap value
      else none
    | .raised => none

/-- `deserialize_object(item)`, without the map. -/
def deserializeItems : List Json → Option (List (Decoded O))
  | [] => some []
  | x :: items => do
    return (← deserialize false none x) :: (← deserializeItems items)

def deserializeFields : List (FieldName × Json) → Option (List (FieldName × Decoded O))
  | [] => some []
  | (k, x) :: fields => do
    return (k, ← deserialize false none x) :: (← deserializeFields fields)

end

mutual

/-- `serialize_object`. -/
def serializeObject : Decoded O → Option Json
  | .atom a => some (.atom a)
  | .list items => (serializeItems items).map .list
  | .dict fields => (serializeFields fields).map .dict
  | .object o => R.serialize o

def serializeItems : List (Decoded O) → Option (List Json)
  | [] => some []
  | x :: items => do
    return (← serializeObject x) :: (← serializeItems items)

def serializeFields : List (FieldName × Decoded O) → Option (List (FieldName × Json))
  | [] => some []
  | (k, x) :: fields => do
    return (k, ← serializeObject x) :: (← serializeFields fields)

end

end Reader

/-! ## The serializer -/

/-- `loads` and `dumps`. -/
structure JsonText where
  loads : ByteArray → Option Json
  dumps : Json → Option ByteArray
  /-- The text of a response that the session has decoded. -/
  text : ByteArray → Option String
  loads_dumps : ∀ {tree bytes}, dumps tree = some bytes → loads bytes = some tree

namespace JsonText

variable (lib : JsonText) {C O : Type} (R : Reader C O)

/-- The texts of errors, which are no JSON. -/
def isError (s : String) : Prop :=
  "Exception".toList <:+: s.toList ∨ "Traceback (most recent call last):".toList <:+: s.toList

instance (s : String) : Decidable (isError s) := inferInstanceAs (Decidable (_ ∨ _))

/-- `JsonSerializer.decode_value` with `raise_errors`. -/
def decodeValue (allowFailedImport : Bool) (schemaMap : Option SchemaMap) (bytes : ByteArray) :
    Option (Decoded O) :=
  match lib.loads bytes with
  | some tree => R.deserialize allowFailedImport schemaMap tree
  | none =>
    (lib.text bytes).bind fun s => if isError s then some (.atom (.str s)) else none

/-- `JsonSerializer.encode_value`; what is not serialized is not dumped as it is either. -/
def encodeValue (value : Decoded O) : Option ByteArray := (R.serializeObject value).bind lib.dumps

/-- One round of the loop of `migrate_schema`. -/
def recode (allowFailedImport : Bool) (schemaMap : SchemaMap) (bytes : ByteArray) :
    Option ByteArray :=
  (lib.decodeValue R allowFailedImport (some schemaMap) bytes).bind (lib.encodeValue R)

end JsonText

/-! ## Names at every depth -/

namespace Json

variable (m : SchemaMap)

mutual

/-- The names that the map mentions are replaced at every depth. -/
def rename : Json → Json
  | .atom a => .atom a
  | .list items => .list (renameItems items)
  | .dict fields => .dict (renameFields fields)
  | .tagged type className value =>
    .tagged type (className.map (SchemaMap.resolve (some m))) (rename value)

def renameItems : List Json → List Json
  | [] => []
  | x :: items => rename x :: renameItems items

def renameFields : List (FieldName × Json) → List (FieldName × Json)
  | [] => []
  | (k, x) :: fields => (k, rename x) :: renameFields fields

end

mutual

/-- A name is changed, at any depth. -/
def changes : Json → Bool
  | .atom _ => false
  | .list items => changesItems items
  | .dict fields => changesFields fields
  | .tagged _ className value =>
    decide (className.map (SchemaMap.resolve (some m)) ≠ className) || changes value

def changesItems : List Json → Bool
  | [] => false
  | x :: items => changes x || changesItems items

def changesFields : List (FieldName × Json) → Bool
  | [] => false
  | (_, x) :: fields => changes x || changesFields fields

end

/-- The name that is looked up for a type. -/
def lookedUp (type : String) (className : Option String) : Option String :=
  match Reading.of type with
  | some .kwargs | some .call => className
  | some .array => className.map dtypeOf
  | some .plain | none => none

mutual

/-- A name that is looked up is changed, or a name in the value of a tagged one. -/
def alters : Json → Bool
  | .atom _ => false
  | .list items => altersItems items
  | .dict fields => altersFields fields
  | .tagged type className value =>
    decide (lookedUp type (className.map (SchemaMap.resolve (some m))) ≠ lookedUp type className) ||
      changes m value

def altersItems : List Json → Bool
  | [] => false
  | x :: items => alters x || altersItems items

def altersFields : List (FieldName × Json) → Bool
  | [] => false
  | (_, x) :: fields => alters x || altersFields fields

end

/-- The same below the root. -/
def altersBelow : Json → Bool
  | .atom _ => false
  | .list items => altersItems m items
  | .dict fields => altersFields m fields
  | .tagged _ _ value => changes m value

/-- `deserialize_object` knows the type, and has a class where it asks for it. -/
def knows (type : String) (className : Option String) : Bool :=
  match Reading.of type with
  | some .kwargs | some .call => className.isSome
  | some .array | some .plain => true
  | none => false

mutual

/-- No type that is unknown, as `tensor` is, and no class that is missing. -/
def readable : Json → Bool
  | .atom _ => true
  | .list items => readableItems items
  | .dict fields => readableFields fields
  | .tagged type className _ => knows type className

def readableItems : List Json → Bool
  | [] => true
  | x :: items => readable x && readableItems items

def readableFields : List (FieldName × Json) → Bool
  | [] => true
  | (_, x) :: fields => readable x && readableFields fields

end

end Json

end Kvdb
