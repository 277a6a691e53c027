import Kvdb.Lib.Double
import Kvdb.Lib.Machine
import Kvdb.Lib.Python

/-!
# Objects as JSON (`io/serializers/utils.py`)

`serializeObject` and `deserializeObject`, on the objects that are not pickled, and not instances of
a model, a dataclass, a path or an array. `Obj C` are these objects, `C` the classes: a datetime, a
date, a time and a UUID are given by their text, a timedelta by its microseconds, an Enum member by
its class and its value. `mixin` is an Enum member that is also an instance of a type which is tested
before `Enum`. The text of a datetime has its UTC offset but not its zone: two datetimes of different
zones are equal only if neither offset depends on `fold`, as it does in an hour that the zone repeats
or skips.

`Runtime C` is what the code calls: the classes, `pickle.loads`, and the readers of the texts.
`JsonLib C` dumps and loads: `none` is an exception, or an object that is none of these.
-/

namespace Kvdb

inductive Obj (C : Type)
  | none
  | bool (b : Bool)
  | int (n : ℤ)
  | float (x : ℚ)
  | str (s : String)
  | bytes (bs : List UInt8)
  | list (xs : List (Obj C))
  | dict (items : List (String × Obj C))
  /-- `folds`: the UTC offset depends on `fold`. -/
  | datetime (isoformat : String) (folds : Bool)
  | date (isoformat : String)
  | time (isoformat : String)
  | timedelta (microseconds : ℤ)
  | set (xs : List (Obj C))
  | uuid (text : String)
  | enum (c : C) (value : Obj C)
  | mixin (c : C) (base : Obj C)

/-- `serialization_class_registry`. -/
abbrev ClassRegistry (C : Type) := String → Option C

structure Runtime (C : Type) where
  /-- `get_object_classname`: module and name. -/
  className : C → String
  lazyImport : String → Option C
  /-- `obj_class(obj_value)`. -/
  call : C → Obj C → Option (Obj C)
  /-- `obj_class(**obj_value)`. -/
  callKwargs : C → List (String × Obj C) → Option (Obj C)
  /-- `default_pickle.loads`. -/
  loads : List UInt8 → Option (Obj C)
  /-- `datetime.fromisoformat`. -/
  fromIsoformat : String → Option String
  /-- `UUID`. -/
  uuid : String → Option String

namespace Obj

variable {C : Type}

/-- A JSON value that is no list and no dict. -/
def isAtom : Obj C → Bool
  | .none | .bool _ | .int _ | .float _ | .str _ => true
  | _ => false

/-- An element of a set: equal numbers are the same element. -/
inductive Key
  | none
  | number (x : ℚ)
  | str (s : String)
  deriving DecidableEq

def key : Obj C → Option Key
  | .none => some .none
  | .bool b => some (.number (if b then 1 else 0))
  | .int n => some (.number n)
  | .float x => some (.number x)
  | .str s => some (.str s)
  | _ => Option.none

/-- The first of each of the elements that are the same. -/
def distinct : List (Obj C) → List (Obj C)
  | [] => []
  | x :: xs => x :: (distinct xs).filter fun y => y.key ≠ x.key

/-- `set(xs)`; a list or dict is not hashable. -/
def setOf (xs : List (Obj C)) : Option (Obj C) :=
  if xs.all fun x => x.key.isSome then some (.set (distinct xs)) else Option.none

/-- What an object iterates over. -/
def iterate : Obj C → Option (List (Obj C))
  | .list xs | .set xs => some xs
  | .str s => some (s.toList.map fun c => .str c.toString)
  | .dict items => some (items.map fun p => .str p.1)
  | _ => Option.none

def number : Obj C → Option ℚ
  | .bool b => some (if b then 1 else 0)
  | .int n => some n
  | .float x => some x
  | _ => Option.none

def text : Obj C → Option String
  | .str s => some s
  | _ => Option.none

/-- `__type__` is a key. -/
def hasType (items : List (String × Obj C)) : Bool := items.any fun p => p.1 = "__type__"

/-- `obj[k]`. -/
def get (items : List (String × Obj C)) (k : String) : Option (Obj C) := items.lookup k

end Obj

/-! ## Timedeltas -/

/-- `total_seconds()`. -/
def totalSeconds (microseconds : ℤ) : ℚ := Lib.toDouble (microseconds / 1000000)

/-- The microseconds of `timedelta.max`, and of the days of `timedelta.min`. -/
def timedeltaMax : ℤ := 86399999999999999999

def timedeltaMin : ℤ := -86399999913600000000

/-- `timedelta(seconds = x)`; `none` is an `OverflowError`. -/
def ofSeconds (x : ℚ) : Option ℤ :=
  let microseconds := Lib.roundHalfEven (x * 1000000)
  if timedeltaMin ≤ microseconds ∧ microseconds ≤ timedeltaMax then some microseconds else none

/-! ## `serialize_object` -/

namespace Runtime

variable {C : Type} (R : Runtime C)

/-- `register_object_class`. -/
def registerObjectClass (reg : ClassRegistry C) (c : C) : ClassRegistry C :=
  if (reg (R.className c)).isSome then reg else Function.update reg (R.className c) (some c)

/-- The dict with a type and a value. -/
def tagged (type : String) (value : Obj C) : Obj C :=
  .dict [("__type__", .str type), ("value", value)]

/-- The branches for primitives, and for objects whose class is not named. -/
def serializeLeaf : Obj C → Obj C
  | .datetime s _ | .date s | .time s => tagged "datetime" (.str s)
  | .timedelta us => tagged "timedelta" (.float (totalSeconds us))
  | .bytes bs => tagged "bytes" (.str (String.ofList (Python.hex bs)))
  | .set xs => tagged "set" (.list xs)
  | .uuid s => tagged "uuid" (.str s)
  | obj => obj

mutual

def serializeObject (reg : ClassRegistry C) : Obj C → ClassRegistry C × Obj C
  | .list xs =>
    let p := serializeList reg xs
    (p.1, .list p.2)
  | .dict items =>
    if Obj.hasType items then (reg, .dict items)
    else
      let p := serializeItems reg items
      (p.1, .dict p.2)
  | .enum c value =>
    (R.registerObjectClass reg c,
      .dict [("__type__", .str "enum"), ("__class__", .str (R.className c)), ("value", value)])
  -- the tests see the base of a mixin; a primitive is returned as it is
  | .mixin c base => (reg, if base.isAtom then .mixin c base else serializeLeaf base)
  | obj => (reg, serializeLeaf obj)

def serializeList (reg : ClassRegistry C) : List (Obj C) → ClassRegistry C × List (Obj C)
  | [] => (reg, [])
  | x :: xs =>
    let p := serializeObject reg x
    let q := serializeList p.1 xs
    (q.1, p.2 :: q.2)

def serializeItems (reg : ClassRegistry C) :
    List (String × Obj C) → ClassRegistry C × List (String × Obj C)
  | [] => (reg, [])
  | (k, v) :: items =>
    let p := serializeObject reg v
    let q := serializeItems p.1 items
    (q.1, (k, p.2) :: q.2)

end

/-! ## `deserialize_object` -/

/-- `get_object_class`. -/
def getObjectClass (reg : ClassRegistry C) (name : String) : Option C :=
  (reg name).or (R.lazyImport name)

/-- The types that are read by a class or by pickle. -/
def construct (reg : ClassRegistry C) (items : List (String × Obj C)) : String → Option (Obj C)
  | "pydantic" | "dataclass" => do
    let c ← R.getObjectClass reg (← (← Obj.get items "__class__").text)
    match ← Obj.get items "value" with
    | .dict kwargs => R.callKwargs c kwargs
    | _ => none
  | "path" | "enum" => do
    let c ← R.getObjectClass reg (← (← Obj.get items "__class__").text)
    R.call c (← Obj.get items "value")
  | "pickle" => do
    R.loads (← Python.fromHex (← (← Obj.get items "value").text).toList)
  | _ => none

/-- A dict with a type. -/
def rebuild (reg : ClassRegistry C) (items : List (String × Obj C)) : String → Option (Obj C)
  -- the offset of the text is a fixed one
  | "datetime" => do
    return .datetime (← R.fromIsoformat (← (← Obj.get items "value").text)) false
  | "timedelta" => do
    return .timedelta (← ofSeconds (← (← Obj.get items "value").number))
  | "uuid" => do
    return .uuid (← R.uuid (← (← Obj.get items "value").text))
  | "bytes" => do
    return .bytes (← Python.fromHex (← (← Obj.get items "value").text).toList)
  | "set" => do
    Obj.setOf (← (← Obj.get items "value").iterate)
  -- "numpy" makes an array
  | type => R.construct reg items type

mutual

def deserializeObject (reg : ClassRegistry C) : Obj C → Option (Obj C)
  | .list xs => (deserializeList reg xs).map .list
  | .dict items =>
    if Obj.hasType items then
      (Obj.get items "__type__").bind fun type => type.text.bind (R.rebuild reg items)
    else (deserializeItems reg items).map .dict
  | obj => some obj

def deserializeList (reg : ClassRegistry C) : List (Obj C) → Option (List (Obj C))
  | [] => some []
  | x :: xs => do
    return (← deserializeObject reg x) :: (← deserializeList reg xs)

def deserializeItems (reg : ClassRegistry C) :
    List (String × Obj C) → Option (List (String × Obj C))
  | [] => some []
  | (k, v) :: items => do
    return (k, ← deserializeObject reg v) :: (← deserializeItems reg items)

end

end Runtime

/-! ## The JSON library -/

/-- JSON values come back from `loads(dumps(obj))`. -/
structure JsonLib (C : Type) where
  /-- What comes back for an object that is no JSON value. -/
  other : Obj C → Option (Obj C)
  /-- A subclass of a primitive is written as a primitive. -/
  isAtom_mixin : ∀ {c base obj}, other (.mixin c base) = some obj → obj.isAtom = true

namespace JsonLib

variable {C : Type} (J : JsonLib C)

mutual

def reload : Obj C → Option (Obj C)
  | .none => some .none
  | .bool b => some (.bool b)
  | .int n => some (.int n)
  | .float x => some (.float x)
  | .str s => some (.str s)
  | .list xs => (reloadList xs).map .list
  | .dict items => (reloadItems items).map .dict
  | obj => J.other obj

def reloadList : List (Obj C) → Option (List (Obj C))
  | [] => some []
  | x :: xs => do
    return (← reload x) :: (← reloadList xs)

def reloadItems : List (String × Obj C) → Option (List (String × Obj C))
  | [] => some []
  | (k, v) :: items => do
    return (k, ← reload v) :: (← reloadItems items)

end

end JsonLib

namespace Runtime

variable {C : Type} (R : Runtime C) (J : JsonLib C)

/-- An object is serialized, dumped, loaded and deserialized. -/
def roundTrip (reg : ClassRegistry C) (obj : Obj C) : Option (Obj C) :=
  let p := R.serializeObject reg obj
  (J.reload p.2).bind (R.deserializeObject p.1)

end Runtime

/-! ## What comes back -/

namespace Obj

variable {C : Type}

mutual

/-- The objects at which `serialize_object` calls itself. -/
def parts : Obj C → List (Obj C)
  | .list xs => .list xs :: partsList xs
  | .dict items => .dict items :: if hasType items then [] else partsItems items
  | obj => [obj]

def partsList : List (Obj C) → List (Obj C)
  | [] => []
  | x :: xs => parts x ++ partsList xs

def partsItems : List (String × Obj C) → List (Obj C)
  | [] => []
  | (_, v) :: items => parts v ++ partsItems items

end

/-- The class that is registered. -/
def enumClass : Obj C → Option C
  | .enum c _ => some c
  | _ => Option.none

/-- The types that an Enum class can have as a base, and that are tested before `Enum`. -/
def isBase : Obj C → Bool
  | .int _ | .float _ | .str _ | .bytes _ | .datetime .. | .date _ | .time _ | .timedelta _ => true
  | _ => false

end Obj

namespace Runtime

variable {C : Type} (R : Runtime C) (J : JsonLib C)

/-- The texts are those of a datetime and of a UUID, the elements of a set are distinct, a class gives
the member of a value, and a mixin has a base. -/
def IsObject : Obj C → Prop
  | .datetime s _ => R.fromIsoformat s = some s
  | .uuid s => R.uuid s = some s
  | .set xs => (xs.filterMap Obj.key).Nodup
  | .enum c value => R.call c value = some (.enum c value)
  | .mixin _ base => base.isBase = true
  | _ => True

/-- All parts are objects of Python. -/
def Built (obj : Obj C) : Prop := ∀ x ∈ obj.parts, R.IsObject x

/-- The classes by name after an object was serialized: the first one of a name stays. -/
def registered (reg : ClassRegistry C) (obj : Obj C) : ClassRegistry C :=
  (obj.parts.filterMap Obj.enumClass).foldl R.registerObjectClass reg

/-- The object comes back. For a dict with a type: the class or the pickle that it names happens to
make that very dict. For an Enum member: the class of that name gives it for its value as reloaded. -/
def Survives (reg : ClassRegistry C) : Obj C → Prop
  | .date _ | .time _ | .mixin .. => False
  | .datetime _ folds => folds = false
  | .timedelta us => ofSeconds (totalSeconds us) = some us
  | .set xs => ∀ x ∈ xs, x.isAtom = true
  | .dict items =>
    Obj.hasType items = true →
      ∃ loaded type, J.reloadItems items = some loaded ∧
        Obj.get loaded "__type__" = some (.str type) ∧
        R.construct reg loaded type = some (.dict items)
  | .enum c value =>
    ∃ c' loaded, R.getObjectClass reg (R.className c) = some c' ∧ J.reload value = some loaded ∧
      R.call c' loaded = some (.enum c value)
  | _ => True

end Runtime

end Kvdb
