import Kvdb.Io.Schema

/-!
# Two models of `deserialize_object`

Without a schema map `Reader.deserialize` is `Runtime.deserializeObject`: `Json.toObj` gives the
dict of a tagged value, and `Runtime.reader` reads with the classes of a `Runtime`, where every
failure is the same (`deserialize_reader`).
-/

namespace Kvdb

variable {C : Type}

namespace JsonAtom

def toObj : JsonAtom → Obj C
  | .null => .none
  | .bool b => .bool b
  | .int n => .int n
  | .float x => .float x
  | .str s => .str s

end JsonAtom

namespace Json

/-- The dict of a tagged value. -/
def tagFields (type : String) (className : Option String) (value : Obj C) :
    List (String × Obj C) :=
  ("__type__", .str type) :: (className.map fun c => ("__class__", .str c)).toList ++
    [("value", value)]

mutual

/-- What the code sees. -/
def toObj : Json → Obj C
  | .atom a => a.toObj
  | .list items => .list (itemsToObj items)
  | .dict fields => .dict (fieldsToObj fields)
  | .tagged type className value => .dict (tagFields type className (toObj value))

def itemsToObj : List Json → List (Obj C)
  | [] => []
  | x :: items => toObj x :: itemsToObj items

def fieldsToObj : List (FieldName × Json) → List (String × Obj C)
  | [] => []
  | (k, x) :: fields => (k.1, toObj x) :: fieldsToObj fields

end

end Json

namespace Decoded

mutual

def toObj : Decoded (Obj C) → Obj C
  | .atom a => a.toObj
  | .list items => .list (itemsToObj items)
  | .dict fields => .dict (fieldsToObj fields)
  | .object o => o

def itemsToObj : List (Decoded (Obj C)) → List (Obj C)
  | [] => []
  | x :: items => toObj x :: itemsToObj items

def fieldsToObj : List (FieldName × Decoded (Obj C)) → List (String × Obj C)
  | [] => []
  | (k, x) :: fields => (k.1, toObj x) :: fieldsToObj fields

end

end Decoded

/-- The classes of a runtime. It has no numpy, and it is for reading only. -/
def Runtime.reader (R : Runtime C) (reg : ClassRegistry C) : Reader C (Obj C) where
  getObjectClass name := .ofOption (R.getObjectClass reg name)
  callKwargs c value :=
    match value.toObj with
    | .dict kwargs => .ofOption (R.callKwargs c kwargs)
    | _ => .raised
  call c value := R.call c value.toObj
  array _ _ := none
  read type value := R.rebuild reg (Json.tagFields type none value.toObj) type
  serialize _ := none

/-! ## Dicts -/

namespace Json

theorem hasType_fieldsToObj (fields : List (FieldName × Json)) :
    Obj.hasType (fieldsToObj fields : List (String × Obj C)) = false := by
  induction fields with
  | nil => rfl
  | cons p fields ih =>
    obtain ⟨k, x⟩ := p
    simp only [Obj.hasType] at ih ⊢
    simp [fieldsToObj, k.2, ih]

theorem hasType_tagFields (type : String) (className : Option String) (value : Obj C) :
    Obj.hasType (tagFields type className value) = true := rfl

theorem get_tagFields_type (type : String) (className : Option String) (value : Obj C) :
    Obj.get (tagFields type className value) "__type__" = some (.str type) := rfl

theorem get_tagFields_class (type : String) (className : Option String) (value : Obj C) :
    Obj.get (tagFields type className value) "__class__" = className.map .str := by
  cases className <;> simp [tagFields, Obj.get, List.lookup_cons]

theorem get_tagFields_value (type : String) (className : Option String) (value : Obj C) :
    Obj.get (tagFields type className value) "value" = some value := by
  cases className <;> simp [tagFields, Obj.get, List.lookup_cons]

end Json

/-! ## Tagged values -/

namespace Runtime

open Json

variable (R : Runtime C) (reg : ClassRegistry C) (type : String) (className : Option String)
  (value : Json)

theorem reader_kwargs :
    ((R.reader reg).classOf className).bind (fun c => (R.reader reg).callKwargs c value) =
      .ofOption (R.construct reg (tagFields type className value.toObj) "pydantic") := by
  simp only [construct, get_tagFields_class, get_tagFields_value]
  cases className with
  | none => rfl
  | some name =>
    simp only [Reader.classOf, reader, Option.map_some, Option.bind_eq_bind, Option.bind_some,
      Obj.text]
    cases R.getObjectClass reg name with
    | none => rfl
    | some c =>
      simp only [Imported.ofOption, Imported.bind, Option.bind_some]
      cases (value.toObj : Obj C) <;> rfl

theorem reader_call :
    ((R.reader reg).classOf className).bind (fun c => .ofOption ((R.reader reg).call c value)) =
      .ofOption (R.construct reg (tagFields type className value.toObj) "enum") := by
  simp only [construct, get_tagFields_class, get_tagFields_value]
  cases className with
  | none => rfl
  | some name =>
    simp only [Reader.classOf, reader, Option.map_some, Option.bind_eq_bind, Option.bind_some,
      Obj.text]
    cases R.getObjectClass reg name with
    | none => rfl
    | some c => rfl

variable {type}

theorem rebuild_kwargs (h : Reading.of type = some .kwargs) (items : List (String × Obj C)) :
    R.rebuild reg items type = R.construct reg items "pydantic" := by
  unfold Reading.of at h
  split at h <;> first | rfl | cases h

theorem rebuild_call (h : Reading.of type = some .call) (items : List (String × Obj C)) :
    R.rebuild reg items type = R.construct reg items "enum" := by
  unfold Reading.of at h
  split at h <;> first | rfl | cases h

theorem rebuild_array (h : Reading.of type = some .array) (items : List (String × Obj C)) :
    R.rebuild reg items type = none := by
  unfold Reading.of at h
  split at h <;> first | rfl | cases h

/-- The class is not asked for. -/
theorem rebuild_plain (h : Reading.of type = some .plain) :
    R.rebuild reg (tagFields type className value.toObj) type =
      R.rebuild reg (tagFields type none value.toObj) type := by
  unfold Reading.of at h
  split at h <;> cases h <;> cases className <;> rfl

theorem rebuild_unknown (h : Reading.of type = none) (items : List (String × Obj C)) :
    R.rebuild reg items type = none := by
  unfold Reading.of at h
  split at h <;> cases h
  simp [rebuild, construct]

/-- A tagged value is read as its dict. -/
theorem reader_build (type : String) :
    (R.reader reg).build type className value =
      .ofOption (R.rebuild reg (tagFields type className value.toObj) type) := by
  unfold Reader.build
  cases hreading : Reading.of type with
  | none =>
    rw [R.rebuild_unknown reg hreading]
    rfl
  | some reading =>
    cases reading with
    | kwargs => rw [R.rebuild_kwargs reg hreading, ← R.reader_kwargs]
    | array =>
      rw [R.rebuild_array reg hreading]
      rfl
    | call => rw [R.rebuild_call reg hreading, ← R.reader_call]
    | plain =>
      rw [R.rebuild_plain reg className value hreading]
      rfl

/-! ## Trees -/

mutual

/-- **Without a map** the two models do the same. -/
theorem deserialize_reader (allow : Bool) : ∀ t : Json,
    ((R.reader reg).deserialize allow none t).map Decoded.toObj = R.deserializeObject reg t.toObj
  | .atom a => by cases a <;> rfl
  | .list items => by
    rw [Reader.deserialize, Option.map_map, toObj, deserializeObject,
      ← deserializeItems_reader items, Option.map_map]
    rfl
  | .dict fields => by
    rw [Reader.deserialize, Option.map_map, toObj, deserializeObject, hasType_fieldsToObj,
      if_neg Bool.false_ne_true, ← deserializeFields_reader fields, Option.map_map]
    rfl
  | .tagged type className value => by
    rw [toObj, deserializeObject, hasType_tagFields, if_pos rfl, get_tagFields_type]
    simp only [Reader.deserialize, SchemaMap.resolve_none, Option.map_id_fun, id,
      R.reader_build reg className value type, Option.bind_some, Obj.text]
    cases R.rebuild reg (tagFields type className value.toObj) type <;> rfl

theorem deserializeItems_reader : ∀ items : List Json,
    ((R.reader reg).deserializeItems items).map Decoded.itemsToObj =
      R.deserializeList reg (itemsToObj items)
  | [] => rfl
  | x :: items => by
    rw [itemsToObj, deserializeList, ← deserialize_reader false x, ← deserializeItems_reader items,
      Reader.deserializeItems]
    cases (R.reader reg).deserialize false none x with
    | none => rfl
    | some v => cases (R.reader reg).deserializeItems items <;> rfl

theorem deserializeFields_reader : ∀ fields : List (FieldName × Json),
    ((R.reader reg).deserializeFields fields).map Decoded.fieldsToObj =
      R.deserializeItems reg (fieldsToObj fields)
  | [] => rfl
  | (k, x) :: fields => by
    rw [fieldsToObj, deserializeItems, ← deserialize_reader false x,
      ← deserializeFields_reader fields, Reader.deserializeFields]
    cases (R.reader reg).deserialize false none x with
    | none => rfl
    | some v => cases (R.reader reg).deserializeFields fields <;> rfl

end

end Runtime

end Kvdb
