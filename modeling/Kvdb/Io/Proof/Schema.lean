import Kvdb.Io.Schema

/-!
# What a schema map reaches

`Json.resolves_iff`: `deserialize_object` with a map does what it does without a map on the renamed
tree, whatever the classes are, if and only if the map changes no name below the root. One direction
is by recursion on the tree; for the other one, `namesReader` makes objects that tell which class
they have been asked of.
-/

namespace Kvdb

/-- The head and the tail of a list that is read. -/
theorem cons_eq_some {α : Type} {x : Option α} {xs : Option (List α)} {ys : List α} :
    (do return (← x) :: (← xs)) = some ys ↔ ∃ v vs, x = some v ∧ xs = some vs ∧ ys = v :: vs := by
  cases x <;> cases xs <;> simp [eq_comm]

/-- The same for the fields of a dict. -/
theorem field_eq_some {κ α : Type} {k : κ} {x : Option α} {xs : Option (List (κ × α))}
    {ys : List (κ × α)} :
    (do return (k, ← x) :: (← xs)) = some ys ↔
      ∃ v vs, x = some v ∧ xs = some vs ∧ ys = (k, v) :: vs := by
  cases x <;> cases xs <;> simp [eq_comm]

/-! ## Names -/

namespace Json

variable {m : SchemaMap}

mutual

theorem rename_eq_self : ∀ {t : Json}, t.changes m = false → t.rename m = t
  | .atom _, _ => rfl
  | .list items, h => by rw [rename, renameItems_eq_self (by simpa [changes] using h)]
  | .dict fields, h => by rw [rename, renameFields_eq_self (by simpa [changes] using h)]
  | .tagged type className value, h => by
    simp only [changes, Bool.or_eq_false_iff, decide_eq_false_iff_not, not_not] at h
    rw [rename, h.1, rename_eq_self h.2]

theorem renameItems_eq_self : ∀ {items : List Json}, changesItems m items = false →
    renameItems m items = items
  | [], _ => rfl
  | x :: items, h => by
    simp only [changesItems, Bool.or_eq_false_iff] at h
    rw [renameItems, rename_eq_self h.1, renameItems_eq_self h.2]

theorem renameFields_eq_self : ∀ {fields : List (FieldName × Json)},
    changesFields m fields = false → renameFields m fields = fields
  | [], _ => rfl
  | (k, x) :: fields, h => by
    simp only [changesFields, Bool.or_eq_false_iff] at h
    rw [renameFields, rename_eq_self h.1, renameFields_eq_self h.2]

end

mutual

theorem changes_eq_false : ∀ {t : Json}, t.rename m = t → t.changes m = false
  | .atom _, _ => rfl
  | .list items, h => by
    rw [rename, Json.list.injEq] at h
    exact changesItems_eq_false h
  | .dict fields, h => by
    rw [rename, Json.dict.injEq] at h
    exact changesFields_eq_false h
  | .tagged type className value, h => by
    rw [rename, Json.tagged.injEq] at h
    simp [changes, h.2.1, changes_eq_false h.2.2]

theorem changesItems_eq_false : ∀ {items : List Json}, renameItems m items = items →
    changesItems m items = false
  | [], _ => rfl
  | x :: items, h => by
    rw [renameItems, List.cons.injEq] at h
    rw [changesItems, changes_eq_false h.1, changesItems_eq_false h.2]
    rfl

theorem changesFields_eq_false : ∀ {fields : List (FieldName × Json)},
    renameFields m fields = fields → changesFields m fields = false
  | [], _ => rfl
  | (k, x) :: fields, h => by
    rw [renameFields, List.cons.injEq, Prod.mk.injEq] at h
    rw [changesFields, changes_eq_false h.1.2, changesFields_eq_false h.2]
    rfl

end

mutual

theorem readable_rename : ∀ t : Json, (t.rename m).readable = t.readable
  | .atom _ => rfl
  | .list items => readableItems_rename items
  | .dict fields => readableFields_rename fields
  | .tagged type className _ => by
    simp only [rename, readable, knows, Option.isSome_map]

theorem readableItems_rename : ∀ items : List Json,
    readableItems (renameItems m items) = readableItems items
  | [] => rfl
  | x :: items => by
    rw [renameItems, readableItems, readable_rename x, readableItems_rename items, readableItems]

theorem readableFields_rename : ∀ fields : List (FieldName × Json),
    readableFields (renameFields m fields) = readableFields fields
  | [] => rfl
  | (_, x) :: fields => by
    rw [renameFields, readableFields, readable_rename x, readableFields_rename fields,
      readableFields]

end

end Json

namespace Reader

open Json

variable {C O : Type} (R : Reader C O) {m : SchemaMap}

/-! ## With and without the map -/

/-- The object depends on the name that is looked up only. -/
theorem build_congr {type : String} {className className' : Option String} (value : Json)
    (h : lookedUp type className = lookedUp type className') :
    R.build type className value = R.build type className' value := by
  unfold lookedUp at h
  unfold build
  cases hreading : Reading.of type with
  | none => rfl
  | some reading =>
    rw [hreading] at h
    cases reading with
    | kwargs | array | call => simp only [h]
    | plain => rfl

/-- A type that is not known, or that lacks its class, raises. -/
theorem build_of_not_knows {type : String} {className : Option String} (value : Json)
    (h : knows type className = false) : R.build type className value = .raised := by
  unfold knows at h
  unfold build
  cases hreading : Reading.of type with
  | none => rfl
  | some reading =>
    rw [hreading] at h
    cases reading with
    | kwargs | call =>
      rw [Option.isSome_eq_false_iff, Option.isNone_iff_eq_none] at h
      rw [h]
      rfl
    | array | plain => cases h

mutual

/-- What cannot be read raises. -/
theorem deserialize_of_not_readable : ∀ {t : Json} (allow : Bool) (schemaMap : Option SchemaMap),
    t.readable = false → R.deserialize allow schemaMap t = none
  | .atom _, _, _, h => by cases h
  | .list items, _, _, h => by
    rw [deserialize, deserializeItems_of_not_readable h]
    rfl
  | .dict fields, _, _, h => by
    rw [deserialize, deserializeFields_of_not_readable h]
    rfl
  | .tagged type className value, _, schemaMap, h => by
    rw [readable] at h
    have hknows : knows type (className.map (SchemaMap.resolve schemaMap)) = false := by
      simpa only [knows, Option.isSome_map] using h
    simp only [deserialize, R.build_of_not_knows value hknows]

theorem deserializeItems_of_not_readable : ∀ {items : List Json}, readableItems items = false →
    R.deserializeItems items = none
  | x :: items, h => by
    rw [deserializeItems]
    cases hx : x.readable with
    | false => simp [deserialize_of_not_readable false none hx]
    | true =>
      have hitems : readableItems items = false := by simpa [readableItems, hx] using h
      simp [deserializeItems_of_not_readable hitems]

theorem deserializeFields_of_not_readable : ∀ {fields : List (FieldName × Json)},
    readableFields fields = false → R.deserializeFields fields = none
  | (_, x) :: fields, h => by
    rw [deserializeFields]
    cases hx : x.readable with
    | false => simp [deserialize_of_not_readable false none hx]
    | true =>
      have hfields : readableFields fields = false := by simpa [readableFields, hx] using h
      simp [deserializeFields_of_not_readable hfields]

end

/-- Where no name is changed, the map does nothing. -/
theorem deserialize_of_not_changes (allow : Bool) : ∀ {t : Json}, t.changes m = false →
    R.deserialize allow (some m) t = R.deserialize allow none t
  | .atom _, _ => rfl
  | .list _, _ => by simp only [deserialize]
  | .dict _, _ => by simp only [deserialize]
  | .tagged type className value, h => by
    simp only [changes, Bool.or_eq_false_iff, decide_eq_false_iff_not, not_not] at h
    rw [deserialize, deserialize, h.1, SchemaMap.resolve_none, Option.map_id_fun, id,
      deserialize_of_not_changes allow h.2]

mutual

/-- Where no name is altered, a tree and the renamed one are the same. -/
theorem deserialize_rename (allow : Bool) : ∀ {t : Json}, t.alters m = false →
    R.deserialize allow none (t.rename m) = R.deserialize allow none t
  | .atom _, _ => rfl
  | .list items, h => by
    rw [rename, deserialize, deserialize, deserializeItems_rename h]
  | .dict fields, h => by
    rw [rename, deserialize, deserialize, deserializeFields_rename h]
  | .tagged type className value, h => by
    simp only [alters, Bool.or_eq_false_iff, decide_eq_false_iff_not, not_not] at h
    rw [rename, rename_eq_self h.2, deserialize, deserialize]
    simp only [SchemaMap.resolve_none, Option.map_id_fun, id]
    rw [R.build_congr value h.1]

theorem deserializeItems_rename : ∀ {items : List Json}, altersItems m items = false →
    R.deserializeItems (renameItems m items) = R.deserializeItems items
  | [], _ => rfl
  | x :: items, h => by
    simp only [altersItems, Bool.or_eq_false_iff] at h
    rw [renameItems, deserializeItems, deserializeItems, deserialize_rename false h.1,
      deserializeItems_rename h.2]

theorem deserializeFields_rename : ∀ {fields : List (FieldName × Json)},
    altersFields m fields = false →
      R.deserializeFields (renameFields m fields) = R.deserializeFields fields
  | [], _ => rfl
  | (k, x) :: fields, h => by
    simp only [altersFields, Bool.or_eq_false_iff] at h
    rw [renameFields, deserializeFields, deserializeFields, deserialize_rename false h.1,
      deserializeFields_rename h.2]

end

/-- If the map changes no name below the root, all names are resolved. -/
theorem deserialize_resolves (allow : Bool) {t : Json} (h : t.altersBelow m = false) :
    R.deserialize allow (some m) t = R.deserialize allow none (t.rename m) := by
  cases t with
  | atom a => rfl
  | list items =>
    rw [rename, deserialize, deserialize, R.deserializeItems_rename h]
  | dict fields =>
    rw [rename, deserialize, deserialize, R.deserializeFields_rename h]
  | tagged type className value =>
    rw [rename, rename_eq_self h, deserialize, deserialize, R.deserialize_of_not_changes allow h]
    simp only [SchemaMap.resolve_none, Option.map_id_fun, id]

end Reader

/-! ## Objects that tell their class -/

/-- A tagged value, with the name that was looked up. -/
structure NamedObject where
  type : String
  className : Option String
  value : Json

/-- Every name is a class, whose objects keep the name and the value. Arrays are written as tensors.
-/
def namesReader : Reader String NamedObject where
  getObjectClass := .ok
  callKwargs name value := .ok ⟨"pydantic", some name, value⟩
  call name value := some ⟨"enum", some name, value⟩
  array dtype value := some ⟨"tensor", dtype, value⟩
  read type value := some ⟨type, none, value⟩
  serialize obj :=
    some (.tagged obj.type (if obj.type = "tensor" then none else obj.className) obj.value)

namespace Json

variable {m : SchemaMap}

/-- The object that is made tells the name that was looked up. -/
theorem namesReader_build (type : String) :
    ∃ kind, ∀ className value, knows type className = true →
      namesReader.build type className value = .ok ⟨kind, lookedUp type className, value⟩ := by
  unfold Reader.build knows lookedUp
  cases Reading.of type with
  | none => exact ⟨type, fun _ _ h => by cases h⟩
  | some reading =>
    cases reading with
    | kwargs =>
      refine ⟨"pydantic", fun className value h => ?_⟩
      obtain ⟨name, rfl⟩ := Option.isSome_iff_exists.1 h
      rfl
    | array => exact ⟨"tensor", fun _ _ _ => rfl⟩
    | call =>
      refine ⟨"enum", fun className value h => ?_⟩
      obtain ⟨name, rfl⟩ := Option.isSome_iff_exists.1 h
      rfl
    | plain => exact ⟨type, fun _ _ _ => rfl⟩

theorem knows_map (type : String) (className : Option String) (f : String → String) :
    knows type (className.map f) = knows type className := by
  simp only [knows, Option.isSome_map]

mutual

/-- What can be read is read. -/
theorem isSome_namesReader : ∀ {t : Json}, t.readable = true →
    (namesReader.deserialize false none t).isSome = true
  | .atom _, _ => rfl
  | .list items, h => by
    rw [Reader.deserialize, Option.isSome_map]
    exact isSome_namesReader_items h
  | .dict fields, h => by
    rw [Reader.deserialize, Option.isSome_map]
    exact isSome_namesReader_fields h
  | .tagged type className value, h => by
    obtain ⟨kind, hbuild⟩ := namesReader_build type
    rw [readable] at h
    simp only [Reader.deserialize, SchemaMap.resolve_none, Option.map_id_fun, id,
      hbuild className value h]
    rfl

theorem isSome_namesReader_items : ∀ {items : List Json}, readableItems items = true →
    (namesReader.deserializeItems items).isSome = true
  | [], _ => rfl
  | x :: items, h => by
    simp only [readableItems, Bool.and_eq_true] at h
    obtain ⟨v, hv⟩ := Option.isSome_iff_exists.1 (isSome_namesReader h.1)
    obtain ⟨vs, hvs⟩ := Option.isSome_iff_exists.1 (isSome_namesReader_items h.2)
    simp [Reader.deserializeItems, hv, hvs]

theorem isSome_namesReader_fields : ∀ {fields : List (FieldName × Json)},
    readableFields fields = true → (namesReader.deserializeFields fields).isSome = true
  | [], _ => rfl
  | (_, x) :: fields, h => by
    simp only [readableFields, Bool.and_eq_true] at h
    obtain ⟨v, hv⟩ := Option.isSome_iff_exists.1 (isSome_namesReader h.1)
    obtain ⟨vs, hvs⟩ := Option.isSome_iff_exists.1 (isSome_namesReader_fields h.2)
    simp [Reader.deserializeFields, hv, hvs]

end

mutual

/-- The objects of a tree tell the names: if it is read as the renamed one, no name is altered. -/
theorem alters_of_namesReader : ∀ {t : Json}, t.readable = true →
    namesReader.deserialize false none t = namesReader.deserialize false none (t.rename m) →
      t.alters m = false
  | .atom _, _, _ => rfl
  | .list items, hr, h => by
    rw [rename, Reader.deserialize, Reader.deserialize] at h
    exact altersItems_of_namesReader hr (Option.map_injective (fun _ _ => Decoded.list.inj) h)
  | .dict fields, hr, h => by
    rw [rename, Reader.deserialize, Reader.deserialize] at h
    exact altersFields_of_namesReader hr (Option.map_injective (fun _ _ => Decoded.dict.inj) h)
  | .tagged type className value, hr, h => by
    obtain ⟨kind, hbuild⟩ := namesReader_build type
    rw [readable] at hr
    have hr' := hr
    rw [← knows_map type className (SchemaMap.resolve (some m))] at hr'
    simp only [rename, Reader.deserialize, SchemaMap.resolve_none, Option.map_id_fun, id,
      hbuild _ _ hr, hbuild _ _ hr', Option.some.injEq, Decoded.object.injEq,
      NamedObject.mk.injEq, true_and] at h
    simp [alters, h.1, changes_eq_false h.2.symm]

theorem altersItems_of_namesReader : ∀ {items : List Json}, readableItems items = true →
    namesReader.deserializeItems items = namesReader.deserializeItems (renameItems m items) →
      altersItems m items = false
  | [], _, _ => rfl
  | x :: items, hr, h => by
    simp only [readableItems, Bool.and_eq_true] at hr
    obtain ⟨v, hv⟩ := Option.isSome_iff_exists.1 (isSome_namesReader hr.1)
    obtain ⟨vs, hvs⟩ := Option.isSome_iff_exists.1 (isSome_namesReader_items hr.2)
    have hread : namesReader.deserializeItems (x :: items) = some (v :: vs) :=
      cons_eq_some.2 ⟨v, vs, hv, hvs, rfl⟩
    obtain ⟨v', vs', hv', hvs', hsame⟩ := cons_eq_some.1 (h.symm.trans hread)
    obtain ⟨rfl, rfl⟩ := List.cons.inj hsame
    rw [altersItems, alters_of_namesReader hr.1 (hv.trans hv'.symm),
      altersItems_of_namesReader hr.2 (hvs.trans hvs'.symm)]
    rfl

theorem altersFields_of_namesReader : ∀ {fields : List (FieldName × Json)},
    readableFields fields = true →
    namesReader.deserializeFields fields = namesReader.deserializeFields (renameFields m fields) →
      altersFields m fields = false
  | [], _, _ => rfl
  | (k, x) :: fields, hr, h => by
    simp only [readableFields, Bool.and_eq_true] at hr
    obtain ⟨v, hv⟩ := Option.isSome_iff_exists.1 (isSome_namesReader hr.1)
    obtain ⟨vs, hvs⟩ := Option.isSome_iff_exists.1 (isSome_namesReader_fields hr.2)
    have hread : namesReader.deserializeFields ((k, x) :: fields) = some ((k, v) :: vs) :=
      field_eq_some.2 ⟨v, vs, hv, hvs, rfl⟩
    obtain ⟨v', vs', hv', hvs', hsame⟩ := field_eq_some.1 (h.symm.trans hread)
    obtain ⟨hfield, rfl⟩ := List.cons.inj hsame
    obtain ⟨-, rfl⟩ := Prod.mk.inj hfield
    rw [altersFields, alters_of_namesReader hr.1 (hv.trans hv'.symm),
      altersFields_of_namesReader hr.2 (hvs.trans hvs'.symm)]
    rfl

end

/-- Every name that the map mentions is resolved to its replacement, at every depth and whatever the
classes are. -/
def Resolves (m : SchemaMap) (t : Json) : Prop :=
  ∀ (C O : Type) (R : Reader C O) (allow : Bool),
    R.deserialize allow (some m) t = R.deserialize allow none (t.rename m)

/-- **The names are resolved** if and only if none below the root is changed, or the tree cannot be
read. -/
theorem resolves_iff (m : SchemaMap) (t : Json) :
    Resolves m t ↔ (t.readable = true → t.altersBelow m = false) := by
  constructor
  · intro h hr
    have hnames := h String NamedObject namesReader false
    cases t with
    | atom a => rfl
    | list items =>
      have hlist : (Json.list items).alters m = false :=
        alters_of_namesReader hr (by rw [← hnames, Reader.deserialize, Reader.deserialize])
      exact hlist
    | dict fields =>
      have hdict : (Json.dict fields).alters m = false :=
        alters_of_namesReader hr (by rw [← hnames, Reader.deserialize, Reader.deserialize])
      exact hdict
    | tagged type className value =>
      obtain ⟨kind, hbuild⟩ := namesReader_build type
      rw [readable, ← knows_map type className (SchemaMap.resolve (some m))] at hr
      simp only [rename, Reader.deserialize, SchemaMap.resolve_none, Option.map_id_fun, id,
        hbuild _ _ hr, Option.some.injEq, Decoded.object.injEq, NamedObject.mk.injEq,
        true_and] at hnames
      exact changes_eq_false hnames.symm
  · intro h C O R allow
    cases hr : t.readable with
    | true => exact R.deserialize_resolves allow (h hr)
    | false =>
      rw [R.deserialize_of_not_readable allow _ hr,
        R.deserialize_of_not_readable allow _ ((readable_rename t).trans hr)]

end Json

/-! ## Twice -/

/-- No replacement is replaced. -/
def SchemaMap.Settled (m : SchemaMap) : Prop := ∀ name name', m name = some name' → m name' = none

theorem SchemaMap.Settled.resolve {m : SchemaMap} (hm : m.Settled) (name : String) :
    SchemaMap.resolve (some m) (SchemaMap.resolve (some m) name) =
      SchemaMap.resolve (some m) name := by
  simp only [SchemaMap.resolve, Option.bind_some]
  cases h : m name with
  | none => simp only [Option.getD_none, h]
  | some name' => simp only [Option.getD_some, hm name name' h, Option.getD_none]

namespace Reader

variable {C O : Type} {R : Reader C O}

/-- What a session can rely on for the objects that it reads: they are written as a primitive or
with a type; the class is written under the name under which it was found; and what is written is
read, if at all, to an object that is written the same. -/
structure Rewrites (R : Reader C O) : Prop where
  tagged : ∀ {type className value o tree}, R.build type className value = .ok o →
    R.serialize o = some tree → (∃ a, tree = .atom a) ∨
      ∃ type' className' value', tree = .tagged type' className' value'
  canonical : ∀ {type className value o type' className' value'},
    R.build type className value = .ok o →
    R.serialize o = some (.tagged type' className' value') →
      ∀ name, className' = some name → className = some name
  again : ∀ {type className value o type' className' value'},
    R.build type className value = .ok o →
    R.serialize o = some (.tagged type' className' value') →
      R.build type' className' value' = .raised ∨
        ∃ o', R.build type' className' value' = .ok o' ∧
          ∀ tree, R.serialize o' = some tree → tree = .tagged type' className' value'

/-- The map is asked again for a name that it has given. -/
def Resolved (schemaMap : Option SchemaMap) : Prop := ∀ name,
  SchemaMap.resolve schemaMap (SchemaMap.resolve schemaMap name) = SchemaMap.resolve schemaMap name

/-- An object is written the same when it is read again. -/
theorem Rewrites.object (hR : R.Rewrites) {schemaMap : Option SchemaMap} (hm : Resolved schemaMap)
    {type : String} {className : Option String} {value : Json} {o : O}
    (ho : R.build type (className.map (SchemaMap.resolve schemaMap)) value = .ok o) {tree : Json}
    (htree : R.serialize o = some tree) (allow : Bool) {v : Decoded O} {tree' : Json}
    (hv : R.deserialize allow schemaMap tree = some v) (htree' : R.serializeObject v = some tree') :
    tree' = tree := by
  obtain ⟨a, rfl⟩ | ⟨type', className', value', rfl⟩ := hR.tagged ho htree
  · obtain rfl := Option.some.inj hv
    exact (Option.some.inj htree').symm
  · have hsame : className'.map (SchemaMap.resolve schemaMap) = className' := by
      cases hc : className' with
      | none => rfl
      | some name =>
        have hname := hR.canonical ho htree name hc
        obtain ⟨first, -, rfl⟩ := Option.map_eq_some_iff.1 hname
        rw [Option.map_some, hm first]
    rw [deserialize, hsame] at hv
    obtain hraised | ⟨o', ho', hsame'⟩ := hR.again ho htree
    · simp [hraised] at hv
    · simp only [ho', Option.some.injEq] at hv
      subst hv
      exact hsame' tree' htree'

mutual

/-- What is read and written is written the same when it is read again. -/
theorem Rewrites.tree (hR : R.Rewrites) (allow : Bool) {schemaMap : Option SchemaMap}
    (hm : Resolved schemaMap) : ∀ {t : Json} {v v' : Decoded O} {tree tree' : Json},
    R.deserialize allow schemaMap t = some v → R.serializeObject v = some tree →
    R.deserialize allow schemaMap tree = some v' → R.serializeObject v' = some tree' → tree' = tree
  | .atom a, _, _, _, _, hv, htree, hv', htree' => by
    obtain rfl := Option.some.inj hv
    obtain rfl := Option.some.inj htree
    obtain rfl := Option.some.inj hv'
    exact (Option.some.inj htree').symm
  | .list items, _, _, _, _, hv, htree, hv', htree' => by
    obtain ⟨vs, hvs, rfl⟩ := Option.map_eq_some_iff.1 hv
    obtain ⟨trees, htrees, rfl⟩ := Option.map_eq_some_iff.1 htree
    obtain ⟨vs', hvs', rfl⟩ := Option.map_eq_some_iff.1 hv'
    obtain ⟨trees', htrees', rfl⟩ := Option.map_eq_some_iff.1 htree'
    rw [hR.items hvs htrees hvs' htrees']
  | .dict fields, _, _, _, _, hv, htree, hv', htree' => by
    obtain ⟨vs, hvs, rfl⟩ := Option.map_eq_some_iff.1 hv
    obtain ⟨trees, htrees, rfl⟩ := Option.map_eq_some_iff.1 htree
    obtain ⟨vs', hvs', rfl⟩ := Option.map_eq_some_iff.1 hv'
    obtain ⟨trees', htrees', rfl⟩ := Option.map_eq_some_iff.1 htree'
    rw [hR.fields hvs htrees hvs' htrees']
  | .tagged type className value, _, _, _, _, hv, htree, hv', htree' => by
    rw [deserialize] at hv
    cases hbuild : R.build type (className.map (SchemaMap.resolve schemaMap)) value with
    | ok o =>
      simp only [hbuild, Option.some.injEq] at hv
      subst hv
      exact hR.object hm hbuild htree allow hv' htree'
    | importError =>
      simp only [hbuild] at hv
      split at hv
      · exact hR.tree allow hm hv htree hv' htree'
      · cases hv
    | raised => simp [hbuild] at hv
termination_by structural t => t

theorem Rewrites.items (hR : R.Rewrites) : ∀ {items : List Json} {vs vs' : List (Decoded O)}
    {trees trees' : List Json},
    R.deserializeItems items = some vs → R.serializeItems vs = some trees →
    R.deserializeItems trees = some vs' → R.serializeItems vs' = some trees' → trees' = trees
  | [], _, _, _, _, hvs, htrees, hvs', htrees' => by
    obtain rfl := Option.some.inj hvs
    obtain rfl := Option.some.inj htrees
    obtain rfl := Option.some.inj hvs'
    exact (Option.some.inj htrees').symm
  | x :: items, _, _, _, _, hvs, htrees, hvs', htrees' => by
    obtain ⟨v, vs, hx, hxs, rfl⟩ := cons_eq_some.1 hvs
    obtain ⟨tree, trees, hw, hws, rfl⟩ := cons_eq_some.1 htrees
    obtain ⟨v', vs', hx', hxs', rfl⟩ := cons_eq_some.1 hvs'
    obtain ⟨tree', trees', hw', hws', rfl⟩ := cons_eq_some.1 htrees'
    rw [hR.tree false (fun _ => rfl) hx hw hx' hw', hR.items hxs hws hxs' hws']
termination_by structural items => items

theorem Rewrites.fields (hR : R.Rewrites) : ∀ {fields : List (FieldName × Json)}
    {vs vs' : List (FieldName × Decoded O)} {trees trees' : List (FieldName × Json)},
    R.deserializeFields fields = some vs → R.serializeFields vs = some trees →
    R.deserializeFields trees = some vs' → R.serializeFields vs' = some trees' → trees' = trees
  | [], _, _, _, _, hvs, htrees, hvs', htrees' => by
    obtain rfl := Option.some.inj hvs
    obtain rfl := Option.some.inj htrees
    obtain rfl := Option.some.inj hvs'
    exact (Option.some.inj htrees').symm
  | (k, x) :: fields, _, _, _, _, hvs, htrees, hvs', htrees' => by
    obtain ⟨v, vs, hx, hxs, rfl⟩ := field_eq_some.1 hvs
    obtain ⟨tree, trees, hw, hws, rfl⟩ := field_eq_some.1 htrees
    obtain ⟨v', vs', hx', hxs', rfl⟩ := field_eq_some.1 hvs'
    obtain ⟨tree', trees', hw', hws', rfl⟩ := field_eq_some.1 htrees'
    rw [hR.tree false (fun _ => rfl) hx hw hx' hw', hR.fields hxs hws hxs' hws']
termination_by structural fields => fields

end

end Reader

/-- The objects that are made are those of the types that are read. -/
theorem namesReader_cases {type : String} {className : Option String} {value : Json}
    {o : NamedObject} (h : namesReader.build type className value = .ok o) :
    o = ⟨"tensor", className.map dtypeOf, value⟩ ∨
      (∃ name, className = some name ∧
        (o = ⟨"pydantic", some name, value⟩ ∨ o = ⟨"enum", some name, value⟩)) ∨
      Reading.of type = some .plain ∧ o = ⟨type, none, value⟩ := by
  unfold Reader.build at h
  cases hreading : Reading.of type with
  | none => simp [hreading] at h
  | some reading =>
    rw [hreading] at h
    cases reading with
    | kwargs =>
      cases className with
      | none => cases h
      | some name =>
        cases h
        exact .inr (.inl ⟨name, rfl, .inl rfl⟩)
    | array =>
      cases h
      exact .inl rfl
    | call =>
      cases className with
      | none => cases h
      | some name =>
        cases h
        exact .inr (.inl ⟨name, rfl, .inr rfl⟩)
    | plain =>
      cases h
      exact .inr (.inr ⟨rfl, rfl⟩)

/-- They are written and read as they should. -/
theorem namesReader_rewrites : namesReader.Rewrites where
  tagged _ htree := .inr ⟨_, _, _, (Option.some.inj htree).symm⟩
  canonical := by
    intro type className value o type' className' value' ho htree name hname
    simp only [namesReader, Option.some.injEq, Json.tagged.injEq] at htree
    obtain ⟨-, hclass, -⟩ := htree
    rw [hname] at hclass
    obtain rfl | ⟨name', rfl, rfl | rfl⟩ | ⟨-, rfl⟩ := namesReader_cases ho
    · simp at hclass
    · simpa using hclass
    · simpa using hclass
    · simp at hclass
  again := by
    intro type className value o type' className' value' ho htree
    simp only [namesReader, Option.some.injEq, Json.tagged.injEq] at htree
    obtain ⟨rfl, rfl, rfl⟩ := htree
    obtain rfl | ⟨name', rfl, rfl | rfl⟩ | ⟨hreading, rfl⟩ := namesReader_cases ho
    · exact .inl rfl
    · exact .inr ⟨_, rfl, fun tree htree => (Option.some.inj htree).symm⟩
    · exact .inr ⟨_, rfl, fun tree htree => (Option.some.inj htree).symm⟩
    · refine .inr ⟨⟨type, none, value⟩, ?_, fun tree htree => ?_⟩
      · simp [Reader.build, hreading, namesReader, Imported.ofOption]
      · simpa [namesReader, eq_comm] using htree

/-- **A value that is migrated twice** is that which is migrated once, unless the second migration
raises. -/
theorem JsonText.recode_recode (lib : JsonText) {C O : Type} {R : Reader C O} (hR : R.Rewrites)
    (allow : Bool) {m : SchemaMap} (hm : m.Settled) {bytes bytes' bytes'' : ByteArray}
    (h : lib.recode R allow m bytes = some bytes')
    (h' : lib.recode R allow m bytes' = some bytes'') : bytes'' = bytes' := by
  obtain ⟨v, hv, hbytes'⟩ := Option.bind_eq_some_iff.1 h
  obtain ⟨tree, htree, hdump⟩ := Option.bind_eq_some_iff.1 hbytes'
  obtain ⟨v', hv', hbytes''⟩ := Option.bind_eq_some_iff.1 h'
  obtain ⟨tree', htree', hdump'⟩ := Option.bind_eq_some_iff.1 hbytes''
  rw [decodeValue, lib.loads_dumps hdump] at hv'
  have hsame : tree' = tree := by
    rw [decodeValue] at hv
    cases hloads : lib.loads bytes with
    | some t =>
      rw [hloads] at hv
      exact hR.tree allow hm.resolve hv htree hv' htree'
    | none =>
      rw [hloads] at hv
      obtain ⟨s, -, hs⟩ := Option.bind_eq_some_iff.1 hv
      split at hs
      · obtain rfl := Option.some.inj hs
        obtain rfl := Option.some.inj htree
        obtain rfl := Option.some.inj hv'
        exact (Option.some.inj htree').symm
      · cases hs
  rw [hsame, hdump] at hdump'
  exact (Option.some.inj hdump').symm

end Kvdb
