import Mathlib.Tactic.Ring
import Kvdb.Io.Objects

/-!
# Which objects come back

`deserialize_serialize_iff`: an object comes back from `deserialize_object` exactly if all its parts
do, and for each part `Survives` says when (`returns_iff`, by recursion on the object). The rest
are the dates, the times, the datetimes of an hour that their zone repeats or skips, the mixins, the
dicts with a key `__type__`, the sets of anything but JSON
primitives, and the timedeltas that a float does not hold (`ofSeconds_totalSeconds`: none below 142
years).
-/

namespace Kvdb

/-! ## Timedeltas -/

/-- Below 2^52 microseconds a timedelta comes back. -/
theorem ofSeconds_totalSeconds {us : ℤ} (h : |us| < 2 ^ 52) :
    ofSeconds (totalSeconds us) = some us := by
  have hclose := Lib.abs_toDouble_sub_le (us / 1000000)
  have hcast : |(us : ℚ)| < 2 ^ 52 := by exact_mod_cast h
  have hround : Lib.roundHalfEven (totalSeconds us * 1000000) = us := by
    refine Lib.roundHalfEven_eq ?_
    have hscale : (us : ℚ) - totalSeconds us * 1000000 =
        -(1000000 * (totalSeconds us - us / 1000000)) := by ring
    rw [hscale, abs_neg, abs_mul, abs_of_pos (by norm_num : (0 : ℚ) < 1000000)]
    calc 1000000 * |totalSeconds us - us / 1000000|
      _ ≤ 1000000 * (|(us : ℚ) / 1000000| / 2 ^ 53) := by gcongr; exact hclose
      _ = |(us : ℚ)| / 2 ^ 53 := by
        rw [abs_div, abs_of_pos (by norm_num : (0 : ℚ) < 1000000)]
        ring
      _ < 1 / 2 := by
        rw [div_lt_iff₀ (by norm_num)]
        norm_num at hcast ⊢
        exact hcast
  have hrange := abs_lt.1 h
  simp only [ofSeconds, hround, timedeltaMin, timedeltaMax]
  rw [if_pos (by omega)]

namespace Obj

variable {C : Type}

/-! ## Sets -/

theorem mem_distinct {x : Obj C} : ∀ {xs : List (Obj C)}, x ∈ distinct xs → x ∈ xs
  | y :: xs, h => by
    rcases List.mem_cons.1 h with rfl | h
    · exact List.mem_cons_self
    · exact List.mem_cons_of_mem _ (mem_distinct (List.mem_filter.1 h).1)

theorem distinct_eq_self : ∀ {xs : List (Obj C)}, (∀ x ∈ xs, x.key.isSome = true) →
    (xs.filterMap key).Nodup → distinct xs = xs
  | [], _, _ => rfl
  | x :: xs, hkey, hn => by
    obtain ⟨k, hk⟩ := Option.isSome_iff_exists.1 (hkey x List.mem_cons_self)
    rw [List.filterMap_cons_some hk, List.nodup_cons] at hn
    have hrest := distinct_eq_self (fun y hy => hkey y (List.mem_cons_of_mem _ hy)) hn.2
    rw [distinct, hrest, List.filter_eq_self.2]
    intro y hy
    simp only [ne_eq, decide_eq_true_eq, hk]
    exact fun hyk => hn.1 (List.mem_filterMap.2 ⟨y, hy, hyk⟩)

theorem isSome_key (x : Obj C) : x.key.isSome = x.isAtom := by cases x <;> rfl

end Obj

namespace JsonLib

variable {C : Type} (J : JsonLib C)

theorem reload_atom {obj : Obj C} (h : obj.isAtom = true) : J.reload obj = some obj := by
  cases obj <;> first | rfl | cases h

theorem reloadList_atoms : ∀ {xs : List (Obj C)}, (∀ x ∈ xs, x.isAtom = true) →
    J.reloadList xs = some xs
  | [], _ => rfl
  | x :: xs, h => by
    have hx := J.reload_atom (h x List.mem_cons_self)
    have hxs := reloadList_atoms fun y hy => h y (List.mem_cons_of_mem _ hy)
    simp [reloadList, hx, hxs]

/-- The elements of a set come back if they are primitives. -/
theorem setOf_reloadList {xs : List (Obj C)} (hn : (xs.filterMap Obj.key).Nodup) :
    (J.reloadList xs).bind Obj.setOf = some (.set xs) ↔ ∀ x ∈ xs, x.isAtom = true := by
  constructor
  · intro h
    obtain ⟨ys, -, hys⟩ := Option.bind_eq_some_iff.1 h
    simp only [Obj.setOf] at hys
    split at hys <;> cases hys
    rename_i hkeys
    intro x hx
    rw [← Obj.isSome_key]
    exact List.all_eq_true.1 hkeys x (Obj.mem_distinct hx)
  · intro h
    have hkeys : ∀ x ∈ xs, x.key.isSome = true := fun x hx => by rw [Obj.isSome_key, h x hx]
    rw [J.reloadList_atoms h, Option.bind_some, Obj.setOf, if_pos (List.all_eq_true.2 hkeys),
      Obj.distinct_eq_self hkeys hn]

theorem hasType_reloadItems : ∀ {items loaded : List (String × Obj C)},
    J.reloadItems items = some loaded → Obj.hasType loaded = Obj.hasType items
  | [], _, h => by cases h; rfl
  | (k, v) :: items, _, h => by
    simp only [reloadItems, Option.bind_eq_bind, Option.bind_eq_some_iff, Option.pure_def,
      Option.some.injEq] at h
    obtain ⟨w, -, rest, hrest, rfl⟩ := h
    have ih := hasType_reloadItems hrest
    simp only [Obj.hasType, List.any_cons] at ih ⊢
    rw [ih]

end JsonLib

namespace Runtime

variable {C : Type} (R : Runtime C) (J : JsonLib C) (reg reg' : ClassRegistry C)

/-! ## The registry -/

mutual

theorem serializeObject_fst (reg : ClassRegistry C) : ∀ obj : Obj C,
    (R.serializeObject reg obj).1 = R.registered reg obj
  | .list xs => serializeList_fst reg xs
  | .dict items => by
    by_cases ht : Obj.hasType items = true
    · simp only [serializeObject, registered, Obj.parts, ht, if_true]
      rfl
    · simp only [serializeObject, registered, Obj.parts, ht, Bool.false_eq_true, if_false]
      exact serializeItems_fst reg items
  | .none | .bool _ | .int _ | .float _ | .str _ | .bytes _ | .datetime .. | .date _ | .time _
  | .timedelta _ | .set _ | .uuid _ | .enum .. | .mixin .. => rfl

theorem serializeList_fst (reg : ClassRegistry C) : ∀ xs : List (Obj C),
    (R.serializeList reg xs).1 =
      ((Obj.partsList xs).filterMap Obj.enumClass).foldl R.registerObjectClass reg
  | [] => rfl
  | x :: xs => by
    rw [serializeList, serializeList_fst _ xs, serializeObject_fst reg x, Obj.partsList,
      List.filterMap_append, List.foldl_append]
    rfl

theorem serializeItems_fst (reg : ClassRegistry C) : ∀ items : List (String × Obj C),
    (R.serializeItems reg items).1 =
      ((Obj.partsItems items).filterMap Obj.enumClass).foldl R.registerObjectClass reg
  | [] => rfl
  | (k, v) :: items => by
    rw [serializeItems, serializeItems_fst _ items, serializeObject_fst reg v, Obj.partsItems,
      List.filterMap_append, List.foldl_append]
    rfl

end

/-! ## The dicts with a type -/

variable {R J}

/-- What is read back from a tagged primitive. -/
theorem reload_tagged {value : Obj C} (type : String) (h : value.isAtom = true) :
    (J.reload (tagged type value)).bind (R.deserializeObject reg) =
      R.rebuild reg [("__type__", .str type), ("value", value)] type := by
  simp only [tagged, JsonLib.reload, JsonLib.reloadItems, J.reload_atom h, Option.bind_eq_bind,
    Option.bind_some, Option.pure_def, Option.map_some]
  rfl

theorem get_value (type value : Obj C) :
    Obj.get [("__type__", type), ("value", value)] "value" = some value := rfl

/-- A dict with a type never gives a dict with a type, but by a class or by pickle. -/
theorem rebuild_eq_dict {items loaded : List (String × Obj C)} {type : String} :
    R.rebuild reg loaded type = some (.dict items) ↔
      R.construct reg loaded type = some (.dict items) := by
  have hset : ∀ xs : List (Obj C), Obj.setOf xs ≠ some (.dict items) := by
    intro xs h
    simp only [Obj.setOf] at h
    split at h <;> cases h
  unfold rebuild
  split
  case h_6 => rfl
  all_goals
    refine iff_of_false (fun h => ?_) (by simp [construct])
    simp [Option.bind_eq_some_iff, hset] at h

/-- A dict with a type. -/
theorem typed_iff {items : List (String × Obj C)} (ht : Obj.hasType items = true) :
    (J.reload (.dict items)).bind (R.deserializeObject reg) = some (.dict items) ↔
      R.Survives J reg (.dict items) := by
  simp only [Survives, ht, forall_const, JsonLib.reload]
  constructor
  · intro h
    obtain ⟨_, hl, hd⟩ := Option.bind_eq_some_iff.1 h
    obtain ⟨loaded, hloaded, rfl⟩ := Option.map_eq_some_iff.1 hl
    rw [deserializeObject, J.hasType_reloadItems hloaded, if_pos ht] at hd
    obtain ⟨t, hget, hd⟩ := Option.bind_eq_some_iff.1 hd
    obtain ⟨type, htype, hd⟩ := Option.bind_eq_some_iff.1 hd
    cases t <;> cases htype
    exact ⟨loaded, type, hloaded, hget, (rebuild_eq_dict reg).1 hd⟩
  · intro hw
    obtain ⟨loaded, type, hloaded, hget, hd⟩ := hw
    rw [hloaded, Option.map_some, Option.bind_some, deserializeObject, J.hasType_reloadItems hloaded,
      if_pos ht, hget, Option.bind_some]
    exact (rebuild_eq_dict reg).2 hd

/-! ## The tagged objects -/

theorem bytes_returns (bs : List UInt8) :
    (J.reload (serializeLeaf (.bytes bs))).bind (R.deserializeObject reg) = some (.bytes bs) := by
  rw [serializeLeaf, reload_tagged _ _ rfl]
  simp only [rebuild, get_value, Obj.text, String.toList_ofList, Python.fromHex_hex,
    Option.bind_eq_bind, Option.bind_some, Option.pure_def]

/-- A date or a time comes back as a datetime, if at all. -/
theorem isoformat_returns (s : String) :
    (J.reload (tagged "datetime" (.str s))).bind (R.deserializeObject reg) =
      (R.fromIsoformat s).map fun text => .datetime text false := by
  rw [reload_tagged _ _ rfl]
  simp only [rebuild, get_value, Obj.text, Option.bind_eq_bind, Option.bind_some, Option.pure_def]
  cases R.fromIsoformat s <;> rfl

theorem timedelta_returns (us : ℤ) :
    (J.reload (serializeLeaf (.timedelta us))).bind (R.deserializeObject reg) =
      (ofSeconds (totalSeconds us)).map .timedelta := by
  rw [serializeLeaf, reload_tagged _ _ rfl]
  simp only [rebuild, get_value, Obj.number, Option.bind_eq_bind, Option.bind_some, Option.pure_def]
  cases ofSeconds (totalSeconds us) <;> rfl

theorem uuid_returns (s : String) :
    (J.reload (serializeLeaf (.uuid s))).bind (R.deserializeObject reg) =
      (R.uuid s).map .uuid := by
  rw [serializeLeaf, reload_tagged _ _ rfl]
  simp only [rebuild, get_value, Obj.text, Option.bind_eq_bind, Option.bind_some, Option.pure_def]
  cases R.uuid s <;> rfl

theorem set_returns (xs : List (Obj C)) :
    (J.reload (serializeLeaf (.set xs))).bind (R.deserializeObject reg) =
      (J.reloadList xs).bind Obj.setOf := by
  simp only [serializeLeaf, tagged, JsonLib.reload, JsonLib.reloadItems, Option.bind_eq_bind,
    Option.bind_some, Option.pure_def]
  cases J.reloadList xs <;> rfl

/-- An Enum member is made by the class that is found. -/
theorem enum_returns (c : C) (value : Obj C) (reg' : ClassRegistry C) :
    (J.reload (R.serializeObject reg' (.enum c value)).2).bind (R.deserializeObject reg) =
      (R.getObjectClass reg (R.className c)).bind fun c' => (J.reload value).bind (R.call c') := by
  simp only [serializeObject, JsonLib.reload, JsonLib.reloadItems, Option.bind_eq_bind,
    Option.bind_some, Option.pure_def]
  cases J.reload value with
  | none => cases R.getObjectClass reg (R.className c) <;> rfl
  | some loaded => rfl

/-- A mixin comes back as an object without a class. -/
theorem mixin_returns {c : C} {base : Obj C} (h : base.isBase = true) (reg' : ClassRegistry C) :
    (J.reload (R.serializeObject reg' (.mixin c base)).2).bind (R.deserializeObject reg) ≠
      some (.mixin c base) := by
  intro hd
  cases base with
  | int | float | str =>
    obtain ⟨loaded, hl, hd⟩ := Option.bind_eq_some_iff.1 hd
    have hatom := J.isAtom_mixin hl
    cases loaded with
    | none | bool | int | float | str => cases hd
    | _ => cases hatom
  | bytes bs =>
    have hb := (bytes_returns (J := J) reg bs).symm.trans hd
    cases hb
  | datetime s _ | date s | time s =>
    have ht := (isoformat_returns (J := J) reg s).symm.trans hd
    simp at ht
  | timedelta us =>
    have ht := (timedelta_returns (J := J) reg us).symm.trans hd
    simp at ht
  | _ => cases h

/-! ## The round trip -/

theorem returns_cons {a x : Obj C} {as xs : List (Obj C)} :
    (J.reloadList (a :: as)).bind (R.deserializeList reg) = some (x :: xs) ↔
      (J.reload a).bind (R.deserializeObject reg) = some x ∧
        (J.reloadList as).bind (R.deserializeList reg) = some xs := by
  cases ha : J.reload a with
  | none => simp [JsonLib.reloadList, ha]
  | some b => cases has : J.reloadList as <;>
      simp [JsonLib.reloadList, ha, has, deserializeList, Option.bind_eq_some_iff]

theorem returns_item {k : String} {a x : Obj C} {as xs : List (String × Obj C)} :
    (J.reloadItems ((k, a) :: as)).bind (R.deserializeItems reg) = some ((k, x) :: xs) ↔
      (J.reload a).bind (R.deserializeObject reg) = some x ∧
        (J.reloadItems as).bind (R.deserializeItems reg) = some xs := by
  cases ha : J.reload a with
  | none => simp [JsonLib.reloadItems, ha]
  | some b => cases has : J.reloadItems as <;>
      simp [JsonLib.reloadItems, ha, has, deserializeItems, Option.bind_eq_some_iff]

theorem hasType_serializeItems (reg : ClassRegistry C) : ∀ items : List (String × Obj C),
    Obj.hasType (R.serializeItems reg items).2 = Obj.hasType items
  | [] => rfl
  | (k, v) :: items => by
    have ih := hasType_serializeItems (R.serializeObject reg v).1 items
    simp only [Obj.hasType, serializeItems, List.any_cons] at ih ⊢
    rw [ih]

/-- A list comes back if its elements do. -/
theorem list_returns {xs ys : List (Obj C)} :
    (J.reload (.list ys)).bind (R.deserializeObject reg) = some (.list xs) ↔
      (J.reloadList ys).bind (R.deserializeList reg) = some xs := by
  cases h : J.reloadList ys <;> simp [JsonLib.reload, h, deserializeObject]

/-- A dict without a type comes back if its values do. -/
theorem dict_returns {xs ys : List (String × Obj C)} (ht : Obj.hasType ys = false) :
    (J.reload (.dict ys)).bind (R.deserializeObject reg) = some (.dict xs) ↔
      (J.reloadItems ys).bind (R.deserializeItems reg) = some xs := by
  cases h : J.reloadItems ys with
  | none => simp [JsonLib.reload, h]
  | some loaded =>
    have hl := J.hasType_reloadItems h
    simp [JsonLib.reload, h, deserializeObject, hl, ht]

variable (R J)

mutual

/-- **An object comes back** exactly if all its parts do. -/
theorem returns_iff (reg' : ClassRegistry C) : ∀ {obj : Obj C}, R.Built obj →
    ((J.reload (R.serializeObject reg' obj).2).bind (R.deserializeObject reg) = some obj ↔
      ∀ x ∈ obj.parts, R.Survives J reg x)
  | .list xs, h => by
    have ih := returnsList_iff reg' fun x hx => h x (List.mem_cons_of_mem _ hx)
    rw [serializeObject, list_returns, ih, Obj.parts, List.forall_mem_cons]
    exact (and_iff_right trivial).symm
  | .dict items, h => by
    by_cases ht : Obj.hasType items = true
    · simp only [serializeObject, ht, if_true, Obj.parts, List.forall_mem_singleton]
      exact typed_iff reg ht
    · have hitems : ∀ x ∈ Obj.partsItems items, R.IsObject x := fun x hx =>
        h x (by simp [Obj.parts, ht, hx])
      have ih := returnsItems_iff reg' hitems
      rw [serializeObject, if_neg ht, dict_returns, ih, Obj.parts, if_neg ht, List.forall_mem_cons]
      · exact (and_iff_right fun ht' => absurd ht' ht).symm
      · rw [hasType_serializeItems]
        exact Bool.eq_false_iff.2 ht
  | .none, _ | .bool _, _ | .int _, _ | .float _, _ | .str _, _ =>
    iff_of_true rfl (List.forall_mem_singleton.2 trivial)
  | .bytes bs, _ => iff_of_true (bytes_returns reg bs) (List.forall_mem_singleton.2 trivial)
  | .datetime s folds, h => by
    have hs : R.fromIsoformat s = some s := h _ (List.mem_singleton_self _)
    have ht := isoformat_returns (J := J) (R := R) reg s
    change _ = some _ ↔ ∀ x ∈ [_], _
    rw [List.forall_mem_singleton]
    show (J.reload (serializeLeaf (.datetime s folds))).bind (R.deserializeObject reg) = _ ↔ _
    rw [serializeLeaf, ht, hs]
    simp [Survives, eq_comm]
  | .date s, _ => by
    refine iff_of_false (fun hd => ?_) fun hd => hd _ (List.mem_singleton_self _)
    have ht := (isoformat_returns reg s).symm.trans hd
    simp at ht
  | .time s, _ => by
    refine iff_of_false (fun hd => ?_) fun hd => hd _ (List.mem_singleton_self _)
    have ht := (isoformat_returns reg s).symm.trans hd
    simp at ht
  | .timedelta us, _ => by
    have ht := timedelta_returns (J := J) (R := R) reg us
    change _ = some _ ↔ ∀ x ∈ [_], _
    rw [List.forall_mem_singleton]
    show (J.reload (serializeLeaf (.timedelta us))).bind (R.deserializeObject reg) = _ ↔ _
    rw [ht]
    simp [Survives]
  | .set xs, h => by
    have hn : (xs.filterMap Obj.key).Nodup := h _ (List.mem_singleton_self _)
    change _ ↔ ∀ x ∈ [_], _
    rw [List.forall_mem_singleton]
    show (J.reload (serializeLeaf (.set xs))).bind (R.deserializeObject reg) = _ ↔ _
    rw [set_returns, J.setOf_reloadList hn]
    rfl
  | .uuid s, h => by
    have hs : R.uuid s = some s := h _ (List.mem_singleton_self _)
    refine iff_of_true ?_ (List.forall_mem_singleton.2 trivial)
    exact (uuid_returns reg s).trans (by rw [hs]; rfl)
  | .enum c value, _ => by
    change _ ↔ ∀ x ∈ [_], _
    rw [enum_returns, List.forall_mem_singleton]
    simp [Survives, Option.bind_eq_some_iff]
  | .mixin c base, h => by
    have hb : base.isBase = true := h _ (List.mem_singleton_self _)
    exact iff_of_false (mixin_returns reg hb reg') fun hd => hd _ (List.mem_singleton_self _)

theorem returnsList_iff (reg' : ClassRegistry C) : ∀ {xs : List (Obj C)},
    (∀ x ∈ Obj.partsList xs, R.IsObject x) →
    ((J.reloadList (R.serializeList reg' xs).2).bind (R.deserializeList reg) = some xs ↔
      ∀ x ∈ Obj.partsList xs, R.Survives J reg x)
  | [], _ => iff_of_true rfl nofun
  | x :: xs, h => by
    rw [Obj.partsList, List.forall_mem_append] at h
    rw [serializeList, returns_cons, returns_iff reg' h.1, returnsList_iff _ h.2, Obj.partsList,
      List.forall_mem_append]

theorem returnsItems_iff (reg' : ClassRegistry C) : ∀ {items : List (String × Obj C)},
    (∀ x ∈ Obj.partsItems items, R.IsObject x) →
    ((J.reloadItems (R.serializeItems reg' items).2).bind (R.deserializeItems reg) = some items ↔
      ∀ x ∈ Obj.partsItems items, R.Survives J reg x)
  | [], _ => iff_of_true rfl nofun
  | (k, v) :: items, h => by
    rw [Obj.partsItems, List.forall_mem_append] at h
    rw [serializeItems, returns_item, returns_iff reg' h.1, returnsItems_iff _ h.2, Obj.partsItems,
      List.forall_mem_append]

end

/-- **The round trip**: an object comes back exactly if all its parts do, with the classes as they are
registered when it has been serialized. -/
theorem deserialize_serialize_iff (reg : ClassRegistry C) {obj : Obj C} (h : R.Built obj) :
    R.roundTrip J reg obj = some obj ↔
      ∀ x ∈ obj.parts, R.Survives J (R.registered reg obj) x := by
  rw [roundTrip, serializeObject_fst]
  exact returns_iff R J _ reg h

/-! ## An Enum class of two values, and the `json` module -/

/-- `Color(1)` and `Color(2)`, and the readers of a few texts. -/
def sampleRuntime : Runtime Unit where
  className _ := "app.Color"
  lazyImport name := if name = "app.Color" then some () else none
  call
    | _, .int 1 => some (.enum () (.int 1))
    | _, .int 2 => some (.enum () (.int 2))
    | _, _ => none
  callKwargs _ _ := none
  loads _ := none
  fromIsoformat
    | "2024-05-06T07:08:09" => some "2024-05-06T07:08:09"
    | "2024-05-06" => some "2024-05-06T00:00:00"
    | "2024-10-27T02:30:00+02:00" => some "2024-10-27T02:30:00+02:00"
    | _ => none
  uuid
    | "12345678-1234-5678-1234-567812345678" => some "12345678-1234-5678-1234-567812345678"
    | _ => none

/-- A subclass of a number or of `str` is written as one, anything else that is no JSON raises. -/
def jsonModule (C : Type) : JsonLib C where
  other
    | .mixin _ (.int n) => some (.int n)
    | .mixin _ (.float x) => some (.float x)
    | .mixin _ (.str s) => some (.str s)
    | _ => none
  isAtom_mixin {c base obj} h := by
    cases base <;> cases h <;> rfl

/-- A list with an object of almost every kind. -/
def sampleObj : Obj Unit :=
  .list [.none, .bool true, .int 1, .str "a", .bytes [0, 255],
    .dict [("at", .datetime "2024-05-06T07:08:09" false), ("took", .timedelta 1500000)],
    .set [.int 1, .str "a"], .uuid "12345678-1234-5678-1234-567812345678", .enum () (.int 2)]

theorem deserialize_serialize_sample :
    sampleRuntime.Built sampleObj ∧
      sampleRuntime.roundTrip (jsonModule Unit) (fun _ => none) sampleObj = some sampleObj := by
  have hbuilt : sampleRuntime.Built sampleObj := by
    simp [Built, sampleObj, Obj.parts, Obj.partsList, Obj.partsItems, Obj.hasType, IsObject,
      sampleRuntime, Obj.key]
  refine ⟨hbuilt, (deserialize_serialize_iff sampleRuntime (jsonModule Unit) _ hbuilt).2 ?_⟩
  have hlong : ofSeconds (totalSeconds 1500000) = some 1500000 :=
    ofSeconds_totalSeconds (by decide)
  have henum : sampleRuntime.Survives (jsonModule Unit)
      (sampleRuntime.registered (fun _ => none) sampleObj) (.enum () (.int 2)) :=
    ⟨(), .int 2, rfl, rfl, rfl⟩
  simpa [sampleObj, Obj.parts, Obj.partsList, Obj.partsItems, Obj.hasType, Survives, Obj.isAtom,
    hlong] using henum

/-- A date comes back as a datetime, and a datetime of a repeated hour as one of another zone; a dict
with a type, a set of bytes and the longest timedelta raise; an `IntEnum` member comes back as a number. -/
theorem deserialize_serialize_broken :
    let back := sampleRuntime.roundTrip (jsonModule Unit) (fun _ => none)
    let objs : List (Obj Unit) := [.date "2024-05-06", .datetime "2024-10-27T02:30:00+02:00" true,
      .dict [("__type__", .str "a")], .set [.bytes [0]], .timedelta timedeltaMax, .mixin () (.int 1)]
    (∀ obj ∈ objs, sampleRuntime.Built obj) ∧
      objs.map back = [some (.datetime "2024-05-06T00:00:00" false),
        some (.datetime "2024-10-27T02:30:00+02:00" false), none, none, none, some (.int 1)] := by
  intro back objs
  have hlong : ofSeconds (totalSeconds timedeltaMax) = none := by decide +kernel
  have hback : back (.timedelta timedeltaMax) = none :=
    (timedelta_returns (J := jsonModule Unit) (R := sampleRuntime) (fun _ => none) timedeltaMax).trans
      (by rw [hlong]; rfl)
  constructor
  · simp [objs, Built, Obj.parts, Obj.hasType, IsObject, sampleRuntime, Obj.isBase, Obj.key,
      List.filterMap_cons]
  · simp only [objs, List.map_cons, hback]
    rfl

end Runtime

end Kvdb
