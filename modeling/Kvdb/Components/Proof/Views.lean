import Kvdb.Components.Views
import Kvdb.Components.Proof.Cells
import Kvdb.Components.Proof.Namespace

/-!
# Reads in hset mode agree

Every read goes by the value that the get script returns at that time: the check of one key
(`hget_hsetExpirationCheck`), that of given keys and that of all (`hget_runExpirationCheck`) compare
the deadlines in the same way. What is left is whether the session and the serializer can read the
values (`HsetReader.Reads`), and that decides (`agree_iff`).
-/

namespace Kvdb

open Redis Python HsetStore

/-! ## The expiration checks -/

namespace HsetStore

variable {R : Type} {s : HsetStore R} {now : ℤ} {k : String}

open Classical in
theorem hget_foldl_expireItem (items : List (String × Option ℤ)) (s : HsetStore R) (k : String) :
    (items.foldl (expireItem now) s).data.hget k =
      if ∃ e, (k, some e) ∈ items ∧ e < now then none else s.data.hget k := by
  induction items generalizing s with
  | nil => simp
  | cons item items ih =>
    obtain ⟨k', exp⟩ := item
    rw [List.foldl_cons, ih]
    have hstep : (expireItem now s (k', exp)).data.hget k =
        if k = k' ∧ ∃ e, exp = some e ∧ e < now then none else s.data.hget k := by
      cases exp with
      | none => simp [expireItem]
      | some e =>
        simp only [expireItem, Option.some.injEq]
        by_cases he : e < now
        · rw [if_pos he, Hash.hget_hdel]
          simp [he]
        · rw [if_neg he, if_neg]
          rintro ⟨-, e', rfl, he'⟩
          exact he he'
    rw [hstep]
    simp only [List.mem_cons, Prod.mk.injEq]
    by_cases htail : ∃ e, (k, some e) ∈ items ∧ e < now
    · obtain ⟨e, hm, he⟩ := htail
      rw [if_pos ⟨e, hm, he⟩, if_pos ⟨e, .inr hm, he⟩]
    · rw [if_neg htail]
      by_cases hhead : k = k' ∧ ∃ e, exp = some e ∧ e < now
      · obtain ⟨rfl, e, rfl, he⟩ := hhead
        rw [if_pos ⟨rfl, e, rfl, he⟩, if_pos ⟨e, .inl ⟨rfl, rfl⟩, he⟩]
      · rw [if_neg hhead, if_neg]
        rintro ⟨e, ⟨rfl, rfl⟩ | hm, he⟩
        · exact hhead ⟨rfl, e, rfl, he⟩
        · exact htail ⟨e, hm, he⟩

open Classical in
/-- What the get script returns. -/
theorem luaHget_fst_eq (k : String) :
    (s.luaHget k now).1 =
      if ∃ e, s.expIndex.hget k = some e ∧ e < now then none else s.data.hget k := by
  unfold luaHget
  cases hd : s.data.hget k with
  | none => simp
  | some v =>
    cases hi : s.expIndex.hget k with
    | none => simp
    | some e => by_cases he : e < now <;> simp [he]

/-- `_run_expiration_check` leaves what the get script returns. -/
theorem hget_runExpirationCheck {keys : List String} (hk : keys = [] ∨ k ∈ keys) :
    (s.runExpirationCheck now keys).data.hget k = (s.luaHget k now).1 := by
  classical
  rw [runExpirationCheck, hget_foldl_expireItem, luaHget_fst_eq]
  refine if_congr (exists_congr fun e => and_congr_left fun he => ?_) rfl rfl
  rw [expItems, List.mem_map]
  constructor
  · rintro ⟨k', -, hp⟩
    obtain ⟨rfl, hi⟩ := Prod.mk.inj hp
    exact hi
  · intro hi
    refine ⟨k, ?_, by rw [hi]⟩
    split
    · exact Hash.mem_hkeys.2 (by simp [hi])
    · exact hk.resolve_left ‹_›

theorem mem_hkeys_runExpirationCheck :
    k ∈ (s.runExpirationCheck now []).data.hkeys ↔ (s.luaHget k now).1 ≠ none := by
  rw [Hash.mem_hkeys, hget_runExpirationCheck (.inl rfl)]

theorem hget_of_luaHget {v : R} (h : (s.luaHget k now).1 = some v) : s.data.hget k = some v := by
  rw [luaHget_fst_eq] at h
  split at h
  · cases h
  · exact h

end HsetStore

namespace HsetReader

variable {V : Type} (r : HsetReader V) {now : ℤ} {s : HsetStore ByteArray} {k : String}

theorem contains_iff : (contains now s k).1 = true ↔ (s.luaHget k now).1 ≠ none := by
  rw [contains, Hash.hexists, hget_hsetExpirationCheck, Option.isSome_iff_ne_none]

/-- The session and the serializer can read a value, and it is no `None`. -/
def Reads (raw : ByteArray) (v : V) : Prop :=
  ∃ value, r.response raw = .ok value ∧ value ≠ .null ∧ r.decodeValue value = .ok v

variable {r}

theorem Reads.unique {raw : ByteArray} {v v' : V} (h : r.Reads raw v) (h' : r.Reads raw v') :
    v = v' := by
  obtain ⟨value, hr, -, hv⟩ := h
  obtain ⟨value', hr', -, hv'⟩ := h'
  obtain rfl : value = value' := Except.ok.inj (hr.symm.trans hr')
  exact Except.ok.inj (hv.symm.trans hv')

theorem Reads.storedValue {raw : ByteArray} {v : V} (h : r.Reads raw v)
    (hd : s.data.hget k = some raw) : r.storedValue s k = some v := by
  obtain ⟨value, hr, hn, hv⟩ := h
  rw [HsetReader.storedValue, hd, Option.map_some, hr]
  cases value with
  | null => exact absurd rfl hn
  | str | bytes | list | dict => simp [hv, Except.toOption]

theorem get_of_missing (h : (s.luaHget k now).1 = none) (default : Option V) :
    (r.get now s k default).1 = .ok default := by
  rcases hl : s.luaHget k now with ⟨o, s'⟩
  rw [hl] at h
  obtain rfl : o = none := h
  simp only [get, hl]

theorem Reads.get {raw : ByteArray} {v : V} (h : r.Reads raw v)
    (hl : (s.luaHget k now).1 = some raw) (default : Option V) :
    (r.get now s k default).1 = .ok (some v) := by
  obtain ⟨value, hr, hn, hv⟩ := h
  rcases hs : s.luaHget k now with ⟨o, s'⟩
  rw [hs] at hl
  obtain rfl : o = some raw := hl
  simp only [HsetReader.get, hs, hr]
  cases value with
  | null => exact absurd rfl hn
  | str | bytes | list | dict => simp only [hv]

/-! ## Several values -/

/-- `get_values` on values that can be read. -/
theorem valuesLoop_of_reads {keys : List String} {s' : HsetStore ByteArray}
    (h : ∀ k ∈ keys, ∃ raw v, s'.data.hget k = some raw ∧ (s.luaHget k now).1 = some raw ∧
      r.Reads raw v) :
    ∃ (values : List PyVal) (results : List (Option V)),
      (keys.mapM fun key => (s'.data.hget key).elim (.ok .null) r.response) = .ok values ∧
        (∀ t, (r.valuesLoop t (keys.zip values)).1 = results) ∧
        keys.map (fun k => (r.get now s k none).1) = results.map .ok := by
  induction keys with
  | nil => exact ⟨[], [], rfl, fun _ => rfl, rfl⟩
  | cons k keys ih =>
    obtain ⟨raw, v, hd, hl, hreads⟩ := h k List.mem_cons_self
    obtain ⟨values, results, hm, hloop, hget⟩ := ih fun k' hk' => h k' (List.mem_cons_of_mem _ hk')
    have hv := hreads.get hl none
    obtain ⟨value, hr, hn, hdec⟩ := hreads
    refine ⟨value :: values, some v :: results, ?_, fun t => ?_, ?_⟩
    · rw [List.mapM_cons, hm, hd, Option.elim_some, hr]
      rfl
    · simp only [List.zip_cons_cons, valuesLoop, hdec, hloop]
    · rw [List.map_cons, hv, hget, List.map_cons]

/-- `get_all_data` on values that can be read. -/
theorem dataLoop_of_reads {entries : List (String × ByteArray)}
    (h : ∀ p ∈ entries, ∃ v, r.Reads p.2 v) :
    ∃ (items : List (PyKey × PyVal)) (kvs : List (PyKey × V)),
      (entries.mapM fun p => (r.response p.2).map fun value =>
        (responseKey r.decodeResponses p.1, value)) = .ok items ∧
        (∀ results t, (r.dataLoop results t items).1 =
          .ok (kvs.foldl (fun d p => d.setItem p.1 p.2) results)) ∧
        kvs.map Prod.fst = entries.map (fun p => responseKey r.decodeResponses p.1) ∧
        ∀ key v, (key, v) ∈ kvs ↔
          ∃ p ∈ entries, key = responseKey r.decodeResponses p.1 ∧ r.Reads p.2 v := by
  induction entries with
  | nil => exact ⟨[], [], rfl, fun _ _ => rfl, rfl, by simp⟩
  | cons p entries ih =>
    obtain ⟨v, hreads⟩ := h p List.mem_cons_self
    obtain ⟨items, kvs, hm, hloop, hkeys, hmem⟩ :=
      ih fun p' hp' => h p' (List.mem_cons_of_mem _ hp')
    have hunique : ∀ v', r.Reads p.2 v' ↔ v' = v := fun v' =>
      ⟨fun h' => h'.unique hreads, fun h' => h' ▸ hreads⟩
    obtain ⟨value, hr, hn, hdec⟩ := hreads
    refine ⟨(responseKey r.decodeResponses p.1, value) :: items,
      (responseKey r.decodeResponses p.1, v) :: kvs, ?_, fun results t => ?_, ?_, fun key v' => ?_⟩
    · rw [List.mapM_cons, hm, hr]
      rfl
    · simp only [dataLoop, hdec, hloop, List.foldl_cons]
    · rw [List.map_cons, hkeys, List.map_cons]
    · simp only [List.mem_cons, Prod.mk.injEq, hmem, exists_eq_or_imp, hunique]

/-! ## Agreement -/

theorem Readable.reads (h : r.Readable now s) {raw : ByteArray}
    (hl : (s.luaHget k now).1 = some raw) : ∃ v, r.Reads raw v := by
  obtain ⟨value, v, hr, hn, hv⟩ := h.value k raw hl
  exact ⟨v, value, hr, hn, hv⟩

/-- No key that is left is taken for `None`. -/
theorem Readable.not_null (h : r.Readable now s) (hl : (s.luaHget k now).1 ≠ none) :
    ¬ (r.decodeResponses = true ∧ k = encoderNullValue) := by
  rintro ⟨hd, rfl⟩
  exact hl (h.key hd)

theorem fieldResponse_inj {k k' : String} (hk : ¬ (r.decodeResponses = true ∧ k = encoderNullValue))
    (h : r.fieldResponse k' = r.fieldResponse k) : k' = k := by
  unfold fieldResponse at h
  split at h
  · rename_i hd
    rw [(responseKey_eq_some (m := k)).2 ⟨rfl, fun hn => hk ⟨hd, hn.2⟩⟩] at h
    rcases hk' : responseKey true k' with _ | m
    · rw [hk'] at h
      cases h
    · obtain ⟨rfl, -⟩ := responseKey_eq_some.1 hk'
      rw [hk'] at h
      cases h
      rfl
  · have hbytes : k'.toUTF8 = k.toUTF8 := PyVal.bytes.inj h
    simpa [String.toByteArray_inj] using hbytes

/-- What `get_all_data` returns. -/
theorem getAllData_of_readable (h : r.Readable now s) :
    ∃ data, (r.getAllData now s).1 = .ok data ∧
      ∀ key v, data.get? key = some v ↔
        ∃ k raw, key = some k ∧ (s.luaHget k now).1 = some raw ∧ r.Reads raw v := by
  have hentry : ∀ p ∈ (s.runExpirationCheck now []).data.hgetall,
      (s.luaHget p.1 now).1 = some p.2 := by
    intro p hp
    rw [← hget_runExpirationCheck (.inl rfl)]
    exact Hash.mem_hgetall.1 hp
  obtain ⟨items, kvs, hm, hloop, hkeys, hmem⟩ := dataLoop_of_reads (r := r) fun p hp =>
    h.reads (hentry p hp)
  refine ⟨Dict.ofPairs kvs, by simp only [getAllData, hgetall, hm, hloop]; rfl, fun key v => ?_⟩
  have hkey : ∀ p ∈ (s.runExpirationCheck now []).data.hgetall,
      responseKey r.decodeResponses p.1 = some p.1 := by
    intro p hp
    exact responseKey_eq_some.2 ⟨rfl, h.not_null (by simp [hentry p hp])⟩
  have hnodup : (kvs.map Prod.fst).Nodup := by
    rw [hkeys, List.map_congr_left hkey]
    have hfields := (Hash.nodup_hkeys (s.runExpirationCheck now []).data).map
      (Option.some_injective String)
    rwa [← Hash.map_fst_hgetall, List.map_map] at hfields
  rw [Dict.get?_ofPairs, lastOf_eq_some_of_nodup hnodup, hmem]
  constructor
  · rintro ⟨p, hp, rfl, hreads⟩
    exact ⟨p.1, p.2, hkey p hp, hentry p hp, hreads⟩
  · rintro ⟨k, raw, rfl, hraw, hreads⟩
    have hp : (k, raw) ∈ (s.runExpirationCheck now []).data.hgetall := by
      rw [Hash.mem_hgetall, hget_runExpirationCheck (.inl rfl), hraw]
    exact ⟨(k, raw), hp, (hkey (k, raw) hp).symm, hreads⟩

/-- The reads agree if the values and keys can be read. -/
theorem Readable.agree (h : r.Readable now s) : r.Agree now s := by
  have hlive : ∀ k, (contains now s k).1 = true → ∃ raw v, (s.luaHget k now).1 = some raw ∧
      r.Reads raw v := by
    intro k hk
    obtain ⟨raw, hraw⟩ := Option.ne_none_iff_exists'.1 (contains_iff.1 hk)
    obtain ⟨v, hv⟩ := h.reads hraw
    exact ⟨raw, v, hraw, hv⟩
  refine ⟨?_, fun k => ?_, fun k => ⟨fun hk => ?_, fun hk => ?_⟩, fun k hk default => ?_,
    fun keys hne hkeys => ?_, ?_⟩
  · refine ⟨(s.runExpirationCheck now []).data.hkeys, ?_, Hash.nodup_hkeys _, fun k => ?_, rfl⟩
    · rw [getAllKeys, if_neg h.base]
      refine congrArg Except.ok (map_responseKey fun hd hm => ?_)
      exact mem_hkeys_runExpirationCheck.1 hm (h.key hd)
    · rw [mem_hkeys_runExpirationCheck, contains_iff]
  · rw [contains_iff, iterate, List.mem_map]
    constructor
    · rintro ⟨k', hk', hf⟩
      rw [mem_hkeys_runExpirationCheck] at hk'
      rw [fieldResponse_inj (h.not_null hk') hf.symm]
      exact hk'
    · intro hk
      exact ⟨k, mem_hkeys_runExpirationCheck.2 hk, rfl⟩
  · obtain ⟨raw, v, hraw, hreads⟩ := hlive k hk
    exact ⟨v, hreads.storedValue (hget_of_luaHget hraw), hreads.get hraw⟩
  · obtain ⟨v, -, hget⟩ := hk
    rw [contains_iff]
    intro hnone
    have hdefault := get_of_missing (r := r) hnone none
    rw [hget none] at hdefault
    cases hdefault
  · refine get_of_missing (not_not.1 fun hne => ?_) default
    rw [contains_iff.2 hne] at hk
    cases hk
  · have hread : ∀ k ∈ keys, ∃ raw v, (s.runExpirationCheck now keys).data.hget k = some raw ∧
        (s.luaHget k now).1 = some raw ∧ r.Reads raw v := by
      intro k hk
      obtain ⟨raw, v, hraw, hreads⟩ := hlive k (hkeys k hk)
      exact ⟨raw, v, by rw [hget_runExpirationCheck (.inr hk), hraw], hraw, hreads⟩
    obtain ⟨values, results, hm, hloop, hget⟩ := valuesLoop_of_reads hread
    refine ⟨results, ?_, hget⟩
    simp only [getValues, hmget, if_neg hne, hm, hloop]
  · obtain ⟨data, hdata, hentries⟩ := getAllData_of_readable h
    refine ⟨data, hdata, fun k hk => ?_, fun key hkey => ?_⟩
    · obtain ⟨raw, v, hraw, hreads⟩ := hlive k hk
      rw [hreads.get hraw, (hentries (some k) v).2 ⟨k, raw, rfl, hraw, hreads⟩]
    · obtain ⟨v, hv⟩ := Option.ne_none_iff_exists'.1 hkey
      obtain ⟨k, raw, rfl, hraw, -⟩ := (hentries key v).1 hv
      exact ⟨k, rfl, contains_iff.2 (by simp [hraw])⟩

/-! ## Only then -/

theorem ok_of_toOption {o : Except ViewExc V} {v : V} (h : o.toOption = some v) : o = .ok v := by
  cases o with
  | error e => cases h
  | ok w => exact congrArg Except.ok (Option.some.inj h)

/-- A value that is stored and can be read. -/
theorem reads_of_storedValue {raw : ByteArray} {v : V} (hd : s.data.hget k = some raw)
    (h : r.storedValue s k = some v) : r.Reads raw v := by
  rw [storedValue, hd, Option.map_some] at h
  cases hr : r.response raw with
  | error e =>
    rw [hr] at h
    cases h
  | ok value =>
    rw [hr] at h
    cases value with
    | null => cases h
    | str | bytes | list | dict => exact ⟨_, hr, nofun, ok_of_toOption h⟩

/-- What is taken for `None` is listed as `None`. -/
theorem Agree.not_null (h : r.Agree now s) (hd : r.decodeResponses = true) :
    (s.luaHget encoderNullValue now).1 = none := by
  by_contra hne
  obtain ⟨keys, hkeys, -⟩ := h.listed
  rw [getAllKeys] at hkeys
  split at hkeys
  · cases hkeys
  · have hmem : responseKey r.decodeResponses encoderNullValue ∈ keys.map some := by
      rw [← Except.ok.inj hkeys]
      exact List.mem_map_of_mem (mem_hkeys_runExpirationCheck.2 hne)
    have hnone : responseKey r.decodeResponses encoderNullValue = none := by simp [hd, responseKey]
    rw [hnone] at hmem
    simp at hmem

theorem Agree.readable (h : r.Agree now s) : r.Readable now s := by
  refine ⟨fun hb => ?_, fun k raw hl => ?_, h.not_null⟩
  · obtain ⟨keys, hkeys, -⟩ := h.listed
    rw [getAllKeys, if_pos hb] at hkeys
    cases hkeys
  · obtain ⟨v, hv, -⟩ := (h.stored k).1 (contains_iff.2 (by simp [hl]))
    obtain ⟨value, hreads⟩ := reads_of_storedValue (hget_of_luaHget hl) hv
    exact ⟨value, v, hreads⟩

/-- **The reads agree**, in every state and at every time, if and only if the values and keys can be
read. -/
theorem agree_iff (r : HsetReader V) (now : ℤ) (s : HsetStore ByteArray) :
    r.Agree now s ↔ r.Readable now s :=
  ⟨Agree.readable, Readable.agree⟩

/-! ## Values that cannot be read -/

/-- A backend whose values are texts. -/
def textReader (baseKey : String) (decodeResponses : Bool) : HsetReader String where
  baseKey
  decodeResponses
  decodeValue
    | .str text => .ok text
    | .bytes bs => (String.fromUTF8? bs).elim (.error .other) .ok
    | _ => .error .attribute

/-- A value whose deadline is ahead. -/
theorem agree_text : (textReader "b" false).Agree 50 (luaHset {} "x" "1".toUTF8 (some 100)) := by
  refine (agree_iff (textReader "b" false) 50 _).2
    ⟨by decide, fun k raw hl => ?_, fun h => by cases h⟩
  have hd := hget_of_luaHget hl
  rw [luaHset, Hash.hget_hset] at hd
  split at hd
  · cases hd
    exact ⟨.bytes "1".toUTF8, "1", rfl, by simp, by decide +kernel⟩
  · cases hd

/-- A value that cannot be read is there for `contains`, not for `get`, and makes `get_all_data`
raise. `null` is there for `contains` and not for `get` if the session decodes responses, which takes
a key `null` for `None`; and without a base key there is no listing. -/
theorem not_agree :
    (contains 0 (luaHset {} "x" ⟨#[255]⟩ none) "x").1 = true ∧
      ((textReader "b" false).get 0 (luaHset {} "x" ⟨#[255]⟩ none) "x" none).1 = .ok none ∧
      ((textReader "b" false).getAllData 0 (luaHset {} "x" ⟨#[255]⟩ none)).1.isOk = false ∧
      ¬ (textReader "b" false).Agree 0 (luaHset {} "x" ⟨#[255]⟩ none) ∧
      ¬ (textReader "b" true).Agree 0 (luaHset {} "x" "null".toUTF8 none) ∧
      ¬ (textReader "b" true).Agree 0 (luaHset {} "null" "1".toUTF8 none) ∧
      ¬ (textReader "" false).Agree 0 {} := by
  refine ⟨by decide +kernel, by decide +kernel, by decide +kernel, fun h => ?_, fun h => ?_,
    fun h => ?_, fun h => ?_⟩
  · obtain ⟨v, hv, -⟩ := (h.stored "x").1 (by decide +kernel)
    have hnone : (textReader "b" false).storedValue (luaHset {} "x" ⟨#[255]⟩ none) "x" = none := by
      decide +kernel
    rw [hnone] at hv
    cases hv
  · obtain ⟨v, hv, -⟩ := (h.stored "x").1 (by decide +kernel)
    have hnone : (textReader "b" true).storedValue (luaHset {} "x" "null".toUTF8 none) "x" =
        none := by
      decide +kernel
    rw [hnone] at hv
    cases hv
  · obtain ⟨keys, hkeys, -⟩ := h.listed
    have hlist : ((textReader "b" true).getAllKeys 0 (luaHset {} "null" "1".toUTF8 none)).1 =
        .ok [none] := by
      decide +kernel
    rw [hlist] at hkeys
    cases keys with
    | nil => cases hkeys
    | cons k keys => cases hkeys
  · obtain ⟨keys, hkeys, -⟩ := h.listed
    cases hkeys

end HsetReader

end Kvdb
