import Kvdb.Components.Proof.Dump

/-!
# Dump and load: what is dumpable comes back

For a dumpable content the loop of the dump and the load are computed: every value stands under its
exported key as `exported` (`foldlM_dumpable`), the hexadecimal ones are read back
(`get?_foldl_unhexItem`), and the mapping that is loaded has the fields and values of the backend
(`Carries`). With the other direction this is `roundTrips_iff`.
-/

namespace Kvdb

open Redis Python HsetStore

namespace Backend

variable {V : Type} {b : Backend ByteArray V} {decodeResponses includeBaseKey excludeBaseKey : Bool}
  {s : HsetStore ByteArray}

/-! ## The dump -/

theorem toUTF8_of_fromUTF8? {bs : ByteArray} {text : String} (h : String.fromUTF8? bs = some text) :
    text.toUTF8 = bs := by
  unfold String.fromUTF8? at h
  split at h
  · cases h
    rfl
  · cases h

/-- The value is exported in hexadecimal. -/
def hexed (decodeResponses : Bool) (value : ByteArray) : Bool :=
  !decodeResponses && (String.fromUTF8? value).isNone

/-- The value in the dump. -/
def exported (decodeResponses : Bool) (value : ByteArray) : PyVal :=
  match String.fromUTF8? value with
  | some text => if decodeResponses ∧ value = encoderNullValue.toUTF8 then .null else .str text
  | none => .str (String.ofList (hex value.data.toList))

/-- The value that is loaded. -/
def restored (decodeResponses : Bool) (value : ByteArray) : PyVal :=
  if hexed decodeResponses value then .bytes value else exported decodeResponses value

/-- The entry of the hexadecimal keys; without any there is none. -/
def hexedList (keys : List PyKey) : Option PyVal := if keys = [] then none else some (.list keys)

theorem appendHexed_hexedList {results : Dict PyKey PyVal} {keys : List PyKey} (n : PyKey)
    (h : results.get? hexedEntry = hexedList keys) :
    appendHexed results n = some (results.setItem hexedEntry (.list (keys ++ [n]))) := by
  unfold appendHexed
  rw [h, hexedList]
  by_cases hk : keys = []
  · subst hk
    rfl
  · rw [if_neg hk]

/-- The item is one of a dumpable content. -/
structure DumpableItem (b : Backend ByteArray V) (decodeResponses excludeBaseKey : Bool)
    (p : String × ByteArray) : Prop where
  key : b.exportKey excludeBaseKey (responseKey decodeResponses p.1) =
    some (some (b.exportName excludeBaseKey p.1))
  unreserved : some (b.exportName excludeBaseKey p.1) ≠ hexedEntry
  decoded : decodeResponses = true → p.2.IsValidUTF8

/-- The keys of the values in hexadecimal. -/
def hexedNames (b : Backend ByteArray V) (decodeResponses excludeBaseKey : Bool)
    (items : List (String × ByteArray)) : List PyKey :=
  (items.filter fun p => hexed decodeResponses p.2).map fun p => some (b.exportName excludeBaseKey p.1)

theorem dumpItem_dumpable {results : Dict PyKey PyVal} {p : String × ByteArray} {keys : List PyKey}
    (hp : DumpableItem b decodeResponses excludeBaseKey p)
    (h : results.get? hexedEntry = hexedList keys) :
    ∃ r, b.dumpItem decodeResponses excludeBaseKey results p = some r ∧
      r.get? hexedEntry = hexedList (keys ++ hexedNames b decodeResponses excludeBaseKey [p]) ∧
      ∀ m, m ≠ hexedEntry → r.get? m =
        if m = some (b.exportName excludeBaseKey p.1) then some (exported decodeResponses p.2)
        else results.get? m := by
  have hset : ∀ {d : Dict PyKey PyVal} {v : PyVal},
      v = exported decodeResponses p.2 →
      d.get? hexedEntry = hexedList (keys ++ hexedNames b decodeResponses excludeBaseKey [p]) →
      (∀ m, m ≠ hexedEntry → d.get? m = results.get? m) →
      b.dumpItem decodeResponses excludeBaseKey results p =
        some (d.setItem (some (b.exportName excludeBaseKey p.1)) v) →
      ∃ r, b.dumpItem decodeResponses excludeBaseKey results p = some r ∧
        r.get? hexedEntry = hexedList (keys ++ hexedNames b decodeResponses excludeBaseKey [p]) ∧
        ∀ m, m ≠ hexedEntry → r.get? m =
          if m = some (b.exportName excludeBaseKey p.1) then some (exported decodeResponses p.2)
          else results.get? m := by
    rintro d v rfl hx hd hr
    refine ⟨_, hr, ?_, fun m hm => ?_⟩
    · rw [Dict.get?_setItem, if_neg (Ne.symm hp.unreserved), hx]
    · rw [Dict.get?_setItem, hd m hm]
  cases ht : String.fromUTF8? p.2 with
  | some text =>
    have hnames : hexedNames b decodeResponses excludeBaseKey [p] = [] := by
      simp [hexedNames, hexed, ht]
    refine hset (d := results) rfl (by rw [hnames, List.append_nil, h]) (fun _ _ => rfl) ?_
    unfold dumpItem exported decodeResponse
    rw [hp.key, ht]
    simp only [String.toUTF8_eq_toByteArray]
    cases decodeResponses with
    | false => simp [ht]
    | true =>
      by_cases hnull : p.2 = encoderNullValue.toByteArray <;> simp [hnull]
  | none =>
    have hdec : decodeResponses = false := by
      by_contra hdec
      have hv := hp.decoded (Bool.not_eq_false _ ▸ hdec)
      simp [String.fromUTF8?, hv] at ht
    subst hdec
    have hnames : hexedNames b false excludeBaseKey [p] =
        [some (b.exportName excludeBaseKey p.1)] := by
      simp [hexedNames, hexed, ht]
    refine hset (d := results.setItem hexedEntry
      (.list (keys ++ [some (b.exportName excludeBaseKey p.1)]))) rfl ?_ (fun m hm => ?_) ?_
    · rw [Dict.get?_setItem, if_pos rfl, hnames, hexedList, if_neg (by simp)]
    · rw [Dict.get?_setItem, if_neg hm]
    · unfold dumpItem exported decodeResponse
      rw [hp.key]
      simp [ht, appendHexed_hexedList _ h]

/-- **The loop of the dump** on a dumpable content. -/
theorem foldlM_dumpable {items : List (String × ByteArray)} {results : Dict PyKey PyVal}
    {keys : List PyKey} (hp : ∀ p ∈ items, DumpableItem b decodeResponses excludeBaseKey p)
    (h : results.get? hexedEntry = hexedList keys) :
    ∃ r, items.foldlM (b.dumpItem decodeResponses excludeBaseKey) results = some r ∧
      r.get? hexedEntry = hexedList (keys ++ hexedNames b decodeResponses excludeBaseKey items) ∧
      ∀ m, m ≠ hexedEntry → r.get? m =
        (lastOf (items.map fun p => ((some (b.exportName excludeBaseKey p.1) : PyKey),
          exported decodeResponses p.2)) m).or (results.get? m) := by
  induction items generalizing results keys with
  | nil => exact ⟨results, rfl, by simpa [hexedNames] using h, fun _ _ => rfl⟩
  | cons p items ih =>
    obtain ⟨d, hd, hx, hget⟩ := dumpItem_dumpable (hp p List.mem_cons_self) h
    obtain ⟨r, hr, hrx, hrget⟩ := ih (fun q hq => hp q (List.mem_cons_of_mem _ hq)) hx
    refine ⟨r, ?_, ?_, fun m hm => ?_⟩
    · rw [List.foldlM_cons, hd]
      exact hr
    · rw [hrx, List.append_assoc]
      simp only [hexedNames, ← List.map_append, ← List.filter_append, List.singleton_append]
    · rw [hrget m hm, hget m hm, List.map_cons, lastOf_cons]
      cases lastOf (items.map fun p => ((some (b.exportName excludeBaseKey p.1) : PyKey),
          exported decodeResponses p.2)) m with
      | some => rfl
      | none => by_cases hk : m = some (b.exportName excludeBaseKey p.1) <;> simp [hk]

/-! ## The values in hexadecimal -/

/-- An entry after `unhexItem`. -/
def unhexed (o : Option PyVal) : Option PyVal :=
  match o.bind PyVal.unhexlify with
  | some bs => some (.bytes bs)
  | none => o

theorem get?_unhexItem (data : Dict PyKey PyVal) (n m : PyKey) :
    (unhexItem data n).get? m = if m = n then unhexed (data.get? m) else data.get? m := by
  unfold unhexItem unhexed
  by_cases hm : m = n
  · subst hm
    rw [if_pos rfl]
    cases (data.get? m).bind PyVal.unhexlify with
    | some bs => rw [Dict.get?_setItem, if_pos rfl]
    | none => rfl
  · rw [if_neg hm]
    cases (data.get? n).bind PyVal.unhexlify with
    | some bs => rw [Dict.get?_setItem, if_neg hm]
    | none => rfl

theorem get?_foldl_unhexItem_of_nodup {keys : List PyKey} (hn : keys.Nodup)
    (data : Dict PyKey PyVal) (m : PyKey) :
    (keys.foldl unhexItem data).get? m = if m ∈ keys then unhexed (data.get? m) else data.get? m := by
  induction keys generalizing data with
  | nil => simp
  | cons n keys ih =>
    obtain ⟨hnot, hn⟩ := List.nodup_cons.1 hn
    rw [List.foldl_cons, ih hn, get?_unhexItem]
    by_cases hm : m = n
    · subst hm
      simp [hnot]
    · simp [hm]

theorem unhexed_exported {value : ByteArray} (h : hexed decodeResponses value = true) :
    unhexed (some (exported decodeResponses value)) = some (restored decodeResponses value) := by
  have hnone : String.fromUTF8? value = none := by
    simp only [hexed, Bool.and_eq_true, Option.isNone_iff_eq_none] at h
    exact h.2
  rw [restored, if_pos h, exported, hnone, unhexed]
  simp [PyVal.unhexlify, String.toList_ofList, unhexlify_hex]

theorem encode_restored {value : ByteArray} (h : decodeResponses = true → value.IsValidUTF8) :
    (restored decodeResponses value).encode = some value := by
  unfold restored
  split
  · rfl
  · rename_i hx
    unfold exported
    cases ht : String.fromUTF8? value with
    | some text =>
      dsimp only
      split
      · rename_i hnull
        rw [hnull.2]
        rfl
      · exact congrArg some (toUTF8_of_fromUTF8? ht)
    | none =>
      cases decodeResponses with
      | false => simp [hexed, ht] at hx
      | true => simp [String.fromUTF8?, h rfl] at ht

/-! ## The load -/

/-- The dictionary has the values of the backend, under other keys, and nothing else. -/
structure Carries (s : HsetStore ByteArray) (key : String → String) (d : Dict PyKey PyVal) : Prop where
  value : ∀ k v, s.data.hget k = some v → ∃ w, d.get? (some (key k)) = some w ∧ w.encode = some v
  field : ∀ m, d.get? m ≠ none → ∃ k ∈ s.data.hkeys, m = some (key k)

/-- The keys without the base key are the fields. -/
theorem importKeys_carries {key : String → String} {d : Dict PyKey PyVal} (hd : Carries s key d)
    (hkey : ∀ k ∈ s.data.hkeys, (if includeBaseKey then b.stripBase (key k) else key k) = k) :
    ∃ d', b.importKeys includeBaseKey d = some d' ∧ Carries s id d' := by
  cases includeBaseKey with
  | false =>
    refine ⟨d, rfl, fun k v hv => ?_, fun m hm => ?_⟩
    · obtain ⟨w, hw, hv'⟩ := hd.value k v hv
      have hk : key k = k := hkey k (Hash.mem_hkeys.2 (by simp [hv]))
      exact ⟨w, hk ▸ hw, hv'⟩
    · obtain ⟨k, hk, rfl⟩ := hd.field m hm
      exact ⟨k, hk, congrArg some (hkey k hk)⟩
  | true =>
    have hstrip : ∀ k ∈ s.data.hkeys, b.stripBase (key k) = k := hkey
    have htext : ∀ p ∈ d.items, ∃ k ∈ s.data.hkeys, p.1 = some (key k) := fun p hp =>
      hd.field p.1 (by simp [Dict.mem_items.1 (show (p.1, p.2) ∈ d.items from hp)])
    obtain ⟨kvs, hkvs, hmem⟩ := mapM_of_forall
      (f := fun p => p.1.map fun key => ((some (b.stripBase key) : PyKey), p.2))
      fun p (hp : p ∈ d.items) => by
        obtain ⟨k, -, hk⟩ := htext p hp
        simp [hk]
    have hfrom : ∀ m w, lastOf kvs m = some w →
        ∃ k ∈ s.data.hkeys, m = some k ∧ d.get? (some (key k)) = some w := by
      intro m w hl
      obtain ⟨p, hp, hpw⟩ := (mapM_some hkvs).2 (m, w) (mem_of_lastOf hl)
      obtain ⟨k, hk, hpk⟩ := htext p hp
      have hp : (p.1, p.2) ∈ d.items := hp
      rw [hpk] at hpw hp
      cases hpw
      exact ⟨k, hk, congrArg some (hstrip k hk), Dict.mem_items.1 hp⟩
    refine ⟨.ofPairs kvs, by rw [importKeys, if_pos rfl, hkvs]; rfl, fun k v hv => ?_, fun m hm => ?_⟩
    · have hk : k ∈ s.data.hkeys := Hash.mem_hkeys.2 (by simp [hv])
      obtain ⟨w, hw, hv'⟩ := hd.value k v hv
      have hin : ((some k : PyKey), w) ∈ kvs := by
        refine hmem _ (Dict.mem_items.2 hw) _ ?_
        rw [Option.map_some, hstrip k hk]
      obtain ⟨w', hl⟩ := Option.ne_none_iff_exists'.1
        (mt lastOf_eq_none.1 (not_not.2 (List.mem_map_of_mem (f := Prod.fst) hin)))
      obtain ⟨k', -, hkk, hw'⟩ := hfrom _ _ hl
      obtain rfl : k = k' := Option.some.inj hkk
      obtain rfl : w = w' := Option.some.inj (hw.symm.trans hw')
      exact ⟨w, (Dict.get?_ofPairs kvs (some k)).trans hl, hv'⟩
    · obtain ⟨w, hw⟩ := Option.ne_none_iff_exists'.1 hm
      rw [Dict.get?_ofPairs] at hw
      obtain ⟨k, hk, hmk, -⟩ := hfrom m w hw
      exact ⟨k, hk, hmk⟩

/-- The mapping is the data hash. -/
theorem mapM_encodePair {d : Dict PyKey PyVal} (hd : Carries s id d) (hne : s.data.hkeys ≠ []) :
    ∃ mapping, d.items.mapM encodePair = some mapping ∧ mapping ≠ [] ∧
      ∀ k, lastOf mapping k = s.data.hget k := by
  have hitem : ∀ p ∈ d.items, ∃ k v, s.data.hget k = some v ∧ encodePair p = some (k, v) := by
    intro p hp
    have hp : d.get? p.1 = some p.2 := Dict.mem_items.1 (show (p.1, p.2) ∈ d.items from hp)
    obtain ⟨k, hk, hpk⟩ := hd.field p.1 (by simp [hp])
    obtain ⟨v, hv⟩ := Option.ne_none_iff_exists'.1 (Hash.mem_hkeys.1 hk)
    obtain ⟨w, hw, henc⟩ := hd.value k v hv
    rw [← hpk, hp] at hw
    cases hw
    exact ⟨k, v, hv, by rw [encodePair, henc, hpk]; rfl⟩
  obtain ⟨mapping, hmapping, hmem⟩ := mapM_of_forall (f := encodePair)
      fun p (hp : p ∈ d.items) => by
    obtain ⟨k, v, -, hp⟩ := hitem p hp
    simp [hp]
  have hin : ∀ k v, s.data.hget k = some v → (k, v) ∈ mapping := by
    intro k v hv
    obtain ⟨w, hw, henc⟩ := hd.value k v hv
    exact hmem _ (Dict.mem_items.2 hw) _ (by rw [encodePair, henc]; rfl)
  refine ⟨mapping, hmapping, ?_, fun k => ?_⟩
  · obtain ⟨k, ks, hks⟩ := List.exists_cons_of_ne_nil hne
    obtain ⟨v, hv⟩ := Option.ne_none_iff_exists'.1
      (Hash.mem_hkeys.1 (hks ▸ List.mem_cons_self : k ∈ s.data.hkeys))
    exact List.ne_nil_of_mem (hin k v hv)
  · cases hl : lastOf mapping k with
    | none =>
      cases hv : s.data.hget k with
      | none => rfl
      | some v =>
        exact absurd (List.mem_map_of_mem (f := Prod.fst) (hin k v hv)) (lastOf_eq_none.1 hl)
    | some v =>
      obtain ⟨p, hp, hpe⟩ := (mapM_some hmapping).2 (k, v) (mem_of_lastOf hl)
      obtain ⟨k', v', hv', hpe'⟩ := hitem p hp
      rw [hpe] at hpe'
      cases hpe'
      exact hv'.symm

/-! ## The round trip -/

section Dumpable

variable (h : Dumpable b decodeResponses includeBaseKey s)

include h

theorem Dumpable.stripBase {k : String} (hk : k ∈ s.data.hkeys) : b.stripBase k = k :=
  stripBase_eq_self.2 (h.plain k hk)

theorem Dumpable.importName {k : String} (hk : k ∈ s.data.hkeys) :
    (if includeBaseKey then b.stripBase (b.exportName (!includeBaseKey) k)
      else b.exportName (!includeBaseKey) k) = k := by
  cases includeBaseKey with
  | false => exact h.stripBase hk
  | true => exact (stripBase_getKey k).trans (h.stripBase hk)

theorem Dumpable.exportName_inj {k k' : String} (hk : k ∈ s.data.hkeys) (hk' : k' ∈ s.data.hkeys)
    (heq : b.exportName (!includeBaseKey) k = b.exportName (!includeBaseKey) k') : k = k' := by
  rw [← h.importName hk, heq, h.importName hk']

theorem Dumpable.exportName_ne {k : String} (hk : k ∈ s.data.hkeys) :
    some (b.exportName (!includeBaseKey) k) ≠ expEntry ∧
      some (b.exportName (!includeBaseKey) k) ≠ hexedEntry := by
  have hname : b.exportName (!includeBaseKey) k = if includeBaseKey then b.getKey k else k := by
    cases includeBaseKey with
    | false => exact h.stripBase hk
    | true => rfl
  have hun := h.unreserved k hk
  rw [← hname] at hun
  constructor
  · intro heq
    exact hun (List.mem_cons.2 (.inl (Option.some.inj heq)))
  · intro heq
    exact hun (List.mem_cons_of_mem _ (List.mem_singleton.2 (Option.some.inj heq)))

theorem Dumpable.item {p : String × ByteArray} (hp : p ∈ s.data.hgetall) :
    DumpableItem b decodeResponses (!includeBaseKey) p := by
  have hv : s.data.hget p.1 = some p.2 := Hash.mem_hgetall.1 hp
  have hk : p.1 ∈ s.data.hkeys := Hash.mem_hkeys.2 (by simp [hv])
  refine ⟨?_, (h.exportName_ne hk).2, fun hdec => (h.decoded hdec).1 p.1 p.2 hv⟩
  have hkey : responseKey decodeResponses p.1 = some p.1 := by
    refine if_neg ?_
    rintro ⟨hdec, hnull⟩
    exact (h.decoded hdec).2.1 (hnull ▸ hk)
  rw [hkey]
  rfl

theorem Dumpable.nodup_hexedNames :
    (hexedNames b decodeResponses (!includeBaseKey) s.data.hgetall).Nodup := by
  refine List.Nodup.map_on ?_ (List.Nodup.filter _ ?_)
  · intro p hp q hq heq
    have hp := Hash.mem_hgetall.1 (List.mem_filter.1 hp).1
    have hq := Hash.mem_hgetall.1 (List.mem_filter.1 hq).1
    have hk : p.1 = q.1 := h.exportName_inj (Hash.mem_hkeys.2 (by simp [hp]))
      (Hash.mem_hkeys.2 (by simp [hq])) (Option.some.inj heq)
    rw [hk, hq] at hp
    exact Prod.ext hk (Option.some.inj hp).symm
  · refine List.Nodup.of_map Prod.fst ?_
    rw [Hash.map_fst_hgetall]
    exact Hash.nodup_hkeys _

theorem Dumpable.mem_hexedNames {k : String} {v : ByteArray} (hv : s.data.hget k = some v) :
    some (b.exportName (!includeBaseKey) k) ∈
        hexedNames b decodeResponses (!includeBaseKey) s.data.hgetall ↔
      hexed decodeResponses v = true := by
  constructor
  · intro hmem
    obtain ⟨p, hp, heq⟩ := List.mem_map.1 hmem
    obtain ⟨hp, hx⟩ := List.mem_filter.1 hp
    have hp := Hash.mem_hgetall.1 hp
    obtain rfl := h.exportName_inj (Hash.mem_hkeys.2 (by simp [hp]))
      (Hash.mem_hkeys.2 (by simp [hv])) (Option.some.inj heq)
    rw [hv] at hp
    cases hp
    exact hx
  · intro hx
    refine List.mem_map.2 ⟨(k, v), List.mem_filter.2 ⟨Hash.mem_hgetall.2 hv, ?_⟩, rfl⟩
    exact hx

/-- The values of the dump, read back from hexadecimal. -/
theorem Dumpable.carries {r : Dict PyKey PyVal}
    (hget : ∀ m, m ≠ hexedEntry → r.get? m =
      (lastOf (s.data.hgetall.map fun p => ((some (b.exportName (!includeBaseKey) p.1) : PyKey),
        exported decodeResponses p.2)) m).or ((expResults decodeResponses s).get? m)) :
    Carries s (b.exportName (!includeBaseKey))
      ((hexedNames b decodeResponses (!includeBaseKey) s.data.hgetall).foldl unhexItem
        ((r.pop hexedEntry).pop expEntry)) := by
  have hpop : ∀ m, m ≠ expEntry → m ≠ hexedEntry → ((r.pop hexedEntry).pop expEntry).get? m =
      lastOf (s.data.hgetall.map fun p => ((some (b.exportName (!includeBaseKey) p.1) : PyKey),
        exported decodeResponses p.2)) m := by
    intro m he hx
    rw [Dict.get?_pop, if_neg he, Dict.get?_pop, if_neg hx, hget m hx, get?_expResults_of_ne he,
      Option.or_none]
  constructor
  · intro k v hv
    have hk : k ∈ s.data.hkeys := Hash.mem_hkeys.2 (by simp [hv])
    obtain ⟨he, hx⟩ := h.exportName_ne hk
    refine ⟨restored decodeResponses v, ?_,
      encode_restored fun hdec => (h.decoded hdec).1 k v hv⟩
    have hval : ((r.pop hexedEntry).pop expEntry).get? (some (b.exportName (!includeBaseKey) k)) =
        some (exported decodeResponses v) := by
      rw [hpop _ he hx, lastOf_map (f := fun k => (some (b.exportName (!includeBaseKey) k) : PyKey)),
        Hash.lastOf_hgetall, hv]
      · rfl
      · intro p hp heq
        refine h.exportName_inj ?_ hk (Option.some.inj heq)
        rw [← Hash.map_fst_hgetall]
        exact List.mem_map_of_mem hp
    rw [get?_foldl_unhexItem_of_nodup h.nodup_hexedNames, hval]
    by_cases hhex : hexed decodeResponses v = true
    · rw [if_pos ((h.mem_hexedNames hv).2 hhex), unhexed_exported hhex]
    · rw [if_neg (mt (h.mem_hexedNames hv).1 hhex), restored, if_neg hhex]
  · intro m hm
    rw [get?_foldl_unhexItem, Dict.get?_pop, Dict.get?_pop] at hm
    have he : m ≠ expEntry := by
      rintro rfl
      simp at hm
    have hx : m ≠ hexedEntry := by
      rintro rfl
      simp [expEntry, hexedEntry] at hm
    rw [if_neg he, if_neg hx, hget m hx, get?_expResults_of_ne he, Option.or_none, ne_eq,
      lastOf_eq_none, not_not, List.map_map] at hm
    obtain ⟨p, hp, rfl⟩ := List.mem_map.1 hm
    refine ⟨p.1, ?_, rfl⟩
    rw [← Hash.map_fst_hgetall]
    exact List.mem_map_of_mem hp

/-- The deadlines. -/
theorem Dumpable.loadExps (store : HsetStore ByteArray) (hstore : store.expIndex = ∅) :
    ∃ t, b.loadExps store ((expResults decodeResponses s).get? expEntry) = some t ∧
      t.store.data = store.data ∧ t.ttl = none ∧
      ∀ k, t.store.expIndex.hget k = s.expIndex.hget k := by
  by_cases hidx : s.expIndex.hkeys = []
  · refine ⟨{ store }, ?_, rfl, rfl, fun k => ?_⟩
    · rw [expResults, if_pos hidx]
      show some (b.expireBase store) = _
      rw [expireBase, h.timeless hidx]
    · have hnone : s.expIndex.hget k = none := by
        by_contra hk
        have hmem := Hash.mem_hkeys.2 hk
        rw [hidx] at hmem
        exact absurd hmem List.not_mem_nil
      rw [hnone, hstore, Hash.hget_empty]
  · obtain ⟨t, ht, hdata, httl, hget⟩ :=
      loadExps_expPairs b decodeResponses hstore hidx
    rw [get?_expResults hidx]
    refine ⟨t, ht, hdata, httl, fun k => ?_⟩
    have hdec : decodeResponses = true := by
      by_contra hdec
      exact hidx (h.undecoded (Bool.not_eq_true _ ▸ hdec))
    have hpairs : expPairs decodeResponses s = s.expIndex.hgetall := by
      rw [expPairs, ← List.map_id s.expIndex.hgetall, List.map_map]
      refine List.map_congr_left fun p hp => Prod.ext ?_ rfl
      have hp : p.1 ∈ s.expIndex.hkeys := by
        rw [← Hash.map_fst_hgetall]
        exact List.mem_map_of_mem hp
      have hnull : p.1 ≠ encoderNullValue := fun hnull => (h.decoded hdec).2.2 (hnull ▸ hp)
      show responseStr decodeResponses p.1 = p.1
      rw [responseStr, if_pos hdec, if_neg hnull]
    rw [hget, hpairs, Hash.lastOf_hgetall]

/-- **What is dumpable comes back.** -/
theorem Dumpable.reload : ∃ t, b.reload decodeResponses includeBaseKey s = some t ∧ SameContent s t := by
  have hitems : ∀ p ∈ s.data.hgetall, DumpableItem b decodeResponses (!includeBaseKey) p :=
    fun p hp => h.item hp
  have hempty : (expResults decodeResponses s).get? hexedEntry = hexedList [] :=
    get?_expResults_of_ne (by simp [expEntry, hexedEntry])
  obtain ⟨r, hr, hx, hget⟩ := foldlM_dumpable hitems hempty
  obtain ⟨d, hd, hcarries⟩ := importKeys_carries (h.carries hget) fun k hk => h.importName hk
  obtain ⟨mapping, hmapping, hne, hdata⟩ := mapM_encodePair hcarries h.nonempty
  have hexp : r.get? expEntry = (expResults decodeResponses s).get? expEntry := by
    rw [hget expEntry (by simp [expEntry, hexedEntry]), lastOf_eq_none.2, Option.none_or]
    rw [List.map_map]
    intro hmem
    obtain ⟨p, hp, heq⟩ := List.mem_map.1 hmem
    refine (h.exportName_ne (k := p.1) ?_).1 heq
    rw [← Hash.map_fst_hgetall]
    exact List.mem_map_of_mem hp
  obtain ⟨t, ht, htdata, httl, hidx⟩ := h.loadExps
    { data := (∅ : Hash String ByteArray).hsetAll mapping } rfl
  refine ⟨t, ?_, fun k => ?_, hidx, httl⟩
  · have hiter : ((r.get? hexedEntry).getD (.list [])).iterate =
        some (hexedNames b decodeResponses (!includeBaseKey) s.data.hgetall) := by
      rw [hx, hexedList, List.nil_append]
      split
      · rename_i hnil
        rw [hnil]
        rfl
      · rfl
    unfold Backend.reload dumpDataRaw getAllDataRaw
    rw [hr]
    show b.loadDataRaw {} r includeBaseKey = some t
    unfold loadDataRaw
    simp only [hiter, Option.bind_eq_bind, Option.bind_some, hd, hmapping, if_neg hne, hexp]
    exact ht
  · rw [htdata, Hash.hget_hsetAll, hdata, Hash.hget_empty, Option.or_none]

end Dumpable

/-- **The round trip of a dump**: a backend comes back as it was if and only if its content, at the
time of the dump, is dumpable. -/
theorem roundTrips_iff (now : ℤ) (s : HsetStore ByteArray) :
    b.RoundTrips decodeResponses includeBaseKey now s ↔
      b.Dumpable decodeResponses includeBaseKey (s.runExpirationCheck now []) := by
  constructor
  · intro hr
    obtain ⟨t, ht, hsame⟩ := hr
    exact dumpable_of_same ht hsame
  · intro h
    exact h.reload

/-! ## A deadline under another key -/

/-- A backend whose values are bytes. -/
def byteBackend : Backend ByteArray ByteArray where
  baseKey := "b"
  encode := id
  decode := some
  incr _ _ := none
  globMatch _ _ := true

/-- **The session returns bytes**, so the deadline of `x` comes back under the text of the bytes. -/
theorem roundTrip_broken :
    ¬ byteBackend.RoundTrips false true 0 (HsetStore.luaHset {} "x" "1".toUTF8 (some 100)) := by
  rintro ⟨t, ht, hsame⟩
  have hget := hsame.expIndex "x"
  have hnone : (byteBackend.reload false true ((HsetStore.luaHset {} "x" "1".toUTF8
      (some 100)).runExpirationCheck 0 [])).map (fun t => t.store.expIndex.hget "x") = some none := by
    decide +kernel
  rw [ht] at hnone
  have hnone : t.store.expIndex.hget "x" = none := Option.some.inj hnone
  rw [hnone] at hget
  exact absurd hget (by decide +kernel)

end Backend

end Kvdb
