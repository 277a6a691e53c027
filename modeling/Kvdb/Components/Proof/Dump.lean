import Kvdb.Components.Dump
import Mathlib.Algebra.Order.BigOperators.Group.Finset
import Mathlib.Data.Finset.Max

/-!
# Dump and load: the round trip

A content that is the same after `dump_data_raw` and `load_data_raw` is `Dumpable`
(`dumpable_of_same`).

* `dumpItem_spec`, `foldlM_dumpItem`: what the loop of the dump leaves in the dictionary.
* `loadDataRaw_fields`: every field that is loaded is an entry of the dump without the base key.
* `Reloaded.fixed`: so the export without the base key maps the fields onto the fields; it makes no
  key longer, and a finite set is mapped onto itself in that way only by the identity
  (`fixed_of_onto`).
-/

namespace Kvdb

open Redis Python HsetStore

/-- A finite set, mapped onto itself from a part of it by a map that makes nothing larger: the part is
the whole set and the map keeps the size. -/
theorem fixed_of_onto {α : Type*} [DecidableEq α] {D : Finset α} {P : α → Prop} {f : α → α}
    (size : α → ℕ) (hsize : ∀ a, size (f a) ≤ size a) (h : ∀ a ∈ D, ∃ c ∈ D, P c ∧ f c = a) :
    ∀ a ∈ D, P a ∧ size (f a) = size a := by
  classical
  have hsub : D ⊆ (D.filter P).image f := by
    intro a ha
    obtain ⟨c, hc, hP, rfl⟩ := h a ha
    exact Finset.mem_image_of_mem f (Finset.mem_filter.2 ⟨hc, hP⟩)
  have hcard : D.card ≤ (D.filter P).card := (Finset.card_le_card hsub).trans Finset.card_image_le
  have hall : D.filter P = D := Finset.eq_of_subset_of_card_le (Finset.filter_subset P D) hcard
  rw [hall] at hsub
  have himage : D.image f = D :=
    (Finset.eq_of_subset_of_card_le hsub Finset.card_image_le).symm
  have hinj : Set.InjOn f D := Finset.card_image_iff.1 (by rw [himage])
  have hsum : ∑ a ∈ D, size (f a) = ∑ a ∈ D, size a := by
    rw [← Finset.sum_image (f := size) hinj, himage]
  have heq := (Finset.sum_eq_sum_iff_of_le fun a _ => hsize a).1 hsum
  exact fun a ha => ⟨(Finset.mem_filter.1 (hall ▸ ha)).2, heq a ha⟩

namespace Backend

variable {V : Type} {b : Backend ByteArray V} {decodeResponses excludeBaseKey : Bool}

/-! ## Keys -/

theorem stripBase_eq_self {k : String} :
    b.stripBase k = k ↔
      (b.baseKey ++ b.keyjoin).toList = [] ∨ ¬ (b.baseKey ++ b.keyjoin).toList <:+: k.toList := by
  rw [← remove_eq_self, stripBase, ← String.toList_inj, String.toList_ofList]

theorem length_stripBase_le (k : String) : (b.stripBase k).length ≤ k.length := by
  rw [stripBase, String.length_ofList, ← String.length_toList]
  exact length_remove_le _ 0 _

theorem stripBase_of_length {k : String} (h : (b.stripBase k).length = k.length) :
    b.stripBase k = k := by
  by_contra hne
  have hlt : (remove (b.baseKey ++ b.keyjoin).toList 0 k.toList).length < k.toList.length :=
    length_remove_lt fun heq => hne (by rw [stripBase, heq, String.ofList_toList])
  rw [stripBase, String.length_ofList, ← String.length_toList] at h
  omega

/-- The key in the dump. -/
def exportName (b : Backend ByteArray V) (excludeBaseKey : Bool) (k : String) : String :=
  if excludeBaseKey then b.stripBase k else b.getKey k

/-- **The base key that the export puts before a key is taken away again.** -/
theorem stripBase_getKey (k : String) : b.stripBase (b.getKey k) = b.stripBase k := by
  unfold getKey
  split
  · rfl
  · split
    · rfl
    · rename_i hb _
      have hne : (b.baseKey ++ b.keyjoin).toList ≠ [] := by
        rw [String.toList_append]
        intro h
        exact hb (String.toList_eq_nil_iff.1 (List.append_eq_nil_iff.1 h).1)
      rw [stripBase, String.toList_append (s := b.baseKey ++ b.keyjoin), remove_append hne]
      rfl

/-! ## The loop of the dump -/

variable {results results' : Dict PyKey PyVal} {item : String × ByteArray}

theorem appendHexed_get? {n : PyKey} (h : appendHexed results n = some results') {m : PyKey}
    (hm : m ≠ hexedEntry) : results'.get? m = results.get? m := by
  unfold appendHexed at h
  split at h <;> cases h <;> rw [Dict.get?_setItem, if_neg hm]

theorem appendHexed_mono {n : PyKey} (h : appendHexed results n = some results') :
    results'.get? hexedEntry ≠ none := by
  unfold appendHexed at h
  split at h <;> cases h <;> simp [Dict.get?_setItem]

/-- What one round of the loop does. -/
structure DumpItem (b : Backend ByteArray V) (decodeResponses excludeBaseKey : Bool)
    (results : Dict PyKey PyVal) (item : String × ByteArray) (results' : Dict PyKey PyVal)
    (n : PyKey) : Prop where
  key : b.exportKey excludeBaseKey (responseKey decodeResponses item.1) = some n
  value : decodeResponse decodeResponses item.2 ≠ none
  present : results'.get? n ≠ none
  frame : ∀ m, m ≠ n → m ≠ hexedEntry → results'.get? m = results.get? m
  mono : ∀ m, results.get? m ≠ none → results'.get? m ≠ none

theorem dumpItem_spec (h : b.dumpItem decodeResponses excludeBaseKey results item = some results') :
    ∃ n, DumpItem b decodeResponses excludeBaseKey results item results' n := by
  unfold dumpItem at h
  obtain ⟨n, hn, h⟩ := Option.bind_eq_some_iff.1 h
  obtain ⟨v, hv, h⟩ := Option.bind_eq_some_iff.1 h
  have hset : ∀ {d : Dict PyKey PyVal} {w : PyVal}, results' = d.setItem n w →
      (∀ m, m ≠ hexedEntry → d.get? m = results.get? m) →
      (results.get? hexedEntry ≠ none → d.get? hexedEntry ≠ none) →
      DumpItem b decodeResponses excludeBaseKey results item results' n := by
    rintro d w rfl hd hx
    refine ⟨hn, by simp [hv], by simp [Dict.get?_setItem], fun m hm hmx => ?_, fun m hm => ?_⟩
    · rw [Dict.get?_setItem, if_neg hm, hd m hmx]
    · rw [Dict.get?_setItem]
      split
      · simp
      · by_cases hmx : m = hexedEntry
        · subst hmx
          exact hx hm
        · rwa [hd m hmx]
  refine ⟨n, ?_⟩
  split at h
  · split at h
    · exact hset (Option.some.inj h).symm (fun _ _ => rfl) id
    · obtain ⟨d, hd, h⟩ := Option.bind_eq_some_iff.1 h
      exact hset (Option.some.inj h).symm (fun m hm => appendHexed_get? hd hm) fun _ =>
        appendHexed_mono hd
  · exact hset (Option.some.inj h).symm (fun _ _ => rfl) id

/-- What the loop does. -/
structure DumpItems (b : Backend ByteArray V) (decodeResponses excludeBaseKey : Bool)
    (results : Dict PyKey PyVal) (items : List (String × ByteArray)) (results' : Dict PyKey PyVal) :
    Prop where
  key : ∀ p ∈ items, ∃ n, b.exportKey excludeBaseKey (responseKey decodeResponses p.1) = some n ∧
    results'.get? n ≠ none
  value : ∀ p ∈ items, decodeResponse decodeResponses p.2 ≠ none
  frame : ∀ m, m ≠ hexedEntry →
    (∀ p ∈ items, b.exportKey excludeBaseKey (responseKey decodeResponses p.1) ≠ some m) →
    results'.get? m = results.get? m
  mono : ∀ m, results.get? m ≠ none → results'.get? m ≠ none

theorem foldlM_dumpItem {items : List (String × ByteArray)}
    (h : items.foldlM (b.dumpItem decodeResponses excludeBaseKey) results = some results') :
    DumpItems b decodeResponses excludeBaseKey results items results' := by
  induction items generalizing results with
  | nil =>
    cases h
    exact ⟨fun p hp => absurd hp List.not_mem_nil, fun p hp => absurd hp List.not_mem_nil,
      fun _ _ _ => rfl, fun _ => id⟩
  | cons p items ih =>
    rw [List.foldlM_cons] at h
    obtain ⟨d, hd, h⟩ := Option.bind_eq_some_iff.1 h
    obtain ⟨n, hp⟩ := dumpItem_spec hd
    have hi := ih h
    refine ⟨fun q hq => ?_, fun q hq => ?_, fun m hm hne => ?_, fun m hm => hi.mono m (hp.mono m hm)⟩
    · rcases List.mem_cons.1 hq with rfl | hq
      · exact ⟨n, hp.key, hi.mono n hp.present⟩
      · exact hi.key q hq
    · rcases List.mem_cons.1 hq with rfl | hq
      · exact hp.value
      · exact hi.value q hq
    · rw [hi.frame m hm fun q hq => hne q (List.mem_cons_of_mem _ hq), hp.frame m ?_ hm]
      rintro rfl
      exact hne p List.mem_cons_self hp.key

/-! ## The load -/

theorem get?_foldl_unhexItem (hexed : List PyKey) (data : Dict PyKey PyVal) (m : PyKey) :
    (hexed.foldl unhexItem data).get? m ≠ none ↔ data.get? m ≠ none := by
  induction hexed generalizing data with
  | nil => rfl
  | cons n hexed ih =>
    rw [List.foldl_cons, ih]
    unfold unhexItem
    split
    · rename_i hv
      obtain ⟨v, hn, -⟩ := Option.bind_eq_some_iff.1 hv
      rw [Dict.get?_setItem]
      split
      · rename_i hm
        simp [hm, hn]
      · rfl
    · rfl

/-- What `importKeys` makes of the keys. -/
structure ImportKeys (b : Backend ByteArray V) (includesBaseKey : Bool)
    (data data' : Dict PyKey PyVal) : Prop where
  text : ∀ m, data.get? m ≠ none → includesBaseKey = true → m ≠ none
  source : ∀ m, data'.get? m ≠ none → ∃ n, data.get? n ≠ none ∧
    m = if includesBaseKey then n.map b.stripBase else n

theorem importKeys_spec {includesBaseKey : Bool} {data data' : Dict PyKey PyVal}
    (h : b.importKeys includesBaseKey data = some data') :
    ImportKeys b includesBaseKey data data' := by
  cases includesBaseKey with
  | false =>
    cases h
    exact ⟨fun m _ hi => absurd hi Bool.false_ne_true, fun m hm => ⟨m, hm, rfl⟩⟩
  | true =>
    obtain ⟨kvs, hkvs, h⟩ := Option.bind_eq_some_iff.1 h
    cases h
    obtain ⟨hne, hmem⟩ := mapM_some hkvs
    refine ⟨fun m hm _ => ?_, fun m hm => ?_⟩
    · obtain ⟨v, hv⟩ := Option.ne_none_iff_exists'.1 hm
      intro hn
      subst hn
      exact hne (none, v) (Dict.mem_items.2 hv) rfl
    · obtain ⟨v, hv⟩ := Option.ne_none_iff_exists'.1 hm
      rw [Dict.get?_ofPairs] at hv
      obtain ⟨⟨n, w⟩, hn, hw⟩ := hmem (m, v) (mem_of_lastOf hv)
      obtain ⟨key, rfl, hkey⟩ := Option.map_eq_some_iff.1 hw
      cases hkey
      exact ⟨some key, by simp [Dict.mem_items.1 hn], rfl⟩

/-- What is loaded from a dictionary. -/
structure LoadedFrom (b : Backend ByteArray V) (includesBaseKey : Bool) (data : Dict PyKey PyVal)
    (t : Loaded) : Prop where
  text : ∀ m, data.get? m ≠ none → m ≠ expEntry → m ≠ hexedEntry → includesBaseKey = true → m ≠ none
  source : ∀ k, t.store.data.hget k ≠ none →
    ∃ m, data.get? m ≠ none ∧ m ≠ expEntry ∧ m ≠ hexedEntry ∧
      k = (if includesBaseKey then m.map b.stripBase else m).getD encoderNullValue
  nonempty : ∃ m, data.get? m ≠ none ∧ m ≠ expEntry ∧ m ≠ hexedEntry
  exps : ∃ store : HsetStore ByteArray, store.expIndex = ∅ ∧
    b.loadExps store (data.get? expEntry) = some t

theorem data_loadExps {store : HsetStore ByteArray} {o : Option PyVal} {t : Loaded}
    (h : b.loadExps store o = some t) {k : String} (hk : t.store.data.hget k ≠ none) :
    store.data.hget k ≠ none := by
  have hbase : (b.expireBase store).store.data.hget k ≠ none → store.data.hget k ≠ none := by
    unfold expireBase
    split
    · exact id
    · split
      · exact id
      · exact fun h => absurd (Hash.hget_empty k) h
  unfold loadExps at h
  split at h
  · split at h <;> cases h
    · exact hbase hk
    · exact hk
  all_goals first
    | (split at h
       · cases h
         exact hbase hk
       · cases h)
    | (cases h
       exact hbase hk)

theorem loadDataRaw_spec {includesBaseKey : Bool} {data : Dict PyKey PyVal} {t : Loaded}
    (h : b.loadDataRaw {} data includesBaseKey = some t) : LoadedFrom b includesBaseKey data t := by
  unfold loadDataRaw at h
  obtain ⟨hexed, -, h⟩ := Option.bind_eq_some_iff.1 h
  obtain ⟨data', hdata', h⟩ := Option.bind_eq_some_iff.1 h
  obtain ⟨mapping, hmapping, h⟩ := Option.bind_eq_some_iff.1 h
  obtain ⟨hne, h⟩ := Option.ite_none_left_eq_some.1 h
  have hI := importKeys_spec hdata'
  obtain ⟨-, hmem⟩ := mapM_some hmapping
  have hpop : ∀ m, (hexed.foldl unhexItem ((data.pop hexedEntry).pop expEntry)).get? m ≠ none ↔
      data.get? m ≠ none ∧ m ≠ expEntry ∧ m ≠ hexedEntry := by
    intro m
    rw [get?_foldl_unhexItem, Dict.get?_pop, Dict.get?_pop]
    by_cases he : m = expEntry <;> by_cases hx : m = hexedEntry <;> simp [he, hx]
  have hsource : ∀ p ∈ mapping, ∃ m, data.get? m ≠ none ∧ m ≠ expEntry ∧ m ≠ hexedEntry ∧
      p.1 = (if includesBaseKey then m.map b.stripBase else m).getD encoderNullValue := by
    intro p hp
    obtain ⟨⟨n, v⟩, hn, hv⟩ := hmem p hp
    obtain ⟨w, -, hw⟩ := Option.map_eq_some_iff.1 hv
    cases hw
    obtain ⟨m, hm, hnm⟩ := hI.source n (by simp [Dict.mem_items.1 hn])
    obtain ⟨hm, he, hx⟩ := (hpop m).1 hm
    exact ⟨m, hm, he, hx, by rw [hnm]⟩
  refine ⟨fun m hm he hx => hI.text m ((hpop m).2 ⟨hm, he, hx⟩), fun k hk => ?_, ?_, _, rfl, h⟩
  · have hk' := data_loadExps h hk
    rw [Hash.hget_hsetAll, show (({} : HsetStore ByteArray).data.hget k) = none from
      Hash.hget_empty k, Option.or_none] at hk'
    obtain ⟨v, hv⟩ := Option.ne_none_iff_exists'.1 hk'
    exact hsource (k, v) (mem_of_lastOf hv)
  · obtain ⟨p, ps, rfl⟩ := List.exists_cons_of_ne_nil hne
    obtain ⟨m, hm, he, hx, -⟩ := hsource p List.mem_cons_self
    exact ⟨m, hm, he, hx⟩

/-! ## What is the same was dumpable -/

variable {includeBaseKey : Bool} {s : HsetStore ByteArray} {t : Loaded}

/-- A dump that has been loaded. -/
structure Reloaded (b : Backend ByteArray V) (decodeResponses includeBaseKey : Bool)
    (s : HsetStore ByteArray) (r : Dict PyKey PyVal) (t : Loaded) : Prop where
  dump : DumpItems b decodeResponses (!includeBaseKey) (expResults decodeResponses s)
    s.data.hgetall r
  load : LoadedFrom b includeBaseKey r t

theorem reloaded_of_reload (h : b.reload decodeResponses includeBaseKey s = some t) :
    ∃ r, Reloaded b decodeResponses includeBaseKey s r t := by
  obtain ⟨r, hr, ht⟩ := Option.bind_eq_some_iff.1 h
  exact ⟨r, foldlM_dumpItem hr, loadDataRaw_spec ht⟩

theorem get?_expResults_of_ne {m : PyKey} (hm : m ≠ expEntry) :
    (expResults decodeResponses s).get? m = none := by
  unfold expResults
  split
  · rfl
  · rw [Dict.get?_setItem, if_neg hm, Dict.get?_empty]

/-- No field is read as `None`. -/
theorem Reloaded.responseKey {r : Dict PyKey PyVal} (h : Reloaded b decodeResponses includeBaseKey s r t)
    {k : String} (hk : k ∈ s.data.hkeys) : Kvdb.responseKey decodeResponses k = some k := by
  obtain ⟨v, hv⟩ := Option.ne_none_iff_exists'.1 (Hash.mem_hkeys.1 hk)
  obtain ⟨n, hn, hr⟩ := h.dump.key (k, v) (Hash.mem_hgetall.2 hv)
  unfold Kvdb.responseKey at hn ⊢
  split
  · rename_i hnull
    rw [if_pos hnull] at hn
    simp only [exportKey] at hn
    split at hn
    · rename_i hex
      cases hn
      have hinc : includeBaseKey = true := by simpa using hex.1
      exact absurd rfl (h.load.text none hr (by simp [expEntry]) (by simp [hexedEntry]) hinc)
    · cases hn
  · rfl

theorem Reloaded.exportKey {r : Dict PyKey PyVal} (h : Reloaded b decodeResponses includeBaseKey s r t)
    {k : String} (hk : k ∈ s.data.hkeys) :
    b.exportKey (!includeBaseKey) (Kvdb.responseKey decodeResponses k) =
      some (some (b.exportName (!includeBaseKey) k)) := by
  rw [h.responseKey hk]
  rfl

/-- An entry of the dump, but for the two reserved ones, is that of a field. -/
theorem Reloaded.entry {r : Dict PyKey PyVal} (h : Reloaded b decodeResponses includeBaseKey s r t)
    {m : PyKey} (hm : r.get? m ≠ none) (he : m ≠ expEntry) (hx : m ≠ hexedEntry) :
    ∃ k ∈ s.data.hkeys, m = some (b.exportName (!includeBaseKey) k) := by
  by_contra hno
  refine hm ?_
  rw [h.dump.frame m hx ?_, get?_expResults_of_ne he]
  intro p hp heq
  have hk : p.1 ∈ s.data.hkeys := by
    rw [← Hash.map_fst_hgetall]
    exact List.mem_map_of_mem hp
  rw [h.exportKey hk] at heq
  exact hno ⟨p.1, hk, (Option.some.inj heq).symm⟩

theorem import_exportName (k : String) :
    (if includeBaseKey then (some (b.exportName (!includeBaseKey) k)).map b.stripBase
      else some (b.exportName (!includeBaseKey) k)) = some (b.stripBase k) := by
  cases includeBaseKey with
  | false => rfl
  | true => exact congrArg some (stripBase_getKey k)

/-- **The fields are mapped onto the fields**, so the map is the identity and no field is lost. -/
theorem Reloaded.fixed {r : Dict PyKey PyVal} (h : Reloaded b decodeResponses includeBaseKey s r t)
    (hd : ∀ k, t.store.data.hget k = s.data.hget k) {k : String} (hk : k ∈ s.data.hkeys) :
    (some (b.exportName (!includeBaseKey) k) ≠ expEntry ∧
      some (b.exportName (!includeBaseKey) k) ≠ hexedEntry) ∧ b.stripBase k = k := by
  have honto : ∀ a ∈ s.data.hkeys.toFinset, ∃ c ∈ s.data.hkeys.toFinset,
      (some (b.exportName (!includeBaseKey) c) ≠ expEntry ∧
        some (b.exportName (!includeBaseKey) c) ≠ hexedEntry) ∧ b.stripBase c = a := by
    intro a ha
    have hget : t.store.data.hget a ≠ none := by
      rw [hd]
      exact Hash.mem_hkeys.1 (List.mem_toFinset.1 ha)
    obtain ⟨m, hm, he, hx, heq⟩ := h.load.source a hget
    obtain ⟨c, hc, rfl⟩ := h.entry hm he hx
    rw [import_exportName] at heq
    exact ⟨c, List.mem_toFinset.2 hc, ⟨he, hx⟩, heq.symm⟩
  obtain ⟨hun, hlen⟩ :=
    fixed_of_onto String.length length_stripBase_le honto k (List.mem_toFinset.2 hk)
  exact ⟨hun, stripBase_of_length hlen⟩

/-- The entry of the deadlines is not overwritten. -/
theorem Reloaded.get?_expEntry {r : Dict PyKey PyVal}
    (h : Reloaded b decodeResponses includeBaseKey s r t)
    (hd : ∀ k, t.store.data.hget k = s.data.hget k) :
    r.get? expEntry = (expResults decodeResponses s).get? expEntry := by
  refine h.dump.frame expEntry (by simp [expEntry, hexedEntry]) fun p hp heq => ?_
  have hk : p.1 ∈ s.data.hkeys := by
    rw [← Hash.map_fst_hgetall]
    exact List.mem_map_of_mem hp
  rw [h.exportKey hk] at heq
  exact (h.fixed hd hk).1.1 (Option.some.inj heq)

/-! ### The deadlines -/

/-- The deadlines under their texts. -/
def expPairs (decodeResponses : Bool) (s : HsetStore ByteArray) : List (String × ℤ) :=
  s.expIndex.hgetall.map fun p => (responseStr decodeResponses p.1, p.2)

theorem lastOf_expPairs_eq_none {k : String} :
    lastOf (expPairs decodeResponses s) k = none ↔
      k ∉ s.expIndex.hkeys.map (responseStr decodeResponses) := by
  rw [lastOf_eq_none, ← Hash.map_fst_hgetall, expPairs, List.map_map, List.map_map]
  rfl

theorem get?_expResults (h : s.expIndex.hkeys ≠ []) :
    (expResults decodeResponses s).get? expEntry =
      some (.dict (.ofPairs (expPairs decodeResponses s))) := by
  rw [expResults, if_neg h, Dict.get?_setItem, if_pos rfl]
  rfl

variable (b decodeResponses) in
theorem loadExps_expPairs {store : HsetStore ByteArray} (he : store.expIndex = ∅)
    (h : s.expIndex.hkeys ≠ []) :
    ∃ t, b.loadExps store (some (.dict (.ofPairs (expPairs decodeResponses s)))) = some t ∧
      t.store.data = store.data ∧ t.ttl = none ∧
      ∀ k, t.store.expIndex.hget k = lastOf (expPairs decodeResponses s) k := by
  have hne : (Dict.ofPairs (expPairs decodeResponses s)).items ≠ [] := by
    obtain ⟨k, ks, hks⟩ := List.exists_cons_of_ne_nil h
    have hk : k ∈ s.expIndex.hkeys := hks ▸ List.mem_cons_self
    have hl : lastOf (expPairs decodeResponses s) (responseStr decodeResponses k) ≠ none :=
      mt lastOf_expPairs_eq_none.1 (not_not.2 (List.mem_map_of_mem hk))
    rw [← Dict.get?_ofPairs] at hl
    intro hnil
    rw [Dict.get?, hnil] at hl
    exact hl rfl
  refine ⟨_, if_neg hne, rfl, rfl, fun k => ?_⟩
  rw [Hash.hget_hsetAll, he, Hash.hget_empty, Option.or_none]
  exact Dict.get?_ofPairs _ k

/-- Literals of bytes are longer than the bytes, so they are not the fields again. -/
theorem expIndex_eq_nil (h : ∀ k ∈ s.expIndex.hkeys, ∃ j ∈ s.expIndex.hkeys, responseStr false k = j) :
    s.expIndex.hkeys = [] := by
  by_contra hne
  obtain ⟨k, hk, hmax⟩ := s.expIndex.hkeys.toFinset.exists_max_image String.utf8ByteSize
    ((List.toFinset_nonempty_iff _).2 hne)
  obtain ⟨j, hj, heq⟩ := h k (List.mem_toFinset.1 hk)
  have hle := hmax j (List.mem_toFinset.2 hj)
  have hlt := size_lt_bytesRepr k.toUTF8.data.toList
  have hsize : k.toUTF8.data.toList.length = k.utf8ByteSize := by
    rw [Array.length_toList]
    rfl
  rw [← heq, responseStr, if_neg Bool.false_ne_true] at hle
  omega

theorem dumpable_of_same (h : b.reload decodeResponses includeBaseKey s = some t)
    (hsame : SameContent s t) : Dumpable b decodeResponses includeBaseKey s := by
  obtain ⟨r, hr⟩ := reloaded_of_reload h
  have hfixed := fun k (hk : k ∈ s.data.hkeys) => hr.fixed hsame.data hk
  have hne : s.data.hkeys ≠ [] := by
    obtain ⟨m, hm, he, hx⟩ := hr.load.nonempty
    obtain ⟨k, hk, -⟩ := hr.entry hm he hx
    exact List.ne_nil_of_mem hk
  obtain ⟨store, hstore, hexps⟩ := hr.load.exps
  rw [hr.get?_expEntry hsame.data] at hexps
  have hpairs : s.expIndex.hkeys ≠ [] → ∀ k,
      lastOf (expPairs decodeResponses s) k = s.expIndex.hget k := by
    intro hidx k
    obtain ⟨t', ht', -, -, hget⟩ :=
      loadExps_expPairs b decodeResponses hstore hidx
    rw [get?_expResults hidx, ht'] at hexps
    cases hexps
    rw [← hget, hsame.expIndex]
  refine ⟨hne, fun k hk => stripBase_eq_self.1 (hfixed k hk).2, fun k hk => ?_, fun hidx => ?_,
    fun hdec => ?_, fun hdec => ⟨fun k v hv => ?_, fun hk => ?_, fun hk => ?_⟩⟩
  · obtain ⟨⟨he, hx⟩, hs⟩ := hfixed k hk
    have hname : b.exportName (!includeBaseKey) k = if includeBaseKey then b.getKey k else k := by
      cases includeBaseKey with
      | false => exact hs
      | true => rfl
    rw [hname] at he hx
    intro hmem
    rcases List.mem_cons.1 hmem with hm | hm
    · exact he (congrArg some hm)
    · exact hx (congrArg some (List.mem_singleton.1 hm))
  · by_contra hex
    obtain ⟨ex, hex⟩ := Option.ne_none_iff_exists'.1 hex
    have hnone : (expResults decodeResponses s).get? expEntry = none := by
      rw [expResults, if_pos hidx]
      rfl
    rw [hnone] at hexps
    obtain rfl : b.expireBase store = t := Option.some.inj hexps
    have httl := hsame.ttl
    obtain ⟨k, ks, hks⟩ := List.exists_cons_of_ne_nil hne
    have hk := Hash.mem_hkeys.1 (hks ▸ List.mem_cons_self : k ∈ s.data.hkeys)
    rw [← hsame.data] at hk
    unfold expireBase at httl hk
    rw [hex] at httl hk
    dsimp only at httl hk
    split at httl
    · cases httl
    · rename_i hpos
      rw [if_neg hpos] at hk
      exact hk (Hash.hget_empty k)
  · subst hdec
    refine expIndex_eq_nil fun k hk => ⟨responseStr false k, ?_, rfl⟩
    rw [Hash.mem_hkeys, ← hpairs (List.ne_nil_of_mem hk), ne_eq, lastOf_expPairs_eq_none, not_not]
    exact List.mem_map_of_mem hk
  · subst hdec
    have hval := hr.dump.value (k, v) (Hash.mem_hgetall.2 hv)
    simp only [decodeResponse, if_true] at hval
    split at hval
    · rename_i hnull
      rw [hnull]
      exact encoderNullValue.isValidUTF8
    · by_contra hinv
      simp [String.fromUTF8?, hinv] at hval
  · subst hdec
    have hkey := hr.responseKey hk
    simp [Kvdb.responseKey] at hkey
  · subst hdec
    have hget := Hash.mem_hkeys.1 hk
    rw [← hpairs (List.ne_nil_of_mem hk), ne_eq, lastOf_expPairs_eq_none, not_not] at hget
    obtain ⟨j, -, hj⟩ := List.mem_map.1 hget
    rw [responseStr, if_pos rfl] at hj
    split at hj
    · exact absurd hj (by decide)
    · contradiction

end Backend

end Kvdb
