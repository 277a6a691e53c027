import Kvdb.Components.Listing
import Kvdb.Components.Proof.Dump

/-!
# The names of plain-key mode

`get_key` puts the base key before a key that does not contain it, so it is idempotent, and
injective on the keys that do not. `Backend.NamespaceLaw` is what the listings and `clear` promise
for the keys that have been set, and `Backend.namespaceLaw_iff` says for which keys and names of
others they keep it. That no key contains the base key is found by lengths: taking the base key away
makes no key longer, and gives the keys back only if it leaves every key as it is (`fixed_of_onto`).
-/

namespace Kvdb

open Redis Python

/-! ## Keyspaces -/

namespace Keyspace

variable {server : Keyspace} {globMatch : String → String → Bool} {pattern n : String}

theorem mem_keys : n ∈ server.keys globMatch pattern ↔
    server.hget n ≠ none ∧ globMatch pattern n = true := by
  rw [keys, List.mem_filter, Hash.mem_hkeys]

theorem nodup_keys : (server.keys globMatch pattern).Nodup := server.nodup_hkeys.filter _

end Keyspace

theorem responseKey_eq_some {decodeResponses : Bool} {n m : String} :
    responseKey decodeResponses n = some m ↔
      n = m ∧ ¬ (decodeResponses = true ∧ n = encoderNullValue) := by
  unfold responseKey
  split
  · rename_i h
    simp [h]
  · rename_i h
    simp [h]

/-- A listing without `None`. -/
theorem map_responseKey {decodeResponses : Bool} {ns : List String}
    (h : decodeResponses = true → encoderNullValue ∉ ns) :
    ns.map (responseKey decodeResponses) = ns.map some := by
  refine List.map_congr_left fun n hn => responseKey_eq_some.2 ⟨rfl, ?_⟩
  rintro ⟨hd, rfl⟩
  exact h hd hn

theorem replaceKeys_map_some (replace : String → String) (ns : List String) :
    replaceKeys replace (ns.map some) = some (ns.map fun n => some (replace n)) := by
  rw [replaceKeys, List.mapM_map]
  induction ns with
  | nil => rfl
  | cons n ns ih => simp [List.mapM_cons, Function.comp_def] at ih ⊢; simp [ih]

namespace Backend

variable {V : Type} {b : Backend ByteArray V} {decodeResponses : Bool}

/-! ## The operations of plain-key mode -/

/-- The names and values of the keys of the server. -/
def Shows (server : Keyspace) (m : TtlMap String ByteArray) : Prop := ∀ n, server.hget n = m.get n

/-- `setKey` is the `set` of `plainLive`, whatever its expiry. -/
theorem Shows.setKey {server : Keyspace} {m : TtlMap String ByteArray} (h : Shows server m)
    (now : ℕ) (key : String) (value : V) {ex : Option ℤ}
    (hex : ∀ e, b.orExpiration ex = some e → 0 < e) :
    Shows (b.setKey server key value) (plainLive b now m (.set key value ex)).2 := by
  intro n
  rw [Backend.setKey, Hash.hget_hset, h n]
  cases he : b.orExpiration ex with
  | none =>
    simp only [plainLive, he]
    exact (TtlMap.get_set ..).symm
  | some e =>
    simp only [plainLive, he, hex e he, if_true]
    exact (TtlMap.get_setex ..).symm

/-- `clearKeys` is the `clear` of `plainLive`. -/
theorem Shows.clearKeys {server : Keyspace} {m : TtlMap String ByteArray} (h : Shows server m)
    (now : ℕ) : Shows (b.clearKeys server) (plainLive b now m (.clear [])).2 := by
  intro n
  rw [Backend.clearKeys, Hash.hget_hdelAll]
  simp only [plainLive, if_true, TtlMap.get]
  by_cases hg : b.globMatch (b.baseKey ++ b.keyjoin ++ "*") n = true
  · rw [if_pos hg, Option.map_none]
    by_cases hn : server.hget n = none
    · rw [hn, ite_self]
    · exact if_pos (Keyspace.mem_keys.2 ⟨hn, hg⟩)
  · have hnot : n ∉ server.keys b.globMatch b.listPattern := fun hm =>
      hg (Keyspace.mem_keys.1 hm).2
    rw [if_neg hg, if_neg hnot]
    exact h n

/-! ## `get_key` -/

theorem baseKey_infix_getKey (k : String) : b.baseKey.toList <:+: (b.getKey k).toList := by
  unfold getKey
  split
  · rename_i h
    rw [h]
    exact ⟨[], k.toList, by simp⟩
  · split
    · assumption
    · simp only [String.toList_append, List.append_assoc]
      exact (List.prefix_append _ _).isInfix

theorem getKey_of_contains {k : String} (h : b.baseKey.toList <:+: k.toList) : b.getKey k = k := by
  simp [getKey, h]

/-- **`get_key` is idempotent.** -/
theorem getKey_getKey (k : String) : b.getKey (b.getKey k) = b.getKey k :=
  getKey_of_contains (baseKey_infix_getKey k)

/-- A key without the base key gets it. -/
theorem getKey_of_apart {k : String} (h : ¬ b.baseKey.toList <:+: k.toList) :
    b.getKey k = b.baseKey ++ b.keyjoin ++ k := by
  have hbase : b.baseKey ≠ "" := by
    intro he
    exact h ⟨[], k.toList, by simp [he]⟩
  rw [getKey, if_neg hbase, if_neg h]

theorem stripBase_of_apart {k : String} (h : ¬ b.baseKey.toList <:+: k.toList) :
    b.stripBase k = k := by
  refine stripBase_eq_self.2 (.inr fun hi => h (List.IsInfix.trans ?_ hi))
  rw [String.toList_append]
  exact (List.prefix_append _ _).isInfix

/-- A key with the base key keeps its name, which then begins with it only if there is more to take
away. -/
theorem apart_of_begins {k : String} (hp : (b.baseKey ++ b.keyjoin).toList <+: (b.getKey k).toList)
    (hbase : b.baseKey ≠ "") (hs : b.stripBase k = k) : ¬ b.baseKey.toList <:+: k.toList := by
  intro hi
  rw [getKey, if_neg hbase, if_pos hi] at hp
  rcases stripBase_eq_self.1 hs with h | h
  · rw [String.toList_append] at h
    exact hbase (String.toList_eq_nil_iff.1 (List.append_eq_nil_iff.1 h).1)
  · exact h hp.isInfix

/-! ## The law -/

/-- The server after `set` of some keys. -/
def setAll (b : Backend ByteArray V) (others : Keyspace) (data : List (String × V)) : Keyspace :=
  data.foldl (fun server p => b.setKey server p.1 p.2) others

/-- The keys that have been set are kept apart, listed and cleared, and no others are. -/
structure NamespaceLaw (b : Backend ByteArray V) (decodeResponses : Bool) (others : Keyspace)
    (data : List (String × V)) : Prop where
  idempotent : ∀ k, b.getKey (b.getKey k) = b.getKey k
  begins : ∀ k ∈ data.map Prod.fst, (b.baseKey ++ b.keyjoin).toList <+: (b.getKey k).toList
  distinct : ∀ k ∈ data.map Prod.fst, ∀ k' ∈ data.map Prod.fst, b.getKey k = b.getKey k' → k = k'
  listed : ∃ names, b.getAllKeys decodeResponses (b.setAll others data) false = some names ∧
    names.Perm ((data.map Prod.fst).dedup.map fun k => some (b.getKey k))
  counted : b.length (b.setAll others data) = some (data.map Prod.fst).dedup.length
  cleared : ∀ n, (b.clearKeys (b.setAll others data)).hget n =
    if n ∈ data.map fun p => b.getKey p.1 then none else others.hget n
  stripped : ∃ keys, b.getAllKeys decodeResponses (b.setAll others data) true = some keys ∧
    keys.Perm ((data.map Prod.fst).dedup.map some)

/-- No key contains the base key; `KEYS` finds the names of the keys, and none of others; and the
session does not take a name for `None`. -/
structure Apart (b : Backend ByteArray V) (decodeResponses : Bool) (others : Keyspace)
    (keys : List String) : Prop where
  plain : ∀ k ∈ keys, ¬ b.baseKey.toList <:+: k.toList
  found : ∀ k ∈ keys, b.globMatch b.listPattern (b.getKey k) = true
  others : ∀ n, others.hget n ≠ none → b.globMatch b.listPattern n = true → n ∈ keys.map b.getKey
  decoded : decodeResponses = true → encoderNullValue ∉ keys.map b.getKey

variable {others : Keyspace} {data : List (String × V)}

theorem hget_setAll (n : String) :
    (b.setAll others data).hget n =
      (lastOf (data.map fun p => (b.getKey p.1, b.encode p.2)) n).or (others.hget n) := by
  rw [← Hash.hget_hsetAll, Hash.hsetAll, List.foldl_map]
  rfl

theorem hget_setAll_ne_none {n : String} :
    (b.setAll others data).hget n ≠ none ↔
      n ∈ (data.map fun p => b.getKey p.1) ∨ others.hget n ≠ none := by
  rw [hget_setAll]
  have hl : lastOf (data.map fun p => (b.getKey p.1, b.encode p.2)) n = none ↔
      n ∉ data.map fun p => b.getKey p.1 := by
    rw [lastOf_eq_none, List.map_map]
    rfl
  cases h : lastOf (data.map fun p => (b.getKey p.1, b.encode p.2)) n with
  | none => simp [hl.1 h]
  | some v =>
    have hm : n ∈ data.map fun p => b.getKey p.1 := not_not.1 (mt hl.2 (by simp [h]))
    simp [hm]

/-- What `KEYS` finds after the keys have been set. -/
theorem mem_keys_setAll (h : Apart b decodeResponses others (data.map Prod.fst)) {n : String} :
    n ∈ (b.setAll others data).keys b.globMatch b.listPattern ↔
      n ∈ (data.map Prod.fst).map b.getKey := by
  rw [Keyspace.mem_keys, hget_setAll_ne_none, List.map_map]
  constructor
  · rintro ⟨hn | hn, hg⟩
    · exact hn
    · rw [← List.map_map]
      exact h.others n hn hg
  · intro hn
    refine ⟨.inl hn, ?_⟩
    obtain ⟨p, hp, rfl⟩ := List.mem_map.1 hn
    exact h.found p.1 (List.mem_map_of_mem hp)

theorem Apart.injOn {keys : List String} (h : Apart b decodeResponses others keys) {k k' : String}
    (hk : k ∈ keys) (hk' : k' ∈ keys) (he : b.getKey k = b.getKey k') : k = k' := by
  rw [getKey_of_apart (h.plain k hk), getKey_of_apart (h.plain k' hk')] at he
  rw [← String.toList_inj] at he ⊢
  simpa [String.toList_append] using he

theorem keys_setAll_perm (h : Apart b decodeResponses others (data.map Prod.fst)) :
    ((b.setAll others data).keys b.globMatch b.listPattern).Perm
      ((data.map Prod.fst).dedup.map b.getKey) := by
  refine (List.perm_ext_iff_of_nodup Keyspace.nodup_keys ?_).2 fun n => ?_
  · refine List.Nodup.map_on ?_ (List.nodup_dedup _)
    intro k hk k' hk' he
    exact h.injOn (List.mem_dedup.1 hk) (List.mem_dedup.1 hk') he
  · rw [mem_keys_setAll h]
    simp only [List.mem_map, List.mem_dedup]

/-- The names of the listing, if all keys are texts. -/
theorem fetchSetKeys_setAll (h : Apart b decodeResponses others (data.map Prod.fst)) :
    b.fetchSetKeys decodeResponses (b.setAll others data) =
      ((b.setAll others data).keys b.globMatch b.listPattern).map some := by
  refine map_responseKey fun hd hm => h.decoded hd ?_
  exact (mem_keys_setAll h).1 hm

theorem NamespaceLaw.of_apart (hbase : b.baseKey ≠ "")
    (h : Apart b decodeResponses others (data.map Prod.fst)) :
    NamespaceLaw b decodeResponses others data where
  idempotent := getKey_getKey
  begins k hk := by
    rw [getKey_of_apart (h.plain k hk), String.toList_append (s := b.baseKey ++ b.keyjoin)]
    exact List.prefix_append _ _
  distinct k hk k' hk' he := h.injOn hk hk' he
  listed := by
    refine ⟨_, by rw [getAllKeys, if_neg hbase, if_neg Bool.false_ne_true], ?_⟩
    rw [fetchSetKeys_setAll h]
    simpa only [List.map_map, Function.comp_def] using (keys_setAll_perm h).map some
  counted := by
    rw [length, if_neg hbase, (keys_setAll_perm h).length_eq, List.length_map]
  cleared n := by
    rw [clearKeys, Hash.hget_hdelAll]
    have hmem : (n ∈ data.map fun p => b.getKey p.1) ↔
        n ∈ (b.setAll others data).keys b.globMatch b.listPattern := by
      rw [mem_keys_setAll h, List.map_map]
      rfl
    by_cases hn : n ∈ data.map fun p => b.getKey p.1
    · rw [if_pos hn, if_pos (hmem.1 hn)]
    · have hl : lastOf (data.map fun p => (b.getKey p.1, b.encode p.2)) n = none := by
        rw [lastOf_eq_none, List.map_map]
        exact hn
      rw [if_neg hn, if_neg (mt hmem.2 hn), hget_setAll, hl, Option.none_or]
  stripped := by
    refine ⟨_, by
      rw [getAllKeys, if_neg hbase, if_pos rfl, fetchSetKeys_setAll h, replaceKeys_map_some], ?_⟩
    have hp := (keys_setAll_perm h).map fun n => some (b.stripBase n)
    rw [List.map_map] at hp
    refine hp.trans (List.Perm.of_eq (List.map_congr_left fun k hk => ?_))
    show some (b.stripBase (b.getKey k)) = some k
    rw [stripBase_getKey, stripBase_of_apart (h.plain k (List.mem_dedup.1 hk))]

/-- The names that are listed are those of the keys, as texts. -/
theorem NamespaceLaw.mem_keys (hbase : b.baseKey ≠ "")
    (h : NamespaceLaw b decodeResponses others data) {key : PyKey} :
    key ∈ b.fetchSetKeys decodeResponses (b.setAll others data) ↔
      ∃ k ∈ data.map Prod.fst, key = some (b.getKey k) := by
  obtain ⟨names, hnames, hperm⟩ := h.listed
  rw [getAllKeys, if_neg hbase, if_neg Bool.false_ne_true] at hnames
  obtain rfl := Option.some.inj hnames
  rw [hperm.mem_iff]
  simp only [List.mem_map, List.mem_dedup]
  constructor
  · rintro ⟨k, hk, rfl⟩
    exact ⟨k, hk, rfl⟩
  · rintro ⟨k, hk, rfl⟩
    exact ⟨k, hk, rfl⟩

theorem Apart.of_namespaceLaw (hbase : b.baseKey ≠ "")
    (h : NamespaceLaw b decodeResponses others data) :
    Apart b decodeResponses others (data.map Prod.fst) := by
  have hfound : ∀ k ∈ data.map Prod.fst,
      b.getKey k ∈ (b.setAll others data).keys b.globMatch b.listPattern ∧
        ¬ (decodeResponses = true ∧ b.getKey k = encoderNullValue) := by
    intro k hk
    have hm := (h.mem_keys hbase).2 ⟨k, hk, rfl⟩
    rw [fetchSetKeys, List.mem_map] at hm
    obtain ⟨n, hn, hr⟩ := hm
    obtain ⟨rfl, hnull⟩ := responseKey_eq_some.1 hr
    exact ⟨hn, hnull⟩
  have hall : ∀ n ∈ (b.setAll others data).keys b.globMatch b.listPattern,
      n ∈ (data.map Prod.fst).map b.getKey := by
    intro n hn
    have hm : responseKey decodeResponses n ∈
        b.fetchSetKeys decodeResponses (b.setAll others data) := List.mem_map_of_mem hn
    obtain ⟨k, hk, hr⟩ := (h.mem_keys hbase).1 hm
    exact List.mem_map.2 ⟨k, hk, (responseKey_eq_some.1 hr).1.symm⟩
  have hdecoded : decodeResponses = true → encoderNullValue ∉ (data.map Prod.fst).map b.getKey := by
    intro hd hm
    obtain ⟨k, hk, hnull⟩ := List.mem_map.1 hm
    exact (hfound k hk).2 ⟨hd, hnull⟩
  have hfetch : b.fetchSetKeys decodeResponses (b.setAll others data) =
      ((b.setAll others data).keys b.globMatch b.listPattern).map some :=
    map_responseKey fun hd hm => hdecoded hd (hall _ hm)
  refine ⟨?_, fun k hk => (Keyspace.mem_keys.1 (hfound k hk).1).2, fun n hn hg => hall n ?_,
    hdecoded⟩
  · -- the keys are those that are left of the names, so nothing was taken away from them
    obtain ⟨keys, hkeys, hperm⟩ := h.stripped
    rw [getAllKeys, if_neg hbase, if_pos rfl, hfetch, replaceKeys_map_some] at hkeys
    obtain rfl := Option.some.inj hkeys
    have honto : ∀ k ∈ (data.map Prod.fst).toFinset, ∃ c ∈ (data.map Prod.fst).toFinset,
        True ∧ b.stripBase c = k := by
      intro k hk
      have hm := hperm.mem_iff.2 (List.mem_map_of_mem (List.mem_dedup.2 (List.mem_toFinset.1 hk)))
      obtain ⟨n, hn, hs⟩ := List.mem_map.1 hm
      obtain ⟨c, hc, rfl⟩ := List.mem_map.1 (hall n hn)
      refine ⟨c, List.mem_toFinset.2 hc, trivial, ?_⟩
      rw [← stripBase_getKey]
      exact Option.some.inj hs
    intro k hk
    have hlen :=
      (fixed_of_onto String.length length_stripBase_le honto k (List.mem_toFinset.2 hk)).2
    exact apart_of_begins (h.begins k hk) hbase (stripBase_of_length hlen)
  · exact Keyspace.mem_keys.2 ⟨hget_setAll_ne_none.2 (.inr hn), hg⟩

/-- **The namespace law** holds if and only if no key contains the base key and the listing pattern
finds the names of the keys and no others (nor one that the session takes for `None`). -/
theorem namespaceLaw_iff (b : Backend ByteArray V) (hbase : b.baseKey ≠ "") (decodeResponses : Bool)
    (others : Keyspace) (data : List (String × V)) :
    NamespaceLaw b decodeResponses others data ↔
      Apart b decodeResponses others (data.map Prod.fst) :=
  ⟨Apart.of_namespaceLaw hbase, NamespaceLaw.of_apart hbase⟩

/-- Two keys that do not contain the base key, and a key of others. -/
theorem namespaceLaw_plain :
    NamespaceLaw starBackend false (Hash.hset ∅ "c:x" "0".toUTF8)
      [("x", "1".toUTF8), ("y", "2".toUTF8)] := by
  refine (namespaceLaw_iff starBackend (by decide) false _ _).2 ⟨?_, ?_, fun n hn hg => ?_, ?_⟩
  · decide +kernel
  · decide +kernel
  · have hn : n = "c:x" := by
      by_contra hne
      rw [Hash.hget_hset, if_neg hne, Hash.hget_empty] at hn
      exact hn rfl
    subst hn
    revert hg
    decide +kernel
  · decide

/-- **A key that contains the base key** has the name of another. -/
theorem namespaceLaw_broken :
    ¬ NamespaceLaw starBackend false ∅ [("x", "1".toUTF8), ("b:x", "2".toUTF8)] := fun h =>
  absurd (h.distinct "x" (by decide +kernel) "b:x" (by decide +kernel) (by decide +kernel))
    (by decide)

/-- A key that contains the base key further on has a name that `clear` does not find. -/
example : ¬ NamespaceLaw starBackend false ∅ [("cab", "1".toUTF8)] := fun h =>
  absurd (h.begins "cab" (by decide +kernel)) (by decide +kernel)

end Backend

end Kvdb
