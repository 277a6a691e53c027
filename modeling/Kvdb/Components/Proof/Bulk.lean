import Kvdb.Components.Bulk
import Kvdb.Components.Proof.Namespace

/-!
# Bulk operations: what the loops do

On a dictionary the loops do what they should (`hsetMigrateSchema_spec`, `hsetReplicateFrom_spec`).
The list of `MGET` has no `items()`, so in plain-key mode every one of them raises, but for the
replication of nothing (`Backend.bulk_iff`).
-/

namespace Kvdb

open Redis Python HsetStore

theorem hsetMapping_spec {κ β : Type} [DecidableEq κ] {hash hash' : Hash κ β} {items : List (κ × β)}
    (h : hsetMapping hash items = some hash') (k : κ) :
    hash'.hget k = (lastOf items k).or (hash.hget k) := by
  unfold hsetMapping at h
  split at h
  · cases h
  · rw [← Option.some.inj h, Hash.hget_hsetAll]

namespace Backend

variable {V : Type} {b : Backend ByteArray V} {recode : ByteArray → Option ByteArray}

/-! ## hset mode -/

/-- The results of the loop of `migrate_schema`. -/
theorem lastOf_mapM {items results : List (String × ByteArray)}
    (h : (items.mapM fun p => (recode p.2).map fun value => (p.1, value)) = some results)
    (k : String) : lastOf results k = (lastOf items k).bind recode := by
  induction items generalizing results with
  | nil =>
    obtain rfl := Option.some.inj h
    rfl
  | cons p items ih =>
    simp only [List.mapM_cons, Option.bind_eq_bind, Option.bind_eq_some_iff, Option.map_eq_some_iff]
      at h
    obtain ⟨_, ⟨value, hvalue, rfl⟩, rest, hrest, hresults⟩ := h
    obtain rfl := Option.some.inj hresults
    rw [lastOf_cons, lastOf_cons, ih hrest]
    cases hl : lastOf items k with
    | none => by_cases hk : k = p.1 <;> simp [hk, hvalue]
    | some v =>
      have hne := (Python.mapM_some hrest).1 (k, v) (mem_of_lastOf hl)
      obtain ⟨w, hw⟩ : ∃ w, recode v = some w := by
        cases hv : recode v with
        | none => simp [hv] at hne
        | some w => exact ⟨w, rfl⟩
      simp [hw]

/-- A migration raises unless every value can be rewritten. -/
theorem recode_of_hsetMigrateSchema {s s' : HsetStore ByteArray}
    (h : hsetMigrateSchema recode s = some s') {k : String} {v : ByteArray}
    (hv : s.data.hget k = some v) : ∃ w, recode v = some w := by
  simp only [hsetMigrateSchema, migrated, Fetched.items, Option.bind_eq_bind, Option.bind_some,
    Option.bind_eq_some_iff] at h
  obtain ⟨results, hresults, -⟩ := h
  have hne := (Python.mapM_some hresults).1 (k, v) (Hash.mem_hgetall.2 hv)
  rw [ne_eq, Option.map_eq_none_iff] at hne
  exact Option.ne_none_iff_exists'.1 hne

/-- **A migration in hset mode** rewrites every value under its own key. -/
theorem hsetMigrateSchema_spec {s s' : HsetStore ByteArray}
    (h : hsetMigrateSchema recode s = some s') :
    (∀ k, s'.data.hget k = (s.data.hget k).bind recode) ∧ s'.expIndex = s.expIndex := by
  have hrecode := @recode_of_hsetMigrateSchema recode s s' h
  simp only [hsetMigrateSchema, migrated, Fetched.items, Option.bind_eq_bind, Option.bind_some,
    Option.bind_eq_some_iff] at h
  obtain ⟨results, hresults, data, hdata, hs⟩ := h
  obtain rfl := Option.some.inj hs
  refine ⟨fun k => ?_, rfl⟩
  rw [hsetMapping_spec hdata, lastOf_mapM hresults, Hash.lastOf_hgetall]
  cases hd : s.data.hget k with
  | none => rfl
  | some v =>
    obtain ⟨w, hw⟩ := hrecode hd
    simp [hw]

/-- **A replication in hset mode** adds every value and deadline under its own key. -/
theorem hsetReplicateFrom_spec {source s : HsetStore ByteArray} (hne : source.data.hgetall ≠ []) :
    ∃ s', hsetReplicateFrom source s = some s' ∧
      (∀ k, s'.data.hget k = (source.data.hget k).or (s.data.hget k)) ∧
      ∀ k, s'.expIndex.hget k = (source.expIndex.hget k).or (s.expIndex.hget k) := by
  by_cases he : source.expIndex.hgetall = []
  · refine ⟨_, by simp [hsetReplicateFrom, hsetMapping, hne, he]; rfl, fun k => ?_, fun k => ?_⟩
    · rw [Hash.hget_hsetAll, Hash.lastOf_hgetall]
    · have hnone : source.expIndex.hget k = none := by
        rw [← Hash.lastOf_hgetall, he]
        rfl
      rw [hnone, Option.none_or]
  · refine ⟨_, by simp [hsetReplicateFrom, hsetMapping, hne, he]; rfl, fun k => ?_, fun k => ?_⟩
    · rw [Hash.hget_hsetAll, Hash.lastOf_hgetall]
    · rw [Hash.hget_hsetAll, Hash.lastOf_hgetall]

/-! ## Plain-key mode -/

/-- **Bulk operations with plain keys**: `dump_data_raw` and `migrate_schema` raise whatever the
content is, and `replicate_from` does unless the source has no keys. -/
theorem bulk_iff (b : Backend ByteArray V) (decodeResponses includeBaseKey : Bool)
    (recode : ByteArray → Option ByteArray) (source server : Keyspace) (s : HsetStore ByteArray) :
    ¬ b.DumpsAs decodeResponses includeBaseKey server s ∧ ¬ b.MigratesAs recode server ∧
      (b.ReplicatesAs source server ↔ b.setNames source = []) := by
  refine ⟨?_, ?_, ?_⟩
  · rintro ⟨results, hresults, -⟩
    cases hresults
  · rintro ⟨server', hserver, -⟩
    cases hserver
  · constructor
    · rintro ⟨server', hserver, -⟩
      by_contra hne
      have htrue : (source.mget (b.setNames source)).isTrue = true := by
        simp [Keyspace.mget, Fetched.isTrue, hne]
      rw [plainReplicateFrom, if_pos htrue] at hserver
      cases hserver
    · intro hnil
      refine ⟨server, ?_, fun n => ?_⟩
      · simp [plainReplicateFrom, Keyspace.mget, Fetched.isTrue, hnil]
      · simp [hnil]

/-- **One key** is enough for all of them to raise. -/
theorem bulk_broken :
    starBackend.plainDumpDataRaw false false (Hash.hset ∅ "b:x" "1".toUTF8) = none ∧
      starBackend.plainMigrateSchema some (Hash.hset ∅ "b:x" "1".toUTF8) = none ∧
      starBackend.plainReplicateFrom (Hash.hset ∅ "b:x" "1".toUTF8) ∅ = none := by
  refine ⟨rfl, rfl, ?_⟩
  have hnames : starBackend.setNames (Hash.hset ∅ "b:x" "1".toUTF8) = ["b:x"] := by decide +kernel
  rw [plainReplicateFrom, hnames]
  rfl

end Backend

end Kvdb
