import Kvdb.Io.Proof.CachifyTtl

/-!
# The size of the cache

`check_cache_policies` ranks the keys of `data`, not those of the cache: keys that were set but never
read are not in it, and the keys it deletes stay in it. It takes as many keys from the ranking as the
cache is too large by, without the key just read, and deletes them; if none is left, `clear` deletes
everything. So the bound holds after a check exactly if the keys taken are that many, all cached and
none the key just read, or none other than this one (`length_check_le_iff`).
-/

namespace Kvdb

open Lib Python

namespace Cachify

variable {K V : Type} [DecidableEq K] {cfg : CachifyConfig} {s : Cachify K V}

/-- The number of keys that `retrieve` finds. -/
def size (s : Cachify K V) (now : ℚ) : ℕ :=
  (s.values.items.filter fun p => (s.get now p.1).isSome).length

theorem size_of_plain (now : ℚ) (h : ∀ k c, s.values.get? k = some c → c.2 = none) :
    s.size now = s.numKeys := by
  rw [size, numKeys, List.filter_eq_self.2]
  rintro ⟨k, c⟩ hm
  have hc := Dict.mem_items.1 hm
  simp [get, hc, h k c hc]

omit [DecidableEq K] in
theorem nodup_ranked (d : CacheData K) : (d.ranked cfg).Nodup := by
  unfold CacheData.ranked
  split <;> exact Dict.nodup_sortedKeys ..

variable (s cfg) in
/-- The ranking has the keys to delete: as many as the cache is too large by, all of them cached, none
the key just read. Or it has no key but this one, and everything is deleted. -/
def HasVictims (key : K) (maxSize : ℕ) : Prop :=
  let first := (s.data.ranked cfg).take (s.numKeys - maxSize)
  (∀ k ∈ first, k = key) ∨
    first.length = s.numKeys - maxSize ∧ key ∉ first ∧
      ∀ k ∈ first, (s.values.get? k).isSome = true

/-- **What a size check leaves.** -/
theorem numKeys_check_le_iff (hh : cfg.hsetEnabled = true) (key : K) (n : ℕ) :
    (s.checkCachePolicies cfg key n).numKeys ≤ n ↔ s.numKeys ≤ n ∨ s.HasVictims cfg key n := by
  unfold checkCachePolicies HasVictims
  split
  · rename_i hle
    exact iff_of_true hle (.inl hle)
  · rename_i hgt
    rw [or_iff_right hgt, keysToDelete]
    have hlen : ((s.data.ranked cfg).take (s.numKeys - n)).length ≤ s.numKeys - n :=
      List.length_take_le ..
    have hnodup : ((s.data.ranked cfg).take (s.numKeys - n)).Nodup :=
      (nodup_ranked _).sublist (List.take_sublist ..)
    generalize (s.data.ranked cfg).take (s.numKeys - n) = first at hlen hnodup
    by_cases hv : first.erase key = []
    · refine iff_of_true (by simp [hv, clear, hh, numKeys]) (.inl fun k hk => ?_)
      by_contra hne
      have hmem := (List.mem_erase_of_ne hne).2 hk
      rw [hv] at hmem
      cases hmem
    · have hle : (first.erase key).length ≤ s.numKeys - n :=
        (List.length_erase_le ..).trans hlen
      have hpop := Dict.length_popAll_le_iff (d := s.values) (hnodup.erase key) hle (Nat.sub_le ..)
      rw [show s.values.items.length - (s.numKeys - n) = n by unfold numKeys at *; omega] at hpop
      have hclear : (s.clear cfg (first.erase key)).numKeys =
          (s.values.popAll (first.erase key)).items.length := by simp [clear, hv, numKeys]
      rw [hclear, hpop]
      constructor
      · intro hw
        obtain ⟨hl, hall⟩ := hw
        have hkey : key ∉ first := fun hk => by
          have hpos := List.length_pos_of_mem hk
          rw [List.length_erase_of_mem hk] at hl
          omega
        rw [List.erase_of_not_mem hkey] at hl hall
        exact .inr ⟨hl, hkey, hall⟩
      · intro hw
        rcases hw with honly | ⟨hl, hkey, hall⟩
        · refine absurd (List.eq_nil_iff_forall_not_mem.2 fun k hk => ?_) hv
          exact (hnodup.mem_erase_iff.1 hk).1 (honly k (List.mem_of_mem_erase hk))
        · rw [List.erase_of_not_mem hkey]
          exact ⟨hl, hall⟩

end Cachify

/-! ## Runs -/

section

variable {K V : Type} [DecidableEq K] {cfg : CachifyConfig} {s : CacheRun K V} {e : CacheEv K V}
  {es : List (CacheEv K V)}

variable (cfg) in
/-- After a policy check the cache is not too large. -/
def Bounded (s : CacheRun K V) : CacheEv K V → Prop
  | .validate key => ∀ n ∈ cfg.cacheMaxSize,
      (s.cache.validateCachePolicies cfg s.now key).size s.now ≤ n
  | _ => True

variable (cfg) in
/-- The cache is not too large before the size check, or the ranking has the keys to delete. Without
a hash there is no size check. -/
def Deletable (s : CacheRun K V) : CacheEv K V → Prop
  | .validate key => ∀ n ∈ cfg.cacheMaxSize,
      if cfg.hsetEnabled then
        (s.cache.beforeCheck cfg s.now key).numKeys ≤ n ∨
          (s.cache.beforeCheck cfg s.now key).HasVictims cfg key n
      else s.cache.size s.now ≤ n
  | _ => True

theorem plain_of_run {C : CacheRun K V → CacheEv K V → Prop} (hh : cfg.hsetEnabled = true)
    (hr : (cacheMachine K V cfg).Run C (cacheMachine K V cfg).init es s) (k : K)
    (c : V × Option ℚ) (hc : s.cache.values.get? k = some c) : c.2 = none := by
  obtain ⟨g, hg⟩ := hr.observe (fun _ => none) (noteKeys cfg)
  exact (hashInv_of_run hh hg k).plain c hc

theorem bounded_iff_of_run {C : CacheRun K V → CacheEv K V → Prop}
    (hr : (cacheMachine K V cfg).Run C (cacheMachine K V cfg).init es s) :
    Bounded cfg s e ↔ Deletable cfg s e := by
  cases e with
  | validate key =>
    refine forall₂_congr fun n hn => ?_
    have hn : cfg.cacheMaxSize = some n := hn
    cases hh : cfg.hsetEnabled with
    | true =>
      have hplain : ∀ k c, (s.cache.validateCachePolicies cfg s.now key).values.get? k = some c →
          c.2 = none := by
        intro k c hc
        rw [Cachify.values_validate hh] at hc
        split at hc
        · cases hc
        · exact plain_of_run hh hr k c hc
      rw [Cachify.size_of_plain _ hplain, if_pos rfl, ← Cachify.numKeys_check_le_iff hh]
      simp only [Cachify.validateCachePolicies, hh, hn]
    | false =>
      obtain ⟨g, hg⟩ := hr.observe (fun _ => none) (noteKeys cfg)
      rw [Cachify.validate_of_none_recorded hh (serverInv_of_run hh hg).none_recorded]
      exact Iff.rfl
  | _ => exact Iff.rfl

/-- **The cache is not too large after any policy check** in the runs whose checks find the keys to
delete, and in no others. -/
theorem run_size_iff :
    (cacheMachine K V cfg).Run (Bounded cfg) (cacheMachine K V cfg).init es s ↔
      (cacheMachine K V cfg).Run (Deletable cfg) (cacheMachine K V cfg).init es s :=
  ⟨fun h => h.imp fun hr _ hc _ => (bounded_iff_of_run hr).1 hc,
    fun h => h.imp fun hr _ hc _ => (bounded_iff_of_run hr).2 hc⟩

end

/-- One key is read, then two more are set and one of them is read: the first key goes, and the key
that was not read stays beside the one that was. -/
theorem run_size_broken :
    ∃ s, (cacheMachine ℕ String { cacheMaxSize := some 1 }).Run Machine.Any {}
        [.set 1 "a" none, .retrieve 1, .validate 1, .set 2 "b" none, .set 3 "c" none, .retrieve 2,
          .validate 2] s ∧
      s.cache.values.items = [(2, "b", none), (3, "c", none)] ∧ s.cache.size s.now = 2 :=
  Machine.exists_run (by decide +kernel) (by decide +kernel)

end Kvdb
