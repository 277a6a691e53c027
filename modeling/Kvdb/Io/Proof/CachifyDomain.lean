import Kvdb.Io.Proof.CachifyPolicy

/-!
# The keys that have metadata

`invalidatingMachine` is `cacheMachine` with `invalidate_cache`. A key keeps its hits, its timestamp
and its deadline when it is cleared or evicted, and it gets hits and a timestamp again from a policy
check that comes after its value went: these are the steps after which a key has metadata that is not
in the cache (`domain_step_iff`). All others keep the keys with metadata within the cached ones.
-/

namespace Kvdb

open Lib Python

variable {K V : Type} [DecidableEq K] {cfg : CachifyConfig}
  {saves : ∀ β, Dict K β → Dict K β → Bool}

/-! ## Key sets -/

section

variable {β : Type} {d : Dict K β}

theorem keySet_setItem (k : K) (v : β) : (d.setItem k v).keySet = insert k d.keySet := by
  ext k'
  rw [Finset.mem_insert, Dict.mem_keySet, Dict.mem_keySet, Dict.get?_setItem]
  by_cases h : k' = k <;> simp [h]

theorem keySet_pop (k : K) : (d.pop k).keySet = d.keySet.erase k := by
  ext k'
  rw [Finset.mem_erase, Dict.mem_keySet, Dict.mem_keySet, Dict.get?_pop]
  by_cases h : k' = k <;> simp [h]

theorem keySet_popSaved (saves : Dict K β → Dict K β → Bool) (k : K) :
    (Cachify.popSaved saves d k).keySet =
      if saves d (d.pop k) then d.keySet.erase k else d.keySet := by
  unfold Cachify.popSaved
  split
  · split
    · exact keySet_pop k
    · rfl
  · rename_i hk
    split
    · exact (Finset.erase_eq_of_notMem hk).symm
    · rfl

end

namespace Cachify

variable {s : Cachify K V} {now : ℚ} {key : K}

/-- Only cached keys have metadata. -/
def Domain (s : Cachify K V) : Prop := s.data.keys ⊆ s.values.keySet

variable (saves s) in
/-- Each dictionary that has the key is saved without it. -/
def SavesAll (key : K) : Prop :=
  (key ∈ s.data.keyhits.keySet → saves ℕ s.data.keyhits (s.data.keyhits.pop key) = true) ∧
    (key ∈ s.data.timestamps.keySet →
      saves ℚ s.data.timestamps (s.data.timestamps.pop key) = true) ∧
    (key ∈ s.data.expirations.keySet →
      saves ℚ s.data.expirations (s.data.expirations.pop key) = true)

theorem mem_keys {d : CacheData K} :
    key ∈ d.keys ↔
      key ∈ d.keyhits.keySet ∨ key ∈ d.timestamps.keySet ∨ key ∈ d.expirations.keySet := by
  rw [CacheData.keys, Finset.mem_union, Finset.mem_union, or_assoc]

theorem keys_popKeys (d : CacheData K) (keys : List K) :
    (d.popKeys keys).keys = d.keys \ keys.toFinset := by
  simp only [CacheData.keys, CacheData.popKeys, Dict.keySet_popAll, Finset.union_sdiff_distrib]

/-! ## Steps -/

theorem Domain.set (h : s.Domain) (value : V) (ttl : Option Number) :
    (s.set cfg now key value ttl).Domain := by
  unfold Domain Cachify.set
  dsimp only
  split
  · rw [keySet_setItem]
    cases deadline now (effectiveTtl cfg ttl) with
    | none => exact h.trans (Finset.subset_insert ..)
    | some t =>
      intro k hk
      simp only [Option.elim_some, CacheData.addKeyExpiration, mem_keys, keySet_setItem,
        Finset.mem_insert] at hk
      rw [Finset.mem_insert, or_iff_not_imp_left]
      intro hne
      exact h (mem_keys.2 (by simpa [hne] using hk))
  · rw [keySet_setItem]
    exact h.trans (Finset.subset_insert ..)

theorem domain_clear_iff (h : s.Domain) {keys : List K} :
    (s.clear cfg keys).Domain ↔ ∀ k ∈ keys, k ∉ s.data.keys := by
  unfold Domain Cachify.clear
  split
  · simp only [Dict.keySet_popAll]
    constructor
    · intro hsub k hk hm
      exact (Finset.mem_sdiff.1 (hsub hm)).2 (List.mem_toFinset.2 hk)
    · intro hout k hk
      exact Finset.mem_sdiff.2 ⟨h hk, fun hm => hout k (List.mem_toFinset.1 hm) hk⟩
  · rename_i hnil
    rw [not_not] at hnil
    subst hnil
    refine iff_of_true ?_ fun k hk => absurd hk List.not_mem_nil
    split <;> exact Finset.empty_subset _

theorem Domain.expire (h : s.Domain) : (s.expireCacheExpiredKeys cfg now).Domain := by
  simp only [expireCacheExpiredKeys]
  split
  · exact h
  · rename_i hne
    rw [Domain, clear, if_pos hne, Dict.keySet_popAll, keys_popKeys]
    exact Finset.sdiff_subset_sdiff h subset_rfl

theorem domain_addHit : { s with data := s.data.addHit }.Domain ↔ s.Domain := Iff.rfl

theorem domain_beforeCheck_iff (h : s.Domain) :
    (s.beforeCheck cfg now key).Domain ↔ key ∈ (s.beforeCheck cfg now key).values.keySet := by
  have he : ({ s with data := s.data.addHit }.expireCacheExpiredKeys cfg now).Domain :=
    (domain_addHit.2 h).expire
  unfold beforeCheck
  generalize { s with data := s.data.addHit }.expireCacheExpiredKeys cfg now = t at he
  constructor
  · intro hd
    refine hd (mem_keys.2 (.inl ?_))
    simp [CacheData.addKeyHit, CacheData.addKeyTimestamp, keySet_setItem]
  · intro hk k hm
    simp only [CacheData.addKeyHit, CacheData.addKeyTimestamp, mem_keys, keySet_setItem,
      Finset.mem_insert] at hm
    by_cases hne : k = key
    · exact hne ▸ hk
    · exact he (mem_keys.2 (by simpa [hne] using hm))

theorem mem_keys_of_ranked {d : CacheData K} {k : K} (h : k ∈ d.ranked cfg) : k ∈ d.keys := by
  unfold CacheData.ranked at h
  rw [mem_keys]
  split at h
  · exact .inr (.inl (mem_sortedKeys.1 h))
  · exact .inl (mem_sortedKeys.1 h)
  · exact .inr (.inl (mem_sortedKeys.1 h))
  · exact .inr (.inl (mem_sortedKeys.1 h))

/-- A size check that evicts something leaves the metadata of what it evicts. -/
theorem domain_check_iff (n : ℕ) (hh : cfg.hsetEnabled = true) :
    (s.checkCachePolicies cfg key n).Domain ↔
      if s.numKeys ≤ n then s.Domain
      else ∀ k ∈ (s.data.ranked cfg).take (s.numKeys - n), k = key := by
  unfold checkCachePolicies
  split
  · exact Iff.rfl
  · by_cases hnil : s.keysToDelete cfg key n = []
    · refine iff_of_true ?_ fun k hk => ?_
      · rw [hnil, clear, if_neg (not_not.2 rfl), if_pos hh]
        exact Finset.empty_subset _
      · by_contra hne
        have hmem : k ∈ s.keysToDelete cfg key n := (List.mem_erase_of_ne hne).2 hk
        rw [hnil] at hmem
        cases hmem
    · obtain ⟨k, hk⟩ := List.exists_mem_of_ne_nil _ hnil
      refine iff_of_false (fun hd => ?_) fun hall => ?_
      · rw [Domain, clear, if_pos hnil] at hd
        have hkeys : k ∈ s.data.keys :=
          mem_keys_of_ranked (List.mem_of_mem_take (List.mem_of_mem_erase hk))
        have hv := hd hkeys
        rw [Dict.keySet_popAll, Finset.mem_sdiff, List.mem_toFinset] at hv
        exact hv.2 hk
      · have hnodup : ((s.data.ranked cfg).take (s.numKeys - n)).Nodup :=
          (nodup_ranked _).sublist (List.take_sublist ..)
        obtain ⟨hne, hk⟩ := hnodup.mem_erase_iff.1 hk
        exact hne (hall k hk)

variable (cfg s now) in
/-- The size check finds the cache not too large, and its key still cached; or there is nothing but
its key to evict. -/
def KeepsDomain (key : K) : Prop :=
  cfg.hsetEnabled = true → ∀ n ∈ cfg.cacheMaxSize,
    if (s.beforeCheck cfg now key).numKeys ≤ n then
      key ∈ (s.beforeCheck cfg now key).values.keySet
    else ∀ k ∈ ((s.beforeCheck cfg now key).data.ranked cfg).take
      ((s.beforeCheck cfg now key).numKeys - n), k = key

theorem domain_validate_iff (h : s.Domain) :
    (s.validateCachePolicies cfg now key).Domain ↔ s.KeepsDomain cfg now key := by
  unfold validateCachePolicies KeepsDomain
  cases hh : cfg.hsetEnabled with
  | false => exact iff_of_true (domain_addHit.2 h).expire (by simp)
  | true =>
    cases hmax : cfg.cacheMaxSize with
    | none => exact iff_of_true (domain_addHit.2 h).expire fun _ _ hn => by cases hn
    | some n =>
      simp only [true_implies, Option.mem_some_iff, forall_eq']
      rw [domain_check_iff n hh]
      split
      · exact domain_beforeCheck_iff h
      · exact Iff.rfl

theorem domain_invalidate_iff (h : s.Domain) :
    (s.invalidateCache saves key).Domain ↔ s.SavesAll saves key := by
  have herase : ∀ {A B : Finset K} {b : Bool}, A ⊆ B →
      ((if b then A.erase key else A) ⊆ B.erase key ↔ (key ∈ A → b = true)) := by
    intro A B b hAB
    cases b with
    | true => exact iff_of_true (Finset.erase_subset_erase _ hAB) fun _ => rfl
    | false =>
      simp only [Bool.false_eq_true, if_false]
      constructor
      · intro hsub hk
        exact absurd rfl (Finset.mem_erase.1 (hsub hk)).1
      · intro hout k hk
        exact Finset.mem_erase.2 ⟨fun hkk => (hout (hkk ▸ hk)).elim, hAB hk⟩
  have hk : s.data.keyhits.keySet ⊆ s.values.keySet := fun _ hm => h (mem_keys.2 (.inl hm))
  have ht : s.data.timestamps.keySet ⊆ s.values.keySet :=
    fun _ hm => h (mem_keys.2 (.inr (.inl hm)))
  have he : s.data.expirations.keySet ⊆ s.values.keySet :=
    fun _ hm => h (mem_keys.2 (.inr (.inr hm)))
  unfold Domain CacheData.keys invalidateCache SavesAll
  simp only [keySet_popSaved, keySet_pop]
  rw [Finset.union_subset_iff, Finset.union_subset_iff, herase hk, herase ht, herase he, and_assoc]

end Cachify

/-! ## Runs -/

inductive InvalidatingEv (K V : Type)
  | cache (e : CacheEv K V)
  | invalidate (key : K)

variable (cfg saves) in
def invalidatingStep (s : CacheRun K V) : InvalidatingEv K V → Option (CacheRun K V)
  | .cache e => s.step cfg e
  | .invalidate key => some { s with cache := s.cache.invalidateCache saves key }

variable (K V cfg saves) in
def invalidatingMachine : Machine (CacheRun K V) (InvalidatingEv K V) where
  init := {}
  step := invalidatingStep cfg saves

variable {s s' : CacheRun K V} {e : InvalidatingEv K V} {es : List (InvalidatingEv K V)}

variable (cfg saves s) in
/-- No key that has metadata is cleared, unless all are; no policy check evicts one, or comes after its
key went; and what is popped from the metadata is saved. -/
def Tidied : InvalidatingEv K V → Prop
  | .cache (.clear keys) => ∀ k ∈ keys, k ∉ s.cache.data.keys
  | .cache (.validate key) => s.cache.KeepsDomain cfg s.now key
  | .invalidate key => s.cache.SavesAll saves key
  | _ => True

theorem domain_step_iff (h : s.cache.Domain) (hs : invalidatingStep cfg saves s e = some s') :
    s'.cache.Domain ↔ Tidied cfg saves s e := by
  cases e with
  | invalidate key =>
    obtain rfl := Option.some.inj hs
    exact Cachify.domain_invalidate_iff h
  | cache e =>
    cases e with
    | set key value ttl =>
      obtain rfl := Option.some.inj hs
      exact iff_of_true (h.set value ttl) trivial
    | retrieve key =>
      obtain rfl := Option.some.inj hs
      refine iff_of_true ?_ trivial
      split <;> exact h
    | validate key =>
      simp only [invalidatingStep, CacheRun.step] at hs
      split at hs
      · obtain rfl := Option.some.inj hs
        exact Cachify.domain_validate_iff h
      · cases hs
    | clear keys =>
      obtain rfl := Option.some.inj hs
      exact Cachify.domain_clear_iff h
    | advance t =>
      simp only [invalidatingStep, CacheRun.step] at hs
      split at hs
      · obtain rfl := Option.some.inj hs
        exact iff_of_true h trivial
      · cases hs

variable (cfg saves) in
/-- After the step only cached keys have metadata. -/
def DomainAfter (s : CacheRun K V) (e : InvalidatingEv K V) : Prop :=
  ∀ s', invalidatingStep cfg saves s e = some s' → s'.cache.Domain

theorem domain_of_run
    (hr : (invalidatingMachine K V cfg saves).Run (DomainAfter cfg saves) {} es s) :
    s.cache.Domain :=
  hr.inv (fun s => s.cache.Domain) (Finset.empty_subset _) fun _ _ u _ hd hs => hd u hs

/-- **Only cached keys have metadata** in every state of the runs whose steps are tidy, and in no other
runs. -/
theorem run_domain_iff :
    (invalidatingMachine K V cfg saves).Run (DomainAfter cfg saves) {} es s ↔
      (invalidatingMachine K V cfg saves).Run (Tidied cfg saves) {} es s := by
  constructor
  · intro h
    exact h.imp fun hr _ hd hs => (domain_step_iff (domain_of_run hr) hs).1 (hd _ hs)
  · intro h
    refine h.imp fun _ hr ht _ => ?_
    exact fun s' hs' => (domain_step_iff (domain_of_run hr) hs').2 ht

/-- Two keys are read in a cache of one: the first key is evicted, its hits and its timestamp stay. -/
theorem run_domain_broken :
    ∃ s, (invalidatingMachine ℕ String { cacheMaxSize := some 1 } fun _ _ _ => true).Run Machine.Any
        {} [.cache (.set 1 "a" none), .cache (.retrieve 1), .cache (.validate 1),
          .cache (.set 2 "b" none), .cache (.retrieve 2), .cache (.validate 2)] s ∧
      s.cache.values.items = [(2, "b", none)] ∧ 1 ∈ s.cache.data.keyhits.keySet ∧
        ¬ s.cache.Domain := by
  have h : ∃ s, (invalidatingMachine ℕ String { cacheMaxSize := some 1 } fun _ _ _ => true).Run
        Machine.Any {} [.cache (.set 1 "a" none), .cache (.retrieve 1), .cache (.validate 1),
          .cache (.set 2 "b" none), .cache (.retrieve 2), .cache (.validate 2)] s ∧
      s.cache.values.items = [(2, "b", none)] ∧ 1 ∈ s.cache.data.keyhits.keySet ∧
        1 ∉ s.cache.values.keySet := Machine.exists_run (by decide +kernel) (by decide +kernel)
  obtain ⟨s, hr, hv, hk, hne⟩ := h
  exact ⟨s, hr, hv, hk, fun hd => hne (hd (Cachify.mem_keys.2 (.inl hk)))⟩

end Kvdb
