import Kvdb.Io.Proof.CachifySize

/-!
# The order of eviction

`check_cache_policies` takes the keys to evict from a ranking of the metadata. The ranking begins at
the end that the policy names only for LFU, and for LRU in the synchronous check; and the current key
is taken out of the keys to delete after they were counted, so that one key too few is evicted, or all
of them if no other key is left (`check_follows_iff`).
-/

namespace Kvdb

open Lib Python

/-! ## Lists -/

section

variable {K : Type} [DecidableEq K] {order : List K} {key : K} {n : ℕ}

theorem take_erase_of_notMem (h : key ∉ order.take n) :
    (order.erase key).take n = order.take n := by
  induction order generalizing n with
  | nil => rfl
  | cons k order ih =>
    cases n with
    | zero => rfl
    | succ n =>
      rw [List.take_succ_cons, List.mem_cons, not_or] at h
      rw [List.erase_cons_tail (by simpa using Ne.symm h.1), List.take_succ_cons,
        List.take_succ_cons, ih h.2]

omit [DecidableEq K] in
theorem notMem_drop_of_head {k : K} {ks : List K} (h : (k :: ks).Nodup) {m : ℕ} (hm : 0 < m) :
    k ∉ (k :: ks).drop m := by
  obtain ⟨m, rfl⟩ := Nat.exists_eq_succ_of_ne_zero hm.ne'
  exact fun hk => (List.nodup_cons.1 h).1 (List.mem_of_mem_drop hk)

variable (key) in
/-- The first keys other than `key`, and what is left of the first keys without `key`. -/
theorem erase_take_iff (hnodup : order.Nodup) (hn : 0 < n) (hle : n ≤ order.length) :
    ((order.take n).erase key ≠ [] ∧
        ∀ k, k ∈ (order.take n).erase key ↔ k ∈ (order.erase key).take n) ↔
      n = order.length ∧ (∃ k ∈ order, k ≠ key) ∨ key ∉ order.take n := by
  by_cases hkey : key ∈ order.take n
  · rw [or_iff_left (not_not.2 hkey)]
    have hlen : ((order.take n).erase key).length = n - 1 := by
      rw [List.length_erase_of_mem hkey, List.length_take, min_eq_left hle]
    have hmem : key ∈ order := List.mem_of_mem_take hkey
    constructor
    · intro hw
      obtain ⟨hne, hiff⟩ := hw
      have hperm : ((order.take n).erase key).Perm ((order.erase key).take n) :=
        (List.perm_ext_iff_of_nodup ((hnodup.sublist (List.take_sublist ..)).erase key)
          ((hnodup.erase key).sublist (List.take_sublist ..))).2 hiff
      have hlen' := hperm.length_eq
      rw [hlen, List.length_take, List.length_erase_of_mem hmem] at hlen'
      obtain ⟨k, hk⟩ := List.exists_mem_of_ne_nil _ hne
      obtain ⟨hkne, hk⟩ := (hnodup.sublist (List.take_sublist ..)).mem_erase_iff.1 hk
      exact ⟨by omega, k, List.mem_of_mem_take hk, hkne⟩
    · intro hw
      obtain ⟨hn, k, hk, hkne⟩ := hw
      rw [hn, List.take_length, List.take_of_length_le (List.length_erase_le ..)]
      exact ⟨List.ne_nil_of_mem ((List.mem_erase_of_ne hkne).2 hk), fun _ => Iff.rfl⟩
  · refine iff_of_true ?_ (.inr hkey)
    rw [take_erase_of_notMem hkey, List.erase_of_not_mem hkey]
    refine ⟨List.ne_nil_of_length_pos ?_, fun _ => Iff.rfl⟩
    rw [List.length_take]
    omega

/-- The same with the last keys instead of the first. -/
theorem erase_drop_iff (hnodup : order.Nodup) {m : ℕ} (hm : m < order.length) :
    ((order.drop m).erase key ≠ [] ∧
        ∀ k, k ∈ (order.drop m).erase key ↔ k ∈ (order.erase key).take (order.length - m)) ↔
      m = 0 ∧ (∃ k ∈ order, k ≠ key) ∨ m = 1 ∧ order.head? = some key := by
  rcases Nat.eq_zero_or_pos m with rfl | hpos
  · have hlast := erase_take_iff key hnodup hm le_rfl
    rw [List.take_length] at hlast
    rw [List.drop_zero, Nat.sub_zero, hlast]
    constructor
    · intro hw
      rcases hw with ⟨-, hw⟩ | hkey
      · exact .inl ⟨rfl, hw⟩
      · obtain ⟨k, hk⟩ := List.exists_mem_of_length_pos hm
        exact .inl ⟨rfl, k, hk, fun h => hkey (h ▸ hk)⟩
    · intro hw
      rcases hw with ⟨-, hw⟩ | ⟨hm, -⟩
      · exact .inl ⟨rfl, hw⟩
      · cases hm
  · rw [or_iff_right (by omega)]
    obtain ⟨a, ks, rfl⟩ := List.exists_cons_of_length_pos (Nat.zero_lt_of_lt hm)
    have ha := notMem_drop_of_head hnodup hpos
    rw [List.length_cons] at hm ⊢
    obtain ⟨n, hn⟩ : ∃ n, ks.length + 1 - m = n + 1 := ⟨ks.length - m, by omega⟩
    rw [hn, List.head?_cons, Option.some.injEq]
    constructor
    · intro hw
      obtain ⟨-, hiff⟩ := hw
      have hkey : a = key := by
        by_contra hne
        refine ha (List.mem_of_mem_erase ((hiff a).2 ?_))
        rw [List.erase_cons_tail (by simpa using hne), List.take_succ_cons]
        exact List.mem_cons_self
      subst hkey
      refine ⟨?_, rfl⟩
      by_contra hm1
      obtain ⟨b, ks, rfl⟩ := List.exists_cons_of_length_pos (l := ks) (by omega)
      obtain ⟨m, rfl⟩ := Nat.exists_eq_succ_of_ne_zero hpos.ne'
      have hb := notMem_drop_of_head (List.nodup_cons.1 hnodup).2 (m := m) (by omega)
      refine hb (List.mem_of_mem_erase ((hiff b).2 ?_))
      rw [List.erase_cons_head, List.take_succ_cons]
      exact List.mem_cons_self
    · intro hw
      obtain ⟨rfl, rfl⟩ := hw
      rw [Nat.add_sub_cancel] at hn
      rw [List.drop_one, List.tail_cons, List.erase_cons_head,
        List.erase_of_not_mem (List.nodup_cons.1 hnodup).1, ← hn, List.take_length]
      exact ⟨List.ne_nil_of_length_pos (by omega), fun _ => Iff.rfl⟩

/-- The first keys and the last ones are not the same, also without `key`. -/
theorem ends_differ (hnodup : order.Nodup) {m : ℕ} (hpos : 0 < m) (hm : m < order.length)
    (hagree : ∀ k ∈ order,
      ((order.take (order.length - m)).erase key = [] ∨
        k ∈ (order.take (order.length - m)).erase key) ↔
      ((order.drop m).erase key = [] ∨ k ∈ (order.drop m).erase key)) : False := by
  have hn : 0 < order.length - m := Nat.sub_pos_of_lt hm
  have hnl : order.length - m < order.length := by omega
  generalize order.length - m = n at hagree hn hnl
  have hlast : ∀ {i : ℕ}, i < order.length →
      order.getLast (List.ne_nil_of_length_pos (Nat.zero_lt_of_lt hm)) ∈ order.drop i := by
    intro i hi
    have hne : order.drop i ≠ [] := by simpa using hi
    rw [← List.getLast_drop hne]
    exact List.getLast_mem hne
  generalize order.getLast _ = z at hlast
  have hz : z ∉ order.take n := fun h =>
    List.disjoint_take_drop hnodup le_rfl h (hlast hnl)
  have hzmem : z ∈ order := List.mem_of_mem_drop (hlast hm)
  obtain ⟨a, ks, rfl⟩ := List.exists_cons_of_length_pos (Nat.zero_lt_of_lt hm)
  have ha := notMem_drop_of_head hnodup hpos
  have htake : a ∈ (a :: ks).take n := by
    obtain ⟨n, rfl⟩ := Nat.exists_eq_succ_of_ne_zero hn.ne'
    exact List.mem_cons_self
  have haz : z ≠ a := fun h => hz (h ▸ htake)
  by_cases hkey : a = key
  · subst hkey
    have hzd : z ∈ ((a :: ks).drop m).erase a := (List.mem_erase_of_ne haz).2 (hlast hm)
    rcases (hagree z hzmem).2 (.inr hzd) with hnil | hmem
    · rcases (hagree a List.mem_cons_self).1 (.inl hnil) with hnil | hmem
      · exact List.ne_nil_of_mem hzd hnil
      · exact ha (List.mem_of_mem_erase hmem)
    · exact hz (List.mem_of_mem_erase hmem)
  · have had : a ∈ ((a :: ks).take n).erase key := (List.mem_erase_of_ne hkey).2 htake
    rcases (hagree a List.mem_cons_self).1 (.inr had) with hnil | hmem
    · rcases (hagree z hzmem).2 (.inl hnil) with hnil | hmem
      · exact List.ne_nil_of_mem had hnil
      · exact hz (List.mem_of_mem_erase hmem)
    · exact ha (List.mem_of_mem_erase hmem)

end

/-! ## Rankings -/

section

variable {K β : Type} [DecidableEq K] [LinearOrder β] {d : Dict K β}

omit [DecidableEq K] in
/-- Different values are sorted the other way round. -/
theorem sortedKeys_true (h : (d.items.map Prod.snd).Nodup) :
    d.sortedKeys true = (d.sortedKeys false).reverse := by
  unfold Dict.sortedKeys
  rw [← List.map_reverse]
  congr 1
  have : Std.Total fun p q : K × β => if true then q.2 ≤ p.2 else p.2 ≤ q.2 :=
    ⟨fun p q => le_total q.2 p.2⟩
  have : IsTrans (K × β) fun p q => if true then q.2 ≤ p.2 else p.2 ≤ q.2 :=
    ⟨fun _ _ _ hpq hqr => le_trans hqr hpq⟩
  have : Std.Total fun p q : K × β => if false then q.2 ≤ p.2 else p.2 ≤ q.2 :=
    ⟨fun p q => le_total p.2 q.2⟩
  have : IsTrans (K × β) fun p q => if false then q.2 ≤ p.2 else p.2 ≤ q.2 :=
    ⟨fun _ _ _ hpq hqr => le_trans hpq hqr⟩
  refine List.Perm.eq_of_pairwise (fun p q hp hq hpq hqp => ?_)
    (List.pairwise_insertionSort _ _) (List.pairwise_reverse.2 (List.pairwise_insertionSort _ _))
    ((List.perm_insertionSort _ _).trans
      ((List.perm_insertionSort _ _).symm.trans (List.reverse_perm _).symm))
  have hp : p ∈ d.items := (List.perm_insertionSort _ _).mem_iff.1 hp
  have hq : q ∈ d.items :=
    (List.perm_insertionSort _ _).mem_iff.1 (List.mem_reverse.1 hq)
  exact List.inj_on_of_nodup_map h hp hq (le_antisymm hqp hpq)

theorem mem_sortedKeys {reverse : Bool} {k : K} : k ∈ d.sortedKeys reverse ↔ k ∈ d.keySet := by
  rw [Dict.keySet, List.mem_toFinset]
  exact ((List.perm_insertionSort _ d.items).map Prod.fst).mem_iff

end

variable {K V : Type} [DecidableEq K]

/-- The keys in the order of the policy, from the first one to go. -/
def CacheData.order (d : CacheData K) : CachePolicy → List K
  | .lru | .fifo => d.timestamps.sortedKeys false
  | .lfu => d.keyhits.sortedKeys false
  | .lifo => d.timestamps.sortedKeys true

/-- The ranking begins with the first one to go. -/
def CachifyConfig.RanksFromFirst (cfg : CachifyConfig) : Prop :=
  cfg.cacheMaxSizePolicy = .lfu ∨ cfg.cacheMaxSizePolicy = .lru ∧ cfg.isAsync = false

instance (cfg : CachifyConfig) : Decidable cfg.RanksFromFirst :=
  inferInstanceAs (Decidable (_ ∨ _ ∧ _))

namespace Cachify

variable (cfg : CachifyConfig) (s : Cachify K V)

/-- Each cached key has a hit count and a timestamp, all different, and no other key has any. -/
structure Recorded : Prop where
  keyhits : s.data.keyhits.keySet = s.values.keySet
  timestamps : s.data.timestamps.keySet = s.values.keySet
  hitsDiffer : (s.data.keyhits.items.map Prod.snd).Nodup
  timesDiffer : (s.data.timestamps.items.map Prod.snd).Nodup

/-- The check evicts the first keys other than `key`, as many as the cache is too large by. -/
def Follows (key : K) (maxSize : ℕ) : Prop :=
  ∀ k, (s.checkCachePolicies cfg key maxSize).values.get? k =
    if k ∈ ((s.data.order cfg.cacheMaxSizePolicy).erase key).take (s.numKeys - maxSize) then none
    else s.values.get? k

/-- All the others have to go; or the ranking begins at the right end and `key` is not among the
first; or it begins at the wrong end, and all have to go but one, which is `key` and the last of the
ranking. -/
def PicksFirst (key : K) (maxSize : ℕ) : Prop :=
  maxSize = 0 ∧ (∃ k ∈ s.values.keySet, k ≠ key) ∨
    if cfg.RanksFromFirst then
      key ∉ (s.data.order cfg.cacheMaxSizePolicy).take (s.numKeys - maxSize)
    else maxSize = 1 ∧ (s.data.order cfg.cacheMaxSizePolicy).head? = some key

variable {s}

theorem mem_order (h : s.Recorded) {k : K} :
    k ∈ s.data.order cfg.cacheMaxSizePolicy ↔ k ∈ s.values.keySet := by
  unfold CacheData.order
  split
  · rw [mem_sortedKeys, h.timestamps]
  · rw [mem_sortedKeys, h.timestamps]
  · rw [mem_sortedKeys, h.keyhits]
  · rw [mem_sortedKeys, h.timestamps]

omit [DecidableEq K] in
theorem nodup_order : (s.data.order cfg.cacheMaxSizePolicy).Nodup := by
  unfold CacheData.order
  split <;> exact Dict.nodup_sortedKeys ..

theorem length_order (h : s.Recorded) :
    (s.data.order cfg.cacheMaxSizePolicy).length = s.numKeys := by
  rw [numKeys, ← Dict.card_keySet, ← List.toFinset_card_of_nodup (nodup_order cfg)]
  congr 1
  ext k
  rw [List.mem_toFinset, mem_order cfg h]

variable {cfg}

/-- The ranking is the order of the policy or the opposite one. -/
theorem ranked_eq (h : s.Recorded) : s.data.ranked cfg =
    if cfg.RanksFromFirst then s.data.order cfg.cacheMaxSizePolicy
    else (s.data.order cfg.cacheMaxSizePolicy).reverse := by
  have htimes := sortedKeys_true h.timesDiffer
  obtain ⟨_, _, _, policy, isAsync⟩ := cfg
  cases policy <;> cases isAsync <;>
    simp [CacheData.ranked, CacheData.order, CachifyConfig.RanksFromFirst, htimes]

/-- What goes in a check that finds the cache too large. -/
theorem values_check (hh : cfg.hsetEnabled = true) (key : K) {maxSize : ℕ}
    (hgt : maxSize < s.numKeys) (k : K) :
    (s.checkCachePolicies cfg key maxSize).values.get? k =
      if s.keysToDelete cfg key maxSize = [] ∨ k ∈ s.keysToDelete cfg key maxSize then none
      else s.values.get? k := by
  rw [checkCachePolicies, if_neg (not_le.2 hgt), values_clear]
  unfold Clears
  simp only [hh, and_true]
  congr 1
  exact propext or_comm

/-- A ranking of the cached keys: the keys to delete are those of any other list of cached keys
without `key`, or not. -/
theorem follows_iff_of_mem (hh : cfg.hsetEnabled = true) {key : K} {maxSize : ℕ}
    (hgt : maxSize < s.numKeys) (evicted : List K) (hkey : key ∉ evicted)
    (hcached : ∀ k ∈ evicted, k ∈ s.values.keySet)
    (hdelete : ∀ k ∈ s.keysToDelete cfg key maxSize, k ∈ s.values.keySet)
    (hcurrent : s.keysToDelete cfg key maxSize = [] → key ∈ s.values.keySet) :
    (∀ k, (s.checkCachePolicies cfg key maxSize).values.get? k =
        if k ∈ evicted then none else s.values.get? k) ↔
      s.keysToDelete cfg key maxSize ≠ [] ∧
        ∀ k, k ∈ s.keysToDelete cfg key maxSize ↔ k ∈ evicted := by
  have hsome : ∀ k, k ∈ s.values.keySet → s.values.get? k ≠ none := by
    intro k hk
    exact Option.ne_none_iff_isSome.2 (Dict.mem_keySet.1 hk)
  simp only [values_check hh key hgt]
  constructor
  · intro hw
    have hne : s.keysToDelete cfg key maxSize ≠ [] := by
      intro hnil
      have hk := hw key
      rw [if_pos (.inl hnil), if_neg hkey] at hk
      exact hsome key (hcurrent hnil) hk.symm
    refine ⟨hne, fun k => ?_⟩
    have hk := hw k
    simp only [hne, false_or] at hk
    constructor
    · intro hm
      by_contra hm'
      rw [if_pos hm, if_neg hm'] at hk
      exact hsome k (hdelete k hm) hk.symm
    · intro hm
      by_contra hm'
      rw [if_neg hm', if_pos hm] at hk
      exact hsome k (hcached k hm) hk
  · intro hw k
    obtain ⟨hne, hiff⟩ := hw
    simp only [hne, false_or, hiff]

theorem mem_ranked (h : s.Recorded) {k : K} : k ∈ s.data.ranked cfg ↔ k ∈ s.values.keySet := by
  rw [ranked_eq h]
  split
  · exact mem_order cfg h
  · rw [List.mem_reverse, mem_order cfg h]

theorem mem_keySet_of_keysToDelete (h : s.Recorded) {key : K} {maxSize : ℕ} {k : K}
    (hk : k ∈ s.keysToDelete cfg key maxSize) : k ∈ s.values.keySet :=
  (mem_ranked h).1 (List.mem_of_mem_take (List.mem_of_mem_erase hk))

/-- Nothing is left to delete if the current key is all that was taken. -/
theorem current_of_keysToDelete_nil (h : s.Recorded) {key : K} {maxSize : ℕ}
    (hgt : maxSize < s.numKeys) (hnil : s.keysToDelete cfg key maxSize = []) :
    key ∈ s.values.keySet := by
  have hlen : 0 < ((s.data.ranked cfg).take (s.numKeys - maxSize)).length := by
    rw [List.length_take, ranked_eq h]
    split
    · rw [length_order cfg h]
      omega
    · rw [List.length_reverse, length_order cfg h]
      omega
  obtain ⟨k, hk⟩ := List.exists_mem_of_length_pos hlen
  by_cases hkey : k = key
  · subst hkey
    exact (mem_ranked h).1 (List.mem_of_mem_take hk)
  · have hmem : k ∈ s.keysToDelete cfg key maxSize := (List.mem_erase_of_ne hkey).2 hk
    rw [hnil] at hmem
    cases hmem

/-- The last keys, in the opposite order. -/
theorem mem_take_reverse_erase {order : List K} (hnodup : order.Nodup) {key k : K} {m : ℕ}
    (hm : m ≤ order.length) :
    k ∈ (order.reverse.take (order.length - m)).erase key ↔ k ∈ (order.drop m).erase key := by
  rw [List.take_reverse, Nat.sub_sub_self hm]
  have hdrop := hnodup.sublist (List.drop_sublist m order)
  rw [(List.nodup_reverse.2 hdrop).mem_erase_iff, hdrop.mem_erase_iff, List.mem_reverse]

omit [DecidableEq K] in
theorem eq_nil_iff_of_mem {xs ys : List K} (h : ∀ k, k ∈ xs ↔ k ∈ ys) : xs = [] ↔ ys = [] := by
  simp only [List.eq_nil_iff_forall_not_mem, h]

variable (cfg s) in
/-- The keys to delete, in the order of the policy. -/
def deleted (key : K) (maxSize : ℕ) : List K :=
  (if cfg.RanksFromFirst then (s.data.order cfg.cacheMaxSizePolicy).take (s.numKeys - maxSize)
    else (s.data.order cfg.cacheMaxSizePolicy).drop maxSize).erase key

theorem mem_keysToDelete (h : s.Recorded) {key k : K} {maxSize : ℕ} (hgt : maxSize < s.numKeys) :
    k ∈ s.keysToDelete cfg key maxSize ↔ k ∈ s.deleted cfg key maxSize := by
  unfold keysToDelete deleted
  rw [ranked_eq h]
  split
  · exact Iff.rfl
  · rw [← length_order cfg h]
    refine mem_take_reverse_erase (nodup_order cfg) ?_
    rw [length_order cfg h]
    exact hgt.le

variable (cfg) in
theorem values_check_of_recorded (hh : cfg.hsetEnabled = true) (h : s.Recorded) {key : K}
    {maxSize : ℕ} (hgt : maxSize < s.numKeys) (k : K) :
    (s.checkCachePolicies cfg key maxSize).values.get? k =
      if s.deleted cfg key maxSize = [] ∨ k ∈ s.deleted cfg key maxSize then none
      else s.values.get? k := by
  rw [values_check hh key hgt]
  congr 1
  exact propext (or_congr (eq_nil_iff_of_mem fun k => mem_keysToDelete h hgt)
    (mem_keysToDelete h hgt))

theorem follows_iff (hh : cfg.hsetEnabled = true) (h : s.Recorded) (key : K) {maxSize : ℕ}
    (hgt : maxSize < s.numKeys) : s.Follows cfg key maxSize ↔ s.PicksFirst cfg key maxSize := by
  have hlen := length_order cfg h
  have hnodup := nodup_order cfg (s := s)
  have hiff := follows_iff_of_mem hh hgt
    (((s.data.order cfg.cacheMaxSizePolicy).erase key).take (s.numKeys - maxSize))
    (fun hk => (hnodup.mem_erase_iff.1 (List.mem_of_mem_take hk)).1 rfl)
    (fun k hk => (mem_order cfg h).1 (List.mem_of_mem_erase (List.mem_of_mem_take hk)))
    (fun k hk => mem_keySet_of_keysToDelete h hk) (current_of_keysToDelete_nil h hgt)
  rw [ne_eq, eq_nil_iff_of_mem fun k => mem_keysToDelete h hgt] at hiff
  simp only [mem_keysToDelete h hgt] at hiff
  refine hiff.trans ?_
  unfold deleted PicksFirst
  simp only [← mem_order cfg h, ← hlen] at hgt ⊢
  split
  · refine (erase_take_iff key hnodup (Nat.sub_pos_of_lt hgt) (Nat.sub_le ..)).trans ?_
    refine or_congr_left (and_congr_left' ?_)
    omega
  · exact erase_drop_iff hnodup hgt

/-- Both variants leave the same values. -/
def VariantsAgree (cfg : CachifyConfig) (s : Cachify K V) (key : K) (maxSize : ℕ) : Prop :=
  ∀ k, (s.checkCachePolicies { cfg with isAsync := false } key maxSize).values.get? k =
    (s.checkCachePolicies { cfg with isAsync := true } key maxSize).values.get? k

/-- With LRU the two variants begin at opposite ends of the order. -/
theorem not_variantsAgree_of_lru (hh : cfg.hsetEnabled = true) (h : s.Recorded) {key : K}
    {maxSize : ℕ} (hgt : maxSize < s.numKeys) (hp : cfg.cacheMaxSizePolicy = .lru)
    (hpos : 0 < maxSize) : ¬ VariantsAgree cfg s key maxSize := by
  have hlen := length_order cfg h
  have hnodup := nodup_order cfg (s := s)
  have hcached : ∀ k ∈ s.data.order cfg.cacheMaxSizePolicy, s.values.get? k ≠ none :=
    fun k hk => Option.ne_none_iff_isSome.2 (Dict.mem_keySet.1 ((mem_order cfg h).1 hk))
  have hsync : s.deleted { cfg with isAsync := false } key maxSize =
      ((s.data.order cfg.cacheMaxSizePolicy).take (s.numKeys - maxSize)).erase key := by
    simp [deleted, CachifyConfig.RanksFromFirst, hp]
  have hasync : s.deleted { cfg with isAsync := true } key maxSize =
      ((s.data.order cfg.cacheMaxSizePolicy).drop maxSize).erase key := by
    simp [deleted, CachifyConfig.RanksFromFirst, hp]
  intro hagree
  have hagree : ∀ k ∈ s.data.order cfg.cacheMaxSizePolicy,
      (s.deleted { cfg with isAsync := false } key maxSize = [] ∨
        k ∈ s.deleted { cfg with isAsync := false } key maxSize) ↔
      (s.deleted { cfg with isAsync := true } key maxSize = [] ∨
        k ∈ s.deleted { cfg with isAsync := true } key maxSize) := by
    intro k hk
    have hsome := hcached k hk
    have hk := hagree k
    rw [values_check_of_recorded { cfg with isAsync := false } hh h hgt,
      values_check_of_recorded { cfg with isAsync := true } hh h hgt] at hk
    constructor
    · intro hw
      by_contra hw'
      rw [if_pos hw, if_neg hw'] at hk
      exact hsome hk.symm
    · intro hw
      by_contra hw'
      rw [if_neg hw', if_pos hw] at hk
      exact hsome hk
  rw [hsync, hasync] at hagree
  rw [← hlen] at hgt
  rw [← hlen] at hagree
  exact ends_differ hnodup hpos hgt hagree

theorem variantsAgree_iff (hh : cfg.hsetEnabled = true) (h : s.Recorded) (key : K) {maxSize : ℕ}
    (hgt : maxSize < s.numKeys) :
    VariantsAgree cfg s key maxSize ↔ cfg.cacheMaxSizePolicy ≠ .lru ∨ maxSize = 0 := by
  constructor
  · intro hagree
    by_contra hne
    obtain ⟨hp, hpos⟩ := not_or.1 hne
    exact not_variantsAgree_of_lru hh h hgt (not_not.1 hp) (Nat.pos_of_ne_zero hpos) hagree
  · intro hw k
    rcases hw with hp | rfl
    · have hranked : s.data.ranked { cfg with isAsync := false } =
          s.data.ranked { cfg with isAsync := true } := by
        unfold CacheData.ranked
        split <;> simp_all
      unfold checkCachePolicies keysToDelete
      rw [hranked]
      rfl
    · have hall : ∀ cfg' : CachifyConfig, s.deleted cfg' key 0 =
          (s.data.order cfg'.cacheMaxSizePolicy).erase key := by
        intro cfg'
        unfold deleted
        rw [Nat.sub_zero, List.drop_zero, ← length_order cfg' h, List.take_length, ite_self]
      rw [values_check_of_recorded { cfg with isAsync := false } hh h hgt,
        values_check_of_recorded { cfg with isAsync := true } hh h hgt, hall, hall]

/-- **Eviction**: which checks evict the first keys other than the current one in the order of the
policy, and when the two variants evict the same. -/
theorem check_follows_iff (hh : cfg.hsetEnabled = true) (h : s.Recorded) (key : K) {maxSize : ℕ}
    (hgt : maxSize < s.numKeys) :
    (s.Follows cfg key maxSize ↔ s.PicksFirst cfg key maxSize) ∧
      (VariantsAgree cfg s key maxSize ↔ cfg.cacheMaxSizePolicy ≠ .lru ∨ maxSize = 0) :=
  ⟨follows_iff hh h key hgt, variantsAgree_iff hh h key hgt⟩

/-- Three keys, the third one read last and most often. -/
def threeKeys : Cachify ℕ String where
  values := .ofPairs [(1, "a", none), (2, "b", none), (3, "c", none)]
  data.keyhits := .ofPairs [(1, 2), (2, 1), (3, 3)]
  data.timestamps := .ofPairs [(1, 1), (2, 2), (3, 3)]

/-- With LFU the second key goes. -/
theorem check_follows_lfu : threeKeys.Follows {} 3 2 := by
  refine (check_follows_iff rfl ⟨by decide +kernel, by decide +kernel, by decide +kernel,
    by decide +kernel⟩ 3 (by decide +kernel)).1.2 (.inr ?_)
  rw [if_pos (.inl rfl)]
  decide +kernel

/-- **FIFO evicts everything**: it takes the last key, which is the current one, and then none is left
to delete. LIFO evicts the first key, not the last one; and with LRU the asynchronous check evicts
everything, the synchronous one the first key. -/
theorem check_broken :
    threeKeys.Recorded ∧ 2 < threeKeys.numKeys ∧
      ¬ threeKeys.Follows { cacheMaxSizePolicy := .fifo } 3 2 ∧
      ¬ threeKeys.Follows { cacheMaxSizePolicy := .lifo } 3 2 ∧
      ¬ VariantsAgree { cacheMaxSizePolicy := .lru } threeKeys 3 2 := by
  refine ⟨⟨by decide +kernel, by decide +kernel, by decide +kernel, by decide +kernel⟩,
    by decide +kernel, fun h => ?_, fun h => ?_, fun h => ?_⟩
  · exact absurd (h 3) (by decide +kernel)
  · exact absurd (h 1) (by decide +kernel)
  · exact absurd (h 2) (by decide +kernel)

end Cachify

end Kvdb
