import Kvdb.Io.Cachify

/-!
# Deadlines of cached values

`notedCache` is `cacheMachine` with what was done to each key since the last set of it. With
`hset_enabled` off the server keeps the deadlines that it takes, and a `retrieve` is right unless it
comes after one that was refused (`ServerInv`): `EXPIRE` takes no float. In a hash, a value
goes if a policy check finds the deadline over that `data['expirations']` has for its key
(`HashInv`): a value whose time is over is returned until such a check has run, and `retrieve` runs
its own one after the value was read; and a `set` without a `ttl` leaves the old deadline there.
-/

namespace Kvdb

open Lib Python

/-- A key since the last `set` of it. -/
structure KeyHistory where
  deadline : Option ℚ
  /-- The server refused it. -/
  refused : Bool := false
  /-- A policy check found the deadline over that `data` has for the key. -/
  expired : Bool := false
  /-- It was cleared, maybe by the size check. -/
  cleared : Bool := false
  deriving DecidableEq

namespace Cachify

variable {K V : Type} [DecidableEq K] {cfg : CachifyConfig} {s : Cachify K V} {now : ℚ}

variable (cfg) in
/-- `clear(keys)` deletes the value of the key. -/
def Clears (keys : List K) (key : K) : Prop := key ∈ keys ∨ keys = [] ∧ cfg.hsetEnabled = true

instance (keys : List K) (key : K) : Decidable (Clears cfg keys key) :=
  inferInstanceAs (Decidable (_ ∨ _))

variable (cfg s now) in
/-- The size check that ends the check of `key` deletes the value of `key'`. -/
def Evicts (key key' : K) : Prop :=
  cfg.hsetEnabled = true ∧ ∃ n ∈ cfg.cacheMaxSize, n < (s.beforeCheck cfg now key).numKeys ∧
    Clears cfg ((s.beforeCheck cfg now key).keysToDelete cfg key n) key'

instance (key key' : K) : Decidable (Evicts cfg s now key key') :=
  inferInstanceAs (Decidable (_ ∧ ∃ n ∈ cfg.cacheMaxSize, _))

theorem mem_toDelete {d : CacheData K} {key : K} :
    key ∈ d.toDelete now ↔ ∃ t, d.expirations.get? key = some t ∧ t < now := by
  simp only [CacheData.toDelete, List.mem_map, List.mem_filter, decide_eq_true_eq]
  constructor
  · intro hw
    obtain ⟨⟨k, t⟩, ⟨hm, ht⟩, rfl⟩ := hw
    exact ⟨t, Dict.mem_items.1 hm, ht⟩
  · intro hw
    obtain ⟨t, hm, ht⟩ := hw
    exact ⟨(key, t), ⟨Dict.mem_items.2 hm, ht⟩, rfl⟩

theorem values_clear (keys : List K) (key : K) : (s.clear cfg keys).values.get? key =
    if Clears cfg keys key then none else s.values.get? key := by
  unfold clear Clears
  split
  · rename_i hne
    simp [Dict.get?_popAll, hne]
  · rename_i he
    have he := not_not.1 he
    split <;> simp_all

theorem values_expire (key : K) : (s.expireCacheExpiredKeys cfg now).values.get? key =
    if key ∈ s.data.toDelete now then none else s.values.get? key := by
  simp only [expireCacheExpiredKeys]
  split
  · rename_i he
    rw [he, if_neg List.not_mem_nil]
  · rename_i hne
    rw [values_clear]
    by_cases hm : key ∈ s.data.toDelete now <;> simp [Clears, hne, hm]

/-- A policy check without a hash and without deadlines in `data`. -/
theorem validate_of_none_recorded (hh : cfg.hsetEnabled = false)
    (hnone : s.data.expirations.items = []) (now : ℚ) (key : K) :
    s.validateCachePolicies cfg now key = { s with data := s.data.addHit } := by
  have hdel : s.data.addHit.toDelete now = [] := by
    simp [CacheData.toDelete, CacheData.addHit, hnone]
  simp only [validateCachePolicies, hh, expireCacheExpiredKeys, hdel, if_true]

/-! ## Policy checks of a hash -/

section

variable (hh : cfg.hsetEnabled = true)
include hh

/-- A `clear` leaves the deadlines or forgets them all. -/
theorem expirations_clear (keys : List K) (key : K) :
    (s.clear cfg keys).data.expirations.get? key = none ∨
      (s.clear cfg keys).data.expirations.get? key = s.data.expirations.get? key := by
  unfold clear
  split
  · exact .inr rfl
  · exact .inl rfl

theorem expirations_expire (now : ℚ) (key : K) :
    (s.expireCacheExpiredKeys cfg now).data.expirations.get? key = none ∨
      (s.expireCacheExpiredKeys cfg now).data.expirations.get? key =
        s.data.expirations.get? key := by
  simp only [expireCacheExpiredKeys]
  split
  · exact .inr rfl
  · rcases expirations_clear (s := { s with data := s.data.popKeys (s.data.toDelete now) }) hh
      (s.data.toDelete now) key with h | h
    · exact .inl h
    · rw [h]
      show (s.data.expirations.popAll _).get? key = none ∨
        (s.data.expirations.popAll _).get? key = _
      rw [Dict.get?_popAll]
      split
      · exact .inl rfl
      · exact .inr rfl

theorem values_set (now : ℚ) (key : K) (value : V) (ttl : Option Number) (key' : K) :
    (s.set cfg now key value ttl).values.get? key' =
      if key' = key then some (value, none) else s.values.get? key' := by
  simp only [set, hh, if_true, Dict.get?_setItem]

theorem expirations_set (now : ℚ) (key : K) (value : V) (ttl : Option Number) (key' : K) :
    (s.set cfg now key value ttl).data.expirations.get? key' =
      if key' = key then (deadline now (effectiveTtl cfg ttl)).elim (s.data.expirations.get? key') some
      else s.data.expirations.get? key' := by
  simp only [set, hh, if_true]
  cases deadline now (effectiveTtl cfg ttl) with
  | none => simp
  | some t => exact Dict.get?_setItem ..

/-- A policy check of a hash, without a size and with one. -/
theorem validate_cases (now : ℚ) (key : K) :
    (cfg.cacheMaxSize = none ∧ s.validateCachePolicies cfg now key =
      { s with data := s.data.addHit }.expireCacheExpiredKeys cfg now) ∨
    ∃ n, cfg.cacheMaxSize = some n ∧ s.validateCachePolicies cfg now key =
      (s.beforeCheck cfg now key).checkCachePolicies cfg key n := by
  cases hmax : cfg.cacheMaxSize with
  | none => exact .inl ⟨rfl, by simp only [validateCachePolicies, hh, hmax]⟩
  | some n => exact .inr ⟨n, rfl, by simp only [validateCachePolicies, hh, hmax]⟩

/-- A policy check takes the keys whose deadline is over and those that the size check evicts. -/
theorem values_validate (now : ℚ) (key key' : K) :
    (s.validateCachePolicies cfg now key).values.get? key' =
      if key' ∈ s.data.toDelete now ∨ Evicts cfg s now key key' then none
      else s.values.get? key' := by
  have hexp : ({ s with data := s.data.addHit }.expireCacheExpiredKeys cfg now).values.get? key' =
      if key' ∈ s.data.toDelete now then none else s.values.get? key' := values_expire key'
  rcases validate_cases (s := s) hh now key with ⟨hmax, hv⟩ | ⟨n, hmax, hv⟩
  · simpa [hv, Evicts, hmax] using hexp
  · have hbefore : (s.beforeCheck cfg now key).values.get? key' =
        if key' ∈ s.data.toDelete now then none else s.values.get? key' := hexp
    simp only [hv, Evicts, hh, true_and, hmax, checkCachePolicies, Option.mem_def,
      Option.some.injEq, exists_eq_left']
    by_cases hle : (s.beforeCheck cfg now key).numKeys ≤ n
    · simp [if_pos hle, hbefore, not_lt.2 hle]
    · rw [if_neg hle, values_clear, hbefore]
      by_cases hd : key' ∈ s.data.toDelete now <;> simp [hd, not_le.1 hle]

theorem expirations_validate (now : ℚ) (key key' : K) :
    (s.validateCachePolicies cfg now key).data.expirations.get? key' = none ∨
      (s.validateCachePolicies cfg now key).data.expirations.get? key' =
        s.data.expirations.get? key' := by
  have hexp := expirations_expire (s := { s with data := s.data.addHit }) hh now key'
  rcases validate_cases (s := s) hh now key with ⟨-, hv⟩ | ⟨n, -, hv⟩
  · rw [hv]
    exact hexp
  · rw [hv, checkCachePolicies]
    split
    · exact hexp
    · rcases expirations_clear (s := s.beforeCheck cfg now key) hh
        ((s.beforeCheck cfg now key).keysToDelete cfg key n) key' with h | h
      · exact .inl h
      · rw [h]
        exact hexp

end

end Cachify

/-! ## Histories -/

section

variable {K V : Type} [DecidableEq K] {cfg : CachifyConfig}
  {p q : CacheRun K V × (K → Option KeyHistory)} {e : CacheEv K V}

variable (cfg) in
/-- What a step adds to the histories. -/
def noteKeys (g : K → Option KeyHistory) (s : CacheRun K V) : CacheEv K V → K → Option KeyHistory
  | .set key _ ttl => Function.update g key (some
      { deadline := Cachify.deadline s.now (Cachify.effectiveTtl cfg ttl)
        refused := !cfg.hsetEnabled &&
          (Cachify.effectiveTtl cfg ttl).any fun t => !t.expires s.now })
  | .validate key => fun k => (g k).map fun h =>
      { h with
        expired := h.expired || decide (k ∈ s.cache.data.toDelete s.now)
        cleared := h.cleared || decide (s.cache.Evicts cfg s.now key k) }
  | .clear keys => fun k => (g k).map fun h =>
      { h with cleared := h.cleared || decide (Cachify.Clears cfg keys k) }
  | .retrieve _ | .advance _ => g

variable (K V cfg) in
def notedCache : Machine (CacheRun K V × (K → Option KeyHistory)) (CacheEv K V) :=
  (cacheMachine K V cfg).observe (fun _ => none) (noteKeys cfg)

/-- A `retrieve` misses after the deadline of the last `set`; before it, or without one, it hits,
unless the key was cleared. -/
def Safe (p : CacheRun K V × (K → Option KeyHistory)) : CacheEv K V → Prop
  | .retrieve key => ∀ h ∈ p.2 key,
      ((∃ t ∈ h.deadline, t < p.1.now) → p.1.cache.get p.1.now key = none) ∧
      ((∀ t ∈ h.deadline, p.1.now < t) → h.cleared = true ∨
        (p.1.cache.get p.1.now key).isSome = true)
  | _ => True

variable (cfg) in
/-- The keys that are read were cleared, or whoever ends their time is up to date with them. In a hash
these are the policy checks: one has run after their deadline; if the last `set` had none, no check
found an older one over. Else it is the server, which did not refuse a deadline that is over. -/
def UpToDate (p : CacheRun K V × (K → Option KeyHistory)) : CacheEv K V → Prop
  | .retrieve key => ∀ h ∈ p.2 key, h.cleared = true ∨
      if cfg.hsetEnabled then (h.deadline = none → h.expired = false) ∧
        ((∃ t ∈ h.deadline, t < p.1.now) → h.expired = true)
      else (∃ t ∈ h.deadline, t < p.1.now) → h.refused = false
  | _ => True

/-! ## In a hash -/

/-- One key at time `now`: its value, the deadline that `data` has for it, its history. -/
structure HashKey (now : ℚ) (c : Option (V × Option ℚ)) (recorded : Option ℚ)
    (h : Option KeyHistory) : Prop where
  plain : ∀ x ∈ c, x.2 = none
  stored : c.isSome = true ↔ ∃ x ∈ h, x.cleared = false ∧ x.expired = false
  recorded : ∀ x ∈ h, x.expired = false → ∀ t ∈ x.deadline, ∀ u ∈ recorded, u = t
  late : ∀ x ∈ h, x.expired = true → ∀ t ∈ x.deadline, t < now

namespace HashKey

variable {now : ℚ} {c : Option (V × Option ℚ)} {recorded : Option ℚ} {h : Option KeyHistory}

theorem unset (now : ℚ) : HashKey (V := V) now none none none where
  plain _ hx := nomatch hx
  stored := by simp
  recorded _ hx := nomatch hx
  late _ hx := nomatch hx

theorem later (hk : HashKey now c recorded h) {t : ℚ} (ht : 0 ≤ t) :
    HashKey (now + t) c recorded h :=
  ⟨hk.plain, hk.stored, hk.recorded, fun x hx he u hu =>
    (hk.late x hx he u hu).trans_le (le_add_of_nonneg_right ht)⟩

theorem set (now : ℚ) (v : V) (deadline recorded : Option ℚ) (refused : Bool) :
    HashKey now (some (v, none)) (deadline.elim recorded some) (some { deadline, refused }) where
  plain x hx := by cases hx; rfl
  stored := by simp
  recorded x hx _ t ht u hu := by
    cases hx
    cases ht
    exact (Option.some.inj hu).symm
  late x hx he := by cases hx; cases he

/-- The deadline of the key is found over (`a`), or its value is deleted (`b`), or nothing of this. -/
theorem remove (hk : HashKey now c recorded h) {recorded' : Option ℚ} {a b : Bool}
    (ha : a = true → ∃ t ∈ recorded, t < now)
    (hr : recorded' = none ∨ recorded' = recorded) :
    HashKey now (if a = true ∨ b = true then none else c) recorded'
      (h.map fun x => { x with expired := x.expired || a, cleared := x.cleared || b }) where
  plain x hx := by
    split at hx
    · cases hx
    · exact hk.plain x hx
  stored := by
    cases a <;> cases b <;> simp [hk.stored]
  recorded x hx he t ht u hu := by
    obtain ⟨y, hy, rfl⟩ := Option.map_eq_some_iff.1 hx
    have he := (Bool.or_eq_false_iff.1 he).1
    rcases hr with rfl | rfl
    · cases hu
    · exact hk.recorded y hy he t ht u hu
  late x hx he t ht := by
    obtain ⟨y, hy, rfl⟩ := Option.map_eq_some_iff.1 hx
    by_cases hey : y.expired = true
    · exact hk.late y hy hey t ht
    · have ha' : a = true := by simpa [hey] using he
      obtain ⟨u, hu, hlt⟩ := ha ha'
      exact hk.recorded y hy (by simpa using hey) t ht u hu ▸ hlt

end HashKey

/-- Every key of the hash. -/
def HashInv (p : CacheRun K V × (K → Option KeyHistory)) : Prop :=
  ∀ k, HashKey p.1.now (p.1.cache.values.get? k) (p.1.cache.data.expirations.get? k) (p.2 k)

theorem hashInv_step (hh : cfg.hsetEnabled = true) (hi : HashInv p)
    (hs : (notedCache K V cfg).step p e = some q) : HashInv q := by
  intro k
  obtain ⟨s, g⟩ := p
  obtain ⟨s', g'⟩ := q
  obtain ⟨hs, rfl : g' = _⟩ := Machine.observe_step.1 hs
  have hk := hi k
  cases e with
  | set key value ttl =>
    obtain rfl : { s with cache := s.cache.set cfg s.now key value ttl } = s' := Option.some.inj hs
    have hv := Cachify.values_set (s := s.cache) hh s.now key value ttl k
    have hd := Cachify.expirations_set (s := s.cache) hh s.now key value ttl k
    show HashKey s.now _ _ (Function.update g key _ k)
    rw [hv, hd]
    by_cases hkey : k = key
    · subst hkey
      rw [if_pos rfl, if_pos rfl, Function.update_self]
      exact .set ..
    · rw [if_neg hkey, if_neg hkey, Function.update_of_ne hkey]
      exact hk
  | retrieve key =>
    obtain rfl := Option.some.inj hs
    show HashKey _ _ _ (g k)
    split <;> exact hk
  | validate key =>
    simp only [cacheMachine, CacheRun.step] at hs
    split at hs
    · obtain rfl := Option.some.inj hs
      have hv := Cachify.values_validate (s := s.cache) hh s.now key k
      have hd := Cachify.expirations_validate (s := s.cache) hh s.now key k
      have hr := hk.remove (b := decide (s.cache.Evicts cfg s.now key k))
        (fun ha => Cachify.mem_toDelete.1 (of_decide_eq_true ha)) hd
      simp only [decide_eq_true_eq] at hr
      exact hv ▸ hr
    · cases hs
  | clear keys =>
    obtain rfl := Option.some.inj hs
    have hr := hk.remove (a := false) (b := decide (Cachify.Clears cfg keys k)) (by simp)
      (Cachify.expirations_clear hh keys k)
    simp only [Bool.or_false, Bool.false_eq_true, false_or, decide_eq_true_eq] at hr
    exact Cachify.values_clear (s := s.cache) keys k ▸ hr
  | advance t =>
    simp only [cacheMachine, CacheRun.step] at hs
    split at hs
    · rename_i ht
      obtain rfl := Option.some.inj hs
      exact hk.later ht
    · cases hs

theorem HashKey.safe_iff {now : ℚ} {s : Cachify K V} {k : K} {recorded : Option ℚ}
    {h : KeyHistory} (hk : HashKey now (s.values.get? k) recorded (some h)) :
    ((∃ t ∈ h.deadline, t < now) → s.get now k = none) ∧
        ((∀ t ∈ h.deadline, now < t) → h.cleared = true ∨ (s.get now k).isSome = true) ↔
      h.cleared = true ∨ (h.deadline = none → h.expired = false) ∧
        ((∃ t ∈ h.deadline, t < now) → h.expired = true) := by
  have hget : (s.get now k).isSome = true ↔ h.cleared = false ∧ h.expired = false := by
    have hst := hk.stored
    unfold Cachify.get
    cases hc : s.values.get? k with
    | none => simpa [hc] using hst
    | some c => simpa [hc, hk.plain c hc] using hst
  constructor
  · intro hw
    obtain ⟨hmiss, hhit⟩ := hw
    cases hcl : h.cleared with
    | true => exact .inl rfl
    | false =>
      refine .inr ⟨fun hd => ?_, fun ho => ?_⟩
      · have hs := hhit (by simp [hd])
        simp only [hcl, Bool.false_eq_true, false_or] at hs
        exact (hget.1 hs).2
      · by_contra he
        have hs := hget.2 ⟨hcl, Bool.eq_false_iff.2 he⟩
        rw [hmiss ho] at hs
        cases hs
  · intro hw
    rcases hw with hcl | ⟨hnone, hover⟩
    · refine ⟨fun _ => ?_, fun _ => .inl hcl⟩
      rw [← Option.not_isSome_iff_eq_none, hget, hcl]
      simp
    · refine ⟨fun ho => ?_, fun hlive => or_iff_not_imp_left.2 fun hcl => ?_⟩
      · rw [← Option.not_isSome_iff_eq_none, hget, hover ho]
        simp
      · refine hget.2 ⟨Bool.eq_false_iff.2 hcl, Bool.eq_false_iff.2 fun he => ?_⟩
        cases hd : h.deadline with
        | none => exact absurd he (by simp [hnone hd])
        | some t => exact lt_asymm (hlive t hd) (hk.late h rfl he t hd)

/-! ## On the server -/

/-- One key: its value, its history. -/
structure ServerKey (c : Option (V × Option ℚ)) (h : Option KeyHistory) : Prop where
  deadline : ∀ x ∈ c, ∃ y ∈ h, x.2 = if y.refused then none else y.deadline
  stored : ∀ y ∈ h, c.isSome = true ↔ y.cleared = false

theorem ServerKey.unset : ServerKey (V := V) none none where
  deadline _ hx := nomatch hx
  stored _ hy := nomatch hy

/-- The server has the deadline, or has refused it. -/
theorem serverDeadline_eq (now : ℚ) (ttl : Option Number) :
    Cachify.serverDeadline now ttl =
      if (ttl.any fun t => !t.expires now) then none else Cachify.deadline now ttl := by
  cases ttl with
  | none => rfl
  | some t => cases ht : t.expires now <;> simp [Cachify.serverDeadline, Cachify.deadline, ht]

theorem ServerKey.set (hh : cfg.hsetEnabled = false) (now : ℚ) (v : V) (ttl : Option Number) :
    ServerKey (some (v, Cachify.serverDeadline now ttl)) (some
      { deadline := Cachify.deadline now ttl
        refused := !cfg.hsetEnabled && ttl.any fun t => !t.expires now }) where
  deadline x hx := by
    cases hx
    refine ⟨_, rfl, ?_⟩
    simp only [hh, Bool.not_false, Bool.true_and]
    exact serverDeadline_eq now ttl
  stored y hy := by
    cases hy
    exact iff_of_true rfl rfl

theorem ServerKey.remove {c : Option (V × Option ℚ)} {h : Option KeyHistory} (hk : ServerKey c h)
    (a b : Bool) : ServerKey (if b = true then none else c)
      (h.map fun x => { x with expired := x.expired || a, cleared := x.cleared || b }) where
  deadline x hx := by
    split at hx
    · cases hx
    · obtain ⟨y, hy, hxy⟩ := hk.deadline x hx
      exact ⟨_, Option.map_eq_some_iff.2 ⟨y, hy, rfl⟩, hxy⟩
  stored y hy := by
    obtain ⟨x, hx, rfl⟩ := Option.map_eq_some_iff.1 hy
    have hst := hk.stored x hx
    cases b <;> simp [hst]

/-- `data` has no deadlines, and the server has those that it took. -/
structure ServerInv (p : CacheRun K V × (K → Option KeyHistory)) : Prop where
  none_recorded : p.1.cache.data.expirations.items = []
  keys : ∀ k, ServerKey (p.1.cache.values.get? k) (p.2 k)

theorem serverInv_step (hh : cfg.hsetEnabled = false) (hi : ServerInv p)
    (hs : (notedCache K V cfg).step p e = some q) : ServerInv q := by
  obtain ⟨s, g⟩ := p
  obtain ⟨s', g'⟩ := q
  obtain ⟨hs, rfl : g' = _⟩ := Machine.observe_step.1 hs
  obtain ⟨hnone, hkeys⟩ := hi
  cases e with
  | set key value ttl =>
    obtain rfl := Option.some.inj hs
    refine ⟨by simpa [Cachify.set, hh] using hnone, fun k => ?_⟩
    have hv : (s.cache.set cfg s.now key value ttl).values.get? k = if k = key then
        some (value, Cachify.serverDeadline s.now (Cachify.effectiveTtl cfg ttl))
        else s.cache.values.get? k := by
      simp only [Cachify.set, hh, Bool.false_eq_true, if_false, Dict.get?_setItem]
    show ServerKey _ (Function.update g key _ k)
    rw [hv]
    by_cases hkey : k = key
    · subst hkey
      rw [if_pos rfl, Function.update_self]
      exact .set hh ..
    · rw [if_neg hkey, Function.update_of_ne hkey]
      exact hkeys k
  | retrieve key =>
    obtain rfl := Option.some.inj hs
    split <;> exact ⟨hnone, hkeys⟩
  | validate key =>
    simp only [cacheMachine, CacheRun.step] at hs
    split at hs
    · obtain rfl := Option.some.inj hs
      have hv := Cachify.validate_of_none_recorded hh hnone s.now key
      refine ⟨by rw [hv]; exact hnone, fun k => ?_⟩
      have hr := (hkeys k).remove (decide (k ∈ s.cache.data.toDelete s.now)) false
      have hev : ¬ s.cache.Evicts cfg s.now key k := fun he => by simp [he.1] at hh
      rw [hv]
      simpa only [noteKeys, hev, decide_false, Bool.false_eq_true, if_false] using hr
    · cases hs
  | clear keys =>
    obtain rfl := Option.some.inj hs
    refine ⟨?_, fun k => ?_⟩
    · show (s.cache.clear cfg keys).data.expirations.items = []
      unfold Cachify.clear
      split
      · exact hnone
      · split <;> rfl
    · have hr := (hkeys k).remove false (decide (Cachify.Clears cfg keys k))
      simp only [Bool.or_false, decide_eq_true_eq] at hr
      exact Cachify.values_clear (s := s.cache) keys k ▸ hr
  | advance t =>
    simp only [cacheMachine, CacheRun.step] at hs
    split at hs
    · obtain rfl := Option.some.inj hs
      exact ⟨hnone, hkeys⟩
    · cases hs

theorem ServerKey.safe_iff {now : ℚ} {s : Cachify K V} {k : K} {h : KeyHistory}
    (hk : ServerKey (s.values.get? k) (some h)) :
    ((∃ t ∈ h.deadline, t < now) → s.get now k = none) ∧
        ((∀ t ∈ h.deadline, now < t) → h.cleared = true ∨ (s.get now k).isSome = true) ↔
      h.cleared = true ∨ ((∃ t ∈ h.deadline, t < now) → h.refused = false) := by
  have hst := hk.stored h rfl
  unfold Cachify.get
  cases hc : s.values.get? k with
  | none =>
    rw [hc] at hst
    have hcl : h.cleared = true := Bool.eq_true_of_not_eq_false fun hf => nomatch hst.2 hf
    simp [hcl]
  | some c =>
    rw [hc] at hst
    have hcl : h.cleared = false := hst.1 rfl
    obtain ⟨y, hy, hd⟩ := hk.deadline c hc
    obtain rfl : h = y := Option.some.inj hy
    cases hr : h.refused with
    | true =>
      -- the value stays
      have hnone : c.2 = none := by simpa [hr] using hd
      simp [hnone, hcl]
    | false =>
      have hsame : c.2 = h.deadline := by simpa [hr] using hd
      refine iff_of_true ⟨fun ho => ?_, fun hlive => .inr ?_⟩ (.inr fun _ => rfl)
      · obtain ⟨t, ht, hlt⟩ := ho
        simp [hsame, show h.deadline = some t from ht, hlt.not_gt]
      · cases ht : h.deadline with
        | none => simp [hsame, ht]
        | some t => simp [hsame, ht, hlive t ht]

/-! ## Runs -/

theorem hashInv_of_run {C : CacheRun K V × (K → Option KeyHistory) → CacheEv K V → Prop}
    (hh : cfg.hsetEnabled = true) {es : List (CacheEv K V)}
    (hr : (notedCache K V cfg).Run C (notedCache K V cfg).init es p) : HashInv p :=
  hr.inv HashInv (fun _ => .unset _) fun _ _ _ hi _ hs => hashInv_step hh hi hs

theorem serverInv_of_run {C : CacheRun K V × (K → Option KeyHistory) → CacheEv K V → Prop}
    (hh : cfg.hsetEnabled = false) {es : List (CacheEv K V)}
    (hr : (notedCache K V cfg).Run C (notedCache K V cfg).init es p) : ServerInv p := by
  have h0 : ServerInv (notedCache K V cfg).init := ⟨rfl, fun _ => .unset⟩
  exact hr.inv ServerInv h0 fun _ _ _ hi _ hs => serverInv_step hh hi hs

/-- A step is safe exactly if the policy checks, or the server, are up to date. -/
theorem safe_iff_of_run {C : CacheRun K V × (K → Option KeyHistory) → CacheEv K V → Prop}
    {es : List (CacheEv K V)}
    (hr : (notedCache K V cfg).Run C (notedCache K V cfg).init es p) :
    Safe p e ↔ UpToDate cfg p e := by
  cases e with
  | retrieve key =>
    simp only [Safe, UpToDate]
    refine forall₂_congr fun h hk => ?_
    cases hh : cfg.hsetEnabled with
    | false =>
      have hi := (serverInv_of_run hh hr).keys key
      rw [show p.2 key = some h from hk] at hi
      simpa using hi.safe_iff
    | true =>
      have hi := hashInv_of_run hh hr key
      rw [show p.2 key = some h from hk] at hi
      simpa using hi.safe_iff
  | _ => exact Iff.rfl

/-- **Every `retrieve` respects the deadlines** in the runs whose policy checks, or server, are up to
date with the keys read, and in no others. -/
theorem run_ttl_iff {es : List (CacheEv K V)} :
    (notedCache K V cfg).Run Safe (notedCache K V cfg).init es p ↔
      (notedCache K V cfg).Run (UpToDate cfg) (notedCache K V cfg).init es p :=
  ⟨fun h => h.imp fun hr _ hc _ => (safe_iff_of_run hr).1 hc,
    fun h => h.imp fun hr _ hc _ => (safe_iff_of_run hr).2 hc⟩

end

/-! ## Two keys, without a default `ttl` -/

/-- Key 1 has a deadline at 5 and is read at 6: a hit, in a hash; without one if the `ttl` was a float.
Or its second `set` has no `ttl`: then the check that follows the `retrieve` of key 2 takes it. -/
theorem run_ttl_broken :
    let M := notedCache ℕ String { ttl := none }
    let M' := notedCache ℕ String { ttl := none, hsetEnabled := false }
    (∃ p, M.Run Machine.Any M.init [.set 1 "a" (some 5), .advance 6] p ∧
      p.1.cache.get p.1.now 1 = some "a" ∧ ¬ Safe p (.retrieve 1)) ∧
    (∃ p, M'.Run Machine.Any M'.init [.set 1 "a" (some (.float 5)), .advance 6] p ∧
      p.1.cache.get p.1.now 1 = some "a" ∧ ¬ Safe p (.retrieve 1)) ∧
    ∃ p, M.Run Machine.Any M.init [.set 1 "a" (some 5), .set 1 "b" none, .set 2 "c" none,
        .advance 6, .retrieve 2, .validate 2] p ∧
      p.1.cache.get p.1.now 1 = none ∧ ¬ Safe p (.retrieve 1) := by
  intro M M'
  refine ⟨?_, ?_, ?_⟩
  · obtain ⟨p, hr, hget, hnow, hh⟩ : ∃ p, M.Run Machine.Any M.init
        [.set 1 "a" (some 5), .advance 6] p ∧ p.1.cache.get p.1.now 1 = some "a" ∧ p.1.now = 6 ∧
          p.2 1 = some { deadline := some 5 } :=
      Machine.exists_run (by decide +kernel) (by decide +kernel)
    refine ⟨p, hr, hget, fun hsafe => ?_⟩
    have hmiss := (hsafe _ hh).1 ⟨5, rfl, by rw [hnow]; decide⟩
    rw [hget] at hmiss
    cases hmiss
  · obtain ⟨p, hr, hget, hnow, hh⟩ : ∃ p, M'.Run Machine.Any M'.init
        [.set 1 "a" (some (.float 5)), .advance 6] p ∧ p.1.cache.get p.1.now 1 = some "a" ∧
          p.1.now = 6 ∧ p.2 1 = some { deadline := some 5, refused := true } :=
      Machine.exists_run (by decide +kernel) (by decide +kernel)
    refine ⟨p, hr, hget, fun hsafe => ?_⟩
    have hmiss := (hsafe _ hh).1 ⟨5, rfl, by rw [hnow]; decide⟩
    rw [hget] at hmiss
    cases hmiss
  · obtain ⟨p, hr, hget, hh⟩ : ∃ p, M.Run Machine.Any M.init
        [.set 1 "a" (some 5), .set 1 "b" none, .set 2 "c" none, .advance 6, .retrieve 2,
          .validate 2] p ∧
        p.1.cache.get p.1.now 1 = none ∧ p.2 1 = some { deadline := none, expired := true } :=
      Machine.exists_run (by decide +kernel) (by decide +kernel)
    refine ⟨p, hr, hget, fun hsafe => ?_⟩
    rcases (hsafe _ hh).2 (fun t ht => nomatch ht) with hcl | hhit
    · cases hcl
    · rw [hget] at hhit
      cases hhit

end Kvdb
