import Kvdb.Io.CachifyWrapper

/-!
# Calls without faults

If no access fails, the parts of a call do to the cache what the operations of `Cachify` do in one step
(`takes_lookup`, `takes_validateCachePolicies`, `takes_invalidateCache`, `takes_set`): the log is all
that the programs have besides.
-/

namespace Kvdb.Cachify

open Lib Lib.Program Python CachifyOptions

variable {A P E V R K : Type} {cfg : CachifyOptions A P E V R K} {env : CallEnv}

/-- The state without its log. -/
def unlogged (s : CallState K R) : CallState K R := { s with log := [] }

/-- `x` does to the cache what `a` and `c` say. -/
def Does {α : Type} (x : Call E K R α) (v : CallState K R) (a : α) (c : Cachify K R) : Prop :=
  Takes unlogged x v a { v with cache := c }

namespace Does

variable {α β : Type} {v : CallState K R} {a : α} {b : β} {c c' : Cachify K R} {x : Call E K R α}
  {f : α → Call E K R β}

theorem pure : Does (pure a : Call E K R α) v a v.cache := Takes.pure

theorem bind (hx : Does x v a c) (hf : Does (f a) { v with cache := c } b c') :
    Does (x >>= f) v b c' :=
  Takes.bind hx hf

theorem safely (hx : Does x v a c) : Does (safely x) v (some a) c := by
  refine Takes.handle ?_ _
  exact Takes.bind hx Takes.pure

theorem excepting (hx : Does x v a c) (h : Exc E → Call E K R α) : Does (excepting x h) v a c :=
  Takes.handle hx _

section

variable {proc : Proc} {i : ℕ} {awaited : Bool} (hf : env.faults = fun _ _ => none)

include hf

theorem access (g : ℚ → Cachify K R → α × Cachify K R) :
    Does (cfg.access env proc i awaited g) v (g v.now v.cache).1 (g v.now v.cache).2 := by
  intro s hs
  subst hs
  refine ⟨{ s with log := s.log ++ [.store proc i], cache := (g s.now s.cache).2 }, ?_, rfl⟩
  simp only [CachifyOptions.access, hf]
  rfl

theorem read (g : ℚ → Cachify K R → α) :
    Does (cfg.read env proc i awaited g) v (g v.now v.cache) v.cache :=
  access hf _

theorem write (g : ℚ → Cachify K R → Cachify K R) :
    Does (cfg.write env proc i awaited g) v () (g v.now v.cache) :=
  access hf _

theorem writeData (g : ℚ → CacheData K → CacheData K) :
    Does (cfg.writeData env proc i awaited g : Call E K R Unit) v ()
      { v.cache with data := g v.now v.cache.data } :=
  write hf _

end

end Does

section

variable [DecidableEq K] {v : CallState K R} {key : K} (hf : env.faults = fun _ _ => none)

include hf

theorem does_lookup :
    Does (cfg.lookup env key : Call E K R (Option R)) v (v.cache.get v.now key) v.cache := by
  unfold CachifyOptions.lookup
  refine .excepting ?_ _
  refine .bind (a := some (v.cache.get v.now key)) (c := v.cache) (.safely ?_) .pure
  refine .bind (.read hf _) ?_
  cases h : v.cache.get v.now key with
  | none => exact .pure
  | some c =>
    have hget : Does (cfg.read env .retrieve 1 true fun now s => s.get now key : Call E K R _) v
        (v.cache.get v.now key) v.cache := .read hf _
    rwa [h] at hget

omit [DecidableEq K] in
theorem does_incrementHits {n : ℕ} (h : v.cache.data.hits = some n) :
    Does (cfg.incrementHits env : Call E K R Unit) v ()
      { v.cache with data := { v.cache.data with hits := some (n + 1) } } := by
  unfold CachifyOptions.incrementHits
  refine .excepting (.bind (.read hf _) ?_) _
  simp only [h]
  exact .writeData hf _

omit [DecidableEq K] in
theorem does_addHit :
    Does (cfg.addHit env : Call E K R Unit) v () { v.cache with data := v.cache.data.addHit } := by
  unfold CachifyOptions.addHit CacheData.addHit
  refine .bind (a := some ()) (c := { v.cache with data := v.cache.data.addHit }) (.safely ?_) .pure
  refine .bind (.read hf _) ?_
  unfold CacheData.addHit
  cases h : v.cache.data.hits with
  | none => exact .bind (.writeData hf _) (does_incrementHits hf rfl)
  | some n => exact does_incrementHits hf h

theorem does_expireCacheExpiredKeys :
    Does (cfg.expireCacheExpiredKeys env : Call E K R Unit) v ()
      (v.cache.expireCacheExpiredKeys cfg.toCachifyConfig v.now) := by
  unfold CachifyOptions.expireCacheExpiredKeys
  by_cases h : v.cache.data.toDelete v.now = []
  · rw [Cachify.expireCacheExpiredKeys, if_pos h]
    refine .bind (a := some ()) (.safely (.bind (.read hf _) ?_)) .pure
    simp only [h, ne_eq, not_true, if_false]
    exact .pure
  · rw [Cachify.expireCacheExpiredKeys, if_neg h, Cachify.clear, if_pos h]
    refine .bind (a := some ()) (.safely (.bind (.read hf _) ?_)) .pure
    simp only [h, ne_eq, not_false_eq_true, if_true]
    refine .bind (.read hf _) (.bind (.read hf _) (.bind (.writeData hf _) ?_))
    exact .bind (.writeData hf _) (.bind (.writeData hf _) (.write hf _))

theorem does_addKeyHit :
    Does (cfg.addKeyHit env key : Call E K R Unit) v ()
      { v.cache with data := v.cache.data.addKeyHit key } := by
  unfold CachifyOptions.addKeyHit
  refine .bind (a := some ()) (.safely ?_) .pure
  exact .bind (.read hf _) (.writeData hf _)

theorem does_addKeyTimestamp :
    Does (cfg.addKeyTimestamp env key : Call E K R Unit) v ()
      { v.cache with data := v.cache.data.addKeyTimestamp key v.now } := by
  unfold CachifyOptions.addKeyTimestamp
  refine .bind (a := some ()) (.safely ?_) .pure
  exact .bind (.read hf _) (.writeData hf _)

omit [DecidableEq K] in
theorem does_numKeys {i : ℕ} :
    Does (cfg.numKeys env i : Call E K R ℕ) v v.cache.numKeys v.cache := by
  unfold CachifyOptions.numKeys
  exact .bind (a := some v.cache.numKeys) (.safely (.read hf _)) .pure

theorem does_checkCachePolicies {n : ℕ} (hh : cfg.hsetEnabled = true) :
    Does (cfg.checkCachePolicies env key n : Call E K R Unit) v ()
      (v.cache.checkCachePolicies cfg.toCachifyConfig key n) := by
  unfold CachifyOptions.checkCachePolicies Cachify.checkCachePolicies
  refine .bind (does_numKeys hf) ?_
  split
  · exact .pure
  · refine .bind (does_numKeys hf) (.bind (.read hf _) ?_)
    unfold Cachify.clear Cachify.keysToDelete
    dsimp only
    split
    · exact .write hf _
    · exact .bind (.writeData hf _) (.write hf _)

/-- **The policies of a hit**: one step of `Cachify` in both variants. -/
theorem does_validateCachePolicies :
    Does (cfg.validateCachePolicies env key : Call E K R Unit) v ()
      (v.cache.validateCachePolicies cfg.toCachifyConfig v.now key) := by
  unfold CachifyOptions.validateCachePolicies Cachify.validateCachePolicies
  refine .bind (does_addHit hf) (.bind (does_expireCacheExpiredKeys hf) ?_)
  cases hh : cfg.hsetEnabled with
  | false => exact .pure
  | true =>
    cases hm : cfg.cacheMaxSize with
    | none => exact .pure
    | some n =>
      dsimp only
      split
      · exact .bind (does_addKeyTimestamp hf) (.bind (does_addKeyHit hf) (does_checkCachePolicies hf hh))
      · exact .bind (does_addKeyHit hf) (.bind (does_addKeyTimestamp hf) (does_checkCachePolicies hf hh))

/-- What `retrieve` returns and leaves. -/
def retrieved (cfg : CachifyOptions A P E V R K) (ck : CacheKwargs P) (a : CallArgs A P) (key : K)
    (v : CallState K R) : Option V × Cachify K R :=
  if cfg.shouldOverwrite ck a then (none, v.cache)
  else
    (v.cache.get v.now key).elim (none, v.cache) fun value =>
      (cfg.decodeHit value a, v.cache.validateCachePolicies cfg.toCachifyConfig v.now key)

/-- The policies do not wait for a background task. -/
theorem does_retrieve {ck : CacheKwargs P} {a : CallArgs A P}
    (hb : cfg.isAsync = true → cfg.disableBackgroundTasks = true) :
    Does (cfg.retrieve env ck a key : Call E K R (Option V)) v (retrieved cfg ck a key v).1
      (retrieved cfg ck a key v).2 := by
  unfold CachifyOptions.retrieve retrieved
  split
  · exact .pure
  · refine .bind (does_lookup hf) ?_
    cases v.cache.get v.now key with
    | none => exact .pure
    | some value =>
      have hnow : (!cfg.isAsync || cfg.disableBackgroundTasks) = true := by
        cases h : cfg.isAsync with
        | false => rfl
        | true => exact hb h
      dsimp only
      rw [if_pos hnow]
      exact .bind (does_validateCachePolicies hf) .pure

/-! ## `invalidate_cache` and `set` -/

theorem does_popTracked {β : Type} {i : ℕ} {f : CacheData K → Dict K β} :
    Does (cfg.popTracked env i key f : Call E K R (Option (Dict K β))) v
      (if key ∈ (f v.cache.data).keySet then some ((f v.cache.data).pop key) else none) v.cache := by
  unfold CachifyOptions.popTracked
  refine .bind (.read hf _) ?_
  split
  · exact .bind (.read hf _) .pure
  · exact .pure

omit hf in
theorem saved_pop {β : Type} (saves : Dict K β → Dict K β → Bool) (d : Dict K β) :
    saved saves d (if key ∈ d.keySet then some (d.pop key) else none) = popSaved saves d key := by
  unfold saved popSaved
  by_cases h : key ∈ d.keySet <;> simp [h]

theorem does_invalidateCache {saves : ∀ β, Dict K β → Dict K β → Bool} :
    Does (cfg.invalidateCache env saves key : Call E K R Unit) v ()
      (v.cache.invalidateCache saves key) := by
  unfold CachifyOptions.invalidateCache Cachify.invalidateCache
  simp only [← saved_pop]
  refine .bind (a := some ()) (.safely ?_) .pure
  refine .bind (does_popTracked hf) (.bind (does_popTracked hf) (.bind (does_popTracked hf) ?_))
  exact .bind (.writeData hf _) (.write hf _)

/-- A time to live that is no number raises in `set`, after the value was written. -/
theorem does_set {ck : CacheKwargs P} {a : CallArgs A P} {value : Option V} {r : R}
    (hr : cfg.encodeHit value a = some r) (httl : ∀ p, ck.ttl ≠ some (.other p)) :
    Does (cfg.set env ck a key value) v ()
      (v.cache.set cfg.toCachifyConfig v.now key r (ck.ttl.bind KwArg.num?)) := by
  unfold CachifyOptions.set CachifyOptions.addKeyExpiration
  generalize hc : v.cache.set cfg.toCachifyConfig v.now key r (ck.ttl.bind KwArg.num?) = c
  unfold Cachify.set at hc
  refine .excepting ?_ _
  refine .bind (a := some ()) (.safely ?_) .pure
  rw [hr]
  refine .bind (.write hf _) ?_
  split
  · rename_i p hp
    exact absurd hp (httl p)
  · cases ht : Cachify.effectiveTtl cfg.toCachifyConfig (ck.ttl.bind KwArg.num?) with
    | none =>
      simp only [ht, deadline, serverDeadline, Option.filter_none, Option.map_none,
        Option.elim_none, ite_self] at hc
      rw [← hc]
      exact .pure
    | some t =>
      simp only [ht] at hc
      refine .bind (a := some ()) (.safely ?_) .pure
      cases hh : cfg.hsetEnabled with
      | true =>
        rw [hh, if_pos rfl] at hc
        rw [← hc]
        exact .bind (.read hf _) (.writeData hf _)
      | false =>
        have hset : expire { v.cache with values := v.cache.values.setItem key (r, none) } key
            v.now t = c := by
          rw [← hc, hh, if_neg (by simp)]
          simp only [expire, Dict.get?_setItem, if_pos]
          cases serverDeadline v.now (some t) with
          | none => rfl
          | some u => simp only [Dict.setItem_setItem]
        rw [← hset]
        exact .write hf _

end

end Kvdb.Cachify
