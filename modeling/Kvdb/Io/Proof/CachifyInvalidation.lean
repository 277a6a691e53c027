import Kvdb.Io.Proof.CachifyCalls
import Kvdb.Io.Proof.CachifyRefines

/-!
# `invalidate_after`

The calls of a history have the same arguments and no access of theirs fails. `historyMachine` makes
them through both wrappers, each with a cache of its own, and counts the hits that were served since
the value was computed (`served`). `data['hits']` counts more: no invalidation resets it, and the
synchronous wrapper does not even read it. As long as it is below the limit there is nothing to
invalidate, and both wrappers see that (`run_right`).
-/

namespace Kvdb.Cachify

open Lib Lib.Program Python CachifyOptions

variable {A P E V R K : Type} {cfg : CachifyOptions A P E V R K} {env : CallEnv} [DecidableEq K]
  {saves : ∀ β, Dict K β → Dict K β → Bool} {ck : CacheKwargs P} {a : CallArgs A P} {key : K}
  {s t : CallState K R} {n : ℤ}

/-! ## Decisions -/

/-- The call invalidates its key before it looks for a value. -/
def Decides (cfg : CachifyOptions A P E V R K) (env : CallEnv) (a : CallArgs A P)
    (s : CallState K R) : Prop :=
  Available env s ∧
    cfg.shouldDisable (cfg.extractCacheKwargs a).1 (cfg.extractCacheKwargs a).2 = false ∧
    ∃ hits t, cfg.numHits env (cfg.extractCacheKwargs a).1 s = (.ok hits, t) ∧
      cfg.shouldInvalidate hits (cfg.extractCacheKwargs a).1 (cfg.extractCacheKwargs a).2 = true

/-- `invalidate_after` is `n`, and the calls give no other reason to invalidate. -/
def CachifyOptions.InvalidatesAfter (cfg : CachifyOptions A P E V R K) (a : CallArgs A P) (n : ℤ) :
    Prop :=
  cfg.invalidateAfter = some (.inl n) ∧ cfg.invalidateIf = none ∧
    KwArg.isTrue (cfg.extractCacheKwargs a).1.invalidate = false

/-- The hits that `should_invalidate` gets. -/
def hitsRead (cfg : CachifyOptions A P E V R K) (ck : CacheKwargs P) (c : Cachify K R) : Option ℕ :=
  if cfg.isAsync && cfg.readsHits ck then some (c.data.hits.getD 0) else none

omit [DecidableEq K] in
theorem does_numHits (hf : env.faults = fun _ _ => none) :
    Does (cfg.numHits env ck : Call E K R (Option ℕ)) s (hitsRead cfg ck s.cache) s.cache := by
  unfold CachifyOptions.numHits hitsRead
  split
  · exact .safely (.read hf _)
  · exact .pure

omit [DecidableEq K] in
/-- What a part does to the cache, with the log. -/
theorem Does.run {α : Type} {x : Call E K R α} {b : α} {c : Cachify K R}
    (h : Does x (unlogged s) b c) :
    ∃ t, x s = (.ok b, t) ∧ t.cache = c ∧ t.now = s.now ∧ t.executions = s.executions := by
  obtain ⟨t, hx, ht⟩ := h s rfl
  have hcache : (unlogged t).cache = c := by rw [ht]
  have hnow : (unlogged t).now = s.now := by rw [ht]; rfl
  have hexec : (unlogged t).executions = s.executions := by rw [ht]; rfl
  exact ⟨t, hx, hcache, hnow, hexec⟩

omit [DecidableEq K] in
theorem decides_iff (hf : env.faults = fun _ _ => none) :
    Decides cfg env a s ↔ Available env s ∧
      cfg.shouldDisable (cfg.extractCacheKwargs a).1 (cfg.extractCacheKwargs a).2 = false ∧
      cfg.shouldInvalidate (hitsRead cfg (cfg.extractCacheKwargs a).1 s.cache)
        (cfg.extractCacheKwargs a).1 (cfg.extractCacheKwargs a).2 = true := by
  have hdoes : Does (cfg.numHits env (cfg.extractCacheKwargs a).1 : Call E K R (Option ℕ))
      (unlogged s) _ _ := does_numHits hf
  obtain ⟨u, hu, -⟩ := hdoes.run
  unfold Decides
  refine and_congr_right fun _ => and_congr_right fun _ => ?_
  constructor
  · intro h
    obtain ⟨hits, t, hx, h⟩ := h
    rw [hu] at hx
    obtain rfl : hitsRead cfg _ s.cache = hits := Except.ok.inj (Prod.mk.inj hx).1
    exact h
  · intro h
    exact ⟨_, u, hu, h⟩

/-! ## A hit -/

theorem does_find (hf : env.faults = fun _ _ => none)
    (hd : cfg.shouldInvalidate (hitsRead cfg ck s.cache) ck a = false)
    (hb : cfg.isAsync = true → cfg.disableBackgroundTasks = true) :
    Does (cfg.find env saves ck a key : Call E K R (Option V)) (unlogged s)
      (retrieved cfg ck a key (unlogged s)).1 (retrieved cfg ck a key (unlogged s)).2 := by
  refine .bind (a := ()) (c := s.cache) ?_ (does_retrieve hf hb)
  unfold CachifyOptions.invalidateFirst
  refine .bind (does_numHits hf) ?_
  have hd : ¬ cfg.shouldInvalidate (hitsRead cfg ck (unlogged s).cache) ck a = true :=
    ne_true_of_eq_false hd
  rw [if_neg hd]
  exact .pure

theorem retrieved_of_isSome (h : (retrieved cfg ck a key s).1.isSome) :
    (retrieved cfg ck a key s).2 =
      s.cache.validateCachePolicies cfg.toCachifyConfig s.now key := by
  unfold retrieved at h ⊢
  split at h
  · cases h
  · rename_i ho
    rw [if_neg ho]
    cases hg : s.cache.get s.now key with
    | none =>
      rw [hg] at h
      cases h
    | some c => rfl

section

variable {c : Cachify K R} {now : ℚ} {k : K} {conf : CachifyConfig}

theorem hits_expire :
    (c.expireCacheExpiredKeys conf now).data.hits = c.data.hits ∧
      (c.expireCacheExpiredKeys conf now).values.keySet ⊆ c.values.keySet := by
  unfold expireCacheExpiredKeys
  dsimp only
  split
  · exact ⟨rfl, subset_rfl⟩
  · rename_i hne
    rw [Cachify.clear, if_pos hne]
    exact ⟨rfl, by simp [Dict.keySet_popAll]⟩

theorem hits_check {m : ℕ} (hh : conf.hsetEnabled = true)
    (h : k ∈ (c.checkCachePolicies conf key m).values.keySet) :
    (c.checkCachePolicies conf key m).data.hits = c.data.hits ∧ k ∈ c.values.keySet := by
  unfold Cachify.checkCachePolicies Cachify.clear at *
  rw [if_pos hh] at *
  split at h
  · rename_i hle
    rw [if_pos hle]
    exact ⟨rfl, h⟩
  · rename_i hle
    rw [if_neg hle]
    split at h
    · rename_i hne
      rw [if_pos hne]
      rw [Dict.keySet_popAll] at h
      exact ⟨rfl, (Finset.mem_sdiff.1 h).1⟩
    · simp [Dict.keySet] at h

/-- A key that the policies leave was cached, and the hit is counted. -/
theorem hits_validate (h : k ∈ (c.validateCachePolicies conf now key).values.keySet) :
    (c.validateCachePolicies conf now key).data.hits = some (c.data.hits.getD 0 + 1) ∧
      k ∈ c.values.keySet := by
  have hexpire :
      ({ c with data := c.data.addHit }.expireCacheExpiredKeys conf now).data.hits =
          some (c.data.hits.getD 0 + 1) ∧
        ({ c with data := c.data.addHit }.expireCacheExpiredKeys conf now).values.keySet ⊆
          c.values.keySet := hits_expire
  unfold Cachify.validateCachePolicies beforeCheck at *
  dsimp only at *
  generalize { c with data := c.data.addHit }.expireCacheExpiredKeys conf now = d at *
  split at h
  · rename_i hh hm
    obtain ⟨hhits, hk⟩ := hits_check hh h
    exact ⟨hhits.trans hexpire.1, hexpire.2 hk⟩
  · exact ⟨hexpire.1, hexpire.2 h⟩

end

/-! ## Histories -/

/-- A call without failures. -/
structure PlainCall where
  wait : ℚ := 0
  ping : Bool := true
  timedCacheCalls : Bool := true
  hookRaises : Bool → Bool := fun _ => false

def PlainCall.toEnv (e : PlainCall) : CallEnv :=
  { ping := e.ping, timedCacheCalls := e.timedCacheCalls, hookRaises := e.hookRaises }

structure History (K R : Type) where
  state : CallState K R := {}
  /-- The hits that were served since the value was computed. -/
  served : ℕ := 0

namespace History

/-- The state that the call finds. -/
def before (h : History K R) (e : PlainCall) : CallState K R :=
  { h.state with now := h.state.now + e.wait }

variable (cfg saves a) in
def step (h : History K R) (e : PlainCall) : History K R :=
  let s := h.before e
  let p := cfg.wrapper e.toEnv saves a s
  { state := p.2
    served :=
      if ¬ Available e.toEnv s then h.served
      else if p.2.executions ≠ s.executions then 0
      else if p.1.isOk then h.served + 1 else h.served }

end History

/-! ## Steps -/

/-- No more hits were served than are recorded. -/
def Counts (key : K) (h : History K R) : Prop :=
  key ∈ h.state.cache.values.keySet → h.served ≤ h.state.cache.data.hits.getD 0

theorem wrapper_hit (hf : env.faults = fun _ _ => none)
    (hb : cfg.isAsync = true → cfg.disableBackgroundTasks = true) (hs : Available env s)
    (hd : ¬ Decides cfg env a s)
    (h : (cfg.wrapper env saves a s).2.executions = s.executions) :
    (cfg.wrapper env saves a s).2.cache =
      s.cache.validateCachePolicies cfg.toCachifyConfig s.now
        (cfg.key (cfg.extractCacheKwargs a).2) := by
  obtain ⟨run, hrun, hw⟩ := wrapper_of_available cfg saves a hs
  rw [hw] at h ⊢
  by_cases hdis : cfg.shouldDisable (cfg.extractCacheKwargs a).1 (cfg.extractCacheKwargs a).2 = true
  · rw [callAvailable_of_disabled hdis, execute_executions] at h
    exact absurd h (Nat.succ_ne_self _)
  have hinv : cfg.shouldInvalidate (hitsRead cfg (cfg.extractCacheKwargs a).1 s.cache)
      (cfg.extractCacheKwargs a).1 (cfg.extractCacheKwargs a).2 = false := by
    rw [decides_iff hf] at hd
    simpa [hs, hdis] using hd
  unfold CachifyOptions.callAvailable at h ⊢
  rcases hx : cfg.extractCacheKwargs a with ⟨ck, b⟩
  rw [hx] at h hdis hinv
  dsimp only at h hdis hinv ⊢
  rw [if_neg hdis] at h ⊢
  have hfind : Does (cfg.find env saves ck b (cfg.key b)) (unlogged (checked s)) _ _ :=
    does_find hf hinv hb
  obtain ⟨u, hu, hcache, -, hexec⟩ := hfind.run
  rw [bind_of_ok hu] at h ⊢
  cases hr : (retrieved cfg ck b (cfg.key b) (unlogged (checked s))).1 with
  | none =>
    rw [hr] at h
    dsimp only at h
    rw [compute_executions hrun, hexec] at h
    exact absurd h (Nat.succ_ne_self _)
  | some w =>
    have hval : (retrieved cfg ck b (cfg.key b) (unlogged (checked s))).2 = _ :=
      retrieved_of_isSome (by rw [hr]; rfl)
    dsimp only
    rw [← hcache] at hval
    rcases runPostCallHook_cases cfg env true u with hk | hk
    · rw [bind_of_ok hk]
      exact hval
    · cases hraises : env.hookRaises true with
      | false =>
        rw [hraises] at hk
        rw [bind_of_ok hk]
        exact hval
      | true =>
        rw [hraises] at hk
        rw [bind_of_error hk]
        exact hval

variable (cfg) in
theorem step_counts {e : PlainCall} {h : History K R}
    (hb : cfg.isAsync = true → cfg.disableBackgroundTasks = true)
    (hc : Counts (cfg.key (cfg.extractCacheKwargs a).2) h)
    (hd : ¬ Decides cfg e.toEnv a (h.before e)) :
    Counts (cfg.key (cfg.extractCacheKwargs a).2) (h.step cfg saves a e) := by
  unfold Counts History.step at *
  dsimp only
  by_cases hs : Available e.toEnv (h.before e)
  · rw [if_neg (not_not.2 hs)]
    by_cases hx : (cfg.wrapper e.toEnv saves a (h.before e)).2.executions = (h.before e).executions
    · rw [if_neg (not_not.2 hx), wrapper_hit rfl hb hs hd hx]
      intro hk
      obtain ⟨hhits, hk⟩ := hits_validate hk
      have hle : h.served ≤ (h.before e).cache.data.hits.getD 0 := hc hk
      rw [hhits, Option.getD_some]
      split
      · exact Nat.succ_le_succ hle
      · exact hle.trans (Nat.le_succ _)
    · rw [if_pos hx]
      exact fun _ => Nat.zero_le _
  · rw [if_pos hs]
    obtain ⟨run, -, hw⟩ := wrapper_eq cfg e.toEnv saves a
    obtain ⟨n, hn, -⟩ := callUnavailable_eq cfg e.toEnv a (h.before e)
    rw [hw, callWith_of_not_available hs, hn]
    exact hc

/-! ## Runs -/

/-- The synchronous and the asynchronous wrapper. -/
def CachifyOptions.sync (cfg : CachifyOptions A P E V R K) : CachifyOptions A P E V R K :=
  { cfg with isAsync := false }

def CachifyOptions.async (cfg : CachifyOptions A P E V R K) : CachifyOptions A P E V R K :=
  { cfg with isAsync := true, disableBackgroundTasks := true }

structure Histories (K R : Type) where
  sync : History K R := {}
  async : History K R := {}

/-- Each call is made through both wrappers. -/
def historyMachine (cfg : CachifyOptions A P E V R K) (saves : ∀ β, Dict K β → Dict K β → Bool)
    (a : CallArgs A P) : Machine (Histories K R) PlainCall where
  init := {}
  step h e := some
    { sync := h.sync.step cfg.sync saves a e
      async := h.async.step cfg.async saves a e }

/-- If the value is cached, it is invalidated when `n` hits of it were served. -/
def Timely (cfg : CachifyOptions A P E V R K) (a : CallArgs A P) (n : ℤ) (h : History K R)
    (e : PlainCall) : Prop :=
  ((h.before e).cache.get (h.before e).now (cfg.key (cfg.extractCacheKwargs a).2)).isSome →
    (Decides cfg e.toEnv a (h.before e) ↔ n ≤ h.served)

/-- Both wrappers decide alike, and in time. -/
def Agree (cfg : CachifyOptions A P E V R K) (a : CallArgs A P) (n : ℤ) (h : Histories K R)
    (e : PlainCall) : Prop :=
  (Decides cfg.sync e.toEnv a (h.sync.before e) ↔ Decides cfg.async e.toEnv a (h.async.before e)) ∧
    Timely cfg.sync a n h.sync e ∧ Timely cfg.async a n h.async e

/-- Fewer than `n` hits are recorded. -/
def Few (n : ℤ) (h : Histories K R) (_ : PlainCall) : Prop :=
  h.sync.state.cache.data.hits.getD 0 < n ∧ h.async.state.cache.data.hits.getD 0 < n

variable (cfg) in
omit [DecidableEq K] in
theorem not_decides (hi : cfg.InvalidatesAfter a n) (hf : env.faults = fun _ _ => none)
    (h : s.cache.data.hits.getD 0 < n) : ¬ Decides cfg env a s := by
  intro hd
  obtain ⟨-, -, hd⟩ := (decides_iff hf).1 hd
  obtain ⟨hafter, hif, hkw⟩ := hi
  unfold CachifyOptions.shouldInvalidate hitsRead at hd
  rw [hif, hafter, hkw] at hd
  dsimp only at hd
  rw [if_neg (by simp)] at hd
  split at hd
  · rw [Option.any_some, decide_eq_true_eq] at hd
    exact absurd h (not_lt.2 hd)
  · cases hd

variable (cfg) in
theorem Timely.of_few {h : History K R} {e : PlainCall} (hi : cfg.InvalidatesAfter a n)
    (hc : Counts (cfg.key (cfg.extractCacheKwargs a).2) h)
    (hfew : h.state.cache.data.hits.getD 0 < n) : Timely cfg a n h e := by
  intro hg
  refine iff_of_false (not_decides cfg hi rfl hfew) (not_le.2 ?_)
  have hk : cfg.key (cfg.extractCacheKwargs a).2 ∈ h.state.cache.values.keySet := by
    rw [Dict.mem_keySet]
    unfold Cachify.get at hg
    cases hv : h.state.cache.values.get? (cfg.key (cfg.extractCacheKwargs a).2) with
    | none =>
      rw [History.before, hv] at hg
      cases hg
    | some _ => rfl
  exact (Int.ofNat_le.2 (hc hk)).trans_lt hfew

variable {hs hs' : Histories K R} {es : List PlainCall}

theorem counts_of_run (hi : cfg.InvalidatesAfter a n)
    (h : (historyMachine cfg saves a).Run (Few n) {} es hs) :
    Counts (cfg.key (cfg.extractCacheKwargs a).2) hs.sync ∧
      Counts (cfg.key (cfg.extractCacheKwargs a).2) hs.async := by
  refine h.inv (fun hs => Counts (cfg.key (cfg.extractCacheKwargs a).2) hs.sync ∧
    Counts (cfg.key (cfg.extractCacheKwargs a).2) hs.async) ?_ ?_
  · exact ⟨fun _ => le_rfl, fun _ => le_rfl⟩
  · intro t e u hc hfew hstep
    obtain rfl := Option.some.inj hstep
    exact ⟨step_counts cfg.sync (by simp [CachifyOptions.sync]) hc.1
        (not_decides cfg.sync hi rfl hfew.1),
      step_counts cfg.async (by simp [CachifyOptions.async]) hc.2
        (not_decides cfg.async hi rfl hfew.2)⟩

/-- **`invalidate_after`**: in the runs in which fewer than `n` hits are recorded before each call, both
wrappers decide alike at each call, and in time. -/
theorem run_agree (hi : cfg.InvalidatesAfter a n)
    (h : (historyMachine cfg saves a).Run (Few n) {} es hs) :
    (historyMachine cfg saves a).Run (Agree cfg a n) {} es hs := by
  refine h.imp fun hr _ hfew _ => ?_
  obtain ⟨hsync, hasync⟩ := counts_of_run hi hr
  refine ⟨iff_of_false (not_decides cfg.sync hi rfl hfew.1)
    (not_decides cfg.async hi rfl hfew.2), ?_, ?_⟩
  · exact Timely.of_few cfg.sync hi hsync hfew.1
  · exact Timely.of_few cfg.async hi hasync hfew.2

instance {e : PlainCall} : Decidable (Few n hs e) := inferInstanceAs (Decidable (_ ∧ _))

instance {e : PlainCall} : Decidable (Decides cfg e.toEnv a s) :=
  decidable_of_iff _ (decides_iff rfl).symm

instance {h : History K R} {e : PlainCall} : Decidable (Timely cfg a n h e) :=
  inferInstanceAs (Decidable (_ → _))

instance {e : PlainCall} : Decidable (Agree cfg a n hs e) := inferInstanceAs (Decidable (_ ∧ _))

/-- The value is dropped after `n` hits. -/
def countingAfter (n : ℤ) : CachifyOptions Unit Unit Unit ℕ ℕ ℕ :=
  { counting with invalidateAfter := some (.inl n) }

theorem run_agree_countingAfter :
    ∃ hs, (historyMachine (countingAfter 2) saveAll { args := () }).Run
        (Agree (countingAfter 2) { args := () } 2) {} [{}, {}, {}] hs ∧
      hs.sync.served = 2 ∧ hs.async.served = 2 := by
  have h : ∃ hs, (historyMachine (countingAfter 2) saveAll { args := () }).Run (Few 2) {}
      [{}, {}, {}] hs ∧ hs.sync.served = 2 ∧ hs.async.served = 2 :=
    Machine.exists_run (by decide +kernel) (by decide +kernel)
  obtain ⟨hs, hr, hserved⟩ := h
  exact ⟨hs, run_agree ⟨rfl, rfl, rfl⟩ hr, hserved⟩

/-- The synchronous wrapper does not invalidate after the hit; the asynchronous one does, and again
before the next hit. -/
theorem run_agree_broken :
    (∃ hs, (historyMachine (countingAfter 1) saveAll { args := () }).Run Machine.Any {} [{}, {}] hs ∧
      ¬ Timely (countingAfter 1).sync { args := () } 1 hs.sync {} ∧
      ¬ Agree (countingAfter 1) { args := () } 1 hs {}) ∧
    ∃ hs, (historyMachine (countingAfter 1) saveAll { args := () }).Run Machine.Any {}
        [{}, {}, {}] hs ∧
      hs.async.served = 0 ∧ ¬ Timely (countingAfter 1).async { args := () } 1 hs.async {} :=
  ⟨Machine.exists_run (by decide +kernel) (by decide +kernel),
    Machine.exists_run (by decide +kernel) (by decide +kernel)⟩

end Kvdb.Cachify
