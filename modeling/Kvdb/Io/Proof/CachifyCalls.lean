import Kvdb.Io.Proof.CachifyFaults
import Kvdb.Lib.Machine

/-!
# Calls of a cachified function

* `transparent_iff`: a call returns the value of the function, or a cached one, unless an access of it
  is bad (a hook that raises after a miss is seen as `None` if exceptions are not to be raised);
  `transparent_of_handled` has a condition on what fails that is enough.
* `executions_iff`: a call executes the function once at most, unless there is no session and the first
  execution raises.
* `run_bypassed`: the calls of a run for which the cache is off do not touch it. The boolean `disabled`
  is not among what turns it off.
-/

namespace Kvdb.Cachify

open Lib Lib.Program Python CachifyOptions

variable {A P E V R K : Type} {cfg : CachifyOptions A P E V R K} {env : CallEnv} [DecidableEq K]
  {saves : ∀ β, Dict K β → Dict K β → Bool} {ck : CacheKwargs P} {a : CallArgs A P} {key : K}
  {s t : CallState K R}

/-! ## The value that is found -/

/-- Nothing comes into the cache. -/
def Shrinks (s t : CallState K R) : Prop :=
  ∀ k c, t.cache.get t.now k = some c → s.cache.get s.now k = some c

instance : Std.Refl (Shrinks : CallState K R → CallState K R → Prop) where
  refl _ _ _ h := h

instance : IsTrans (CallState K R) Shrinks where
  trans _ _ _ h h' k c hc := h k c (h' k c hc)

theorem shrinks_access {proc : Proc} {i : ℕ} {awaited : Bool} {α : Type}
    {f : ℚ → Cachify K R → α × Cachify K R}
    (h : ∀ now c k v, (f now c).2.get now k = some v → c.get now k = some v) :
    Keeps Shrinks (cfg.access env proc i awaited f : Call E K R α) := by
  intro s k c hc
  rw [access_frame.2.1] at hc
  rcases access_cache (s := s) with hs | hs
  · rwa [hs] at hc
  · rw [hs] at hc
    exact h _ _ _ _ hc

theorem get_pop {c : Cachify K R} {now : ℚ} {k : K} {v : R}
    (h : ({ c with values := c.values.pop key } : Cachify K R).get now k = some v) :
    c.get now k = some v := by
  unfold Cachify.get at h ⊢
  rw [Dict.get?_pop] at h
  split at h
  · cases h
  · exact h

theorem shrinks_safely {α : Type} {x : Call E K R α} (hx : Keeps Shrinks x) :
    Keeps Shrinks (safely x) := by
  refine .handle (.bind hx fun _ => .pure _) fun e y h => ?_
  cases e with
  | cancelled =>
    obtain rfl := Option.some.inj h
    exact .pure _
  | store | typeError | hook | function _ => cases h

theorem shrinks_popTracked {β : Type} {i : ℕ} {f : CacheData K → Dict K β} :
    Keeps Shrinks (cfg.popTracked env i key f : Call E K R (Option (Dict K β))) := by
  unfold CachifyOptions.popTracked
  refine .bind (shrinks_access fun _ _ _ _ h => h) fun _ => ?_
  split
  · exact .bind (shrinks_access fun _ _ _ _ h => h) fun _ => .pure _
  · exact .pure _

theorem shrinks_invalidateFirst :
    Keeps Shrinks (cfg.invalidateFirst env saves ck a key : Call E K R Unit) := by
  unfold CachifyOptions.invalidateFirst CachifyOptions.numHits CachifyOptions.invalidateCache
  refine .bind ?_ fun hits => ?_
  · split
    · exact shrinks_safely (shrinks_access fun _ _ _ _ h => h)
    · exact .pure _
  · split
    · refine .bind (shrinks_safely ?_) fun _ => .pure _
      refine .bind shrinks_popTracked fun keyhits => ?_
      refine .bind shrinks_popTracked fun timestamps => ?_
      refine .bind shrinks_popTracked fun expirations => ?_
      exact .bind (shrinks_access fun _ _ _ _ h => h) fun _ =>
        shrinks_access fun _ _ _ _ h => get_pop h
    · exact .pure _

theorem lookup_value {v : R} (h : cfg.lookup env key s = (.ok (some v), t)) :
    s.cache.get s.now key = some v := by
  rcases ok_of_handle h with h | ⟨e, y, u, hk, -, hy⟩
  · obtain ⟨w, u, hw, hv⟩ := ok_of_bind h
    have hv : w.join = some v := Except.ok.inj (Prod.mk.inj hv).1
    obtain rfl : w = some (some v) := by
      cases w with
      | none => cases hv
      | some w => exact congrArg some hv
    rcases ok_of_handle hw with hw | ⟨e, y, u', hk, -, hy⟩
    · obtain ⟨w, u', hw, hv⟩ := ok_of_bind hw
      obtain rfl : w = some v := Option.some.inj (Except.ok.inj (Prod.mk.inj hv).1)
      obtain ⟨b, u₁, hb, hw⟩ := ok_of_bind hw
      split at hw
      · cases hw
      · have hcache : u₁.cache = s.cache := (congrArg (·.2.cache) hb).symm.trans read_cache
        have hnow : u₁.now = s.now :=
          (congrArg (·.2.now) hb).symm.trans (access_frame (s := s)).2.1
        have hget : some v = u₁.cache.get u₁.now key := access_value (congrArg Prod.fst hw)
        rw [hget, hcache, hnow]
    · cases e with
      | cancelled =>
        obtain rfl := Option.some.inj hk
        cases hy
      | store | typeError | hook | function _ => cases hk
  · dsimp only at hk
    split at hk
    · obtain rfl := Option.some.inj hk
      cases hy
    · cases hk

theorem retrieve_value {w : V} (h : cfg.retrieve env ck a key s = (.ok (some w), t)) :
    ∃ c, s.cache.get s.now key = some c ∧ cfg.decodeHit c a = some w := by
  unfold CachifyOptions.retrieve at h
  split at h
  · cases h
  · obtain ⟨v, u, hl, h⟩ := ok_of_bind h
    cases v with
    | none => cases h
    | some c =>
      refine ⟨c, lookup_value hl, ?_⟩
      dsimp only at h
      split at h
      · obtain ⟨-, u', -, h⟩ := ok_of_bind h
        exact Except.ok.inj (Prod.mk.inj h).1
      · exact Except.ok.inj (Prod.mk.inj h).1

theorem find_value {w : V} (h : cfg.find env saves ck a key s = (.ok (some w), t)) :
    ∃ c, s.cache.get s.now key = some c ∧ cfg.decodeHit c a = some w := by
  obtain ⟨_, u, hi, hr⟩ := ok_of_bind h
  obtain ⟨c, hc, hw⟩ := retrieve_value hr
  have hshrinks : Shrinks s (cfg.invalidateFirst env saves ck a key s).2 := shrinks_invalidateFirst s
  rw [hi] at hshrinks
  exact ⟨c, hshrinks key c hc, hw⟩

/-! ## Transparency -/

/-- What is added to the log by `x`. -/
def accesses {α : Type} (x : Call E K R α) (s : CallState K R) : List Access :=
  (x s).2.log.drop s.log.length

/-- The value of the function, or a cached value. -/
def CachifyOptions.Transparent (cfg : CachifyOptions A P E V R K) (s : CallState K R)
    (a : CallArgs A P) (v : Option V) : Except (Exc E) (Option V) → Prop
  | .ok w => w = v ∨ w.isSome ∧ ∃ c, s.cache.get s.now (cfg.key a) = some c ∧ cfg.decodeHit c a = w
  | .error _ => False

theorem safe_find {quiet : Exc E → Prop} (hs : ¬ quiet .store) (ht : ¬ quiet .typeError) :
    Safe cfg env quiet (cfg.find env saves ck a key : Call E K R (Option V)) :=
  .bind (safe_invalidateFirst hs) fun _ => safe_retrieve hs ht

/-- A search that raises has made a bad access to the store. -/
theorem find_error {e : Exc E} (h : cfg.find env saves ck a key s = (.error e, t)) :
    Frame s t ∧ ∃ as, t.log = s.log ++ as ∧
      ∃ x ∈ as, isBad cfg.isAsync env x = true ∧ x ≠ .hook false := by
  have hsafe : Safe cfg { env with hookRaises := fun _ => false } (fun _ => False)
      (cfg.find env saves ck a key) := safe_find (by simp) (by simp)
  obtain ⟨hframe, as, hlog, hbad⟩ := hsafe s
  rw [h] at hframe hlog hbad
  obtain ⟨x, hx, hb⟩ := hbad.2 ⟨e, rfl, not_false⟩
  refine ⟨hframe, as, hlog, x, hx, ?_⟩
  cases x with
  | store proc i => exact ⟨hb, by simp⟩
  | hook _ => cases hb

theorem find_ok {w : Option V} (h : cfg.find env saves ck a key s = (.ok w, t)) :
    Frame s t ∧ ∃ as, t.log = s.log ++ as ∧ ∀ x ∈ as, isBad cfg.isAsync env x = false := by
  have hsafe : Safe cfg env (fun _ => False) (cfg.find env saves ck a key) :=
    safe_find (by simp) (by simp)
  obtain ⟨hframe, as, hlog, hbad⟩ := hsafe s
  rw [h] at hframe hlog hbad
  exact ⟨hframe, as, hlog, by simpa using hbad⟩

variable (cfg env ck a key s) in
/-- `set` does not raise. -/
theorem set_ok (value : Option V) :
    ∃ t, cfg.set env ck a key value s = (.ok (), t) ∧ Frame s t ∧
      ∃ as, t.log = s.log ++ as ∧ ∀ x ∈ as, isBad cfg.isAsync env x = false := by
  have hsafe : Safe cfg env (fun _ => False) (cfg.set env ck a key value) := safe_set
  have hquiet : Safe cfg env (fun _ => True) (cfg.set env ck a key value) := safe_set
  obtain ⟨hframe, as, hlog, hbad⟩ := hsafe s
  obtain ⟨-, as', hlog', hbad'⟩ := hquiet s
  obtain rfl : as' = as := List.append_cancel_left (hlog'.symm.trans hlog)
  have hnone : ¬ ∃ x ∈ as', isBad cfg.isAsync env x = true := by simp [hbad']
  rcases h : cfg.set env ck a key value s with ⟨e | u, t⟩
  · exact absurd (hbad.2 ⟨e, by rw [h], not_false⟩) hnone
  · rw [h] at hframe hlog
    exact ⟨t, rfl, hframe, as', hlog, by simpa using hnone⟩

/-- `x` raises in the hook of a miss only. -/
def HookOnly (cfg : CachifyOptions A P E V R K) (env : CallEnv) (x : Call E K R Unit) : Prop :=
  ∀ s, ∃ r t, x s = (r, t) ∧ Frame s t ∧ ∃ as, t.log = s.log ++ as ∧
    (r = .ok () ∧ (∀ y ∈ as, isBad cfg.isAsync env y = false) ∨
      r = .error .hook ∧ .hook false ∈ as ∧ isBad cfg.isAsync env (.hook false) = true ∧
        ∀ y ∈ as, isBad cfg.isAsync env y = true → y = .hook false)

variable (cfg env) in
omit [DecidableEq K] in
theorem runPostCallHook_cases (isHit : Bool) (s : CallState K R) :
    cfg.runPostCallHook env isHit s = (.ok (), s) ∨
      cfg.runPostCallHook env isHit s =
        (if env.hookRaises isHit then .error .hook else .ok (),
          { s with log := s.log ++ [.hook isHit] }) := by
  unfold CachifyOptions.runPostCallHook
  split
  · exact .inr rfl
  · exact .inl rfl

omit [DecidableEq K] in
theorem hookOnly_pure : HookOnly cfg env (pure () : Call E K R Unit) := fun s =>
  ⟨_, s, rfl, Std.Refl.refl s, [], (List.append_nil _).symm, .inl ⟨rfl, by simp⟩⟩

variable (cfg env) in
omit [DecidableEq K] in
theorem hookOnly_runPostCallHook :
    HookOnly cfg env (cfg.runPostCallHook env false : Call E K R Unit) := by
  intro s
  rcases runPostCallHook_cases cfg env false s with h | h
  · rw [h]
    exact hookOnly_pure s
  · refine ⟨_, _, h, ⟨rfl, rfl, rfl⟩, [.hook false], rfl, ?_⟩
    cases hr : env.hookRaises false with
    | false => exact .inl ⟨rfl, by simp [isBad, hr]⟩
    | true => exact .inr ⟨rfl, by simp, hr, by simp⟩

theorem hookOnly_cacheValue {value : Option V} :
    HookOnly cfg env (cfg.cacheValue env ck a key value) := by
  intro s
  unfold CachifyOptions.cacheValue
  dsimp only
  split
  · obtain ⟨u, hset, hframe, as, hlog, hbad⟩ := set_ok cfg env ck a key s value
    obtain ⟨r, t, h, hframe', bs, hlog', hr⟩ := hookOnly_runPostCallHook cfg env u
    rw [bind_of_ok hset]
    refine ⟨r, t, h, IsTrans.trans _ _ _ hframe hframe', as ++ bs,
      by rw [hlog', hlog, List.append_assoc], ?_⟩
    rcases hr with ⟨hr, hbs⟩ | ⟨hr, hm, hraises, hbs⟩
    · refine .inl ⟨hr, fun y hy => ?_⟩
      rcases List.mem_append.1 hy with hy | hy
      · exact hbad y hy
      · exact hbs y hy
    · refine .inr ⟨hr, List.mem_append_right _ hm, hraises, fun y hy hb => ?_⟩
      rcases List.mem_append.1 hy with hy | hy
      · rw [hbad y hy] at hb
        cases hb
      · exact hbs y hy hb
  · exact hookOnly_runPostCallHook cfg env s

variable {run : CacheKwargs P → CallArgs A P → K → Option V → Call E K R Unit} {v : Option V}

omit [DecidableEq K] in
theorem execute_of_ok (hv : cfg.func s.executions a = .ok v) :
    cfg.execute a s = (.ok v, { s with executions := s.executions + 1 }) := by
  rw [CachifyOptions.execute, hv]
  rfl

variable (ck key) in
omit [DecidableEq K] in
/-- A miss returns the value, unless the hook raises. -/
theorem compute_cases (hrun : ∀ ck a key value, HookOnly cfg env (run ck a key value))
    (hv : cfg.func s.executions a = .ok v) :
    ∃ r t as, cfg.compute ck a run key s = (r, t) ∧ t.log = s.log ++ as ∧
      (r = .ok v ∧ (∀ y ∈ as, isBad cfg.isAsync env y = false) ∨
        r = (if cfg.raiseExceptions then .error .hook else .ok none) ∧ .hook false ∈ as ∧
          isBad cfg.isAsync env (.hook false) = true ∧
          ∀ y ∈ as, isBad cfg.isAsync env y = true → y = .hook false) := by
  obtain ⟨r, t, h, -, as, hlog, hr⟩ := hrun ck a key v { s with executions := s.executions + 1 }
  unfold CachifyOptions.compute
  rcases hr with ⟨rfl, hbad⟩ | ⟨rfl, hr⟩
  · refine ⟨.ok v, t, as, ?_, hlog, .inl ⟨rfl, hbad⟩⟩
    exact handle_of_ok ((bind_of_ok (execute_of_ok hv) _).trans (bind_of_ok h _)) _
  · refine ⟨_, t, as, ?_, hlog, .inr ⟨rfl, hr⟩⟩
    refine (handle_of_error ((bind_of_ok (execute_of_ok hv) _).trans (bind_of_error h _)) _).trans ?_
    show (ite _ _ _ : Call E K R (Option V)) t = _
    split <;> rfl

/-- The session is available when the call checks it. -/
def Available (env : CallEnv) (s : CallState K R) : Prop :=
  s.sessionAvailable.getD env.ping = true

instance : Decidable (Available env s) := inferInstanceAs (Decidable (_ = true))

/-- What the check leaves. -/
def checked (s : CallState K R) : CallState K R := { s with sessionAvailable := some true }

theorem callWith_of_available (h : Available env s) :
    cfg.callWith env saves a run s = cfg.callAvailable env saves a run (checked s) := by
  have hs : isSessionAvailable (E := E) env s = (.ok true, checked s) := by
    unfold isSessionAvailable
    rcases hsa : s.sessionAvailable with _ | b
    · have hping : env.ping = true := by simpa [Available, hsa] using h
      simp only [hping, if_true]
      rfl
    · obtain rfl : b = true := by simpa [Available, hsa] using h
      have hc : checked s = s := by rw [checked, ← hsa]
      rw [hc]
  rw [CachifyOptions.callWith, bind_of_ok hs]
  rfl

theorem callWith_of_not_available (h : ¬ Available env s) :
    cfg.callWith env saves a run s = cfg.callUnavailable env a s := by
  have hs : isSessionAvailable (E := E) env s = (.ok false, s) := by
    unfold isSessionAvailable
    rcases hsa : s.sessionAvailable with _ | b
    · have hping : env.ping = false := by simpa [Available, hsa] using h
      simp only [hping, Bool.false_eq_true, if_false]
    · obtain rfl : b = false := by simpa [Available, hsa] using h
      rfl
  rw [CachifyOptions.callWith, bind_of_ok hs]
  rfl

theorem callAvailable_of_disabled
    (h : cfg.shouldDisable (cfg.extractCacheKwargs a).1 (cfg.extractCacheKwargs a).2 = true) :
    cfg.callAvailable env saves a run s = cfg.execute (cfg.extractCacheKwargs a).2 s := by
  unfold CachifyOptions.callAvailable
  rcases hx : cfg.extractCacheKwargs a with ⟨ck, b⟩
  rw [hx] at h
  dsimp only at h ⊢
  rw [if_pos h]

omit [DecidableEq K] in
/-- The bad accesses come after the first part. -/
theorem forall_bad_append {as bs : List Access} {p : Access → Prop}
    (h : ∀ x ∈ as, isBad cfg.isAsync env x = false) :
    (∀ x ∈ as ++ bs, isBad cfg.isAsync env x = true → p x) ↔
      ∀ x ∈ bs, isBad cfg.isAsync env x = true → p x := by
  constructor
  · intro hall x hx hb
    exact hall x (List.mem_append_right _ hx) hb
  · intro hall x hx hb
    rcases List.mem_append.1 hx with hx | hx
    · rw [h x hx] at hb
      cases hb
    · exact hall x hx hb

theorem callAvailable_transparent_iff
    (hrun : ∀ ck a key value, HookOnly cfg env (run ck a key value))
    (hv : cfg.func s.executions (cfg.extractCacheKwargs a).2 = .ok v) :
    cfg.Transparent s (cfg.extractCacheKwargs a).2 v (cfg.callAvailable env saves a run s).1 ↔
      ∀ x ∈ accesses (cfg.callAvailable env saves a run) s, isBad cfg.isAsync env x = true →
        x = .hook false ∧ cfg.raiseExceptions = false ∧ v = none := by
  unfold CachifyOptions.callAvailable accesses
  rcases hx : cfg.extractCacheKwargs a with ⟨ck, b⟩
  rw [hx] at hv
  dsimp only at hv ⊢
  by_cases hd : cfg.shouldDisable ck b = true
  · rw [if_pos hd, execute_of_ok hv]
    simp [Transparent]
  rw [if_neg hd]
  rcases hf : cfg.find env saves ck b (cfg.key b) s with ⟨e | w, t⟩
  · obtain ⟨-, as, hlog, x, hx, hbad, hne⟩ := find_error hf
    rw [bind_of_error hf, hlog, List.drop_left]
    exact iff_of_false id fun hall => hne (hall x hx hbad).1
  obtain ⟨hframe, as, hlog, hbad⟩ := find_ok hf
  rw [bind_of_ok hf]
  cases w with
  | some w =>
    have hcached : cfg.Transparent s b v (.ok (some w) : Except (Exc E) (Option V)) :=
      .inr ⟨rfl, find_value hf⟩
    dsimp only
    rcases runPostCallHook_cases cfg env true t with h | h
    · rw [bind_of_ok h, pure_apply, hlog, List.drop_left]
      refine iff_of_true hcached fun x hx hb => ?_
      rw [hbad x hx] at hb
      cases hb
    · cases hr : env.hookRaises true with
      | false =>
        rw [hr] at h
        rw [bind_of_ok h, pure_apply]
        simp only [hlog, List.append_assoc, List.drop_left]
        exact iff_of_true hcached ((forall_bad_append hbad).2 (by simp [isBad, hr]))
      | true =>
        rw [hr] at h
        rw [bind_of_error h]
        simp only [hlog, List.append_assoc, List.drop_left]
        exact iff_of_false id fun hall => by simpa using (hall (.hook true) (by simp) hr).1
  | none =>
    obtain ⟨r, u, bs, h, hlog', hr⟩ :=
      compute_cases ck (cfg.key b) hrun (hframe.1 ▸ hv)
    dsimp only
    rw [h, hlog', hlog, List.append_assoc, List.drop_left, forall_bad_append hbad]
    rcases hr with ⟨rfl, hbs⟩ | ⟨rfl, hm, hraises, hbs⟩
    · refine iff_of_true (.inl rfl) fun x hx hb => ?_
      rw [hbs x hx] at hb
      cases hb
    · cases hre : cfg.raiseExceptions with
      | true => exact iff_of_false id fun hall => by simpa using (hall _ hm hraises).2.1
      | false =>
        constructor
        · intro hw x hx hb
          refine ⟨hbs x hx hb, rfl, ?_⟩
          rcases hw with hw | hw
          · exact hw.symm
          · cases hw.1
        · intro hall
          exact .inl (hall _ hm hraises).2.2.symm

variable (cfg env saves a) in
/-- Both wrappers call alike. -/
theorem wrapper_eq : ∃ run : CacheKwargs P → CallArgs A P → K → Option V → Call E K R Unit,
    (∀ ck a key value, HookOnly cfg env (run ck a key value)) ∧
      cfg.wrapper env saves a = cfg.callWith env saves a run := by
  unfold CachifyOptions.wrapper
  split
  · refine ⟨_, fun ck a key value => ?_, rfl⟩
    split
    · exact hookOnly_cacheValue
    · exact hookOnly_pure
  · exact ⟨_, fun ck a key value => hookOnly_cacheValue, rfl⟩

variable (cfg saves a) in
/-- What a call does with a store that is reached. -/
theorem wrapper_of_available (hs : Available env s) :
    ∃ run : CacheKwargs P → CallArgs A P → K → Option V → Call E K R Unit,
      (∀ ck a key value, HookOnly cfg env (run ck a key value)) ∧
        cfg.wrapper env saves a s = cfg.callAvailable env saves a run (checked s) := by
  obtain ⟨run, hrun, hw⟩ := wrapper_eq cfg env saves a
  exact ⟨run, hrun, by rw [hw, callWith_of_available hs]⟩

/-- The store fails only where an `except` stands, and no hook raises. -/
structure Handled (isAsync : Bool) (env : CallEnv) : Prop where
  store : ∀ proc i, ∀ f ∈ env.faults proc i, guarded proc i = true ∨
    f.isError = false ∧ (isAsync = true → readsNumKeys proc i = false)
  hook : ∀ isHit, env.hookRaises isHit = false

omit [DecidableEq K] in
theorem Handled.isBad (h : Handled cfg.isAsync env) (x : Access) :
    isBad cfg.isAsync env x = false := by
  cases x with
  | store proc i =>
    simp only [Cachify.isBad]
    cases hf : env.faults proc i with
    | none => exact Bool.and_false _
    | some f =>
      rcases h.store proc i f hf with hg | ⟨he, hn⟩
      · rw [hg]
        rfl
      · cases ha : cfg.isAsync with
        | false => simp [he]
        | true => simp [he, hn ha]
  | hook isHit => exact h.hook isHit

/-- Whatever the function, the call and the cache, such failures are not seen. -/
theorem transparent_of_handled (hs : Available env s)
    (hv : cfg.func s.executions (cfg.extractCacheKwargs a).2 = .ok v) (hh : Handled cfg.isAsync env) :
    cfg.Transparent s (cfg.extractCacheKwargs a).2 v (cfg.wrapper env saves a s).1 := by
  obtain ⟨run, hrun, hw⟩ := wrapper_of_available cfg saves a hs
  have hv' : cfg.func (checked s).executions (cfg.extractCacheKwargs a).2 = .ok v := hv
  rw [hw]
  refine (callAvailable_transparent_iff hrun hv').2 fun x _ hb => ?_
  rw [hh.isBad x] at hb
  cases hb

/-- **Where failures of the cache are seen**: if the function returns a value, the call returns it or
a cached one, unless an access to the store fails behind no handler or the hook raises. -/
theorem transparent_iff (hs : Available env s)
    (hv : cfg.func s.executions (cfg.extractCacheKwargs a).2 = .ok v) :
    cfg.Transparent s (cfg.extractCacheKwargs a).2 v (cfg.wrapper env saves a s).1 ↔
      ∀ x ∈ accesses (cfg.wrapper env saves a) s, isBad cfg.isAsync env x = true →
        x = .hook false ∧ cfg.raiseExceptions = false ∧ v = none := by
  obtain ⟨run, hrun, hw⟩ := wrapper_of_available cfg saves a hs
  have hv' : cfg.func (checked s).executions (cfg.extractCacheKwargs a).2 = .ok v := hv
  rw [accesses, hw]
  exact callAvailable_transparent_iff hrun hv'

/-! ## Executions -/

variable (cfg a s) in
omit [DecidableEq K] in
theorem execute_executions : (cfg.execute a s).2.executions = s.executions + 1 := rfl

omit [DecidableEq K] in
theorem compute_executions (hrun : ∀ ck a key value, HookOnly cfg env (run ck a key value)) :
    (cfg.compute ck a run key s).2.executions = s.executions + 1 := by
  let x : Call E K R (Option V) := do
    let value ← cfg.execute a
    run ck a key value
    return value
  have hx : (x s).2.executions = s.executions + 1 := by
    rcases hv : cfg.execute a s with ⟨e | value, t⟩
    · have hxs : x s = (.error e, t) := bind_of_error hv _
      rw [hxs, ← execute_executions cfg a s, hv]
    · obtain ⟨r, u, hr, hframe, -⟩ := hrun ck a key value t
      have ht : u.executions = s.executions + 1 := by
        rw [hframe.1, ← execute_executions cfg a s, hv]
      have hxs : x s = (run ck a key value >>= fun _ => pure value) t := bind_of_ok hv _
      rw [hxs]
      cases r with
      | error e => rw [bind_of_error hr, ht]
      | ok _ => rw [bind_of_ok hr, pure_apply, ht]
  show (x.handle _ s).2.executions = _
  rcases h : x s with ⟨e | value, t⟩
  · rw [h] at hx
    rw [handle_of_error h, ← hx]
    split
    · dsimp only [Option.getD_some]
      split <;> rfl
    · rfl
  · rw [handle_of_ok h, ← hx, h]

theorem callAvailable_executions
    (hrun : ∀ ck a key value, HookOnly cfg env (run ck a key value)) :
    (cfg.callAvailable env saves a run s).2.executions ≤ s.executions + 1 := by
  unfold CachifyOptions.callAvailable
  rcases cfg.extractCacheKwargs a with ⟨ck, b⟩
  dsimp only
  split
  · exact le_rfl
  rcases hf : cfg.find env saves ck b (cfg.key b) s with ⟨e | w, t⟩
  · obtain ⟨hframe, -⟩ := find_error hf
    rw [bind_of_error hf]
    exact hframe.1.le.trans (Nat.le_succ _)
  obtain ⟨hframe, -⟩ := find_ok hf
  rw [bind_of_ok hf]
  cases w with
  | none =>
    dsimp only
    rw [compute_executions hrun, hframe.1]
  | some w =>
    dsimp only
    rw [← hframe.1]
    rcases runPostCallHook_cases cfg env true t with h | h
    · rw [bind_of_ok h]
      exact Nat.le_succ _
    · cases hr : env.hookRaises true with
      | false =>
        rw [hr] at h
        rw [bind_of_ok h]
        exact Nat.le_succ _
      | true =>
        rw [hr] at h
        rw [bind_of_error h]
        exact Nat.le_succ _

variable (cfg env a s) in
omit [DecidableEq K] in
/-- Without a session the last execution is what the call comes to. -/
theorem callUnavailable_eq :
    ∃ n, cfg.callUnavailable env a s =
        ((cfg.func n a).mapError .function, { s with executions := n + 1 }) ∧
      s.executions ≤ n ∧
      (n ≤ s.executions ↔
        env.timedCacheCalls = false ∨ ∀ e, cfg.func s.executions a ≠ .error (.exception e)) := by
  unfold CachifyOptions.callUnavailable
  cases ht : env.timedCacheCalls with
  | false => exact ⟨s.executions, rfl, le_rfl, iff_of_true le_rfl (.inl rfl)⟩
  | true =>
    let x : Call E K R (Option (Option V)) := do return some (← cfg.execute a)
    let t : CallState K R := { s with executions := s.executions + 1 }
    have hx : ∀ r, cfg.func s.executions a = r →
        x s = ((r.mapError Exc.function).map some, t) := by
      intro r hr
      cases r with
      | ok v => exact bind_of_ok (execute_of_ok hr) _
      | error e =>
        have he : cfg.execute a s = (.error (.function e), t) := by
          rw [CachifyOptions.execute, hr]
          rfl
        exact bind_of_error he _
    cases hv : cfg.func s.executions a with
    | ok v =>
      refine ⟨s.executions, ?_, le_rfl, iff_of_true le_rfl (.inr (by simp))⟩
      rw [hv]
      exact bind_of_ok (handle_of_ok (hx _ hv) _) _
    | error e =>
      cases e with
      | exception e =>
        refine ⟨s.executions + 1, ?_, Nat.le_succ _, iff_of_false (by simp) (by simp)⟩
        have hnone : excepting x (fun _ => pure none) s = (.ok none, t) :=
          handle_of_error (hx _ hv) _
        exact bind_of_ok hnone _
      | baseException e =>
        refine ⟨s.executions, ?_, le_rfl, iff_of_true le_rfl (.inr (by simp))⟩
        rw [hv]
        exact bind_of_error (handle_of_error (hx _ hv) _) _

/-- **A call executes the function once at most**, except one without a session in which the first
execution raises an `Exception`. -/
theorem executions_iff :
    (cfg.wrapper env saves a s).2.executions ≤ s.executions + 1 ↔
      Available env s ∨ env.timedCacheCalls = false ∨
        ∀ e, cfg.func s.executions a ≠ .error (.exception e) := by
  obtain ⟨run, hrun, hw⟩ := wrapper_eq cfg env saves a
  rw [hw]
  by_cases hs : Available env s
  · rw [callWith_of_available hs]
    exact iff_of_true (callAvailable_executions hrun) (.inl hs)
  · obtain ⟨n, h, -, hn⟩ := callUnavailable_eq cfg env a s
    rw [callWith_of_not_available hs, h, or_iff_right hs, ← hn]
    exact Nat.add_le_add_iff_right

/-! ## Disabled calls -/

/-- A call and its time. -/
structure CallEv (A P : Type) where
  args : CallArgs A P
  env : CallEnv := {}
  wait : ℚ := 0

variable (cfg saves) in
def callMachine : Machine (CallState K R) (CallEv A P) where
  init := {}
  step s e := some (cfg.wrapper e.env saves e.args { s with now := s.now + e.wait }).2

variable (cfg) in
/-- The callable returns `True`, or the first of the keywords that is given is `True`; without a
session, no keyword of the cache is given. -/
def Off (s : CallState K R) (e : CallEv A P) : Prop :=
  if Available e.env s then
    KwArg.isTrue (popFirst cfg.disabledKws e.args.kwargs).1 = true ∨
      ∃ f, cfg.disabled = some (.inr f) ∧ f (cfg.extractCacheKwargs e.args).2 = true
  else (cfg.extractCacheKwargs e.args).2 = e.args

variable (cfg saves) in
/-- The call comes to what the function does with its arguments, and does not touch the cache. -/
def Bypassed (s : CallState K R) (e : CallEv A P) : Prop :=
  ∃ r t n, cfg.wrapper e.env saves e.args { s with now := s.now + e.wait } = (r, t) ∧
    r = (cfg.func n (cfg.extractCacheKwargs e.args).2).mapError .function ∧
    s.executions ≤ n ∧ t.executions = n + 1 ∧ t.cache = s.cache ∧ t.log = s.log

omit [DecidableEq K] in
theorem shouldDisable_iff {b : CallArgs A P} :
    cfg.shouldDisable ck b = true ↔
      KwArg.isTrue ck.disabled = true ∨ ∃ f, cfg.disabled = some (.inr f) ∧ f b = true := by
  unfold CachifyOptions.shouldDisable
  cases hk : KwArg.isTrue ck.disabled with
  | true => simp
  | false =>
    rcases hd : cfg.disabled with _ | b | f <;> simp

theorem bypassed_of_off {e : CallEv A P} (h : Off cfg s e) : Bypassed cfg saves s e := by
  obtain ⟨run, hrun, hw⟩ := wrapper_eq cfg e.env saves e.args
  obtain ⟨t, ht⟩ : ∃ t : CallState K R, t = { s with now := s.now + e.wait } := ⟨_, rfl⟩
  unfold Bypassed Off at *
  rw [hw, ← ht]
  by_cases hs : Available e.env s
  · have hst : Available e.env t := by rw [ht]; exact hs
    rw [if_pos hs] at h
    have hd : cfg.shouldDisable (cfg.extractCacheKwargs e.args).1
        (cfg.extractCacheKwargs e.args).2 = true := shouldDisable_iff.2 h
    refine ⟨_, _, t.executions,
      (callWith_of_available hst).trans (callAvailable_of_disabled hd), rfl, ?_⟩
    subst ht
    exact ⟨le_rfl, rfl, rfl, rfl⟩
  · have hst : ¬ Available e.env t := by rw [ht]; exact hs
    rw [if_neg hs] at h
    obtain ⟨n, hn, hle, -⟩ := callUnavailable_eq cfg e.env e.args t
    refine ⟨_, _, n, (callWith_of_not_available hst).trans hn, by rw [h], ?_⟩
    subst ht
    exact ⟨hle, rfl, rfl, rfl⟩

/-- Calls that bypass the cache leave it as it was. -/
theorem cache_of_bypassed {es : List (CallEv A P)}
    (h : (callMachine cfg saves).Run (Bypassed cfg saves) s es t) :
    t.cache = s.cache ∧ t.log = s.log := by
  refine h.inv (fun t => t.cache = s.cache ∧ t.log = s.log) ⟨rfl, rfl⟩ ?_
  intro t e u hI hc hs
  obtain ⟨r, t', n, hcall, -, -, -, hcache, hlog⟩ := hc
  obtain rfl : t' = u := by
    have hstep := Option.some.inj hs
    rwa [hcall] at hstep
  exact ⟨hcache.trans hI.1, hlog.trans hI.2⟩

/-- **A disabled cache is bypassed** in the runs of calls that are `Off`. -/
theorem run_bypassed {es : List (CallEv A P)}
    (h : (callMachine cfg saves).Run (Off cfg) s es t) :
    (callMachine cfg saves).Run (Bypassed cfg saves) s es t ∧ t.cache = s.cache ∧ t.log = s.log := by
  have hb : (callMachine cfg saves).Run (Bypassed cfg saves) s es t :=
    h.mono fun _ _ => bypassed_of_off
  exact ⟨hb, cache_of_bypassed hb⟩

/-! ## Calls on fixed inputs -/

/-- The n-th execution returns `n`. -/
def counting : CachifyOptions Unit Unit Unit ℕ ℕ ℕ where
  func n _ := .ok (some n)
  key _ := 0
  encodeHit v _ := v
  decodeHit r _ := some r

def saveAll (β : Type) (_ _ : Dict ℕ β) : Bool := true

/-- The value of the only key is cached. -/
def cachedCall : CallState ℕ ℕ where
  cache := { values := Dict.setItem {} 0 (7, none) }

theorem transparent_counting :
    counting.Transparent cachedCall (counting.extractCacheKwargs { args := () }).2 (some 0)
      (counting.wrapper {} saveAll { args := () } cachedCall).1 := by
  refine (transparent_iff (by decide) rfl).2 fun x _ hb => ?_
  cases x <;> simp [isBad] at hb

/-- The store fails while a hit is counted; the hook fails after a miss. -/
theorem transparent_broken :
    ¬ counting.Transparent cachedCall { args := () } (some 0)
        (counting.wrapper
          { faults := fun p i => if p = .addHit ∧ i = 0 then some (.error false) else none }
          saveAll { args := () } cachedCall).1 ∧
      ¬ counting.Transparent {} { args := () } (some 0)
        ({ counting with postCallHook := true }.wrapper { hookRaises := fun _ => true } saveAll
          { args := () } {}).1 ∧
      ({ counting with postCallHook := true, raiseExceptions := false }.wrapper
          { hookRaises := fun _ => true } saveAll { args := () } {}).1 = .ok none :=
  ⟨id, id, rfl⟩

theorem executions_broken :
    ({ counting with func := fun _ _ => .error (.exception ()) }.wrapper { ping := false } saveAll
      { args := () } {}).2.executions = 2 := rfl

/-- A callable that returns `True`, and the boolean. -/
def switchedOff : CachifyOptions Unit Unit Unit ℕ ℕ ℕ :=
  { counting with disabled := some (.inr fun _ => true) }

def disabledTrue : CachifyOptions Unit Unit Unit ℕ ℕ ℕ :=
  { counting with disabled := some (.inl true) }

theorem run_bypassed_switchedOff :
    ∃ t, (callMachine switchedOff saveAll).Run (Bypassed switchedOff saveAll) {}
        [{ args := { args := () } }] t ∧
      t.cache = ({} : CallState ℕ ℕ).cache ∧ t.log = ({} : CallState ℕ ℕ).log :=
  ⟨_, run_bypassed (.single (by exact .inr ⟨_, rfl, rfl⟩) rfl)⟩

theorem run_bypassed_broken :
    ∃ t, (callMachine disabledTrue saveAll).Run Machine.Any {}
        [{ args := { args := () } }, { args := { args := () } }] t ∧
      (t.executions = 1 ∧ t.cache.values.items = [(0, 0, none)]) ∧
      ¬ (callMachine disabledTrue saveAll).Run (Bypassed disabledTrue saveAll) {}
        [{ args := { args := () } }, { args := { args := () } }] t := by
  have h : ∃ t, (callMachine disabledTrue saveAll).Run Machine.Any {}
        [{ args := { args := () } }, { args := { args := () } }] t ∧
      (t.executions = 1 ∧ t.cache.values.items = [(0, 0, none)]) :=
    Machine.exists_run (by decide +kernel) (by decide +kernel)
  obtain ⟨t, hr, ht⟩ := h
  refine ⟨t, hr, ht, fun hb => ?_⟩
  rw [(cache_of_bypassed hb).1] at ht
  exact absurd ht.2 (by simp)

end Kvdb.Cachify
