import Kvdb.Io.CachifyWrapper

/-!
# What the parts of a call raise

`isBad`: the access is behind no handler, and it fails; for the two reads of the number of keys in the
asynchronous policy check it is enough that their time ends, as they then give `None`. Each part of a
call accounts for its exceptions by its bad accesses (`Safe`), up to those that its callers handle
(`quiet`), and runs no function (`Frame`).
-/

namespace Kvdb.Cachify

open Lib Lib.Program Python CachifyOptions

variable {A P E V R K : Type}

/-! ## Bad accesses -/

/-- An `except Exception` handles the errors of the access. -/
def guarded : Proc → ℕ → Bool
  | .retrieve, _ | .set, _ | .addHit, 2 | .addHit, 3 => true
  | _, _ => false

/-- The access reads the number of keys. -/
def readsNumKeys : Proc → ℕ → Bool
  | .checkCachePolicies, 0 | .checkCachePolicies, 1 => true
  | _, _ => false

def Fault.isError : Fault → Bool
  | .error _ => true
  | .timeout _ => false

def isBad (isAsync : Bool) (env : CallEnv) : Access → Bool
  | .store proc i =>
    !guarded proc i &&
      (env.faults proc i).any fun f => f.isError || isAsync && readsNumKeys proc i
  | .hook isHit => env.hookRaises isHit

/-- The parts of a call do not change these. -/
def Frame (s t : CallState K R) : Prop :=
  t.executions = s.executions ∧ t.now = s.now ∧ t.sessionAvailable = s.sessionAvailable

instance : Std.Refl (Frame : CallState K R → CallState K R → Prop) where
  refl _ := ⟨rfl, rfl, rfl⟩

instance : IsTrans (CallState K R) Frame where
  trans _ _ _ h h' := ⟨h'.1.trans h.1, h'.2.1.trans h.2.1, h'.2.2.trans h.2.2⟩

variable (cfg : CachifyOptions A P E V R K) (env : CallEnv) {α : Type}

section

variable {cfg env} {proc : Proc} {i : ℕ} {awaited : Bool} {f : ℚ → Cachify K R → α × Cachify K R}
  {s : CallState K R}

theorem access_frame : Frame s (cfg.access env proc i awaited f s).2 := by
  unfold CachifyOptions.access Frame
  dsimp only
  split <;> (try split) <;> (try split) <;> exact ⟨rfl, rfl, rfl⟩

theorem access_log :
    (cfg.access env proc i awaited f s).2.log = s.log ++ [.store proc i] := by
  unfold CachifyOptions.access
  dsimp only
  split <;> (try split) <;> (try split) <;> rfl

theorem access_raises {e : Exc E} :
    (cfg.access env proc i awaited f s).1 = .error e ↔
      e = .store ∧ (env.faults proc i).any Fault.isError = true ∨
        e = .cancelled ∧ awaited = true ∧ cfg.isAsync = true ∧
          (env.faults proc i).any (fun f => !f.isError) = true := by
  unfold CachifyOptions.access
  rcases env.faults proc i with _ | done | done
  · simp
  · simp only [Except.error.injEq, Option.any_some, Fault.isError, and_true, Bool.not_true,
      Bool.false_eq_true, and_false, or_false]
    exact eq_comm
  · dsimp only
    split
    · rename_i h
      rw [Bool.and_eq_true] at h
      simp only [Except.error.injEq, Option.any_some, Fault.isError, h, Bool.not_false, and_true,
        Bool.false_eq_true, and_false, false_or]
      exact eq_comm
    · rename_i h
      rw [Bool.and_eq_true] at h
      simp only [Fault.isError, reduceCtorEq, Option.any_some, Bool.false_eq_true, and_false,
        Bool.not_false, and_true, false_or, false_iff]
      exact fun ha => h ha.2

theorem access_cache :
    (cfg.access env proc i awaited f s).2.cache = s.cache ∨
      (cfg.access env proc i awaited f s).2.cache = (f s.now s.cache).2 := by
  unfold CachifyOptions.access
  dsimp only
  split <;> (try split) <;> (try split) <;> first | exact .inl rfl | exact .inr rfl

theorem read_cache {f : ℚ → Cachify K R → α} :
    (cfg.read env proc i awaited f s).2.cache = s.cache := by
  rcases access_cache (s := s) with h | h <;> exact h

theorem access_value {r : α} (h : (cfg.access env proc i awaited f s).1 = .ok r) :
    r = (f s.now s.cache).1 := by
  unfold CachifyOptions.access at h
  dsimp only at h
  split at h <;> (try split at h) <;> first | exact (Except.ok.inj h).symm | cases h

end

/-- `x` accounts for what it raises. -/
def Safe (quiet : Exc E → Prop) (x : Call E K R α) : Prop :=
  Accounts Frame CallState.log (fun y => isBad cfg.isAsync env y = true) quiet x

namespace Safe

variable {cfg env} {quiet : Exc E → Prop} {β : Type} {x : Call E K R α}

theorem pure (a : α) : Safe cfg env quiet (pure a : Call E K R α) := Accounts.pure a

theorem raise {e : Exc E} (h : quiet e) : Safe cfg env quiet (Program.raise e : Call E K R α) :=
  Accounts.raise h

theorem bind {f : α → Call E K R β} (hx : Safe cfg env quiet x)
    (hf : ∀ a, Safe cfg env quiet (f a)) : Safe cfg env quiet (x >>= f) :=
  Accounts.bind hx hf

theorem ite {c : Prop} [Decidable c] {y : Call E K R α} (hx : Safe cfg env quiet x)
    (hy : Safe cfg env quiet y) : Safe cfg env quiet (if c then x else y) := by
  split <;> assumption

theorem safely (hx : Safe cfg env (fun e => e = .cancelled ∨ quiet e) x) :
    Safe cfg env quiet (CachifyOptions.safely x) := by
  refine Accounts.handle (Accounts.bind hx fun a => Accounts.pure (some a)) ?_ ?_
  · intro e y h
    cases e with
    | cancelled =>
      obtain rfl := Option.some.inj h
      exact ⟨.inl rfl, Accounts.pure none⟩
    | store | typeError | hook | function _ => cases h
  · intro e h
    cases e with
    | cancelled => cases h
    | store | typeError | hook | function _ => simp

theorem excepting {h : Exc E → Call E K R α}
    (hx : Safe cfg env (fun e => e.isException = true ∨ quiet e) x)
    (hh : ∀ e, Safe cfg env quiet (h e)) : Safe cfg env quiet (CachifyOptions.excepting x h) := by
  refine Accounts.handle hx ?_ ?_
  · intro e y hy
    split at hy
    · rename_i he
      obtain rfl := Option.some.inj hy
      exact ⟨.inl he, hh e⟩
    · cases hy
  · intro e he
    split at he
    · cases he
    · rename_i hne
      simp [hne]

/-- An access that is behind no handler. -/
theorem access {proc : Proc} {i : ℕ} {awaited : Bool} {f : ℚ → Cachify K R → α × Cachify K R}
    (hg : guarded proc i = false) (hn : readsNumKeys proc i = false)
    (hc : awaited = true → quiet .cancelled) (hs : ¬ quiet .store) :
    Safe cfg env quiet (cfg.access env proc i awaited f) := by
  intro s
  refine ⟨access_frame, [.store proc i], access_log, ?_⟩
  simp only [access_raises, List.mem_singleton, exists_eq_left, isBad, hg, hn]
  constructor
  · intro h
    exact ⟨.store, .inl ⟨rfl, by simpa using h⟩, hs⟩
  · intro h
    obtain ⟨e, ⟨-, he⟩ | ⟨rfl, ha, -⟩, hq⟩ := h
    · simpa using he
    · exact absurd (hc ha) hq

/-- An access whose errors are handled. -/
theorem guardedAccess {proc : Proc} {i : ℕ} {awaited : Bool}
    {f : ℚ → Cachify K R → α × Cachify K R} (hg : guarded proc i = true)
    (hc : awaited = true → quiet .cancelled) (hs : quiet .store) :
    Safe cfg env quiet (cfg.access env proc i awaited f) := by
  intro s
  refine ⟨access_frame, [.store proc i], access_log, ?_⟩
  simp only [access_raises, List.mem_singleton, exists_eq_left, isBad, hg]
  constructor
  · intro h
    simp at h
  · intro h
    obtain ⟨e, ⟨rfl, -⟩ | ⟨rfl, ha, -⟩, hq⟩ := h
    · exact absurd hs hq
    · exact absurd (hc ha) hq

end Safe

/-! ## The parts of a call -/

section

variable {cfg env} {quiet : Exc E → Prop} {key : K} (hs : ¬ quiet .store)

include hs

theorem store_not_quiet : ¬ ((Exc.store : Exc E) = .cancelled ∨ quiet .store) := by simpa using hs

/-- An access within the time. -/
theorem safe_awaited {proc : Proc} {i : ℕ} {awaited : Bool} {f : ℚ → Cachify K R → α × Cachify K R}
    (hg : guarded proc i = false) (hn : readsNumKeys proc i = false) :
    Safe cfg env (fun e => e = .cancelled ∨ quiet e) (cfg.access env proc i awaited f) :=
  .access hg hn (fun _ => .inl rfl) (store_not_quiet hs)

theorem safe_incrementHits :
    Safe cfg env (fun e => e = .cancelled ∨ quiet e) (cfg.incrementHits env : Call E K R Unit) := by
  unfold CachifyOptions.incrementHits
  refine .excepting ?_ fun _ => safe_awaited hs rfl rfl
  refine .bind (.guardedAccess rfl (by simp) (.inl rfl)) fun hits => ?_
  cases hits with
  | some hits => exact .guardedAccess rfl (by simp) (.inl rfl)
  | none => exact .raise (.inl rfl)

theorem safe_addHit : Safe cfg env quiet (cfg.addHit env : Call E K R Unit) := by
  unfold CachifyOptions.addHit
  refine .bind (.safely ?_) fun _ => .pure _
  refine .bind (safe_awaited hs rfl rfl) fun _ => ?_
  dsimp only
  exact .ite (.bind (safe_awaited hs rfl rfl) fun _ => safe_incrementHits hs) (safe_incrementHits hs)

/-- The end of the time is an error in the asynchronous variant. -/
theorem safe_numKeys {i : ℕ} (hi : readsNumKeys .checkCachePolicies i = true)
    (ht : ¬ quiet .typeError) :
    Safe cfg env quiet (cfg.numKeys env i : Call E K R ℕ) := by
  intro s
  let x : Call E K R ℕ := cfg.read env .checkCachePolicies i true fun _ s => s.numKeys
  have hframe : Frame s (x s).2 := access_frame
  have hlog : (x s).2.log = s.log ++ [.store .checkCachePolicies i] := access_log
  have hraises : ∀ e, (x s).1 = .error e ↔ _ := fun _ => access_raises
  have hread : isBad cfg.isAsync env (.store .checkCachePolicies i) =
      (env.faults .checkCachePolicies i).any fun f => f.isError || cfg.isAsync := by
    simp [isBad, guarded, hi]
  rcases h : x s with ⟨e | n, t⟩
  · rw [h] at hframe hlog
    rcases (hraises e).1 (by rw [h]) with ⟨rfl, hf⟩ | ⟨rfl, -, ha, hf⟩
    · have hx : safely x s = (.error .store, t) := handle_of_error (bind_of_error h _) _
      have hn : cfg.numKeys env i s = (.error .store, t) := bind_of_error hx _
      rw [hn]
      refine ⟨hframe, _, hlog, ?_⟩
      have hbad : isBad cfg.isAsync env (.store .checkCachePolicies i) = true := by
        obtain ⟨f, hf, he⟩ := (Option.any_eq_true _ _).1 hf
        simp [hread, hf, he]
      simpa [hbad] using hs
    · have hx : safely x s = (.ok none, t) := handle_of_error (bind_of_error h _) _
      have hn : cfg.numKeys env i s = (.error .typeError, t) := bind_of_ok hx _
      rw [hn]
      refine ⟨hframe, _, hlog, ?_⟩
      have hbad : isBad cfg.isAsync env (.store .checkCachePolicies i) = true := by
        obtain ⟨f, hf, -⟩ := (Option.any_eq_true _ _).1 hf
        rw [hread, hf]
        simp [ha]
      simpa [hbad] using ht
  · have hok := hraises
    rw [h] at hframe hlog hok
    have hx : safely x s = (.ok (some n), t) := handle_of_ok (bind_of_ok h _) _
    have hn : cfg.numKeys env i s = (.ok n, t) := bind_of_ok hx _
    rw [hn]
    refine ⟨hframe, _, hlog, ?_⟩
    have hbad : isBad cfg.isAsync env (.store .checkCachePolicies i) = false := by
      have hstore := mt (hok .store).2 (by simp)
      have hcancelled := mt (hok .cancelled).2 (by simp)
      rw [hread]
      cases hf : env.faults .checkCachePolicies i with
      | none => rfl
      | some f =>
        simp only [hf, Option.any_some, true_and, reduceCtorEq, false_and, or_false,
          false_or] at hstore hcancelled
        simpa [hstore] using hcancelled
    simp [hbad]

variable [DecidableEq K]

theorem safe_expireCacheExpiredKeys :
    Safe cfg env quiet (cfg.expireCacheExpiredKeys env : Call E K R Unit) := by
  unfold CachifyOptions.expireCacheExpiredKeys
  refine .bind (.safely ?_) fun _ => .pure _
  refine .bind (safe_awaited hs rfl rfl) fun _ => ?_
  refine .ite ?_ (.pure _)
  refine .bind (safe_awaited hs rfl rfl) fun keyhits => ?_
  refine .bind (safe_awaited hs rfl rfl) fun timestamps => ?_
  refine .bind (safe_awaited hs rfl rfl) fun _ => ?_
  refine .bind (safe_awaited hs rfl rfl) fun _ => ?_
  refine .bind (safe_awaited hs rfl rfl) fun _ => ?_
  exact safe_awaited hs rfl rfl

theorem safe_addKeyHit : Safe cfg env quiet (cfg.addKeyHit env key : Call E K R Unit) := by
  unfold CachifyOptions.addKeyHit
  refine .bind (.safely ?_) fun _ => .pure _
  exact .bind (safe_awaited hs rfl rfl) fun _ => safe_awaited hs rfl rfl

theorem safe_addKeyTimestamp :
    Safe cfg env quiet (cfg.addKeyTimestamp env key : Call E K R Unit) := by
  unfold CachifyOptions.addKeyTimestamp
  refine .bind (.safely ?_) fun _ => .pure _
  exact .bind (safe_awaited hs rfl rfl) fun _ => safe_awaited hs rfl rfl

theorem safe_checkCachePolicies (ht : ¬ quiet .typeError) {n : ℕ} :
    Safe cfg env quiet (cfg.checkCachePolicies env key n : Call E K R Unit) := by
  unfold CachifyOptions.checkCachePolicies
  refine .bind (safe_numKeys hs rfl ht) fun _ => .ite (.pure _) ?_
  refine .bind (safe_numKeys hs rfl ht) fun numKeys => ?_
  refine .bind (.access rfl rfl (by simp) hs) fun ranked => ?_
  refine .ite (.access rfl rfl (by simp) hs) ?_
  exact .bind (.access rfl rfl (by simp) hs) fun _ => .access rfl rfl (by simp) hs

theorem safe_validateCachePolicies (ht : ¬ quiet .typeError) :
    Safe cfg env quiet (cfg.validateCachePolicies env key : Call E K R Unit) := by
  unfold CachifyOptions.validateCachePolicies
  refine .bind (safe_addHit hs) fun _ => .bind (safe_expireCacheExpiredKeys hs) fun _ => ?_
  split
  · refine .ite ?_ ?_
    · exact .bind (safe_addKeyTimestamp hs) fun _ =>
        .bind (safe_addKeyHit hs) fun _ => safe_checkCachePolicies hs ht
    · exact .bind (safe_addKeyHit hs) fun _ =>
        .bind (safe_addKeyTimestamp hs) fun _ => safe_checkCachePolicies hs ht
  · exact .pure _

theorem safe_popTracked {β : Type} {i : ℕ} {f : CacheData K → Dict K β} :
    Safe cfg env quiet (cfg.popTracked env i key f : Call E K R (Option (Dict K β))) := by
  unfold CachifyOptions.popTracked
  refine .bind (.access rfl rfl (by simp) hs) fun _ => .ite ?_ (.pure _)
  exact .bind (.access rfl rfl (by simp) hs) fun _ => .pure _

theorem safe_invalidateCache {saves : ∀ β, Dict K β → Dict K β → Bool} :
    Safe cfg env quiet (cfg.invalidateCache env saves key : Call E K R Unit) := by
  unfold CachifyOptions.invalidateCache
  refine .bind (.safely ?_) fun _ => .pure _
  have hs' := store_not_quiet hs
  refine .bind (safe_popTracked hs') fun keyhits => ?_
  refine .bind (safe_popTracked hs') fun timestamps => ?_
  refine .bind (safe_popTracked hs') fun expirations => ?_
  exact .bind (safe_awaited hs rfl rfl) fun _ => safe_awaited hs rfl rfl

theorem safe_invalidateFirst {saves : ∀ β, Dict K β → Dict K β → Bool} {ck : CacheKwargs P}
    {a : CallArgs A P} :
    Safe cfg env quiet (cfg.invalidateFirst env saves ck a key : Call E K R Unit) := by
  unfold CachifyOptions.invalidateFirst CachifyOptions.numHits
  refine .bind (.ite (.safely (safe_awaited hs rfl rfl)) (.pure _)) fun hits => ?_
  exact .ite (safe_invalidateCache hs) (.pure _)

omit hs in
theorem safe_lookup : Safe cfg env quiet (cfg.lookup env key : Call E K R (Option R)) := by
  unfold CachifyOptions.lookup
  refine .excepting (.bind (.safely ?_) fun _ => .pure _) fun _ => .pure _
  refine .bind (.guardedAccess rfl (fun _ => .inl rfl) (.inr (.inl rfl))) fun _ => ?_
  exact .ite (.pure _) (.guardedAccess rfl (fun _ => .inl rfl) (.inr (.inl rfl)))

theorem safe_retrieve (ht : ¬ quiet .typeError) {ck : CacheKwargs P} {a : CallArgs A P} :
    Safe cfg env quiet (cfg.retrieve env ck a key : Call E K R (Option V)) := by
  unfold CachifyOptions.retrieve
  refine .ite (.pure _) (.bind safe_lookup fun value => ?_)
  cases value with
  | none => exact .pure _
  | some value =>
    exact .ite (.bind (safe_validateCachePolicies hs ht) fun _ => .pure _) (.pure _)

omit hs in
theorem safe_set {ck : CacheKwargs P} {a : CallArgs A P} {value : Option V} :
    Safe cfg env quiet (cfg.set env ck a key value : Call E K R Unit) := by
  unfold CachifyOptions.set CachifyOptions.addKeyExpiration
  refine .excepting (.bind (.safely ?_) fun _ => .pure _) fun _ => .pure _
  split
  · refine .bind (.guardedAccess rfl (fun _ => .inl rfl) (.inr (.inl rfl))) fun _ => ?_
    split
    · exact .raise (.inr (.inl rfl))
    · split
      · exact .pure _
      · refine .bind (.safely (.ite ?_ ?_)) fun _ => .pure _
        · exact .bind (.guardedAccess rfl (fun _ => .inl rfl) (.inr (.inr (.inl rfl)))) fun _ =>
            .guardedAccess rfl (fun _ => .inl rfl) (.inr (.inr (.inl rfl)))
        · exact .guardedAccess rfl (fun _ => .inl rfl) (.inr (.inr (.inl rfl)))
  · exact .raise (.inr (.inl rfl))

end

end Kvdb.Cachify
