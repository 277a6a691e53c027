import Kvdb.Components.CloseLocks

/-!
# Closing locks: which releases end

`LockObject.Opens`: the release of a lock does not raise. A `Lock` only needs the attribute; for an
`AsyncLock` without a token `release` returns `False`, which cannot be awaited.
`LockSession.closeLoop_eq` is what the loop leaves if nothing is raised, the same for both variants,
and `closeLoop_quiet` says when that is.
-/

namespace Kvdb

variable {Th τ : Type}

/-! ## One release -/

namespace LockObject

/-- The release without errors ends. -/
def Opens (me : Th) (lock : LockObject Th τ) : Python.Variant → Prop
  | .sync => lock.local.read me ≠ none
  | .async => ∃ token, lock.local.read me = some (some token)

/-- The release deletes the key with this value. -/
def Deletes (me : Th) (force : Option Bool) (lock : LockObject Th τ) (value : Option τ) : Prop :=
  lock.forced force = true ∨ lock.local.read me = some value

instance [DecidableEq τ] (me : Th) (force : Option Bool) (lock : LockObject Th τ)
    (value : Option τ) : Decidable (lock.Deletes me force value) :=
  inferInstanceAs (Decidable (_ ∨ _))

theorem opens_of_async {me : Th} {lock : LockObject Th τ} (h : lock.Opens me .async)
    (v : Python.Variant) : lock.Opens me v := by
  obtain ⟨token, htoken⟩ := h
  cases v with
  | sync => simp [Opens, htoken]
  | async => exact ⟨token, htoken⟩

end LockObject

variable [DecidableEq τ]

/-- The values after the release of one lock. -/
def afterRelease (me : Th) (force : Option Bool) (lock : LockObject Th τ) (name : String)
    (stored : LockStore τ) : LockStore τ :=
  Function.update stored name (if lock.Deletes me force (stored name) then none else stored name)

section

variable (me : Th) (name : String) (force : Option Bool) {lock : LockObject Th τ}
  (stored : LockStore τ)

theorem afterRelease_of_forced (h : lock.forced force = true) :
    afterRelease me force lock name stored = Function.update stored name none := by
  rw [afterRelease, if_pos (.inl h)]

theorem afterRelease_of_eq (h : lock.local.read me = some (stored name)) :
    afterRelease me force lock name stored = Function.update stored name none := by
  rw [afterRelease, if_pos (.inr h)]

/-- Without a token there is nothing to delete. -/
theorem afterRelease_of_unlocked (h : lock.local.read me = some none)
    (hf : lock.forced force = false) : afterRelease me force lock name stored = stored := by
  rw [afterRelease]
  split
  · rename_i hd
    have hs : some none = some (stored name) := h.symm.trans (hd.resolve_left (by simp [hf]))
    rw [Option.some.inj hs, Function.update_eq_self]
  · exact Function.update_eq_self name stored

/-- The key has another value. -/
theorem afterRelease_of_ne {token : τ} (h : lock.local.read me = some (some token))
    (hs : stored name ≠ some token) (hf : lock.forced force = false) :
    afterRelease me force lock name stored = stored := by
  have hd : ¬ lock.Deletes me force (stored name) := by
    rintro (hd | hd)
    · rw [hf] at hd
      cases hd
    · exact hs (Option.some.inj (hd.symm.trans h))
  rw [afterRelease, if_neg hd, Function.update_eq_self]

section

variable [DecidableEq Th]

theorem lockRelease_spec (h : lock.Opens me .sync) :
    (lockRelease me name force false lock stored).2.1 = afterRelease me force lock name stored ∧
      ∃ result, (lockRelease me name force false lock stored).2.2 = .ok result := by
  obtain ⟨token, htoken⟩ := Option.ne_none_iff_exists'.1 h
  cases token with
  | none =>
    cases hf : lock.forced force with
    | true => simp [lockRelease, superRelease, htoken, hf, afterRelease_of_forced]
    | false => simp [lockRelease, superRelease, htoken, hf, afterRelease_of_unlocked]
  | some token =>
    by_cases hs : stored name = some token
    · simp [lockRelease, superRelease, htoken, luaRelease, hs, afterRelease_of_eq]
    · cases hf : lock.forced force with
      | true => simp [lockRelease, superRelease, htoken, luaRelease, hs, hf, afterRelease_of_forced]
      | false =>
        simp [lockRelease, superRelease, htoken, luaRelease, hs, hf,
          afterRelease_of_ne me name force stored htoken hs hf]

end

theorem doRelease_spec {token : τ} (htoken : lock.local.read me = some (some token))
    {lock' : LockObject Th τ} (hforce : lock'.forced force = lock.forced force) :
    (doRelease name force false token lock' stored).2.1 = afterRelease me force lock name stored ∧
      ∃ result, (doRelease name force false token lock' stored).2.2 = .ok result := by
  by_cases hs : stored name = some token
  · simp [doRelease, htoken, luaRelease, hs, afterRelease_of_eq]
  · cases hf : lock.forced force with
    | true => simp [doRelease, luaRelease, hs, hforce, hf, afterRelease_of_forced]
    | false =>
      simp [doRelease, luaRelease, hs, hforce, hf,
        afterRelease_of_ne me name force stored htoken hs hf]

variable [DecidableEq Th]

/-- A release that ends leaves the same values in both variants. -/
theorem releaseOne_spec (v : Python.Variant) (h : lock.Opens me v) :
    (releaseOne me name force false v lock stored).2.1 = afterRelease me force lock name stored ∧
      ∃ result, (releaseOne me name force false v lock stored).2.2 = .ok result := by
  cases v with
  | sync => exact lockRelease_spec me name force stored h
  | async =>
    obtain ⟨token, htoken⟩ := h
    have hforce :
        ({ lock with «local» := lock.local.write me none } : LockObject Th τ).forced force =
          lock.forced force := rfl
    simpa only [releaseOne, asyncLockRelease, htoken, awaitRelease] using
      doRelease_spec me name force stored htoken hforce

theorem releaseOne_error (v : Python.Variant) (h : ¬ lock.Opens me v) :
    ∃ e, (releaseOne me name force false v lock stored).2.2 = .error e := by
  cases v with
  | sync =>
    have htoken : lock.local.read me = none := not_not.1 h
    exact ⟨.noToken, by simp [releaseOne, lockRelease, superRelease, htoken]⟩
  | async =>
    rcases htoken : lock.local.read me with _ | _ | token
    · exact ⟨.noToken, by simp [releaseOne, asyncLockRelease, htoken]⟩
    · exact ⟨.noAwaitable, by simp [releaseOne, asyncLockRelease, htoken, awaitRelease]⟩
    · exact absurd ⟨token, htoken⟩ h

end

/-! ## The loop -/

namespace LockSession

variable [DecidableEq Th] (v : Python.Variant) (me : Th) (force : Option Bool) {name : String}
  (names : List String) {s : LockSession Th τ}

theorem closeLoop_skip (h : s.locks.get? name = none) :
    closeLoop v me force false (name :: names) s = closeLoop v me force false names s := by
  simp only [closeLoop, h]

theorem closeLoop_next {lock : LockObject Th τ} (h : s.locks.get? name = some lock)
    (ho : lock.Opens me v) :
    closeLoop v me force false (name :: names) s =
      closeLoop v me force false names
        { locks := s.locks.pop name, stored := afterRelease me force lock name s.stored } := by
  obtain ⟨hstored, result, hresult⟩ := releaseOne_spec me name force s.stored v ho
  simp only [closeLoop, h]
  rcases hr : releaseOne me name force false v lock s.stored with ⟨lock', stored', result'⟩
  rw [hr] at hstored hresult
  subst hstored hresult
  rfl

theorem closeLoop_stop {lock : LockObject Th τ} (h : s.locks.get? name = some lock)
    (ho : ¬ lock.Opens me v) : (closeLoop v me force false (name :: names) s).2 ≠ none := by
  obtain ⟨e, he⟩ := releaseOne_error me name force s.stored v ho
  simp only [closeLoop, h]
  rcases hr : releaseOne me name force false v lock s.stored with ⟨lock', stored', result'⟩
  rw [hr] at he
  subst he
  exact Option.some_ne_none e

/-- Nothing is raised if and only if every named lock opens. -/
theorem closeLoop_quiet {names : List String} {s : LockSession Th τ} :
    (closeLoop v me force false names s).2 = none ↔
      ∀ name ∈ names, ∀ lock, s.locks.get? name = some lock → lock.Opens me v := by
  induction names generalizing s with
  | nil => simp [closeLoop]
  | cons name names ih =>
    cases hl : s.locks.get? name with
    | none =>
      rw [closeLoop_skip v me force names hl, ih]
      simp [hl]
    | some lock =>
      by_cases ho : lock.Opens me v
      · rw [closeLoop_next v me force names hl ho, ih]
        simp only [Python.Dict.get?_pop, List.forall_mem_cons]
        constructor
        · intro h
          refine ⟨fun lock' hlock' => ?_, fun name' hname' lock' hlock' => ?_⟩
          · obtain rfl := Option.some.inj (hl.symm.trans hlock')
            exact ho
          · by_cases heq : name' = name
            · subst heq
              obtain rfl := Option.some.inj (hl.symm.trans hlock')
              exact ho
            · exact h name' hname' lock' (by rw [if_neg heq, hlock'])
        · intro h name' hname' lock' hlock'
          split at hlock'
          · cases hlock'
          · exact h.2 name' hname' lock' hlock'
      · refine iff_of_false (closeLoop_stop v me force names hl ho) fun h => ho ?_
        exact h name List.mem_cons_self lock hl

/-- The value of a key after the loop. -/
def closedValue (s : LockSession Th τ) (names : List String) (name : String) : Option τ :=
  match s.locks.get? name with
  | some lock =>
    if name ∈ names ∧ lock.Deletes me force (s.stored name) then none else s.stored name
  | none => s.stored name

omit [DecidableEq Th] in
theorem closedValue_some {lock : LockObject Th τ} (h : s.locks.get? name = some lock)
    (names : List String) :
    closedValue me force s names name =
      if name ∈ names ∧ lock.Deletes me force (s.stored name) then none else s.stored name := by
  rw [closedValue, h]

omit [DecidableEq Th] in
theorem closedValue_nil (name : String) : closedValue me force s [] name = s.stored name := by
  unfold closedValue
  split <;> simp

omit [DecidableEq Th] in
theorem closedValue_skip (h : s.locks.get? name = none) (name' : String) :
    closedValue me force s (name :: names) name' = closedValue me force s names name' := by
  by_cases heq : name' = name
  · subst heq
    simp [closedValue, h]
  · simp [closedValue, heq]

omit [DecidableEq Th] in
theorem closedValue_next {lock : LockObject Th τ} (h : s.locks.get? name = some lock)
    (name' : String) :
    closedValue me force s (name :: names) name' =
      closedValue me force
        { locks := s.locks.pop name, stored := afterRelease me force lock name s.stored } names
        name' := by
  by_cases heq : name' = name
  · subst heq
    simp [closedValue, h, Python.Dict.get?_pop, afterRelease]
  · simp [closedValue, heq, Python.Dict.get?_pop, afterRelease]

/-- What the loop leaves. -/
theorem closeLoop_eq {names : List String} {s : LockSession Th τ}
    (h : (closeLoop v me force false names s).2 = none) (name : String) :
    (closeLoop v me force false names s).1.locks.get? name =
        (if name ∈ names then none else s.locks.get? name) ∧
      (closeLoop v me force false names s).1.stored name = closedValue me force s names name := by
  induction names generalizing s with
  | nil => exact ⟨rfl, (closedValue_nil me force name).symm⟩
  | cons name' names ih =>
    cases hl : s.locks.get? name' with
    | none =>
      rw [closeLoop_skip v me force names hl] at h ⊢
      refine ⟨?_, ?_⟩
      · rw [(ih h).1]
        by_cases heq : name = name' <;> simp [heq, hl]
      · rw [(ih h).2, closedValue_skip me force names hl]
    | some lock =>
      have ho : lock.Opens me v := (closeLoop_quiet v me force).1 h name' List.mem_cons_self lock hl
      rw [closeLoop_next v me force names hl ho] at h ⊢
      refine ⟨?_, ?_⟩
      · rw [(ih h).1]
        by_cases heq : name = name' <;> simp [heq, Python.Dict.get?_pop]
      · rw [(ih h).2, closedValue_next me force names hl]

/-! ## All locks -/

/-- The thread has a token of the lock; with `force`, or else no other thread has got the key. -/
def Closable (me : Th) (force : Option Bool) (lock : LockObject Th τ) (value : Option τ) : Prop :=
  ∃ token, lock.local.read me = some (some token) ∧
    (lock.forced force = true ∨
      ∀ token', lock.local.Has token' → value = some token' → token' = token)

/-- **Closing locks is total and complete** in both variants, which leave the same keys, if and only
if every named lock has a token for the thread that closes, and is not held by another thread of the
session unless `force` is on. -/
theorem closed_iff (me : Th) (force : Option Bool) (names : LockNames) (s : LockSession Th τ) :
    ((∀ v, s.Closed (s.named names) (closeLocks v me force false names s)) ∧
        (closeLocks .sync me force false names s).1.stored =
          (closeLocks .async me force false names s).1.stored) ↔
      ∀ name ∈ s.named names, ∀ lock, s.locks.get? name = some lock →
        Closable me force lock (s.stored name) := by
  constructor
  · rintro ⟨hclosed, -⟩ name hname lock hl
    obtain ⟨token, htoken⟩ :=
      (closeLoop_quiet .async me force).1 (hclosed .async).quiet name hname lock hl
    refine ⟨token, htoken, or_iff_not_imp_left.2 fun hf token' hhas hstored => ?_⟩
    have hreleased := (hclosed .async).released name hname ⟨lock, token', hl, hhas, hstored⟩
    rw [closeLocks, (closeLoop_eq .async me force (hclosed .async).quiet name).2,
      closedValue_some me force hl] at hreleased
    have hd : lock.Deletes me force (s.stored name) := by
      by_contra hd
      rw [if_neg fun h => hd h.2, hstored] at hreleased
      cases hreleased
    have hread := hd.resolve_left hf
    rw [htoken, hstored] at hread
    exact (Option.some.inj (Option.some.inj hread)).symm
  · intro h
    have hopens : ∀ v, ∀ name ∈ s.named names, ∀ lock, s.locks.get? name = some lock →
        lock.Opens me v := by
      intro v name hname lock hl
      obtain ⟨token, htoken, -⟩ := h name hname lock hl
      exact LockObject.opens_of_async ⟨token, htoken⟩ v
    have hquiet : ∀ v, (closeLocks v me force false names s).2 = none := fun v =>
      (closeLoop_quiet v me force).2 (hopens v)
    refine ⟨fun v => ⟨hquiet v, fun name hname => ?_, fun name hname hholds => ?_⟩, ?_⟩
    · rw [closeLocks, (closeLoop_eq v me force (hquiet v) name).1, if_pos hname]
    · obtain ⟨lock, token', hl, hhas, hstored⟩ := hholds
      obtain ⟨token, htoken, hforce⟩ := h name hname lock hl
      have hd : lock.Deletes me force (s.stored name) := by
        refine hforce.imp_right fun hsame => ?_
        rw [htoken, hstored, hsame token' hhas hstored]
      rw [closeLocks, (closeLoop_eq v me force (hquiet v) name).2, closedValue_some me force hl]
      exact if_pos ⟨hname, hd⟩
    · funext name
      rw [closeLocks, closeLocks, (closeLoop_eq .sync me force (hquiet .sync) name).2,
        (closeLoop_eq .async me force (hquiet .async) name).2]

/-- **A lock that was never acquired** stops `aclose_locks`, and the lock that the session holds
stays. -/
theorem not_closed_unacquired :
    let s : LockSession Unit ℕ :=
      { locks := Python.Dict.ofPairs [("a", ⟨.shared none, none⟩), ("b", ⟨.shared (some 1), none⟩)]
        stored := fun name => if name = "b" then some 1 else none }
    (closeLocks .async () (some false) false .all s).2 = some .noAwaitable ∧
      s.Holds "b" ∧ (closeLocks .async () (some false) false .all s).1.stored "b" = some 1 ∧
      ¬ s.Closed (s.named .all) (closeLocks .async () (some false) false .all s) := by
  refine ⟨by decide, ⟨⟨.shared (some 1), none⟩, 1, rfl, rfl, rfl⟩, by decide, fun h => ?_⟩
  exact absurd h.quiet (by decide)

end LockSession

end Kvdb
