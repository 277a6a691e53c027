import Kvdb.Io.CachifyTasks
import Mathlib.Algebra.BigOperators.Group.Finset.Basic
import Mathlib.Data.List.Count

/-!
# Lost updates of the metadata

`CacheLedger` is what `data` is for: a number of hits and, for each key, its hits, the time of the
last one and the deadline, each changed alone. `CacheLedger.ofData` reads it off `data`. A task
writes back whole entries of `data`, with its own change to them; the write makes this change and no
other if and only if what the task has read of the other keys is still there (`ofData_access_iff`).

`notedTasks` is `sharedCacheMachine` with a ledger, the calls and the updates that were made. Through
runs of fresh accesses `data` is the ledger (`InStep`). In every run the updates of the calls are
those made and those that the tasks have still to make (`OwedInv`).

Only a hit of a sized hash records a time. So nothing of the keys that were set is missing
(`AllRecorded`) after such a run exactly if the cache is sized and each of them was hit too.
-/

namespace Kvdb

open Lib Python

/-! ## The ledger -/

/-- What `data` is for. -/
@[ext]
structure CacheLedger (K : Type) where
  hits : ℕ := 0
  keyhits : K → ℕ := fun _ => 0
  timestamps : K → Option ℚ := fun _ => none
  deadlines : K → Option ℚ := fun _ => none

/-- The updates that calls make. -/
inductive CacheUpdate (K : Type)
  | hit
  | keyHit (key : K)
  | timestamp (key : K)
  | deadline (key : K) (ttl : ℚ)
  deriving DecidableEq

namespace CacheOp

variable {K : Type}

/-- The update that ends with the access. -/
def update? : CacheOp K → Option (CacheUpdate K)
  | .setHits => some .hit
  | .setKeyHit key => some (.keyHit key)
  | .setTimestamp key => some (.timestamp key)
  | .setExpiration key ttl => some (.deadline key ttl)
  | _ => none

end CacheOp

namespace CacheLedger

variable {K : Type} [DecidableEq K]

/-- The ledger that `data` has. -/
def ofData (d : CacheData K) : CacheLedger K where
  hits := d.hits.getD 0
  keyhits key := (d.keyhits.get? key).getD 0
  timestamps := d.timestamps.get?
  deadlines := d.expirations.get?

/-- One entry changes, or the entries of the overdue keys go. -/
def after (l : CacheLedger K) (now : ℚ) (overdue : List K) : CacheOp K → CacheLedger K
  | .setHits => { l with hits := l.hits + 1 }
  | .setKeyHit key => { l with keyhits := Function.update l.keyhits key (l.keyhits key + 1) }
  | .setTimestamp key => { l with timestamps := Function.update l.timestamps key (some now) }
  | .setExpiration key ttl =>
    { l with deadlines := Function.update l.deadlines key (some (now + ttl)) }
  | .popExpirations =>
    { l with deadlines := fun key => if key ∈ overdue then none else l.deadlines key }
  | .popKeyhits => { l with keyhits := fun key => if key ∈ overdue then 0 else l.keyhits key }
  | .popTimestamps =>
    { l with timestamps := fun key => if key ∈ overdue then none else l.timestamps key }
  | _ => l

end CacheLedger

namespace CacheTask

variable {K V : Type} [DecidableEq K] {cfg : CachifyConfig} {now : ℚ} {s : Cachify K V}
  {c : CacheTask K}

/-- What the task writes to `data` does not undo what others have written since it has read it. -/
def Fresh (c : CacheTask K) (d : CacheData K) : CacheOp K → Prop
  | .resetHits => d.hits.getD 0 = 0
  | .setHits => c.hits = d.hits.getD 0
  | .setKeyHit _ => ∀ k, (c.keyhits.get? k).getD 0 = (d.keyhits.get? k).getD 0
  | .setTimestamp key => ∀ k, k ≠ key → c.timestamps.get? k = d.timestamps.get? k
  | .setExpiration key _ => ∀ k, k ≠ key → c.expirations.get? k = d.expirations.get? k
  | .popExpirations => ∀ k, k ∉ c.keys → c.expirations.get? k = d.expirations.get? k
  | .popKeyhits => ∀ k, k ∉ c.keys → (c.keyhits.get? k).getD 0 = (d.keyhits.get? k).getD 0
  | .popTimestamps => ∀ k, k ∉ c.keys → c.timestamps.get? k = d.timestamps.get? k
  -- `clear` of no key forgets everything
  | .clear => c.keys = [] → CacheLedger.ofData d = {}
  | _ => True

/-- The entry of `data` that the task writes is as the task has read it. -/
def Unchanged (c : CacheTask K) (d : CacheData K) : CacheOp K → Prop
  | .resetHits => d.hits = none
  | .setHits => c.hits = d.hits.getD 0
  | .setKeyHit _ | .popKeyhits => c.keyhits.items = d.keyhits.items
  | .setTimestamp _ | .popTimestamps => c.timestamps.items = d.timestamps.items
  | .setExpiration .. | .popExpirations => c.expirations.items = d.expirations.items
  | .clear => c.keys ≠ []
  | _ => True

theorem Unchanged.fresh {d : CacheData K} {op : CacheOp K} (h : c.Unchanged d op) :
    c.Fresh d op := by
  cases op with
  | resetHits =>
    simp only [Unchanged] at h
    simp [Fresh, h]
  | setHits => exact h
  | setKeyHit | popKeyhits | setTimestamp | popTimestamps | setExpiration | popExpirations =>
    simp only [Unchanged] at h
    simp [Fresh, Dict.get?, h]
  | clear => exact fun he => absurd he h
  | _ => trivial

/-- **An access changes the ledger as it should** if and only if it is fresh. -/
theorem ofData_access_iff (cfg : CachifyConfig) (now : ℚ) (s : Cachify K V) (c : CacheTask K)
    (op : CacheOp K) :
    CacheLedger.ofData (c.access cfg now s op).1.data =
        (CacheLedger.ofData s.data).after now c.keys op ↔ c.Fresh s.data op := by
  cases op with
  | resetHits =>
    simp only [access, CacheLedger.ofData, CacheLedger.after, CacheLedger.mk.injEq, and_true]
    exact eq_comm
  | setHits =>
    simp only [access, CacheLedger.ofData, CacheLedger.after, CacheLedger.mk.injEq, and_true]
    exact Nat.succ_inj
  | setKeyHit key =>
    simp only [access, CacheLedger.ofData, CacheLedger.after, CacheLedger.mk.injEq, and_true,
      true_and, Function.eq_update_iff, Dict.get?_setItem, if_true, Option.getD_some,
      Nat.succ_inj, Fresh]
    constructor
    · rintro ⟨hkey, hothers⟩ k
      by_cases hk : k = key
      · exact hk ▸ hkey
      · simpa only [hk, if_false] using hothers k hk
    · intro h
      refine ⟨h key, fun k hk => ?_⟩
      simpa only [hk, if_false] using h k
  | setTimestamp key =>
    simp only [access, CacheLedger.ofData, CacheLedger.after, CacheLedger.mk.injEq, and_true,
      true_and]
    exact Dict.get?_setItem_eq_update
  | setExpiration key ttl =>
    simp only [access, CacheLedger.ofData, CacheLedger.after, CacheLedger.mk.injEq, true_and]
    exact Dict.get?_setItem_eq_update
  | popExpirations =>
    simp only [access, CacheLedger.ofData, CacheLedger.after, CacheLedger.mk.injEq, true_and]
    exact Dict.get?_popAll_eq
  | popTimestamps =>
    simp only [access, CacheLedger.ofData, CacheLedger.after, CacheLedger.mk.injEq, and_true,
      true_and]
    exact Dict.get?_popAll_eq
  | popKeyhits =>
    simp only [access, CacheLedger.ofData, CacheLedger.after, CacheLedger.mk.injEq, and_true,
      true_and, funext_iff, Dict.get?_popAll, Fresh]
    refine forall_congr' fun k => ?_
    by_cases hk : k ∈ c.keys <;> simp [hk]
  | clear =>
    simp only [access, CacheLedger.after, Fresh, Cachify.clear]
    by_cases hk : c.keys = []
    · rw [if_neg (not_not.2 hk)]
      split <;> exact ⟨fun h _ => h.symm, fun h => (h hk).symm⟩
    · rw [if_pos hk]
      exact iff_of_true rfl fun h => absurd h hk
  | _ => exact iff_of_true rfl trivial

end CacheTask

/-! ## Notes -/

inductive CacheCall (K : Type)
  | set (key : K) (ttl : Option Number)
  /-- A `retrieve` that hits. -/
  | hit (key : K)
  deriving DecidableEq

namespace CacheCall

variable {K : Type}

/-- The updates that the call makes. -/
def updates (cfg : CachifyConfig) : CacheCall K → List (CacheUpdate K)
  | .set key ttl =>
    if cfg.hsetEnabled then
      (Cachify.effectiveTtl cfg ttl).toList.map fun t => .deadline key t.toRat
    else []
  | .hit key =>
    .hit :: match cfg.hsetEnabled, cfg.cacheMaxSize with
      | true, some _ =>
        if cfg.isAsync then [.timestamp key, .keyHit key] else [.keyHit key, .timestamp key]
      | _, _ => []

def isHit : CacheCall K → Bool
  | .hit _ => true
  | .set .. => false

end CacheCall

/-- The size of the cache is bounded. -/
def CachifyConfig.Sized (cfg : CachifyConfig) : Prop :=
  cfg.hsetEnabled = true ∧ cfg.cacheMaxSize.isSome = true

structure CacheNotes (W K : Type) where
  ledger : CacheLedger K := {}
  /-- The tasks that made a call. -/
  tasks : Finset W := ∅
  calls : List (CacheCall K) := []
  /-- The updates that were made. -/
  made : List (CacheUpdate K) := []
  /-- The keys whose entries went because their deadline was over. -/
  overdue : List K := []

section

variable {W K V : Type} [DecidableEq W] [DecidableEq K] {cfg : CachifyConfig}

/-- The keys whose entries the access pops. -/
def CacheOp.popped (keys : List K) : CacheOp K → List K
  | .popExpirations | .popKeyhits | .popTimestamps => keys
  | _ => []

namespace CacheNotes

variable (g : CacheNotes W K)

def call (w : W) (c : CacheCall K) : CacheNotes W K :=
  { g with tasks := insert w g.tasks, calls := c :: g.calls }

def access (now : ℚ) (keys : List K) (op : CacheOp K) : CacheNotes W K :=
  { g with
    ledger := g.ledger.after now keys op
    made := op.update?.toList ++ g.made
    overdue := op.popped keys ++ g.overdue }

end CacheNotes

/-- What a step adds to the notes. -/
def noteTasks (g : CacheNotes W K) (s : SharedCache W K V) : SharedCacheEv W K V → CacheNotes W K
  | .set w key _ ttl => g.call w (.set key ttl)
  | .retrieve w key => if (s.cache.get s.now key).isSome then g.call w (.hit key) else g
  | .access w => (s.task w).todo.head?.elim g (g.access s.now (s.task w).keys)
  | .advance _ => g

variable (W K V cfg) in
def notedTasks : Machine (SharedCache W K V × CacheNotes W K) (SharedCacheEv W K V) :=
  (sharedCacheMachine W K V cfg).observe {} noteTasks

/-! ## What the ledger says -/

/-- The ledger and the updates that were made. -/
structure LedgerInv (g : CacheNotes W K) : Prop where
  hits : g.ledger.hits = g.made.count .hit
  keyhits : ∀ key ∉ g.overdue, g.ledger.keyhits key = g.made.count (.keyHit key)
  timestamps : ∀ key ∉ g.overdue, (g.ledger.timestamps key).isSome = true ↔
    .timestamp key ∈ g.made
  deadlines : ∀ key ∉ g.overdue, (g.ledger.deadlines key).isSome = true ↔
    ∃ ttl, .deadline key ttl ∈ g.made

omit [DecidableEq W] in
theorem LedgerInv.init : LedgerInv ({} : CacheNotes W K) where
  hits := rfl
  keyhits _ _ := rfl
  timestamps _ _ := by simp
  deadlines _ _ := by simp

omit [DecidableEq W] in
theorem LedgerInv.access {g : CacheNotes W K} (h : LedgerInv g) (now : ℚ) (keys : List K)
    (op : CacheOp K) : LedgerInv (g.access now keys op) where
  hits := by
    have hold := h.hits
    cases op <;> simpa [CacheNotes.access, CacheLedger.after, CacheOp.update?] using hold
  keyhits key hkey := by
    obtain ⟨hno, hkey⟩ := not_or.1 (mt List.mem_append.2 hkey)
    have hold := h.keyhits key hkey
    cases op with
    | setKeyHit key' =>
      by_cases heq : key = key'
      · subst heq
        simpa [CacheNotes.access, CacheLedger.after, CacheOp.update?] using hold
      · simpa [CacheNotes.access, CacheLedger.after, CacheOp.update?, List.count_cons, heq,
          Ne.symm heq] using hold
    | popKeyhits =>
      have hno : key ∉ keys := hno
      simpa [CacheNotes.access, CacheLedger.after, CacheOp.update?, hno] using hold
    | _ => simpa [CacheNotes.access, CacheLedger.after, CacheOp.update?] using hold
  timestamps key hkey := by
    obtain ⟨hno, hkey⟩ := not_or.1 (mt List.mem_append.2 hkey)
    have hold := h.timestamps key hkey
    cases op with
    | setTimestamp key' =>
      by_cases heq : key = key' <;>
        simp [CacheNotes.access, CacheLedger.after, CacheOp.update?, heq, hold]
    | popTimestamps =>
      have hno : key ∉ keys := hno
      simpa [CacheNotes.access, CacheLedger.after, CacheOp.update?, hno] using hold
    | _ => simpa [CacheNotes.access, CacheLedger.after, CacheOp.update?] using hold
  deadlines key hkey := by
    obtain ⟨hno, hkey⟩ := not_or.1 (mt List.mem_append.2 hkey)
    have hold := h.deadlines key hkey
    cases op with
    | setExpiration key' ttl =>
      by_cases heq : key = key'
      · simp [CacheNotes.access, CacheLedger.after, CacheOp.update?, heq]
      · simp [CacheNotes.access, CacheLedger.after, CacheOp.update?, heq, hold]
    | popExpirations =>
      have hno : key ∉ keys := hno
      simpa [CacheNotes.access, CacheLedger.after, CacheOp.update?, hno] using hold
    | _ => simpa [CacheNotes.access, CacheLedger.after, CacheOp.update?] using hold

/-! ## What the calls make -/

omit [DecidableEq K] in
theorem update?_addKeyExpiration (key : K) (ttl : Option Number) :
    (CacheOp.addKeyExpiration cfg key (Cachify.effectiveTtl cfg ttl)).filterMap CacheOp.update? =
      (CacheCall.set key ttl).updates cfg := by
  cases ht : Cachify.effectiveTtl cfg ttl with
  | none => simp [CacheOp.addKeyExpiration, CacheCall.updates, ht]
  | some t =>
    simp only [CacheOp.addKeyExpiration, CacheCall.updates, ht]
    split <;> rfl

omit [DecidableEq K] in
theorem update?_validateCachePolicies (key : K) :
    (CacheOp.validateCachePolicies cfg key).filterMap CacheOp.update? =
      (CacheCall.hit key).updates cfg := by
  simp only [CacheOp.validateCachePolicies, CacheCall.updates]
  cases cfg.hsetEnabled with
  | false => rfl
  | true =>
    cases cfg.cacheMaxSize with
    | none => rfl
    | some n => cases cfg.isAsync <;> rfl

/-- An access puts nothing before the rest of the program that is an update of the call. -/
theorem update?_access (now : ℚ) (s : Cachify K V) (c : CacheTask K) (op : CacheOp K) :
    (c.access cfg now s op).2.todo.filterMap CacheOp.update? =
      c.todo.filterMap CacheOp.update? := by
  cases op with
  | containsHits | getOverdue | checkNumKeys =>
    simp only [CacheTask.access]
    split <;> rfl
  | _ => rfl

/-- The calls, the updates made and those still to make. -/
structure OwedInv (cfg : CachifyConfig) (p : SharedCache W K V × CacheNotes W K) : Prop where
  idle : ∀ w ∉ p.2.tasks, (p.1.task w).todo = []
  owed : ∀ u, (p.2.calls.flatMap (CacheCall.updates cfg)).count u = p.2.made.count u +
    ∑ w ∈ p.2.tasks, ((p.1.task w).todo.filterMap CacheOp.update?).count u

/-- A sum with one summand changed, which may be a new one. -/
theorem sum_insert_update (f f' : W → ℕ) {A : Finset W} {w : W} (hf : ∀ v, v ≠ w → f' v = f v)
    (h0 : w ∉ A → f w = 0) : ∑ v ∈ insert w A, f' v + f w = ∑ v ∈ A, f v + f' w := by
  have hnew : ∑ v ∈ insert w A, f' v = f' w + ∑ v ∈ A.erase w, f v := by
    rw [← Finset.add_sum_erase _ f' (Finset.mem_insert_self w A), Finset.erase_insert_eq_erase,
      Finset.sum_congr rfl fun v hv => hf v (Finset.ne_of_mem_erase hv)]
  have hold : ∑ v ∈ A, f v = f w + ∑ v ∈ A.erase w, f v := by
    by_cases hw : w ∈ A
    · exact (Finset.add_sum_erase _ f hw).symm
    · rw [Finset.erase_eq_of_notMem hw, h0 hw, Nat.zero_add]
  omega

variable {p q : SharedCache W K V × CacheNotes W K} {e : SharedCacheEv W K V}

theorem OwedInv.call (h : OwedInv cfg p) {w : W} {c : CacheCall K} {todo : List (CacheOp K)}
    (hidle : (p.1.task w).todo = []) (hc : todo.filterMap CacheOp.update? = c.updates cfg)
    {s : SharedCache W K V} (hs : s.task = (p.1.start w todo).task) :
    OwedInv cfg (s, p.2.call w c) where
  idle v hv := by
    obtain ⟨hne, hv⟩ := not_or.1 (mt Finset.mem_insert.2 hv)
    simpa [hs, SharedCache.start, hne] using h.idle v hv
  owed u := by
    have hold := h.owed u
    have hsum := sum_insert_update
      (fun v => ((p.1.task v).todo.filterMap CacheOp.update?).count u)
      (fun v => ((s.task v).todo.filterMap CacheOp.update?).count u) (A := p.2.tasks) (w := w)
      (fun v hv => by simp [hs, SharedCache.start, hv]) fun _ => by simp [hidle]
    have hw : (s.task w).todo = todo := by simp [hs, SharedCache.start]
    simp only [hw, hidle, hc, List.filterMap_nil, List.count_nil, Nat.add_zero] at hsum
    simp only [CacheNotes.call, List.flatMap_cons, List.count_append, hsum, hold]
    omega

theorem OwedInv.access (h : OwedInv cfg p) {w : W} {op : CacheOp K} {rest : List (CacheOp K)}
    (htodo : (p.1.task w).todo = op :: rest) {s : SharedCache W K V} {c : CacheTask K}
    (hc : c.todo.filterMap CacheOp.update? = rest.filterMap CacheOp.update?)
    (hs : s.task = Function.update p.1.task w c) (now : ℚ) (keys : List K) :
    OwedInv cfg (s, p.2.access now keys op) where
  idle v hv := by
    have hne : v ≠ w := by
      rintro rfl
      simp [h.idle v hv] at htodo
    simpa [hs, hne] using h.idle v hv
  owed u := by
    have hold := h.owed u
    have hmem : w ∈ p.2.tasks := by
      by_contra hw
      simp [h.idle w hw] at htodo
    have hsum := sum_insert_update
      (fun v => ((p.1.task v).todo.filterMap CacheOp.update?).count u)
      (fun v => ((s.task v).todo.filterMap CacheOp.update?).count u) (A := p.2.tasks) (w := w)
      (fun v hv => by simp [hs, hv]) fun hw => absurd hmem hw
    have hw : (s.task w).todo = c.todo := by simp [hs]
    have hop : (op :: rest).filterMap CacheOp.update? =
        op.update?.toList ++ rest.filterMap CacheOp.update? := by
      rw [List.filterMap_cons]
      cases op.update? <;> rfl
    simp only [hw, hc, htodo, hop, List.count_append, Finset.insert_eq_of_mem hmem] at hsum
    simp only [CacheNotes.access, List.count_append, hold]
    omega

/-! ## Steps -/

namespace SharedCache

/-- What an access writes is fresh. -/
def Fresh (s : SharedCache W K V) : SharedCacheEv W K V → Prop
  | .access w => ∀ op ∈ (s.task w).todo.head?, (s.task w).Fresh s.cache.data op
  | _ => True

/-- What is written is still as the task has read it. -/
def Unchanged (s : SharedCache W K V) : SharedCacheEv W K V → Prop
  | .access w => ∀ op ∈ (s.task w).todo.head?, (s.task w).Unchanged s.cache.data op
  | _ => True

/-- The ledger after a step that loses nothing. -/
def expected (s : SharedCache W K V) : SharedCacheEv W K V → CacheLedger K
  | .access w => (s.task w).todo.head?.elim (.ofData s.cache.data)
      ((CacheLedger.ofData s.cache.data).after s.now (s.task w).keys)
  | _ => .ofData s.cache.data

variable (cfg) in
/-- Nothing is lost. -/
def Intact (s : SharedCache W K V) (e : SharedCacheEv W K V) : Prop :=
  ∀ s', s.step cfg e = some s' → CacheLedger.ofData s'.cache.data = s.expected e

/-- The next access of a task that has `rest` to do after it. -/
def next (cfg : CachifyConfig) (s : SharedCache W K V) (w : W) (op : CacheOp K)
    (rest : List (CacheOp K)) : Cachify K V × CacheTask K :=
  { s.task w with todo := rest }.access cfg s.now s.cache op

/-- The steps: a call begins, a task makes its next access, or neither. -/
inductive Step (cfg : CachifyConfig) (p q : SharedCache W K V × CacheNotes W K) :
    SharedCacheEv W K V → Prop
  | call {e : SharedCacheEv W K V} (w : W) (c : CacheCall K) (todo : List (CacheOp K))
      (hidle : (p.1.task w).todo = []) (hc : todo.filterMap CacheOp.update? = c.updates cfg)
      (hdata : q.1.cache.data = p.1.cache.data) (htask : q.1.task = (p.1.start w todo).task)
      (hnotes : q.2 = p.2.call w c) (he : ∀ v, e ≠ .access v) : Step cfg p q e
  | access (w : W) (op : CacheOp K) (rest : List (CacheOp K))
      (htodo : (p.1.task w).todo = op :: rest)
      (hdata : q.1.cache.data = (p.1.next cfg w op rest).1.data)
      (htask : q.1.task = Function.update p.1.task w (p.1.next cfg w op rest).2)
      (hnotes : q.2 = p.2.access p.1.now (p.1.task w).keys op) : Step cfg p q (.access w)
  | other {e : SharedCacheEv W K V} (hdata : q.1.cache.data = p.1.cache.data)
      (htask : q.1.task = p.1.task) (hnotes : q.2 = p.2) (he : ∀ v, e ≠ .access v) : Step cfg p q e

theorem step_cases (hs : (notedTasks W K V cfg).step p e = some q) : Step cfg p q e := by
  obtain ⟨s', g'⟩ := q
  obtain ⟨hs, hnotes⟩ := Machine.observe_step.1 hs
  simp only [sharedCacheMachine] at hs
  cases e with
  | set w key value ttl =>
    simp only [step] at hs
    split at hs
    · rename_i hidle
      obtain rfl := Option.some.inj hs
      exact .call w _ _ hidle (update?_addKeyExpiration key ttl) rfl rfl hnotes (by simp)
    · cases hs
  | retrieve w key =>
    simp only [step] at hs
    split at hs
    · rename_i hidle
      obtain rfl := Option.some.inj hs
      simp only [noteTasks] at hnotes
      split
      · rename_i hhit
        rw [if_pos hhit] at hnotes
        exact .call w _ _ hidle (update?_validateCachePolicies key) rfl rfl hnotes (by simp)
      · rename_i hmiss
        rw [if_neg hmiss] at hnotes
        exact .other rfl rfl hnotes (by simp)
    · cases hs
  | access w =>
    simp only [step] at hs
    split at hs
    · cases hs
    · rename_i op rest htodo
      obtain rfl := Option.some.inj hs
      simp only [noteTasks, htodo, List.head?_cons, Option.elim_some] at hnotes
      exact .access w op rest htodo rfl rfl hnotes
  | advance t =>
    simp only [step] at hs
    split at hs
    · obtain rfl := Option.some.inj hs
      exact .other rfl rfl hnotes (by simp)
    · cases hs

omit [DecidableEq W] in
theorem fresh_of_ne {s : SharedCache W K V} (he : ∀ w, e ≠ .access w) : s.Fresh e := by
  cases e with
  | access w => exact absurd rfl (he w)
  | _ => trivial

omit [DecidableEq W] in
theorem fresh_of_unchanged {s : SharedCache W K V} (h : s.Unchanged e) : s.Fresh e := by
  cases e with
  | access w => exact fun op hop => (h op hop).fresh
  | _ => trivial

omit [DecidableEq W] in
theorem expected_of_ne {s : SharedCache W K V} (he : ∀ w, e ≠ .access w) :
    s.expected e = .ofData s.cache.data := by
  cases e with
  | access w => exact absurd rfl (he w)
  | _ => rfl

omit [DecidableEq W] in
theorem fresh_todo {c : CacheTask K} {d : CacheData K} {op : CacheOp K} (todo : List (CacheOp K)) :
    { c with todo }.Fresh d op ↔ c.Fresh d op := by
  cases op <;> rfl

theorem Step.expected_iff (hs : Step cfg p q e) :
    CacheLedger.ofData q.1.cache.data = p.1.expected e ↔ p.1.Fresh e := by
  cases hs with
  | call _ _ _ _ _ hdata _ _ he | other hdata _ _ he =>
    rw [hdata, expected_of_ne he]
    exact iff_of_true rfl (fresh_of_ne he)
  | access w op rest htodo hdata =>
    have hfresh : p.1.Fresh (.access w) ↔ (p.1.task w).Fresh p.1.cache.data op := by
      simp [Fresh, htodo]
    rw [hdata, hfresh, next, ← fresh_todo rest, ← CacheTask.ofData_access_iff cfg p.1.now]
    simp [expected, htodo]

theorem Step.owedInv (hs : Step cfg p q e) (hi : OwedInv cfg p) : OwedInv cfg q := by
  obtain ⟨s, g⟩ := q
  cases hs with
  | call w c todo hidle hc _ htask hnotes =>
    subst hnotes
    exact hi.call hidle hc htask
  | access w op rest htodo _ htask hnotes =>
    subst hnotes
    exact hi.access htodo (update?_access ..) htask _ _
  | other _ htask hnotes =>
    subst hnotes
    exact ⟨fun w hw => by rw [htask]; exact hi.idle w hw, fun u => by rw [htask]; exact hi.owed u⟩

/-! ## Runs -/

/-- `data` is the ledger. -/
structure InStep (p : SharedCache W K V × CacheNotes W K) : Prop where
  data : CacheLedger.ofData p.1.cache.data = p.2.ledger
  ledger : LedgerInv p.2

theorem Step.inStep (hs : Step cfg p q e) (hf : p.1.Fresh e) (hi : InStep p) : InStep q := by
  obtain ⟨s, g⟩ := q
  have hdata := hs.expected_iff.2 hf
  cases hs with
  | call _ _ _ _ _ _ _ hnotes he =>
    subst hnotes
    rw [expected_of_ne he] at hdata
    exact ⟨hdata.trans hi.data, ⟨hi.ledger.hits, hi.ledger.keyhits, hi.ledger.timestamps,
      hi.ledger.deadlines⟩⟩
  | access w op rest htodo _ _ hnotes =>
    subst hnotes
    refine ⟨?_, hi.ledger.access ..⟩
    simp only [expected, htodo, List.head?_cons, Option.elim_some, hi.data] at hdata
    exact hdata
  | other _ _ hnotes he =>
    subst hnotes
    rw [expected_of_ne he] at hdata
    exact ⟨hdata.trans hi.data, hi.ledger⟩

/-- No task is in a call. -/
def Quiet (s : SharedCache W K V) : Prop := ∀ w, (s.task w).todo = []

end SharedCache

/-- `data` has all hits, the deadlines of the keys that were set with one, and the times and hits of
the keys that were hit; the entries of overdue keys may be gone. -/
structure Recorded (cfg : CachifyConfig) (d : CacheData K) (g : CacheNotes W K) : Prop where
  ledger : CacheLedger.ofData d = g.ledger
  hits : d.hits.getD 0 = g.calls.countP CacheCall.isHit
  keyhits : cfg.Sized → ∀ key ∉ g.overdue,
    (d.keyhits.get? key).getD 0 = g.calls.count (.hit key)
  timestamps : ∀ key ∉ g.overdue, (d.timestamps.get? key).isSome = true ↔
    cfg.Sized ∧ .hit key ∈ g.calls
  deadlines : ∀ key ∉ g.overdue, (d.expirations.get? key).isSome = true ↔
    cfg.hsetEnabled = true ∧
      ∃ ttl, .set key ttl ∈ g.calls ∧ (Cachify.effectiveTtl cfg ttl).isSome = true

/-- Nothing is missing: every key that was set has its deadline, if it has one, its time and its hits,
and all hits are counted. -/
structure AllRecorded (cfg : CachifyConfig) (d : CacheData K) (calls : List (CacheCall K)) : Prop where
  hits : d.hits.getD 0 = calls.countP CacheCall.isHit
  deadlines : ∀ key ttl, .set key ttl ∈ calls → (Cachify.effectiveTtl cfg ttl).isSome = true →
    (d.expirations.get? key).isSome = true
  timestamps : ∀ key ttl, .set key ttl ∈ calls → (d.timestamps.get? key).isSome = true
  keyhits : ∀ key ttl, .set key ttl ∈ calls → (d.keyhits.get? key).getD 0 = calls.count (.hit key)

omit [DecidableEq W] in
/-- If no key that was set was found overdue. -/
theorem Recorded.allRecorded_iff {d : CacheData K} {g : CacheNotes W K} (h : Recorded cfg d g)
    (hk : ∀ key ttl, .set key ttl ∈ g.calls → key ∉ g.overdue) :
    AllRecorded cfg d g.calls ↔
      ∀ key ttl, .set key ttl ∈ g.calls → cfg.Sized ∧ .hit key ∈ g.calls := by
  constructor
  · intro ha key ttl hc
    exact (h.timestamps key (hk key ttl hc)).1 (ha.timestamps key ttl hc)
  · intro hs
    exact {
      hits := h.hits
      deadlines := fun key ttl hc ht =>
        (h.deadlines key (hk key ttl hc)).2 ⟨(hs key ttl hc).1.1, ttl, hc, ht⟩
      timestamps := fun key ttl hc => (h.timestamps key (hk key ttl hc)).2 (hs key ttl hc)
      keyhits := fun key ttl hc => h.keyhits (hs key ttl hc).1 key (hk key ttl hc) }

section

variable {K : Type} {cfg : CachifyConfig}

theorem updates_set (key : K) (ttl : Option Number) : (CacheCall.set key ttl).updates cfg =
    if cfg.hsetEnabled then
      (Cachify.effectiveTtl cfg ttl).toList.map fun t => .deadline key t.toRat
    else [] := rfl

variable (cfg) in
theorem updates_hit (key : K) :
    ¬ cfg.Sized ∧ (CacheCall.hit key).updates cfg = [.hit] ∨
      cfg.Sized ∧ ((CacheCall.hit key).updates cfg = [.hit, .keyHit key, .timestamp key] ∨
        (CacheCall.hit key).updates cfg = [.hit, .timestamp key, .keyHit key]) := by
  simp only [CacheCall.updates, CachifyConfig.Sized]
  cases cfg.hsetEnabled with
  | false => exact .inl ⟨by simp, rfl⟩
  | true =>
    cases cfg.cacheMaxSize with
    | none => exact .inl ⟨by simp, rfl⟩
    | some n => exact .inr ⟨⟨rfl, rfl⟩, by cases cfg.isAsync <;> simp⟩

theorem timestamp_mem_updates {key : K} {c : CacheCall K} :
    .timestamp key ∈ c.updates cfg ↔ cfg.Sized ∧ c = .hit key := by
  cases c with
  | set key' ttl =>
    rw [updates_set]
    split <;> simp
  | hit key' =>
    rcases updates_hit cfg key' with ⟨hs, h⟩ | ⟨hs, h | h⟩ <;> simp [h, hs, eq_comm]

theorem deadline_mem_updates {key : K} {c : CacheCall K} :
    (∃ ttl, .deadline key ttl ∈ c.updates cfg) ↔ cfg.hsetEnabled = true ∧
      ∃ ttl, c = .set key ttl ∧ (Cachify.effectiveTtl cfg ttl).isSome = true := by
  cases c with
  | set key' ttl =>
    rw [updates_set]
    cases cfg.hsetEnabled with
    | false => simp
    | true =>
      simp only [if_true, List.mem_map, Option.mem_toList, CacheUpdate.deadline.injEq, true_and,
        CacheCall.set.injEq, Option.isSome_iff_exists]
      constructor
      · intro hw
        obtain ⟨t, u, hu, rfl, rfl⟩ := hw
        exact ⟨ttl, ⟨rfl, rfl⟩, u, hu⟩
      · intro hw
        obtain ⟨_, ⟨rfl, rfl⟩, u, hu⟩ := hw
        exact ⟨u.toRat, u, hu, rfl, rfl⟩
  | hit key' =>
    rcases updates_hit cfg key' with ⟨-, h⟩ | ⟨-, h | h⟩ <;> simp [h]

variable [DecidableEq K]

theorem count_hit_updates (c : CacheCall K) :
    (c.updates cfg).count .hit = if c.isHit then 1 else 0 := by
  cases c with
  | set key ttl =>
    refine List.count_eq_zero.2 fun h => ?_
    rw [updates_set] at h
    split at h <;> simp at h
  | hit key =>
    rcases updates_hit cfg key with ⟨-, h⟩ | ⟨-, h | h⟩ <;> rw [h] <;> rfl

theorem count_keyHit_updates (hsized : cfg.Sized) (key : K) (c : CacheCall K) :
    (c.updates cfg).count (.keyHit key) = if c == .hit key then 1 else 0 := by
  cases c with
  | set key' ttl =>
    refine List.count_eq_zero.2 fun h => ?_
    rw [updates_set] at h
    split at h <;> simp at h
  | hit key' =>
    rcases updates_hit cfg key' with ⟨hs, -⟩ | ⟨-, h | h⟩
    · exact absurd hsized hs
    all_goals
      rw [h]
      by_cases hk : key' = key <;> simp [hk]

/-- An update that some calls make once and the others never. -/
theorem count_updates {u : CacheUpdate K} {P : CacheCall K → Bool}
    (h : ∀ c : CacheCall K, (c.updates cfg).count u = if P c then 1 else 0)
    (calls : List (CacheCall K)) :
    (calls.flatMap (CacheCall.updates cfg)).count u = calls.countP P := by
  induction calls with
  | nil => rfl
  | cons c calls ih =>
    rw [List.flatMap_cons, List.count_append, ih, h, List.countP_cons, Nat.add_comm]

end

omit [DecidableEq W] in
theorem SharedCache.InStep.recorded (hi : SharedCache.InStep p) (ho : OwedInv cfg p)
    (hq : p.1.Quiet) : Recorded cfg p.1.cache.data p.2 := by
  have hmade : ∀ u, p.2.made.count u = (p.2.calls.flatMap (CacheCall.updates cfg)).count u := by
    intro u
    rw [ho.owed u, Finset.sum_eq_zero fun w _ => by simp [hq w], Nat.add_zero]
  have hmem : ∀ u, u ∈ p.2.made ↔ ∃ c ∈ p.2.calls, u ∈ c.updates cfg := by
    intro u
    rw [← List.count_pos_iff, hmade, List.count_pos_iff, List.mem_flatMap]
  have hd := hi.data
  refine ⟨hd, ?_, fun hsized key hk => ?_, fun key hk => ?_, fun key hk => ?_⟩
  · have h := hi.ledger.hits
    rw [← hd, hmade] at h
    exact h.trans (count_updates count_hit_updates _)
  · have h := hi.ledger.keyhits key hk
    rw [← hd, hmade] at h
    exact h.trans (count_updates (count_keyHit_updates hsized key) _)
  · have h := hi.ledger.timestamps key hk
    rw [← hd, hmem] at h
    refine h.trans ?_
    simp only [timestamp_mem_updates]
    exact ⟨fun ⟨c, hc, hs, he⟩ => ⟨hs, he ▸ hc⟩, fun ⟨hs, hc⟩ => ⟨_, hc, hs, rfl⟩⟩
  · have h := hi.ledger.deadlines key hk
    simp only [← hd, hmem] at h
    refine h.trans ⟨fun ⟨ttl, c, hc, hu⟩ => ?_, fun ⟨hh, ttl, hc, ht⟩ => ?_⟩
    · obtain ⟨hh, ttl, rfl, ht⟩ := deadline_mem_updates.1 ⟨ttl, hu⟩
      exact ⟨hh, ttl, hc, ht⟩
    · obtain ⟨t, hu⟩ := deadline_mem_updates.2 ⟨hh, ttl, rfl, ht⟩
      exact ⟨t, _, hc, hu⟩

theorem owedInv_of_run {C : SharedCache W K V × CacheNotes W K → SharedCacheEv W K V → Prop}
    {es : List (SharedCacheEv W K V)}
    (hr : (notedTasks W K V cfg).Run C (notedTasks W K V cfg).init es p) : OwedInv cfg p :=
  hr.inv (OwedInv cfg) ⟨fun _ _ => rfl, fun _ => rfl⟩ fun _ _ _ hi _ hs =>
    (SharedCache.step_cases hs).owedInv hi

theorem inStep_of_run {es : List (SharedCacheEv W K V)}
    (hr : (notedTasks W K V cfg).Run (fun p => p.1.Fresh) (notedTasks W K V cfg).init es p) :
    SharedCache.InStep p :=
  hr.inv SharedCache.InStep ⟨rfl, .init⟩ fun _ _ _ hi hf hs =>
    (SharedCache.step_cases hs).inStep hf hi

/-- **No update is lost** through the runs whose accesses are fresh, and through no others. When all
calls have ended and no key that was set was found overdue, everything is recorded if and only if, the
cache being sized, every key that was set was hit too. It is enough for a fresh run that nobody writes
an entry of `data` between the read and the write of a task. -/
theorem run_recorded_iff {es : List (SharedCacheEv W K V)} :
    let M := notedTasks W K V cfg
    (M.Run (fun p => p.1.Intact cfg) M.init es p ↔ M.Run (fun p => p.1.Fresh) M.init es p) ∧
      (M.Run (fun p => p.1.Fresh) M.init es p → p.1.Quiet → Recorded cfg p.1.cache.data p.2 ∧
        ((∀ key ttl, .set key ttl ∈ p.2.calls → key ∉ p.2.overdue) →
          (AllRecorded cfg p.1.cache.data p.2.calls ↔
            ∀ key ttl, .set key ttl ∈ p.2.calls → cfg.Sized ∧ .hit key ∈ p.2.calls))) ∧
      (M.Run (fun p => p.1.Unchanged) M.init es p → M.Run (fun p => p.1.Fresh) M.init es p) := by
  intro M
  refine ⟨⟨fun h => h.imp fun _ _ hI hs => ?_, fun h => h.imp fun _ _ hf hs s' hs' => ?_⟩,
    fun h hq => ?_, fun h => h.mono fun p e hu => SharedCache.fresh_of_unchanged hu⟩
  · exact (SharedCache.step_cases hs).expected_iff.1 (hI _ (Machine.observe_step.1 hs).1)
  · obtain rfl := Option.some.inj (hs'.symm.trans (Machine.observe_step.1 hs).1)
    exact (SharedCache.step_cases hs).expected_iff.2 hf
  · have hrec := (inStep_of_run h).recorded (owedInv_of_run h) hq
    exact ⟨hrec, hrec.allRecorded_iff⟩

end

/-! ## Two tasks -/

instance {K : Type} (c : CacheTask K) (d : CacheData K) [DecidableEq K] :
    ∀ op, Decidable (c.Unchanged d op)
  | .resetHits => inferInstanceAs (Decidable (d.hits = none))
  | .setHits => inferInstanceAs (Decidable (c.hits = _))
  | .setKeyHit _ | .popKeyhits => inferInstanceAs (Decidable (c.keyhits.items = _))
  | .setTimestamp _ | .popTimestamps => inferInstanceAs (Decidable (c.timestamps.items = _))
  | .setExpiration .. | .popExpirations => inferInstanceAs (Decidable (c.expirations.items = _))
  | .clear => inferInstanceAs (Decidable (c.keys ≠ []))
  | .containsHits | .getHits | .getKeyhits | .getTimestamps | .getExpirations | .getOverdue
  | .checkNumKeys .. | .getNumKeys | .getRanked .. => .isTrue trivial

instance {W K V : Type} [DecidableEq K] (s : SharedCache W K V) : ∀ e, Decidable (s.Unchanged e)
  | .access w => inferInstanceAs (Decidable (∀ op ∈ (s.task w).todo.head?, _))
  | .set .. | .retrieve .. | .advance _ => .isTrue trivial

/-- Two accesses for a `set`, ten for the first hit, nine for the next. -/
def inTurn : List (SharedCacheEv Bool ℕ String) :=
  let run (w : Bool) (call : SharedCacheEv Bool ℕ String) (n : ℕ) :=
    call :: List.replicate n (.access w)
  run false (.set false 1 "a" none) 2 ++ run true (.set true 2 "b" none) 2 ++
    run false (.retrieve false 1) 10 ++ run true (.retrieve true 2) 9

/-- One call after the other. -/
theorem run_recorded_inTurn :
    let M := notedTasks Bool ℕ String { cacheMaxSize := some 2 }
    ∃ p, M.Run (fun p => p.1.Intact { cacheMaxSize := some 2 }) M.init inTurn p ∧
      Recorded { cacheMaxSize := some 2 } p.1.cache.data p.2 ∧
      AllRecorded { cacheMaxSize := some 2 } p.1.cache.data p.2.calls ∧
      p.2.calls = [.hit 2, .hit 1, .set 2 none, .set 1 none] ∧ p.2.overdue = [] ∧
      p.1.cache.data.expirations.items = [(1, 600), (2, 600)] := by
  intro M
  obtain ⟨p, hr, hq, hnotes⟩ : ∃ p, M.Run (fun p => p.1.Unchanged) M.init inTurn p ∧
      (∀ w, (p.1.task w).todo = []) ∧
      p.2.calls = [.hit 2, .hit 1, .set 2 none, .set 1 none] ∧ p.2.overdue = [] ∧
      p.1.cache.data.expirations.items = [(1, 600), (2, 600)] :=
    Machine.exists_run (by decide +kernel) (by decide +kernel)
  have hfresh := run_recorded_iff.2.2 hr
  obtain ⟨hrec, hall⟩ := run_recorded_iff.2.1 hfresh hq
  have hover : ∀ key ttl, .set key ttl ∈ p.2.calls → key ∉ p.2.overdue := by simp [hnotes.2.1]
  refine ⟨p, run_recorded_iff.1.2 hfresh, hrec, (hall hover).2 fun key ttl hc => ?_, hnotes⟩
  rw [hnotes.1] at hc ⊢
  refine ⟨⟨rfl, rfl⟩, ?_⟩
  simp only [List.mem_cons, CacheCall.set.injEq, reduceCtorEq, false_or, List.not_mem_nil,
    or_false] at hc
  rcases hc with ⟨rfl, -⟩ | ⟨rfl, -⟩ <;> simp

/-- Two tasks set their keys together: the deadline of the first one is lost. They hit together: one
hit is. A single `set` in a sized hash records no time. -/
theorem run_recorded_broken :
    let M := notedTasks Bool ℕ String {}
    let M' := notedTasks Bool ℕ String { cacheMaxSize := some 2 }
    (∃ p, M.Run Machine.Any M.init
        [.set false 1 "a" none, .set true 2 "b" none, .access false, .access true, .access false,
          .access true, .retrieve false 1, .access false, .access false, .retrieve true 2,
          .access false, .access true, .access true, .access false, .access true, .access false,
          .access true] p ∧
      p.1.Quiet ∧ p.2.calls = [.hit 2, .hit 1, .set 2 none, .set 1 none] ∧ p.2.overdue = [] ∧
      p.1.cache.data.expirations.items = [(2, 600)] ∧ p.1.cache.data.hits = some 1 ∧
      ¬ AllRecorded {} p.1.cache.data p.2.calls) ∧
    ∃ p, M'.Run Machine.Any M'.init [.set false 1 "a" none, .access false, .access false] p ∧
      p.1.Quiet ∧ ¬ AllRecorded { cacheMaxSize := some 2 } p.1.cache.data p.2.calls := by
  intro M M'
  constructor
  · obtain ⟨p, hr, hq, hcalls, hover, hexp, hhits⟩ : ∃ p, M.Run Machine.Any M.init
        [.set false 1 "a" none, .set true 2 "b" none, .access false, .access true, .access false,
          .access true, .retrieve false 1, .access false, .access false, .retrieve true 2,
          .access false, .access true, .access true, .access false, .access true, .access false,
          .access true] p ∧
        (∀ w, (p.1.task w).todo = []) ∧ p.2.calls = [.hit 2, .hit 1, .set 2 none, .set 1 none] ∧
        p.2.overdue = [] ∧ p.1.cache.data.expirations.items = [(2, 600)] ∧
        p.1.cache.data.hits = some 1 :=
      Machine.exists_run (by decide +kernel) (by decide +kernel)
    refine ⟨p, hr, hq, hcalls, hover, hexp, hhits, fun h => ?_⟩
    have hcount := h.hits
    rw [hhits, hcalls] at hcount
    exact absurd hcount (by decide)
  · obtain ⟨p, hr, hq, hcalls, htime⟩ : ∃ p, M'.Run Machine.Any M'.init
        [.set false 1 "a" none, .access false, .access false] p ∧
        (∀ w, (p.1.task w).todo = []) ∧ p.2.calls = [.set 1 none] ∧
        p.1.cache.data.timestamps.get? 1 = none :=
      Machine.exists_run (by decide +kernel) (by decide +kernel)
    refine ⟨p, hr, hq, fun h => ?_⟩
    have hsome := h.timestamps 1 none (by simp [hcalls])
    rw [htime] at hsome
    cases hsome

end Kvdb
