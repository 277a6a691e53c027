import Kvdb.Tasks.Proof.Process

/-!
# The locks of the upkeep scripts

`Act.keys`: what a step makes of the locks, the abort keys and the time of the server. A lock that is
taken stays until its time has passed, whatever anyone does (`Leased`); so two schedule ticks of a route
that found its lock free are as far apart as the first one asked for, and so are two sweeps
(`lease_of_run`).
-/

namespace Kvdb

open Redis Lib TaskQueue

variable {ι V : Type} {c : QueueConfig}

/-- The locks, the abort keys and the time of the server. -/
structure Keys (V : Type) where
  scheduled : TtlMap Route Unit
  sweep : TtlMap Route Unit
  abort : TtlMap String V
  clock : ℕ

def Db.keys (db : Db V) : Keys V := ⟨db.scheduled, db.sweep, db.abort, db.clock⟩

/-- A lock is taken unless it is held. -/
def lockKey (m : TtlMap Route Unit) (now : ℕ) (r : Route) (lock : ℕ) : TtlMap Route Unit :=
  if m.exists? r then m else m.setex now r lock ()

theorem lockKey_of_ne {m : TtlMap Route Unit} {now lock : ℕ} {r r' : Route} (h : r ≠ r') :
    lockKey m now r' lock r = m r := by
  unfold lockKey
  split
  · rfl
  · rw [TtlMap.setex_apply, if_neg h]

theorem lockKey_congr {m m' : TtlMap Route Unit} {lock : ℕ} {r r' : Route} (now : ℕ)
    (h : m r = m' r) (h' : m r' = m' r') : lockKey m now r' lock r = lockKey m' now r' lock r := by
  have hex : m.exists? r' = m'.exists? r' := by rw [TtlMap.exists?, TtlMap.exists?, h']
  rw [lockKey, lockKey, hex]
  split
  · exact h
  · rw [TtlMap.setex_apply, TtlMap.setex_apply, h]

variable (c) in
/-- What a step makes of them. -/
def Act.keys (db : Db V) : Act V → Keys V
  | .schedule r lock _ => { db.keys with scheduled := lockKey db.scheduled db.clock r lock }
  | .cleanup r lock => { db.keys with sweep := lockKey db.sweep db.clock r lock }
  | .abort job error ttl =>
    { db.keys with abort := db.abort.setex db.clock (job.abortId c.toKeyConfig) ttl error }
  | .dropAbort job => { db.keys with abort := db.abort.del (job.abortId c.toKeyConfig) }
  | .advance ms => (db.advance ms).keys
  | _ => db.keys

theorem pushAdd_keys (db : Db V) (jobId : String) : (db.pushAdd c jobId).keys = db.keys := by
  unfold Db.pushAdd; split <;> rfl

theorem pushRemove_keys (db : Db V) (jobId : String) : (db.pushRemove c jobId).keys = db.keys := by
  unfold Db.pushRemove; split <;> rfl

theorem apply_keys (db : Db V) (a : Act V) : (apply c db a).keys = a.keys c db := by
  cases a with
  | enqueue =>
    simp only [apply, TaskQueue.enqueue, enqueueScript, Act.keys]
    (repeat' split) <;> rfl
  | schedule =>
    simp only [apply, scheduleScript, Act.keys, lockKey]
    (repeat' split) <;> rfl
  | cleanup =>
    simp only [apply, cleanupScript, Act.keys, lockKey]
    split <;> rfl
  | finish =>
    simp only [apply, finishTx, pushRemove_keys, Act.keys]
    (repeat' split) <;> rfl
  | retry =>
    simp only [apply, retryTx, Act.keys]
    split <;> rfl
  | reschedule => exact pushAdd_keys (c := c) _ _
  | sweepMissing => exact pushRemove_keys (c := c) _ _
  | pushBg => exact pushAdd_keys _ _
  | removeBg => exact pushRemove_keys _ _
  | _ => rfl

/-! ## Leases -/

/-- The lock of a route is held until `t`. -/
def Leased (m : TtlMap Route Unit) (r : Route) (t : ℕ) : Prop := m r = some ⟨(), some t⟩

theorem leased_lockKey {m : TtlMap Route Unit} {now lock : ℕ} {r : Route}
    (h : m.exists? r = false) : Leased (lockKey m now r lock) r (now + 1000 * lock) := by
  have hn : ¬ m.exists? r = true := by rw [h]; exact Bool.false_ne_true
  rw [Leased, lockKey, if_neg hn, TtlMap.setex_apply, if_pos rfl]

/-- Nobody takes a lock that is held. -/
theorem Leased.lockKey {m : TtlMap Route Unit} {now lock t : ℕ} {r r' : Route}
    (h : Leased m r t) : Leased (lockKey m now r' lock) r t := by
  by_cases hr : r = r'
  · subst hr
    have hex : m.exists? r = true := by rw [TtlMap.exists?, h]; rfl
    rwa [Leased, Kvdb.lockKey, if_pos hex]
  · rwa [Leased, lockKey_of_ne hr]

theorem Leased.evict {m : TtlMap Route Unit} {now t : ℕ} {r : Route} (h : Leased m r t)
    (ht : now < t) : Leased (m.evict now) r t := by
  have hm : m r = some ⟨(), some t⟩ := h
  rw [Leased, TtlMap.evict, hm, Option.filter_some]
  simp [ht]

variable {db : Db V} {a : Act V} {r : Route} {t : ℕ}

theorem clock_mono (db : Db V) (a : Act V) : db.clock ≤ (apply c db a).clock := by
  refine le_trans ?_ (congrArg Keys.clock (apply_keys (c := c) db a)).ge
  cases a with
  | advance ms => exact Nat.le_add_right _ _
  | _ => exact le_rfl

/-- The upkeep that a lock is for. -/
inductive Upkeep
  | schedule
  | sweep
  deriving DecidableEq

def Upkeep.locks (k : Upkeep) (db : Db V) : TtlMap Route Unit :=
  match k with
  | .schedule => db.scheduled
  | .sweep => db.sweep

variable {k : Upkeep}

/-- A lock outlasts every step before its time. -/
theorem Leased.apply (h : Leased (k.locks db) r t) (ht : (apply c db a).clock < t) :
    Leased (k.locks (apply c db a)) r t := by
  have hkeys := apply_keys (c := c) db a
  have hclock : (a.keys c db).clock < t := (congrArg Keys.clock hkeys) ▸ ht
  cases k with
  | schedule =>
    have hlock : (Kvdb.apply c db a).scheduled = (a.keys c db).scheduled :=
      congrArg Keys.scheduled hkeys
    rw [Upkeep.locks, hlock]
    cases a with
    | schedule => exact h.lockKey
    | advance ms => exact h.evict hclock
    | _ => exact h
  | sweep =>
    have hlock : (Kvdb.apply c db a).sweep = (a.keys c db).sweep := congrArg Keys.sweep hkeys
    rw [Upkeep.locks, hlock]
    cases a with
    | cleanup => exact h.lockKey
    | advance ms => exact h.evict hclock
    | _ => exact h

/-- The step is an upkeep of the route that finds its lock free and takes it for `lock` seconds. -/
def Ev.Takes (k : Upkeep) (r : Route) (lock : ℕ) (s : Sys ι V) : Ev ι V → Prop
  | .schedule r' lock' _ => k = .schedule ∧ r' = r ∧ lock' = lock ∧ s.db.scheduled.exists? r = false
  | .move _ (.sweep r' lock') => k = .sweep ∧ r' = r ∧ lock' = lock ∧ s.db.sweep.exists? r = false
  | _ => False

variable [DecidableEq ι] {s u v : Sys ι V} {e e' : Ev ι V} {es : List (Ev ι V)} {lock lock' : ℕ}

theorem step_db (h : (system c).step s e = some u) : ∃ a, u.db = apply c s.db a := by
  obtain ⟨⟨a, tasks⟩, -, rfl⟩ := Option.map_eq_some_iff.1 h
  exact ⟨a, rfl⟩

omit [DecidableEq ι] in
theorem Ev.Takes.free (h : e.Takes k r lock s) : (k.locks s.db).exists? r = false := by
  cases e with
  | schedule =>
    obtain ⟨rfl, -, -, hf⟩ := h
    exact hf
  | move i m =>
    cases m with
    | sweep =>
      obtain ⟨rfl, -, -, hf⟩ := h
      exact hf
    | _ => exact h.elim
  | _ => exact h.elim

theorem scheduled_schedule (db : Db V) (r : Route) (lock : ℕ) (now : ℚ) :
    (apply c db (.schedule r lock now)).scheduled = lockKey db.scheduled db.clock r lock :=
  congrArg Keys.scheduled (apply_keys db _)

theorem sweep_cleanup (db : Db V) (r : Route) (lock : ℕ) :
    (apply c db (.cleanup r lock)).sweep = lockKey db.sweep db.clock r lock :=
  congrArg Keys.sweep (apply_keys db _)

theorem Ev.Takes.leased (h : e.Takes k r lock s) (hs : (system c).step s e = some u) :
    Leased (k.locks u.db) r (s.db.clock + 1000 * lock) := by
  have hstep := sysStep_of_step hs
  cases hstep with
  | schedule =>
    obtain ⟨rfl, rfl, rfl, hf⟩ := h
    rw [Upkeep.locks, scheduled_schedule]
    exact leased_lockKey hf
  | @move i m a t hm =>
    generalize s.tasks i = ti at hm
    cases hm with
    | locked | sweep =>
      obtain ⟨rfl, rfl, rfl, hf⟩ := h
      rw [Upkeep.locks, sweep_cleanup]
      exact leased_lockKey hf
    | _ => exact h.elim
  | _ => exact h.elim

/-- A lock outlasts every run that ends before its time. -/
theorem Leased.run (h : Leased (k.locks u.db) r t) (hr : (system c).Run Machine.Any u es v)
    (ht : v.db.clock < t) : Leased (k.locks v.db) r t := by
  induction hr with
  | nil => exact h
  | snoc _ _ hs ih =>
    obtain ⟨a, ha⟩ := step_db hs
    rw [ha] at ht ⊢
    exact (ih (lt_of_le_of_lt (clock_mono _ a) ht)).apply ht

/-- **Two upkeeps of a route**, by any of its workers, are as far apart as the first one asked for. -/
theorem lease_of_run (he : e.Takes k r lock s) (hs : (system c).step s e = some u)
    (hr : (system c).Run Machine.Any u es v) (he' : e'.Takes k r lock' v) :
    s.db.clock + 1000 * lock ≤ v.db.clock := by
  by_contra hlt
  have hheld : (k.locks v.db) r = some ⟨(), some _⟩ := (he.leased hs).run hr (not_le.1 hlt)
  have hfree := he'.free
  rw [TtlMap.exists?, hheld] at hfree
  cases hfree

/-- Two ticks of a route, the first with a lock of one second. -/
theorem lease_ticks :
    ∃ u v : Sys (Fin 1) String, (system {}).step {} (.schedule none 1 0) = some u ∧
      (system {}).Run Machine.Any u [.advance 1200] v ∧ 1000 ≤ v.db.clock := by
  have hrun : ∃ v : Sys (Fin 1) String, (system {}).Run Machine.Any
      { db := apply {} {} (.schedule none 1 0) } [.advance 1200] v ∧
      v.db.scheduled.exists? none = false :=
    Machine.exists_run (by decide +kernel) (by decide +kernel)
  obtain ⟨v, hr, hf⟩ := hrun
  have he : (.schedule none 1 0 : Ev (Fin 1) String).Takes .schedule none 1 {} :=
    ⟨rfl, rfl, rfl, rfl⟩
  have he' : (.schedule none 1 1 : Ev (Fin 1) String).Takes .schedule none 1 v :=
    ⟨rfl, rfl, rfl, hf⟩
  exact ⟨_, v, rfl, hr, lease_of_run he rfl hr he'⟩

end Kvdb
