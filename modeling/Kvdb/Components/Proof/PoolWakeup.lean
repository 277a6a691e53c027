import Kvdb.Components.Proof.PoolLedger

/-!
# No lost wakeup

`Alert` is the invariant of the condition of the optimized pool: if a task sleeps that nobody has
notified, then the limit is reached, and every available connection has a task that was notified of
it. A task that was woken takes a connection or finds none; a release adds one connection and one
notified task, or nobody sleeps.
-/

namespace Kvdb

namespace PoolAt

/-- In none of `warm_pool` and `disconnect`. -/
def Client : PoolAt → Prop
  | .warmLock _ | .warming _ _ | .closeLock | .closingAll => False
  | _ => True

end PoolAt

theorem client_afterAwait {cfg : PoolConfig} {p p' : PoolAt} {o : AwaitOutcome}
    (h : afterAwait cfg p o = some p') : p'.Client ∧ p' ≠ .waiting := by
  unfold afterAwait at h
  split at h <;> cases h <;> (try split) <;> simp [PoolAt.Client]

namespace Pool

variable {T : Type} [DecidableEq T] {cfg : PoolConfig} {s s' : Pool T} {t : T}

/-- `get_connection` and `release` without cancellation. -/
def Calm (_ : Pool T) : PoolEv T → Prop
  | .get _ | .release _ => True
  | .warm _ _ | .disconnect _ => False
  | .proceed _ o _ => o ≠ .raised .cancelled

instance (s : Pool T) : ∀ e, Decidable (s.Calm e)
  | .get _ | .release _ => .isTrue trivial
  | .warm _ _ | .disconnect _ => .isFalse id
  | .proceed _ o _ => inferInstanceAs (Decidable (o ≠ .raised .cancelled))

/-- No task can go on; a task that holds a connection does not release it. -/
def Quiescent (cfg : PoolConfig) (s : Pool T) : Prop :=
  ∀ t b wake, s.proceed cfg t (.returned b) wake = none

/-- The tasks in `W` are asleep; `slack` connections are available beyond the notified tasks. -/
structure Alert (cfg : PoolConfig) (W : T → Prop) (slack : ℕ) (s : Pool T) : Prop where
  client : ∀ u, (s.place u).Client
  lock : s.lock = none
  nodup : (s.waiters ++ s.notified).Nodup
  asleep : ∀ u, u ∈ s.waiters ∨ u ∈ s.notified ↔ W u
  heard : s.waiters ≠ [] →
    cfg.maxConnections ≤ s.created ∧ s.available.length ≤ s.notified.length + slack

/-- The tasks in `wait`. -/
def Asleep (s : Pool T) (u : T) : Prop := s.place u = .waiting

/-- Those other than `t`. -/
def Others (s : Pool T) (t u : T) : Prop := u ≠ t ∧ s.place u = .waiting

omit [DecidableEq T] in
theorem Alert.others (h : s.Alert cfg s.Asleep 0) (ht : s.place t ≠ .waiting) :
    s.Alert cfg (s.Others t) 0 := by
  refine { h with asleep := fun u => (h.asleep u).trans ⟨fun hu => ⟨?_, hu⟩, And.right⟩ }
  rintro rfl
  exact ht hu

/-- The task comes to `p`, and does not sleep. -/
theorem Alert.arrive {k k' : ℕ} (h : s.Alert cfg (s.Others t) k) {p : PoolAt} (hc : p.Client)
    (hp : p ≠ .waiting) (hplace : s'.place = Function.update s.place t p) (hlock : s'.lock = s.lock)
    (hw : s'.waiters = s.waiters) (hn : s'.notified = s.notified) (hcr : s.created ≤ s'.created)
    (ha : s.waiters ≠ [] → s'.available.length ≤ s.notified.length + k') :
    s'.Alert cfg s'.Asleep k' where
  client u := by
    rw [hplace]
    rcases eq_or_ne u t with rfl | hu
    · simpa using hc
    · simpa [hu] using h.client u
  lock := hlock.trans h.lock
  nodup := by
    rw [hw, hn]
    exact h.nodup
  asleep u := by
    rw [hw, hn, h.asleep u, Asleep, hplace, Others]
    rcases eq_or_ne u t with rfl | hu
    · simpa using hp
    · simp [hu]
  heard hne := by
    rw [hw] at hne
    rw [hn]
    exact ⟨(h.heard hne).1.trans hcr, ha hne⟩

/-- The task comes to `p` and leaves the rest as it was. -/
theorem Alert.go (h : s.Alert cfg s.Asleep 0) (ht : s.place t ≠ .waiting) {p : PoolAt}
    (hc : p.Client) (hp : p ≠ .waiting) : (s.go t p).Alert cfg (s.go t p).Asleep 0 :=
  (h.others ht).arrive hc hp rfl rfl rfl rfl le_rfl fun hne => (h.heard hne).2

/-- The task goes to sleep: there is no connection, and the limit is reached. -/
theorem Alert.sleep {k : ℕ} (h : s.Alert cfg (s.Others t) k) (ha : s.available = [])
    (hmax : cfg.maxConnections ≤ s.created) :
    ({ s with waiters := s.waiters ++ [t] }.go t .waiting : Pool T).Alert cfg
      ({ s with waiters := s.waiters ++ [t] }.go t .waiting : Pool T).Asleep 0 where
  client u := by
    rcases eq_or_ne u t with rfl | hu
    · simp [Pool.go, PoolAt.Client]
    · simpa [Pool.go, hu] using h.client u
  lock := h.lock
  nodup := by
    have ht : ¬(t ∈ s.waiters ∨ t ∈ s.notified) := fun ht => ((h.asleep t).1 ht).1 rfl
    rw [not_or] at ht
    simp only [Pool.go, List.append_assoc, List.singleton_append]
    rw [List.nodup_middle, List.nodup_cons, List.mem_append, not_or]
    exact ⟨ht, h.nodup⟩
  asleep u := by
    have hu := h.asleep u
    rcases eq_or_ne u t with rfl | hne
    · simp [Pool.go, Asleep]
    · simp only [Pool.go, Asleep, List.mem_append, List.mem_singleton, hne, or_false, hu, Others]
      simp [hne]
  heard _ := ⟨hmax, by simp [Pool.go, ha]⟩

omit [DecidableEq T] in
/-- A notification makes up for one connection. -/
theorem Alert.notify {W : T → Prop} {wake : ℕ} (h : s.Alert cfg W 1)
    (hn : s.notify wake = some s') : s'.Alert cfg W 0 := by
  unfold Pool.notify at hn
  split at hn
  · rename_i w hw
    cases hn
    have hperm : (s.waiters.eraseIdx wake ++ (s.notified ++ [w])).Perm (s.waiters ++ s.notified) := by
      obtain ⟨hlt, rfl⟩ := List.getElem?_eq_some_iff.1 hw
      have := List.getElem_cons_eraseIdx_perm hlt
      calc s.waiters.eraseIdx wake ++ (s.notified ++ [s.waiters[wake]])
        _ = (s.waiters.eraseIdx wake ++ s.notified) ++ [s.waiters[wake]] := by simp
        _ |>.Perm <| s.waiters[wake] :: (s.waiters.eraseIdx wake ++ s.notified) :=
          List.perm_append_singleton ..
        _ |>.Perm <| s.waiters ++ s.notified := this.append_right _
    refine ⟨h.client, h.lock, hperm.nodup_iff.2 h.nodup, fun u => ?_, fun hne => ?_⟩
    · rw [← h.asleep u, ← List.mem_append, hperm.mem_iff, List.mem_append]
    · have hne' : s.waiters ≠ [] := by
        rintro heq
        rw [heq] at hw
        cases hw
      obtain ⟨hmax, hlen⟩ := h.heard hne'
      refine ⟨hmax, ?_⟩
      simp only [List.length_append, List.length_singleton]
      omega
  · split at hn <;> cases hn
    rename_i hw
    exact { h with heard := fun hne => absurd hw hne }

/-! ## Steps -/

theorem alert_slowPath (h : s.Alert cfg s.Asleep 0) (ht : s.place t = .slow) :
    (s.slowPath cfg t).Alert cfg (s.slowPath cfg t).Asleep 0 := by
  have ht' : s.place t ≠ .waiting := by simp [ht]
  unfold slowPath
  split
  · rename_i c rest ha
    refine (h.others ht').arrive (p := .checking c) trivial nofun rfl rfl rfl rfl le_rfl fun hne => ?_
    have := (h.heard hne).2
    simp only [ha, List.length_cons] at this
    show rest.length ≤ _
    omega
  · split
    · exact h.go ht' trivial nofun
    · rename_i ha hmax
      refine (h.others ht').arrive (p := .checking s.made) trivial nofun rfl rfl rfl rfl ?_ fun hne => ?_
      · show s.created ≤ s.created + 1 + 1
        omega
      · exact absurd (h.heard hne).1 hmax

/-- A notified task wakes up, for one connection at most. -/
theorem alert_woken (h : s.Alert cfg s.Asleep 0) (ht : t ∈ s.notified) :
    Alert cfg (s.Others t) 1 { s with notified := s.notified.erase t } where
  client := h.client
  lock := h.lock
  nodup := h.nodup.sublist ((List.erase_sublist ..).append_left _)
  asleep u := by
    obtain ⟨-, hn, hd⟩ := List.nodup_append.1 h.nodup
    rw [hn.mem_erase_iff, Others, ← Asleep, ← h.asleep u]
    constructor
    · rintro (hu | ⟨hne, hu⟩)
      · exact ⟨hd u hu t ht, .inl hu⟩
      · exact ⟨hne, .inr hu⟩
    · rintro ⟨hne, hu | hu⟩
      · exact .inl hu
      · exact .inr ⟨hne, hu⟩
  heard hne := by
    obtain ⟨hmax, hlen⟩ := h.heard hne
    refine ⟨hmax, ?_⟩
    have hpos := List.length_pos_of_mem ht
    simp only [List.length_erase_of_mem ht]
    omega

theorem alert_waitPath (h : s.Alert cfg (s.Others t) 1) (hO : s.ledger.Owned cfg) :
    (s.waitPath cfg t).Alert cfg (s.waitPath cfg t).Asleep 0 := by
  unfold waitPath
  split
  · rename_i c rest ha
    split
    · rename_i hc
      have hmem : c ∈ s.ledger.available := by
        show c ∈ s.available
        simp [ha]
      exact absurd hc (hO.available c hmem).1
    · refine h.arrive (p := .checking c) trivial nofun rfl rfl rfl rfl le_rfl fun hne => ?_
      have := (h.heard hne).2
      simp only [ha, List.length_cons] at this
      show rest.length ≤ _
      omega
  · split
    · rename_i ha hmax
      refine h.arrive (p := .checking s.made) trivial nofun rfl rfl rfl rfl ?_ fun hne => ?_
      · show s.created ≤ s.created + 1 + 1
        omega
      · exact absurd (h.heard hne).1 (not_le.2 hmax)
    · exact h.sleep ‹_› (not_lt.1 ‹_›)

theorem alert_release (hk : cfg.kind = .optimized) (h : s.Alert cfg s.Asleep 0) {c : ℕ} {p : PoolAt}
    {o : AwaitOutcome} {wake : ℕ} (ht : s.place t ≠ .waiting) (ho : o ≠ .raised .cancelled)
    (hs : s.release cfg t c p o wake = some s') : s'.Alert cfg s'.Asleep 0 := by
  unfold release at hs
  split at hs
  · rw [if_pos hk, if_pos h.lock] at hs
    split at hs
    · rename_i hc
      have h1 : ((s.releaseConnection c).go t .idle).Alert cfg
          ((s.releaseConnection c).go t .idle).Asleep 1 := by
        rw [releaseConnection, if_pos hc]
        refine (h.others ht).arrive (p := .idle) trivial nofun rfl rfl rfl rfl le_rfl fun hne => ?_
        have := (h.heard hne).2
        show s.available.length + 1 ≤ _
        omega
      have hplace : s'.Asleep = ((s.releaseConnection c).go t .idle).Asleep := by
        have : s'.place = _ := congrArg Ledger.place (ledger_notify hs)
        funext u
        rw [Asleep, this]
        rfl
      rw [hplace]
      exact h1.notify hs
    · cases hs
      exact h.go ht trivial nofun
  · exact absurd rfl ho
  · cases hs

theorem alert_proceed (hk : cfg.kind = .optimized) (hO : s.ledger.Owned cfg)
    (h : s.Alert cfg s.Asleep 0) {o : AwaitOutcome} {wake : ℕ} (ho : o ≠ .raised .cancelled)
    (hs : s.proceed cfg t o wake = some s') : s'.Alert cfg s'.Asleep 0 := by
  have hlocked : ∀ {next : Option (Pool T)}, s.locked t o next = some s' → next = some s' := by
    intro next hn
    unfold locked at hn
    split at hn
    · rwa [if_pos h.lock] at hn
    · exact absurd rfl ho
    · cases hn
  have hclient := h.client t
  unfold proceed at hs
  split at hs
  case h_1 c hp =>
    have ht : s.place t ≠ .waiting := by simp [hp]
    cases hlocked hs
    unfold fastPath
    split
    · rename_i hc
      exact absurd hc (hO.limbo t c (congrArg PoolAt.limbo hp))
    · exact (h.others ht).arrive (p := .checking c) trivial nofun rfl rfl rfl rfl le_rfl
        fun hne => (h.heard hne).2
  case h_2 hp =>
    rw [if_pos hk] at hs
    cases hlocked hs
    exact alert_slowPath h hp
  case h_3 hp =>
    cases hlocked hs
    have h1 := h.others (t := t) (by simp [hp])
    exact alert_waitPath { h1 with
      heard := fun hne => ⟨(h1.heard hne).1, (h1.heard hne).2.trans (Nat.le_succ _)⟩ } hO
  case h_4 hp =>
    split at hs
    · split at hs <;> cases hs
      rename_i hn
      exact alert_waitPath (alert_woken h hn.1) hO
    · exact absurd rfl ho
    · cases hs
  case h_5 hp => exact absurd hk (hO.resets t hp)
  case h_6 c hp => exact alert_release hk h (by simp [hp]) ho hs
  case h_7 c hp => exact alert_release hk h (by simp [hp]) ho hs
  case h_8 target hp => simp [hp, PoolAt.Client] at hclient
  case h_9 c target hp => simp [hp, PoolAt.Client] at hclient
  case h_10 hp => simp [hp, PoolAt.Client] at hclient
  case h_11 hp => simp [hp, PoolAt.Client] at hclient
  case h_12 =>
    obtain ⟨p, hp, rfl⟩ := Option.map_eq_some_iff.1 hs
    have ht : s.place t ≠ .waiting := by
      intro hw
      rw [hw] at hp
      cases hp
    obtain ⟨hc, hne⟩ := client_afterAwait hp
    exact h.go ht hc hne

theorem alert_step (hk : cfg.kind = .optimized) (hO : s.ledger.Owned cfg)
    (h : s.Alert cfg s.Asleep 0) {e : PoolEv T} (hC : Calm s e) (hs : s.step cfg e = some s') :
    s'.Alert cfg s'.Asleep 0 := by
  cases e with
  | get t =>
    simp only [step] at hs
    split at hs
    · rename_i hp
      have ht : s.place t ≠ .waiting := by simp [hp]
      split at hs <;> cases hs
      · rename_i c rest ha
        refine (h.others ht).arrive (p := .fast c) trivial (by simp) rfl rfl rfl rfl le_rfl fun hne => ?_
        have := (h.heard hne).2
        simp only [ha, List.length_cons] at this
        show rest.length ≤ _
        omega
      · exact h.go ht trivial (by simp)
    · cases hs
  | release t =>
    simp only [step] at hs
    split at hs
    · rename_i c hp
      cases hs
      exact h.go (by simp [hp]) trivial (by simp)
    · cases hs
  | warm t target => exact hC.elim
  | disconnect t => exact hC.elim
  | proceed t o wake => exact alert_proceed hk hO h hC hs

/-! ## Quiescent states -/

theorem alert_of_run (hk : cfg.kind = .optimized) {es : List (PoolEv T)}
    (h : (poolMachine T cfg).Run Calm (poolMachine T cfg).init es s) : s.Alert cfg s.Asleep 0 := by
  induction h with
  | nil =>
    exact ⟨fun _ => trivial, rfl, List.nodup_nil, fun u => by simp [poolMachine, Asleep],
      fun hne => absurd rfl hne⟩
  | snoc hr hC hs ih => exact alert_step hk (owned_of_run hr) ih hC hs

omit [DecidableEq T] in
theorem notify_isSome : (s.notify 0).isSome := by
  unfold notify
  cases s.waiters <;> simp

theorem release_isSome (hk : cfg.kind = .optimized) (hl : s.lock = none) {c : ℕ} {p : PoolAt} :
    (s.release cfg t c p (.returned true) 0).isSome := by
  show (if cfg.kind = .optimized then _ else _ : Option (Pool T)).isSome
  rw [if_pos hk, if_pos hl]
  split
  · exact notify_isSome
  · rfl

/-- In a quiescent state a task of `get_connection` is asleep, and nobody has notified it. -/
theorem asleep_of_quiescent (hk : cfg.kind = .optimized) (hl : s.lock = none)
    (hq : Quiescent cfg s) (ht : (s.place t).getting) : s.Asleep t ∧ t ∉ s.notified := by
  have hnone := hq t true 0
  unfold proceed at hnone
  cases hp : s.place t with
  | waiting => simpa [hp, hl, Asleep] using hnone
  | restoring c =>
    have hsome := release_isSome (t := t) (c := c) (p := .idle) hk hl
    rw [hp] at hnone
    simp [show s.release cfg t c .idle (.returned true) 0 = none from hnone] at hsome
  | idle | holding | releasing | warmLock | warming | closeLock | closingAll =>
    simp [hp, PoolAt.getting] at ht
  | _ => simp [hp, locked, hl, afterAwait] at hnone

/-- **No wakeup is lost**: if a task is left in `get_connection` when no task can go on, no
connection is available and the limit is reached. -/
theorem exhausted_of_quiescent (hk : cfg.kind = .optimized) {es : List (PoolEv T)}
    (h : (poolMachine T cfg).Run Calm (poolMachine T cfg).init es s) (hq : Quiescent cfg s)
    (ht : (s.place t).getting) : s.available = [] ∧ cfg.maxConnections ≤ s.created := by
  have hA := alert_of_run hk h
  have hnone : s.notified = [] := by
    refine List.eq_nil_iff_forall_not_mem.2 fun u hu => ?_
    have hu' : s.place u = .waiting := (hA.asleep u).1 (.inr hu)
    exact (asleep_of_quiescent (t := u) hk hA.lock hq (by simp [hu', PoolAt.getting])).2 hu
  obtain ⟨hp, hn⟩ := asleep_of_quiescent hk hA.lock hq ht
  have hw : t ∈ s.waiters := ((hA.asleep t).2 hp).resolve_right hn
  obtain ⟨hmax, hlen⟩ := hA.heard (List.ne_nil_of_mem hw)
  rw [hnone] at hlen
  exact ⟨List.length_eq_zero_iff.1 (Nat.le_zero.1 hlen), hmax⟩

/-- With one connection, which the task `true` holds, the task `false` is left asleep. -/
theorem exhausted_alone :
    ∃ s : Pool Bool, s.place false = .waiting ∧ s.available = [] ∧ 1 ≤ s.created := by
  let cfg : PoolConfig := ⟨.optimized, 1, false, false⟩
  let go (t b : Bool) : PoolEv Bool := .proceed t (.returned b) 0
  obtain ⟨s, hr, ht, hf, hn⟩ : ∃ s, (poolMachine Bool cfg).Run Calm (poolMachine Bool cfg).init
      [.get true, go true true, go true true, go true true, go true false, .get false,
        go false true, go false true] s ∧
      s.place true = .holding 0 ∧ s.place false = .waiting ∧ s.notified = [] :=
    Lib.Machine.exists_run (by decide +kernel) (by decide +kernel)
  have hq : Quiescent cfg s := by
    intro t b wake
    cases t <;> simp [proceed, ht, hf, hn, afterAwait]
  have hget : (s.place false).getting := by simp [hf, PoolAt.getting]
  exact ⟨s, hf, exhausted_of_quiescent rfl hr hq hget⟩

end Pool

end Kvdb
