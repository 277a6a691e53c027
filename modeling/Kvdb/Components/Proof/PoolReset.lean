import Kvdb.Components.Proof.PoolCapacity

/-!
# The reset of an exhausted pool

With `auto_reset_enabled` an exhausted base pool disconnects its connections, those in use as well,
and drops them from its collections. `BaseMove` is everything that a step of a base pool does;
`Steady` is the invariant of the runs in which no task has a connection when that happens. In those
runs, and in no others, the callers keep their connections and their number is within the limit
(`run_keepsCallers_iff`).
-/

namespace Kvdb

open Lib (update_cases)

/-- A task of the base pools can be there. -/
def PoolAt.base : PoolAt → Bool
  | .fast _ | .blocking | .waiting | .warmLock _ | .warming _ _ => false
  | _ => true

theorem base_afterAwait {cfg : PoolConfig} {p p' : PoolAt} {o : AwaitOutcome}
    (h : afterAwait cfg p o = some p') : p'.base := by
  unfold afterAwait at h
  split at h <;> cases h <;> (try split) <;> rfl

namespace Pool

variable {T : Type} [DecidableEq T] {cfg : PoolConfig} {s s' : Pool T} {t : T}

/-- `get_connection` of the base pools finds the pool exhausted and calls `reset_pool`. -/
def Exhausts (cfg : PoolConfig) (s : Pool T) : PoolEv T → Prop
  | .proceed t (.returned _) _ =>
    cfg.autoReset ∧ s.place t = .slow ∧ s.lock = none ∧ s.available = [] ∧
      cfg.maxConnections ≤ s.created
  | _ => False

/-- What a step of the task `t` of a base pool does. -/
inductive BaseMove (cfg : PoolConfig) (s : Pool T) (t : T) (e : PoolEv T) : Pool T → Prop
  | pass {l : Option T} {p : PoolAt} (h : (s.place t).Passes p) (hb : p.base) (hr : p ≠ .resetting) :
    BaseMove cfg s t e { s with lock := l, place := Function.update s.place t p }
  | take {c : ℕ} {rest : List ℕ} (ha : s.available = c :: rest) (hp : s.place t = .slow)
      (hl : s.lock = none) :
    BaseMove cfg s t e
      ({ s with available := rest, inUse := insert c s.inUse }.go t (.connecting c))
  | make (ha : s.available = []) (hmax : s.created < cfg.maxConnections) (hp : s.place t = .slow)
      (hl : s.lock = none) :
    BaseMove cfg s t e (s.addMade.go t (.connecting s.made))
  | resetSync (hx : s.Exhausts cfg e) (hp : s.place t = .slow) (hl : s.lock = none) :
    BaseMove cfg s t e (s.reset.addMade.go t (.connecting s.made))
  | resetting (hx : s.Exhausts cfg e) (hp : s.place t = .slow) (hl : s.lock = none) :
    BaseMove cfg s t e ({ s with lock := some t }.go t .resetting)
  | resetAsync (hp : s.place t = .resetting) :
    BaseMove cfg s t e ({ s.reset.addMade with lock := none }.go t (.connecting s.made))
  | giveBack {c : ℕ} (hp : s.place t = .restoring c ∨ s.place t = .releasing c) :
    BaseMove cfg s t e ((s.releaseConnection c).go t .idle)

theorem baseMove_go {e : PoolEv T} {q p : PoolAt} (hq : s.place t = q) (h : q.Passes p)
    (hb : p.base) (hr : p ≠ .resetting) : s.BaseMove cfg t e (s.go t p) :=
  .pass (by rwa [hq]) hb hr

theorem baseMove_basePath {b : Bool} {wake : ℕ} (hp : s.place t = .slow) (hl : s.lock = none) :
    s.BaseMove cfg t (.proceed t (.returned b) wake) (s.basePath cfg t) := by
  unfold basePath
  split
  · exact .take ‹_› hp hl
  · rename_i ha
    split
    · exact .make ha ‹_› hp hl
    · rename_i hmax
      split
      · rename_i hauto
        have hx : s.Exhausts cfg (.proceed t (.returned b) wake) := ⟨hauto, hp, hl, ha, not_lt.1 hmax⟩
        split
        · exact .resetSync hx hp hl
        · exact .resetting hx hp hl
      · exact .pass (.inl rfl) rfl nofun

theorem baseMove_release (hk : cfg.kind ≠ .optimized) {e : PoolEv T} {c : ℕ} {p : PoolAt}
    {o : AwaitOutcome} {wake : ℕ} (hp : s.place t = .restoring c ∨ s.place t = .releasing c)
    (h : s.release cfg t c p o wake = some s') : s.BaseMove cfg t e s' := by
  unfold release at h
  split at h
  · rw [if_neg hk] at h
    split at h <;> cases h
    exact .giveBack hp
  · rw [if_neg hk] at h
    cases h
  · cases h

theorem baseMove_proceed (hk : cfg.kind ≠ .optimized) {o : AwaitOutcome} {wake : ℕ}
    (hb : (s.place t).base) (h : s.proceed cfg t o wake = some s') :
    s.BaseMove cfg t (.proceed t o wake) s' := by
  -- a task that waits for the lock comes away with it, or it is cancelled
  have hlocked : ∀ {next : Option (Pool T)}, s.locked t o next = some s' →
      (∀ b, o = .returned b → s.lock = none → ∀ u, next = some u →
        s.BaseMove cfg t (.proceed t o wake) u) → s.BaseMove cfg t (.proceed t o wake) s' := by
    intro next h hnext
    unfold locked at h
    split at h
    · split at h
      · exact hnext _ rfl ‹_› s' h
      · cases h
    · cases h
      exact .pass (.inl rfl) rfl nofun
    · cases h
  unfold proceed at h
  split at h
  case h_1 c hp => simp [hp, PoolAt.base] at hb
  case h_2 hp =>
    refine hlocked h fun b ho hl u hu => ?_
    subst ho
    rw [if_neg hk] at hu
    cases hu
    exact baseMove_basePath hp hl
  case h_3 hp => simp [hp, PoolAt.base] at hb
  case h_4 hp => simp [hp, PoolAt.base] at hb
  case h_5 hp =>
    split at h
    · cases h
      exact .resetAsync hp
    · cases h
      exact .pass (.inl rfl) rfl nofun
    · cases h
  case h_6 c hp => exact baseMove_release hk (.inl hp) h
  case h_7 c hp => exact baseMove_release hk (.inr hp) h
  case h_8 target hp => simp [hp, PoolAt.base] at hb
  case h_9 c target hp => simp [hp, PoolAt.base] at hb
  case h_10 hp =>
    refine hlocked h fun b ho hl u hu => ?_
    cases hu
    exact .pass (.inr (by rw [hp]; exact ⟨rfl, rfl, rfl⟩)) rfl nofun
  case h_11 hp =>
    cases h
    exact .pass (.inl rfl) rfl nofun
  case h_12 =>
    obtain ⟨p, hp, rfl⟩ := Option.map_eq_some_iff.1 h
    exact .pass (passes_afterAwait hp) (base_afterAwait hp) fun hr => afterAwait_ne_resetting (hr ▸ hp)

theorem baseMove_of_step (hk : cfg.kind ≠ .optimized) {e : PoolEv T} (hb : ∀ t, (s.place t).base)
    (h : s.step cfg e = some s') : s.BaseMove cfg e.task e s' := by
  cases e with
  | get t =>
    simp only [step, if_neg hk] at h
    split at h
    · rename_i hp
      cases h
      exact baseMove_go hp (.inr ⟨rfl, rfl, rfl⟩) rfl (by simp)
    · cases h
  | release t =>
    simp only [step] at h
    split at h
    · rename_i hp
      cases h
      exact baseMove_go hp (.inr ⟨rfl, rfl, rfl⟩) rfl (by simp)
    · cases h
  | warm t target =>
    simp only [step, hk, and_false] at h
    cases h
  | disconnect t =>
    simp only [step] at h
    split at h
    · rename_i hp
      cases h
      exact baseMove_go hp (.inr ⟨rfl, rfl, rfl⟩) rfl (by simp)
    · cases h
  | proceed t o wake => exact baseMove_proceed hk (hb t) h

/-! ## Runs without a reset under the callers -/

/-- Nobody has a connection when the pool is found exhausted. -/
def ResetsAlone (cfg : PoolConfig) (s : Pool T) (e : PoolEv T) : Prop :=
  s.Exhausts cfg e → ∀ t, (s.place t).hand = none

/-- The callers keep their connections in a step: none is disconnected by `reset_pool`, and after
the step the pool knows them all, and there are not too many of them. -/
structure KeepsCallers (cfg : PoolConfig) (s : Pool T) (e : PoolEv T) : Prop where
  connected : s.Exhausts cfg e → ∀ t c, (s.place t).hand = some c → c ∉ s.inUse
  known : ∀ s', s.step cfg e = some s' → ∀ t c, (s'.place t).hand = some c → c ∈ s'.inUse
  capped : ∀ s', s.step cfg e = some s' → ∀ D : Finset ℕ,
    (∀ c ∈ D, ∃ t, (s'.place t).hand = some c) → D.card ≤ cfg.maxConnections

/-- Every connection of a base pool is counted, and what the tasks have is in use. -/
structure Steady (cfg : PoolConfig) (s : Pool T) : Prop where
  base : ∀ t, (s.place t).base
  kept : s.Kept
  counted : s.available.length + s.inUse.card ≤ s.created
  created : s.created ≤ cfg.maxConnections
  known : ∀ t c, (s.place t).hand = some c → c ∈ s.inUse
  alone : ∀ t, s.place t = .resetting → ∀ t', (s.place t').hand = none

omit [DecidableEq T] in
theorem Steady.capped (h : s.Steady cfg) {D : Finset ℕ}
    (hD : ∀ c ∈ D, ∃ t, (s.place t).hand = some c) : D.card ≤ cfg.maxConnections := by
  have hsub : D ⊆ s.inUse := fun c hc => by
    obtain ⟨t, ht⟩ := hD c hc
    exact h.known t c ht
  have hcard := Finset.card_le_card hsub
  have hcounted := h.counted
  have hcreated := h.created
  omega

/-- The task `t` comes to the place `p`; what the others have stays in use. A task that is resetting
the pool is alone. -/
theorem Steady.update (h : s.Steady cfg) {p : PoolAt} (hplace : s'.place = Function.update s.place t p)
    (hbase : p.base) (hkept : s'.Kept) (hcounted : s'.available.length + s'.inUse.card ≤ s'.created)
    (hcreated : s'.created ≤ cfg.maxConnections)
    (hothers : ∀ t' c, t' ≠ t → (s.place t').hand = some c → c ∈ s.inUse → c ∈ s'.inUse)
    (hown : ∀ c, p.hand = some c → c ∈ s'.inUse)
    (halone : p = .resetting → ∀ t', (s.place t').hand = none)
    (hnobody : ∀ t', t' ≠ t → s.place t' = .resetting → p.hand = none) : s'.Steady cfg := by
  refine ⟨fun t' => ?_, hkept, hcounted, hcreated, fun t' c hc => ?_, fun t' hr t'' => ?_⟩
  · rcases update_cases (congrFun hplace t').symm with ⟨-, hp⟩ | ⟨-, hp⟩
    · exact hp ▸ hbase
    · exact hp ▸ h.base t'
  · rcases update_cases (congrFun hplace t').symm with ⟨-, hp⟩ | ⟨hne, hp⟩
    · exact hown c (hp ▸ hc)
    · rw [← hp] at hc
      exact hothers t' c hne hc (h.known t' c hc)
  · have hnone : ∀ t'', t'' ≠ t → (s.place t'').hand = none := by
      rcases update_cases (congrFun hplace t').symm with ⟨-, hp⟩ | ⟨-, hp⟩
      · exact fun t'' _ => halone (hp.trans hr) t''
      · exact fun t'' _ => h.alone t' (hp.trans hr) t''
    rcases update_cases (congrFun hplace t'').symm with ⟨-, hp⟩ | ⟨hne, hp⟩
    · rw [← hp]
      rcases update_cases (congrFun hplace t').symm with ⟨-, hp'⟩ | ⟨hne', hp'⟩
      · rw [hp'.trans hr]
        rfl
      · exact hnobody t' hne' (hp'.trans hr)
    · rw [← hp]
      exact hnone t'' hne

omit [DecidableEq T] in
/-- Nobody is resetting the pool when the lock is free. -/
theorem Steady.ne_resetting (h : s.Steady cfg) (hl : s.lock = none) (t : T) :
    s.place t ≠ .resetting := by
  intro hp
  have hlock := h.kept t (by rw [hp]; rfl)
  rw [hl] at hlock
  cases hlock

theorem steady_step (hk : cfg.kind ≠ .optimized) (hmax : 0 < cfg.maxConnections)
    (hO : s.ledger.Owned cfg) (h : s.Steady cfg) {e : PoolEv T} (hC : s.ResetsAlone cfg e)
    (hs : s.step cfg e = some s') : s'.Steady cfg := by
  have hkept : s'.Kept := kept_step h.kept (lock_step hs) fun t ht =>
    (move_of_step hO.resets hs).place_of_ne ht
  have hcounted := h.counted
  have hcreated := h.created
  cases baseMove_of_step hk h.base hs with
  | @pass l p hp hb hr =>
    refine h.update rfl hb hkept hcounted hcreated (fun _ _ _ _ hc => hc) (fun c hc => ?_)
      (fun hp => absurd hp hr) fun t' _ ht' => ?_
    · rcases hp with rfl | ⟨hhand, -, -⟩
      · cases hc
      · exact h.known _ c (hhand ▸ hc)
    · rcases hp with rfl | ⟨hhand, -, -⟩
      · rfl
      · rw [hhand]
        exact h.alone t' ht' _
  | @take c rest ha hp hl =>
    have hlen : s.available.length = rest.length + 1 := by rw [ha]; rfl
    have hcard := Finset.card_insert_le c s.inUse
    refine h.update rfl rfl hkept ?_ hcreated (fun _ _ _ _ hc => Finset.mem_insert_of_mem hc)
      (fun d hd => ?_) nofun fun t' _ ht' => absurd ht' (h.ne_resetting hl t')
    · show rest.length + (insert c s.inUse).card ≤ s.created
      omega
    · cases hd
      exact Finset.mem_insert_self ..
  | make ha hlt hp hl =>
    have hcard := Finset.card_insert_le s.made s.inUse
    refine h.update rfl rfl hkept ?_ hlt (fun _ _ _ _ hc => Finset.mem_insert_of_mem hc)
      (fun d hd => ?_) nofun fun t' _ ht' => absurd ht' (h.ne_resetting hl t')
    · show s.available.length + (insert s.made s.inUse).card ≤ s.created + 1
      omega
    · cases hd
      exact Finset.mem_insert_self ..
  | resetSync hx hp hl =>
    refine h.update rfl rfl hkept (Nat.le_of_eq rfl) hmax (fun t' c _ hc => ?_) (fun d hd => ?_) nofun
      fun t' _ ht' => absurd ht' (h.ne_resetting hl t')
    · rw [hC hx t'] at hc
      cases hc
    · cases hd
      exact Finset.mem_insert_self ..
  | resetting hx hp hl =>
    exact h.update rfl rfl hkept hcounted hcreated (fun _ _ _ _ hc => hc) nofun (fun _ => hC hx)
      fun _ _ _ => rfl
  | resetAsync hp =>
    refine h.update rfl rfl hkept (Nat.le_of_eq rfl) hmax (fun t' c _ hc => ?_) (fun d hd => ?_) nofun
      fun t' hne ht' => ?_
    · rw [h.alone _ hp t'] at hc
      cases hc
    · cases hd
      exact Finset.mem_insert_self ..
    · have hlock := h.kept t' (by rw [ht']; rfl)
      have hlock' := h.kept _ (by rw [hp]; rfl)
      exact absurd (Option.some.inj (hlock.symm.trans hlock')) hne
  | @giveBack c hp =>
    have hhand : (s.place e.task).hand = some c := by
      rcases hp with hp | hp <;> exact congrArg PoolAt.hand hp
    have hc : c ∈ s.inUse := h.known _ c hhand
    have hcard := Finset.card_erase_add_one hc
    simp only [releaseConnection, if_pos hc] at hkept ⊢
    refine h.update rfl rfl hkept ?_ hcreated (fun t' d hne hd hu => Finset.mem_erase.2 ⟨?_, hu⟩) nofun
      nofun fun _ _ _ => rfl
    · show s.available.length + 1 + (s.inUse.erase c).card ≤ s.created
      omega
    · rintro rfl
      exact hne (hO.uniq t' _ d hd hhand)

theorem steady_of_run (hk : cfg.kind ≠ .optimized) (hmax : 0 < cfg.maxConnections)
    {es : List (PoolEv T)}
    (h : (poolMachine T cfg).Run (ResetsAlone cfg) (poolMachine T cfg).init es s) : s.Steady cfg := by
  induction h with
  | nil => exact ⟨fun _ => rfl, nofun, Nat.le_refl 0, Nat.zero_le _, nofun, fun _ _ _ => rfl⟩
  | snoc hr hc hs ih => exact steady_step hk hmax (owned_of_run hr) ih hc hs

/-- In a steady state the step keeps the callers exactly if nobody is hit by a reset. -/
theorem keepsCallers_iff (hk : cfg.kind ≠ .optimized) (hmax : 0 < cfg.maxConnections)
    (hO : s.ledger.Owned cfg) (h : s.Steady cfg) {e : PoolEv T} :
    s.KeepsCallers cfg e ↔ s.ResetsAlone cfg e := by
  refine ⟨fun hK hx t => ?_, fun hC => ⟨fun hx t c hc => ?_, fun s' hs => ?_, fun s' hs D hD => ?_⟩⟩
  · rcases ht : (s.place t).hand with _ | c
    · rfl
    · exact absurd (h.known t c ht) (hK.connected hx t c ht)
  · rw [hC hx t] at hc
    cases hc
  · exact (steady_step hk hmax hO h hC hs).known
  · exact (steady_step hk hmax hO h hC hs).capped hD

/-- **The callers keep their connections**, and there are at most `max_connections` of them, through
the runs in which no reset happens under a caller, and through no others. -/
theorem run_keepsCallers_iff (hk : cfg.kind ≠ .optimized) (hmax : 0 < cfg.maxConnections)
    {es : List (PoolEv T)} :
    (poolMachine T cfg).Run (KeepsCallers cfg) (poolMachine T cfg).init es s ↔
      (poolMachine T cfg).Run (ResetsAlone cfg) (poolMachine T cfg).init es s := by
  constructor
  · intro h
    refine h.imp fun hr halone hc _ => ?_
    exact (keepsCallers_iff hk hmax (owned_of_run hr) (steady_of_run hk hmax halone)).1 hc
  · intro h
    refine h.imp fun hr _ hc _ => ?_
    exact (keepsCallers_iff hk hmax (owned_of_run hr) (steady_of_run hk hmax hr)).2 hc

/-- A connection that was lost in a failed `connect` is reset, and the next caller gets another one. -/
theorem run_keepsCallers_lost :
    let cfg : PoolConfig := ⟨.sync, 1, false, true⟩
    ∃ s : Pool Unit, s.place () = .connecting 1 ∧ s.first = 1 ∧
      (poolMachine Unit cfg).Run (KeepsCallers cfg) (poolMachine Unit cfg).init
        [.get (), .proceed () (.returned true) 0, .proceed () (.raised .other) 0, .get (),
          .proceed () (.returned true) 0] s := by
  intro cfg
  -- the only step while the connection is in hand is the failure of `connect`
  let C (s : Pool Unit) (e : PoolEv Unit) : Prop :=
    (s.place ()).hand = none ∨ e = .proceed () (.raised .other) 0
  have hC : ∀ s e, C s e → ResetsAlone cfg s e := by
    intro s e h hx t
    rcases h with h | rfl
    · exact h
    · exact hx.elim
  obtain ⟨s, hr, hp, hfirst⟩ : ∃ s, (poolMachine Unit cfg).Run C (poolMachine Unit cfg).init
      [.get (), .proceed () (.returned true) 0, .proceed () (.raised .other) 0, .get (),
        .proceed () (.returned true) 0] s ∧ s.place () = .connecting 1 ∧ s.first = 1 :=
    Lib.Machine.exists_run (by decide +kernel) (by decide +kernel)
  exact ⟨s, hp, hfirst, (run_keepsCallers_iff (by decide) (by decide)).2 (hr.mono hC)⟩

/-- With the limit one, the second caller gets a second connection, and the pool forgets that of the
first one, which it has disconnected. -/
theorem run_keepsCallers_broken :
    let get (t : Bool) (n : ℕ) : List (PoolEv Bool) :=
      .get t :: List.replicate n (.proceed t (.returned false) 0)
    let Two (cfg : PoolConfig) (es : List (PoolEv Bool)) : Prop :=
      ∃ s : Pool Bool, (poolMachine Bool cfg).Run Lib.Machine.Any (poolMachine Bool cfg).init es s ∧
        s.place true = .holding 0 ∧ s.place false = .holding 1 ∧ s.inUse = {1} ∧ s.available = []
    Two ⟨.sync, 1, false, true⟩ (get true 3 ++ get false 3) ∧
      Two ⟨.async, 1, false, true⟩ (get true 3 ++ get false 4) := by
  intro get Two
  constructor
  · exact Lib.Machine.exists_run (by decide +kernel) (by decide +kernel)
  · exact Lib.Machine.exists_run (by decide +kernel) (by decide +kernel)

end Pool

end Kvdb
