import Kvdb.Components.ConnectionPool

/-!
# Who has a connection

`Ledger`: the connections of a pool and the hands they are in, without locks and conditions. `Move` is
everything that a step does to it (`move_of_step`). `Owned` says that a connection is available, or in
the hands of one task, or lost; every move keeps it, so that the pool is exclusive in every run
(`exclusive_of_run`).
-/

namespace Kvdb

open Lib (update_cases)

namespace PoolAt

/-- The connection that the task has in its hands. -/
def hand : PoolAt → Option ℕ
  | .fast c | .checking c | .closing c | .reopening c | .connecting c | .pausing c | .reading c
  | .disconnecting c | .reconnecting c | .rereading c | .repausing c | .restoring c | .holding c
  | .releasing c | .warming c _ => some c
  | .idle | .slow | .resetting | .blocking | .waiting | .warmLock _ | .closeLock | .closingAll => none

/-- The connection that it has, and that is not in use. -/
def limbo : PoolAt → Option ℕ
  | .fast c | .warming c _ => some c
  | _ => none

theorem hand_of_limbo {p : PoolAt} {c : ℕ} (h : p.limbo = some c) : p.hand = some c := by
  cases p <;> simp_all [limbo, hand]

/-- The task goes on with what it has, or it leaves with nothing. -/
def Passes (p p' : PoolAt) : Prop :=
  p' = .idle ∨ p'.hand = p.hand ∧ p.limbo = none ∧ p'.limbo = none

theorem limbo_of_passes {p p' : PoolAt} (h : p.Passes p') : p'.limbo = none := by
  rcases h with rfl | ⟨-, -, hl⟩
  · rfl
  · exact hl

theorem ne_warming {p : PoolAt} {c target : ℕ} (h : p.limbo = none) : p ≠ .warming c target := by
  intro hp
  rw [hp] at h
  cases h

theorem ne_resetting_of_hand {p : PoolAt} {c : ℕ} (h : p.hand = some c) : p ≠ .resetting := by
  intro hp
  rw [hp] at h
  cases h

end PoolAt

theorem passes_afterAwait {cfg : PoolConfig} {p p' : PoolAt} {o : AwaitOutcome}
    (h : afterAwait cfg p o = some p') : p.Passes p' := by
  unfold afterAwait at h
  split at h <;> cases h <;> (try split) <;> simp [PoolAt.Passes, PoolAt.hand, PoolAt.limbo]

theorem afterAwait_ne_resetting {cfg : PoolConfig} {p : PoolAt} {o : AwaitOutcome} :
    afterAwait cfg p o ≠ some .resetting := by
  unfold afterAwait
  split <;> (try split) <;> simp

/-! ## The ledger -/

structure Ledger (T : Type) where
  available : List ℕ
  inUse : Finset ℕ
  created : ℕ
  made : ℕ
  first : ℕ
  place : T → PoolAt

def Pool.ledger {T : Type} (s : Pool T) : Ledger T where
  available := s.available
  inUse := s.inUse
  created := s.created
  made := s.made
  first := s.first
  place := s.place

namespace Ledger

variable {T : Type} [DecidableEq T] {cfg : PoolConfig} {L L' : Ledger T} {t : T}

/-- What a step of the task `t` does. -/
inductive Move (cfg : PoolConfig) (L : Ledger T) (t : T) : Ledger T → Prop
  | pass {p : PoolAt} (h : (L.place t).Passes p) (hr : p = .resetting → cfg.kind ≠ .optimized) :
    Move cfg L t { L with place := Function.update L.place t p }
  | pop {c : ℕ} {rest : List ℕ} (ha : L.available = c :: rest) (hp : L.place t = .idle) :
    Move cfg L t
      { L with available := rest, place := Function.update L.place t (.fast c) }
  | claim {c : ℕ} (hp : L.place t = .fast c) (hc : c ∉ L.inUse) :
    Move cfg L t
      { L with inUse := insert c L.inUse, place := Function.update L.place t (.checking c) }
  | putBack {c : ℕ} (hp : L.place t = .fast c) (hc : c ∈ L.inUse) :
    Move cfg L t
      { L with available := c :: L.available, place := Function.update L.place t .slow }
  | take {c : ℕ} {rest : List ℕ} {p : PoolAt} (ha : L.available = c :: rest)
      (hn : (L.place t).hand = none) (hp : p.hand = some c) (hl : p.limbo = none) :
    Move cfg L t
      { L with
        available := rest
        inUse := insert c L.inUse
        place := Function.update L.place t p }
  | make {count : ℕ} {p : PoolAt} (hcount : cfg.kind = .optimized → count = 2)
      (hplace : L.place t = .slow ∨ L.place t = .blocking ∨ L.place t = .waiting)
      (ha : L.available = []) (hmax : L.created < cfg.maxConnections)
      (hn : (L.place t).hand = none) (hp : p.hand = some L.made) (hl : p.limbo = none) :
    Move cfg L t
      { L with
        inUse := insert L.made L.inUse
        created := L.created + count
        made := L.made + 1
        place := Function.update L.place t p }
  | giveBack {c : ℕ} (hp : L.place t = .restoring c ∨ L.place t = .releasing c) (hc : c ∈ L.inUse) :
    Move cfg L t
      { L with
        available := c :: L.available
        inUse := L.inUse.erase c
        place := Function.update L.place t .idle }
  | warmMake {target : ℕ} (hmax : L.created < cfg.maxConnections) (hn : (L.place t).hand = none) :
    Move cfg L t
      { L with
        created := L.created + 1
        made := L.made + 1
        place := Function.update L.place t (.warming L.made target) }
  | warmDone {c target : ℕ} (hp : L.place t = .warming c target) :
    Move cfg L t
      { L with
        available := c :: L.available
        created := L.created + 1
        place := Function.update L.place t .idle }
  | warmNext {c target : ℕ} (hmax : L.created + 1 < cfg.maxConnections)
      (hp : L.place t = .warming c target) :
    Move cfg L t
      { L with
        available := c :: L.available
        created := L.created + 2
        made := L.made + 1
        place := Function.update L.place t (.warming L.made target) }
  | reset {p : PoolAt} (hk : cfg.kind ≠ .optimized) (hn : (L.place t).hand = none)
      (hp : p.hand = some L.made) (hl : p.limbo = none) :
    Move cfg L t
      { available := []
        inUse := {L.made}
        created := 1
        made := L.made + 1
        first := L.made
        place := Function.update L.place t p }

/-- The other tasks stay where they are. -/
theorem Move.place_of_ne (hm : L.Move cfg t L') {t' : T} (ht : t' ≠ t) :
    L'.place t' = L.place t' := by
  cases hm <;> exact Function.update_of_ne ht ..

end Ledger

/-- The task that takes the step. -/
def PoolEv.task {T : Type} : PoolEv T → T
  | .get t | .release t | .warm t _ | .disconnect t | .proceed t _ _ => t

namespace Pool

variable {T : Type} [DecidableEq T] {cfg : PoolConfig} {s s' : Pool T} {t : T}

theorem move_go {q p : PoolAt} (hq : s.place t = q) (h : q.Passes p) (hr : p ≠ .resetting) :
    s.ledger.Move cfg t (s.go t p).ledger :=
  .pass (by rwa [show s.ledger.place t = q from hq]) fun hp => absurd hp hr

theorem move_locked {o : AwaitOutcome} {next : Option (Pool T)} (h : s.locked t o next = some s')
    (hnext : ∀ u, next = some u → s.ledger.Move cfg t u.ledger) : s.ledger.Move cfg t s'.ledger := by
  unfold locked at h
  split at h
  · split at h
    · exact hnext s' h
    · cases h
  · cases h
    exact .pass (.inl rfl) nofun
  · cases h

theorem move_slowPath (hp : s.place t = .slow) : s.ledger.Move cfg t (s.slowPath cfg t).ledger := by
  have hn : (s.ledger.place t).hand = none := congrArg PoolAt.hand hp
  unfold slowPath
  split
  · exact .take ‹_› hn rfl rfl
  · split
    · exact .pass (.inr ⟨hn.symm, congrArg PoolAt.limbo hp, rfl⟩) nofun
    · exact .make (fun _ => rfl) (.inl hp) ‹_› (not_le.1 ‹_›) hn rfl rfl

theorem move_waitPath (u : Pool T) (hu : u.ledger = s.ledger)
    (hp : s.place t = .blocking ∨ s.place t = .waiting) :
    s.ledger.Move cfg t (u.waitPath cfg t).ledger := by
  rw [← hu]
  have hp : u.place t = .blocking ∨ u.place t = .waiting := by
    rwa [show u.place = s.place from congrArg Ledger.place hu]
  have hn : (u.ledger.place t).hand = none := by
    rcases hp with hp | hp <;> exact congrArg PoolAt.hand hp
  have hsleep : (u.ledger.place t).Passes .waiting := by
    refine .inr ⟨hn.symm, ?_, rfl⟩
    rcases hp with hp | hp <;> exact congrArg PoolAt.limbo hp
  unfold waitPath
  split
  · split
    · exact .pass hsleep nofun
    · exact .take ‹_› hn rfl rfl
  · split
    · exact .make (fun _ => rfl) (.inr hp) ‹_› ‹_› hn rfl rfl
    · exact .pass hsleep nofun

theorem move_basePath (hk : cfg.kind ≠ .optimized) (hp : s.place t = .slow) :
    s.ledger.Move cfg t (s.basePath cfg t).ledger := by
  have hn : (s.ledger.place t).hand = none := congrArg PoolAt.hand hp
  unfold basePath
  split
  · exact .take ‹_› hn rfl rfl
  · split
    · exact .make (fun h => absurd h hk) (.inl hp) ‹_› ‹_› hn rfl rfl
    · split
      · split
        · exact .reset hk hn rfl rfl
        · exact .pass (.inr ⟨hn.symm, congrArg PoolAt.limbo hp, rfl⟩) fun _ => hk
      · exact .pass (.inl rfl) nofun

omit [DecidableEq T] in
theorem ledger_notify {wake : ℕ} (h : s.notify wake = some s') : s'.ledger = s.ledger := by
  unfold notify at h
  split at h
  · cases h
    rfl
  · split at h <;> cases h
    rfl

theorem move_releaseConnection {c : ℕ} (hp : s.place t = .restoring c ∨ s.place t = .releasing c) :
    s.ledger.Move cfg t ((s.releaseConnection c).go t .idle).ledger := by
  unfold releaseConnection
  split
  · exact .giveBack hp ‹_›
  · exact .pass (.inl rfl) nofun

theorem move_release {c : ℕ} {p : PoolAt} {o : AwaitOutcome} {wake : ℕ}
    (hp : s.place t = .restoring c ∨ s.place t = .releasing c) (hpass : (s.place t).Passes p)
    (hr : p ≠ .resetting) (h : s.release cfg t c p o wake = some s') : s.ledger.Move cfg t s'.ledger := by
  unfold release at h
  split at h
  · split at h
    · split at h
      · split at h
        · rw [ledger_notify h]
          exact move_releaseConnection hp
        · cases h
          exact .pass (.inl rfl) nofun
      · cases h
    · split at h <;> cases h
      exact move_releaseConnection hp
  · split at h <;> cases h
    exact .pass hpass fun h => absurd h hr
  · cases h

/-- The loop of `warm_pool`, entered without a connection. -/
theorem move_warmLoop {target : ℕ} (hp : s.place t = .warmLock target) :
    s.ledger.Move cfg t (s.warmLoop cfg t target).ledger := by
  unfold warmLoop
  split
  · rename_i hlt
    exact .warmMake (lt_of_lt_of_le hlt (min_le_right ..)) (congrArg PoolAt.hand hp)
  · exact .pass (.inl rfl) nofun

/-- The loop of `warm_pool`, with the connection that was connected. -/
theorem move_warming {c target : ℕ} (hp : s.place t = .warming c target) :
    s.ledger.Move cfg t ({ s with
      available := c :: s.available
      created := s.created + 1 }.warmLoop cfg t target : Pool T).ledger := by
  unfold warmLoop
  split
  · rename_i hlt
    exact .warmNext (lt_of_lt_of_le hlt (min_le_right ..)) hp
  · exact .warmDone hp

theorem move_proceed {o : AwaitOutcome} {wake : ℕ} (hr : s.place t = .resetting → cfg.kind ≠ .optimized)
    (h : s.proceed cfg t o wake = some s') : s.ledger.Move cfg t s'.ledger := by
  unfold proceed at h
  split at h
  case h_1 c hp =>
    refine move_locked h fun u hu => ?_
    cases hu
    unfold fastPath
    split
    · exact .putBack hp ‹_›
    · exact .claim hp ‹_›
  case h_2 hp =>
    refine move_locked h fun u hu => ?_
    cases hu
    split
    · exact move_slowPath hp
    · exact move_basePath ‹_› hp
  case h_3 hp =>
    refine move_locked h fun u hu => ?_
    cases hu
    exact move_waitPath s rfl (.inl hp)
  case h_4 hp =>
    split at h
    · split at h <;> cases h
      exact move_waitPath _ rfl (.inr hp)
    · cases h
      exact .pass (.inl rfl) nofun
    · cases h
  case h_5 hp =>
    split at h
    · cases h
      exact .reset (hr hp) (congrArg PoolAt.hand hp) rfl rfl
    · cases h
      exact .pass (.inl rfl) nofun
    · cases h
  case h_6 c hp => exact move_release (.inl hp) (.inl rfl) (by simp) h
  case h_7 c hp => exact move_release (.inr hp) (.inr (by rw [hp]; exact ⟨rfl, rfl, rfl⟩)) (by simp) h
  case h_8 target hp =>
    refine move_locked h fun u hu => ?_
    cases hu
    exact move_warmLoop hp
  case h_9 c target hp =>
    split at h
    · cases h
      exact move_warming hp
    · cases h
      exact .pass (.inl rfl) nofun
  case h_10 hp =>
    refine move_locked h fun u hu => ?_
    cases hu
    exact .pass (.inr (by rw [show s.ledger.place t = .closeLock from hp]; exact ⟨rfl, rfl, rfl⟩)) nofun
  case h_11 hp =>
    cases h
    exact .pass (.inl rfl) nofun
  case h_12 =>
    obtain ⟨p, hp, rfl⟩ := Option.map_eq_some_iff.1 h
    exact .pass (passes_afterAwait hp) fun hpr => absurd (hpr ▸ hp) afterAwait_ne_resetting

theorem move_of_step {e : PoolEv T}
    (hr : ∀ t, s.place t = .resetting → cfg.kind ≠ .optimized) (h : s.step cfg e = some s') :
    s.ledger.Move cfg e.task s'.ledger := by
  cases e with
  | get t =>
    simp only [step] at h
    split at h
    · rename_i hp
      have hslow : s.ledger.Move cfg t (s.go t .slow).ledger :=
        move_go hp (.inr ⟨rfl, rfl, rfl⟩) nofun
      split at h
      · split at h <;> cases h
        · exact .pop ‹_› hp
        · exact hslow
      · cases h
        exact hslow
    · cases h
  | release t =>
    simp only [step] at h
    split at h
    · rename_i hp
      cases h
      exact move_go hp (.inr ⟨rfl, rfl, rfl⟩) nofun
    · cases h
  | warm t target =>
    simp only [step] at h
    split at h
    · rename_i hp
      cases h
      exact move_go hp.1 (.inr ⟨rfl, rfl, rfl⟩) nofun
    · cases h
  | disconnect t =>
    simp only [step] at h
    split at h
    · rename_i hp
      cases h
      exact move_go hp (.inr ⟨rfl, rfl, rfl⟩) nofun
    · cases h
  | proceed t o wake => exact move_proceed (hr t) h

end Pool

/-! ## Owners -/

namespace Ledger

variable {T : Type} [DecidableEq T] {cfg : PoolConfig} {L L' : Ledger T} {t : T}

/-- Every connection is available, or in the hands of one task, or lost; `first` is the first one that
the pool has not dropped. -/
structure Owned (cfg : PoolConfig) (L : Ledger T) : Prop where
  nodup : L.available.Nodup
  available : ∀ c ∈ L.available, c ∉ L.inUse ∧ c < L.made
  inUse : ∀ c ∈ L.inUse, c < L.made
  held : ∀ t c, (L.place t).hand = some c → c ∉ L.available ∧ c < L.made
  used : ∀ t c, (L.place t).hand = some c → (L.place t).limbo = none → c ∈ L.inUse ∨ c < L.first
  limbo : ∀ t c, (L.place t).limbo = some c → c ∉ L.inUse
  uniq : ∀ t t' c, (L.place t).hand = some c → (L.place t').hand = some c → t = t'
  resets : ∀ t, L.place t = .resetting → cfg.kind ≠ .optimized

omit [DecidableEq T] in
theorem owned_init : Owned cfg (Pool.ledger ({} : Pool T)) where
  nodup := List.nodup_nil
  available c h := absurd h List.not_mem_nil
  inUse c h := absurd h (Finset.notMem_empty c)
  held t c h := by cases h
  used t c h := by cases h
  limbo t c h := by cases h
  uniq t t' c h := by cases h
  resets t h := by cases h

/-- The task `t` comes to the place `p`. The connections in the hands of the others are neither
available nor new. -/
theorem Owned.update (h : Owned cfg L) {p : PoolAt} (hplace : L'.place = Function.update L.place t p)
    (hnodup : L'.available.Nodup)
    (havailable : ∀ c ∈ L'.available, c ∉ L'.inUse ∧ c < L'.made)
    (hinUse : ∀ c ∈ L'.inUse, c < L'.made)
    (hothers : ∀ c, c ∉ L.available → c < L.made → (L.place t).hand ≠ some c →
      c ∉ L'.available ∧ c < L'.made ∧ (c ∈ L.inUse → c ∈ L'.inUse ∨ c < L'.first) ∧
        (c < L.first → c < L'.first) ∧ (c ∉ L.inUse → c ∉ L'.inUse))
    (hown : ∀ c, p.hand = some c → c ∉ L'.available ∧ c < L'.made ∧
      (p.limbo = none → c ∈ L'.inUse ∨ c < L'.first) ∧ (p.limbo = some c → c ∉ L'.inUse) ∧
        ∀ t', t' ≠ t → (L.place t').hand ≠ some c)
    (hr : p = .resetting → cfg.kind ≠ .optimized) : Owned cfg L' := by
  have hcases : ∀ t', t' = t ∧ L'.place t' = p ∨ t' ≠ t ∧ L'.place t' = L.place t' := by
    intro t'
    rw [hplace]
    rcases update_cases (rfl : Function.update L.place t p t' = _) with ⟨ht, hp⟩ | ⟨ht, hp⟩
    · exact .inl ⟨ht, hp.symm⟩
    · exact .inr ⟨ht, hp.symm⟩
  have hother : ∀ t' c, t' ≠ t → (L.place t').hand = some c →
      c ∉ L'.available ∧ c < L'.made ∧ (c ∈ L.inUse → c ∈ L'.inUse ∨ c < L'.first) ∧
        (c < L.first → c < L'.first) ∧ (c ∉ L.inUse → c ∉ L'.inUse) := by
    intro t' c ht hc
    obtain ⟨ha, hm⟩ := h.held t' c hc
    exact hothers c ha hm fun hc' => ht (h.uniq t' t c hc hc')
  refine ⟨hnodup, havailable, hinUse, fun t' c hc => ?_, fun t' c hc hl => ?_, fun t' c hl => ?_,
    fun t₁ t₂ c h₁ h₂ => ?_, fun t' ht' => ?_⟩
  · rcases hcases t' with ⟨rfl, hp⟩ | ⟨ht, hp⟩ <;> rw [hp] at hc
    · exact ⟨(hown c hc).1, (hown c hc).2.1⟩
    · exact ⟨(hother t' c ht hc).1, (hother t' c ht hc).2.1⟩
  · rcases hcases t' with ⟨rfl, hp⟩ | ⟨ht, hp⟩ <;> rw [hp] at hc hl
    · exact (hown c hc).2.2.1 hl
    · obtain ⟨-, -, h1, h2, -⟩ := hother t' c ht hc
      exact (h.used t' c hc hl).elim h1 fun hlt => .inr (h2 hlt)
  · rcases hcases t' with ⟨rfl, hp⟩ | ⟨ht, hp⟩ <;> rw [hp] at hl
    · exact (hown c (PoolAt.hand_of_limbo hl)).2.2.2.1 hl
    · exact (hother t' c ht (PoolAt.hand_of_limbo hl)).2.2.2.2 (h.limbo t' c hl)
  · rcases hcases t₁ with ⟨rfl, hp₁⟩ | ⟨ht₁, hp₁⟩ <;> rw [hp₁] at h₁
    · rcases hcases t₂ with ⟨rfl, -⟩ | ⟨ht₂, hp₂⟩
      · rfl
      · rw [hp₂] at h₂
        exact absurd h₂ ((hown c h₁).2.2.2.2 t₂ ht₂)
    · rcases hcases t₂ with ⟨rfl, hp₂⟩ | ⟨ht₂, hp₂⟩ <;> rw [hp₂] at h₂
      · exact absurd h₁ ((hown c h₂).2.2.2.2 t₁ ht₁)
      · exact h.uniq t₁ t₂ c h₁ h₂
  · rcases hcases t' with ⟨rfl, hp⟩ | ⟨ht, hp⟩ <;> rw [hp] at ht'
    · exact hr ht'
    · exact h.resets t' ht'

omit [DecidableEq T] in
/-- A connection in the hands of one task is not in those of another. -/
theorem Owned.not_hand (h : Owned cfg L) {c : ℕ} (hc : (L.place t).hand = some c) (t' : T)
    (ht : t' ≠ t) : (L.place t').hand ≠ some c := fun hc' => ht (h.uniq t' t c hc' hc)

omit [DecidableEq T] in
/-- An available connection is in nobody's hands. -/
theorem Owned.not_hand_of_available (h : Owned cfg L) {c : ℕ} (hc : c ∈ L.available) (t' : T) :
    (L.place t').hand ≠ some c := fun hc' => (h.held t' c hc').1 hc

omit [DecidableEq T] in
/-- Nor is one that has not been made yet. -/
theorem Owned.not_hand_made (h : Owned cfg L) (t' : T) : (L.place t').hand ≠ some L.made :=
  fun hc' => lt_irrefl _ (h.held t' _ hc').2

theorem owned_move (h : Owned cfg L) (hm : L.Move cfg t L') : Owned cfg L' := by
  cases hm with
  | @pass p hpass hr =>
    refine h.update rfl h.nodup h.available h.inUse (fun c ha hc _ => ⟨ha, hc, .inl, id, id⟩)
      (fun c hc => ?_) hr
    rcases hpass with rfl | ⟨hhand, hl, hl'⟩
    · cases hc
    · rw [hhand] at hc
      obtain ⟨ha, hlt⟩ := h.held t c hc
      exact ⟨ha, hlt, fun _ => h.used t c hc hl, by simp [hl'], h.not_hand hc⟩
  | @pop c rest ha hp =>
    have hmem : ∀ d ∈ rest, d ∈ L.available := fun d hd => ha ▸ List.mem_cons_of_mem _ hd
    have hn := h.nodup
    rw [ha, List.nodup_cons] at hn
    have hc : c ∈ L.available := ha ▸ List.mem_cons_self
    refine h.update rfl hn.2 (fun d hd => h.available d (hmem d hd)) h.inUse
      (fun d hd hlt _ => ⟨fun hd' => hd (hmem d hd'), hlt, .inl, id, id⟩) (fun d hd => ?_) nofun
    cases hd
    exact ⟨hn.1, (h.available c hc).2, nofun, fun _ => (h.available c hc).1,
      fun t' _ => h.not_hand_of_available hc t'⟩
  | @claim c hp hc =>
    have hhand : (L.place t).hand = some c := congrArg PoolAt.hand hp
    obtain ⟨ha, hlt⟩ := h.held t c hhand
    refine h.update rfl h.nodup (fun d hd => ⟨fun hd' => ?_, (h.available d hd).2⟩) (fun d hd => ?_)
      (fun d hd hlt' hne => ⟨hd, hlt', fun hu => .inl (Finset.mem_insert_of_mem hu), id, fun hu hd' => ?_⟩)
      (fun d hd => ?_) nofun
    · rcases Finset.mem_insert.1 hd' with rfl | hd'
      · exact ha hd
      · exact (h.available d hd).1 hd'
    · rcases Finset.mem_insert.1 hd with rfl | hd
      · exact hlt
      · exact h.inUse d hd
    · rcases Finset.mem_insert.1 hd' with rfl | hd'
      · exact hne hhand
      · exact hu hd'
    · cases hd
      exact ⟨ha, hlt, fun _ => .inl (Finset.mem_insert_self ..), nofun, h.not_hand hhand⟩
  | @putBack c hp hc => exact absurd hc (h.limbo t c (congrArg PoolAt.limbo hp))
  | @take c rest p ha hn hp hl =>
    have hmem : ∀ d ∈ rest, d ∈ L.available := fun d hd => ha ▸ List.mem_cons_of_mem _ hd
    have hnd := h.nodup
    rw [ha, List.nodup_cons] at hnd
    have hc : c ∈ L.available := ha ▸ List.mem_cons_self
    refine h.update rfl hnd.2 (fun d hd => ⟨fun hd' => ?_, (h.available d (hmem d hd)).2⟩)
      (fun d hd => ?_)
      (fun d hd hlt' _ => ⟨fun hd' => hd (hmem d hd'), hlt',
        fun hu => .inl (Finset.mem_insert_of_mem hu), id, fun hu hd' => ?_⟩)
      (fun d hd => ?_) fun hr => absurd hr (PoolAt.ne_resetting_of_hand hp)
    · rcases Finset.mem_insert.1 hd' with rfl | hd'
      · exact hnd.1 hd
      · exact (h.available d (hmem d hd)).1 hd'
    · rcases Finset.mem_insert.1 hd with rfl | hd
      · exact (h.available d hc).2
      · exact h.inUse d hd
    · rcases Finset.mem_insert.1 hd' with rfl | hd'
      · exact hd hc
      · exact hu hd'
    · rw [hp] at hd
      cases hd
      exact ⟨hnd.1, (h.available c hc).2, fun _ => .inl (Finset.mem_insert_self ..), by simp [hl],
        fun t' _ => h.not_hand_of_available hc t'⟩
  | @make count p _ _ _ _ _ hp hl =>
    refine h.update rfl h.nodup
      (fun d hd => ⟨fun hd' => ?_, (h.available d hd).2.trans (Nat.lt_succ_self _)⟩) (fun d hd => ?_)
      (fun d hd hlt' _ => ⟨hd, hlt'.trans (Nat.lt_succ_self _),
        fun hu => .inl (Finset.mem_insert_of_mem hu), id, fun hu hd' => ?_⟩)
      (fun d hd => ?_) fun hr => absurd hr (PoolAt.ne_resetting_of_hand hp)
    · rcases Finset.mem_insert.1 hd' with rfl | hd'
      · exact lt_irrefl _ (h.available _ hd).2
      · exact (h.available d hd).1 hd'
    · rcases Finset.mem_insert.1 hd with rfl | hd
      · exact Nat.lt_succ_self _
      · exact (h.inUse d hd).trans (Nat.lt_succ_self _)
    · rcases Finset.mem_insert.1 hd' with rfl | hd'
      · exact lt_irrefl _ hlt'
      · exact hu hd'
    · rw [hp] at hd
      cases hd
      exact ⟨fun hd => lt_irrefl _ (h.available _ hd).2, Nat.lt_succ_self _,
        fun _ => .inl (Finset.mem_insert_self ..), by simp [hl], fun t' _ => h.not_hand_made t'⟩
  | @giveBack c hp hc =>
    have hhand : (L.place t).hand = some c := by
      rcases hp with hp | hp <;> exact congrArg PoolAt.hand hp
    obtain ⟨ha, hlt⟩ := h.held t c hhand
    refine h.update rfl (List.nodup_cons.2 ⟨ha, h.nodup⟩) (fun d hd => ?_)
      (fun d hd => h.inUse d (Finset.mem_of_mem_erase hd))
      (fun d hd hlt' hne => ⟨fun hd' => ?_, hlt', fun hu => .inl (Finset.mem_erase.2 ⟨?_, hu⟩), id,
        fun hu hd' => hu (Finset.mem_of_mem_erase hd')⟩) nofun nofun
    · rcases List.mem_cons.1 hd with rfl | hd
      · exact ⟨fun hd' => (Finset.mem_erase.1 hd').1 rfl, hlt⟩
      · exact ⟨fun hd' => (h.available d hd).1 (Finset.mem_of_mem_erase hd'), (h.available d hd).2⟩
    · rcases List.mem_cons.1 hd' with rfl | hd'
      · exact hne hhand
      · exact hd hd'
    · rintro rfl
      exact hne hhand
  | @warmMake target hmax hn =>
    refine h.update rfl h.nodup
      (fun d hd => ⟨(h.available d hd).1, (h.available d hd).2.trans (Nat.lt_succ_self _)⟩)
      (fun d hd => (h.inUse d hd).trans (Nat.lt_succ_self _))
      (fun d hd hlt' _ => ⟨hd, hlt'.trans (Nat.lt_succ_self _), .inl, id, id⟩) (fun d hd => ?_) nofun
    cases hd
    exact ⟨fun hd => lt_irrefl _ (h.available _ hd).2, Nat.lt_succ_self _, nofun,
      fun _ hd => lt_irrefl _ (h.inUse _ hd), fun t' _ => h.not_hand_made t'⟩
  | @warmDone c target hp =>
    have hhand : (L.place t).hand = some c := congrArg PoolAt.hand hp
    obtain ⟨ha, hlt⟩ := h.held t c hhand
    refine h.update rfl (List.nodup_cons.2 ⟨ha, h.nodup⟩) (fun d hd => ?_) h.inUse
      (fun d hd hlt' hne => ⟨fun hd' => ?_, hlt', .inl, id, id⟩) nofun nofun
    · rcases List.mem_cons.1 hd with rfl | hd
      · exact ⟨h.limbo t d (congrArg PoolAt.limbo hp), hlt⟩
      · exact h.available d hd
    · rcases List.mem_cons.1 hd' with rfl | hd'
      · exact hne hhand
      · exact hd hd'
  | @warmNext c target hmax hp =>
    have hhand : (L.place t).hand = some c := congrArg PoolAt.hand hp
    obtain ⟨ha, hlt⟩ := h.held t c hhand
    refine h.update rfl (List.nodup_cons.2 ⟨ha, h.nodup⟩) (fun d hd => ?_)
      (fun d hd => (h.inUse d hd).trans (Nat.lt_succ_self _))
      (fun d hd hlt' hne => ⟨fun hd' => ?_, hlt'.trans (Nat.lt_succ_self _), .inl, id, id⟩)
      (fun d hd => ?_) nofun
    · rcases List.mem_cons.1 hd with rfl | hd
      · exact ⟨h.limbo t d (congrArg PoolAt.limbo hp), hlt.trans (Nat.lt_succ_self _)⟩
      · exact ⟨(h.available d hd).1, (h.available d hd).2.trans (Nat.lt_succ_self _)⟩
    · rcases List.mem_cons.1 hd' with rfl | hd'
      · exact hne hhand
      · exact hd hd'
    · cases hd
      refine ⟨fun hd => ?_, Nat.lt_succ_self _, nofun, fun _ hd => lt_irrefl _ (h.inUse _ hd),
        fun t' _ => h.not_hand_made t'⟩
      rcases List.mem_cons.1 hd with heq | hd
      · exact absurd hlt (heq ▸ lt_irrefl _)
      · exact lt_irrefl _ (h.available _ hd).2
  | @reset p hk hn hp hl =>
    refine h.update rfl List.nodup_nil (fun d hd => absurd hd List.not_mem_nil) (fun d hd => ?_)
      (fun d hd hlt' _ => ⟨List.not_mem_nil, hlt'.trans (Nat.lt_succ_self _), fun _ => .inr hlt',
        fun _ => hlt', fun _ hd' => ?_⟩) (fun d hd => ?_)
      fun hr => absurd hr (PoolAt.ne_resetting_of_hand hp)
    · rw [Finset.mem_singleton.1 hd]
      exact Nat.lt_succ_self _
    · rw [Finset.mem_singleton.1 hd'] at hlt'
      exact lt_irrefl _ hlt'
    · rw [hp] at hd
      cases hd
      exact ⟨List.not_mem_nil, Nat.lt_succ_self _, fun _ => .inl (Finset.mem_singleton_self _),
        by simp [hl], fun t' _ => h.not_hand_made t'⟩

end Ledger

/-! ## Exclusivity -/

namespace Pool

variable {T : Type} [DecidableEq T] {cfg : PoolConfig} {s : Pool T}

theorem owned_of_run {C : Pool T → PoolEv T → Prop} {es : List (PoolEv T)}
    (h : (poolMachine T cfg).Run C (poolMachine T cfg).init es s) : s.ledger.Owned cfg :=
  h.inv (fun s => s.ledger.Owned cfg) Ledger.owned_init fun _ _ _ ht _ hu =>
    Ledger.owned_move ht (move_of_step ht.resets hu)

/-- No connection is available and in use, none is available twice, and no two tasks have the same. -/
structure Exclusive (s : Pool T) : Prop where
  disjoint : ∀ c ∈ s.available, c ∉ s.inUse
  nodup : s.available.Nodup
  alone : ∀ t t' c, (s.place t).hand = some c → (s.place t').hand = some c → t = t'

/-- **The pool is exclusive** in every run, whatever the awaits come to. -/
theorem exclusive_of_run {es : List (PoolEv T)}
    (h : (poolMachine T cfg).Run Lib.Machine.Any (poolMachine T cfg).init es s) : Exclusive s := by
  have hO := owned_of_run h
  exact ⟨fun c hc => (hO.available c hc).1, hO.nodup, hO.uniq⟩

/-- The connection that `true` has released goes to `false`. -/
theorem exclusive_handover :
    ∃ s : Pool Bool, s.place false = .checking 0 ∧ 0 ∈ s.inUse ∧ s.Exclusive := by
  let M := poolMachine Bool ⟨.optimized, 1, false, false⟩
  let go (t b : Bool) : PoolEv Bool := .proceed t (.returned b) 0
  obtain ⟨s, hr, hp, hc⟩ : ∃ s, M.Run Lib.Machine.Any M.init
      [.get true, go true true, go true true, go true true, go true false, .release true,
        go true true, .get false, go false true] s ∧ s.place false = .checking 0 ∧ 0 ∈ s.inUse :=
    Lib.Machine.exists_run (by decide +kernel) (by decide +kernel)
  exact ⟨s, hp, hc, exclusive_of_run hr⟩

end Pool

end Kvdb
