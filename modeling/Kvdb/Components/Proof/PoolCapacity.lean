import Kvdb.Components.Proof.PoolLedger
import Mathlib.Data.Set.Card

/-!
# The count of the connections

The optimized pool counts a connection twice: `make_connection` does, and then `warm_pool` or
`get_connection_optimized`. `Doubled` is the invariant of the counter; it agrees with the connections
in existence only as long as no connection has come to the pool (`accounted_iff`), and the half of the
limit is the most that can be handed out (`two_mul_inUse_le`).
-/

namespace Kvdb

open Lib (update_cases)

namespace PoolAt

/-- The task keeps the lock over its await. -/
def keeps : PoolAt → Bool
  | .resetting | .warming _ _ | .closingAll => true
  | _ => false

theorem eq_of_limbo {p : PoolAt} {c : ℕ} (h : p.limbo = some c) :
    p = .fast c ∨ ∃ target, p = .warming c target := by
  cases p <;> simp_all [limbo]

end PoolAt

theorem keeps_afterAwait {cfg : PoolConfig} {p p' : PoolAt} {o : AwaitOutcome}
    (h : afterAwait cfg p o = some p') : ¬p.keeps ∧ ¬p'.keeps := by
  unfold afterAwait at h
  split at h <;> cases h <;> (try split) <;> simp [PoolAt.keeps]

namespace Ledger

variable {T : Type} [DecidableEq T] {cfg : PoolConfig} {L L' : Ledger T} {t : T}

/-! ## Counted twice -/

/-- The connections in `D` have been counted twice, the others once: those of the pool are in `D`,
those that `warm_pool` is connecting are not. -/
structure Doubled (L : Ledger T) (D : Finset ℕ) : Prop where
  made : ∀ c ∈ D, c < L.made
  count : L.created = L.made + D.card
  available : ∀ c ∈ L.available, c ∈ D
  inUse : ∀ c ∈ L.inUse, c ∈ D
  fast : ∀ t c, L.place t = .fast c → c ∈ D
  warming : ∀ t c target, L.place t = .warming c target → c ∉ D

/-- The task `t` comes to the place `p`; what is new in `D'` was in the hands of no other task. -/
theorem Doubled.update {D D' : Finset ℕ} (h : Doubled L D) {p : PoolAt}
    (hplace : L'.place = Function.update L.place t p) (hmade : ∀ c ∈ D', c < L'.made)
    (hcount : L'.created = L'.made + D'.card) (havailable : ∀ c ∈ L'.available, c ∈ D')
    (hinUse : ∀ c ∈ L'.inUse, c ∈ D') (hD : D ⊆ D') (hfast : ∀ c, p = .fast c → c ∈ D')
    (hwarming : ∀ c target, p = .warming c target → c ∉ D')
    (hothers : ∀ c ∈ D', c ∈ D ∨ ∀ t', t' ≠ t → (L.place t').hand ≠ some c) : Doubled L' D' := by
  refine ⟨hmade, hcount, havailable, hinUse, fun t' c hp => ?_, fun t' c target hp hc => ?_⟩
  · rw [hplace] at hp
    rcases update_cases hp with ⟨-, hp⟩ | ⟨-, hp⟩
    · exact hfast c hp
    · exact hD (h.fast t' c hp)
  · rw [hplace] at hp
    rcases update_cases hp with ⟨-, hp⟩ | ⟨ht, hp⟩
    · exact hwarming c target hp hc
    · rcases hothers c hc with hc | hc
      · exact h.warming t' c target hp hc
      · exact hc t' ht (congrArg PoolAt.hand hp)

theorem doubled_move {D : Finset ℕ} (hk : cfg.kind = .optimized) (hO : Owned cfg L)
    (h : Doubled L D) (hm : L.Move cfg t L') : ∃ D', Doubled L' D' := by
  have hsame : ∀ c ∈ D, c ∈ D ∨ ∀ t', t' ≠ t → (L.place t').hand ≠ some c := fun c => .inl
  -- what is made or connected is in the hands of `t` alone
  have hinsert : ∀ {d : ℕ}, (∀ t', t' ≠ t → (L.place t').hand ≠ some d) → ∀ c ∈ insert d D,
      c ∈ D ∨ ∀ t', t' ≠ t → (L.place t').hand ≠ some c := by
    intro d hd c hc
    rcases Finset.mem_insert.1 hc with rfl | hc
    · exact .inr hd
    · exact .inl hc
  have hmadeD : L.made ∉ D := fun hc => lt_irrefl _ (h.made _ hc)
  have hup : ∀ c ∈ D, c < L.made + 1 := fun c hc => (h.made c hc).trans (Nat.lt_succ_self _)
  cases hm with
  | @pass p hp _ =>
    have hl := PoolAt.limbo_of_passes hp
    refine ⟨D, h.update rfl h.made h.count h.available h.inUse subset_rfl (fun c hc => ?_)
      (fun c target hc => ?_) hsame⟩ <;> simp [hc, PoolAt.limbo] at hl
  | @pop c rest ha hp =>
    refine ⟨D, h.update rfl h.made h.count (fun d hd => h.available d (ha ▸ List.mem_cons_of_mem _ hd))
      h.inUse subset_rfl (fun d hd => ?_) (by simp) hsame⟩
    cases hd
    exact h.available c (ha ▸ List.mem_cons_self)
  | @claim c hp hc =>
    refine ⟨D, h.update rfl h.made h.count h.available (fun d hd => ?_) subset_rfl (by simp) (by simp) hsame⟩
    rcases Finset.mem_insert.1 hd with rfl | hd
    · exact h.fast t d hp
    · exact h.inUse d hd
  | @putBack c hp hc => exact absurd hc (hO.limbo t c (congrArg PoolAt.limbo hp))
  | @take c rest p ha hn hp hl =>
    refine ⟨D, h.update rfl h.made h.count (fun d hd => h.available d (ha ▸ List.mem_cons_of_mem _ hd))
      (fun d hd => ?_) subset_rfl (fun c hc => ?_) (fun c target hc => ?_) hsame⟩
    · rcases Finset.mem_insert.1 hd with rfl | hd
      · exact h.available d (ha ▸ List.mem_cons_self)
      · exact h.inUse d hd
    all_goals simp [hc, PoolAt.limbo] at hl
  | @make count p hcount hplace ha hmax hn hp hl =>
    refine ⟨insert L.made D, h.update rfl (fun d hd => ?_) ?_
      (fun d hd => Finset.mem_insert_of_mem (h.available d hd)) (fun d hd => ?_)
      (Finset.subset_insert ..) (fun c hc => ?_) (fun c target hc => ?_)
      (hinsert fun t' _ => hO.not_hand_made t')⟩
    · rcases Finset.mem_insert.1 hd with rfl | hd
      · exact Nat.lt_succ_self _
      · exact hup d hd
    · have := h.count
      simp only [hcount hk, Finset.card_insert_of_notMem hmadeD]
      omega
    · rcases Finset.mem_insert.1 hd with rfl | hd
      · exact Finset.mem_insert_self ..
      · exact Finset.mem_insert_of_mem (h.inUse d hd)
    all_goals simp [hc, PoolAt.limbo] at hl
  | @giveBack c hp hc =>
    refine ⟨D, h.update rfl h.made h.count (fun d hd => ?_)
      (fun d hd => h.inUse d (Finset.mem_of_mem_erase hd)) subset_rfl (by simp) (by simp) hsame⟩
    rcases List.mem_cons.1 hd with rfl | hd
    · exact h.inUse d hc
    · exact h.available d hd
  | @warmMake target hmax hn =>
    refine ⟨D, h.update rfl hup ?_ h.available h.inUse subset_rfl (by simp) (fun c _ hc => ?_) hsame⟩
    · have := h.count
      show L.created + 1 = L.made + 1 + _
      omega
    · cases hc
      exact hmadeD
  | @warmDone c target hp =>
    have hc := h.warming t c target hp
    have hhand : (L.place t).hand = some c := congrArg PoolAt.hand hp
    refine ⟨insert c D, h.update rfl (fun d hd => ?_) ?_ (fun d hd => ?_)
      (fun d hd => Finset.mem_insert_of_mem (h.inUse d hd)) (Finset.subset_insert ..) (by simp) (by simp)
      (hinsert (hO.not_hand hhand))⟩
    · rcases Finset.mem_insert.1 hd with rfl | hd
      · exact (hO.held t d hhand).2
      · exact h.made d hd
    · have := h.count
      simp only [Finset.card_insert_of_notMem hc]
      omega
    · rcases List.mem_cons.1 hd with rfl | hd
      · exact Finset.mem_insert_self ..
      · exact Finset.mem_insert_of_mem (h.available d hd)
  | @warmNext c target hmax hp =>
    have hc := h.warming t c target hp
    have hhand : (L.place t).hand = some c := congrArg PoolAt.hand hp
    have hlt := (hO.held t c hhand).2
    refine ⟨insert c D, h.update rfl (fun d hd => ?_) ?_ (fun d hd => ?_)
      (fun d hd => Finset.mem_insert_of_mem (h.inUse d hd)) (Finset.subset_insert ..) (by simp)
      (fun d _ hd hmem => ?_) (hinsert (hO.not_hand hhand))⟩
    · rcases Finset.mem_insert.1 hd with rfl | hd
      · exact hlt.trans (Nat.lt_succ_self _)
      · exact hup d hd
    · have := h.count
      simp only [Finset.card_insert_of_notMem hc]
      omega
    · rcases List.mem_cons.1 hd with rfl | hd
      · exact Finset.mem_insert_self ..
      · exact Finset.mem_insert_of_mem (h.available d hd)
    · cases hd
      rcases Finset.mem_insert.1 hmem with heq | hd
      · exact absurd hlt (heq ▸ lt_irrefl _)
      · exact hmadeD hd
  | reset hk' => exact absurd hk hk'

/-! ## Connections that have come to the pool -/

theorem Move.made_le (hm : L.Move cfg t L') : L.made ≤ L'.made := by
  cases hm <;> first | exact le_rfl | exact Nat.le_succ _

/-- A connection that `warm_pool` starts to connect is new. -/
theorem Move.warming_made {c target : ℕ} (hm : L.Move cfg t L') (hp : L'.place t = .warming c target) :
    c = L.made := by
  cases hm <;> simp only [Function.update_self] at hp
  case pass hpass _ => exact absurd hp (PoolAt.ne_warming (PoolAt.limbo_of_passes hpass))
  case take hl => exact absurd hp (PoolAt.ne_warming hl)
  case make hl => exact absurd hp (PoolAt.ne_warming hl)
  case reset hl => exact absurd hp (PoolAt.ne_warming hl)
  case warmMake =>
    cases hp
    rfl
  case warmNext =>
    cases hp
    rfl
  all_goals cases hp

/-- `warm_pool` is not connecting `c`. -/
def Settled (L : Ledger T) (c : ℕ) : Prop :=
  c < L.made ∧ ∀ t target, L.place t ≠ .warming c target

theorem settled_move {c : ℕ} (hc : L.Settled c) (hm : L.Move cfg t L') : L'.Settled c := by
  refine ⟨hc.1.trans_le hm.made_le, fun t' target hp => ?_⟩
  rcases eq_or_ne t' t with rfl | ht
  · exact absurd hc.1 (by rw [hm.warming_made hp]; exact lt_irrefl _)
  · exact hc.2 t' target (by rwa [hm.place_of_ne ht] at hp)

/-- A connection is settled as soon as `warm_pool` has done with it. -/
theorem settled_of_warming (hO : Owned cfg L) {c target : ℕ} (hp : L.place t = .warming c target)
    (hm : L.Move cfg t L') : L'.Settled c := by
  have hhand : (L.place t).hand = some c := congrArg PoolAt.hand hp
  have hlt := (hO.held t c hhand).2
  refine ⟨hlt.trans_le hm.made_le, fun t' target' hp' => ?_⟩
  rcases eq_or_ne t' t with rfl | ht
  · exact absurd hlt (by rw [hm.warming_made hp']; exact lt_irrefl _)
  · rw [hm.place_of_ne ht] at hp'
    exact hO.not_hand hhand t' ht (congrArg PoolAt.hand hp')

/-- No connection has come to the pool yet. -/
structure Unsettled (cfg : PoolConfig) (L : Ledger T) : Prop where
  available : L.available = []
  inUse : L.inUse = ∅
  created : L.created = L.made
  limit : L.created ≤ cfg.maxConnections
  warming : ∀ c < L.made, ∃ t target, L.place t = .warming c target

omit [DecidableEq T] in
theorem Unsettled.of_hand (hO : Owned cfg L) (h : Unsettled cfg L) {c : ℕ}
    (hc : (L.place t).hand = some c) : ∃ target, L.place t = .warming c target := by
  obtain ⟨t', target, hp⟩ := h.warming c (hO.held t c hc).2
  obtain rfl := hO.uniq t t' c hc (congrArg PoolAt.hand hp)
  exact ⟨target, hp⟩

theorem unsettled_move (hO : Owned cfg L) (h : Unsettled cfg L) (hm : L.Move cfg t L')
    (hk : cfg.kind = .optimized) (hw : ∀ c target, L.place t ≠ .warming c target)
    (hmake : L.place t = .slow ∨ L.place t = .blocking ∨ L.place t = .waiting →
      L.available = [] → L.created < cfg.maxConnections → L'.made = L.made) :
    Unsettled cfg L' := by
  have hhand : ∀ c, (L.place t).hand ≠ some c := by
    intro c hc
    obtain ⟨target, hp⟩ := h.of_hand hO hc
    exact hw c target hp
  have hwarming : ∀ p, ∀ c < L.made, ∃ t' target, Function.update L.place t p t' = .warming c target := by
    intro p c hc
    obtain ⟨t', target, hp⟩ := h.warming c hc
    have ht : t' ≠ t := by
      rintro rfl
      exact hw c target hp
    exact ⟨t', target, by rw [Function.update_of_ne ht, hp]⟩
  have hempty : ∀ {c rest}, L.available ≠ c :: rest := by
    intro c rest ha
    rw [h.available] at ha
    cases ha
  cases hm with
  | pass => exact ⟨h.available, h.inUse, h.created, h.limit, hwarming _⟩
  | pop ha => exact absurd ha hempty
  | claim hp => exact absurd (congrArg PoolAt.hand hp) (hhand _)
  | putBack hp => exact absurd (congrArg PoolAt.hand hp) (hhand _)
  | take ha => exact absurd ha hempty
  | make _ hplace ha hmax => exact absurd (hmake hplace ha hmax) (Nat.succ_ne_self _)
  | giveBack hp =>
    rcases hp with hp | hp <;> exact absurd (congrArg PoolAt.hand hp) (hhand _)
  | @warmMake target hmax hn =>
    refine ⟨h.available, h.inUse, congrArg (· + 1) h.created, hmax, fun c hc => ?_⟩
    rcases Nat.lt_succ_iff_lt_or_eq.1 hc with hc | rfl
    · exact hwarming _ c hc
    · exact ⟨t, target, Function.update_self ..⟩
  | warmDone hp => exact absurd hp (hw _ _)
  | warmNext _ hp => exact absurd hp (hw _ _)
  | reset hk' => exact absurd hk hk'

/-- A task that makes a connection in `get_connection` passes the limit by one at most, and
`warm_pool` counts up to it, and then once more. -/
theorem created_move (hk : cfg.kind = .optimized) (hm : L.Move cfg t L')
    (h : L.created ≤ cfg.maxConnections + 1)
    (hw : ∀ c target, L.place t = .warming c target → L.created ≤ cfg.maxConnections) :
    L'.created ≤ cfg.maxConnections + 1 ∧
      ∀ c target, L'.place t = .warming c target → L'.created ≤ cfg.maxConnections := by
  have hnot : ∀ {p : PoolAt} {c target}, p.limbo = none →
      Function.update L.place t p t ≠ .warming c target := by
    intro p c target hl hp
    rw [Function.update_self] at hp
    exact PoolAt.ne_warming hl hp
  cases hm with
  | @pass p hp _ =>
    have hl := PoolAt.limbo_of_passes hp
    exact ⟨h, fun c target hp => absurd hp (hnot hl)⟩
  | pop => exact ⟨h, fun c target hp => by simp at hp⟩
  | claim | putBack | giveBack => exact ⟨h, fun c target hp => absurd hp (hnot rfl)⟩
  | take _ _ _ hl => exact ⟨h, fun c target hp => absurd hp (hnot hl)⟩
  | make hcount _ _ hmax _ _ hl =>
    refine ⟨?_, fun c target hp => absurd hp (hnot hl)⟩
    simp only [hcount hk]
    omega
  | warmMake hmax _ => exact ⟨hmax.trans (Nat.lt_succ_self _), fun _ _ _ => hmax⟩
  | warmDone hp =>
    exact ⟨Nat.succ_le_succ (hw _ _ hp), fun c target hp => absurd hp (hnot rfl)⟩
  | warmNext hmax _ => exact ⟨hmax.trans (Nat.lt_succ_self _), fun _ _ _ => hmax⟩
  | reset hk' => exact absurd hk hk'

end Ledger

namespace Pool

variable {T : Type} [DecidableEq T] {cfg : PoolConfig} {s s' : Pool T} {t : T}

/-- The connections that the pool has, in use or not, and those that were just made or popped. -/
def InExistence (s : Pool T) (c : ℕ) : Prop :=
  c ∈ s.available ∨ c ∈ s.inUse ∨ ∃ t, (s.place t).limbo = some c

/-- The counter is the number of connections in existence, and within the limit. -/
def Accounted (cfg : PoolConfig) (s : Pool T) : Prop :=
  s.created = {c | s.InExistence c}.ncard ∧ s.created ≤ cfg.maxConnections

/-- In the step no `connect` of `warm_pool` ends, and `get_connection` makes no connection: it was
interrupted, or it finds one, or the limit is reached. -/
def Unsettling (cfg : PoolConfig) (s : Pool T) (e : PoolEv T) : Prop :=
  (∀ c target, s.place e.task ≠ .warming c target) ∧
    ∀ b wake, e = .proceed e.task (.returned b) wake →
      s.place e.task = .slow ∨ s.place e.task = .blocking ∨ s.place e.task = .waiting →
        s.available = [] → cfg.maxConnections ≤ s.created

omit [DecidableEq T] in
theorem lt_made_of_inExistence (hO : s.ledger.Owned cfg) {c : ℕ} (hc : s.InExistence c) :
    c < s.made := by
  rcases hc with hc | hc | ⟨t, hc⟩
  · exact (hO.available c hc).2
  · exact hO.inUse c hc
  · exact (hO.held t c (PoolAt.hand_of_limbo hc)).2

omit [DecidableEq T] in
/-- As long as no connection has come to the pool, the counter is right. -/
theorem accounted_of_unsettled (hO : s.ledger.Owned cfg) (h : s.ledger.Unsettled cfg) :
    s.Accounted cfg := by
  have hset : {c | s.InExistence c} = ↑(Finset.range s.made) := by
    ext c
    simp only [Set.mem_ofPred_eq, Finset.coe_range, Set.mem_Iio]
    refine ⟨lt_made_of_inExistence hO, fun hc => ?_⟩
    obtain ⟨t, target, hp⟩ := h.warming c hc
    exact .inr (.inr ⟨t, congrArg PoolAt.limbo hp⟩)
  refine ⟨?_, h.limit⟩
  rw [hset, Set.ncard_coe_finset, Finset.card_range]
  exact h.created

omit [DecidableEq T] in
/-- The counter is wrong when a connection has come to the pool, or was given up. -/
theorem not_settled_of_accounted {D : Finset ℕ} (hO : s.ledger.Owned cfg)
    (hD : s.ledger.Doubled D) (h : s.Accounted cfg) (c : ℕ) : ¬s.ledger.Settled c := by
  have hsub : {c | s.InExistence c} ⊆ ↑(Finset.range s.made) := fun c hc => by
    simpa using lt_made_of_inExistence hO hc
  have hcard := Set.ncard_le_ncard hsub (Finset.finite_toSet _)
  rw [Set.ncard_coe_finset, Finset.card_range] at hcard
  have hcount : s.created = s.made + D.card := hD.count
  have hempty : D = ∅ := Finset.card_eq_zero.1 (by have := h.1; omega)
  have heq := Set.eq_of_subset_of_ncard_le hsub (by
    rw [Set.ncard_coe_finset, Finset.card_range, ← h.1]
    omega) (Finset.finite_toSet _)
  have hnone : ∀ c, c ∉ D := fun c => hempty ▸ Finset.notMem_empty c
  rintro ⟨hlt, hw⟩
  have hc : s.InExistence c := by
    have : c ∈ (↑(Finset.range s.made) : Set ℕ) := Finset.mem_coe.2 (Finset.mem_range.2 hlt)
    rwa [← heq] at this
  rcases hc with hc | hc | ⟨t, hc⟩
  · exact hnone c (hD.available c hc)
  · exact hnone c (hD.inUse c hc)
  · rcases PoolAt.eq_of_limbo hc with hp | ⟨target, hp⟩
    · exact hnone c (hD.fast t c hp)
    · exact hw t target hp

/-! ## Steps -/

/-- An interrupted task makes nothing. -/
theorem made_of_raised {e : Exc} {wake : ℕ}
    (hp : s.place t = .slow ∨ s.place t = .blocking ∨ s.place t = .waiting)
    (hs : s.proceed cfg t (.raised e) wake = some s') : s'.made = s.made := by
  rcases hp with hp | hp | hp <;> simp only [proceed, hp, locked] at hs <;> cases e <;> cases hs <;>
    rfl

/-- A task that finds no connection below the limit makes one. -/
theorem makes {b : Bool} {wake : ℕ} (hk : cfg.kind = .optimized)
    (hp : s.place t = .slow ∨ s.place t = .blocking ∨ s.place t = .waiting)
    (ha : s.available = []) (hmax : s.created < cfg.maxConnections)
    (hs : s.proceed cfg t (.returned b) wake = some s') :
    s'.made = s.made + 1 ∧ s'.place t = .checking s.made := by
  rcases hp with hp | hp | hp
  · simp only [proceed, hp, locked, hk, if_true, slowPath, ha, not_le.2 hmax, if_false] at hs
    split at hs <;> cases hs
    exact ⟨rfl, Function.update_self ..⟩
  · simp only [proceed, hp, locked, waitPath, ha, hmax, if_true] at hs
    split at hs <;> cases hs
    exact ⟨rfl, Function.update_self ..⟩
  · simp only [proceed, hp, waitPath, ha, hmax, if_true] at hs
    split at hs <;> cases hs
    exact ⟨rfl, Function.update_self ..⟩

theorem unsettled_step (hk : cfg.kind = .optimized) (hO : s.ledger.Owned cfg)
    (h : s.ledger.Unsettled cfg) {e : PoolEv T} (hC : s.Unsettling cfg e)
    (hs : s.step cfg e = some s') : s'.ledger.Unsettled cfg := by
  refine Ledger.unsettled_move hO h (move_of_step hO.resets hs) hk hC.1 fun hp ha hmax => ?_
  show s'.made = s.made
  cases e with
  | get t | release t | warm t target | disconnect t =>
    simp only [step] at hs
    change s.place t = _ ∨ s.place t = _ ∨ s.place t = _ at hp
    rcases hp with hp | hp | hp <;> simp [hp] at hs
  | proceed t o wake =>
    cases o with
    | returned b => exact absurd hmax (not_lt.2 (hC.2 b wake rfl hp ha))
    | raised e => exact made_of_raised hp hs

theorem settled_step (hk : cfg.kind = .optimized) (hO : s.ledger.Owned cfg) {e : PoolEv T}
    (hC : ¬s.Unsettling cfg e) (hs : s.step cfg e = some s') : ∃ c, s'.ledger.Settled c := by
  have hm := move_of_step hO.resets hs
  by_cases hw : ∃ c target, s.place e.task = .warming c target
  · obtain ⟨c, target, hp⟩ := hw
    exact ⟨c, Ledger.settled_of_warming hO hp hm⟩
  · obtain ⟨b, wake, he, hp, ha, hmax⟩ : ∃ b wake, e = .proceed e.task (.returned b) wake ∧
        (s.place e.task = .slow ∨ s.place e.task = .blocking ∨ s.place e.task = .waiting) ∧
          s.available = [] ∧ s.created < cfg.maxConnections := by
      by_contra hne
      refine hC ⟨fun c target hp => hw ⟨c, target, hp⟩, fun b wake he hp ha => not_lt.1 fun hmax => ?_⟩
      exact hne ⟨b, wake, he, hp, ha, hmax⟩
    rw [he] at hs
    obtain ⟨hmade, hplace⟩ := makes hk hp ha hmax hs
    refine ⟨s.made, ?_, fun t' target hp' => ?_⟩
    · show s.made < s'.made
      omega
    · rcases eq_or_ne t' e.task with rfl | ht
      · rw [show s'.ledger.place e.task = _ from hplace] at hp'
        cases hp'
      · rw [hm.place_of_ne ht] at hp'
        exact hO.not_hand_made t' (congrArg PoolAt.hand hp')

theorem doubled_of_run (hk : cfg.kind = .optimized) {C : Pool T → PoolEv T → Prop}
    {es : List (PoolEv T)} (h : (poolMachine T cfg).Run C (poolMachine T cfg).init es s) :
    ∃ D, s.ledger.Doubled D := by
  induction h with
  | nil => exact ⟨∅, nofun, rfl, nofun, nofun, nofun, nofun⟩
  | snoc hr _ hs ih =>
    obtain ⟨D, hD⟩ := ih
    have hO := owned_of_run hr
    exact Ledger.doubled_move hk hO hD (move_of_step hO.resets hs)

theorem unsettled_of_run (hk : cfg.kind = .optimized) {es : List (PoolEv T)}
    (h : (poolMachine T cfg).Run (Unsettling cfg) (poolMachine T cfg).init es s) :
    s.ledger.Unsettled cfg := by
  induction h with
  | nil => exact ⟨rfl, rfl, rfl, Nat.zero_le _, nofun⟩
  | snoc hr hC hs ih => exact unsettled_step hk (owned_of_run hr) ih hC hs

/-- A run has brought a connection to the pool, or given one up, or it has done neither. -/
theorem settled_or_run (hk : cfg.kind = .optimized) {es : List (PoolEv T)}
    (h : (poolMachine T cfg).Run Lib.Machine.Any (poolMachine T cfg).init es s) :
    (∃ c, s.ledger.Settled c) ∨
      (poolMachine T cfg).Run (Unsettling cfg) (poolMachine T cfg).init es s := by
  induction h with
  | nil => exact .inr .nil
  | @snoc es s u e hr _ hs ih =>
    have hO := owned_of_run hr
    rcases ih with ⟨c, hc⟩ | ih
    · exact .inl ⟨c, Ledger.settled_move hc (move_of_step hO.resets hs)⟩
    · by_cases hC : s.Unsettling cfg e
      · exact .inr (.snoc ih hC hs)
      · exact .inl (settled_step hk hO hC hs)

/-- **The counter is right** as long as no connection has come to the pool, and not after. -/
theorem accounted_iff (hk : cfg.kind = .optimized) {es : List (PoolEv T)}
    (h : (poolMachine T cfg).Run Lib.Machine.Any (poolMachine T cfg).init es s) :
    s.Accounted cfg ↔
      (poolMachine T cfg).Run (Unsettling cfg) (poolMachine T cfg).init es s := by
  have hO := owned_of_run h
  refine ⟨fun hacc => ?_, fun hr => accounted_of_unsettled hO (unsettled_of_run hk hr)⟩
  obtain ⟨D, hD⟩ := doubled_of_run hk h
  rcases settled_or_run hk h with ⟨c, hc⟩ | hr
  · exact absurd hc (not_settled_of_accounted hO hD hacc c)
  · exact hr

/-- The connection that `warm_pool` is connecting is counted once. -/
theorem accounted_warming :
    ∃ s : Pool Unit, s.place () = .warming 0 1 ∧ s.created = 1 ∧
      s.Accounted ⟨.optimized, 2, false, false⟩ := by
  let M := poolMachine Unit ⟨.optimized, 2, false, false⟩
  have hany : M.Run Lib.Machine.Any M.init
      ([] ++ [.warm () 1] ++ [.proceed () (.returned true) 0]) _ :=
    .snoc (.snoc .nil trivial rfl) trivial rfl
  refine ⟨_, rfl, rfl, (accounted_iff rfl hany).2 (.snoc (.snoc .nil ?_ rfl) ?_ rfl)⟩
  · exact ⟨nofun, nofun⟩
  · exact ⟨nofun, nofun⟩

/-! ## The limit -/

/-- A step with the lock, or one that does not touch the lock and makes nothing. -/
def LockMove (s : Pool T) (t : T) (s' : Pool T) : Prop :=
  (s.lock = none ∨ (s.place t).keeps) ∧ ((s'.place t).keeps → s'.lock = some t) ∨
    s'.lock = s.lock ∧ s'.created = s.created ∧ ¬(s.place t).keeps ∧ ¬(s'.place t).keeps

theorem lock_go {p : PoolAt} (ht : ¬(s.place t).keeps) (hp : ¬p.keeps) : s.LockMove t (s.go t p) :=
  .inr ⟨rfl, rfl, ht, by simpa [go] using hp⟩

theorem lock_locked {o : AwaitOutcome} {next : Option (Pool T)} (h : s.locked t o next = some s')
    (ht : ¬(s.place t).keeps)
    (hnext : ∀ u, next = some u → (u.place t).keeps → u.lock = some t) : s.LockMove t s' := by
  unfold locked at h
  split at h
  · split at h
    · exact .inl ⟨.inl ‹_›, hnext s' h⟩
    · cases h
  · cases h
    exact lock_go ht nofun
  · cases h

theorem lock_release {c : ℕ} {p : PoolAt} {o : AwaitOutcome} {wake : ℕ}
    (ht : ¬(s.place t).keeps) (hp : ¬p.keeps) (h : s.release cfg t c p o wake = some s') :
    s.LockMove t s' := by
  have hconn : ∀ {u : Pool T}, u.ledger = ((s.releaseConnection c).go t .idle).ledger →
      u.lock = s.lock → s.LockMove t u := by
    intro u hu hl
    have hplace : u.place t = .idle := by
      rw [show u.place = _ from congrArg Ledger.place hu]
      exact Function.update_self ..
    refine .inr ⟨hl, ?_, ht, by simp [hplace, PoolAt.keeps]⟩
    rw [show u.created = _ from congrArg Ledger.created hu]
    unfold releaseConnection
    split <;> rfl
  have hlock : ((s.releaseConnection c).go t .idle).lock = s.lock := by
    unfold releaseConnection
    split <;> rfl
  unfold release at h
  split at h
  · split at h
    · split at h
      · split at h
        · refine hconn (ledger_notify h) (hlock ▸ ?_)
          unfold notify at h
          split at h
          · cases h
            rfl
          · split at h <;> cases h
            rfl
        · cases h
          exact lock_go ht nofun
      · cases h
    · split at h <;> cases h
      exact hconn rfl hlock
  · split at h <;> cases h
    exact lock_go ht hp
  · cases h

theorem lock_warmLoop {target : ℕ} (h : ((s.warmLoop cfg t target).place t).keeps) :
    (s.warmLoop cfg t target).lock = some t := by
  unfold warmLoop at h ⊢
  split
  · rfl
  · simp_all [go, PoolAt.keeps]

theorem lock_proceed {o : AwaitOutcome} {wake : ℕ} (h : s.proceed cfg t o wake = some s') :
    s.LockMove t s' := by
  unfold proceed at h
  split at h
  case h_1 c hp =>
    refine lock_locked h (by simp [hp, PoolAt.keeps]) fun u hu => ?_
    cases hu
    unfold fastPath
    split <;> simp [go, PoolAt.keeps]
  case h_2 hp =>
    refine lock_locked h (by simp [hp, PoolAt.keeps]) fun u hu => ?_
    cases hu
    unfold slowPath basePath
    repeat' split
    all_goals simp [go, PoolAt.keeps]
  case h_3 hp =>
    refine lock_locked h (by simp [hp, PoolAt.keeps]) fun u hu => ?_
    cases hu
    unfold waitPath
    repeat' split
    all_goals simp [go, PoolAt.keeps]
  case h_4 hp =>
    split at h
    · split at h <;> cases h
      rename_i hn
      refine .inl ⟨.inl hn.2, ?_⟩
      unfold waitPath
      repeat' split
      all_goals simp [go, PoolAt.keeps]
    · cases h
      exact .inr ⟨rfl, rfl, by simp [hp, PoolAt.keeps], by simp [go, PoolAt.keeps]⟩
    · cases h
  case h_5 hp =>
    refine .inl ⟨.inr (by simp [hp, PoolAt.keeps]), ?_⟩
    split at h <;> cases h <;> simp [go, PoolAt.keeps]
  case h_6 c hp => exact lock_release (p := .idle) (by simp [hp, PoolAt.keeps]) nofun h
  case h_7 c hp => exact lock_release (p := .holding c) (by simp [hp, PoolAt.keeps]) nofun h
  case h_8 target hp =>
    refine lock_locked h (by simp [hp, PoolAt.keeps]) fun u hu => ?_
    cases hu
    exact lock_warmLoop
  case h_9 c target hp =>
    refine .inl ⟨.inr (by simp [hp, PoolAt.keeps]), ?_⟩
    split at h <;> cases h
    · exact lock_warmLoop
    · simp [go, PoolAt.keeps]
  case h_10 hp =>
    refine lock_locked h (by simp [hp, PoolAt.keeps]) fun u hu _ => ?_
    cases hu
    rfl
  case h_11 hp =>
    cases h
    exact .inl ⟨.inr (by simp [hp, PoolAt.keeps]), by simp [go, PoolAt.keeps]⟩
  case h_12 =>
    obtain ⟨p, hp, rfl⟩ := Option.map_eq_some_iff.1 h
    obtain ⟨ht, hp⟩ := keeps_afterAwait hp
    exact lock_go ht hp

theorem lock_step {e : PoolEv T} (h : s.step cfg e = some s') : s.LockMove e.task s' := by
  cases e with
  | get t =>
    simp only [step] at h
    split at h
    · rename_i hp
      have ht : ¬(s.place t).keeps := by simp [hp, PoolAt.keeps]
      split at h
      · split at h <;> cases h
        · exact .inr ⟨rfl, rfl, ht, by simp [PoolEv.task, go, PoolAt.keeps]⟩
        · exact lock_go ht (by simp [PoolAt.keeps])
      · cases h
        exact lock_go ht (by simp [PoolAt.keeps])
    · cases h
  | release t =>
    simp only [step] at h
    split at h
    · rename_i c hp
      have ht : ¬(s.place t).keeps := by simp [hp, PoolAt.keeps]
      cases h
      exact lock_go ht (by simp [PoolAt.keeps])
    · cases h
  | warm t target =>
    simp only [step] at h
    split at h
    · rename_i hp
      have ht : ¬(s.place t).keeps := by simp [hp.1, PoolAt.keeps]
      cases h
      exact lock_go ht (by simp [PoolAt.keeps])
    · cases h
  | disconnect t =>
    simp only [step] at h
    split at h
    · rename_i hp
      have ht : ¬(s.place t).keeps := by simp [hp, PoolAt.keeps]
      cases h
      exact lock_go ht (by simp [PoolAt.keeps])
    · cases h
  | proceed t o wake => exact lock_proceed h

/-- A task that keeps the lock has it. -/
def Kept (s : Pool T) : Prop :=
  ∀ t, (s.place t).keeps → s.lock = some t

omit [DecidableEq T] in
theorem kept_step (hK : s.Kept) {e : PoolEv T} (hm : s.LockMove e.task s')
    (hplace : ∀ t, t ≠ e.task → s'.place t = s.place t) : s'.Kept := by
  intro t ht
  rcases eq_or_ne t e.task with rfl | hne
  · rcases hm with ⟨-, hlock⟩ | ⟨-, -, -, hnot⟩
    · exact hlock ht
    · exact absurd ht hnot
  · rw [hplace t hne] at ht
    rcases hm with ⟨hfree | hkeeps, -⟩ | ⟨hlock, -, -, -⟩
    · exact absurd (hK t ht) (by simp [hfree])
    · exact absurd ((hK t ht).symm.trans (hK _ hkeeps)) (by simpa using hne)
    · rw [hlock]
      exact hK t ht

/-- The counter passes the limit by one at most, and not while `warm_pool` is connecting. -/
structure Bounded (cfg : PoolConfig) (s : Pool T) : Prop where
  kept : s.Kept
  created : s.created ≤ cfg.maxConnections + 1
  warming : ∀ t c target, s.place t = .warming c target → s.created ≤ cfg.maxConnections

theorem bounded_step (hk : cfg.kind = .optimized) (hO : s.ledger.Owned cfg) (h : s.Bounded cfg)
    {e : PoolEv T} (hs : s.step cfg e = some s') : s'.Bounded cfg := by
  have hm := move_of_step hO.resets hs
  have hl := lock_step hs
  have hplace : ∀ t, t ≠ e.task → s'.place t = s.place t := fun t ht => hm.place_of_ne ht
  -- another task that is connecting has the lock, so that this one makes nothing
  have hother : ∀ t c target, t ≠ e.task → s.place t = .warming c target →
      s'.created = s.created := by
    intro t c target ht hp
    have hlock : s.lock = some t := h.kept t (by simp [hp, PoolAt.keeps])
    rcases hl with ⟨hfree | hkeeps, -⟩ | ⟨-, hcreated, -, -⟩
    · simp [hfree] at hlock
    · exact absurd (hlock.symm.trans (h.kept _ hkeeps)) (by simpa using ht)
    · exact hcreated
  have hbound := Ledger.created_move hk hm h.created (h.warming e.task)
  refine ⟨kept_step h.kept hl hplace, hbound.1, fun t c target hp => ?_⟩
  rcases eq_or_ne t e.task with rfl | ht
  · exact hbound.2 c target hp
  · rw [hplace t ht] at hp
    rw [hother t c target ht hp]
    exact h.warming t c target hp

theorem bounded_of_run (hk : cfg.kind = .optimized) {C : Pool T → PoolEv T → Prop}
    {es : List (PoolEv T)} (h : (poolMachine T cfg).Run C (poolMachine T cfg).init es s) :
    s.Bounded cfg := by
  induction h with
  | nil => exact ⟨nofun, Nat.zero_le _, nofun⟩
  | snoc hr _ hs ih => exact bounded_step hk (owned_of_run hr) ih hs

/-- At most half of the limit is in use, rounded up. -/
theorem two_mul_inUse_le (hk : cfg.kind = .optimized) {C : Pool T → PoolEv T → Prop}
    {es : List (PoolEv T)} (h : (poolMachine T cfg).Run C (poolMachine T cfg).init es s) :
    2 * s.inUse.card ≤ cfg.maxConnections + 1 := by
  obtain ⟨D, hD⟩ := doubled_of_run hk h
  have hcount : s.created = s.made + D.card := hD.count
  have hinUse : s.inUse.card ≤ D.card := Finset.card_le_card hD.inUse
  have hmade : D.card ≤ s.made := by
    have : D ⊆ Finset.range s.made := fun c hc => Finset.mem_range.2 (hD.made c hc)
    simpa using Finset.card_le_card this
  have hle := (bounded_of_run hk h).created
  omega

/-- With the limit two, the first connection is counted twice, and there is never a second one. -/
theorem accounted_broken :
    let M := poolMachine Bool ⟨.optimized, 2, false, false⟩
    (∃ s, M.Run Lib.Machine.Any M.init [.get true, .proceed true (.returned true) 0] s ∧
      s.created = 2 ∧ ¬s.Accounted ⟨.optimized, 2, false, false⟩) ∧
    ∀ es s, M.Run Lib.Machine.Any M.init es s → s.inUse.card < 2 := by
  intro M
  refine ⟨?_, fun es s hr => ?_⟩
  · obtain ⟨s, hr, hcreated, hmade, ht, hf⟩ :
        ∃ s, M.Run Lib.Machine.Any M.init [.get true, .proceed true (.returned true) 0] s ∧
          s.created = 2 ∧ s.made = 1 ∧ s.place true = .checking 0 ∧ s.place false = .idle :=
      Lib.Machine.exists_run (by decide +kernel) (by decide +kernel)
    obtain ⟨D, hD⟩ := doubled_of_run rfl hr
    have hsettled : s.ledger.Settled 0 := by
      refine ⟨?_, fun t target hp => ?_⟩
      · show 0 < s.made
        omega
      · change s.place t = _ at hp
        cases t <;> simp [ht, hf] at hp
    exact ⟨s, hr, hcreated, fun hacc => not_settled_of_accounted (owned_of_run hr) hD hacc 0 hsettled⟩
  · have hle : 2 * s.inUse.card ≤ 2 + 1 := two_mul_inUse_le rfl hr
    omega

end Pool

end Kvdb
