import Kvdb.Components.Proof.HashMode

/-!
# hset mode against plain keys: runs

In a run of aligned operations both modes return the same (`twins_agree`). The condition is exact:
after an operation that is not aligned, some continuation is answered differently (`twins_differ`).
-/

namespace Kvdb

open Redis Lib HsetStore

variable {R V : Type} {b : Backend R V} {K : Finset String} {now : ℕ} {s : HsetStore R}
  {m : TtlMap String R}

/-! ## Runs -/

/-- In a run of aligned operations the relation holds, and the replies are the same. -/
theorem refines_of_run (hK : Set.InjOn b.getKey K) {ops : List (ℕ × Op V)} {t : Twins R V}
    (h : (twins b).Run (Aligned b K) (twins b).init ops t) :
    Refines b K t.clock t.hset t.plain ∧ t.hsetReplies = t.plainReplies := by
  refine h.inv (fun t => Refines b K t.clock t.hset t.plain ∧ t.hsetReplies = t.plainReplies)
    ⟨fun k _ => by simp [twins, TtlMap.evict, HsetStore.cells], rfl⟩ ?_
  rintro t ⟨now, op⟩ u ⟨hR, heq⟩ hC hu
  simp only [twins, Option.ite_none_right_eq_some, Option.some.injEq] at hu
  obtain ⟨hle, rfl⟩ := hu
  obtain ⟨hreply, hnext⟩ := Refines.op hK (TtlMap.evict_evict _ le_rfl) (hR.later hle).evict hC
  refine ⟨hnext, ?_⟩
  show t.hsetReplies ++ [_] = t.plainReplies ++ [_]
  rw [heq, hreply]
  rfl

/-- **hset mode refines plain-key mode**: in a run of aligned operations on keys that `get_key` tells
apart, both modes return the same. -/
theorem twins_agree (hK : Set.InjOn b.getKey K) {ops : List (ℕ × Op V)} {t : Twins R V}
    (h : (twins b).Run (Aligned b K) (twins b).init ops t) : t.hsetReplies = t.plainReplies :=
  (refines_of_run hK h).2

/-! ## The condition is exact -/

/-- From here on some operations are answered differently. -/
def Differs (b : Backend R V) (t : Twins R V) : Prop :=
  ∃ ops u, (twins b).Run Machine.Any t ops u ∧ u.hsetReplies ≠ u.plainReplies

/-- The next operation is answered differently. -/
theorem Differs.next {t : Twins R V} {now : ℕ} (op : Op V) (hle : t.clock ≤ now)
    (h : (hsetOp b now t.hset op).1 ≠ (plainOp b now t.plain op).1) : Differs b t := by
  refine ⟨[(now, op)], _, .single trivial (if_pos hle), fun heq => h ?_⟩
  have hlast := (List.append_inj' heq rfl).2
  exact (List.cons.inj hlast).1

/-- `contains` in hset mode, when the deadline is over or there is no value. -/
theorem contains_hset_false {k : String}
    (h : s.data.hget k = none ∨ ∃ e, s.expIndex.hget k = some e ∧ e < now) :
    (hsetOp b now s (.contains k)).1 = .bool false := by
  refine congrArg Reply.bool ?_
  rw [Hash.hexists, hget_hsetExpirationCheck]
  unfold luaHget
  rcases h with h | ⟨e, hi, he⟩
  · simp [h]
  · cases s.data.hget k <;> simp [hi, he]

theorem contains_hset_true {k : String} (hd : s.data.hget k ≠ none)
    (hi : ∀ e, s.expIndex.hget k = some e → now ≤ e) :
    (hsetOp b now s (.contains k)).1 = .bool true := by
  refine congrArg Reply.bool ?_
  rw [Hash.hexists, hget_hsetExpirationCheck]
  obtain ⟨v, hd⟩ := Option.ne_none_iff_exists'.1 hd
  unfold luaHget
  cases he : s.expIndex.hget k with
  | none => simp [hd]
  | some e =>
    have hlt : ¬ e < now := not_lt.2 (hi e he)
    simp [hd, hlt]

theorem contains_plain {k : String} :
    (plainOp b now m (.contains k)).1 = .bool (m.evict (1000 * now) (b.getKey k)).isSome := rfl

/-- A value that the hashes drop at its old deadline, and that has none as a plain key. -/
theorem Differs.of_inherited {t : Twins R V} {k : String} {e : ℤ} {c : Cell R}
    (hi : t.hset.expIndex.hget k = some e) (hp : t.plain (b.getKey k) = some c)
    (hc : c.expireAt = none) : Differs b t := by
  obtain ⟨now, hle, he⟩ : ∃ now : ℕ, t.clock ≤ now ∧ e < now :=
    ⟨t.clock + (e + 1).toNat, by omega, by omega⟩
  refine .next (.contains k) hle ?_
  rw [contains_hset_false (.inr ⟨e, hi, he⟩), contains_plain]
  simp [TtlMap.evict, hp, hc]

/-- A value that is there in hset mode and no plain key. -/
theorem Differs.of_lost {t : Twins R V} {k : String} (hd : t.hset.data.hget k ≠ none)
    (hi : ∀ e, t.hset.expIndex.hget k = some e → (t.clock : ℤ) ≤ e)
    (hp : t.plain.evict (1000 * t.clock) (b.getKey k) = none) : Differs b t := by
  refine .next (.contains k) le_rfl ?_
  rw [contains_hset_true hd hi, contains_plain, hp]
  simp

/-- Its reply was different already. -/
theorem Differs.of_reply {t : Twins R V} {now : ℕ} (op : Op V)
    (h : (hsetOp b now t.hset op).1 ≠ (plainOp b now t.plain op).1) {u : Twins R V}
    (hu : (twins b).step t (now, op) = some u) : Differs b u := by
  simp only [twins, Option.ite_none_right_eq_some, Option.some.injEq] at hu
  obtain ⟨-, rfl⟩ := hu
  refine ⟨[], _, .nil, fun heq => h ?_⟩
  have hlast := (List.append_inj' heq rfl).2
  exact (List.cons.inj hlast).1

/-- **After an operation that is not aligned** the modes give different replies, at once or later. -/
theorem twins_differ (hK : Set.InjOn b.getKey K) {ops : List (ℕ × Op V)} {t u : Twins R V}
    (h : (twins b).Run (Aligned b K) (twins b).init ops t) {now : ℕ} {op : Op V}
    (hkeys : ∀ k ∈ op.keys, k ∈ K) (hu : (twins b).step t (now, op) = some u)
    (hC : ¬ Aligned b K t (now, op)) : Differs b u := by
  have hu' := hu
  simp only [twins, Option.ite_none_right_eq_some, Option.some.injEq] at hu'
  obtain ⟨hle, rfl⟩ := hu'
  have hR := ((refines_of_run hK h).1.later hle).evict
  have hm : (t.plain.evict (1000 * now)).evict (1000 * now) = t.plain.evict (1000 * now) :=
    TtlMap.evict_evict _ le_rfl
  -- as a plain key a value is gone at its deadline
  have hdead : ∀ {k e}, k ∈ K → t.hset.expIndex.hget k = some e → e ≤ now →
      t.plain.evict (1000 * now) (b.getKey k) = none := by
    intro k e hk hi he
    rw [← hm, hR k hk, evict_cells_of_expired _ hi he]
  have hC' := not_and.1 hC hkeys
  cases op with
  | set key value ex =>
    have hk : key ∈ K := hkeys key List.mem_cons_self
    dsimp only at hC'
    cases he : b.orExpiration ex with
    | none =>
      rw [he] at hC'
      obtain ⟨e, hi⟩ := Option.ne_none_iff_exists'.1 hC'
      refine .of_inherited (k := key) (e := e) (c := ⟨b.encode value, none⟩) ?_ ?_ rfl
      · simp only [hsetOp, he, luaHset, Option.map_none, Option.elim_none, hi]
      · simp only [plainOp, plainLive, he, TtlMap.set_apply, if_pos]
    | some ex' =>
      rw [he] at hC'
      refine .of_reply (.set key value ex) ?_ hu
      simp [hsetOp, plainOp, plainLive, he, show ¬ 0 < ex' from hC']
  | setBatch data ex =>
    have hk : ∀ p ∈ data, p.1 ∈ K := fun p hp => hkeys p.1 (List.mem_map_of_mem hp)
    simp only [Classical.not_imp, not_forall] at hC'
    obtain ⟨he, p, hp, hi⟩ := hC'
    obtain ⟨e, hi⟩ := Option.ne_none_iff_exists'.1 hi
    have hd : data ≠ [] := List.ne_nil_of_mem hp
    obtain ⟨v, hv⟩ := Option.ne_none_iff_exists'.1
      (mt lastOf_eq_none.1 (not_not.2 (List.mem_map_of_mem (f := Prod.fst) hp)))
    refine .of_inherited (k := p.1) (e := e) (c := ⟨b.encode v, none⟩) ?_ ?_ rfl
    · simp only [hsetOp, if_neg hd, he, Option.elim_none, hi]
    · simp only [plainOp, plainLive, if_neg hd, he, Option.elim_none]
      rw [foldl_set_apply hK hk (hk p hp), hv]
      rfl
  | get key default =>
    have hk : key ∈ K := hkeys key List.mem_cons_self
    simp only [Classical.not_imp, not_forall] at hC'
    obtain ⟨v, hd, hi, hv⟩ := hC'
    obtain ⟨x, hv⟩ := Option.ne_none_iff_exists'.1 hv
    have hdead := hdead hk hi le_rfl
    have hs : (hsetOp b now t.hset (.get key default)).2 = t.hset := by
      simp [hsetOp, luaHget, hd, hi, hv]
    have hp : (plainOp b now t.plain (.get key default)).2 = t.plain.evict (1000 * now) := by
      simp [plainOp, plainLive, TtlMap.get, hdead]
    refine .of_lost (k := key) ?_ ?_ ?_
    · rw [hs, hd]
      simp
    · intro e he
      rw [hs, hi] at he
      cases he
      exact le_rfl
    · rw [hp, hm, hdead]
  | delete key => exact absurd trivial hC'
  | contains key =>
    have hk : key ∈ K := hkeys key List.mem_cons_self
    simp only [Classical.not_imp, ne_eq, not_not] at hC'
    obtain ⟨hd, hi⟩ := hC'
    have hdead := hdead hk hi le_rfl
    refine .of_reply (.contains key) ?_ hu
    rw [contains_hset_true hd, contains_plain, hdead]
    · simp
    · intro e he
      rw [hi] at he
      cases he
      exact le_rfl
  | clear keys =>
    simp only [Classical.not_imp, not_forall] at hC'
    obtain ⟨hks, k, hk, hlive, hg⟩ := hC'
    refine .next (.contains k) le_rfl ?_
    have hp : (plainOp b now t.plain (.clear keys)).2 (b.getKey k) =
        t.plain.evict (1000 * now) (b.getKey k) := by
      simp only [plainOp, plainLive, if_pos hks, if_neg hg]
    have hlive' : t.plain.evict (1000 * now) (b.getKey k) ≠ none := by
      rw [← hm, hR k hk]
      exact hlive
    rw [contains_hset_false (.inl ?_), contains_plain]
    · obtain ⟨c, hc⟩ := Option.ne_none_iff_exists'.1 hlive'
      have hc' : (t.plain.evict (1000 * now)).evict (1000 * now) (b.getKey k) = some c := by
        rw [hm, hc]
      rw [TtlMap.evict] at hc'
      dsimp only
      rw [TtlMap.evict, hp, hc']
      simp
    · simp [hsetOp, hks]
  | expire key ex =>
    have hk : key ∈ K := hkeys key List.mem_cons_self
    simp only [Classical.not_imp, not_forall, not_lt] at hC'
    obtain ⟨hex, hd, e, hi, he⟩ := hC'
    have hdead := hdead hk hi he
    refine .of_lost (k := key) hd ?_ ?_
    · intro e' he'
      simp only [hsetOp, hsetExpire, Hash.hget_hset, if_pos, Option.some.injEq] at he'
      dsimp only
      omega
    · simp [plainOp, plainLive, expireKey, if_pos hex, TtlMap.expire, TtlMap.evict_update, hdead]
  | incrby key amount =>
    have hk : key ∈ K := hkeys key List.mem_cons_self
    obtain ⟨hT, herr⟩ := not_or.1 hC'
    have hget := hR.get_eq_none hm hk hT
    have hdead : t.plain.evict (1000 * now) (b.getKey key) = none := by
      rw [← hm, hR key hk, evict_cells_of_not_timed hT]
    simp only [Timed, not_forall] at hT
    obtain ⟨e, hi, -⟩ := hT
    cases h1 : b.incr (t.hset.data.hget key) amount with
    | none =>
      obtain ⟨p, h2⟩ := Option.ne_none_iff_exists'.1 fun h2 => herr ⟨h1, h2⟩
      refine .of_reply (.incrby key amount) ?_ hu
      simp [hsetOp, plainOp, plainLive, h1, hget, h2]
    | some p =>
      cases h2 : b.incr none amount with
      | none =>
        refine .of_reply (.incrby key amount) ?_ hu
        simp [hsetOp, plainOp, plainLive, h1, hget, h2]
      | some q =>
        refine .of_inherited (k := key) (e := e) (c := ⟨q.1, none⟩) ?_ ?_ rfl
        · simp only [hsetOp, h1, hi]
        · simp [plainOp, plainLive, hget, h2, storeIncr, hdead]
  | expirationCheck keys => exact absurd trivial hC'

/-! ## Two runs -/

/-- Values with an expiry, read before their deadlines and after them. -/
def expiring : List (ℕ × Op ℤ) :=
  [(0, .set "x" 1 (some 10)), (3, .incrby "x" 4), (5, .expire "x" 20), (6, .get "x" none),
    (7, .setBatch [("x", 2), ("y", 3)] (some 5)), (11, .contains "y"), (13, .get "x" (some 0)),
    (14, .clear []), (15, .set "x" 7 (some 1)), (16, .delete "x")]

theorem twins_agree_expiring :
    ∃ t, (twins intBackend).Run (Aligned intBackend {"x", "y"}) (twins intBackend).init
        expiring t ∧ t.hsetReplies = t.plainReplies := by
  obtain ⟨t, ht, -⟩ : ∃ t, (twins intBackend).Run (Aligned intBackend {"x", "y"})
      (twins intBackend).init expiring t ∧ True :=
    Machine.exists_run (by decide +kernel) (by decide +kernel)
  have hK : ∀ k ∈ ({"x", "y"} : Finset String), ∀ k' ∈ ({"x", "y"} : Finset String),
      intBackend.getKey k = intBackend.getKey k' → k = k' := by decide +kernel
  exact ⟨t, ht, twins_agree (fun k hk k' hk' => hK k hk k' hk') ht⟩

/-- **A value set without an expiry** goes with the deadline of the value before it. -/
theorem twins_broken :
    ∃ t, (twins intBackend).Run Machine.Any (twins intBackend).init
        [(0, .set "x" 1 (some 10)), (1, .set "x" 2 none), (11, .get "x" none)] t ∧
      t.hsetReplies ≠ t.plainReplies :=
  Machine.exists_run (by decide +kernel) (by decide +kernel)

end Kvdb
