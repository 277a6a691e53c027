import Mathlib.Data.Finset.Basic
import Mathlib.Data.Set.Function
import Kvdb.Components.Proof.Cells

/-!
# hset mode against plain keys: one operation

`Refines b K now s m`: at the time `now` the plain keys of the keys `K` are the cells of the hashes.
`Aligned` is the condition on an operation under which both modes keep the relation and answer alike
(`Refines.op`). `getKey` must tell the keys of `K` apart: a key that contains the base key is its own
plain key.
-/

namespace Kvdb

open Redis Lib HsetStore

variable {R V : Type}

/-! ## The relation -/

variable (b : Backend R V) (K : Finset String)

/-- At the time `now` the plain keys of `K` are the cells of the hashes. -/
def Refines (now : ℕ) (s : HsetStore R) (m : TtlMap String R) : Prop :=
  ∀ k ∈ K, m.evict (1000 * now) (b.getKey k) = s.cells.evict (1000 * now) k

variable {b K} {now now' : ℕ} {s s' : HsetStore R} {m m' : TtlMap String R}

theorem Refines.later (h : Refines b K now s m) (hn : now ≤ now') : Refines b K now' s m := by
  intro k hk
  have hle : 1000 * now ≤ 1000 * now' := by omega
  have hk := h k hk
  rw [← TtlMap.evict_evict m hle, ← TtlMap.evict_evict s.cells hle]
  simp only [TtlMap.evict] at hk ⊢
  rw [hk]

theorem Refines.evict (h : Refines b K now s m) : Refines b K now s (m.evict (1000 * now)) := by
  intro k hk
  rw [TtlMap.evict_evict m le_rfl]
  exact h k hk

theorem Refines.congr (h : Refines b K now s m)
    (hs : ∀ k ∈ K, s'.cells.evict (1000 * now) k = s.cells.evict (1000 * now) k) :
    Refines b K now s' m := fun k hk => (h k hk).trans (hs k hk).symm

/-- One key changes in both modes. -/
theorem Refines.update (hK : Set.InjOn b.getKey K) (h : Refines b K now s m) {k : String}
    (hk : k ∈ K) {o : Option (Cell R)}
    (ho : (o.filter fun c => c.expireAt.all fun t => decide (1000 * now < t)) =
      s'.cells.evict (1000 * now) k)
    (hs : ∀ k', k' ≠ k → s'.cells k' = s.cells k') :
    Refines b K now s' (Function.update m (b.getKey k) o) := by
  intro k' hk'
  rw [TtlMap.evict_update]
  by_cases he : k' = k
  · subst he
    rw [Function.update_self, ho]
  · have hne : b.getKey k' ≠ b.getKey k := fun hg => he (hK hk' hk hg)
    rw [Function.update_of_ne hne, h k' hk', evict_cells_congr (hs k' he)]

/-! ## The operations -/

/-- The keys of an operation. -/
def Op.keys : Op V → List String
  | .set key .. | .get key _ | .delete key | .contains key | .expire key _ | .incrby key _ => [key]
  | .setBatch data _ => data.map Prod.fst
  | .clear keys | .expirationCheck keys => keys

/-- A value without an expiry finds no deadline, and the server accepts an expiry. -/
def Admits (s : HsetStore R) (key : String) : Option ℤ → Prop
  | none => s.expIndex.hget key = none
  | some ex => 0 < ex

/-- The condition under which an operation answers alike in both modes and keeps the relation. -/
def Aligned (b : Backend R V) (K : Finset String) (s : Twins R V) (a : ℕ × Op V) : Prop :=
  (∀ k ∈ a.2.keys, k ∈ K) ∧
    match a.2 with
    | .set key _ ex => Admits s.hset key (b.orExpiration ex)
    | .setBatch data ex =>
      b.orExpiration ex = none → ∀ p ∈ data, s.hset.expIndex.hget p.1 = none
    | .get key _ =>
      -- not at the instant of the deadline, unless the value cannot be decoded
      ∀ v, s.hset.data.hget key = some v → s.hset.expIndex.hget key = some (a.1 : ℤ) →
        b.decode v = none
    | .contains key =>
      s.hset.data.hget key ≠ none → s.hset.expIndex.hget key ≠ some (a.1 : ℤ)
    | .expire key ex =>
      -- not a value that has expired and is still there
      0 < ex → s.hset.data.hget key ≠ none → ∀ e, s.hset.expIndex.hget key = some e → (a.1 : ℤ) < e
    | .incrby key amount =>
      -- a deadline belongs to a value that has not expired, unless there is an error in any case
      Timed s.hset a.1 key ∨
        b.incr (s.hset.data.hget key) amount = none ∧ b.incr none amount = none
    | .clear keys =>
      keys = [] → ∀ k ∈ K, s.hset.cells.evict (1000 * a.1) k ≠ none →
        b.globMatch (b.baseKey ++ b.keyjoin ++ "*") (b.getKey k) = true
    | .delete _ | .expirationCheck _ => True

instance (s : HsetStore R) (key : String) : ∀ ex, Decidable (Admits s key ex)
  | none => inferInstanceAs (Decidable (_ = none))
  | some ex => inferInstanceAs (Decidable (0 < ex))

instance (b : Backend R V) (K : Finset String) (s : Twins R V) :
    ∀ a : ℕ × Op V, Decidable (Aligned b K s a)
  | (_, .set key _ ex) => inferInstanceAs (Decidable (_ ∧ Admits s.hset key (b.orExpiration ex)))
  | (_, .setBatch data ex) =>
    inferInstanceAs (Decidable (_ ∧ (b.orExpiration ex = none →
      ∀ p ∈ data, s.hset.expIndex.hget p.1 = none)))
  | (now, .get key _) =>
    inferInstanceAs (Decidable (_ ∧ ∀ v ∈ s.hset.data.hget key,
      s.hset.expIndex.hget key = some (now : ℤ) → b.decode v = none))
  | (now, .contains key) =>
    inferInstanceAs (Decidable (_ ∧ (s.hset.data.hget key ≠ none →
      s.hset.expIndex.hget key ≠ some (now : ℤ))))
  | (now, .expire key ex) =>
    inferInstanceAs (Decidable (_ ∧ (0 < ex → s.hset.data.hget key ≠ none →
      ∀ e ∈ s.hset.expIndex.hget key, (now : ℤ) < e)))
  | (now, .incrby key amount) =>
    inferInstanceAs (Decidable (_ ∧ (Timed s.hset now key ∨
      b.incr (s.hset.data.hget key) amount = none ∧ b.incr none amount = none)))
  | (now, .clear keys) =>
    inferInstanceAs (Decidable (_ ∧ (keys = [] →
      ∀ k ∈ K, s.hset.cells.evict (1000 * now) k ≠ none →
        b.globMatch (b.baseKey ++ b.keyjoin ++ "*") (b.getKey k) = true)))
  | (_, .delete _) | (_, .expirationCheck _) => inferInstanceAs (Decidable (_ ∧ True))

/-- Both modes answer alike and keep the relation. -/
def Agrees (b : Backend R V) (K : Finset String) (now : ℕ) (s : HsetStore R) (m : TtlMap String R)
    (op : Op V) : Prop :=
  (hsetOp b now s op).1 = (plainLive b now m op).1 ∧
    Refines b K now (hsetOp b now s op).2 (plainLive b now m op).2

section
variable (hK : Set.InjOn b.getKey K) (h : Refines b K now s m)
include hK h

theorem Refines.set {k : String} (hk : k ∈ K) (v : R) (hi : s.expIndex.hget k = none) :
    Refines b K now (s.luaHset k v none) (m.set (b.getKey k) v) := by
  refine h.update hK hk ?_ fun k' hne => ?_
  · rw [evict_cells, if_pos, cells_luaHset, if_pos rfl, hi]
    · rfl
    · intro e he
      rw [luaHset, Option.elim_none, hi] at he
      cases he
  · rw [cells_luaHset, if_neg hne]

theorem Refines.setex {k : String} (hk : k ∈ K) (v : R) {ex : ℤ} (hex : 0 < ex) :
    Refines b K now (s.luaHset k v (some (now + ex)))
      (m.setex (1000 * now) (b.getKey k) ex.toNat v) := by
  refine h.update hK hk ?_ fun k' hne => ?_
  · rw [evict_cells, if_pos, cells_luaHset, if_pos rfl, Option.some_or, Option.map_some,
      millis_add hex.le]
    · simp
      omega
    · intro e he
      rw [luaHset, Option.elim_some, Hash.hget_hset, if_pos rfl] at he
      cases he
      omega
  · rw [cells_luaHset, if_neg hne]

theorem Refines.del {k : String} (hk : k ∈ K) :
    Refines b K now (s.luaHdel k) (m.del (b.getKey k)) := by
  refine h.update hK hk ?_ fun k' hne => ?_
  · simp [TtlMap.evict, cells_luaHdel]
  · rw [cells_luaHdel, if_neg hne]

theorem Refines.expire (hm : m.evict (1000 * now) = m) {k : String} (hk : k ∈ K) {ex : ℤ}
    (hC : 0 < ex → s.data.hget k ≠ none → ∀ e, s.expIndex.hget k = some e → (now : ℤ) < e) :
    Refines b K now (s.hsetExpire now k ex) (expireKey now m (b.getKey k) ex) := by
  have hcells : ∀ k', k' ≠ k → (s.hsetExpire now k ex).cells k' = s.cells k' := by
    intro k' hne
    rw [cells_hsetExpire, if_neg hne]
  have hidx : (s.hsetExpire now k ex).expIndex.hget k = some (now + ex) := by
    rw [hsetExpire, Hash.hget_hset, if_pos rfl]
  unfold expireKey
  split
  · rename_i hex
    have hnew : (s.hsetExpire now k ex).cells.evict (1000 * now) k =
        (s.cells k).map fun c => { c with expireAt := some (millis (now + ex)) } := by
      rw [evict_cells, if_pos, cells_hsetExpire, if_pos rfl]
      intro e he
      rw [hidx] at he
      cases he
      omega
    have hold := h k hk
    rw [hm, evict_cells] at hold
    refine h.update hK hk ?_ hcells
    rw [hnew, hold]
    cases hc : s.cells k with
    | none => simp
    | some c =>
      have hd : s.data.hget k ≠ none := by
        intro hd
        rw [HsetStore.cells, hd] at hc
        cases hc
      rw [if_pos (hC hex hd)]
      simp only [Option.map_some, Option.filter_some, Option.all_some, millis_add hex.le]
      rw [if_pos]
      simp only [decide_eq_true_eq]
      omega
  · rename_i hex
    refine h.update hK hk ?_ hcells
    rw [evict_cells_of_expired _ hidx (by omega)]
    rfl

/-- `INCRBY` of a live value, or of a key without value and deadline. -/
theorem Refines.incr (hm : m.evict (1000 * now) = m) {k : String} (hk : k ∈ K) (v : R)
    (hC : Timed s now k) :
    Refines b K now (s.luaHset k v none) (storeIncr m (b.getKey k) v) := by
  have hlive : ∀ e, s.expIndex.hget k = some e → (now : ℤ) < e := fun e he => (hC e he).2
  have hk' := h k hk
  rw [hm, evict_cells, if_pos hlive] at hk'
  refine h.update hK hk ?_ fun k' hne => ?_
  · rw [hk', evict_cells, if_pos, cells_luaHset, if_pos rfl, Option.none_or]
    · cases hi : s.expIndex.hget k with
      | none => cases hd : s.data.hget k <;> simp [HsetStore.cells, hd, hi]
      | some e =>
        obtain ⟨hd, he⟩ := hC e hi
        obtain ⟨v', hd⟩ := Option.ne_none_iff_exists'.1 hd
        simp only [HsetStore.cells, hd, hi, Option.map_some, Option.bind_some, Option.filter_some,
          Option.all_some]
        rw [if_pos]
        exact decide_eq_true (lt_millis.2 he)
    · exact hlive
  · rw [cells_luaHset, if_neg hne]

end

theorem Refines.get_eq (h : Refines b K now s m) (hm : m.evict (1000 * now) = m) {k : String}
    (hk : k ∈ K) : m.get (b.getKey k) = (s.cells.evict (1000 * now)).get k := by
  rw [TtlMap.get, TtlMap.get, ← h k hk, hm]

theorem Refines.get_eq_of_timed (h : Refines b K now s m) (hm : m.evict (1000 * now) = m)
    {k : String} (hk : k ∈ K) (hT : Timed s now k) : m.get (b.getKey k) = s.data.hget k := by
  rw [h.get_eq hm hk, TtlMap.get, evict_cells, if_pos fun e he => (hT e he).2]
  unfold HsetStore.cells
  cases s.data.hget k <;> rfl

theorem Refines.get_eq_none (h : Refines b K now s m) (hm : m.evict (1000 * now) = m)
    {k : String} (hk : k ∈ K) (hT : ¬ Timed s now k) : m.get (b.getKey k) = none := by
  rw [h.get_eq hm hk, TtlMap.get, evict_cells_of_not_timed hT]
  rfl

/-! ## Several keys -/

theorem Refines.delAll (hK : Set.InjOn b.getKey K) (h : Refines b K now s m) {keys : List String}
    (hkeys : ∀ k ∈ keys, k ∈ K) :
    Refines b K now (keys.foldl luaHdel s) (keys.foldl (fun m k => m.del (b.getKey k)) m) := by
  induction keys generalizing s m with
  | nil => exact h
  | cons k keys ih =>
    exact ih (h.del hK (hkeys k List.mem_cons_self)) fun k' hk' =>
      hkeys k' (List.mem_cons_of_mem _ hk')

theorem Refines.setAll (hK : Set.InjOn b.getKey K) (h : Refines b K now s m)
    {data : List (String × V)} (hkeys : ∀ p ∈ data, p.1 ∈ K)
    (hi : ∀ p ∈ data, s.expIndex.hget p.1 = none) :
    Refines b K now (data.foldl (fun s p => s.luaHset p.1 (b.encode p.2) none) s)
      (data.foldl (fun m p => m.set (b.getKey p.1) (b.encode p.2)) m) := by
  induction data generalizing s m with
  | nil => exact h
  | cons p data ih =>
    have hp : p ∈ p :: data := List.mem_cons_self
    exact ih (h.set hK (hkeys p hp) _ (hi p hp))
      (fun q hq => hkeys q (List.mem_cons_of_mem _ hq))
      (fun q hq => hi q (List.mem_cons_of_mem _ hq))

section
variable (hK : Set.InjOn b.getKey K) {data : List (String × V)} (hkeys : ∀ p ∈ data, p.1 ∈ K)
  {k : String} (hk : k ∈ K)
include hK hkeys hk

theorem foldl_set_apply (m : TtlMap String R) :
    data.foldl (fun m p => m.set (b.getKey p.1) (b.encode p.2)) m (b.getKey k) =
      ((lastOf data k).map fun v => { value := b.encode v, expireAt := none }).or
        (m (b.getKey k)) := by
  induction data generalizing m with
  | nil => rfl
  | cons p data ih =>
    obtain ⟨k', v⟩ := p
    have hg : b.getKey k = b.getKey k' ↔ k = k' :=
      ⟨fun hg => hK hk (hkeys _ List.mem_cons_self) hg, fun hg => by rw [hg]⟩
    rw [List.foldl_cons, ih fun q hq => hkeys q (List.mem_cons_of_mem _ hq), lastOf_cons,
      TtlMap.set_apply]
    simp only [hg]
    cases lastOf data k with
    | some => rfl
    | none => by_cases hkk : k = k' <;> simp [hkk]

variable (now) in
theorem foldl_expireKey_apply (ex : ℤ) (m : TtlMap String R) :
    data.foldl (fun m p => expireKey now m (b.getKey p.1) ex) m (b.getKey k) =
      if k ∈ data.map Prod.fst then expireKey now m (b.getKey k) ex (b.getKey k)
      else m (b.getKey k) := by
  have hself : ∀ (m : TtlMap String R) k, expireKey now m k ex k =
      if 0 < ex then (m k).map fun c => { c with expireAt := some (1000 * now + 1000 * ex.toNat) }
      else none := by
    intro m k
    unfold expireKey
    split
    · rw [TtlMap.expire_apply, if_pos rfl]
    · rw [TtlMap.del_apply, if_pos rfl]
  have hother : ∀ (m : TtlMap String R) k k', k' ≠ k → expireKey now m k ex k' = m k' := by
    intro m k k' hne
    unfold expireKey
    split
    · rw [TtlMap.expire_apply, if_neg hne]
    · rw [TtlMap.del_apply, if_neg hne]
  induction data generalizing m with
  | nil => simp
  | cons p data ih =>
    have ih := ih (fun q hq => hkeys q (List.mem_cons_of_mem _ hq)) (expireKey now m (b.getKey p.1) ex)
    rw [List.foldl_cons, ih, List.map_cons]
    by_cases hp : k = p.1
    · subst hp
      simp only [hself, List.mem_cons, true_or, if_true]
      split
      · split
        · simp [Option.map_map, Function.comp_def]
        · rfl
      · rfl
    · have hne : b.getKey k ≠ b.getKey p.1 := fun hg => hp (hK hk (hkeys p List.mem_cons_self) hg)
      simp only [hself, hother _ _ _ hne, List.mem_cons, hp, false_or]

end

/-- `set_batch` with an expiry: the old deadlines play no part. -/
theorem Refines.setAllExpire (hK : Set.InjOn b.getKey K) (h : Refines b K now s m)
    {data : List (String × V)} (hkeys : ∀ p ∈ data, p.1 ∈ K) (ex : ℤ) :
    Refines b K now
      (({ s with data := s.data.hsetAll (data.map fun p => (p.1, b.encode p.2)) } :
        HsetStore R).hsetExpireBatch now (data.map Prod.fst) ex)
      (data.foldl (fun m p => expireKey now m (b.getKey p.1) ex)
        (data.foldl (fun m p => m.set (b.getKey p.1) (b.encode p.2)) m)) := by
  intro k hk
  have hdata : (s.data.hsetAll (data.map fun p => (p.1, b.encode p.2))).hget k =
      ((lastOf data k).map b.encode).or (s.data.hget k) := by
    have hl := lastOf_map (f := id) (g := b.encode) (k := k) fun p (_ : p ∈ data) h => h
    rw [Hash.hget_hsetAll]
    exact congrArg (fun o => Option.or o _) hl
  have hidx : (s.expIndex.hsetAll ((data.map Prod.fst).map fun k => (k, (now : ℤ) + ex))).hget k =
      if k ∈ data.map Prod.fst then some (now + ex) else s.expIndex.hget k := by
    have hl := lastOf_map (f := id) (g := fun _ => (now : ℤ) + ex) (k := k)
      fun p (_ : p ∈ data) h => h
    rw [Hash.hget_hsetAll, List.map_map]
    refine (congrArg (fun o => Option.or o _) hl).trans ?_
    cases hv : lastOf data k with
    | none => rw [if_neg (lastOf_eq_none.1 hv)]; rfl
    | some v =>
      rw [if_pos (List.mem_map_of_mem (mem_of_lastOf hv))]
      rfl
  have hplain := foldl_expireKey_apply now hK hkeys hk ex
    (data.foldl (fun m p => m.set (b.getKey p.1) (b.encode p.2)) m)
  have hset := foldl_set_apply hK hkeys hk m
  have hold := h k hk
  simp only [TtlMap.evict] at hold ⊢
  rw [hplain]
  simp only [HsetStore.cells, hsetExpireBatch, hdata, hidx]
  cases hv : lastOf data k with
  | none =>
    rw [if_neg (lastOf_eq_none.1 hv), if_neg (lastOf_eq_none.1 hv), hset, hv]
    exact hold
  | some v =>
    have hmem := List.mem_map_of_mem (f := Prod.fst) (mem_of_lastOf hv)
    rw [if_pos hmem, if_pos hmem]
    rw [hv] at hset
    unfold expireKey
    split
    · rename_i hex
      rw [TtlMap.expire_apply, if_pos rfl, hset]
      simp [millis_add hex.le]
    · rename_i hex
      rw [TtlMap.del_apply, if_pos rfl]
      have hdead : ¬ (1000 * now < millis (now + ex)) := by
        rw [lt_millis]
        omega
      simp only [Option.map_some, Option.some_or, Option.filter_some, Option.all_some, hdead,
        decide_false]
      rfl

/-! ## One operation -/

/-- The keyless `clear` reaches every live key of `K`. -/
theorem Refines.clearAll (h : Refines b K now s m) {match? : String → Bool}
    (hC : ∀ k ∈ K, s.cells.evict (1000 * now) k ≠ none → match? (b.getKey k) = true) :
    Refines b K now { s with data := ∅ } fun k => if match? k then none else m k := by
  intro k hk
  have hnew : ({ s with data := ∅ } : HsetStore R).cells k = none := by simp [HsetStore.cells]
  have hold := h k hk
  simp only [TtlMap.evict, hnew] at hold ⊢
  by_cases hg : match? (b.getKey k) = true
  · simp [hg]
  · have hdead : s.cells.evict (1000 * now) k = none := by
      by_contra hne
      exact hg (hC k hk hne)
    rw [if_neg hg, hold]
    exact hdead

/-- **An aligned operation answers alike in both modes and keeps the relation.** -/
theorem Refines.op (hK : Set.InjOn b.getKey K) {t : Twins R V} {op : Op V}
    (hm : m.evict (1000 * now) = m) (h : Refines b K now t.hset m)
    (hC : Aligned b K t (now, op)) : Agrees b K now t.hset m op := by
  obtain ⟨hkeys, hC⟩ := hC
  cases op with
  | set key value ex =>
    have hk : key ∈ K := hkeys key List.mem_cons_self
    unfold Agrees hsetOp plainLive
    dsimp only at hC ⊢
    cases he : b.orExpiration ex with
    | none =>
      rw [he] at hC
      exact ⟨rfl, h.set hK hk _ hC⟩
    | some ex =>
      rw [he] at hC
      dsimp only
      rw [if_pos (show 0 < ex from hC)]
      exact ⟨rfl, h.setex hK hk _ hC⟩
  | setBatch data ex =>
    have hk : ∀ p ∈ data, p.1 ∈ K := fun p hp => hkeys p.1 (List.mem_map_of_mem hp)
    unfold Agrees hsetOp plainLive
    dsimp only at hC ⊢
    by_cases hd : data = []
    · rw [if_pos hd, if_pos hd]
      exact ⟨rfl, h⟩
    · rw [if_neg hd, if_neg hd]
      cases he : b.orExpiration ex with
      | none =>
        refine ⟨rfl, ?_⟩
        have hset := h.setAll hK hk (hC he)
        rwa [foldl_luaHset] at hset
      | some ex => exact ⟨rfl, h.setAllExpire hK hk ex⟩
  | get key default =>
    have hk : key ∈ K := hkeys key List.mem_cons_self
    have hs : Refines b K now (t.hset.luaHget key now).2 m :=
      h.congr fun k _ => by rw [evict_cells_luaHget]
    by_cases hb : t.hset.expIndex.hget key = some (now : ℤ)
    · have hdead : t.hset.cells.evict (1000 * now) key = none :=
        evict_cells_of_expired _ hb le_rfl
      have hget : m.get (b.getKey key) = none := by rw [h.get_eq hm hk, TtlMap.get, hdead]; rfl
      unfold Agrees hsetOp plainLive luaHget
      cases hd : t.hset.data.hget key with
      | none =>
        simp only [hget, hd]
        exact ⟨trivial, h⟩
      | some v =>
        simp only [hget, hd, hb, lt_irrefl, if_false, hC v hd hb]
        exact ⟨trivial, h.congr fun k _ => by rw [evict_cells_luaHdel _ hdead]⟩
    · have hfst := (luaHget_fst fun _ => hb).trans (h.get_eq hm hk).symm
      unfold Agrees hsetOp plainLive
      cases hr : t.hset.luaHget key now with
      | mk o s' =>
        simp only [hr] at hfst hs ⊢
        rw [← hfst]
        cases o with
        | none => exact ⟨rfl, hs⟩
        | some val =>
          dsimp only
          cases b.decode val with
          | some v => exact ⟨rfl, hs⟩
          | none => exact ⟨rfl, hs.del hK hk⟩
  | delete key => exact ⟨rfl, h.del hK (hkeys key List.mem_cons_self)⟩
  | contains key =>
    have hk : key ∈ K := hkeys key List.mem_cons_self
    have hs : Refines b K now (t.hset.hsetExpirationCheck now key) m :=
      h.congr fun k _ => by rw [evict_cells_hsetExpirationCheck]
    have hfst := (luaHget_fst hC).trans (h.get_eq hm hk).symm
    refine ⟨congrArg Reply.bool ?_, hs⟩
    rw [Hash.hexists, hget_hsetExpirationCheck, hfst, TtlMap.get, Option.isSome_map]
    rfl
  | clear keys =>
    unfold Agrees hsetOp plainLive
    dsimp only at hC ⊢
    by_cases hks : keys = []
    · rw [if_pos hks, if_pos hks]
      exact ⟨rfl, h.clearAll (hC hks)⟩
    · rw [if_neg hks, if_neg hks]
      have hdel := h.delAll hK hkeys
      rw [foldl_luaHdel] at hdel
      exact ⟨rfl, hdel⟩
  | expire key ex => exact ⟨rfl, h.expire hK hm (hkeys key List.mem_cons_self) hC⟩
  | incrby key amount =>
    have hk : key ∈ K := hkeys key List.mem_cons_self
    unfold Agrees hsetOp plainLive
    dsimp only
    by_cases hT : Timed t.hset now key
    · rw [h.get_eq_of_timed hm hk hT]
      cases b.incr (t.hset.data.hget key) amount with
      | none => exact ⟨rfl, h⟩
      | some p => exact ⟨rfl, h.incr hK hm hk p.1 hT⟩
    · obtain ⟨he, he'⟩ := Or.resolve_left hC hT
      rw [h.get_eq_none hm hk hT, he, he']
      exact ⟨rfl, h⟩
  | expirationCheck keys =>
    have hs : Refines b K now (t.hset.runExpirationCheck now keys) m :=
      h.congr fun k _ => by rw [evict_cells_runExpirationCheck]
    exact ⟨rfl, hs⟩

end Kvdb
