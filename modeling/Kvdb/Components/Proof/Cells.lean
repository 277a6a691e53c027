import Kvdb.Components.Persistence

/-!
# The two hashes read as plain keys

`HsetStore.cells`: a field of the data hash with its deadline in the expiration hash, as the cell of a
plain key. An expiration check removes only fields that are dead (`evict_cells_hsetExpirationCheck`,
`evict_cells_runExpirationCheck`), and a read returns what the cell holds, but at the instant of the
deadline (`luaHget_fst`).
-/

namespace Kvdb

open Redis Lib HsetStore

variable {R V : Type}

/-- A deadline in the milliseconds of the server. -/
def millis (e : ℤ) : ℕ := (1000 * e).toNat

theorem lt_millis {now : ℕ} {e : ℤ} : 1000 * now < millis e ↔ (now : ℤ) < e := by
  unfold millis
  omega

theorem millis_add {now : ℕ} {ex : ℤ} (h : 0 ≤ ex) :
    millis (now + ex) = 1000 * now + 1000 * ex.toNat := by
  unfold millis
  omega

namespace HsetStore

def cells (s : HsetStore R) : TtlMap String R := fun k =>
  (s.data.hget k).map fun v => { value := v, expireAt := (s.expIndex.hget k).map millis }

variable (s : HsetStore R) {now : ℕ} {k k' : String}

theorem cells_luaHset (v : R) (e : Option ℤ) :
    (s.luaHset k v e).cells k' =
      if k' = k then some { value := v, expireAt := (e.or (s.expIndex.hget k)).map millis }
      else s.cells k' := by
  simp only [cells, luaHset, Hash.hget_hset]
  cases e with
  | none =>
    by_cases h : k' = k
    · subst h; simp
    · simp [h]
  | some e =>
    simp only [Option.elim_some, Hash.hget_hset]
    by_cases h : k' = k <;> simp [h]

theorem cells_luaHdel : (s.luaHdel k).cells k' = if k' = k then none else s.cells k' := by
  simp only [cells, luaHdel, Hash.hget_hdel]
  split <;> rfl

theorem cells_hsetExpire (t ex : ℤ) :
    (s.hsetExpire t k ex).cells k' =
      if k' = k then (s.cells k).map fun c => { c with expireAt := some (millis (t + ex)) }
      else s.cells k' := by
  simp only [cells, hsetExpire, Hash.hget_hset]
  split
  · rename_i h
    subst h
    cases s.data.hget k' <;> rfl
  · rfl

/-- A key lives while it has a value and no deadline that is over. -/
theorem evict_cells :
    s.cells.evict (1000 * now) k =
      if ∀ e, s.expIndex.hget k = some e → (now : ℤ) < e then s.cells k else none := by
  unfold TtlMap.evict cells
  cases s.data.hget k with
  | none => simp
  | some v =>
    cases hi : s.expIndex.hget k with
    | none => simp
    | some e =>
      simp only [Option.map_some, Option.filter_some, Option.all_some, decide_eq_true_eq,
        lt_millis, Option.some.injEq, forall_eq']

theorem evict_cells_congr {s s' : HsetStore R} (h : s'.cells k = s.cells k) (t : ℕ) :
    s'.cells.evict t k = s.cells.evict t k := by
  simp only [TtlMap.evict, h]

/-- The removal of a dead field. -/
theorem evict_cells_luaHdel {t : ℕ} (h : s.cells.evict t k = none) :
    (s.luaHdel k).cells.evict t = s.cells.evict t := by
  funext k'
  simp only [TtlMap.evict, cells_luaHdel]
  split
  · rename_i hk
    rw [hk]
    exact h.symm
  · rfl

theorem evict_cells_of_expired {e : ℤ} (hi : s.expIndex.hget k = some e) (he : e ≤ now) :
    s.cells.evict (1000 * now) k = none := by
  rw [evict_cells, if_neg]
  intro h
  have := h e hi
  omega

/-! ## The expiration checks -/

theorem evict_cells_hsetExpirationCheck :
    (s.hsetExpirationCheck now k).cells.evict (1000 * now) = s.cells.evict (1000 * now) := by
  unfold hsetExpirationCheck
  split
  · rename_i hx
    cases hi : s.expIndex.hget k with
    | none => simp [Hash.hexists, hi] at hx
    | some e =>
      dsimp only
      split
      · rename_i he
        exact evict_cells_luaHdel s (evict_cells_of_expired s hi he.le)
      · rfl
  · rfl

theorem evict_cells_foldl_expireItem (items : List (String × Option ℤ)) (s : HsetStore R)
    (h : ∀ k e, (k, some e) ∈ items → e < now → s.cells.evict (1000 * now) k = none) :
    (items.foldl (expireItem now) s).cells.evict (1000 * now) = s.cells.evict (1000 * now) := by
  induction items generalizing s with
  | nil => rfl
  | cons p items ih =>
    obtain ⟨k, exp⟩ := p
    have hs : (expireItem now s (k, exp)).cells.evict (1000 * now) =
        s.cells.evict (1000 * now) := by
      cases exp with
      | none => rfl
      | some e =>
        simp only [expireItem]
        split
        · rename_i he
          exact evict_cells_luaHdel s (h k e List.mem_cons_self he)
        · rfl
    rw [List.foldl_cons, ih, hs]
    intro k' e hm he
    rw [hs]
    exact h k' e (List.mem_cons_of_mem _ hm) he

theorem evict_cells_runExpirationCheck (keys : List String) :
    (s.runExpirationCheck now keys).cells.evict (1000 * now) = s.cells.evict (1000 * now) := by
  refine evict_cells_foldl_expireItem _ s fun k e hm he => ?_
  obtain ⟨k', -, hk⟩ := List.mem_map.1 hm
  obtain ⟨rfl, hi⟩ := Prod.mk.inj hk
  exact evict_cells_of_expired s hi he.le

end HsetStore

variable {s : HsetStore R} {now : ℕ}

/-! ## Reads -/

/-- The value of a key in hset mode, but at the instant of its deadline. -/
theorem luaHget_fst {k : String}
    (h : s.data.hget k ≠ none → s.expIndex.hget k ≠ some (now : ℤ)) :
    (s.luaHget k now).1 = (s.cells.evict (1000 * now)).get k := by
  rw [TtlMap.get, evict_cells]
  unfold luaHget cells
  cases hd : s.data.hget k with
  | none => simp
  | some v =>
    cases hi : s.expIndex.hget k with
    | none => simp
    | some e =>
      have hne : e ≠ now := by
        intro he
        exact h (by simp [hd]) (by rw [hi, he])
      simp only [Option.some.injEq, forall_eq']
      by_cases he : e < now
      · rw [if_pos he, if_neg (by omega)]
        rfl
      · rw [if_neg he, if_pos (by omega)]
        rfl

/-- `hset_expiration_check` leaves what the script returns. -/
theorem hget_hsetExpirationCheck {now : ℤ} (k : String) :
    (s.hsetExpirationCheck now k).data.hget k = (s.luaHget k now).1 := by
  unfold hsetExpirationCheck luaHget Hash.hexists
  cases hi : s.expIndex.hget k with
  | none => cases hd : s.data.hget k <;> simp [hd]
  | some e =>
    simp only [Option.isSome_some, if_true]
    split
    · rw [Hash.hget_hdel, if_pos rfl]
      cases s.data.hget k <;> rfl
    · cases s.data.hget k <;> rfl

theorem evict_cells_luaHget (k : String) :
    (s.luaHget k now).2.cells.evict (1000 * now) = s.cells.evict (1000 * now) := by
  unfold luaHget
  split
  · rfl
  · split
    · rename_i e hi
      split
      · rename_i he
        exact evict_cells_luaHdel s (evict_cells_of_expired s hi he.le)
      · rfl
    · rfl

/-! ## Deadlines and values -/

/-- A deadline of the key is that of a value that has not expired. -/
def Timed (s : HsetStore R) (now : ℕ) (key : String) : Prop :=
  ∀ e, s.expIndex.hget key = some e → s.data.hget key ≠ none ∧ (now : ℤ) < e

instance (s : HsetStore R) (now : ℕ) (key : String) : Decidable (Timed s now key) :=
  inferInstanceAs (Decidable (∀ e ∈ s.expIndex.hget key, s.data.hget key ≠ none ∧ (now : ℤ) < e))

/-- A deadline without a value, or one that is over. -/
theorem evict_cells_of_not_timed {k : String} (hT : ¬ Timed s now k) :
    s.cells.evict (1000 * now) k = none := by
  simp only [Timed, not_forall] at hT
  obtain ⟨e, hi, hT⟩ := hT
  by_cases he : e ≤ now
  · exact evict_cells_of_expired s hi he
  · have hd : s.data.hget k = none := by
      by_contra hd
      exact hT ⟨hd, by omega⟩
    simp [TtlMap.evict, HsetStore.cells, hd]

/-! ## Several fields -/

theorem foldl_luaHdel (keys : List String) (s : HsetStore R) :
    keys.foldl luaHdel s =
      { data := s.data.hdelAll keys, expIndex := s.expIndex.hdelAll keys } := by
  induction keys generalizing s with
  | nil => rfl
  | cons k keys ih => exact ih (s.luaHdel k)

theorem foldl_luaHset (b : Backend R V) (data : List (String × V)) (s : HsetStore R) :
    data.foldl (fun s p => s.luaHset p.1 (b.encode p.2) none) s =
      { s with data := s.data.hsetAll (data.map fun p => (p.1, b.encode p.2)) } := by
  induction data generalizing s with
  | nil => rfl
  | cons p data ih => exact ih (s.luaHset p.1 (b.encode p.2) none)

end Kvdb
