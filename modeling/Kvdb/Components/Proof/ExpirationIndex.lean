import Kvdb.Components.Proof.Cells

/-!
# The expiration index

`Orphanless s`: every field of the expiration hash is a field of the data hash. The operations keep it
but for two, `clear` without keys and `expire` of an absent key (`Tidy`, `orphanless_hsetOp`). With it
a value that is written without an expiry has none, if its key had no value (`orphanless_of_run`).
-/

namespace Kvdb

open Redis Lib HsetStore

variable {R V : Type} (b : Backend R V)

/-- Every deadline is that of a value. -/
def Orphanless (s : HsetStore R) : Prop :=
  ∀ k, s.expIndex.hget k ≠ none → s.data.hget k ≠ none

/-- The operation leaves no deadline without its value. -/
def Tidy (s : HsetStore R) (a : ℕ × Op V) : Prop :=
  match a.2 with
  | .clear keys => keys = [] → s.expIndex.hkeys = []
  | .expire key _ => s.data.hget key ≠ none
  | _ => True

instance (s : HsetStore R) : ∀ a : ℕ × Op V, Decidable (Tidy s a)
  | (_, .clear keys) => inferInstanceAs (Decidable (keys = [] → _ = []))
  | (_, .expire ..) => inferInstanceAs (Decidable (_ ≠ none))
  | (_, .set ..) | (_, .setBatch ..) | (_, .get ..) | (_, .delete _) | (_, .contains _)
  | (_, .incrby ..) | (_, .expirationCheck _) => .isTrue trivial

/-- The operation writes a value of the key, without an expiry. -/
def Op.WritesBare (key : String) : Op V → Prop
  | .set k _ ex => k = key ∧ b.orExpiration ex = none
  | .setBatch data ex => key ∈ data.map Prod.fst ∧ b.orExpiration ex = none
  | .incrby k _ => k = key
  | _ => False

/-- The backend in hset mode. -/
def hsetMachine : Machine (HsetStore R) (ℕ × Op V) where
  init := {}
  step s a := some (hsetOp b a.1 s a.2).2

variable {b} {s : HsetStore R} {now : ℕ} {k : String}

/-! ## The operations -/

theorem Orphanless.luaHset (h : Orphanless s) (v : R) (e : Option ℤ) :
    Orphanless (s.luaHset k v e) := by
  intro k' hi
  simp only [HsetStore.luaHset, Hash.hget_hset] at hi ⊢
  split
  · simp
  · rename_i hne
    refine h k' ?_
    cases e with
    | none => exact hi
    | some e => rwa [Option.elim_some, Hash.hget_hset, if_neg hne] at hi

theorem Orphanless.luaHdel (h : Orphanless s) : Orphanless (s.luaHdel k) := by
  intro k' hi
  simp only [HsetStore.luaHdel, Hash.hget_hdel] at hi ⊢
  split at hi
  · exact absurd rfl hi
  · rename_i hne
    rw [if_neg hne]
    exact h k' hi

theorem Orphanless.luaHget (h : Orphanless s) : Orphanless (s.luaHget k now).2 := by
  unfold HsetStore.luaHget
  split
  · exact h
  · split
    · split
      · exact h.luaHdel
      · exact h
    · exact h

theorem Orphanless.hsetExpirationCheck (h : Orphanless s) :
    Orphanless (s.hsetExpirationCheck now k) := by
  unfold HsetStore.hsetExpirationCheck Hash.hexists
  cases hi : s.expIndex.hget k with
  | none => exact h
  | some e =>
    simp only [Option.isSome_some, if_true]
    split
    · exact h.luaHdel
    · exact h

theorem Orphanless.foldl_expireItem (h : Orphanless s) (items : List (String × Option ℤ)) :
    Orphanless (items.foldl (expireItem now) s) := by
  induction items generalizing s with
  | nil => exact h
  | cons p items ih =>
    refine ih ?_
    obtain ⟨k, exp⟩ := p
    cases exp with
    | none => exact h
    | some e =>
      simp only [expireItem]
      split
      · exact h.luaHdel
      · exact h

theorem Orphanless.delAll (h : Orphanless s) (keys : List String) :
    Orphanless (keys.foldl HsetStore.luaHdel s) := by
  induction keys generalizing s with
  | nil => exact h
  | cons k keys ih => exact ih h.luaHdel

theorem Orphanless.setAll (h : Orphanless s) (data : List (String × V)) :
    Orphanless (data.foldl (fun s p => s.luaHset p.1 (b.encode p.2) none) s) := by
  induction data generalizing s with
  | nil => exact h
  | cons p data ih => exact ih (h.luaHset _ none)

/-- The batch of deadlines is for fields that have just been set. -/
theorem Orphanless.setAllExpire (h : Orphanless s) (data : List (String × V)) (ex : ℤ) :
    Orphanless (({ s with data := s.data.hsetAll (data.map fun p => (p.1, b.encode p.2)) } :
      HsetStore R).hsetExpireBatch now (data.map Prod.fst) ex) := by
  have hset := h.setAll (b := b) data
  rw [foldl_luaHset] at hset
  intro k hi
  by_cases hk : k ∈ data.map Prod.fst
  · have hl : lastOf (data.map fun p => (p.1, b.encode p.2)) k ≠ none := by
      rw [ne_eq, lastOf_eq_none, not_not, List.map_map]
      exact hk
    obtain ⟨v, hv⟩ := Option.ne_none_iff_exists'.1 hl
    simp [hsetExpireBatch, Hash.hget_hsetAll, hv]
  · refine hset k ?_
    have hl : lastOf ((data.map Prod.fst).map fun k => (k, (now : ℤ) + ex)) k = none := by
      rw [lastOf_eq_none, List.map_map]
      simpa using hk
    rwa [hsetExpireBatch, Hash.hget_hsetAll, hl, Option.none_or] at hi

/-- **An operation keeps every deadline with its value** if and only if it is tidy. -/
theorem orphanless_hsetOp (h : Orphanless s) (op : Op V) :
    Orphanless (hsetOp b now s op).2 ↔ Tidy s (now, op) := by
  cases op with
  | set key value ex => exact iff_of_true (h.luaHset _ _) trivial
  | setBatch data ex =>
    refine iff_of_true ?_ trivial
    simp only [hsetOp]
    split
    · exact h
    · cases b.orExpiration ex with
      | none =>
        have hset := h.setAll (b := b) data
        rwa [foldl_luaHset] at hset
      | some ex => exact h.setAllExpire data ex
  | get key default =>
    refine iff_of_true ?_ trivial
    have hget : Orphanless (s.luaHget key now).2 := h.luaHget
    simp only [hsetOp]
    split
    · rename_i hr
      rwa [hr] at hget
    · rename_i hr
      rw [hr] at hget
      split
      · exact hget
      · exact hget.luaHdel
  | delete key => exact iff_of_true h.luaHdel trivial
  | contains key => exact iff_of_true h.hsetExpirationCheck trivial
  | clear keys =>
    simp only [hsetOp]
    split
    · rename_i hks
      simp only [Orphanless, Hash.hget_empty, ne_eq, not_true_eq_false, imp_false, not_not, Tidy,
        hks, forall_const]
      rw [List.eq_nil_iff_forall_not_mem]
      simp only [Hash.mem_hkeys, ne_eq, not_not]
    · rename_i hks
      refine iff_of_true ?_ fun hn => absurd hn hks
      have hdel := h.delAll keys
      rwa [foldl_luaHdel] at hdel
  | expire key ex =>
    constructor
    · intro ho
      refine ho key ?_
      simp [hsetOp, hsetExpire, Hash.hget_hset]
    · intro hd k hi
      by_cases hk : k = key
      · subst hk
        exact hd
      · refine h k ?_
        simpa [hsetOp, hsetExpire, Hash.hget_hset, hk] using hi
  | incrby key amount =>
    refine iff_of_true ?_ trivial
    simp only [hsetOp]
    split
    · exact h.luaHset _ none
    · exact h
  | expirationCheck keys => exact iff_of_true (h.foldl_expireItem _) trivial

/-- A write without an expiry changes no deadline. -/
theorem expIndex_of_writesBare {op : Op V} (hw : op.WritesBare b k) :
    (hsetOp b now s op).2.expIndex = s.expIndex := by
  cases op with
  | set key value ex =>
    simp only [hsetOp, hw.2]
    rfl
  | setBatch data ex =>
    simp only [hsetOp]
    split
    · rfl
    · rw [hw.2]
      rfl
  | incrby key amount =>
    simp only [hsetOp]
    split <;> rfl
  | _ => exact hw.elim

/-! ## Runs -/

/-- **No orphan deadlines**: after tidy operations every deadline is that of a value, and a value
that is written without an expiry where there was none has no deadline. -/
theorem orphanless_of_run {ops : List (ℕ × Op V)}
    (h : (hsetMachine b).Run Tidy (hsetMachine b).init ops s) :
    Orphanless s ∧ ∀ now op k, Op.WritesBare b k op → s.data.hget k = none →
      (hsetOp b now s op).2.expIndex.hget k = none := by
  have ho : Orphanless s := by
    refine h.inv Orphanless (fun k hk => absurd (Hash.hget_empty k) hk) ?_
    rintro s ⟨now, op⟩ u ho hC hu
    obtain rfl : (hsetOp b now s op).2 = u := Option.some.inj hu
    exact (orphanless_hsetOp ho op).2 hC
  refine ⟨ho, fun now op k hw hd => ?_⟩
  rw [expIndex_of_writesBare hw]
  by_contra hi
  exact ho k hi hd

/-! ## Two runs -/

/-- Values with deadlines that are read, expired, checked and cleared by their keys. -/
theorem orphanless_tidy :
    ∃ s, (hsetMachine intBackend).Run Tidy (hsetMachine intBackend).init
        [(0, .set "x" 1 (some 10)), (1, .setBatch [("y", 2), ("z", 3)] (some 5)),
          (2, .expire "x" 1), (4, .get "x" none), (4, .clear ["y"]), (9, .expirationCheck []),
          (9, .clear []), (9, .set "x" 4 none)] s ∧
      Orphanless s := by
  obtain ⟨s, hs, -⟩ : ∃ s, (hsetMachine intBackend).Run Tidy (hsetMachine intBackend).init
      [(0, .set "x" 1 (some 10)), (1, .setBatch [("y", 2), ("z", 3)] (some 5)),
        (2, .expire "x" 1), (4, .get "x" none), (4, .clear ["y"]), (9, .expirationCheck []),
        (9, .clear []), (9, .set "x" 4 none)] s ∧ True :=
    Machine.exists_run (by decide +kernel) (by decide +kernel)
  exact ⟨s, hs, (orphanless_of_run hs).1⟩

/-- **`clear` keeps the deadlines**: the value that is written next, without an expiry, gets the
deadline of the value that was cleared. -/
theorem orphan_broken :
    ∃ s, (hsetMachine intBackend).Run Machine.Any (hsetMachine intBackend).init
        [(0, .set "x" 1 (some 100)), (1, .clear [])] s ∧
      ¬ Orphanless s ∧
      (hsetOp intBackend 2 s (.set "x" 2 none)).2.expIndex.hget "x" = some 100 := by
  obtain ⟨s, hs, hi, hd, hset⟩ : ∃ s, (hsetMachine intBackend).Run Machine.Any
      (hsetMachine intBackend).init [(0, .set "x" 1 (some 100)), (1, .clear [])] s ∧
      (s.expIndex.hget "x" ≠ none ∧ s.data.hget "x" = none ∧
        (hsetOp intBackend 2 s (.set "x" 2 none)).2.expIndex.hget "x" = some 100) :=
    Machine.exists_run (by decide +kernel) (by decide +kernel)
  exact ⟨s, hs, fun ho => ho "x" hi hd, hset⟩

end Kvdb
