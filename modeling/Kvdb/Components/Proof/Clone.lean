import Kvdb.Components.Clone

/-!
# Cloning: which fields are written

`CloneConfig.selected` is what the copy of a hash should write: the fields that are neither rejected
nor protected, renamed and migrated. The loops do that (`copyFields_results`); the branch without a
loop does it if no field is excluded (`hashCopy_selects_iff`).
-/

namespace Kvdb

open Redis

variable {R : Type} [DecidableEq R]

namespace CloneConfig

variable (cfg : CloneConfig R)

/-! ## The selection -/

/-- The value that is written for a field, if it can be migrated. -/
def migrated (recode : R → Recoded R) (v : R) : Option R :=
  match recode v with
  | .value v => some v
  | .undecodable | .unencodable => none

/-- The fields that are copied. -/
def selectedBy (skips : String → Bool) (recode : R → Recoded R) (data : List (String × R)) :
    List (String × R) :=
  data.filterMap fun p =>
    if skips p.1 then none
    else (migrated recode p.2).map fun v => (cfg.hsetKeyFunction.getD id p.1, v)

/-- The fields of a hash that are neither rejected nor, without `overwrite`, among the existing
ones, with their new names and values. -/
def selected (key : String) (existingHkeys : List String) (data : List (String × R)) :
    List (String × R) :=
  cfg.selectedBy (cfg.skipsField existingHkeys) ((cfg.migrateOf key).getD .value) data

/-- A field that is copied cannot be migrated. -/
def FieldFails (skips : String → Bool) (recode : R → Recoded R) (data : List (String × R)) : Prop :=
  ∃ p ∈ data, skips p.1 = false ∧
    (recode p.2 = .unencodable ∨ recode p.2 = .undecodable ∧ cfg.raiseErrors = true)

variable {cfg} {toKey : String} {skips : String → Bool} {recode : R → Recoded R}

theorem selectedBy_cons (k : String) (v : R) (data : List (String × R)) :
    cfg.selectedBy skips recode ((k, v) :: data) =
      if skips k then cfg.selectedBy skips recode data
      else (migrated recode v).elim (cfg.selectedBy skips recode data) fun w =>
        (cfg.hsetKeyFunction.getD id k, w) :: cfg.selectedBy skips recode data := by
  rw [selectedBy, List.filterMap_cons]
  cases skips k with
  | true => rfl
  | false => cases migrated recode v <;> rfl

/-- The loop writes the selection, unless it raises. -/
theorem copyFields_results {data : List (String × R)} :
    (cfg.copyFields toKey skips recode data).failed = false →
      (cfg.copyFields toKey skips recode data).results = cfg.selectedBy skips recode data := by
  induction data with
  | nil => exact fun _ => rfl
  | cons p data ih =>
    obtain ⟨k, v⟩ := p
    rw [selectedBy_cons, copyFields]
    by_cases hs : skips k
    · simpa only [hs, if_true] using ih
    · simp only [hs, Bool.false_eq_true, if_false, migrated]
      cases hv : recode v with
      | value w =>
        intro hf
        rw [Option.elim_some, ← ih hf]
      | undecodable =>
        cases hr : cfg.raiseErrors with
        | true => simp
        | false =>
          intro hf
          exact ih hf
      | unencodable => simp

theorem copyFields_failed {data : List (String × R)} :
    (cfg.copyFields toKey skips recode data).failed = true ↔ cfg.FieldFails skips recode data := by
  induction data with
  | nil => simp [copyFields, FieldFails]
  | cons p data ih =>
    obtain ⟨k, v⟩ := p
    have hcons : cfg.FieldFails skips recode ((k, v) :: data) ↔
        skips k = false ∧
            (recode v = .unencodable ∨ recode v = .undecodable ∧ cfg.raiseErrors = true) ∨
          cfg.FieldFails skips recode data := by
      simp only [FieldFails, List.exists_mem_cons_iff]
    rw [hcons, copyFields, ← ih]
    by_cases hs : skips k
    · simp [hs]
    · simp only [hs, Bool.false_eq_true, if_false]
      cases hv : recode v with
      | value w => simp
      | undecodable => cases hr : cfg.raiseErrors <;> simp
      | unencodable => simp

theorem skipsField_nil : cfg.skipsField [] = fun k => cfg.rejects k "hash_item" := by
  funext k
  simp [skipsField]

/-! ## The four branches -/

variable {key : String} {existing : List String} {data : List (String × R)}

/-- A branch with a loop. -/
theorem hashCopy_of_loop (h : ¬ cfg.copiesPlainly key existing) :
    cfg.hashCopy key existing data =
      cfg.copyFields (cfg.toKey key) (cfg.skipsField existing) ((cfg.migrateOf key).getD .value)
        data := by
  unfold hashCopy
  cases hm : cfg.migrateOf key with
  | some recode => rfl
  | none =>
    by_cases he : existing = []
    · have hfunctions : cfg.filterFunction.isSome ∨ cfg.hsetKeyFunction.isSome := by
        by_contra hnot
        simp only [not_or, Bool.not_eq_true, Option.isSome_eq_false_iff] at hnot
        exact h ⟨by rw [hm]; rfl, he, hnot⟩
      simp only [he, ne_eq, not_true_eq_false, if_false, hfunctions, if_true, skipsField_nil,
        Option.getD_none]
    · simp only [ne_eq, he, not_false_eq_true, if_true, Option.getD_none]

variable (data) in
/-- The branch without a loop. -/
theorem hashCopy_of_plain (h : cfg.copiesPlainly key existing) :
    (cfg.hashCopy key existing data).results = data ∧
      (cfg.hashCopy key existing data).failed = false := by
  obtain ⟨hm, rfl, hf, hk⟩ := h
  simp only [hashCopy, Option.isNone_iff_eq_none.1 hm, Option.isNone_iff_eq_none.1 hf,
    Option.isNone_iff_eq_none.1 hk]
  simp

/-- Without functions, migration and existing fields, only the excluded fields are left out. -/
theorem selected_of_plain (h : cfg.copiesPlainly key existing) :
    cfg.selected key existing data = data.filter fun p => p.1 ∉ cfg.excluded := by
  obtain ⟨hm, rfl, hf, hk⟩ := h
  have hrejects : ∀ k, cfg.rejects k "hash_item" = decide (k ∈ cfg.excluded) := by
    intro k
    rw [rejects, Option.isNone_iff_eq_none.1 hf]
    simp
  rw [selected, Option.isNone_iff_eq_none.1 hm, skipsField_nil]
  induction data with
  | nil => rfl
  | cons p data ih =>
    obtain ⟨k, v⟩ := p
    rw [selectedBy_cons, hrejects, ih, Option.isNone_iff_eq_none.1 hk]
    by_cases he : k ∈ cfg.excluded <;> simp [he, migrated]

/-- **The copy of a hash** writes the selected fields, or raises, if and only if no field is
excluded where it takes the branch without a loop. -/
theorem hashCopy_selects_iff (cfg : CloneConfig R) (key : String) (existing : List String)
    (data : List (String × R)) :
    ((cfg.hashCopy key existing data).failed = false →
        (cfg.hashCopy key existing data).results = cfg.selected key existing data) ↔
      (cfg.copiesPlainly key existing → ∀ p ∈ data, p.1 ∉ cfg.excluded) := by
  by_cases hp : cfg.copiesPlainly key existing
  · obtain ⟨hresults, hf⟩ := hashCopy_of_plain data hp
    rw [hresults, hf, selected_of_plain hp]
    simp only [forall_const, hp]
    rw [eq_comm, List.filter_eq_self]
    simp
  · refine iff_of_true ?_ fun h => absurd h hp
    rw [hashCopy_of_loop hp]
    exact copyFields_results

/-- What is stored under the new key: the results, unless the copy raises or there are none. -/
theorem copyHash_write (cfg : CloneConfig R) (key : String) (data : Hash String R)
    (old : Option (Stored R)) {existing : List String}
    (he : cfg.existingHkeys old = some existing) :
    (cfg.copyHash key data old).write =
      if (cfg.hashCopy key existing data.hgetall).failed = true ∨
          (cfg.hashCopy key existing data.hgetall).results = [] then none
      else hmset (cfg.hashCopy key existing data.hgetall).results old := by
  simp only [copyHash, he]
  by_cases hf : (cfg.hashCopy key existing data.hgetall).failed = true
  · simp [hf]
  · by_cases hr : (cfg.hashCopy key existing data.hgetall).results = []
    · simp [hf, hr]
    · simp only [hf, hr, Bool.false_eq_true, if_false, or_self]
      cases hmset (cfg.hashCopy key existing data.hgetall).results old <;> rfl

/-- The values of the target after one round. -/
theorem target_cloneKey (cfg : CloneConfig R) (existing : List String) (st : CloneState R)
    (key : String) :
    (cfg.cloneKey existing st key).target =
      if cfg.rejects key ((cfg.source key).elim "none" Stored.keyType) ||
          cfg.rejects (cfg.toKey key) ((cfg.source key).elim "none" Stored.keyType) then st.target
      else (cfg.copyKey existing key (st.target.hget (cfg.toKey key)) (cfg.source key)).write.elim
        st.target (st.target.hset (cfg.toKey key)) := by
  by_cases h : (cfg.rejects key ((cfg.source key).elim "none" Stored.keyType) ||
      cfg.rejects (cfg.toKey key) ((cfg.source key).elim "none" Stored.keyType)) = true
  · simp only [cloneKey, h, if_true]
  · simp only [cloneKey, h, Bool.false_eq_true, if_false]
    cases (cfg.copyKey existing key (st.target.hget (cfg.toKey key)) (cfg.source key)).ending with
    | completed => rfl
    | skipped => rfl
    | failed => cases cfg.raiseErrors <;> rfl

/-! ## An excluded field -/

/-- A copy of `b` to `c`, where `x` is excluded. -/
def excludingConfig (source : String → Option (Stored ℕ)) (keyFunction : Option (String → String)) :
    CloneConfig ℕ where
  source
  fromBaseKey := "b"
  toBaseKey := "c"
  excluded := ["x"]
  hsetKeyFunction := keyFunction
  overwrite := some false
  globMatch pattern name := pattern.toList.dropLast.isPrefixOf name.toList
  encodeSet _ := none
  encodeList _ := none

/-- **An excluded field** is written by the branch without a loop. -/
theorem hashCopy_excluded :
    (((excludingConfig (fun _ => none) none).hashCopy "b" [] [("x", 1)]).failed = false ∧
      ((excludingConfig (fun _ => none) none).hashCopy "b" [] [("x", 1)]).results = [("x", 1)] ∧
      (excludingConfig (fun _ => none) none).selected "b" [] [("x", 1)] = []) := by
  decide +kernel

end CloneConfig

end Kvdb
