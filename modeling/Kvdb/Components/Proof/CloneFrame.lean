import Kvdb.Components.Proof.Clone

/-!
# Cloning without `overwrite`: what the target keeps

`Frame T U`: nothing that `T` has is changed in `U`; a hash may have got new fields. One round of
the clone writes under one key, and keeps the frame if and only if it spares what the target had
there at first (`frame_cloneKey_iff`, from one lemma for each type of value). `aclone_frame_iff` is
the whole clone.
-/

namespace Kvdb

open Redis

variable {R : Type} [DecidableEq R]

/-! ## The frame -/

/-- A value is not changed, a hash keeps its fields. -/
def Stored.Keeps : Stored R → Stored R → Prop
  | .hash fields, y => ∃ fields', y = .hash fields' ∧
      ∀ k v, fields.hget k = some v → fields'.hget k = some v
  | x, y => x = y

/-- What the target had at first is still there. -/
def Frame (T U : Hash String (Stored R)) : Prop :=
  ∀ key x, T.hget key = some x → ∃ y, U.hget key = some y ∧ x.Keeps y

theorem Stored.Keeps.refl (x : Stored R) : x.Keeps x := by
  cases x with
  | hash fields => exact ⟨fields, rfl, fun _ _ h => h⟩
  | _ => rfl

theorem Stored.keeps_of_not_hash {x y : Stored R} (h : ∀ fields, y ≠ .hash fields) :
    x.Keeps y ↔ x = y := by
  cases x with
  | hash fields =>
    constructor
    · rintro ⟨fields', hy, -⟩
      exact absurd hy (h fields')
    · rintro rfl
      exact absurd rfl (h fields)
  | _ => exact Iff.rfl

theorem Stored.keeps_hash {fields' : Hash String R} {x : Stored R} :
    x.Keeps (.hash fields') ↔
      ∃ fields, x = .hash fields ∧ ∀ k v, fields.hget k = some v → fields'.hget k = some v := by
  cases x with
  | hash fields =>
    constructor
    · rintro ⟨_, hy, h⟩
      cases hy
      exact ⟨fields, rfl, h⟩
    · rintro ⟨_, hx, h⟩
      cases hx
      exact ⟨fields', rfl, h⟩
  | _ =>
    constructor
    · intro h
      cases h
    · rintro ⟨_, hx, -⟩
      cases hx

theorem Frame.refl (T : Hash String (Stored R)) : Frame T T :=
  fun _ x h => ⟨x, h, .refl x⟩

/-- A write keeps the frame if and only if it keeps the value under its own key. -/
theorem Frame.hset_iff {T U : Hash String (Stored R)} (h : Frame T U) {key : String}
    {w : Stored R} : Frame T (U.hset key w) ↔ ∀ x, T.hget key = some x → x.Keeps w := by
  constructor
  · intro hf x hx
    obtain ⟨y, hy, hk⟩ := hf key x hx
    rw [Hash.hget_hset, if_pos rfl] at hy
    cases hy
    exact hk
  · intro hw k x hx
    rw [Hash.hget_hset]
    by_cases hk : k = key
    · subst hk
      exact ⟨w, if_pos rfl, hw x hx⟩
    · rw [if_neg hk]
      exact h k x hx

namespace CloneConfig

variable {cfg : CloneConfig R}

/-! ## What a round spares -/

variable (cfg) in
/-- The copy of `key` writes nothing over `x`, the value of its new key at first, which is `y` now.
-/
def SparesValue (existing : List String) (key : String) (x y : Stored R) : Stored R → Prop
  | .string v =>
    cfg.toKey key ∈ existing ∨
      ∀ w, migrated ((cfg.migrateOf key).getD .value) v = some w → x = .string w
  | .hash data => ∀ fields fields', x = .hash fields → y = .hash fields' →
    cfg.FieldFails (cfg.skipsField fields'.hkeys) ((cfg.migrateOf key).getD .value) data.hgetall ∨
      ∀ k v w, fields.hget k = some v →
        lastOf (cfg.selected key fields'.hkeys data.hgetall) k = some w → v = w
  | .set members =>
    key ∈ existing ∨
      ∀ member old, cfg.encodeSet members = some member → x = .set old → member ∈ old
  | .list items => key ∈ existing ∨ cfg.encodeList items = none ∨ ∀ old, x ≠ .list old
  | .zset _ => True

variable (cfg) in
/-- The round for `key` spares what the target had at first (`T`). -/
def Spares (T target : Hash String (Stored R)) (key : String) : Prop :=
  ∀ value x y, cfg.source key = some value →
    (cfg.rejects key value.keyType || cfg.rejects (cfg.toKey key) value.keyType) = false →
    T.hget (cfg.toKey key) = some x → target.hget (cfg.toKey key) = some y →
    cfg.SparesValue (cfg.existingKeys T) key x y value

/-! ## One type after the other -/

variable {existing : List String} {key : String} {x y : Stored R}

theorem copyKey_string_write (cfg : CloneConfig R) (v : R) :
    (cfg.copyKey existing key (some y) (some (.string v))).write =
      if cfg.toKey key ∈ existing then none
      else (migrated ((cfg.migrateOf key).getD .value) v).map .string := by
  by_cases he : cfg.toKey key ∈ existing
  · simp only [copyKey, he, if_true]
  · simp only [copyKey, he, if_false]
    cases hm : cfg.migrateOf key with
    | none => rfl
    | some recode =>
      simp only [Option.getD_some, migrated]
      cases recode v <;> rfl

theorem commandCopy_write (write : Option (Stored R)) : (commandCopy write).write = write := by
  cases write <;> rfl

theorem keeps_string_iff (cfg : CloneConfig R) (v : R) :
    (∀ w, (cfg.copyKey existing key (some y) (some (.string v))).write = some w → x.Keeps w) ↔
      cfg.SparesValue existing key x y (.string v) := by
  rw [copyKey_string_write]
  unfold SparesValue
  by_cases he : cfg.toKey key ∈ existing
  · simp [he]
  · simp only [he, if_false, false_or, Option.map_eq_some_iff, forall_exists_index, and_imp]
    constructor
    · intro h w hw
      exact (Stored.keeps_of_not_hash (by simp)).1 (h _ w hw rfl)
    · rintro h _ w hw rfl
      exact (Stored.keeps_of_not_hash (by simp)).2 (h w hw)

theorem keeps_set_iff (hk : x.Keeps y) (members : Finset R) :
    (∀ w, (cfg.copyKey existing key (some y) (some (.set members))).write = some w → x.Keeps w) ↔
      cfg.SparesValue existing key x y (.set members) := by
  unfold SparesValue
  by_cases he : key ∈ existing
  · simp [copyKey, he]
  simp only [copyKey, he, if_false, false_or, commandCopy_write, Option.bind_eq_some_iff,
    forall_exists_index, and_imp]
  constructor
  · rintro h member old hm rfl
    -- the value is not changed so far
    cases hk
    have hw := (Stored.keeps_of_not_hash (by simp)).1 (h _ member hm rfl)
    rw [Stored.set.injEq] at hw
    exact Finset.insert_eq_self.1 hw.symm
  · intro h w member hm hw
    cases y with
    | set old =>
      cases hw
      have hx := (Stored.keeps_of_not_hash (by simp)).1 hk
      rw [Finset.insert_eq_self.2 (h member old hm hx)]
      exact hk
    | _ => cases hw

theorem keeps_list_iff (hk : x.Keeps y) (items : List R) :
    (∀ w, (cfg.copyKey existing key (some y) (some (.list items))).write = some w → x.Keeps w) ↔
      cfg.SparesValue existing key x y (.list items) := by
  unfold SparesValue
  by_cases he : key ∈ existing
  · simp [copyKey, he]
  simp only [copyKey, he, if_false, false_or, commandCopy_write, Option.bind_eq_some_iff,
    forall_exists_index, and_imp]
  constructor
  · intro h
    refine or_iff_not_imp_left.2 fun hitem => ?_
    obtain ⟨item, hitem⟩ := Option.ne_none_iff_exists'.1 hitem
    rintro old rfl
    cases hk
    have hw := (Stored.keeps_of_not_hash (by simp)).1 (h _ item hitem rfl)
    rw [Stored.list.injEq] at hw
    simp at hw
  · intro h w item hitem hw
    cases y with
    | list old =>
      obtain h | h := h
      · rw [hitem] at h
        cases h
      · exact absurd ((Stored.keeps_of_not_hash (by simp)).1 hk) (h old)
    | _ => cases hw

omit [DecidableEq R] in
/-- The new fields of a hash keep the old ones if no field is copied onto one of them. -/
theorem keeps_hsetAll_iff {fields fields' : Hash String R} {results : List (String × R)}
    (hk : ∀ k v, fields.hget k = some v → fields'.hget k = some v) :
    (∀ k v, fields.hget k = some v → (fields'.hsetAll results).hget k = some v) ↔
      ∀ k v w, fields.hget k = some v → lastOf results k = some w → v = w := by
  simp only [Hash.hget_hsetAll]
  constructor
  · intro h k v w hv hw
    have := h k v hv
    rw [hw] at this
    exact (Option.some.inj this).symm
  · intro h k v hv
    cases hw : lastOf results k with
    | none => exact hk k v hv
    | some w => rw [h k v w hv hw, Option.some_or]

/-- The copy of a hash writes a hash. -/
theorem copyHash_write_hash {data : Hash String R} {old : Option (Stored R)} {w : Stored R}
    (hw : (cfg.copyHash key data old).write = some w) : ∃ fields, w = .hash fields := by
  cases he : cfg.existingHkeys old with
  | none => simp [copyHash, he] at hw
  | some hkeys =>
    rw [copyHash_write cfg key data old he] at hw
    split at hw
    · cases hw
    · unfold hmset at hw
      split at hw <;> cases hw <;> exact ⟨_, rfl⟩

/-- What is written if the new hash has fields: the selection, unless a field fails. -/
theorem copyHash_write_eq_some (hoverwrite : cfg.overwrite = some false) {fields' : Hash String R}
    (hne : fields'.hkeys ≠ []) (data : Hash String R) (w : Stored R) :
    (cfg.copyHash key data (some (.hash fields'))).write = some w ↔
      ¬ cfg.FieldFails (cfg.skipsField fields'.hkeys) ((cfg.migrateOf key).getD .value)
          data.hgetall ∧
        cfg.selected key fields'.hkeys data.hgetall ≠ [] ∧
        w = .hash (fields'.hsetAll (cfg.selected key fields'.hkeys data.hgetall)) := by
  have hexisting : cfg.existingHkeys (some (.hash fields')) = some fields'.hkeys := by
    simp [existingHkeys, hoverwrite]
  rw [copyHash_write cfg key data _ hexisting, hashCopy_of_loop fun hp => hne hp.2.1]
  by_cases hf : cfg.FieldFails (cfg.skipsField fields'.hkeys) ((cfg.migrateOf key).getD .value)
      data.hgetall
  · simp [copyFields_failed.2 hf, hf]
  · have hfailed : (cfg.copyFields (cfg.toKey key) (cfg.skipsField fields'.hkeys)
        ((cfg.migrateOf key).getD .value) data.hgetall).failed = false :=
      Bool.eq_false_iff.2 (mt copyFields_failed.1 hf)
    have hresults : _ = cfg.selected key fields'.hkeys data.hgetall := copyFields_results hfailed
    simp only [hfailed, hresults, hf, Bool.false_eq_true, false_or, not_false_eq_true, true_and]
    by_cases hs : cfg.selected key fields'.hkeys data.hgetall = []
    · simp [hs]
    · simp [hs, hmset, eq_comm]

theorem keeps_hash_iff (hoverwrite : cfg.overwrite = some false) (hk : x.Keeps y)
    (data : Hash String R) :
    (∀ w, (cfg.copyKey existing key (some y) (some (.hash data))).write = some w → x.Keeps w) ↔
      cfg.SparesValue existing key x y (.hash data) := by
  cases y with
  | hash fields' =>
    obtain ⟨fields, rfl, hfields⟩ := Stored.keeps_hash.1 hk
    have hspares : cfg.SparesValue existing key (.hash fields) (.hash fields') (.hash data) ↔
        cfg.FieldFails (cfg.skipsField fields'.hkeys) ((cfg.migrateOf key).getD .value)
            data.hgetall ∨
          ∀ k v w, fields.hget k = some v →
            lastOf (cfg.selected key fields'.hkeys data.hgetall) k = some w → v = w := by
      simp [SparesValue]
    rw [hspares]
    by_cases hempty : fields'.hkeys = []
    · -- there is no field to be kept
      have hnone : ∀ k v, fields.hget k ≠ some v := by
        intro k v hv
        have hmem := Hash.mem_hkeys.2 (by rw [hfields k v hv]; exact Option.some_ne_none v)
        rw [hempty] at hmem
        cases hmem
      refine iff_of_true ?_ (.inr fun k v _ hv => absurd hv (hnone k v))
      intro w hw
      obtain ⟨_, rfl⟩ := copyHash_write_hash hw
      exact ⟨_, rfl, fun k v hv => absurd hv (hnone k v)⟩
    · simp only [copyKey, copyHash_write_eq_some hoverwrite hempty, and_imp]
      by_cases hf : cfg.FieldFails (cfg.skipsField fields'.hkeys)
          ((cfg.migrateOf key).getD .value) data.hgetall
      · simp [hf]
      by_cases hs : cfg.selected key fields'.hkeys data.hgetall = []
      · simp [hs, lastOf]
      · rw [← keeps_hsetAll_iff hfields]
        simp [hf, hs, Stored.Keeps]
  | _ =>
    -- `HKEYS` is refused
    refine iff_of_true ?_ fun _ _ _ hy => by cases hy
    intro w hw
    simp [copyKey, copyHash, existingHkeys, hoverwrite] at hw

theorem keeps_copyKey_iff (hoverwrite : cfg.overwrite = some false) (hk : x.Keeps y)
    (value : Stored R) :
    (∀ w, (cfg.copyKey existing key (some y) (some value)).write = some w → x.Keeps w) ↔
      cfg.SparesValue existing key x y value := by
  cases value with
  | string v => exact keeps_string_iff cfg v
  | hash data => exact keeps_hash_iff hoverwrite hk data
  | set members => exact keeps_set_iff hk members
  | list items => exact keeps_list_iff hk items
  | zset members =>
    refine iff_of_true ?_ trivial
    intro w hw
    by_cases he : key ∈ existing <;> simp [copyKey, he] at hw

/-! ## The rounds -/

theorem spares_iff {T target : Hash String (Stored R)} {value : Stored R}
    (hs : cfg.source key = some value) :
    cfg.Spares T target key ↔
      ((cfg.rejects key value.keyType || cfg.rejects (cfg.toKey key) value.keyType) = false →
        ∀ x y, T.hget (cfg.toKey key) = some x → target.hget (cfg.toKey key) = some y →
          cfg.SparesValue (cfg.existingKeys T) key x y value) := by
  constructor
  · exact fun h hr x y => h value x y hs hr
  · intro h value' x y hs' hr
    rw [hs] at hs'
    cases hs'
    exact h hr x y

/-- **One round** keeps the frame if and only if it spares what the target had at first. -/
theorem frame_cloneKey_iff (hoverwrite : cfg.overwrite = some false) {T : Hash String (Stored R)}
    {st : CloneState R} (h : Frame T st.target) :
    Frame T (cfg.cloneKey (cfg.existingKeys T) st key).target ↔ cfg.Spares T st.target key := by
  rw [target_cloneKey]
  cases hs : cfg.source key with
  | none => simp [Spares, hs, copyKey, h]
  | some value =>
    rw [Option.elim_some, spares_iff hs]
    cases cfg.rejects key value.keyType || cfg.rejects (cfg.toKey key) value.keyType with
    | true => simp [h]
    | false =>
      have hwrite : Frame T ((cfg.copyKey (cfg.existingKeys T) key
          (st.target.hget (cfg.toKey key)) (some value)).write.elim st.target
            (st.target.hset (cfg.toKey key))) ↔
          ∀ x, T.hget (cfg.toKey key) = some x → ∀ w, (cfg.copyKey (cfg.existingKeys T) key
            (st.target.hget (cfg.toKey key)) (some value)).write = some w → x.Keeps w := by
        cases (cfg.copyKey (cfg.existingKeys T) key (st.target.hget (cfg.toKey key))
          (some value)).write with
        | none => simp [h]
        | some w => simp [h.hset_iff]
      simp only [Bool.false_eq_true, if_false, forall_const]
      rw [hwrite]
      refine forall_congr' fun x => ⟨fun hx y hT hy => ?_, fun hx hT => ?_⟩
      · obtain ⟨y', hy', hk⟩ := h _ x hT
        rw [hy] at hx hy'
        cases hy'
        exact (keeps_copyKey_iff hoverwrite hk value).1 (hx hT)
      · obtain ⟨y, hy, hk⟩ := h _ x hT
        rw [hy]
        exact (keeps_copyKey_iff hoverwrite hk value).2 (hx y hT hy)

/-- The clone of one more key. -/
theorem aclone_take_succ (cfg : CloneConfig R) (T : Hash String (Stored R)) {keys : List String}
    {n : ℕ} {key : String} (hn : keys[n]? = some key) :
    cfg.aclone T (keys.take (n + 1)) =
      if (cfg.aclone T (keys.take n)).raised then cfg.aclone T (keys.take n)
      else cfg.cloneKey (cfg.existingKeys T) (cfg.aclone T (keys.take n)) key := by
  rw [List.take_add_one, hn, Option.toList_some, aclone, List.foldl_append]
  rfl

/-- **A clone without `overwrite`** keeps all that the target had, after every key, if and only if
each round, up to an exception, spares it. -/
theorem aclone_frame_iff (cfg : CloneConfig R) (hoverwrite : cfg.overwrite = some false)
    (T : Hash String (Stored R)) (keys : List String) :
    (∀ n, Frame T (cfg.aclone T (keys.take n)).target) ↔
      ∀ n key, keys[n]? = some key → (cfg.aclone T (keys.take n)).raised = false →
        cfg.Spares T (cfg.aclone T (keys.take n)).target key := by
  constructor
  · intro h n key hn hr
    have hnext := h (n + 1)
    rw [aclone_take_succ cfg T hn, hr] at hnext
    exact (frame_cloneKey_iff hoverwrite (h n)).1 hnext
  · intro h n
    induction n with
    | zero => exact .refl T
    | succ n ih =>
      cases hn : keys[n]? with
      | none =>
        rw [List.take_add_one, hn, Option.toList_none, List.append_nil]
        exact ih
      | some key =>
        rw [aclone_take_succ cfg T hn]
        cases hr : (cfg.aclone T (keys.take n)).raised with
        | true => exact ih
        | false => exact (frame_cloneKey_iff hoverwrite ih).2 (h n key hn hr)

/-! ## A renamed field -/

/-- The source has a hash `b` with the field `a`, the target a hash `c` with the field `y`. -/
def renamingSource (key : String) : Option (Stored ℕ) :=
  if key = "b" then some (.hash (Hash.hset ∅ "a" 1)) else none

def renamingTarget : Hash String (Stored ℕ) := Hash.hset ∅ "c" (.hash (Hash.hset ∅ "y" 5))

theorem aclone_frame_plain :
    Frame renamingTarget
      ((excludingConfig renamingSource none).aclone renamingTarget ["b"]).target := by
  refine (aclone_frame_iff _ rfl renamingTarget ["b"]).2 (fun n key hn _ => ?_) 1
  obtain ⟨rfl, rfl⟩ : n = 0 ∧ key = "b" := by
    cases n with
    | zero => exact ⟨rfl, by simpa using hn.symm⟩
    | succ n => cases hn
  refine (spares_iff rfl).2 fun _ x y hx hy => ?_
  have hto : (excludingConfig renamingSource none).toKey "b" = "c" := by decide +kernel
  rw [hto] at hx hy
  cases hx
  cases hy
  rintro fields fields' hf hf'
  cases hf
  cases hf'
  refine .inr fun k v w hv hw => ?_
  have hselected : (excludingConfig renamingSource none).selected "b"
      (Hash.hset ∅ "y" 5 : Hash String ℕ).hkeys (Hash.hset ∅ "a" 1 : Hash String ℕ).hgetall =
        [("a", 1)] := by decide +kernel
  rw [hselected, lastOf_singleton] at hw
  rw [Hash.hget_hset] at hv
  by_cases hk : k = "a"
  · subst hk
    simp at hv
  · rw [if_neg hk] at hw
    cases hw

/-- A field of a hash. -/
def Stored.field? (k : String) : Stored R → Option R
  | .hash fields => fields.hget k
  | _ => none

/-- **A renamed field** is copied onto a field that the target has. -/
theorem aclone_overwrites :
    ¬ Frame renamingTarget ((excludingConfig renamingSource (some fun _ => "y")).aclone
      renamingTarget ["b"]).target := by
  intro h
  obtain ⟨_, hy, fields, rfl, hfields⟩ := h "c" _ rfl
  have hwritten : (((excludingConfig renamingSource (some fun _ => "y")).aclone
      renamingTarget ["b"]).target.hget "c").bind (Stored.field? "y") = some 1 := by decide +kernel
  rw [hy, Option.bind_some] at hwritten
  cases (hfields "y" 5 rfl).symm.trans hwritten

end CloneConfig

end Kvdb
