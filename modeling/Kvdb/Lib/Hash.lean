import Mathlib.Data.List.AList

/-!
# Redis hashes

`Hash κ β`: a hash, as a finite map with its fields in some order (`hkeys`, `hgetall`). `hsetAll` is
`HSET` with a mapping, `hdelAll` is `HDEL` of several fields. `lastOf kvs k` is what a list of pairs
assigns to `k`, the last pair deciding, as in a dictionary built from the pairs.
-/

namespace Redis

variable {κ κ' β γ : Type*} [DecidableEq κ] [DecidableEq κ']

/-! ## Assignments -/

/-- The value that the last pair for `k` gives it. -/
def lastOf (kvs : List (κ × β)) (k : κ) : Option β :=
  (kvs.reverse.find? fun p => decide (p.1 = k)).map Prod.snd

theorem lastOf_append (kvs kvs' : List (κ × β)) (k : κ) :
    lastOf (kvs ++ kvs') k = (lastOf kvs' k).or (lastOf kvs k) := by
  simp only [lastOf, List.reverse_append, List.find?_append]
  cases List.find? (fun p => decide (p.1 = k)) kvs'.reverse <;> rfl

theorem lastOf_singleton (k k' : κ) (v : β) :
    lastOf [(k', v)] k = if k = k' then some v else none := by
  by_cases h : k = k'
  · subst h; simp [lastOf]
  · simp [lastOf, h, Ne.symm h]

theorem lastOf_cons (k k' : κ) (v : β) (kvs : List (κ × β)) :
    lastOf ((k', v) :: kvs) k = (lastOf kvs k).or (if k = k' then some v else none) := by
  rw [← List.singleton_append, lastOf_append, lastOf_singleton]

theorem lastOf_eq_none {kvs : List (κ × β)} {k : κ} :
    lastOf kvs k = none ↔ k ∉ kvs.map Prod.fst := by
  simp only [lastOf, Option.map_eq_none_iff, List.find?_eq_none, List.mem_reverse,
    decide_eq_true_eq, List.mem_map, not_exists, not_and]

theorem mem_of_lastOf {kvs : List (κ × β)} {k : κ} {v : β} (h : lastOf kvs k = some v) :
    (k, v) ∈ kvs := by
  obtain ⟨⟨k', v'⟩, hf, rfl⟩ := Option.map_eq_some_iff.1 h
  obtain rfl : k' = k := by simpa using List.find?_some hf
  exact List.mem_reverse.1 (List.mem_of_find?_eq_some hf)

/-- With distinct keys every pair decides. -/
theorem lastOf_eq_some_of_nodup {kvs : List (κ × β)} (hn : (kvs.map Prod.fst).Nodup) {k : κ}
    {v : β} : lastOf kvs k = some v ↔ (k, v) ∈ kvs := by
  constructor
  · exact mem_of_lastOf
  · intro hm
    cases hl : lastOf kvs k with
    | none => exact absurd (List.mem_map_of_mem hm) (lastOf_eq_none.1 hl)
    | some v' =>
      have hv : (k, v') = (k, v) :=
        List.inj_on_of_nodup_map hn (mem_of_lastOf hl) hm rfl
      cases hv
      rfl

/-- Renaming the keys by a map that identifies no other key with `k`. -/
theorem lastOf_map {f : κ → κ'} {g : β → γ} {kvs : List (κ × β)} {k : κ}
    (hf : ∀ p ∈ kvs, f p.1 = f k → p.1 = k) :
    lastOf (kvs.map fun p => (f p.1, g p.2)) (f k) = (lastOf kvs k).map g := by
  induction kvs with
  | nil => rfl
  | cons p kvs ih =>
    obtain ⟨k', v⟩ := p
    have hk : f k = f k' ↔ k = k' :=
      ⟨fun h => (hf _ List.mem_cons_self h.symm).symm, fun h => by rw [h]⟩
    rw [List.map_cons, lastOf_cons, lastOf_cons,
      ih fun p hp => hf p (List.mem_cons_of_mem _ hp)]
    simp only [hk]
    cases lastOf kvs k with
    | some => rfl
    | none => by_cases h : k = k' <;> simp [h]

/-! ## Hashes -/

/-- A hash. -/
abbrev Hash (κ β : Type*) := AList fun _ : κ => β

namespace Hash

/-- `HGET`. -/
def hget (h : Hash κ β) (k : κ) : Option β := h.lookup k

/-- `HSET` of one field. -/
def hset (h : Hash κ β) (k : κ) (v : β) : Hash κ β := AList.insert k v h

/-- `HDEL` of one field. -/
def hdel (h : Hash κ β) (k : κ) : Hash κ β := AList.erase k h

/-- `HEXISTS`. -/
def hexists (h : Hash κ β) (k : κ) : Bool := (h.hget k).isSome

/-- `HSET` of a mapping. -/
def hsetAll (h : Hash κ β) (kvs : List (κ × β)) : Hash κ β :=
  kvs.foldl (fun h p => h.hset p.1 p.2) h

/-- `HDEL` of several fields. -/
def hdelAll (h : Hash κ β) (ks : List κ) : Hash κ β := ks.foldl hdel h

omit [DecidableEq κ] in
/-- `HKEYS`. -/
def hkeys (h : Hash κ β) : List κ := h.keys

omit [DecidableEq κ] in
/-- `HGETALL`. -/
def hgetall (h : Hash κ β) : List (κ × β) := h.entries.map fun e => (e.1, e.2)

@[simp] theorem hget_empty (k : κ) : (∅ : Hash κ β).hget k = none := AList.lookup_empty k

theorem hget_hset (h : Hash κ β) (k k' : κ) (v : β) :
    (h.hset k v).hget k' = if k' = k then some v else h.hget k' := by
  unfold hget hset
  split
  · rename_i hk
    subst hk
    exact AList.lookup_insert h
  · rename_i hk
    exact AList.lookup_insert_ne hk

theorem hget_hdel (h : Hash κ β) (k k' : κ) :
    (h.hdel k).hget k' = if k' = k then none else h.hget k' := by
  unfold hget hdel
  split
  · rename_i hk
    subst hk
    exact AList.lookup_erase _ h
  · rename_i hk
    exact AList.lookup_erase_ne hk

theorem hget_hdelAll (ks : List κ) (h : Hash κ β) (k : κ) :
    (h.hdelAll ks).hget k = if k ∈ ks then none else h.hget k := by
  induction ks generalizing h with
  | nil => simp [hdelAll]
  | cons k' ks ih =>
    show ((h.hdel k').hdelAll ks).hget k = _
    rw [ih, hget_hdel]
    by_cases hk : k = k' <;> simp [hk]

theorem hget_hsetAll (kvs : List (κ × β)) (h : Hash κ β) (k : κ) :
    (h.hsetAll kvs).hget k = (lastOf kvs k).or (h.hget k) := by
  induction kvs generalizing h with
  | nil => rfl
  | cons p kvs ih =>
    obtain ⟨k', v⟩ := p
    show ((h.hset k' v).hsetAll kvs).hget k = _
    rw [ih, hget_hset, lastOf_cons]
    by_cases hk : k = k'
    · cases lastOf kvs k <;> simp [hk]
    · simp [hk]

theorem mem_hkeys {h : Hash κ β} {k : κ} : k ∈ h.hkeys ↔ h.hget k ≠ none := by
  rw [hget, ne_eq, AList.lookup_eq_none, not_not]
  rfl

theorem mem_hgetall {h : Hash κ β} {k : κ} {v : β} : (k, v) ∈ h.hgetall ↔ h.hget k = some v := by
  rw [hget, ← Option.mem_def, AList.mem_lookup_iff]
  simp [hgetall]

omit [DecidableEq κ] in
@[simp] theorem map_fst_hgetall (h : Hash κ β) : h.hgetall.map Prod.fst = h.hkeys := by
  simp [hgetall, hkeys, AList.keys, List.keys, Function.comp_def]

omit [DecidableEq κ] in
theorem nodup_hkeys (h : Hash κ β) : h.hkeys.Nodup := h.keys_nodup

theorem lastOf_hgetall (h : Hash κ β) (k : κ) : lastOf h.hgetall k = h.hget k := by
  refine Option.ext fun v => ?_
  rw [lastOf_eq_some_of_nodup (by rw [map_fst_hgetall]; exact h.nodup_hkeys), mem_hgetall]

end Hash

end Redis
