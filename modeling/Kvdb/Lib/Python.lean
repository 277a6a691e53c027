import Kvdb.Lib.Hash
import Mathlib.Data.Finset.Card
import Mathlib.Data.List.Infix
import Mathlib.Data.List.Sort

/-!
# Dictionaries, texts and bytes of Python

`Dict κ β`: a dictionary, in the order of insertion. `remove old` is `str.replace(old, '')`, which
leaves a text as it is exactly if `old` is empty or does not occur in it (`remove_eq_self`). `hex` is
`bytes.hex()`, read back by `unhexlify` (`unhexlify_hex`), and `bytesRepr` is `str` of bytes, which is
longer than the bytes (`size_lt_bytesRepr`). A `Variant` of a function is the plain one or the coroutine.
-/

namespace Python

open Redis (lastOf lastOf_append lastOf_singleton lastOf_cons lastOf_eq_none
  lastOf_eq_some_of_nodup)

/-! ## Dictionaries -/

section Dict

variable {κ β : Type*} [DecidableEq κ]

/-- `d[k] = v` on the items: a key keeps its place. -/
def assign (items : List (κ × β)) (k : κ) (v : β) : List (κ × β) :=
  if k ∈ items.map Prod.fst then items.map fun p => if p.1 = k then (k, v) else p
  else items ++ [(k, v)]

theorem map_fst_assign (items : List (κ × β)) (k : κ) (v : β) :
    (assign items k v).map Prod.fst =
      if k ∈ items.map Prod.fst then items.map Prod.fst else items.map Prod.fst ++ [k] := by
  unfold assign
  split
  · rw [List.map_map]
    refine List.map_congr_left fun p _ => ?_
    by_cases h : p.1 = k <;> simp [h]
  · simp

theorem nodup_assign {items : List (κ × β)} (h : (items.map Prod.fst).Nodup) (k : κ) (v : β) :
    ((assign items k v).map Prod.fst).Nodup := by
  rw [map_fst_assign]
  split
  · exact h
  · rename_i hk
    exact List.nodup_append.2 ⟨h, List.nodup_singleton k, fun a ha b hb hab => by
      rw [List.mem_singleton.1 hb] at hab
      exact hk (hab ▸ ha)⟩

/-- A new value for one key. -/
theorem lastOf_replace (items : List (κ × β)) (k k' : κ) (v : β) :
    lastOf (items.map fun p => if p.1 = k then (k, v) else p) k' =
      if k' = k then (lastOf items k').map fun _ => v else lastOf items k' := by
  induction items with
  | nil => split <;> rfl
  | cons p items ih =>
    obtain ⟨j, w⟩ := p
    rw [List.map_cons]
    by_cases hj : j = k
    · subst hj
      rw [if_pos rfl, lastOf_cons, lastOf_cons, ih]
      by_cases hk : k' = j
      · simp only [if_pos hk]
        cases lastOf items k' <;> rfl
      · simp only [if_neg hk]
    · rw [if_neg hj, lastOf_cons, lastOf_cons, ih]
      by_cases hk : k' = k
      · have hkj : k' ≠ j := fun h => hj (h ▸ hk)
        simp only [if_pos hk, if_neg hkj, Option.or_none]
      · simp only [if_neg hk]

theorem lastOf_assign (items : List (κ × β)) (k k' : κ) (v : β) :
    lastOf (assign items k v) k' = if k' = k then some v else lastOf items k' := by
  unfold assign
  split
  · rename_i hm
    rw [lastOf_replace]
    split
    · rename_i hk
      subst hk
      obtain ⟨w, hw⟩ := Option.ne_none_iff_exists'.1 (mt lastOf_eq_none.1 (not_not.2 hm))
      rw [hw]
      rfl
    · rfl
  · rw [lastOf_append, lastOf_singleton]
    by_cases hk : k' = k <;> simp [hk]

theorem assign_assign (items : List (κ × β)) (k : κ) (v w : β) :
    assign (assign items k v) k w = assign items k w := by
  have hm : k ∈ (assign items k v).map Prod.fst := by
    rw [map_fst_assign]
    split <;> simp_all
  rw [assign, if_pos hm]
  unfold assign
  by_cases hk : k ∈ items.map Prod.fst
  · rw [if_pos hk, if_pos hk, List.map_map]
    refine List.map_congr_left fun p _ => ?_
    by_cases hp : p.1 = k <;> simp [hp]
  · rw [if_neg hk, if_neg hk, List.map_append]
    congr 1
    · refine (List.map_congr_left fun p hp => if_neg fun h => hk ?_).trans (List.map_id _)
      exact h ▸ List.mem_map_of_mem hp
    · simp

/-- A dictionary. -/
@[ext]
structure Dict (κ β : Type*) where
  items : List (κ × β) := []
  nodup : (items.map Prod.fst).Nodup := by exact List.nodup_nil

namespace Dict

variable (d : Dict κ β)

/-- `d[k] = v`. -/
def setItem (k : κ) (v : β) : Dict κ β := ⟨assign d.items k v, nodup_assign d.nodup k v⟩

/-- `d.get(k)`. -/
def get? (k : κ) : Option β := lastOf d.items k

/-- The dictionary after `d.pop(k, default)`. -/
def pop (k : κ) : Dict κ β :=
  ⟨d.items.filter fun p => p.1 ≠ k, d.nodup.sublist (List.filter_sublist.map _)⟩

/-- `{k: v for k, v in d.items() if p(k, v)}`. -/
def filter (p : κ × β → Bool) : Dict κ β :=
  ⟨d.items.filter p, d.nodup.sublist (List.filter_sublist.map _)⟩

/-- The dictionary after `d.pop(k, default)` for each of the keys. -/
def popAll (ks : List κ) : Dict κ β := d.filter fun p => p.1 ∉ ks

/-- `sorted(d, key = d.get, reverse = reverse)`: keys with the same value stay in their order. -/
def sortedKeys [LinearOrder β] (reverse : Bool) : List κ :=
  (d.items.insertionSort fun p q => if reverse then q.2 ≤ p.2 else p.2 ≤ q.2).map Prod.fst

/-- The keys, as a set. -/
def keySet : Finset κ := (d.items.map Prod.fst).toFinset

/-- `sorted(d.items())`: the keys decide. -/
def sortedItems [LinearOrder κ] : List (κ × β) := d.items.insertionSort fun p q => p.1 ≤ q.1

/-- `{k: v for k, v in kvs}`. -/
def ofPairs (kvs : List (κ × β)) : Dict κ β := kvs.foldl (fun d p => d.setItem p.1 p.2) {}

/-- The dictionary after `d.update(e)`. -/
def update (e : Dict κ β) : Dict κ β := e.items.foldl (fun d p => d.setItem p.1 p.2) d

@[simp] theorem get?_empty (k : κ) : ({} : Dict κ β).get? k = none := rfl

theorem setItem_setItem (k : κ) (v w : β) : (d.setItem k v).setItem k w = d.setItem k w := by
  unfold setItem
  congr 1
  exact assign_assign d.items k v w

theorem get?_setItem (k k' : κ) (v : β) :
    (d.setItem k v).get? k' = if k' = k then some v else d.get? k' := lastOf_assign _ _ _ _

theorem mem_items {d : Dict κ β} {k : κ} {v : β} : (k, v) ∈ d.items ↔ d.get? k = some v :=
  (lastOf_eq_some_of_nodup d.nodup).symm

/-- The same items in any order are sorted to the same list. -/
theorem sortedItems_congr {κ : Type*} [LinearOrder κ] {d d' : Dict κ β}
    (h : ∀ k, d.get? k = d'.get? k) : d.sortedItems = d'.sortedItems := by
  have hmem : ∀ p, p ∈ d.items ↔ p ∈ d'.items := fun p => by rw [mem_items, mem_items, h]
  have hperm : d.items.Perm d'.items :=
    (List.perm_ext_iff_of_nodup (d.nodup.of_map _) (d'.nodup.of_map _)).2 hmem
  refine List.Perm.eq_of_pairwise (fun p q hp hq hpq hqp => ?_) (List.pairwise_insertionSort _ _)
    (List.pairwise_insertionSort _ _)
    (((List.perm_insertionSort _ _).trans hperm).trans (List.perm_insertionSort _ _).symm)
  have hp : p ∈ d'.items := (hmem p).1 (((List.perm_insertionSort _ _).mem_iff).1 hp)
  have hq : q ∈ d'.items := ((List.perm_insertionSort _ _).mem_iff).1 hq
  exact List.inj_on_of_nodup_map d'.nodup hp hq (le_antisymm hpq hqp)

theorem get?_pop (k k' : κ) : (d.pop k).get? k' = if k' = k then none else d.get? k' := by
  refine Option.ext fun v => ?_
  rw [← mem_items, pop, List.mem_filter, mem_items]
  by_cases h : k' = k <;> simp [h]

theorem get?_popAll (ks : List κ) (k : κ) :
    (d.popAll ks).get? k = if k ∈ ks then none else d.get? k := by
  refine Option.ext fun v => ?_
  rw [← mem_items, popAll, filter, List.mem_filter, mem_items]
  by_cases h : k ∈ ks <;> simp [h]

omit [DecidableEq κ] in
theorem nodup_sortedKeys [LinearOrder β] (reverse : Bool) : (d.sortedKeys reverse).Nodup :=
  ((List.perm_insertionSort _ d.items).map Prod.fst).nodup_iff.2 d.nodup

/-- A dictionary after `d[k] = v` against any function after the same. -/
theorem get?_setItem_eq_update {d : Dict κ β} {f : κ → Option β} {k : κ} {v : β} :
    (d.setItem k v).get? = Function.update f k (some v) ↔ ∀ k', k' ≠ k → d.get? k' = f k' := by
  simp only [Function.eq_update_iff, get?_setItem, if_true, true_and]
  exact forall₂_congr fun k' hk => by rw [if_neg hk]

theorem get?_popAll_eq {d : Dict κ β} {f : κ → Option β} {ks : List κ} :
    ((d.popAll ks).get? = fun k => if k ∈ ks then none else f k) ↔
      ∀ k, k ∉ ks → d.get? k = f k := by
  simp only [funext_iff, get?_popAll]
  refine forall_congr' fun k => ?_
  by_cases hk : k ∈ ks <;> simp [hk]

theorem card_keySet : d.keySet.card = d.items.length := by
  rw [keySet, List.toFinset_card_of_nodup d.nodup, List.length_map]

theorem mem_keySet {d : Dict κ β} {k : κ} : k ∈ d.keySet ↔ (d.get? k).isSome = true := by
  rw [keySet, List.mem_toFinset, List.mem_map, Option.isSome_iff_exists]
  constructor
  · intro hw
    obtain ⟨⟨k, v⟩, hm, rfl⟩ := hw
    exact ⟨v, mem_items.1 hm⟩
  · intro hw
    obtain ⟨v, hv⟩ := hw
    exact ⟨(k, v), mem_items.2 hv, rfl⟩

theorem isSome_get?_iff_mem {d : Dict κ β} {k : κ} :
    (d.get? k).isSome ↔ k ∈ d.items.map Prod.fst := by
  rw [← mem_keySet, keySet, List.mem_toFinset]

theorem keySet_popAll (ks : List κ) : (d.popAll ks).keySet = d.keySet \ ks.toFinset := by
  ext k
  rw [Finset.mem_sdiff, mem_keySet, mem_keySet, get?_popAll, List.mem_toFinset]
  by_cases h : k ∈ ks <;> simp [h]

/-- Up to `n` keys popped are `n` items less exactly if there are `n` of them, all in the dictionary. -/
theorem length_popAll_le_iff {d : Dict κ β} {ks : List κ} {n : ℕ} (hks : ks.Nodup)
    (hn : ks.length ≤ n) (hd : n ≤ d.items.length) :
    (d.popAll ks).items.length ≤ d.items.length - n ↔
      ks.length = n ∧ ∀ k ∈ ks, (d.get? k).isSome = true := by
  have hcard : ks.toFinset.card = ks.length := List.toFinset_card_of_nodup hks
  have hsub : (ks.toFinset ∩ d.keySet).card ≤ ks.toFinset.card :=
    Finset.card_le_card Finset.inter_subset_left
  have hpop : (d.popAll ks).items.length + (ks.toFinset ∩ d.keySet).card = d.items.length := by
    rw [← card_keySet, ← card_keySet, keySet_popAll, Finset.inter_comm]
    exact Finset.card_sdiff_add_card_inter _ _
  constructor
  · intro hle
    have heq : ks.toFinset ∩ d.keySet = ks.toFinset :=
      Finset.eq_of_subset_of_card_le Finset.inter_subset_left (by omega)
    refine ⟨by rw [heq] at hpop; omega, fun k hk => ?_⟩
    have hmem : k ∈ ks.toFinset ∩ d.keySet := by rwa [heq, List.mem_toFinset]
    exact mem_keySet.1 (Finset.mem_inter.1 hmem).2
  · intro hw
    obtain ⟨hlen, hall⟩ := hw
    have heq : ks.toFinset ∩ d.keySet = ks.toFinset :=
      Finset.inter_eq_left.2 fun k hk => mem_keySet.2 (hall k (List.mem_toFinset.1 hk))
    rw [heq] at hpop
    omega

theorem get?_foldl_setItem (kvs : List (κ × β)) (d : Dict κ β) (k : κ) :
    (kvs.foldl (fun d p => d.setItem p.1 p.2) d).get? k = (lastOf kvs k).or (d.get? k) := by
  induction kvs generalizing d with
  | nil => rfl
  | cons p kvs ih =>
    rw [List.foldl_cons, ih, get?_setItem, lastOf_cons]
    cases lastOf kvs k with
    | some => rfl
    | none => by_cases h : k = p.1 <;> simp [h]

theorem get?_ofPairs (kvs : List (κ × β)) (k : κ) : (ofPairs kvs).get? k = lastOf kvs k := by
  rw [ofPairs, get?_foldl_setItem, get?_empty, Option.or_none]

theorem get?_update (d e : Dict κ β) (k : κ) : (d.update e).get? k = (e.get? k).or (d.get? k) :=
  get?_foldl_setItem e.items d k

theorem get?_filter_key (p : κ → Bool) (k : κ) :
    (d.filter fun kv => p kv.1).get? k = if p k then d.get? k else none := by
  refine Option.ext fun v => ?_
  rw [← mem_items, filter, List.mem_filter, mem_items]
  by_cases h : p k <;> simp [h]

theorem setItem_self {d : Dict κ β} {k : κ} {v : β} (h : d.get? k = some v) :
    d.setItem k v = d := by
  have hmem := mem_items.2 h
  have hitems : assign d.items k v = d.items := by
    rw [assign, if_pos (List.mem_map_of_mem hmem)]
    refine (List.map_congr_left fun p hp => ?_).trans (List.map_id _)
    split
    · rename_i hk
      exact (List.inj_on_of_nodup_map d.nodup hp hmem hk).symm
    · rfl
  unfold setItem
  congr 1

end Dict

end Dict

/-! ## Coroutines -/

/-- The two variants of a function: a plain one and a coroutine. -/
inductive Variant
  | sync
  | async
  deriving DecidableEq

/-! ## Sets -/

/-- The order in which a set iterates over its elements. -/
structure IterOrder (κ : Type*) where
  list : List κ → List κ
  perm : ∀ xs, (list xs).Perm xs

/-! ## Comprehensions -/

section MapM

variable {α β : Type*} {f : α → Option β} {xs : List α}

theorem mapM_some {ys : List β} (h : xs.mapM f = some ys) :
    (∀ x ∈ xs, f x ≠ none) ∧ ∀ y ∈ ys, ∃ x ∈ xs, f x = some y := by
  induction xs generalizing ys with
  | nil =>
    cases h
    exact ⟨fun x hx => absurd hx List.not_mem_nil, fun y hy => absurd hy List.not_mem_nil⟩
  | cons x xs ih =>
    rw [List.mapM_cons] at h
    obtain ⟨y, hy, h⟩ := Option.bind_eq_some_iff.1 h
    obtain ⟨zs, hzs, h⟩ := Option.bind_eq_some_iff.1 h
    cases h
    obtain ⟨hne, hmem⟩ := ih hzs
    refine ⟨fun x' hx => ?_, fun y' hy' => ?_⟩
    · rcases List.mem_cons.1 hx with rfl | hx
      · simp [hy]
      · exact hne x' hx
    · rcases List.mem_cons.1 hy' with rfl | hy'
      · exact ⟨x, List.mem_cons_self, hy⟩
      · obtain ⟨x', hx, hf⟩ := hmem y' hy'
        exact ⟨x', List.mem_cons_of_mem _ hx, hf⟩

theorem mapM_of_forall (h : ∀ x ∈ xs, f x ≠ none) :
    ∃ ys, xs.mapM f = some ys ∧ ∀ x ∈ xs, ∀ y, f x = some y → y ∈ ys := by
  induction xs with
  | nil => exact ⟨[], rfl, fun x hx => absurd hx List.not_mem_nil⟩
  | cons x xs ih =>
    obtain ⟨y, hy⟩ := Option.ne_none_iff_exists'.1 (h x List.mem_cons_self)
    obtain ⟨ys, hys, hmem⟩ := ih fun x' hx => h x' (List.mem_cons_of_mem _ hx)
    refine ⟨y :: ys, by simp [List.mapM_cons, hy, hys], fun x' hx y' hy' => ?_⟩
    rcases List.mem_cons.1 hx with rfl | hx
    · obtain rfl : y = y' := Option.some.inj (hy.symm.trans hy')
      exact List.mem_cons_self
    · exact List.mem_cons_of_mem _ (hmem x' hx y' hy')

end MapM

/-! ## Slices -/

/-- `xs[:n]`; a negative `n` counts from the end. -/
def upTo {α : Type*} (xs : List α) (n : ℤ) : List α :=
  xs.take (if n < 0 then xs.length + n else n).toNat

/-! ## `str.replace` -/

section Remove

variable {α : Type*} [DecidableEq α]

/-- `str.replace(old, '')`: the first occurrence goes and the search continues after it; `skip`
characters of an occurrence are still to go. -/
def remove (old : List α) : ℕ → List α → List α
  | _, [] => []
  | skip + 1, _ :: xs => remove old skip xs
  | 0, x :: xs =>
    if old ≠ [] ∧ old <+: x :: xs then remove old (old.length - 1) xs else x :: remove old 0 xs

variable {old : List α}

theorem remove_skip (skip : ℕ) (xs : List α) : remove old skip xs = remove old 0 (xs.drop skip) := by
  induction xs generalizing skip with
  | nil => cases skip <;> simp [remove]
  | cons x xs ih =>
    cases skip with
    | zero => rfl
    | succ skip => exact ih skip

/-- An occurrence at the beginning goes. -/
theorem remove_append (h : old ≠ []) (xs : List α) : remove old 0 (old ++ xs) = remove old 0 xs := by
  obtain ⟨y, ys, rfl⟩ := List.exists_cons_of_ne_nil h
  have hp : y :: ys ≠ [] ∧ y :: ys <+: y :: (ys ++ xs) := ⟨h, ⟨xs, rfl⟩⟩
  rw [List.cons_append, remove, if_pos hp, remove_skip]
  simp

variable (old) in
theorem length_remove_le (skip : ℕ) (xs : List α) : (remove old skip xs).length ≤ xs.length := by
  induction xs generalizing skip with
  | nil => cases skip <;> simp [remove]
  | cons x xs ih =>
    cases skip with
    | succ skip => exact (ih skip).trans (Nat.le_succ _)
    | zero =>
      rw [remove]
      split
      · exact (ih _).trans (Nat.le_succ _)
      · exact Nat.succ_le_succ (ih 0)

/-- **A text stays** if and only if the pattern is empty or does not occur in it. -/
theorem remove_eq_self {xs : List α} : remove old 0 xs = xs ↔ old = [] ∨ ¬ old <:+: xs := by
  induction xs with
  | nil =>
    simp only [remove, true_iff, List.infix_nil]
    exact em _
  | cons x xs ih =>
    rw [remove]
    split
    · rename_i h
      constructor
      · intro heq
        have hlen := length_remove_le old (old.length - 1) xs
        rw [heq, List.length_cons] at hlen
        omega
      · intro hw
        rcases hw with ho | hi
        · exact absurd ho h.1
        · exact absurd h.2.isInfix hi
    · rename_i h
      rw [List.cons_inj_right, ih, List.infix_cons_iff]
      tauto

variable (old) in
theorem remove_sublist (skip : ℕ) (xs : List α) : (remove old skip xs).Sublist xs := by
  induction xs generalizing skip with
  | nil => cases skip <;> exact List.Sublist.refl _
  | cons x xs ih =>
    cases skip with
    | succ skip => exact (ih skip).trans (List.sublist_cons_self x xs)
    | zero =>
      rw [remove]
      split
      · exact (ih _).trans (List.sublist_cons_self x xs)
      · exact (ih 0).cons_cons x

theorem length_remove_lt {xs : List α} (h : remove old 0 xs ≠ xs) :
    (remove old 0 xs).length < xs.length := by
  induction xs with
  | nil => exact absurd rfl h
  | cons x xs ih =>
    rw [remove] at h ⊢
    split
    · have hlen := length_remove_le old (old.length - 1) xs
      rw [List.length_cons]
      omega
    · rename_i hp
      rw [if_neg hp] at h
      exact Nat.succ_lt_succ (ih fun heq => h (by rw [heq]))

/-- `str.replace(old, new)`, which puts `new` around every character if `old` is empty. -/
def replace (old new : List α) : ℕ → List α → List α
  | _, [] => if old = [] then new else []
  | skip + 1, _ :: xs => replace old new skip xs
  | 0, x :: xs =>
    if old = [] then new ++ x :: replace old new 0 xs
    else if old <+: x :: xs then new ++ replace old new (old.length - 1) xs
    else x :: replace old new 0 xs

end Remove

/-! ## `str.join` -/

section Join

variable {α : Type*} [DecidableEq α] (c : α)

/-- The texts, cut at the character `c`; no text at all is written as an empty one is. -/
def pieces (xs : List (List α)) : List (List α) :=
  if xs = [] then [[]] else xs.flatMap fun x => x.splitOn c

theorem splitOn_intercalate (xs : List (List α)) :
    ([c].intercalate xs).splitOn c = pieces c xs := by
  induction xs with
  | nil => rfl
  | cons x xs ih =>
    rw [pieces, if_neg (List.cons_ne_nil x xs)]
    cases xs with
    | nil => simp
    | cons y ys =>
      rw [List.intercalate_cons_cons, List.append_assoc, List.singleton_append,
        List.splitOn_append_cons_self, ih, pieces, if_neg (List.cons_ne_nil y ys)]
      rfl

/-- **Joined texts are the same** exactly if they are so after a cut at the separator. -/
theorem intercalate_inj {xs ys : List (List α)} :
    [c].intercalate xs = [c].intercalate ys ↔ pieces c xs = pieces c ys := by
  rw [← splitOn_intercalate, ← splitOn_intercalate]
  refine ⟨fun h => by rw [h], fun h => ?_⟩
  calc [c].intercalate xs
    _ = [c].intercalate (([c].intercalate xs).splitOn c) := (List.intercalate_splitOn c).symm
    _ = [c].intercalate (([c].intercalate ys).splitOn c) := by rw [h]
    _ = [c].intercalate ys := List.intercalate_splitOn c

end Join

/-! ## Bytes -/

def hexDigit (n : ℕ) : Char := Char.ofNat (if n < 10 then 48 + n else 87 + n)

/-- `bytes.hex()`. -/
def hex (bs : List UInt8) : List Char :=
  bs.flatMap fun b => [hexDigit (b.toNat / 16), hexDigit (b.toNat % 16)]

def hexVal (c : Char) : Option ℕ :=
  if 48 ≤ c.toNat ∧ c.toNat ≤ 57 then some (c.toNat - 48)
  else if 65 ≤ c.toNat ∧ c.toNat ≤ 70 then some (c.toNat - 55)
  else if 97 ≤ c.toNat ∧ c.toNat ≤ 102 then some (c.toNat - 87)
  else none

/-- `binascii.unhexlify`, `none` if it raises. -/
def unhexlify : List Char → Option (List UInt8)
  | [] => some []
  | [_] => none
  | hi :: lo :: cs => do
    return UInt8.ofNat (16 * (← hexVal hi) + (← hexVal lo)) :: (← unhexlify cs)

theorem hexVal_hexDigit : ∀ n < 16, hexVal (hexDigit n) = some n := by decide

theorem unhexlify_hex (bs : List UInt8) : unhexlify (hex bs) = some bs := by
  induction bs with
  | nil => rfl
  | cons b bs ih =>
    have hb : b.toNat < 256 := b.toNat_lt
    have hhi : hexVal (hexDigit (b.toNat / 16)) = some (b.toNat / 16) := hexVal_hexDigit _ (by omega)
    have hlo : hexVal (hexDigit (b.toNat % 16)) = some (b.toNat % 16) := hexVal_hexDigit _ (by omega)
    have hsum : UInt8.ofNat (16 * (b.toNat / 16) + b.toNat % 16) = b := by
      rw [Nat.div_add_mod, UInt8.ofNat_toNat]
    show unhexlify (_ :: _ :: hex bs) = _
    simp only [unhexlify, hhi, hlo, ih, Option.bind_eq_bind, Option.bind_some, hsum, Option.pure_def]

/-- ASCII whitespace. -/
def isSpace (c : Char) : Bool := c.toNat = 32 ∨ 9 ≤ c.toNat ∧ c.toNat ≤ 13

/-- `bytes.fromhex`, `none` if it raises: `unhexlify` that skips whitespace between the bytes. -/
def fromHex : List Char → Option (List UInt8)
  | [] => some []
  | [c] => if isSpace c then some [] else none
  | hi :: lo :: cs =>
    if isSpace hi then fromHex (lo :: cs)
    else do
      return UInt8.ofNat (16 * (← hexVal hi) + (← hexVal lo)) :: (← fromHex cs)

theorem isSpace_hexDigit : ∀ n < 16, isSpace (hexDigit n) = false := by decide

theorem fromHex_hex (bs : List UInt8) : fromHex (hex bs) = some bs := by
  induction bs with
  | nil => rfl
  | cons b bs ih =>
    have hb : b.toNat < 256 := b.toNat_lt
    have hspace := isSpace_hexDigit (b.toNat / 16) (by omega)
    have hone := unhexlify_hex [b]
    show fromHex (hexDigit _ :: hexDigit _ :: hex bs) = _
    change unhexlify [hexDigit _, hexDigit _] = _ at hone
    simp only [unhexlify, Option.pure_def, Option.bind_eq_bind, Option.bind_some,
      Option.bind_eq_some_iff] at hone
    obtain ⟨x, hx, y, hy, hxy⟩ := hone
    have hxy' : UInt8.ofNat (16 * x + y) = b := by simpa using hxy
    simp only [fromHex, hspace, Bool.false_eq_true, if_false, hx, hy, ih, Option.bind_eq_bind,
      Option.bind_some, hxy', Option.pure_def]

/-- A character and the backslash before it. -/
def escaped (c : Char) : List Char := [Char.ofNat 92, c]

/-- A byte in `repr`; 92 is the backslash. -/
def reprByte (quote : UInt8) (b : UInt8) : List Char :=
  if b = quote ∨ b = 92 then escaped (Char.ofNat b.toNat)
  else if b = 9 then escaped 't'
  else if b = 10 then escaped 'n'
  else if b = 13 then escaped 'r'
  else if b < 32 ∨ 127 ≤ b then
    escaped 'x' ++ [hexDigit (b.toNat / 16), hexDigit (b.toNat % 16)]
  else [Char.ofNat b.toNat]

/-- `str` of bytes: the literal, between the quotes 39 or 34. -/
def bytesRepr (bs : List UInt8) : String :=
  let quote : UInt8 := if 39 ∈ bs ∧ 34 ∉ bs then 34 else 39
  String.ofList ('b' :: Char.ofNat quote.toNat :: bs.flatMap (reprByte quote) ++
    [Char.ofNat quote.toNat])

theorem length_le_utf8ByteSize (cs : List Char) : cs.length ≤ (String.ofList cs).utf8ByteSize := by
  induction cs with
  | nil => exact Nat.zero_le _
  | cons c cs ih =>
    have hc : 0 < c.utf8Size := c.utf8Size_pos
    have hsplit : String.ofList (c :: cs) = String.singleton c ++ String.ofList cs := by
      rw [← List.singleton_append, String.ofList_append]
      rfl
    rw [hsplit, String.utf8ByteSize_append, String.utf8ByteSize_singleton, List.length_cons]
    omega

/-- The literal is longer than the bytes. -/
theorem size_lt_bytesRepr (bs : List UInt8) : bs.length < (bytesRepr bs).utf8ByteSize := by
  have hbytes : ∀ quote (bs : List UInt8), bs.length ≤ (bs.flatMap (reprByte quote)).length := by
    intro quote bs
    induction bs with
    | nil => exact Nat.zero_le _
    | cons b bs ih =>
      have hb : 1 ≤ (reprByte quote b).length := by
        unfold reprByte
        repeat' split
        all_goals simp [escaped]
      rw [List.flatMap_cons, List.length_append, List.length_cons]
      omega
  refine lt_of_lt_of_le ?_ (length_le_utf8ByteSize _)
  simp only [List.cons_append, List.length_cons, List.length_append, List.length_nil]
  have hle := hbytes (if 39 ∈ bs ∧ 34 ∉ bs then 34 else 39) bs
  omega

end Python
