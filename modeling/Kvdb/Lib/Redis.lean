import Mathlib.Data.List.AList
import Mathlib.Data.List.Sort
import Mathlib.Algebra.Order.Ring.Rat
import Mathlib.Logic.Function.Basic

/-!
# Redis data types

The value types of a Redis server that the models use, as pure functions.

* Lists: `lrem` (`LREM` with a non-negative count), `push`/`pop` on either side, `move`
  (`LMOVE`, of which `RPOPLPUSH` is the right-to-left case).
* Sorted sets (`ZSet`): members with rational scores; `rangeByScore` (`ZRANGEBYSCORE`) lists the
  members of a score interval by score, ties by member.
* Keys with an expiry (`TtlMap`): `set` drops the expiry, `setex` and `expire` set a deadline,
  `ttl` answers `-2` for a missing key, `-1` without a deadline, else the remaining seconds rounded
  as the server rounds them; `evict` removes what is past its deadline. Times are milliseconds.
-/

namespace Redis

variable {α κ β : Type*}

/-! ## Lists -/

section Lists
variable [DecidableEq α]

/-- Remove the first `n` occurrences of `x`. -/
def remFirst (x : α) : ℕ → List α → List α
  | 0, l => l
  | _, [] => []
  | n + 1, y :: l => if y = x then remFirst x n l else y :: remFirst x (n + 1) l

/-- `LREM key n x`: the first `n` occurrences from the head, all of them for `n = 0`. -/
def lrem (n : ℕ) (x : α) (l : List α) : List α :=
  if n = 0 then l.filter (· ≠ x) else remFirst x n l

/-- What `LREM` answers: the number of removed occurrences. -/
def lremCount (n : ℕ) (x : α) (l : List α) : ℕ := l.length - (lrem n x l).length

theorem remFirst_sublist (x : α) : ∀ (n : ℕ) (l : List α), (remFirst x n l).Sublist l
  | 0, l => by cases l <;> simp [remFirst]
  | n + 1, [] => by simp [remFirst]
  | n + 1, y :: l => by
    unfold remFirst
    split
    · exact (remFirst_sublist x n l).cons y
    · exact (remFirst_sublist x (n + 1) l).cons_cons y

theorem lrem_sublist (n : ℕ) (x : α) (l : List α) : (lrem n x l).Sublist l := by
  unfold lrem
  split
  · exact List.filter_sublist
  · exact remFirst_sublist x n l

theorem mem_remFirst_ne {x y : α} (h : y ≠ x) :
    ∀ {n : ℕ} {l : List α}, y ∈ remFirst x n l ↔ y ∈ l
  | 0, l => by cases l <;> simp [remFirst]
  | n + 1, [] => by simp [remFirst]
  | n + 1, z :: l => by
    unfold remFirst
    split
    · rename_i hz
      rw [mem_remFirst_ne h, List.mem_cons, hz]
      exact ⟨.inr, fun hm => hm.resolve_left h⟩
    · rw [List.mem_cons, List.mem_cons, mem_remFirst_ne h]

/-- `LREM` of `x` keeps every other element. -/
theorem mem_lrem_ne {n : ℕ} {x y : α} {l : List α} (h : y ≠ x) : y ∈ lrem n x l ↔ y ∈ l := by
  unfold lrem
  split
  · simp [h]
  · exact mem_remFirst_ne h

theorem mem_lrem_of_ne (n : ℕ) {x y : α} {l : List α} (h : y ≠ x) (hy : y ∈ l) : y ∈ lrem n x l :=
  (mem_lrem_ne h).2 hy

theorem count_remFirst_ne {x y : α} (h : y ≠ x) :
    ∀ (n : ℕ) (l : List α), (remFirst x n l).count y = l.count y
  | 0, l => by cases l <;> simp [remFirst]
  | n + 1, [] => by simp [remFirst]
  | n + 1, z :: l => by
    unfold remFirst
    split
    · rename_i hz
      rw [count_remFirst_ne h n l, hz, List.count_cons_of_ne h.symm]
    · rw [List.count_cons, List.count_cons, count_remFirst_ne h (n + 1) l]

/-- `LREM` of `x` keeps every copy of another element. -/
theorem count_lrem_ne {x y : α} (h : y ≠ x) (n : ℕ) (l : List α) :
    (lrem n x l).count y = l.count y := by
  unfold lrem
  split
  · exact List.count_filter (by simpa using h)
  · exact count_remFirst_ne h n l

theorem not_mem_lrem_zero (x : α) (l : List α) : x ∉ lrem 0 x l := by simp [lrem]

/-- `LREM` with count 0 answers 0 exactly if there is nothing to remove. -/
theorem lremCount_zero {x : α} {l : List α} : lremCount 0 x l = 0 ↔ x ∉ l := by
  have hle := (lrem_sublist 0 x l).length_le
  constructor
  · intro h hx
    have hl : lrem 0 x l = l := (lrem_sublist 0 x l).eq_of_length_le (by
      simp only [lremCount] at h
      omega)
    rw [← hl] at hx
    exact not_mem_lrem_zero x l hx
  · intro hx
    have hl : lrem 0 x l = l := by
      simp only [lrem, ↓reduceIte, List.filter_eq_self, decide_eq_true_eq]
      rintro y hy rfl
      exact hx hy
    simp [lremCount, hl]

theorem remFirst_one (x : α) (l : List α) : remFirst x 1 l = l.erase x := by
  induction l with
  | nil => rfl
  | cons y l ih =>
    by_cases h : y = x
    · subst h; cases l <;> simp [remFirst]
    · rw [List.erase_cons_tail (by simpa using h), ← ih]
      simp [remFirst, h]

@[simp] theorem lrem_one (x : α) (l : List α) : lrem 1 x l = l.erase x := by
  simp [lrem, remFirst_one]

/-- Without duplicates any `LREM` removes the element for good. -/
theorem not_mem_lrem {n : ℕ} {x : α} {l : List α} (hl : l.Nodup) : x ∉ lrem n x l := by
  rcases Nat.eq_zero_or_pos n with rfl | hn
  · exact not_mem_lrem_zero x l
  obtain ⟨m, rfl⟩ : ∃ m, n = m + 1 := ⟨n - 1, by omega⟩
  simp only [lrem, Nat.add_one_ne_zero, ↓reduceIte]
  induction l with
  | nil => simp [remFirst]
  | cons y l ih =>
    obtain ⟨hy, hl⟩ := List.nodup_cons.1 hl
    unfold remFirst
    split
    · rename_i h
      subst h
      exact fun hm => hy ((remFirst_sublist y m l).subset hm)
    · rename_i h
      rw [List.mem_cons, not_or]
      exact ⟨Ne.symm h, ih hl⟩

end Lists

/-- The two ends of a list. -/
inductive Side
  | left
  | right
  deriving DecidableEq, Repr

/-- `LPUSH`/`RPUSH` of one element. -/
def push (x : α) : Side → List α → List α
  | .left, l => x :: l
  | .right, l => l ++ [x]

/-- `LPOP`/`RPOP`. -/
def pop : Side → List α → Option (α × List α)
  | .left, [] => none
  | .left, x :: l => some (x, l)
  | .right, l => l.getLast?.map fun x => (x, l.dropLast)

/-- `LMOVE source destination src dst`. -/
def move (src dst : Side) (l m : List α) : Option (α × List α × List α) :=
  (pop src l).map fun p => (p.1, p.2, push p.1 dst m)

/-- A pop on the right takes the last element. -/
theorem pop_right_eq_some {l l' : List α} {x : α} : pop .right l = some (x, l') ↔ l = l' ++ [x] := by
  simp only [pop, Option.map_eq_some_iff, Prod.mk.injEq]
  constructor
  · rintro ⟨y, hy, rfl, rfl⟩
    exact (List.dropLast_append_getLast? y hy).symm
  · rintro rfl
    exact ⟨x, by simp⟩

/-- What a pop leaves. -/
theorem sublist_of_pop {s : Side} {l l' : List α} {x : α} (h : pop s l = some (x, l')) :
    l'.Sublist l := by
  cases s with
  | left =>
    cases l with
    | nil => cases h
    | cons z l =>
      cases h
      exact List.sublist_cons_self _ _
  | right =>
    rw [pop_right_eq_some.1 h]
    exact List.sublist_append_left l' [x]

theorem mem_of_mem_pop {s : Side} {l l' : List α} {x y : α} (h : pop s l = some (x, l'))
    (hy : y ∈ l') : y ∈ l := (sublist_of_pop h).subset hy

theorem mem_of_pop_ne {s : Side} {l l' : List α} {x y : α} (h : pop s l = some (x, l'))
    (hne : y ≠ x) (hy : y ∈ l) : y ∈ l' := by
  cases s with
  | left =>
    cases l with
    | nil => cases h
    | cons z l =>
      cases h
      exact List.mem_of_ne_of_mem hne hy
  | right =>
    rw [pop_right_eq_some.1 h] at hy
    exact (List.mem_append.1 hy).resolve_right fun hm => hne (List.mem_singleton.1 hm)

/-! ## Sorted sets -/

/-- A sorted set: members with their scores. -/
abbrev ZSet (α : Type*) := AList fun _ : α => ℚ

namespace ZSet

variable [DecidableEq α]

/-- `ZSCORE`. -/
def score (z : ZSet α) (x : α) : Option ℚ := z.lookup x

/-- `ZADD` of one member. -/
def add (z : ZSet α) (x : α) (s : ℚ) : ZSet α := z.insert x s

/-- `ZADD` of several members with one score. -/
def addAll (z : ZSet α) (s : ℚ) (xs : List α) : ZSet α := xs.foldl (fun z x => z.add x s) z

/-- `ZREM`. -/
def rem (z : ZSet α) (x : α) : ZSet α := z.erase x

theorem score_add (z : ZSet α) (x y : α) (s : ℚ) :
    (z.add x s).score y = if y = x then some s else z.score y := by
  unfold score add
  split
  · rename_i h; rw [h, AList.lookup_insert]
  · rename_i h; exact AList.lookup_insert_ne h

theorem score_rem (z : ZSet α) (x y : α) :
    (z.rem x).score y = if y = x then none else z.score y := by
  unfold score rem
  split
  · rename_i h; rw [h, AList.lookup_erase]
  · rename_i h; exact AList.lookup_erase_ne h

theorem score_addAll (s : ℚ) : ∀ (xs : List α) (z : ZSet α) (y : α),
    (z.addAll s xs).score y = if y ∈ xs then some s else z.score y
  | [], z, y => by simp [addAll]
  | x :: xs, z, y => by
    show (addAll (z.add x s) s xs).score y = _
    rw [score_addAll s xs, score_add]
    by_cases hy : y = x <;> simp [hy]

variable [LE α] [DecidableLE α]

/-- The order in which Redis lists entries: by score, ties by member. -/
def Before (p q : Sigma fun _ : α => ℚ) : Prop := p.2 < q.2 ∨ p.2 = q.2 ∧ p.1 ≤ q.1

instance : DecidableRel (Before (α := α)) := fun p q =>
  inferInstanceAs (Decidable (p.2 < q.2 ∨ p.2 = q.2 ∧ p.1 ≤ q.1))

/-- `ZRANGEBYSCORE key lo hi`. -/
def rangeByScore (z : ZSet α) (lo hi : ℚ) : List α :=
  ((z.entries.filter fun e => decide (lo ≤ e.2 ∧ e.2 ≤ hi)).insertionSort Before).map Sigma.fst

theorem mem_rangeByScore {z : ZSet α} {lo hi : ℚ} {x : α} :
    x ∈ z.rangeByScore lo hi ↔ ∃ s, z.score x = some s ∧ lo ≤ s ∧ s ≤ hi := by
  simp only [rangeByScore, List.mem_map, List.mem_insertionSort, List.mem_filter,
    decide_eq_true_eq]
  constructor
  · rintro ⟨⟨y, s⟩, ⟨hm, hs⟩, rfl⟩
    exact ⟨s, AList.mem_lookup_iff.2 hm, hs⟩
  · rintro ⟨s, hx, hs⟩
    exact ⟨⟨x, s⟩, ⟨AList.mem_lookup_iff.1 hx, hs⟩, rfl⟩

omit [DecidableEq α] in
theorem nodup_rangeByScore (z : ZSet α) (lo hi : ℚ) : (z.rangeByScore lo hi).Nodup := by
  have hk : (z.entries.map Sigma.fst).Nodup := z.nodupKeys
  have hp := List.perm_insertionSort Before
    (z.entries.filter fun e => decide (lo ≤ e.2 ∧ e.2 ≤ hi))
  exact (hp.map Sigma.fst).nodup_iff.2 (hk.sublist (List.filter_sublist.map _))

end ZSet

/-! ## Keys with an expiry -/

/-- A stored value and its deadline. -/
structure Cell (β : Type*) where
  value : β
  expireAt : Option ℕ := none
  deriving DecidableEq, Repr

/-- The keys of one kind. -/
abbrev TtlMap (κ β : Type*) := κ → Option (Cell β)

namespace TtlMap

variable [DecidableEq κ]

/-- `EXISTS`. -/
def exists? (m : TtlMap κ β) (k : κ) : Bool := (m k).isSome

/-- `GET`. -/
def get (m : TtlMap κ β) (k : κ) : Option β := (m k).map Cell.value

/-- `SET` without options: the expiry is dropped. -/
def set (m : TtlMap κ β) (k : κ) (v : β) : TtlMap κ β := Function.update m k (some ⟨v, none⟩)

/-- `SETEX` at time `now`. -/
def setex (m : TtlMap κ β) (now : ℕ) (k : κ) (secs : ℕ) (v : β) : TtlMap κ β :=
  Function.update m k (some ⟨v, some (now + 1000 * secs)⟩)

/-- `EXPIRE` at time `now`; no effect on a missing key. -/
def expire (m : TtlMap κ β) (now : ℕ) (k : κ) (secs : ℕ) : TtlMap κ β :=
  Function.update m k ((m k).map fun c => { c with expireAt := some (now + 1000 * secs) })

/-- `DEL`. -/
def del (m : TtlMap κ β) (k : κ) : TtlMap κ β := Function.update m k none

/-- `TTL` at time `now`. -/
def ttl (m : TtlMap κ β) (now : ℕ) (k : κ) : ℤ :=
  match m k with
  | none => -2
  | some ⟨_, none⟩ => -1
  | some ⟨_, some t⟩ => ((t - now + 500) / 1000 : ℕ)

/-- What is left at time `now`: a key is gone from its deadline on. -/
def evict (m : TtlMap κ β) (now : ℕ) : TtlMap κ β := fun k =>
  (m k).filter fun c => c.expireAt.all fun t => decide (now < t)

theorem set_apply (m : TtlMap κ β) (k k' : κ) (v : β) :
    m.set k v k' = if k' = k then some ⟨v, none⟩ else m k' := Function.update_apply ..

theorem setex_apply (m : TtlMap κ β) (now : ℕ) (k k' : κ) (secs : ℕ) (v : β) :
    m.setex now k secs v k' = if k' = k then some ⟨v, some (now + 1000 * secs)⟩ else m k' :=
  Function.update_apply ..

theorem del_apply (m : TtlMap κ β) (k k' : κ) : m.del k k' = if k' = k then none else m k' :=
  Function.update_apply ..

theorem expire_apply (m : TtlMap κ β) (now : ℕ) (k k' : κ) (secs : ℕ) :
    m.expire now k secs k' =
      if k' = k then (m k).map fun c => { c with expireAt := some (now + 1000 * secs) }
      else m k' := Function.update_apply ..

/-- `EXPIRE` changes no value. -/
@[simp] theorem get_expire (m : TtlMap κ β) (now : ℕ) (k k' : κ) (secs : ℕ) :
    (m.expire now k secs).get k' = m.get k' := by
  simp only [get, expire_apply]
  split
  · rename_i h; subst h; cases m k' <;> rfl
  · rfl

theorem get_set (m : TtlMap κ β) (k k' : κ) (v : β) :
    (m.set k v).get k' = if k' = k then some v else m.get k' := by
  simp only [get, set_apply]; split <;> rfl

theorem get_setex (m : TtlMap κ β) (now : ℕ) (k k' : κ) (secs : ℕ) (v : β) :
    (m.setex now k secs v).get k' = if k' = k then some v else m.get k' := by
  simp only [get, setex_apply]; split <;> rfl

theorem get_del (m : TtlMap κ β) (k k' : κ) :
    (m.del k).get k' = if k' = k then none else m.get k' := by
  simp only [get, del_apply]; split <;> rfl

omit [DecidableEq κ] in
/-- What survives an eviction was there. -/
theorem get_evict {m : TtlMap κ β} {now : ℕ} {k : κ} {v : β} (h : (m.evict now).get k = some v) :
    m.get k = some v := by
  simp only [get, evict, Option.map_eq_some_iff] at h ⊢
  obtain ⟨c, hc, rfl⟩ := h
  exact ⟨c, (Option.filter_eq_some_iff.1 hc).1, rfl⟩

omit [DecidableEq κ] in
/-- An eviction at a later time does it all. -/
theorem evict_evict (m : TtlMap κ β) {now now' : ℕ} (h : now ≤ now') :
    (m.evict now).evict now' = m.evict now' := by
  funext k
  simp only [evict, Option.filter_filter]
  congr 1
  funext c
  cases c.expireAt with
  | none => rfl
  | some t =>
    simp only [Option.all_some, ← Bool.decide_and, decide_eq_decide]
    omega

/-- An eviction after a change of one key. -/
theorem evict_update (m : TtlMap κ β) (now : ℕ) (k : κ) (o : Option (Cell β)) :
    evict (Function.update m k o) now =
      Function.update (m.evict now) k
        (o.filter fun c => c.expireAt.all fun t => decide (now < t)) := by
  funext k'
  simp only [evict, Function.update_apply]
  split <;> rfl

end TtlMap

end Redis
