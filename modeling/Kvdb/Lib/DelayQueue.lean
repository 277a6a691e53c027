import Mathlib.Tactic.NormNum
import Kvdb.Lib.Redis

/-!
# A delayed work queue over two lists and a sorted set

`DelayQueue ι`: items waiting for a server (`queued`), items being served (`active`) and the score
of every unfinished item (`incomplete`): a score in `[1, now]` is due, a lower one says that the
item needs no promotion. `Op` lists what an atomic step of a client can do to such a queue, `apply`
does it with the Redis commands.

* `Single`: every item is listed once, and no listed item is promotable. Kept by exactly the
  operations that are `Fresh` (`Single.apply`, `Op.Fresh.of_single`): an addition meets no listed
  copy of its item, and a requeued item is not promotable at once.
* `Holds y`: `y` waits, is served or will be promoted. Kept by every operation that `Keeps y`
  (`Holds.apply`).
* `Scored y`: `y` has a score. Kept by every operation that `Spares y` (`Scored.apply`).
* `Waiting y s`, `Running y`: `y` has a score and is not listed, or is listed once. An operation that
  `Avoids y` keeps them (`apply_of_avoids`); `add`, `promote` and `drop` lead from one to the next.
* `Ready y`, `Served y`: `y` is in line or waits for a time that comes, or is being served. Operations
  on other items keep them (`Ready.apply`, `Served.apply`).
* `Clear y`: `y` neither waits nor has a score; `Gone y`: nor is it served. Both are kept by every
  operation that `Omits y` (`Clear.apply`, `Gone.apply`).
-/

namespace Lib

open Redis

/-- Two lists and a sorted set. -/
structure DelayQueue (ι : Type*) where
  queued : List ι := []
  active : List ι := []
  incomplete : ZSet ι := ∅

namespace DelayQueue

variable {ι : Type*}

/-! ## The commands -/

def rpush (q : DelayQueue ι) (xs : List ι) : DelayQueue ι := { q with queued := q.queued ++ xs }

def lpush (q : DelayQueue ι) (x : ι) : DelayQueue ι := { q with queued := push x .left q.queued }

/-- `LMOVE queued active src dst`; nothing on an empty list. -/
def lmove (q : DelayQueue ι) (src dst : Side) : DelayQueue ι :=
  match move src dst q.queued q.active with
  | some (_, l, m) => { q with queued := l, active := m }
  | none => q

/-- `RPOPLPUSH queued active`. -/
def rpoplpush (q : DelayQueue ι) : DelayQueue ι := q.lmove .right .left

/-- A move from the right of the waiting items to the left of the served ones. -/
theorem lmove_right_left (q : DelayQueue ι) :
    (q.queued = [] ∧ q.lmove .right .left = q) ∨
      ∃ l x, q.queued = l ++ [x] ∧
        q.lmove .right .left = { q with queued := l, active := x :: q.active } := by
  unfold lmove move
  cases h : pop .right q.queued with
  | none =>
    refine .inl ⟨?_, rfl⟩
    simpa [pop] using h
  | some p => exact .inr ⟨p.2, p.1, pop_right_eq_some.1 h, rfl⟩

/-- A move keeps the listed items and the scores. -/
theorem lmove_perm (q : DelayQueue ι) (src dst : Side) :
    ((q.lmove src dst).queued ++ (q.lmove src dst).active).Perm (q.queued ++ q.active) ∧
      (q.lmove src dst).incomplete = q.incomplete := by
  unfold lmove move
  cases hp : pop src q.queued with
  | none => exact ⟨.refl _, rfl⟩
  | some p =>
    obtain ⟨x, l⟩ := p
    refine ⟨?_, rfl⟩
    have hpush : (push x dst q.active).Perm (x :: q.active) := by
      cases dst with
      | left => exact .refl _
      | right => exact List.perm_append_singleton x q.active
    have hpop : q.queued.Perm (x :: l) := by
      cases src with
      | left =>
        cases hq : q.queued with
        | nil => rw [hq] at hp; cases hp
        | cons z m => rw [hq] at hp; cases hp; exact .refl _
      | right =>
        rw [pop_right_eq_some.1 hp]
        exact List.perm_append_singleton x l
    calc (l ++ push x dst q.active).Perm (l ++ x :: q.active) := hpush.append_left l
      _ |>.Perm (x :: (l ++ q.active)) := List.perm_middle
      _ |>.Perm (q.queued ++ q.active) := (hpop.append_right q.active).symm

variable [DecidableEq ι]

def lremQueued (q : DelayQueue ι) (n : ℕ) (x : ι) : DelayQueue ι :=
  { q with queued := lrem n x q.queued }

def lremActive (q : DelayQueue ι) (n : ℕ) (x : ι) : DelayQueue ι :=
  { q with active := lrem n x q.active }

def zadd (q : DelayQueue ι) (x : ι) (s : ℚ) : DelayQueue ι :=
  { q with incomplete := q.incomplete.add x s }

def zaddAll (q : DelayQueue ι) (s : ℚ) (xs : List ι) : DelayQueue ι :=
  { q with incomplete := q.incomplete.addAll s xs }

def zrem (q : DelayQueue ι) (x : ι) : DelayQueue ι := { q with incomplete := q.incomplete.rem x }

/-! ## Promotable items -/

/-- Some time promotes `x`. -/
def Promotable (q : DelayQueue ι) (x : ι) : Prop := ∃ s, q.incomplete.score x = some s ∧ 1 ≤ s

/-- `x` has a score. -/
def Scored (q : DelayQueue ι) (x : ι) : Prop := ∃ s, q.incomplete.score x = some s

variable {q q' : DelayQueue ι} {x y : ι} {s : ℚ}

theorem promotable_congr (h : q'.incomplete.score x = q.incomplete.score x) :
    q'.Promotable x ↔ q.Promotable x := by simp only [Promotable, h]

theorem promotable_of_zrem (h : (q.zrem x).Promotable y) : q.Promotable y := by
  obtain ⟨s, hs, h1⟩ := h
  simp only [zrem, ZSet.score_rem] at hs
  split at hs
  · cases hs
  · exact ⟨s, hs, h1⟩

theorem promotable_zrem (h : y ≠ x) : (q.zrem x).Promotable y ↔ q.Promotable y :=
  promotable_congr (by simp [zrem, ZSet.score_rem, h])

/-- A new score changes no other item. -/
theorem promotable_zadd_ne (h : y ≠ x) : (q.zadd x s).Promotable y ↔ q.Promotable y :=
  promotable_congr (by simp [zadd, ZSet.score_add, h])

theorem promotable_zadd_self : (q.zadd x s).Promotable x ↔ 1 ≤ s := by
  simp [Promotable, zadd, ZSet.score_add]

theorem Scored.zadd (h : q.Scored y) (x : ι) (s : ℚ) : (q.zadd x s).Scored y := by
  obtain ⟨t, ht⟩ := h
  by_cases hy : y = x
  · exact ⟨s, by simp [DelayQueue.zadd, ZSet.score_add, hy]⟩
  · exact ⟨t, by simp [DelayQueue.zadd, ZSet.score_add, hy, ht]⟩

theorem scored_zadd_self : (q.zadd x s).Scored x := ⟨s, by simp [DelayQueue.zadd, ZSet.score_add]⟩

theorem scored_zrem (h : y ≠ x) : (q.zrem x).Scored y ↔ q.Scored y := by
  simp [Scored, zrem, ZSet.score_rem, h]

/-! ## Operations -/

/-- What one atomic step of a client does to the queue. -/
inductive Op (ι : Type*)
  /-- Nothing. -/
  | keep
  /-- A new item with its score; the score 0 also puts it in line. -/
  | add (x : ι) (s : ℚ)
  /-- The due items get the score 0 and are put in line. -/
  | promote (now : ℚ)
  /-- The item at one end of the line is taken up. -/
  | serve (src dst : Side)
  /-- One served copy and the score are dropped. -/
  | drop (x : ι)
  /-- All copies in line and the score are dropped. -/
  | cancel (x : ι)
  /-- All served copies are dropped. -/
  | release (x : ι)
  /-- All served copies and the score are dropped. -/
  | purge (x : ι)
  /-- One copy of each list is dropped, the item gets a score. -/
  | delay (x : ι) (s : ℚ)
  /-- One copy of each list is dropped, the item gets a score and is put in line. -/
  | requeue (x : ι) (s : ℚ)
  /-- One served copy is dropped, the item is put at the head of the line with a new score. -/
  | restore (x : ι) (s : ℚ)

section
variable [LE ι] [DecidableLE ι]

/-- The items with a score in `[1, now]`. -/
def due (q : DelayQueue ι) (now : ℚ) : List ι := q.incomplete.rangeByScore 1 now

/-- The effect of an operation. -/
def apply (q : DelayQueue ι) : Op ι → DelayQueue ι
  | .keep => q
  | .add x s => if s = 0 then (q.zadd x s).rpush [x] else q.zadd x s
  | .promote now => (q.zaddAll 0 (q.due now)).rpush (q.due now)
  | .serve src dst => q.lmove src dst
  | .drop x => (q.lremActive 1 x).zrem x
  | .cancel x => (q.lremQueued 0 x).zrem x
  | .release x => q.lremActive 0 x
  | .purge x => (q.lremActive 0 x).zrem x
  | .delay x s => ((q.lremActive 1 x).lremQueued 1 x).zadd x s
  | .requeue x s => (((q.lremActive 1 x).lremQueued 1 x).zadd x s).rpush [x]
  | .restore x s => (((q.lremActive 1 x).lpush x).zrem x).zadd x s

theorem mem_due {now : ℚ} :
    x ∈ q.due now ↔ ∃ s, q.incomplete.score x = some s ∧ 1 ≤ s ∧ s ≤ now :=
  ZSet.mem_rangeByScore

theorem promotable_of_due {now : ℚ} (h : x ∈ q.due now) : q.Promotable x := by
  obtain ⟨s, hs, h1, -⟩ := mem_due.1 h
  exact ⟨s, hs, h1⟩

/-- The scores after a promotion: the due items have the score 0. -/
theorem score_promote (q : DelayQueue ι) (now : ℚ) (x : ι) :
    (q.apply (.promote now)).incomplete.score x =
      if x ∈ q.due now then some 0 else q.incomplete.score x :=
  ZSet.score_addAll ..

/-- A promotion leaves exactly the items that were not due. -/
theorem promotable_promote {now : ℚ} :
    (q.apply (.promote now)).Promotable x ↔ q.Promotable x ∧ x ∉ q.due now := by
  by_cases hd : x ∈ q.due now
  · simp only [Promotable, score_promote, hd, ↓reduceIte, Option.some.injEq, not_true_eq_false,
      and_false, iff_false, not_exists, not_and]
    rintro s rfl
    norm_num
  · simp [Promotable, score_promote, hd]

omit [DecidableEq ι] in
theorem nodup_due (q : DelayQueue ι) (now : ℚ) : (q.due now).Nodup :=
  ZSet.nodup_rangeByScore _ _ _

end

/-! ## One copy of every item -/

/-- Every item is listed at most once, and no listed item is promotable. -/
structure Single (q : DelayQueue ι) : Prop where
  nodup : (q.queued ++ q.active).Nodup
  settled : ∀ x ∈ q.queued ++ q.active, ¬ q.Promotable x

/-- The operation adds no listed item (unless with a score that is never due) and requeues no
promotable one. -/
def Op.Fresh (q : DelayQueue ι) : Op ι → Prop
  | .add x s => x ∉ q.queued ++ q.active ∨ s ≠ 0 ∧ s < 1
  | .requeue _ s => s < 1
  | .restore x s => x ∉ q.queued ∧ s < 1
  | _ => True

theorem single_empty : Single ({} : DelayQueue ι) := ⟨List.nodup_nil, by simp⟩

/-- Fewer listed items and no new promotable ones. -/
theorem Single.shrink (h : q.Single) (hl : (q'.queued ++ q'.active).Subperm (q.queued ++ q.active))
    (hs : ∀ x, q'.Promotable x → q.Promotable x) : q'.Single := by
  obtain ⟨l, hp, hsub⟩ := hl
  exact ⟨hp.nodup_iff.1 (h.nodup.sublist hsub),
    fun x hx hpx => h.settled x (hsub.subset (hp.mem_iff.2 hx)) (hs x hpx)⟩

theorem subperm_lremQueued (q : DelayQueue ι) (n : ℕ) (x : ι) :
    (lrem n x q.queued ++ q.active).Subperm (q.queued ++ q.active) :=
  ((lrem_sublist n x q.queued).append_right q.active).subperm

theorem subperm_lremActive (q : DelayQueue ι) (n : ℕ) (x : ι) :
    (q.queued ++ lrem n x q.active).Subperm (q.queued ++ q.active) :=
  ((lrem_sublist n x q.active).append_left q.queued).subperm

/-- After `LREM … 1 x` on both lists, a single copy is gone. -/
theorem Single.lrem_both (h : q.Single) (x : ι) :
    x ∉ lrem 1 x q.queued ++ lrem 1 x q.active := by
  obtain ⟨hq, ha, -⟩ := List.nodup_append.1 h.nodup
  rw [List.mem_append, not_or]
  exact ⟨not_mem_lrem hq, not_mem_lrem ha⟩

/-- A new score for an item that is not listed, or one that is never due. -/
theorem Single.zadd (h : q.Single) (hx : x ∉ q.queued ++ q.active ∨ s < 1) :
    (q.zadd x s).Single := by
  refine ⟨h.nodup, fun y hy => ?_⟩
  by_cases hne : y = x
  · subst hne
    rw [promotable_zadd_self]
    exact not_le.2 (hx.resolve_left fun hn => hn hy)
  · rw [promotable_zadd_ne hne]
    exact h.settled y hy

/-- Listing a fresh, settled item. -/
theorem Single.list_fresh (h : q.Single) (hx : x ∉ q.queued ++ q.active) (hp : ¬ q.Promotable x)
    (hl : (q'.queued ++ q'.active).Perm (x :: (q.queued ++ q.active)))
    (hs : q'.incomplete = q.incomplete) : q'.Single := by
  refine ⟨hl.nodup_iff.2 (List.nodup_cons.2 ⟨hx, h.nodup⟩), fun y hy => ?_⟩
  rw [promotable_congr (q := q) (by rw [hs])]
  rcases List.mem_cons.1 (hl.mem_iff.1 hy) with rfl | hy
  · exact hp
  · exact h.settled y hy

omit [DecidableEq ι] in
theorem rpush_perm (q : DelayQueue ι) (x : ι) :
    ((q.rpush [x]).queued ++ (q.rpush [x]).active).Perm (x :: (q.queued ++ q.active)) := by
  show (q.queued ++ [x] ++ q.active).Perm _
  rw [List.append_assoc]
  exact List.perm_middle

section
variable [LE ι] [DecidableLE ι]

/-- A promotion lists the due items, none of which was listed. -/
theorem Single.promote (h : q.Single) (now : ℚ) : (q.apply (.promote now)).Single := by
  have hperm : (q.queued ++ q.due now ++ q.active).Perm (q.due now ++ (q.queued ++ q.active)) := by
    rw [← List.append_assoc]
    exact List.perm_append_comm.append_right _
  refine ⟨hperm.nodup_iff.2 (List.nodup_append.2 ⟨nodup_due q now, h.nodup, ?_⟩), fun x hx => ?_⟩
  · rintro x hx _ hl rfl
    exact h.settled x hl (promotable_of_due hx)
  · rw [promotable_promote]
    rintro ⟨hp, hnd⟩
    exact h.settled x ((List.mem_append.1 (hperm.mem_iff.1 hx)).resolve_left hnd) hp

/-- **`Single` is kept by every fresh operation.** -/
theorem Single.apply (h : q.Single) {op : Op ι} (hop : op.Fresh q) : (q.apply op).Single := by
  have hboth : ∀ x, ((q.lremActive 1 x).lremQueued 1 x).Single := fun x =>
    h.shrink (((q.lremActive 1 x).subperm_lremQueued 1 x).trans (q.subperm_lremActive 1 x))
      fun _ hy => hy
  have hdelay : ∀ x s, (((q.lremActive 1 x).lremQueued 1 x).zadd x s).Single := fun x _ =>
    (hboth x).zadd (.inl (h.lrem_both x))
  cases op with
  | keep => exact h
  | add x s =>
    simp only [DelayQueue.apply]
    split
    · rename_i hs
      have hx : x ∉ q.queued ++ q.active := hop.resolve_right fun hn => hn.1 hs
      refine (h.zadd (.inl hx)).list_fresh hx ?_ (rpush_perm _ x) rfl
      rw [promotable_zadd_self, hs]
      norm_num
    · exact h.zadd (hop.imp_right And.right)
  | promote now => exact h.promote now
  | serve src dst =>
    obtain ⟨hl, hs⟩ := q.lmove_perm src dst
    exact h.shrink hl.subperm fun x => (promotable_congr (by rw [DelayQueue.apply, hs])).1
  | drop x => exact h.shrink (q.subperm_lremActive 1 x) fun _ => promotable_of_zrem
  | cancel x => exact h.shrink (q.subperm_lremQueued 0 x) fun _ => promotable_of_zrem
  | release x => exact h.shrink (q.subperm_lremActive 0 x) fun _ hy => hy
  | purge x => exact h.shrink (q.subperm_lremActive 0 x) fun _ => promotable_of_zrem
  | delay x s => exact hdelay x s
  | requeue x s =>
    refine (hdelay x s).list_fresh (h.lrem_both x) ?_ (rpush_perm _ x) rfl
    rw [promotable_zadd_self]
    exact not_le.2 hop
  | restore x s =>
    have hx : x ∉ q.queued ++ lrem 1 x q.active := by
      rw [List.mem_append, not_or]
      exact ⟨hop.1, not_mem_lrem (List.nodup_append.1 h.nodup).2.1⟩
    have hdrop : ((q.lremActive 1 x).zrem x).Single :=
      h.shrink (q.subperm_lremActive 1 x) fun _ => promotable_of_zrem
    refine (hdrop.zadd (.inl hx)).list_fresh hx ?_ (.refl _) rfl
    rw [promotable_zadd_self]
    exact not_le.2 hop.2

/-- The condition is exact: any other operation breaks `Single` at once. -/
theorem Op.Fresh.of_single {op : Op ι} (h : (q.apply op).Single) : op.Fresh q := by
  cases op with
  | add x s =>
    simp only [DelayQueue.apply] at h
    split at h
    · have hnd := (rpush_perm (q.zadd x s) x).nodup_iff.1 h.nodup
      exact .inl (List.nodup_cons.1 hnd).1
    · rename_i hs
      by_cases hx : x ∈ q.queued ++ q.active
      · exact .inr ⟨hs, not_le.1 fun h1 => h.settled x hx (promotable_zadd_self.2 h1)⟩
      · exact .inl hx
  | requeue x s =>
    have hx : x ∈ (q.apply (.requeue x s)).queued := by simp [DelayQueue.apply, rpush]
    exact not_le.1 fun h1 => h.settled x (List.mem_append_left _ hx) (promotable_zadd_self.2 h1)
  | restore x s =>
    have hnd : (x :: (q.queued ++ lrem 1 x q.active)).Nodup := h.nodup
    refine ⟨fun hx => (List.nodup_cons.1 hnd).1 (List.mem_append_left _ hx), not_le.1 fun h1 => ?_⟩
    have hx : x ∈ (q.apply (.restore x s)).queued := List.mem_cons_self
    exact h.settled x (List.mem_append_left _ hx) (promotable_zadd_self.2 h1)
  | _ => trivial

end

/-! ## Nothing gets lost -/

/-- `y` waits, is served or will be promoted. -/
def Holds (q : DelayQueue ι) (y : ι) : Prop := y ∈ q.queued ∨ y ∈ q.active ∨ q.Promotable y

/-- The operation leaves `y` a place: a score that is promotable (or that comes with a place in
line), and no removal of the last copy. -/
def Op.Keeps (q : DelayQueue ι) (y : ι) : Op ι → Prop
  | .add x s => y = x → s = 0 ∨ 1 ≤ s ∨ y ∈ q.queued ++ q.active
  | .drop x => y = x → y ∈ q.queued ∨ 1 < q.active.count y
  | .cancel x | .release x | .purge x => y ≠ x
  | .delay x s => y = x → 1 ≤ s
  | _ => True

/-- Nothing that holds `y` is taken. -/
theorem Holds.mono (h : q.Holds y) (hq : y ∈ q.queued → y ∈ q'.queued)
    (ha : y ∈ q.active → y ∈ q'.active) (hp : q.Promotable y → q'.Promotable y) : q'.Holds y :=
  h.imp hq (.imp ha hp)

section
variable [LE ι] [DecidableLE ι]

/-- An added item has a place, with a score that is promotable or puts it in line. -/
theorem holds_add (h : s = 0 ∨ 1 ≤ s ∨ x ∈ q.queued ++ q.active) :
    (q.apply (.add x s)).Holds x := by
  simp only [DelayQueue.apply]
  split
  · exact .inl (by simp [rpush])
  · rename_i hs
    rcases h.resolve_left hs with h1 | hm
    · exact .inr (.inr (promotable_zadd_self.2 h1))
    · exact or_assoc.1 (.inl (List.mem_append.1 hm))

/-- **`Holds` is kept by every operation that keeps the item.** -/
theorem Holds.apply (h : q.Holds y) {op : Op ι} (hop : op.Keeps q y) : (q.apply op).Holds y := by
  cases op with
  | keep => exact h
  | add x s =>
    by_cases hy : y = x
    · subst hy
      exact holds_add (hop rfl)
    · simp only [DelayQueue.apply]
      split
      · exact h.mono (List.mem_append_left _) id (promotable_zadd_ne hy).2
      · exact h.mono id id (promotable_zadd_ne hy).2
  | promote now =>
    by_cases hd : y ∈ q.due now
    · exact .inl (List.mem_append_right _ hd)
    · exact h.mono (List.mem_append_left _) id fun hp => promotable_promote.2 ⟨hp, hd⟩
  | serve src dst =>
    obtain ⟨hl, hs⟩ := q.lmove_perm src dst
    rcases or_assoc.2 h with h | h
    · exact or_assoc.1 (.inl (List.mem_append.1 (hl.mem_iff.2 (List.mem_append.2 h))))
    · exact .inr (.inr ((promotable_congr (by rw [DelayQueue.apply, hs])).2 h))
  | drop x =>
    by_cases hy : y = x
    · subst hy
      refine (hop rfl).imp id fun hc => .inl ?_
      have hpos : 0 < (q.active.erase y).count y := by rw [List.count_erase_self]; omega
      rw [← lrem_one] at hpos
      exact List.count_pos_iff.1 hpos
    · exact h.mono id (mem_lrem_of_ne 1 hy) (promotable_zrem hy).2
  | cancel x => exact h.mono (mem_lrem_of_ne 0 hop) id (promotable_zrem hop).2
  | release x => exact h.mono id (mem_lrem_of_ne 0 hop) id
  | purge x => exact h.mono id (mem_lrem_of_ne 0 hop) (promotable_zrem hop).2
  | delay x s =>
    by_cases hy : y = x
    · subst hy; exact .inr (.inr (promotable_zadd_self.2 (hop rfl)))
    · exact h.mono (mem_lrem_of_ne 1 hy) (mem_lrem_of_ne 1 hy) (promotable_zadd_ne hy).2
  | requeue x s =>
    by_cases hy : y = x
    · exact .inl (by simp [DelayQueue.apply, rpush, hy])
    · exact h.mono (fun hq => List.mem_append_left _ (mem_lrem_of_ne 1 hy hq))
        (mem_lrem_of_ne 1 hy) (promotable_zadd_ne hy).2
  | restore x s =>
    by_cases hy : y = x
    · exact .inl (by simp [DelayQueue.apply, zadd, zrem, lpush, push, hy])
    · exact h.mono (List.mem_cons_of_mem _) (mem_lrem_of_ne 1 hy)
        fun hp => (promotable_zadd_ne hy).2 ((promotable_zrem hy).2 hp)

end

/-! ## Membership in the sorted set -/

/-- The operation takes no score from `y`. -/
def Op.Spares (y : ι) : Op ι → Prop
  | .drop x | .cancel x | .purge x => y ≠ x
  | _ => True

section
variable [LE ι] [DecidableLE ι]

/-- **A score stays until an operation takes it.** -/
theorem Scored.apply (h : q.Scored y) {op : Op ι} (hop : op.Spares y) : (q.apply op).Scored y := by
  cases op with
  | keep | release => exact h
  | add x s => simp only [DelayQueue.apply]; split <;> exact h.zadd x s
  | promote now =>
    obtain ⟨s, hs⟩ := h
    by_cases hd : y ∈ q.due now
    · exact ⟨0, by rw [score_promote, if_pos hd]⟩
    · exact ⟨s, by rw [score_promote, if_neg hd, hs]⟩
  | serve src dst => simpa only [Scored, DelayQueue.apply, (q.lmove_perm src dst).2] using h
  | drop x | cancel x | purge x => exact (scored_zrem hop).2 h
  | delay x s | requeue x s => exact Scored.zadd (q := (q.lremActive 1 x).lremQueued 1 x) h x s
  | restore x s =>
    by_cases hy : y = x
    · rw [hy]; exact scored_zadd_self
    · exact Scored.zadd ((scored_zrem (q := (q.lremActive 1 x).lpush x) hy).2 h) x s

end

/-! ## What is gone stays gone -/

/-- `y` is not in line and has no score: no promotion brings it back. -/
structure Clear (q : DelayQueue ι) (y : ι) : Prop where
  queued : y ∉ q.queued
  score : q.incomplete.score y = none

/-- The operation is no addition of `y`. -/
def Op.Omits (y : ι) : Op ι → Prop
  | .add x _ | .delay x _ | .requeue x _ | .restore x _ => y ≠ x
  | _ => True

theorem Clear.zadd (h : q.Clear y) (hy : y ≠ x) (s : ℚ) : (q.zadd x s).Clear y :=
  ⟨h.queued, by simp [DelayQueue.zadd, ZSet.score_add, hy, h.score]⟩

theorem Clear.zrem (h : q.Clear y) (x : ι) : (q.zrem x).Clear y := by
  refine ⟨h.queued, ?_⟩
  simp only [DelayQueue.zrem, ZSet.score_rem]
  split
  · rfl
  · exact h.score

theorem Clear.lremActive (h : q.Clear y) (n : ℕ) (x : ι) : (q.lremActive n x).Clear y :=
  ⟨h.queued, h.score⟩

theorem Clear.lremQueued (h : q.Clear y) (n : ℕ) (x : ι) : (q.lremQueued n x).Clear y :=
  ⟨fun hm => h.queued ((lrem_sublist n x q.queued).subset hm), h.score⟩

theorem Clear.rpush (h : q.Clear y) {xs : List ι} (hy : y ∉ xs) : (q.rpush xs).Clear y :=
  ⟨fun hm => (List.mem_append.1 hm).elim h.queued hy, h.score⟩

/-- Both commands of a cancellation, on the item itself. -/
theorem clear_cancel (q : DelayQueue ι) (y : ι) : ((q.lremQueued 0 y).zrem y).Clear y :=
  ⟨not_mem_lrem_zero y q.queued, by simp [DelayQueue.zrem, ZSet.score_rem]⟩

section
variable [LE ι] [DecidableLE ι]

theorem Clear.not_due (h : q.Clear y) (now : ℚ) : y ∉ q.due now := by
  intro hd
  obtain ⟨s, hs, -⟩ := mem_due.1 hd
  rw [h.score] at hs
  cases hs

/-- **`Clear` is kept by every operation that omits the item.** -/
theorem Clear.apply (h : q.Clear y) {op : Op ι} (hop : op.Omits y) : (q.apply op).Clear y := by
  cases op with
  | keep => exact h
  | add x s =>
    simp only [DelayQueue.apply]
    split
    · exact (h.zadd hop s).rpush fun hm => hop (List.mem_singleton.1 hm)
    · exact h.zadd hop s
  | promote now =>
    have hd := h.not_due now
    refine ⟨fun hm => (List.mem_append.1 hm).elim h.queued hd, ?_⟩
    rw [score_promote, if_neg hd, h.score]
  | serve src dst =>
    refine ⟨fun hm => h.queued ?_, by rw [DelayQueue.apply, (q.lmove_perm src dst).2, h.score]⟩
    unfold DelayQueue.apply lmove move at hm
    cases hp : pop src q.queued with
    | none => simpa [hp] using hm
    | some p => exact mem_of_mem_pop hp (by simpa [hp] using hm)
  | drop x => exact (h.lremActive 1 x).zrem x
  | cancel x => exact (h.lremQueued 0 x).zrem x
  | release x => exact h.lremActive 0 x
  | purge x => exact (h.lremActive 0 x).zrem x
  | delay x s => exact ((h.lremActive 1 x).lremQueued 1 x).zadd hop s
  | requeue x s =>
    exact (((h.lremActive 1 x).lremQueued 1 x).zadd hop s).rpush fun hm =>
      hop (List.mem_singleton.1 hm)
  | restore x s =>
    have hpush : ((q.lremActive 1 x).lpush x).Clear y :=
      ⟨fun hm => (List.mem_cons.1 hm).elim hop h.queued, h.score⟩
    exact (hpush.zrem x).zadd hop s

/-- `y` is clear and not served. -/
structure Gone (q : DelayQueue ι) (y : ι) : Prop extends q.Clear y where
  active : y ∉ q.active

/-- Nor does such an operation serve the item. -/
theorem Gone.apply (h : q.Gone y) {op : Op ι} (hop : op.Omits y) : (q.apply op).Gone y := by
  refine ⟨h.toClear.apply hop, ?_⟩
  have ha := h.active
  cases op with
  | keep | promote | cancel => exact ha
  | add x s => simp only [DelayQueue.apply]; split <;> exact ha
  | serve src dst =>
    have hl : y ∉ q.queued ++ q.active := by
      rw [List.mem_append, not_or]
      exact ⟨h.queued, ha⟩
    intro hm
    exact hl ((q.lmove_perm src dst).1.mem_iff.1 (List.mem_append_right _ hm))
  | drop x | delay x | requeue x | restore x =>
    exact fun hm => ha ((lrem_sublist 1 x q.active).subset hm)
  | release x | purge x => exact fun hm => ha ((lrem_sublist 0 x q.active).subset hm)

/-- An item that is served once and does not wait is gone when it is dropped. -/
theorem gone_drop (hq : y ∉ q.queued) (ha : q.active.count y ≤ 1) : (q.apply (.drop y)).Gone y where
  queued := hq
  score := by simp [DelayQueue.apply, DelayQueue.zrem, ZSet.score_rem]
  active := by
    have hc : (q.active.erase y).count y = 0 := by
      rw [List.count_erase_self]
      omega
    simpa [DelayQueue.apply, DelayQueue.zrem, DelayQueue.lremActive] using List.count_eq_zero.1 hc

end

/-! ## The life of one item -/

/-- The copies of `y` in line or being served. -/
def copies (q : DelayQueue ι) (y : ι) : ℕ := (q.queued ++ q.active).count y

/-- `y` has the score `s` and is not listed. -/
structure Waiting (q : DelayQueue ι) (y : ι) (s : ℚ) : Prop where
  unlisted : q.copies y = 0
  score : q.incomplete.score y = some s

/-- `y` is listed once, with the score 0. -/
structure Running (q : DelayQueue ι) (y : ι) : Prop where
  once : q.copies y = 1
  score : q.incomplete.score y = some 0

theorem gone_iff : q.Gone y ↔ q.copies y = 0 ∧ q.incomplete.score y = none := by
  simp only [copies, List.count_eq_zero, List.mem_append, not_or]
  constructor
  · intro h
    exact ⟨⟨h.queued, h.active⟩, h.score⟩
  · intro h
    obtain ⟨⟨hq, ha⟩, hs⟩ := h
    exact ⟨⟨hq, hs⟩, ha⟩

instance (q : DelayQueue ι) (y : ι) : Decidable (q.Gone y) := decidable_of_iff _ gone_iff.symm

section
variable [LE ι] [DecidableLE ι]

/-- The operation is about another item, or only takes `y` up. -/
def Op.Avoids (q : DelayQueue ι) (y : ι) : Op ι → Prop
  | .keep | .serve .. => True
  | .promote now => y ∉ q.due now
  | .add x _ | .drop x | .cancel x | .release x | .purge x | .delay x _ | .requeue x _
  | .restore x _ => y ≠ x

omit [DecidableEq ι] in
theorem Op.Avoids.ite {p : Prop} [Decidable p] {op : Op ι} (h : p → op.Avoids q y) :
    (if p then op else .keep).Avoids q y := by
  split
  · exact h ‹_›
  · trivial

/-- What such an operation keeps: the copies and the score of `y`, and it puts none in line. -/
structure Same (q q' : DelayQueue ι) (y : ι) : Prop where
  copies : q'.copies y = q.copies y
  score : q'.incomplete.score y = q.incomplete.score y
  queued : q'.queued.count y ≤ q.queued.count y

omit [LE ι] [DecidableLE ι] in
theorem Same.of_counts (hq : q'.queued.count y = q.queued.count y)
    (ha : q'.active.count y = q.active.count y)
    (hs : q'.incomplete.score y = q.incomplete.score y) : q.Same q' y :=
  ⟨by simp only [DelayQueue.copies, List.count_append, hq, ha], hs, hq.le⟩

theorem same_apply {op : Op ι} (h : op.Avoids q y) : q.Same (q.apply op) y := by
  have hadd : ∀ {z : ZSet ι} {x s}, y ≠ x → (z.add x s).score y = z.score y := fun hy => by
    rw [ZSet.score_add, if_neg hy]
  have hrem : ∀ {z : ZSet ι} {x}, y ≠ x → (z.rem x).score y = z.score y := fun hy => by
    rw [ZSet.score_rem, if_neg hy]
  have hpush : ∀ {l : List ι} {x}, y ≠ x → (l ++ [x]).count y = l.count y := fun hy => by
    rw [List.count_append, List.count_singleton, if_neg (by simpa using hy.symm), Nat.add_zero]
  cases op with
  | keep => exact ⟨rfl, rfl, le_rfl⟩
  | add x s =>
    simp only [DelayQueue.apply]
    split
    · exact .of_counts (hpush h) rfl (hadd h)
    · exact .of_counts rfl rfl (hadd h)
  | promote now =>
    refine .of_counts ?_ rfl (by rw [score_promote, if_neg h])
    show (q.queued ++ q.due now).count y = _
    rw [List.count_append, List.count_eq_zero.2 h, Nat.add_zero]
  | serve src dst =>
    obtain ⟨hl, hs⟩ := q.lmove_perm src dst
    refine ⟨hl.count_eq y, by rw [DelayQueue.apply, hs], ?_⟩
    show (q.lmove src dst).queued.count y ≤ q.queued.count y
    unfold lmove move
    cases hp : pop src q.queued with
    | none => exact Nat.le_refl _
    | some p => exact (sublist_of_pop hp).count_le y
  | drop x => exact .of_counts rfl (count_lrem_ne h 1 _) (hrem h)
  | cancel x => exact .of_counts (count_lrem_ne h 0 _) rfl (hrem h)
  | release x => exact .of_counts rfl (count_lrem_ne h 0 _) rfl
  | purge x => exact .of_counts rfl (count_lrem_ne h 0 _) (hrem h)
  | delay x s => exact .of_counts (count_lrem_ne h 1 _) (count_lrem_ne h 1 _) (hadd h)
  | requeue x s =>
    exact .of_counts ((hpush h).trans (count_lrem_ne h 1 _)) (count_lrem_ne h 1 _) (hadd h)
  | restore x s =>
    exact .of_counts (List.count_cons_of_ne h.symm) (count_lrem_ne h 1 _)
      ((hadd h).trans (hrem h))

omit [LE ι] [DecidableLE ι] in
theorem Waiting.of_same (h : q.Waiting y s) (hs : q.Same q' y) : q'.Waiting y s :=
  ⟨hs.copies.trans h.unlisted, hs.score.trans h.score⟩

omit [LE ι] [DecidableLE ι] in
theorem Running.of_same (h : q.Running y) (hs : q.Same q' y) : q'.Running y :=
  ⟨hs.copies.trans h.once, hs.score.trans h.score⟩

omit [LE ι] [DecidableLE ι] in
theorem Gone.of_same (h : q.Gone y) (hs : q.Same q' y) : q'.Gone y := by
  obtain ⟨hc, hn⟩ := gone_iff.1 h
  exact gone_iff.2 ⟨hs.copies.trans hc, hs.score.trans hn⟩

/-- A new item with a time to come waits. -/
theorem waiting_add (h : q.Gone y) (hs : s ≠ 0) :
    (q.apply (.add y s)).Waiting y s ∧ (q.apply (.add y s)).queued = q.queued := by
  simp only [DelayQueue.apply, hs, ↓reduceIte]
  exact ⟨⟨(gone_iff.1 h).1, by simp [zadd, ZSet.score_add]⟩, rfl⟩

/-- A promotion takes a waiting item to the line. -/
theorem running_promote {now : ℚ} (h : q.Waiting y s) (hd : y ∈ q.due now) :
    (q.apply (.promote now)).Running y ∧
      (q.apply (.promote now)).queued.count y = q.queued.count y + 1 := by
  have hone : (q.due now).count y = 1 := List.count_eq_one_of_mem (nodup_due q now) hd
  have hcount := h.unlisted
  refine ⟨⟨?_, by rw [score_promote, if_pos hd]⟩, ?_⟩
  · show ((q.queued ++ q.due now) ++ q.active).count y = 1
    simp only [copies, List.count_append] at hcount ⊢
    omega
  · show (q.queued ++ q.due now).count y = _
    rw [List.count_append, hone]

/-- A running item that is served is gone when it is dropped. -/
theorem Running.drop (h : q.Running y) (ha : y ∈ q.active) : (q.apply (.drop y)).Gone y := by
  have hcount := h.once
  have hpos : 0 < q.active.count y := List.count_pos_iff.2 ha
  simp only [copies, List.count_append] at hcount
  refine gone_drop (fun hq => ?_) (by omega)
  have hpos' : 0 < q.queued.count y := List.count_pos_iff.2 hq
  omega

/-! ## On the way to a server -/

/-- `y` is in line, or waits for a time that comes. -/
def Ready (q : DelayQueue ι) (y : ι) : Prop :=
  (∃ s, 1 ≤ s ∧ q.Waiting y s) ∨ q.Running y ∧ y ∈ q.queued

/-- `y` is being served. -/
structure Served (q : DelayQueue ι) (y : ι) : Prop extends q.Running y where
  queued : y ∉ q.queued

omit [LE ι] [DecidableLE ι] in
theorem Ready.scored (h : q.Ready y) : q.Scored y := by
  rcases h with ⟨s, -, hw⟩ | ⟨hr, -⟩
  · exact ⟨s, hw.score⟩
  · exact ⟨0, hr.score⟩

omit [LE ι] [DecidableLE ι] in
theorem Ready.queued_or_promotable (h : q.Ready y) : y ∈ q.queued ∨ q.Promotable y := by
  rcases h with ⟨s, h1, hw⟩ | ⟨-, hq⟩
  · exact .inr ⟨s, hw.score, h1⟩
  · exact .inl hq

omit [LE ι] [DecidableLE ι] in
theorem Gone.not_scored (h : q.Gone y) : ¬ q.Scored y := by
  rintro ⟨s, hs⟩
  rw [h.score] at hs
  cases hs

omit [LE ι] [DecidableLE ι] in
theorem Served.active (h : q.Served y) : y ∈ q.active := by
  have hcount := h.once
  simp only [copies, List.count_append, List.count_eq_zero.2 h.queued] at hcount
  exact List.count_pos_iff.1 (by omega)

/-- The operation takes another item up than `y`, or none. -/
def Op.Leaves (q : DelayQueue ι) (y : ι) : Op ι → Prop
  | .serve src _ => ∀ x l, pop src q.queued = some (x, l) → x ≠ y
  | _ => True

/-- An operation about other items leaves `y` in line. -/
theorem mem_queued_apply {op : Op ι} (h : op.Avoids q y) (hl : op.Leaves q y) (hy : y ∈ q.queued) :
    y ∈ (q.apply op).queued := by
  cases op with
  | keep | drop | release | purge => exact hy
  | add x s =>
    simp only [DelayQueue.apply]
    split
    · exact List.mem_append_left _ hy
    · exact hy
  | promote now => exact List.mem_append_left _ hy
  | serve src dst =>
    show y ∈ (q.lmove src dst).queued
    unfold lmove move
    cases hp : pop src q.queued with
    | none => exact hy
    | some p => exact mem_of_pop_ne hp (hl p.1 p.2 hp).symm hy
  | cancel x => exact mem_lrem_of_ne 0 h hy
  | delay x s => exact mem_lrem_of_ne 1 h hy
  | requeue x s => exact List.mem_append_left _ (mem_lrem_of_ne 1 h hy)
  | restore x s => exact List.mem_cons_of_mem _ hy

theorem Ready.apply {op : Op ι} (h : q.Ready y) (ho : op.Avoids q y) (hl : op.Leaves q y) :
    (q.apply op).Ready y := by
  rcases h with ⟨s, h1, hw⟩ | ⟨hr, hq⟩
  · exact .inl ⟨s, h1, hw.of_same (same_apply ho)⟩
  · exact .inr ⟨hr.of_same (same_apply ho), mem_queued_apply ho hl hq⟩

theorem Served.apply {op : Op ι} (h : q.Served y) (ho : op.Avoids q y) : (q.apply op).Served y := by
  have hsame := same_apply ho
  refine ⟨h.toRunning.of_same hsame, List.count_eq_zero.1 ?_⟩
  have hle := hsame.queued
  rw [List.count_eq_zero.2 h.queued] at hle
  exact Nat.le_zero.1 hle

/-- Only an item that waits is due. -/
theorem Running.not_due (h : q.Running y) (now : ℚ) : y ∉ q.due now := by
  intro hd
  obtain ⟨s, hs, h1, -⟩ := mem_due.1 hd
  rw [h.score] at hs
  cases hs
  exact absurd h1 (by norm_num)

theorem Ready.promote (h : q.Ready y) (now : ℚ) : (q.apply (.promote now)).Ready y := by
  by_cases hd : y ∈ q.due now
  · rcases h with ⟨s, -, hw⟩ | ⟨hr, -⟩
    · exact .inr ⟨(running_promote hw hd).1, List.mem_append_right _ hd⟩
    · exact absurd hd (hr.not_due now)
  · exact h.apply hd trivial

/-- A new item without a time is in line. -/
theorem ready_add (h : q.Gone y) : (q.apply (.add y 0)).Ready y := by
  have hcopies := (gone_iff.1 h).1
  simp only [DelayQueue.apply, ↓reduceIte]
  refine .inr ⟨⟨?_, by simp [rpush, zadd, ZSet.score_add]⟩, by simp [rpush]⟩
  show ((q.queued ++ [y]) ++ q.active).count y = 1
  simp only [copies, List.count_append] at hcopies ⊢
  rw [List.count_singleton_self]
  omega

/-- The item that is taken up is served. -/
theorem Ready.serve (h : q.Ready y) (hy : q.queued.getLast? = some y) :
    (q.apply (.serve .right .left)).Served y := by
  have hmem : y ∈ q.queued := List.mem_of_getLast? hy
  rcases h with ⟨s, -, hw⟩ | ⟨hr, -⟩
  · exact absurd (List.mem_append_left _ hmem) (List.count_eq_zero.1 hw.unlisted)
  · refine ⟨hr.of_same (same_apply trivial), ?_⟩
    have hcount := hr.once
    rcases q.lmove_right_left with ⟨hnil, -⟩ | ⟨l, x, hq, hmove⟩
    · rw [hnil] at hy
      cases hy
    · rw [hq, List.getLast?_concat] at hy
      cases hy
      simp only [DelayQueue.apply, hmove]
      simp only [copies, hq, List.count_append, List.count_singleton_self] at hcount
      exact List.count_eq_zero.1 (by omega)

omit [LE ι] [DecidableLE ι] in
/-- A served item that is taken from both lists is in none. -/
theorem Served.copies_lrem (h : q.Served y) :
    ((q.lremActive 1 y).lremQueued 1 y).copies y = 0 := by
  have hcount := h.once
  simp only [copies, List.count_append, List.count_eq_zero.2 h.queued] at hcount
  simp only [copies, lremActive, lremQueued, lrem_one, List.count_append, List.count_erase_self,
    List.count_eq_zero.2 h.queued]
  omega

/-- A served item that gets a time waits for it. -/
theorem Served.delay (h : q.Served y) (hs : 1 ≤ s) : (q.apply (.delay y s)).Ready y :=
  .inl ⟨s, hs, h.copies_lrem, by simp [DelayQueue.apply, zadd, ZSet.score_add]⟩

/-- Without a time it is in line again. -/
theorem Served.requeue (h : q.Served y) : (q.apply (.requeue y 0)).Ready y := by
  have hcopies := h.copies_lrem
  refine .inr ⟨⟨?_, by simp [DelayQueue.apply, rpush, zadd, ZSet.score_add]⟩,
    by simp [DelayQueue.apply, rpush]⟩
  simp only [copies, List.count_append] at hcopies
  simp only [copies, DelayQueue.apply, rpush, zadd, List.count_append, List.count_singleton_self]
  omega

theorem Served.drop (h : q.Served y) : (q.apply (.drop y)).Gone y :=
  h.toRunning.drop h.active

end

end DelayQueue

end Lib
