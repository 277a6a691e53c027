import Kvdb.Lib.DelayQueue

/-!
# The ticket of one piece of work

`Ticket`: what a piece of work can be to a queue with workers, and `Ticket.next`, what it can be after
one step. A queue shows its line, where the work is found `n` times, its score `o`, if it has one, and who
has it in hand (`held`). `Place n o held t`: these agree with the ticket `t`; at most one worker has the work
in hand, and then it is not in line. One lemma for each thing that happens to the work says where the
ticket goes.

A score of at least 1 is a time to come: the work waits until it is promoted. `DelayQueue.At` is the place
of an item in a delayed queue; each operation takes its ticket to one of the next.
-/

namespace Lib

open Redis

inductive Ticket
  | absent
  /-- It has a time to come. -/
  | waiting
  /-- It has a score that no time reaches, and nobody has it. -/
  | parked
  | inLine
  | inHand
  deriving DecidableEq, Repr

namespace Ticket

/-- The ticket of work with this score that is neither in line nor in hand. -/
def scored (s : ℚ) : Ticket := if 1 ≤ s then .waiting else .parked

/-- Where one step leads. Work comes in hand from the line only, and in line not from where it is
parked. -/
def next : Ticket → List Ticket
  | .absent => [.absent, .waiting, .parked, .inLine]
  | .waiting => [.waiting, .parked, .inLine, .absent]
  | .parked => [.parked, .waiting, .absent]
  | .inLine => [.inLine, .inHand, .absent]
  | .inHand => [.inHand, .waiting, .parked, .inLine, .absent]

theorem mem_next_self (t : Ticket) : t ∈ t.next := by cases t <;> decide

theorem scored_cases (s : ℚ) : scored s = .waiting ∨ scored s = .parked := by
  unfold scored
  split
  · exact .inl rfl
  · exact .inr rfl

/-- From where the work is not in line, a step can give it any score. -/
theorem scored_mem_next {t : Ticket} (ht : t ≠ .inLine) (s : ℚ) : scored s ∈ t.next := by
  rcases scored_cases s with h | h <;> rw [h] <;> cases t <;> first | decide | exact absurd rfl ht

theorem absent_mem_next (t : Ticket) : .absent ∈ t.next := by cases t <;> decide

end Ticket

/-- What the queue shows of the work. -/
inductive Place {κ : Type*} (n : ℕ) (o : Option ℚ) (held : κ → Prop) : Ticket → Prop
  | absent (hn : n = 0) (ho : o = none) (hfree : ∀ k, ¬ held k) : Place n o held .absent
  | scored {x : ℚ} (hn : n = 0) (ho : o = some x) (hfree : ∀ k, ¬ held k) :
    Place n o held (.scored x)
  | inLine {x : ℚ} (hn : n = 1) (ho : o = some x) (hx : x < 1) (hfree : ∀ k, ¬ held k) :
    Place n o held .inLine
  | inHand {x : ℚ} {i : κ} (hn : n = 0) (ho : o = some x) (hx : x < 1) (hi : held i)
    (hone : ∀ k, held k → k = i) : Place n o held .inHand

namespace Place

variable {κ : Type*} {n n' : ℕ} {o o' : Option ℚ} {held held' : κ → Prop} {t : Ticket} {i k : κ}
  {x s : ℚ}

/-- **At most one worker has the work in hand.** -/
theorem unique (h : Place n o held t) (hi : held i) (hk : held k) : i = k := by
  cases h with
  | absent _ _ hfree | scored _ _ hfree | inLine _ _ _ hfree => exact absurd hi (hfree i)
  | inHand _ _ _ _ hone => exact (hone i hi).trans (hone k hk).symm

/-- And then it is not in line and keeps its score. -/
theorem of_held (h : Place n o held t) (hi : held i) :
    t = .inHand ∧ n = 0 ∧ ∃ x, o = some x ∧ x < 1 := by
  cases h with
  | absent _ _ hfree | scored _ _ hfree | inLine _ _ _ hfree => exact absurd hi (hfree i)
  | inHand hn ho hx _ _ => exact ⟨rfl, hn, _, ho, hx⟩

theorem congr (h : Place n o held t) (hn : n' = n) (ho : o' = o) (hh : ∀ k, held' k ↔ held k) :
    Place n' o' held' t := by
  obtain rfl : held' = held := funext fun k => propext (hh k)
  rwa [hn, ho]

/-- Work without a score is absent; when it gets one it waits, or is parked. -/
theorem enter (h : Place n none held t) (s : ℚ) :
    t = .absent ∧ Place n (some s) held (.scored s) := by
  cases h with
  | absent hn _ hfree => exact ⟨rfl, .scored hn rfl hfree⟩
  | scored _ ho | inLine _ ho | inHand _ ho => cases ho

/-- Or it is put in line. -/
theorem enter_line (h : Place n none held t) :
    t = .absent ∧ Place (n + 1) (some 0) held .inLine := by
  cases h with
  | absent hn _ hfree => exact ⟨rfl, .inLine (by rw [hn]) rfl one_pos hfree⟩
  | scored _ ho | inLine _ ho | inHand _ ho => cases ho

/-- Work with a time to come waits; when it is promoted it is in line. -/
theorem promote (h : Place n (some x) held t) (hx : 1 ≤ x) :
    t = .waiting ∧ Place (n + 1) (some 0) held .inLine := by
  cases h with
  | scored hn ho hfree =>
    cases ho
    exact ⟨if_pos hx, .inLine (by rw [hn]) rfl one_pos hfree⟩
  | inLine _ ho hlt | inHand _ ho hlt =>
    cases ho
    exact absurd hx (not_le.2 hlt)
  | absent _ ho => cases ho

/-- Work is taken in hand from the line. -/
theorem take (h : Place (n + 1) o held t) (hi : held' i) (hone : ∀ k, held' k → k = i ∨ held k) :
    t = .inLine ∧ Place n o held' .inHand := by
  cases h with
  | absent hn | scored hn | inHand hn => cases hn
  | inLine hn ho hx hfree =>
    exact ⟨rfl, .inHand (Nat.succ.inj hn) ho hx hi fun k hk => (hone k hk).resolve_right (hfree k)⟩

/-- It is let go of, and is parked. -/
theorem letGo (h : Place n o held t) (hi : held i) (hfree : ∀ k, ¬ held' k) :
    t = .inHand ∧ Place n o held' .parked := by
  obtain ⟨ht, hn, x, ho, hx⟩ := h.of_held hi
  have hp : Ticket.scored x = .parked := if_neg (not_le.2 hx)
  exact ⟨ht, hp ▸ .scored hn ho hfree⟩

/-- It is settled, by whoever has it in hand. -/
theorem settle (h : Place n o held t) (hi : held i) (hfree : ∀ k, ¬ held' k) :
    t = .inHand ∧ Place n none held' .absent := by
  obtain ⟨ht, hn, -⟩ := h.of_held hi
  exact ⟨ht, .absent hn rfl hfree⟩

/-- It is given another score. -/
theorem again (h : Place n o held t) (hi : held i) (hfree : ∀ k, ¬ held' k) (s : ℚ) :
    t = .inHand ∧ Place n (some s) held' (.scored s) := by
  obtain ⟨ht, hn, -⟩ := h.of_held hi
  exact ⟨ht, .scored hn rfl hfree⟩

/-- It is put in line again, with a score that no time reaches. -/
theorem again_line (h : Place n o held t) (hi : held i) (hfree : ∀ k, ¬ held' k) (hs : s < 1) :
    t = .inHand ∧ Place (n + 1) (some s) held' .inLine := by
  obtain ⟨ht, hn, -⟩ := h.of_held hi
  exact ⟨ht, .inLine (by rw [hn]) rfl hs hfree⟩

theorem ne_inLine (h : Place 0 o held t) : t ≠ .inLine := by
  cases h with
  | inLine hn => cases hn
  | @scored x =>
    intro ht
    rcases Ticket.scored_cases x with hx | hx <;> cases hx.symm.trans ht
  | absent | inHand =>
    intro ht
    cases ht

end Place

/-! ## In a delayed queue -/

namespace DelayQueue

variable {ι κ : Type*} [DecidableEq ι]

/-- The ticket of an item that the workers `held` have in hand. -/
def At (q : DelayQueue ι) (y : ι) (held : κ → Prop) (t : Ticket) : Prop :=
  Place (q.queued.count y) (q.incomplete.score y) held t

variable {q : DelayQueue ι} {y : ι} {held held' : κ → Prop} {t : Ticket} {i : κ} {s : ℚ}

theorem At.congr {q' : DelayQueue ι} (h : q.At y held t) (hq : q'.queued.count y = q.queued.count y)
    (hs : q'.incomplete.score y = q.incomplete.score y) (hh : ∀ k, held' k ↔ held k) :
    q'.At y held' t := Place.congr h hq hs hh

theorem score_zadd_self : (q.zadd y s).incomplete.score y = some s := by
  rw [zadd, ZSet.score_add, if_pos rfl]

theorem score_zrem_self : (q.zrem y).incomplete.score y = none := by
  rw [zrem, ZSet.score_rem, if_pos rfl]

variable [LE ι] [DecidableLE ι]

/-- An operation about other items neither puts the item in line nor takes it from there. -/
theorem count_queued_apply {op : Op ι} (h : op.Avoids q y) (hl : op.Leaves q y) :
    (q.apply op).queued.count y = q.queued.count y := by
  have hpush : ∀ {l : List ι} {x}, y ≠ x → (l ++ [x]).count y = l.count y := fun hy => by
    rw [List.count_append, List.count_singleton, if_neg (by simpa using hy.symm), Nat.add_zero]
  cases op with
  | keep | drop | release | purge => rfl
  | add x s =>
    simp only [DelayQueue.apply]
    split
    · exact hpush h
    · rfl
  | promote now =>
    show (q.queued ++ q.due now).count y = _
    rw [List.count_append, List.count_eq_zero.2 h, Nat.add_zero]
  | serve src dst =>
    show (q.lmove src dst).queued.count y = q.queued.count y
    unfold lmove move
    cases hp : pop src q.queued with
    | none => rfl
    | some p =>
      have hx := hl p.1 p.2 hp
      cases src with
      | left =>
        cases hq : q.queued with
        | nil => rw [hq] at hp; cases hp
        | cons z l =>
          rw [hq] at hp
          cases hp
          exact (List.count_cons_of_ne hx).symm
      | right =>
        rw [pop_right_eq_some.1 hp]
        exact (hpush hx.symm).symm
  | cancel x => exact count_lrem_ne h 0 _
  | delay x s => exact count_lrem_ne h 1 _
  | requeue x s => exact (hpush h).trans (count_lrem_ne h 1 _)
  | restore x s => exact List.count_cons_of_ne h.symm

theorem At.aside {op : Op ι} (h : q.At y held t) (ho : op.Avoids q y) (hl : op.Leaves q y)
    (hh : ∀ k, held' k ↔ held k) : (q.apply op).At y held' t :=
  h.congr (count_queued_apply ho hl) (same_apply ho).score hh

theorem At.promote (h : q.At y held t) (now : ℚ) :
    ∃ t' ∈ t.next, (q.apply (.promote now)).At y held t' := by
  by_cases hd : y ∈ q.due now
  · obtain ⟨x, hx, h1, -⟩ := mem_due.1 hd
    have hone : (q.due now).count y = 1 := List.count_eq_one_of_mem (nodup_due q now) hd
    rw [At, hx] at h
    obtain ⟨rfl, hp⟩ := Place.promote h h1
    refine ⟨.inLine, by decide, ?_⟩
    have hcount : (q.apply (.promote now)).queued.count y = q.queued.count y + 1 := by
      show (q.queued ++ q.due now).count y = _
      rw [List.count_append, hone]
    rw [At, hcount, score_promote, if_pos hd]
    exact hp
  · exact ⟨t, t.mem_next_self, h.aside hd trivial fun _ => Iff.rfl⟩

/-- An item without a score is added. -/
theorem At.add (h : q.At y held t) (hs : q.incomplete.score y = none) (x : ℚ) :
    ∃ t' ∈ t.next, (q.apply (.add y x)).At y held t' := by
  rw [At, hs] at h
  by_cases hx : x = 0
  · obtain ⟨rfl, hp⟩ := Place.enter_line h
    refine ⟨.inLine, by decide, ?_⟩
    have hcount : (q.queued ++ [y]).count y = q.queued.count y + 1 := by
      rw [List.count_append, List.count_singleton_self]
    simp only [DelayQueue.apply, hx, ↓reduceIte]
    rw [← hcount, ← score_zadd_self (q := q)] at hp
    exact hp
  · obtain ⟨rfl, hp⟩ := Place.enter h x
    refine ⟨.scored x, Ticket.scored_mem_next (by decide) x, ?_⟩
    simp only [DelayQueue.apply, hx, ↓reduceIte]
    rw [← score_zadd_self (q := q)] at hp
    exact hp

/-- The item at the end of the line is taken in hand. -/
theorem At.serve (h : q.At y held t) (hq : q.queued.getLast? = some y) (hi : held' i)
    (hone : ∀ k, held' k → k = i ∨ held k) :
    ∃ t' ∈ t.next, (q.apply (.serve .right .left)).At y held' t' := by
  rcases q.lmove_right_left with ⟨hnil, -⟩ | ⟨l, x, hl, hmove⟩
  · rw [hnil] at hq
    cases hq
  · rw [hl, List.getLast?_concat] at hq
    cases hq
    rw [At, hl, List.count_append, List.count_singleton_self] at h
    obtain ⟨rfl, hp⟩ := Place.take h hi hone
    refine ⟨.inHand, by decide, ?_⟩
    simp only [DelayQueue.apply, hmove]
    exact hp

omit [LE ι] [DecidableLE ι] in
/-- Who has the item in hand lets go of it. -/
theorem At.letGo (h : q.At y held t) (hi : held i) (hfree : ∀ k, ¬ held' k) :
    ∃ t' ∈ t.next, q.At y held' t' := by
  obtain ⟨rfl, hp⟩ := Place.letGo h hi hfree
  exact ⟨.parked, by decide, hp⟩

/-- Who has the item in hand drops it. -/
theorem At.drop (h : q.At y held t) (hi : held i) (hfree : ∀ k, ¬ held' k) :
    ∃ t' ∈ t.next, (q.apply (.drop y)).At y held' t' := by
  obtain ⟨-, hp⟩ := Place.settle h hi hfree
  refine ⟨.absent, t.absent_mem_next, ?_⟩
  rw [← score_zrem_self (q := q.lremActive 1 y)] at hp
  exact hp

/-- Or it is put back with a score. -/
theorem At.delay (h : q.At y held t) (hi : held i) (hfree : ∀ k, ¬ held' k) (s : ℚ) :
    ∃ t' ∈ t.next, (q.apply (.delay y s)).At y held' t' := by
  obtain ⟨-, hn, -⟩ := Place.of_held h hi
  obtain ⟨rfl, hp⟩ := Place.again h hi hfree s
  refine ⟨.scored s, Ticket.scored_mem_next (by decide) s, ?_⟩
  have hcount : (lrem 1 y q.queued).count y = q.queued.count y := by
    rw [lrem_one, List.count_erase_self, hn]
  rw [← hcount, ← score_zadd_self (q := (q.lremActive 1 y).lremQueued 1 y)] at hp
  exact hp

theorem At.requeue (h : q.At y held t) (hi : held i) (hfree : ∀ k, ¬ held' k) (hs : s < 1) :
    ∃ t' ∈ t.next, (q.apply (.requeue y s)).At y held' t' := by
  obtain ⟨-, hn, -⟩ := Place.of_held h hi
  obtain ⟨rfl, hp⟩ := Place.again_line h hi hfree hs
  refine ⟨.inLine, by decide, ?_⟩
  have hcount : (lrem 1 y q.queued ++ [y]).count y = q.queued.count y + 1 := by
    rw [lrem_one, List.count_append, List.count_singleton_self, List.count_erase_self, hn]
  rw [← hcount, ← score_zadd_self (q := (q.lremActive 1 y).lremQueued 1 y)] at hp
  exact hp

omit [LE ι] [DecidableLE ι] in
/-- The item loses its score while nobody has it and it is not in line. -/
theorem At.clear (hq : y ∉ q.queued) (hfree : ∀ k, ¬ held' k) (t : Ticket) :
    ∃ t' ∈ t.next, (q.zrem y).At y held' t' :=
  ⟨.absent, t.absent_mem_next, .absent (List.count_eq_zero.2 hq) score_zrem_self hfree⟩

/-- It gets a score then. -/
theorem At.put (h : q.At y held t) (hq : y ∉ q.queued) (hfree : ∀ k, ¬ held' k) (s : ℚ) :
    ∃ t' ∈ t.next, (q.apply (.delay y s)).At y held' t' := by
  have hn : q.queued.count y = 0 := List.count_eq_zero.2 hq
  rw [At, hn] at h
  refine ⟨.scored s, Ticket.scored_mem_next h.ne_inLine s, .scored ?_ score_zadd_self hfree⟩
  show (lrem 1 y q.queued).count y = 0
  rw [lrem_one, List.count_erase_self, hn]

end DelayQueue

end Lib
