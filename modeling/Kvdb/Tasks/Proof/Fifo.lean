import Kvdb.Tasks.Proof.Lanes

/-!
# The order of service

`Traffic` records what is pushed to the queued list of a route and what leaves it. Both scripts push
on the right, and `dequeue_func_method` takes from the right whatever the server's version, so ids
leave in the order of their arrival exactly as long as a dequeue never finds two of them
(`fifo_iff`).
-/

namespace Kvdb

open Redis Lib TaskQueue

/-- What was pushed to a queued list and what left it, in order. -/
structure Traffic where
  pushed : List String := []
  popped : List String := []

variable {V : Type} (c : QueueConfig) (r : Route)

/-- What a step of the two scripts pushes. -/
def pushes (db : Db V) : Act V → List String
  | .enqueue job _ =>
    if job.route = r ∧ enqueueAccepts db r (job.id c.toKeyConfig) (job.abortId c.toKeyConfig) ∧
      job.scheduled = 0 then [job.id c.toKeyConfig] else []
  | .schedule r' _ now =>
    if r' = r ∧ db.scheduled.exists? r = false then (db.lanes r).due now else []
  | _ => []

/-- The id that a dequeue takes. -/
def pops (db : Db V) : Act V → List String
  | .dequeue r' => if r' = r then (db.lanes r).queued.getLast?.toList else []
  | _ => []

def Traffic.note (h : Traffic) (db : Db V) (a : Act V) : Traffic where
  pushed := h.pushed ++ pushes c r db a
  popped := h.popped ++ pops r db a

/-- The queue with the traffic of one route. -/
abbrev traffic : Machine (Db V × Traffic) (Act V) := noted c (fun h db a => h.note c r db a) {}

/-- The queue and that traffic after the steps `as`. -/
abbrev watch (as : List (Act V)) : Db V × Traffic :=
  runNoted c (fun h db a => h.note c r db a) ({}, {}) as

/-- Enqueues, ticks and dequeues, with what touches no list. -/
def Act.FifoOp : Act V → Prop
  | .enqueue .. | .schedule .. | .dequeue _ | .update .. | .publish .. | .read | .advance _ => True
  | _ => False

instance (a : Act V) : Decidable a.FifoOp := by
  induction a using Act.casesOn <;> (dsimp only [Act.FifoOp]; infer_instance)

/-- A dequeue finds at most one id. -/
def Shallow (p : Db V × Traffic) : Act V → Prop
  | .dequeue r' => r' = r → (p.1.lanes r).queued.length ≤ 1
  | _ => True

instance (p : Db V × Traffic) (a : Act V) : Decidable (Shallow r p a) := by
  induction a using Act.casesOn <;> (dsimp only [Shallow]; infer_instance)

variable {c r}

/-- A dequeue finds nothing, or takes the id on the right. -/
theorem dequeue_cases (c : QueueConfig) (r : Route) (db : Db V) :
    ((db.lanes r).queued = [] ∧ ((apply c db (.dequeue r)).lanes r).queued = [] ∧
        pops r db (.dequeue r) = []) ∨
      ∃ l x, (db.lanes r).queued = l ++ [x] ∧ ((apply c db (.dequeue r)).lanes r).queued = l ∧
        pops r db (.dequeue r) = [x] := by
  rw [apply_lanes]
  simp only [laneOp, pops, ↓reduceIte, DelayQueue.apply]
  rcases (db.lanes r).lmove_right_left with ⟨he, hm⟩ | ⟨l, x, hq, hm⟩
  · exact .inl ⟨he, by rw [hm, he], by rw [he]; rfl⟩
  · exact .inr ⟨l, x, hq, by rw [hm], by rw [hq, List.getLast?_concat]; rfl⟩

/-- Pushes arrive on the right, a dequeue takes from the right. -/
theorem queued_step {db : Db V} {a : Act V} (ha : a.FifoOp) :
    ((apply c db a).lanes r).queued ++ pops r db a = (db.lanes r).queued ++ pushes c r db a := by
  cases a with
  | enqueue job now =>
    rw [apply_lanes]
    by_cases hacc : job.route = r ∧
        enqueueAccepts db r (job.id c.toKeyConfig) (job.abortId c.toKeyConfig)
    · by_cases hs : job.scheduled = 0
      · simp [laneOp, pops, pushes, hacc, hs, DelayQueue.apply, DelayQueue.rpush, DelayQueue.zadd]
      · simp [laneOp, pops, pushes, hacc, hs, DelayQueue.apply, DelayQueue.zadd]
    · have hp : pushes c r db (.enqueue job now) = [] := if_neg fun h => hacc ⟨h.1, h.2.1⟩
      rw [hp]
      simp [laneOp, pops, hacc, DelayQueue.apply]
  | schedule r' lock now =>
    rw [apply_lanes]
    by_cases hr : r' = r ∧ db.scheduled.exists? r = false
    · simp [laneOp, pops, pushes, hr, DelayQueue.apply, DelayQueue.rpush, DelayQueue.zaddAll]
    · simp [laneOp, pops, pushes, hr, DelayQueue.apply]
  | dequeue r' =>
    by_cases hr : r' = r
    · subst hr
      rcases dequeue_cases c r' db with ⟨hq, hq', hp⟩ | ⟨l, x, hq, hq', hp⟩ <;>
        simp [hq, hq', hp, pushes]
    · simp [apply_lanes, laneOp, pops, pushes, hr, DelayQueue.apply]
  | update | publish | read | advance =>
    simp [apply_lanes, laneOp, pops, pushes, DelayQueue.apply]
  | _ => exact ha.elim

/-- What is pushed has no place yet: it has no score, or one that is due. -/
theorem fresh_pushes {db : Db V} {a : Act V} {x : String} (hx : x ∈ pushes c r db a) :
    (db.lanes r).incomplete.score x ≠ some 0 := by
  cases a with
  | enqueue job now =>
    simp only [pushes] at hx
    split at hx
    · rename_i h
      obtain rfl := List.mem_singleton.1 hx
      intro hs
      simp [enqueueAccepts, hs] at h
    · cases hx
  | schedule r' lock now =>
    simp only [pushes] at hx
    split at hx
    · obtain ⟨s, hs, h1, -⟩ := DelayQueue.mem_due.1 hx
      intro h0
      obtain rfl : s = 0 := Option.some.inj (hs.symm.trans h0)
      norm_num at h1
    · cases hx
  | _ => cases hx

theorem nodup_pushes (db : Db V) (a : Act V) : (pushes c r db a).Nodup := by
  cases a with
  | enqueue job now => simp only [pushes]; split <;> simp
  | schedule r' lock now =>
    simp only [pushes]
    split
    · exact DelayQueue.nodup_due _ _
    · exact List.nodup_nil
  | _ => exact List.nodup_nil

/-- What was or is pushed has the score 0 from then on. -/
theorem score_step {db : Db V} {a : Act V} (ha : a.FifoOp) {x : String}
    (hx : (db.lanes r).incomplete.score x = some 0 ∨ x ∈ pushes c r db a) :
    ((apply c db a).lanes r).incomplete.score x = some 0 := by
  rw [apply_lanes]
  cases a with
  | enqueue job now =>
    by_cases hacc : job.route = r ∧
        enqueueAccepts db r (job.id c.toKeyConfig) (job.abortId c.toKeyConfig)
    · have hnone : (db.lanes r).incomplete.score (job.id c.toKeyConfig) = none := by
        have := hacc.2
        simp only [enqueueAccepts, decide_eq_true_eq] at this
        exact this.1
      by_cases hxj : x = job.id c.toKeyConfig
      · subst hxj
        have hs : job.scheduled = 0 := by
          rcases hx with hx | hx
          · rw [hnone] at hx; cases hx
          · by_contra hs
            simp [pushes, hs] at hx
        simp [laneOp, hacc, hs, DelayQueue.apply, DelayQueue.rpush, DelayQueue.zadd,
          ZSet.score_add]
      · have hx0 := hx.resolve_right (by simp only [pushes]; split <;> simp [hxj])
        simp only [laneOp, hacc, and_self, ↓reduceIte, DelayQueue.apply]
        split <;> simp [DelayQueue.rpush, DelayQueue.zadd, ZSet.score_add, hxj, hx0]
    · have hp : pushes c r db (.enqueue job now) = [] := if_neg fun h => hacc ⟨h.1, h.2.1⟩
      simpa [laneOp, hacc, DelayQueue.apply, hp] using hx
  | schedule r' lock now =>
    by_cases hr : r' = r ∧ db.scheduled.exists? r = false
    · simp only [pushes, hr, and_self, ↓reduceIte] at hx
      simp only [laneOp, hr, and_self, ↓reduceIte, DelayQueue.score_promote]
      split
      · rfl
      · rename_i hd
        exact hx.resolve_right hd
    · simpa [laneOp, pushes, hr, DelayQueue.apply] using hx
  | dequeue r' =>
    have hx0 := hx.resolve_right (List.not_mem_nil)
    simp only [laneOp]
    split
    · simpa only [DelayQueue.apply, ((db.lanes r).lmove_perm .right .left).2] using hx0
    · exact hx0
  | update | publish | read | advance => exact hx.resolve_right (List.not_mem_nil)
  | _ => exact ha.elim

/-- Everything pushed is popped or still queued, and nothing is pushed twice. -/
structure Served (r : Route) (p : Db V × Traffic) : Prop where
  perm : (p.2.popped ++ (p.1.lanes r).queued).Perm p.2.pushed
  nodup : p.2.pushed.Nodup
  score : ∀ x ∈ p.2.pushed, (p.1.lanes r).incomplete.score x = some 0

theorem Served.step {p : Db V × Traffic} (h : Served r p) {a : Act V} (ha : a.FifoOp) :
    Served r (apply c p.1 a, p.2.note c r p.1 a) where
  perm := by
    calc (p.2.popped ++ pops r p.1 a ++ ((apply c p.1 a).lanes r).queued).Perm
          (p.2.popped ++ (((apply c p.1 a).lanes r).queued ++ pops r p.1 a)) := by
            rw [List.append_assoc]
            exact List.perm_append_comm.append_left _
      _ |>.Perm (p.2.popped ++ (p.1.lanes r).queued ++ pushes c r p.1 a) := by
            rw [queued_step ha, List.append_assoc]
      _ |>.Perm (p.2.pushed ++ pushes c r p.1 a) := h.perm.append_right _
  nodup := by
    refine List.nodup_append.2 ⟨h.nodup, nodup_pushes _ _, ?_⟩
    intro x hx y hy hxy
    subst hxy
    exact fresh_pushes hy (h.score x hx)
  score x hx := score_step ha ((List.mem_append.1 hx).imp_left (h.score x))

theorem served_of_run {C : Db V × Traffic → Act V → Prop} (hC : ∀ p a, C p a → a.FifoOp)
    {as : List (Act V)} {p : Db V × Traffic}
    (h : (traffic c r).Run C (traffic c r).init as p) : Served r p := by
  refine h.inv (Served r) ⟨List.Perm.refl _, List.nodup_nil, fun x hx => ?_⟩ ?_
  · cases hx
  · intro t a u ht ha hu
    rw [noted_step hu]
    exact ht.step (hC _ _ ha)

/-- While dequeues are shallow, what was pushed is what was popped and then what is queued. -/
theorem pushed_of_shallow {as : List (Act V)} {p : Db V × Traffic}
    (h : (traffic c r).Run (fun p a => a.FifoOp ∧ Shallow r p a) (traffic c r).init as p) :
    p.2.pushed = p.2.popped ++ (p.1.lanes r).queued := by
  refine h.inv (fun p => p.2.pushed = p.2.popped ++ (p.1.lanes r).queued) rfl ?_
  intro t a u ht ⟨ha, hsh⟩ hu
  rw [noted_step hu]
  have hcomm : pops r t.1 a ++ ((apply c t.1 a).lanes r).queued =
      ((apply c t.1 a).lanes r).queued ++ pops r t.1 a := by
    cases a with
    | dequeue r' =>
      by_cases hr : r' = r
      · subst hr
        have hlen := hsh rfl
        rcases dequeue_cases c r' t.1 with ⟨-, hq', hp⟩ | ⟨l, x, hq, hq', hp⟩
        · rw [hq', hp]
        · rw [hq, List.length_append, List.length_singleton] at hlen
          have hl : l = [] := List.length_eq_zero_iff.1 (by omega)
          rw [hq', hp, hl]
          rfl
      · simp [pops, hr]
    | _ => simp [pops]
  show t.2.pushed ++ pushes c r t.1 a = t.2.popped ++ pops r t.1 a ++ _
  rw [List.append_assoc, hcomm, queued_step ha, ht, List.append_assoc]

/-- Popped ids that are out of order stay so. -/
theorem popped_prefix_of_step {p : Db V × Traffic} (h : Served r p) {a : Act V}
    (hpre : (p.2.note c r p.1 a).popped <+: (p.2.note c r p.1 a).pushed) :
    p.2.popped <+: p.2.pushed := by
  have hlen := h.perm.length_eq
  rw [List.length_append] at hlen
  exact List.prefix_of_prefix_length_le ((List.prefix_append _ _).trans hpre)
    (List.prefix_append _ _) (by omega)

/-- The first dequeue that finds two ids takes the later one. -/
theorem shallow_of_prefix {p : Db V × Traffic} (h : Served r p)
    (heq : p.2.pushed = p.2.popped ++ (p.1.lanes r).queued) {a : Act V} (ha : a.FifoOp)
    (hpre : (p.2.note c r p.1 a).popped <+: (p.2.note c r p.1 a).pushed) : Shallow r p a := by
  cases a with
  | dequeue r' =>
    rintro rfl
    rcases dequeue_cases c r' p.1 with ⟨hq, -, -⟩ | ⟨l, x, hq, -, hp⟩
    · simp [hq]
    · have hpush : pushes c r' p.1 (.dequeue r') = [] := rfl
      simp only [Traffic.note, hpush, List.append_nil, heq, hp, hq,
        List.prefix_append_right_inj] at hpre
      cases l with
      | nil => simp [hq]
      | cons y l =>
        -- the taken id would be the first of the waiting ones, and it is the last
        have hxy : x = y := (List.cons_prefix_cons.1 hpre).1
        have hnd := h.nodup
        rw [heq, hq, hxy] at hnd
        have hy := (List.nodup_append.1 hnd).2.1
        simp at hy
  | _ => trivial

/-- **FIFO service holds in exactly the runs whose dequeues never find two ids.** -/
theorem fifo_iff {as : List (Act V)} {p : Db V × Traffic}
    (h : (traffic c r).Run (fun _ a => a.FifoOp) (traffic c r).init as p) :
    p.2.popped <+: p.2.pushed ↔
      (traffic c r).Run (fun p a => a.FifoOp ∧ Shallow r p a) (traffic c r).init as p := by
  constructor
  · intro hpre
    induction h with
    | nil => exact .nil
    | @snoc as t u a ht ha hu ih =>
      have hserved := served_of_run (fun _ _ h => h) ht
      rw [noted_step hu] at hpre
      have hrun := ih (popped_prefix_of_step hserved hpre)
      exact .snoc hrun ⟨ha, shallow_of_prefix hserved (pushed_of_shallow hrun) ha hpre⟩ hu
  · intro hrun
    rw [pushed_of_shallow hrun]
    exact List.prefix_append _ _

/-! ## Two jobs -/

/-- Two jobs are enqueued and one is dequeued. -/
def twoJobs : List (Act String) :=
  [.enqueue { function := "f", key := "a" } 0, .enqueue { function := "f", key := "b" } 0,
    .dequeue none]

/-- The second job is served before the first, by `BLMOVE` as by `BRPOPLPUSH`. -/
theorem fifo_broken :
    (∃ p, (traffic {} none).Run (fun _ a => a.FifoOp) (traffic {} none).init twoJobs p ∧
      p.2.pushed = ["_kvq_:global:job:a", "_kvq_:global:job:b"] ∧
      p.2.popped = ["_kvq_:global:job:b"] ∧ ¬ p.2.popped <+: p.2.pushed) ∧
    ∃ p, (traffic { version := (5, 0, 14) } none).Run (fun _ a => a.FifoOp)
        (traffic { version := (5, 0, 14) } none).init twoJobs p ∧
      p.2.popped = ["_kvq_:global:job:b"] ∧ ¬ p.2.popped <+: p.2.pushed :=
  ⟨⟨_, Machine.run_of_exec (exec_noted _ _) (by decide +kernel), by decide +kernel,
      by decide +kernel, by decide +kernel⟩,
    ⟨_, Machine.run_of_exec (exec_noted _ _) (by decide +kernel), by decide +kernel,
      by decide +kernel⟩⟩

/-- The second job is enqueued after the first was dequeued. -/
def oneByOne : List (Act String) :=
  [.enqueue { function := "f", key := "a" } 0, .dequeue none,
    .enqueue { function := "f", key := "b" } 0, .dequeue none]

theorem fifo_oneByOne :
    (watch {} none oneByOne).2.popped <+: (watch {} none oneByOne).2.pushed :=
  (fifo_iff (c := {}) (Machine.run_of_exec (exec_noted _ _) (by decide +kernel))).2
    (Machine.run_of_exec (exec_noted _ _) (by decide +kernel))

end Kvdb
