import Kvdb.Tasks.Worker

/-!
# The number of processing tasks

The done callback of a task spawns one task for every queue of the worker, not only for its own.
`concurrency_iff`: the number of tasks of a queue stays within the limit in every run exactly when
the worker serves at most one queue (or has no tasks at all).
-/

namespace Kvdb

open Lib

namespace TaskWorker

variable {V : Type} (w : TaskWorker V)

/-- The kind of a task, up to its number: broadcasts or not. -/
def Loop.isBroadcast : Loop → Bool
  | .process _ => false
  | .broadcast => true

/-- The configured number of tasks of a kind. -/
def limit : Bool → ℕ
  | false => w.maxConcurrency
  | true => w.maxBroadcastConcurrency

/-- The number of tasks of a kind. -/
def kindCount (k : Bool) (ts : List LoopTask) : ℕ := ts.countP fun t => t.loop.isBroadcast = k

/-- The number of tasks of a kind for one queue. -/
def queueCount (k : Bool) (queueName : String) (ts : List LoopTask) : ℕ :=
  ts.countP fun t => t.loop.isBroadcast = k ∧ t.queueName = queueName

theorem queueCount_le_kindCount (k : Bool) (queueName : String) (ts : List LoopTask) :
    queueCount k queueName ts ≤ kindCount k ts :=
  List.countP_mono_left fun t _ h => by
    simp only [Bool.decide_and, Bool.and_eq_true, decide_eq_true_eq] at h
    simpa using h.1

/-! ## Spawning -/

/-- What a spawn adds to the tasks of a kind. -/
theorem kindCount_spawn (k : Bool) (loop : Loop) (s : Loops) :
    kindCount k (w.spawn loop s).live ≤
      kindCount k s.live + if loop.isBroadcast = k then w.queueNames.length else 0 := by
  unfold spawn
  split
  · omega
  · simp only [kindCount, List.countP_append, List.countP_map, Function.comp_def]
    split
    · rename_i h
      have := List.countP_le_length (p := fun _ => decide (loop.isBroadcast = k)) (l := w.queueNames)
      omega
    · rename_i h
      simp [h]

theorem queueCount_spawn (k : Bool) (queueName : String) (loop : Loop) (s : Loops)
    (he : s.event = false) :
    queueCount k queueName (w.spawn loop s).live = queueCount k queueName s.live +
      if loop.isBroadcast = k then w.queueNames.count queueName else 0 := by
  simp only [spawn, he, Bool.false_eq_true, ↓reduceIte, queueCount, List.countP_append,
    List.countP_map, Function.comp_def]
  split
  · rename_i h
    simp [h, List.count_eq_countP, beq_eq_decide]
  · rename_i h
    simp [h]

@[simp] theorem spawn_ended (loop : Loop) (s : Loops) : (w.spawn loop s).ended = s.ended := by
  unfold spawn; split <;> rfl

@[simp] theorem spawn_started (loop : Loop) (s : Loops) :
    (w.spawn loop s).started = s.started := by
  unfold spawn; split <;> rfl

@[simp] theorem spawn_event (loop : Loop) (s : Loops) : (w.spawn loop s).event = s.event := by
  unfold spawn; split <;> rfl

/-- The loops of `start`, in order. -/
def startLoops : List Loop :=
  (List.range w.maxConcurrency).map .process ++
    (List.range w.maxBroadcastConcurrency).map fun _ => .broadcast

/-- Spawn for every loop of a list. -/
def spawnAll (ls : List Loop) (s : Loops) : Loops := ls.foldl (fun s loop => w.spawn loop s) s

theorem startTasks_eq (s : Loops) : w.startTasks s = w.spawnAll w.startLoops s := by
  simp only [startTasks, spawnAll, startLoops, List.foldl_append, List.foldl_map]
  rfl

theorem countP_startLoops (k : Bool) :
    w.startLoops.countP (fun loop => decide (loop.isBroadcast = k)) = w.limit k := by
  cases k <;>
    simp [startLoops, List.countP_map, Function.comp_def, Loop.isBroadcast, limit,
      List.countP_replicate]

theorem kindCount_spawnAll (k : Bool) (ls : List Loop) (s : Loops) :
    kindCount k (w.spawnAll ls s).live ≤ kindCount k s.live +
      ls.countP (fun loop => decide (loop.isBroadcast = k)) * w.queueNames.length := by
  induction ls generalizing s with
  | nil => simp [spawnAll]
  | cons loop ls ih =>
    have h1 := ih (w.spawn loop s)
    have h2 := w.kindCount_spawn k loop s
    simp only [List.countP_cons, decide_eq_true_eq]
    split at h2
    · rename_i hk
      simp only [hk, ↓reduceIte, Nat.add_mul, one_mul]
      exact h1.trans (by omega)
    · rename_i hk
      simp only [hk, ↓reduceIte, Nat.add_zero]
      exact h1.trans (by omega)

theorem queueCount_spawnAll (k : Bool) (queueName : String) (ls : List Loop) (s : Loops)
    (he : s.event = false) :
    queueCount k queueName (w.spawnAll ls s).live = queueCount k queueName s.live +
      ls.countP (fun loop => decide (loop.isBroadcast = k)) * w.queueNames.count queueName := by
  induction ls generalizing s with
  | nil => simp [spawnAll]
  | cons loop ls ih =>
    have h1 := ih (w.spawn loop s) (by rw [spawn_event, he])
    rw [w.queueCount_spawn k queueName loop s he] at h1
    have h0 : w.spawnAll (loop :: ls) s = w.spawnAll ls (w.spawn loop s) := rfl
    rw [h0, h1]
    simp only [List.countP_cons, decide_eq_true_eq]
    split
    · rw [Nat.add_mul, one_mul]
      omega
    · simp

theorem spawnAll_ended (ls : List Loop) (s : Loops) : (w.spawnAll ls s).ended = s.ended := by
  induction ls generalizing s with
  | nil => rfl
  | cons loop ls ih => exact (ih _).trans (w.spawn_ended loop s)

theorem spawnAll_event (ls : List Loop) (s : Loops) : (w.spawnAll ls s).event = s.event := by
  induction ls generalizing s with
  | nil => rfl
  | cons loop ls ih => exact (ih _).trans (w.spawn_event loop s)

/-- The callback of a task spawns for its loop. -/
theorem loopStep_callback {s : Loops} {t : LoopTask} (h : t ∈ s.ended) :
    w.loopStep s (.callback t) = some (w.spawn t.loop { s with ended := s.ended.erase t }) := by
  obtain ⟨loop, queueName⟩ := t
  rw [loopStep, if_pos h]
  cases loop <;> rfl

/-! ## At most one queue -/

/-- The tasks of a kind, with those whose callback is still to come. -/
def outstanding (k : Bool) (s : Loops) : ℕ := kindCount k s.live + kindCount k s.ended

/-- Nothing runs before the start, and later at most the limit is outstanding. -/
structure Limited (k : Bool) (s : Loops) : Prop where
  idle : s.started = false → outstanding k s = 0
  within : outstanding k s ≤ w.limit k

/-- Erasing a task that is there. -/
theorem countP_erase_add {p : LoopTask → Bool} {t : LoopTask} {ts : List LoopTask} (h : t ∈ ts) :
    (ts.erase t).countP p + (if p t then 1 else 0) = ts.countP p := by
  rw [(List.perm_cons_erase h).countP_eq p, List.countP_cons]

theorem kindCount_erase {k : Bool} {t : LoopTask} {ts : List LoopTask} (h : t ∈ ts) :
    kindCount k (ts.erase t) + (if t.loop.isBroadcast = k then 1 else 0) = kindCount k ts := by
  have he := countP_erase_add (p := fun t => decide (t.loop.isBroadcast = k)) h
  simp only [decide_eq_true_eq] at he
  exact he

theorem queueCount_erase (k : Bool) (queueName : String) {t : LoopTask} {ts : List LoopTask}
    (h : t ∈ ts) :
    queueCount k queueName (ts.erase t) +
      (if t.loop.isBroadcast = k ∧ t.queueName = queueName then 1 else 0) =
        queueCount k queueName ts := by
  have he := countP_erase_add
    (p := fun t => decide (t.loop.isBroadcast = k ∧ t.queueName = queueName)) h
  simp only [decide_eq_true_eq] at he
  exact he

/-- With one queue at most a callback spawns no more than the task that ended. -/
theorem Limited.step {k : Bool} (hone : w.queueNames.length ≤ 1 ∨ w.limit k = 0) {s t : Loops}
    {a : LoopAct} (h : w.Limited k s) (ha : w.loopStep s a = some t) : w.Limited k t := by
  cases a with
  | start =>
    simp only [loopStep] at ha
    split at ha
    · cases ha
    · rename_i hst
      obtain rfl := Option.some.inj ha
      have h0 := h.idle (by simpa using hst)
      have hk := w.kindCount_spawnAll k w.startLoops s
      rw [countP_startLoops] at hk
      have hmul : w.limit k * w.queueNames.length ≤ w.limit k := by
        rcases hone with h1 | h1
        · exact (Nat.mul_le_mul_left _ h1).trans (Nat.mul_one _).le
        · simp [h1]
      refine ⟨fun hf => by simp at hf, ?_⟩
      simp only [outstanding, startTasks_eq, spawnAll_ended] at h0 ⊢
      omega
  | complete t =>
    simp only [loopStep] at ha
    split at ha
    · rename_i hmem
      obtain rfl := Option.some.inj ha
      have he := kindCount_erase (k := k) hmem
      have hout : outstanding k { s with live := s.live.erase t, ended := t :: s.ended } =
          outstanding k s := by
        simp only [outstanding, kindCount, List.countP_cons, decide_eq_true_eq] at he ⊢
        omega
      exact ⟨fun hf => hout.trans (h.idle hf), hout.trans_le h.within⟩
    · cases ha
  | callback t =>
    by_cases hmem : t ∈ s.ended
    · rw [w.loopStep_callback hmem] at ha
      obtain rfl := Option.some.inj ha
      have he := kindCount_erase (k := k) hmem
      have hs := w.kindCount_spawn k t.loop { s with ended := s.ended.erase t }
      have hout : outstanding k (w.spawn t.loop { s with ended := s.ended.erase t }) ≤
          outstanding k s := by
        simp only [outstanding, spawn_ended]
        split at hs
        · rename_i hk
          rw [if_pos hk] at he
          rcases hone with h1 | h1
          · dsimp only at hs
            omega
          · have := h.within
            simp only [outstanding] at this
            omega
        · dsimp only at hs
          omega
      refine ⟨fun hf => ?_, hout.trans h.within⟩
      rw [spawn_started] at hf
      exact Nat.le_zero.1 (hout.trans (h.idle hf).le)
    · rw [loopStep, if_neg hmem] at ha
      cases ha
  | set =>
    obtain rfl := Option.some.inj ha
    exact ⟨h.idle, h.within⟩

theorem limited_of_run {k : Bool} (hone : w.queueNames.length ≤ 1 ∨ w.limit k = 0)
    {as : List LoopAct} {s : Loops} (h : w.loops.Run Machine.Any w.loops.init as s) :
    w.Limited k s :=
  h.inv (w.Limited k) ⟨fun _ => rfl, Nat.zero_le _⟩ fun _ _ _ ht _ hs => ht.step w hone hs

/-! ## Two queues -/

/-- A task of the kind. -/
def someTask : Bool → String → LoopTask
  | false, queueName => { loop := .process 0, queueName }
  | true, queueName => { loop := .broadcast, queueName }

theorem isBroadcast_someTask (k : Bool) (queueName : String) :
    (someTask k queueName).loop.isBroadcast = k := by cases k <;> rfl

theorem spawnAll_live_subset (ls : List Loop) (s : Loops) {t : LoopTask} (h : t ∈ s.live) :
    t ∈ (w.spawnAll ls s).live := by
  induction ls generalizing s with
  | nil => exact h
  | cons loop ls ih =>
    have hspawn : t ∈ (w.spawn loop s).live := by
      unfold spawn
      split
      · exact h
      · exact List.mem_append_left _ h
    exact ih _ hspawn

/-- A task of every loop for every queue. -/
theorem mem_spawnAll {ls : List Loop} {s : Loops} (he : s.event = false) {t : LoopTask}
    (ht : t.loop ∈ ls) (hq : t.queueName ∈ w.queueNames) : t ∈ (w.spawnAll ls s).live := by
  induction ls generalizing s with
  | nil => cases ht
  | cons loop ls ih =>
    rcases List.mem_cons.1 ht with rfl | ht
    · refine w.spawnAll_live_subset ls _ ?_
      simp only [spawn, he, Bool.false_eq_true, ↓reduceIte]
      exact List.mem_append_right _ (List.mem_map.2 ⟨_, hq, rfl⟩)
    · exact ih (by rw [spawn_event, he]) ht

theorem someTask_mem {k : Bool} (hk : w.limit k ≠ 0) {queueName : String}
    (hq : queueName ∈ w.queueNames) : someTask k queueName ∈ (w.startTasks {}).live := by
  have hpos : 0 < w.limit k := Nat.pos_of_ne_zero hk
  rw [startTasks_eq]
  refine w.mem_spawnAll rfl ?_ (by cases k <;> exact hq)
  cases k with
  | false =>
    exact List.mem_append_left _ (List.mem_map.2 ⟨0, List.mem_range.2 hpos, rfl⟩)
  | true =>
    exact List.mem_append_right _ (List.mem_map.2 ⟨0, List.mem_range.2 hpos, rfl⟩)

/-- With a second queue, the first task that ends there is replaced by one too many here. -/
theorem exceeded {k : Bool} (hk : w.limit k ≠ 0) {a b : String} {rest : List String}
    (hq : w.queueNames = a :: b :: rest) :
    ∃ s, w.loops.Run Machine.Any w.loops.init
        [.start, .complete (someTask k b), .callback (someTask k b)] s ∧
      w.limit k < queueCount k a s.live := by
  have hmem : someTask k b ∈ (w.startTasks {}).live := w.someTask_mem hk (by simp [hq])
  have hev : (w.startTasks {}).event = false := by rw [startTasks_eq, spawnAll_event]
  have hcount : queueCount k a (w.startTasks {}).live = w.limit k * w.queueNames.count a := by
    rw [startTasks_eq, w.queueCount_spawnAll k a _ _ rfl, countP_startLoops]
    simp [queueCount]
  let s1 : Loops := { w.startTasks {} with started := true }
  let s2 : Loops :=
    { s1 with live := s1.live.erase (someTask k b), ended := someTask k b :: s1.ended }
  let s3 : Loops := { s2 with ended := s2.ended.erase (someTask k b) }
  have h1 : w.loopStep {} .start = some s1 := rfl
  have h2 : w.loopStep s1 (.complete (someTask k b)) = some s2 := if_pos hmem
  have h3 := w.loopStep_callback (s := s2) (t := someTask k b) List.mem_cons_self
  refine ⟨_, ((Machine.Run.nil.snoc trivial h1).snoc trivial h2).snoc trivial h3, ?_⟩
  have hspawn := w.queueCount_spawn k a (someTask k b).loop s3 hev
  rw [if_pos (isBroadcast_someTask k b)] at hspawn
  have herase := queueCount_erase k a hmem
  have hname : (someTask k b).queueName = b := by cases k <;> rfl
  rw [isBroadcast_someTask, hname, hcount] at herase
  have hcnt : w.queueNames.count a = rest.count a + 1 + if b = a then 1 else 0 := by
    rw [hq, List.count_cons_self, List.count_cons]
    simp only [beq_iff_eq]
    omega
  have hmul : w.limit k ≤ w.limit k * w.queueNames.count a :=
    Nat.le_mul_of_pos_right _ (by omega)
  have hlive : queueCount k a s3.live = queueCount k a ((w.startTasks {}).live.erase _) := rfl
  rw [hspawn, hlive]
  split at hcnt
  · rename_i hab
    subst hab
    simp only [and_self, ↓reduceIte] at herase
    omega
  · rename_i hab
    simp only [hab, and_false, ↓reduceIte] at herase
    omega

/-- The bound on the tasks of one kind. -/
theorem kind_iff (k : Bool) :
    (∀ as s, w.loops.Run Machine.Any w.loops.init as s →
        ∀ queueName, queueCount k queueName s.live ≤ w.limit k) ↔
      w.queueNames.length ≤ 1 ∨ w.limit k = 0 := by
  constructor
  · intro hall
    by_contra hno
    rw [not_or] at hno
    match hq : w.queueNames with
    | [] | [_] => simp [hq] at hno
    | a :: b :: rest =>
      obtain ⟨s, hrun, hlt⟩ := w.exceeded hno.2 hq
      exact absurd (hall _ s hrun a) (by omega)
  · intro hone as s hrun queueName
    have hw := (w.limited_of_run hone hrun).within
    have hle := queueCount_le_kindCount k queueName s.live
    simp only [outstanding] at hw
    omega

/-- **The concurrency bounds**, of the processing and of the broadcast tasks, hold in every run
exactly for a worker with at most one queue, or without tasks. -/
theorem concurrency_iff :
    (∀ as s, w.loops.Run Machine.Any w.loops.init as s → ∀ queueName,
        queueCount false queueName s.live ≤ w.maxConcurrency ∧
          queueCount true queueName s.live ≤ w.maxBroadcastConcurrency) ↔
      w.queueNames.length ≤ 1 ∨ w.maxConcurrency = 0 ∧ w.maxBroadcastConcurrency = 0 := by
  have hp := w.kind_iff false
  have hb := w.kind_iff true
  simp only [limit] at hp hb
  rw [or_and_left, ← hp, ← hb]
  constructor
  · intro h
    exact ⟨fun as s hr q => (h as s hr q).1, fun as s hr q => (h as s hr q).2⟩
  · intro h as s hr q
    exact ⟨h.1 as s hr q, h.2 as s hr q⟩

/-- A worker with two queues and one task for each. -/
def twoQueues : TaskWorker String :=
  { queues := [{ queueName := "a" }, { queueName := "b" }]
    maxConcurrency := 1, maxBroadcastConcurrency := 0 }

/-- The task of queue `b` ends, and its callback starts a second one for queue `a`. -/
theorem concurrency_broken :
    ∃ s, twoQueues.loops.Run Machine.Any twoQueues.loops.init
        [.start, .complete ⟨.process 0, "b"⟩, .callback ⟨.process 0, "b"⟩] s ∧
      queueCount false "a" s.live = 2 ∧ twoQueues.maxConcurrency = 1 := by
  refine ⟨_, Machine.run_of_exec rfl ?_, by decide +kernel, rfl⟩
  exact ⟨trivial, trivial, trivial, trivial⟩

end TaskWorker

end Kvdb
