import Mathlib.Data.Fintype.Basic
import Kvdb.Tasks.Proof.Process

/-!
# Abort is final

`AbortFinal p`: the id of an aborted job is neither in line nor in the incomplete set, until it is
enqueued again. The transaction of `abort` takes it out of both (`clear_abort`), and only `retry` and
`_reschedule` put it back; the exception handlers of `process_queue` decide on a retry without a look
at the abort key. Runs in which no step decides to put an aborted job back, and no job is aborted
between this decision and its transaction, keep the property (`abortFinal_of_final`); after any other
step some continuation breaks it (`breaks_of_not_final`).
-/

namespace Kvdb

open Redis Lib TaskQueue

variable {ι V : Type} (c : QueueConfig)

/-- The aborted jobs: aborted by a client and not accepted again since. -/
def noteAborted (aborted : Finset (Route × String)) (s : Sys ι V) :
    Ev ι V → Finset (Route × String)
  | .enqueue job _ => if job.accepted c s.db then aborted.erase (job.slot c) else aborted
  | .move _ (.abort job _ _) => insert (job.slot c) aborted
  | _ => aborted

/-- The system with its aborted jobs. -/
abbrev withAborts [DecidableEq ι] : Machine (Sys ι V × Finset (Route × String)) (Ev ι V) :=
  (system c).observe ∅ (noteAborted c)

/-- Every aborted job is out of line and out of the incomplete set. -/
def AbortFinal (p : Sys ι V × Finset (Route × String)) : Prop :=
  ∀ slot ∈ p.2, (p.1.db.lanes slot.1).Clear slot.2

/-- A job is aborted while no task is about to put it back, and no step decides to put an aborted
job back. -/
def FinalStep (p : Sys ι V × Finset (Route × String)) : Ev ι V → Prop
  | .move _ (.abort job _ _) => ∀ k, ¬ (p.1.tasks k).Requeues c (job.slot c)
  | .move i m => ∀ slot ∈ p.1.decision c (p.1.tasks i) m, slot ∉ p.2
  | _ => True

instance [Fintype ι] (p : Sys ι V × Finset (Route × String)) (e : Ev ι V) :
    Decidable (FinalStep c p e) := by
  induction e using Ev.casesOn with
  | move i m => induction m using Move.casesOn <;> (dsimp only [FinalStep]; infer_instance)
  | _ => exact .isTrue trivial

/-- The invariant of the steps. -/
structure Quiet (p : Sys ι V × Finset (Route × String)) : Prop where
  final : AbortFinal p
  tasks : ∀ slot ∈ p.2, ∀ k, ¬ (p.1.tasks k).Requeues c slot

variable {c}

theorem clear_abort (db : Db V) (job : Job V) (error : V) (ttl : ℕ) :
    ((apply c db (.abort job error ttl)).lanes (job.slot c).1).Clear (job.slot c).2 := by
  simp only [apply_lanes, laneOp, Job.slot, ↓reduceIte]
  exact DelayQueue.clear_cancel _ _

/-- A step of the server that places no aborted job. -/
theorem Quiet.server {s : Sys ι V} {aborted : Finset (Route × String)} (h : Quiet c (s, aborted))
    {a : Act V} (ha : ∀ job, a.places c s.db = some job → job.slot c ∉ aborted) :
    Quiet c ({ s with db := apply c s.db a }, aborted) := by
  refine ⟨fun slot hm => clear_apply c (h.final slot hm) fun job hj hs => ?_, h.tasks⟩
  have hslot : job.slot c = slot := hs
  rw [← hslot] at hm
  exact ha job hj hm

theorem Quiet.enqueue {s : Sys ι V} {aborted : Finset (Route × String)} (h : Quiet c (s, aborted))
    (job : Job V) (now : ℤ) :
    Quiet c ({ s with db := apply c s.db (.enqueue job now) },
      noteAborted c aborted s (.enqueue job now)) := by
  simp only [noteAborted]
  split
  · have h' : Quiet c (s, aborted.erase (job.slot c)) :=
      ⟨fun slot hm => h.final slot (Finset.mem_of_mem_erase hm),
        fun slot hm => h.tasks slot (Finset.mem_of_mem_erase hm)⟩
    refine h'.server fun j hj => ?_
    simp only [Act.places, Option.ite_none_right_eq_some] at hj
    obtain ⟨-, hj⟩ := hj
    cases hj
    exact Finset.notMem_erase _ _
  · rename_i hacc
    refine h.server fun j hj => ?_
    simp only [Act.places, hacc, ↓reduceIte] at hj
    cases hj

variable [DecidableEq ι]

/-- A step of a task that aborts nothing. -/
theorem Quiet.move {s : Sys ι V} {aborted : Finset (Route × String)} (h : Quiet c (s, aborted))
    {i : ι} {m : Move ι V} {a : Act V} {t : Task ι V} (hm : MoveStep c s (s.tasks i) m a t)
    (hd : ∀ slot ∈ s.decision c (s.tasks i) m, slot ∉ aborted) :
    Quiet c ({ db := apply c s.db a, tasks := Function.update s.tasks i t }, aborted) := by
  have h' := h.server (a := a) fun job hj hs => h.tasks _ hs i (hm.places hj)
  refine ⟨h'.final, fun slot hs => ?_⟩
  refine forall_tasks (fun _ t => ¬ t.Requeues c slot) (fun hr => ?_) (h.tasks slot hs)
  rcases hm.requeues hr with hr | hr
  · exact h.tasks slot hs i hr
  · exact hd slot hr hs

/-- A step of a task that aborts a job. -/
theorem Quiet.abort {s : Sys ι V} {aborted : Finset (Route × String)} (h : Quiet c (s, aborted))
    {i : ι} {job : Job V} {error : V} {ttl : ℕ} {a : Act V} {t : Task ι V}
    (hm : MoveStep c s (s.tasks i) (.abort job error ttl) a t)
    (hd : ∀ k, ¬ (s.tasks k).Requeues c (job.slot c)) :
    Quiet c ({ db := apply c s.db a, tasks := Function.update s.tasks i t },
      insert (job.slot c) aborted) := by
  have h' := h.move hm (by simp [Sys.decision])
  have hc : ((apply c s.db a).lanes (job.slot c).1).Clear (job.slot c).2 := by
    generalize s.tasks i = t₀ at hm
    cases hm
    exact clear_abort s.db job error ttl
  have ht : ∀ k, ¬ (Function.update s.tasks i t k).Requeues c (job.slot c) := by
    refine forall_tasks (fun _ t => ¬ t.Requeues c (job.slot c)) (fun hr => ?_) hd
    rcases hm.requeues hr with hr | hr
    · exact hd i hr
    · cases hr
  refine ⟨fun slot hs => ?_, fun slot hs => ?_⟩
  · rcases Finset.mem_insert.1 hs with rfl | hs
    · exact hc
    · exact h'.final slot hs
  · rcases Finset.mem_insert.1 hs with rfl | hs
    · exact ht
    · exact h'.tasks slot hs

theorem Quiet.step {p p' : Sys ι V × Finset (Route × String)} (h : Quiet c p) {e : Ev ι V}
    (hf : FinalStep c p e) (hp : (withAborts c).step p e = some p') : Quiet c p' := by
  obtain ⟨s, aborted⟩ := p
  obtain ⟨s', aborted'⟩ := p'
  obtain ⟨hs, hn⟩ := Machine.observe_step.1 hp
  dsimp only at hn hs
  subst hn
  cases sysStep_of_step hs with
  | enqueue => exact h.enqueue _ _
  | schedule | advance | pushBg | removeBg =>
    refine h.server ?_
    intro j hj
    cases hj
  | @move i m a t hm =>
    cases m with
    | abort job error ttl => exact h.abort hm hf
    | _ => exact h.move hm hf
  | @cancel i k job job' error b hi hk =>
    refine ⟨h.final, fun slot hm => ?_⟩
    exact forall_tasks (fun _ t => ¬ t.Requeues c slot) id
      (forall_tasks (fun _ t => ¬ t.Requeues c slot) id (h.tasks slot hm))

/-- **Such steps are exactly those that keep the invariant.** -/
theorem Quiet.step_iff {p p' : Sys ι V × Finset (Route × String)} (h : Quiet c p) {e : Ev ι V}
    (hp : (withAborts c).step p e = some p') : Quiet c p' ↔ FinalStep c p e := by
  refine ⟨fun h' => ?_, fun hf => h.step hf hp⟩
  obtain ⟨s, aborted⟩ := p
  obtain ⟨s', aborted'⟩ := p'
  obtain ⟨hs, hn⟩ := Machine.observe_step.1 hp
  dsimp only at hn hs
  subst hn
  cases sysStep_of_step hs with
  | enqueue | schedule | advance | pushBg | removeBg | cancel => trivial
  | @move i m a t hm =>
    have ht : ∀ slot ∈ noteAborted c aborted s (.move i m), ¬ t.Requeues c slot := by
      intro slot hslot hr
      have hi := h'.tasks slot hslot i
      simp only [Function.update_self] at hi
      exact hi hr
    cases m with
    | abort job error ttl =>
      intro k hk
      have hmem : job.slot c ∈ insert (job.slot c) aborted := Finset.mem_insert_self _ _
      have hk' := h'.tasks _ hmem k
      by_cases hki : k = i
      · subst hki
        generalize s.tasks k = t₀ at hm hk
        cases hm
        exact hk
      · simp only [Function.update_of_ne hki] at hk'
        exact hk' hk
    | _ => exact fun slot hd hslot => ht slot hslot (hm.requeues_of_decision hd)

theorem quiet_of_run {es : List (Ev ι V)} {p : Sys ι V × Finset (Route × String)}
    (h : (withAborts c).Run (FinalStep c) (withAborts c).init es p) : Quiet c p := by
  refine h.inv (Quiet c) ⟨fun slot hm => ?_, fun slot hm => ?_⟩ fun t e u ht hf hu => ht.step hf hu
  · exact absurd hm (Finset.notMem_empty slot)
  · exact absurd hm (Finset.notMem_empty slot)

/-- **Abort is final**, in every state of every run of such steps. -/
theorem abortFinal_of_final {es : List (Ev ι V)} {p : Sys ι V × Finset (Route × String)}
    (h : (withAborts c).Run (FinalStep c) (withAborts c).init es p) : AbortFinal p :=
  (quiet_of_run h).final

/-! ## The condition is exact -/

theorem not_clear_retry (db : Db V) (job : Job V) (error : Option V) (now : ℤ) (rnd time : ℚ) :
    ¬ ((apply c db (.retry job error now rnd time)).lanes (job.slot c).1).Clear (job.slot c).2 := by
  intro h
  have hs := h.score
  simp only [apply_lanes, laneOp, Job.slot, ↓reduceIte] at hs
  split at hs <;> simp [DelayQueue.apply, DelayQueue.rpush, DelayQueue.zadd, ZSet.score_add] at hs

theorem not_clear_reschedule (db : Db V) (job : Job V) (error : Option V) (now : ℤ)
    (waitTime time : ℚ) :
    ¬ ((apply c db (.reschedule job error now waitTime time)).lanes (job.slot c).1).Clear
      (job.slot c).2 := by
  intro h
  have hs := h.score
  simp [apply_lanes, laneOp, Job.slot, DelayQueue.apply, DelayQueue.zadd, ZSet.score_add] at hs

variable (c) in
/-- Some continuation puts an aborted job back. -/
def Breaks (p : Sys ι V × Finset (Route × String)) : Prop :=
  ∃ es p', (withAborts c).Run Machine.Any p es p' ∧ ¬ AbortFinal p'

theorem Breaks.of_not {p : Sys ι V × Finset (Route × String)} (h : ¬ AbortFinal p) : Breaks c p :=
  ⟨[], p, .nil, h⟩

/-- A step of a task that aborts nothing, from a state that is broken then. -/
theorem Breaks.of_move {s : Sys ι V} {aborted : Finset (Route × String)} {i : ι} {m : Move ι V}
    {a : Act V} {t : Task ι V} (hm : move c s (s.tasks i) m = some (a, t))
    (hn : noteAborted c aborted s (.move i m) = aborted)
    (h : Breaks c ({ db := apply c s.db a, tasks := Function.update s.tasks i t }, aborted)) :
    Breaks c (s, aborted) := by
  obtain ⟨es, q, hr, hq⟩ := h
  have hs : (withAborts c).step (s, aborted) (.move i m) =
      some ({ db := apply c s.db a, tasks := Function.update s.tasks i t }, aborted) := by
    refine Machine.observe_step.2 ⟨?_, hn.symm⟩
    simp only [system, Sys.plan, hm, Option.map_some]
  exact ⟨_, q, (Machine.Run.single trivial hs).append hr, hq⟩

section
variable {aborted : Finset (Route × String)} {slot : Route × String} (hm : slot ∈ aborted) {i : ι}
include hm

/-- The exits of a handler are taken one after the other, up to the retry. -/
theorem breaks_of_handling {todo : List (Exit V)} (hx : todo.any Exit.isRetry = true)
    {s : Sys ι V} {job : Job V} (hi : s.tasks i = .handling job todo) (hs : job.slot c = slot) :
    Breaks c (s, aborted) := by
  induction todo generalizing s job with
  | nil => cases hx
  | cons x todo ih =>
    cases x with
    | retry error =>
      refine Breaks.of_move (i := i) (m := .exit 0 0 0) (by rw [hi]; rfl) rfl (.of_not fun hf => ?_)
      subst hs
      exact not_clear_retry _ _ _ _ _ _ (hf _ hm)
    | update =>
      refine Breaks.of_move (i := i) (m := .exit 0 0 0) (by rw [hi]; rfl) rfl ?_
      exact ih hx (Function.update_self ..) hs
    | finishFailed error =>
      refine Breaks.of_move (i := i) (m := .exit 0 0 0) (by rw [hi]; rfl) rfl ?_
      exact ih hx (Function.update_self ..) hs

theorem breaks_of_rescheduled {s : Sys ι V} {job : Job V} {error : Option V} {waitTime : ℚ}
    (hi : s.tasks i = .rescheduled job error waitTime) (hs : job.slot c = slot) :
    Breaks c (s, aborted) := by
  refine Breaks.of_move (i := i) (m := .reschedulePut 0 0) (by rw [hi]; rfl) rfl
    (.of_not fun hf => ?_)
  subst hs
  exact not_clear_reschedule _ _ _ _ _ _ (hf _ hm)

/-- A task that is about to put an aborted job back does so, by its own steps alone. -/
theorem breaks_of_requeues {s : Sys ι V} (ht : (s.tasks i).Requeues c slot) :
    Breaks c (s, aborted) := by
  cases hi : s.tasks i with
  | handling job todo =>
    rw [hi] at ht
    obtain ⟨hs, hx⟩ := ht
    exact breaks_of_handling hm hx hi hs
  | rescheduling job error waitTime =>
    rw [hi] at ht
    refine Breaks.of_move (i := i) (m := .rescheduleFinish 0) (by rw [hi]; rfl) rfl ?_
    exact breaks_of_rescheduled hm (Function.update_self ..) ht
  | rescheduled job error waitTime =>
    rw [hi] at ht
    exact breaks_of_rescheduled hm hi ht
  | _ =>
    rw [hi] at ht
    exact ht.elim

end

/-- **The condition is exact**: after a step outside it some continuation puts an aborted job
back. -/
theorem breaks_of_not_final {es : List (Ev ι V)} {p p' : Sys ι V × Finset (Route × String)}
    (h : (withAborts c).Run (FinalStep c) (withAborts c).init es p) {e : Ev ι V}
    (hp : (withAborts c).step p e = some p') (hf : ¬ FinalStep c p e) : Breaks c p' := by
  by_cases hfin : AbortFinal p'
  · have hq : ¬ Quiet c p' := fun hq => hf (((quiet_of_run h).step_iff hp).1 hq)
    have ht : ∃ slot ∈ p'.2, ∃ k, (p'.1.tasks k).Requeues c slot := by
      by_contra hno
      simp only [not_exists, not_and] at hno
      exact hq ⟨hfin, hno⟩
    obtain ⟨slot, hslot, k, hk⟩ := ht
    exact breaks_of_requeues hslot hk
  · exact .of_not hfin

/-! ## An aborted job that fails -/

/-- A job, and the copy that a client reads while its function runs. -/
def failingJob : Job String := { function := "f", key := "k" }

def failingCopy : Job String := { (enqueuedJob failingJob 0).start 1000 with touched := 1000 }

/-- Task 0 takes the job up; a client (task 1) aborts it; then its function raises. -/
def abortedThenFailed (retryable : Bool) : List (Ev (Fin 2) String) :=
  [.enqueue failingJob 0, .move 0 (.dequeue none), .move 0 .fetch, .move 0 (.start 1000),
    .move 1 (.abort failingCopy "stop" 5), .move 1 (.abortRest 1500),
    .move 0 (.outcome (.exception "error" "error" (some retryable))),
    .move 0 (.exit 2000 (1 / 2) 2)]

/-- The exception handler retries the aborted job: its id is back in the incomplete set. -/
theorem abortFinal_broken :
    ∃ p, (withAborts {}).Run Machine.Any (withAborts {}).init (abortedThenFailed true) p ∧
      ¬ AbortFinal p := by
  have h : ∃ p, (withAborts {}).Run Machine.Any (withAborts {}).init (abortedThenFailed true) p ∧
      ((none, "_kvq_:global:job:k") ∈ p.2 ∧
        (p.1.db.lanes none).incomplete.score "_kvq_:global:job:k" = some 32) :=
    Machine.exists_run (by decide +kernel) (by decide +kernel)
  obtain ⟨p, hr, hm, hs⟩ := h
  refine ⟨p, hr, fun hf => ?_⟩
  have hc := (hf _ hm).score
  rw [hs] at hc
  cases hc

/-- With an error that is not retried the job stays aborted. -/
theorem abortFinal_unretried :
    ∃ p, (withAborts {}).Run Machine.Any (withAborts {}).init (abortedThenFailed false) p ∧
      (none, "_kvq_:global:job:k") ∈ p.2 ∧ AbortFinal p := by
  have h : ∃ p, (withAborts {}).Run (FinalStep {}) (withAborts {}).init (abortedThenFailed false) p ∧
      (none, "_kvq_:global:job:k") ∈ p.2 :=
    Machine.exists_run (by decide +kernel) (by decide +kernel)
  obtain ⟨p, hr, hm⟩ := h
  exact ⟨p, hr.mono fun _ _ _ => trivial, hm, abortFinal_of_final hr⟩

end Kvdb
