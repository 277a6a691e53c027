import Kvdb.Components.Pipeline
import Kvdb.Tasks.Commands

/-!
# What a retried pipeline applies

A failed attempt clears the command stack, so the attempt after it executes nothing and returns `[]`
as a success. `pipeline_iff`: a normal return means that the queued commands were applied exactly
when there were none, or the first attempt is not a failure that is retried. `finish` and `retry`
cannot tell the difference, `abort` fails to unpack the empty replies.
-/

namespace Kvdb

open Lib

section
variable {ν α β : Type*} {s : KVDBRetryConfig}
  {execute : ν → Pipe α → Except PyError (List β) × Pipe α}
  {call : List (Attempt ν) → Pipe α → Option (Except (RetryFailure PyError) (List β)) × Pipe α}

/-- What a retried failure leaves: no commands, none of them applied. -/
theorem BasePipeline.of_failure (h : BasePipeline execute) {w : Attempt ν} {p q : Pipe α}
    (hf : RetriedFailure s execute w p q) : q.stack = [] ∧ q.applied = p.applied := by
  obtain ⟨e, he, ha, -⟩ := hf
  dsimp only at he
  have hcl := h.clears w.net p
  rw [he] at hcl
  exact ⟨hcl, h.failed he (isinstance_of_validate ha)⟩

/-- Without commands the first attempt succeeds, with no replies. -/
theorem BasePipeline.call_empty (h : BasePipeline execute) (hc : RetryableExecute s call execute)
    {p q : Pipe α} (hp : p.stack = []) {ws : List (Attempt ν)} {rs : List β}
    (hr : call ws p = (some (.ok rs), q)) : rs = [] ∧ q = p := by
  cases ws with
  | nil =>
    rw [hc.nil] at hr
    cases hr
  | cons w ws =>
    have hok : call (w :: ws) p = (some (.ok []), p) := hc.ok ws (h.empty w.net p hp)
    rw [hok] at hr
    cases hr
    exact ⟨rfl, rfl⟩

/-- After a retried failure the second attempt is such a success. -/
theorem BasePipeline.call_failure (h : BasePipeline execute) (hc : RetryableExecute s call execute)
    {w : Attempt ν} {p q : Pipe α} (hf : RetriedFailure s execute w p q) (w' : Attempt ν)
    (ws : List (Attempt ν)) : call (w :: w' :: ws) p = (some (.ok []), q) := by
  have hq := (h.of_failure hf).1
  obtain ⟨e, he, ha, hs⟩ := hf
  rw [hc.retried _ he ha hs]
  exact hc.ok ws (h.empty w'.net q hq)

/-- A normal return of a retried pipeline: the commands were applied, or the first attempt failed
and nothing was. -/
theorem BasePipeline.call_ok (h : BasePipeline execute) (hc : RetryableExecute s call execute)
    {w : Attempt ν} {ws : List (Attempt ν)} {p q : Pipe α} {rs : List β}
    (hr : call (w :: ws) p = (some (.ok rs), q)) :
    (q.applied = p.applied ++ p.stack ∧ rs.length = p.stack.length) ∨
      ∃ t, RetriedFailure s execute w p t ∧ rs = [] := by
  rcases hc.ok_cons hr with hf | ⟨t, hf, ht⟩
  · exact .inl (h.ok hf)
  · exact .inr ⟨t, hf, (h.call_empty hc (h.of_failure hf).1 ht).1⟩

/-- Commands that were queued and not applied. -/
theorem applied_ne {p q : Pipe α} (hp : p.stack ≠ []) (hq : q.applied = p.applied) :
    q.applied ≠ p.applied ++ p.stack := by
  intro h
  rw [hq] at h
  exact hp (List.self_eq_append_right.1 h)

/-- A caller that ignores the replies applies its commands unless the first attempt is a retried
failure. -/
theorem BasePipeline.ignoreReplies_iff (h : BasePipeline execute)
    (hc : RetryableExecute s call execute) (w : Attempt ν) {p : Pipe α} (hp : p.stack ≠ []) :
    (∀ ws, ignoreReplies (call (w :: ws) p).1 = some (.ok ()) →
        (call (w :: ws) p).2.applied = p.applied ++ p.stack) ↔
      ∀ q, ¬ RetriedFailure s execute w p q := by
  constructor
  · intro hall q hf
    have hcall := h.call_failure hc hf w []
    refine applied_ne hp (h.of_failure hf).2 ?_
    have := hall [w]
    rw [hcall] at this
    exact this rfl
  · intro hn ws hr
    cases hcall : call (w :: ws) p with
    | mk r q =>
      rw [hcall] at hr
      match r, hr with
      | some (.ok rs), _ =>
        rcases h.call_ok hc hcall with hok | ⟨t, hf, -⟩
        · exact hok.1
        · exact absurd hf (hn t)

/-- `abort` never returns with its commands unapplied: it cannot unpack no replies. -/
theorem BasePipeline.unpackDequeued_applied (h : BasePipeline execute)
    (hc : RetryableExecute s call execute) {w : Attempt ν} {ws : List (Attempt ν)} {p : Pipe α}
    {d : β} (hr : unpackDequeued (call (w :: ws) p).1 = some (.ok d)) :
    (call (w :: ws) p).2.applied = p.applied ++ p.stack := by
  cases hcall : call (w :: ws) p with
  | mk r q =>
    rw [hcall] at hr
    match r, hr with
    | some (.ok rs), hr =>
      rcases h.call_ok hc hcall with hok | ⟨t, -, rfl⟩
      · exact hok.1
      · cases hr

end

/-- **When the retried pipeline applies what it accepted**: the pipeline itself, and its callers
`finish`, `retry` and `abort`. -/
theorem pipeline_iff {ν β : Type*} {V : Type} (c : QueueConfig) {s : KVDBRetryConfig}
    {execute : ν → Pipe (Cmd V) → Except PyError (List β) × Pipe (Cmd V)}
    {call : List (Attempt ν) → Pipe (Cmd V) →
      Option (Except (RetryFailure PyError) (List β)) × Pipe (Cmd V)}
    (h : BasePipeline execute) (hc : RetryableExecute s call execute) (w : Attempt ν)
    (p : Pipe (Cmd V)) :
    ((∀ ws rs q, call (w :: ws) p = (some (.ok rs), q) →
          q.applied = p.applied ++ p.stack ∧ rs.length = p.stack.length) ↔
        p.stack = [] ∨ ∀ q, ¬ RetriedFailure s execute w p q) ∧
      (∀ job, p.stack = finishCmds c job →
        ((∀ ws, ignoreReplies (call (w :: ws) p).1 = some (.ok ()) →
            (call (w :: ws) p).2.applied = p.applied ++ p.stack) ↔
          ∀ q, ¬ RetriedFailure s execute w p q)) ∧
      (∀ job rnd time, p.stack = retryCmds c job rnd time →
        ((∀ ws, ignoreReplies (call (w :: ws) p).1 = some (.ok ()) →
            (call (w :: ws) p).2.applied = p.applied ++ p.stack) ↔
          ∀ q, ¬ RetriedFailure s execute w p q)) ∧
      ∀ job error ttl, p.stack = abortCmds c job error ttl → ∀ ws d,
        unpackDequeued (call (w :: ws) p).1 = some (.ok d) →
          (call (w :: ws) p).2.applied = p.applied ++ p.stack := by
  refine ⟨⟨fun hall => ?_, fun hcond ws rs q hr => ?_⟩, ?_, ?_, ?_⟩
  · by_cases hp : p.stack = []
    · exact .inl hp
    · refine .inr fun q hf => applied_ne hp (h.of_failure hf).2 ?_
      exact (hall [w] [] q (h.call_failure hc hf w [])).1
  · rcases h.call_ok hc hr with hok | ⟨t, hf, rfl⟩
    · exact hok
    · have hp : p.stack = [] := hcond.resolve_right fun hn => hn t hf
      obtain ⟨-, rfl⟩ := h.call_empty hc hp hr
      simp [hp]
  · intro job hp
    exact h.ignoreReplies_iff hc w (by simp [hp, finishCmds])
  · intro job rnd time hp
    exact h.ignoreReplies_iff hc w (by simp [hp, retryCmds])
  · intro job error ttl _ ws d hr
    exact h.unpackDequeued_applied hc hr

/-! ## A connection that fails once -/

/-- A pipeline whose connection fails when it is told to. -/
def flakyExecute {α : Type*} (fails : Bool) (p : Pipe α) :
    Except PyError (List Unit) × Pipe α :=
  if p.stack = [] then (.ok [], p)
  else if fails then (.error { type := .connectionError }, { p with stack := [] })
  else (.ok (p.stack.map fun _ => ()), { stack := [], applied := p.applied ++ p.stack })

theorem flakyExecute_base {α : Type*} : BasePipeline (flakyExecute (α := α)) where
  clears n p := by
    unfold flakyExecute
    split
    · assumption
    · split <;> rfl
  empty n p h := by simp [flakyExecute, h]
  ok {n p rs q} h := by
    unfold flakyExecute at h
    split at h
    · rename_i hp
      cases h
      simp [hp]
    · split at h
      · cases h
      · cases h
        simp
  failed {n p e q} h _ := by
    unfold flakyExecute at h
    split at h
    · cases h
    · split at h
      · cases h
        rfl
      · cases h

/-- `execute` of such a pipeline under the default settings. -/
def flakyCall {α : Type*} : List (Attempt Bool) → Pipe α →
    Option (Except (RetryFailure PyError) (List Unit)) × Pipe α :=
  retry (fun w => flakyExecute w.net) validateException fun w =>
    stopAfterDelay ({} : KVDBRetryConfig).pipelineMaxDelay w.elapsed

theorem flakyCall_retryable {α : Type*} :
    RetryableExecute {} flakyCall (flakyExecute (α := α)) := retry_retries _ _ _

/-- The pipeline of a `finish`. -/
def finishPipe : Pipe (Cmd String) := { stack := finishCmds {} { function := "f", key := "k" } }

theorem finishPipe_ne : finishPipe.stack ≠ [] := by simp [finishPipe, finishCmds]

/-- The connection fails and is back a second later: `finish` returns normally, and the server has
applied none of its commands. -/
theorem pipeline_broken :
    BasePipeline (flakyExecute (α := Cmd String)) ∧
      RetryableExecute {} flakyCall (flakyExecute (α := Cmd String)) ∧
      ignoreReplies (flakyCall [⟨true, 0⟩, ⟨false, 1⟩] finishPipe).1 = some (.ok ()) ∧
      (flakyCall [⟨true, 0⟩, ⟨false, 1⟩] finishPipe).1 = some (.ok []) ∧
      (flakyCall [⟨true, 0⟩, ⟨false, 1⟩] finishPipe).2.applied = [] ∧ finishPipe.stack ≠ [] := by
  have hv : validateException { type := .connectionError } = true := by decide
  have hs : stopAfterDelay ({} : KVDBRetryConfig).pipelineMaxDelay 0 = false := by decide +kernel
  have hf : RetriedFailure {} flakyExecute (⟨true, 0⟩ : Attempt Bool) finishPipe {} :=
    ⟨_, (if_neg finishPipe_ne).trans (if_pos rfl), hv, hs⟩
  have hcall := flakyExecute_base.call_failure flakyCall_retryable hf ⟨false, 1⟩ []
  refine ⟨flakyExecute_base, flakyCall_retryable, ?_, ?_, ?_, finishPipe_ne⟩ <;> rw [hcall]
  rfl

/-- A connection that holds: what `finish` queued is applied. -/
theorem pipeline_steady :
    ignoreReplies (flakyCall [⟨false, 0⟩] finishPipe).1 = some (.ok ()) ∧
      (flakyCall [⟨false, 0⟩] finishPipe).2.applied = finishPipe.stack := by
  have hok : flakyExecute false finishPipe = (.ok _, _) :=
    (if_neg finishPipe_ne).trans (if_neg (by decide))
  have hn : ∀ q, ¬ RetriedFailure {} flakyExecute (⟨false, 0⟩ : Attempt Bool) finishPipe q := by
    rintro q ⟨e, he, -⟩
    dsimp only at he
    rw [hok] at he
    cases he
  have hret : ignoreReplies (flakyCall [⟨false, 0⟩] finishPipe).1 = some (.ok ()) := by
    rw [flakyCall_retryable.ok [] hok]
    rfl
  exact ⟨hret, ((pipeline_iff {} flakyExecute_base flakyCall_retryable ⟨false, 0⟩
    finishPipe).2.1 _ rfl).2 hn [] hret⟩

end Kvdb
