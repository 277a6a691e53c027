import Mathlib.Data.List.Chain
import Mathlib.Tactic.Linarith
import Kvdb.Tasks.Cron
import Kvdb.Tasks.Proof.Lanes

/-!
# One run for each occurrence of a cron job

`Stage`: the id of a cron job is gone, waits for its time, or is listed once, and every accepted
enqueue but a waiting one was pushed once, in time. Every event keeps it (`stage_step`), so there is
never a second run, and no push comes early.

The times increase as long as no enqueue is late (`run_once_iff`): the next time is computed before the
enqueue script runs, and if the run of that time is over when it does, the same time is accepted again.
-/

namespace Kvdb

open Redis Lib

/-- The occurrence was pushed once, in time. -/
def Occurrence.Done (now : ℕ) (o : Occurrence) : Prop :=
  ∃ t, o.pushes = [t] ∧ (o.scheduled : ℚ) ≤ seconds t ∧ t ≤ now

/-- Where the id of a cron job is, and what the log says of its runs. -/
inductive Stage (q : DelayQueue String) (x : String) (now : ℕ) : List Occurrence → Prop
  | gone {log : List Occurrence} (hg : q.Gone x) (hd : ∀ o ∈ log, o.Done now) : Stage q x now log
  | waiting {o : Occurrence} {log : List Occurrence} (hw : q.Waiting x o.scheduled)
    (h1 : 1 ≤ o.scheduled) (hp : o.pushes = []) (hd : ∀ o ∈ log, o.Done now) :
    Stage q x now (o :: log)
  | running {log : List Occurrence} (hr : q.Running x) (hd : ∀ o ∈ log, o.Done now) :
    Stage q x now log

section
variable {q q' : DelayQueue String} {x : String} {now now' : ℕ} {log : List Occurrence}

theorem Occurrence.Done.mono {o : Occurrence} (h : o.Done now) (hn : now ≤ now') : o.Done now' := by
  obtain ⟨t, hp, hs, ht⟩ := h
  exact ⟨t, hp, hs, ht.trans hn⟩

theorem Stage.of_same (h : Stage q x now log) (hs : q.Same q' x) (hn : now ≤ now') :
    Stage q' x now' log := by
  cases h with
  | gone hg hd => exact .gone (hg.of_same hs) fun o ho => (hd o ho).mono hn
  | waiting hw h1 hp hd => exact .waiting (hw.of_same hs) h1 hp fun o ho => (hd o ho).mono hn
  | running hr hd => exact .running (hr.of_same hs) fun o ho => (hd o ho).mono hn

/-- An id without a score is gone. -/
theorem Stage.done_of_score (h : Stage q x now log) (hs : q.incomplete.score x = none) :
    q.Gone x ∧ ∀ o ∈ log, o.Done now := by
  cases h with
  | gone hg hd => exact ⟨hg, hd⟩
  | waiting hw => rw [hw.score] at hs; cases hs
  | running hr => rw [hr.score] at hs; cases hs

/-- A due id waits: its time has come, and it has not been pushed. -/
theorem Stage.waiting_of_due (h : Stage q x now log) {t : ℚ} (hd : x ∈ q.due t) :
    ∃ o rest, log = o :: rest ∧ q.Waiting x o.scheduled ∧ (o.scheduled : ℚ) ≤ t ∧
      o.pushes = [] ∧ ∀ o ∈ rest, o.Done now := by
  obtain ⟨s, hs, h1, ht⟩ := DelayQueue.mem_due.1 hd
  cases h with
  | gone hg => rw [hg.score] at hs; cases hs
  | @waiting o rest hw _ hp hdone =>
    obtain rfl := Option.some.inj (hw.score.symm.trans hs)
    exact ⟨o, rest, rfl, hw, ht, hp, hdone⟩
  | running hr =>
    obtain rfl := Option.some.inj (hr.score.symm.trans hs)
    norm_num at h1

theorem pendingRuns_le_one (h : Stage q x now log) : pendingRuns q x ≤ 1 := by
  cases h with
  | gone hg => simp [pendingRuns, hg.score, (DelayQueue.gone_iff.1 hg).1]
  | waiting hw =>
    simp only [pendingRuns, hw.score, hw.unlisted, Option.elim_some, Nat.add_zero]
    split <;> omega
  | running hr => simp [pendingRuns, hr.score, hr.once, show ¬ (1 : ℚ) ≤ 0 by norm_num]

theorem pushes_of_stage (h : Stage q x now log) :
    ∀ o ∈ log, o.pushes.length ≤ 1 ∧ ∀ t ∈ o.pushes, (o.scheduled : ℚ) ≤ seconds t := by
  have hdone : ∀ {o : Occurrence}, o.Done now →
      o.pushes.length ≤ 1 ∧ ∀ t ∈ o.pushes, (o.scheduled : ℚ) ≤ seconds t := by
    rintro o ⟨t, hp, hs, -⟩
    simp [hp, hs]
  cases h with
  | gone _ hd => exact fun o ho => hdone (hd o ho)
  | waiting _ _ hp hd =>
    intro o ho
    rcases List.mem_cons.1 ho with rfl | ho
    · simp [hp]
    · exact hdone (hd o ho)
  | running _ hd => exact fun o ho => hdone (hd o ho)

end

/-! ## What an event does to the cron job -/

section
variable {W V : Type} [DecidableEq W] {c : QueueConfig} {cronjobPrefix : String}
  {crons : List (CronJob V)} {cron : CronJob V} {s s' : CronQueue W V}

@[simp] theorem CronJob.id_job (now : ℚ) :
    (cron.job c cronjobPrefix now).id c.toKeyConfig = cron.id c cronjobPrefix := rfl

@[simp] theorem CronJob.route_job (now : ℚ) :
    (cron.job c cronjobPrefix now).route = cron.route := rfl

@[simp] theorem CronJob.scheduled_job (now : ℚ) :
    (cron.job c cronjobPrefix now).scheduled = cron.nextScheduled now := rfl

@[simp] theorem CronQueue.lane_go (w : W) (p : TickAt V) : (s.go w p).lane cron = s.lane cron := rfl

omit [DecidableEq W] in
theorem CronQueue.lane_issue (a : Act V) :
    (s.issue c a).lane cron = (s.lane cron).apply (laneOp c s.db cron.route a) :=
  apply_lanes c s.db a cron.route

/-- The clocks that were read are past, and the cron jobs are from the list. -/
def Timely (crons : List (CronJob V)) (now : ℕ) : TickAt V → Prop
  | .idle | .enqueued => True
  | .enqueueing cron t => cron ∈ crons ∧ t ≤ now
  | .scheduling _ t => t ≤ now

/-- What an event does to the runs of the cron job. -/
inductive CronStep (c : QueueConfig) (cronjobPrefix : String) (cron : CronJob V)
    (s s' : CronQueue W V) : CronEv W V → Prop
  | other {e : CronEv W V} (hs : (s.lane cron).Same (s'.lane cron) (cron.id c cronjobPrefix))
    (ha : s.accepted c cronjobPrefix cron e = none) : CronStep c cronjobPrefix cron s s' e
  | accepted {w : W} {queued : ℤ} {now : ℕ} (hp : s.place w = .enqueueing cron now)
    (hscore : (s.lane cron).incomplete.score (cron.id c cronjobPrefix) = none)
    (hl : s'.lane cron = (s.lane cron).apply
      (.add (cron.id c cronjobPrefix) (cron.nextScheduled (seconds now))))
    (ha : s.accepted c cronjobPrefix cron (.enqueue w queued) =
      some (cron.nextScheduled (seconds now))) :
    CronStep c cronjobPrefix cron s s' (.enqueue w queued)
  | promoted {w : W} {lock now : ℕ} (hp : s.place w = .scheduling cron.route now)
    (hd : cron.id c cronjobPrefix ∈ (s.lane cron).due (seconds now))
    (hl : s'.lane cron = (s.lane cron).apply (.promote (seconds now))) :
    CronStep c cronjobPrefix cron s s' (.schedule w lock)
  | finished {job : Job V} {result : Option V} {now : ℤ}
    (ha : cron.id c cronjobPrefix ∈ (s.lane cron).active)
    (hl : s'.lane cron = (s.lane cron).apply (.drop (cron.id c cronjobPrefix))) :
    CronStep c cronjobPrefix cron s s' (.finish job result now)

omit [DecidableEq W] in
/-- A step on the server that avoids the cron job. -/
theorem same_issue {a : Act V}
    (h : (laneOp c s.db cron.route a).Avoids (s.lane cron) (cron.id c cronjobPrefix)) :
    (s.lane cron).Same ((s.issue c a).lane cron) (cron.id c cronjobPrefix) := by
  rw [CronQueue.lane_issue]
  exact DelayQueue.same_apply h

theorem cronStep_of_step (hid : ∀ cron' ∈ crons,
      cron'.id c cronjobPrefix = cron.id c cronjobPrefix → cron' = cron)
    (ht : ∀ w, Timely crons s.now (s.place w)) {e : CronEv W V}
    (h : s.step c cronjobPrefix crons e = some s') : CronStep c cronjobPrefix cron s s' e := by
  have hkeep : (s.lane cron).Same (s.lane cron) (cron.id c cronjobPrefix) := ⟨rfl, rfl, le_rfl⟩
  cases e with
  | tick w i =>
    simp only [CronQueue.step] at h
    split at h <;> cases h
    exact .other hkeep rfl
  | enqueue w queued =>
    simp only [CronQueue.step] at h
    split at h <;> cases h
    rename_i cron' now hp
    by_cases hacc : enqueueAccepts s.db cron'.route (cron'.id c cronjobPrefix)
        ((cron'.job c cronjobPrefix (seconds now)).abortId c.toKeyConfig)
    · by_cases hx : cron'.id c cronjobPrefix = cron.id c cronjobPrefix
      · have hmem := ht w
        rw [hp] at hmem
        obtain rfl := hid cron' hmem.1 hx
        refine .accepted hp ?_ ?_ ?_
        · simp only [enqueueAccepts, decide_eq_true_eq] at hacc
          exact hacc.1
        · rw [CronQueue.lane_go, CronQueue.lane_issue]
          simp only [laneOp, CronJob.id_job, CronJob.route_job, hacc, and_self, ↓reduceIte]
          rfl
        · simp [CronQueue.accepted, hp, hacc]
      · exact .other (same_issue (.ite fun _ => Ne.symm hx)) (by simp [CronQueue.accepted, hp, hx])
    · refine .other (same_issue (.ite fun hr => absurd ?_ hacc))
        (by simp [CronQueue.accepted, hp, hacc])
      have hacc' := hr.2
      rw [← hr.1] at hacc'
      exact hacc'
  | ask w r =>
    simp only [CronQueue.step] at h
    split at h <;> cases h
    all_goals exact .other hkeep rfl
  | schedule w lock =>
    simp only [CronQueue.step] at h
    split at h <;> cases h
    rename_i r now hp
    by_cases hd : (r = cron.route ∧ s.db.scheduled.exists? cron.route = false) ∧
        cron.id c cronjobPrefix ∈ (s.lane cron).due (seconds now)
    · obtain ⟨⟨rfl, hfree⟩, hdue⟩ := hd
      refine .promoted hp hdue ?_
      rw [CronQueue.lane_go, CronQueue.lane_issue]
      simp only [laneOp, hfree, and_self, ↓reduceIte]
    · exact .other (same_issue (.ite fun hr hdue => hd ⟨hr, hdue⟩)) rfl
  | dequeue r =>
    cases h
    exact .other (same_issue (.ite fun _ => trivial)) rfl
  | finish job result now =>
    simp only [CronQueue.step] at h
    split at h <;> cases h
    rename_i hact
    by_cases hx : job.route = cron.route ∧ job.id c.toKeyConfig = cron.id c cronjobPrefix
    · obtain ⟨hr, hx⟩ := hx
      rw [hr, hx] at hact
      refine .finished hact ?_
      rw [CronQueue.lane_issue]
      simp only [laneOp, hr, hx, ↓reduceIte]
    · exact .other (same_issue (.ite fun hr hx' => hx ⟨hr, hx'.symm⟩)) rfl
  | advance ms =>
    cases h
    exact .other (same_issue (a := .advance ms) trivial) rfl

theorem now_le_step {e : CronEv W V} (h : s.step c cronjobPrefix crons e = some s') :
    s.now ≤ s'.now := by
  cases e with
  | advance ms => cases h; exact Nat.le_add_right ..
  | dequeue r => cases h; exact le_rfl
  | tick | enqueue | ask | schedule | finish =>
    simp only [CronQueue.step] at h
    split at h <;> cases h
    all_goals exact le_rfl

theorem Timely.mono {crons : List (CronJob V)} {now now' : ℕ} {p : TickAt V}
    (h : Timely crons now p) (hn : now ≤ now') : Timely crons now' p := by
  cases p with
  | idle | enqueued => trivial
  | enqueueing cron t => exact ⟨h.1, h.2.trans hn⟩
  | scheduling r t => exact Nat.le_trans h hn

/-- A clock that was read is past. -/
theorem timely_step (ht : ∀ w, Timely crons s.now (s.place w)) {e : CronEv W V}
    (h : s.step c cronjobPrefix crons e = some s') (w : W) : Timely crons s'.now (s'.place w) := by
  have hgo : ∀ {u : CronQueue W V} {v : W} {p : TickAt V}, u.place = s.place → u.now = s.now →
      Timely crons s.now p → Timely crons (u.go v p).now ((u.go v p).place w) := by
    intro u v p hu hn hp
    show Timely crons u.now (Function.update u.place v p w)
    rw [hn, hu]
    rcases eq_or_ne w v with rfl | hw
    · rwa [Function.update_self]
    · rw [Function.update_of_ne hw]
      exact ht w
  cases e with
  | tick v i =>
    simp only [CronQueue.step] at h
    split at h <;> cases h
    exact hgo rfl rfl ⟨List.mem_of_getElem? ‹_›, le_rfl⟩
  | enqueue v queued =>
    simp only [CronQueue.step] at h
    split at h <;> cases h
    exact hgo rfl rfl trivial
  | ask v r =>
    simp only [CronQueue.step] at h
    split at h <;> cases h
    all_goals exact hgo rfl rfl (le_refl s.now)
  | schedule v lock =>
    simp only [CronQueue.step] at h
    split at h <;> cases h
    exact hgo rfl rfl trivial
  | dequeue r => cases h; exact ht w
  | finish job result now =>
    simp only [CronQueue.step] at h
    split at h <;> cases h
    exact ht w
  | advance ms => cases h; exact (ht w).mono (Nat.le_add_right ..)

/-! ## What an event does to the log -/

theorem notePush_zero (now : ℕ) (log : List Occurrence) : notePush 0 now log = log := by
  cases log <;> simp [notePush]

theorem map_notePush (n now : ℕ) (log : List Occurrence) :
    (notePush n now log).map Occurrence.scheduled = log.map Occurrence.scheduled := by
  cases log <;> rfl

/-- The times of the accepted enqueues. -/
theorem map_noteCron (log : List Occurrence) (s : CronQueue W V) (e : CronEv W V) :
    (noteCron c cronjobPrefix crons cron log s e).map Occurrence.scheduled =
      (s.accepted c cronjobPrefix cron e).toList ++ log.map Occurrence.scheduled := by
  rw [noteCron, map_notePush]
  cases s.accepted c cronjobPrefix cron e <;> rfl

theorem pushed_of_step {e : CronEv W V} (h : s.step c cronjobPrefix crons e = some s') {n : ℕ}
    (hn : (s'.lane cron).queued.count (cron.id c cronjobPrefix) ≤
      (s.lane cron).queued.count (cron.id c cronjobPrefix) + n)
    (hn' : (s.lane cron).queued.count (cron.id c cronjobPrefix) + n ≤
      (s'.lane cron).queued.count (cron.id c cronjobPrefix) ∨ n = 0) :
    s.pushed c cronjobPrefix crons cron e = n := by
  rw [CronQueue.pushed, h, Option.elim_some]
  omega

/-- **Every event keeps the stage.** -/
theorem stage_step (hnext : ∀ t, t < cron.nextScheduled t) {log : List Occurrence}
    (ht : ∀ w, Timely crons s.now (s.place w)) {e : CronEv W V}
    (h : s.step c cronjobPrefix crons e = some s') (hs : CronStep c cronjobPrefix cron s s' e)
    (hst : Stage (s.lane cron) (cron.id c cronjobPrefix) s.now log) :
    Stage (s'.lane cron) (cron.id c cronjobPrefix) s'.now
      (noteCron c cronjobPrefix crons cron log s e) := by
  have hnow := now_le_step h
  cases hs with
  | other hsame ha =>
    rw [noteCron, ha, pushed_of_step h (n := 0) hsame.queued (.inr rfl), notePush_zero]
    exact hst.of_same hsame hnow
  | @accepted w queued now hp hscore hl ha =>
    obtain ⟨hg, hd⟩ := hst.done_of_score hscore
    have h0 : (0 : ℚ) ≤ seconds now := div_nonneg (by exact_mod_cast Nat.zero_le now) (by norm_num)
    have h1 : 1 ≤ cron.nextScheduled (seconds now) := by
      have hlt := h0.trans_lt (hnext (seconds now))
      norm_cast at hlt
    have hne : (cron.nextScheduled (seconds now) : ℚ) ≠ 0 := by
      norm_cast
      omega
    obtain ⟨hw, hq⟩ := DelayQueue.waiting_add hg hne
    rw [← hl] at hw hq
    rw [noteCron, ha, pushed_of_step h (n := 0) (by rw [hq]; exact le_rfl) (.inr rfl), notePush_zero]
    exact .waiting hw h1 rfl fun o ho => (hd o ho).mono hnow
  | @promoted w lock now hp hd hl =>
    obtain ⟨o, rest, rfl, hw, htime, hnone, hdone⟩ := hst.waiting_of_due hd
    obtain ⟨hr, hq⟩ := DelayQueue.running_promote hw hd
    rw [← hl] at hr hq
    have hpast := ht w
    rw [hp] at hpast
    have hin : (o.scheduled : ℚ) ≤ seconds s.now := by
      refine htime.trans ?_
      unfold seconds
      gcongr
      exact hpast
    rw [noteCron, show s.accepted c cronjobPrefix cron (.schedule w lock) = none from rfl,
      pushed_of_step h (n := 1) hq.le (.inl hq.ge)]
    refine .running hr fun o' ho' => ?_
    rcases List.mem_cons.1 ho' with rfl | ho'
    · exact ⟨s.now, by simp [hnone], hin, hnow⟩
    · exact (hdone o' ho').mono hnow
  | @finished job result now ha hl =>
    have hq : (s'.lane cron).queued = (s.lane cron).queued := by rw [hl]; rfl
    rw [noteCron, show s.accepted c cronjobPrefix cron (.finish job result now) = none from rfl,
      pushed_of_step h (n := 0) (by rw [hq]; exact le_rfl) (.inr rfl), notePush_zero]
    have hone := List.count_pos_iff.2 ha
    cases hst with
    | gone hg => exact absurd ha hg.active
    | waiting hw =>
      have h0 := hw.unlisted
      simp only [DelayQueue.copies, List.count_append] at h0
      omega
    | running hr hd =>
      refine .gone ?_ fun o ho => (hd o ho).mono hnow
      rw [hl]
      exact hr.drop ha

end

/-! ## Runs -/

section
variable {W V : Type} [DecidableEq W] (c : QueueConfig) (cronjobPrefix : String)
  (crons : List (CronJob V)) (cron : CronJob V)

/-- The event leaves at most one run for each occurrence. -/
def KeepsOnce (p : CronQueue W V × List Occurrence) (e : CronEv W V) : Prop :=
  ∀ p', (notedCron c cronjobPrefix crons cron).step p e = some p' →
    Once (p'.1.lane cron) (cron.id c cronjobPrefix) p'.2

/-- An accepted enqueue is of a round that read the clock when the time of the last one had come. -/
def InTurn (p : CronQueue W V × List Occurrence) : CronEv W V → Prop
  | .enqueue w queued =>
    match p.1.place w with
    | .enqueueing _ now =>
      (p.1.accepted c cronjobPrefix cron (.enqueue w queued)).isSome = true →
        ∀ o ∈ p.2.head?, (o.scheduled : ℚ) ≤ seconds now
    | _ => True
  | _ => True

/-- The enqueue script runs before the time that was computed. -/
def Prompt (p : CronQueue W V × List Occurrence) : CronEv W V → Prop
  | .enqueue w _ =>
    match p.1.place w with
    | .enqueueing cron' now => seconds p.1.now < cron'.nextScheduled (seconds now)
    | _ => True
  | _ => True

/-- What every run keeps. -/
structure CronInv (p : CronQueue W V × List Occurrence) : Prop where
  timely : ∀ w, Timely crons p.1.now (p.1.place w)
  stage : Stage (p.1.lane cron) (cron.id c cronjobPrefix) p.1.now p.2
  computed : ∀ o ∈ p.2.map Occurrence.scheduled, ∃ t, o = cron.nextScheduled t

variable {c cronjobPrefix crons cron} {p p' : CronQueue W V × List Occurrence} {e : CronEv W V}

theorem cronInv_step (hnext : ∀ t, t < cron.nextScheduled t)
    (hid : ∀ cron' ∈ crons, cron'.id c cronjobPrefix = cron.id c cronjobPrefix → cron' = cron)
    (hi : CronInv c cronjobPrefix crons cron p)
    (h : (notedCron c cronjobPrefix crons cron).step p e = some p') :
    CronInv c cronjobPrefix crons cron p' ∧
      CronStep c cronjobPrefix cron p.1 p'.1 e ∧
      p'.2 = noteCron c cronjobPrefix crons cron p.2 p.1 e := by
  obtain ⟨hs, hn⟩ := Machine.observe_step.1 h
  have hc := cronStep_of_step hid hi.timely hs
  refine ⟨⟨timely_step hi.timely hs, ?_, ?_⟩, hc, hn⟩
  · rw [hn]
    exact stage_step hnext hi.timely hs hc hi.stage
  · rw [hn, map_noteCron]
    intro o ho
    rcases List.mem_append.1 ho with ho | ho
    · cases hc with
      | accepted _ _ _ ha =>
        rw [ha] at ho
        exact ⟨_, List.mem_singleton.1 ho⟩
      | other _ ha => rw [ha] at ho; cases ho
      | promoted | finished => cases ho
    · exact hi.computed o ho

/-- What is left to show is that the time of an accepted enqueue is later than the last one. -/
theorem once_step (hnext : ∀ t, t < cron.nextScheduled t)
    (hid : ∀ cron' ∈ crons, cron'.id c cronjobPrefix = cron.id c cronjobPrefix → cron' = cron)
    (hi : CronInv c cronjobPrefix crons cron p)
    (hinc : (p.2.map Occurrence.scheduled).Pairwise (· > ·))
    (h : (notedCron c cronjobPrefix crons cron).step p e = some p') :
    Once (p'.1.lane cron) (cron.id c cronjobPrefix) p'.2 ↔
      ∀ t ∈ p.1.accepted c cronjobPrefix cron e, ∀ o ∈ p.2.head?, o.scheduled < t := by
  obtain ⟨hi', -, hn⟩ := cronInv_step hnext hid hi h
  have hincr : (p'.2.map Occurrence.scheduled).Pairwise (· > ·) ↔
      ∀ t ∈ p.1.accepted c cronjobPrefix cron e, ∀ o ∈ p.2.head?, o.scheduled < t := by
    rw [hn, map_noteCron]
    cases p.1.accepted c cronjobPrefix cron e with
    | none => exact iff_of_true hinc (by simp)
    | some t =>
      rw [← List.isChain_iff_pairwise] at hinc ⊢
      simp [List.isChain_cons, hinc]
  refine ⟨fun ho => hincr.1 ho.increasing, fun hlt => ?_⟩
  have hpushes := pushes_of_stage hi'.stage
  exact ⟨pendingRuns_le_one hi'.stage, hincr.2 hlt, fun o ho => (hpushes o ho).1,
    fun o ho => (hpushes o ho).2⟩

theorem cronInv_of_run (hnext : ∀ t, t < cron.nextScheduled t)
    (hid : ∀ cron' ∈ crons, cron'.id c cronjobPrefix = cron.id c cronjobPrefix → cron' = cron)
    {C : CronQueue W V × List Occurrence → CronEv W V → Prop} {es : List (CronEv W V)}
    (h : (notedCron c cronjobPrefix crons cron).Run C (notedCron c cronjobPrefix crons cron).init es
      p) : CronInv c cronjobPrefix crons cron p := by
  have hgone : (({} : CronQueue W V).lane cron).Gone (cron.id c cronjobPrefix) :=
    DelayQueue.gone_iff.2 ⟨rfl, rfl⟩
  have hinit : CronInv c cronjobPrefix crons cron (notedCron (W := W) c cronjobPrefix crons cron).init :=
    { timely := fun _ => trivial
      stage := .gone hgone (by simp [notedCron, Machine.observe])
      computed := by simp [notedCron, Machine.observe] }
  exact h.inv _ hinit fun _ _ _ hi _ hs => (cronInv_step hnext hid hi hs).1

omit [DecidableEq W] in
/-- The time of an enqueue in turn is later than the last one. -/
theorem lt_of_inTurn (hnext : ∀ t, t < cron.nextScheduled t)
    (hc : CronStep c cronjobPrefix cron p.1 p'.1 e) (ht : InTurn c cronjobPrefix cron p e) :
    ∀ t ∈ p.1.accepted c cronjobPrefix cron e, ∀ o ∈ p.2.head?, o.scheduled < t := by
  intro t hacc o ho
  cases hc with
  | other _ ha => rw [ha] at hacc; cases hacc
  | @accepted w queued now hp _ _ ha =>
    obtain rfl := Option.some.inj (ha.symm.trans hacc)
    simp only [InTurn, hp, ha, Option.isSome_some, forall_const] at ht
    exact_mod_cast (ht o ho).trans_lt (hnext _)
  | promoted | finished => cases hacc

omit [DecidableEq W] in
/-- With the least next times, no other is. -/
theorem inTurn_of_lt
    (hleast : ∀ t u : ℚ, t < cron.nextScheduled u → cron.nextScheduled t ≤ cron.nextScheduled u)
    (hi : CronInv c cronjobPrefix crons cron p) (hc : CronStep c cronjobPrefix cron p.1 p'.1 e)
    (hlt : ∀ t ∈ p.1.accepted c cronjobPrefix cron e, ∀ o ∈ p.2.head?, o.scheduled < t) :
    InTurn c cronjobPrefix cron p e := by
  cases e with
  | enqueue w queued =>
    simp only [InTurn]
    split
    · rename_i cron' now hp
      intro hsome o ho
      cases hc with
      | other _ ha => rw [ha] at hsome; cases hsome
      | @accepted _ _ now' hp' _ _ ha =>
        cases hp.symm.trans hp'
        obtain ⟨u, hu⟩ := hi.computed o.scheduled (List.mem_map_of_mem (List.mem_of_mem_head? ho))
        by_contra hlate
        have hle := hleast (seconds now) u (hu ▸ not_le.1 hlate)
        have hlater := hlt _ ha o ho
        omega
    · trivial
  | _ => trivial

omit [DecidableEq W] in
/-- A prompt enqueue is later than the last one, whose time has come. -/
theorem lt_of_prompt (hi : CronInv c cronjobPrefix crons cron p)
    (hc : CronStep c cronjobPrefix cron p.1 p'.1 e) (ht : Prompt p e) :
    ∀ t ∈ p.1.accepted c cronjobPrefix cron e, ∀ o ∈ p.2.head?, o.scheduled < t := by
  intro t hacc o ho
  cases hc with
  | other _ ha => rw [ha] at hacc; cases hacc
  | @accepted w queued now hp hscore _ ha =>
    obtain rfl := Option.some.inj (ha.symm.trans hacc)
    obtain ⟨-, hd⟩ := hi.stage.done_of_score hscore
    obtain ⟨u, -, hs, hu⟩ := hd o (List.mem_of_mem_head? ho)
    have hpast : seconds u ≤ seconds p.1.now := by
      unfold seconds
      gcongr
    simp only [Prompt, hp] at ht
    exact_mod_cast (hs.trans hpast).trans_lt ht
  | promoted | finished => cases hacc

/-- Through a run, the times of the accepted enqueues increase. -/
theorem increasing_of_run {es : List (CronEv W V)}
    (h : (notedCron c cronjobPrefix crons cron).Run (KeepsOnce c cronjobPrefix crons cron)
      (notedCron c cronjobPrefix crons cron).init es p) :
    (p.2.map Occurrence.scheduled).Pairwise (· > ·) := by
  cases h with
  | nil => exact .nil
  | snoc _ hk hs => exact (hk _ hs).increasing

/-- A run whose accepted enqueues are later than the last ones keeps one run for each occurrence. -/
theorem keepsOnce_of_run (hnext : ∀ t, t < cron.nextScheduled t)
    (hid : ∀ cron' ∈ crons, cron'.id c cronjobPrefix = cron.id c cronjobPrefix → cron' = cron)
    {C : CronQueue W V × List Occurrence → CronEv W V → Prop}
    (hC : ∀ {p p' : CronQueue W V × List Occurrence} {e}, CronInv c cronjobPrefix crons cron p →
      CronStep c cronjobPrefix cron p.1 p'.1 e → C p e →
      ∀ t ∈ p.1.accepted c cronjobPrefix cron e, ∀ o ∈ p.2.head?, o.scheduled < t)
    {es : List (CronEv W V)}
    (h : (notedCron c cronjobPrefix crons cron).Run C (notedCron c cronjobPrefix crons cron).init es
      p) :
    (notedCron c cronjobPrefix crons cron).Run (KeepsOnce c cronjobPrefix crons cron)
      (notedCron c cronjobPrefix crons cron).init es p := by
  refine h.imp fun hr hk hc hs p' hp' => ?_
  have hi := cronInv_of_run hnext hid hr
  have hstep := (cronInv_step hnext hid hi hp').2.1
  exact (once_step hnext hid hi (increasing_of_run hk) hp').2 (hC hi hstep hc)

/-- **One run for each occurrence**, in every run whose enqueues are in turn; if the next times are the
least ones, in no others. Prompt enqueues are enough. -/
theorem run_once_iff (hnext : ∀ t, t < cron.nextScheduled t)
    (hid : ∀ cron' ∈ crons, cron'.id c cronjobPrefix = cron.id c cronjobPrefix → cron' = cron)
    {es : List (CronEv W V)} :
    let M := notedCron (W := W) c cronjobPrefix crons cron
    let Keeps := M.Run (KeepsOnce c cronjobPrefix crons cron) M.init es p
    (M.Run (InTurn c cronjobPrefix cron) M.init es p → Keeps) ∧
      ((∀ t u : ℚ, t < cron.nextScheduled u → cron.nextScheduled t ≤ cron.nextScheduled u) →
        Keeps → M.Run (InTurn c cronjobPrefix cron) M.init es p) ∧
      (M.Run Prompt M.init es p → Keeps) := by
  intro M Keeps
  refine ⟨keepsOnce_of_run hnext hid fun _ hc ht => lt_of_inTurn hnext hc ht, fun hleast h => ?_,
    keepsOnce_of_run hnext hid lt_of_prompt⟩
  change M.Run _ _ _ _ at h
  refine h.imp fun hr _ hk hs => ?_
  have hi := cronInv_of_run hnext hid hr
  have hstep := (cronInv_step hnext hid hi hs).2.1
  exact inTurn_of_lt hleast hi hstep ((once_step hnext hid hi (increasing_of_run hr) hs).1 (hk _ hs))

end

/-! ## Two workers and a cron job for every minute -/

instance {W V : Type} [DecidableEq W] (c : QueueConfig) (cronjobPrefix : String)
    (cron : CronJob V) (p : CronQueue W V × List Occurrence) :
    ∀ e, Decidable (InTurn c cronjobPrefix cron p e)
  | .enqueue w queued =>
    match h : p.1.place w with
    | .enqueueing _ now =>
      decidable_of_iff ((p.1.accepted c cronjobPrefix cron (.enqueue w queued)).isSome = true →
        ∀ o ∈ p.2.head?, (o.scheduled : ℚ) ≤ seconds now) (by simp [InTurn, h])
    | .idle | .enqueued | .scheduling .. => .isTrue (by simp [InTurn, h])
  | .tick .. | .ask .. | .schedule .. | .dequeue _ | .finish .. | .advance _ => .isTrue trivial

/-- A cron job for every full minute. -/
def everyMinute : CronJob String where
  functionName := "f"
  queueName := "global"
  nextScheduled now := 60 * (now / 60).floor + 60
  defaults := { function := "f", key := "f" }

theorem everyMinute_gt (t : ℚ) : t < everyMinute.nextScheduled t := by
  have h := Rat.lt_floor_add_one (t / 60)
  show t < ((60 * (t / 60).floor + 60 : ℤ) : ℚ)
  push_cast at h ⊢
  linarith

theorem everyMinute_least (t u : ℚ) (h : t < everyMinute.nextScheduled u) :
    everyMinute.nextScheduled t ≤ everyMinute.nextScheduled u := by
  change t < ((60 * (u / 60).floor + 60 : ℤ) : ℚ) at h
  show 60 * (t / 60).floor + 60 ≤ 60 * (u / 60).floor + 60
  have hlt : (t / 60).floor < (u / 60).floor + 1 := by
    rw [Rat.floor_lt_iff]
    push_cast at h ⊢
    linarith
  omega

/-- Both workers are about to enqueue the run for second 60. The first one does, and the run is
pushed, served and completed. -/
def firstRun : List (CronEv ℕ String) :=
  [.advance 59000, .tick 1 0, .tick 2 0, .enqueue 1 0, .advance 1000, .ask 1 none, .schedule 1 1,
    .dequeue none, .finish (everyMinute.job {} "cronjob" 59) none 60000]

/-- Then the first worker enqueues the next run. -/
theorem run_once_next :
    let M := notedCron (W := ℕ) {} "cronjob" [everyMinute] everyMinute
    let es := firstRun ++ [.tick 1 0, .enqueue 1 0]
    ∃ p, M.Run (KeepsOnce {} "cronjob" [everyMinute] everyMinute) M.init es p ∧
      M.Run (InTurn {} "cronjob" everyMinute) M.init es p ∧
      p.2 = [{ scheduled := 120 }, { scheduled := 60, pushes := [60000] }] := by
  intro M es
  obtain ⟨p, hr, hlog⟩ : ∃ p, M.Run (InTurn {} "cronjob" everyMinute) M.init es p ∧
      p.2 = [{ scheduled := 120 }, { scheduled := 60, pushes := [60000] }] :=
    Machine.exists_run (by decide +kernel) (by decide +kernel)
  obtain ⟨hkeeps, hturn, -⟩ := run_once_iff (W := ℕ) (c := {}) (p := p) everyMinute_gt
    fun cron' hm _ => List.mem_singleton.1 hm
  exact ⟨p, hkeeps hr, hturn everyMinute_least (hkeeps hr), hlog⟩

/-- But if the second worker's script runs now, the run for second 60 is there again. -/
theorem run_once_broken :
    let M := notedCron (W := ℕ) {} "cronjob" [everyMinute] everyMinute
    ∃ p, M.Run Machine.Any M.init
        (firstRun ++ [.enqueue 2 0, .advance 1000, .ask 2 none, .schedule 2 1]) p ∧
      p.2 = [{ scheduled := 60, pushes := [61000] }, { scheduled := 60, pushes := [60000] }] ∧
      ¬ Once (p.1.lane everyMinute) (everyMinute.id {} "cronjob") p.2 := by
  intro M
  obtain ⟨p, hr, hlog⟩ : ∃ p, M.Run Machine.Any M.init
        (firstRun ++ [.enqueue 2 0, .advance 1000, .ask 2 none, .schedule 2 1]) p ∧
      p.2 = [{ scheduled := 60, pushes := [61000] }, { scheduled := 60, pushes := [60000] }] :=
    Machine.exists_run (by decide +kernel) (by decide +kernel)
  refine ⟨p, hr, hlog, fun h => ?_⟩
  have hinc := h.increasing
  rw [hlog] at hinc
  exact absurd hinc (by decide)

end Kvdb
