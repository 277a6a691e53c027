import Mathlib.Algebra.GroupWithZero.Nat
import Mathlib.Data.List.Nodup
import Kvdb.Tasks.Wait

/-!
# Every completed job is given once

`PollInv`: the jobs that are still polled, with their refreshes, and what has been given so far. A
round (`pollStep_cases`) keeps a job, or takes it off the list and gives what it ends with, or
raises, which it does only for a job that is not `Refreshable`. Every refresh brings a job nearer to
its end (`toPoll`), so the loop ends.
-/

namespace Kvdb

variable {V R : Type}

/-! ## Lists of jobs with different keys -/

theorem removeJob_middle {xs ys : List (Job V)} {job : Job V} {key : String}
    (hx : key ∉ xs.map Job.key) (hk : job.key = key) :
    removeJob (xs ++ job :: ys) key = some (xs ++ ys) := by
  have hxs : ∀ b ∈ xs, ¬ decide (b.key = key) = true := by
    intro b hb h
    exact hx (List.mem_map.2 ⟨b, hb, of_decide_eq_true h⟩)
  have hany : ((xs ++ job :: ys).any fun job => job.key = key) = true := by simp [hk]
  rw [removeJob, if_pos hany, List.eraseP_append_right _ hxs,
    List.eraseP_cons_of_pos (by simpa using hk)]

theorem removeJob_none {jobs : List (Job V)} {key : String} (h : key ∉ jobs.map Job.key) :
    removeJob jobs key = none := by
  refine if_neg fun hany => h ?_
  obtain ⟨job, hjob, hk⟩ := List.any_eq_true.1 hany
  exact List.mem_map.2 ⟨job, hjob, of_decide_eq_true hk⟩

theorem set_middle (xs ys : List (Job V)) (job job' : Job V) :
    (xs ++ job :: ys).set xs.length job' = xs ++ job' :: ys := by
  simp

/-- The job at a position, with what is before and after it. -/
theorem exists_split {jobs : List (Job V)} {i : ℕ} {job : Job V} (h : jobs[i]? = some job) :
    ∃ xs ys, jobs = xs ++ job :: ys ∧ xs.length = i := by
  obtain ⟨hi, hget⟩ := List.getElem?_eq_some_iff.1 h
  refine ⟨jobs.take i, jobs.drop (i + 1), ?_, List.length_take_of_le hi.le⟩
  rw [← hget, List.getElem_cons_drop, List.take_append_drop]

/-! ## A round -/

section
variable {cfg : PollConfig V R} {s : Poll V R} {job : Job V}

theorem checkJob_running (h : job.status ∉ terminalJobStatuses) : checkJob cfg s job = .running s := by
  have hcomplete : job.status ≠ .complete := fun he => h (by simp [he, terminalJobStatuses])
  have hfailed : job.status ∉ unsuccessfulTerminalJobStatuses := fun hf =>
    h (List.mem_of_mem_filter hf)
  rw [checkJob, if_neg hcomplete, if_neg hfailed]

theorem checkJob_complete (h : job.status = .complete) {jobs : List (Job V)}
    (hr : removeJob s.jobs job.key = some jobs) :
    checkJob cfg s job = .running { s with jobs, results := s.results ++ [cfg.give job] } := by
  simp only [checkJob, if_pos h, hr]

theorem checkJob_failed (hcfg : cfg.raiseExceptions = false) (h : job.status ∈ terminalJobStatuses)
    (hc : job.status ≠ .complete) {jobs : List (Job V)}
    (hr : removeJob s.jobs job.key = some jobs) :
    checkJob cfg s job = .running { s with jobs } := by
  have hfailed : job.status ∈ unsuccessfulTerminalJobStatuses :=
    List.mem_filter.2 ⟨h, by simpa using hc⟩
  simp only [checkJob, if_neg hc, if_pos hfailed, hcfg, Bool.false_eq_true, if_false, hr]

/-- A terminal job that is not in the list any more. -/
theorem checkJob_raised (s : Poll V R) (hcfg : cfg.raiseExceptions = false)
    (h : job.status ∈ terminalJobStatuses)
    (hr : removeJob s.jobs job.key = none) : ∃ results, checkJob cfg s job = .raised results := by
  by_cases hc : job.status = .complete
  · exact ⟨s.results ++ [cfg.give job], by simp only [checkJob, if_pos hc, hr]⟩
  · have hfailed : job.status ∈ unsuccessfulTerminalJobStatuses :=
      List.mem_filter.2 ⟨h, by simpa using hc⟩
    refine ⟨s.results, ?_⟩
    simp only [checkJob, if_neg hc, if_pos hfailed, hcfg, Bool.false_eq_true, if_false, hr]

end

/-! ## A refresh -/

theorem refreshed_key (job : Job V) (v : Visit V) : (v.refreshed job).key = job.key := by
  cases v <;> rfl

section
variable {v : Visit V} (hm : v ≠ .missing) (hl : v ≠ .lost)
include hm hl

/-- The copy is terminal when the record is. -/
theorem refreshed_terminal (job : Job V) :
    (v.refreshed job).status ∈ terminalJobStatuses ↔ v.ends = true := by
  cases v with
  | read fetched | reread fetched => simp [Visit.refreshed, Visit.ends]
  | missing => exact absurd rfl hm
  | enqueued => simp [Visit.refreshed, Visit.ends, terminalJobStatuses]
  | lost => exact absurd rfl hl

theorem completed?_eq (give : Job V → R) (job : Job V) :
    (v.completed?.map fun fetched => give { fetched with key := job.key }) =
      if (v.refreshed job).status = .complete then some (give (v.refreshed job)) else none := by
  cases v with
  | read fetched | reread fetched =>
    by_cases h : fetched.status = .complete <;> simp [Visit.completed?, Visit.refreshed, h]
  | missing => exact absurd rfl hm
  | enqueued => rfl
  | lost => exact absurd rfl hl

theorem pollJob_check (cfg : PollConfig V R) (s : Poll V R) (job : Job V) :
    pollJob cfg s job v =
      checkJob cfg { s with jobs := s.jobs.set s.i (v.refreshed job), i := s.i + 1 }
        (v.refreshed job) := by
  cases v with
  | read fetched | reread fetched => rfl
  | missing => exact absurd rfl hm
  | enqueued => rfl
  | lost => exact absurd rfl hl

end

/-! ## The invariant -/

theorem EndsAt.ends_iff {v : ℕ → Visit V} {n k : ℕ} (h : EndsAt v n) (hk : k ≤ n) :
    (v k).ends = true ↔ k = n := by
  constructor
  · intro he
    by_contra hne
    exact absurd (h.2 k (by omega)) (by simp [he])
  · intro he
    rw [he]
    exact h.1

section
variable (cfg : PollConfig V R) (visits : String → ℕ → Visit V) (n : String → ℕ)
  (jobs₀ : List (Job V))

/-- What the loop owes for a key. -/
def owed (key : String) : Option R :=
  (visits key (n key)).completed?.map fun fetched => cfg.give { fetched with key }

/-- The loop is under way on the jobs `jobs₀`. -/
structure PollInv (s : Poll V R) : Prop where
  nodup : (s.jobs.map Job.key).Nodup
  source : ∀ job ∈ s.jobs, job.key ∈ jobs₀.map Job.key
  bound : ∀ job ∈ s.jobs, s.seen job.key ≤ n job.key
  fresh : ∀ job ∈ s.jobs, s.seen job.key = 0 → ∀ job₀ ∈ jobs₀, job₀.key = job.key → job₀ = job
  polled : ∀ job ∈ s.jobs, s.seen job.key ≠ 0 → job.status ∉ terminalJobStatuses
  done : ∀ job₀ ∈ jobs₀, job₀.key ∉ s.jobs.map Job.key → Refreshable visits n job₀
  results : (s.results ++ (s.jobs.map Job.key).filterMap (owed cfg visits n)).Perm
    ((jobs₀.map Job.key).filterMap (owed cfg visits n))

/-- The loop after a refresh for this key. -/
def Poll.next (s : Poll V R) (key : String) (jobs : List (Job V)) (results : List R) : Poll V R :=
  { s with jobs, results, i := s.i + 1, seen := Function.update s.seen key (s.seen key + 1) }

/-- What a round for `job`, between `xs` and `ys`, can do. -/
inductive PollCase (s : Poll V R) (xs ys : List (Job V)) (job : Job V) : Polled V R → Prop
  | kept (job' : Job V) (hkey : job'.key = job.key) (hstatus : job'.status ∉ terminalJobStatuses)
      (hseen : s.seen job.key < n job.key) :
    PollCase s xs ys job (.running (s.next job.key (xs ++ job' :: ys) s.results))
  | taken (hgood : ∀ job₀ ∈ jobs₀, job₀.key = job.key → Refreshable visits n job₀) :
    PollCase s xs ys job (.running (s.next job.key (xs ++ ys)
      (s.results ++ (owed cfg visits n job.key).toList)))
  | raised (results : List R) (job₀ : Job V) (hmem : job₀ ∈ jobs₀)
      (hbad : ¬ Refreshable visits n job₀) : PollCase s xs ys job (.raised results)

end

section
variable {cfg : PollConfig V R} {visits : String → ℕ → Visit V} {n : String → ℕ}
  {jobs₀ : List (Job V)} {s : Poll V R} {xs ys : List (Job V)} {job : Job V}

/-- The other jobs have other keys. -/
theorem PollInv.key_notMem (h : PollInv cfg visits n jobs₀ s) (hjobs : s.jobs = xs ++ job :: ys) :
    job.key ∉ (xs ++ ys).map Job.key := by
  have hnd := h.nodup
  rw [hjobs, List.map_append, List.map_cons, List.perm_middle.nodup_iff, List.nodup_cons,
    ← List.map_append] at hnd
  exact hnd.1

theorem removeJob_of_notMem {key : String} (h : key ∉ (xs ++ ys).map Job.key) (hk : job.key = key) :
    removeJob (xs ++ job :: ys) key = some (xs ++ ys) := by
  rw [List.map_append, List.mem_append, not_or] at h
  exact removeJob_middle h.1 hk

/-- Only a job that ends at its first refresh has no record then. -/
theorem EndsAt.eq_zero {v : ℕ → Visit V} {k : ℕ} (h : EndsAt v k) (hv : v 0 = .missing) : k = 0 :=
  ((h.ends_iff (Nat.zero_le k)).1 (by rw [hv]; rfl)).symm

/-- A round at whose refresh there is no record. -/
theorem PollInv.missing_case (h : PollInv cfg visits n jobs₀ s) (hcfg : cfg.raiseExceptions = false)
    (hjobs : s.jobs = xs ++ job :: ys) (hend : EndsAt (visits job.key) (n job.key))
    (hv : visits job.key (s.seen job.key) = .missing) :
    PollCase cfg visits n jobs₀ s xs ys job
      (pollJob cfg { s with seen := Function.update s.seen job.key (s.seen job.key + 1) } job
        .missing) := by
  have hmem : job ∈ s.jobs := by simp [hjobs]
  have hkey := h.key_notMem hjobs
  have hseen : s.seen job.key = n job.key := (hend.ends_iff (h.bound job hmem)).1 (by rw [hv]; rfl)
  have hremove : removeJob s.jobs job.key = some (xs ++ ys) := by
    rw [hjobs]
    exact removeJob_of_notMem hkey rfl
  simp only [pollJob, hcfg, Bool.false_eq_true, if_false, hremove]
  by_cases hstatus : job.status ∈ terminalJobStatuses
  · -- the copy is as the caller passed it, and it is removed once more
    have hfirst : s.seen job.key = 0 := by
      by_contra hne
      exact h.polled job hmem hne hstatus
    obtain ⟨results, hraised⟩ := checkJob_raised (s.next job.key (xs ++ ys) s.results) hcfg
      hstatus (removeJob_none hkey)
    simp only [Poll.next] at hraised
    rw [hraised]
    obtain ⟨job₀, hmem₀, hkey₀⟩ := List.mem_map.1 (h.source job hmem)
    refine .raised _ job₀ hmem₀ fun hgood => ?_
    rw [h.fresh job hmem hfirst job₀ hmem₀ hkey₀] at hgood
    exact hgood.2 (by rw [← hfirst, hv]) hstatus
  · rw [checkJob_running hstatus]
    have hgood : ∀ job₁ ∈ jobs₀, job₁.key = job.key → Refreshable visits n job₁ := by
      intro job₁ hmem₁ hkey₁
      refine ⟨by rw [hkey₁, ← hseen, hv]; exact nofun, fun hv₀ => ?_⟩
      rw [hkey₁] at hv₀
      rwa [h.fresh job hmem (hseen.trans (hend.eq_zero hv₀)) job₁ hmem₁ hkey₁]
    have howed : owed cfg visits n job.key = none := by
      rw [owed, ← hseen, hv]
      rfl
    have htaken : PollCase cfg visits n jobs₀ s xs ys job _ := .taken hgood
    rwa [howed, Option.toList_none, List.append_nil] at htaken

/-- A round at whose refresh, or the `enqueue` after it, the job has a status. -/
theorem PollInv.check_case (h : PollInv cfg visits n jobs₀ s) (hcfg : cfg.raiseExceptions = false)
    (hjobs : s.jobs = xs ++ job :: ys) (hi : xs.length = s.i)
    (hend : EndsAt (visits job.key) (n job.key)) {v : Visit V}
    (hv : visits job.key (s.seen job.key) = v) (hmissing : v ≠ .missing) (hlost : v ≠ .lost) :
    PollCase cfg visits n jobs₀ s xs ys job
      (pollJob cfg { s with seen := Function.update s.seen job.key (s.seen job.key + 1) } job v) := by
  have hmem : job ∈ s.jobs := by simp [hjobs]
  have hlast := hend.ends_iff (h.bound job hmem)
  rw [hv] at hlast
  have hkey := refreshed_key job v
  have hset : s.jobs.set s.i (v.refreshed job) = xs ++ v.refreshed job :: ys := by
    rw [hjobs, ← hi, set_middle]
  rw [pollJob_check hmissing hlost]
  simp only [hset]
  by_cases hends : v.ends = true
  · have hseen := hlast.1 hends
    have hterminal := (refreshed_terminal hmissing hlost job).2 hends
    have hremove : removeJob (xs ++ v.refreshed job :: ys) (v.refreshed job).key = some (xs ++ ys) :=
      removeJob_of_notMem (hkey.symm ▸ h.key_notMem hjobs) rfl
    have hgood : ∀ job₁ ∈ jobs₀, job₁.key = job.key → Refreshable visits n job₁ := by
      intro job₁ _ hkey₁
      refine ⟨by rw [hkey₁, ← hseen, hv]; exact hlost, fun hv₀ => ?_⟩
      rw [hkey₁] at hv₀
      refine absurd ?_ hmissing
      rw [← hv, hseen, hend.eq_zero hv₀, hv₀]
    have htaken : PollCase cfg visits n jobs₀ s xs ys job _ := .taken hgood
    have howed := completed?_eq hmissing hlost cfg.give job
    rw [← hv, hseen, ← owed, ← hseen, hv] at howed
    by_cases hc : (v.refreshed job).status = .complete
    · rw [checkJob_complete hc hremove]
      rw [howed, if_pos hc, Option.toList_some] at htaken
      exact htaken
    · rw [checkJob_failed hcfg hterminal hc hremove]
      rw [howed, if_neg hc, Option.toList_none, List.append_nil] at htaken
      exact htaken
  · have hseen : s.seen job.key < n job.key :=
      lt_of_le_of_ne (h.bound job hmem) fun he => hends (hlast.2 he)
    have hstatus := mt (refreshed_terminal hmissing hlost job).1 hends
    rw [checkJob_running hstatus]
    exact .kept _ hkey hstatus hseen

/-- A round is one of the cases. -/
theorem pollStep_cases (hcfg : cfg.raiseExceptions = false)
    (hends : ∀ job₀ ∈ jobs₀, EndsAt (visits job₀.key) (n job₀.key))
    (h : PollInv cfg visits n jobs₀ s) (hjobs : s.jobs = xs ++ job :: ys) (hi : xs.length = s.i) :
    PollCase cfg visits n jobs₀ s xs ys job (pollStep cfg visits (.running s)) := by
  have hmem : job ∈ s.jobs := by simp [hjobs]
  have hget : s.jobs[s.i]? = some job := by simp [hjobs, ← hi]
  obtain ⟨job₀, hmem₀, hkey₀⟩ := List.mem_map.1 (h.source job hmem)
  have hend : EndsAt (visits job.key) (n job.key) := hkey₀ ▸ hends job₀ hmem₀
  simp only [pollStep, hget]
  cases hv : visits job.key (s.seen job.key) with
  | lost =>
    have hseen := (hend.ends_iff (h.bound job hmem)).1 (by rw [hv]; rfl)
    refine .raised _ job₀ hmem₀ fun hgood => hgood.1 ?_
    rw [hkey₀, ← hseen, hv]
  | missing => exact h.missing_case hcfg hjobs hend hv
  | read fetched | enqueued | reread fetched =>
    exact h.check_case hcfg hjobs hi hend hv nofun nofun

/-! ## The rounds keep the invariant -/

theorem Poll.next_seen (s : Poll V R) (key : String) (jobs : List (Job V)) (results : List R) :
    (s.next key jobs results).seen key = s.seen key + 1 :=
  Function.update_self ..

theorem PollInv.seen_eq (h : PollInv cfg visits n jobs₀ s) (hjobs : s.jobs = xs ++ job :: ys)
    {job₁ : Job V} (hmem : job₁ ∈ xs ++ ys) (jobs : List (Job V)) (results : List R) :
    (s.next job.key jobs results).seen job₁.key = s.seen job₁.key := by
  refine Function.update_of_ne (fun he => h.key_notMem hjobs ?_) ..
  rw [← he]
  exact List.mem_map_of_mem hmem

theorem mem_jobs_of_mem (hjobs : s.jobs = xs ++ job :: ys) {job₁ : Job V} (hmem : job₁ ∈ xs ++ ys) :
    job₁ ∈ s.jobs := by
  rw [hjobs]
  exact List.perm_middle.mem_iff.2 (List.mem_cons_of_mem job hmem)

theorem PollInv.kept (h : PollInv cfg visits n jobs₀ s) (hjobs : s.jobs = xs ++ job :: ys)
    {job' : Job V} (hkey : job'.key = job.key) (hstatus : job'.status ∉ terminalJobStatuses)
    (hseen : s.seen job.key < n job.key) :
    PollInv cfg visits n jobs₀ (s.next job.key (xs ++ job' :: ys) s.results) := by
  have hmem : job ∈ s.jobs := by simp [hjobs]
  have hkeys : (xs ++ job' :: ys).map Job.key = s.jobs.map Job.key := by simp [hjobs, hkey]
  have hcases : ∀ job₁ ∈ xs ++ job' :: ys, job₁ = job' ∨ job₁ ∈ xs ++ ys := fun job₁ hmem₁ =>
    List.mem_cons.1 (List.perm_middle.mem_iff.1 hmem₁)
  have hself : (s.next job.key (xs ++ job' :: ys) s.results).seen job'.key = s.seen job.key + 1 := by
    rw [hkey, Poll.next_seen]
  refine {
    nodup := by simp only [Poll.next, hkeys]; exact h.nodup
    source := fun job₁ hmem₁ => ?_
    bound := fun job₁ hmem₁ => ?_
    fresh := fun job₁ hmem₁ hfirst => ?_
    polled := fun job₁ hmem₁ hfirst => ?_
    done := by simp only [Poll.next, hkeys]; exact h.done
    results := by simp only [Poll.next, hkeys]; exact h.results }
  · rcases hcases job₁ hmem₁ with rfl | hmem₁
    · rw [hkey]
      exact h.source job hmem
    · exact h.source job₁ (mem_jobs_of_mem hjobs hmem₁)
  · rcases hcases job₁ hmem₁ with rfl | hmem₁
    · rw [hself, hkey]
      omega
    · rw [h.seen_eq hjobs hmem₁]
      exact h.bound job₁ (mem_jobs_of_mem hjobs hmem₁)
  · rcases hcases job₁ hmem₁ with rfl | hmem₁
    · rw [hself] at hfirst
      omega
    · rw [h.seen_eq hjobs hmem₁] at hfirst
      exact h.fresh job₁ (mem_jobs_of_mem hjobs hmem₁) hfirst
  · rcases hcases job₁ hmem₁ with rfl | hmem₁
    · exact hstatus
    · rw [h.seen_eq hjobs hmem₁] at hfirst
      exact h.polled job₁ (mem_jobs_of_mem hjobs hmem₁) hfirst

/-- What is owed for the keys, one of them taken out. -/
theorem filterMap_perm {α β : Type} (f : α → Option β) (a : α) (as : List α) :
    (as.filterMap f ++ (f a).toList).Perm ((a :: as).filterMap f) := by
  cases h : f a with
  | none => simp [h]
  | some b =>
    rw [List.filterMap_cons_some h]
    exact List.perm_append_singleton b _

theorem PollInv.taken (h : PollInv cfg visits n jobs₀ s) (hjobs : s.jobs = xs ++ job :: ys)
    (hgood : ∀ job₀ ∈ jobs₀, job₀.key = job.key → Refreshable visits n job₀) :
    PollInv cfg visits n jobs₀ (s.next job.key (xs ++ ys)
      (s.results ++ (owed cfg visits n job.key).toList)) := by
  have hkeys : (s.jobs.map Job.key).Perm (job.key :: (xs ++ ys).map Job.key) := by
    rw [hjobs, List.map_append, List.map_cons, List.map_append]
    exact List.perm_middle
  refine {
    nodup := (List.nodup_cons.1 (hkeys.nodup_iff.1 h.nodup)).2
    source := fun job₁ hmem₁ => h.source job₁ (mem_jobs_of_mem hjobs hmem₁)
    bound := fun job₁ hmem₁ => ?_
    fresh := fun job₁ hmem₁ hfirst => ?_
    polled := fun job₁ hmem₁ hfirst => ?_
    done := fun job₁ hmem₁ hnot => ?_
    results := ?_ }
  · rw [h.seen_eq hjobs hmem₁]
    exact h.bound job₁ (mem_jobs_of_mem hjobs hmem₁)
  · rw [h.seen_eq hjobs hmem₁] at hfirst
    exact h.fresh job₁ (mem_jobs_of_mem hjobs hmem₁) hfirst
  · rw [h.seen_eq hjobs hmem₁] at hfirst
    exact h.polled job₁ (mem_jobs_of_mem hjobs hmem₁) hfirst
  · by_cases hk : job₁.key = job.key
    · exact hgood job₁ hmem₁ hk
    · refine h.done job₁ hmem₁ fun hin => ?_
      rcases List.mem_cons.1 (hkeys.mem_iff.1 hin) with he | hin
      · exact hk he
      · exact hnot hin
  · refine .trans ?_ h.results
    simp only [Poll.next]
    rw [List.append_assoc]
    refine .append_left _ (List.perm_append_comm.trans ?_)
    exact (filterMap_perm _ _ _).trans (hkeys.symm.filterMap _)

/-! ## The loop ends -/

/-- The refreshes that are left. -/
def toPoll (n : String → ℕ) (s : Poll V R) : ℕ :=
  (s.jobs.map fun job => n job.key + 1 - s.seen job.key).sum

theorem toPoll_next (h : PollInv cfg visits n jobs₀ s) (hjobs : s.jobs = xs ++ job :: ys)
    (results : List R) {jobs : List (Job V)}
    (hnext : jobs = xs ++ ys ∨ s.seen job.key < n job.key ∧
      ∃ job', job'.key = job.key ∧ jobs = xs ++ job' :: ys) :
    toPoll n (s.next job.key jobs results) < toPoll n s := by
  have hmem : job ∈ s.jobs := by simp [hjobs]
  have hbound := h.bound job hmem
  have hrest : ((xs ++ ys).map fun job₁ => n job₁.key + 1 -
      (s.next job.key jobs results).seen job₁.key) =
      (xs ++ ys).map fun job₁ => n job₁.key + 1 - s.seen job₁.key := by
    refine List.map_congr_left fun job₁ hmem₁ => ?_
    rw [h.seen_eq hjobs hmem₁]
  have hsum : toPoll n s = n job.key + 1 - s.seen job.key +
      ((xs ++ ys).map fun job₁ => n job₁.key + 1 - s.seen job₁.key).sum := by
    rw [toPoll, hjobs, (List.perm_middle.map _).sum_eq, List.map_cons, List.sum_cons]
  rcases hnext with rfl | ⟨hlt, job', hkey, rfl⟩
  · have hsum' : toPoll n (s.next job.key (xs ++ ys) results) = _ := congrArg List.sum hrest
    omega
  · have hsum' : toPoll n (s.next job.key (xs ++ job' :: ys) results) = n job.key + 1 -
        (s.seen job.key + 1) + ((xs ++ ys).map fun job₁ => n job₁.key + 1 - s.seen job₁.key).sum := by
      have hself := s.next_seen job.key (xs ++ job' :: ys) results
      have hjobs' : (s.next job.key (xs ++ job' :: ys) results).jobs = xs ++ job' :: ys := rfl
      rw [toPoll, hjobs', (List.perm_middle.map _).sum_eq, List.map_cons, List.sum_cons, hkey, hself, hrest]
    omega

section
variable (cfg : PollConfig V R) (visits : String → ℕ → Visit V) (n : String → ℕ)
  (jobs₀ : List (Job V))

/-- How the loop ends: it returns what is owed, or it raises because of a job that is not
refreshable. -/
inductive PollEnd : Polled V R → Prop
  | returned (results : List R) (hgood : ∀ job₀ ∈ jobs₀, Refreshable visits n job₀)
      (hperm : results.Perm ((jobs₀.map Job.key).filterMap (owed cfg visits n))) :
    PollEnd (.returned results)
  | raised (results : List R) (job₀ : Job V) (hmem : job₀ ∈ jobs₀)
      (hbad : ¬ Refreshable visits n job₀) : PollEnd (.raised results)

end

theorem PollInv.restart (h : PollInv cfg visits n jobs₀ s) :
    PollInv cfg visits n jobs₀ { s with i := 0, pass := s.pass + 1 } :=
  ⟨h.nodup, h.source, h.bound, h.fresh, h.polled, h.done, h.results⟩

theorem PollInv.finish (h : PollInv cfg visits n jobs₀ s) (hjobs : s.jobs = []) :
    PollEnd cfg visits n jobs₀ (.returned s.results) := by
  refine .returned _ (fun job₀ hmem₀ => h.done job₀ hmem₀ (by simp [hjobs])) ?_
  simpa [hjobs] using h.results

/-- Twice the refreshes that are left, and the end of the pass. -/
def pollMeasure (n : String → ℕ) (s : Poll V R) : ℕ :=
  2 * toPoll n s + if s.i < s.jobs.length then 0 else 1

theorem pollMeasure_lt {t : Poll V R} (hi : s.i < s.jobs.length) (h : toPoll n t < toPoll n s) :
    pollMeasure n t < pollMeasure n s := by
  simp only [pollMeasure, if_pos hi]
  split <;> omega

section
variable (hcfg : cfg.raiseExceptions = false) (hstops : ∀ pass, cfg.stops pass = false)
  (hends : ∀ job₀ ∈ jobs₀, EndsAt (visits job₀.key) (n job₀.key))

include hcfg hends in
/-- A round within a pass. -/
theorem PollInv.round (h : PollInv cfg visits n jobs₀ s) (hi : s.i < s.jobs.length) :
    (∃ t, pollStep cfg visits (.running s) = .running t ∧ PollInv cfg visits n jobs₀ t ∧
        pollMeasure n t < pollMeasure n s) ∨
      PollEnd cfg visits n jobs₀ (pollStep cfg visits (.running s)) := by
  obtain ⟨xs, ys, hjobs, hlen⟩ := exists_split (List.getElem?_eq_getElem hi)
  have hcases := pollStep_cases hcfg hends h hjobs hlen
  generalize pollStep cfg visits (.running s) = p at *
  cases hcases with
  | kept job' hkey hstatus hseen =>
    exact .inl ⟨_, rfl, h.kept hjobs hkey hstatus hseen,
      pollMeasure_lt hi (toPoll_next h hjobs _ (.inr ⟨hseen, job', hkey, rfl⟩))⟩
  | taken hgood =>
    exact .inl ⟨_, rfl, h.taken hjobs hgood, pollMeasure_lt hi (toPoll_next h hjobs _ (.inl rfl))⟩
  | raised results job₀ hmem₀ hbad => exact .inr (.raised results job₀ hmem₀ hbad)

include hstops in
/-- The end of a pass. -/
theorem PollInv.passEnd (h : PollInv cfg visits n jobs₀ s) (hi : ¬ s.i < s.jobs.length) :
    (∃ t, pollStep cfg visits (.running s) = .running t ∧ PollInv cfg visits n jobs₀ t ∧
        pollMeasure n t < pollMeasure n s) ∨
      PollEnd cfg visits n jobs₀ (pollStep cfg visits (.running s)) := by
  have hget : s.jobs[s.i]? = none := List.getElem?_eq_none (by omega)
  by_cases hjobs : s.jobs = []
  · have hstep : pollStep cfg visits (.running s) = .returned s.results := by
      simp [pollStep, hjobs]
    rw [hstep]
    exact .inr (h.finish hjobs)
  · have hpos : 0 < s.jobs.length := List.length_pos_iff.2 hjobs
    refine .inl ⟨{ s with i := 0, pass := s.pass + 1 }, by simp [pollStep, hget, hjobs, hstops],
      h.restart, ?_⟩
    have hsame : toPoll n ({ s with i := 0, pass := s.pass + 1 } : Poll V R) = toPoll n s := rfl
    simp only [pollMeasure, hsame, if_neg hi, if_pos hpos]
    omega

include hcfg hstops hends in
/-- **The loop ends**, by induction on the refreshes that are left. -/
theorem poll_ends (h : PollInv cfg visits n jobs₀ s) :
    ∃ k, PollEnd cfg visits n jobs₀ ((pollStep cfg visits)^[k] (.running s)) := by
  induction hm : pollMeasure n s using Nat.strong_induction_on generalizing s with
  | _ m ih =>
    have hstep : (∃ t, pollStep cfg visits (.running s) = .running t ∧
        PollInv cfg visits n jobs₀ t ∧ pollMeasure n t < pollMeasure n s) ∨
        PollEnd cfg visits n jobs₀ (pollStep cfg visits (.running s)) := by
      by_cases hi : s.i < s.jobs.length
      · exact h.round hcfg hends hi
      · exact h.passEnd hstops hi
    rcases hstep with ⟨t, ht, hinv, hlt⟩ | hend
    · obtain ⟨k, hk⟩ := ih _ (hm ▸ hlt) hinv rfl
      exact ⟨k + 1, by rwa [Function.iterate_succ_apply, ht]⟩
    · exact ⟨1, hend⟩

end

theorem pollInv_init (hnodup : (jobs₀.map Job.key).Nodup) :
    PollInv cfg visits n jobs₀ { jobs := jobs₀ } where
  nodup := hnodup
  source _ hmem := List.mem_map_of_mem hmem
  bound _ _ := Nat.zero_le _
  fresh job hmem _ job₀ hmem₀ hkey := List.inj_on_of_nodup_map hnodup hmem₀ hmem hkey
  polled _ _ hne := absurd rfl hne
  done _ hmem hnot := absurd (List.mem_map_of_mem hmem) hnot
  results := by simp

/-- An ended call stays as it is. -/
theorem iterate_returned (results : List R) (k : ℕ) :
    (pollStep cfg visits)^[k] (.returned results) = .returned results :=
  Function.iterate_fixed rfl k

theorem iterate_raised (results : List R) (k : ℕ) :
    (pollStep cfg visits)^[k] (.raised results) = .raised results :=
  Function.iterate_fixed rfl k

theorem returned_unique {jobs : List (Job V)} {results : List R} {k : ℕ} {p : Polled V R}
    (hr : Returns cfg visits jobs results)
    (hk : (pollStep cfg visits)^[k] (.running { jobs }) = p)
    (hp : ∀ k, (pollStep cfg visits)^[k] p = p) : p = .returned results := by
  obtain ⟨k', hk'⟩ := hr
  have hleft : (pollStep cfg visits)^[k' + k] (.running { jobs }) = p := by
    rw [Function.iterate_add_apply, hk, hp]
  have hright : (pollStep cfg visits)^[k + k'] (.running { jobs }) = .returned results := by
    rw [Function.iterate_add_apply, hk', iterate_returned]
  rw [← hleft, Nat.add_comm, hright]

/-- The loop returns what is owed if all jobs are refreshable, and nothing if one is not. -/
theorem returns_or_raises (cfg : PollConfig V R) (hcfg : cfg.raiseExceptions = false)
    (hstops : ∀ pass, cfg.stops pass = false) (hnodup : (jobs₀.map Job.key).Nodup)
    (hends : ∀ job₀ ∈ jobs₀, EndsAt (visits job₀.key) (n job₀.key)) :
    ((∀ job₀ ∈ jobs₀, Refreshable visits n job₀) ∧ ∃ results, Returns cfg visits jobs₀ results ∧
        results.Perm ((jobs₀.map Job.key).filterMap (owed cfg visits n))) ∨
      (∃ job₀ ∈ jobs₀, ¬ Refreshable visits n job₀) ∧ ∀ results, ¬ Returns cfg visits jobs₀ results := by
  obtain ⟨k, hend⟩ := poll_ends hcfg hstops hends (pollInv_init hnodup)
  generalize hp : (pollStep cfg visits)^[k] (.running { jobs := jobs₀ }) = p at hend
  cases hend with
  | returned results hgood hperm => exact .inl ⟨hgood, results, ⟨k, hp⟩, hperm⟩
  | raised results job₀ hmem hbad =>
    refine .inr ⟨⟨job₀, hmem, hbad⟩, fun results' hr => ?_⟩
    exact nomatch returned_unique hr hp (iterate_raised results)

end

/-! ## The two functions -/

section
variable {visits : String → ℕ → Visit V} {n : String → ℕ} {jobs : List (Job V)}

theorem owed_waitForJobs (key : String) :
    owed (waitForJobs false) visits n key = (visits key (n key)).completed?.map Job.result :=
  rfl

theorem owed_asJobsComplete (key : String) :
    owed (asJobsComplete false true fun _ => false) visits n key =
      (owed (waitForJobs false) visits n key).map .inl := by
  simp only [owed, Option.map_map]
  rfl

/-- **Waiting yields each result once**, with both functions, if and only if all jobs are
refreshable. -/
theorem yieldsOnce_iff (jobs : List (Job V)) (visits : String → ℕ → Visit V) (n : String → ℕ)
    (hnodup : (jobs.map Job.key).Nodup)
    (hends : ∀ job ∈ jobs, EndsAt (visits job.key) (n job.key)) :
    YieldsOnce jobs visits n ↔ ∀ job ∈ jobs, Refreshable visits n job := by
  have hwait := returns_or_raises (waitForJobs false) rfl (fun _ => rfl) hnodup hends
  have hcomplete :=
    returns_or_raises (asJobsComplete false true fun _ => false) rfl (fun _ => rfl) hnodup hends
  constructor
  · intro h
    obtain ⟨ws, ys, hws, -⟩ := h
    rcases hwait with ⟨hgood, -⟩ | ⟨-, hnone⟩
    · exact hgood
    · exact absurd hws (hnone ws)
  · intro hgood
    rcases hwait with ⟨-, ws, hws, hwperm⟩ | ⟨⟨job₀, hmem₀, hbad⟩, -⟩
    · rcases hcomplete with ⟨-, ys, hys, hyperm⟩ | ⟨⟨job₀, hmem₀, hbad⟩, -⟩
      · refine ⟨ws, ys, hws, hys, ?_, ?_⟩
        · rwa [List.filterMap_map] at hwperm
        · rw [funext owed_asJobsComplete, ← List.map_filterMap] at hyperm
          exact hyperm.trans (hwperm.symm.map _)
      · exact absurd (hgood job₀ hmem₀) hbad
    · exact absurd (hgood job₀ hmem₀) hbad

end

/-- Two jobs that are read as completed and as failed, the first one at its second refresh. -/
def exampleVisits (key : String) (k : ℕ) : Visit Unit :=
  if key = "a" then
    if k = 0 then .enqueued
    else .read { function := "f", key := "a", status := .complete, result := some () }
  else .read { function := "f", key := "b", status := .failed }

theorem yieldsOnce_example :
    ((["a", "b"].map fun key => ({ function := "f", key } : Job Unit).key).Nodup ∧
      ∀ key ∈ ["a", "b"], EndsAt (exampleVisits key) (if key = "a" then 1 else 0)) ∧
    YieldsOnce (["a", "b"].map fun key => ({ function := "f", key } : Job Unit)) exampleVisits
      fun key => if key = "a" then 1 else 0 :=
  ⟨⟨by decide, by decide⟩,
    (yieldsOnce_iff _ _ _ (by decide) (by decide)).2 (by decide)⟩

/-- A job whose record is gone and whose copy is complete is removed twice. -/
theorem not_yieldsOnce_expired :
    ¬ YieldsOnce [({ function := "f", key := "a", status := .complete } : Job Unit)]
      (fun _ _ => .missing) fun _ => 0 := by
  intro h
  obtain ⟨ws, ys, hws, -⟩ := h
  have hraised : (pollStep (waitForJobs false) fun _ _ => .missing)^[1]
      (.running { jobs := [({ function := "f", key := "a", status := .complete } : Job Unit)] }) =
      .raised [none] := rfl
  exact nomatch returned_unique hws hraised (iterate_raised _)

end Kvdb
