import Kvdb.Tasks.Map

/-!
# `map` and the messages of its jobs

`MapStep c returnExceptions s e s'`: the branches of a step (`mapStep_of_step`).

`Heard`: a message with the terminal status of the job is outstanding or delivered, or its key is no
longer pending, or `listen` has stopped. Steps that meet `Timely` keep the invariant `MapInv`, that
every enqueued terminal job of `map` is heard of; so in a settled state nothing is pending
(`map_answered`). A message published before the subscription is heard by nobody (`map_deaf`).
-/

namespace Kvdb

open Redis Lib TaskQueue

variable {V : Type} {c : QueueConfig}

/-! ## What a step stores, notifies and publishes -/

theorem Act.notifies_of_writes {db : Db V} {a : Act V} {job : Job V}
    (h : a.writes c db = some job) :
    job.status = .queued ∨ a.notifies c = some (job.id c.toKeyConfig, job.status) := by
  cases a with
  | enqueue j now =>
    simp only [Act.writes, Option.ite_none_right_eq_some] at h
    obtain ⟨-, h⟩ := h
    cases h
    exact .inl rfl
  | finish | update =>
    cases h
    exact .inr rfl
  | retry | reschedule =>
    cases h
    exact .inl rfl
  | _ => cases h

/-- What is published stays published. -/
theorem mem_published_apply {db : Db V} {m : String × JobStatus} (h : m ∈ db.published)
    (a : Act V) : m ∈ (apply c db a).published := by
  have hl : ∀ (db : Db V) r f, (db.onLane r f).published = db.published := fun _ _ _ => rfl
  have hadd : ∀ (db : Db V) jobId, (db.pushAdd c jobId).published = db.published := by
    intro db jobId
    unfold Db.pushAdd; split <;> rfl
  have hrem : ∀ (db : Db V) jobId, (db.pushRemove c jobId).published = db.published := by
    intro db jobId
    unfold Db.pushRemove; split <;> rfl
  cases a with
  | enqueue job now =>
    have he : (TaskQueue.enqueue c db job now).1.published = db.published := by
      unfold TaskQueue.enqueue enqueueScript
      (repeat' split) <;> rfl
    rwa [apply, he]
  | schedule r lock now =>
    have hs : (scheduleScript db r lock now).1.published = db.published := by
      unfold scheduleScript
      dsimp only
      (repeat' split) <;> rfl
    rwa [apply, hs]
  | cleanup r lock =>
    have hs : (cleanupScript db r lock).1.published = db.published := by
      unfold cleanupScript
      split <;> rfl
    rwa [apply, hs]
  | finish job status result error now =>
    have hf : (finishTx c db (job.complete status result error now)).published = db.published := by
      unfold finishTx
      rw [hrem]
      (repeat' split) <;> rfl
    rwa [apply, hf]
  | retry job error now rnd time =>
    have hr : (retryTx c db (job.reset .queued error now) rnd time).published = db.published := by
      unfold retryTx
      dsimp only
      split <;> rfl
    rwa [apply, hr]
  | reschedule => simpa only [apply, rescheduleTx, hadd, hl] using h
  | sweepMissing => simpa only [apply, sweepMissingTx, hrem, hl] using h
  | pushBg | removeBg => simpa only [apply, hadd, hrem] using h
  | publish => exact List.mem_append_left _ h
  | _ => exact h

theorem mapCallback_subset (returnExceptions : Bool) (pending : Finset String) (jobKey : String)
    (status : JobStatus) : (mapCallback returnExceptions pending jobKey status).1 ⊆ pending := by
  unfold mapCallback
  dsimp only
  split
  · exact Finset.erase_subset _ _
  · exact Finset.Subset.refl _

/-! ## The branches of a step -/

namespace MapState

/-- From `s` the step `e` leads to the state. -/
inductive MapStep (c : QueueConfig) (returnExceptions : Bool) (s : MapState V) :
    MapEv V → MapState V → Prop
  | listen (h : s.listener = .created) :
    MapStep c returnExceptions s .listen
      { s with listener := .subscribing (s.pending.image c.jobId) }
  | subscribe {jobIds : Finset String} (h : s.listener = .subscribing jobIds) :
    MapStep c returnExceptions s .subscribe
      { s with listener := if jobIds = ∅ then .stopped else .listening jobIds }
  | enqueue {i : ℕ} {now : ℤ} {job : Job V} (h : s.todo[i]? = some job) :
    MapStep c returnExceptions s (.enqueue i now)
      { s.serve c (.enqueue job now) with
        todo := s.todo.eraseIdx i
        enqueued := insert (job.id c.toKeyConfig) s.enqueued }
  | client {a : Act V} : MapStep c returnExceptions s (.client a) (s.serve c a)
  | notify {i : ℕ} {m : String × JobStatus} (h : s.unnotified[i]? = some m) :
    MapStep c returnExceptions s (.notify i)
      { s with
        db := apply c s.db (.publish m.1 m.2)
        unnotified := s.unnotified.eraseIdx i
        inbox := if s.listener.hears m.1 then s.inbox ++ [m] else s.inbox }
  | stop {jobIds : Finset String} {m : String × JobStatus} {inbox : List (String × JobStatus)}
      (h : s.listener = .listening jobIds) (hi : s.inbox = m :: inbox)
      (hr : (mapCallback returnExceptions s.pending (KeyConfig.keyFromId m.1) m.2).2 = true) :
    MapStep c returnExceptions s .receive
      { s with
        pending := (mapCallback returnExceptions s.pending (KeyConfig.keyFromId m.1) m.2).1
        inbox := []
        listener := .stopped }
  | receive {jobIds : Finset String} {m : String × JobStatus} {inbox : List (String × JobStatus)}
      (h : s.listener = .listening jobIds) (hi : s.inbox = m :: inbox)
      (hr : (mapCallback returnExceptions s.pending (KeyConfig.keyFromId m.1) m.2).2 = false) :
    MapStep c returnExceptions s .receive
      { s with
        pending := (mapCallback returnExceptions s.pending (KeyConfig.keyFromId m.1) m.2).1
        inbox := inbox }

variable {returnExceptions : Bool} {s s' : MapState V} {e : MapEv V}

theorem mapStep_of_step (h : s.step c returnExceptions e = some s') :
    MapStep c returnExceptions s e s' := by
  cases e with
  | listen =>
    simp only [step] at h
    split at h
    · rename_i hl
      cases h
      exact .listen hl
    · cases h
  | subscribe =>
    simp only [step] at h
    split at h
    · rename_i hl
      cases h
      exact .subscribe hl
    · cases h
  | enqueue i now =>
    simp only [step] at h
    split at h
    · rename_i hj
      cases h
      exact .enqueue hj
    · cases h
  | client a =>
    simp only [step] at h
    split at h
    · cases h
    · cases h
      exact .client
  | notify i =>
    simp only [step] at h
    split at h
    · rename_i hm
      cases h
      exact .notify hm
    · cases h
  | receive =>
    simp only [step] at h
    split at h
    · rename_i jobIds jobId status inbox hl hi
      cases hr : (mapCallback returnExceptions s.pending (KeyConfig.keyFromId jobId) status).2 with
      | true =>
        rw [hr] at h
        cases h
        exact .stop (m := (jobId, status)) hl hi hr
      | false =>
        rw [hr] at h
        cases h
        exact .receive (m := (jobId, status)) hl hi hr
    · cases h

/-! ## The invariant -/

/-- A terminal status of the job is outstanding or delivered, or `map` need not hear of it. -/
def Heard (c : QueueConfig) (s : MapState V) (job : Job V) : Prop :=
  (∃ m ∈ s.unnotified ++ s.inbox, m.1 = job.id c.toKeyConfig ∧ m.2 ∈ terminalJobStatuses) ∨
    job.key ∉ s.pending ∨ s.listener = .stopped

/-- The keys of the jobs of `map`. -/
def keys (jobs : List (Job V)) : Finset String := (jobs.map Job.key).toFinset

theorem mem_keys {jobs : List (Job V)} {key : String} :
    key ∈ keys jobs ↔ ∃ job ∈ jobs, job.key = key := by
  simp [keys]

structure MapInv (c : QueueConfig) (jobs : List (Job V)) (returnExceptions : Bool)
    (s : MapState V) : Prop where
  pending : s.pending ⊆ keys jobs
  before : s.listener.subscribed = false → s.pending = keys jobs
  jobIds : ∀ jobIds, s.listener = .subscribing jobIds ∨ s.listener = .listening jobIds →
    jobIds = (keys jobs).image c.jobId
  waits : ∀ jobIds, s.listener = .listening jobIds → s.pending ≠ ∅
  todo : ∀ job ∈ jobs, job ∈ s.todo ∨ job.id c.toKeyConfig ∈ s.enqueued
  heard : ∀ job ∈ jobs, job.id c.toKeyConfig ∈ s.enqueued → s.Terminal (job.id c.toKeyConfig) →
    Heard c s job
  inbox : ∀ m ∈ s.inbox, m ∈ s.db.published ∧ ∃ job ∈ jobs, m.1 = job.id c.toKeyConfig
  stopped : s.listener = .stopped → s.Answered c jobs returnExceptions

variable {jobs : List (Job V)}

theorem mapInv_init : MapInv c jobs returnExceptions (mapMachine c jobs returnExceptions).init where
  pending := Finset.Subset.refl _
  before _ := rfl
  jobIds := by rintro jobIds (h | h) <;> cases h
  waits := by
    intro jobIds h
    cases h
  todo job hj := .inl hj
  heard := by
    intro job _ h
    cases h
  inbox := by
    intro m hm
    cases hm
  stopped := by
    intro h
    cases h

theorem Answered.serve (h : s.Answered c jobs returnExceptions) (a : Act V) :
    (s.serve c a).Answered c jobs returnExceptions := by
  rcases h with h | ⟨hr, job, hj, status, hs, hm⟩
  · exact .inl h
  · exact .inr ⟨hr, job, hj, status, hs, mem_published_apply hm a⟩

/-- A step that stores a terminal job owes the message about it. -/
theorem heard_serve {a : Act V} {job : Job V}
    (hs : s.Terminal (job.id c.toKeyConfig) → Heard c s job)
    (ht : (s.serve c a).Terminal (job.id c.toKeyConfig)) : Heard c (s.serve c a) job := by
  have hold : s.Terminal (job.id c.toKeyConfig) → Heard c (s.serve c a) job := by
    intro h
    rcases hs h with ⟨m, hm, hid, hst⟩ | h
    · refine .inl ⟨m, ?_, hid, hst⟩
      rcases List.mem_append.1 hm with hm | hm
      · exact List.mem_append_left _ (List.mem_append_left _ hm)
      · exact List.mem_append_right _ hm
    · exact .inr h
  obtain ⟨status, hst, hstatus⟩ := ht
  cases hw : a.writes c s.db with
  | none =>
    simp only [MapState.serve, hw, Option.elim_none] at hstatus
    exact hold ⟨status, hst, hstatus⟩
  | some j =>
    simp only [MapState.serve, hw, Option.elim_some] at hstatus
    by_cases hid : job.id c.toKeyConfig = j.id c.toKeyConfig
    · rw [hid, Function.update_self] at hstatus
      cases hstatus
      rcases Act.notifies_of_writes hw with hq | hn
      · rw [hq] at hst
        exact absurd hst (by decide)
      · refine .inl ⟨(j.id c.toKeyConfig, j.status),
          List.mem_append_left _ (List.mem_append_right _ ?_), hid.symm, hst⟩
        rw [hn]
        exact List.mem_singleton.2 rfl
    · rw [Function.update_of_ne hid] at hstatus
      exact hold ⟨status, hst, hstatus⟩

theorem MapInv.serve (h : MapInv c jobs returnExceptions s) (a : Act V) :
    MapInv c jobs returnExceptions (s.serve c a) where
  pending := h.pending
  before := h.before
  jobIds := h.jobIds
  waits := h.waits
  todo := h.todo
  heard job hj he ht := heard_serve (h.heard job hj he) ht
  inbox m hm := ⟨mem_published_apply (h.inbox m hm).1 a, (h.inbox m hm).2⟩
  stopped hl := Answered.serve (h.stopped hl) a

/-- An accepted job is not terminal, and a refused one was not. -/
theorem MapInv.enqueue (h : MapInv c jobs returnExceptions s) {i : ℕ} {now : ℤ} {job : Job V}
    (hj : s.todo[i]? = some job) (hC : s.Timely c (.enqueue i now)) :
    MapInv c jobs returnExceptions
      { s.serve c (.enqueue job now) with
        todo := s.todo.eraseIdx i
        enqueued := insert (job.id c.toKeyConfig) s.enqueued } := by
  have hs := h.serve (.enqueue job now)
  refine ⟨hs.pending, hs.before, hs.jobIds, hs.waits, ?_, ?_, hs.inbox, hs.stopped⟩
  · intro job' hj'
    rcases h.todo job' hj' with ht | he
    · obtain ⟨k, hk⟩ := List.mem_iff_getElem?.1 ht
      by_cases hki : k = i
      · subst hki
        rw [hj] at hk
        cases hk
        exact .inr (Finset.mem_insert_self _ _)
      · exact .inl (List.mem_eraseIdx_iff_getElem?.2 ⟨k, hki, hk⟩)
    · exact .inr (Finset.mem_insert_of_mem he)
  · intro job' hj' he ht
    by_cases he' : job'.id c.toKeyConfig ∈ s.enqueued
    · exact hs.heard job' hj' he' ht
    · have hid : job'.id c.toKeyConfig = job.id c.toKeyConfig :=
        (Finset.mem_insert.1 he).resolve_right he'
      obtain ⟨status, hst, hstatus⟩ := ht
      rw [hid] at he' hstatus
      simp only [MapState.serve, Act.writes] at hstatus
      split at hstatus
      · have : status = .queued := by simpa [enqueuedJob, Job.id] using hstatus.symm
        subst this
        exact absurd hst (by decide)
      · rename_i ha
        exact absurd (hC job hj ⟨status, hst, hstatus⟩ he') ha

/-- A published message is delivered, or it says nothing new about a job of `map`. -/
theorem MapInv.notify (h : MapInv c jobs returnExceptions s) {i : ℕ} {m : String × JobStatus}
    (hm : s.unnotified[i]? = some m) (hC : s.Timely c (.notify i)) :
    MapInv c jobs returnExceptions
      { s with
        db := apply c s.db (.publish m.1 m.2)
        unnotified := s.unnotified.eraseIdx i
        inbox := if s.listener.hears m.1 then s.inbox ++ [m] else s.inbox } := by
  have hpub : ∀ m' ∈ s.db.published, m' ∈ (apply c s.db (.publish m.1 m.2)).published :=
    fun m' hm' => mem_published_apply hm' _
  refine ⟨h.pending, h.before, h.jobIds, h.waits, h.todo, ?_, ?_, ?_⟩
  · intro job hj he ht
    rcases h.heard job hj he ht with ⟨m', hm', hid, hst⟩ | hrest
    · rcases List.mem_append.1 hm' with hm' | hm'
      · obtain ⟨k, hk⟩ := List.mem_iff_getElem?.1 hm'
        by_cases hki : k = i
        · -- the message itself: the subscription is in force
          subst hki
          rw [hm] at hk
          cases hk
          have hsub := hC m hm hst (hid ▸ he) (hid ▸ ht)
          cases hl : s.listener with
          | created | subscribing =>
            rw [hl] at hsub
            cases hsub
          | stopped => exact .inr (.inr rfl)
          | listening jobIds =>
            have hin : m.1 ∈ jobIds := by
              rw [h.jobIds jobIds (.inr hl), hid]
              exact Finset.mem_image_of_mem _ (mem_keys.2 ⟨job, hj, rfl⟩)
            refine .inl ⟨m, List.mem_append_right _ ?_, hid, hst⟩
            simp [Listener.hears, hin]
        · exact .inl ⟨m', List.mem_append_left _
            (List.mem_eraseIdx_iff_getElem?.2 ⟨k, hki, hk⟩), hid, hst⟩
      · refine .inl ⟨m', List.mem_append_right _ ?_, hid, hst⟩
        dsimp only
        split
        · exact List.mem_append_left _ hm'
        · exact hm'
    · exact .inr hrest
  · intro m' hm'
    dsimp only at hm'
    split at hm'
    · rename_i hh
      rcases List.mem_append.1 hm' with hm' | hm'
      · exact ⟨hpub m' (h.inbox m' hm').1, (h.inbox m' hm').2⟩
      · obtain rfl := List.mem_singleton.1 hm'
        refine ⟨List.mem_append_right _ (List.mem_singleton.2 rfl), ?_⟩
        cases hl : s.listener with
        | listening jobIds =>
          have hin : m'.1 ∈ jobIds := by simpa [hl, Listener.hears] using hh
          rw [h.jobIds jobIds (.inr hl)] at hin
          obtain ⟨key, hkey, hid⟩ := Finset.mem_image.1 hin
          obtain ⟨job, hj, rfl⟩ := mem_keys.1 hkey
          exact ⟨job, hj, hid.symm⟩
        | _ => simp [hl, Listener.hears] at hh
    · exact ⟨hpub m' (h.inbox m' hm').1, (h.inbox m' hm').2⟩
  · intro hl
    rcases h.stopped hl with h' | ⟨hr, job, hj, status, hs, hp⟩
    · exact .inl h'
    · exact .inr ⟨hr, job, hj, status, hs, hpub _ hp⟩

/-- The processed message is the last about its job only if the key is discarded. -/
theorem MapInv.receive (h : MapInv c jobs returnExceptions s)
    (hkeys : ∀ job ∈ jobs, ':' ∉ job.key.toList) {m : String × JobStatus}
    {inbox : List (String × JobStatus)} (hi : s.inbox = m :: inbox) {jobIds : Finset String}
    (hl : s.listener = .listening jobIds)
    (hr : (mapCallback returnExceptions s.pending (KeyConfig.keyFromId m.1) m.2).2 = false) :
    MapInv c jobs returnExceptions
      { s with
        pending := (mapCallback returnExceptions s.pending (KeyConfig.keyFromId m.1) m.2).1
        inbox := inbox } := by
  have hsub := mapCallback_subset returnExceptions s.pending (KeyConfig.keyFromId m.1) m.2
  refine ⟨hsub.trans h.pending, ?_, h.jobIds, ?_, h.todo, ?_, ?_, ?_⟩
  · intro hb
    simp only [hl, Listener.subscribed] at hb
    cases hb
  · intro _ _ hp
    simp only [mapCallback, decide_eq_false_iff_not, not_or] at hr
    exact hr.2 hp
  · intro job hj he ht
    rcases h.heard job hj he ht with ⟨m', hm', hid, hst⟩ | hp | hs
    · rcases List.mem_append.1 hm' with hm' | hm'
      · exact .inl ⟨m', List.mem_append_left _ hm', hid, hst⟩
      · rw [hi] at hm'
        rcases List.mem_cons.1 hm' with rfl | hm'
        · have hkey : KeyConfig.keyFromId m'.1 = job.key := by
            rw [hid]
            exact (KeyConfig.keyFromId_jobId _ _).2 (hkeys job hj)
          refine .inr (.inl ?_)
          simp [mapCallback, hst, hkey]
        · exact .inl ⟨m', List.mem_append_right _ hm', hid, hst⟩
    · exact .inr (.inl fun hp' => hp (hsub hp'))
    · exact .inr (.inr hs)
  · intro m' hm'
    exact h.inbox m' (hi ▸ List.mem_cons_of_mem _ hm')
  · intro hs
    rw [hl] at hs
    cases hs

/-- `listen` stops with nothing pending, or at an unsuccessful job. -/
theorem MapInv.stop (h : MapInv c jobs returnExceptions s)
    {m : String × JobStatus} {inbox : List (String × JobStatus)} (hi : s.inbox = m :: inbox)
    (hr : (mapCallback returnExceptions s.pending (KeyConfig.keyFromId m.1) m.2).2 = true) :
    MapInv c jobs returnExceptions
      { s with
        pending := (mapCallback returnExceptions s.pending (KeyConfig.keyFromId m.1) m.2).1
        inbox := []
        listener := .stopped } := by
  have hsub := mapCallback_subset returnExceptions s.pending (KeyConfig.keyFromId m.1) m.2
  refine ⟨hsub.trans h.pending, ?_, ?_, ?_, h.todo, ?_, ?_, ?_⟩
  · intro hb
    cases hb
  · rintro _ (hs | hs) <;> cases hs
  · intro _ hs
    cases hs
  · exact fun _ _ _ _ => .inr (.inr rfl)
  · intro m' hm'
    cases hm'
  · intro _
    simp only [mapCallback, decide_eq_true_eq] at hr
    rcases hr with ⟨hst, hrex⟩ | hp
    · obtain ⟨hm, job, hj, hid⟩ := h.inbox m (hi ▸ List.mem_cons_self)
      refine .inr ⟨hrex, job, hj, m.2, hst, ?_⟩
      rw [← hid]
      exact hm
    · exact .inl hp

theorem mapInv_step (hkeys : ∀ job ∈ jobs, ':' ∉ job.key.toList)
    (h : MapInv c jobs returnExceptions s) (hC : s.Timely c e)
    (hs : MapStep c returnExceptions s e s') : MapInv c jobs returnExceptions s' := by
  cases hs with
  | listen hl =>
    have hp : s.pending = keys jobs := h.before (by rw [hl]; rfl)
    refine ⟨h.pending, fun _ => hp, ?_, ?_, h.todo, ?_, h.inbox, ?_⟩
    · rintro jobIds (hs | hs)
      · cases hs
        rw [hp]
      · cases hs
    · intro _ hs
      cases hs
    · intro job hj he ht
      rcases h.heard job hj he ht with hm | hk | hs
      · exact .inl hm
      · exact .inr (.inl hk)
      · rw [hl] at hs
        cases hs
    · intro hs
      cases hs
  | @subscribe jobIds hl =>
    have hp : s.pending = keys jobs := h.before (by rw [hl]; rfl)
    have hids := h.jobIds jobIds (.inl hl)
    have hempty : jobIds = ∅ ↔ s.pending = ∅ := by
      rw [hids, hp]
      exact Finset.image_eq_empty
    refine ⟨h.pending, fun _ => hp, ?_, ?_, h.todo, ?_, h.inbox, ?_⟩
    · intro jobIds' hs
      dsimp only at hs
      split at hs
      · rcases hs with hs | hs <;> cases hs
      · rcases hs with hs | hs
        · cases hs
        · cases hs
          exact hids
    · intro jobIds' hs hp'
      dsimp only at hs
      rw [if_pos (hempty.2 hp')] at hs
      cases hs
    · intro job hj he ht
      rcases h.heard job hj he ht with hm | hk | hs
      · exact .inl hm
      · exact .inr (.inl hk)
      · rw [hl] at hs
        cases hs
    · intro hs
      dsimp only at hs
      split at hs
      · rename_i hj
        exact .inl (hempty.1 hj)
      · cases hs
  | enqueue hj => exact h.enqueue hj hC
  | client => exact h.serve _
  | notify hm => exact h.notify hm hC
  | stop hl hi hr => exact h.stop hi hr
  | receive hl hi hr => exact h.receive hkeys hi hl hr

theorem mapInv_of_run (hkeys : ∀ job ∈ jobs, ':' ∉ job.key.toList) {es : List (MapEv V)}
    (h : (mapMachine c jobs returnExceptions).Run (MapState.Timely c)
      (mapMachine c jobs returnExceptions).init es s) : MapInv c jobs returnExceptions s :=
  h.inv (MapInv c jobs returnExceptions) mapInv_init fun _ _ _ ht hC hu =>
    mapInv_step hkeys ht hC (mapStep_of_step hu)

/-- A key with a colon is never discarded: `key_from_id` gives back only what follows the colon. -/
theorem colon_pending {es : List (MapEv V)} {C : MapState V → MapEv V → Prop}
    (h : (mapMachine c jobs returnExceptions).Run C (mapMachine c jobs returnExceptions).init es s)
    {job : Job V} (hj : job ∈ jobs) (hk : ':' ∈ job.key.toList) : job.key ∈ s.pending := by
  have hne : ∀ jobId, KeyConfig.keyFromId jobId ≠ job.key := by
    intro jobId he
    exact KeyConfig.colon_notMem_keyFromId jobId (he ▸ hk)
  have hcb : ∀ {pending : Finset String} {jobId status}, job.key ∈ pending →
      job.key ∈ (mapCallback returnExceptions pending (KeyConfig.keyFromId jobId) status).1 := by
    intro pending jobId status hp
    unfold mapCallback
    dsimp only
    split
    · exact Finset.mem_erase.2 ⟨(hne jobId).symm, hp⟩
    · exact hp
  refine h.inv (fun s => job.key ∈ s.pending) (mem_keys.2 ⟨job, hj, rfl⟩) fun t e u ht _ hu => ?_
  cases mapStep_of_step hu with
  | stop | receive => exact hcb ht
  | listen | subscribe | enqueue | client | notify => exact ht

end MapState

open MapState

/-- **`map` hears of every job.** In a settled state of a timely run nothing is pending (or an
unsuccessful job ended the wait), and the task of `listen` has stopped. -/
theorem map_answered {jobs : List (Job V)} (hkeys : ∀ job ∈ jobs, ':' ∉ job.key.toList)
    {returnExceptions : Bool} {es : List (MapEv V)} {s : MapState V}
    (h : (mapMachine c jobs returnExceptions).Run (MapState.Timely c)
      (mapMachine c jobs returnExceptions).init es s) (hs : s.Settled c jobs) :
    s.Answered c jobs returnExceptions ∧ (jobs ≠ [] → s.listener = .stopped) := by
  have hinv := mapInv_of_run hkeys h
  by_cases hl : s.listener = .stopped
  · exact ⟨hinv.stopped hl, fun _ => hl⟩
  have hnone : ∀ job ∈ jobs, job.key ∉ s.pending := by
    intro job hj
    have he : job.id c.toKeyConfig ∈ s.enqueued := by
      rcases hinv.todo job hj with ht | he
      · rw [hs.enqueued] at ht
        cases ht
      · exact he
    rcases hinv.heard job hj he (hs.terminal job hj) with ⟨m, hm, hid, -⟩ | hp | hstop
    · rw [hs.processed, List.append_nil] at hm
      exact absurd hid (hs.notified job hj m hm)
    · exact hp
    · exact absurd hstop hl
  have hempty : s.pending = ∅ := by
    refine Finset.eq_empty_of_forall_notMem fun key hkey => ?_
    obtain ⟨job, hj, rfl⟩ := mem_keys.1 (hinv.pending hkey)
    exact hnone job hj hkey
  refine ⟨.inl hempty, fun hjobs => ?_⟩
  cases hls : s.listener with
  | listening jobIds => exact absurd hempty (hinv.waits jobIds hls)
  | stopped => rfl
  | created | subscribing =>
    obtain ⟨job, hj⟩ := List.exists_mem_of_ne_nil jobs hjobs
    have hp := hinv.before (by rw [hls]; rfl)
    exact absurd (hp ▸ mem_keys.2 ⟨job, hj, rfl⟩) (hnone job hj)

/-! ## A fast worker -/

/-- A job, and a worker's copy of it while it runs. -/
def fastJob : Job String := { function := "f", key := "k", status := .queued }

def fastRun : Job String := { fastJob with status := .active, attempts := 1, started := 1 }

/-- A fast worker: the job is dequeued, started and finished, each with its message. -/
def fastWorker : List (MapEv String) :=
  [.client (.dequeue none), .client (.update fastRun 1), .notify 0,
    .client (.finish fastRun .complete (some "r") none 2), .notify 0]

/-- The subscription comes first: `map` has its answer. -/
theorem map_answered_listening :
    ∃ s, (mapMachine {} [fastJob] false).Run (MapState.Timely {})
        (mapMachine {} [fastJob] false).init
        ([.listen, .subscribe, .enqueue 0 0] ++ fastWorker ++ [.receive, .receive]) s ∧
      s.Answered {} [fastJob] false ∧ s.listener = .stopped := by
  obtain ⟨s, hrun, hs⟩ : ∃ s, (mapMachine {} [fastJob] false).Run (MapState.Timely {})
      (mapMachine {} [fastJob] false).init
      ([.listen, .subscribe, .enqueue 0 0] ++ fastWorker ++ [.receive, .receive]) s ∧
      s.Settled {} [fastJob] :=
    Machine.exists_run (by decide +kernel) (by decide +kernel)
  obtain ⟨ha, hl⟩ := map_answered (by decide) hrun hs
  exact ⟨s, hrun, ha, hl (by simp)⟩

/-- **The worker is faster than the subscription**: the job is terminal, no message is left, and
`map` waits for it. -/
theorem map_deaf :
    ∃ s, (mapMachine {} [fastJob] false).Run Machine.Any (mapMachine {} [fastJob] false).init
        (.enqueue 0 0 :: fastWorker ++ [.listen, .subscribe]) s ∧
      (s.Settled {} [fastJob] ∧ ¬ s.Answered {} [fastJob] false ∧ s.listener ≠ .stopped) :=
  Machine.exists_run (by decide +kernel) (by decide +kernel)

end Kvdb
