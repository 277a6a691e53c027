import Kvdb.Tasks.Calls

/-!
# The push list (`PushQueue`)

`pushStep` says what a step does to the push list. The history `ended` of a run of the clients is the ids
whose last finish for good, or abort, is past, and that were not pushed since. In every state the list
has one entry for an id at most, and none for an ended one, if and only if no id is pushed that is still
listed (`mirror_iff`): `retry` pushes without a removal before it, so a second retry of a job leaves two
entries, of which `finish` removes one (`not_mirrored_retried`). `_reschedule` finishes first, and so
removes what it will push (`notMem_rescheduled`).
-/

namespace Kvdb

open Redis Lib TaskQueue

variable {V : Type} (c : QueueConfig)

/-! ## What a step does to the list -/

/-- The id that a step pushes. -/
def Act.pushes : Act V → Option String
  | .reschedule job _ _ _ _ => some (job.id c.toKeyConfig)
  | .pushBg jobId => some jobId
  | _ => none

/-- The id of which a step removes an entry. -/
def Act.removes : Act V → Option String
  | .finish job _ _ _ _ => some (job.id c.toKeyConfig)
  | .sweepMissing _ jobId | .removeBg jobId => some jobId
  | _ => none

/-- The push list after a step. -/
inductive PushStep (db : Db V) (a : Act V) : List String → Prop
  | same (hp : c.pushToQueueEnabled = true → a.pushes c = none)
      (hr : c.pushToQueueEnabled = true → a.removes c = none) : PushStep db a db.pushQueue
  | pushed {id : String} (he : c.pushToQueueEnabled = true) (h : a.pushes c = some id)
      (hr : a.removes c = none) : PushStep db a (db.pushQueue ++ [id])
  | removed {id : String} (he : c.pushToQueueEnabled = true) (h : a.removes c = some id)
      (hp : a.pushes c = none) : PushStep db a (db.pushQueue.erase id)
  | expired {ms : ℕ} (ha : a = .advance ms) : PushStep db a []

variable {c}

theorem PushStep.push {db db' : Db V} {a : Act V} {id : String} (h : a.pushes c = some id)
    (hr : a.removes c = none) (hq : db'.pushQueue = db.pushQueue) :
    PushStep c db a (db'.pushAdd c id).pushQueue := by
  unfold Db.pushAdd
  split
  · rename_i he
    show PushStep c db a (db'.pushQueue ++ [id])
    rw [hq]
    exact .pushed he h hr
  · rename_i he
    rw [hq]
    exact .same (fun h' => absurd h' he) fun h' => absurd h' he

theorem PushStep.remove {db db' : Db V} {a : Act V} {id : String} (h : a.removes c = some id)
    (hp : a.pushes c = none) (hq : db'.pushQueue = db.pushQueue) :
    PushStep c db a (db'.pushRemove c id).pushQueue := by
  unfold Db.pushRemove
  split
  · rename_i he
    show PushStep c db a (lrem 1 id db'.pushQueue)
    rw [hq, lrem_one]
    exact .removed he h hp
  · rename_i he
    rw [hq]
    exact .same (fun h' => absurd h' he) fun h' => absurd h' he

theorem PushStep.congr {db db' : Db V} {a : Act V} (hp : a.pushes c = none)
    (hr : a.removes c = none) (hq : db'.pushQueue = db.pushQueue) :
    PushStep c db a db'.pushQueue := by
  rw [hq]
  exact .same (fun _ => hp) fun _ => hr

variable (c)

/-- **The push list after a step.** -/
theorem pushStep (db : Db V) (a : Act V) : PushStep c db a (apply c db a).pushQueue := by
  cases a with
  | enqueue job now =>
    refine .congr rfl rfl ?_
    simp only [apply, TaskQueue.enqueue, enqueueScript]
    split
    · split <;> rfl
    · rfl
  | schedule r lock now =>
    refine .congr rfl rfl ?_
    simp only [apply, scheduleScript]
    split
    · rfl
    · split <;> rfl
  | cleanup r lock =>
    refine .congr rfl rfl ?_
    simp only [apply, cleanupScript]
    split <;> rfl
  | finish job status result error now =>
    refine .remove rfl rfl ?_
    split
    · rfl
    · split <;> rfl
  | retry job error now rnd time =>
    refine .congr rfl rfl ?_
    simp only [apply, retryTx]
    split <;> rfl
  | reschedule job error now waitTime time => exact .push rfl rfl rfl
  | sweepMissing r jobId => exact .remove rfl rfl rfl
  | pushBg jobId => exact .push rfl rfl rfl
  | removeBg jobId => exact .remove rfl rfl rfl
  | advance ms =>
    by_cases he : (db.pushExpireAt.any fun t => decide (t ≤ db.clock + ms)) = true
    · have hq : (apply c db (.advance ms)).pushQueue = [] := if_pos he
      rw [hq]
      exact .expired rfl
    · exact .congr rfl rfl (if_neg he)
  | _ => exact .congr rfl rfl rfl

/-! ## The mirror -/

/-- The id of a job that a step finishes for good, or whose abort it ends. -/
def Act.ends : Act V → Option String
  | .finish job status _ _ _ =>
    if status ∈ terminalJobStatuses then some (job.id c.toKeyConfig) else none
  | .removeBg jobId => some jobId
  | _ => none

/-- What a step does to the ids that are ended. -/
def noteEnded (ended : Finset String) (a : Act V) : Finset String :=
  match a.pushes c, a.ends c with
  | some id, _ => ended.erase id
  | none, some id => insert id ended
  | none, none => ended

/-- One entry for an id at most, and none for one that is ended. -/
structure Mirrored (db : Db V) (ended : Finset String) : Prop where
  once : ∀ id, db.pushQueue.count id ≤ 1
  gone : ∀ id ∈ ended, id ∉ db.pushQueue

/-- The step pushes no id that is listed. -/
def PushesNew (db : Db V) (a : Act V) : Prop :=
  c.pushToQueueEnabled = true → ∀ id ∈ a.pushes c, id ∉ db.pushQueue

/-- `Mirrored`, with the list of a queue that pushes nothing. -/
structure MirrorInv (db : Db V) (ended : Finset String) : Prop extends Mirrored db ended where
  disabled : c.pushToQueueEnabled = false → db.pushQueue = []

variable {c}

theorem removes_of_ends {a : Act V} {id : String} (h : a.ends c = some id) :
    a.removes c = some id := by
  cases a with
  | finish job status result error now =>
    simp only [Act.ends, Option.ite_none_right_eq_some] at h
    exact h.2
  | removeBg jobId => exact h
  | _ => cases h

/-- What is ended after a step that removes nothing was ended before it. -/
theorem mem_of_noteEnded {ended : Finset String} {a : Act V} {id : String}
    (h : id ∈ noteEnded c ended a) : id ∈ ended ∧ a.pushes c ≠ some id ∨ a.ends c = some id := by
  simp only [noteEnded] at h
  split at h
  · rename_i hp
    obtain ⟨hne, hmem⟩ := Finset.mem_erase.1 h
    exact .inl ⟨hmem, fun h' => hne (Option.some.inj (h'.symm.trans hp))⟩
  · rename_i hp he
    rcases Finset.mem_insert.1 h with rfl | hmem
    · exact .inr he
    · exact .inl ⟨hmem, by rw [hp]; simp⟩
  · rename_i hp he
    exact .inl ⟨h, by rw [hp]; simp⟩

theorem notMem_erase {l : List String} {id : String} (h : l.count id ≤ 1) : id ∉ l.erase id := by
  have hcount := List.count_erase_self (a := id) (l := l)
  exact List.count_eq_zero.1 (by omega)

/-- A step that pushes no listed id keeps the mirror. -/
theorem MirrorInv.step {db : Db V} {ended : Finset String} {a : Act V}
    (h : MirrorInv c db ended) (ha : PushesNew c db a) :
    MirrorInv c (apply c db a) (noteEnded c ended a) := by
  have hs := pushStep c db a
  generalize hq : (apply c db a).pushQueue = l at hs
  suffices hl : (∀ id, l.count id ≤ 1) ∧ (∀ id ∈ noteEnded c ended a, id ∉ l) ∧
      (c.pushToQueueEnabled = false → l = []) by
    obtain ⟨honce, hgone, hdis⟩ := hl
    rw [← hq] at honce hgone hdis
    exact ⟨⟨honce, hgone⟩, hdis⟩
  cases hs with
  | same hp hr =>
    refine ⟨h.once, fun id hid => ?_, h.disabled⟩
    rcases mem_of_noteEnded hid with ⟨hmem, -⟩ | hends
    · exact h.gone id hmem
    · cases he : c.pushToQueueEnabled with
      | false =>
        rw [h.disabled he]
        exact List.not_mem_nil
      | true =>
        have hr' := hr he
        rw [removes_of_ends hends] at hr'
        cases hr'
  | @pushed id he hp hr =>
    have hnew := ha he id hp
    refine ⟨fun id' => ?_, fun id' hid' => ?_, fun hdis => by rw [he] at hdis; cases hdis⟩
    · have hone := h.once id'
      rw [List.count_append, List.count_singleton]
      split
      · rename_i hid
        obtain rfl : id = id' := by simpa using hid
        rw [List.count_eq_zero_of_not_mem hnew]
      · omega
    · rcases mem_of_noteEnded hid' with ⟨hmem, hne⟩ | hends
      · rw [List.mem_append, List.mem_singleton]
        rintro (hm | rfl)
        · exact h.gone id' hmem hm
        · exact hne hp
      · rw [removes_of_ends hends] at hr
        cases hr
  | @removed id he hr hp =>
    refine ⟨fun id' => ?_, fun id' hid' => ?_, fun hdis => by rw [he] at hdis; cases hdis⟩
    · have hle := (List.erase_sublist (a := id) (l := db.pushQueue)).count_le id'
      exact hle.trans (h.once id')
    · rcases mem_of_noteEnded hid' with ⟨hmem, -⟩ | hends
      · exact fun hm => h.gone id' hmem (List.mem_of_mem_erase hm)
      · have heq := removes_of_ends hends
        rw [hr] at heq
        cases heq
        exact notMem_erase (h.once id)
  | expired => exact ⟨fun id => by simp, fun id _ => List.not_mem_nil, fun _ => rfl⟩

/-- After a step that pushes a listed id, it is listed twice. -/
theorem pushesNew_of_once {db : Db V} {a : Act V}
    (h : ∀ id, (apply c db a).pushQueue.count id ≤ 1) : PushesNew c db a := by
  intro he id hp hmem
  have hone := h id
  have hs := pushStep c db a
  generalize (apply c db a).pushQueue = l at hs hone
  cases hs with
  | same hn => rw [hn he] at hp; cases hp
  | pushed _ h _ =>
    have heq : some id = some _ := hp.symm.trans h
    cases heq
    rw [List.count_append, List.count_singleton_self] at hone
    have hpos := List.count_pos_iff.2 hmem
    omega
  | removed _ _ hn => rw [hn] at hp; cases hp
  | expired ha => subst ha; cases hp

/-! ## Runs of the clients -/

section Clients
variable (c) (ι : Type) [DecidableEq ι]

/-- The clients, with the ids that are ended. -/
abbrev mirrorMachine : Machine (Clients ι V × Finset String) (ClientEv ι V) :=
  (clients c).observe ∅ fun ended s e => noteEnded c ended (s.act c e)

/-- The mirror is right after the step. -/
def KeepsMirror (p : Clients ι V × Finset String) (e : ClientEv ι V) : Prop :=
  ∀ q, (mirrorMachine c ι).step p e = some q → Mirrored q.1.db q.2

variable {c ι}

theorem mirror_step {p q : Clients ι V × Finset String} {e : ClientEv ι V}
    (h : (mirrorMachine c ι).step p e = some q) :
    q.1.db = apply c p.1.db (p.1.act c e) ∧ q.2 = noteEnded c p.2 (p.1.act c e) := by
  obtain ⟨hs, hg⟩ := Machine.observe_step.1 h
  exact ⟨clients_step c hs, hg⟩

theorem mirrorInv_of_run {es : List (ClientEv ι V)} {p : Clients ι V × Finset String}
    (h : (mirrorMachine c ι).Run (fun p e => PushesNew c p.1.db (p.1.act c e))
      (mirrorMachine c ι).init es p) : MirrorInv c p.1.db p.2 := by
  refine h.inv (fun p => MirrorInv c p.1.db p.2) ?_ fun p e q hp hc hq => ?_
  · exact ⟨⟨fun id => by simp [mirrorMachine, Machine.observe, clients],
      fun id hid => absurd hid (Finset.notMem_empty id)⟩, fun _ => rfl⟩
  · obtain ⟨hdb, hended⟩ := mirror_step hq
    rw [hdb, hended]
    exact hp.step hc

/-- **The push list mirrors the jobs that are put back**, in every state of a run of calls, if and only
if no step of the run pushes an id that is still listed. -/
theorem mirror_iff {es : List (ClientEv ι V)} {p : Clients ι V × Finset String} :
    (mirrorMachine c ι).Run (KeepsMirror c ι) (mirrorMachine c ι).init es p ↔
      (mirrorMachine c ι).Run (fun p e => PushesNew c p.1.db (p.1.act c e))
        (mirrorMachine c ι).init es p := by
  constructor
  · intro h
    refine h.imp fun {_ q e r} _ _ hkeep hstep => ?_
    have honce := (hkeep r hstep).once
    rw [(mirror_step hstep).1] at honce
    exact pushesNew_of_once honce
  · intro h
    refine h.imp fun {_ q e _} hr _ hnew _ => ?_
    intro r hr'
    obtain ⟨hdb, hended⟩ := mirror_step hr'
    rw [hdb, hended]
    exact ((mirrorInv_of_run hr).step hnew).toMirrored

/-- A job whose retries wait 0 seconds. -/
def promptJob : Job String := { function := "f", key := "k", retries := 2, retryDelay := 0 }

/-- The job is retried twice, and then completes. -/
def retriedTwice : List (ClientEv Unit String) :=
  [.call () (.enqueue promptJob 0), .dequeue none,
    .call () (.retry promptJob "error" 1000 0 1), .proceed (), .proceed (), .dequeue none,
    .call () (.retry promptJob "error" 2000 0 2), .proceed (), .proceed (), .dequeue none,
    .call () (.finish promptJob .complete none none 3000), .proceed ()]

/-- One of its two entries is left. -/
theorem not_mirrored_retried :
    ∃ p, (mirrorMachine { pushToQueueEnabled := true } Unit).Run Machine.Any
        (mirrorMachine { pushToQueueEnabled := true } Unit).init retriedTwice p ∧
      ¬ Mirrored p.1.db p.2 := by
  have hrun : ∃ p, (mirrorMachine { pushToQueueEnabled := true } Unit).Run Machine.Any
      (mirrorMachine { pushToQueueEnabled := true } Unit).init retriedTwice p ∧
        "_kvq_:global:job:k" ∈ p.2 ∧ "_kvq_:global:job:k" ∈ p.1.db.pushQueue :=
    Machine.exists_run (by decide +kernel) (by decide +kernel)
  obtain ⟨p, hr, hended, hlisted⟩ := hrun
  exact ⟨p, hr, fun h => h.gone _ hended hlisted⟩

end Clients

/-! ## A reschedule that is left alone -/

/-- The first transaction of `_reschedule` removes the id that the second one pushes. -/
theorem notMem_rescheduled {db : Db V} (h : ∀ id, db.pushQueue.count id ≤ 1)
    (he : c.pushToQueueEnabled = true) (job : Job V) (error : Option V) (now : ℤ) :
    job.id c.toKeyConfig ∉ (run c db [.finish job .rescheduled none error now,
      .publish (job.id c.toKeyConfig) .rescheduled]).pushQueue := by
  have hs := pushStep c db (.finish job .rescheduled none error now)
  show job.id c.toKeyConfig ∉ (apply c db (.finish job .rescheduled none error now)).pushQueue
  generalize (apply c db (.finish job .rescheduled none error now)).pushQueue = l at hs
  cases hs with
  | same _ hr => cases hr he
  | pushed _ hp _ => cases hp
  | removed _ hr _ =>
    cases hr
    exact notMem_erase (h _)
  | expired ha => cases ha

end Kvdb
