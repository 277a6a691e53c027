import Kvdb.Tasks.Commands
import Kvdb.Tasks.Listen
import Kvdb.Tasks.Proof.QueueKeys

/-!
# The queues of one server refine the queue

`Refines q s db`: what stands under the keys of the queue `q` on the server `s` is of the type that
the queue expects there (`Fits`), and `db` is what it stands for. `Realizes q cmds op`: where a server
refines `db`, none of the commands fails, and they lead to a server that refines `op db` and differs
from the first under keys of `q` only (`Own`). The steps of a client are put together from commands
(`refines_apply`), and what the clients of another queue do this queue does not see (`Own.refines`).

`server_run`: every run of a server that queues share is, for each of the queues, the run of the
machine of that queue alone. Hence all that is proved about `machine` holds of each of them.
-/

namespace Kvdb

open Redis Lib TaskQueue

namespace Server

variable {V : Type}

/-! ## The types of the keys -/

/-- The cell is of the type that the queue expects under the key. -/
def Fits : QueueKey → Cell (Entry String (Blob V)) → Prop
  | .queued _, c | .active _, c => c.value.asList.isSome ∧ c.expireAt = none
  | .incomplete _, c => c.value.asZSet.isSome ∧ c.expireAt = none
  | .scheduled _, _ | .sweep _, _ => True
  | .job _, c => (c.value.asStr.bind Blob.asJob).isSome
  | .abort _, c => (c.value.asStr.bind Blob.asError).isSome
  | .stuck, c => c.value.asSet.isSome ∧ c.expireAt = none
  | .push, c => c.value.asList.isSome

/-- What the queue keeps under a key is replaced. -/
def put (q : SharedQueue) (db : Db V) (o : Option (Cell (Entry String (Blob V)))) :
    QueueKey → Db V
  | .queued r => db.onLane r fun l => { l with queued := Container.lists.contents o }
  | .active r => db.onLane r fun l => { l with active := Container.lists.contents o }
  | .incomplete r => db.onLane r fun l => { l with incomplete := Container.zsets.contents o }
  | .scheduled r =>
    { db with scheduled := Function.update db.scheduled r (o.map SharedQueue.lockCell) }
  | .sweep r => { db with sweep := Function.update db.sweep r (o.map SharedQueue.lockCell) }
  | .job key =>
    { db with
      records := Function.update db.records (q.key (.job key))
        (o.bind (SharedQueue.strCell Blob.asJob)) }
  | .abort key =>
    { db with
      abort := Function.update db.abort (q.key (.abort key))
        (o.bind (SharedQueue.strCell Blob.asError)) }
  | .stuck => { db with stuck := Container.sets.contents o }
  | .push =>
    { db with pushQueue := Container.lists.contents o, pushExpireAt := o.bind Cell.expireAt }

structure Refines (q : SharedQueue) (s : Server V) (db : Db V) : Prop where
  fits : ∀ x, ∀ c ∈ q.under s x, Fits x c
  view : q.view s = db

/-- The servers differ under keys and on channels of the queue only. -/
structure Own (q : SharedQueue) (s t : Server V) : Prop where
  keys : ∀ k, (∀ x, q.Uses x → q.key x ≠ k) → t.keys k = s.keys k
  published : ∃ ms, t.published = s.published ++ ms ∧ ∀ m ∈ ms, ∃ key, q.key (.job key) = m.1
  clock : t.clock = s.clock

namespace Own

variable {q : SharedQueue} {s t u : Server V}

theorem refl (s : Server V) : Own q s s := ⟨fun _ _ => rfl, ⟨[], by simp⟩, rfl⟩

theorem trans (h : Own q s t) (h' : Own q t u) : Own q s u := by
  obtain ⟨ms, hm, hk⟩ := h.published
  obtain ⟨ms', hm', hk'⟩ := h'.published
  refine ⟨fun k hx => (h'.keys k hx).trans (h.keys k hx), ⟨ms ++ ms', ?_, ?_⟩,
    h'.clock.trans h.clock⟩
  · rw [hm', hm, List.append_assoc]
  · intro m hmem
    rcases List.mem_append.1 hmem with hmem | hmem
    · exact hk m hmem
    · exact hk' m hmem

end Own

/-! ## Ids -/

section Ids
variable {q : SharedQueue} {x : QueueKey} {id : String}

theorem isId_iff :
    (q.jobIdPrefix ++ ":").toList <+: id.toList ↔ ∃ key, q.key (.job key) = id := by
  constructor
  · rintro ⟨t, ht⟩
    exact ⟨String.ofList t, String.toList_inj.1 (by simpa [SharedQueue.key] using ht)⟩
  · rintro ⟨key, rfl⟩
    simp [SharedQueue.key]

theorem isAbortId_iff :
    (q.abortIdPrefix ++ ":").toList <+: id.toList ↔ ∃ key, q.key (.abort key) = id := by
  constructor
  · rintro ⟨t, ht⟩
    exact ⟨String.ofList t, String.toList_inj.1 (by simpa [SharedQueue.key] using ht)⟩
  · rintro ⟨key, rfl⟩
    simp [SharedQueue.key]

end Ids

/-! ## One key -/

section Update
variable {q : SharedQueue} {s : Server V} {db : Db V} {x : QueueKey}
  {o : Option (Cell (Entry String (Blob V)))}

/-- What the queue finds under its keys after a change under one of them. -/
theorem under_update (hq : q.Plain) (hx : q.Uses x) :
    q.under { s with keys := Function.update s.keys (q.key x) o } =
      Function.update (q.under s) x o := by
  funext y
  simp only [SharedQueue.under, Function.update_apply]
  by_cases hyx : y = x
  · subst hyx
    simp [hx]
  · by_cases hy : q.Uses y
    · have hk : q.key y ≠ q.key x := fun e => hyx (hq.key_inj hy hx e)
      simp [hy, hyx, hk]
    · simp [hy, hyx]

/-- The strings of a family of keys, where one of the family is changed. -/
theorem strings_update_self {α : Type} (f : Blob V → Option α) {p : String} {k : String}
    (hk : p.toList <+: k.toList) :
    SharedQueue.strings p f (Function.update s.keys k o) =
      Function.update (SharedQueue.strings p f s.keys) k (o.bind (SharedQueue.strCell f)) := by
  funext id
  simp only [SharedQueue.strings, Function.update_apply]
  by_cases h : id = k
  · simp [h, hk]
  · simp [h]

/-- They do not change with another key. -/
theorem strings_update_ne {α : Type} (f : Blob V → Option α) {p : String} {k : String}
    (hk : ¬ p.toList <+: k.toList) :
    SharedQueue.strings p f (Function.update s.keys k o) = SharedQueue.strings p f s.keys := by
  funext id
  simp only [SharedQueue.strings, Function.update_apply]
  by_cases h : id = k
  · simp [h, hk]
  · simp [h]

/-- The view of a server that is changed under one key of the queue. -/
theorem view_update (hq : q.Plain) (hx : q.Uses x) :
    q.view { s with keys := Function.update s.keys (q.key x) o } = put q (q.view s) o x := by
  have hu := under_update (s := s) (o := o) hq hx
  have hr : (∀ key, x ≠ .job key) →
      SharedQueue.strings (q.jobIdPrefix ++ ":") Blob.asJob (Function.update s.keys (q.key x) o) =
        SharedQueue.strings (q.jobIdPrefix ++ ":") Blob.asJob s.keys := by
    intro hn
    refine strings_update_ne _ fun hp => ?_
    obtain ⟨key, hk⟩ := isId_iff.1 hp
    exact hn key (hq.key_inj hx (by simp [SharedQueue.Uses]) hk.symm)
  have ha : (∀ key, x ≠ .abort key) →
      SharedQueue.strings (q.abortIdPrefix ++ ":") Blob.asError
          (Function.update s.keys (q.key x) o) =
        SharedQueue.strings (q.abortIdPrefix ++ ":") Blob.asError s.keys := by
    intro hn
    refine strings_update_ne _ fun hp => ?_
    obtain ⟨key, hk⟩ := isAbortId_iff.1 hp
    exact hn key (hq.key_inj hx (by simp [SharedQueue.Uses]) hk.symm)
  simp only [SharedQueue.view, hu]
  cases x with
  | job key =>
    have hs := strings_update_self (s := s) (o := o) Blob.asJob
      ((isId_iff (q := q)).2 ⟨key, rfl⟩)
    simp [put, hs, ha]
  | abort key =>
    have hs := strings_update_self (s := s) (o := o) Blob.asError
      ((isAbortId_iff (q := q)).2 ⟨key, rfl⟩)
    simp [put, hs, hr]
  | stuck | push => simp [put, hr, ha]
  | scheduled r | sweep r =>
    simp only [put, hr, ha, ne_eq, reduceCtorEq, not_false_eq_true, implies_true,
      Function.update_of_ne, Db.mk.injEq, true_and, and_true]
    refine Function.eq_update_iff.2 ⟨by simp, fun r' hr' => ?_⟩
    rw [Function.update_of_ne (by simpa using hr')]
  | queued r | active r | incomplete r =>
    simp only [put, Db.onLane, hr, ha, ne_eq, reduceCtorEq, not_false_eq_true, implies_true,
      Function.update_of_ne, Db.mk.injEq, and_true]
    refine Function.eq_update_iff.2 ⟨by simp, fun r' hr' => ?_⟩
    rw [Function.update_of_ne (by simpa using hr')]

/-- A server that is changed under one key of the queue. -/
theorem Refines.update (hq : q.Plain) (h : Refines q s db) (hx : q.Uses x)
    (ho : ∀ c ∈ o, Fits x c) :
    Refines q { s with keys := Function.update s.keys (q.key x) o } (put q db o x) := by
  refine ⟨fun y c hc => ?_, ?_⟩
  · rw [under_update hq hx, Function.update_apply] at hc
    split at hc
    · rename_i hyx
      exact hyx ▸ ho c hc
    · exact h.fits y c hc
  · rw [view_update hq hx, h.view]

end Update

/-! ## Commands -/

/-- `p` does not fail and leads where the queue's operation does. -/
def Does (q : SharedQueue) (p : Server V → Option (Server V)) (op : Db V → Db V) : Prop :=
  ∀ ⦃s db⦄, Refines q s db → ∃ t, p s = some t ∧ Refines q t (op db) ∧ Own q s t

/-- None of the commands fails, and they lead where the queue's operation does. -/
def Realizes (q : SharedQueue) (cmds : List (KeyCommand V)) : (Db V → Db V) → Prop :=
  Does q fun s => cmds.foldlM exec? s

/-- A container is changed. -/
def modifyAt {γ : Type} (C : Container (Entry String (Blob V)) γ) (k : String) (act : γ → γ)
    (s : Server V) : Option (Server V) :=
  (s.keys.modify C k act).map fun m => { s with keys := m }

theorem transaction_of_foldlM {s t : Server V} {cmds : List (KeyCommand V)}
    (h : cmds.foldlM exec? s = some t) : s.transaction cmds = t := by
  induction cmds generalizing s with
  | nil => exact Option.some.inj h
  | cons cmd cmds ih =>
    obtain ⟨u, hu, ht⟩ := Option.bind_eq_some_iff.1 h
    rw [transaction, List.foldl_cons, exec, hu]
    exact ih ht

theorem script_of_foldlM {s t : Server V} {cmds : List (KeyCommand V)}
    (h : cmds.foldlM exec? s = some t) : s.script cmds = t := by
  induction cmds generalizing s with
  | nil => exact Option.some.inj h
  | cons cmd cmds ih =>
    obtain ⟨u, hu, ht⟩ := Option.bind_eq_some_iff.1 h
    rw [script, hu]
    exact ih ht

namespace Realizes

variable {q : SharedQueue} {xs ys : List (KeyCommand V)} {f g : Db V → Db V}
  {s : Server V} {db : Db V}

theorem transaction (h : Realizes q xs f) (hs : Refines q s db) :
    Refines q (s.transaction xs) (f db) ∧ Own q s (s.transaction xs) := by
  obtain ⟨t, ht, hr⟩ := h hs
  rw [transaction_of_foldlM ht]
  exact hr

theorem script (h : Realizes q xs f) (hs : Refines q s db) :
    Refines q (s.script xs) (f db) ∧ Own q s (s.script xs) := by
  obtain ⟨t, ht, hr⟩ := h hs
  rw [script_of_foldlM ht]
  exact hr

theorem exec {cmd : KeyCommand V} (h : Realizes q [cmd] f) (hs : Refines q s db) :
    Refines q (s.exec cmd) (f db) ∧ Own q s (s.exec cmd) := h.transaction hs

theorem nil : Realizes q ([] : List (KeyCommand V)) fun db => db :=
  fun s _ h => ⟨s, rfl, h, .refl s⟩

theorem append (h : Realizes q xs f) (h' : Realizes q ys g) :
    Realizes q (xs ++ ys) fun db => g (f db) := by
  intro s db hs
  obtain ⟨t, ht, hf, ho⟩ := h hs
  obtain ⟨u, hu, hg, ho'⟩ := h' hf
  refine ⟨u, ?_, hg, ho.trans ho'⟩
  show (xs ++ ys).foldlM exec? s = some u
  rw [List.foldlM_append]
  exact Option.bind_eq_some_iff.2 ⟨t, ht, hu⟩

theorem cons {cmd : KeyCommand V} (h : Realizes q [cmd] f) (h' : Realizes q ys g) :
    Realizes q (cmd :: ys) fun db => g (f db) := append h h'

theorem ite {p : Prop} [Decidable p] (h : p → Realizes q xs f) (h' : ¬ p → Realizes q ys g) :
    Realizes q (if p then xs else ys) fun db => if p then f db else g db := by
  by_cases hp : p
  · simpa [hp] using h hp
  · simpa [hp] using h' hp

end Realizes

/-! ## One key -/

section One
variable {q : SharedQueue} {f : Db V → Db V}

theorem Does.realizes {p : Server V → Option (Server V)} {cmd : KeyCommand V} (h : Does q p f)
    (hcmd : ∀ s, s.exec? cmd = p s) : Realizes q [cmd] f := by
  intro s db hs
  obtain ⟨t, ht, hr⟩ := h hs
  exact ⟨t, by simp [hcmd, ht], hr⟩

/-- What is stored under one key is replaced. -/
theorem Does.of_update (hq : q.Plain) {p : Server V → Option (Server V)} {x : QueueKey}
    (hx : q.Uses x) {o : Server V → Option (Cell (Entry String (Blob V)))}
    (hp : ∀ s db, Refines q s db →
      p s = some { s with keys := Function.update s.keys (q.key x) (o s) })
    (ho : ∀ s db, Refines q s db → ∀ c ∈ o s, Fits x c)
    (hop : ∀ s db, Refines q s db → put q db (o s) x = f db) : Does q p f := by
  intro s db hs
  refine ⟨_, hp s db hs, ?_, ?_⟩
  · rw [← hop s db hs]
    exact hs.update hq hx (ho s db hs)
  · exact ⟨fun k hk => Function.update_of_ne (hk x hx).symm .., ⟨[], by simp⟩, rfl⟩

/-- The container under one key is changed. -/
theorem Does.of_modify (hq : q.Plain) {γ : Type} (C : Container (Entry String (Blob V)) γ)
    {x : QueueKey} (hx : q.Uses x) (act : γ → γ)
    (hC : ∀ c : Cell (Entry String (Blob V)), Fits x c → (C.unwrap c.value).isSome)
    (hfit : ∀ (o : Option (Cell (Entry String (Blob V)))) y, (∀ c ∈ o, Fits x c) →
      Fits x ⟨C.wrap y, o.bind Cell.expireAt⟩)
    (hop : ∀ s db, Refines q s db →
      put q db (C.cell (act (C.contents (q.under s x))) ((q.under s x).bind Cell.expireAt)) x =
        f db) : Does q (modifyAt C (q.key x) act) f := by
  have hu : ∀ s : Server V, s.keys (q.key x) = q.under s x := fun s => by
    rw [SharedQueue.under, if_pos hx]
  refine of_update hq hx
    (o := fun s => C.cell (act (C.contents (q.under s x))) ((q.under s x).bind Cell.expireAt))
    (fun s db hs => ?_) (fun s db hs c hc => ?_) hop
  · rw [modifyAt, TtlMap.modify_eq fun c hc => hC c (hs.fits x c (hu s ▸ hc)), hu]
    rfl
  · rw [Container.of_mem_cell hc]
    exact hfit _ _ (hs.fits x)

end One

/-! ## The commands of the queue -/

theorem bind_expireAt {P : Cell (Entry String (Blob V)) → Prop}
    {o : Option (Cell (Entry String (Blob V)))} (h : ∀ c ∈ o, P c ∧ c.expireAt = none) :
    o.bind Cell.expireAt = none := by
  cases o with
  | none => rfl
  | some c => exact (h c rfl).2

section Commands
variable {q : SharedQueue} (hq : q.Plain)
include hq

theorem does_queued (r : Route) (act : List String → List String) :
    Does (V := V) q (modifyAt Container.lists (q.key (.queued r)) act) fun db =>
      db.onLane r fun l => { l with queued := act l.queued } := by
  refine .of_modify hq Container.lists (x := .queued r) (by simp [SharedQueue.Uses]) act
    (fun _ h => h.1) (fun o y h => ⟨rfl, bind_expireAt h⟩) (fun s db hs => ?_)
  obtain ⟨-, rfl⟩ := hs
  simp [put, Db.onLane, SharedQueue.view]

theorem does_active (r : Route) (act : List String → List String) :
    Does (V := V) q (modifyAt Container.lists (q.key (.active r)) act) fun db =>
      db.onLane r fun l => { l with active := act l.active } := by
  refine .of_modify hq Container.lists (x := .active r) (by simp [SharedQueue.Uses]) act
    (fun _ h => h.1) (fun o y h => ⟨rfl, bind_expireAt h⟩) (fun s db hs => ?_)
  obtain ⟨-, rfl⟩ := hs
  simp [put, Db.onLane, SharedQueue.view]

theorem does_incomplete (r : Route) (act : ZSet String → ZSet String) :
    Does (V := V) q (modifyAt Container.zsets (q.key (.incomplete r)) act) fun db =>
      db.onLane r fun l => { l with incomplete := act l.incomplete } := by
  refine .of_modify hq Container.zsets (x := .incomplete r) (by simp [SharedQueue.Uses]) act
    (fun _ h => h.1) (fun o y h => ⟨rfl, bind_expireAt h⟩) (fun s db hs => ?_)
  obtain ⟨-, rfl⟩ := hs
  simp [put, Db.onLane, SharedQueue.view]

theorem does_stuck (act : Finset String → Finset String) :
    Does (V := V) q (modifyAt Container.sets (q.key .stuck) act) fun db =>
      { db with stuck := act db.stuck } := by
  refine .of_modify hq Container.sets (x := .stuck) (by simp [SharedQueue.Uses]) act
    (fun _ h => h.1) (fun o y h => ⟨rfl, bind_expireAt h⟩) (fun s db hs => ?_)
  obtain ⟨-, rfl⟩ := hs
  simp [put, SharedQueue.view]

namespace Realizes

omit hq in
theorem of_update (hq : q.Plain) {f : Db V → Db V} {cmd : KeyCommand V} {x : QueueKey}
    (hx : q.Uses x) {o : Server V → Option (Cell (Entry String (Blob V)))}
    (hcmd : ∀ s db, Refines q s db →
      cmd.exec s.keys s.clock = some (Function.update s.keys (q.key x) (o s)))
    (ho : ∀ s db, Refines q s db → ∀ c ∈ o s, Fits x c)
    (hop : ∀ s db, Refines q s db → put q db (o s) x = f db) : Realizes q [cmd] f := by
  refine (Does.of_update (p := fun s => s.exec? cmd) hq hx (fun s db hs => ?_) ho hop).realizes
    fun _ => rfl
  simp [exec?, hcmd s db hs]

theorem lremActive (r : Route) (n : ℕ) (id : String) :
    Realizes (V := V) q [.lrem (q.key (.active r)) n id] fun db =>
      db.onLane r fun l => l.lremActive n id := (does_active hq r (lrem n id)).realizes fun _ => rfl

theorem lremQueued (r : Route) (n : ℕ) (id : String) :
    Realizes (V := V) q [.lrem (q.key (.queued r)) n id] fun db =>
      db.onLane r fun l => l.lremQueued n id := (does_queued hq r (lrem n id)).realizes fun _ => rfl

theorem rpush (r : Route) (ids : List String) :
    Realizes (V := V) q [.rpush (q.key (.queued r)) ids] fun db =>
      db.onLane r fun l => l.rpush ids := (does_queued hq r (· ++ ids)).realizes fun _ => rfl

theorem lpush (r : Route) (id : String) :
    Realizes (V := V) q [.lpush (q.key (.queued r)) id] fun db =>
      db.onLane r fun l => l.lpush id := (does_queued hq r (push id .left)).realizes fun _ => rfl

theorem zaddAll (r : Route) (score : ℚ) (ids : List String) :
    Realizes (V := V) q [.zadd (q.key (.incomplete r)) score ids] fun db =>
      db.onLane r fun l => l.zaddAll score ids :=
  (does_incomplete hq r fun z => z.addAll score ids).realizes fun _ => rfl

theorem zadd (r : Route) (score : ℚ) (id : String) :
    Realizes (V := V) q [.zadd (q.key (.incomplete r)) score [id]] fun db =>
      db.onLane r fun l => l.zadd id score := zaddAll hq r score [id]

theorem zrem (r : Route) (id : String) :
    Realizes (V := V) q [.zrem (q.key (.incomplete r)) id] fun db =>
      db.onLane r fun l => l.zrem id :=
  (does_incomplete hq r fun z => z.rem id).realizes fun _ => rfl

theorem sadd (id : String) :
    Realizes (V := V) q [.sadd (q.key .stuck) id] fun db =>
      { db with stuck := insert id db.stuck } := (does_stuck hq (insert id)).realizes fun _ => rfl

theorem srem (id : String) :
    Realizes (V := V) q [.srem (q.key .stuck) id] fun db =>
      { db with stuck := db.stuck.erase id } :=
  (does_stuck hq fun s => s.erase id).realizes fun _ => rfl

/-- The move between the lists of a route. -/
theorem lmove (r : Route) :
    Realizes (V := V) q [dequeueCmd q r] fun db => db.onLane r fun l => l.lmove .right .left := by
  intro s db hs
  have hx : q.Uses (.queued r) := by simp [SharedQueue.Uses]
  have hfits : ∀ c ∈ s.keys (q.key (.queued r)), Fits (.queued r) c := by
    intro c hc
    exact hs.fits (.queued r) c ((if_pos hx).trans hc)
  have hqueued : Container.lists.contents (s.keys (q.key (.queued r))) = (db.lanes r).queued := by
    rw [← hs.view]
    exact congrArg _ (if_pos hx).symm
  have hfetch := Container.fetch_eq_contents (C := Container.lists) fun c hc => (hfits c hc).1
  rw [hqueued] at hfetch
  rcases DelayQueue.lmove_right_left (db.lanes r) with ⟨hnil, hid⟩ | ⟨l, id, hl, hmove⟩
  · have hdb : (db.onLane r fun l => l.lmove .right .left) = db := by
      simp only [Db.onLane, hid, Function.update_eq_self]
    refine ⟨s, ?_, ?_, .refl s⟩
    · simp [exec?, dequeueCmd, Command.exec, hfetch, hnil, pop]
    · show Refines q s (db.onLane r fun l => l.lmove .right .left)
      rw [hdb]
      exact hs
  · -- the two lists are changed one after the other
    obtain ⟨t, ht, ht', hto⟩ := does_queued hq r (fun _ => l) hs
    obtain ⟨u, hu, hu', huo⟩ := does_active hq r (push id .left) ht'
    refine ⟨u, ?_, ?_, hto.trans huo⟩
    · obtain ⟨m, hm, rfl⟩ := Option.map_eq_some_iff.1 ht
      obtain ⟨m', hm', rfl⟩ := Option.map_eq_some_iff.1 hu
      have hp : pop .right (db.lanes r).queued = some (id, l) := pop_right_eq_some.2 hl
      simp [exec?, dequeueCmd, Command.exec, hfetch, hp, hm, hm']
    · have hdb : (db.onLane r fun l => l.lmove .right .left) =
          (db.onLane r fun k => { k with queued := l }).onLane r fun k =>
            { k with active := push id .left k.active } := by
        rw [onLane_onLane]
        simp only [Db.onLane, hmove]
        rfl
      show Refines q u (db.onLane r fun l => l.lmove .right .left)
      rw [hdb]
      exact hu'

/-- A job's record is set. -/
theorem set {id : String} (hid : ∃ key, q.key (.job key) = id) (job : Job V) :
    Realizes q [.set id (.job job)] fun db => { db with records := db.records.set id job } := by
  obtain ⟨key, rfl⟩ := hid
  refine of_update hq (x := .job key) (by simp [SharedQueue.Uses])
    (o := fun _ => some ⟨.str (.job job), none⟩) (fun _ _ _ => rfl) (fun _ _ _ c hc => ?_)
    (fun _ _ _ => rfl)
  cases hc
  rfl

/-- A job's record is set with an expiry. -/
theorem setex {id : String} (hid : ∃ key, q.key (.job key) = id) (ttl : ℕ) (job : Job V) :
    Realizes q [.setex id ttl (.job job)] fun db =>
      { db with records := db.records.setex db.clock id ttl job } := by
  obtain ⟨key, rfl⟩ := hid
  refine of_update hq (x := .job key) (by simp [SharedQueue.Uses])
    (o := fun s => some ⟨.str (.job job), some (s.clock + 1000 * ttl)⟩) (fun _ _ _ => rfl)
    (fun _ _ _ c hc => ?_) (fun s db hs => ?_)
  · cases hc
    rfl
  · obtain ⟨-, rfl⟩ := hs
    rfl

/-- A job's record is deleted. -/
theorem del {id : String} (hid : ∃ key, q.key (.job key) = id) :
    Realizes (V := V) q [.del id] fun db => { db with records := db.records.del id } := by
  obtain ⟨key, rfl⟩ := hid
  exact of_update hq (x := .job key) (by simp [SharedQueue.Uses]) (o := fun _ => none)
    (fun _ _ _ => rfl) (fun _ _ _ c hc => by cases hc) (fun _ _ _ => rfl)

/-- A job's record gets an expiry. -/
theorem expire {id : String} (hid : ∃ key, q.key (.job key) = id) (ttl : ℕ) :
    Realizes (V := V) q [.expire id ttl] fun db =>
      { db with records := db.records.expire db.clock id ttl } := by
  obtain ⟨key, rfl⟩ := hid
  have hx : q.Uses (.job key) := by simp [SharedQueue.Uses]
  refine of_update hq hx
    (o := fun s => (q.under s (.job key)).map fun c =>
      { c with expireAt := some (s.clock + 1000 * ttl) }) (fun s _ _ => ?_)
    (fun s db hs c hc => ?_) (fun s db hs => ?_)
  · rw [SharedQueue.under, if_pos hx]
    rfl
  · obtain ⟨c', hc', rfl⟩ := Option.map_eq_some_iff.1 hc
    exact hs.fits _ c' hc'
  · obtain ⟨-, rfl⟩ := hs
    have hrec : (q.view s).records (q.key (.job key)) =
        (q.under s (.job key)).bind (SharedQueue.strCell Blob.asJob) := by
      rw [SharedQueue.under, if_pos hx]
      exact if_pos (isId_iff.2 ⟨key, rfl⟩)
    simp only [put, TtlMap.expire, hrec]
    cases q.under s (.job key) with
    | none => rfl
    | some c =>
      cases h : c.value.asStr.bind Blob.asJob <;> simp [SharedQueue.strCell, h, SharedQueue.view]

/-- A job is flagged as aborted. -/
theorem setexAbort {id : String} (hid : ∃ key, q.key (.abort key) = id) (ttl : ℕ) (error : V) :
    Realizes q [.setex id ttl (.error error)] fun db =>
      { db with abort := db.abort.setex db.clock id ttl error } := by
  obtain ⟨key, rfl⟩ := hid
  refine of_update hq (x := .abort key) (by simp [SharedQueue.Uses])
    (o := fun s => some ⟨.str (.error error), some (s.clock + 1000 * ttl)⟩) (fun _ _ _ => rfl)
    (fun _ _ _ c hc => ?_) (fun s db hs => ?_)
  · cases hc
    rfl
  · obtain ⟨-, rfl⟩ := hs
    rfl

theorem delAbort {id : String} (hid : ∃ key, q.key (.abort key) = id) :
    Realizes (V := V) q [.del id] fun db => { db with abort := db.abort.del id } := by
  obtain ⟨key, rfl⟩ := hid
  exact of_update hq (x := .abort key) (by simp [SharedQueue.Uses]) (o := fun _ => none)
    (fun _ _ _ => rfl) (fun _ _ _ c hc => by cases hc) (fun _ _ _ => rfl)

/-- The lock of `schedule` is taken. -/
theorem lockScheduled (r : Route) (secs : ℕ) :
    Realizes (V := V) q [.setex (q.key (.scheduled r)) secs .one] fun db =>
      { db with scheduled := db.scheduled.setex db.clock r secs () } := by
  refine of_update hq (x := .scheduled r) (by simp [SharedQueue.Uses])
    (o := fun s => some ⟨.str .one, some (s.clock + 1000 * secs)⟩) (fun _ _ _ => rfl)
    (fun _ _ _ _ _ => trivial) (fun s db hs => ?_)
  obtain ⟨-, rfl⟩ := hs
  rfl

/-- The lock of `sweep` is taken. -/
theorem lockSweep (r : Route) (secs : ℕ) :
    Realizes (V := V) q [.setex (q.key (.sweep r)) secs .one] fun db =>
      { db with sweep := db.sweep.setex db.clock r secs () } := by
  refine of_update hq (x := .sweep r) (by simp [SharedQueue.Uses])
    (o := fun s => some ⟨.str .one, some (s.clock + 1000 * secs)⟩) (fun _ _ _ => rfl)
    (fun _ _ _ _ _ => trivial) (fun s db hs => ?_)
  obtain ⟨-, rfl⟩ := hs
  rfl

/-- The push list gets an entry and a new expiry. -/
theorem pushAdd (id : String) :
    Realizes (V := V) q (pushCmds q id) fun db => db.pushAdd q.toQueueConfig id := by
  unfold pushCmds
  by_cases he : q.pushToQueueEnabled = true
  swap
  · simpa [he, Db.pushAdd] using nil (q := q) (V := V)
  have hx : q.Uses .push := fun _ => he
  have hu : ∀ s : Server V, s.keys (q.key .push) = q.under s .push := fun s => (if_pos hx).symm
  simp only [he, ↓reduceIte, Db.pushAdd]
  refine Does.of_update hq hx
    (o := fun s => some ⟨.list (Container.lists.contents (q.under s .push) ++ [id]),
      some (s.clock + 1000 * q.pushToQueueTtl)⟩) (fun s db hs => ?_)
    (fun s db _ c hc => ?_) (fun s db hs => ?_)
  · have hm := TtlMap.modify_eq (C := Container.lists) (f := (· ++ [id])) fun c hc =>
      hs.fits .push c (hu s ▸ hc)
    have hcell : Container.lists.cell (Container.lists.contents (q.under s .push) ++ [id])
        ((q.under s .push).bind Cell.expireAt) =
          some ⟨(Entry.list (Container.lists.contents (q.under s .push) ++ [id]) :
            Entry String (Blob V)), (q.under s .push).bind Cell.expireAt⟩ := by
      simp [Container.cell, Container.lists]
    rw [hu, hcell] at hm
    simp [exec?, Command.exec, hm, TtlMap.expire]
  · cases hc
    rfl
  · obtain ⟨-, rfl⟩ := hs
    simp [put, SharedQueue.view, Container.contents, Container.fetch, Container.lists,
      Entry.asList]

/-- An entry of the push list is removed. -/
theorem pushRemove (id : String) :
    Realizes (V := V) q (removeCmds q id) fun db => db.pushRemove q.toQueueConfig id := by
  unfold removeCmds
  by_cases he : q.pushToQueueEnabled = true
  swap
  · simpa [he, Db.pushRemove] using nil (q := q) (V := V)
  simp only [he, ↓reduceIte, Db.pushRemove]
  refine (Does.of_modify hq Container.lists (x := .push) (fun _ => he) (Redis.lrem 1 id)
    (fun _ h => h) (fun o y h => rfl) (fun s db hs => ?_)).realizes fun _ => rfl
  obtain ⟨-, rfl⟩ := hs
  simp [put, SharedQueue.view, Container.bind_cell, Container.lists]

end Realizes

end Commands

/-! ## What a script finds -/

section Finds
variable {q : SharedQueue}

/-- A key that exists on the server is one that the queue sees. -/
theorem exists_scheduled {s : Server V} {db : Db V} (hs : Refines q s db) (r : Route) :
    s.keys.exists? (q.key (.scheduled r)) = db.scheduled.exists? r := by
  obtain ⟨-, rfl⟩ := hs
  simp [TtlMap.exists?, SharedQueue.view, SharedQueue.under, SharedQueue.Uses]

theorem exists_sweep {s : Server V} {db : Db V} (hs : Refines q s db) (r : Route) :
    s.keys.exists? (q.key (.sweep r)) = db.sweep.exists? r := by
  obtain ⟨-, rfl⟩ := hs
  simp [TtlMap.exists?, SharedQueue.view, SharedQueue.under, SharedQueue.Uses]

theorem exists_abort {s : Server V} {db : Db V} (hs : Refines q s db) (key : String) :
    s.keys.exists? (q.key (.abort key)) = db.abort.exists? (q.key (.abort key)) := by
  have hx : q.Uses (.abort key) := by simp [SharedQueue.Uses]
  have hfits := hs.fits (.abort key)
  obtain ⟨-, rfl⟩ := hs
  rw [SharedQueue.under, if_pos hx] at hfits
  have hab : (q.view s).abort (q.key (.abort key)) =
      (s.keys (q.key (.abort key))).bind (SharedQueue.strCell Blob.asError) :=
    if_pos (isAbortId_iff.2 ⟨key, rfl⟩)
  rw [TtlMap.exists?, TtlMap.exists?, hab]
  cases hk : s.keys (q.key (.abort key)) with
  | none => rfl
  | some c =>
    have hc : (c.value.asStr.bind Blob.asError).isSome := hfits c hk
    show true = ((c.value.asStr.bind Blob.asError).map fun e => (⟨e, c.expireAt⟩ : Cell V)).isSome
    rw [Option.isSome_map, hc]

/-- The scores of a route, as a script finds them. -/
theorem fetch_incomplete {s : Server V} {db : Db V} (hs : Refines q s db) (r : Route) :
    Container.zsets.fetch (s.keys (q.key (.incomplete r))) = some (db.lanes r).incomplete := by
  have hu : q.under s (.incomplete r) = s.keys (q.key (.incomplete r)) :=
    if_pos (by simp [SharedQueue.Uses])
  have hfits := hs.fits (.incomplete r)
  obtain ⟨-, rfl⟩ := hs
  rw [hu] at hfits
  rw [Container.fetch_eq_contents (C := Container.zsets) fun c hc => (hfits c hc).1, ← hu]
  rfl

end Finds

/-! ## The steps of a client -/

section Steps
variable {q : SharedQueue} (hq : q.Plain)
include hq

open Realizes

theorem realizes_finish (job : Job V) (hid : ∃ key, q.key (.job key) = job.id q.toKeyConfig) :
    Realizes q (finishCmds q job) fun db => finishTx q.toQueueConfig db job := by
  have h := ((cons (lremActive hq job.route 1 (job.id q.toKeyConfig))
    (zrem hq job.route (job.id q.toKeyConfig))).append
      (ite (p := 0 < job.ttl) (fun _ => setex hq hid job.ttl.toNat job) fun _ =>
        ite (p := job.ttl = 0) (fun _ => set hq hid job) fun _ => del hq hid)).append
    (pushRemove hq (job.id q.toKeyConfig))
  simp only [onLane_onLane] at h
  exact h

theorem realizes_retry (job : Job V) (rnd time : ℚ)
    (hid : ∃ key, q.key (.job key) = job.id q.toKeyConfig) :
    Realizes q (retryCmds q job rnd time) fun db => retryTx q.toQueueConfig db job rnd time := by
  have h := ((cons (lremActive hq job.route 1 (job.id q.toKeyConfig))
    (lremQueued hq job.route 1 (job.id q.toKeyConfig))).append
      (ite (p := job.nextRetryDelay rnd ≠ 0)
        (fun _ => zadd hq job.route (time + job.nextRetryDelay rnd) (job.id q.toKeyConfig))
        fun _ => cons (zadd hq job.route job.scheduled (job.id q.toKeyConfig))
          (rpush hq job.route [job.id q.toKeyConfig]))).append (set hq hid job)
  simp only [retryTx, onLane_onLane] at h ⊢
  exact h

theorem realizes_reschedule (job : Job V) (waitTime time : ℚ)
    (hid : ∃ key, q.key (.job key) = job.id q.toKeyConfig) :
    Realizes q (rescheduleCmds q job waitTime time) fun db =>
      rescheduleTx q.toQueueConfig db job waitTime time := by
  have h := ((cons (lremActive hq job.route 1 (job.id q.toKeyConfig))
    (cons (lremQueued hq job.route 1 (job.id q.toKeyConfig))
      (zadd hq job.route (time + waitTime) (job.id q.toKeyConfig)))).append
        (pushAdd hq (job.id q.toKeyConfig))).append (set hq hid job)
  simp only [onLane_onLane] at h
  exact h

theorem realizes_abort {job : Job V} (error : V) (ttl : ℕ)
    (hid : ∃ key, q.key (.job key) = job.id q.toKeyConfig) :
    Realizes q (abortCmds q job error ttl) fun db =>
      abortTx q.toQueueConfig db job error ttl := by
  have ha : ∃ key, q.key (.abort key) = job.abortId q.toKeyConfig := ⟨job.key, rfl⟩
  have h := cons (lremQueued hq job.route 0 (job.id q.toKeyConfig))
    (cons (zrem hq job.route (job.id q.toKeyConfig))
      (cons (expire hq hid (ttl + 1)) (setexAbort hq ha ttl error)))
  simp only [onLane_onLane] at h
  exact h

theorem realizes_sweepMissing (r : Route) (id : String) :
    Realizes (V := V) q (sweepMissingCmds q r id) fun db =>
      sweepMissingTx q.toQueueConfig db r id := by
  have h := (cons (lremActive hq r 0 id) (zrem hq r id)).append (pushRemove (V := V) hq id)
  simp only [onLane_onLane] at h
  exact h

theorem realizes_checkStuck (job : Job V) :
    Realizes q (checkStuckCmds q job) fun db => checkStuckTx q.toQueueConfig db job := by
  have h := cons (lremActive (V := V) hq job.route 1 (job.id q.toKeyConfig))
    (cons (lpush hq job.route (job.id q.toKeyConfig))
      (cons (zrem hq job.route (job.id q.toKeyConfig))
        (zadd hq job.route job.scheduled (job.id q.toKeyConfig))))
  simp only [onLane_onLane] at h
  exact h

theorem refines_schedule {s : Server V} {db : Db V} (hs : Refines q s db) (r : Route) (lock : ℕ)
    (now : ℚ) : Refines q (s.scheduleScript q r lock now) (Kvdb.scheduleScript db r lock now).1 ∧
      Own q s (s.scheduleScript q r lock now) := by
  unfold scheduleScript Kvdb.scheduleScript
  rw [exists_scheduled hs r]
  split
  · exact ⟨hs, .refl s⟩
  · obtain ⟨h1, o1⟩ := (lockScheduled hq r lock).exec hs
    simp only [fetch_incomplete h1 r, DelayQueue.due]
    by_cases hj : (db.lanes r).incomplete.rangeByScore 1 now = []
    · simpa only [hj, ↓reduceIte] using ⟨h1, o1⟩
    · obtain ⟨h2, o2⟩ := (cons (zaddAll hq r 0 _) (rpush hq r _)).script h1
      rw [onLane_onLane] at h2
      simpa only [hj, ↓reduceIte] using ⟨h2, o1.trans o2⟩

theorem refines_cleanup {s : Server V} {db : Db V} (hs : Refines q s db) (r : Route) (lock : ℕ) :
    Refines q (s.cleanupScript q r lock) (Kvdb.cleanupScript db r lock).1 ∧
      Own q s (s.cleanupScript q r lock) := by
  unfold cleanupScript Kvdb.cleanupScript
  rw [exists_sweep hs r]
  split
  · exact ⟨hs, .refl s⟩
  · exact (lockSweep hq r lock).exec hs

theorem refines_enqueue {s : Server V} {db : Db V} (hs : Refines q s db) {job : Job V} (now : ℤ)
    (hid : ∃ key, q.key (.job key) = job.id q.toKeyConfig) :
    Refines q (s.enqueue q job now) (TaskQueue.enqueue q.toQueueConfig db job now).1 ∧
      Own q s (s.enqueue q job now) := by
  have habort : s.keys.exists? (job.abortId q.toKeyConfig) =
      db.abort.exists? (job.abortId q.toKeyConfig) := exists_abort hs job.key
  simp only [enqueue, fetch_incomplete hs, TaskQueue.enqueue, enqueueScript, enqueueAccepts,
    habort, decide_eq_true_eq]
  split
  · have h := (cons (set hq hid (enqueuedJob job now)) (zadd hq job.route job.scheduled
      (job.id q.toKeyConfig))).append (ite (p := job.scheduled = 0)
        (fun _ => rpush hq job.route [job.id q.toKeyConfig]) fun _ => nil)
    obtain ⟨h1, o1⟩ := h.script hs
    exact ⟨h1, o1⟩
  · exact ⟨hs, .refl s⟩

end Steps

/-! ## What other queues do -/

section Frame
variable {q q' : SharedQueue} {s t : Server V} {db : Db V}

theorem under_own (ho : Own q s t) (ha : q.Apart q') : q'.under t = q'.under s := by
  funext x
  unfold SharedQueue.under
  split
  · rename_i hx
    exact ho.keys _ fun y hy => ha.key_ne hy hx
  · rfl

theorem strings_own {α : Type} (f : Blob V → Option α) {p : String} (ho : Own q s t)
    (hp : ∀ k : String, p.toList <+: k.toList → ∀ x, q.Uses x → q.key x ≠ k) :
    SharedQueue.strings p f t.keys = SharedQueue.strings p f s.keys := by
  funext k
  unfold SharedQueue.strings
  split
  · rename_i hk
    rw [ho.keys k (hp k hk)]
  · rfl

/-- **What the clients of one queue do, another queue does not see.** -/
theorem Own.refines (ho : Own q s t) (ha : q.Apart q') (hs : Refines q' s db) :
    Refines q' t db := by
  have hu := under_own ho ha
  have hj : ∀ k : String, (q'.jobIdPrefix ++ ":").toList <+: k.toList →
      ∀ x, q.Uses x → q.key x ≠ k := by
    intro k hk x hx
    obtain ⟨key, rfl⟩ := isId_iff.1 hk
    exact ha.key_ne hx (by simp [SharedQueue.Uses])
  have hab : ∀ k : String, (q'.abortIdPrefix ++ ":").toList <+: k.toList →
      ∀ x, q.Uses x → q.key x ≠ k := by
    intro k hk x hx
    obtain ⟨key, rfl⟩ := isAbortId_iff.1 hk
    exact ha.key_ne hx (by simp [SharedQueue.Uses])
  obtain ⟨ms, hms, hch⟩ := ho.published
  have hpub : t.published.filter (fun m => (q'.jobIdPrefix ++ ":").toList <+: m.1.toList) =
      s.published.filter (fun m => (q'.jobIdPrefix ++ ":").toList <+: m.1.toList) := by
    have hnone : ms.filter (fun m => (q'.jobIdPrefix ++ ":").toList <+: m.1.toList) = [] := by
      refine List.filter_eq_nil_iff.2 fun m hm hp => ?_
      obtain ⟨key, hk⟩ := hch m hm
      exact hj m.1 (of_decide_eq_true hp) (.job key) (by simp [SharedQueue.Uses]) hk
    rw [hms, List.filter_append, hnone, List.append_nil]
  refine ⟨fun x c hc => hs.fits x c (hu ▸ hc), ?_⟩
  rw [← hs.view]
  simp only [SharedQueue.view, hu, strings_own _ ho hj, strings_own _ ho hab, hpub, ho.clock]

end Frame

/-! ## Time -/

section Time
variable {q : SharedQueue} {s : Server V} {db : Db V}

/-- The key is not past its deadline. -/
def alive (now : ℕ) {α : Type} (c : Cell α) : Bool := c.expireAt.all fun t => decide (now < t)

theorem under_advance (ms : ℕ) (x : QueueKey) :
    q.under (s.advance ms) x = (q.under s x).filter (alive (s.clock + ms)) := by
  unfold SharedQueue.under
  split
  · rfl
  · rfl

/-- A string keeps its deadline. -/
theorem bind_strCell_filter {α : Type} (f : Blob V → Option α)
    (o : Option (Cell (Entry String (Blob V)))) (now : ℕ) :
    (o.filter (alive now)).bind (SharedQueue.strCell f) =
      (o.bind (SharedQueue.strCell f)).filter (alive now) := by
  cases o with
  | none => rfl
  | some c =>
    rw [Option.filter_some, Option.bind_some]
    by_cases hc : alive now c = true
    · rw [if_pos hc, Option.bind_some]
      unfold SharedQueue.strCell
      cases c.value.asStr.bind f with
      | none => rfl
      | some x => exact (if_pos hc).symm
    · rw [if_neg hc, Option.bind_none]
      unfold SharedQueue.strCell
      cases c.value.asStr.bind f with
      | none => rfl
      | some x => exact (if_neg hc).symm

theorem strings_advance {α : Type} (f : Blob V → Option α) (p : String) (ms : ℕ) :
    SharedQueue.strings p f (s.advance ms).keys =
      (SharedQueue.strings p f s.keys).evict (s.clock + ms) := by
  funext k
  by_cases hk : p.toList <+: k.toList
  · simp only [SharedQueue.strings, TtlMap.evict, if_pos hk]
    exact bind_strCell_filter f (s.keys k) (s.clock + ms)
  · simp only [SharedQueue.strings, TtlMap.evict, if_neg hk]
    rfl

/-- A container without a deadline stays. -/
theorem contents_filter {γ : Type} (C : Container (Entry String (Blob V)) γ)
    {P : Cell (Entry String (Blob V)) → Prop} {o : Option (Cell (Entry String (Blob V)))} (now : ℕ)
    (h : ∀ c ∈ o, P c ∧ c.expireAt = none) :
    C.contents (o.filter (alive now)) = C.contents o := by
  cases o with
  | none => rfl
  | some c => simp [Option.filter, alive, (h c rfl).2]

theorem map_lockCell_filter (o : Option (Cell (Entry String (Blob V)))) (now : ℕ) :
    (o.filter (alive now)).map SharedQueue.lockCell =
      (o.map SharedQueue.lockCell).filter (alive now) := by
  cases o with
  | none => rfl
  | some c =>
    simp only [Option.filter_some, Option.map_some]
    show Option.map _ (if alive now c = true then some c else none) =
      if alive now c = true then some (SharedQueue.lockCell c) else none
    split <;> rfl

/-- The push list past its deadline. -/
theorem contents_filter_push (o : Option (Cell (Entry String (Blob V)))) (now : ℕ) :
    Container.lists.contents (o.filter (alive now)) =
      if (o.bind Cell.expireAt).any (fun t => decide (t ≤ now)) then []
      else Container.lists.contents o := by
  cases o with
  | none => rfl
  | some c =>
    obtain ⟨v, e⟩ := c
    cases e with
    | none => rfl
    | some t =>
      by_cases h : now < t
      · simp [alive, Option.filter_some, h]
      · simp [alive, Option.filter_some, h, Container.lists]

theorem bind_expireAt_filter (o : Option (Cell (Entry String (Blob V)))) (now : ℕ) :
    (o.filter (alive now)).bind Cell.expireAt =
      (o.bind Cell.expireAt).filter fun t => decide (now < t) := by
  cases o with
  | none => rfl
  | some c =>
    obtain ⟨v, e⟩ := c
    cases e with
    | none => rfl
    | some t => by_cases h : now < t <;> simp [alive, Option.filter_some, h]

/-- **Time passes** for all queues at once. -/
theorem Refines.advance (hs : Refines q s db) (ms : ℕ) :
    Refines q (s.advance ms) (db.advance ms) := by
  obtain ⟨hf, rfl⟩ := hs
  refine ⟨fun x c hc => ?_, ?_⟩
  · rw [under_advance] at hc
    exact hf x c (Option.filter_eq_some_iff.1 hc).1
  have hq' := fun r => contents_filter Container.lists (s.clock + ms) (hf (.queued r))
  have ha' := fun r => contents_filter Container.lists (s.clock + ms) (hf (.active r))
  have hi' := fun r => contents_filter Container.zsets (s.clock + ms) (hf (.incomplete r))
  have hst := contents_filter Container.sets (s.clock + ms) (hf .stuck)
  simp only [SharedQueue.view, Db.advance, under_advance, strings_advance, map_lockCell_filter,
    hq', ha', hi', hst, Db.mk.injEq, true_and]
  exact ⟨rfl, rfl, contents_filter_push _ _, bind_expireAt_filter _ _, rfl, rfl⟩

end Time

/-! ## Runs -/

/-- The ids that the step uses as keys are ids of the queue. -/
def Act.Named (c : KeyConfig) : Act V → Prop
  | .enqueue job _ | .finish job .. | .retry job .. | .reschedule job .. | .abort job ..
  | .update job _ => c.IsId (job.id c)
  | .publish jobId _ => c.IsId jobId
  | _ => True

theorem refines_publish {q : SharedQueue} {s : Server V} {db : Db V} (hs : Refines q s db)
    {id : String} (hid : ∃ key, q.key (.job key) = id) (status : JobStatus) :
    Refines q { s with published := s.published ++ [(id, status)] }
        { db with published := db.published ++ [(id, status)] } ∧
      Own q s { s with published := s.published ++ [(id, status)] } := by
  refine ⟨⟨hs.fits, ?_⟩, ⟨fun _ _ => rfl, ⟨[(id, status)], rfl, ?_⟩, rfl⟩⟩
  · rw [← hs.view]
    have hfilter : (s.published ++ [(id, status)]).filter
        (fun m => (q.jobIdPrefix ++ ":").toList <+: m.1.toList) =
          s.published.filter (fun m => (q.jobIdPrefix ++ ":").toList <+: m.1.toList) ++
            [(id, status)] := by
      rw [List.filter_append, List.filter_cons, if_pos (decide_eq_true (isId_iff.2 hid)),
        List.filter_nil]
    exact congrArg (fun ms => { q.view s with published := ms }) hfilter
  · intro m hm
    rw [List.mem_singleton.1 hm]
    exact hid

/-- **A step of a client** on the server is the step of the queue; it changes keys of the queue only,
unless time passes. -/
theorem refines_apply {q : SharedQueue} (hq : q.Plain) {s : Server V} {db : Db V}
    (hs : Refines q s db) {a : Act V} (hn : Act.Named q.toKeyConfig a) :
    Refines q (s.apply q a) (Kvdb.apply q.toQueueConfig db a) ∧
      ((∀ ms, a ≠ .advance ms) → Own q s (s.apply q a)) := by
  have hkey : ∀ id, q.toKeyConfig.IsId id → ∃ key, q.key (.job key) = id := by
    rintro id ⟨key, rfl⟩
    exact ⟨key, rfl⟩
  cases a with
  | advance ms => exact ⟨hs.advance ms, fun h => absurd rfl (h ms)⟩
  | read => exact ⟨hs, fun _ => .refl s⟩
  | publish id status =>
    obtain ⟨h, ho⟩ := refines_publish hs (hkey _ hn) status
    exact ⟨h, fun _ => ho⟩
  | enqueue job now =>
    obtain ⟨h, ho⟩ := refines_enqueue hq hs now (hkey _ hn)
    exact ⟨h, fun _ => ho⟩
  | schedule r lock now =>
    obtain ⟨h, ho⟩ := refines_schedule hq hs r lock now
    exact ⟨h, fun _ => ho⟩
  | cleanup r lock =>
    obtain ⟨h, ho⟩ := refines_cleanup hq hs r lock
    exact ⟨h, fun _ => ho⟩
  | dequeue r =>
    obtain ⟨h, ho⟩ := (Realizes.lmove hq r).exec hs
    have hdb : Kvdb.apply q.toQueueConfig db (.dequeue r) =
        db.onLane r fun l => l.lmove .right .left := by
      simp [Kvdb.apply, dequeueJobId, Db.onLane, dequeueFuncMethod, DelayQueue.rpoplpush]
    rw [hdb]
    exact ⟨h, fun _ => ho⟩
  | finish job status result error now =>
    obtain ⟨h, ho⟩ := (realizes_finish hq (job.complete status result error now)
      (hkey _ hn)).transaction hs
    exact ⟨h, fun _ => ho⟩
  | retry job error now rnd time =>
    obtain ⟨h, ho⟩ := (realizes_retry hq (job.reset .queued error now) rnd time
      (hkey _ hn)).transaction hs
    exact ⟨h, fun _ => ho⟩
  | reschedule job error now waitTime time =>
    obtain ⟨h, ho⟩ := (realizes_reschedule hq (job.reset .queued error now) waitTime time
      (hkey _ hn)).transaction hs
    exact ⟨h, fun _ => ho⟩
  | abort job error ttl =>
    obtain ⟨h, ho⟩ := (realizes_abort hq error ttl (hkey _ hn)).transaction hs
    exact ⟨h, fun _ => ho⟩
  | dropActive job =>
    obtain ⟨h, ho⟩ := (Realizes.lremActive hq job.route 0 (job.id q.toKeyConfig)).exec hs
    exact ⟨h, fun _ => ho⟩
  | dropAbort job =>
    have hkey : ∃ key, q.key (.abort key) = job.abortId q.toKeyConfig := ⟨job.key, rfl⟩
    obtain ⟨h, ho⟩ := (Realizes.delAbort hq hkey).exec hs
    exact ⟨h, fun _ => ho⟩
  | sweepMissing r jobId =>
    obtain ⟨h, ho⟩ := (realizes_sweepMissing hq r jobId).transaction hs
    exact ⟨h, fun _ => ho⟩
  | update job now =>
    obtain ⟨h, ho⟩ := (Realizes.set hq (hkey _ hn) { job with touched := now }).exec hs
    exact ⟨h, fun _ => ho⟩
  | saddStuck jobId =>
    obtain ⟨h, ho⟩ := (Realizes.sadd hq jobId).exec hs
    exact ⟨h, fun _ => ho⟩
  | checkStuck job =>
    obtain ⟨h, ho⟩ := (realizes_checkStuck hq job).transaction hs
    exact ⟨h, fun _ => ho⟩
  | sremStuck jobId =>
    obtain ⟨h, ho⟩ := (Realizes.srem hq jobId).exec hs
    exact ⟨h, fun _ => ho⟩
  | pushBg jobId =>
    obtain ⟨h, ho⟩ := (Realizes.pushAdd hq jobId).transaction hs
    exact ⟨h, fun _ => ho⟩
  | removeBg jobId =>
    obtain ⟨h, ho⟩ := (Realizes.pushRemove hq jobId).transaction hs
    exact ⟨h, fun _ => ho⟩

/-- An empty server stands for an empty queue. -/
theorem refines_init (q : SharedQueue) : Refines q ({} : Server V) {} := by
  have hu : q.under ({} : Server V) = fun _ => none := by
    funext x
    simp [SharedQueue.under]
  have hs : ∀ {α : Type} (f : Blob V → Option α) (p : String),
      SharedQueue.strings p f ({} : Server V).keys = fun _ => none := by
    intro α f p
    funext k
    simp [SharedQueue.strings]
  refine ⟨fun x c hc => ?_, ?_⟩
  · rw [hu] at hc
    cases hc
  · simp only [SharedQueue.view, hu, hs]
    rfl

section Shared
variable {ι : Type*} [DecidableEq ι] {q : ι → SharedQueue}

/-- The queues of a family have keys of their own. -/
structure Separate (q : ι → SharedQueue) : Prop where
  plain : ∀ i, (q i).Plain
  apart : ∀ i j, i ≠ j → (q i).Apart (q j)

/-- What the queue `i` sees of a step on the server: its own steps, and that time passes. -/
def seen (i : ι) (e : ι × Act V) : Act V :=
  if e.1 = i then e.2
  else
    match e.2 with
    | .advance ms => .advance ms
    | _ => .read

theorem seen_of_ne {i j : ι} (h : j ≠ i) {a : Act V} (ha : ∀ ms, a ≠ .advance ms) :
    seen i (j, a) = .read := by
  simp only [seen, if_neg h]

/-- A step of any client, as each queue sees it. -/
theorem refines_seen (hq : Separate q) {s : Server V} {i : ι} {db : Db V}
    (hs : Refines (q i) s db) {e : ι × Act V} {dbe : Db V} (he : Refines (q e.1) s dbe)
    (hn : Act.Named (q e.1).toKeyConfig e.2) :
    Refines (q i) (s.apply (q e.1) e.2) (Kvdb.apply (q i).toQueueConfig db (seen i e)) := by
  obtain ⟨j, a⟩ := e
  by_cases hj : j = i
  · subst hj
    rw [seen, if_pos rfl]
    exact (refines_apply (hq.plain j) hs hn).1
  · by_cases ha : ∃ ms, a = .advance ms
    · obtain ⟨ms, rfl⟩ := ha
      rw [seen, if_neg hj]
      exact hs.advance ms
    · have ha' : ∀ ms, a ≠ .advance ms := fun ms e => ha ⟨ms, e⟩
      rw [seen_of_ne hj ha']
      exact ((refines_apply (hq.plain j) he hn).2 ha').refines (hq.apart j i hj) hs

/-- A run of the server refines the runs of all its queues. -/
theorem refines_run (hq : Separate q) {s : Server V} {as : List (ι × Act V)}
    (hr : (server q).Run (fun _ e => Act.Named (q e.1).toKeyConfig e.2) {} as s) (i : ι) :
    Refines (q i) s (run (q i).toQueueConfig {} (as.map (seen i))) := by
  induction hr generalizing i with
  | nil => exact refines_init (q i)
  | snoc _ hc hs ih =>
    cases hs
    rw [List.map_append, run, List.foldl_append]
    exact refines_seen hq (ih i) (ih _) hc

/-- **Queues that share a server run as if each had a server of its own**: whatever the clients of
all of them do in whatever order, what stands under a queue's keys in the end is the state to which its
own steps lead it, and every key holds a value of the type that the queue expects there. -/
theorem server_run (hq : Separate q) {s : Server V} {as : List (ι × Act V)}
    (hr : (server q).Run (fun _ e => Act.Named (q e.1).toKeyConfig e.2) {} as s) (i : ι) :
    (q i).view s = run (q i).toQueueConfig {} (as.map (seen i)) ∧
      ∀ x, ∀ c ∈ (q i).under s x, Fits x c :=
  ⟨(refines_run hq hr i).view, (refines_run hq hr i).fits⟩

/-- Two queues, a job in each, and the one of `mail` is served. -/
theorem server_run_two :
    ∃ s : Server ℕ, SharedQueue.view { queueName := "mail" } s =
      run ({ queueName := "mail" } : SharedQueue).toQueueConfig {}
        ([(true, Act.enqueue { function := "f", key := "k" } 1),
          (false, Act.enqueue { function := "g", key := "k" } 2), (true, .dequeue none),
          (false, .advance 5)].map (seen true)) := by
  have hsep : Separate fun b : Bool =>
      if b then ({ queueName := "mail" } : SharedQueue) else {} := by
    constructor
    · intro i
      cases i <;> exact ⟨by decide, by decide⟩
    · intro i j h
      cases i <;> cases j <;> first | exact absurd rfl h | constructor <;> decide
  refine ⟨_, (server_run hsep (Machine.run_of_exec rfl ?_) true).1⟩
  exact ⟨⟨"k", by decide⟩, ⟨"k", by decide⟩, trivial, trivial, trivial⟩

end Shared

end Server

end Kvdb
