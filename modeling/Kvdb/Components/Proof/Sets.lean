import Kvdb.Components.Sets
import Mathlib.Data.Finset.Lattice.Fold
import Mathlib.Order.Lattice.Nat

/-!
# Set operations refine finite sets

`Holds b s m`: the two hashes hold the finite sets of `m`, encoded, and their deadlines. A read of a
key gives its set (`Holds.getColl`), a write of a set puts it there (`Holds.setColl`), so every call
that is `Faithful` answers as the operation on finite sets does and keeps `Holds` (`Holds.setOp`);
and so does every run of such calls, whatever their variants (`sets_refine`).
-/

namespace Kvdb

open Redis Lib Python HsetStore

variable {α R : Type} [DecidableEq α]

/-! ## The finite sets -/

namespace SetMap

variable (m : SetMap α) (now : ℕ) (key : String)

omit [DecidableEq α] in
theorem live_eq : m.live now key =
    (m key).filter fun c => c.deadline.all fun e => decide ((now : ℤ) ≤ e) := rfl

omit [DecidableEq α] in
theorem drop_self : m.drop now key key = m.live now key := Function.update_self ..

omit [DecidableEq α] in
theorem drop_of_ne {key' : String} (h : key' ≠ key) : m.drop now key key' = m key' :=
  Function.update_of_ne h ..

end SetMap

/-- The hashes hold the sets and their deadlines. -/
def Holds (b : Backend R (Coll α)) (s : HsetStore R) (m : SetMap α) : Prop :=
  ∀ key, s.data.hget key = (m key).map (fun c => b.encode (.set c.members)) ∧
    s.expIndex.hget key = (m key).bind SetCell.deadline

/-- The serializer gives sets back. -/
def SetsRoundTrip (b : Backend R (Coll α)) : Prop :=
  ∀ members : Finset α, b.decode (b.encode (.set members)) = some (.set members)

variable {b : Backend R (Coll α)} {order : SetOrder α} {now : ℕ} {s : HsetStore R} {m : SetMap α}

omit [DecidableEq α] in
theorem holds_empty : Holds b {} (fun _ => none : SetMap α) := fun key =>
  ⟨Hash.hget_empty key, Hash.hget_empty key⟩

/-! ## One call -/

variable (order) in
/-- There is nothing to pop. -/
theorem popped_eq_nil {c : Coll α} {count : ℤ} :
    popped order c count = [] ↔ (c.len : ℤ) < count ∨ count = 0 ∨ count + c.len ≤ 0 := by
  have hlen : (c.list order).length = c.len := by
    cases c with
    | set members =>
      have hfin : (order.list members).toFinset = members := by
        ext a
        rw [List.mem_toFinset, order.mem]
      rw [Coll.list, Coll.len, ← List.toFinset_card_of_nodup (order.nodup members), hfin]
    | seq items => rfl
  unfold popped
  split
  · rename_i h
    exact iff_of_true rfl (.inl h)
  · rw [upTo, List.take_eq_nil_iff, ← List.length_eq_zero_iff, hlen]
    split <;> omega

namespace Holds

omit [DecidableEq α] in
/-- What the get script answers and leaves. -/
theorem luaHget (h : Holds b s m) (now : ℕ) (key : String) :
    (s.luaHget key now).1 = (m.live now key).map (fun c => b.encode (.set c.members)) ∧
      Holds b (s.luaHget key now).2 (m.drop now key) := by
  obtain ⟨hd, hi⟩ := h key
  have hsame : m.live now key = m key → Holds b s (m.drop now key) := by
    intro hlive key'
    by_cases hk : key' = key
    · subst hk
      rw [SetMap.drop_self, hlive]
      exact h key'
    · rw [SetMap.drop_of_ne m now key hk]
      exact h key'
  cases hm : m key with
  | none =>
    have hlive : m.live now key = none := by rw [SetMap.live_eq, hm, Option.filter_none]
    rw [hm, Option.map_none] at hd
    simp only [HsetStore.luaHget, hd, hlive, Option.map_none, true_and]
    exact hsame (by rw [hlive, hm])
  | some c =>
    rw [hm, Option.map_some] at hd
    rw [hm, Option.bind_some] at hi
    cases hc : c.deadline with
    | none =>
      have hlive : m.live now key = some c := by
        rw [SetMap.live_eq, hm, Option.filter_some, hc]
        rfl
      rw [hc] at hi
      simp only [HsetStore.luaHget, hd, hi, hlive, Option.map_some, true_and]
      exact hsame (by rw [hlive, hm])
    | some e =>
      rw [hc] at hi
      by_cases he : e < now
      · have hlive : m.live now key = none := by
          rw [SetMap.live_eq, hm, Option.filter_some, hc]
          simp [he]
        simp only [HsetStore.luaHget, hd, hi, if_pos he, hlive, Option.map_none, true_and]
        intro key'
        rw [Hash.hget_hdel, Hash.hget_hdel]
        by_cases hk : key' = key
        · subst hk
          rw [SetMap.drop_self, hlive, if_pos rfl, if_pos rfl]
          exact ⟨rfl, rfl⟩
        · rw [SetMap.drop_of_ne m now key hk, if_neg hk, if_neg hk]
          exact h key'
      · have hlive : m.live now key = some c := by
          rw [SetMap.live_eq, hm, Option.filter_some, hc]
          simp [not_lt.1 he]
        simp only [HsetStore.luaHget, hd, hi, if_neg he, hlive, Option.map_some, true_and]
        exact hsame (by rw [hlive, hm])

omit [DecidableEq α] in
/-- **A read** gives the set of the key. -/
theorem getColl (hser : SetsRoundTrip b) (h : Holds b s m) (now : ℕ) (key : String) :
    (getColl b now s key).1 = .set (m.members now key) ∧
      Holds b (getColl b now s key).2 (m.drop now key) := by
  obtain ⟨hget, hholds⟩ := h.luaHget now key
  rcases hs : s.luaHget key now with ⟨o, s'⟩
  rw [hs] at hget hholds
  obtain rfl : o = (m.live now key).map fun c => b.encode (.set c.members) := hget
  cases hlive : m.live now key with
  | none =>
    rw [hlive] at hs
    simp only [Kvdb.getColl, hsetOp, hs, Option.map_none, Reply.ofDefault, Option.elim_some,
      SetMap.members, hlive, Option.elim_none, true_and]
    exact hholds
  | some c =>
    rw [hlive] at hs
    simp only [Kvdb.getColl, hsetOp, hs, Option.map_some, hser c.members, SetMap.members, hlive,
      Option.elim_some, true_and]
    exact hholds

omit [DecidableEq α] in
/-- **A write** of a set puts it under the key. -/
theorem setColl (h : Holds b s (m.drop now key)) (members : Finset α) (ex : Option ℤ) :
    Holds b (setColl b now s key (.set members) ex)
      (m.put now key members ((b.orExpiration ex).map fun ex => now + ex)) := by
  intro key'
  obtain ⟨hd, hi⟩ := h key'
  by_cases hk : key' = key
  · subst hk
    rw [SetMap.drop_self] at hi
    simp only [Kvdb.setColl, hsetOp, HsetStore.luaHset, SetMap.put, Function.update_self,
      Option.map_some, Option.bind_some, Hash.hget_hset, if_true, true_and]
    cases b.orExpiration ex with
    | none => exact hi
    | some ex => simp [Hash.hget_hset]
  · rw [SetMap.drop_of_ne m now key hk] at hd hi
    simp only [Kvdb.setColl, hsetOp, HsetStore.luaHset, SetMap.put, Function.update_of_ne hk,
      Hash.hget_hset, if_neg hk]
    refine ⟨hd, ?_⟩
    cases b.orExpiration ex with
    | none => exact hi
    | some ex => simp [Hash.hget_hset, hk, hi]

variable (order) in
/-- **One call** that is faithful answers as the operation on finite sets does. -/
theorem setOp (hser : SetsRoundTrip b) (h : Holds b s m) {v : Variant} {op : SetOp α}
    {replies : List (SetReply α)}
    (hf : Faithful b { store := s, replies } { now, variant := v, op }) :
    (setOp b order now v s op).1 = (specOp b order now m op).1 ∧
      Holds b (setOp b order now v s op).2 (specOp b order now m op).2 := by
  obtain ⟨hget, hholds⟩ := h.getColl hser now op.key
  rcases hs : Kvdb.getColl b now s op.key with ⟨c, s'⟩
  rw [hs] at hget hholds
  obtain rfl : c = .set (m.members now op.key) := hget
  obtain ⟨key, call⟩ := op
  cases call with
  | sadd values ex =>
    obtain rfl : v = .async := hf
    simp only [Kvdb.setOp, hs, Coll.change, specOp, true_and]
    exact hholds.setColl _ ex
  | srem values ex =>
    simp only [Kvdb.setOp, hs, Coll.change, specOp, true_and]
    exact hholds.setColl _ ex
  | smembers =>
    simp only [Kvdb.setOp, hs, specOp, true_and]
    exact hholds
  | sismember a =>
    simp only [Kvdb.setOp, hs, Coll.has, specOp, true_and]
    exact hholds
  | slength =>
    simp only [Kvdb.setOp, hs, Coll.len, specOp, true_and]
    exact hholds
  | spop count =>
    have hnil : popped order (.set (m.members now key)) count = [] := by
      simp only [Faithful, hs, Coll.len] at hf
      exact (popped_eq_nil order).2 hf
    simp only [Kvdb.setOp, hs, specOp, hnil, if_true, true_and]
    exact hholds

end Holds

omit [DecidableEq α] in
/-- What is popped is in the set. -/
theorem mem_of_mem_popped {members : Finset α} {count : ℤ} {a : α}
    (h : a ∈ popped order (.set members) count) : a ∈ members := by
  unfold popped at h
  split at h
  · cases h
  · exact (order.mem members a).1 (List.mem_of_mem_take h)

omit [DecidableEq α] in
theorem encode_inj (hser : SetsRoundTrip b) {members members' : Finset α}
    (h : b.encode (.set members) = b.encode (.set members')) : members = members' := by
  have hdec := congrArg b.decode h
  rw [hser, hser] at hdec
  cases hdec
  rfl

/-- A call that is not faithful leaves something else. `hseq`: a tuple does not come back as a set.
-/
theorem Holds.faithful (hser : SetsRoundTrip b)
    (hseq : ∀ (items : List α) (members : Finset α), b.decode (b.encode (.seq items)) ≠
      some (.set members))
    (h : Holds b s m) {v : Variant} {op : SetOp α} {replies : List (SetReply α)}
    (hafter : Holds b (Kvdb.setOp b order now v s op).2 (specOp b order now m op).2) :
    Faithful b { store := s, replies } { now, variant := v, op } := by
  obtain ⟨hget, hholds⟩ := h.getColl hser now op.key
  rcases hs : Kvdb.getColl b now s op.key with ⟨c, s'⟩
  rw [hs] at hget hholds
  obtain rfl : c = .set (m.members now op.key) := hget
  obtain ⟨key, call⟩ := op
  have hdata := (hafter key).1
  cases call with
  | srem | smembers | sismember | slength => trivial
  | sadd values ex =>
    show v = .async
    cases v with
    | async => rfl
    | sync =>
      simp only [Kvdb.setOp, hs, Coll.change, specOp, Kvdb.setColl, hsetOp, HsetStore.luaHset,
        Hash.hget_hset, if_true, SetMap.put, Function.update_self, Option.map_some,
        Option.some.injEq] at hdata
      exact absurd ((congrArg b.decode hdata).trans (hser _)) (hseq values _)
  | spop count =>
    simp only [Faithful, hs]
    rw [← popped_eq_nil order]
    by_contra hne
    simp only [Kvdb.setOp, hs, specOp, if_neg hne, SetMap.put, Function.update_self,
      Option.map_some] at hdata
    have hbefore := (hholds key).1
    rw [hdata, SetMap.drop_self] at hbefore
    obtain ⟨a, ha⟩ := List.exists_mem_of_ne_nil _ hne
    have hmem := mem_of_mem_popped ha
    cases hlive : m.live now key with
    | none => simp [SetMap.members, hlive] at hmem
    | some cell =>
      rw [hlive, Option.map_some] at hbefore
      have hsame := encode_inj hser (Option.some.inj hbefore)
      have hcell : m.members now key = cell.members := by simp [SetMap.members, hlive]
      rw [← hcell] at hsame
      rw [← hsame] at hmem
      exact (Finset.mem_sdiff.1 hmem).2 (List.mem_toFinset.2 ha)

/-! ## Runs -/

theorem specRun_append (steps : List (ℕ × SetOp α)) (a : ℕ × SetOp α) :
    specRun b order (steps ++ [a]) =
      ((specOp b order a.1 (specRun b order steps).1 a.2).2,
        (specRun b order steps).2 ++ [(specOp b order a.1 (specRun b order steps).1 a.2).1]) := by
  rw [specRun, List.foldl_append]
  rfl

/-- **A run** of faithful calls answers as finite sets do, and holds them. -/
theorem holds_of_run (hser : SetsRoundTrip b) {steps : List (SetStep α)} {t : SetRun α R}
    (h : (setMachine b order).Run (Faithful b) {} steps t) :
    t.replies = (specRun b order (steps.map fun a => (a.now, a.op))).2 ∧
      Holds b t.store (specRun b order (steps.map fun a => (a.now, a.op))).1 := by
  induction h with
  | nil => exact ⟨rfl, holds_empty⟩
  | snoc _ hf hstep ih =>
    obtain ⟨hreplies, hholds⟩ := ih
    obtain ⟨hreply, hstore⟩ := hholds.setOp order hser hf
    cases hstep
    rw [List.map_append, List.map_singleton, specRun_append]
    refine ⟨?_, hstore⟩
    rw [← hreplies, ← hreply]

/-- **Set operations refine finite sets**: two runs of the same calls, whatever their variants,
answer as the operations on finite sets do, and the keys have these sets. -/
theorem sets_refine (b : Backend R (Coll α)) (order : SetOrder α) (hser : SetsRoundTrip b)
    {steps steps' : List (SetStep α)} {t t' : SetRun α R}
    (h : (setMachine b order).Run (Faithful b) {} steps t)
    (h' : (setMachine b order).Run (Faithful b) {} steps' t')
    (hsame : steps.map (fun a => (a.now, a.op)) = steps'.map fun a => (a.now, a.op)) :
    (t.replies = (specRun b order (steps.map fun a => (a.now, a.op))).2 ∧
      ∀ now key, (getColl b now t.store key).1 =
        .set ((specRun b order (steps.map fun a => (a.now, a.op))).1.members now key)) ∧
      t'.replies = t.replies ∧
      ∀ now key, (getColl b now t'.store key).1 = (getColl b now t.store key).1 := by
  obtain ⟨hreplies, hholds⟩ := holds_of_run hser h
  obtain ⟨hreplies', hholds'⟩ := holds_of_run hser h'
  rw [← hsame] at hreplies' hholds'
  refine ⟨⟨hreplies, fun now key => (hholds.getColl hser now key).1⟩, ?_, fun now key => ?_⟩
  · rw [hreplies, hreplies']
  · rw [(hholds.getColl hser now key).1, (hholds'.getColl hser now key).1]

/-! ## Two wrong branches -/

/-- A serializer that gives sets and tuples back. -/
def collBackend : Backend (Coll ℕ) (Coll ℕ) where
  baseKey := "b"
  encode := id
  decode := some
  incr _ _ := none
  globMatch _ _ := false

/-- A set of numbers, from the smallest on. -/
def rangeOrder : SetOrder ℕ where
  list s := (List.range (s.sup id + 1)).filter (· ∈ s)
  nodup s := List.nodup_range.filter _
  mem s a := by
    simp only [List.mem_filter, List.mem_range, decide_eq_true_eq, and_iff_right_iff_imp]
    exact fun ha => Nat.lt_succ_of_le (Finset.le_sup (f := id) ha)

/-- Calls for one key. -/
def callsOn (calls : List (Variant × SetCall ℕ)) : List (SetStep ℕ) :=
  calls.map fun c => { now := 0, variant := c.1, op := ⟨"k", c.2⟩ }

/-- Elements are added by the coroutine, the other calls are of both variants. -/
theorem sets_refine_mixed :
    ∃ t : SetRun ℕ (Coll ℕ), t.replies = [.int 2, .int 1, .bool true, .list []] ∧
      (getColl collBackend 5 t.store "k").1 = .set {2} := by
  have hrun : ∃ t, (setMachine collBackend rangeOrder).Run (Faithful collBackend) {}
      (callsOn [(.async, .sadd [1, 2] none), (.sync, .srem [1] none), (.async, .sismember 2),
        (.sync, .spop 2)]) t ∧ True :=
    Machine.exists_run (by decide) (by decide)
  obtain ⟨t, h, -⟩ := hrun
  obtain ⟨⟨hreplies, hcontent⟩, -⟩ := sets_refine collBackend rangeOrder (fun _ => rfl) h h rfl
  refine ⟨t, ?_, ?_⟩
  · rw [hreplies]
    decide
  · rw [hcontent]
    decide

/-- **A plain `sadd`** stores its arguments, not the set; **`spop`** does not remove what it
returns. -/
theorem sets_broken :
    (∃ t ∈ (setMachine collBackend rangeOrder).exec {}
        (callsOn [(.async, .sadd [1] none), (.sync, .sadd [2] none), (.sync, .smembers)]),
      t.replies ≠ (specRun collBackend rangeOrder
        [(0, ⟨"k", .sadd [1] none⟩), (0, ⟨"k", .sadd [2] none⟩), (0, ⟨"k", .smembers⟩)]).2) ∧
      ∃ t ∈ (setMachine collBackend rangeOrder).exec {}
          (callsOn [(.async, .sadd [1] none), (.async, .spop 1), (.async, .slength)]),
        t.replies ≠ (specRun collBackend rangeOrder
          [(0, ⟨"k", .sadd [1] none⟩), (0, ⟨"k", .spop 1⟩), (0, ⟨"k", .slength⟩)]).2 := by
  decide

end Kvdb
