import Kvdb.Components.Persistence

/-!
# `_run_expiration_check` among other clients

One client runs the expiration check, from one command to the next: `HKEYS` of the expiration hash
(`listing`), `HMGET` of the deadlines (`reading`), then for every key the test of its deadline
(`looping`) and, if it has passed, `HDEL` from the expiration hash (`unindexing`) and from the data
hash (`deleting`). Between two of its commands other clients run the set script, with any deadline or
none, any number of times.

`inForce` is proof-only: the deadline that the expiration hash gave a value when it was last set,
which the check's own `HDEL` does not change.
-/

namespace Kvdb

open Redis Lib HsetStore

/-- Where the check is. -/
inductive Check
  | idle
  /-- `HKEYS` is next. -/
  | listing
  /-- `HMGET` is next. -/
  | reading (keys : List String)
  | looping (todo : List (String × Option ℤ))
  /-- `HDEL` from the expiration hash is next. -/
  | unindexing (key : String) (exp : ℤ) (todo : List (String × Option ℤ))
  /-- `HDEL` from the data hash is next. -/
  | deleting (key : String) (exp : ℤ) (todo : List (String × Option ℤ))
  deriving DecidableEq

/-- The server, the time and the check. -/
structure Sweep (R : Type) where
  clock : ℤ
  store : HsetStore R
  inForce : String → Option ℤ
  check : Check := .idle

inductive SweepEv (R : Type)
  | tick (secs : ℕ)
  /-- The set script of another client. -/
  | set (key : String) (val : R) (expTime : Option ℤ)
  /-- `_run_expiration_check(keys)`. -/
  | start (keys : List String)
  /-- The next command or test of the check. -/
  | next

namespace Sweep

variable {R : Type}

/-- The next command or test of the check. -/
def next (s : Sweep R) : Option (Sweep R) :=
  match s.check with
  | .idle => none
  | .listing =>
    some { s with
      check := if s.store.expIndex.hkeys = [] then .idle else .reading s.store.expIndex.hkeys }
  | .reading keys =>
    some { s with check := .looping (keys.map fun k => (k, s.store.expIndex.hget k)) }
  | .looping [] => some { s with check := .idle }
  | .looping ((_, none) :: todo) => some { s with check := .looping todo }
  | .looping ((key, some exp) :: todo) =>
    some { s with check := if exp < s.clock then .unindexing key exp todo else .looping todo }
  | .unindexing key exp todo =>
    some { s with
      store := { s.store with expIndex := s.store.expIndex.hdel key }
      check := .deleting key exp todo }
  | .deleting key _ todo =>
    some { s with
      store := { s.store with data := s.store.data.hdel key }
      check := .looping todo }

def step (s : Sweep R) : SweepEv R → Option (Sweep R)
  | .tick secs => some { s with clock := s.clock + secs }
  | .set key val expTime =>
    some { s with
      store := s.store.luaHset key val expTime
      inForce := Function.update s.inForce key ((s.store.luaHset key val expTime).expIndex.hget key) }
  | .start keys =>
    match s.check with
    | .idle => some { s with check := if keys = [] then .listing else .reading keys }
    | _ => none
  | .next => s.next

end Sweep

variable {R : Type}

/-- The runs of the check and the other clients, from any content of the two hashes. -/
def sweepMachine (store : HsetStore R) (clock : ℤ) : Machine (Sweep R) (SweepEv R) where
  init := { clock, store, inForce := store.expIndex.hget }
  step := Sweep.step

namespace Sweep

/-- What the check deletes next is a value whose deadline in force is over. -/
def Safe (s : Sweep R) : Prop :=
  ∀ key exp todo, s.check = .deleting key exp todo → s.store.data.hget key ≠ none →
    ∃ d, s.inForce key = some d ∧ d ≤ s.clock

/-- The keys that the check has read a deadline of, and is not done with. -/
def inHand (s : Sweep R) : List (String × Option ℤ) :=
  match s.check with
  | .looping todo => todo
  | .unindexing key exp todo | .deleting key exp todo => (key, some exp) :: todo
  | _ => []

/-- The set script does not give a key in the hands of the check another deadline, but one that is
over as soon as the one that the check has read. -/
def Undisturbed (s : Sweep R) : SweepEv R → Prop
  | .set key _ expTime =>
    ∀ e, (key, some e) ∈ s.inHand →
      ∃ d, expTime.or (s.store.expIndex.hget key) = some d ∧ d ≤ max s.clock (e + 1)
  | _ => True

instance (s : Sweep R) : ∀ e : SweepEv R, Decidable (s.Undisturbed e)
  | .set key _ expTime =>
    decidable_of_iff (∀ p ∈ s.inHand, p.1 = key → ∀ e ∈ p.2,
        ∃ d ∈ expTime.or (s.store.expIndex.hget key), d ≤ max s.clock (e + 1))
      ⟨fun h e hm => h (key, some e) hm rfl e rfl, fun h p hm hk e he =>
        h e (by rw [← hk, ← Option.mem_def.1 he]; exact hm)⟩
  | .tick _ | .start _ | .next => .isTrue trivial

end Sweep

end Kvdb
