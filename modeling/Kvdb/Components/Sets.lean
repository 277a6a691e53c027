import Kvdb.Components.Persistence
import Kvdb.Lib.Python

/-!
# Set operations in hset mode (`components/persistence.py`)

`sadd`, `srem`, `smembers`, `sismember`, `slength` and `spop` of a backend in hset mode, plain and
asynchronous: each reads the value of the key with `get` and the empty set as default, and some
write one back with `set`. A value is a `Coll`: a Python set, or a tuple or list, which has no
`update`.

`SetMap` is what they are for: finite sets under keys, with the deadlines that `set` gives them.
-/

namespace Kvdb

open Redis Lib Python

variable {α R : Type} [DecidableEq α]

/-- A set, or a tuple or list. -/
inductive Coll (α : Type)
  | set (members : Finset α)
  | seq (items : List α)
  deriving DecidableEq

/-- The order in which `list` goes through a set. -/
structure SetOrder (α : Type) where
  list : Finset α → List α
  nodup : ∀ s, (list s).Nodup
  mem : ∀ s a, a ∈ list s ↔ a ∈ s

inductive SetCall (α : Type)
  | sadd (values : List α) (ex : Option ℤ)
  | srem (values : List α) (ex : Option ℤ)
  | smembers
  | sismember (value : α)
  | slength
  | spop (count : ℤ)

structure SetOp (α : Type) where
  key : String
  call : SetCall α

inductive SetReply (α : Type)
  | int (n : ℕ)
  | coll (c : Coll α)
  | bool (b : Bool)
  | list (items : List α)
  /-- `AttributeError`. -/
  | error
  deriving DecidableEq

namespace Coll

/-- `len`. -/
def len : Coll α → ℕ
  | .set s => s.card
  | .seq xs => xs.length

/-- `value in …`. -/
def has (value : α) : Coll α → Bool
  | .set s => value ∈ s
  | .seq xs => value ∈ xs

/-- `list(…)`. -/
def list (order : SetOrder α) : Coll α → List α
  | .set s => order.list s
  | .seq xs => xs

/-- `update` or `difference_update`, which only a set has. -/
def change (f : Finset α → Finset α) : Coll α → Option (Finset α)
  | .set s => some (f s)
  | .seq _ => none

end Coll

variable (b : Backend R (Coll α)) (order : SetOrder α) (now : ℕ)

/-- `self.get(key, default = set())`. -/
def getColl (s : HsetStore R) (key : String) : Coll α × HsetStore R :=
  match hsetOp b now s (.get key (some (.set ∅))) with
  | (.value c, s) => (c, s)
  | (_, s) => (.set ∅, s)

/-- `self.set(key, value, ex = ex)`. -/
def setColl (s : HsetStore R) (key : String) (value : Coll α) (ex : Option ℤ) : HsetStore R :=
  (hsetOp b now s (.set key value ex)).2

/-- `[] if len(value) < count else list(value)[:count]`. -/
def popped (value : Coll α) (count : ℤ) : List α :=
  if value.len < count then [] else upTo (value.list order) count

/-- A set operation. -/
def setOp (v : Variant) (s : HsetStore R) (op : SetOp α) : SetReply α × HsetStore R :=
  let (value, s) := getColl b now s op.key
  match op.call with
  | .sadd values ex =>
    match value.change (· ∪ values.toFinset) with
    | none => (.error, s)
    | some members =>
      match v with
      -- the plain variant stores its arguments
      | .sync => (.int members.card, setColl b now s op.key (.seq values) ex)
      | .async => (.int members.card, setColl b now s op.key (.set members) ex)
  | .srem values ex =>
    match value.change (· \ values.toFinset) with
    | none => (.error, s)
    | some members => (.int members.card, setColl b now s op.key (.set members) ex)
  | .smembers => (.coll value, s)
  | .sismember a => (.bool (value.has a), s)
  | .slength => (.int value.len, s)
  | .spop count => (.list (popped order value count), s)

/-! ## Finite sets under keys -/

/-- A finite set and its deadline. -/
structure SetCell (α : Type) where
  members : Finset α
  deadline : Option ℤ := none

/-- Finite sets under keys. -/
abbrev SetMap (α : Type) := String → Option (SetCell α)

namespace SetMap

/-- What is left under a key at the time `now`. -/
def live (m : SetMap α) (now : ℕ) (key : String) : Option (SetCell α) :=
  (m key).filter fun c => c.deadline.all fun e => decide ((now : ℤ) ≤ e)

/-- The set of a key: empty if there is none. -/
def members (m : SetMap α) (now : ℕ) (key : String) : Finset α :=
  (m.live now key).elim ∅ SetCell.members

/-- Another set under the key, with a new deadline or the old one. -/
def put (m : SetMap α) (now : ℕ) (key : String) (members : Finset α) (deadline : Option ℤ) :
    SetMap α :=
  Function.update m key
    (some { members, deadline := deadline.or ((m.live now key).bind SetCell.deadline) })

/-- Without what is over under the key. -/
def drop (m : SetMap α) (now : ℕ) (key : String) : SetMap α :=
  Function.update m key (m.live now key)

end SetMap

/-- The operation on finite sets: union, difference, membership, size, and removal of what is
popped. -/
def specOp (m : SetMap α) (op : SetOp α) : SetReply α × SetMap α :=
  let s := m.members now op.key
  match op.call with
  | .sadd values ex =>
    let s := s ∪ values.toFinset
    (.int s.card, m.put now op.key s ((b.orExpiration ex).map fun ex => now + ex))
  | .srem values ex =>
    let s := s \ values.toFinset
    (.int s.card, m.put now op.key s ((b.orExpiration ex).map fun ex => now + ex))
  | .smembers => (.coll (.set s), m.drop now op.key)
  | .sismember a => (.bool (a ∈ s), m.drop now op.key)
  | .slength => (.int s.card, m.drop now op.key)
  | .spop count =>
    let items := popped order (.set s) count
    if items = [] then (.list [], m.drop now op.key)
    else (.list items, m.put now op.key (s \ items.toFinset) none)

/-! ## Runs -/

/-- A call of the run: its time, its variant and the operation. -/
structure SetStep (α : Type) where
  now : ℕ
  variant : Variant
  op : SetOp α

/-- The hashes, and what the calls have returned. -/
structure SetRun (α R : Type) where
  store : HsetStore R := {}
  replies : List (SetReply α) := []

/-- The calls on the backend. -/
def setMachine : Machine (SetRun α R) (SetStep α) where
  init := {}
  step s a :=
    some {
      store := (setOp b order a.now a.variant s.store a.op).2
      replies := s.replies ++ [(setOp b order a.now a.variant s.store a.op).1] }

/-- The calls on finite sets, whatever the variants. -/
def specRun (steps : List (ℕ × SetOp α)) : SetMap α × List (SetReply α) :=
  steps.foldl
    (fun t a => ((specOp b order a.1 t.1 a.2).2, t.2 ++ [(specOp b order a.1 t.1 a.2).1]))
    (fun _ => none, [])

/-- The call does not take one of the two wrong branches: a plain `sadd`, or an `spop` with
something to pop. -/
def Faithful (s : SetRun α R) (a : SetStep α) : Prop :=
  match a.op.call with
  | .sadd _ _ => a.variant = .async
  | .spop count =>
    let n := (getColl b a.now s.store a.op.key).1.len
    n < count ∨ count = 0 ∨ count + n ≤ 0
  | _ => True

instance (s : SetRun α R) : ∀ a, Decidable (Faithful b s a)
  | ⟨_, v, ⟨_, .sadd _ _⟩⟩ => inferInstanceAs (Decidable (v = .async))
  | ⟨_, _, ⟨_, .spop _⟩⟩ => inferInstanceAs (Decidable (_ < _ ∨ _ = _ ∨ _ ≤ _))
  | ⟨_, _, ⟨_, .srem _ _⟩⟩ | ⟨_, _, ⟨_, .smembers⟩⟩ | ⟨_, _, ⟨_, .sismember _⟩⟩ |
    ⟨_, _, ⟨_, .slength⟩⟩ => .isTrue trivial

end Kvdb
