import Mathlib.Data.Finset.Card
import Kvdb.Lib.Redis

/-!
# One keyspace for values of every type

`TtlMap κ (Entry ι β)`: a key holds a list, a sorted set or a set of members `ι`, or a string (`β`
is what was serialized). A command on a key of another type fails (`WRONGTYPE`), a container that
becomes empty is removed with its expiry, and a command on a missing key finds the empty container.

The three kinds of containers are instances of `Container`, so that one operation (`modify`) stands
for all the commands that change a container; `Command.exec` is the command table.
-/

namespace Redis

variable {κ ι β ε γ : Type*}

/-- A value of one of the types of the server. -/
inductive Entry (ι β : Type*)
  | list (l : List ι)
  | zset (z : ZSet ι)
  | set (s : Finset ι)
  | str (b : β)

/-- A type of containers among the stored values. -/
structure Container (ε γ : Type*) where
  wrap : γ → ε
  unwrap : ε → Option γ
  empty : γ
  isEmpty : γ → Bool
  unwrap_wrap (x : γ) : unwrap (wrap x) = some x
  eq_empty {x : γ} (h : isEmpty x = true) : x = empty

namespace Entry

def asList : Entry ι β → Option (List ι)
  | .list l => some l
  | _ => none

def asZSet : Entry ι β → Option (ZSet ι)
  | .zset z => some z
  | _ => none

def asSet : Entry ι β → Option (Finset ι)
  | .set s => some s
  | _ => none

def asStr : Entry ι β → Option β
  | .str b => some b
  | _ => none

end Entry

namespace Container

def lists : Container (Entry ι β) (List ι) where
  wrap := .list
  unwrap := Entry.asList
  empty := []
  isEmpty := List.isEmpty
  unwrap_wrap _ := rfl
  eq_empty h := List.isEmpty_iff.1 h

def zsets : Container (Entry ι β) (ZSet ι) where
  wrap := .zset
  unwrap := Entry.asZSet
  empty := ∅
  isEmpty z := z.entries.isEmpty
  unwrap_wrap _ := rfl
  eq_empty h := AList.ext (List.isEmpty_iff.1 h)

def sets : Container (Entry ι β) (Finset ι) where
  wrap := .set
  unwrap := Entry.asSet
  empty := ∅
  isEmpty s := s.card = 0
  unwrap_wrap _ := rfl
  eq_empty h := Finset.card_eq_zero.1 (of_decide_eq_true h)

variable (C : Container ε γ)

/-- What is stored of `x`. -/
def cell (x : γ) (expireAt : Option ℕ) : Option (Cell ε) :=
  if C.isEmpty x then none else some ⟨C.wrap x, expireAt⟩

/-- What a command finds: `none` is `WRONGTYPE`. -/
def fetch : Option (Cell ε) → Option γ
  | none => some C.empty
  | some c => C.unwrap c.value

/-- The container that is stored. -/
def contents (o : Option (Cell ε)) : γ := (C.fetch o).getD C.empty

@[simp] theorem contents_none : C.contents none = C.empty := rfl

@[simp] theorem contents_cell (x : γ) (expireAt : Option ℕ) :
    C.contents (C.cell x expireAt) = x := by
  unfold cell
  split
  · rename_i h
    exact (C.eq_empty h).symm
  · simp [contents, fetch, C.unwrap_wrap]

variable {C}

theorem fetch_eq_contents {o : Option (Cell ε)} (h : ∀ c ∈ o, (C.unwrap c.value).isSome) :
    C.fetch o = some (C.contents o) := by
  cases o with
  | none => rfl
  | some c =>
    obtain ⟨x, hx⟩ := Option.isSome_iff_exists.1 (h c rfl)
    simp [contents, fetch, hx]

theorem of_mem_cell {x : γ} {expireAt : Option ℕ} {c : Cell ε} (h : c ∈ C.cell x expireAt) :
    c = ⟨C.wrap x, expireAt⟩ := by
  unfold cell at h
  split at h
  · cases h
  · exact (Option.some.inj h).symm

/-- The deadline of what is stored. -/
theorem bind_cell (x : γ) (expireAt : Option ℕ) :
    (C.cell x expireAt).bind Cell.expireAt = if C.isEmpty x then none else expireAt := by
  unfold cell
  split <;> rfl

end Container

/-! ## Commands -/

section Commands
variable [DecidableEq κ]

/-- Change the container at a key. -/
def TtlMap.modify (C : Container ε γ) (m : TtlMap κ ε) (k : κ) (f : γ → γ) : Option (TtlMap κ ε) :=
  (C.fetch (m k)).map fun x =>
    Function.update m k (C.cell (f x) ((m k).bind Cell.expireAt))

/-- A command that writes. -/
inductive Command (κ ι β : Type*)
  | lrem (k : κ) (n : ℕ) (x : ι)
  | rpush (k : κ) (xs : List ι)
  | lpush (k : κ) (x : ι)
  | lmove (k k' : κ) (src dst : Side)
  | zadd (k : κ) (s : ℚ) (xs : List ι)
  | zrem (k : κ) (x : ι)
  | sadd (k : κ) (x : ι)
  | srem (k : κ) (x : ι)
  | set (k : κ) (v : β)
  | setex (k : κ) (secs : ℕ) (v : β)
  | del (k : κ)
  | expire (k : κ) (secs : ℕ)

namespace Command

open Container

variable [DecidableEq ι]

/-- The effect at time `now`; `none` is `WRONGTYPE`. -/
def exec (m : TtlMap κ (Entry ι β)) (now : ℕ) : Command κ ι β → Option (TtlMap κ (Entry ι β))
  | .lrem k n x => m.modify lists k (Redis.lrem n x)
  | .rpush k xs => m.modify lists k (· ++ xs)
  | .lpush k x => m.modify lists k (push x .left)
  | .lmove k k' src dst =>
    (lists.fetch (m k)).bind fun l =>
      match pop src l with
      | none => some m
      | some (x, l') =>
        (m.modify lists k fun _ => l').bind fun m => m.modify lists k' (push x dst)
  | .zadd k s xs => m.modify zsets k fun z => z.addAll s xs
  | .zrem k x => m.modify zsets k fun z => z.rem x
  | .sadd k x => m.modify sets k (insert x)
  | .srem k x => m.modify sets k fun s => s.erase x
  | .set k v => some (TtlMap.set m k (.str v))
  | .setex k secs v => some (TtlMap.setex m now k secs (.str v))
  | .del k => some (TtlMap.del m k)
  | .expire k secs => some (TtlMap.expire m now k secs)

end Command

/-- A command on a container of its type succeeds. -/
theorem TtlMap.modify_eq {C : Container ε γ} {m : TtlMap κ ε} {k : κ} {f : γ → γ}
    (h : ∀ c ∈ m k, (C.unwrap c.value).isSome) :
    m.modify C k f =
      some (Function.update m k (C.cell (f (C.contents (m k))) ((m k).bind Cell.expireAt))) := by
  rw [TtlMap.modify, C.fetch_eq_contents h]
  rfl

end Commands

end Redis
