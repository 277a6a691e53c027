import Kvdb.Lib.Machine
import Mathlib.Data.Fintype.Defs

/-!
# Locks (`components/lock.py`, `acquire_lock` and `release_lock` of the backend)

One lock name and its clients, from one command to the next. `slot c` is the place of the token in the
lock object of the client `c`: its own, or shared with others that use the same object (the backend
keeps its context lock in `_lock`, without thread-local storage; a session keeps one object for each
name).

The lock of redis-py: `acquire` does `SET NX` with a fresh token and puts it into the lock object;
`release` takes the token out of the lock object, raises if there is none, and runs a script that
deletes the key if it has that token and raises otherwise. With `fallback` a release that has raised
deletes the key, as `release_lock` does; without it the exception goes on, as in `Lock.release` without
`force`. An `acquire` that is refused tries again or returns `False`: there is nothing else to it.

`holding` is proof-only: the token of a client whose `acquire` has succeeded, until it calls `release`
or the time of that lock is over.
-/

namespace Kvdb

/-- Where a client is in `acquire` or `release`. -/
inductive LockAt
  | idle
  /-- `SET NX` has succeeded, the token goes into the lock object next. -/
  | acquired (token : ℕ)
  /-- The token has been taken out of the lock object, the script is next. -/
  | releasing (token : ℕ)
  /-- The release has raised, `DEL` is next. -/
  | deleting
  deriving DecidableEq

structure Locks (C S : Type) where
  /-- The value of the key on the server. -/
  stored : Option ℕ := none
  /-- `_lock is not None`. -/
  created : S → Bool := fun _ => false
  token : S → Option ℕ := fun _ => none
  place : C → LockAt := fun _ => .idle
  /-- The next fresh token. -/
  fresh : ℕ := 0
  holding : C → Option ℕ := fun _ => none

inductive LockEv (C : Type)
  /-- `SET NX`. -/
  | acquire (c : C)
  /-- `local.token = token`. -/
  | keep (c : C)
  /-- `release`, up to its script. -/
  | release (c : C)
  /-- The script of `release`. -/
  | unlock (c : C)
  /-- `DEL` after a release that has raised. -/
  | delete (c : C)
  /-- The time of the lock with the token is over. -/
  | expire (token : ℕ)
  deriving DecidableEq

namespace Locks

variable {C S : Type} [DecidableEq C] [DecidableEq S] (slot : C → S) (fallback : Bool)

/-- After a release that has raised. -/
def raised : LockAt := if fallback then .deleting else .idle

def step (s : Locks C S) : LockEv C → Option (Locks C S)
  | .acquire c =>
    if s.place c = .idle then
      let s := { s with created := Function.update s.created (slot c) true }
      if s.stored = none then
        some { s with
          stored := some s.fresh
          place := Function.update s.place c (.acquired s.fresh)
          fresh := s.fresh + 1
          holding := Function.update s.holding c (some s.fresh) }
      else some s
    else none
  | .keep c =>
    match s.place c with
    | .acquired token =>
      some { s with
        token := Function.update s.token (slot c) (some token)
        place := Function.update s.place c .idle }
    | _ => none
  | .release c =>
    if s.place c = .idle then
      if s.created (slot c) then
        match s.token (slot c) with
        | some token =>
          some { s with
            token := Function.update s.token (slot c) none
            place := Function.update s.place c (.releasing token)
            holding := Function.update s.holding c none }
        | none =>
          some { s with
            place := Function.update s.place c (raised fallback)
            holding := Function.update s.holding c none }
      else some s
    else none
  | .unlock c =>
    match s.place c with
    | .releasing token =>
      if s.stored = some token then
        some { s with stored := none, place := Function.update s.place c .idle }
      else some { s with place := Function.update s.place c (raised fallback) }
    | _ => none
  | .delete c =>
    match s.place c with
    | .deleting => some { s with stored := none, place := Function.update s.place c .idle }
    | _ => none
  | .expire token =>
    some { s with
      stored := if s.stored = some token then none else s.stored
      holding := fun c => if s.holding c = some token then none else s.holding c }

end Locks

variable {C S : Type} [DecidableEq C] [DecidableEq S]

/-- The clients of one lock name. -/
def lockMachine (slot : C → S) (fallback : Bool) : Lib.Machine (Locks C S) (LockEv C) where
  init := {}
  step := Locks.step slot fallback

namespace Locks

/-- The lock of every holder is on the server, and there is at most one holder. -/
structure Exclusive (s : Locks C S) : Prop where
  kept : ∀ c token, s.holding c = some token → s.stored = some token
  alone : ∀ c c', s.holding c ≠ none → s.holding c' ≠ none → c = c'

/-- A release does not take the token of another holder out of a shared lock object; and if there is
the fallback, it does not raise. -/
def Clean (slot : C → S) (fallback : Bool) (s : Locks C S) : LockEv C → Prop
  | .release c => s.created (slot c) = true →
    (∀ c', c' ≠ c → s.holding c' ≠ none → s.token (slot c) ≠ s.holding c') ∧
      (fallback = true → s.token (slot c) ≠ none)
  | .unlock c => fallback = true → ∀ token, s.place c = .releasing token → s.stored = some token
  | _ => True

instance [Fintype C] (slot : C → S) (fallback : Bool) (s : Locks C S) :
    ∀ e, Decidable (Clean slot fallback s e)
  | .release c => inferInstanceAs (Decidable (_ → (∀ c', c' ≠ c → _ ≠ none → _ ≠ _) ∧ (_ → _ ≠ none)))
  | .unlock c =>
    match h : s.place c with
    | .releasing token =>
      decidable_of_iff (fallback = true → s.stored = some token) (by simp [Clean, h])
    | .idle | .acquired _ | .deleting => .isTrue (by simp [Clean, h])
  | .acquire _ | .keep _ | .delete _ | .expire _ => .isTrue trivial

end Locks

end Kvdb
