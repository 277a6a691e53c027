import Kvdb.Lib.Double
import Kvdb.Lib.Python
import Mathlib.Algebra.Order.Floor.Semiring
import Mathlib.Data.Rat.Floor

/-!
# Waiting for a host (`ConnectionPool.reestablish_connection`)

After a refused attempt both variants pause and add the pause, a double, to the time they have waited.
They end with the first attempt that is accepted, or when the time is over. `host` says how the host
answers each attempt.
-/

namespace Kvdb.Reestablish

open Lib Python

/-- `ConnectionRefusedError`, or a connection. -/
inductive Attempt
  | refused
  | accepted
  deriving DecidableEq

/-- What the name `err` is bound to; at the end of an `except` clause its name is deleted. -/
inductive ErrName
  | none
  | unbound
  deriving DecidableEq

inductive Outcome
  | returned (reestablished : Bool)
  | unboundLocalError
  deriving DecidableEq

/-- The local variables, with the number of attempts. -/
structure Loop where
  duration : ℚ := 0
  err : ErrName := .none
  attempts : ℕ := 0

variable (v : Variant) (interval maxDelay : ℚ) (host : ℕ → Attempt)

/-- The end of the function: the synchronous variant logs `err`. -/
def giveUp (err : ErrName) : Outcome :=
  match v, err with
  | .sync, .unbound => .unboundLocalError
  | .sync, .none => .returned false
  | .async, _ => .returned false

/-- `reestablish_connection`, with the number of attempts that were refused; nothing without fuel. -/
def reestablishConnection : ℕ → Loop → Option (Outcome × ℕ)
  | 0, _ => none
  | fuel + 1, s =>
    if s.duration < maxDelay then
      match host s.attempts with
      | .accepted => some (.returned true, s.attempts)
      | .refused =>
        reestablishConnection fuel {
          duration := toDouble (s.duration + interval)
          err := .unbound
          attempts := s.attempts + 1 }
    else some (giveUp v s.err, s.attempts)

/-- The attempts that the delay leaves room for. -/
def budget : ℕ := ⌈maxDelay / interval⌉₊

/-- It ends, with no more refused attempts than its budget, and returns whether one of them was
accepted. -/
def Reestablishes : Prop :=
  ∃ fuel answer refused,
    reestablishConnection v interval maxDelay host fuel {} = some (.returned answer, refused) ∧
      (answer = true ↔ ∃ k < budget interval maxDelay, host k = .accepted) ∧
      refused ≤ budget interval maxDelay

end Kvdb.Reestablish
