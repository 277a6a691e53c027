import Mathlib.Data.Rat.Defs
import Mathlib.Data.List.Basic

/-!
# Which exceptions are retried (`utils/retry.py`)

The exception classes are those that `get_retryable_wrapper` names, with the subclasses that the
client library documents. `retryIfType` is the predicate it passes to the retry decorator, and
`stopAfterDelay` its stop condition.
-/

namespace Kvdb

/-- Exception classes, of `kvdb.errors` and of the client library. -/
inductive ErrorType
  | kvdbConnectionError
  | kvdbTimeoutError
  | kvdbBusyLoadingError
  | connectionError
  | timeoutError
  | busyLoadingError
  | authenticationError
  | authorizationError
  | invalidResponse
  | responseError
  | noScriptError
  | other
  deriving DecidableEq, Repr

/-- The base class besides the common ones. -/
def ErrorType.base : ErrorType → Option ErrorType
  | .busyLoadingError | .authenticationError | .authorizationError => some .connectionError
  | .noScriptError => some .responseError
  | _ => none

/-- An exception with its class and the string arguments it was raised with. -/
structure PyError where
  type : ErrorType
  args : List String := []
  deriving DecidableEq, Repr

def PyError.isinstance (e : PyError) (types : List ErrorType) : Bool :=
  types.any fun t => e.type = t ∨ e.type.base = some t

/-- `exception_types` of `get_retryable_wrapper`. -/
def exceptionTypes : List ErrorType :=
  [.kvdbConnectionError, .kvdbTimeoutError, .kvdbBusyLoadingError, .connectionError, .timeoutError,
    .busyLoadingError]

/-- `excluded_types` of `get_retryable_wrapper`. -/
def excludedTypes : List ErrorType :=
  [.authenticationError, .authorizationError, .invalidResponse, .responseError, .noScriptError]

/-- `retry_if_type.validate_exception`. -/
def validateException (e : PyError) : Bool :=
  if e.args.head? = some "PING" then false
  else e.isinstance exceptionTypes && !e.isinstance excludedTypes

/-- `stop_after_delay(max_delay)`, `elapsed` seconds after the first attempt began. -/
def stopAfterDelay (maxDelay elapsed : ℚ) : Bool := maxDelay ≤ elapsed

theorem isinstance_of_validate {e : PyError} (h : validateException e = true) :
    e.isinstance exceptionTypes = true := by
  unfold validateException at h
  split at h
  · cases h
  · exact (Bool.and_eq_true_iff.1 h).1

end Kvdb
