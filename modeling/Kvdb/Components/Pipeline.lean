import Kvdb.Lib.Retry
import Kvdb.Utils.Retry

/-!
# Retryable pipelines (`components/pipeline.py`)

`RetryablePipeline.execute` is the `execute` of the client library's pipeline under the retry
decorator of `Kvdb/Utils/Retry.lean`. Both the library's `execute` and the decorator are parameters:
`BasePipeline` is what the former documents, `Lib.Retries` what the latter does. The synchronous and
the asynchronous class are the same here.
-/

namespace Kvdb

open Lib

/-- A pipeline: the queued commands, and what the server has applied so far. -/
structure Pipe (α : Type*) where
  stack : List α := []
  applied : List α := []
  deriving DecidableEq, Repr

variable {ν α β : Type*}

/-- `Pipeline.execute` of the client library, `n` being what the connection does. -/
structure BasePipeline (execute : ν → Pipe α → Except PyError (List β) × Pipe α) : Prop where
  /-- The command stack is cleared on exit, also when an error is raised. -/
  clears : ∀ n p, (execute n p).2.stack = []
  /-- Without commands nothing is sent. -/
  empty : ∀ n p, p.stack = [] → execute n p = (.ok [], p)
  /-- A normal return: the commands were applied, with one reply each. -/
  ok : ∀ {n p rs q}, execute n p = (.ok rs, q) →
    q.applied = p.applied ++ p.stack ∧ rs.length = p.stack.length
  /-- A connection error: the transaction was not applied. -/
  failed : ∀ {n p e q}, execute n p = (.error e, q) → e.isinstance exceptionTypes = true →
    q.applied = p.applied

/-- The circumstances of one attempt: the connection, and the seconds since the first one began. -/
structure Attempt (ν : Type*) where
  net : ν
  elapsed : ℚ

/-- `pipeline_max_delay`, the only value of the retry settings that decides about an attempt. -/
structure KVDBRetryConfig where
  pipelineMaxDelay : ℚ := 60

/-- `call` is `execute` under the retry decorator. -/
def RetryableExecute (s : KVDBRetryConfig)
    (call : List (Attempt ν) → Pipe α → Option (Except (RetryFailure PyError) (List β)) × Pipe α)
    (execute : ν → Pipe α → Except PyError (List β) × Pipe α) : Prop :=
  Retries call (fun w => execute w.net) validateException fun w =>
    stopAfterDelay s.pipelineMaxDelay w.elapsed

/-- The attempt `w` fails with an error that is retried, in time for another attempt on `q`. -/
def RetriedFailure (s : KVDBRetryConfig) (execute : ν → Pipe α → Except PyError (List β) × Pipe α)
    (w : Attempt ν) (p q : Pipe α) : Prop :=
  FailsOver (fun w => execute w.net) validateException
    (fun w => stopAfterDelay s.pipelineMaxDelay w.elapsed) w p q

/-! ## The callers -/

/-- How a caller of `execute` fails. -/
inductive CallerError
  | pipeline (e : RetryFailure PyError)
  | valueError

/-- `finish` and `retry` do not look at the replies. -/
def ignoreReplies (r : Option (Except (RetryFailure PyError) (List β))) :
    Option (Except CallerError Unit) :=
  r.map fun
    | .error e => .error (.pipeline e)
    | .ok _ => .ok ()

/-- `abort` takes the first reply apart: `dequeued, *_ = …`. -/
def unpackDequeued (r : Option (Except (RetryFailure PyError) (List β))) :
    Option (Except CallerError β) :=
  r.map fun
    | .error e => .error (.pipeline e)
    | .ok [] => .error .valueError
    | .ok (dequeued :: _) => .ok dequeued

end Kvdb
