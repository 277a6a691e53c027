import Kvdb.Components.Listing
import Mathlib.Data.List.DropRight

/-!
# Heartbeats of workers (`TaskQueue.add_heartbeat`, `get_worker_ids`, `get_worker_names`)

The data store of a queue is a backend in plain-key mode. A worker writes its name under
`heartbeats:{id}`, with an expiry; the ids are found again by a pattern, the names are read by
`aget_values`. The reads are on the `Keyspace` that the server shows at a time.

`registry` is what the heartbeats are about: the workers' names by their ids, each with its expiry.
-/

namespace Kvdb.Heartbeats

open Redis Python Backend

variable {V : Type} (b : Backend ByteArray V) (interval : ℤ) (decodeResponses : Bool)

def heartbeatKey (id : String) : String := "heartbeats:" ++ id

/-- `heartbeat_ttl or self.config.heartbeat_interval`. -/
def orInterval : Option ℤ → ℤ
  | some 0 | none => interval
  | some ttl => ttl

/-- `add_heartbeat`. -/
def addHeartbeat (now : ℕ) (m : TtlMap String ByteArray) (id : String) (name : V)
    (ttl : Option ℤ) : TtlMap String ByteArray :=
  (plainOp b now m (.set (heartbeatKey id) name (some (orInterval interval ttl)))).2

/-- `key.rsplit(':', 1)[-1]`. -/
def afterColon (key : String) : String := String.ofList (key.toList.rtakeWhile (· ≠ ':'))

def getWorkerIds (server : Keyspace) : Option (List String) := do
  let keys ← b.plainGetKeys decodeResponses .async server "heartbeats:*" true
  keys.mapM fun key => key.map afterColon

/-- `aget_values`: `None` for a key that is missing, and for one whose value cannot be decoded, which
is deleted. -/
def agetValues (server : Keyspace) (keys : List String) : List (Option V) × Keyspace :=
  let broken key := (server.hget (b.getKey key)).any fun raw => (b.decode raw).isNone
  (keys.map fun key => (server.hget (b.getKey key)).bind b.decode,
    server.hdelAll ((keys.filter broken).map b.getKey))

def getWorkerNames (server : Keyspace) : Option (List (Option V)) × Keyspace :=
  match getWorkerIds b decodeResponses server with
  | none => (none, server)
  | some ids => ((agetValues b server ids).1, (agetValues b server ids).2)

/-! ## Runs -/

/-- What is written to the data store. -/
inductive Event (V : Type)
  | beat (id : String) (name : V) (ttl : Option ℤ)
  | store (key : String) (value : V) (ex : Option ℤ)

/-- An event at a time. -/
def step (m : TtlMap String ByteArray) (e : ℕ × Event V) : TtlMap String ByteArray :=
  match e.2 with
  | .beat id name ttl => addHeartbeat b interval e.1 m id name ttl
  | .store key value ex => (plainOp b e.1 m (.set key value ex)).2

def run (m : TtlMap String ByteArray) (es : List (ℕ × Event V)) : TtlMap String ByteArray :=
  es.foldl (step b interval) m

/-! ## The registry -/

/-- A heartbeat sets the name and the expiry of its worker; the server refuses an expiry that is not
positive. -/
def register (workers : TtlMap String V) (e : ℕ × Event V) : TtlMap String V :=
  match e.2 with
  | .beat id name ttl =>
    match b.orExpiration (some (orInterval interval ttl)) with
    | none => workers.set id name
    | some ex => if 0 < ex then workers.setex (1000 * e.1) id ex.toNat name else workers
  | .store .. => workers

def registry (es : List (ℕ × Event V)) : TtlMap String V :=
  es.foldl (register b interval) fun _ => none

/-- The name of a worker whose heartbeat is live. -/
def live (es : List (ℕ × Event V)) (now : ℕ) (id : String) : Option V :=
  ((registry b interval es).evict (1000 * now)).get id

/-- The ids and the names that are found are those of the live heartbeats. -/
def Finds (es : List (ℕ × Event V)) (now : ℕ) (server : Keyspace) : Prop :=
  ∃ ids, getWorkerIds b decodeResponses server = some ids ∧ ids.Nodup ∧
    (∀ id, id ∈ ids ↔ (live b interval es now id).isSome) ∧
    (getWorkerNames b decodeResponses server).1 = some (ids.map (live b interval es now))

end Kvdb.Heartbeats
