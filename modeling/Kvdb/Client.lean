import Kvdb.Lib.Machine
import Kvdb.Lib.Python

/-!
# The session manager (`client.py`, `GlobalKVDBContext` of `types/contexts.py`)

`SessionManager` is what `KVDBSessionManager` shares with its context: the sessions by name, the
pools by the key of their URL, and the current session. A method returns the manager as it is
afterwards, also where it raises: what was registered until then stays.

`SessionSettings` holds what the methods take from the settings and from the class of the URLs; `key`
is `url.key` after `url.set_key` with the keywords. That the construction of a pool or of a session
raises is part of the arguments of a call. A name is `None` or a text, and `session(name = None)`
registers.
-/

namespace Kvdb

open Python (Dict)

/-- What the methods take from the settings and the URLs; `K` are the other keywords. -/
structure SessionSettings (U K : Type) where
  url : U
  sessionDbId : Option ℤ := none
  dbId : U → ℤ
  withDbId : U → ℤ → U
  key : U → K → String
  noKwargs : K

structure KVDBSession where
  /-- The object: the number of sessions constructed before. -/
  id : ℕ
  name : Option String
  /-- The key of its URL. -/
  key : String
  pool : ℕ
  deriving DecidableEq, Repr

inductive SessionError
  | valueError (msg : String)
  | typeError (msg : String)
  /-- What the construction of a pool or of a session raises. -/
  | raised (error : String)
  deriving DecidableEq, Repr

structure SessionManager where
  sessions : Dict (Option String) KVDBSession := {}
  pools : Dict String ℕ := {}
  ctx : Option KVDBSession := none
  poolsMade : ℕ := 0
  sessionsMade : ℕ := 0

/-- The arguments of `create_session`. -/
structure CreateArgs (U K : Type) where
  name : Option String := some "default"
  url : Option U := none
  dbId : Option ℤ := none
  disableStore : Bool := false
  kwargs : K
  poolRaises : Option String := none
  sessionRaises : Option String := none

/-- The arguments of `session` and `init_session`. -/
structure SessionArgs (U K : Type) extends CreateArgs U K where
  setAsCtx : Option Bool := none
  overwrite : Option Bool := none

/-- `f"{name}"`. -/
def nameText : Option String → String
  | none => "None"
  | some name => name

/-- Python truth value of a name. -/
def truthyName : Option String → Bool
  | none => false
  | some name => name ≠ ""

namespace SessionSettings

variable {U K : Type} (S : SessionSettings U K) (a : CreateArgs U K)

/-- The URL of a new session. -/
def resolve : U :=
  let url := a.url.getD S.url
  match a.dbId.or S.sessionDbId with
  | none => url
  | some dbId => if S.dbId url ≠ dbId then S.withDbId url dbId else url

/-- The key of its pool. -/
def poolKey : String := S.key (S.resolve a) a.kwargs

end SessionSettings

namespace SessionManager

variable {U K : Type} (S : SessionSettings U K) (m : SessionManager)

def has (name : Option String) : Bool := (m.sessions.get? name).isSome

def invalid (name : Option String) : SessionError :=
  .valueError ("Invalid session name: " ++ nameText name)

/-- `GlobalKVDBContext.set_ctx`, without a session. -/
def setCtx (name : Option String) : SessionManager × Except SessionError Unit :=
  if !truthyName name then (m, .error (.valueError "Either name or session must be provided"))
  else
    match m.sessions.get? name with
    | none => (m, .error (invalid name))
    | some session => ({ m with ctx := some session }, .ok ())

/-- `GlobalKVDBContext.current`. -/
def currentName : Option String := m.ctx.bind KVDBSession.name

/-- `get_pool` of a key. -/
def getPool (key : String) (disableStore : Bool) (raises : Option String) :
    SessionManager × Except SessionError ℕ :=
  match m.pools.get? key with
  | some pool => (m, .ok pool)
  | none =>
    match raises with
    | some error => (m, .error (.raised error))
    | none =>
      let pool := m.poolsMade
      let m := { m with poolsMade := m.poolsMade + 1 }
      if disableStore then (m, .ok pool)
      else ({ m with pools := m.pools.setItem key pool }, .ok pool)

def createSession (a : CreateArgs U K) : SessionManager × Except SessionError KVDBSession :=
  match m.getPool (S.poolKey a) a.disableStore a.poolRaises with
  | (m, .error e) => (m, .error e)
  | (m, .ok pool) =>
    match a.sessionRaises with
    | some error => (m, .error (.raised error))
    | none =>
      ({ m with sessionsMade := m.sessionsMade + 1 },
        .ok { id := m.sessionsMade, name := a.name, key := S.poolKey a, pool })

/-- `set_ctx` where it is wanted, and then the session. -/
def choose (name : Option String) (wanted : Bool) (session : KVDBSession) :
    SessionManager × Except SessionError KVDBSession :=
  if wanted then
    match m.setCtx name with
    | (m, .error e) => (m, .error e)
    | (m, .ok ()) => (m, .ok session)
  else (m, .ok session)

/-- A session is constructed and registered. -/
def register (a : SessionArgs U K) : SessionManager × Except SessionError KVDBSession :=
  match m.createSession S a.toCreateArgs with
  | (m, .error e) => (m, .error e)
  | (m, .ok session) =>
    let setAsCtx := a.setAsCtx.getD (m.sessions.items.length = 0)
    let m := { m with sessions := m.sessions.setItem a.name session }
    m.choose a.name setAsCtx session

def session (a : SessionArgs U K) : SessionManager × Except SessionError KVDBSession :=
  match m.sessions.get? a.name with
  | none => m.register S a
  | some session =>
    if a.overwrite ≠ some true then m.choose a.name (a.setAsCtx = some true) session
    else m.register S a

def initSession (a : SessionArgs U K) : SessionManager × Except SessionError KVDBSession :=
  if m.has a.name ∧ a.overwrite ≠ some true then
    (m, .error (.valueError ("The session with name " ++ nameText a.name ++
      " already exists. Use overwrite = True to overwrite the session")))
  else m.session S a

/-- The name that `get_session` looks up. -/
def wantedName (name : Option String) : Option String := name.or (m.currentName.or (some "default"))

def getSession (a : SessionArgs U K) : SessionManager × Except SessionError KVDBSession :=
  let name := m.wantedName a.name
  match m.sessions.get? name with
  | none => m.session S { a with name }
  | some session => (m, .ok session)

def setSession (name : Option String) : SessionManager × Except SessionError Unit :=
  if m.has name then m.setCtx name else (m, .error (invalid name))

/-- `add_session`: `isinstance` of a text raises, whatever the session is. -/
def addSession (m : SessionManager) : SessionManager × Except SessionError Unit :=
  (m, .error (.typeError "isinstance() arg 2 must be a type, a tuple of types, or a union"))

/-- `ctx`; the answer is the current session also where another one was initialized. -/
def getCtx (poolRaises sessionRaises : Option String) :
    SessionManager × Except SessionError (Option KVDBSession) :=
  match m.ctx with
  | some session => (m, .ok (some session))
  | none =>
    match m.session S { kwargs := S.noKwargs, poolRaises, sessionRaises } with
    | (m, .error e) => (m, .error e)
    | (m, .ok _) => (m, .ok m.ctx)

/-- `KVDBSessionManager.current`. -/
def current : Option String :=
  if truthyName m.currentName then m.currentName else some "default"

/-- The session that `with_session` yields. -/
def withSession (name : Option String) : Except SessionError KVDBSession :=
  match m.sessions.get? name with
  | none =>
    .error (.valueError ("Invalid session name: \x60" ++ nameText name ++
      "\x60. Initialize the session first using \x60session\x60 or \x60init_session\x60"))
  | some session => .ok session

/-- The session that `_session_function` runs its function on. -/
def sessionFunction (sessionCtx : Option String) : Except SessionError KVDBSession :=
  m.withSession (sessionCtx.or m.current)

end SessionManager

/-- A call of a method that may change the manager. -/
inductive ManagerCall (U K : Type)
  | createSession (a : CreateArgs U K)
  | session (a : SessionArgs U K)
  | initSession (a : SessionArgs U K)
  | getSession (a : SessionArgs U K)
  | setSession (name : Option String)
  | addSession
  | ctx (poolRaises sessionRaises : Option String)

/-- The manager after the call. -/
def SessionManager.exec {U K : Type} (S : SessionSettings U K) (m : SessionManager) :
    ManagerCall U K → SessionManager
  | .createSession a => (m.createSession S a).1
  | .session a => (m.session S a).1
  | .initSession a => (m.initSession S a).1
  | .getSession a => (m.getSession S a).1
  | .setSession name => (m.setSession name).1
  | .addSession => m.addSession.1
  | .ctx poolRaises sessionRaises => (m.getCtx S poolRaises sessionRaises).1

/-- All sequences of calls. -/
def managerMachine {U K : Type} (S : SessionSettings U K) :
    Lib.Machine SessionManager (ManagerCall U K) where
  init := {}
  step m call := some (m.exec S call)

end Kvdb
