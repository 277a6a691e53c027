import Kvdb.Lib.Python
import Mathlib.Algebra.Group.Int.Defs

/-!
# Connection URLs (`parse_url`, `ConnectionPool.from_url`)

A `KvdbUrl` is a URL in its parts, as `pydantic` parses it. `parseUrl` turns it into the options of a
connection pool: the options of its query, each cast by its parser, and then what the parts of the URL
say. `poolArgs` merges them with the keyword arguments, and `Pool.init` is the constructor of the pool,
as far as it looks at its arguments. The pools for coroutines do the same with classes of their own.

`Runtime β` is what the code calls: the parser of a URL, `URL_QUERY_ARGUMENT_PARSERS`, and the
parameters of a connection class.
-/

namespace Kvdb.ConnectionUrl

open Python

/-! ## `urllib.parse` -/

/-- A UTF-8 character of which `owed` bytes are missing, the next from `low` to `high`. -/
structure Partial where
  owed : ℕ
  low : ℕ
  high : ℕ
  point : ℕ

/-- What stands for bytes that are not UTF-8. -/
def replacement : Char := Char.ofNat 0xFFFD

/-- The first byte of a character. -/
def leadByte (b : ℕ) : List Char × Option Partial :=
  if b < 0x80 then ([Char.ofNat b], none)
  else if 0xC2 ≤ b ∧ b ≤ 0xDF then ([], some ⟨1, 0x80, 0xBF, b - 0xC0⟩)
  else if b = 0xE0 then ([], some ⟨2, 0xA0, 0xBF, 0⟩)
  else if b = 0xED then ([], some ⟨2, 0x80, 0x9F, 0xD⟩)
  else if 0xE1 ≤ b ∧ b ≤ 0xEF then ([], some ⟨2, 0x80, 0xBF, b - 0xE0⟩)
  else if b = 0xF0 then ([], some ⟨3, 0x90, 0xBF, 0⟩)
  else if 0xF1 ≤ b ∧ b ≤ 0xF3 then ([], some ⟨3, 0x80, 0xBF, b - 0xF0⟩)
  else if b = 0xF4 then ([], some ⟨3, 0x80, 0x8F, 4⟩)
  else ([replacement], none)

/-- One more byte of `decode('utf-8', 'replace')`. -/
def nextByte (state : Option Partial) (b : ℕ) : List Char × Option Partial :=
  match state with
  | none => leadByte b
  | some p =>
    if p.low ≤ b ∧ b ≤ p.high then
      let point := 64 * p.point + (b - 0x80)
      if p.owed = 1 then ([Char.ofNat point], none) else ([], some ⟨p.owed - 1, 0x80, 0xBF, point⟩)
    else (replacement :: (leadByte b).1, (leadByte b).2)

/-- The end of the bytes. -/
def endBytes : Option Partial → List Char
  | none => []
  | some _ => [replacement]

/-- `hextobyte`. -/
def hexByte (a b : Char) : Option ℕ := do
  return 16 * (← digit a) + (← digit b)
where
  digit (c : Char) : Option ℕ :=
    if '0' ≤ c ∧ c ≤ '9' then some (c.toNat - '0'.toNat)
    else if 'a' ≤ c ∧ c ≤ 'f' then some (c.toNat - 'a'.toNat + 10)
    else if 'A' ≤ c ∧ c ≤ 'F' then some (c.toNat - 'A'.toNat + 10)
    else none

/-- `unquote`: the ASCII characters are bytes, and so are the percent-encoded ones. -/
def unquoteFrom (state : Option Partial) : List Char → List Char
  | [] => endBytes state
  | '%' :: a :: b :: rest =>
    match hexByte a b with
    | some n => (nextByte state n).1 ++ unquoteFrom (nextByte state n).2 rest
    | none => (nextByte state '%'.toNat).1 ++
        unquoteFrom (nextByte state '%'.toNat).2 (a :: b :: rest)
  | c :: rest =>
    if c.toNat < 0x80 then
      (nextByte state c.toNat).1 ++ unquoteFrom (nextByte state c.toNat).2 rest
    else endBytes state ++ c :: unquoteFrom none rest

def unquote (s : String) : String := String.ofList (unquoteFrom none s.toList)

/-- `unquote(s.replace('+', ' '))`. -/
def unquotePlus (cs : List Char) : String :=
  unquote (String.ofList (cs.map fun c => if c = '+' then ' ' else c))

/-- `parse_qs`: the values of each name, without the empty ones. -/
def parseQs (query : String) : Dict String (List String) :=
  (query.toList.splitOn '&').foldl (fun d field =>
    match field.dropWhile (· ≠ '=') with
    | _ :: v :: value =>
      let name := unquotePlus (field.takeWhile (· ≠ '='))
      d.setItem name ((d.get? name).getD [] ++ [unquotePlus (v :: value)])
    | _ => d) {}

/-! ## `int` -/

/-- Digits, with single underscores between them; `after` is what was read so far. -/
def intDigits : Option ℕ → List Char → Option ℕ
  | after, [] => after
  | some n, '_' :: c :: rest => if c.isDigit then intDigits (some n) (c :: rest) else none
  | after, c :: rest =>
    if c.isDigit then intDigits (some (10 * after.getD 0 + (c.toNat - '0'.toNat))) rest else none

/-- `int(s)` of an ASCII text without spaces. -/
def pyInt : List Char → Option ℤ
  | '-' :: cs => (intDigits none cs).map fun n => -(n : ℤ)
  | '+' :: cs => (intDigits none cs).map Int.ofNat
  | cs => (intDigits none cs).map Int.ofNat

/-! ## URLs -/

/-- A URL in its parts. -/
structure KvdbUrl where
  scheme : String
  username : Option String := none
  password : Option String := none
  host : Option String := none
  port : Option ℕ := none
  path : Option String := none
  query : Option String := none

def endsWith (s suffix : String) : Bool := suffix.toList.isSuffixOf s.toList

namespace KvdbUrl

variable (u : KvdbUrl)

def isTls : Bool := (endsWith u.scheme "s" && u.scheme ≠ "redis") || endsWith u.scheme "tls"

def isUnix : Bool := endsWith u.scheme "unix" || endsWith u.scheme "socket"

/-- The number in the path. -/
def pathNumber : Option ℤ := u.path.bind fun path => pyInt (path.toList.drop 1)

end KvdbUrl

/-- The keys of `kv_db_schemas`. -/
def supportedSchemas : List String :=
  ["redis", "redis+unix", "redis+socket", "redis+tls", "rediss", "redis+sentinel", "dfly",
    "dfly+unix", "dfly+socket", "dfly+tls", "dflys", "dragonfly", "dragonflys", "keydb", "keydb+unix",
    "keydb+socket", "keydb+tls", "keydbs", "kdb", "kdbs", "memc", "memcs", "memcached", "memcacheds",
    "tkv", "tkvs", "tikv", "tikvs"]

/-! ## Options -/

/-- The connection classes, each also for coroutines. -/
inductive ConnectionClass
  | connection (isAsync : Bool)
  | unixDomainSocket (isAsync : Bool)
  | ssl (isAsync : Bool)
  | other (name : String)
  deriving DecidableEq

/-- The value of an option; `β` are the other objects. -/
inductive Value (β : Type)
  | none
  | int (n : ℤ)
  | text (s : String)
  | cls (c : ConnectionClass)
  | object (o : β)
  deriving DecidableEq

/-- Options of a connection pool, or keyword arguments. -/
abbrev Options (β : Type) := Dict String (Value β)

inductive Fault
  | valueError
  | typeError
  | attributeError
  deriving DecidableEq

structure Runtime (β : Type) where
  /-- `KVDBUrl(url)`. -/
  kvdbUrl : String → Option KvdbUrl
  /-- `URL_QUERY_ARGUMENT_PARSERS`; a parser that raises gives nothing. -/
  parsers : String → Option (String → Option (Value β))
  /-- The parameters of a connection class. -/
  accepts : ConnectionClass → String → Bool
  accepts_db : ∀ c, accepts c "db" = true

variable {β : Type} (R : Runtime β)

/-- What is given as a URL. -/
inductive UrlArg
  | text (s : String)
  | url (u : KvdbUrl)

def toUrl : UrlArg → Except Fault KvdbUrl
  | .text s =>
    if supportedSchemas.any fun scheme => scheme.toList.isPrefixOf s.toList then
      (R.kvdbUrl s).elim (.error .valueError) .ok
    else .error .valueError
  | .url u => .ok u

/-- `db_id`. -/
def KvdbUrl.dbId (u : KvdbUrl) : Except Fault ℤ :=
  match u.path with
  | none => .ok 0
  | some path => (pyInt (path.toList.drop 1)).elim (.error .valueError) .ok

/-- One option of the query, cast by its parser. -/
def castOption (name value : String) : Except Fault (Value β) :=
  match R.parsers name with
  | some parser => (parser value).elim (.error .valueError) .ok
  | none => .ok (.text value)

/-- The options of the query: the first value of each name. -/
def queryOptions (query : Option String) : Except Fault (Options β) :=
  (parseQs (query.getD "")).items.foldlM (fun kwargs p =>
    match p.2 with
    | [] => .ok kwargs
    | value :: _ => (castOption R p.1 (unquote value)).map (kwargs.setItem p.1)) {}

/-- A part of the URL that is not empty. -/
def textPart : Option String → Option (Value β)
  | some s => if s = "" then none else some (.text (unquote s))
  | none => none

def portPart : Option ℕ → Option (Value β)
  | some port => if port = 0 then none else some (.int port)
  | none => none

/-- `if part: kwargs[name] = part`. -/
def setPart (kwargs : Options β) (name : String) (part : Option (Value β)) : Options β :=
  part.elim kwargs (kwargs.setItem name)

def parseUrl (isAsync : Bool) (url : UrlArg) : Except Fault (Options β) := do
  let u ← toUrl R url
  let kwargs ← queryOptions R u.query
  let kwargs := setPart kwargs "username" (textPart u.username)
  let kwargs := setPart kwargs "password" (textPart u.password)
  if u.isUnix then
    let kwargs := setPart kwargs "path" (textPart u.path)
    return kwargs.setItem "connection_class" (.cls (.unixDomainSocket isAsync))
  else
    let kwargs := setPart kwargs "host" (textPart u.host)
    let kwargs := setPart kwargs "port" (portPart u.port)
    let kwargs := kwargs.setItem "db" (.int (← u.dbId))
    return if u.isTls then kwargs.setItem "connection_class" (.cls (.ssl isAsync)) else kwargs

/-- The arguments that `from_url` builds the pool from. -/
def poolArgs (isAsync : Bool) (url : UrlArg) (kwargs : Options β) : Except Fault (Options β) := do
  let urlOptions ← parseUrl R isAsync url
  return kwargs.update (setPart urlOptions "connection_class" (kwargs.get? "connection_class"))

structure Pool (β : Type) where
  connectionClass : ConnectionClass
  maxConnections : ℤ
  connectionKwargs : Options β
  extraKwargs : Options β

/-- The database of the connections, which is 0 by default. -/
def Pool.db (pool : Pool β) : Value β := (pool.connectionKwargs.get? "db").getD (.int 0)

/-- `max_connections or 2**31`, which has to be an int that is not negative. -/
def maxConnectionsOr : Option (Value β) → Except Fault ℤ
  | none | some .none | some (.text "") => .ok (2 ^ 31)
  | some (.int n) => if n = 0 then .ok (2 ^ 31) else if n < 0 then .error .valueError else .ok n
  | _ => .error .valueError

/-- `ConnectionPool(**args)`. -/
def Pool.init (isAsync : Bool) (args : Options β) : Except Fault (Pool β) := do
  if (args.get? "self").isSome then throw .typeError
  let maxConnections ← maxConnectionsOr (args.get? "max_connections")
  match (args.get? "connection_class").getD (.cls (.connection isAsync)) with
  | .cls connectionClass =>
    let connectionKwargs := args.filter fun p =>
      p.1 ≠ "connection_class" ∧ p.1 ≠ "max_connections"
    return {
      connectionClass
      maxConnections
      connectionKwargs := connectionKwargs.filter fun p => R.accepts connectionClass p.1
      extraKwargs := connectionKwargs.filter fun p => !R.accepts connectionClass p.1
    }
  | _ => throw .attributeError

def fromUrl (isAsync : Bool) (url : UrlArg) (kwargs : Options β) : Except Fault (Pool β) := do
  Pool.init R isAsync (← poolArgs R isAsync url kwargs)

/-! ## What the precedence is to be -/

/-- The database of a URL whose query has `options`: the first of the query's, the number in the path
for the network schemes, the keyword's, and 0. -/
def expectedDb (u : KvdbUrl) (options kwargs : Options β) : Value β :=
  (((options.get? "db").or (if u.isUnix then none else u.pathNumber.map .int)).or
    (kwargs.get? "db")).getD (.int 0)

/-- The pool's arguments have the database that is expected and every other option of the query. -/
structure Precedes (u : KvdbUrl) (options kwargs args : Options β) : Prop where
  db : (args.get? "db").getD (.int 0) = expectedDb u options kwargs
  others : ∀ name v, name ≠ "db" → options.get? name = some v → args.get? name = some v

end Kvdb.ConnectionUrl
