import Kvdb.Components.ConnectionUrl
import Kvdb.Lib.Decimal

/-!
# Another database of a URL (`KVDBUrl.with_db_id`)

`Url` is a URL in its parts, as `pydantic` parses it. `withDbId` replaces the database in the path and
builds a URL from the parts again; `UrlLib.build` stands for `Url.build`, which puts a slash before the
path.
-/

namespace Kvdb.DbUrl

open Lib Python ConnectionUrl

structure Url extends KvdbUrl where
  fragment : Option String := none

/-- `Url.build` and the parser of URLs, on paths of digits: they are inverse to each other. The
argument `host` is a `str`. -/
structure UrlLib where
  build : Url → Except Fault Url
  build_parse : ∀ (u : Url) (path : List Char), u.host.isSome → Digits path →
    build { u with path := some (String.ofList path) } =
      .ok { u with path := some (String.ofList ('/' :: path)) }
  build_host : ∀ u : Url, u.host = none → build u = .error .typeError

/-- `f"{n}"`. -/
def intText : ℤ → List Char
  | .ofNat n => Nat.toDigits 10 n
  | .negSucc n => '-' :: Nat.toDigits 10 (n + 1)

/-- The path that `with_db_id` builds from: the slashes at its left are stripped. -/
def newPath (u : Url) (n : ℤ) : Except Fault (List Char) :=
  match u.path with
  | none => .ok (intText n)
  | some path =>
    if path = "" then .ok (intText n)
    else do
      let db ← u.dbId
      return if db = 0 then intText n
        else (replace (intText db) (intText n) 0 path.toList).dropWhile (· = '/')

def withDbId (L : UrlLib) (u : Url) (n : ℤ) : Except Fault Url := do
  let path ← newPath u n
  L.build { u with path := some (String.ofList path) }

/-- The path is absent, or a slash and then digits. -/
def PathOfDb (u : Url) : Prop :=
  ∀ path, u.path = some path → ∃ digits, Digits digits ∧ path = String.ofList ('/' :: digits)

/-- The result is a URL with the database `n`, and all but the path is as in `u`. -/
def SetsDb (u : Url) (n : ℤ) (result : Except Fault Url) : Prop :=
  ∃ v : Url, result = .ok v ∧ v.dbId = .ok n ∧ { v with path := u.path } = u

end Kvdb.DbUrl
