import Kvdb.Lib.Decimal
import Kvdb.Lib.Double
import Kvdb.Lib.Python
import Mathlib.Data.Char
import Mathlib.Data.List.DropRight
import Mathlib.Data.List.Infix
import Mathlib.Data.List.Lex

/-!
# Worker attributes (`get_comparison`, `determine_match_from_attributes`)

A function is run by the workers whose attributes match those that it requires. `getComparison` decides
about one attribute, by the type of what is required: the text `>= 2` is compared as a number, a list is
to contain. `determineMatch` counts the attributes that match.

`Runtime β` has the tables of Unicode and what objects of other classes do. `satisfied` and
`reference` say what a match is to be.
-/

namespace Kvdb.WorkerAttributes

open Lib Python

/-! ## Numbers -/

inductive Number
  | finite (q : ℚ)
  | inf (negative : Bool)
  | nan
  deriving DecidableEq

namespace Number

def eq : Number → Number → Bool
  | .finite p, .finite q => p = q
  | .inf a, .inf b => a = b
  | _, _ => false

def lt : Number → Number → Bool
  | .finite p, .finite q => p < q
  | .finite _, .inf negative => !negative
  | .inf negative, .finite _ => negative
  | .inf a, .inf b => a && !b
  | _, _ => false

def le (x y : Number) : Bool := x.lt y || x.eq y

end Number

structure CharTables where
  /-- The digit that a character is. -/
  decimal : Char → Option ℕ
  isNumeric : Char → Bool
  isSpace : Char → Bool

/-- `str.strip()`. -/
def strip (T : CharTables) (cs : List Char) : List Char :=
  (cs.dropWhile T.isSpace).rdropWhile T.isSpace

/-- `str.isnumeric()`. -/
def isNumeric (T : CharTables) (cs : List Char) : Bool := !cs.isEmpty && cs.all T.isNumeric

/-- Single underscores between digits are left out. -/
def dropUnderscores : Bool → List Char → Option (List Char)
  | _, [] => some []
  | afterDigit, '_' :: c :: cs =>
    if afterDigit && c.isDigit then (dropUnderscores true cs).map (c :: ·) else none
  | _, c :: cs => if c = '_' then none else (dropUnderscores c.isDigit cs).map (c :: ·)

/-- The sign of a number, and the rest. -/
def signOf : List Char → Bool × List Char
  | '-' :: cs => (true, cs)
  | '+' :: cs => (false, cs)
  | cs => (false, cs)

/-- What follows the digits. -/
def readExponent : List Char → Option ℤ
  | [] => some 0
  | e :: cs =>
    let (negative, digits) := signOf cs
    if (e = 'e' || e = 'E') && !digits.isEmpty && digits.all Char.isDigit then
      let n := Nat.ofDigitChars 10 digits 0
      some (if negative then -n else n)
    else none

/-- Digits with a point and an exponent. -/
def readDecimal (cs : List Char) : Option ℚ :=
  let whole := cs.takeWhile Char.isDigit
  let (fraction, rest) :=
    match cs.dropWhile Char.isDigit with
    | '.' :: cs => (cs.takeWhile Char.isDigit, cs.dropWhile Char.isDigit)
    | cs => ([], cs)
  if (whole ++ fraction).isEmpty then none
  else (readExponent rest).map fun e =>
    (Nat.ofDigitChars 10 (whole ++ fraction) 0 : ℚ) * 10 ^ (e - (fraction.length : ℤ))

/-- The nearest double. -/
def double (q : ℚ) : Number :=
  if 2 ^ 1024 ≤ |toDouble q| then .inf (q < 0) else .finite (toDouble q)

/-- `float(text)`, or nothing if it raises. -/
def readFloat (T : CharTables) (text : List Char) : Option Number := do
  let cs := (strip T text).map fun c => ((T.decimal c).map Nat.digitChar).getD c
  let (negative, cs) := signOf (← dropUnderscores false cs)
  let lower := cs.map Char.toLower
  if lower = ['i', 'n', 'f'] ∨ lower = ['i', 'n', 'f', 'i', 'n', 'i', 't', 'y'] then
    return .inf negative
  else if lower = ['n', 'a', 'n'] then return .nan
  else
    let q ← readDecimal cs
    return double (if negative then -q else q)

/-! ## Values -/

/-- The value of an attribute; `β` are the objects of other classes. -/
inductive Value (β : Type)
  | none
  | bool (b : Bool)
  | int (n : ℤ)
  | float (x : Number)
  | str (s : List Char)
  | list (isTuple : Bool) (xs : List (Value β))
  | other (o : β)

/-- `operator.ge` and so on. -/
inductive Order
  | ge
  | le
  | gt
  | lt
  deriving DecidableEq

/-- The functions of `operator`. -/
inductive Operator
  | ne
  | order (o : Order)
  | contains
  | eq
  deriving DecidableEq

inductive Fault
  | typeError
  | valueError
  deriving DecidableEq

/-- Unicode, and the objects of other classes. -/
structure Runtime (β : Type) extends CharTables where
  /-- `==`, where at least one side is such an object. -/
  equal : Value β → Value β → Bool
  truthy : β → Bool
  /-- An order or `contains`. -/
  apply : Operator → Value β → Value β → Except Fault Bool
  float : β → Except Fault Number

def Order.onNumbers : Order → Number → Number → Bool
  | .ge, x, y => y.le x
  | .le, x, y => x.le y
  | .gt, x, y => y.lt x
  | .lt, x, y => x.lt y

def Order.onTexts : Order → List Char → List Char → Bool
  | .ge, s, t => t ≤ s
  | .le, s, t => s ≤ t
  | .gt, s, t => t < s
  | .lt, s, t => s < t

namespace Value

variable {β : Type}

/-- `isinstance(value, (int, float))`, and its number. -/
def number? : Value β → Option Number
  | .bool b => some (.finite (if b then 1 else 0))
  | .int n => some (.finite n)
  | .float x => some x
  | _ => Option.none

variable (R : Runtime β)

mutual

/-- `a == b`. -/
def eq : Value β → Value β → Bool
  | .none, .none => true
  | .str s, .str t => s = t
  | .list isTuple xs, .list isTuple' ys => isTuple = isTuple' && eqAll xs ys
  | .other o, b => R.equal (.other o) b
  | a, .other o => R.equal a (.other o)
  | a, b =>
    match a.number?, b.number? with
    | some x, some y => x.eq y
    | _, _ => false

def eqAll : List (Value β) → List (Value β) → Bool
  | [], [] => true
  | a :: as, b :: bs => eq a b && eqAll as bs
  | _, _ => false

end

/-- `bool(value)`. -/
def truthy : Value β → Bool
  | .none => false
  | .str s => !s.isEmpty
  | .list _ xs => !xs.isEmpty
  | .other o => R.truthy o
  | .bool b => b
  | .int n => n ≠ 0
  | .float x => !x.eq (.finite 0)

/-- `float(value)` of what is no number. -/
def toFloat : Value β → Except Fault (Value β)
  | .str s => (readFloat R.toCharTables s).elim (.error .valueError) fun x => .ok (.float x)
  | .other o => (R.float o).map .float
  | _ => .error .typeError

end Value

variable {β : Type} (R : Runtime β)

/-- `op(a, b)`; no two lists are put in order here. -/
def applyOperator : Operator → Value β → Value β → Except Fault Bool
  | .eq, a, b => .ok (a.eq R b)
  | .ne, a, b => .ok (!a.eq R b)
  | .order o, a, b =>
    match a, b with
    | .other _, _ | _, .other _ => R.apply (.order o) a b
    | .str s, .str t => .ok (o.onTexts s t)
    | _, _ =>
      match a.number?, b.number? with
      | some x, some y => .ok (o.onNumbers x y)
      | _, _ => .error .typeError
  | .contains, a, b =>
    match a, b with
    | .other _, _ => R.apply .contains a b
    | .list _ xs, _ => .ok (xs.any fun x => x.eq R b)
    | .str s, .str t => .ok (t <:+: s)
    | _, _ => .error .typeError

/-! ## One attribute -/

/-- The operator that a text begins with, and the rest of it. -/
def splitText (T : CharTables) : List Char → Operator × List Char
  | '!' :: rest => (.ne, strip T rest)
  | '>' :: '=' :: rest => (.order .ge, strip T rest)
  | '<' :: '=' :: rest => (.order .le, strip T rest)
  | '>' :: rest => (.order .gt, strip T rest)
  | '<' :: rest => (.order .lt, strip T rest)
  | 'i' :: 'n' :: rest => (.contains, strip T rest)
  | text => if '~' ∈ text then (.contains, strip T (text.rtakeWhile (· ≠ '~'))) else (.eq, text)

/-- A text of numeric characters becomes a number. -/
def takeNumeric (text : List Char) : Except Fault (Value β) :=
  if isNumeric R.toCharTables text then Value.toFloat R (.str text) else .ok (.str text)

/-- The operator and its arguments. A bool is an int, so the branch for bools is never taken. -/
def dispatch (source target : Value β) : Except Fault (Operator × Value β × Value β) :=
  match target with
  | .str s =>
    (takeNumeric R (splitText R.toCharTables s).2).map fun target =>
      ((splitText R.toCharTables s).1, source, target)
  | .bool _ | .int _ | .float _ => .ok (.order .gt, source, target)
  | .list .. =>
    match source with
    | .list .. => .ok (.contains, source, target)
    | _ => .ok (.contains, .list false [source], target)
  | .none | .other _ => .ok (.eq, source, target)

/-- `get_comparison`. -/
def getComparison (source target : Value β) : Except Fault Bool := do
  let (op, source, target) ← dispatch R source target
  let target ←
    if source.number?.isSome && target.number?.isNone then target.toFloat R else .ok target
  applyOperator R op source target

/-! ## All attributes -/

/-- `attribute_match_type`. -/
inductive MatchType
  | none
  | all
  | any
  | atLeast (n : ℤ)
  deriving DecidableEq

abbrev Attributes (β : Type) := Dict String (Value β)

/-- The keys that the worker and the function share. -/
def sharedKeys (source target : Attributes β) : List String :=
  (source.items.map Prod.fst).filter fun key => (target.get? key).isSome

/-- Whether `n` matches are enough to stop, and whether they are enough at the end. -/
def MatchType.stops (ty : MatchType) (n : ℕ) : Bool :=
  match ty with
  | .atLeast m => m ≤ n
  | .any => true
  | _ => false

def MatchType.suffices (ty : MatchType) (shared n : ℕ) : Bool :=
  match ty with
  | .atLeast m => m ≤ n
  | .all => n = shared
  | _ => false

/-- The loop over the shared keys, after `n` matches. -/
def countMatches (source target : Attributes β) (ty : MatchType) (shared : ℕ) :
    List String → ℕ → Except Fault Bool
  | [], n => .ok (ty.suffices shared n)
  | key :: keys, n => do
    if ← getComparison R ((source.get? key).getD .none) ((target.get? key).getD .none) then
      if ty.stops (n + 1) then return true
      else countMatches source target ty shared keys (n + 1)
    else countMatches source target ty shared keys n

/-- `determine_match_from_attributes`. -/
def determineMatch (order : IterOrder String) (source target : Attributes β) (ty : MatchType) :
    Except Fault Bool :=
  if ty = .none then .ok true
  else if (sharedKeys source target).isEmpty then .ok false
  else
    countMatches R source target ty (sharedKeys source target).length
      (order.list (sharedKeys source target)) 0

/-! ## What a match is to be -/

/-- The rest of a text, read as a number when it is one. -/
def asRead (text : List Char) : Value β :=
  ((readFloat R.toCharTables text).map .float).getD (.str text)

/-- Whether a worker's value satisfies a requirement. For the requirements that are neither a truth
value, a list that is to have the worker's scalar, nor a text with a comparison, it is what the
comparison gives. -/
def satisfied (source target : Value β) : Bool :=
  let compared := getComparison R source target = .ok true
  match target with
  | .bool b => source.truthy R == b
  | .list _ xs =>
    match source with
    | .list .. | .other _ => compared
    | _ => xs.any fun x => source.eq R x
  | .str s =>
    match splitText R.toCharTables s with
    | (.ne, rest) => applyOperator R .ne source (asRead R rest) = .ok true
    | (.order o, rest) => applyOperator R (.order o) source (asRead R rest) = .ok true
    | _ => compared
  | _ => compared

/-- The worker has an attribute that satisfies the function's. -/
def satisfies (source : Attributes β) (p : String × Value β) : Bool :=
  (source.get? p.1).any fun v => satisfied R v p.2

/-- Whether the attributes match. -/
def reference (source target : Attributes β) : MatchType → Bool
  | .none => true
  | .all => target.items.all (satisfies R source)
  | .any => target.items.any (satisfies R source)
  | .atLeast n => n ≤ target.items.countP (satisfies R source)

end Kvdb.WorkerAttributes
