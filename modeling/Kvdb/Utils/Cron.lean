import Kvdb.Lib.Python
import Kvdb.Lib.Regex
import Mathlib.Data.List.DropRight

/-!
# Cron schedules (`utils/cron.py`)

`validateCronSchedule` makes a cron expression of a phrase such as `every 5 minutes and 10 seconds`. The
regular expression finds amounts with their units and offsets (`addMatch`), amounts that are too large
are carried to the next unit (`normalize`), and every unit becomes a field (`cronExpression`).

What `croniter` accepts, and the tables of Unicode, are parameters. `ValidCron` says what a cron
expression is to be, as a text.
-/

namespace Kvdb.Cron

open Lib Regex

/-! ## Texts -/

/-- `str.isspace()` of a character. -/
def isSpace (c : Char) : Bool :=
  9 ≤ c.toNat && c.toNat ≤ 13 || 28 ≤ c.toNat && c.toNat ≤ 32 ||
    8192 ≤ c.toNat && c.toNat ≤ 8202 ||
    c.toNat ∈ [133, 160, 5760, 8232, 8233, 8239, 8287, 12288]

theorem not_isSpace_of_isDigit {c : Char} (h : c.isDigit = true) : isSpace c = false := by
  obtain ⟨hlo, hhi⟩ := Char.isDigit_iff_toNat.1 h
  have hlo' : 48 ≤ c.toNat := hlo
  have hhi' : c.toNat ≤ 57 := hhi
  simp only [isSpace, Bool.or_eq_false_iff, Bool.and_eq_false_iff, decide_eq_false_iff_not,
    List.mem_cons, List.not_mem_nil, or_false]
  refine ⟨⟨⟨by omega, by omega⟩, by omega⟩, ?_⟩
  omega

structure CharTables where
  /-- The digit that a character is, `\d`. -/
  decimal : Char → Option ℕ
  /-- `\w`. -/
  isWord : Char → Bool
  not_space : ∀ c, (decimal c).isSome → isSpace c = false

/-- The tables of ASCII. -/
def asciiTables : CharTables where
  decimal c := if c.isDigit then some (c.toNat - 48) else none
  isWord c := c.isAlphanum || c = '_'
  not_space c h := by
    have hc : c.isDigit = true := by
      by_contra hc
      rw [if_neg hc] at h
      cases h
    exact not_isSpace_of_isDigit hc

def strip (cs : List Char) : List Char := (cs.dropWhile isSpace).rdropWhile isSpace

/-- `str.split()`. -/
def split (cs : List Char) : List (List Char) := (cs.splitOnP isSpace).filter (· ≠ [])

/-- `str(n)`. -/
def str (n : ℤ) : List Char := (toString n).toList

/-! ## Units -/

inductive TimeUnit
  | seconds
  | minutes
  | hours
  | days
  | weeks
  | months
  deriving DecidableEq

namespace TimeUnit

def name : TimeUnit → String
  | seconds => "seconds"
  | minutes => "minutes"
  | hours => "hours"
  | days => "days"
  | weeks => "weeks"
  | months => "months"

/-- The keys of `time_units`. -/
def all : List TimeUnit := [seconds, minutes, hours, days, weeks, months]

/-- `_time_aliases_groups`. -/
def aliases : TimeUnit → List String
  | seconds => ["s", "sec", "secs"]
  | minutes => ["m", "min", "mins"]
  | hours => ["h", "hr", "hrs"]
  | days => ["d", "day"]
  | weeks => ["w", "wk", "wks"]
  | months => ["mo", "mon", "mons"]

/-- `_time_div_offset_value`. -/
def divOffsetValue : TimeUnit → ℕ
  | seconds => 60
  | minutes => 60
  | hours => 24
  | days => 7
  | weeks => 4
  | months => 12

end TimeUnit

/-- `_time_aliases`. -/
def timeAliases : List (String × TimeUnit) :=
  TimeUnit.all.flatMap fun unit => unit.aliases.map fun word => (word, unit)

/-- The unit of a word, or nothing if there is none. -/
def unitOf (word : String) : Option TimeUnit :=
  let unit := ((timeAliases.find? (·.1 = word)).map fun p => p.2.name).getD word
  let unit := if unit.toList.getLast? = some 's' then unit else unit ++ "s"
  TimeUnit.all.find? (·.name = unit)

/-! ## What is found -/

/-- `_time_pattern`. -/
def timePattern (T : CharTables) : Pattern :=
  .seq (.optional (.text "every ".toList)) <|
  .seq (.group 1 (.many fun c => (T.decimal c).isSome)) <|
  .seq (.text [' ']) <|
  .seq (.optional (.group 2 (.seq (.char (· ∈ ['+', '-'])) <|
    .seq (.text ['=', ' ']) (.many fun c => (T.decimal c).isSome)))) <|
  .seq (.optional (.text [' '])) <|
  .seq (.group 3 (.many T.isWord)) <|
    .optional (.alt (.text ", ".toList) (.text " and ".toList))

inductive Fault
  | valueError
  | zeroDivisionError
  deriving DecidableEq

inductive OffsetOperator
  | plus
  | minus
  deriving DecidableEq

structure TimeValues where
  seconds : Option ℕ := none
  minutes : ℕ := 0
  hours : ℕ := 0
  days : ℕ := 0
  weeks : ℕ := 0
  months : ℕ := 0

def TimeValues.set (v : TimeValues) (unit : TimeUnit) (num : ℕ) : TimeValues :=
  match unit with
  | .seconds => { v with seconds := some num }
  | .minutes => { v with minutes := num }
  | .hours => { v with hours := num }
  | .days => { v with days := num }
  | .weeks => { v with weeks := num }
  | .months => { v with months := num }

structure Times where
  values : TimeValues := {}
  offsets : TimeUnit → Option (List ℤ) := fun _ => none

/-- `int(text)` of digits. -/
def readInt (T : CharTables) (cs : List Char) : ℕ :=
  cs.foldl (fun n c => 10 * n + (T.decimal c).getD 0) 0

/-- The operator and the number of an offset. -/
def readOffset (T : CharTables) (offset : List Char) : Except Fault (OffsetOperator × ℕ) :=
  match split offset with
  | [operator, num] =>
    if strip operator = ['+', '='] then .ok (.plus, readInt T (strip num))
    else if strip operator = ['-', '='] then .ok (.minus, readInt T (strip num))
    else .error .valueError
  | _ => .error .valueError

/-- `base_offset_value`. -/
def baseOffset (start : ℕ) (operator : OffsetOperator) (num : ℕ) : ℤ :=
  match operator with
  | .minus => start - num
  | .plus => start + num

/-- `offset_value`, for one round of the loop. -/
def offsetValue (div start : ℕ) (base : ℤ) (i : ℕ) : ℤ :=
  if div < base + start * i then (base + start * i) % div else base + start * i

/-- `time_offsets[unit]`. -/
def offsetValues (div start : ℕ) (operator : OffsetOperator) (num : ℕ) : List ℤ :=
  let base := baseOffset start operator num
  base :: (List.range' 1 (div / start - 1)).map (offsetValue div start base)

/-- A round of the loop over the matches. -/
def addMatch (T : CharTables) (t : Times) (g : Groups) : Except Fault Times :=
  match unitOf (String.ofList (g 3)) with
  | none => .error .valueError
  | some unit =>
    let num := readInt T (g 1)
    let t := { t with values := t.values.set unit num }
    if strip (g 2) = [] then .ok t
    else do
      let (operator, offsetNum) ← readOffset T (g 2)
      if num = 0 then .error .zeroDivisionError
      else
        let offsets := offsetValues unit.divOffsetValue num operator offsetNum
        .ok { t with offsets := Function.update t.offsets unit (some offsets) }

/-! ## The expression -/

/-- A value that is too large, and the next one. -/
def carry (base value next : ℕ) : ℕ × ℕ :=
  if base ≤ value then (value % base, next + value / base) else (value, next)

/-- Seconds that are not mentioned stay `None`. -/
def carrySeconds (value : Option ℕ) (next : ℕ) : Option ℕ × ℕ :=
  match value with
  | none => (none, next)
  | some value => (some (carry 60 value next).1, (carry 60 value next).2)

/-- The overflow of the units, from the smallest on. -/
def TimeValues.normalize (v : TimeValues) : TimeValues :=
  let (seconds, minutes) := carrySeconds v.seconds v.minutes
  let (minutes, hours) := carry 60 minutes v.hours
  let (hours, days) := carry 24 hours v.days
  let (days, weeks) := carry 7 days v.weeks
  let (weeks, months) := carry 4 weeks v.months
  { seconds, minutes, hours, days, weeks, months }

/-- `time_units[unit]`, where the unit has an offset or a value. -/
def field (offsets : Option (List ℤ)) (value : ℕ) : Option (List Char) :=
  match offsets with
  | some xs => if xs = [] then step else some ([','].intercalate (xs.map str))
  | none => step
where
  step : Option (List Char) := if value = 0 then none else some (['*', '/'] ++ str value)

/-- A star below a unit that is set becomes `0`. -/
def below (larger field : List Char) : List Char :=
  if larger ≠ ['*'] ∧ field = ['*'] then ['0'] else field

def cronExpression (v : TimeValues) (offsets : TimeUnit → Option (List ℤ)) : List Char :=
  let minutes := (field (offsets .minutes) v.minutes).getD ['*']
  let hours := (field (offsets .hours) v.hours).getD ['*']
  let days := (field (offsets .days) v.days).getD ['*']
  let weeks := (field (offsets .weeks) v.weeks).getD ['*']
  let months := (field (offsets .months) v.months).getD ['*']
  let text := below hours minutes ++ [' '] ++ below days hours ++ [' '] ++ below weeks days ++ [' '] ++
    months ++ [' '] ++ below months weeks
  match field (offsets .seconds) (v.seconds.getD 0) with
  | some seconds => strip (text ++ [' '] ++ seconds)
  | none => strip text

def validateCronSchedule (T : CharTables) (isValid : String → Bool) (cronSchedule : String) :
    Except Fault String :=
  if isValid cronSchedule then .ok cronSchedule
  else
    match findAll (timePattern T) cronSchedule.toList with
    | [] => .error .valueError
    | found => do
      let t ← found.foldlM (addMatch T) {}
      return String.ofList (cronExpression t.values.normalize t.offsets)

/-! ## Cron expressions -/

/-- A star, a star with a step, or a number in the range. -/
def ValidItem (lo hi : ℤ) (item : List Char) : Prop :=
  item = ['*'] ∨ (∃ k : ℕ, 1 ≤ k ∧ item = ['*', '/'] ++ str k) ∨ ∃ n, lo ≤ n ∧ n ≤ hi ∧ item = str n

def ValidField (range : ℤ × ℤ) (field : List Char) : Prop :=
  ∀ item ∈ field.splitOn ',', ValidItem range.1 range.2 item

/-- The range of the field that a unit is written to; that of the weeks is the day of the week. -/
def TimeUnit.range : TimeUnit → ℤ × ℤ
  | seconds => (0, 59)
  | minutes => (0, 59)
  | hours => (0, 23)
  | days => (1, 31)
  | weeks => (0, 7)
  | months => (1, 12)

def ranges : List (ℤ × ℤ) :=
  [TimeUnit.minutes, .hours, .days, .months, .weeks, .seconds].map TimeUnit.range

/-- Five or six fields with numbers in their ranges. -/
def ValidCron (text : String) : Prop :=
  let fields := text.toList.splitOn ' '
  (fields.length = 5 ∨ fields.length = 6) ∧ List.Forall₂ ValidField (ranges.take fields.length) fields

end Kvdb.Cron
