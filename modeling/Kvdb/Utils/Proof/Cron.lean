import Kvdb.Utils.Proof.CronFields
import Kvdb.Utils.Proof.CronText
import Mathlib.Tactic.IntervalCases

/-!
# When a schedule is valid

`fits_iff` says for every unit which offsets are in the range of its field. `validCron_iff` is about the
text of the expression, `foldlM_addPart` about the phrases. `validateCronSchedule_iff` says which
phrases give a cron expression or a `ValueError`.
-/

namespace Kvdb.Cron

open Lib Regex Redis

variable {start num : ℕ} {operator : OffsetOperator}

/-! ## Offsets and ranges -/

/-- The offsets whose numbers are in the range of the field. -/
def Fits (unit : TimeUnit) (start : ℕ) (operator : OffsetOperator) (num : ℕ) : Prop :=
  let base := baseOffset start operator num
  match unit with
  | .seconds | .minutes | .hours => Within unit.divOffsetValue start operator num
  | .days => 1 ≤ base ∧ base ≤ 31 ∧ (7 < base →
      (start = 1 → base % 7 = 0) ∧ (start = 2 → base % 7 ≠ 3 ∧ base % 7 ≠ 5) ∧
        (start = 3 → base % 7 ≠ 4))
  | .weeks => 0 ≤ base ∧ base ≤ 7
  | .months => 1 ≤ base ∧ base ≤ 12

theorem inRange_offsetValues {unit : TimeUnit} :
    InRange unit (offsetValues unit.divOffsetValue start operator num) ↔
      (unit.range.1 ≤ baseOffset start operator num ∧ baseOffset start operator num ≤ unit.range.2) ∧
        ∀ i, 1 ≤ i → i < unit.divOffsetValue / start →
          unit.range.1 ≤ offsetValue unit.divOffsetValue start (baseOffset start operator num) i ∧
            offsetValue unit.divOffsetValue start (baseOffset start operator num) i ≤ unit.range.2 := by
  constructor
  · intro h
    exact ⟨h _ (mem_offsetValues.2 (.inl rfl)),
      fun i hi hlt => h _ (mem_offsetValues.2 (.inr ⟨i, hi, hlt, rfl⟩))⟩
  · rintro ⟨hbase, hrounds⟩ v hv
    rcases mem_offsetValues.1 hv with rfl | ⟨i, hi, hlt, rfl⟩
    · exact hbase
    · exact hrounds i hi hlt

/-- A round is out of the range of the days if it is reduced to `0`. -/
theorem offsetValue_days {base : ℤ} {i : ℕ} (h : 1 ≤ base) :
    (1 ≤ offsetValue 7 start base i ∧ offsetValue 7 start base i ≤ 31) ↔
      (7 < base + (start * i : ℕ) → (base + (start * i : ℕ)) % 7 ≠ 0) := by
  rw [offsetValue, ← Nat.cast_mul, Nat.cast_ofNat]
  split
  · omega
  · omega

theorem fits_days (hstart : 1 ≤ start) :
    InRange .days (offsetValues 7 start operator num) ↔ Fits .days start operator num := by
  refine inRange_offsetValues.trans ?_
  simp only [TimeUnit.range, TimeUnit.divOffsetValue, Fits, and_assoc]
  refine and_congr_right fun hlo => and_congr_right fun hhi => ?_
  generalize baseOffset start operator num = base at hlo hhi
  simp only [offsetValue_days hlo]
  constructor
  · intro h hbase
    refine ⟨?_, ?_, ?_⟩
    · rintro rfl
      by_contra hne
      exact h (7 - base % 7).toNat (by omega) (by omega) (by omega) (by omega)
    · rintro rfl
      exact ⟨fun h3 => h 2 (by omega) (by omega) (by omega) (by omega),
        fun h5 => h 1 (by omega) (by omega) (by omega) (by omega)⟩
    · rintro rfl
      exact fun h4 => h 1 (by omega) (by omega) (by omega) (by omega)
  · intro h i hi hlt hreduced
    -- with a larger start there is no further round
    have hle : start ≤ 3 := by
      by_contra hgt
      have hdiv : 7 / start ≤ 7 / 4 := Nat.div_le_div_left (by omega) (by decide)
      omega
    interval_cases start
    · omega
    · obtain rfl | rfl : i = 1 ∨ i = 2 := by omega
      · omega
      · omega
    · omega

theorem fits_months (hstart : 1 ≤ start) :
    InRange .months (offsetValues 12 start operator num) ↔ Fits .months start operator num := by
  refine inRange_offsetValues.trans ⟨And.left, fun h => ⟨h, fun i hi hlt => ?_⟩⟩
  have hle := mul_le_of_round hlt
  simp only [TimeUnit.range, TimeUnit.divOffsetValue, Fits] at h hle ⊢
  rw [offsetValue, ← Nat.cast_mul, Nat.cast_ofNat]
  split
  · omega
  · omega

theorem fits_weeks :
    InRange .weeks (offsetValues 4 start operator num) ↔ Fits .weeks start operator num := by
  refine inRange_offsetValues.trans ⟨And.left, fun h => ⟨h, fun i hi hlt => ?_⟩⟩
  simp only [TimeUnit.range, TimeUnit.divOffsetValue, Fits] at h ⊢
  rw [offsetValue, ← Nat.cast_mul, Nat.cast_ofNat]
  split
  · omega
  · omega

/-- Seconds, minutes and hours are below their period. -/
theorem inRange_clock {unit : TimeUnit} {xs : List ℤ}
    (h : unit.range = (0, (unit.divOffsetValue : ℤ) - 1)) :
    InRange unit xs ↔ ∀ v ∈ xs, 0 ≤ v ∧ v < unit.divOffsetValue := by
  simp only [InRange, h, Int.le_sub_one_iff]

/-- **The offsets that are in the range of the field.** -/
theorem fits_iff (hstart : 1 ≤ start) (unit : TimeUnit) :
    InRange unit (offsetValues unit.divOffsetValue start operator num) ↔
      Fits unit start operator num := by
  cases unit with
  | days => exact fits_days hstart
  | weeks => exact fits_weeks
  | months => exact fits_months hstart
  | seconds => exact (inRange_clock rfl).trans (within_iff hstart)
  | minutes => exact (inRange_clock rfl).trans (within_iff hstart)
  | hours => exact (inRange_clock rfl).trans (within_iff hstart)

/-! ## Phrases -/

/-- What a match says: an amount of a unit, and an offset. -/
structure Part where
  unit : Option TimeUnit
  amount : ℕ
  offset : Option (OffsetOperator × ℕ)
  deriving DecidableEq

variable {T : CharTables} {t : Times} {g : Groups}

def readPart (T : CharTables) (g : Groups) : Part where
  unit := unitOf (String.ofList (g 3))
  amount := readInt T (g 1)
  offset := if g 2 = [] then none else (readOffset T (g 2)).toOption

/-- The parts of a phrase. -/
def parts (T : CharTables) (cronSchedule : String) : List Part :=
  (findAll (timePattern T) cronSchedule.toList).map (readPart T)

/-- `addMatch` on what the match says. -/
def addPart (t : Times) (p : Part) : Except Fault Times :=
  match p.unit, p.offset with
  | none, _ => .error .valueError
  | some unit, none => .ok { t with values := t.values.set unit p.amount }
  | some unit, some (operator, num) =>
    if p.amount = 0 then .error .zeroDivisionError
    else
      let offsets := offsetValues unit.divOffsetValue p.amount operator num
      .ok { values := t.values.set unit p.amount, offsets := Function.update t.offsets unit (some offsets) }

/-- The text of an offset: a sign, `= `, and digits. -/
def OffsetText (T : CharTables) (cs : List Char) : Prop :=
  ∃ sign digits, sign ∈ ['+', '-'] ∧ digits ≠ [] ∧ (∀ c ∈ digits, (T.decimal c).isSome) ∧
    cs = sign :: '=' :: ' ' :: digits

theorem offset_of_mem_findAll {cs : List Char} (h : g ∈ findAll (timePattern T) cs) :
    g 2 = [] ∨ OffsetText T (g 2) := by
  obtain ⟨ds, m, hm, rfl⟩ := mem_findAll h
  obtain ⟨m₁, h₁, hm⟩ := mem_run_seq.1 hm
  obtain ⟨m₂, h₂, hm⟩ := mem_run_seq.1 hm
  obtain ⟨m₃, h₃, hm⟩ := mem_run_seq.1 hm
  obtain ⟨m₄, h₄, hm⟩ := mem_run_seq.1 hm
  have hbefore : m₃.groups 2 = [] := by
    rw [groups_of_mem_run h₃ (show 2 ∉ [] by decide), groups_of_mem_run h₂ (show 2 ∉ [1] by decide),
      groups_of_mem_run h₁ (show 2 ∉ [] by decide)]
  rw [groups_of_mem_run hm (show 2 ∉ [3] by decide)]
  rcases mem_run_optional.1 h₄ with h₄ | rfl
  · obtain ⟨m₅, h₅, rfl⟩ := mem_run_group.1 h₄
    obtain ⟨m₆, h₆, h₅⟩ := mem_run_seq.1 h₅
    obtain ⟨m₇, h₇, h₅⟩ := mem_run_seq.1 h₅
    obtain ⟨sign, rest₆, hrest₆, hsign, rfl⟩ := mem_run_char.1 h₆
    obtain ⟨rest₇, hrest₇, rfl⟩ := mem_run_text.1 h₇
    obtain ⟨digits, rest₅, hne, hdigits, hrest₅, rfl⟩ := mem_run_many.1 h₅
    refine .inr ⟨sign, digits, of_decide_eq_true hsign, hne, hdigits, ?_⟩
    dsimp only at hrest₅ hrest₇ ⊢
    rw [Function.update_self]
    refine take_of_append ?_
    rw [hrest₆, hrest₇, hrest₅]
    rfl
  · exact .inl hbefore

/-- Such an offset is read. -/
theorem OffsetText.reads {cs : List Char} (h : OffsetText T cs) :
    strip cs ≠ [] ∧ ∃ o, readOffset T cs = .ok o := by
  obtain ⟨sign, digits, hsign, hne, hdigits, rfl⟩ := h
  have hspace : ∀ c ∈ digits, isSpace c = false := fun c hc => T.not_space c (hdigits c hc)
  have hsplit : ∀ {c : Char}, isSpace c = false →
      split (c :: '=' :: ' ' :: digits) = [[c, '='], digits] := by
    intro c hc
    have hword : ∀ x ∈ [c, '='], isSpace x = false :=
      List.forall_mem_cons.2 ⟨hc, List.forall_mem_singleton.2 rfl⟩
    have happend := List.splitOnP_append_cons_of_forall_mem hword ' ' rfl digits
    rw [List.splitOnP_eq_singleton hspace] at happend
    rw [split, show c :: '=' :: ' ' :: digits = [c, '='] ++ ' ' :: digits from rfl, happend]
    simp [hne]
  have hstrip : ∀ {c : Char}, isSpace c = false → strip (c :: '=' :: ' ' :: digits) ≠ [] := by
    intro c hc
    have hsolid : Solid [c, '='] :=
      ⟨List.cons_ne_nil _ _, List.forall_mem_cons.2 ⟨hc, List.forall_mem_singleton.2 rfl⟩⟩
    have hself : strip (c :: '=' :: ' ' :: digits) = c :: '=' :: ' ' :: digits :=
      strip_eq_self hsolid ⟨' ' :: digits, rfl⟩ ⟨hne, hspace⟩ ⟨[c, '=', ' '], rfl⟩
    rw [hself]
    exact List.cons_ne_nil _ _
  rcases List.mem_pair.1 hsign with rfl | rfl
  · refine ⟨hstrip rfl, ?_⟩
    rw [readOffset, hsplit rfl]
    exact ⟨_, rfl⟩
  · refine ⟨hstrip rfl, ?_⟩
    rw [readOffset, hsplit rfl]
    exact ⟨_, rfl⟩

theorem addMatch_eq {cs : List Char} (h : g ∈ findAll (timePattern T) cs) :
    addMatch T t g = addPart t (readPart T g) := by
  unfold addMatch addPart readPart
  cases unitOf (String.ofList (g 3)) with
  | none => rfl
  | some unit =>
    rcases offset_of_mem_findAll h with hnone | htext
    · rw [hnone, if_pos rfl]
      rfl
    · obtain ⟨hstrip, ⟨operator, num⟩, hread⟩ := htext.reads
      have hne : g 2 ≠ [] := by
        intro hnil
        rw [hnil] at hstrip
        exact hstrip rfl
      simp only [hstrip, hne, if_false, hread]
      rfl

/-! ## The loop -/

variable {ps : List Part} {unit : TimeUnit}

/-- The amounts of a phrase, by their units. -/
def amounts (ps : List Part) : List (TimeUnit × ℕ) :=
  ps.filterMap fun p => p.unit.map fun unit => (unit, p.amount)

/-- Its offsets, each with the amount before it. -/
def offsets (ps : List Part) : List (TimeUnit × ℕ × OffsetOperator × ℕ) :=
  ps.filterMap fun p => p.unit.bind fun unit => p.offset.map fun o => (unit, p.amount, o)

/-- The last amount of a unit. -/
def amountOf (ps : List Part) (unit : TimeUnit) : ℕ := (lastOf (amounts ps) unit).getD 0

/-- The last offset of a unit. -/
def offsetOf (ps : List Part) (unit : TimeUnit) : Option (ℕ × OffsetOperator × ℕ) :=
  lastOf (offsets ps) unit

/-- `time_offsets[unit]` for an offset. -/
def listOf (unit : TimeUnit) (o : ℕ × OffsetOperator × ℕ) : List ℤ :=
  offsetValues unit.divOffsetValue o.1 o.2.1 o.2.2

theorem get_set (v : TimeValues) (unit unit' : TimeUnit) (n : ℕ) :
    (v.set unit n).get unit' = if unit' = unit then n else v.get unit' := by
  cases unit <;> cases unit' <;> rfl

/-- The values and offsets of some parts, on top of others. -/
structure Adds (ps : List Part) (t t' : Times) : Prop where
  values : ∀ unit, t'.values.get unit = (lastOf (amounts ps) unit).getD (t.values.get unit)
  offsets : ∀ unit, t'.offsets unit = ((offsetOf ps unit).map (listOf unit)).or (t.offsets unit)

theorem addPart_ok {p : Part} (hunit : p.unit.isSome) (hzero : p.amount = 0 → p.offset = none)
    (t : Times) : ∃ t', addPart t p = .ok t' ∧ Adds [p] t t' := by
  obtain ⟨unit, amount, offset⟩ := p
  obtain ⟨unit, rfl⟩ := Option.isSome_iff_exists.1 hunit
  have hvalues : ∀ u, (t.values.set unit amount).get u =
      (lastOf [(unit, amount)] u).getD (t.values.get u) := by
    intro u
    rw [get_set, lastOf_singleton]
    split <;> rfl
  cases offset with
  | none => exact ⟨_, rfl, hvalues, fun _ => rfl⟩
  | some o =>
    have hne : amount ≠ 0 := by
      intro h0
      cases hzero h0
    refine ⟨_, if_neg hne, hvalues, fun u => ?_⟩
    have hlast : offsetOf [⟨some unit, amount, some o⟩] u = lastOf [(unit, amount, o)] u := rfl
    rw [hlast, lastOf_singleton]
    dsimp only
    rw [Function.update_apply]
    split
    · rename_i h
      rw [h]
      rfl
    · rfl

theorem Adds.trans {p : Part} {t₁ t₂ : Times} (h : Adds [p] t t₁) (h' : Adds ps t₁ t₂) :
    Adds (p :: ps) t t₂ where
  values unit := by
    have happend : amounts (p :: ps) = amounts [p] ++ amounts ps := List.filterMap_append (l := [p]) ..
    rw [h'.values, h.values, happend, lastOf_append]
    cases lastOf (amounts ps) unit <;> rfl
  offsets unit := by
    have happend : Cron.offsets (p :: ps) = Cron.offsets [p] ++ Cron.offsets ps :=
      List.filterMap_append (l := [p]) ..
    rw [h'.offsets, h.offsets, offsetOf, offsetOf, offsetOf, happend, lastOf_append]
    cases lastOf (Cron.offsets ps) unit <;> rfl

theorem foldlM_addPart (hknown : ∀ p ∈ ps, p.unit.isSome)
    (hzero : ∀ p ∈ ps, p.amount = 0 → p.offset = none) (t : Times) :
    ∃ t', ps.foldlM addPart t = .ok t' ∧ Adds ps t t' := by
  induction ps generalizing t with
  | nil => exact ⟨t, rfl, fun _ => rfl, fun _ => rfl⟩
  | cons p ps ih =>
    obtain ⟨hp, hknown⟩ := List.forall_mem_cons.1 hknown
    obtain ⟨hpzero, hzero⟩ := List.forall_mem_cons.1 hzero
    obtain ⟨t₁, h₁, hadds₁⟩ := addPart_ok hp hpzero t
    obtain ⟨t₂, h₂, hadds₂⟩ := ih hknown hzero t₁
    refine ⟨t₂, ?_, hadds₁.trans hadds₂⟩
    rw [List.foldlM_cons, h₁]
    exact h₂

/-- A zero with an offset, before any word that is no unit. -/
def DividesByZero (ps : List Part) : Prop :=
  ∃ p ∈ ps.takeWhile fun p => p.unit.isSome, p.amount = 0 ∧ p.offset ≠ none

theorem dividesByZero_cons {p : Part} (h : p.unit.isSome) :
    DividesByZero (p :: ps) ↔ (p.amount = 0 ∧ p.offset ≠ none) ∨ DividesByZero ps := by
  have htake : (p :: ps).takeWhile (fun p => p.unit.isSome) =
      p :: ps.takeWhile fun p => p.unit.isSome := List.takeWhile_cons_of_pos h
  rw [DividesByZero, htake, List.exists_mem_cons_iff]
  rfl

theorem not_dividesByZero_of_none {p : Part} (h : p.unit = none) : ¬ DividesByZero (p :: ps) := by
  rintro ⟨q, hq, -⟩
  rw [List.takeWhile_cons_of_neg (by simp [h])] at hq
  cases hq

/-- The loop ends at the first zero with an offset, or at the first word that is no unit. -/
theorem foldlM_addPart_error (t : Times) :
    (DividesByZero ps → ps.foldlM addPart t = .error .zeroDivisionError) ∧
      (¬ DividesByZero ps → (∃ p ∈ ps, p.unit = none) →
        ps.foldlM addPart t = .error .valueError) := by
  induction ps generalizing t with
  | nil =>
    refine ⟨?_, ?_⟩
    · rintro ⟨p, hp, -⟩
      cases hp
    · rintro - ⟨p, hp, -⟩
      cases hp
  | cons p ps ih =>
    rw [List.foldlM_cons]
    cases hunit : p.unit with
    | none =>
      refine ⟨fun h => absurd h (not_dividesByZero_of_none hunit), fun _ _ => ?_⟩
      rw [addPart, hunit]
      rfl
    | some unit =>
      have hsome : p.unit.isSome := by
        rw [hunit]
        rfl
      by_cases hzero : p.amount = 0 ∧ p.offset ≠ none
      · obtain ⟨o, ho⟩ := Option.ne_none_iff_exists'.1 hzero.2
        have herror : addPart t p = .error .zeroDivisionError := by
          rw [addPart, hunit, ho]
          exact if_pos hzero.1
        rw [herror]
        exact ⟨fun _ => rfl, fun h => absurd ((dividesByZero_cons hsome).2 (.inl hzero)) h⟩
      · obtain ⟨t', ht', -⟩ := addPart_ok hsome (fun h0 => not_not.1 fun ho => hzero ⟨h0, ho⟩) t
        obtain ⟨ih₁, ih₂⟩ := ih t'
        rw [ht', dividesByZero_cons hsome, or_iff_right hzero, List.exists_mem_cons_iff]
        refine ⟨ih₁, fun h hnone => ih₂ h (hnone.resolve_left ?_)⟩
        rw [hunit]
        exact Option.some_ne_none unit

/-! ## The expression -/

/-- The duration that a phrase says, in seconds. -/
def duration (ps : List Part) : ℕ :=
  amountOf ps .seconds + 60 * (amountOf ps .minutes + 60 * (amountOf ps .hours + 24 *
    (amountOf ps .days + 7 * (amountOf ps .weeks + 4 * amountOf ps .months))))

/-- The days of the duration, without whole weeks, or an offset. -/
def HasDays (ps : List Part) : Prop := offsetOf ps .days ≠ none ∨ duration ps / 86400 % 7 ≠ 0

/-- Its weeks, without whole months, or an offset. -/
def HasWeeks (ps : List Part) : Prop := offsetOf ps .weeks ≠ none ∨ duration ps / 604800 % 4 ≠ 0

/-- The phrases that are answered. -/
structure Sound (ps : List Part) : Prop where
  nonzero : ¬ DividesByZero ps
  fits : (∀ p ∈ ps, p.unit ≠ none) → ∀ unit start operator num,
    offsetOf ps unit = some (start, operator, num) → Fits unit start operator num
  days : (∀ p ∈ ps, p.unit ≠ none) → HasWeeks ps → HasDays ps

theorem field_eq_none {offsets : Option (List ℤ)} {value : ℕ} (hne : offsets ≠ some []) :
    field offsets value = none ↔ offsets = none ∧ value = 0 := by
  constructor
  · intro h
    obtain rfl := (offsets_of_field_eq_none h).resolve_right hne
    exact ⟨rfl, field_of_none.1 h⟩
  · rintro ⟨rfl, rfl⟩
    rfl

variable {t : Times}

theorem Adds.total (h : Adds ps {} t) : t.values.total = duration ps := by
  have hget : ∀ u, t.values.get u = amountOf ps u := by
    intro u
    rw [h.values]
    cases u <;> rfl
  simp only [duration, ← hget]
  rfl

theorem Adds.ne_nil (h : Adds ps {} t) (unit : TimeUnit) : t.offsets unit ≠ some [] := by
  rw [h.offsets]
  cases offsetOf ps unit with
  | none => exact (Option.some_ne_none []).symm
  | some o => simp [listOf, offsetValues]

theorem Adds.offsets_eq_none (h : Adds ps {} t) (unit : TimeUnit) :
    t.offsets unit = none ↔ offsetOf ps unit = none := by
  rw [h.offsets]
  cases offsetOf ps unit with
  | none => exact iff_of_true rfl rfl
  | some o => simp

/-- The days and weeks that the carries leave. -/
theorem normalize_days (v : TimeValues) :
    v.normalize.days = v.total / 86400 % 7 ∧ v.normalize.weeks = v.total / 604800 % 4 := by
  obtain ⟨htotal, hs, hmi, hh, hd, hw⟩ := normalize_total v
  rw [← htotal, TimeValues.total]
  omega

theorem Adds.hasDays (h : Adds ps {} t) :
    field (t.offsets .days) t.values.normalize.days ≠ none ↔ HasDays ps := by
  rw [Ne, field_eq_none (h.ne_nil _), h.offsets_eq_none, (normalize_days _).1, h.total, not_and_or]
  rfl

theorem Adds.hasWeeks (h : Adds ps {} t) :
    field (t.offsets .weeks) t.values.normalize.weeks ≠ none ↔ HasWeeks ps := by
  rw [Ne, field_eq_none (h.ne_nil _), h.offsets_eq_none, (normalize_days _).2, h.total, not_and_or]
  rfl

/-- An offset is of a part. -/
theorem one_le_of_offsetOf (hzero : ∀ p ∈ ps, p.amount = 0 → p.offset = none)
    (h : offsetOf ps unit = some (start, operator, num)) : 1 ≤ start := by
  obtain ⟨p, hp, hread⟩ := List.mem_filterMap.1 (mem_of_lastOf h)
  obtain ⟨u, -, hread⟩ := Option.bind_eq_some_iff.1 hread
  obtain ⟨o, ho, hread⟩ := Option.map_eq_some_iff.1 hread
  have hamount : p.amount = start := congrArg (fun x => x.2.1) hread
  rw [← hamount]
  refine Nat.pos_of_ne_zero fun h0 => ?_
  rw [hzero p hp h0] at ho
  cases ho

/-- The numbers of the offsets are in the ranges of the fields. -/
theorem Adds.inRange (h : Adds ps {} t) (hzero : ∀ p ∈ ps, p.amount = 0 → p.offset = none) :
    (∀ unit xs, t.offsets unit = some xs → InRange unit xs) ↔
      ∀ unit start operator num, offsetOf ps unit = some (start, operator, num) →
        Fits unit start operator num := by
  have hoffsets : ∀ unit, t.offsets unit = (offsetOf ps unit).map (listOf unit) := fun unit => by
    rw [h.offsets]
    exact Option.or_none
  constructor
  · intro hrange unit start operator num ho
    refine (fits_iff (one_le_of_offsetOf hzero ho) unit).1 (hrange unit _ ?_)
    rw [hoffsets, ho]
    rfl
  · intro hfits unit xs hxs
    rw [hoffsets, Option.map_eq_some_iff] at hxs
    obtain ⟨⟨start, operator, num⟩, ho, rfl⟩ := hxs
    exact (fits_iff (one_le_of_offsetOf hzero ho) unit).2 (hfits unit start operator num ho)

theorem Adds.validCron (h : Adds ps {} t) (hzero : ∀ p ∈ ps, p.amount = 0 → p.offset = none) :
    ValidCron (String.ofList (cronExpression t.values.normalize t.offsets)) ↔
      (∀ unit start operator num, offsetOf ps unit = some (start, operator, num) →
        Fits unit start operator num) ∧ (HasWeeks ps → HasDays ps) := by
  rw [validCron_iff h.ne_nil, h.hasDays, h.hasWeeks, h.inRange hzero]

/-- The loop over the matches is the loop over the parts. -/
theorem foldlM_addMatch {cs : List Char} {gs : List Groups} (h : ∀ g ∈ gs, g ∈ findAll (timePattern T) cs)
    (t : Times) : gs.foldlM (addMatch T) t = (gs.map (readPart T)).foldlM addPart t := by
  induction gs generalizing t with
  | nil => rfl
  | cons g gs ih =>
    obtain ⟨hg, hgs⟩ := List.forall_mem_cons.1 h
    rw [List.map_cons, List.foldlM_cons, List.foldlM_cons, addMatch_eq hg]
    exact bind_congr fun t' => ih hgs t'

/-- A cron expression or a `ValueError`. -/
def Answers (result : Except Fault String) : Prop :=
  result = .error .valueError ∨ ∃ text, result = .ok text ∧ ValidCron text

/-- What the loop and the expression make of the parts. -/
theorem answers_parts : Answers (do
      let t ← ps.foldlM addPart {}
      return String.ofList (cronExpression t.values.normalize t.offsets)) ↔ Sound ps := by
  by_cases hdivides : DividesByZero ps
  · rw [((foldlM_addPart_error {}).1 hdivides)]
    refine iff_of_false ?_ fun h => h.nonzero hdivides
    rintro (h | ⟨text, h, -⟩)
    · cases h
    · cases h
  · by_cases hknown : ∀ p ∈ ps, p.unit ≠ none
    · have hall : ps.takeWhile (fun p => p.unit.isSome) = ps :=
        List.takeWhile_eq_self_iff.2 fun p hp => Option.isSome_iff_ne_none.2 (hknown p hp)
      have hzero : ∀ p ∈ ps, p.amount = 0 → p.offset = none := by
        intro p hp h0
        by_contra ho
        exact hdivides ⟨p, by rwa [hall], h0, ho⟩
      obtain ⟨t, ht, hadds⟩ := foldlM_addPart
        (fun p hp => Option.isSome_iff_ne_none.2 (hknown p hp)) hzero {}
      rw [ht]
      constructor
      · rintro (h | ⟨text, h, hvalid⟩)
        · cases h
        · cases h
          obtain ⟨hfits, hdays⟩ := (hadds.validCron hzero).1 hvalid
          exact ⟨hdivides, fun _ => hfits, fun _ => hdays⟩
      · intro h
        exact .inr ⟨_, rfl, (hadds.validCron hzero).2 ⟨h.fits hknown, h.days hknown⟩⟩
    · have hnone : ∃ p ∈ ps, p.unit = none := by
        by_contra hall
        exact hknown fun p hp hunit => hall ⟨p, hp, hunit⟩
      rw [(foldlM_addPart_error {}).2 hdivides hnone]
      exact iff_of_true (.inl rfl) ⟨hdivides, fun h => absurd h hknown, fun h => absurd h hknown⟩

theorem sound_nil : Sound [] where
  nonzero := by
    rintro ⟨p, hp, -⟩
    cases hp
  fits _ unit start operator num h := by
    cases h
  days _ h := by
    rcases h with h | h
    · exact absurd rfl h
    · exact absurd rfl h

/-- **A phrase is answered** by a cron expression or a `ValueError` if and only if it is sound. -/
theorem validateCronSchedule_iff (T : CharTables) (isValid : String → Bool) (cronSchedule : String)
    (h : isValid cronSchedule = false) :
    Answers (validateCronSchedule T isValid cronSchedule) ↔ Sound (parts T cronSchedule) := by
  rw [validateCronSchedule, h]
  cases hfound : findAll (timePattern T) cronSchedule.toList with
  | nil =>
    rw [parts, hfound]
    exact iff_of_true (.inl rfl) sound_nil
  | cons g gs =>
    rw [← answers_parts, parts, ← foldlM_addMatch fun g hg => hg, hfound]
    exact Iff.rfl

theorem validateCronSchedule_fifteen :
    Answers (validateCronSchedule asciiTables (fun _ => false) "every 15 -= 5 minutes") := by
  have hparts : parts asciiTables "every 15 -= 5 minutes" =
      [⟨some .minutes, 15, some (.minus, 5)⟩] := by decide +kernel
  refine (validateCronSchedule_iff asciiTables (fun _ => false) "every 15 -= 5 minutes" rfl).2 ?_
  rw [hparts]
  refine ⟨?_, fun _ unit start operator num ho => ?_, fun _ hweeks => ?_⟩
  · rintro ⟨p, hp, h0, -⟩
    rw [List.mem_singleton.1 ((List.takeWhile_sublist _).subset hp)] at h0
    cases h0
  · have hlast : lastOf [(TimeUnit.minutes, 15, OffsetOperator.minus, 5)] unit =
        some (start, operator, num) := ho
    rw [lastOf_singleton] at hlast
    split at hlast
    · rename_i hunit
      cases hlast
      rw [hunit]
      exact ⟨by decide, by decide, by decide⟩
    · cases hlast
  · rcases hweeks with h | h
    · exact absurd rfl h
    · exact absurd (by decide) h

/-- **A division by zero**: `every 0 += 5 minutes`. -/
theorem validateCronSchedule_broken :
    ¬ ∀ (T : CharTables) (isValid : String → Bool) (cronSchedule : String),
      isValid cronSchedule = false → Answers (validateCronSchedule T isValid cronSchedule) := by
  intro h
  have hraises : validateCronSchedule asciiTables (fun _ => false) "every 0 += 5 minutes" =
      .error .zeroDivisionError := by decide +kernel
  have hanswers := h asciiTables (fun _ => false) "every 0 += 5 minutes" rfl
  rw [hraises] at hanswers
  rcases hanswers with h | ⟨text, h, -⟩
  · cases h
  · cases h

/-- Weeks without days have the day `0`. -/
example : validateCronSchedule asciiTables (fun _ => false) "every 2 weeks" = .ok "* * 0 * */2" := by
  decide +kernel

end Kvdb.Cron
