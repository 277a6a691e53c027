import Kvdb.Lib.Decimal
import Kvdb.Utils.Cron
import Mathlib.Tactic.Tauto

/-!
# The text of a cron expression

The fields of an expression are found again in its text (`splitOn_cronExpression`), and their numbers in
the text of a field, so `validCron_iff` can say of the offsets when the text is a cron expression.
-/

namespace Kvdb.Cron

open Lib

/-! ## Numbers -/

theorem str_eq (n : ℤ) :
    str n = if 0 ≤ n then Nat.toDigits 10 n.toNat else '-' :: Nat.toDigits 10 (-n).toNat := by
  rw [str, Int.toString_eq_repr, Int.repr_eq_if]
  split
  · rw [Nat.toList_repr]
  · rw [String.toList_append, Nat.toList_repr]
    rfl

theorem str_inj {n k : ℤ} (h : str n = str k) : n = k := by
  have hdigits : ∀ {a b : ℕ}, Nat.toDigits 10 a = Nat.toDigits 10 b → a = b := by
    intro a b hab
    have hread := congrArg (Nat.ofDigitChars 10 · 0) hab
    simpa only [Nat.ofDigitChars_toDigits (show 1 < 10 by decide) le_rfl] using hread
  have hsign : ∀ {a b : ℕ}, Nat.toDigits 10 a ≠ '-' :: Nat.toDigits 10 b := by
    intro a b hab
    have hminus := digits_toDigits a '-' (hab ▸ List.mem_cons_self)
    exact absurd hminus (by decide)
  rw [str_eq, str_eq] at h
  split at h
  · split at h
    · have := hdigits h
      omega
    · exact absurd h hsign
  · split at h
    · exact absurd h.symm hsign
    · have := hdigits (List.cons.inj h).2
      omega

theorem mem_str {n : ℤ} {c : Char} (h : c ∈ str n) : c = '-' ∨ c.isDigit = true := by
  rw [str_eq] at h
  split at h
  · exact .inr (digits_toDigits _ c h)
  · rcases List.mem_cons.1 h with h | h
    · exact .inl h
    · exact .inr (digits_toDigits _ c h)

theorem not_mem_str {n : ℤ} {c : Char} (hsign : c ≠ '-') (hdigit : c.isDigit = false) : c ∉ str n := by
  intro h
  rcases mem_str h with rfl | h
  · exact hsign rfl
  · rw [hdigit] at h
    cases h

theorem str_ne_nil (n : ℤ) : str n ≠ [] := by
  rw [str_eq]
  split
  · exact Nat.toDigits_ne_nil
  · exact List.cons_ne_nil _ _

/-! ## Fields -/

variable {lo hi : ℤ}

/-- A number is a valid item if it is in the range. -/
theorem validItem_str {n : ℤ} : ValidItem lo hi (str n) ↔ lo ≤ n ∧ n ≤ hi := by
  have hstar : '*' ∉ str n := not_mem_str (by decide) (by decide)
  constructor
  · rintro (h | ⟨k, -, h⟩ | ⟨k, hlo, hhi, h⟩)
    · exact absurd (h ▸ List.mem_cons_self) hstar
    · exact absurd (h ▸ List.mem_cons_self) hstar
    · rw [str_inj h]
      exact ⟨hlo, hhi⟩
  · rintro ⟨hlo, hhi⟩
    exact .inr (.inr ⟨n, hlo, hhi, rfl⟩)

/-- A field of one item. -/
theorem validField_item {item : List Char} (h : ',' ∉ item) :
    ValidField (lo, hi) item ↔ ValidItem lo hi item := by
  rw [ValidField, List.splitOn_eq_singleton h, List.forall_mem_singleton]

theorem validField_star : ValidField (lo, hi) ['*'] := (validField_item (by decide)).2 (.inl rfl)

theorem validField_zero : ValidField (lo, hi) ['0'] ↔ lo ≤ 0 ∧ 0 ≤ hi :=
  (validField_item (by decide)).trans (validItem_str (n := 0))

theorem validField_step {k : ℕ} (h : 1 ≤ k) : ValidField (lo, hi) (['*', '/'] ++ str k) := by
  refine (validField_item ?_).2 (.inr (.inl ⟨k, h, rfl⟩))
  simpa using not_mem_str (n := k) (c := ',') (by decide) (by decide)

theorem validField_numbers {xs : List ℤ} (h : xs ≠ []) :
    ValidField (lo, hi) ([','].intercalate (xs.map str)) ↔ ∀ v ∈ xs, lo ≤ v ∧ v ≤ hi := by
  have hcomma : ∀ l ∈ xs.map str, ',' ∉ l := by
    intro l hl
    obtain ⟨n, -, rfl⟩ := List.mem_map.1 hl
    exact not_mem_str (by decide) (by decide)
  rw [ValidField, List.splitOn_intercalate ',' hcomma (by simpa using h), List.forall_mem_map]
  simp only [validItem_str]

/-- The numbers are in the range of the field. -/
def InRange (unit : TimeUnit) (xs : List ℤ) : Prop := ∀ v ∈ xs, unit.range.1 ≤ v ∧ v ≤ unit.range.2

variable {offsets : Option (List ℤ)} {value : ℕ} {cs larger : List Char} {unit : TimeUnit}

/-- What a unit with an offset or a value becomes. -/
theorem field_eq_some (hne : offsets ≠ some []) (h : field offsets value = some cs) :
    (∃ xs, offsets = some xs ∧ xs ≠ [] ∧ cs = [','].intercalate (xs.map str)) ∨
      offsets = none ∧ 1 ≤ value ∧ cs = ['*', '/'] ++ str value := by
  cases offsets with
  | none =>
    refine .inr ⟨rfl, ?_⟩
    simp only [field, field.step] at h
    split at h
    · cases h
    · rename_i hvalue
      exact ⟨Nat.pos_of_ne_zero hvalue, (Option.some.inj h).symm⟩
  | some xs =>
    have hxs : xs ≠ [] := fun hnil => hne (congrArg some hnil)
    rw [field, if_neg hxs] at h
    exact .inl ⟨xs, rfl, hxs, (Option.some.inj h).symm⟩

theorem field_of_none : field none value = none ↔ value = 0 := by
  simp only [field, field.step]
  split
  · rename_i h
    simp [h]
  · rename_i h
    simp [h]

theorem offsets_of_field_eq_none (h : field offsets value = none) : offsets = none ∨ offsets = some [] := by
  cases offsets with
  | none => exact .inl rfl
  | some xs =>
    by_cases hxs : xs = []
    · exact .inr (congrArg some hxs)
    · rw [field, if_neg hxs] at h
      cases h

/-- Text without spaces. -/
def Solid (cs : List Char) : Prop := cs ≠ [] ∧ ∀ c ∈ cs, isSpace c = false

theorem mem_intercalate {sep c : Char} {ls : List (List Char)} (h : c ∈ [sep].intercalate ls) :
    c = sep ∨ ∃ l ∈ ls, c ∈ l := by
  induction ls with
  | nil => cases h
  | cons l ls ih =>
    cases ls with
    | nil =>
      rw [List.intercalate_singleton] at h
      exact .inr ⟨l, List.mem_cons_self, h⟩
    | cons l' ls =>
      rw [List.intercalate_cons_cons, List.mem_append, List.mem_append, List.mem_singleton] at h
      rcases h with (h | h) | h
      · exact .inr ⟨l, List.mem_cons_self, h⟩
      · exact .inl h
      · refine (ih h).imp_right ?_
        rintro ⟨l'', hl, hc⟩
        exact ⟨l'', List.mem_cons_of_mem _ hl, hc⟩

theorem intercalate_ne_nil {sep : Char} {l : List Char} {ls : List (List Char)} (h : l ≠ []) :
    [sep].intercalate (l :: ls) ≠ [] := by
  cases ls with
  | nil => rwa [List.intercalate_singleton]
  | cons l' ls =>
    rw [List.intercalate_cons_cons]
    simp

theorem Solid.field (hne : offsets ≠ some []) (h : Cron.field offsets value = some cs) : Solid cs := by
  have hstr : ∀ {n : ℤ} {c : Char}, c ∈ str n → isSpace c = false := by
    intro n c hc
    rcases mem_str hc with rfl | hc
    · rfl
    · exact not_isSpace_of_isDigit hc
  rcases field_eq_some hne h with ⟨xs, -, hxs, rfl⟩ | ⟨-, -, rfl⟩
  · refine ⟨?_, fun c hc => ?_⟩
    · obtain ⟨n, ns, rfl⟩ := List.exists_cons_of_ne_nil hxs
      exact intercalate_ne_nil (str_ne_nil n)
    · rcases mem_intercalate hc with rfl | ⟨l, hl, hc⟩
      · rfl
      · obtain ⟨n, -, rfl⟩ := List.mem_map.1 hl
        exact hstr hc
  · refine ⟨List.cons_ne_nil _ _, fun c hc => ?_⟩
    rcases List.mem_append.1 hc with hc | hc
    · rcases List.mem_pair.1 hc with rfl | rfl
      · rfl
      · rfl
    · exact hstr hc

theorem field_ne_star (hne : offsets ≠ some []) (h : field offsets value = some cs) : cs ≠ ['*'] := by
  rcases field_eq_some hne h with ⟨xs, -, hxs, rfl⟩ | ⟨-, -, rfl⟩
  · intro hstar
    have hmem : '*' ∈ [','].intercalate (xs.map str) := hstar ▸ List.mem_singleton_self _
    rcases mem_intercalate hmem with h | ⟨l, hl, hc⟩
    · cases h
    · obtain ⟨n, -, rfl⟩ := List.mem_map.1 hl
      exact not_mem_str (by decide) (by decide) hc
  · intro hstar
    cases hstar

theorem getD_field_eq_star (hne : offsets ≠ some []) :
    (field offsets value).getD ['*'] = ['*'] ↔ field offsets value = none := by
  cases h : field offsets value with
  | none => simp
  | some cs => simpa using field_ne_star hne h

theorem validField_field (hne : offsets ≠ some []) (h : field offsets value = some cs) :
    ValidField unit.range cs ↔ ∀ xs, offsets = some xs → InRange unit xs := by
  rcases field_eq_some hne h with ⟨xs, rfl, hxs, rfl⟩ | ⟨rfl, hvalue, rfl⟩
  · simp only [Option.some.injEq, forall_eq']
    exact validField_numbers hxs
  · exact iff_of_true (validField_step hvalue) (by simp)

/-- A field that is written after the larger unit is known. -/
theorem validField_below (hne : offsets ≠ some []) :
    ValidField unit.range (below larger ((field offsets value).getD ['*'])) ↔
      (∀ xs, offsets = some xs → InRange unit xs) ∧
        (field offsets value = none → larger ≠ ['*'] → unit.range.1 ≤ 0) := by
  cases h : field offsets value with
  | some cs =>
    rw [Option.getD_some, below, if_neg fun hstar => field_ne_star hne h hstar.2,
      validField_field hne h]
    simp
  | none =>
    obtain rfl := (offsets_of_field_eq_none h).resolve_right hne
    rw [Option.getD_none, below]
    have hhi : 0 ≤ unit.range.2 := by
      cases unit <;> decide
    by_cases hl : larger = ['*']
    · rw [if_neg fun hstar => hstar.1 hl]
      exact iff_of_true validField_star (by simp [hl])
    · rw [if_pos ⟨hl, rfl⟩, validField_zero]
      simp [hl, hhi]

/-! ## The expression -/

variable {v : TimeValues} {offsetsOf : TimeUnit → Option (List ℤ)}

/-- The value of a unit; seconds that are not mentioned are none. -/
def TimeValues.get (v : TimeValues) : TimeUnit → ℕ
  | .seconds => v.seconds.getD 0
  | .minutes => v.minutes
  | .hours => v.hours
  | .days => v.days
  | .weeks => v.weeks
  | .months => v.months

/-- The field of a unit, before the overflow. -/
def unitField (v : TimeValues) (offsetsOf : TimeUnit → Option (List ℤ)) (unit : TimeUnit) :
    List Char := (field (offsetsOf unit) (v.get unit)).getD ['*']

/-- The fields that are always there. -/
def fiveFields (v : TimeValues) (offsetsOf : TimeUnit → Option (List ℤ)) : List (List Char) :=
  [below (unitField v offsetsOf .hours) (unitField v offsetsOf .minutes),
    below (unitField v offsetsOf .days) (unitField v offsetsOf .hours),
    below (unitField v offsetsOf .weeks) (unitField v offsetsOf .days),
    unitField v offsetsOf .months,
    below (unitField v offsetsOf .months) (unitField v offsetsOf .weeks)]

def fieldsOf (v : TimeValues) (offsetsOf : TimeUnit → Option (List ℤ)) : List (List Char) :=
  fiveFields v offsetsOf ++ (field (offsetsOf .seconds) (v.get .seconds)).toList

/-- A text that begins and ends without space. -/
theorem strip_eq_self {a b : List Char} (ha : Solid a) (hbegin : a <+: cs) (hb : Solid b)
    (hend : b <:+ cs) : strip cs = cs := by
  have hfirst : cs.dropWhile isSpace = cs := by
    obtain ⟨c, a, rfl⟩ := List.exists_cons_of_ne_nil ha.1
    obtain ⟨rest, rfl⟩ := hbegin
    have hc : isSpace c = false := ha.2 c List.mem_cons_self
    rw [List.cons_append, List.dropWhile_cons_of_neg (by simp [hc])]
  rw [strip, hfirst, List.rdropWhile_eq_self_iff]
  intro hne
  obtain ⟨init, rfl⟩ := hend
  rw [List.getLast_append_of_ne_nil hne hb.1]
  simp [hb.2 _ (List.getLast_mem hb.1)]

theorem Solid.unitField (hne : ∀ u, offsetsOf u ≠ some []) (u : TimeUnit) :
    Solid (unitField v offsetsOf u) := by
  unfold Cron.unitField
  cases h : Cron.field (offsetsOf u) (v.get u) with
  | none => exact ⟨List.cons_ne_nil _ _, List.forall_mem_singleton.2 rfl⟩
  | some cs => exact Solid.field (hne u) h

theorem Solid.below {larger : List Char} (h : Solid cs) : Solid (below larger cs) := by
  unfold Cron.below
  split
  · exact ⟨List.cons_ne_nil _ _, List.forall_mem_singleton.2 rfl⟩
  · exact h

theorem solid_of_mem_fiveFields (hne : ∀ u, offsetsOf u ≠ some []) {f : List Char}
    (h : f ∈ fiveFields v offsetsOf) : Solid f := by
  simp only [fiveFields, List.mem_cons, List.not_mem_nil, or_false] at h
  rcases h with rfl | rfl | rfl | rfl | rfl
  · exact (Solid.unitField hne _).below
  · exact (Solid.unitField hne _).below
  · exact (Solid.unitField hne _).below
  · exact Solid.unitField hne _
  · exact (Solid.unitField hne _).below

theorem solid_of_mem_fieldsOf (hne : ∀ u, offsetsOf u ≠ some []) {f : List Char}
    (h : f ∈ fieldsOf v offsetsOf) : Solid f := by
  rcases List.mem_append.1 h with h | h
  · exact solid_of_mem_fiveFields hne h
  · exact Solid.field (hne .seconds) (Option.mem_toList.1 h)

/-- Fields with a space between them are not stripped. -/
theorem strip_intercalate {f : List Char} {fs : List (List Char)} (h : ∀ l ∈ f :: fs, Solid l) :
    strip ([' '].intercalate (f :: fs)) = [' '].intercalate (f :: fs) := by
  have hbegin : f <+: [' '].intercalate (f :: fs) := by
    cases fs with
    | nil => rw [List.intercalate_singleton]
    | cons g fs =>
      rw [List.intercalate_cons_cons, List.append_assoc]
      exact List.prefix_append _ _
  obtain ⟨l, hl, hend⟩ : ∃ l ∈ f :: fs, l <:+ [' '].intercalate (f :: fs) := by
    clear h hbegin
    induction fs generalizing f with
    | nil => exact ⟨f, List.mem_cons_self, by rw [List.intercalate_singleton]⟩
    | cons g fs ih =>
      obtain ⟨l, hl, hend⟩ := @ih g
      refine ⟨l, List.mem_cons_of_mem _ hl, ?_⟩
      rw [List.intercalate_cons_cons]
      exact hend.trans (List.suffix_append _ _)
  exact strip_eq_self (h f List.mem_cons_self) hbegin (h l hl) hend

/-- Nothing is stripped: the text has the fields, with a space between them. -/
theorem cronExpression_eq (hne : ∀ u, offsetsOf u ≠ some []) :
    cronExpression v offsetsOf = [' '].intercalate (fieldsOf v offsetsOf) := by
  have hstrip : strip ([' '].intercalate (fieldsOf v offsetsOf)) =
      [' '].intercalate (fieldsOf v offsetsOf) :=
    strip_intercalate fun l hl => solid_of_mem_fieldsOf (v := v) hne hl
  have hget : v.seconds.getD 0 = v.get .seconds := rfl
  rw [← hstrip, cronExpression, fieldsOf, fiveFields, hget]
  cases field (offsetsOf .seconds) (v.get .seconds) with
  | none =>
    refine congrArg strip ?_
    simp only [Option.toList_none, List.append_nil, List.intercalate_cons_cons,
      List.intercalate_singleton, List.append_assoc]
    rfl
  | some seconds =>
    refine congrArg strip ?_
    simp only [Option.toList_some, List.cons_append, List.nil_append, List.intercalate_cons_cons,
      List.intercalate_singleton, List.append_assoc]
    rfl

/-- The fields are found again in the text. -/
theorem splitOn_cronExpression (hne : ∀ u, offsetsOf u ≠ some []) :
    (cronExpression v offsetsOf).splitOn ' ' = fieldsOf v offsetsOf := by
  rw [cronExpression_eq hne]
  refine List.splitOn_intercalate ' ' (fun f hf hspace => ?_) (by simp [fieldsOf, fiveFields])
  have hsolid := (solid_of_mem_fieldsOf hne hf).2 ' ' hspace
  exact absurd hsolid (by decide)

theorem forall_unit {P : TimeUnit → Prop} : (∀ u, P u) ↔
    P .minutes ∧ P .hours ∧ P .days ∧ P .months ∧ P .weeks ∧ P .seconds := by
  constructor
  · intro h
    exact ⟨h _, h _, h _, h _, h _, h _⟩
  · rintro ⟨hmi, hh, hd, hmo, hw, hs⟩ u
    cases u with
    | seconds => exact hs
    | minutes => exact hmi
    | hours => exact hh
    | days => exact hd
    | weeks => exact hw
    | months => exact hmo

/-- A unit whose field may be `0`. -/
theorem validField_of_zero (hne : ∀ u, offsetsOf u ≠ some []) {u : TimeUnit} (hu : u.range.1 ≤ 0)
    (larger : List Char) : ValidField u.range (below larger (unitField v offsetsOf u)) ↔
      ∀ xs, offsetsOf u = some xs → InRange u xs := by
  rw [unitField, validField_below (hne u)]
  exact and_iff_left fun _ _ => hu

theorem validField_months (hne : ∀ u, offsetsOf u ≠ some []) :
    ValidField TimeUnit.months.range (unitField v offsetsOf .months) ↔
      ∀ xs, offsetsOf .months = some xs → InRange .months xs := by
  have hbelow : below ['*'] (unitField v offsetsOf .months) = unitField v offsetsOf .months :=
    if_neg fun h => h.1 rfl
  rw [← hbelow, unitField, validField_below (hne .months)]
  exact and_iff_left fun _ h => absurd rfl h

/-- There is no day `0`. -/
theorem validField_days (hne : ∀ u, offsetsOf u ≠ some []) :
    ValidField TimeUnit.days.range (below (unitField v offsetsOf .weeks) (unitField v offsetsOf .days)) ↔
      (∀ xs, offsetsOf .days = some xs → InRange .days xs) ∧
        (field (offsetsOf .weeks) v.weeks ≠ none → field (offsetsOf .days) v.days ≠ none) := by
  have hstar : unitField v offsetsOf .weeks ≠ ['*'] ↔ field (offsetsOf .weeks) v.weeks ≠ none :=
    not_congr (getD_field_eq_star (hne .weeks))
  have hdays : unitField v offsetsOf .days = (field (offsetsOf .days) v.days).getD ['*'] := rfl
  rw [hdays, validField_below (hne .days), hstar]
  refine and_congr_right fun _ => ⟨fun h hweeks hnone => ?_, fun h hnone hweeks => ?_⟩
  · exact absurd (h hnone hweeks) (by decide)
  · exact absurd hnone (h hweeks)

/-- **When the text is a cron expression**: the offsets are in their ranges, and with weeks there are
days. -/
theorem validCron_iff (hne : ∀ u, offsetsOf u ≠ some []) :
    ValidCron (String.ofList (cronExpression v offsetsOf)) ↔
      (∀ u xs, offsetsOf u = some xs → InRange u xs) ∧
        (field (offsetsOf .weeks) v.weeks ≠ none → field (offsetsOf .days) v.days ≠ none) := by
  have hminutes := validField_of_zero (v := v) hne (show TimeUnit.minutes.range.1 ≤ 0 from le_rfl)
  have hhours := validField_of_zero (v := v) hne (show TimeUnit.hours.range.1 ≤ 0 from le_rfl)
  have hweeks := validField_of_zero (v := v) hne (show TimeUnit.weeks.range.1 ≤ 0 from le_rfl)
  rw [ValidCron, String.toList_ofList, splitOn_cronExpression hne, forall_unit, fieldsOf]
  cases h : field (offsetsOf .seconds) (v.get .seconds) with
  | none =>
    have hseconds := (offsets_of_field_eq_none h).resolve_right (hne .seconds)
    simp only [fiveFields, ranges, Option.toList_none, List.append_nil, List.length_cons,
      List.length_nil, List.map_cons, List.map_nil, List.take_succ_cons, List.take_zero,
      List.forall₂_cons, List.Forall₂.nil, hminutes, hhours, hweeks, validField_months hne,
      validField_days hne, hseconds, reduceCtorEq]
    tauto
  | some seconds =>
    have hseconds : ValidField TimeUnit.seconds.range seconds ↔ _ := validField_field (hne .seconds) h
    simp only [fiveFields, ranges, Option.toList_some, List.cons_append, List.nil_append,
      List.length_cons, List.length_nil, List.map_cons, List.map_nil, List.take_succ_cons,
      List.take_zero, List.forall₂_cons, List.Forall₂.nil, hminutes, hhours, hweeks,
      validField_months hne, validField_days hne, hseconds]
    tauto

end Kvdb.Cron
