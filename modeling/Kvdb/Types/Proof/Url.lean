import Kvdb.Types.Url

/-!
# `with_db_id` sets the database

* `replace_last`: the number is found at the end of the path and nowhere else.
* `withDbId_sets_iff`: the database is set and nothing else, exactly for the URLs with a host whose
  path is not a slash alone.
-/

namespace Kvdb.DbUrl

open Lib Python ConnectionUrl

/-! ## Reading numbers -/

theorem intDigits_of_digits {cs : List Char} (h : Digits cs) (n : ℕ) :
    intDigits (some n) cs = some (Nat.ofDigitChars 10 cs n) := by
  induction cs generalizing n with
  | nil => rfl
  | cons c cs ih =>
    have hc : c.isDigit = true := h c List.mem_cons_self
    have hne : c ≠ '_' := fun he => by
      rw [he] at hc
      exact absurd hc (by decide)
    rw [Nat.ofDigitChars_cons, intDigits, if_pos hc]
    · exact ih (fun c hm => h c (List.mem_cons_of_mem _ hm)) _
    · exact fun _ _ _ _ he => absurd he hne

theorem pyInt_of_digits {cs : List Char} (h : Digits cs) (hne : cs ≠ []) :
    pyInt cs = some (Nat.ofDigitChars 10 cs 0 : ℕ) := by
  cases cs with
  | nil => exact absurd rfl hne
  | cons c cs =>
    have hc : c.isDigit = true := h c List.mem_cons_self
    have hsign : c ≠ '-' ∧ c ≠ '+' := by
      constructor <;>
      · intro he
        rw [he] at hc
        exact absurd hc (by decide)
    have hread : intDigits none (c :: cs) = some (Nat.ofDigitChars 10 (c :: cs) 0) := by
      rw [Nat.ofDigitChars_cons, intDigits, if_pos hc]
      · exact intDigits_of_digits (fun c hm => h c (List.mem_cons_of_mem _ hm)) _
      · exact fun _ _ _ he _ => by cases he
    rw [pyInt, hread]
    · rfl
    · exact fun _ he => hsign.1 (List.cons.inj he).1
    · exact fun _ he => hsign.2 (List.cons.inj he).1

/-- The database in a path of digits. -/
theorem dbId_of_path {u : Url} {digits : List Char} (hu : u.path = some (String.ofList ('/' :: digits)))
    (h : Digits digits) (hne : digits ≠ []) :
    u.dbId = .ok (Nat.ofDigitChars 10 digits 0 : ℕ) := by
  unfold KvdbUrl.dbId
  rw [hu]
  simp only [String.toList_ofList, List.drop_one, List.tail_cons]
  rw [pyInt_of_digits h hne]
  rfl

/-! ## The new path -/

theorem replace_all {α : Type*} [DecidableEq α] {old : List α} (new : List α) (h : old ≠ [])
    (xs : List α) : replace old new xs.length xs = [] := by
  induction xs with
  | nil => exact if_neg h
  | cons x xs ih => exact ih

/-- What is at the end and begins with something that is nowhere before. -/
theorem replace_last {α : Type*} [DecidableEq α] {c : α} {cs before : List α} (new : List α)
    (h : c ∉ before) : replace (c :: cs) new 0 (before ++ c :: cs) = before ++ new := by
  induction before with
  | nil =>
    rw [List.nil_append, replace, if_neg (List.cons_ne_nil c cs), if_pos List.prefix_rfl,
      List.length_cons, Nat.add_sub_cancel, replace_all new (List.cons_ne_nil c cs),
      List.append_nil, List.nil_append]
  | cons x before ih =>
    have hpre : ¬ (c :: cs) <+: x :: (before ++ c :: cs) := fun hp =>
      List.ne_of_not_mem_cons h (List.cons_prefix_cons.1 hp).1
    rw [List.cons_append, replace, if_neg (List.cons_ne_nil c cs), if_neg hpre,
      ih (List.not_mem_of_not_mem_cons h)]
    rfl

/-- No slash is at the left of digits. -/
theorem dropWhile_of_digits {cs : List Char} (h : Digits cs) :
    cs.dropWhile (fun c => decide (c = '/')) = cs := by
  cases cs with
  | nil => rfl
  | cons c cs =>
    refine List.dropWhile_cons_of_neg ?_
    intro he
    have hc := h c List.mem_cons_self
    rw [of_decide_eq_true he] at hc
    exact absurd hc (by decide)

theorem newPath_of_path {u : Url} (hu : PathOfDb u) (hne : u.path ≠ some "/") (n : ℕ) :
    ∃ path, newPath u n = .ok path ∧ Digits path ∧ path ≠ [] ∧ Nat.ofDigitChars 10 path 0 = n := by
  have hn : ∃ path, intText n = path ∧ Digits path ∧ path ≠ [] ∧ Nat.ofDigitChars 10 path 0 = n :=
    ⟨_, rfl, digits_toDigits n, Nat.toDigits_ne_nil, Nat.ofDigitChars_ten_toDigits⟩
  unfold newPath
  cases hp : u.path with
  | none =>
    obtain ⟨path, ht, hrest⟩ := hn
    exact ⟨path, congrArg Except.ok ht, hrest⟩
  | some path =>
    obtain ⟨digits, hd, rfl⟩ := hu path hp
    have hdigits : digits ≠ [] := by
      rintro rfl
      exact hne hp
    have hslash : String.ofList ('/' :: digits) ≠ "" := fun he => by
      have hlist := congrArg String.toList he
      rw [String.toList_ofList] at hlist
      cases hlist
    simp only [if_neg hslash, dbId_of_path hp hd hdigits]
    show ∃ path, Except.ok _ = Except.ok path ∧ _
    by_cases h0 : Nat.ofDigitChars 10 digits 0 = 0
    · obtain ⟨path, ht, hrest⟩ := hn
      refine ⟨path, ?_, hrest⟩
      rw [if_pos (by exact_mod_cast h0), ht]
    · -- the zeros before the number stay
      obtain ⟨k, c, ds, hsplit, hc, hw⟩ := exists_zeros_append hd h0
      have hnot : c ∉ '/' :: List.replicate k '0' := by
        intro hm
        rcases List.mem_cons.1 hm with rfl | hm
        · exact absurd (hd '/' (hsplit ▸ List.mem_append_right _ List.mem_cons_self)) (by decide)
        · exact hc (List.eq_of_mem_replicate hm)
      have hpath : (String.ofList ('/' :: digits)).toList =
          ('/' :: List.replicate k '0') ++ c :: ds := by
        rw [String.toList_ofList, hsplit, List.cons_append]
      have hold : intText (Nat.ofDigitChars 10 digits 0 : ℕ) = c :: ds := hw
      have hdigit : Digits (List.replicate k '0' ++ Nat.toDigits 10 n) :=
        digits_append (digits_replicate_zero k) (digits_toDigits n)
      refine ⟨List.replicate k '0' ++ Nat.toDigits 10 n, ?_, hdigit, ?_, ?_⟩
      · rw [if_neg (by exact_mod_cast h0), hold, hpath, replace_last _ hnot, List.cons_append,
          List.dropWhile_cons_of_pos (by decide)]
        exact congrArg Except.ok (dropWhile_of_digits hdigit)
      · exact fun he => Nat.toDigits_ne_nil (List.append_eq_nil_iff.1 he).2
      · rw [Nat.ofDigitChars_append, Nat.ofDigitChars_replicate_zero, Nat.mul_zero,
          Nat.ofDigitChars_ten_toDigits]

/-! ## The result -/

theorem withDbId_sets_iff (L : UrlLib) {u : Url} (hu : PathOfDb u) (n : ℕ) :
    SetsDb u n (withDbId L u n) ↔ u.path ≠ some "/" ∧ u.host.isSome := by
  constructor
  · rintro ⟨v, hv, -, -⟩
    constructor
    · intro hp
      have herr : newPath u n = .error .valueError := by
        unfold newPath KvdbUrl.dbId
        rw [hp]
        rfl
      unfold withDbId at hv
      rw [herr] at hv
      cases hv
    · by_contra hh
      have hnone : u.host = none := by simpa using hh
      unfold withDbId at hv
      cases hp : newPath u n with
      | error e =>
        rw [hp] at hv
        cases hv
      | ok path =>
        rw [hp] at hv
        have herr := L.build_host { u with path := some (String.ofList path) } hnone
        exact absurd (herr.symm.trans hv) (by simp)
  · rintro ⟨hne, hh⟩
    obtain ⟨path, hp, hd, hnil, hn⟩ := newPath_of_path hu hne n
    refine ⟨{ u with path := some (String.ofList ('/' :: path)) }, ?_, ?_, rfl⟩
    · unfold withDbId
      rw [hp]
      exact L.build_parse u path hh hd
    · exact hn ▸ dbId_of_path rfl hd hnil

/-- `redis://localhost` with a path and a fragment. -/
def localUrl (path : String) : Url where
  scheme := "redis"
  host := some "localhost"
  path := some path
  fragment := some "part"

/-- With a slash and no number there is no database to replace. -/
theorem withDbId_sets_broken :
    PathOfDb (localUrl "/") ∧ ∀ L, ¬ SetsDb (localUrl "/") 3 (withDbId L (localUrl "/") 3) := by
  have hu : PathOfDb (localUrl "/") := by
    intro path hp
    obtain rfl := Option.some.inj hp
    exact ⟨[], fun c hc => absurd hc List.not_mem_nil, rfl⟩
  refine ⟨hu, fun L h => ?_⟩
  obtain ⟨v, hv, -⟩ := h
  cases hv

/-- `build` on the parts. -/
def slashBefore : UrlLib where
  build u :=
    if u.host = none then .error .typeError
    else .ok { u with path := u.path.map fun path => String.ofList ('/' :: path.toList) }
  build_parse u path hh _ := by
    have hne : u.host ≠ none := fun he => by rw [he] at hh; cases hh
    rw [if_neg hne, Option.map_some, String.toList_ofList]
  build_host u hh := if_pos hh

/-- From database 11 to database 2; the zero before the number stays. -/
theorem withDbId_sets_eleven :
    (withDbId slashBefore (localUrl "/011") 2).toOption.bind (·.path) = some "/02" ∧
      SetsDb (localUrl "/011") 2 (withDbId slashBefore (localUrl "/011") 2) := by
  have hu : PathOfDb (localUrl "/011") := by
    intro path hp
    obtain rfl := Option.some.inj hp
    exact ⟨['0', '1', '1'], by decide, rfl⟩
  exact ⟨by decide, (withDbId_sets_iff slashBefore hu 2).2 ⟨by decide, rfl⟩⟩

end Kvdb.DbUrl
