import Mathlib.Data.List.Basic
import Mathlib.Logic.Function.Basic

/-!
# Regular expressions with groups

Patterns as a backtracking matcher takes them: `run` has all ways to match at the beginning of a text,
the preferred one first, each with the texts of the groups. `findAll` goes through a text and takes
the first match at every place, as `re.findall` does.

The `mem_run_*` lemmas say what a match is, without its place in the order.
-/

namespace Lib.Regex

inductive Pattern
  | char (p : Char → Bool)
  /-- `p+`. -/
  | many (p : Char → Bool)
  | text (cs : List Char)
  | seq (r s : Pattern)
  | alt (r s : Pattern)
  /-- `r?`. -/
  | optional (r : Pattern)
  | group (k : ℕ) (r : Pattern)

/-- The numbers of its groups. -/
def Pattern.numbers : Pattern → List ℕ
  | .char _ => []
  | .many _ => []
  | .text _ => []
  | .seq r s => r.numbers ++ s.numbers
  | .alt r s => r.numbers ++ s.numbers
  | .optional r => r.numbers
  | .group k r => k :: r.numbers

/-- The texts of the groups; a group that has not matched has none. -/
abbrev Groups := ℕ → List Char

structure Match where
  rest : List Char
  groups : Groups := fun _ => []

/-- What can be left after `p+`, the longest match first. -/
def afterMany (p : Char → Bool) : List Char → List (List Char)
  | [] => []
  | c :: cs => if p c then afterMany p cs ++ [cs] else []

def afterText : List Char → List Char → Option (List Char)
  | [], cs => some cs
  | _ :: _, [] => none
  | d :: ds, c :: cs => if d = c then afterText ds cs else none

/-- The matches from a place on, in the order in which they are tried. -/
def run : Pattern → Match → List Match
  | .char p, m =>
    match m.rest with
    | [] => []
    | c :: cs => if p c then [{ m with rest := cs }] else []
  | .many p, m => (afterMany p m.rest).map fun cs => { m with rest := cs }
  | .text ds, m => (afterText ds m.rest).toList.map fun cs => { m with rest := cs }
  | .seq r s, m => (run r m).flatMap (run s)
  | .alt r s, m => run r m ++ run s m
  | .optional r, m => run r m ++ [m]
  | .group k r, m => (run r m).map fun m' =>
      { m' with groups :=
          Function.update m'.groups k (m.rest.take (m.rest.length - m'.rest.length)) }

/-- The first match at a place. -/
def first (r : Pattern) (cs : List Char) : Option Match := (run r { rest := cs }).head?

/-- The groups of the matches, after some characters that are skipped. The pattern is one that matches
no empty text. -/
def findAllFrom (r : Pattern) : ℕ → List Char → List Groups
  | _, [] => []
  | k + 1, _ :: cs => findAllFrom r k cs
  | 0, c :: cs =>
    match first r (c :: cs) with
    | none => findAllFrom r 0 cs
    | some m => m.groups :: findAllFrom r (cs.length - m.rest.length) cs

/-- `re.findall`. -/
def findAll (r : Pattern) (cs : List Char) : List Groups := findAllFrom r 0 cs

/-! ## Matches -/

variable {p : Char → Bool} {r s : Pattern} {m m' : Match} {cs ds rest : List Char}

theorem mem_afterMany : rest ∈ afterMany p cs ↔
    ∃ w, w ≠ [] ∧ (∀ c ∈ w, p c = true) ∧ cs = w ++ rest := by
  induction cs with
  | nil => simp [afterMany]
  | cons c cs ih =>
    unfold afterMany
    by_cases hc : p c = true
    · rw [if_pos hc, List.mem_append, ih, List.mem_singleton]
      constructor
      · rintro (⟨w, -, hw, rfl⟩ | rfl)
        · exact ⟨c :: w, List.cons_ne_nil c w, List.forall_mem_cons.2 ⟨hc, hw⟩, rfl⟩
        · exact ⟨[c], List.cons_ne_nil c [], List.forall_mem_singleton.2 hc, rfl⟩
      · rintro ⟨w, hne, hw, heq⟩
        obtain ⟨d, w, rfl⟩ := List.exists_cons_of_ne_nil hne
        obtain ⟨rfl, rfl⟩ := List.cons.inj heq
        obtain ⟨-, hw⟩ := List.forall_mem_cons.1 hw
        cases w with
        | nil => exact .inr rfl
        | cons e w => exact .inl ⟨e :: w, List.cons_ne_nil e w, hw, rfl⟩
    · rw [if_neg hc]
      constructor
      · intro h
        cases h
      · rintro ⟨w, hne, hw, heq⟩
        obtain ⟨d, w, rfl⟩ := List.exists_cons_of_ne_nil hne
        obtain ⟨rfl, -⟩ := List.cons.inj heq
        exact absurd (hw c List.mem_cons_self) hc

theorem afterText_eq_some : afterText ds cs = some rest ↔ cs = ds ++ rest := by
  induction ds generalizing cs with
  | nil => simp [afterText]
  | cons d ds ih =>
    cases cs with
    | nil => simp [afterText]
    | cons c cs =>
      unfold afterText
      by_cases hd : d = c
      · rw [if_pos hd, ih, hd, List.cons_append, List.cons_inj_right]
      · rw [if_neg hd]
        simp [Ne.symm hd]

theorem mem_run_char : m' ∈ run (.char p) m ↔
    ∃ c cs, m.rest = c :: cs ∧ p c = true ∧ m' = { m with rest := cs } := by
  unfold run
  cases m.rest with
  | nil => simp
  | cons c cs =>
    by_cases hc : p c = true
    · simp [hc]
    · simp [hc]

theorem mem_run_many : m' ∈ run (.many p) m ↔
    ∃ w rest, w ≠ [] ∧ (∀ c ∈ w, p c = true) ∧ m.rest = w ++ rest ∧ m' = { m with rest } := by
  rw [run, List.mem_map]
  constructor
  · rintro ⟨rest, hrest, rfl⟩
    obtain ⟨w, hne, hw, heq⟩ := mem_afterMany.1 hrest
    exact ⟨w, rest, hne, hw, heq, rfl⟩
  · rintro ⟨w, rest, hne, hw, heq, rfl⟩
    exact ⟨rest, mem_afterMany.2 ⟨w, hne, hw, heq⟩, rfl⟩

theorem mem_run_text : m' ∈ run (.text ds) m ↔
    ∃ rest, m.rest = ds ++ rest ∧ m' = { m with rest } := by
  simp only [run, List.mem_map, Option.mem_toList, afterText_eq_some,
    eq_comm (a := m')]

theorem mem_run_seq : m' ∈ run (.seq r s) m ↔ ∃ m₁ ∈ run r m, m' ∈ run s m₁ := List.mem_flatMap

theorem mem_run_alt : m' ∈ run (.alt r s) m ↔ m' ∈ run r m ∨ m' ∈ run s m := List.mem_append

theorem mem_run_optional : m' ∈ run (.optional r) m ↔ m' ∈ run r m ∨ m' = m := by
  rw [run, List.mem_append, List.mem_singleton]

theorem mem_run_group {k : ℕ} : m' ∈ run (.group k r) m ↔ ∃ m₁ ∈ run r m,
    m' = { m₁ with groups :=
      Function.update m₁.groups k (m.rest.take (m.rest.length - m₁.rest.length)) } := by
  simp only [run, List.mem_map, eq_comm]

/-- What a group has matched. -/
theorem take_of_append {w : List Char} (h : cs = w ++ rest) : cs.take (cs.length - rest.length) = w := by
  rw [h, List.length_append, Nat.add_sub_cancel_right, List.take_left']
  rfl

/-- A pattern sets only its own groups. -/
theorem groups_of_mem_run {k : ℕ} (h : m' ∈ run r m) (hk : k ∉ r.numbers) :
    m'.groups k = m.groups k := by
  induction r generalizing m m' with
  | char p =>
    obtain ⟨c, cs, -, -, rfl⟩ := mem_run_char.1 h
    rfl
  | many p =>
    obtain ⟨w, rest, -, -, -, rfl⟩ := mem_run_many.1 h
    rfl
  | text ds =>
    obtain ⟨rest, -, rfl⟩ := mem_run_text.1 h
    rfl
  | seq r s ihr ihs =>
    obtain ⟨hr, hs⟩ := not_or.1 (mt List.mem_append.2 hk)
    obtain ⟨m₁, h₁, h⟩ := mem_run_seq.1 h
    rw [ihs h hs, ihr h₁ hr]
  | alt r s ihr ihs =>
    obtain ⟨hr, hs⟩ := not_or.1 (mt List.mem_append.2 hk)
    rcases mem_run_alt.1 h with h | h
    · exact ihr h hr
    · exact ihs h hs
  | optional r ih =>
    rcases mem_run_optional.1 h with h | rfl
    · exact ih h hk
    · rfl
  | group j r ih =>
    obtain ⟨hj, hr⟩ := not_or.1 (mt List.mem_cons.2 hk)
    obtain ⟨m₁, h₁, rfl⟩ := mem_run_group.1 h
    rw [← ih h₁ hr]
    exact Function.update_of_ne hj _ _

/-- What is found has been matched somewhere. -/
theorem mem_findAll {g : Groups} (h : g ∈ findAll r cs) :
    ∃ ds, ∃ m ∈ run r { rest := ds }, m.groups = g := by
  suffices hfrom : ∀ k, g ∈ findAllFrom r k cs → ∃ ds, ∃ m ∈ run r { rest := ds }, m.groups = g from
    hfrom 0 h
  clear h
  induction cs with
  | nil =>
    intro k h
    cases k <;> cases h
  | cons c cs ih =>
    intro k h
    cases k with
    | succ k => exact ih k h
    | zero =>
      unfold findAllFrom at h
      cases hfirst : first r (c :: cs) with
      | none =>
        rw [hfirst] at h
        exact ih 0 h
      | some m =>
        rw [hfirst] at h
        rcases List.mem_cons.1 h with rfl | h
        · exact ⟨c :: cs, m, List.mem_of_head? hfirst, rfl⟩
        · exact ih _ h

end Lib.Regex
