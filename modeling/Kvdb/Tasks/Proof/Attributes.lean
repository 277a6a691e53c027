import Kvdb.Tasks.Attributes

/-!
# When worker attributes match as they are to

* `getComparison_iff`: the comparison of one attribute is right exactly where `Agrees` holds.
* `determineMatch_eq`: with comparisons that are right, the match is right but for the thresholds.
* `matches_iff`: both together.
-/

namespace Kvdb.WorkerAttributes

open Lib Python

variable {β : Type} (R : Runtime β)

/-! ## Where comparisons are right -/

/-- A text that is compared by `op`. -/
def TextAgrees (op : Operator) (source : Value β) (rest : List Char) : Prop :=
  match source with
  | .bool _ | .int _ | .float _ => (readFloat R.toCharTables rest).isSome
  | .str w =>
    if isNumeric R.toCharTables rest then op = .ne ∧ (readFloat R.toCharTables rest).isSome
    else (readFloat R.toCharTables rest).isSome →
      match op with
      | .order o => o.onTexts w rest = false
      | _ => w ≠ rest
  | .none | .list .. =>
    op = .ne ∧ (isNumeric R.toCharTables rest → (readFloat R.toCharTables rest).isSome)
  | .other _ => ∃ operand, takeNumeric R rest = .ok operand ∧
      applyOperator R op source operand =
        .ok (applyOperator R op source (asRead R rest) = .ok true)

/-- A text that is to be in the worker's value. -/
def InAgrees (source : Value β) (rest : List Char) : Prop :=
  match source with
  | .str _ => isNumeric R.toCharTables rest = false
  | .list .. => isNumeric R.toCharTables rest → (readFloat R.toCharTables rest).isSome
  | .other _ => ∃ operand, takeNumeric R rest = .ok operand ∧
      (R.apply .contains source operand).isOk
  | _ => False

/-- The worker's value is compared with what the function requires as it is to be. -/
def Agrees (source target : Value β) : Prop :=
  match target with
  | .bool b =>
    match source with
    | .other o => R.apply (.order .gt) (.other o) (.bool b) = .ok (R.truthy o == b)
    | _ => ∃ x, source.number? = some x ∧
        if b then x.eq (.finite 0) ∨ (Number.finite 1).lt x else ¬ (Number.finite 0).le x
  | .list _ xs =>
    match source with
    | .list .. | .other _ => True
    | _ => ∀ x ∈ xs, source.eq R x = false
  | .str s =>
    match splitText R.toCharTables s with
    | (.contains, rest) => InAgrees R source rest
    | (.eq, rest) => isNumeric R.toCharTables rest ∨ source.number?.isSome →
        (readFloat R.toCharTables rest).isSome
    | (op, rest) => TextAgrees R op source rest
  | .int _ | .float _ =>
    match source with
    | .other o => (R.apply (.order .gt) (.other o) target).isOk
    | _ => source.number?.isSome
  | .none => source.number? = none
  | .other o => source.number?.isSome → (R.float o).isOk

theorem eq_ok_decide_iff {ε : Type} [DecidableEq ε] {r : Except ε Bool} :
    r = .ok (r = .ok true) ↔ r.isOk := by
  cases r with
  | error e => simp [Except.isOk, Except.toBool]
  | ok b => cases b <;> simp [Except.isOk, Except.toBool]

variable {R} {source target : Value β} {s : List Char}

theorem getComparison_of_dispatch {op : Operator} {a b : Value β}
    (h : dispatch R source target = .ok (op, a, b)) :
    getComparison R source target =
      ((if a.number?.isSome && b.number?.isNone then b.toFloat R else .ok b) >>=
        applyOperator R op a) := by
  unfold getComparison
  rw [h]
  show (if (a.number?.isSome && b.number?.isNone) = true then b.toFloat R >>= applyOperator R op a
    else applyOperator R op a b) = _
  split <;> rfl

theorem getComparison_of_error {e : Fault} (h : dispatch R source target = .error e) :
    getComparison R source target = .error e := by
  unfold getComparison
  rw [h]
  rfl

/-- A text is read as a number for a worker's number, numeric or not. -/
theorem getComparison_str_number (h : source.number?.isSome) :
    getComparison R source (.str s) =
      (readFloat R.toCharTables (splitText R.toCharTables s).2).elim (.error .valueError)
        fun x => applyOperator R (splitText R.toCharTables s).1 source (.float x) := by
  by_cases hn : isNumeric R.toCharTables (splitText R.toCharTables s).2
  · cases hx : readFloat R.toCharTables (splitText R.toCharTables s).2 with
    | none =>
      refine getComparison_of_error ?_
      simp only [dispatch, takeNumeric, if_pos hn, Value.toFloat, hx]
      rfl
    | some x =>
      have hd : dispatch R source (.str s) =
          .ok ((splitText R.toCharTables s).1, source, .float x) := by
        simp only [dispatch, takeNumeric, if_pos hn, Value.toFloat, hx]
        rfl
      rw [getComparison_of_dispatch hd, if_neg (by simp [Value.number?])]
      rfl
  · have hd : dispatch R source (.str s) = .ok ((splitText R.toCharTables s).1, source,
        .str (splitText R.toCharTables s).2) := by
      simp only [dispatch, takeNumeric, if_neg hn]
      rfl
    rw [getComparison_of_dispatch hd, if_pos (by rw [h]; rfl)]
    simp only [Value.toFloat]
    cases readFloat R.toCharTables (splitText R.toCharTables s).2 <;> rfl

theorem getComparison_str_other (h : source.number? = none) :
    getComparison R source (.str s) =
      (takeNumeric R (splitText R.toCharTables s).2 >>=
        applyOperator R (splitText R.toCharTables s).1 source) := by
  cases ht : takeNumeric R (splitText R.toCharTables s).2 with
  | error e =>
    refine getComparison_of_error ?_
    simp only [dispatch, ht]
    rfl
  | ok operand =>
    have hd : dispatch R source (.str s) =
        .ok ((splitText R.toCharTables s).1, source, operand) := by
      simp only [dispatch, ht]
      rfl
    rw [getComparison_of_dispatch hd, if_neg (by simp [h])]

section Text

variable {op : Operator} {rest : List Char}

theorem asRead_of_some {x : Number} (h : readFloat R.toCharTables rest = some x) :
    asRead R rest = .float x := by
  unfold asRead
  rw [h]
  rfl

theorem asRead_of_none (h : readFloat R.toCharTables rest = none) : asRead R rest = .str rest := by
  unfold asRead
  rw [h]
  rfl

theorem takeNumeric_of_numeric (h : isNumeric R.toCharTables rest) :
    takeNumeric R rest =
      (readFloat R.toCharTables rest).elim (.error .valueError) fun x => .ok (.float x) :=
  if_pos h

theorem takeNumeric_of_not (h : ¬ isNumeric R.toCharTables rest) :
    takeNumeric R rest = .ok (.str rest) :=
  if_neg h

theorem takeNumeric_cases (R : Runtime β) (rest : List Char) :
    (isNumeric R.toCharTables rest ∧ readFloat R.toCharTables rest = none ∧
        takeNumeric R rest = .error .valueError) ∨
      (isNumeric R.toCharTables rest → (readFloat R.toCharTables rest).isSome) ∧
        ∃ operand, takeNumeric R rest = .ok operand ∧
          (isNumeric R.toCharTables rest = true ∧ (∃ x, operand = .float x) ∨
            isNumeric R.toCharTables rest = false ∧ operand = .str rest) := by
  by_cases hn : isNumeric R.toCharTables rest
  · rw [takeNumeric_of_numeric hn]
    cases readFloat R.toCharTables rest with
    | none => exact .inl ⟨hn, rfl, rfl⟩
    | some x => exact .inr ⟨fun _ => rfl, .float x, rfl, .inl ⟨hn, x, rfl⟩⟩
  · rw [takeNumeric_of_not hn]
    exact .inr ⟨fun h => absurd h hn, .str rest, rfl, .inr ⟨Bool.eq_false_iff.2 hn, rfl⟩⟩

/-- Numbers compare. -/
theorem isOk_applyOperator_number {x y : Number} {a b : Value β} (hop : op ≠ .contains)
    (ha : a.number? = some x) (hb : b.number? = some y) : (applyOperator R op a b).isOk := by
  cases op with
  | contains => exact absurd rfl hop
  | ne | eq => rfl
  | order o => cases a <;> cases ha <;> cases b <;> cases hb <;> rfl

theorem textAgrees_number {x : Number} (hop : op ≠ .contains) (hs : source.number? = some x) :
    ((readFloat R.toCharTables rest).elim (.error .valueError) fun y =>
        applyOperator R op source (.float y)) =
        .ok (applyOperator R op source (asRead R rest) = .ok true) ↔
      (readFloat R.toCharTables rest).isSome := by
  cases hx : readFloat R.toCharTables rest with
  | none => simp
  | some y =>
    rw [asRead_of_some hx, Option.elim_some, eq_ok_decide_iff]
    exact iff_of_true (isOk_applyOperator_number hop hs rfl) rfl

/-- A worker's text. -/
theorem textAgrees_str {w : List Char} (hop : op ≠ .contains) (hop' : op ≠ .eq) :
    ((takeNumeric R rest : Except Fault (Value β)) >>= applyOperator R op (.str w)) =
        .ok (applyOperator R op (.str w) (asRead R rest) = .ok true) ↔
      TextAgrees R op (.str w) rest := by
  unfold TextAgrees
  by_cases hn : isNumeric R.toCharTables rest
  · rw [takeNumeric_of_numeric hn]
    simp only [if_pos hn]
    cases hx : readFloat R.toCharTables rest with
    | none => exact iff_of_false (by rintro ⟨⟩) (by simp)
    | some x =>
      rw [asRead_of_some hx]
      cases op with
      | contains => exact absurd rfl hop
      | eq => exact absurd rfl hop'
      | ne => exact iff_of_true (eq_ok_decide_iff.2 rfl) ⟨rfl, rfl⟩
      | order o => exact iff_of_false (by rintro ⟨⟩) (by simp)
  · rw [takeNumeric_of_not hn]
    simp only [if_neg hn]
    show applyOperator R op (.str w) (.str rest) = _ ↔ _
    cases hx : readFloat R.toCharTables rest with
    | none =>
      rw [asRead_of_none hx, eq_ok_decide_iff]
      refine iff_of_true ?_ (by simp)
      cases op with
      | contains => exact absurd rfl hop
      | _ => rfl
    | some x =>
      rw [asRead_of_some hx]
      -- a text is never equal to a number, and never in order with one
      cases op with
      | contains => exact absurd rfl hop
      | eq => exact absurd rfl hop'
      | ne => simp [applyOperator, Value.eq, Value.number?]
      | order o => simp [applyOperator, Value.number?]

/-- A worker's value that is neither a number nor a text. -/
theorem textAgrees_plain (hop : op ≠ .contains) (hop' : op ≠ .eq)
    (hs : source = .none ∨ ∃ isTuple xs, source = .list isTuple xs) :
    ((takeNumeric R rest : Except Fault (Value β)) >>= applyOperator R op source) =
        .ok (applyOperator R op source (asRead R rest) = .ok true) ↔
      op = .ne ∧ (isNumeric R.toCharTables rest → (readFloat R.toCharTables rest).isSome) := by
  -- no order with a text or a number, and no equality
  have horder : ∀ o b, (∃ x, b = .float x) ∨ (∃ t, b = .str t) →
      applyOperator R (.order o) source b = .error .typeError := by
    rintro o b (⟨x, rfl⟩ | ⟨t, rfl⟩) <;> obtain rfl | ⟨isTuple, xs, rfl⟩ := hs <;> rfl
  have hne : ∀ b, (∃ x, b = .float x) ∨ (∃ t, b = .str t) →
      applyOperator R .ne source b = .ok true := by
    rintro b (⟨x, rfl⟩ | ⟨t, rfl⟩) <;> obtain rfl | ⟨isTuple, xs, rfl⟩ := hs <;> rfl
  have hread : (∃ x, asRead R rest = .float x) ∨ (∃ t, asRead R rest = .str t) := by
    cases hx : readFloat R.toCharTables rest with
    | none => exact .inr ⟨rest, asRead_of_none hx⟩
    | some x => exact .inl ⟨x, asRead_of_some hx⟩
  obtain ⟨hn, hx, ht⟩ | ⟨hnumeric, operand, ht, hoperand⟩ := takeNumeric_cases R rest
  · rw [ht]
    refine iff_of_false (by rintro ⟨⟩) fun h => ?_
    rw [hx] at h
    exact absurd (h.2 hn) (by simp)
  · have hoperand' : (∃ x, operand = .float x) ∨ (∃ t, operand = .str t) :=
      hoperand.imp And.right fun h => ⟨rest, h.2⟩
    rw [ht]
    show applyOperator R op source operand = _ ↔ _
    cases op with
    | contains => exact absurd rfl hop
    | eq => exact absurd rfl hop'
    | ne =>
      rw [hne operand hoperand', hne _ hread]
      exact iff_of_true rfl ⟨rfl, hnumeric⟩
    | order o =>
      rw [horder o operand hoperand']
      exact iff_of_false (by rintro ⟨⟩) (by simp)

/-- A text that is to be in the worker's value. -/
theorem inAgrees_iff (hs : source.number? = none) :
    ((takeNumeric R rest : Except Fault (Value β)) >>= applyOperator R .contains source).isOk ↔
      InAgrees R source rest := by
  obtain ⟨hn, hx, ht⟩ | ⟨hnumeric, operand, ht, hoperand⟩ := takeNumeric_cases R rest
  · rw [ht]
    refine iff_of_false (by simp [Except.isOk, Except.toBool, bind, Except.bind]) ?_
    cases source with
    | none => exact id
    | bool | int | float => cases hs
    | str w => simp [InAgrees, hn]
    | list isTuple xs => simp [InAgrees, hn, hx]
    | other o =>
      rintro ⟨operand, ho, -⟩
      rw [ht] at ho
      cases ho
  · rw [ht]
    show (applyOperator R .contains source operand).isOk = true ↔ _
    cases source with
    | none => exact iff_of_false (by rintro ⟨⟩) id
    | bool | int | float => cases hs
    | str w =>
      obtain ⟨hn, x, rfl⟩ | ⟨hn, rfl⟩ := hoperand
      · exact iff_of_false (by rintro ⟨⟩) (by simp [InAgrees, hn])
      · exact iff_of_true rfl hn
    | list isTuple xs => exact iff_of_true rfl hnumeric
    | other o => 
      refine ⟨fun h => ⟨operand, ht, h⟩, ?_⟩
      rintro ⟨operand', ho, h⟩
      rw [ht] at ho
      obtain rfl := Except.ok.inj ho
      exact h

end Text

/-! ## One attribute -/

theorem getComparison_of_number {x : Number} (ht : target.number? = some x) :
    getComparison R source target = applyOperator R (.order .gt) source target := by
  have hd : dispatch R source target = .ok (.order .gt, source, target) := by
    cases target <;> cases ht <;> rfl
  rw [getComparison_of_dispatch hd, if_neg (by simp [ht])]
  rfl

theorem isOk_getComparison_iff :
    getComparison R source target = .ok (getComparison R source target = .ok true) ↔
      (getComparison R source target).isOk := eq_ok_decide_iff

/-- A number is greater than a truth value exactly if it has it. -/
theorem gt_truth_iff (x : Number) (b : Bool) :
    Order.gt.onNumbers x (.finite (if b then 1 else 0)) = ((!x.eq (.finite 0)) == b) ↔
      if b then x.eq (.finite 0) ∨ (Number.finite 1).lt x else ¬ (Number.finite 0).le x := by
  cases x with
  | finite q =>
    cases b with
    | true =>
      rcases eq_or_ne q 0 with rfl | h0
      · simp [Order.onNumbers, Number.eq, Number.lt]
      · simp [Order.onNumbers, Number.eq, Number.lt, h0]
    | false =>
      rcases eq_or_ne q 0 with rfl | h0
      · simp [Order.onNumbers, Number.eq, Number.lt, Number.le]
      · simp [Order.onNumbers, Number.eq, Number.lt, Number.le, h0, h0.symm]
  | inf negative => cases negative <;> cases b <;> simp [Order.onNumbers, Number.eq, Number.lt, Number.le]
  | nan => cases b <;> simp [Order.onNumbers, Number.eq, Number.lt, Number.le]

/-- A truth value is required. -/
theorem getComparison_bool_iff {b : Bool} :
    getComparison R source (.bool b) = .ok (satisfied R source (.bool b)) ↔
      Agrees R source (.bool b) := by
  rw [getComparison_of_number (x := .finite (if b then 1 else 0)) rfl]
  have hnumber : ∀ {x : Number}, source.number? = some x → source.truthy R = !x.eq (.finite 0) →
      (applyOperator R (.order .gt) source (.bool b) = .ok (source.truthy R == b) ↔
        ∃ x, source.number? = some x ∧
          if b then x.eq (.finite 0) ∨ (Number.finite 1).lt x else ¬ (Number.finite 0).le x) := by
    intro x hx ht
    have happly : applyOperator R (.order .gt) source (.bool b) =
        .ok (Order.gt.onNumbers x (.finite (if b then 1 else 0))) := by
      cases source <;> cases hx <;> rfl
    rw [happly, ht, Except.ok.injEq, gt_truth_iff, hx]
    simp
  cases source with
  | bool b' =>
    refine hnumber rfl ?_
    cases b' <;> rfl
  | int n => exact hnumber rfl (by simp [Value.truthy, Number.eq])
  | float x => exact hnumber rfl rfl
  | none | str | list => exact iff_of_false (by rintro ⟨⟩) (by simp [Agrees, Value.number?])
  | other o => exact Iff.rfl

/-- A list is required: a scalar is never equal to one. -/
theorem getComparison_list_iff {isTuple : Bool} {xs : List (Value β)} :
    getComparison R source (.list isTuple xs) = .ok (satisfied R source (.list isTuple xs)) ↔
      Agrees R source (.list isTuple xs) := by
  have hscalar : dispatch R source (.list isTuple xs) =
        .ok (.contains, .list false [source], .list isTuple xs) →
      source.eq R (.list isTuple xs) = false →
      (getComparison R source (.list isTuple xs) = .ok (xs.any fun x => source.eq R x) ↔
        ∀ x ∈ xs, source.eq R x = false) := by
    intro hd he
    rw [getComparison_of_dispatch hd, if_neg (by simp [Value.number?])]
    show Except.ok ([source].any fun x => x.eq R (.list isTuple xs)) = _ ↔ _
    rw [List.any_cons, he, List.any_nil, Bool.or_false, Except.ok.injEq, eq_comm,
      List.any_eq_false]
    simp
  cases source with
  | list isTuple' ys => exact iff_of_true (isOk_getComparison_iff.2 rfl) trivial
  | other o => exact iff_of_true (isOk_getComparison_iff.2 rfl) trivial
  | none | bool | int | float | str => exact hscalar rfl rfl

/-- A text is required. -/
theorem getComparison_str_iff :
    getComparison R source (.str s) = .ok (satisfied R source (.str s)) ↔
      Agrees R source (.str s) := by
  have hcompare : ∀ {op : Operator} {rest : List Char},
      splitText R.toCharTables s = (op, rest) → op ≠ .contains → op ≠ .eq →
      (getComparison R source (.str s) =
          .ok (applyOperator R op source (asRead R rest) = .ok true) ↔
        TextAgrees R op source rest) := by
    intro op rest hsplit hop hop'
    cases hs : source.number? with
    | some x =>
      rw [getComparison_str_number (by rw [hs]; rfl), hsplit, textAgrees_number hop hs]
      cases source <;> first | exact Iff.rfl | cases hs
    | none =>
      rw [getComparison_str_other hs, hsplit]
      cases source with
      | bool | int | float => cases hs
      | none => exact textAgrees_plain hop hop' (.inl rfl)
      | list isTuple xs => exact textAgrees_plain hop hop' (.inr ⟨isTuple, xs, rfl⟩)
      | str w => exact textAgrees_str hop hop'
      | other o =>
        constructor
        · intro h
          obtain ⟨-, -, ht⟩ | ⟨-, operand, ht, -⟩ := takeNumeric_cases R rest
          · rw [ht] at h
            cases h
          · rw [ht] at h
            exact ⟨operand, ht, h⟩
        · rintro ⟨operand, ht, h⟩
          rw [ht]
          exact h
  rcases hsplit : splitText R.toCharTables s with ⟨op, rest⟩
  unfold satisfied Agrees
  cases op with
  | ne =>
    simp only [hsplit]
    exact hcompare hsplit (by decide) (by decide)
  | order o =>
    simp only [hsplit]
    exact hcompare hsplit (by simp) (by simp)
  | contains =>
    simp only [hsplit]
    rw [isOk_getComparison_iff]
    cases hs : source.number? with
    | some x =>
      -- a number has no elements
      rw [getComparison_str_number (by rw [hs]; rfl), hsplit]
      refine iff_of_false ?_ ?_
      · cases readFloat R.toCharTables rest <;> cases source <;> cases hs <;> rintro ⟨⟩
      · cases source <;> cases hs <;> exact id
    | none =>
      rw [getComparison_str_other hs, hsplit]
      exact inAgrees_iff hs
  | eq =>
    simp only [hsplit]
    rw [isOk_getComparison_iff]
    cases hs : source.number? with
    | some x =>
      rw [getComparison_str_number (by rw [hs]; rfl), hsplit]
      cases readFloat R.toCharTables rest with
      | none => exact iff_of_false (by rintro ⟨⟩) (by simp)
      | some y => exact iff_of_true rfl fun _ => rfl
    | none =>
      rw [getComparison_str_other hs, hsplit]
      obtain ⟨hn, hx, ht⟩ | ⟨hnumeric, operand, ht, -⟩ := takeNumeric_cases R rest
      · rw [ht]
        exact iff_of_false (by rintro ⟨⟩) (by simp [hn, hx])
      · rw [ht]
        exact iff_of_true rfl fun h => hnumeric (h.resolve_right (by simp))

/-- A number is required, or nothing that is compared by an order. -/
theorem isOk_gt_iff {x : Number} (ht : target.number? = some x) :
    (applyOperator R (.order .gt) source target).isOk ↔
      match source with
      | .other o => (R.apply (.order .gt) (.other o) target).isOk
      | _ => source.number?.isSome := by
  cases source with
  | other o => cases target <;> cases ht <;> exact Iff.rfl
  | none | str | list => cases target <;> cases ht <;> exact iff_of_false (by rintro ⟨⟩) (by rintro ⟨⟩)
  | bool | int | float => cases target <;> cases ht <;> exact iff_of_true rfl rfl

theorem getComparison_iff (source target : Value β) :
    getComparison R source target = .ok (satisfied R source target) ↔ Agrees R source target := by
  cases target with
  | bool b => exact getComparison_bool_iff
  | list isTuple xs => exact getComparison_list_iff
  | str s => exact getComparison_str_iff
  | int n =>
    refine isOk_getComparison_iff.trans ?_
    rw [getComparison_of_number (x := .finite n) rfl]
    exact isOk_gt_iff (x := .finite n) rfl
  | float x =>
    refine isOk_getComparison_iff.trans ?_
    rw [getComparison_of_number rfl]
    exact isOk_gt_iff rfl
  | none =>
    refine isOk_getComparison_iff.trans ?_
    rw [getComparison_of_dispatch (show dispatch R source .none = .ok (.eq, source, .none) from rfl)]
    unfold Agrees
    cases source.number? with
    | some x => exact iff_of_false (by rintro ⟨⟩) (by simp)
    | none => exact iff_of_true rfl rfl
  | other o =>
    refine isOk_getComparison_iff.trans ?_
    rw [getComparison_of_dispatch
      (show dispatch R source (.other o) = .ok (.eq, source, .other o) from rfl)]
    unfold Agrees
    cases source.number? with
    | some x =>
      simp only [Value.number?, Value.toFloat]
      cases R.float o with
      | error e => exact iff_of_false (by rintro ⟨⟩) fun h => absurd (h rfl) (by rintro ⟨⟩)
      | ok y => exact iff_of_true rfl fun _ => rfl
    | none => exact iff_of_true rfl (by simp)

/-! ## All attributes -/

section Match

variable {order : IterOrder String} {sources targets : Attributes β} {ty : MatchType}

theorem mem_sharedKeys {key : String} :
    key ∈ sharedKeys sources targets ↔
      (sources.get? key).isSome ∧ (targets.get? key).isSome := by
  rw [sharedKeys, List.mem_filter, ← Dict.isSome_get?_iff_mem]

/-- The shared keys are keys of the function's attributes. -/
theorem sharedKeys_perm :
    (sharedKeys sources targets).Perm
      ((targets.items.map Prod.fst).filter fun key => (sources.get? key).isSome) := by
  refine (List.perm_ext_iff_of_nodup (sources.nodup.filter _) (targets.nodup.filter _)).2 fun key => ?_
  rw [show key ∈ List.filter _ _ ↔ _ from mem_sharedKeys, List.mem_filter,
    ← Dict.isSome_get?_iff_mem, and_comm]

/-- What the comparison of a shared attribute is to give. -/
def sharedSatisfied (R : Runtime β) (sources targets : Attributes β) (key : String) : Bool :=
  satisfied R ((sources.get? key).getD .none) ((targets.get? key).getD .none)

theorem countP_sharedKeys :
    (sharedKeys sources targets).countP (sharedSatisfied R sources targets) =
      targets.items.countP (satisfies R sources) := by
  rw [sharedKeys_perm.countP_eq, List.countP_filter, List.countP_map]
  refine List.countP_congr fun p hp => ?_
  have ht : targets.get? p.1 = some p.2 := Dict.mem_items.1 hp
  unfold satisfies sharedSatisfied
  cases hs : sources.get? p.1 with
  | none => simp [hs]
  | some v => simp [hs, ht]

theorem length_sharedKeys :
    (sharedKeys sources targets).length =
      targets.items.countP fun p => (sources.get? p.1).isSome := by
  rw [sharedKeys_perm.length_eq, ← List.countP_eq_length_filter, List.countP_map]
  rfl

/-- How many matches there are decides. -/
def MatchType.decides (ty : MatchType) (shared count : ℕ) : Bool :=
  match ty with
  | .none => false
  | .all => count = shared
  | .any => 0 < count
  | .atLeast m => m ≤ count

/-- The loop, where all comparisons are right, after `n` matches that were not enough. -/
theorem countMatches_eq {f : String → Bool} {keys : List String} {shared n : ℕ}
    (h : ∀ key ∈ keys, getComparison R ((sources.get? key).getD .none)
      ((targets.get? key).getD .none) = .ok (f key))
    (hn : ty = .any → n = 0) :
    countMatches R sources targets ty shared keys n =
      .ok (ty.decides shared (n + keys.countP f)) := by
  induction keys generalizing n with
  | nil =>
    cases ty with
    | any => simp [countMatches, MatchType.suffices, MatchType.decides, hn rfl]
    | none | all | atLeast => rfl
  | cons key keys ih =>
    have hkeys := fun key hm => h key (List.mem_cons_of_mem _ hm)
    have hfirst := h key List.mem_cons_self
    unfold countMatches
    rw [hfirst]
    cases hf : f key with
    | false =>
      rw [List.countP_cons_of_neg (by simp [hf])]
      exact ih hkeys hn
    | true =>
      rw [List.countP_cons_of_pos hf]
      show (if ty.stops (n + 1) = true then Except.ok true
        else countMatches R sources targets ty shared keys (n + 1)) = _
      split
      · rename_i hstop
        cases ty with
        | any => simp [MatchType.decides]
        | atLeast m =>
          have hm : m ≤ (n + 1 : ℕ) := of_decide_eq_true hstop
          have hle : m ≤ (n + (keys.countP f + 1) : ℕ) := by omega
          exact congrArg Except.ok (decide_eq_true hle).symm
        | none | all => cases hstop
      · rename_i hstop
        rw [ih hkeys (fun hany => absurd (by rw [hany]; rfl) hstop), Nat.add_right_comm n 1,
          Nat.add_assoc]

theorem determineMatch_eq (order : IterOrder String) (hty : ty ≠ .none)
    (h : ∀ key ∈ sharedKeys sources targets, getComparison R ((sources.get? key).getD .none)
      ((targets.get? key).getD .none) = .ok (sharedSatisfied R sources targets key)) :
    determineMatch R order sources targets ty =
      .ok (!(sharedKeys sources targets).isEmpty &&
        ty.decides (sharedKeys sources targets).length
          (targets.items.countP (satisfies R sources))) := by
  unfold determineMatch
  rw [if_neg hty]
  by_cases he : (sharedKeys sources targets).isEmpty = true
  · rw [if_pos he, he]
    rfl
  · have hperm := order.perm (sharedKeys sources targets)
    rw [if_neg he, Bool.eq_false_iff.2 he,
      countMatches_eq (fun key hk => h key (hperm.mem_iff.1 hk)) (fun _ => rfl), Nat.zero_add,
      hperm.countP_eq, countP_sharedKeys]
    rfl

/-- Each comparison and the match are as they are to be, in every order of the keys. -/
structure Right (R : Runtime β) (sources targets : Attributes β) (ty : MatchType) : Prop where
  compared : ∀ key source target, sources.get? key = some source →
    targets.get? key = some target →
    getComparison R source target = .ok (satisfied R source target)
  matched : ∀ order,
    determineMatch R order sources targets ty = .ok (reference R sources targets ty)

/-- The counts of the match are those of the requirement. -/
def Enough (R : Runtime β) (sources targets : Attributes β) : MatchType → Prop
  | .none | .any => True
  | .all => targets.items ≠ [] ∧ ((∀ p ∈ targets.items, (sources.get? p.1).isSome) ∨
      sharedKeys sources targets = [] ∨
      ∃ key ∈ sharedKeys sources targets, sharedSatisfied R sources targets key = false)
  | .atLeast n => 0 < n ∨ sharedKeys sources targets ≠ []

theorem decides_iff (R : Runtime β) (sources targets : Attributes β) (hty : ty ≠ .none) :
    (!(sharedKeys sources targets).isEmpty && ty.decides (sharedKeys sources targets).length
        (targets.items.countP (satisfies R sources))) = reference R sources targets ty ↔
      Enough R sources targets ty := by
  have hle : targets.items.countP (satisfies R sources) ≤ (sharedKeys sources targets).length := by
    rw [← countP_sharedKeys]
    exact List.countP_le_length
  have hle' : (sharedKeys sources targets).length ≤ targets.items.length := by
    rw [length_sharedKeys]
    exact List.countP_le_length
  have hempty : sharedKeys sources targets = [] ↔ (sharedKeys sources targets).length = 0 :=
    List.length_eq_zero_iff.symm
  rw [Bool.eq_iff_iff, Bool.and_eq_true, Bool.not_eq_true', List.isEmpty_eq_false_iff, Ne, hempty]
  cases ty with
  | none => exact absurd rfl hty
  | any =>
    have hany : reference R sources targets .any = true ↔
        0 < targets.items.countP (satisfies R sources) :=
      List.any_eq_true.trans List.countP_pos_iff.symm
    rw [hany, MatchType.decides, decide_eq_true_iff]
    exact iff_of_true (by omega) trivial
  | atLeast n =>
    have hat : reference R sources targets (.atLeast n) = true ↔
        n ≤ targets.items.countP (satisfies R sources) := decide_eq_true_iff
    rw [hat, MatchType.decides, decide_eq_true_iff, Enough, Ne, hempty]
    omega
  | all =>
    have hall : reference R sources targets .all = true ↔
        targets.items.countP (satisfies R sources) = targets.items.length :=
      List.all_eq_true.trans List.countP_eq_length.symm
    have hpresent : (∀ p ∈ targets.items, (sources.get? p.1).isSome) ↔
        (sharedKeys sources targets).length = targets.items.length := by
      rw [length_sharedKeys]
      exact List.countP_eq_length.symm
    have hunsatisfied :
        (∃ key ∈ sharedKeys sources targets, sharedSatisfied R sources targets key = false) ↔
          targets.items.countP (satisfies R sources) ≠ (sharedKeys sources targets).length := by
      rw [← countP_sharedKeys, Ne, List.countP_eq_length]
      simp
    rw [hall, MatchType.decides, decide_eq_true_iff, Enough, hpresent, hunsatisfied, hempty,
      Ne, ← List.length_eq_zero_iff]
    omega

/-- **The match of attributes** is what it is to be, exactly where each comparison is and the counts
are. -/
theorem right_iff (R : Runtime β) (sources targets : Attributes β) (ty : MatchType) :
    Right R sources targets ty ↔
      (∀ key source target, sources.get? key = some source → targets.get? key = some target →
        Agrees R source target) ∧ Enough R sources targets ty := by
  have hshared : (∀ key source target, sources.get? key = some source →
        targets.get? key = some target →
        getComparison R source target = .ok (satisfied R source target)) →
      ∀ key ∈ sharedKeys sources targets, getComparison R ((sources.get? key).getD .none)
        ((targets.get? key).getD .none) = .ok (sharedSatisfied R sources targets key) := by
    intro h key hkey
    obtain ⟨hs, ht⟩ := mem_sharedKeys.1 hkey
    obtain ⟨source, hs⟩ := Option.isSome_iff_exists.1 hs
    obtain ⟨target, ht⟩ := Option.isSome_iff_exists.1 ht
    unfold sharedSatisfied
    rw [hs, ht]
    exact h key source target hs ht
  have hmatched : (∀ key source target, sources.get? key = some source →
        targets.get? key = some target →
        getComparison R source target = .ok (satisfied R source target)) →
      ((∀ order, determineMatch R order sources targets ty =
        .ok (reference R sources targets ty)) ↔ Enough R sources targets ty) := by
    intro h
    by_cases hty : ty = .none
    · subst hty
      exact iff_of_true (fun _ => rfl) trivial
    · rw [← decides_iff R sources targets hty]
      constructor
      · intro hm
        have hid := hm ⟨id, fun _ => List.Perm.refl _⟩
        rw [determineMatch_eq _ hty (hshared h)] at hid
        exact Except.ok.inj hid
      · intro hd order
        rw [determineMatch_eq order hty (hshared h), hd]
  constructor
  · intro h
    exact ⟨fun key source target hs ht =>
      (getComparison_iff source target).1 (h.compared key source target hs ht),
      (hmatched h.compared).1 h.matched⟩
  · intro h
    have hcompared : ∀ key source target, sources.get? key = some source →
        targets.get? key = some target →
        getComparison R source target = .ok (satisfied R source target) :=
      fun key source target hs ht => (getComparison_iff source target).2 (h.1 key source target hs ht)
    exact ⟨hcompared, (hmatched hcompared).2 h.2⟩

end Match

/-! ## ASCII -/

/-- ASCII texts, and no objects of other classes. -/
def ascii : Runtime Empty where
  decimal c := if c.isDigit then some (c.toNat - '0'.toNat) else none
  isNumeric := Char.isDigit
  isSpace c := c = ' '
  equal _ _ := false
  truthy o := o.elim
  apply _ _ _ := .error .typeError
  float o := o.elim

/-- The attribute `gpu` of a worker and of a function. -/
def gpu (value : Value Empty) : Attributes Empty := Dict.ofPairs [("gpu", value)]

/-- The same truth value, a number in a list, a missing attribute and a text that is less than a
number are not matched as they are to be. -/
theorem right_broken :
    ¬ Right ascii (gpu (.bool true)) (gpu (.bool true)) .all ∧
      ¬ Right ascii (gpu (.int 2)) (gpu (.list false [.int 1, .int 2])) .any ∧
      ¬ Right ascii (gpu (.int 2))
        (Dict.ofPairs [("gpu", .str ['>', '=', '1']), ("disk", .int 1)]) .all ∧
      ¬ Right ascii (gpu (.str ['3'])) (gpu (.str ['>', '=', '2'])) .all := by
  refine ⟨fun h => ?_, fun h => ?_, fun h => ?_, fun h => ?_⟩
  all_goals
    have hmatch := h.matched ⟨id, fun _ => List.Perm.refl _⟩
    revert hmatch
    decide +kernel

end Kvdb.WorkerAttributes
