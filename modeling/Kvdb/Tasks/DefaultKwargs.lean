import Kvdb.Lib.Program
import Kvdb.Lib.Python

/-!
# Default keyword arguments of a task (`TaskFunction.update_function_kwargs`)

`TaskFields` is what a `TaskFunction` is built from, `validateFunction` the validator which runs then.
`updateFunctionKwargs` is a program on the `TaskFunction`: `update_dict` changes a registered default in
place, as `default_kwargs.copy()` copies the dictionary and not the values. No two registered defaults
are the same object.

`Runtime ω` is what the code calls: `==` and the hash of Python, the order of a set, and `update_dict`.
-/

namespace Kvdb.DefaultKwargs

open Lib Python

/-- A Python value, as far as the code tells them apart; `ω` are the values inside. -/
inductive Value (ω : Type)
  | none
  | mapping (items : List (ω × ω))
  | list (xs : List ω)
  | object (o : ω)
  deriving DecidableEq

/-- Keyword arguments. -/
abbrev Kwargs (ω : Type) := Dict String (Value ω)

inductive Fault
  | attributeError
  | typeError
  /-- An exception of `update_dict`. -/
  | updateDict
  deriving DecidableEq

structure Runtime (ω : Type) where
  /-- `a == b`. -/
  eq : Value ω → Value ω → Bool
  eq_none_mapping : ∀ items, eq .none (.mapping items) = false
  eq_none_list : ∀ xs, eq .none (.list xs) = false
  /-- `a is b or a == b`, as containers compare their elements. -/
  same : ω → ω → Bool
  same_refl : ∀ a, same a a = true
  same_symm : ∀ a b, same a b = same b a
  hashable : ω → Bool
  /-- The elements of a set, as it iterates over them. -/
  order : List ω → List ω
  order_perm : ∀ xs, (order xs).Perm xs
  /-- What `a` is after `update_dict(a, b)`, which returns `a`, and the exception if it raises. -/
  updateDict : Value ω → Value ω → Value ω × Option Fault

namespace Runtime

variable {ω : Type} (R : Runtime ω)

/-- The elements of `set(xs)`, in the order they came in. -/
def distinct (xs : List ω) : List ω :=
  xs.foldl (fun s x => if s.any fun y => R.same y x then s else s ++ [x]) []

/-- `list(set(d + xs))`. -/
def unionList (d : Value ω) (xs : List ω) : Except Fault (Value ω) :=
  match d with
  | .list ys =>
    if (ys ++ xs).all R.hashable then .ok (.list (R.order (R.distinct (ys ++ xs))))
    else .error .typeError
  | _ => .error .typeError

end Runtime

variable {ω : Type}

/-- What a `TaskFunction` is built from. -/
structure TaskFields (ω : Type) where
  /-- The parameters of the signature with their defaults, `none` for `Parameter.empty`. -/
  parameters : Dict String (Option (Value ω))
  defaultKwargs : Option (Kwargs ω) := none
  /-- `kwargs['default_kwargs']`, if `kwargs` has that key. -/
  kwargsDefaults : Option (Option (Kwargs ω)) := none

structure TaskFunction (ω : Type) where
  defaultKwargs : Option (Kwargs ω)
  functionDefaultKwargs : Option (Dict String (Option (Value ω)))

/-- `validate_function`: `default_kwargs` is taken out of `kwargs` last. -/
def validateFunction (fields : TaskFields ω) : TaskFunction ω where
  functionDefaultKwargs := fields.defaultKwargs.map fun d =>
    fields.parameters.filter fun p => (d.get? p.1).isSome
  defaultKwargs := fields.kwargsDefaults.getD fields.defaultKwargs

namespace TaskFunction

/-- The registered defaults. -/
def registered (tf : TaskFunction ω) : Kwargs ω := tf.defaultKwargs.getD {}

/-- The registered default of `k` is changed in place. -/
def setDefault (tf : TaskFunction ω) (k : String) (v : Value ω) : TaskFunction ω :=
  { tf with defaultKwargs := some (tf.registered.setItem k v) }

end TaskFunction

variable (R : Runtime ω)

/-- `function_default_kwargs.get(k) == v`: a value is not equal to `Parameter.empty`. -/
def equalsDefault (functionDefaults : Dict String (Option (Value ω))) (k : String) (v : Value ω) :
    Bool :=
  match functionDefaults.get? k with
  | none => R.eq .none v
  | some none => false
  | some (some d) => R.eq d v

/-- The value of one keyword of the call. -/
def mergeKwarg (k : String) (v : Value ω) : Program (TaskFunction ω) Fault (Value ω) := fun tf =>
  match tf.registered.get? k with
  | none => (.ok v, tf)
  | some d =>
    match tf.functionDefaultKwargs with
    | none => (.error .attributeError, tf)
    | some functionDefaults =>
      if equalsDefault R functionDefaults k v then
        match v with
        | .mapping _ =>
          let tf' := tf.setDefault k (R.updateDict d v).1
          match (R.updateDict d v).2 with
          | none => (.ok (R.updateDict d v).1, tf')
          | some e => (.error e, tf')
        | .list xs => (R.unionList d xs, tf)
        | _ => (.ok v, tf)
      else (.ok v, tf)

/-- `for k, v in kwargs.items()`. -/
def mergeLoop : List (String × Value ω) → Kwargs ω → Program (TaskFunction ω) Fault (Kwargs ω)
  | [], kwargs => pure kwargs
  | p :: items, kwargs => do
    let v ← mergeKwarg R p.1 p.2
    mergeLoop items (kwargs.setItem p.1 v)

/-- `update_function_kwargs(**kwargs)`, whose parameter `self` is bound already. -/
def updateFunctionKwargs (kwargs : Kwargs ω) : Program (TaskFunction ω) Fault (Kwargs ω) := fun tf =>
  if (kwargs.get? "self").isSome then (.error .typeError, tf)
  else if tf.registered.items.isEmpty then (.ok kwargs, tf)
  else
    let extra := tf.registered.filter fun p => (kwargs.get? p.1).isNone
    (do
      let kwargs ← mergeLoop R kwargs.items kwargs
      return kwargs.update extra : Program (TaskFunction ω) Fault (Kwargs ω)) tf

/-- One call of a run: what it was given, what came of it, and the `TaskFunction` after it. -/
structure Outcome (ω : Type) where
  call : Kwargs ω
  reply : Except Fault (Kwargs ω)
  after : TaskFunction ω

/-- One call after the other, whatever comes of them. -/
def run : List (Kwargs ω) → TaskFunction ω → List (Outcome ω)
  | [], _ => []
  | call :: calls, tf =>
    let r := updateFunctionKwargs R call tf
    ⟨call, r.1, r.2⟩ :: run calls r.2

/-! ## What the merge is for -/

namespace TaskFields

variable (fields : TaskFields ω)

/-- The defaults that are registered. -/
def registered : Kwargs ω := (validateFunction fields).registered

/-- `v` equals the default that the signature has for `k`. -/
def IsSignatureDefault (k : String) (v : Value ω) : Prop :=
  ∃ d, fields.parameters.get? k = some (some d) ∧ R.eq d v = true

end TaskFields

/-- `zs` is a union of `ys` and `xs` without duplicates. -/
structure IsUnion (ys xs zs : List ω) : Prop where
  distinct : zs.Pairwise fun a b => R.same a b = false
  subset : ∀ z ∈ zs, z ∈ ys ++ xs
  covers : ∀ x ∈ ys ++ xs, ∃ z ∈ zs, R.same z x = true

/-- What the value `v` of the keyword `k` is to become, when `d` is registered for it. -/
structure Becomes (fields : TaskFields ω) (k : String) (d v x : Value ω) : Prop where
  differs : ¬ fields.IsSignatureDefault R k v → x = v
  mapping : fields.IsSignatureDefault R k v → ∀ items, v = .mapping items →
    R.updateDict d v = (x, none)
  list : fields.IsSignatureDefault R k v → ∀ xs, v = .list xs →
    ∃ ys zs, d = .list ys ∧ x = .list zs ∧ IsUnion R ys xs zs

/-- What a call is to return. -/
structure Merges (fields : TaskFields ω) (call result : Kwargs ω) : Prop where
  keys : ∀ k, (result.get? k).isSome = true ↔
    (call.get? k).isSome = true ∨ (fields.registered.get? k).isSome = true
  absent : ∀ k d, call.get? k = none → fields.registered.get? k = some d → result.get? k = some d
  unregistered : ∀ k v, call.get? k = some v → fields.registered.get? k = none →
    result.get? k = some v
  merged : ∀ k v d, call.get? k = some v → fields.registered.get? k = some d →
    ∃ x, result.get? k = some x ∧ Becomes R fields k d v x

/-- A call merges the defaults of the `TaskFunction` as it was built, and leaves it as it is. -/
def Outcome.Merges (fields : TaskFields ω) (o : Outcome ω) : Prop :=
  o.after = validateFunction fields ∧
    ∃ result, o.reply = .ok result ∧ DefaultKwargs.Merges R fields o.call result

end Kvdb.DefaultKwargs
