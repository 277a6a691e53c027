import Kvdb.Lib.Program
import Kvdb.Lib.Python

/-!
# Keyword arguments of abstract tasks (`TaskManager._compile_abcs`, `TaskABC`)

A class and its methods are registered with keyword arguments. Each class has a dictionary of
partials: under the name of a method the dictionary of its keyword arguments, under `cls` that of the
class. `compileAbcs` runs once, before the first instance is made: it passes the partials on to the
subclasses, and a dictionary of a class can be one that a subclass holds too, so the partials hold
references (`Ref`) into a heap. `registerAbcTask` then registers the methods of an instance.

`Classes V` is what the program says of its classes. The writes into dictionaries that others may hold
are noted with what was there before (`Write`), those into the class-level dictionary while a method is
registered as `ClsWrite`.
-/

namespace Kvdb.TaskPartials

open Lib Python

abbrev Kwargs (V : Type) := Dict String V

/-- A dictionary of keyword arguments, by the class and the key it was made for. -/
abbrev Ref := String × String

structure Classes (V : Type) where
  /-- The direct bases of a class, without those of `builtins` and `abc`. -/
  bases : String → List String
  hasattr : String → String → Bool
  /-- `f'{self.__class__.__name__}.{func}'`. -/
  defaultName : String → String → V
  /-- `get_worker_attributes`, if it gives some. -/
  workerAttributes : String → String → Option V
  validateCronjob : String → String → Kwargs V → Option (Kwargs V)
  validateFunction : String → String → Kwargs V → Option (Kwargs V)
  cronjobName : String → String → Option V
  functionName : String → String → Option V
  /-- `update_dict` goes into the dictionaries inside. -/
  nested : Bool
  /-- The first of two dictionaries after `update_dict`. -/
  merge : Kwargs V → Kwargs V → Kwargs V

variable {V : Type}

/-- `get_parent_object_class_names(subcls)[1]`. -/
def Classes.lastParent (H : Classes V) (cls : String) : Option String := (H.bases cls).head?

/-- A dictionary is changed in place, for the class `writer`. -/
structure Write (V : Type) where
  writer : String
  ref : Ref
  before : Kwargs V
  after : Kwargs V

/-- The class-level dictionary of `cls` is changed while `func` is registered. -/
structure ClsWrite (V : Type) where
  cls : String
  func : String
  before : Kwargs V
  after : Kwargs V

/-- What a method is registered with. -/
structure Registration (V : Type) where
  cls : String
  func : String
  kwargs : Kwargs V

structure State (V : Type) where
  /-- The keys of `_task_registered_abcs`. -/
  registered : List String := []
  /-- `_task_unregistered_abc_functions`; a class without methods has no key. -/
  functions : String → List String := fun _ => []
  /-- `_task_registered_abc_functions`. -/
  registeredFunctions : String → Option (List String) := fun _ => none
  /-- `_task_unregistered_abc_partials`; no dictionary is the same as an empty one. -/
  partials : String → Dict String Ref := fun _ => {}
  heap : Ref → Kwargs V := fun _ => {}
  /-- `__task_function_partials__` of a class. -/
  classPartials : String → String → Option (Kwargs V) := fun _ _ => none
  /-- `_task_compile_completed`. -/
  compiled : Bool := false
  /-- `_compile_abcs` has assigned its variable `func_id`. -/
  bound : Bool := false
  /-- `_task_initialized_abcs`: queues and classes. -/
  initialized : List (String × String) := []
  registrations : List (Registration V) := []
  writes : List (Write V) := []
  clsWrites : List (ClsWrite V) := []

/-- `s.add(f)` on the elements of a set. -/
def addTo (fs : List String) (f : String) : List String := if f ∈ fs then fs else fs ++ [f]

namespace State

variable (s : State V)

/-- The dictionary that a class holds under `k`, an empty one if there is none. -/
def held (cls k : String) : Kwargs V := (((s.partials cls).get? k).map s.heap).getD {}

/-- `heap[r] = kwargs` in place, for `writer`. -/
def write (writer : String) (r : Ref) (kwargs : Kwargs V) : State V :=
  { s with
    heap := Function.update s.heap r kwargs
    writes := s.writes ++ [⟨writer, r, s.heap r, kwargs⟩] }

/-- The class holds the dictionary `r` under `k`. -/
def point (cls k : String) (r : Ref) : State V :=
  { s with partials := Function.update s.partials cls ((s.partials cls).setItem k r) }

/-- The class gets a new dictionary under `k`. -/
def create (cls k : String) (kwargs : Kwargs V) : State V :=
  { s.point cls k (cls, k) with heap := Function.update s.heap (cls, k) kwargs }

/-- The dictionary under `k` is popped. -/
def popPartials (cls k : String) : State V :=
  { s with partials := Function.update s.partials cls ((s.partials cls).pop k) }

def setClassPartials (cls k : String) (kwargs : Kwargs V) : State V :=
  { s with
    classPartials :=
      Function.update s.classPartials cls (Function.update (s.classPartials cls) k (some kwargs)) }

/-- `if kwargs: __add_task_function_partials__(k, **kwargs)`. -/
def addPartials (cls k : String) (kwargs : Kwargs V) : State V :=
  if kwargs.items.isEmpty then s
  else s.setClassPartials cls k (((s.classPartials cls k).getD {}).update kwargs)

/-- `_task_registered_abc_functions[cls].update(fs)`. -/
def addFunctions (cls : String) (fs : List String) : State V :=
  { s with
    registeredFunctions := Function.update s.registeredFunctions cls
      (some (fs.foldl addTo ((s.registeredFunctions cls).getD []))) }

/-- Keyword arguments are given for `k`: a dictionary that is there already is changed. -/
def give (cls k : String) (kwargs : Kwargs V) : State V :=
  if kwargs.items.isEmpty then s
  else
    match (s.partials cls).get? k with
    | some r => s.write cls r ((s.heap r).update kwargs)
    | none => s.create cls k (Dict.update {} kwargs)

/-! ## Registration -/

/-- With the first method of a class come its dictionaries. -/
def addFirst (cls : String) : State V :=
  if s.functions cls = [] then
    { s with
      registeredFunctions := Function.update s.registeredFunctions cls (some [])
      partials := Function.update s.partials cls {} }
  else s

/-- `_task_unregistered_abc_functions[cls][func] = ...`. -/
def addMethod (cls func : String) : State V :=
  { s with functions := Function.update s.functions cls (addTo (s.functions cls) func) }

/-- `_register_abc_method`. -/
def registerMethod (cls func : String) (kwargs : Kwargs V) : State V :=
  ((s.addFirst cls).addMethod cls func).give cls func kwargs

/-- A new class has no partials for itself. -/
def addClass (cls : String) : State V :=
  { s with
    registered := s.registered ++ [cls]
    classPartials := Function.update s.classPartials cls fun _ => none }

/-- `__init_subclass__` and `_register_abc` of a new class; the names of classes are unique. -/
def defineClass (cls : String) : State V :=
  if cls ∈ s.registered then s
  else if s.functions cls = [] then s.addClass cls
  else (s.addClass cls).addFunctions cls (s.functions cls)

/-- `_register_abc` of a class that is there. -/
def registerClass (cls : String) (kwargs : Kwargs V) : State V :=
  if cls ∈ s.registered then s.give cls "cls" kwargs else s

end State

/-! ## Compilation -/

inductive Fault
  | keyError
  | unboundLocalError
  deriving DecidableEq

/-- A part of the compilation. -/
abbrev Compiler (V : Type) := Program (State V) Fault

section Compile

variable (H : Classes V) (order : IterOrder String)

/-- One item of `update_dict(partials[subcls], partials[last_parent])`. -/
def inheritOne (subcls : String) (s : State V) (p : String × Ref) : State V :=
  if H.nested && !(s.heap p.2).items.isEmpty then
    match (s.partials subcls).get? p.1 with
    | some r => s.write subcls r (H.merge (s.heap r) (s.heap p.2))
    | none => s.create subcls p.1 (H.merge {} (s.heap p.2))
  else s.point subcls p.1 p.2

/-- The partials of the last parent, but for keys that are also keywords of the class. -/
def inherit (clsKwargs : Kwargs V) (subcls : String) (s : State V) : State V :=
  match H.lastParent subcls with
  | none => s
  | some parent =>
    ((s.partials parent).filter fun p => (clsKwargs.get? p.1).isNone).items.foldl
      (inheritOne H subcls) s

/-- `func_kws` of a method, and its partials. -/
def compileKwargs (cls subcls : String) (s : State V) (func : String) : State V :=
  let own := s.held subcls func
  match (s.partials cls).get? func with
  | some r =>
    let s' := if own.items.isEmpty then s else s.write subcls r ((s.heap r).update own)
    s'.addPartials subcls func (s'.heap r)
  | none => s.addPartials subcls func (Dict.update {} own)

/-- A method of the subclass or of the class. -/
def compileMethod (cls subcls : String) (s : State V) (func : String) : State V :=
  if H.hasattr subcls func then compileKwargs cls subcls (s.addFunctions subcls [func]) func else s

/-- The methods that another class has registered, as far as the subclass has them; the text that is
logged names `func_id`. -/
def compileOther (cls subcls other : String) : Compiler V Unit := fun s =>
  if other = cls then (.ok (), s)
  else
    match s.registeredFunctions other with
    | none => (.ok (), s)
    | some fs =>
      if (fs.filter (H.hasattr subcls)).isEmpty then (.ok (), s)
      else if !s.bound then (.error .unboundLocalError, s)
      else (.ok (), ((order.list fs).filter (H.hasattr subcls)).foldl (compileKwargs cls subcls)
        (s.addFunctions subcls (fs.filter (H.hasattr subcls))))

/-- The subclass takes the functions and the partials of its parent; the dictionaries are shared. -/
def copyParent (subcls parent : String) (fs : List String) (s : State V) : State V :=
  { s with
    registeredFunctions := Function.update s.registeredFunctions subcls (some fs)
    partials := Function.update s.partials subcls (s.partials parent) }

/-- The class-level keyword arguments of the class and of the subclass. -/
def compileCls (clsKwargs : Kwargs V) (subcls : String) (s : State V) : State V :=
  let s' := s.addPartials subcls "cls" clsKwargs
  (s'.popPartials subcls "cls").addPartials subcls "cls" (s'.held subcls "cls")

/-- The methods of the subclass and of the class. -/
def compileOwn (cls subcls : String) (s : State V) : State V :=
  let s' := (s.functions subcls).foldl (compileMethod H cls subcls) s
  let s' := (s.functions cls).foldl (compileMethod H cls subcls) s'
  { s' with bound := s.bound || !(s.functions subcls ++ s.functions cls).isEmpty }

/-- The subclass, once it has its partials. -/
def compileMethods (cls : String) (clsKwargs : Kwargs V) (subcls : String) : Compiler V Unit :=
  fun s => s.registered.forM (compileOther H order cls subcls)
    (compileOwn H cls subcls (compileCls clsKwargs subcls s))

def compileSubclass (cls : String) (clsKwargs : Kwargs V) (subcls : String) : Compiler V Unit :=
  fun s =>
    let s' := inherit H clsKwargs subcls s
    if s'.functions subcls = [] then
      match H.lastParent subcls with
      | none => (.ok (), s')
      | some parent =>
        match s'.registeredFunctions parent with
        | none => (.error .keyError, s')
        | some fs => compileMethods H order cls clsKwargs subcls (copyParent subcls parent fs s')
    else compileMethods H order cls clsKwargs subcls s'

/-- `base_partial_kws.pop('cls', {})`. -/
def popCls (cls : String) : Compiler V (Kwargs V) :=
  Program.act fun s =>
    (s.held cls "cls", (s.popPartials cls "cls").addPartials cls "cls" (s.held cls "cls"))

/-- One class of `_compile_abcs`; `__subclasses__` are the classes that have it as a base. -/
def compileClass (cls : String) : Compiler V Unit := fun s =>
  (do
    let clsKwargs ← popCls cls
    (s.registered.filter fun subcls => cls ∈ H.bases subcls).forM
      (compileSubclass H order cls clsKwargs) : Compiler V Unit) s

def compileAbcs : Compiler V Unit := fun s =>
  s.registered.forM (compileClass H order) { s with bound := false }

/-- `compile_tasks`. -/
def compileTasks : Compiler V Unit := fun s =>
  if s.compiled then (.ok (), s)
  else
    (do
      compileAbcs H order
      Program.act fun s => ((), { s with compiled := true }) : Compiler V Unit) s

/-! ## Instances -/

/-- `func_kws` as `__register_abc_task_init__` passes it on. -/
def finalKwargs (cls func : String) (kwargs : Kwargs V) : Option (Kwargs V) :=
  let cron := (kwargs.get? "cron").isSome || (kwargs.get? "cronjob").isSome
  let valid := if cron then H.validateCronjob cls func kwargs else H.validateFunction cls func kwargs
  valid.map fun kwargs =>
    let name := if cron then (H.cronjobName cls func).or (H.functionName cls func)
      else H.functionName cls func
    let kwargs := name.elim kwargs (kwargs.setItem "name")
    if (kwargs.get? "name").isSome then kwargs else kwargs.setItem "name" (H.defaultName cls func)

/-- `__get_task_function_partials__` and the worker attributes: the class-level dictionary is changed
in place, if there is one. -/
def partialKwargs (cls func : String) (s : State V) : Kwargs V :=
  let kwargs := ((s.classPartials cls "cls").getD {}).update ((s.classPartials cls func).getD {})
  (H.workerAttributes cls func).elim kwargs (kwargs.setItem "worker_attributes")

def registerFunction (cls : String) (s : State V) (func : String) : State V :=
  let kwargs := partialKwargs H cls func s
  let s' : State V :=
    match s.classPartials cls "cls" with
    | none => s
    | some before =>
      { s.setClassPartials cls "cls" kwargs with
        clsWrites := s.clsWrites ++ [⟨cls, func, before, kwargs⟩] }
  { s' with
    registrations := s'.registrations ++
      ((finalKwargs H cls func kwargs).map fun kwargs => ⟨cls, func, kwargs⟩).toList }

/-- The partials of the parent for an instance without registered functions. -/
def mergeParent (cls parent : String) (fs : List String) (s : State V) : State V :=
  { s with
    classPartials := Function.update s.classPartials cls fun k =>
      if k ∈ fs then (s.classPartials cls k).or (((s.partials parent).get? k).map s.heap)
      else s.classPartials cls k }

/-- All methods are registered, in the order in which their set iterates. -/
def finish (cls queue : String) (fs : List String) (s : State V) : State V :=
  let s' := (order.list fs).foldl (registerFunction H cls) s
  { s' with initialized := s'.initialized ++ [(queue, cls)] }

/-- `__register_abc_task_init__`, after the compilation. -/
def registerAbcTask (cls queue : String) (s : State V) : State V :=
  if (queue, cls) ∈ s.initialized then s
  else
    match (s.registeredFunctions cls).getD [] with
    | f :: fs => finish H order cls queue (f :: fs) s
    | [] =>
      match H.lastParent cls with
      | none => s
      | some parent =>
        match (s.registeredFunctions parent).getD [] with
        | f :: fs => finish H order cls queue (f :: fs) (mergeParent cls parent (f :: fs) s)
        | [] => s

/-- A class is instantiated for a queue. -/
def instantiate (cls queue : String) : Compiler V Unit := do
  compileTasks H order
  Program.act fun s => ((), registerAbcTask H order cls queue s)

/-! ## Runs -/

/-- What a program does with its abstract tasks. -/
inductive Event (V : Type)
  | registerMethod (cls func : String) (kwargs : Kwargs V)
  | defineClass (cls : String)
  | registerClass (cls : String) (kwargs : Kwargs V)
  | instantiate (cls queue : String)

/-- An instance that cannot be made raises and leaves what was done. -/
def step (s : State V) : Event V → State V
  | .registerMethod cls func kwargs => s.registerMethod cls func kwargs
  | .defineClass cls => s.defineClass cls
  | .registerClass cls kwargs => s.registerClass cls kwargs
  | .instantiate cls queue => (instantiate H order cls queue s).2

def run (events : List (Event V)) : State V := events.foldl (step H order) {}

end Compile

end Kvdb.TaskPartials
