import Kvdb.Lib.Python
import Mathlib.Algebra.GroupWithZero.Nat
import Mathlib.Data.String.Basic

/-!
# The keys of cached calls (`create_cache_key_from_kwargs` of `utils/helpers.py`)

The arguments of a call are written one after the other with a colon between them and hashed. What
Python writes for a value and its type, and the digest, are parameters (`Printing`); the keys are of
`Cachify.build_hash_key`.

Different calls have the same key if their arguments read alike once they are cut at the colons, those
of a class method without the first one; the same call has two keys if it is passed keyword arguments
that are all excluded, and none (`sameKey_iff_separates`).
-/

namespace Kvdb

open Python (Dict pieces)

/-- `str` of a value and of its type, and `xxh64(…).hexdigest()` of a text. -/
structure Printing (V D : Type) where
  str : V → List Char
  typeStr : V → List Char
  isNone : V → Bool
  digest : List Char → D

/-- The arguments of a call. -/
structure CallArgs (V : Type) where
  args : List V
  kwargs : Dict String V := {}

/-- The other parameters of `create_cache_key_from_kwargs`. -/
structure CacheKeyConfig where
  base : Option (List Char) := none
  typed : Bool := false
  exclude : List String := []
  excludeKeys : List String := []
  excludeNull : Bool := true
  excludeDefaults : Bool := false
  sep : List Char := [':']
  isClassmethod : Bool := false

/-- `str(ENOVAL)`. -/
def enoval : List Char := "ENOVAL".toList

variable {V D : Type} (P : Printing V D)

namespace CacheKeyConfig

variable (cfg : CacheKeyConfig) (c : CallArgs V)

/-- The positional arguments that are written: `args[1:]` for a class method, though the arguments of a
bound one do not hold the class. -/
def positional : List V := if cfg.isClassmethod then c.args.tail else c.args

/-- The keyword arguments that are not excluded. -/
def kept : Dict String V :=
  c.kwargs.filter fun p =>
    p.1 ∉ cfg.exclude && !(cfg.excludeNull && P.isNone p.2) && p.1 ∉ cfg.excludeKeys

/-- The key, before it is joined. -/
def keyParts : List (List Char) :=
  let args := cfg.positional c
  let sortedItems := (cfg.kept P c).sortedItems
  args.map P.str ++
    (if c.kwargs.items = [] then []
      else enoval :: sortedItems.flatMap fun p => [p.1.toList, P.str p.2]) ++
    if cfg.typed then args.map P.typeStr ++ sortedItems.map (fun p => P.typeStr p.2) else []

/-- `inspect.Parameter.empty(v)` raises for any `v`. -/
def raises : Bool := cfg.excludeDefaults && (cfg.kept P c).items ≠ []

end CacheKeyConfig

open CacheKeyConfig

def createCacheKeyFromKwargs (cfg : CacheKeyConfig) (c : CallArgs V) : Option D :=
  if cfg.raises P c then none
  else
    let cacheKey := cfg.sep.intercalate (cfg.keyParts P c)
    some (P.digest (cfg.base.elim cacheKey fun base => base ++ cfg.sep ++ cacheKey))

/-- What a `Cachify` passes. -/
structure Hashing where
  typed : Bool := true
  excludeKeys : List String := []
  excludeNullValuesInHash : Bool := false
  excludeDefaultValuesInHash : Bool := false
  isClassMethod : Bool := false

def Hashing.config (H : Hashing) : CacheKeyConfig where
  typed := H.typed
  excludeKeys := H.excludeKeys
  excludeNull := H.excludeNullValuesInHash
  excludeDefaults := H.excludeDefaultValuesInHash
  isClassmethod := H.isClassMethod

def buildHashKey (H : Hashing) (c : CallArgs V) : Option D := createCacheKeyFromKwargs P H.config c

namespace Hashing

variable (H : Hashing) (c c' : CallArgs V)

def SameKey : Prop := ∃ key, buildHashKey P H c = some key ∧ buildHashKey P H c' = some key

/-- The same positional arguments, and the same keyword arguments but for the excluded ones. -/
def SameCall : Prop :=
  c.args = c'.args ∧ ∀ k, (H.config.kept P c).get? k = (H.config.kept P c').get? k

/-- Keyword arguments were passed, excluded or not, in both calls or in neither. -/
def PassedAlike : Prop := c.kwargs.items = [] ↔ c'.kwargs.items = []

/-- The texts of the positional arguments that are written, of the names and values of the keyword
arguments in the order of the names, and of the types, all cut at the colons. -/
def textPieces : List (List Char) :=
  let cut (text : List Char) := text.splitOn ':'
  let kwargs := (H.config.kept P c).sortedItems
  (H.config.positional c).flatMap (fun v => cut (P.str v)) ++
    (if c.kwargs.items = [] then []
      else enoval :: kwargs.flatMap fun p => cut p.1.toList ++ cut (P.str p.2)) ++
    if H.typed then (H.config.positional c).flatMap (fun v => cut (P.typeStr v)) ++
      kwargs.flatMap (fun p => cut (P.typeStr p.2))
    else []

/-- No pieces, or one that is empty, as of `f()` and `f("")`. -/
def blank (ps : List (List Char)) : Prop := ps = [] ∨ ps = [[]]

/-- The two calls read the same. -/
def ReadAlike : Prop :=
  textPieces P H c = textPieces P H c' ∨ blank (textPieces P H c) ∧ blank (textPieces P H c')

/-- `exclude_default_values_in_hash` does not make a key fail. The same call was passed its keyword
arguments alike; different calls do not read alike. -/
structure Separates : Prop where
  same : SameCall P H c c' → H.config.raises P c = false ∧ PassedAlike c c'
  different : ¬SameCall P H c c' → H.config.raises P c = false → H.config.raises P c' = false →
    ¬ReadAlike P H c c'

variable {P H c c'}

theorem pieces_keyParts : pieces ':' (H.config.keyParts P c) =
    if textPieces P H c = [] then [[]] else textPieces P H c := by
  have hcut : (H.config.keyParts P c).flatMap (fun x => x.splitOn ':') = textPieces P H c := by
    have henoval : enoval.splitOn ':' = [enoval] := by decide
    have htyped : H.config.typed = H.typed := rfl
    simp only [keyParts, textPieces, List.flatMap_append, List.flatMap_map, htyped]
    congr 2
    · split
      · rfl
      · simp [henoval, List.flatMap_assoc]
    · split
      · simp [List.flatMap_map]
      · rfl
  have hnil : H.config.keyParts P c = [] ↔ textPieces P H c = [] := by
    rw [← hcut, List.flatMap_eq_nil_iff]
    refine ⟨fun h => by simp [h], fun h => List.eq_nil_iff_forall_not_mem.2 fun x hx => ?_⟩
    exact List.splitOn_ne_nil _ _ (h x hx)
  simp only [pieces, hnil, hcut]

/-- The keys are made of what the calls read. -/
theorem pieces_eq_iff :
    pieces ':' (H.config.keyParts P c) = pieces ':' (H.config.keyParts P c') ↔ ReadAlike P H c c' := by
  rw [pieces_keyParts, pieces_keyParts]
  unfold ReadAlike blank
  by_cases h : textPieces P H c = [] <;> by_cases h' : textPieces P H c' = []
  · simp [h, h']
  · simp [h, h', eq_comm]
  · simp [h, h']
  · simp only [h, h', if_false, false_or]
    exact ⟨.inl, fun hor => hor.elim id fun hb => hb.1.trans hb.2.symm⟩

theorem sameKey_iff (hd : Function.Injective P.digest) :
    SameKey P H c c' ↔ H.config.raises P c = false ∧ H.config.raises P c' = false ∧
      ReadAlike P H c c' := by
  have hkey : ∀ c, buildHashKey P H c = if H.config.raises P c then none
      else some (P.digest ([':'].intercalate (H.config.keyParts P c))) := fun c => rfl
  rw [← pieces_eq_iff, ← Python.intercalate_inj]
  unfold SameKey
  rw [hkey, hkey]
  cases H.config.raises P c <;> cases H.config.raises P c' <;> simp [hd.eq_iff, eq_comm]

theorem positional_of_sameCall (h : SameCall P H c c') :
    H.config.positional c = H.config.positional c' := by
  simp only [positional, h.1]

theorem kept_of_passed_nothing (h : c.kwargs.items = []) : (H.config.kept P c).items = [] := by
  simp [kept, Dict.filter, h]

/-- The same call has the same parts, but for the mark of the keyword arguments. -/
theorem keyParts_of_sameCall (h : SameCall P H c c') (hp : PassedAlike c c') :
    H.config.keyParts P c = H.config.keyParts P c' := by
  have hitems : (H.config.kept P c).sortedItems = (H.config.kept P c').sortedItems :=
    Dict.sortedItems_congr h.2
  unfold PassedAlike at hp
  simp only [keyParts, positional_of_sameCall h, hitems, hp]

theorem raises_of_sameCall (h : SameCall P H c c') : H.config.raises P c = H.config.raises P c' := by
  have hnil : ∀ d d' : Dict String V, (∀ k, d.get? k = d'.get? k) → d.items = [] → d'.items = [] := by
    intro d d' hget hd
    refine List.eq_nil_iff_forall_not_mem.2 fun p hp => ?_
    have hmem : p ∈ d.items := Dict.mem_items.2 ((hget _).trans (Dict.mem_items.1 hp))
    rw [hd] at hmem
    cases hmem
  have hiff : (H.config.kept P c).items = [] ↔ (H.config.kept P c').items = [] :=
    ⟨hnil _ _ h.2, hnil _ _ fun k => (h.2 k).symm⟩
  simp only [raises, ne_eq, hiff]

theorem length_intercalate (x : List Char) (xs : List (List Char)) :
    ([':'].intercalate (x :: xs)).length + 1 = ((x :: xs).map fun x => x.length + 1).sum := by
  induction xs generalizing x with
  | nil => simp
  | cons y ys ih =>
    have hy := ih y
    rw [List.intercalate_cons_cons, List.length_append, List.length_append, List.map_cons,
      List.sum_cons, ← hy]
    simp only [List.length_singleton]
    omega

/-- The mark of excluded keyword arguments makes a difference. -/
theorem intercalate_enoval (xs ys : List (List Char)) (h : xs = [] → ys = []) :
    [':'].intercalate (xs ++ ys) ≠ [':'].intercalate (xs ++ [enoval] ++ ys) := by
  intro heq
  have hlen := congrArg List.length heq
  have henoval : enoval.length = 6 := by decide
  cases xs with
  | nil =>
    rw [h rfl] at hlen
    simp [henoval] at hlen
  | cons x xs =>
    have h1 := length_intercalate x (xs ++ ys)
    have h2 := length_intercalate x (xs ++ [enoval] ++ ys)
    simp only [List.cons_append] at hlen
    simp only [List.map_cons, List.map_append, List.map_nil, List.sum_cons, List.sum_append,
      List.sum_nil] at h1 h2
    omega

theorem not_readAlike (h : SameCall P H c c') (hc : c.kwargs.items = [])
    (hc' : c'.kwargs.items ≠ []) : ¬ReadAlike P H c c' := by
  have hkept : (H.config.kept P c).sortedItems = [] := by
    simp [Dict.sortedItems, kept_of_passed_nothing hc]
  have hkept' : (H.config.kept P c').sortedItems = [] := (Dict.sortedItems_congr h.2).symm.trans hkept
  rw [← pieces_eq_iff, ← Python.intercalate_inj]
  simp only [keyParts, hc, hc', hkept, hkept', positional_of_sameCall h, if_true, if_false,
    List.flatMap_nil, List.map_nil, List.append_nil]
  refine intercalate_enoval _ _ fun hargs => ?_
  rw [List.map_eq_nil_iff.1 hargs]
  simp

theorem readAlike_symm (h : ReadAlike P H c c') : ReadAlike P H c' c := by
  rcases h with h | ⟨h, h'⟩
  · exact .inl h.symm
  · exact .inr ⟨h', h⟩

/-- **The key is right** for two calls (they have the same key exactly if they are the same call) if and
only if they are the same call, passed its keyword arguments alike, or do not read alike. -/
theorem sameKey_iff_separates (hd : Function.Injective P.digest) :
    (SameKey P H c c' ↔ SameCall P H c c') ↔ Separates P H c c' := by
  rw [sameKey_iff hd]
  constructor
  · intro h
    refine ⟨fun hsame => ?_, fun hdiff hr hr' hp => hdiff (h.1 ⟨hr, hr', hp⟩)⟩
    obtain ⟨hr, -, hp⟩ := h.2 hsame
    refine ⟨hr, ?_⟩
    have hsymm : SameCall P H c' c := ⟨hsame.1.symm, fun k => (hsame.2 k).symm⟩
    by_cases hc : c.kwargs.items = [] <;> by_cases hc' : c'.kwargs.items = []
    · exact ⟨fun _ => hc', fun _ => hc⟩
    · exact absurd hp (not_readAlike hsame hc hc')
    · exact absurd (readAlike_symm hp) (not_readAlike hsymm hc' hc)
    · exact ⟨fun h => absurd h hc, fun h => absurd h hc'⟩
  · intro h
    constructor
    · intro hw
      obtain ⟨hr, hr', hp⟩ := hw
      by_contra hdiff
      exact h.different hdiff hr hr' hp
    · intro hsame
      obtain ⟨hr, hpassed⟩ := h.same hsame
      exact ⟨hr, raises_of_sameCall hsame ▸ hr,
        pieces_eq_iff.1 (congrArg (pieces ':') (keyParts_of_sameCall hsame hpassed))⟩

/-! ## Values written with their text -/

/-- A text, or an int, by what Python writes for it. -/
inductive Scalar
  | str (s : String)
  | int (n : ℤ)
  deriving DecidableEq

def scalarPrinting : Printing Scalar (List Char) where
  str
    | .str s => s.toList
    | .int n => (toString n).toList
  typeStr
    | .str _ => "<class 'str'>".toList
    | .int _ => "<class 'int'>".toList
  isNone _ := false
  digest := id

/-- `f(1, a=2, b=3)` and `f(1, b=3, a=2)`, with the keys `a` and `b`. -/
theorem sameKey_order :
    let c : CallArgs Scalar := ⟨[.int 1], ⟨[("a", .int 2), ("b", .int 3)], by decide⟩⟩
    let c' : CallArgs Scalar := ⟨[.int 1], ⟨[("b", .int 3), ("a", .int 2)], by decide⟩⟩
    SameKey scalarPrinting {} c c' ↔ SameCall scalarPrinting {} c c' := by
  intro c c'
  have hsame : SameCall scalarPrinting {} c c' := by
    refine ⟨rfl, fun k => ?_⟩
    have hperm : ∀ p, p ∈ c.kwargs.items ↔ p ∈ c'.kwargs.items := by simp [c, c', or_comm]
    refine Option.ext fun v => ?_
    rw [← Dict.mem_items, ← Dict.mem_items]
    simp only [kept, Dict.filter, List.mem_filter, hperm]
  refine (sameKey_iff_separates Function.injective_id).2 ⟨fun _ => ⟨rfl, ?_⟩, fun h => absurd hsame h⟩
  exact ⟨nofun, nofun⟩

/-- `f("x:y", "z")` and `f("x", "y:z")` have the same key, and so have `m("x")` and `m("y")` of a class
method; with `s` excluded, `f()` and `f(s=1)` do not. -/
theorem sameKey_broken :
    let f (args : List String) : CallArgs Scalar := ⟨args.map .str, {}⟩
    let g (items : List (String × Scalar)) (h : (items.map Prod.fst).Nodup) : CallArgs Scalar :=
      ⟨[], ⟨items, h⟩⟩
    (SameKey scalarPrinting {} (f ["x:y", "z"]) (f ["x", "y:z"]) ∧
      ¬SameCall scalarPrinting {} (f ["x:y", "z"]) (f ["x", "y:z"])) ∧
    (SameKey scalarPrinting { isClassMethod := true } (f ["x"]) (f ["y"]) ∧
      ¬SameCall scalarPrinting { isClassMethod := true } (f ["x"]) (f ["y"])) ∧
    SameCall scalarPrinting { excludeKeys := ["s"] } (g [] (by simp)) (g [("s", .int 1)] (by simp)) ∧
      ¬SameKey scalarPrinting { excludeKeys := ["s"] } (g [] (by simp)) (g [("s", .int 1)] (by simp)) := by
  refine ⟨⟨⟨_, rfl, ?_⟩, fun h => ?_⟩, ⟨⟨_, rfl, rfl⟩, fun h => ?_⟩, ⟨rfl, fun k => ?_⟩, ?_⟩
  · decide +kernel
  · exact absurd h.1 (by decide)
  · exact absurd h.1 (by decide)
  · rfl
  · intro hw
    obtain ⟨key, hkey, hkey'⟩ := hw
    rw [← hkey'] at hkey
    revert hkey
    decide +kernel

end Hashing

end Kvdb
