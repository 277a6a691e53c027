import Kvdb.Io.CachifyStore

/-!
# The two storage modes

`Sim field aside s h`: in `hset` mode the hash `h` is stored under `field`, in plain-key mode each of
its fields has a key of its own, and all other keys are those of `aside` in both modes. The operations
on some keys keep this as long as the names of these keys are not in `aside` (`sim_step`), and both modes
reply alike, but for a `_set` of a key that has a value already, which replies 0 in one mode and `True`
in the other. Everything that needs the pattern of all keys raises in plain-key mode.
-/

namespace Kvdb.CacheStore

open Lib Redis

variable {R : Type} [DecidableEq R] {field : String} {aside : Server R} {s s' : Modes R}
  {h h' : Hash String R} {server : Server R}

/-- The key of a value in plain-key mode. -/
def plainName (field key : String) : String := field ++ ":" ++ key

theorem plainName_injective : Function.Injective (plainName field) :=
  fun _ _ h => (String.append_right_inj _).1 h

/-! ## Commands -/

omit [DecidableEq R] in
theorem eq_empty_of_hkeys (h0 : h.hkeys = []) : h = ∅ := by
  refine AList.ext ?_
  simpa [Hash.hkeys, AList.keys, List.keys] using h0

theorem readHash_of_fields (hf : fields server field = some h) (f : Hash String R → Reply R) :
    readHash field f server = (.ok (f h), server) := by
  rw [readHash, hf]

theorem writeHash_of_fields (hf : fields server field = some h)
    (f : Hash String R → ℕ × Hash String R) :
    (writeHash field f server).1 = .ok (.num (f h).1) ∧
      fields (writeHash field f server).2 field = some (f h).2 ∧
      ∀ name, name ≠ field → (writeHash field f server).2.hget name = server.hget name := by
  rw [writeHash, hf]
  refine ⟨rfl, ?_, fun name hne => ?_⟩
  · dsimp only
    split
    · rename_i h0
      rw [fields, Hash.hget_hdel, if_pos rfl, eq_empty_of_hkeys h0]
    · rw [fields, Hash.hget_hset, if_pos rfl]
  · dsimp only
    split
    · rw [Hash.hget_hdel, if_neg hne]
    · rw [Hash.hget_hset, if_neg hne]

theorem delCount_map {β γ : Type} {h : Hash String β} {server : Hash String γ} {ks : List String}
    (hk : ∀ k ∈ ks, h.hexists k = server.hexists (plainName field k)) :
    delCount h ks = delCount server (ks.map (plainName field)) := by
  induction ks generalizing h server with
  | nil => rfl
  | cons k ks ih =>
    rw [List.map_cons, delCount, delCount, hk k List.mem_cons_self]
    congr 1
    refine ih fun k' hk' => ?_
    have hk' := hk k' (List.mem_cons_of_mem _ hk')
    unfold Hash.hexists at *
    simp only [Hash.hget_hdel, plainName_injective.eq_iff]
    split
    · rfl
    · exact hk'

/-! ## The simulation -/

/-- Both modes hold the values of `h`, beside `aside`. -/
structure Sim (field : String) (aside : Server R) (s : Modes R) (h : Hash String R) : Prop where
  fields : fields s.hset field = some h
  beside : ∀ name, name ≠ field → s.hset.hget name = aside.hget name
  plain : ∀ k, s.plain.hget (plainName field k) =
    ((h.hget k).map Stored.string).or (aside.hget (plainName field k))
  others : ∀ name, (∀ k, name ≠ plainName field k) → s.plain.hget name = aside.hget name
  apart : ∀ k, (h.hget k).isSome → aside.hget (plainName field k) = none

namespace Sim

theorem init (hf : aside.hget field = none) : Sim field aside ⟨aside, aside⟩ ∅ where
  fields := by rw [CacheStore.fields, hf]
  beside _ _ := rfl
  plain _ := by simp
  others _ _ := rfl
  apart k hk := by simp at hk

/-- A key whose name is not in `aside`. -/
theorem hget_plainName (hs : Sim field aside s h) {k : String}
    (hk : aside.hget (plainName field k) = none) :
    s.plain.hget (plainName field k) = (h.hget k).map Stored.string := by
  rw [hs.plain, hk, Option.or_none]

theorem hexists_plainName (hs : Sim field aside s h) {k : String}
    (hk : aside.hget (plainName field k) = none) :
    h.hexists k = s.plain.hexists (plainName field k) := by
  rw [Hash.hexists, Hash.hexists, hs.hget_plainName hk, Option.isSome_map]

/-- Both modes change the values of `ks`. -/
theorem update (hs : Sim field aside s h) {ks : List String}
    (hfree : ∀ k ∈ ks, aside.hget (plainName field k) = none)
    (hfields : CacheStore.fields s'.hset field = some h')
    (hbeside : ∀ name, name ≠ field → s'.hset.hget name = s.hset.hget name)
    (hsame : ∀ k, k ∉ ks → h'.hget k = h.hget k)
    (hplain : ∀ k ∈ ks, s'.plain.hget (plainName field k) = (h'.hget k).map Stored.string)
    (hrest : ∀ name, name ∉ ks.map (plainName field) → s'.plain.hget name = s.plain.hget name) :
    Sim field aside s' h' where
  fields := hfields
  beside name hne := (hbeside name hne).trans (hs.beside name hne)
  plain k := by
    by_cases hk : k ∈ ks
    · rw [hplain k hk, hfree k hk, Option.or_none]
    · have hm : plainName field k ∉ ks.map (plainName field) := by
        rw [List.mem_map_of_injective plainName_injective]
        exact hk
      rw [hrest _ hm, hs.plain, hsame k hk]
  others name hne := by
    rw [hrest name ?_, hs.others name hne]
    intro hm
    obtain ⟨k, -, hk⟩ := List.mem_map.1 hm
    exact hne k hk.symm
  apart k hk := by
    by_cases hm : k ∈ ks
    · exact hfree k hm
    · rw [hsame k hm] at hk
      exact hs.apart k hk

end Sim

/-! ## Steps -/

/-- The two configurations. -/
def hashMode (field : String) : StoreConfig := { cacheField := field }

def plainMode (field : String) : StoreConfig := { cacheField := field, hsetEnabled := false }

/-- The operation reads or changes some keys only, and their names are not in `aside`. -/
def Works (field : String) (aside : Server R) : StoreOp R → Prop
  | .get key | .set key _ | .delete key | .existsKey key =>
    aside.hget (plainName field key) = none
  | .clearKeys keys | .clear keys =>
    keys ≠ [] ∧ ∀ k ∈ keys, aside.hget (plainName field k) = none
  | .length | .keys | .values | .items => False

/-- The keys that the operation clears. -/
def StoreOp.cleared : StoreOp R → List String
  | .delete key => [key]
  | .clearKeys ks | .clear ks => ks
  | _ => []

/-- Both modes reply alike, and raise nothing. -/
def SameReply (field : String) (s : Modes R) (op : StoreOp R) : Prop :=
  ∃ r, (op.run (hashMode field) s.hset).1 = .ok r ∧ (op.run (plainMode field) s.plain).1 = .ok r

/-- The operation writes no key that has a value. -/
def Fresh (field : String) (s : Modes R) (op : StoreOp R) : Prop :=
  ∀ key value, op = .set key value → s.plain.hget (plainName field key) = none

/-- The state after the operation. -/
def after (field : String) (s : Modes R) (op : StoreOp R) : Modes R :=
  { hset := (op.run (hashMode field) s.hset).2
    plain := (op.run (plainMode field) s.plain).2 }

/-- An operation that only reads. -/
theorem sim_read (hs : Sim field aside s h) {op : StoreOp R} {r : Reply R}
    (hhash : op.run (hashMode field) s.hset = (.ok r, s.hset))
    (hplain : op.run (plainMode field) s.plain = (.ok r, s.plain)) :
    Sim field aside (after field s op) h ∧ SameReply field s op := by
  unfold after SameReply
  rw [hhash, hplain]
  exact ⟨hs, r, rfl, rfl⟩

theorem sim_get (hs : Sim field aside s h) {k : String}
    (hk : aside.hget (plainName field k) = none) :
    Sim field aside (after field s (.get k)) h ∧ SameReply field s (.get k) := by
  refine sim_read hs (readHash_of_fields hs.fields _) ?_
  show getString (plainName field k) s.plain = _
  rw [getString, hs.hget_plainName hk]
  cases h.hget k <;> rfl

theorem sim_exists (hs : Sim field aside s h) {k : String}
    (hk : aside.hget (plainName field k) = none) :
    Sim field aside (after field s (.existsKey k)) h ∧ SameReply field s (.existsKey k) := by
  refine sim_read hs (readHash_of_fields hs.fields _) ?_
  show existsKey (plainName field k) s.plain = _
  rw [existsKey, hs.hexists_plainName hk]

theorem sim_set (hs : Sim field aside s h) {k : String} (v : R)
    (hk : aside.hget (plainName field k) = none) :
    Sim field aside (after field s (.set k v)) (h.hset k v) ∧
      (SameReply field s (.set k v) ↔ s.plain.hget (plainName field k) = none) := by
  obtain ⟨hreply, hfields, hbeside⟩ := writeHash_of_fields hs.fields
    fun h => (if h.hexists k then 0 else 1, h.hset k v)
  constructor
  · have hks : ∀ k' ∈ [k], aside.hget (plainName field k') = none := by simpa using hk
    refine hs.update hks hfields hbeside ?_ ?_ ?_
    · intro k' hk'
      rw [Hash.hget_hset, if_neg (by simpa using hk')]
    · intro k' hk'
      obtain rfl := List.mem_singleton.1 hk'
      rw [Hash.hget_hset, if_pos rfl]
      exact (Hash.hget_hset ..).trans (if_pos rfl)
    · intro name hname
      have hne : name ≠ plainName field k := by simpa using hname
      exact (Hash.hget_hset ..).trans (if_neg hne)
  · have hexists : h.hexists k = true ↔ s.plain.hget (plainName field k) ≠ none := by
      rw [hs.hexists_plainName hk, Hash.hexists, Option.isSome_iff_ne_none]
    constructor
    · intro hsame
      obtain ⟨r, hr, hr'⟩ := hsame
      obtain rfl : Reply.num 1 = r := Except.ok.inj hr'
      have hnum := Reply.num.inj (Except.ok.inj (hreply.symm.trans hr))
      by_contra hne
      rw [if_pos (hexists.2 hne)] at hnum
      cases hnum
    · intro hnone
      refine ⟨.num 1, hreply.trans ?_, rfl⟩
      rw [if_neg (mt hexists.1 (not_not.2 hnone))]

/-- The operations that remove keys. -/
theorem sim_del (hs : Sim field aside s h) {ks : List String} {op : StoreOp R}
    (hk : ∀ k ∈ ks, aside.hget (plainName field k) = none)
    (hhash : op.run (hashMode field) = hdel field ks)
    (hplain : op.run (plainMode field) = del (ks.map (plainName field))) :
    Sim field aside (after field s op) (h.hdelAll ks) ∧ SameReply field s op := by
  obtain ⟨hreply, hfields, hbeside⟩ := writeHash_of_fields hs.fields
    fun h => (delCount h ks, h.hdelAll ks)
  unfold after SameReply
  rw [hhash, hplain]
  constructor
  · refine hs.update hk hfields hbeside ?_ ?_ ?_
    · intro k hk'
      rw [Hash.hget_hdelAll, if_neg hk']
    · intro k hk'
      rw [Hash.hget_hdelAll, if_pos hk']
      exact (Hash.hget_hdelAll ..).trans (if_pos (List.mem_map_of_mem hk'))
    · intro name hname
      exact (Hash.hget_hdelAll ..).trans (if_neg hname)
  · refine ⟨_, hreply, ?_⟩
    rw [delCount_map fun k hk' => hs.hexists_plainName (hk k hk')]
    rfl

/-- What is stored beside the values stays, and the cleared keys have no value. -/
def Clean (field : String) (aside : Server R) (s : Modes R) (op : StoreOp R) : Prop :=
  (∀ name, aside.hget name ≠ none →
      (after field s op).hset.hget name = aside.hget name ∧
        (after field s op).plain.hget name = aside.hget name) ∧
    ∀ k ∈ op.cleared, (fields (after field s op).hset field).any (fun h => h.hexists k) = false ∧
      (after field s op).plain.hexists (plainName field k) = false

theorem Sim.beside_of_ne (hs : Sim field aside s h) (hf : aside.hget field = none) {name : String}
    (hname : aside.hget name ≠ none) :
    s.hset.hget name = aside.hget name ∧ s.plain.hget name = aside.hget name := by
  refine ⟨hs.beside name ?_, ?_⟩
  · rintro rfl
    exact hname hf
  · by_cases hex : ∃ k, name = plainName field k
    · obtain ⟨k, rfl⟩ := hex
      rw [hs.plain]
      cases hk : h.hget k with
      | none => rfl
      | some v => exact absurd (hs.apart k (by rw [hk]; rfl)) hname
    · exact hs.others name fun k hk => hex ⟨k, hk⟩

omit [DecidableEq R] in
theorem hget_cleared {ks : List String} : ∀ k ∈ ks, (h.hdelAll ks).hget k = none := by
  intro k hk
  rw [Hash.hget_hdelAll, if_pos hk]

theorem Works.cleared {op : StoreOp R} (hw : Works field aside op) :
    ∀ k ∈ op.cleared, aside.hget (plainName field k) = none := by
  cases op with
  | delete k =>
    intro k' hk'
    obtain rfl := List.mem_singleton.1 hk'
    exact hw
  | clearKeys ks | clear ks => exact hw.2
  | get k | set k v | existsKey k | length | keys | values | items => simp [StoreOp.cleared]

/-- **A step in both modes**: all replies agree but those to a `_set` of a key that has a value. -/
theorem sim_step (hs : Sim field aside s h) {op : StoreOp R} (hw : Works field aside op) :
    ∃ h', Sim field aside (after field s op) h' ∧ (∀ k ∈ op.cleared, h'.hget k = none) ∧
      (SameReply field s op ↔ Fresh field s op) := by
  cases op with
  | get k =>
    obtain ⟨hsim, hreply⟩ := sim_get hs hw
    exact ⟨h, hsim, by simp [StoreOp.cleared], iff_of_true hreply (by simp [Fresh])⟩
  | existsKey k =>
    obtain ⟨hsim, hreply⟩ := sim_exists hs hw
    exact ⟨h, hsim, by simp [StoreOp.cleared], iff_of_true hreply (by simp [Fresh])⟩
  | set k v =>
    obtain ⟨hsim, hreply⟩ := sim_set hs v hw
    refine ⟨h.hset k v, hsim, by simp [StoreOp.cleared], hreply.trans ?_⟩
    simp [Fresh]
  | delete k =>
    have hhash : (StoreOp.delete k : StoreOp R).run (hashMode field) = hdel field [k] := rfl
    obtain ⟨hsim, hreply⟩ := sim_del hs hw.cleared hhash rfl
    exact ⟨_, hsim, hget_cleared, iff_of_true hreply (by simp [Fresh])⟩
  | clearKeys ks =>
    have hhash : (StoreOp.clearKeys ks : StoreOp R).run (hashMode field) = hdel field ks :=
      if_pos hw.1
    have hplain : (StoreOp.clearKeys ks : StoreOp R).run (plainMode field) =
        del (ks.map (plainName field)) := if_pos hw.1
    obtain ⟨hsim, hreply⟩ := sim_del hs hw.2 hhash hplain
    exact ⟨_, hsim, hget_cleared, iff_of_true hreply (by simp [Fresh])⟩
  | clear ks =>
    have hhash : (StoreOp.clear ks : StoreOp R).run (hashMode field) = hdel field ks :=
      if_pos hw.1
    have hplain : (StoreOp.clear ks : StoreOp R).run (plainMode field) =
        del (ks.map (plainName field)) := if_pos hw.1
    obtain ⟨hsim, hreply⟩ := sim_del hs hw.2 hhash hplain
    exact ⟨_, hsim, hget_cleared, iff_of_true hreply (by simp [Fresh])⟩
  | length | keys | values | items => exact hw.elim

/-- What needs all keys raises in plain-key mode. -/
theorem plain_raises {op : StoreOp R}
    (hop : op ∈ [.length, .keys, .values, .items, .clearKeys [], .clear []]) :
    (op.run (plainMode field) server).1 = .error .typeError := by
  simp only [List.mem_cons, List.not_mem_nil, or_false] at hop
  rcases hop with rfl | rfl | rfl | rfl | rfl | rfl <;> rfl

/-! ## Runs -/

theorem sim_run (hf : aside.hget field = none) {ops : List (StoreOp R)}
    (hr : (modesMachine field aside).Run (fun _ op => Works field aside op) ⟨aside, aside⟩ ops s) :
    ∃ h, Sim field aside s h := by
  refine hr.inv (fun s => ∃ h, Sim field aside s h) ⟨∅, .init hf⟩ ?_
  intro t op u ht hw hstep
  obtain ⟨h, ht⟩ := ht
  obtain rfl := Option.some.inj hstep
  obtain ⟨h', hsim, -⟩ := sim_step ht hw
  exact ⟨h', hsim⟩

/-- **The modes agree** in the runs of operations on keys whose names are free: what is stored beside
stays, cleared keys are gone, and the replies are the same exactly if no key that has a value is set. -/
theorem run_modes_agree (hf : aside.hget field = none) {ops : List (StoreOp R)}
    (hr : (modesMachine field aside).Run (fun _ op => Works field aside op) ⟨aside, aside⟩ ops s) :
    (modesMachine field aside).Run
      (fun s op => Clean field aside s op ∧ (SameReply field s op ↔ Fresh field s op))
      ⟨aside, aside⟩ ops s := by
  refine hr.imp fun hr _ hw _ => ?_
  obtain ⟨h, hs⟩ := sim_run hf hr
  obtain ⟨h', hsim, hcleared, hreply⟩ := sim_step hs hw
  refine ⟨⟨fun name hname => hsim.beside_of_ne hf hname, fun k hk => ?_⟩, hreply⟩
  have hk' := hcleared k hk
  rw [hsim.fields, Hash.hexists, hsim.hget_plainName (hw.cleared k hk), hk']
  simp [Hash.hexists, hk']

/-- The metadata of the function. -/
def metadata : Server ℕ := Hash.hset ∅ "f:data" (.hash (Hash.hset ∅ "hits" 1))

theorem run_modes_agree_metadata :
    ∃ s, (modesMachine "f" metadata).Run
      (fun s op => Clean "f" metadata s op ∧ (SameReply "f" s op ↔ Fresh "f" s op))
      ⟨metadata, metadata⟩ [.set "a" 1, .get "a", .clear ["a"]] s := by
  have h : ∃ s, (modesMachine "f" metadata).Run (fun _ op => Works "f" metadata op)
      ⟨metadata, metadata⟩ [.set "a" 1, .get "a", .clear ["a"]] s := by
    refine ⟨_, .snoc (.snoc (.snoc .nil ?_ rfl) ?_ rfl) ?_ rfl⟩
    · show metadata.hget (plainName "f" "a") = none
      decide +kernel
    · show metadata.hget (plainName "f" "a") = none
      decide +kernel
    · refine ⟨by simp, ?_⟩
      decide +kernel
  obtain ⟨s, hr⟩ := h
  exact ⟨s, run_modes_agree (by decide +kernel) hr⟩

/-- One value is stored; its number is asked for, and everything is to be cleared. -/
theorem run_modes_broken :
    ∃ s, (modesMachine "f" (∅ : Server ℕ)).Run Machine.Any ⟨∅, ∅⟩ [.set "a" 1] s ∧
      ((StoreOp.length.run (hashMode "f") s.hset).1 = .ok (.num 1) ∧
        ((StoreOp.clear []).run (hashMode "f") s.hset).1 = .ok (.num 1) ∧
        ((StoreOp.clear []).run (plainMode "f") s.plain).2.hexists "f:a" = true) ∧
      ¬ SameReply "f" s .length ∧ ¬ SameReply "f" s (.clear []) := by
  have h : ∃ s, (modesMachine "f" (∅ : Server ℕ)).Run Machine.Any ⟨∅, ∅⟩ [.set "a" 1] s ∧
      ((StoreOp.length.run (hashMode "f") s.hset).1 = .ok (.num 1) ∧
        ((StoreOp.clear []).run (hashMode "f") s.hset).1 = .ok (.num 1) ∧
        ((StoreOp.clear []).run (plainMode "f") s.plain).2.hexists "f:a" = true) :=
    Machine.exists_run (by decide +kernel) (by decide +kernel)
  obtain ⟨s, hr, hs⟩ := h
  refine ⟨s, hr, hs, fun hsame => ?_, fun hsame => ?_⟩
  · obtain ⟨r, -, hplain⟩ := hsame
    rw [plain_raises (by simp)] at hplain
    cases hplain
  · obtain ⟨r, -, hplain⟩ := hsame
    rw [plain_raises (by simp)] at hplain
    cases hplain

end Kvdb.CacheStore
