import Kvdb.Components.Proof.Views

/-!
# Listings with a pattern

`Lists result P`: a listing returns the keys with `P`. In plain-key mode that is a question of which
names the two patterns find (`plainGetKeys_lists`); in hset mode of what `re.match` says of a glob
pattern (`hsetGetKeys_lists`). If the base key is taken literally, the pattern of `aget_keys` is
right and that of `get_keys` lacks the join (`findsAs_async`).
-/

namespace Kvdb

open Redis Python HsetStore

namespace Backend

/-- The keys that are listed are those with `P`. -/
def Lists (result : Option (List PyKey)) (P : String → Prop) : Prop :=
  ∃ keys, result = some keys ∧ ∀ key, key ∈ keys ↔ ∃ n, key = some n ∧ P n

variable {V : Type} (b : Backend ByteArray V) (decodeResponses : Bool)

/-! ## Plain-key mode -/

/-- The name of a key in the namespace that matches the pattern. -/
def Selects (pattern n : String) : Prop :=
  ∃ k, n = b.baseKey ++ b.keyjoin ++ k ∧ b.globMatch pattern k = true

/-- Of these names, the pattern of `KEYS` finds those of matching keys, and none that the session
takes for `None`. -/
def FindsAs (server : Keyspace) (pattern : String) (v : Python.Variant) : Prop :=
  ∀ n ∈ server.hkeys,
    (b.globMatch (b.basePattern pattern v) n = true ↔ b.Selects pattern n) ∧
      (decodeResponses = true → n = encoderNullValue → ¬ b.Selects pattern n)

variable {b decodeResponses}

/-- **A listing in plain-key mode** is right if and only if its pattern finds the right names. -/
theorem plainGetKeys_lists {v : Python.Variant} {server : Keyspace} {pattern : String} :
    Lists (b.plainGetKeys decodeResponses v server pattern false)
        (fun n => n ∈ server.hkeys ∧ b.Selects pattern n) ↔
      b.FindsAs decodeResponses server pattern v := by
  have hkeys : ∀ key : PyKey,
      key ∈ (server.keys b.globMatch (b.basePattern pattern v)).map (responseKey decodeResponses) ↔
        ∃ n, (n ∈ server.hkeys ∧ b.globMatch (b.basePattern pattern v) n = true) ∧
          responseKey decodeResponses n = key := by
    intro key
    simp only [Keyspace.keys, List.mem_map, List.mem_filter]
  have hunfold : b.plainGetKeys decodeResponses v server pattern false =
      some ((server.keys b.globMatch (b.basePattern pattern v)).map
        (responseKey decodeResponses)) := rfl
  simp only [Lists, hunfold, Option.some.injEq, exists_eq_left', hkeys]
  constructor
  · intro h n hn
    have htext : b.globMatch (b.basePattern pattern v) n = true →
        responseKey decodeResponses n = some n ∧ b.Selects pattern n := by
      intro hg
      obtain ⟨m, hm, -, hsel⟩ := (h _).1 ⟨n, ⟨hn, hg⟩, rfl⟩
      obtain ⟨rfl, -⟩ := responseKey_eq_some.1 hm
      exact ⟨hm, hsel⟩
    have hfound : b.Selects pattern n →
        b.globMatch (b.basePattern pattern v) n = true ∧
          responseKey decodeResponses n = some n := by
      intro hsel
      obtain ⟨m, ⟨-, hg⟩, hr⟩ := (h (some n)).2 ⟨n, rfl, hn, hsel⟩
      obtain ⟨rfl, -⟩ := responseKey_eq_some.1 hr
      exact ⟨hg, hr⟩
    exact ⟨⟨fun hg => (htext hg).2, fun hsel => (hfound hsel).1⟩,
      fun hd hnull hsel => (responseKey_eq_some.1 (hfound hsel).2).2 ⟨hd, hnull⟩⟩
  · intro h key
    have htext : ∀ n ∈ server.hkeys, b.Selects pattern n → responseKey decodeResponses n = some n :=
      fun n hn hsel => responseKey_eq_some.2 ⟨rfl, fun hnull => (h n hn).2 hnull.1 hnull.2 hsel⟩
    constructor
    · rintro ⟨n, ⟨hn, hg⟩, rfl⟩
      have hsel := (h n hn).1.1 hg
      exact ⟨n, htext n hn hsel, hn, hsel⟩
    · rintro ⟨n, rfl, hn, hsel⟩
      exact ⟨n, ⟨hn, (h n hn).1.2 hsel⟩, htext n hn hsel⟩

/-- A base key that the server takes literally. -/
def Literal (b : Backend ByteArray V) : Prop :=
  ∀ pattern n, b.globMatch (b.baseKey ++ b.keyjoin ++ pattern) n = true ↔ b.Selects pattern n

/-- **The pattern of `aget_keys`** finds the right names. -/
theorem findsAs_async (h : b.Literal) {server : Keyspace}
    (hnull : decodeResponses = true → encoderNullValue ∉ server.hkeys) (pattern : String) :
    b.FindsAs decodeResponses server pattern .async := fun n hn =>
  ⟨h pattern n, fun hd heq => absurd (heq ▸ hn) (hnull hd)⟩

/-! ## hset mode -/

section Hset

variable {reMatch : ReMatch} {now : ℤ} {s : HsetStore ByteArray} {pattern : String}

variable (decodeResponses) in
/-- The keys for which `re.match` says something. -/
def Matchable (reMatch : ReMatch) (pattern : String) (k : String) : Prop :=
  ¬ (decodeResponses = true ∧ k = encoderNullValue) ∧ reMatch pattern k ≠ none

theorem matchKeys_of_matchable {ns : List String}
    (h : ∀ k ∈ ns, Matchable decodeResponses reMatch pattern k) :
    matchKeys reMatch pattern (ns.map (responseKey decodeResponses)) =
      some ((ns.filter fun k => reMatch pattern k = some true).map some) := by
  induction ns with
  | nil => rfl
  | cons k ns ih =>
    obtain ⟨hnull, hmatch⟩ := h k List.mem_cons_self
    obtain ⟨m, hm⟩ := Option.ne_none_iff_exists'.1 hmatch
    have hr : responseKey decodeResponses k = some k := responseKey_eq_some.2 ⟨rfl, hnull⟩
    rw [List.map_cons, hr, matchKeys, hm, ih fun k' hk' => h k' (List.mem_cons_of_mem _ hk')]
    cases m <;> simp [hm]

theorem matchable_of_matchKeys {ns : List String} {found : List PyKey}
    (h : matchKeys reMatch pattern (ns.map (responseKey decodeResponses)) = some found) :
    ∀ k ∈ ns, Matchable decodeResponses reMatch pattern k := by
  induction ns generalizing found with
  | nil => simp
  | cons k ns ih =>
    rw [List.map_cons] at h
    rcases hr : responseKey decodeResponses k with _ | m
    · rw [hr] at h
      cases h
    · obtain ⟨rfl, hnull⟩ := responseKey_eq_some.1 hr
      rw [hr] at h
      simp only [matchKeys, Option.bind_eq_bind, Option.bind_eq_some_iff] at h
      obtain ⟨m, hm, found', hfound, -⟩ := h
      rw [List.forall_mem_cons]
      exact ⟨⟨hnull, by simp [hm]⟩, ih hfound⟩

variable (b decodeResponses) in
/-- On these keys `re.match` says what the glob pattern means, and none of them is taken for `None`.
-/
def MatchesAs (reMatch : ReMatch) (keys : String → Prop) (pattern : String) : Prop :=
  ∀ k, keys k → reMatch pattern k = some (b.globMatch pattern k) ∧
    ¬ (decodeResponses = true ∧ k = encoderNullValue)

/-- **A listing in hset mode** is right if and only if `re.match` says of every key what the glob
pattern means. -/
theorem hsetGetKeys_lists :
    Lists (b.hsetGetKeys decodeResponses reMatch now s pattern false)
        (fun k => (s.luaHget k now).1 ≠ none ∧ b.globMatch pattern k = true) ↔
      b.MatchesAs decodeResponses reMatch (fun k => (s.luaHget k now).1 ≠ none) pattern := by
  have hunfold : b.hsetGetKeys decodeResponses reMatch now s pattern false =
      matchKeys reMatch pattern
        ((s.runExpirationCheck now []).data.hkeys.map (responseKey decodeResponses)) := by
    simp only [hsetGetKeys, Bool.false_eq_true, ↓reduceIte, Option.bind_eq_bind]
    exact Option.bind_fun_some _
  rw [hunfold]
  constructor
  · rintro ⟨found, hfound, hkeys⟩ k hk
    have hm := matchable_of_matchKeys hfound
    rw [matchKeys_of_matchable hm] at hfound
    obtain rfl := Option.some.inj hfound
    have hmem := mem_hkeys_runExpirationCheck.2 hk
    refine ⟨?_, (hm k hmem).1⟩
    obtain ⟨m, hmk⟩ := Option.ne_none_iff_exists'.1 (hm k hmem).2
    have hiff : m = true ↔ b.globMatch pattern k = true := by
      have hkey := hkeys (some k)
      simpa [hmem, hmk, hk] using hkey
    rw [hmk, Bool.eq_iff_iff.2 hiff]
  · intro h
    have hm : ∀ k ∈ (s.runExpirationCheck now []).data.hkeys,
        Matchable decodeResponses reMatch pattern k := by
      intro k hk
      obtain ⟨hre, hnull⟩ := h k (mem_hkeys_runExpirationCheck.1 hk)
      exact ⟨hnull, by simp [hre]⟩
    refine ⟨_, matchKeys_of_matchable hm, fun key => ?_⟩
    simp only [List.mem_map, List.mem_filter, decide_eq_true_eq]
    constructor
    · rintro ⟨k, ⟨hk, hre⟩, rfl⟩
      have hlive := mem_hkeys_runExpirationCheck.1 hk
      rw [(h k hlive).1] at hre
      exact ⟨k, rfl, hlive, Option.some.inj hre⟩
    · rintro ⟨k, rfl, hlive, hg⟩
      exact ⟨k, ⟨mem_hkeys_runExpirationCheck.2 hlive, by rw [(h k hlive).1, hg]⟩, rfl⟩

end Hset

/-! ## Both modes -/

/-- **Pattern listing is one function** if and only if the patterns of both variants find the names
of the keys that match the glob pattern, and `re.match` says of the keys in hset mode what it means.
-/
theorem getKeys_iff (b : Backend ByteArray V) (decodeResponses : Bool) (reMatch : ReMatch) (now : ℤ)
    (s : HsetStore ByteArray) (server : Keyspace) (pattern : String) :
    (Lists (b.hsetGetKeys decodeResponses reMatch now s pattern false)
          (fun k => (s.luaHget k now).1 ≠ none ∧ b.globMatch pattern k = true) ∧
        ∀ v, Lists (b.plainGetKeys decodeResponses v server pattern false)
          (fun n => n ∈ server.hkeys ∧ b.Selects pattern n)) ↔
      b.MatchesAs decodeResponses reMatch (fun k => (s.luaHget k now).1 ≠ none) pattern ∧
        ∀ v, b.FindsAs decodeResponses server pattern v :=
  and_congr hsetGetKeys_lists (forall_congr' fun _ => plainGetKeys_lists)

/-! ## A pattern with a star at the end -/

theorem starMatch_iff {pattern n : String} :
    starMatch pattern n = true ↔
      if pattern.toList.getLast? = some '*' then pattern.toList.dropLast <+: n.toList
      else pattern.toList = n.toList := by
  unfold starMatch
  split
  · rw [List.isPrefixOf_iff_prefix]
  · rw [beq_iff_eq, String.toList_inj]

/-- `re.match` of a text with a star at the end, which stands for any number of its last character.
-/
def starReMatch : ReMatch := fun pattern key =>
  if pattern.toList.getLast? = some '*' then
    some (pattern.toList.dropLast.dropLast.isPrefixOf key.toList)
  else some (pattern.toList.isPrefixOf key.toList)

/-- **A pattern with a star**: `a*` is no regular expression for the keys that begin with `a`, and
`get_keys` lists the names without the join. -/
theorem getKeys_broken :
    ¬ Lists
        (starBackend.hsetGetKeys false starReMatch 0 (luaHset {} "x" "1".toUTF8 none) "a*" false)
        (fun k => ((luaHset {} "x" "1".toUTF8 none).luaHget k 0).1 ≠ none ∧
          starBackend.globMatch "a*" k = true) ∧
      ¬ Lists (starBackend.plainGetKeys false .sync (Hash.hset ∅ "b:x" "1".toUTF8) "x*" false)
        (fun n => n ∈ (Hash.hset ∅ "b:x" "1".toUTF8 : Keyspace).hkeys ∧
          starBackend.Selects "x*" n) := by
  constructor
  · rintro ⟨keys, hkeys, hmem⟩
    have hlist : starBackend.hsetGetKeys false starReMatch 0 (luaHset {} "x" "1".toUTF8 none) "a*"
        false = some [some "x"] := by
      decide +kernel
    obtain rfl := Option.some.inj (hlist.symm.trans hkeys)
    obtain ⟨k, hk, -, hg⟩ := (hmem (some "x")).1 (by decide)
    cases hk
    exact absurd hg (by decide +kernel)
  · rintro ⟨keys, hkeys, hmem⟩
    have hlist : starBackend.plainGetKeys false .sync (Hash.hset ∅ "b:x" "1".toUTF8) "x*" false =
        some [] := by
      decide +kernel
    obtain rfl := Option.some.inj (hlist.symm.trans hkeys)
    have hin := (hmem (some "b:x")).2 ⟨"b:x", rfl, by decide +kernel, "x", by decide +kernel,
      by decide +kernel⟩
    cases hin

end Backend

end Kvdb
