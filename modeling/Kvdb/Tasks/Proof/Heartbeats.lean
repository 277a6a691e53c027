import Kvdb.Components.Proof.Listing
import Kvdb.Tasks.Heartbeats

/-!
# Heartbeats are found again

`Tracks` is the invariant of the data store: under the heartbeat keys it has what the registry has, and
no other key begins like them. `getWorkerIds_spec` says which ids are found, and `finds_iff` when the
names are found too.
-/

namespace Kvdb.Heartbeats

open Redis Python Backend

variable {V : Type} {b : Backend ByteArray V} {interval : ℤ} {decodeResponses : Bool}

/-! ## Keys -/

/-- What the keys of heartbeats begin with. -/
def keyPrefix (b : Backend ByteArray V) : List Char :=
  (b.baseKey ++ b.keyjoin ++ "heartbeats:").toList

/-- `KEYS` takes the pattern of the heartbeats as what the keys are to begin with. -/
def PrefixSearch (b : Backend ByteArray V) : Prop :=
  ∀ n : String, b.globMatch (b.basePattern "heartbeats:*" .async) n = true ↔ keyPrefix b <+: n.toList

/-- The base key is in the key of the heartbeat already. -/
def HasBase (b : Backend ByteArray V) (id : String) : Prop :=
  b.baseKey.toList <:+: (heartbeatKey id).toList

/-- A name that is not of a heartbeat. -/
def Foreign (b : Backend ByteArray V) (n : String) : Prop :=
  ¬ keyPrefix b <+: n.toList ∧ ∀ id : String, ':' ∉ id.toList → n ≠ b.getKey (heartbeatKey id)

theorem toList_heartbeatKey (id : String) :
    (heartbeatKey id).toList = ['h', 'e', 'a', 'r', 't', 'b', 'e', 'a', 't', 's', ':'] ++ id.toList := by
  unfold heartbeatKey
  rw [String.toList_append]
  rfl

theorem heartbeatKey_inj {id id' : String} (h : heartbeatKey id = heartbeatKey id') : id = id' := by
  have hlist := congrArg String.toList h
  rw [toList_heartbeatKey, toList_heartbeatKey] at hlist
  exact String.toList_inj.1 (List.append_cancel_left hlist)

/-- The only colon in the key of a heartbeat is before its id. -/
theorem not_begins_heartbeatKey (hbase : b.baseKey ≠ "") {id : String} (hid : ':' ∉ id.toList) :
    ¬ keyPrefix b <+: (heartbeatKey id).toList := by
  rintro ⟨rest, heq⟩
  have hlen : 0 < (b.baseKey ++ b.keyjoin).toList.length := by
    refine List.length_pos_of_ne_nil fun h => ?_
    rw [String.toList_append] at h
    exact hbase (String.toList_eq_nil_iff.1 (List.append_eq_nil_iff.1 h).1)
  -- the colon of the prefix is further to the right
  have hleft : (keyPrefix b ++ rest)[(b.baseKey ++ b.keyjoin).toList.length + 10]? = some ':' := by
    rw [keyPrefix, String.toList_append, List.append_assoc,
      List.getElem?_append_right (Nat.le_add_right _ _), Nat.add_sub_cancel_left]
    rfl
  rw [heq, toList_heartbeatKey, List.getElem?_append_right (show 11 ≤ _ by omega)] at hleft
  exact hid (List.mem_of_getElem? hleft)

/-- A name with the prefix is of a heartbeat whose key got the base key. -/
theorem not_hasBase_of_begins (hbase : b.baseKey ≠ "") {id : String} (hid : ':' ∉ id.toList)
    (h : keyPrefix b <+: (b.getKey (heartbeatKey id)).toList) : ¬ HasBase b id := by
  intro hi
  rw [getKey_of_contains hi] at h
  exact not_begins_heartbeatKey hbase hid h

theorem begins_getKey {id : String} (h : ¬ HasBase b id) :
    keyPrefix b <+: (b.getKey (heartbeatKey id)).toList := by
  rw [getKey_of_apart h, heartbeatKey, ← String.append_assoc, keyPrefix, String.toList_append (t := id)]
  exact List.prefix_append _ _

theorem getKey_heartbeatKey_inj (hbase : b.baseKey ≠ "") {id id' : String} (hid : ':' ∉ id.toList)
    (hid' : ':' ∉ id'.toList) (h : b.getKey (heartbeatKey id) = b.getKey (heartbeatKey id')) :
    id = id' := by
  by_cases hi : HasBase b id
  · by_cases hi' : HasBase b id'
    · rw [getKey_of_contains hi, getKey_of_contains hi'] at h
      exact heartbeatKey_inj h
    · exact absurd hi (not_hasBase_of_begins hbase hid (h ▸ begins_getKey hi'))
  · have hi' : ¬ HasBase b id' := not_hasBase_of_begins hbase hid' (h ▸ begins_getKey hi)
    rw [getKey_of_apart hi, getKey_of_apart hi', ← String.toList_inj, String.toList_append,
      String.toList_append (t := heartbeatKey id')] at h
    exact heartbeatKey_inj (String.toList_inj.1 (List.append_cancel_left h))

theorem afterColon_heartbeatKey {id : String} (hid : ':' ∉ id.toList) :
    afterColon (heartbeatKey id) = id := by
  have hlist : (heartbeatKey id).toList.reverse =
      id.toList.reverse ++ ':' :: ['s', 't', 'a', 'e', 'b', 't', 'r', 'a', 'e', 'h'] := by
    rw [toList_heartbeatKey, List.reverse_append]
    rfl
  have hall : ∀ c ∈ id.toList.reverse, decide (c ≠ ':') = true := by
    intro c hc
    rw [List.mem_reverse] at hc
    exact decide_eq_true fun h => hid (h ▸ hc)
  rw [afterColon, List.rtakeWhile, hlist, List.takeWhile_append_of_pos hall,
    List.takeWhile_cons_of_neg (by simp), List.append_nil, List.reverse_reverse, String.ofList_toList]

/-! ## The invariant -/

/-- A heartbeat is of an id without colons; what else is stored has the name of no heartbeat. -/
def Proper (b : Backend ByteArray V) : Event V → Prop
  | .beat id _ _ => ':' ∉ id.toList
  | .store key _ _ => Foreign b (b.getKey key)

def encodeCell (b : Backend ByteArray V) (c : Cell V) : Cell ByteArray :=
  ⟨b.encode c.value, c.expireAt⟩

/-- From the time on, the store has the heartbeats of the registry. -/
structure Tracks (b : Backend ByteArray V) (now : ℕ) (m : TtlMap String ByteArray)
    (workers : TtlMap String V) : Prop where
  cells : ∀ t, 1000 * now ≤ t → ∀ id, ':' ∉ id.toList →
    m.evict t (b.getKey (heartbeatKey id)) = (workers.evict t id).map (encodeCell b)
  names : ∀ n, keyPrefix b <+: n.toList → m n ≠ none →
    ∃ id, ':' ∉ id.toList ∧ n = b.getKey (heartbeatKey id)
  plain : ∀ id, workers id ≠ none → ':' ∉ id.toList

variable {now : ℕ} {m : TtlMap String ByteArray} {workers : TtlMap String V}

theorem Tracks.later {now' : ℕ} (h : Tracks b now m workers) (hle : now ≤ now') :
    Tracks b now' m workers :=
  { h with cells := fun t ht => h.cells t (by omega) }

/-- What is over at the time makes no difference. -/
theorem Tracks.evict (h : Tracks b now m workers) : Tracks b now (m.evict (1000 * now)) workers where
  cells t ht := by
    rw [TtlMap.evict_evict _ ht]
    exact h.cells t ht
  names n hn hm := h.names n hn fun hnone => hm (by rw [TtlMap.evict, hnone, Option.filter_none])
  plain := h.plain

/-- The same cell for a worker, in the store and in the registry. -/
theorem Tracks.beat (hbase : b.baseKey ≠ "") (h : Tracks b now m workers) {id : String}
    (hid : ':' ∉ id.toList) (name : V) (expireAt : Option ℕ) :
    Tracks b now (Function.update m (b.getKey (heartbeatKey id)) (some ⟨b.encode name, expireAt⟩))
      (Function.update workers id (some ⟨name, expireAt⟩)) where
  cells t ht id' hid' := by
    rw [TtlMap.evict_update, TtlMap.evict_update, Function.update_apply, Function.update_apply]
    by_cases heq : id' = id
    · subst heq
      rw [if_pos rfl, if_pos rfl, Option.filter_some, Option.filter_some]
      split <;> rfl
    · rw [if_neg heq, if_neg fun hk => heq (getKey_heartbeatKey_inj hbase hid' hid hk)]
      exact h.cells t ht id' hid'
  names n hn hm := by
    by_cases heq : n = b.getKey (heartbeatKey id)
    · exact ⟨id, hid, heq⟩
    · rw [Function.update_of_ne heq] at hm
      exact h.names n hn hm
  plain id' hw := by
    by_cases heq : id' = id
    · exact heq ▸ hid
    · rw [Function.update_of_ne heq] at hw
      exact h.plain id' hw

/-- What is stored under another name. -/
theorem Tracks.foreign (h : Tracks b now m workers) {n : String} (hn : Foreign b n)
    (o : Option (Cell ByteArray)) : Tracks b now (Function.update m n o) workers where
  cells t ht id hid := by
    rw [TtlMap.evict_update, Function.update_of_ne (Ne.symm (hn.2 id hid))]
    exact h.cells t ht id hid
  names n' hp hm := by
    have hne : n' ≠ n := by
      rintro rfl
      exact hn.1 hp
    rw [Function.update_of_ne hne] at hm
    exact h.names n' hp hm
  plain := h.plain

theorem Tracks.step (hbase : b.baseKey ≠ "") (h : Tracks b now m workers) {e : Event V}
    (he : Proper b e) :
    Tracks b now (Heartbeats.step b interval m (now, e)) (register b interval workers (now, e)) := by
  cases e with
  | beat id name ttl =>
    simp only [Heartbeats.step, register, addHeartbeat, plainOp, plainLive]
    cases b.orExpiration (some (orInterval interval ttl)) with
    | none => exact h.evict.beat hbase he name none
    | some ex =>
      dsimp only
      split
      · exact h.evict.beat hbase he name _
      · exact h.evict
  | store key value ex =>
    simp only [Heartbeats.step, register, plainOp, plainLive]
    cases b.orExpiration ex with
    | none => exact h.evict.foreign he _
    | some ex =>
      dsimp only
      split
      · exact h.evict.foreign he _
      · exact h.evict

/-- **The invariant over runs.** -/
theorem Tracks.run (hbase : b.baseKey ≠ "") {now' : ℕ} {es : List (ℕ × Event V)}
    (h : Tracks b now m workers) (hsorted : es.Pairwise fun e e' => e.1 ≤ e'.1)
    (hfrom : ∀ e ∈ es, now ≤ e.1) (hto : ∀ e ∈ es, e.1 ≤ now') (hle : now ≤ now')
    (hes : ∀ e ∈ es, Proper b e.2) :
    Tracks b now' (Heartbeats.run b interval m es) (es.foldl (register b interval) workers) := by
  induction es generalizing now m workers with
  | nil => exact h.later hle
  | cons e es ih =>
    obtain ⟨hfirst, hsorted⟩ := List.pairwise_cons.1 hsorted
    have hnow : now ≤ e.1 := hfrom e List.mem_cons_self
    exact ih ((h.later hnow).step hbase (hes e List.mem_cons_self)) hsorted hfirst
      (fun e' he' => hto e' (List.mem_cons_of_mem _ he')) (hto e List.mem_cons_self)
      fun e' he' => hes e' (List.mem_cons_of_mem _ he')

/-- At first there are no heartbeats. -/
theorem Tracks.initial (h : ∀ n, m n ≠ none → Foreign b n) : Tracks b now m fun _ => none where
  cells t _ id hid := by
    have hnone : m (b.getKey (heartbeatKey id)) = none := by
      by_contra hm
      exact (h _ hm).2 id hid rfl
    rw [TtlMap.evict, TtlMap.evict, hnone]
    rfl
  names n hp hm := absurd hp (h n hm).1
  plain _ hw := absurd rfl hw

/-! ## The listings -/

variable {server : Keyspace}

/-- A worker whose heartbeat is in the store, under a key that the pattern finds. -/
def Found (b : Backend ByteArray V) (workers : TtlMap String V) (now : ℕ) (id : String) : Prop :=
  ((workers.evict (1000 * now)).get id).isSome ∧ ¬ HasBase b id

theorem Tracks.plain_of_isSome (h : Tracks b now m workers) {id : String}
    (hlive : ((workers.evict (1000 * now)).get id).isSome) : ':' ∉ id.toList := by
  obtain ⟨name, hname⟩ := Option.isSome_iff_exists.1 hlive
  refine h.plain id fun hnone => ?_
  have hget := TtlMap.get_evict hname
  rw [TtlMap.get, hnone] at hget
  cases hget

/-- The names that the pattern finds are those of the heartbeats found. -/
theorem Tracks.mem_keys (hbase : b.baseKey ≠ "") (hsearch : PrefixSearch b)
    (h : Tracks b now m workers) (hserver : Shows server (m.evict (1000 * now))) {n : String} :
    n ∈ server.keys b.globMatch (b.basePattern "heartbeats:*" .async) ↔
      ∃ id, Found b workers now id ∧ n = b.getKey (heartbeatKey id) := by
  have hcell : ∀ id : String, ':' ∉ id.toList →
      (server.hget (b.getKey (heartbeatKey id)) ≠ none ↔
        ((workers.evict (1000 * now)).get id).isSome) := by
    intro id hid
    rw [hserver, TtlMap.get, h.cells _ le_rfl id hid, TtlMap.get]
    cases workers.evict (1000 * now) id <;> simp
  rw [Keyspace.mem_keys, hsearch]
  constructor
  · rintro ⟨hn, hp⟩
    have hm : m n ≠ none := by
      intro hnone
      rw [hserver, TtlMap.get, TtlMap.evict, hnone] at hn
      exact hn rfl
    obtain ⟨id, hid, rfl⟩ := h.names n hp hm
    exact ⟨id, ⟨(hcell id hid).1 hn, not_hasBase_of_begins hbase hid hp⟩, rfl⟩
  · rintro ⟨id, ⟨hlive, hi⟩, rfl⟩
    exact ⟨(hcell id (h.plain_of_isSome hlive)).2 hlive, begins_getKey hi⟩

/-- The name of a heartbeat is a text to the session. -/
theorem responseKey_getKey {id : String} (h : ¬ HasBase b id) :
    responseKey decodeResponses (b.getKey (heartbeatKey id)) =
      some (b.getKey (heartbeatKey id)) := by
  refine responseKey_eq_some.2 ⟨rfl, ?_⟩
  rintro ⟨-, hnull⟩
  have hmem : 'h' ∈ (b.getKey (heartbeatKey id)).toList := by
    rw [getKey_of_apart h, String.toList_append, toList_heartbeatKey]
    simp
  rw [hnull] at hmem
  exact absurd hmem (by decide)

variable (decodeResponses) in
/-- **The ids that are found.** -/
theorem Tracks.getWorkerIds (hbase : b.baseKey ≠ "") (hsearch : PrefixSearch b)
    (h : Tracks b now m workers) (hserver : Shows server (m.evict (1000 * now))) :
    ∃ ids, getWorkerIds b decodeResponses server = some ids ∧ ids.Nodup ∧
      ∀ id, id ∈ ids ↔ Found b workers now id := by
  have hmem := fun n => h.mem_keys hbase hsearch hserver (n := n)
  obtain ⟨names, hnames⟩ :
      ∃ names, names = server.keys b.globMatch (b.basePattern "heartbeats:*" .async) := ⟨_, rfl⟩
  rw [← hnames] at hmem
  have hid : ∀ id, Found b workers now id →
      afterColon (b.stripBase (b.getKey (heartbeatKey id))) = id := by
    intro id hfound
    rw [stripBase_getKey, stripBase_of_apart hfound.2,
      afterColon_heartbeatKey (h.plain_of_isSome hfound.1)]
  refine ⟨names.map fun n => afterColon (b.stripBase n), ?_, ?_, fun id => ?_⟩
  · have htexts : names.map (responseKey decodeResponses) = names.map some := by
      refine List.map_congr_left fun n hn => ?_
      obtain ⟨id, hfound, rfl⟩ := (hmem n).1 hn
      exact responseKey_getKey hfound.2
    rw [Heartbeats.getWorkerIds, plainGetKeys, if_pos rfl, ← hnames, htexts, replaceKeys_map_some]
    simp only [Option.bind_eq_bind, Option.bind_some, List.mapM_map, Function.comp_def, Option.map_some]
    exact List.mapM_pure
  · refine List.Nodup.map_on ?_ (hnames ▸ Keyspace.nodup_keys)
    intro n hn n' hn' heq
    obtain ⟨id, hfound, rfl⟩ := (hmem n).1 hn
    obtain ⟨id', hfound', rfl⟩ := (hmem n').1 hn'
    rw [hid id hfound, hid id' hfound'] at heq
    rw [heq]
  · rw [List.mem_map]
    constructor
    · rintro ⟨n, hn, rfl⟩
      obtain ⟨id, hfound, rfl⟩ := (hmem n).1 hn
      rwa [hid id hfound]
    · intro hfound
      exact ⟨_, (hmem _).2 ⟨id, hfound, rfl⟩, hid id hfound⟩

/-- **The heartbeats are found again** if and only if no live heartbeat's key had the base key already,
and the names are where nothing writes them, under the ids. -/
theorem finds_iff (hbase : b.baseKey ≠ "") (hsearch : PrefixSearch b)
    {es : List (ℕ × Event V)} (hsorted : es.Pairwise fun e e' => e.1 ≤ e'.1)
    (hto : ∀ e ∈ es, e.1 ≤ now) (hes : ∀ e ∈ es, Proper b e.2) (hm : ∀ n, m n ≠ none → Foreign b n)
    (hserver : Shows server ((run b interval m es).evict (1000 * now))) :
    Finds b interval decodeResponses es now server ↔
      ∀ id, (live b interval es now id).isSome → ¬ HasBase b id ∧
        (server.hget (b.getKey id)).bind b.decode = live b interval es now id := by
  have hinitial : Tracks b 0 m fun _ => none := Tracks.initial hm
  have htracks : Tracks b now (run b interval m es) (registry b interval es) :=
    hinitial.run hbase hsorted (fun _ _ => Nat.zero_le _) hto (Nat.zero_le _) hes
  obtain ⟨ids, hids, hnodup, hmem⟩ := htracks.getWorkerIds decodeResponses hbase hsearch hserver
  have hnames : (getWorkerNames b decodeResponses server).1 =
      some (ids.map fun id => (server.hget (b.getKey id)).bind b.decode) := by
    rw [getWorkerNames, hids]
    rfl
  rw [Finds, hids, hnames]
  constructor
  · rintro ⟨ids', hids', -, hlive, hvalues⟩ id hid
    obtain rfl := Option.some.inj hids'
    have hin := (hlive id).2 hid
    exact ⟨((hmem id).1 hin).2, List.map_inj_left.1 (Option.some.inj hvalues) id hin⟩
  · intro h
    have hlive : ∀ id, id ∈ ids ↔ (live b interval es now id).isSome := fun id =>
      (hmem id).trans ⟨fun hfound => hfound.1, fun hid => ⟨hid, (h id hid).1⟩⟩
    exact ⟨ids, rfl, hnodup, hlive,
      congrArg some (List.map_congr_left fun id hin => (h id ((hlive id).1 hin)).2)⟩

/-- The data store of the queue `global`. -/
def queueBackend : Backend ByteArray ByteArray :=
  { starBackend with baseKey := "_kvq_.global.persistence" }

theorem prefixSearch_queueBackend : PrefixSearch queueBackend := by
  intro n
  show starMatch "_kvq_.global.persistence:heartbeats:*" n = true ↔ _
  rw [starMatch_iff, if_pos (by decide +kernel)]
  rfl

/-- A worker whose name is under its id too. -/
def namedRun : List (ℕ × Event ByteArray) :=
  [(0, .beat "w" "name".toUTF8 none), (0, .store "w" "name".toUTF8 none)]

/-- What the server shows after it. -/
def namedServer : Keyspace :=
  queueBackend.setKey (queueBackend.setKey ∅ (heartbeatKey "w") "name".toUTF8) "w" "name".toUTF8

theorem live_beat {es : List (ℕ × Event ByteArray)}
    (h : registry queueBackend 60 es =
      TtlMap.setex (fun _ => none) (1000 * 0) "w" 60 "name".toUTF8) (id : String) :
    live queueBackend 60 es 1 id = if id = "w" then some "name".toUTF8 else none := by
  rw [live, h, TtlMap.setex, TtlMap.evict_update, TtlMap.get, Function.update_apply]
  split <;> rfl

theorem foreign_queueBackend {n : String} (hp : ¬ keyPrefix queueBackend <+: n.toList)
    (hn : n.toList.head? ≠ some 'h') : Foreign queueBackend n := by
  refine ⟨hp, ?_⟩
  rintro id - rfl
  by_cases hi : HasBase queueBackend id
  · rw [getKey_of_contains hi, toList_heartbeatKey] at hn
    exact hn rfl
  · exact hp (begins_getKey hi)

theorem shows_namedServer :
    Shows namedServer ((run queueBackend 60 (fun _ => none) namedRun).evict (1000 * 1)) := by
  intro n
  have hkey : queueBackend.getKey "w" = "_kvq_.global.persistence:w" := by decide +kernel
  have hbeat : queueBackend.getKey (heartbeatKey "w") = "_kvq_.global.persistence:heartbeats:w" := by
    decide +kernel
  have hrun : run queueBackend 60 (fun _ => none) namedRun =
      TtlMap.set (TtlMap.evict (TtlMap.setex (fun _ => none) (1000 * 0)
        (queueBackend.getKey (heartbeatKey "w")) 60 "name".toUTF8) (1000 * 0))
        (queueBackend.getKey "w") "name".toUTF8 := rfl
  rw [namedServer, setKey, setKey, hrun, hkey, hbeat, Hash.hget_hset, Hash.hget_hset, TtlMap.set,
    TtlMap.setex, TtlMap.evict_update, TtlMap.evict_update, TtlMap.evict_update, TtlMap.get,
    Function.update_apply, Function.update_apply]
  split
  · rfl
  · split
    · rfl
    · rfl

theorem finds_iff_named : Finds queueBackend 60 true namedRun 1 namedServer := by
  refine (finds_iff (by decide) prefixSearch_queueBackend (by decide +kernel) (by decide +kernel) ?_ ?_
    shows_namedServer).2 ?_
  · intro e he
    rcases List.mem_pair.1 he with rfl | rfl
    · exact (by decide : ':' ∉ "w".toList)
    · exact foreign_queueBackend (by decide +kernel) (by decide +kernel)
  · exact fun n hn => absurd rfl hn
  · intro id hid
    rw [live_beat rfl] at hid ⊢
    by_cases hw : id = "w"
    · subst hw
      exact ⟨by unfold HasBase; decide +kernel, by decide +kernel⟩
    · rw [if_neg hw] at hid
      cases hid

/-- A worker that has only its heartbeat. -/
def beatRun : List (ℕ × Event ByteArray) := [(0, .beat "w" "name".toUTF8 none)]

def beatServer : Keyspace := queueBackend.setKey ∅ (heartbeatKey "w") "name".toUTF8

theorem shows_beatServer :
    Shows beatServer ((run queueBackend 60 (fun _ => none) beatRun).evict (1000 * 1)) := by
  intro n
  have hrun : run queueBackend 60 (fun _ => none) beatRun =
      TtlMap.setex (fun _ => none) (1000 * 0) (queueBackend.getKey (heartbeatKey "w")) 60
        "name".toUTF8 := rfl
  rw [beatServer, setKey, hrun, Hash.hget_hset, TtlMap.setex, TtlMap.evict_update, TtlMap.get,
    Function.update_apply]
  split
  · rfl
  · rfl

/-- **The names are not found**: `aget_values` reads them under the ids. -/
theorem finds_broken :
    ¬ ∀ (b : Backend ByteArray ByteArray) (interval : ℤ) (decodeResponses : Bool)
        (es : List (ℕ × Event ByteArray)) (now : ℕ) (server : Keyspace), b.baseKey ≠ "" →
      PrefixSearch b → (es.Pairwise fun e e' => e.1 ≤ e'.1) → (∀ e ∈ es, e.1 ≤ now) →
      (∀ e ∈ es, Proper b e.2) →
      Shows server ((run b interval (fun _ => none) es).evict (1000 * now)) →
      Finds b interval decodeResponses es now server := by
  intro h
  have hproper : ∀ e ∈ beatRun, Proper queueBackend e.2 := by
    intro e he
    rw [List.mem_singleton.1 he]
    exact (by decide : ':' ∉ "w".toList)
  obtain ⟨ids, hids, -, -, hnames⟩ := h queueBackend 60 true beatRun 1 beatServer (by decide)
    prefixSearch_queueBackend (by decide +kernel) (by decide +kernel) hproper shows_beatServer
  have hfound : getWorkerIds queueBackend true beatServer = some ["w"] := by decide +kernel
  have hread : (getWorkerNames queueBackend true beatServer).1 = some [none] := by decide +kernel
  obtain rfl := Option.some.inj (hids.symm.trans hfound)
  rw [hread, List.map_cons, live_beat rfl] at hnames
  cases hnames

end Kvdb.Heartbeats
