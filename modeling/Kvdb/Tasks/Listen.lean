import Kvdb.Tasks.Map

/-!
# Job keys, job ids and the callback of `listen`

`listen` subscribes to the ids of the keys it is given and hands its callback the key that it reads
back from the channel of each message. `KeysRoundTrip c keys` is what its callers rely on; it holds
if and only if no key contains a colon (`keysRoundTrip_iff`), which the keys of cron jobs do.
-/

namespace Kvdb

/-- The loop of `listen` on the messages of its subscription: the state of the callback afterwards,
and the calls that it was given. -/
def listenLoop {σ : Type*} (callback : σ → String → JobStatus → σ × Bool) :
    σ → List (String × JobStatus) → σ × List (String × JobStatus)
  | s, [] => (s, [])
  | s, (jobId, status) :: messages =>
    let jobKey := KeyConfig.keyFromId jobId
    let r := callback s jobKey status
    if r.2 then (r.1, [(jobKey, status)])
    else
      let rest := listenLoop callback r.1 messages
      (rest.1, (jobKey, status) :: rest.2)

/-- The listener of `map` takes a message as `listen` does, with the pending keys as the state of
the callback. -/
theorem receive_eq {V : Type} (c : QueueConfig) (returnExceptions : Bool) (s : MapState V)
    {jobIds : Finset String} {m : String × JobStatus} {messages : List (String × JobStatus)}
    (hl : s.listener = .listening jobIds) (hi : s.inbox = m :: messages) :
    ∃ t, s.step c returnExceptions .receive = some t ∧
      t.pending = (listenLoop (mapCallback returnExceptions) s.pending [m]).1 := by
  obtain ⟨jobId, status⟩ := m
  refine ⟨_, by simp only [MapState.step, hl, hi]; rfl, ?_⟩
  simp only [listenLoop]
  split <;> rfl

namespace KeyConfig

variable (c : KeyConfig)

/-- The ids of the queue. -/
def IsId (key : String) : Prop := ∃ k, key = c.jobIdPrefix ++ ":" ++ k

/-- What the callers of `listen` rely on. -/
structure KeysRoundTrip (keys : List String) : Prop where
  decode : ∀ key ∈ keys, keyFromId (c.jobId key) = key
  injective : ∀ key ∈ keys, ∀ key', ¬ c.IsId key' → c.jobId key = c.jobId key' → key = key'
  idempotent : ∀ key ∈ keys, c.jobId (c.jobId key) = c.jobId key
  /-- The calls of any callback on messages about the keys are about these keys, one by one. -/
  listen : ∀ (σ : Type) (callback : σ → String → JobStatus → σ × Bool) (s : σ)
    (messages : List (String × JobStatus)), (∀ m ∈ messages, m.1 ∈ keys) →
      (listenLoop callback s (messages.map fun m => (c.jobId m.1, m.2))).2 <+: messages

variable {c}

theorem jobId_of_contains {key : String} (h : c.jobIdPrefix.toList <:+: key.toList) :
    c.jobId key = key :=
  if_pos h

theorem jobId_of_not_contains {key : String} (h : ¬ c.jobIdPrefix.toList <:+: key.toList) :
    c.jobId key = c.jobIdPrefix ++ ":" ++ key :=
  if_neg h

theorem contains_jobId (key : String) : c.jobIdPrefix.toList <:+: (c.jobId key).toList := by
  by_cases h : c.jobIdPrefix.toList <:+: key.toList
  · rwa [jobId_of_contains h]
  · rw [jobId_of_not_contains h, String.toList_append, String.toList_append, List.append_assoc]
    exact (List.prefix_append _ _).isInfix

theorem jobId_idempotent (key : String) : c.jobId (c.jobId key) = c.jobId key :=
  jobId_of_contains (contains_jobId key)

/-- The encoding keeps apart the keys that are not ids. -/
theorem jobId_injective {key key' : String} (h : ¬ c.IsId key) (h' : ¬ c.IsId key')
    (e : c.jobId key = c.jobId key') : key = key' := by
  by_cases hk : c.jobIdPrefix.toList <:+: key.toList
  · rw [jobId_of_contains hk] at e
    by_cases hk' : c.jobIdPrefix.toList <:+: key'.toList
    · rwa [jobId_of_contains hk'] at e
    · rw [jobId_of_not_contains hk'] at e
      exact absurd ⟨key', e⟩ h
  · rw [jobId_of_not_contains hk] at e
    by_cases hk' : c.jobIdPrefix.toList <:+: key'.toList
    · rw [jobId_of_contains hk'] at e
      exact absurd ⟨key, e.symm⟩ h'
    · rw [jobId_of_not_contains hk'] at e
      have hl := congrArg String.toList e
      simp only [String.toList_append] at hl
      exact String.toList_inj.1 (List.append_cancel_left hl)

/-- A callback that gets back the keys it is about is called for the messages in turn. -/
theorem listenLoop_prefix {σ : Type*} (callback : σ → String → JobStatus → σ × Bool) (s : σ)
    (messages : List (String × JobStatus))
    (h : ∀ m ∈ messages, keyFromId (c.jobId m.1) = m.1) :
    (listenLoop callback s (messages.map fun m => (c.jobId m.1, m.2))).2 <+: messages := by
  induction messages generalizing s with
  | nil => exact List.nil_prefix
  | cons m messages ih =>
    have hm := h m List.mem_cons_self
    have hrest := fun s => ih s fun m' hm' => h m' (List.mem_cons_of_mem m hm')
    simp only [List.map_cons, listenLoop, hm]
    split
    · exact List.cons_prefix_cons.2 ⟨rfl, List.nil_prefix⟩
    · exact List.cons_prefix_cons.2 ⟨rfl, hrest _⟩

/-- **Keys and ids round trip**, and the callback of `listen` gets the keys that were registered, if
and only if no key contains a colon. -/
theorem keysRoundTrip_iff (c : KeyConfig) (keys : List String) (hkeys : ∀ key ∈ keys, ¬ c.IsId key) :
    c.KeysRoundTrip keys ↔ ∀ key ∈ keys, ':' ∉ key.toList := by
  constructor
  · intro h key hkey
    exact (keyFromId_jobId c key).1 (h.decode key hkey)
  · intro h
    have hdecode : ∀ key ∈ keys, keyFromId (c.jobId key) = key := fun key hkey =>
      (keyFromId_jobId c key).2 (h key hkey)
    exact {
      decode := hdecode
      injective := fun key hkey key' hkey' => jobId_injective (hkeys key hkey) hkey'
      idempotent := fun key _ => jobId_idempotent key
      listen := fun _ callback s messages hm =>
        listenLoop_prefix callback s messages fun m hmem => hdecode m.1 (hm m hmem) }

theorem not_isId_of_notMem {key : String} (h : ':' ∉ key.toList) : ¬ c.IsId key := by
  intro hid
  obtain ⟨k, rfl⟩ := hid
  exact h (by simp)

/-- A key of the default kind. -/
theorem keysRoundTrip_plain :
    (∀ key ∈ ["key-1"], ¬ ({} : KeyConfig).IsId key) ∧ ({} : KeyConfig).KeysRoundTrip ["key-1"] := by
  have hid : ∀ key ∈ ["key-1"], ¬ ({} : KeyConfig).IsId key := by
    intro key hkey
    rw [List.mem_singleton.1 hkey]
    exact not_isId_of_notMem (by decide)
  exact ⟨hid, (keysRoundTrip_iff {} ["key-1"] hid).2 (by decide)⟩

/-- The key of a cron job is read back without its prefix. -/
theorem not_keysRoundTrip_cron :
    ¬ ({} : KeyConfig).IsId "cronjob:task" ∧ ¬ ({} : KeyConfig).KeysRoundTrip ["cronjob:task"] := by
  constructor
  · intro h
    obtain ⟨k, hk⟩ := h
    have hl := congrArg (List.take 1 ∘ String.toList) hk
    simp [jobIdPrefix, createNamespace] at hl
  · intro h
    have hd := h.decode "cronjob:task" (by simp)
    exact absurd hd (by decide +kernel)

end KeyConfig

end Kvdb
