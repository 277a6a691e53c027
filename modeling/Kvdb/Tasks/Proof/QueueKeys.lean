import Kvdb.Tasks.Server

/-!
# The keys of a queue

* `key_injective_iff`: a queue uses no key for two things if and only if the job prefix and a colon do
  not start with one of the names of its other keys and a colon (with the prefix `queued` a job's
  record may be a worker's list). The keys of the jobs do not contain the prefix of the ids: `job_id`
  keeps a key that does, which may be any of the others.
* `Apart q q'`: the keys of `q` and `q'` are different (`Apart.key_ne`). Names without colons are
  enough (`ns_prefix_iff`); a queue `a` with the job prefix `job` and a queue `a:job` meet
  (`keys_meet`).
-/

namespace Kvdb

/-- Equal texts have equal first parts, if these contain no colon and end at one or at the end. -/
theorem head_eq_of_append_eq {a b s t : List Char} (h : a ++ s = b ++ t) (ha : ':' ∉ a)
    (hb : ':' ∉ b) (hs : ∀ c ∈ s.head?, c = ':') (ht : ∀ c ∈ t.head?, c = ':') : a = b := by
  have take : ∀ {a s : List Char}, ':' ∉ a → (∀ c ∈ s.head?, c = ':') →
      (a ++ s).takeWhile (· ≠ ':') = a := by
    intro a s ha hs
    rw [List.takeWhile_append_of_pos fun c hc => by
      simpa using fun e : c = ':' => ha (e ▸ hc)]
    cases s with
    | nil => simp
    | cons c s => simp [hs c rfl]
  rw [← take ha hs, h, take hb ht]

namespace QueueKey

/-- The names of the keys, apart from the jobs' keys. -/
def names : List String := ["queued", "active", "incomplete", "scheduled", "sweep", "abort"]

/-- What follows the queue's namespace, up to the suffix. -/
def head (q : SharedQueue) : QueueKey → String
  | .queued _ => "queued"
  | .active _ => "active"
  | .incomplete _ => "incomplete"
  | .scheduled _ => "scheduled"
  | .sweep _ => "sweep"
  | .job _ => q.jobPrefix
  | .abort _ => "abort"
  | .stuck => "stuck"
  | .push => ""

def suffix : QueueKey → Option String
  | .queued r | .active r | .incomplete r | .scheduled r | .sweep r => r
  | .job key | .abort key => some key
  | .stuck | .push => none

/-- The suffix as it is written. -/
def suffixText : Option String → List Char
  | none => []
  | some w => ':' :: w.toList

theorem head_suffixText (o : Option String) : ∀ c ∈ (suffixText o).head?, c = ':' := by
  cases o with
  | none => simp [suffixText]
  | some w => simp [suffixText]

theorem suffixText_injective {o o' : Option String} (h : suffixText o = suffixText o') :
    o = o' := by
  cases o <;> cases o' <;> simp_all [suffixText, String.toList_inj]

variable {q : SharedQueue} {x y : QueueKey}

theorem colon_notMem_head (hx : ∀ key, x ≠ .job key) : ':' ∉ (x.head q).toList := by
  cases x with
  | job key => exact absurd rfl (hx key)
  | _ => simp [head]

/-- Keys that are no jobs' keys are told apart by head and suffix. -/
theorem ext_of_head (hx : ∀ key, x ≠ .job key) (hy : ∀ key, y ≠ .job key)
    (h : x.head q = y.head q) (hs : x.suffix = y.suffix) : x = y := by
  cases x <;> cases y <;> simp_all [head, suffix]

/-- A key with a suffix has one of the names. -/
theorem head_mem_names (hx : ∀ key, x ≠ .job key) (hs : x.suffix.isSome) : x.head q ∈ names := by
  cases x <;> simp_all [head, suffix, names]

end QueueKey

namespace SharedQueue

variable (q : SharedQueue)

/-- What all keys of the queue start with. -/
def ns : List Char := q.queuePrefix.toList ++ ':' :: (q.queueName.toList ++ [':'])

/-- No job's key is another key of the queue, nor is the push list. -/
structure Plain : Prop where
  jobs : ∀ n ∈ QueueKey.names, ¬ (n ++ ":").toList <+: (q.jobPrefix ++ ":").toList
  push : q.pushToQueueEnabled = true → ¬ q.ns <+: q.pushToQueueKey.toList

/-- The keys of `q` and `q'` are different. -/
structure Apart (q q' : SharedQueue) : Prop where
  left : ¬ q.ns <+: q'.ns
  right : ¬ q'.ns <+: q.ns
  pushLeft : q.pushToQueueEnabled = true → ¬ q'.ns <+: q.pushToQueueKey.toList
  pushRight : q'.pushToQueueEnabled = true → ¬ q.ns <+: q'.pushToQueueKey.toList
  push : q.pushToQueueEnabled = true → q'.pushToQueueEnabled = true →
    q.pushToQueueKey ≠ q'.pushToQueueKey

theorem Apart.symm {q q' : SharedQueue} (h : q.Apart q') : q'.Apart q :=
  ⟨h.right, h.left, h.pushRight, h.pushLeft, fun h1 h2 e => h.push h2 h1 e.symm⟩

variable {q} {q' : SharedQueue} {x y : QueueKey}

theorem toList_key (hx : x ≠ .push) :
    (q.key x).toList = q.ns ++ ((x.head q).toList ++ QueueKey.suffixText x.suffix) := by
  cases x with
  | push => exact absurd rfl hx
  | queued r | active r | incomplete r | scheduled r | sweep r =>
    cases r <;>
      simp [key, routed, ns, QueueKey.head, QueueKey.suffix, QueueKey.suffixText,
        KeyConfig.createNamespace]
  | _ =>
    simp [key, ns, QueueKey.head, QueueKey.suffix, QueueKey.suffixText,
      KeyConfig.jobIdPrefix, KeyConfig.abortIdPrefix, KeyConfig.createNamespace]

theorem ns_prefix_key (hx : x ≠ .push) : q.ns <+: (q.key x).toList := by
  rw [toList_key hx]
  exact List.prefix_append ..

/-- A job's key is no other key. -/
theorem head_ne_job (hq : ∀ n ∈ QueueKey.names, ¬ (n ++ ":").toList <+: (q.jobPrefix ++ ":").toList)
    (hx : ∀ key, x ≠ .job key) (key : String) :
    (x.head q).toList ++ QueueKey.suffixText x.suffix ≠
      q.jobPrefix.toList ++ ':' :: key.toList := by
  intro h
  have hc : ':' ∉ (x.head q).toList := QueueKey.colon_notMem_head hx
  cases hs : x.suffix with
  | none =>
    rw [hs, QueueKey.suffixText, List.append_nil] at h
    exact hc (h ▸ by simp)
  | some w =>
    rw [hs, QueueKey.suffixText] at h
    have hn := hq _ (QueueKey.head_mem_names hx (q := q) (by simp [hs]))
    -- both texts up to their colon are prefixes of the key
    have h1 : ((x.head q).toList ++ [':']) <+: q.jobPrefix.toList ++ ':' :: key.toList :=
      ⟨w.toList, by rw [← h]; simp⟩
    have h2 : (q.jobPrefix.toList ++ [':']) <+: q.jobPrefix.toList ++ ':' :: key.toList :=
      ⟨key.toList, by simp⟩
    rcases Nat.lt_or_ge (q.jobPrefix.toList.length) (x.head q).toList.length with hl | hl
    · have h3 : (q.jobPrefix.toList ++ [':']) <+: (x.head q).toList :=
        List.prefix_of_prefix_length_le h2 ((List.prefix_append _ [':']).trans h1) (by simp; omega)
      exact hc (h3.subset (by simp))
    · exact hn (by simpa using List.prefix_of_prefix_length_le h1 h2 (by simp; omega))

theorem key_inj_of_jobs
    (hq : ∀ n ∈ QueueKey.names, ¬ (n ++ ":").toList <+: (q.jobPrefix ++ ":").toList)
    (hx : x ≠ .push) (hy : y ≠ .push) (h : q.key x = q.key y) : x = y := by
  have ht : (x.head q).toList ++ QueueKey.suffixText x.suffix =
      (y.head q).toList ++ QueueKey.suffixText y.suffix := by
    have := congrArg String.toList h
    rwa [toList_key hx, toList_key hy, List.append_cancel_left_eq] at this
  by_cases hjx : ∃ k, x = .job k
  · obtain ⟨k, rfl⟩ := hjx
    by_cases hjy : ∃ k', y = .job k'
    · obtain ⟨k', rfl⟩ := hjy
      simpa [QueueKey.head, QueueKey.suffix, QueueKey.suffixText, String.toList_inj] using ht
    · exact absurd ht.symm (head_ne_job hq (fun k e => hjy ⟨k, e⟩) k)
  by_cases hjy : ∃ k', y = .job k'
  · obtain ⟨k', rfl⟩ := hjy
    exact absurd ht (head_ne_job hq (fun k e => hjx ⟨k, e⟩) k')
  have hx' : ∀ k, x ≠ .job k := fun k e => hjx ⟨k, e⟩
  have hy' : ∀ k, y ≠ .job k := fun k e => hjy ⟨k, e⟩
  have hh := head_eq_of_append_eq ht (QueueKey.colon_notMem_head hx')
    (QueueKey.colon_notMem_head hy') (QueueKey.head_suffixText _) (QueueKey.head_suffixText _)
  rw [hh, List.append_cancel_left_eq] at ht
  exact QueueKey.ext_of_head hx' hy' (String.toList_inj.1 hh) (QueueKey.suffixText_injective ht)

/-- The key under which the source stores it: a record of the job with the given key stands under
`job_id` of it. -/
def madeKey (q : SharedQueue) : QueueKey → String
  | .job key => q.jobId key
  | x => q.key x

/-- Not the push list, nor the record of a key that contains the prefix of the ids. -/
def Made (q : SharedQueue) (x : QueueKey) : Prop :=
  x ≠ .push ∧ ∀ key, x = .job key → ¬ q.jobIdPrefix.toList <:+: key.toList

theorem madeKey_eq (hx : q.Made x) : q.madeKey x = q.key x := by
  cases x with
  | job key => exact q.key_job (hx.2 key rfl)
  | _ => rfl

/-- **A queue uses no key for two things** if and only if its job prefix and a colon do not start with
another name and a colon. -/
theorem key_injective_iff (q : SharedQueue) :
    (∀ x y : QueueKey, q.Made x → q.Made y → q.madeKey x = q.madeKey y → x = y) ↔
      ∀ n ∈ QueueKey.names, ¬ (n ++ ":").toList <+: (q.jobPrefix ++ ":").toList := by
  constructor
  · intro h n hn hp
    obtain ⟨t, ht⟩ := hp
    have hempty : q.Made (.job "") := by
      refine ⟨by simp, fun key hkey hin => ?_⟩
      cases hkey
      have hcolon := hin.subset (KeyConfig.colon_mem_jobIdPrefix _)
      simp at hcolon
    have hkey : ∀ x : QueueKey, q.Made x → (x.head q).toList = n.toList →
        x.suffix = some (String.ofList t) → x = .job "" := by
      intro x hmade hh hs
      have hx : x ≠ .push := hmade.1
      refine h x (.job "") hmade hempty ?_
      rw [madeKey_eq hmade, madeKey_eq hempty]
      refine String.toList_inj.1 ?_
      rw [toList_key hx, toList_key (by simp), hh, hs]
      simpa [QueueKey.suffixText, QueueKey.head, QueueKey.suffix] using ht
    simp only [QueueKey.names, List.mem_cons, List.not_mem_nil, or_false] at hn
    obtain rfl | rfl | rfl | rfl | rfl | rfl := hn
    · cases hkey (.queued (some (String.ofList t))) (by simp [Made]) rfl rfl
    · cases hkey (.active (some (String.ofList t))) (by simp [Made]) rfl rfl
    · cases hkey (.incomplete (some (String.ofList t))) (by simp [Made]) rfl rfl
    · cases hkey (.scheduled (some (String.ofList t))) (by simp [Made]) rfl rfl
    · cases hkey (.sweep (some (String.ofList t))) (by simp [Made]) rfl rfl
    · cases hkey (.abort (String.ofList t)) (by simp [Made]) rfl rfl
  · intro hq x y hx hy h
    rw [madeKey_eq hx, madeKey_eq hy] at h
    exact key_inj_of_jobs hq hx.1 hy.1 h

/-- The keys that a plain queue uses are different. -/
theorem Plain.key_inj (hq : q.Plain) (hx : q.Uses x) (hy : q.Uses y) (h : q.key x = q.key y) :
    x = y := by
  by_cases hpx : x = .push
  · by_cases hpy : y = .push
    · rw [hpx, hpy]
    · subst hpx
      exact absurd (show q.ns <+: (q.key .push).toList from h ▸ ns_prefix_key hpy)
        (hq.push (hx rfl))
  · by_cases hpy : y = .push
    · subst hpy
      exact absurd (show q.ns <+: (q.key .push).toList from h ▸ ns_prefix_key hpx)
        (hq.push (hy rfl))
    · exact key_inj_of_jobs hq.jobs hpx hpy h

/-- **The keys of queues that are apart never meet**, whatever their jobs' keys and routes are. -/
theorem Apart.key_ne (h : q.Apart q') (hx : q.Uses x) (hy : q'.Uses y) : q.key x ≠ q'.key y := by
  intro e
  by_cases hpx : x = .push
  · by_cases hpy : y = .push
    · subst hpx hpy
      exact h.push (hx rfl) (hy rfl) e
    · subst hpx
      exact h.pushLeft (hx rfl) (show q'.ns <+: (q.key .push).toList from e ▸ ns_prefix_key hpy)
  by_cases hpy : y = .push
  · subst hpy
    exact h.pushRight (hy rfl) (show q.ns <+: (q'.key .push).toList from e ▸ ns_prefix_key hpx)
  rcases List.prefix_or_prefix_of_prefix (ns_prefix_key hpx) (e ▸ ns_prefix_key hpy) with hp | hp
  · exact h.left hp
  · exact h.right hp

/-- Names without colons keep queues apart. -/
theorem ns_prefix_iff (hp : ':' ∉ q.queuePrefix.toList) (hp' : ':' ∉ q'.queuePrefix.toList)
    (hn : ':' ∉ q.queueName.toList) (hn' : ':' ∉ q'.queueName.toList) :
    q.ns <+: q'.ns ↔ q.queuePrefix = q'.queuePrefix ∧ q.queueName = q'.queueName := by
  constructor
  · rintro ⟨t, ht⟩
    simp only [ns, List.append_assoc, List.cons_append] at ht
    have h1 := head_eq_of_append_eq ht hp hp' (by simp) (by simp)
    rw [h1, List.append_cancel_left_eq, List.cons.injEq] at ht
    have h2 := head_eq_of_append_eq ht.2 hn hn' (by simp) (by simp)
    exact ⟨String.toList_inj.1 h1, String.toList_inj.1 h2⟩
  · rintro ⟨h1, h2⟩
    simp [ns, h1, h2]

/-- A record of the queue `a` is the queued list of the queue `a:j`. -/
theorem keys_meet (p a j j' : String) :
    ({ queuePrefix := p, queueName := a, jobPrefix := j } : SharedQueue).key (.job "queued") =
      ({ queuePrefix := p, queueName := a ++ ":" ++ j, jobPrefix := j' } : SharedQueue).key
        (.queued none) := by
  simp [key, routed, KeyConfig.jobIdPrefix, KeyConfig.createNamespace, String.append_assoc]

end SharedQueue

end Kvdb
