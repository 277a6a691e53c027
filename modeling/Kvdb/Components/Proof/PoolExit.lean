import Kvdb.Components.Proof.PoolLedger

/-!
# The exits of `get_connection`

An exception leaves `get_connection` from any of its places. The pool gets the connection back only
from the last handler of `ensure_connection`, which has released it; in the other places that have a
connection nothing does (`restored_iff`). A run without such exits, and without a failed `connect` of
`warm_pool`, loses no connection.
-/

namespace Kvdb

namespace Ledger

variable {T : Type} [DecidableEq T] {cfg : PoolConfig} {L L' : Ledger T} {t : T}

/-- A connection that the pool has not dropped is available, or in the hands of a task. -/
def Whole (L : Ledger T) : Prop :=
  ∀ c, L.first ≤ c → c < L.made → c ∈ L.available ∨ ∃ t, (L.place t).hand = some c

/-- Nothing is lost in a move if the task does not lose what it has. -/
theorem whole_move (h : L.Whole) (hm : L.Move cfg t L')
    (hkeep : ∀ c, (L.place t).hand = some c →
      (L'.place t).hand = some c ∨ c ∈ L'.available ∨ c < L'.first) : L'.Whole := by
  -- a connection that was available or in other hands
  have hold : ∀ c, L.first ≤ c → c < L.made → L'.first ≤ c →
      (c ∈ L.available → c ∈ L'.available ∨ (L'.place t).hand = some c) →
        c ∈ L'.available ∨ ∃ t, (L'.place t).hand = some c := by
    intro c hf hc hf' ha
    rcases h c hf hc with hc | ⟨t', hc⟩
    · exact (ha hc).imp_right fun hc => ⟨t, hc⟩
    · rcases eq_or_ne t' t with rfl | ht
      · rcases hkeep c hc with hc | hc | hc
        · exact .inr ⟨t', hc⟩
        · exact .inl hc
        · omega
      · exact .inr ⟨t', by rwa [hm.place_of_ne ht]⟩
  -- the connection that was made
  have hnew : ∀ c, c < L.made + 1 → (L'.place t).hand = some L.made →
      (c < L.made → c ∈ L'.available ∨ ∃ t, (L'.place t).hand = some c) →
        c ∈ L'.available ∨ ∃ t, (L'.place t).hand = some c := by
    intro c hc hmade hlt
    rcases Nat.lt_succ_iff_lt_or_eq.1 hc with hc | rfl
    · exact hlt hc
    · exact .inr ⟨t, hmade⟩
  intro c hf hc
  cases hm with
  | pass | claim => exact hold c hf hc hf .inl
  | putBack | giveBack | warmDone =>
    exact hold c hf hc hf fun ha => .inl (List.mem_cons_of_mem _ ha)
  | pop ha =>
    refine hold c hf hc hf fun hmem => ?_
    rw [ha] at hmem
    rcases List.mem_cons.1 hmem with rfl | hmem
    · exact .inr (by simp [PoolAt.hand])
    · exact .inl hmem
  | take ha _ hp =>
    refine hold c hf hc hf fun hmem => ?_
    rw [ha] at hmem
    rcases List.mem_cons.1 hmem with rfl | hmem
    · exact .inr (by simpa using hp)
    · exact .inl hmem
  | make _ _ _ _ _ hp =>
    exact hnew c hc (by simpa using hp) fun hc => hold c hf hc hf .inl
  | warmMake =>
    exact hnew c hc (by simp [PoolAt.hand]) fun hc => hold c hf hc hf .inl
  | warmNext =>
    refine hnew c hc (by simp [PoolAt.hand]) fun hc => hold c hf hc hf fun ha => ?_
    exact .inl (List.mem_cons_of_mem _ ha)
  | reset _ _ hp =>
    refine hnew c hc (by simpa using hp) fun hlt => ?_
    exact absurd hlt (not_lt.2 hf)

/-- The task keeps its connection, or it is available, or the task has left. -/
theorem Move.hand (hm : L.Move cfg t L') {c : ℕ} (hc : (L.place t).hand = some c) :
    (L'.place t).hand = some c ∨ c ∈ L'.available ∨ L'.place t = .idle := by
  cases hm with
  | pass hp =>
    rcases hp with rfl | ⟨hhand, -, -⟩
    · exact .inr (.inr (Function.update_self ..))
    · exact .inl (by simpa [hhand] using hc)
  | claim hp =>
    rw [hp] at hc
    exact .inl (by simpa [PoolAt.hand] using hc)
  | putBack hp | warmNext _ hp =>
    rw [hp] at hc
    cases hc
    exact .inr (.inl List.mem_cons_self)
  | giveBack | warmDone => exact .inr (.inr (Function.update_self ..))
  | pop _ hp =>
    rw [hp] at hc
    cases hc
  | take _ hn | make _ _ _ _ hn | warmMake _ hn | reset _ hn =>
    rw [hn] at hc
    cases hc

/-- A task that leaves `get_connection` changes nothing, unless it ends its release. -/
theorem Move.frame_of_idle (hm : L.Move cfg t L') {c : ℕ} (hg : (L.place t).getting)
    (hc : (L.place t).hand = some c) (hr : L.place t ≠ .restoring c) (hidle : L'.place t = .idle) :
    L'.available = L.available ∧ L'.first = L.first := by
  cases hm with
  | pass => exact ⟨rfl, rfl⟩
  | pop | claim | putBack | warmMake | warmNext => simp at hidle
  | take _ hn | make _ _ _ _ hn | reset _ hn =>
    rw [hn] at hc
    cases hc
  | giveBack hp =>
    rcases hp with hp | hp <;> rw [hp] at hc hg
    · cases hc
      exact absurd hp hr
    · cases hg
  | warmDone hp =>
    rw [hp] at hg
    cases hg

end Ledger

namespace Pool

variable {T : Type} [DecidableEq T] {cfg : PoolConfig} {s s' : Pool T} {t : T}

/-- An exception takes the task out of `get_connection`. -/
def Exits (s : Pool T) (t : T) (s' : Pool T) : Prop :=
  (s.place t).getting ∧ s'.place t = .idle

/-- The connection that the task had is available, or its slot was freed by `reset`. -/
def Restored (s : Pool T) (t : T) (s' : Pool T) : Prop :=
  ∀ c, (s.place t).hand = some c → c ∈ s'.available ∨ c < s'.first

/-- The task has no connection, or one that a `reset` has dropped, or it is in the last handler of
`ensure_connection`, whose release is not interrupted. -/
def Careful (s : Pool T) (t : T) (o : AwaitOutcome) : Prop :=
  ∀ c, (s.place t).hand = some c → c < s.first ∨ s.place t = .restoring c ∧ ∃ b, o = .returned b

theorem release_returned {c : ℕ} {p : PoolAt} {b : Bool} {wake : ℕ}
    (h : s.release cfg t c p (.returned b) wake = some s') :
    s'.ledger = ((s.releaseConnection c).go t .idle).ledger := by
  simp only [release] at h
  split at h
  · split at h
    · split at h
      · exact ledger_notify h
      · rename_i hc
        cases h
        rw [releaseConnection, if_neg hc]
    · cases h
  · split at h <;> cases h
    rfl

/-- A release that is not interrupted leaves nothing in use. -/
theorem available_of_release {c : ℕ} {p : PoolAt} {b : Bool} {wake : ℕ}
    (hused : c ∈ s.inUse ∨ c < s.first) (h : s.release cfg t c p (.returned b) wake = some s') :
    c ∈ s'.available ∨ c < s'.first := by
  have hl := release_returned h
  have ha : s'.available = _ := congrArg Ledger.available hl
  have hf : s'.first = _ := congrArg Ledger.first hl
  unfold releaseConnection at ha hf
  split at ha
  · rw [ha]
    exact .inl List.mem_cons_self
  · rename_i hc
    rw [if_neg hc] at hf
    rw [hf]
    exact .inr (hused.resolve_left hc)

/-- An exit that is not the end of a release changes nothing but the place of the task. -/
theorem frame_of_exit {o : AwaitOutcome} {wake c : ℕ} (hO : s.ledger.Owned cfg)
    (hs : s.proceed cfg t o wake = some s') (hexit : s.Exits t s')
    (hc : (s.place t).hand = some c) (hn : ∀ b, s.place t = .restoring c → o ≠ .returned b) :
    s'.available = s.available ∧ s'.first = s.first := by
  by_cases hp : s.place t = .restoring c
  · simp only [proceed, hp, release] at hs
    split at hs
    · exact absurd rfl (hn _ hp)
    · split at hs <;> cases hs
      exact ⟨rfl, rfl⟩
    · cases hs
  · exact (move_proceed (hO.resets t) hs).frame_of_idle hexit.1 hc hp hexit.2

theorem restored_of_careful {o : AwaitOutcome} {wake : ℕ} (hO : s.ledger.Owned cfg)
    (hs : s.proceed cfg t o wake = some s') (hexit : s.Exits t s') (hC : s.Careful t o) :
    s.Restored t s' := by
  intro c hc
  by_cases hn : ∀ b, s.place t = .restoring c → o ≠ .returned b
  · obtain ⟨-, hf⟩ := frame_of_exit hO hs hexit hc hn
    rcases hC c hc with hlt | ⟨hp, b, ho⟩
    · exact .inr (hf ▸ hlt)
    · exact absurd ho (hn b hp)
  · simp only [not_forall, not_not] at hn
    obtain ⟨b, hp, rfl⟩ := hn
    simp only [proceed, hp] at hs
    exact available_of_release (hO.used t c hc (congrArg PoolAt.limbo hp)) hs

theorem careful_of_restored {o : AwaitOutcome} {wake : ℕ} (hO : s.ledger.Owned cfg)
    (hs : s.proceed cfg t o wake = some s') (hexit : s.Exits t s') (hr : s.Restored t s') :
    s.Careful t o := by
  intro c hc
  by_cases hn : ∀ b, s.place t = .restoring c → o ≠ .returned b
  · obtain ⟨ha, hf⟩ := frame_of_exit hO hs hexit hc hn
    have hres := hr c hc
    rw [ha, hf] at hres
    exact .inl (hres.resolve_left (hO.held t c hc).1)
  · simp only [not_forall, not_not] at hn
    obtain ⟨b, hp, ho⟩ := hn
    exact .inr ⟨hp, b, ho⟩

/-! ## Runs -/

/-- If the step takes a task out of `get_connection` by an exception, it is careful; and no `connect`
of `warm_pool` fails. -/
def Spares (cfg : PoolConfig) (s : Pool T) (e : PoolEv T) : Prop :=
  ∀ t o wake, e = .proceed t o wake →
    (∀ s', s.proceed cfg t o wake = some s' → s.Exits t s' → s.Careful t o) ∧
      ∀ c target, s.place t = .warming c target → ∃ b, o = .returned b

theorem available_warmLoop {target : ℕ} : (s.warmLoop cfg t target).available = s.available := by
  unfold warmLoop
  split <;> rfl

/-- A task that leaves with a connection gives it back. -/
theorem spared_of_idle {e : PoolEv T} {c : ℕ} (hO : s.ledger.Owned cfg) (hC : s.Spares cfg e)
    (hs : s.step cfg e = some s') (hc : (s.place e.task).hand = some c)
    (hidle : s'.place e.task = .idle) : c ∈ s'.available ∨ c < s'.first := by
  cases e with
  | get t | disconnect t =>
    simp only [step] at hs
    split at hs
    · rename_i hp
      simp [PoolEv.task, hp, PoolAt.hand] at hc
    · cases hs
  | warm t target =>
    simp only [step] at hs
    split at hs
    · rename_i hp
      simp [PoolEv.task, hp.1, PoolAt.hand] at hc
    · cases hs
  | release t =>
    simp only [step] at hs
    split at hs <;> cases hs
    simp [PoolEv.task, go] at hidle
  | proceed t o wake =>
    obtain ⟨hexit, hwarming⟩ := hC t o wake rfl
    change s.proceed cfg t o wake = some s' at hs
    change (s.place t).hand = some c at hc
    cases hg : (s.place t).getting with
    | true => exact restored_of_careful hO hs ⟨hg, hidle⟩ (hexit s' hs ⟨hg, hidle⟩) c hc
    | false =>
      cases hp : s.place t with
      | holding d => simp [proceed, hp, afterAwait] at hs
      | releasing d =>
        rw [hp] at hc
        cases hc
        have hused := hO.used t c (congrArg PoolAt.hand hp) (congrArg PoolAt.limbo hp)
        simp only [proceed, hp] at hs
        cases o with
        | returned b => exact available_of_release hused hs
        | raised e =>
          simp only [release] at hs
          split at hs
          · cases ‹AwaitOutcome.raised e = _›
          · split at hs <;> cases hs
            simp [PoolEv.task, go] at hidle
          · cases hs
      | warming d target =>
        rw [hp] at hc
        cases hc
        obtain ⟨b, rfl⟩ := hwarming c target hp
        simp only [proceed, hp] at hs
        cases hs
        rw [available_warmLoop]
        exact .inl List.mem_cons_self
      | _ => simp_all [PoolAt.getting, PoolAt.hand]

theorem whole_step {e : PoolEv T} (hO : s.ledger.Owned cfg) (h : s.ledger.Whole)
    (hC : s.Spares cfg e) (hs : s.step cfg e = some s') : s'.ledger.Whole := by
  have hm := move_of_step hO.resets hs
  refine Ledger.whole_move h hm fun c hc => ?_
  rcases hm.hand hc with hc' | hc' | hidle
  · exact .inl hc'
  · exact .inr (.inl hc')
  · exact .inr (spared_of_idle hO hC hs hc hidle)

theorem whole_of_run {es : List (PoolEv T)}
    (h : (poolMachine T cfg).Run (Spares cfg) (poolMachine T cfg).init es s) : s.ledger.Whole := by
  induction h with
  | nil => exact nofun
  | snoc hr hC hs ih => exact whole_step (owned_of_run hr) ih hC hs

/-- **When `get_connection` raises**, its connection is available again, or its slot is free, exactly
if the task had none, or a `reset` dropped it, or the release of the last handler is over. Without
other exits no connection is lost. -/
theorem restored_iff {es : List (PoolEv T)}
    (h : (poolMachine T cfg).Run Lib.Machine.Any (poolMachine T cfg).init es s) :
    (∀ t o wake s', (poolMachine T cfg).step s (.proceed t o wake) = some s' → s.Exits t s' →
      (s.Restored t s' ↔ s.Careful t o)) ∧
    ((poolMachine T cfg).Run (Spares cfg) (poolMachine T cfg).init es s → s.ledger.Whole) := by
  have hO := owned_of_run h
  refine ⟨fun t o wake s' hs hexit => ?_, whole_of_run⟩
  exact ⟨careful_of_restored hO hs hexit, restored_of_careful hO hs hexit⟩

/-- After another exception in the first read the connection is available again. -/
theorem restored_reading :
    ∃ s s' : Pool Unit, s.place () = .restoring 0 ∧ s'.place () = .idle ∧ s.Restored () s' := by
  let M := poolMachine Unit ⟨.async, 1, false, false⟩
  obtain ⟨s, hr, hp, s', hs, hidle⟩ : ∃ s, M.Run Lib.Machine.Any M.init
      [.get (), .proceed () (.returned true) 0, .proceed () (.returned true) 0,
        .proceed () (.raised .other) 0] s ∧
      s.place () = .restoring 0 ∧
        ∃ s' ∈ M.step s (.proceed () (.returned true) 0), s'.place () = .idle :=
    Lib.Machine.exists_run (by decide +kernel) (by decide +kernel)
  have hexit : s.Exits () s' := ⟨by rw [hp]; rfl, hidle⟩
  refine ⟨s, s', hp, hidle, ((restored_iff hr).1 () (.returned true) 0 s' hs hexit).2 ?_⟩
  intro c hc
  rw [hp] at hc
  cases hc
  exact .inr ⟨hp, true, rfl⟩

/-- A `connect` that fails in `ensure_connection` keeps the only connection in use. -/
theorem restored_broken :
    let M := poolMachine Unit ⟨.async, 1, false, false⟩
    ∃ s s', M.Run Lib.Machine.Any M.init [.get (), .proceed () (.returned true) 0] s ∧
      M.step s (.proceed () (.raised .connection) 0) = some s' ∧ s.Exits () s' ∧
        ¬s.Restored () s' := by
  intro M
  have hr : M.Run Lib.Machine.Any M.init
      ([] ++ [.get ()] ++ [.proceed () (.returned true) 0]) _ :=
    .snoc (.snoc .nil trivial rfl) trivial rfl
  refine ⟨_, _, hr, rfl, ⟨rfl, rfl⟩, fun hres => ?_⟩
  rcases hres 0 rfl with hmem | hlt
  · cases hmem
  · cases hlt

end Pool

end Kvdb
