import Kvdb.Client

/-!
# The current session and the pools of the session manager

* `Agrees m`: the current session is the one that is registered under its name, so `ctx`, a session
  function and `get_session()` use the same session. A call breaks this if and only if it `Replaces`
  the session of that name and does not choose the new one (`agrees_of_run`).
* Sessions of one key share one pool for good; a session that was constructed with `disable_store`
  shares it too if the key has a pool, else its pool is its own (`pools_of_run`).
-/

namespace Kvdb

open Lib
open Python (Dict)

namespace SessionManager

variable {U K : Type} {S : SessionSettings U K} {m m' : SessionManager} {s c : KVDBSession}

/-! ## What the methods do -/

/-- The construction of a session registers nothing. -/
theorem createSession_frame (S : SessionSettings U K) (m : SessionManager) (a : CreateArgs U K) :
    (m.createSession S a).1.sessions = m.sessions ∧ (m.createSession S a).1.ctx = m.ctx ∧
      m.sessionsMade ≤ (m.createSession S a).1.sessionsMade := by
  unfold createSession getPool
  cases m.pools.get? (S.poolKey a) with
  | some pool => cases a.sessionRaises <;> simp
  | none =>
    cases a.poolRaises with
    | some e => simp
    | none => cases a.disableStore <;> cases a.sessionRaises <;> simp

/-- A session that was constructed is new. -/
theorem createSession_ok {a : CreateArgs U K} (h : (m.createSession S a).2 = .ok s) :
    s.id = m.sessionsMade ∧ s.name = a.name ∧ s.key = S.poolKey a ∧
      (m.createSession S a).1.sessionsMade = m.sessionsMade + 1 := by
  revert h
  unfold createSession getPool
  cases m.pools.get? (S.poolKey a) with
  | some pool =>
    cases a.sessionRaises with
    | some e => simp
    | none =>
      intro h
      cases h
      simp
  | none =>
    cases a.poolRaises with
    | some e => simp
    | none =>
      cases a.disableStore <;> cases a.sessionRaises <;> intro h <;> cases h <;> simp

theorem setCtx_fst (m : SessionManager) (name : Option String) :
    (m.setCtx name).1 =
      if truthyName name ∧ m.has name then { m with ctx := m.sessions.get? name } else m := by
  unfold setCtx has
  cases ht : truthyName name with
  | false => simp
  | true =>
    cases hg : m.sessions.get? name with
    | none => simp
    | some c => simp

/-- `set_ctx` where it is wanted. -/
theorem choose_fst (m : SessionManager) (name : Option String) (wanted : Bool) (s : KVDBSession) :
    (m.choose name wanted s).1 = if wanted then (m.setCtx name).1 else m := by
  unfold choose
  cases wanted with
  | false => rfl
  | true =>
    cases h : m.setCtx name with
    | mk m' r => cases r <;> rfl

/-- The manager in which `s` is registered. -/
def registered (m : SessionManager) (s : KVDBSession) : SessionManager :=
  { m with sessions := m.sessions.setItem s.name s }

theorem register_of_error {a : SessionArgs U K} {e : SessionError}
    (h : (m.createSession S a.toCreateArgs).2 = .error e) :
    (m.register S a).1 = (m.createSession S a.toCreateArgs).1 := by
  unfold register
  cases hc : m.createSession S a.toCreateArgs with
  | mk m₁ r =>
    rw [hc] at h
    cases h
    rfl

theorem register_of_ok {a : SessionArgs U K} (h : (m.createSession S a.toCreateArgs).2 = .ok s) :
    (m.register S a).1 = (((m.createSession S a.toCreateArgs).1.registered s).choose a.name
      (a.setAsCtx.getD (m.sessions.items.length = 0)) s).1 := by
  have hf := createSession_frame S m a.toCreateArgs
  have hs := createSession_ok h
  unfold register
  cases hc : m.createSession S a.toCreateArgs with
  | mk m₁ r =>
    rw [hc] at h hf
    cases h
    have hsessions : m₁.sessions = m.sessions := hf.1
    simp only [registered, hs.2.1, hsessions]

/-! ## The registry -/

/-- The sessions are registered under their names, the current one under a name that is true. -/
structure Sound (m : SessionManager) : Prop where
  name : ∀ n s, m.sessions.get? n = some s → s.name = n
  old : ∀ n s, m.sessions.get? n = some s → s.id < m.sessionsMade
  ctx : ∀ c, m.ctx = some c → truthyName c.name ∧ m.has c.name ∧ c.id < m.sessionsMade

theorem Sound.of_frame (h : m.Sound) (hs : m'.sessions = m.sessions) (hc : m'.ctx = m.ctx)
    (hn : m.sessionsMade ≤ m'.sessionsMade) : m'.Sound := by
  refine ⟨fun n s hg => h.name n s (hs ▸ hg), fun n s hg => ?_, fun c hx => ?_⟩
  · exact (h.old n s (hs ▸ hg)).trans_le hn
  · obtain ⟨h1, h2, h3⟩ := h.ctx c (hc ▸ hx)
    refine ⟨h1, ?_, h3.trans_le hn⟩
    rw [has, hs]
    exact h2

theorem Sound.setCtx (h : m.Sound) (name : Option String) : (m.setCtx name).1.Sound := by
  rw [setCtx_fst]
  split
  · rename_i hw
    refine ⟨h.name, h.old, fun c hc => ?_⟩
    have hn : c.name = name := h.name name c hc
    exact ⟨hn ▸ hw.1, hn ▸ hw.2, h.old name c hc⟩
  · exact h

theorem Sound.choose (h : m.Sound) (name : Option String) (wanted : Bool) (s : KVDBSession) :
    (m.choose name wanted s).1.Sound := by
  rw [choose_fst]
  split
  · exact h.setCtx name
  · exact h

theorem Sound.registered (h : m.Sound) (hs : s.id < m.sessionsMade) : (m.registered s).Sound := by
  have hg : ∀ n, (m.registered s).sessions.get? n =
      if n = s.name then some s else m.sessions.get? n := fun n => Dict.get?_setItem ..
  refine ⟨fun n t hn => ?_, fun n t hn => ?_, fun c hc => ?_⟩
  · rw [hg] at hn
    split at hn
    · rename_i he
      cases hn
      exact he.symm
    · exact h.name n t hn
  · rw [hg] at hn
    split at hn
    · cases hn
      exact hs
    · exact h.old n t hn
  · obtain ⟨h1, h2, h3⟩ := h.ctx c hc
    refine ⟨h1, ?_, h3⟩
    rw [has, hg]
    split
    · rfl
    · exact h2

theorem Sound.create (h : m.Sound) (a : CreateArgs U K) : (m.createSession S a).1.Sound := by
  obtain ⟨hs, hc, hn⟩ := createSession_frame S m a
  exact h.of_frame hs hc hn

theorem Sound.register (h : m.Sound) (a : SessionArgs U K) : (m.register S a).1.Sound := by
  rcases hr : (m.createSession S a.toCreateArgs).2 with e | s
  · rw [register_of_error hr]
    exact h.create a.toCreateArgs
  · rw [register_of_ok hr]
    obtain ⟨hid, -, -, hmade⟩ := createSession_ok hr
    exact ((h.create a.toCreateArgs).registered (by omega)).choose ..

theorem Sound.session (h : m.Sound) (a : SessionArgs U K) : (m.session S a).1.Sound := by
  unfold SessionManager.session
  split
  · exact h.register a
  · split
    · exact h.choose ..
    · exact h.register a

theorem Sound.exec (h : m.Sound) (call : ManagerCall U K) : (m.exec S call).Sound := by
  cases call with
  | createSession a => exact h.create a
  | session a => exact h.session a
  | initSession a =>
    show (m.initSession S a).1.Sound
    unfold initSession
    split
    · exact h
    · exact h.session a
  | getSession a =>
    show (m.getSession S a).1.Sound
    simp only [getSession]
    split
    · exact h.session _
    · exact h
  | setSession name =>
    show (m.setSession name).1.Sound
    unfold setSession
    split
    · exact h.setCtx name
    · exact h
  | addSession => exact h
  | ctx poolRaises sessionRaises =>
    show (m.getCtx S poolRaises sessionRaises).1.Sound
    unfold getCtx
    split
    · exact h
    · have hs := h.session (S := S) { kwargs := S.noKwargs, poolRaises, sessionRaises }
      revert hs
      cases m.session S { kwargs := S.noKwargs, poolRaises, sessionRaises } with
      | mk m' r => cases r <;> exact id

/-! ## The current session -/

/-- The current session is the one that is registered under its name. -/
def Agrees (m : SessionManager) : Prop := ∀ c, m.ctx = some c → m.sessions.get? c.name = some c

/-- The construction succeeds. -/
def Succeeds (S : SessionSettings U K) (m : SessionManager) (a : CreateArgs U K) : Prop :=
  a.sessionRaises = none ∧ ((m.pools.get? (S.poolKey a)).isSome ∨ a.poolRaises = none)

theorem createSession_ok_iff (S : SessionSettings U K) (m : SessionManager) (a : CreateArgs U K) :
    (∃ s, (m.createSession S a).2 = .ok s) ↔ m.Succeeds S a := by
  unfold createSession getPool Succeeds
  cases m.pools.get? (S.poolKey a) with
  | some pool => cases a.sessionRaises <;> simp
  | none =>
    cases a.poolRaises with
    | some e => simp
    | none => cases a.disableStore <;> cases a.sessionRaises <;> simp

/-- The session of the current name is overwritten, and the new one is not made the current one. -/
def ReplacesBy (S : SessionSettings U K) (m : SessionManager) (a : SessionArgs U K) : Prop :=
  (∃ c, m.ctx = some c ∧ a.name = c.name) ∧ a.overwrite = some true ∧ a.setAsCtx ≠ some true ∧
    m.Succeeds S a.toCreateArgs

def Replaces (S : SessionSettings U K) (m : SessionManager) : ManagerCall U K → Prop
  | .session a | .initSession a => m.ReplacesBy S a
  | _ => False

theorem Agrees.of_frame (h : m.Agrees) (hs : m'.sessions = m.sessions) (hc : m'.ctx = m.ctx) :
    m'.Agrees := by
  intro c hx
  rw [hs]
  exact h c (hc ▸ hx)

/-- A session that is made the current one is the registered one. -/
theorem agrees_setCtx (h : m.Sound) {name : Option String} (ht : truthyName name = true)
    (hn : m.has name = true) : (m.setCtx name).1.Agrees := by
  rw [setCtx_fst, if_pos ⟨ht, hn⟩]
  intro c hc
  have hname : c.name = name := h.name name c hc
  rw [hname]
  exact hc

theorem Agrees.setCtx (h : m.Agrees) (hm : m.Sound) (name : Option String) :
    (m.setCtx name).1.Agrees := by
  by_cases hw : truthyName name = true ∧ m.has name = true
  · exact agrees_setCtx hm hw.1 hw.2
  · rw [setCtx_fst, if_neg hw]
    exact h

theorem Agrees.choose (h : m.Agrees) (hm : m.Sound) (name : Option String) (wanted : Bool)
    (s : KVDBSession) : (m.choose name wanted s).1.Agrees := by
  rw [choose_fst]
  split
  · exact h.setCtx hm name
  · exact h

/-- A session of another name is registered. -/
theorem Agrees.registered (h : m.Agrees) (hn : ∀ c, m.ctx = some c → c.name ≠ s.name) :
    (m.registered s).Agrees := by
  intro c hc
  show (m.sessions.setItem s.name s).get? c.name = some c
  rw [Dict.get?_setItem, if_neg (hn c hc)]
  exact h c hc

theorem agrees_register (hm : m.Sound) (h : m.Agrees) (a : SessionArgs U K)
    (ho : m.has a.name = true → a.overwrite = some true) :
    (m.register S a).1.Agrees ↔ ¬ m.ReplacesBy S a := by
  obtain ⟨hsess, hctx, -⟩ := createSession_frame S m a.toCreateArgs
  have h₁ : (m.createSession S a.toCreateArgs).1.Agrees := h.of_frame hsess hctx
  rcases hr : (m.createSession S a.toCreateArgs).2 with e | s
  · -- the construction raises
    have hno : ¬ m.Succeeds S a.toCreateArgs := by
      rw [← createSession_ok_iff]
      rintro ⟨s, hs⟩
      rw [hr] at hs
      cases hs
    rw [register_of_error hr]
    exact iff_of_true h₁ fun hx => hno hx.2.2.2
  have hyes : m.Succeeds S a.toCreateArgs := (createSession_ok_iff S m _).1 ⟨s, hr⟩
  obtain ⟨hid, hname, -, hmade⟩ := createSession_ok hr
  have hsound : ((m.createSession S a.toCreateArgs).1.registered s).Sound :=
    (hm.create a.toCreateArgs).registered (by omega)
  have hget : ∀ n, ((m.createSession S a.toCreateArgs).1.registered s).sessions.get? n =
      if n = a.name then some s else m.sessions.get? n := by
    intro n
    rw [← hname, ← hsess]
    exact Dict.get?_setItem ..
  rw [register_of_ok hr]
  by_cases hcur : ∃ c, m.ctx = some c ∧ a.name = c.name
  swap
  · have hreg : ((m.createSession S a.toCreateArgs).1.registered s).Agrees :=
      h₁.registered fun c hc e => hcur ⟨c, hctx ▸ hc, by rw [e, hname]⟩
    exact iff_of_true (hreg.choose hsound _ _ _) fun hx => hcur hx.1
  obtain ⟨c, hc, hcn⟩ := hcur
  obtain ⟨htruthy, hhas, hold⟩ := hm.ctx c hc
  have hlen : decide (m.sessions.items.length = 0) = false := by
    rw [decide_eq_false_iff_not, ← Dict.card_keySet, Finset.card_eq_zero]
    intro hempty
    have hmem := Dict.mem_keySet.2 hhas
    rw [hempty] at hmem
    exact absurd hmem (Finset.notMem_empty _)
  rw [hlen, choose_fst]
  by_cases hset : a.setAsCtx = some true
  · rw [hset]
    refine iff_of_true (agrees_setCtx hsound (hcn ▸ htruthy) ?_) fun hx => hx.2.2.1 hset
    rw [has, hget, if_pos rfl]
    rfl
  · have hw : a.setAsCtx.getD false = false := by
      cases hx : a.setAsCtx with
      | none => rfl
      | some b => cases b <;> simp_all
    rw [hw, if_neg Bool.false_ne_true]
    refine iff_of_false (fun hagree => ?_) (not_not.2 ⟨⟨c, hc, hcn⟩, ?_, hset, hyes⟩)
    · -- the current session is older than the new one of its name
      have hnew := hagree c (hctx.trans hc)
      rw [hget, if_pos hcn.symm] at hnew
      cases hnew
      omega
    · exact ho (hcn ▸ hhas)

theorem agrees_session (hm : m.Sound) (h : m.Agrees) (a : SessionArgs U K) :
    (m.session S a).1.Agrees ↔ ¬ m.ReplacesBy S a := by
  unfold session
  cases hg : m.sessions.get? a.name with
  | none =>
    refine agrees_register hm h a fun hn => ?_
    rw [has, hg] at hn
    cases hn
  | some s =>
    by_cases ho : a.overwrite = some true
    · simp only [ho, ne_eq, not_true_eq_false, ↓reduceIte]
      exact agrees_register hm h a fun _ => ho
    · simp only [ho, ne_eq, not_false_eq_true, ↓reduceIte]
      exact iff_of_true (h.choose hm _ _ _) fun hx => ho hx.2.1

/-- **A call keeps the current session the registered one** exactly if it does not replace it. -/
theorem agrees_exec_iff (hm : m.Sound) (h : m.Agrees) (call : ManagerCall U K) :
    (m.exec S call).Agrees ↔ ¬ m.Replaces S call := by
  cases call with
  | createSession a =>
    obtain ⟨hsess, hctx, -⟩ := createSession_frame S m a
    exact iff_of_true (h.of_frame hsess hctx) id
  | session a => exact agrees_session hm h a
  | initSession a =>
    show (m.initSession S a).1.Agrees ↔ ¬ m.ReplacesBy S a
    unfold initSession
    split
    · rename_i hx
      exact iff_of_true h fun hr => hx.2 hr.2.1
    · exact agrees_session hm h a
  | getSession a =>
    refine iff_of_true ?_ id
    show (m.getSession S a).1.Agrees
    simp only [getSession]
    split
    · rename_i hg
      refine (agrees_session hm h _).2 fun hx => ?_
      obtain ⟨c, hc, hn⟩ := hx.1
      obtain ⟨-, hhas, -⟩ := hm.ctx c hc
      rw [has, ← hn] at hhas
      simp only at hg hhas
      rw [hg] at hhas
      cases hhas
    · exact h
  | setSession name =>
    refine iff_of_true ?_ id
    show (m.setSession name).1.Agrees
    unfold setSession
    split
    · exact h.setCtx hm name
    · exact h
  | addSession => exact iff_of_true h id
  | ctx poolRaises sessionRaises =>
    refine iff_of_true ?_ id
    show (m.getCtx S poolRaises sessionRaises).1.Agrees
    unfold getCtx
    split
    · exact h
    · rename_i hc
      have hs := (agrees_session (S := S) hm h
        { kwargs := S.noKwargs, poolRaises, sessionRaises }).2 fun hx => by
          obtain ⟨c, hc', -⟩ := hx.1
          rw [hc] at hc'
          cases hc'
      revert hs
      cases m.session S { kwargs := S.noKwargs, poolRaises, sessionRaises } with
      | mk m' r => cases r <;> exact id

theorem sound_init : ({} : SessionManager).Sound :=
  ⟨fun _ _ h => (by cases h), fun _ _ h => (by cases h), fun _ h => (by cases h)⟩

theorem sound_of_run {C : SessionManager → ManagerCall U K → Prop} {calls : List (ManagerCall U K)}
    (h : (managerMachine S).Run C {} calls m) : m.Sound := by
  refine h.inv Sound sound_init fun m call m' hm _ hs => ?_
  cases hs
  exact hm.exec call

/-- The ways to the current session lead to the session `c`. -/
structure LeadsTo (S : SessionSettings U K) (m : SessionManager) (c : KVDBSession) : Prop where
  ctx : ∀ poolRaises sessionRaises, (m.getCtx S poolRaises sessionRaises).2 = .ok (some c)
  sessionFunction : m.sessionFunction none = .ok c
  getSession : ∀ a : SessionArgs U K, a.name = none → (m.getSession S a).2 = .ok c
  setSession : (m.setSession c.name).1 = m

theorem leadsTo_of_agrees (hm : m.Sound) (h : m.Agrees) (hc : m.ctx = some c) : m.LeadsTo S c := by
  obtain ⟨htruthy, hhas, -⟩ := hm.ctx c hc
  have hg := h c hc
  refine ⟨fun _ _ => ?_, ?_, fun a ha => ?_, ?_⟩
  · simp [getCtx, hc]
  · have hcur : m.current = c.name := by simp [current, currentName, hc, htruthy]
    simp [SessionManager.sessionFunction, withSession, hcur, hg]
  · have hname : m.wantedName a.name = c.name := by
      rw [wantedName, ha, currentName, hc]
      cases hn : c.name with
      | none =>
        rw [hn] at htruthy
        cases htruthy
      | some n => simp [hn]
    simp [SessionManager.getSession, hname, hg]
  · rw [SessionManager.setSession, if_pos hhas, setCtx_fst, if_pos ⟨htruthy, hhas⟩, hg, ← hc]

/-- **The ways to the current session lead to one session** in every state of a run in which no call
replaces the current session without choosing the new one; and a call that does so parts them: `ctx` is
one session, the session functions run on another. -/
theorem agrees_of_run {calls : List (ManagerCall U K)}
    (h : (managerMachine S).Run (fun m call => ¬ m.Replaces S call) {} calls m) :
    (∀ c, m.ctx = some c → m.LeadsTo S c) ∧
      ∀ call, m.Replaces S call →
        ∃ c s, (m.exec S call).ctx = some c ∧ (m.exec S call).sessionFunction none = .ok s ∧
          s ≠ c := by
  have hm : m.Sound := sound_of_run h
  have hagree : m.Agrees := by
    have hboth : m.Sound ∧ m.Agrees := by
      refine h.inv (fun m => m.Sound ∧ m.Agrees) ⟨sound_init, fun _ h => by cases h⟩
        fun m call m' hi hc hs => ?_
      cases hs
      exact ⟨hi.1.exec call, (agrees_exec_iff hi.1 hi.2 call).2 hc⟩
    exact hboth.2
  refine ⟨fun c hc => leadsTo_of_agrees hm hagree hc, fun call hr => ?_⟩
  have hno : ¬ (m.exec S call).Agrees := fun hx => (agrees_exec_iff hm hagree call).1 hx hr
  obtain ⟨c, hc, hg⟩ : ∃ c, (m.exec S call).ctx = some c ∧
      (m.exec S call).sessions.get? c.name ≠ some c := by
    simpa [Agrees] using hno
  obtain ⟨htruthy, hhas, -⟩ := (hm.exec (S := S) call).ctx c hc
  have hcur : (m.exec S call).current = c.name := by simp [current, currentName, hc, htruthy]
  obtain ⟨s, hs⟩ := Option.isSome_iff_exists.1 hhas
  refine ⟨c, s, hc, ?_, fun he => hg (he ▸ hs)⟩
  rw [SessionManager.sessionFunction, Option.none_or, hcur, withSession, hs]

/-- A second session is made the current one, and its overwriting is left out. -/
theorem agrees_of_session :
    let S : SessionSettings ℕ Unit :=
      { url := 0, dbId := fun _ => 0, withDbId := fun u n => u + n.toNat
        key := fun u _ => toString u, noKwargs := () }
    ∃ m : SessionManager, m.ctx.map KVDBSession.name = some (some "b") ∧
      ∀ c, m.ctx = some c → m.LeadsTo S c := by
  intro S
  have hr : (managerMachine S).Run (fun m call => ¬ m.Replaces S call) {}
      [.session { kwargs := () },
        .session { name := some "b", setAsCtx := some true, kwargs := () }] _ :=
    Machine.run_of_exec rfl ⟨fun hx => by simp [Replaces, ReplacesBy] at hx,
      fun hx => by simp [Replaces, ReplacesBy] at hx, trivial⟩
  exact ⟨_, by decide, (agrees_of_run hr).1⟩

/-! ## The pools -/

/-- The construction that the call tries. -/
def constructs (S : SessionSettings U K) (m : SessionManager) :
    ManagerCall U K → Option (CreateArgs U K)
  | .createSession a => some a
  | .session a | .initSession a =>
    if m.has a.name ∧ a.overwrite ≠ some true then none else some a.toCreateArgs
  | .getSession a =>
    if m.has (m.wantedName a.name) then none
    else some { a.toCreateArgs with name := m.wantedName a.name }
  | .ctx poolRaises sessionRaises =>
    if m.ctx.isSome ∨ m.has (some "default") then none
    else some { kwargs := S.noKwargs, poolRaises, sessionRaises }
  | .setSession _ | .addSession => none

/-- The pools, and how many were made. -/
def poolState (m : SessionManager) : Dict String ℕ × ℕ := (m.pools, m.poolsMade)

@[simp] theorem poolState_setCtx (m : SessionManager) (name : Option String) :
    (m.setCtx name).1.poolState = m.poolState := by
  rw [setCtx_fst]
  split <;> rfl

@[simp] theorem poolState_choose (m : SessionManager) (name : Option String) (wanted : Bool)
    (s : KVDBSession) : (m.choose name wanted s).1.poolState = m.poolState := by
  rw [choose_fst]
  split <;> simp

theorem poolState_register (a : SessionArgs U K) :
    (m.register S a).1.poolState = (m.createSession S a.toCreateArgs).1.poolState := by
  rcases hr : (m.createSession S a.toCreateArgs).2 with e | s
  · rw [register_of_error hr]
  · rw [register_of_ok hr, poolState_choose]
    rfl

theorem poolState_session (a : SessionArgs U K) :
    (m.session S a).1.poolState =
      if m.has a.name ∧ a.overwrite ≠ some true then m.poolState
      else (m.createSession S a.toCreateArgs).1.poolState := by
  unfold session has
  cases hg : m.sessions.get? a.name with
  | none => simp [poolState_register]
  | some s =>
    by_cases ho : a.overwrite = some true
    · simp [ho, poolState_register]
    · simp [ho]

/-- The pools change with a construction only. -/
theorem poolState_exec (call : ManagerCall U K) :
    (m.exec S call).poolState =
      (m.constructs S call).elim m.poolState fun a => (m.createSession S a).1.poolState := by
  cases call with
  | createSession a => rfl
  | session a =>
    show (m.session S a).1.poolState = _
    rw [poolState_session, constructs]
    split <;> rfl
  | initSession a =>
    show (m.initSession S a).1.poolState = _
    simp only [initSession, constructs]
    by_cases hn : m.has a.name = true ∧ a.overwrite ≠ some true
    · rw [if_pos hn, if_pos hn]
      rfl
    · rw [if_neg hn, if_neg hn, poolState_session, if_neg hn]
      rfl
  | getSession a =>
    show (m.getSession S a).1.poolState = _
    simp only [getSession, constructs, has]
    split
    · rename_i hg
      rw [poolState_session]
      simp [has, hg]
    · rename_i s hg
      simp [hg]
  | setSession name =>
    show (m.setSession name).1.poolState = _
    unfold setSession
    split
    · exact poolState_setCtx m name
    · rfl
  | addSession => rfl
  | ctx poolRaises sessionRaises =>
    show (m.getCtx S poolRaises sessionRaises).1.poolState = _
    unfold getCtx constructs
    cases m.ctx with
    | some c => rfl
    | none =>
      have hs := poolState_session (S := S) (m := m)
        { kwargs := S.noKwargs, poolRaises, sessionRaises }
      revert hs
      cases m.session S { kwargs := S.noKwargs, poolRaises, sessionRaises } with
      | mk m' r =>
        intro hs
        have hm' : m'.poolState = _ := hs
        cases r <;> simp [hm'] <;> split <;> rfl

/-- The sessions that were constructed so far, each with whether its pool is to be shared: the key
had a pool, or the store was not disabled. -/
def notePools (S : SessionSettings U K) (g : List (KVDBSession × Bool)) (m : SessionManager)
    (call : ManagerCall U K) : List (KVDBSession × Bool) :=
  (m.constructs S call).elim g fun a =>
    match (m.createSession S a).2 with
    | .error _ => g
    | .ok s => g ++ [(s, !a.disableStore || (m.pools.get? s.key).isSome)]

structure PoolLedger (g : List (KVDBSession × Bool)) (m : SessionManager) : Prop where
  /-- A key has a pool of its own. -/
  injective : ∀ k k' p, m.pools.get? k = some p → m.pools.get? k' = some p → k = k'
  old : ∀ k p, m.pools.get? k = some p → p < m.poolsMade
  made : ∀ e ∈ g, e.1.pool < m.poolsMade
  shared : ∀ e ∈ g, e.2 = true → m.pools.get? e.1.key = some e.1.pool
  private' : ∀ e ∈ g, e.2 = false → ∀ k, m.pools.get? k ≠ some e.1.pool
  alone : ∀ e ∈ g, e.2 = false → ∀ e' ∈ g, e'.1.pool = e.1.pool → e' = e

/-- What the construction of a session does to the pools. -/
theorem createSession_pools (S : SessionSettings U K) (m : SessionManager) (a : CreateArgs U K) :
    let m' := (m.createSession S a).1
    (m'.poolState = m.poolState ∧
        ∀ s, (m.createSession S a).2 = .ok s →
          m.pools.get? (S.poolKey a) = some s.pool ∧ s.key = S.poolKey a) ∨
      (m.pools.get? (S.poolKey a) = none ∧ m'.poolsMade = m.poolsMade + 1 ∧
        (m'.pools = if a.disableStore then m.pools else
          m.pools.setItem (S.poolKey a) m.poolsMade) ∧
        ∀ s, (m.createSession S a).2 = .ok s →
          s.pool = m.poolsMade ∧ s.key = S.poolKey a) := by
  unfold createSession getPool poolState
  cases hp : m.pools.get? (S.poolKey a) with
  | some pool =>
    left
    cases a.sessionRaises <;> simp
  | none =>
    cases a.poolRaises with
    | some e => simp
    | none =>
      right
      cases a.disableStore <;> cases a.sessionRaises <;> simp

variable {g : List (KVDBSession × Bool)}

/-- A pool was made, for the store or not. -/
theorem PoolLedger.make (h : PoolLedger g m) {k : String} (hk : m.pools.get? k = none)
    {disableStore : Bool} (hmade : m'.poolsMade = m.poolsMade + 1)
    (hpools : m'.pools = if disableStore then m.pools else m.pools.setItem k m.poolsMade) :
    PoolLedger g m' := by
  cases disableStore with
  | true =>
    have hp : m'.pools = m.pools := hpools
    refine ⟨fun k k' p => hp ▸ h.injective k k' p, fun k p hg => ?_, fun e he => ?_,
      fun e he hb => hp ▸ h.shared e he hb, fun e he hb => hp ▸ h.private' e he hb, h.alone⟩
    · rw [hmade]
      exact Nat.lt_succ_of_lt (h.old k p (hp ▸ hg))
    · rw [hmade]
      exact Nat.lt_succ_of_lt (h.made e he)
  | false =>
    have hget : ∀ k', m'.pools.get? k' = if k' = k then some m.poolsMade else m.pools.get? k' := by
      intro k'
      rw [hpools]
      exact Dict.get?_setItem ..
    refine ⟨fun k₁ k₂ p h1 h2 => ?_, fun k' p hg => ?_, fun e he => ?_, fun e he hb => ?_,
      fun e he hb k' hg => ?_, h.alone⟩
    · rw [hget] at h1 h2
      split at h1 <;> split at h2
      · simp_all
      · cases h1
        exact absurd (h.old k₂ _ h2) (lt_irrefl _)
      · cases h2
        exact absurd (h.old k₁ _ h1) (lt_irrefl _)
      · exact h.injective k₁ k₂ p h1 h2
    · rw [hget] at hg
      rw [hmade]
      split at hg
      · cases hg
        exact Nat.lt_succ_self _
      · exact Nat.lt_succ_of_lt (h.old k' p hg)
    · rw [hmade]
      exact Nat.lt_succ_of_lt (h.made e he)
    · have hs := h.shared e he hb
      rw [hget, if_neg fun hk' => by rw [hk', hk] at hs; cases hs]
      exact hs
    · rw [hget] at hg
      split at hg
      · have hlt := h.made e he
        rw [← Option.some.inj hg] at hlt
        exact absurd hlt (lt_irrefl _)
      · exact h.private' e he hb k' hg

/-- A session on a pool that is stored. -/
theorem PoolLedger.share (h : PoolLedger g m) {s : KVDBSession}
    (hs : m.pools.get? s.key = some s.pool) : PoolLedger (g ++ [(s, true)]) m := by
  refine ⟨h.injective, h.old, fun e he => ?_, fun e he hb => ?_, fun e he hb => ?_,
    fun e he hb e' he' hp => ?_⟩
  all_goals rcases List.mem_append.1 he with he | he
  · exact h.made e he
  · rw [List.mem_singleton.1 he]
    exact h.old _ _ hs
  · exact h.shared e he hb
  · rw [List.mem_singleton.1 he]
    exact hs
  · exact h.private' e he hb
  · rw [List.mem_singleton.1 he] at hb
    cases hb
  · rcases List.mem_append.1 he' with he' | he'
    · exact h.alone e he hb e' he' hp
    · rw [List.mem_singleton.1 he'] at hp
      exact absurd (hp ▸ hs) (h.private' e he hb s.key)
  · rw [List.mem_singleton.1 he] at hb
    cases hb

/-- A session on a pool that was made for it. -/
theorem PoolLedger.own (h : PoolLedger g m) {s : KVDBSession} (hlt : s.pool < m.poolsMade)
    (hnew : ∀ e ∈ g, e.1.pool < s.pool) (hold : ∀ k p, m.pools.get? k = some p → p < s.pool) :
    PoolLedger (g ++ [(s, false)]) m := by
  refine ⟨h.injective, h.old, fun e he => ?_, fun e he hb => ?_, fun e he hb => ?_,
    fun e he hb e' he' hp => ?_⟩
  all_goals rcases List.mem_append.1 he with he | he
  · exact h.made e he
  · rw [List.mem_singleton.1 he]
    exact hlt
  · exact h.shared e he hb
  · rw [List.mem_singleton.1 he] at hb
    cases hb
  · exact h.private' e he hb
  · intro k hk
    rw [List.mem_singleton.1 he] at hk
    exact absurd (hold k _ hk) (lt_irrefl _)
  · rcases List.mem_append.1 he' with he' | he'
    · exact h.alone e he hb e' he' hp
    · rw [List.mem_singleton.1 he'] at hp
      exact absurd (hp ▸ hnew e he) (lt_irrefl _)
  · rw [List.mem_singleton.1 he] at hp ⊢
    rcases List.mem_append.1 he' with he' | he'
    · exact absurd (hp ▸ hnew e' he') (lt_irrefl _)
    · exact List.mem_singleton.1 he'

theorem PoolLedger.of_poolState (h : PoolLedger g m) (hp : m'.poolState = m.poolState) :
    PoolLedger g m' := by
  have h1 : m'.pools = m.pools := congrArg Prod.fst hp
  have h2 : m'.poolsMade = m.poolsMade := congrArg Prod.snd hp
  exact ⟨h1 ▸ h.injective, h1 ▸ h2 ▸ h.old, h2 ▸ h.made, h1 ▸ h.shared, h1 ▸ h.private', h.alone⟩

theorem poolLedger_exec (h : PoolLedger g m) (call : ManagerCall U K) :
    PoolLedger (notePools S g m call) (m.exec S call) := by
  have hp := poolState_exec (S := S) (m := m) call
  unfold notePools
  cases hc : m.constructs S call with
  | none =>
    rw [hc] at hp
    exact h.of_poolState hp
  | some a =>
    rw [hc] at hp
    refine PoolLedger.of_poolState (m := (m.createSession S a).1) ?_ hp
    simp only [Option.elim_some]
    rcases createSession_pools S m a with ⟨hsame, hok⟩ | ⟨hk, hmade, hpools, hok⟩
    · rcases hr : (m.createSession S a).2 with e | s
      · exact h.of_poolState hsame
      · obtain ⟨hg, hkey⟩ := hok s hr
        rw [← hkey] at hg
        have hb : (!a.disableStore || (m.pools.get? s.key).isSome) = true := by simp [hg]
        show PoolLedger (g ++ [(s, !a.disableStore || (m.pools.get? s.key).isSome)]) _
        rw [hb]
        exact (h.share hg).of_poolState hsame
    · have hm := h.make hk hmade hpools
      rcases hr : (m.createSession S a).2 with e | s
      · exact hm
      · obtain ⟨hpool, hkey⟩ := hok s hr
        show PoolLedger (g ++ [(s, !a.disableStore || (m.pools.get? s.key).isSome)]) _
        cases hd : a.disableStore with
        | true =>
          have hb : (!true || (m.pools.get? s.key).isSome) = false := by simp [hkey, hk]
          rw [hb]
          rw [hd] at hpools
          refine hm.own (by omega) (fun e he => hpool ▸ h.made e he) fun k p hg => ?_
          rw [hpools] at hg
          exact hpool ▸ h.old k p hg
        | false =>
          rw [hd] at hpools
          have hstored : (m.createSession S a).1.pools.get? s.key = some s.pool := by
            rw [hpools, hkey, hpool]
            exact (Dict.get?_setItem ..).trans (if_pos rfl)
          exact hm.share hstored

/-- **Which sessions share a pool**, among all that were constructed in a run: those of one key share
one pool for good, those of two keys none, and a session whose store was disabled while its key had no
pool shares its pool with no other session. -/
theorem pools_of_run {p : SessionManager × List (KVDBSession × Bool)}
    {calls : List (ManagerCall U K)}
    (h : ((managerMachine S).observe [] (notePools S)).Run Machine.Any ({}, []) calls p) :
    ∀ e ∈ p.2, ∀ e' ∈ p.2,
      (e.2 = true → e'.2 = true → (e.1.pool = e'.1.pool ↔ e.1.key = e'.1.key)) ∧
        (e.2 = true → p.1.pools.get? e.1.key = some e.1.pool) ∧
        (e.2 = false → e'.1.pool = e.1.pool → e' = e) := by
  have hl : PoolLedger p.2 p.1 := by
    refine h.inv (fun p => PoolLedger p.2 p.1) ?_ fun p call p' hi _ hs => ?_
    · exact ⟨fun _ _ _ h => (by cases h), fun _ _ h => (by cases h), fun _ h => (by cases h),
        fun _ h => (by cases h), fun _ h => (by cases h), fun _ h => (by cases h)⟩
    · obtain ⟨hs, hg⟩ := Machine.observe_step.1 hs
      rw [← Option.some.inj hs, hg]
      exact poolLedger_exec hi call
  refine fun e he e' he' => ⟨fun hb hb' => ⟨fun hp => ?_, fun hk => ?_⟩, hl.shared e he,
    fun hb => hl.alone e he hb e' he'⟩
  · exact hl.injective _ _ _ (hl.shared e he hb) (hp ▸ hl.shared e' he' hb')
  · have h1 := hl.shared e he hb
    rw [hk, hl.shared e' he' hb'] at h1
    exact (Option.some.inj h1).symm

/-- Two sessions of one URL, and one of another that keeps its pool for itself. -/
theorem pools_of_sessions :
    let S : SessionSettings ℕ Unit :=
      { url := 0, dbId := fun _ => 0, withDbId := fun u n => u + n.toNat
        key := fun u _ => toString u, noKwargs := () }
    ∃ p, ((managerMachine S).observe [] (notePools S)).Run Machine.Any ({}, [])
        [.session { kwargs := () }, .getSession { name := some "b", kwargs := () },
          .createSession { name := some "c", url := some 1, disableStore := true, kwargs := () }] p ∧
      p.2.map (fun e => e.1.pool) = [0, 0, 1] ∧
      ∀ e ∈ p.2, e.2 = true → p.1.pools.get? e.1.key = some e.1.pool := by
  intro S
  have hr : ((managerMachine S).observe [] (notePools S)).Run Machine.Any ({}, [])
      [.session { kwargs := () }, .getSession { name := some "b", kwargs := () },
        .createSession { name := some "c", url := some 1, disableStore := true, kwargs := () }] _ :=
    Machine.run_of_exec rfl ⟨trivial, trivial, trivial, trivial⟩
  exact ⟨_, hr, by decide, fun e he => (pools_of_run hr e he e he).2.1⟩

end SessionManager

end Kvdb
