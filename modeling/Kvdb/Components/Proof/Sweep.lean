import Kvdb.Components.Sweep

/-!
# The expiration check and concurrent writers

Alone, the steps of the check are `runExpirationCheck` (`check_alone`). Among other clients it deletes
only values whose deadline is over, as long as the set scripts are `Undisturbed` (`sweep_safe`): the
invariant `SweepInv` bounds the deadline in force of every key in its hands by the deadline it has
read. The condition is exact: after a set script outside it the check goes on to delete a value
without a deadline, or before it (`sweep_breaks`).
-/

namespace Kvdb

open Redis Lib HsetStore

namespace Sweep

variable {R : Type} {s s' : Sweep R} {store₀ : HsetStore R} {clock₀ : ℤ}

/-! ## The branches of a step -/

/-- From `s` the step `e` leads to the state. -/
inductive SweepStep (s : Sweep R) : SweepEv R → Sweep R → Prop
  | tick {secs : ℕ} : SweepStep s (.tick secs) { s with clock := s.clock + secs }
  | set {key : String} {val : R} {t : Option ℤ} :
    SweepStep s (.set key val t)
      { s with
        store := s.store.luaHset key val t
        inForce := Function.update s.inForce key (t.or (s.store.expIndex.hget key)) }
  | listing {keys : List String} (h : s.check = .idle) :
    SweepStep s (.start keys) { s with check := .listing }
  | start {keys : List String} (h : s.check = .idle) :
    SweepStep s (.start keys) { s with check := .reading keys }
  | nothing (h : s.check = .listing) : SweepStep s .next { s with check := .idle }
  | list (h : s.check = .listing) :
    SweepStep s .next { s with check := .reading s.store.expIndex.hkeys }
  | read {keys : List String} (h : s.check = .reading keys) :
    SweepStep s .next
      { s with check := .looping (keys.map fun k => (k, s.store.expIndex.hget k)) }
  | done (h : s.check = .looping []) : SweepStep s .next { s with check := .idle }
  | skip {p : String × Option ℤ} {todo : List (String × Option ℤ)}
      (h : s.check = .looping (p :: todo)) : SweepStep s .next { s with check := .looping todo }
  | expired {key : String} {exp : ℤ} {todo : List (String × Option ℤ)}
      (h : s.check = .looping ((key, some exp) :: todo)) (he : exp < s.clock) :
    SweepStep s .next { s with check := .unindexing key exp todo }
  | unindex {key : String} {exp : ℤ} {todo : List (String × Option ℤ)}
      (h : s.check = .unindexing key exp todo) :
    SweepStep s .next
      { s with
        store := { s.store with expIndex := s.store.expIndex.hdel key }
        check := .deleting key exp todo }
  | delete {key : String} {exp : ℤ} {todo : List (String × Option ℤ)}
      (h : s.check = .deleting key exp todo) :
    SweepStep s .next
      { s with
        store := { s.store with data := s.store.data.hdel key }
        check := .looping todo }

theorem hget_expIndex_luaHset (store : HsetStore R) (key : String) (val : R) (t : Option ℤ) :
    (store.luaHset key val t).expIndex.hget key = t.or (store.expIndex.hget key) := by
  unfold luaHset
  cases t with
  | none => rfl
  | some t => rw [Option.elim_some, Hash.hget_hset, if_pos rfl, Option.some_or]

theorem sweepStep_of_step {e : SweepEv R} (h : s.step e = some s') : SweepStep s e s' := by
  cases e with
  | tick secs =>
    cases h
    exact .tick
  | set key val t =>
    have hu : SweepStep s (.set key val t) _ := .set
    rw [← hget_expIndex_luaHset s.store key val t] at hu
    cases h
    exact hu
  | start keys =>
    simp only [step] at h
    split at h
    · rename_i hc
      cases h
      split
      · exact .listing hc
      · exact .start hc
    · cases h
  | next =>
    simp only [step, next] at h
    split at h
    · cases h
    · rename_i hc
      cases h
      split
      · exact .nothing hc
      · exact .list hc
    · rename_i hc
      cases h
      exact .read hc
    · rename_i hc
      cases h
      exact .done hc
    · rename_i hc
      cases h
      exact .skip hc
    · rename_i hc
      cases h
      split
      · rename_i he
        exact .expired hc he
      · exact .skip hc
    · rename_i hc
      cases h
      exact .unindex hc
    · rename_i hc
      cases h
      exact .delete hc

/-! ## The invariant -/

structure SweepInv (s : Sweep R) : Prop where
  /-- The deadline in force is in the expiration hash, until the check takes it out. -/
  linked : ∀ k, s.store.data.hget k ≠ none → (∀ e todo, s.check ≠ .deleting k e todo) →
    s.inForce k = s.store.expIndex.hget k
  /-- The deadline in force of a key in the hands of the check. -/
  hand : ∀ k e, (k, some e) ∈ s.inHand → s.store.data.hget k ≠ none →
    ∃ d, s.inForce k = some d ∧ d ≤ max s.clock (e + 1)
  past : ∀ k e todo, s.check = .unindexing k e todo ∨ s.check = .deleting k e todo → e < s.clock

theorem SweepInv.safe (h : SweepInv s) : s.Safe := by
  intro k e todo hc hd
  have hm : (k, some e) ∈ s.inHand := by
    rw [inHand, hc]
    exact List.mem_cons_self
  obtain ⟨d, hf, hle⟩ := h.hand k e hm hd
  have hpast := h.past k e todo (.inr hc)
  exact ⟨d, hf, by omega⟩

/-- A step of the check before its deletions. -/
theorem SweepInv.check (h : SweepInv s) {c : Check} (hc : ∀ k e todo, s.check ≠ .deleting k e todo)
    (hsub : ∀ k e, (k, some e) ∈ ({ s with check := c } : Sweep R).inHand →
      (k, some e) ∈ s.inHand ∨ s.store.expIndex.hget k = some e)
    (hpast : ∀ k e todo, c = .unindexing k e todo ∨ c = .deleting k e todo → e < s.clock) :
    SweepInv { s with check := c } where
  linked k hd _ := h.linked k hd (hc k)
  hand k e hm hd := by
    rcases hsub k e hm with hm | hi
    · exact h.hand k e hm hd
    · refine ⟨e, (h.linked k hd (hc k)).trans hi, ?_⟩
      show e ≤ max s.clock (e + 1)
      omega
  past := hpast

theorem sweepInv_step {e : SweepEv R} (h : SweepInv s) (hC : s.Undisturbed e)
    (hs : SweepStep s e s') : SweepInv s' := by
  cases hs with
  | @tick secs =>
    refine ⟨h.linked, fun k e hm hd => ?_, fun k e todo hc => ?_⟩
    · obtain ⟨d, hf, hle⟩ := h.hand k e hm hd
      refine ⟨d, hf, ?_⟩
      show d ≤ max (s.clock + secs) (e + 1)
      omega
    · have hpast := h.past k e todo hc
      show e < s.clock + secs
      omega
  | @set key val t =>
    have hset : ∀ k, k ≠ key → (s.store.luaHset key val t).data.hget k = s.store.data.hget k ∧
        (s.store.luaHset key val t).expIndex.hget k = s.store.expIndex.hget k := by
      intro k hk
      refine ⟨by rw [luaHset, Hash.hget_hset, if_neg hk], ?_⟩
      unfold luaHset
      cases t with
      | none => rfl
      | some t => rw [Option.elim_some, Hash.hget_hset, if_neg hk]
    refine ⟨fun k hd hc => ?_, fun k e hm hd => ?_, h.past⟩
    · by_cases hk : k = key
      · subst hk
        show Function.update s.inForce k _ k = _
        rw [Function.update_self, hget_expIndex_luaHset]
      · show Function.update s.inForce key _ k = _
        rw [Function.update_of_ne hk, (hset k hk).2]
        exact h.linked k ((hset k hk).1 ▸ hd) hc
    · by_cases hk : k = key
      · subst hk
        obtain ⟨d, hd', hle⟩ := hC e hm
        refine ⟨d, ?_, hle⟩
        show Function.update s.inForce k _ k = _
        rw [Function.update_self, hd']
      · obtain ⟨d, hf, hle⟩ := h.hand k e hm ((hset k hk).1 ▸ hd)
        refine ⟨d, ?_, hle⟩
        show Function.update s.inForce key _ k = _
        rw [Function.update_of_ne hk, hf]
  | listing hc | start hc | nothing hc | list hc | done hc =>
    refine h.check ?_ ?_ ?_
    · simp [hc]
    · intro k e hm
      cases hm
    · rintro k e todo (hx | hx) <;> cases hx
  | read hc =>
    refine h.check ?_ ?_ ?_
    · simp [hc]
    · intro k e hm
      obtain ⟨k', -, hk⟩ := List.mem_map.1 hm
      obtain ⟨rfl, hi⟩ := Prod.mk.inj hk
      exact .inr hi
    · rintro k e todo (hx | hx) <;> cases hx
  | skip hc =>
    refine h.check ?_ ?_ ?_
    · simp [hc]
    · intro k e hm
      rw [inHand, hc]
      exact .inl (List.mem_cons_of_mem _ hm)
    · rintro k e todo (hx | hx) <;> cases hx
  | expired hc he =>
    refine h.check ?_ ?_ ?_
    · simp [hc]
    · intro k e hm
      rw [inHand, hc]
      exact .inl hm
    · rintro k e todo (hx | hx) <;> cases hx
      exact he
  | @unindex key exp todo hc =>
    refine ⟨fun k hd hne => ?_, fun k e hm hd => ?_, ?_⟩
    · have hk : k ≠ key := by
        rintro rfl
        exact hne exp todo rfl
      show s.inForce k = (s.store.expIndex.hdel key).hget k
      rw [Hash.hget_hdel, if_neg hk]
      exact h.linked k hd (by simp [hc])
    · refine h.hand k e ?_ hd
      rw [inHand, hc]
      exact hm
    · rintro k e todo' (hx | hx) <;> cases hx
      exact h.past key exp todo (.inl hc)
  | @delete key exp todo hc =>
    have hdata : ∀ k, (s.store.data.hdel key).hget k ≠ none →
        k ≠ key ∧ s.store.data.hget k ≠ none := by
      intro k hd
      rw [Hash.hget_hdel] at hd
      split at hd
      · exact absurd rfl hd
      · exact ⟨‹_›, hd⟩
    refine ⟨fun k hd _ => ?_, fun k e hm hd => ?_, ?_⟩
    · obtain ⟨hk, hd⟩ := hdata k hd
      refine h.linked k hd fun e todo' hx => hk ?_
      rw [hc] at hx
      cases hx
      rfl
    · refine h.hand k e ?_ (hdata k hd).2
      rw [inHand, hc]
      exact List.mem_cons_of_mem _ hm
    · rintro k e todo' (hx | hx) <;> cases hx

/-- **The check is safe** in every run whose set scripts do not disturb it. -/
theorem sweep_safe {es : List (SweepEv R)}
    (h : (sweepMachine store₀ clock₀).Run Undisturbed (sweepMachine store₀ clock₀).init es s) :
    s.Safe := by
  have hinv : SweepInv s := by
    refine h.inv SweepInv ?_ fun t e u ht hC hu => sweepInv_step ht hC (sweepStep_of_step hu)
    refine ⟨fun _ _ _ => rfl, fun k e hm => ?_, ?_⟩
    · cases hm
    · rintro k e todo (hx | hx) <;> cases hx
  exact hinv.safe

/-! ## The check alone -/

/-- The next command of the check. -/
theorem Reach.next {C : Sweep R → SweepEv R → Prop} (hC : ∀ s, C s .next) {u : Sweep R}
    (hs : s.next = some s')
    (h : ∃ n, (sweepMachine store₀ clock₀).Run C s' (List.replicate n .next) u) :
    ∃ n, (sweepMachine store₀ clock₀).Run C s (List.replicate n .next) u := by
  obtain ⟨n, h⟩ := h
  have h1 : (sweepMachine store₀ clock₀).Run C s [.next] s' := .single (hC s) hs
  exact ⟨n + 1, h1.append h⟩

variable (store₀ clock₀) in
theorem looping_alone (items : List (String × Option ℤ)) (s : Sweep R)
    (hc : s.check = .looping items) :
    ∃ n, (sweepMachine store₀ clock₀).Run Machine.Any s (List.replicate n .next)
      { s with store := items.foldl (expireItem s.clock) s.store, check := .idle } := by
  induction items generalizing s with
  | nil =>
    refine Reach.next (fun _ => trivial) (?_ : s.next = some { s with check := .idle }) ⟨0, .nil⟩
    rw [Sweep.next, hc]
  | cons p items ih =>
    obtain ⟨key, exp⟩ := p
    cases exp with
    | none =>
      refine Reach.next (fun _ => trivial) (?_ : s.next = some { s with check := .looping items })
        (ih { s with check := .looping items } rfl)
      rw [Sweep.next, hc]
    | some exp =>
      by_cases he : exp < s.clock
      · rw [List.foldl_cons, expireItem, if_pos he]
        refine Reach.next (fun _ => trivial)
          (?_ : s.next = some { s with check := .unindexing key exp items }) ?_
        · simp only [Sweep.next, hc, if_pos he]
        refine Reach.next (fun _ => trivial) rfl ?_
        refine Reach.next (fun _ => trivial) rfl ?_
        exact ih _ rfl
      · rw [List.foldl_cons, expireItem, if_neg he]
        refine Reach.next (fun _ => trivial) (?_ : s.next = some { s with check := .looping items })
          (ih { s with check := .looping items } rfl)
        simp only [Sweep.next, hc, if_neg he]

/-- **Undisturbed, the steps of the check are `runExpirationCheck`.** -/
theorem check_alone (s : Sweep R) (hc : s.check = .idle) (keys : List String) :
    ∃ n, (sweepMachine store₀ clock₀).Run Machine.Any s (.start keys :: List.replicate n .next)
      { s with store := s.store.runExpirationCheck s.clock keys } := by
  have hread : ∀ ks : List String, ∃ n, (sweepMachine store₀ clock₀).Run Machine.Any
      { s with check := .reading ks } (List.replicate n .next)
      { s with
        store := (ks.map fun k => (k, s.store.expIndex.hget k)).foldl (expireItem s.clock) s.store } := by
    intro ks
    have hl := looping_alone store₀ clock₀
      (ks.map fun k => (k, s.store.expIndex.hget k))
      { s with check := .looping (ks.map fun k => (k, s.store.expIndex.hget k)) } rfl
    rw [← hc] at hl
    exact Reach.next (fun _ => trivial) rfl hl
  have hstart : (sweepMachine store₀ clock₀).Run Machine.Any s [.start keys]
      { s with check := if keys = [] then .listing else .reading keys } := by
    refine .single trivial ?_
    simp only [sweepMachine, step, hc]
  unfold runExpirationCheck expItems
  by_cases hk : keys = []
  · rw [if_pos hk] at hstart ⊢
    by_cases hidx : s.store.expIndex.hkeys = []
    · obtain ⟨n, hn⟩ : ∃ n, (sweepMachine store₀ clock₀).Run Machine.Any
          { s with check := .listing } (List.replicate n .next) s := by
        refine Reach.next (fun _ => trivial) ?_ ⟨0, .nil⟩
        simp only [Sweep.next, if_pos hidx]
        rw [← hc]
      refine ⟨n, ?_⟩
      rw [hidx]
      exact hstart.append hn
    · obtain ⟨n, hn⟩ := Reach.next (fun _ => trivial)
        (s := { s with check := .listing }) (by simp only [Sweep.next, if_neg hidx])
        (hread s.store.expIndex.hkeys)
      exact ⟨n, hstart.append hn⟩
  · rw [if_neg hk] at hstart ⊢
    obtain ⟨n, hn⟩ := hread keys
    exact ⟨n, hstart.append hn⟩

/-! ## The condition is exact -/

/-- The check has read a deadline of the key that is over, and the one in force is not. -/
structure Doomed (key : String) (e : ℤ) (s : Sweep R) : Prop where
  value : s.store.data.hget key ≠ none
  force : ∀ d, s.inForce key = some d → s.clock < d
  past : e < s.clock
  mem : (key, some e) ∈ s.inHand

/-- The number of steps that the check has before it. -/
def left (s : Sweep R) : ℕ :=
  match s.check with
  | .looping todo => 3 * todo.length
  | .unindexing _ _ todo => 3 * todo.length + 2
  | .deleting _ _ todo => 3 * todo.length + 1
  | _ => 0

variable (store₀ clock₀) in
/-- A doomed key is deleted with a deadline that is not over, or none. -/
theorem Doomed.breaks {key : String} {e : ℤ} {s : Sweep R} (h : Doomed key e s) :
    ∃ n u, (sweepMachine store₀ clock₀).Run Machine.Any s (List.replicate n .next) u ∧
      ¬ u.Safe := by
  induction hn : s.left using Nat.strong_induction_on generalizing s with
  | _ n ih =>
    subst hn
    have hgo : ∀ u : Sweep R, s.next = some u → Doomed key e u → u.left < s.left →
        ∃ n v, (sweepMachine store₀ clock₀).Run Machine.Any s (List.replicate n .next) v ∧
          ¬ v.Safe := by
      intro u hu hd hl
      obtain ⟨n, v, hv, hs⟩ := ih _ hl hd rfl
      obtain ⟨m, hm⟩ := Reach.next (fun _ => trivial) hu ⟨n, hv⟩
      exact ⟨m, v, hm, hs⟩
    have hmem := h.mem
    cases hc : s.check with
    | idle | listing | reading =>
      rw [inHand, hc] at hmem
      cases hmem
    | looping todo =>
      rw [inHand, hc] at hmem
      cases todo with
      | nil => cases hmem
      | cons p todo =>
        obtain ⟨k, exp⟩ := p
        -- the key itself is not passed over: its deadline is over
        by_cases he : ∃ x, exp = some x ∧ x < s.clock
        · obtain ⟨x, rfl, hx⟩ := he
          refine hgo { s with check := .unindexing k x todo } ?_
            ⟨h.value, h.force, h.past, hmem⟩ ?_
          · simp only [Sweep.next, hc, if_pos hx]
          · simp only [left, hc, List.length_cons]
            omega
        · have htodo : (key, some e) ∈ todo := by
            rcases List.mem_cons.1 hmem with hk | hk
            · cases hk
              exact absurd ⟨e, rfl, h.past⟩ he
            · exact hk
          refine hgo { s with check := .looping todo } ?_
            ⟨h.value, h.force, h.past, htodo⟩ ?_
          · cases exp with
            | none => simp only [Sweep.next, hc]
            | some x =>
              have hx : ¬ x < s.clock := fun hx => he ⟨x, rfl, hx⟩
              simp only [Sweep.next, hc, if_neg hx]
          · simp only [left, hc, List.length_cons]
            omega
    | unindexing k x todo =>
      rw [inHand, hc] at hmem
      refine hgo
        { s with
          store := { s.store with expIndex := s.store.expIndex.hdel k }
          check := .deleting k x todo }
        (by simp only [Sweep.next, hc]) ⟨h.value, h.force, h.past, hmem⟩ ?_
      simp only [left, hc]
      omega
    | deleting k x todo =>
      by_cases hk : k = key
      · subst hk
        refine ⟨0, s, .nil, fun hs => ?_⟩
        obtain ⟨d, hd, hle⟩ := hs k x todo hc h.value
        exact absurd (h.force d hd) (by omega)
      · rw [inHand, hc] at hmem
        have htodo : (key, some e) ∈ todo := by
          rcases List.mem_cons.1 hmem with hk' | hk'
          · cases hk'
            exact absurd rfl hk
          · exact hk'
        refine hgo
          { s with
            store := { s.store with data := s.store.data.hdel k }
            check := .looping todo }
          (by simp only [Sweep.next, hc]) ⟨?_, h.force, h.past, htodo⟩ ?_
        · show (s.store.data.hdel k).hget key ≠ none
          rw [Hash.hget_hdel, if_neg (Ne.symm hk)]
          exact h.value
        · simp only [left, hc]
          omega

/-- **After a set script that disturbs the check**, time passes and the check deletes the value. -/
theorem sweep_breaks {s u : Sweep R} {ev : SweepEv R}
    (hu : (sweepMachine store₀ clock₀).step s ev = some u) (hC : ¬ s.Undisturbed ev) :
    ∃ evs v, (sweepMachine store₀ clock₀).Run Machine.Any u evs v ∧ ¬ v.Safe := by
  cases ev with
  | set key val t =>
    simp only [Undisturbed, not_forall] at hC
    obtain ⟨e, hm, hC⟩ := hC
    cases hu
    have hforce : ∀ d, t.or (s.store.expIndex.hget key) = some d → max s.clock (e + 1) < d := by
      intro d hd
      by_contra hle
      exact hC ⟨d, hd, by omega⟩
    obtain ⟨secs, hsecs⟩ : ∃ secs : ℕ, s.clock + secs = max s.clock (e + 1) :=
      ⟨(max s.clock (e + 1) - s.clock).toNat, by omega⟩
    let now : Sweep R :=
      { s with
        store := s.store.luaHset key val t
        inForce := Function.update s.inForce key
          ((s.store.luaHset key val t).expIndex.hget key) }
    let later : Sweep R := { now with clock := s.clock + secs }
    have hdoom : Doomed key e later := by
      refine ⟨?_, fun d hd => ?_, ?_, hm⟩
      · show (s.store.data.hset key val).hget key ≠ none
        simp [Hash.hget_hset]
      · have hd : Function.update s.inForce key
            ((s.store.luaHset key val t).expIndex.hget key) key = some d := hd
        rw [Function.update_self, hget_expIndex_luaHset] at hd
        have hlt := hforce d hd
        show s.clock + secs < d
        omega
      · show e < s.clock + secs
        omega
    obtain ⟨n, v, hv, hs⟩ := hdoom.breaks store₀ clock₀
    have htick : (sweepMachine store₀ clock₀).Run Machine.Any now [.tick secs] later :=
      .single trivial rfl
    exact ⟨_, v, htick.append hv, hs⟩
  | tick | start | next => exact absurd trivial hC

/-! ## Two runs -/

/-- A value with a deadline. -/
def oneValue : HsetStore ℤ := HsetStore.luaHset {} "k" 1 (some 5)

/-- Another client sets the value again before the check has read its deadline. -/
theorem sweep_safe_before :
    ∃ s, (sweepMachine oneValue 7).Run Undisturbed (sweepMachine oneValue 7).init
        [.start [], .next, .set "k" 2 (some 6), .next, .next, .next] s ∧
      s.check = .deleting "k" 6 [] ∧ s.Safe := by
  obtain ⟨s, hs, hc⟩ : ∃ s, (sweepMachine oneValue 7).Run Undisturbed (sweepMachine oneValue 7).init
      [.start [], .next, .set "k" 2 (some 6), .next, .next, .next] s ∧
      s.check = .deleting "k" 6 [] :=
    Machine.exists_run (by decide +kernel) (by decide +kernel)
  exact ⟨s, hs, hc, sweep_safe hs⟩

/-- **The value is set again between the two deletions**, without a deadline: the check deletes it. -/
theorem sweep_broken :
    ∃ s, (sweepMachine oneValue 7).Run Machine.Any (sweepMachine oneValue 7).init
        [.start [], .next, .next, .next, .next, .set "k" 2 none] s ∧ ¬ s.Safe := by
  obtain ⟨s, hs, hc, hd, hf⟩ : ∃ s, (sweepMachine oneValue 7).Run Machine.Any
      (sweepMachine oneValue 7).init [.start [], .next, .next, .next, .next, .set "k" 2 none] s ∧
      (s.check = .deleting "k" 5 [] ∧ s.store.data.hget "k" ≠ none ∧ s.inForce "k" = none) :=
    Machine.exists_run (by decide +kernel) (by decide +kernel)
  refine ⟨s, hs, fun hsafe => ?_⟩
  obtain ⟨d, hd', -⟩ := hsafe "k" 5 [] hc hd
  rw [hf] at hd'
  cases hd'

end Sweep

end Kvdb
