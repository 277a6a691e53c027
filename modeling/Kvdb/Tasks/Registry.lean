import Kvdb.Lib.Machine
import Mathlib.Data.Finset.Basic

/-!
# The registry of the workers (`tasks/queue.py`)

`register_worker` (and `aregister_worker`) and `deregister_worker_on_exit`, from one command to the next:
a worker reads the map `workers`, changes its own entry and writes the map back. The entries are what
the worker puts there each time, so the map is given by its keys. The commands on `heartbeats:…` touch
no other key, and are left out.

The persistence is `PersistentDict`: `data['workers']` is tracked, and `_save_mutation_objects` writes
back what `writesBack` says, of the map as it was and as it is now.

A write is fresh if nobody has changed the other entries since the map was read. Without other writes,
and without a registration that the flag `worker_registered` skips by mistake, no update is lost.
-/

namespace Kvdb

/-- Where a worker is. -/
inductive RegistryAt (W : Type)
  | idle
  /-- In `register_worker`, before it gets the map. -/
  | getting
  /-- It has the map, and is about to set it. -/
  | setting (workers : Finset W)
  /-- In `deregister_worker_on_exit`, before it gets the map. -/
  | fetching
  /-- It has the map, and is about to save it. -/
  | saving (workers : Finset W)
  deriving DecidableEq

structure Registry (W : Type) where
  /-- The key `workers`. -/
  workers : Option (Finset W) := none
  /-- `worker_registered`, of the queue of each worker. -/
  workerRegistered : W → Bool := fun _ => false
  place : W → RegistryAt W := fun _ => .idle
  /-- The last operation was a registration. -/
  last : W → Option Bool := fun _ => none

inductive RegistryEv (W : Type)
  | register (w : W)
  | deregister (w : W)
  /-- The next command. -/
  | proceed (w : W)
  deriving DecidableEq

/-- The worker that takes the step. -/
def RegistryEv.worker {W : Type} : RegistryEv W → W
  | .register w | .deregister w | .proceed w => w

namespace Registry

variable {W : Type} [DecidableEq W] (writesBack : Finset W → Finset W → Bool) (s : Registry W)

/-- `data.get('workers', {})`. -/
def listed : Finset W := s.workers.getD ∅

def go (w : W) (p : RegistryAt W) : Registry W := { s with place := Function.update s.place w p }

def begin (w : W) (registers : Bool) : Registry W :=
  { s with last := Function.update s.last w (some registers) }

def step : RegistryEv W → Option (Registry W)
  | .register w =>
    if s.place w = .idle then
      if s.workerRegistered w then some (s.begin w true)
      else
        some ({ s.begin w true with
          workerRegistered := Function.update s.workerRegistered w true }.go w .getting)
    else none
  | .deregister w =>
    if s.place w = .idle then some ((s.begin w false).go w .fetching) else none
  | .proceed w =>
    match s.place w with
    | .idle => none
    | .getting => some (s.go w (.setting s.listed))
    | .setting workers => some ({ s with workers := some (insert w workers) }.go w .idle)
    | .fetching =>
      match s.workers with
      -- a `KeyError`, which is logged
      | none => some (s.go w .idle)
      | some workers => some (s.go w (.saving workers))
    | .saving workers =>
      if writesBack workers (workers.erase w) then
        some ({ s with workers := some (workers.erase w) }.go w .idle)
      else some (s.go w .idle)

/-- The map, as it was read, still has the same entries of the others. -/
def Current (w : W) (workers : Finset W) : Prop := workers.erase w = s.listed.erase w

/-- What the worker writes from there is current. -/
def Writes (w : W) : RegistryAt W → Prop
  | .setting workers => s.Current w workers
  | .saving workers => writesBack workers (workers.erase w) = true → s.Current w workers
  | _ => True

/-- What is written is current, and a registration is skipped only if it is still there. -/
def Fresh : RegistryEv W → Prop
  | .register w => s.workerRegistered w = true → w ∈ s.listed
  | .deregister _ => True
  | .proceed w => s.Writes writesBack w (s.place w)

instance (w : W) : ∀ p, Decidable (s.Writes writesBack w p)
  | .setting workers => inferInstanceAs (Decidable (workers.erase w = s.listed.erase w))
  | .saving workers =>
    inferInstanceAs (Decidable (writesBack workers (workers.erase w) = true →
      workers.erase w = s.listed.erase w))
  | .idle | .getting | .fetching => .isTrue trivial

instance : ∀ e, Decidable (s.Fresh writesBack e)
  | .register w => inferInstanceAs (Decidable (s.workerRegistered w = true → w ∈ s.listed))
  | .deregister _ => .isTrue trivial
  | .proceed w => inferInstanceAs (Decidable (s.Writes writesBack w (s.place w)))

/-- The step loses no entry of another worker, and brings none back; after an operation its worker is
listed exactly if it was a registration. -/
def Intact (e : RegistryEv W) : Prop :=
  ∀ s', s.step writesBack e = some s' →
    (∀ w, w ≠ e.worker → (w ∈ s'.listed ↔ w ∈ s.listed)) ∧
      (s'.place e.worker = .idle → (e.worker ∈ s'.listed ↔ s'.last e.worker = some true))

/-- Nobody is in an operation. -/
def Quiet : Prop := ∀ w, s.place w = .idle

/-- The registry lists the workers whose last operation was a registration. -/
def Right : Prop := ∀ w, w ∈ s.listed ↔ s.last w = some true

/-- What the place of a worker and the registry say about its last operation. -/
def Settled (w : W) : Prop :=
  match s.place w with
  | .idle => w ∈ s.listed ↔ s.last w = some true
  | .getting | .setting _ => s.last w = some true
  | .fetching => s.last w = some false
  | .saving workers => s.last w = some false ∧ (w ∈ workers ↔ w ∈ s.listed)

end Registry

def registryMachine (W : Type) [DecidableEq W] (writesBack : Finset W → Finset W → Bool) :
    Lib.Machine (Registry W) (RegistryEv W) where
  init := {}
  step := Registry.step writesBack

namespace Registry

open Lib (update_cases)

variable {W : Type} [DecidableEq W] {writesBack : Finset W → Finset W → Bool} {s s' : Registry W}

/-- The others stay where they are. -/
theorem step_of_ne {e : RegistryEv W} (h : s.step writesBack e = some s') {w : W}
    (hw : w ≠ e.worker) : s'.place w = s.place w ∧ s'.last w = s.last w := by
  cases e with
  | register v =>
    simp only [step] at h
    repeat' split at h
    all_goals cases h
    · exact ⟨rfl, Function.update_of_ne hw ..⟩
    · exact ⟨Function.update_of_ne hw .., Function.update_of_ne hw ..⟩
  | deregister v =>
    simp only [step] at h
    split at h <;> cases h
    exact ⟨Function.update_of_ne hw .., Function.update_of_ne hw ..⟩
  | proceed v =>
    simp only [step] at h
    repeat' split at h
    all_goals cases h
    all_goals exact ⟨Function.update_of_ne hw .., rfl⟩

omit [DecidableEq W] in
/-- A worker that stays where it is, and whose entry stays, stays settled. -/
theorem Settled.of_eq {w : W} (h : s.Settled w) (hplace : s'.place w = s.place w)
    (hlast : s'.last w = s.last w) (hmem : w ∈ s'.listed ↔ w ∈ s.listed) : s'.Settled w := by
  simpa only [Settled, hplace, hlast, hmem] using h

/-- An operation goes on, and at its end the entry of the worker is right. -/
theorem settled_step (hW : ∀ ws ws', ws ≠ ws' → writesBack ws ws' = true) {e : RegistryEv W}
    (h : s.Settled e.worker) (hF : s.Fresh writesBack e) (hs : s.step writesBack e = some s') :
    s'.Settled e.worker := by
  have hplace : ∀ (u : Registry W) w p, (u.go w p).place w = p := fun u w p => Function.update_self ..
  have hlast : ∀ w b, (s.begin w b).last w = some b := fun w b => Function.update_self ..
  cases e with
  | register w =>
    simp only [step] at hs
    split at hs
    · rename_i hidle
      split at hs <;> cases hs
      · have hp : (s.begin w true).place w = .idle := hidle
        simp only [RegistryEv.worker, Settled, hp, hlast, iff_true]
        exact hF ‹_›
      · simp only [RegistryEv.worker, Settled, hplace]
        exact hlast w true
    · cases hs
  | deregister w =>
    simp only [step] at hs
    split at hs <;> cases hs
    simp only [RegistryEv.worker, Settled, hplace]
    exact hlast w false
  | proceed w =>
    change s.Settled w at h
    unfold Settled at h
    simp only [step] at hs
    split at hs
    case h_1 => cases hs
    case h_2 hp =>
      cases hs
      rw [hp] at h
      simp only [RegistryEv.worker, Settled, hplace]
      exact h
    case h_3 ws hp =>
      cases hs
      rw [hp] at h
      simp only [RegistryEv.worker, Settled, hplace]
      exact ⟨fun _ => h, fun _ => Finset.mem_insert_self ..⟩
    case h_4 hp =>
      rw [hp] at h
      have hnot : s.last w ≠ some true := by simp [show s.last w = some false from h]
      split at hs <;> cases hs
      · simp only [RegistryEv.worker, Settled, hplace]
        refine ⟨fun hmem => ?_, fun hl => absurd hl hnot⟩
        simp [listed, go, show s.workers = none from ‹_›] at hmem
      · simp only [RegistryEv.worker, Settled, hplace]
        refine ⟨h, ?_⟩
        simp [listed, go, show s.workers = some _ from ‹_›]
    case h_5 ws hp =>
      rw [hp] at h
      have hnot : s.last w ≠ some true := by simp [h.1]
      split at hs <;> cases hs <;> simp only [RegistryEv.worker, Settled, hplace]
      · exact ⟨fun hmem => absurd hmem (Finset.notMem_erase w ws), fun hl => absurd hl hnot⟩
      · rename_i hback
        -- the map was not written back, so it did not have the worker
        have heq : ws = ws.erase w := by
          by_contra hne
          exact hback (hW _ _ hne)
        have hws : w ∉ ws := heq ▸ Finset.notMem_erase w ws
        exact ⟨fun hmem => absurd (h.2.2 hmem) hws, fun hl => absurd hl hnot⟩

/-- The entries of the others stay exactly if what is written is current. -/
theorem others_iff {e : RegistryEv W} (hs : s.step writesBack e = some s') :
    (∀ w, w ≠ e.worker → (w ∈ s'.listed ↔ w ∈ s.listed)) ↔
      ∀ w, e = .proceed w → s.Fresh writesBack e := by
  cases e with
  | register w =>
    simp only [step] at hs
    refine iff_of_true (fun v _ => ?_) nofun
    repeat' split at hs
    all_goals cases hs
    all_goals exact Iff.rfl
  | deregister w =>
    simp only [step] at hs
    refine iff_of_true (fun v _ => ?_) nofun
    split at hs <;> cases hs
    exact Iff.rfl
  | proceed w =>
    have hfresh : (∀ v, RegistryEv.proceed w = .proceed v → s.Fresh writesBack (.proceed w)) ↔
        s.Writes writesBack w (s.place w) := ⟨fun h => h w rfl, fun h _ _ => h⟩
    -- a write of `ws`, with any entry of `w`
    have hwrite : ∀ {u : Registry W} {ws : Finset W}, (∀ v, v ≠ w → (v ∈ u.listed ↔ v ∈ ws)) →
        ((∀ v, v ≠ w → (v ∈ u.listed ↔ v ∈ s.listed)) ↔ s.Current w ws) := by
      intro u ws hu
      refine (forall₂_congr fun v hv => by rw [hu v hv]).trans ?_
      rw [Current, Finset.ext_iff]
      refine forall_congr' fun v => ?_
      rw [Finset.mem_erase, Finset.mem_erase, and_congr_right_iff]
    rw [hfresh]
    simp only [step] at hs
    split at hs
    case h_1 => cases hs
    case h_2 hp =>
      cases hs
      rw [hp]
      exact iff_of_true (fun _ _ => Iff.rfl) trivial
    case h_3 ws hp =>
      cases hs
      rw [hp]
      exact hwrite fun v hv => by simp [listed, go, hv]
    case h_4 hp =>
      rw [hp]
      refine iff_of_true (fun v _ => ?_) trivial
      split at hs <;> cases hs
      all_goals exact Iff.rfl
    case h_5 ws hp =>
      rw [hp]
      split at hs <;> cases hs
      · rename_i hback
        have hu : ∀ v, v ≠ w → (v ∈ ({ s with workers := some (ws.erase w) }.go w .idle).listed ↔
            v ∈ ws) := fun v hv => by simp [listed, go, hv]
        exact (hwrite hu).trans ⟨fun h _ => h, fun h => h hback⟩
      · rename_i hback
        exact iff_of_true (fun _ _ => Iff.rfl) fun h => absurd h hback

/-- Between settled workers, a step is intact exactly if it is fresh. -/
theorem intact_iff (hW : ∀ ws ws', ws ≠ ws' → writesBack ws ws' = true) {e : RegistryEv W}
    (h : ∀ w, s.Settled w) (hs : s.step writesBack e = some s') :
    s.Intact writesBack e ↔ s.Fresh writesBack e := by
  constructor
  · intro hI
    obtain ⟨hothers, hown⟩ := hI s' hs
    cases e with
    | register w =>
      intro hflag
      simp only [step, hflag, if_true] at hs
      split at hs
      · rename_i hidle
        cases hs
        exact (hown hidle).2 (Function.update_self ..)
      · cases hs
    | deregister w => trivial
    | proceed w => exact (others_iff hs).1 hothers w rfl
  · intro hF u hu
    obtain rfl := Option.some.inj (hs.symm.trans hu)
    refine ⟨(others_iff hs).2 fun _ _ => hF, fun hidle => ?_⟩
    have hsettled := settled_step hW (h e.worker) hF hs
    simpa only [Settled, hidle] using hsettled

theorem settled_of_run (hW : ∀ ws ws', ws ≠ ws' → writesBack ws ws' = true)
    {es : List (RegistryEv W)}
    (h : (registryMachine W writesBack).Run (Fresh writesBack) (registryMachine W writesBack).init es s) :
    ∀ w, s.Settled w := by
  induction h with
  | nil => exact fun w => by simp [registryMachine, Settled, listed]
  | @snoc _ s s' e _ hF hs ih =>
    intro w
    rcases eq_or_ne w e.worker with rfl | hw
    · exact settled_step hW (ih _) hF hs
    · obtain ⟨hplace, hlast⟩ := step_of_ne hs hw
      exact (ih w).of_eq hplace hlast ((others_iff hs).2 (fun _ _ => hF) w hw)

/-- The map is written back if it has changed. -/
def writesChanged (ws ws' : Finset ℕ) : Bool := ws ≠ ws'

end Registry

end Kvdb
