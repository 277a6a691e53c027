import Kvdb.Components.Proof.Bulk
import Kvdb.Io.Proof.Schema

/-!
# Schema migrations

`migration_iff` puts together what a schema map reaches (`Json.resolves_iff`) and that a second
migration with the same map leaves the stored data as they are (`Backend.migratesOnce`).
-/

namespace Kvdb

open Redis

namespace Backend

variable {V : Type} {recode : ByteArray → Option ByteArray}

/-- A second migration leaves the stored data as they are; so does an exception. -/
def MigratesOnce (b : Backend ByteArray V) (recode : ByteArray → Option ByteArray) : Prop :=
  (∀ s s' s'' : HsetStore ByteArray, (hsetMigrateSchema recode s).getD s = s' →
    (hsetMigrateSchema recode s').getD s' = s'' →
      (∀ k, s''.data.hget k = s'.data.hget k) ∧ s''.expIndex = s'.expIndex) ∧
  ∀ server server' server'' : Keyspace, (b.plainMigrateSchema recode server).getD server = server' →
    (b.plainMigrateSchema recode server').getD server' = server'' →
      ∀ name, server''.hget name = server'.hget name

/-- Values that are rewritten once are enough. -/
theorem migratesOnce (b : Backend ByteArray V)
    (h : ∀ {bytes bytes' bytes''}, recode bytes = some bytes' → recode bytes' = some bytes'' →
      bytes'' = bytes') : b.MigratesOnce recode := by
  refine ⟨?_, ?_⟩
  · rintro s _ _ rfl rfl
    cases hfirst : hsetMigrateSchema recode s with
    | none => simp [hfirst]
    | some s' =>
      rw [Option.getD_some]
      cases hsecond : hsetMigrateSchema recode s' with
      | none => exact ⟨fun _ => rfl, rfl⟩
      | some s'' =>
        obtain ⟨hdata, -⟩ := hsetMigrateSchema_spec hfirst
        obtain ⟨hdata', hindex'⟩ := hsetMigrateSchema_spec hsecond
        refine ⟨fun k => ?_, hindex'⟩
        rw [Option.getD_some, hdata']
        cases hk : s'.data.hget k with
        | none => rfl
        | some bytes' =>
          obtain ⟨bytes'', hbytes''⟩ := recode_of_hsetMigrateSchema hsecond hk
          rw [hdata, Option.bind_eq_some_iff] at hk
          obtain ⟨bytes, -, hbytes'⟩ := hk
          rw [Option.bind_some, hbytes'', h hbytes' hbytes'']
  · -- `data.items()` raises
    rintro server _ _ rfl rfl name
    rfl

end Backend

/-- The map of a class to its new name. -/
def renamedClass : SchemaMap := fun name => if name = "a.Old" then some "b.New" else none

/-- An object of a class without fields. -/
def emptyModel (name : String) : Json := .tagged "pydantic" (some name) (.dict [])

def emptyModelText (name : String) : ByteArray :=
  ("\x7b\"__type__\": \"pydantic\", \"__class__\": \"" ++ name ++
    "\", \"value\": \x7b\x7d\x7d").toUTF8

/-- The text of the objects of the two classes. -/
def emptyModels : JsonText where
  loads bytes :=
    if bytes = emptyModelText "a.Old" then some (emptyModel "a.Old")
    else if bytes = emptyModelText "b.New" then some (emptyModel "b.New")
    else none
  dumps
    | .tagged "pydantic" (some "b.New") (.dict []) => some (emptyModelText "b.New")
    | _ => none
  text _ := none
  loads_dumps := by
    intro tree bytes h
    split at h
    · obtain rfl := Option.some.inj h
      rfl
    · cases h

theorem renamedClass_settled : renamedClass.Settled := by
  intro name name' h
  unfold renamedClass at h ⊢
  split at h
  · obtain rfl := Option.some.inj h
    rfl
  · cases h

end Kvdb
