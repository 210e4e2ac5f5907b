import Esdb.ObjectStoreKeeping

/-!
# The schema flag

A connection remembers in a flag that it has seen the four tables, and from then on
no operation looks for them again. The flag is right as long as the connection
never goes back to content from before the tables: then whatever else it calls and
whatever fails, the tables are in the content it sees, and no statement fails for
want of one. A rollback that takes the tables away leaves the flag raised.
-/
namespace Esdb.ObjectStore

open Transactional Esdb.Runtime

/-- The schema flag tells the truth over the content `d`. -/
def FlagTrue (db : Database) (d : Tables) : Prop :=
  db.objectStoreSchemaReady = true → d.Complete

/-- One connection among others that execute statements of the store, where any
command may meet any fault. -/
def anyFaults : StoreContract where
  rely := Unfinished
  guar := Unfinished
  allows := fun _ _ _ => True
  rely_refl := fun _ => .refl
  rely_trans := fun h₁ h₂ => h₁.trans h₂
  guar_refl := fun _ => .refl

theorem keepable_flagTrue : Keepable FlagTrue where
  wrapper := fun hr _ h hready => h (hr ▸ hready)
  ready := fun hd _ _ => hd
  statement := fun hu h hready => unfinished_complete hu (h hready)

theorem Reaches.flagTrue {σ : Session} (h : Reaches (keeping FlagTrue) (Call.Meets FlagTrue) σ) :
    Keeps FlagTrue σ := by
  induction h with
  | opened file readOnly =>
      exact ⟨Conn.rooted_closed rfl, linked_closed rfl, fun hready => nomatch hready⟩
  | call call h hl hm hr ih =>
      have hleaves := wp_sound hr (wp_call_keeps keepable_flagTrue ih call hm)
      cases call with
      | store op =>
          obtain ⟨σ₁, hk, hs⟩ := hleaves
          cases op with
          | subscribe allocates filter after =>
              obtain ⟨subs, rfl⟩ := hs
              exact ⟨hk.rooted, hk.linked, hk.kept⟩
          | poll id polling room limit callback =>
              obtain ⟨subs, rfl⟩ := hs
              exact ⟨hk.rooted, hk.linked, hk.kept⟩
          | _ =>
              obtain rfl := hs
              exact hk
      | _ => exact hleaves
  | others file h hm ih => exact ih.moved keepable_flagTrue hm

/-- In every run in which going back, by a call or by SQLite on its own, either
finds the flag unset or gives back content with the tables, a raised flag means
that the tables are there, and that no statement of the store misses one. -/
theorem schemaFlag_truthful {σ : Session}
    (h : Reaches (keeping FlagTrue) (Call.Meets FlagTrue) σ)
    (hready : σ.wrapper.objectStoreSchemaReady = true) :
    σ.view.Complete ∧ ∀ s : Sql, s.creates = false → s.eval σ.view ≠ .error schemaError := by
  have hd := h.flagTrue.kept hready
  exact ⟨hd, fun s hs => Sql.eval_ne_schemaError hd hs⟩

/-- `sessions`. -/
def sampleStore : Bytes := [115, 101, 115, 115, 105, 111, 110, 115]

/-- `esdb_object_store_put` of a null under the key `a`. -/
def samplePut : Call := .store (.put sampleStore [97] ⟨Value.null, []⟩)

def freshSession : Session := ⟨Tables.empty, Conn.closed, Database.opened 0⟩

/-- A first put outside any transaction, then one in a transaction that rolls back. -/
theorem schemaFlag_truthful_second_put :
    let σ := [samplePut, .begin 1 true, samplePut, .rollback 0].foldl Call.undisturbed freshSession
    σ.wrapper.objectStoreSchemaReady = true ∧ σ.view.Complete := by
  have hnone : ∀ σ c, (keeping FlagTrue).allows σ c .none := fun _ _ => trivial
  have h₀ : Reaches (keeping FlagTrue) (Call.Meets FlagTrue) freshSession := .opened _ 0
  have h₁ := h₀.undisturbed samplePut (fun _ h => nomatch h) trivial hnone
  have h₂ := h₁.undisturbed (.begin 1 true) (fun _ h => nomatch h) trivial hnone
  have h₃ := h₂.undisturbed samplePut (fun _ h => nomatch h) trivial hnone
  have h₄ := h₃.undisturbed (.rollback 0) (fun id h => ⟨⟨true, false, 2⟩, ?_, rfl⟩) ?_ hnone
  · exact ⟨by decide +kernel, (schemaFlag_truthful h₄ (by decide +kernel)).1⟩
  · obtain rfl : 0 = id := Option.some.inj h
    decide +kernel
  · exact fun _ _ _ => by decide +kernel

/-- `esdb_begin`, a first put, `esdb_transaction_rollback`: the flag stays raised
over a database without tables, and the next put fails. -/
theorem schemaFlag_outlives_rollback :
    ∃ σ : Session, Reaches anyFaults (fun _ _ => True) σ ∧
      σ.wrapper.objectStoreSchemaReady = true ∧ ¬ σ.view.Complete ∧
      (samplePut.program.run [] σ).1 =
        .error (.recorded .sqlite .objectStore Sqlite.error none) := by
  have hnone : ∀ σ c, anyFaults.allows σ c .none := fun _ _ => trivial
  have h₀ : Reaches anyFaults (fun _ _ => True) freshSession := .opened _ 0
  have h₁ := h₀.undisturbed (.begin 1 true) (fun _ h => nomatch h) trivial hnone
  have h₂ := h₁.undisturbed samplePut (fun _ h => nomatch h) trivial hnone
  have h₃ := h₂.undisturbed (.rollback 0) (fun id h => ⟨⟨true, false, 0⟩, ?_, rfl⟩) trivial hnone
  · exact ⟨_, h₃, by decide +kernel, by decide +kernel, by decide +kernel⟩
  · obtain rfl : 0 = id := Option.some.inj h
    decide +kernel

end Esdb.ObjectStore
