import Esdb.ObjectStoreUndisturbed
import Esdb.ScanPagination

/-!
# Calls on the records of one store

What the calls on a store answer when nothing disturbs them, in terms of the records that
the store holds: a write changes them at one key, a read leaves them as they are.
-/
namespace Esdb.ObjectStore

open Transactional KeyedRows KeysetChain Esdb.Runtime
open Pagination (Before found mem_found recordsOf_keys not_byteLess_iff not_byteLess_trans
  not_byteLess_total)

variable {σ σ' : Session} {d d' : Tables} {name key : Bytes}

/-! ## Records of one store -/

/-- The record is one of the store of that name. -/
def Holds (name : Bytes) (d : Tables) (r : RecordRow) : Prop :=
  r ∈ Tables.recordsOf name d.storeRows d.recordRows

theorem holds_iff {name : Bytes} {r : RecordRow} :
    Holds name d r ↔ r ∈ d.recordRows ∧ ∃ s ∈ d.storeRows, s.id = r.storeId ∧ s.name = name := by
  simp [Holds, Tables.recordsOf]

theorem holds_created {name : Bytes} {r : RecordRow} : ¬ Holds name Tables.empty.created r := by
  rw [holds_iff]
  exact fun h => List.not_mem_nil h.1

theorem holds_empty {name : Bytes} {r : RecordRow} : ¬ Holds name Tables.empty r := by
  rw [holds_iff]
  exact fun h => List.not_mem_nil h.1

theorem Prepared.holds (h : Prepared σ σ') {name : Bytes} {r : RecordRow} :
    Holds name σ'.file r ↔ Holds name σ.file r := by
  rcases h.file with he | ⟨he, he'⟩
  · rw [he]
  · rw [he, he']
    exact iff_of_false holds_created holds_empty

theorem Prepared.top (h : Prepared σ σ') : σ'.file.top = σ.file.top := by
  rcases h.file with he | ⟨he, he'⟩
  · rw [he]
  · rw [he, he']
    rfl

/-- The store as it was, as far as its callers can tell. -/
structure Same (name : Bytes) (σ σ' : Session) : Prop where
  working : Working σ'
  top : σ'.file.top = σ.file.top
  holds : ∀ r, Holds name σ'.file r ↔ Holds name σ.file r
  room : Registrable name σ.file → Registrable name σ'.file

theorem registrable_created : Registrable name Tables.empty.created := .inr (by decide)

theorem Prepared.same (h : Prepared σ σ') : Same name σ σ' where
  working := h.working
  top := h.top
  holds _ := h.holds
  room := by
    rcases h.file with he | ⟨-, he⟩
    · exact fun hr => he ▸ hr
    · exact fun _ => he ▸ registrable_created

/-- A scope that has settled on a sound file is out of the way. -/
theorem working_settledAt (h : Working σ) (hf : Filled d) : Working (settledAt σ d) :=
  ⟨rfl, h.writable, .inr hf, fun _ => hf⟩

/-- A scope that has changed nothing. -/
theorem Same.settled (h : Same name σ σ') (hp : Prepared σ σ') :
    Same name σ (settledAt σ' σ'.file) :=
  ⟨working_settledAt hp.working hp.filled, h.top, h.holds, h.room⟩

section Writing

variable {value : Value}

end Writing

/-! ## Reading -/

theorem Filled.tables (h : Filled d) :
    d.stores = some d.storeRows ∧ d.records = some d.recordRows := by
  obtain ⟨stores, hs⟩ := Option.isSome_iff_exists.mp h.complete.stores
  obtain ⟨records, hr⟩ := Option.isSome_iff_exists.mp h.complete.records
  simp [Tables.storeRows, Tables.recordRows, hs, hr]

end Esdb.ObjectStore
