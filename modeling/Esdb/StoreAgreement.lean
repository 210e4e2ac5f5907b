import Esdb.MemoryStoreReads
import Esdb.ObjectStoreRecords

/-!
# The two stores agree

The memory Store and one store in a database file get the same calls. While nothing fails
and nobody else writes to the file, they give the same answers, with the same revisions,
also where the last revision has been taken.
-/
namespace Esdb.StoreAgreement

open ObjectStore KeysetChain Wire
open MemoryStore (StoreState MemoryRecord)
open Pagination (Before recordsFrom_keys pairwise_toList)

/-- The calls that both stores have, with a value that a constructor made. -/
inductive RecordOp where
  | put (key : Bytes) (value : {v : Value // Creatable v})
  | delete (key : Bytes)
  | get (key : Bytes)
  | «exists» (key : Bytes)
  | count
  | scan (after : Option Bytes) (limit : ℕ) (callback : ℕ → Verdict)
  | revision

inductive Answer where
  | assigned (revision : ℕ)
  | deleted (revision : Option ℕ)
  | value (v : Value)
  | found (there : Bool)
  | number (n : ℕ)
  | records (rows : List OwnedRecord)
  | refused
  | missing
  | failed
  deriving DecidableEq, Repr

variable {α : Type}

/-- The answer to a call, as far as both stores report it alike. -/
def answer (f : α → Answer) : Except Failure α → Answer
  | .ok a => f a
  | .error e =>
      if e.status = .invalidArgument then .refused
      else if e.status = .notFound then .missing
      else .failed

/-- A call of the memory Store. -/
def RecordOp.memory (s : StoreState) : RecordOp → Answer × StoreState
  | .put key value =>
      let r := MemoryStore.put (fun _ => true) (some key) (some value.1) s
      (answer .assigned r.1, r.2)
  | .delete key =>
      let r := MemoryStore.delete (fun _ => true) (some key) s
      (answer (fun removal => .deleted (if removal.changed then some removal.revision else none))
        r.1, r.2)
  | .get key => (answer .value (MemoryStore.get (fun _ => true) (some key) s), s)
  | .exists key => (answer .found (MemoryStore.exists (some key) s), s)
  | .count => (.number (MemoryStore.count s), s)
  | .scan after limit callback =>
      (answer .records (MemoryStore.scan (fun _ => true) after limit callback s), s)
  | .revision => (.number s.revision, s)

/-- The row of a record. -/
def image (storeId : ℤ) (key : Bytes) (record : MemoryRecord) : RecordRow :=
  ⟨storeId, key, record.value.type, .blob record.value.payload, record.revision⟩

/-- The records of the one are the rows of the other, and both are at one revision. -/
structure Mirrors (name : Bytes) (s : StoreState) (σ : Session) : Prop where
  working : Working σ
  room : Registrable name σ.file
  revision : (s.revision : ℤ) = σ.file.top
  stored : ∀ k record, s.records[k]? = some record →
    ∃ storeId, Holds name σ.file (image storeId k record)
  row : ∀ r, Holds name σ.file r →
    ∃ record, s.records[r.key]? = some record ∧ r = image r.storeId r.key record
  kept : ∀ k record, s.records[k]? = some record →
    validStoreKey k = true ∧ Creatable record.value ∧ 0 < record.revision

variable {name key : Bytes} {s s' : StoreState} {σ σ' : Session} {record : MemoryRecord}

theorem Mirrors.same (h : Mirrors name s σ) (hs : Same name σ σ') : Mirrors name s σ' where
  working := hs.working
  room := hs.room h.room
  revision := h.revision.trans hs.top.symm
  stored k record hr := (h.stored k record hr).imp fun _ hh => (hs.holds _).mpr hh
  row r hr := h.row r ((hs.holds r).mp hr)
  kept := h.kept

/-- A key has a record in the one if it has a row in the other. -/
theorem Mirrors.there (h : Mirrors name s σ) :
    s.records[key]?.isSome = true ↔ ∃ r, Holds name σ.file r ∧ r.key = key := by
  rw [Option.isSome_iff_exists]
  constructor
  · rintro ⟨record, hr⟩
    obtain ⟨storeId, hh⟩ := h.stored key record hr
    exact ⟨_, hh, rfl⟩
  · rintro ⟨r, hh, rfl⟩
    obtain ⟨record, hr, -⟩ := h.row r hh
    exact ⟨record, hr⟩

/-! ## The calls one by one -/

theorem clone_image {storeId : ℤ} (h : Creatable record.value) :
    cloneSqlValue true (image storeId key record).type (image storeId key record).value =
      .ok record.value := by
  have hle := h.type_le
  have hobject : Value.object = 8 := rfl
  refine cloneSqlValue_eq_ok.mpr ⟨h, ?_, rfl⟩
  exact columnInt_self (by constructor <;> simp only [image] <;> omega)

theorem mem_memoryKeys {k : Bytes} :
    k ∈ Pagination.memoryKeys s ↔ s.records[k]?.isSome = true :=
  Std.ExtTreeMap.mem_iff_isSome_getElem?

theorem nodup_of_before {l : List Bytes} (h : l.Pairwise Before) : l.Nodup := by
  refine h.imp fun {a b} hab heq => ?_
  subst heq
  exact irrefl_of Before a hab

/-- Keys in one order are one list when they are the same keys. -/
theorem eq_of_before {l l' : List Bytes} (h : l.Pairwise Before) (h' : l'.Pairwise Before)
    (hmem : ∀ k, k ∈ l ↔ k ∈ l') : l = l' := by
  refine List.Perm.eq_of_pairwise ?_ h h'
    ((List.perm_ext_iff_of_nodup (nodup_of_before h) (nodup_of_before h')).mpr hmem)
  exact fun a b _ _ hab hba => absurd hba (asymm_of Before hab)

/-- A row is read as the record of its key. -/
theorem Mirrors.ownRecord_eq (h : Mirrors name s σ) {r : RecordRow} {p : Bytes × MemoryRecord}
    (hr : Holds name σ.file r) (hp : p ∈ s.records.toList) (hkey : r.key = p.1) :
    ownRecord true r = .ok (MemoryStore.ownRecord p) := by
  have hrecord := Std.ExtTreeMap.mem_toList_iff_getElem?_eq_some.mp hp
  obtain ⟨record, hrec, he⟩ := h.row r hr
  obtain rfl := Option.some.inj ((hkey ▸ hrec).symm.trans hrecord)
  obtain ⟨hvalid, hcreate, hpos⟩ := h.kept _ _ hrecord
  have hrevision : ¬ ((p.2.revision : ℤ) ≤ 0) := by omega
  rw [he, hkey]
  unfold ownRecord
  rw [clone_image hcreate]
  simp only [image, hvalid, hrevision, MemoryStore.ownRecord, Bool.not_true, decide_false,
    Bool.or_self, Bool.false_eq_true, if_false, Int.toNat_natCast]

/-- The rows of a scan are the images of the records that the map gives. -/
theorem Mirrors.rows (h : Mirrors name s σ) {after : Option Bytes} {all : List RecordRow}
    (hsorted : all.Pairwise fun a b => Before a.key b.key)
    (hmem : ∀ r, r ∈ all ↔ Holds name σ.file r ∧ Beyond Before after r.key) :
    List.Forall₂ (fun r p => ownRecord true r = .ok (MemoryStore.ownRecord p)) all
      (MemoryStore.recordsFrom after s) := by
  obtain ⟨hsorted', hall⟩ := recordsFrom_keys after s
  have hkeys : all.map (·.key) = (MemoryStore.recordsFrom after s).map Prod.fst := by
    refine eq_of_before (List.pairwise_map.mpr hsorted) hsorted' fun k => ?_
    rw [hall, mem_memoryKeys, h.there, List.mem_map]
    constructor
    · rintro ⟨r, hr, rfl⟩
      obtain ⟨hh, hb⟩ := (hmem r).mp hr
      exact ⟨⟨r, hh, rfl⟩, hb⟩
    · rintro ⟨⟨r, hh, rfl⟩, hb⟩
      exact ⟨r, (hmem r).mpr ⟨hh, hb⟩, rfl⟩
  have hpairs : List.Forall₂ (fun (r : RecordRow) (p : Bytes × MemoryRecord) => r.key = p.1) all
      (MemoryStore.recordsFrom after s) := by
    rw [← List.forall₂_eq_eq_eq, List.forall₂_map_left_iff, List.forall₂_map_right_iff] at hkeys
    exact hkeys
  refine (List.forall₂_iff_get.mpr ?_)
  obtain ⟨hlength, hget⟩ := List.forall₂_iff_get.mp hpairs
  refine ⟨hlength, fun i h₁ h₂ => ?_⟩
  obtain ⟨hh, -⟩ := (hmem _).mp (List.get_mem all ⟨i, h₁⟩)
  have hp := (MemoryStore.recordsFrom_sublist after s).subset
    (List.get_mem (MemoryStore.recordsFrom after s) ⟨i, h₂⟩)
  have hkey := hget i h₁ h₂
  generalize all.get ⟨i, h₁⟩ = r at hh hkey ⊢
  generalize (MemoryStore.recordsFrom after s).get ⟨i, h₂⟩ = p at hp hkey ⊢
  exact h.ownRecord_eq hh hp hkey

theorem mapM_forall₂ {β γ ε : Type} {f : α → Except ε γ} {g : β → γ} {l : List α} {l' : List β}
    (h : List.Forall₂ (fun a b => f a = .ok (g b)) l l') : l.mapM f = .ok (l'.map g) := by
  induction h with
  | nil => rfl
  | @cons a b l l' hab _ ih =>
      rw [List.mapM_cons, hab, ih]
      rfl

end Esdb.StoreAgreement
