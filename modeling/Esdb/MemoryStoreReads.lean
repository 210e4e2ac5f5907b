import Esdb.MemorySubscription
import Esdb.ObjectStore

/-!
# Reading the memory Store

The reads copy what they find under the Store mutex, so they do not change the Store. What
they find was put there by a call that checked it: keys are text within their bound, and
revisions stay in their domain.
-/
namespace Esdb.MemoryStore

open ObjectStore (OwnedRecord deliveredCount)

/-- `ESDB_STORE_SCAN_LIMIT_MAX`. -/
def scanLimitMax : ℕ := 10000

inductive CloneSite where
  | value | payload
  deriving DecidableEq, Repr

/-- `clone_value`. -/
def cloneValue (alloc : CloneSite → Bool) (source : Value) : Except Failure Value :=
  if !validValueType source.type then
    .error (storeFail .invalidArgument .store "invalid Store value clone arguments")
  else if !alloc .value then
    .error (storeFail .outOfMemory .store "failed to allocate Store value")
  else if !alloc .payload then
    .error (storeFail .outOfMemory .store "failed to copy Store value payload")
  else .ok source

/-- `esdb_store_get`. -/
def get (alloc : CloneSite → Bool) (key : Option Bytes) (s : StoreState) : Except Failure Value :=
  if !validKey key then .error (storeFail .invalidArgument .store "invalid Store get arguments")
  else
    match s.records[key.getD []]? with
    | none => .error (.quiet .notFound)
    | some record => cloneValue alloc record.value

/-- `esdb_store_exists`. -/
def «exists» (key : Option Bytes) (s : StoreState) : Except Failure Bool :=
  if !validKey key then .error (storeFail .invalidArgument .store "invalid Store exists arguments")
  else .ok s.records[key.getD []]?.isSome

/-- `esdb_store_count`. -/
def count (s : StoreState) : ℕ := s.records.size

/-- The records from the first key beyond a bound on, in the order of the map. -/
def recordsFrom (after : Option Bytes) (s : StoreState) : List (Bytes × MemoryRecord) :=
  match after with
  | none => s.records.toList
  | some bound => s.records.toList.dropWhile fun p => !byteLess bound p.1

def ownRecord (p : Bytes × MemoryRecord) : OwnedRecord := ⟨p.1, p.2.value, p.2.revision⟩

inductive ScanSite where
  | reserve | copyRecord (i : ℕ)
  deriving DecidableEq, Repr

/-- The limit a scan works with. -/
def scanLimit (limit : ℕ) : ℕ := if limit = 0 then scanLimitMax else limit

/-- `esdb_store_scan`: the records delivered. -/
def scan (alloc : ScanSite → Bool) (after : Option Bytes) (limit : ℕ) (callback : ℕ → Verdict)
    (s : StoreState) : Except Failure (List OwnedRecord) :=
  if !(after.all fun key => validKey (some key)) || scanLimitMax < limit then
    .error (storeFail .invalidArgument .store "invalid Store scan arguments")
  else
    let snapshot := ((recordsFrom after s).take (scanLimit limit)).map ownRecord
    if !(alloc .reserve && (List.range snapshot.length).all fun i => alloc (.copyRecord i)) then
      .error (storeFail .outOfMemory .store "failed to allocate Store scan snapshot")
    else
      match deliveredCount callback snapshot.length 0 with
      | none => .error (storeFail .internal .store "Store scan callback threw an exception")
      | some n => .ok (snapshot.take n)

/-! ## What was checked -/

/-- A mutation that the argument checks let through. -/
def Mutation.Checked : Mutation → Prop
  | .put key value => validKey (some key) = true ∧ validValueType value.type = true
  | .delete key => validKey (some key) = true
  | .clear => True

theorem checked_of_assignment {key : Option Bytes} {value : Option Value} {k : Bytes} {v : Value}
    (h : checkAssignment key value = some (k, v)) : (Mutation.put k v).Checked := by
  obtain ⟨rfl, rfl⟩ := checkAssignment_eq_some h
  simp only [checkAssignment] at h
  split_ifs at h with hvalid
  exact Bool.and_eq_true_iff.mp hvalid

theorem checked_patchMutations {entries : List PatchEntry} {assignments : List (Bytes × Value)}
    (h : entries.mapM (fun e => checkAssignment e.key e.value) = some assignments) :
    ∀ m ∈ patchMutations entries, m.Checked := by
  rw [(patchMutations_eq h).1]
  induction entries generalizing assignments with
  | nil =>
      obtain rfl := Option.some.inj h
      exact List.forall_mem_nil _
  | cons e rest ih =>
      simp only [List.mapM_cons, Option.bind_eq_bind, Option.bind_eq_some_iff, Option.pure_def,
        Option.some.injEq] at h
      obtain ⟨⟨k, v⟩, hc, as, hr, rfl⟩ := h
      exact List.forall_mem_cons.mpr ⟨checked_of_assignment hc, ih hr⟩

theorem delete_unchecked {k : Bytes} (h : validKey (some k) ≠ true) (alloc : DeleteSite → Bool)
    (s : StoreState) : delete alloc (some k) s =
      (.error (storeFail .invalidArgument .store "invalid Store delete arguments"), s) := by
  simp only [delete]
  rw [if_pos (by simpa using h)]

theorem patch_unchecked {entries : List PatchEntry}
    (h : entries.mapM (fun e => checkAssignment e.key e.value) = none) (alloc : PatchSite → Bool)
    (s : StoreState) : ∃ f, patch alloc entries s = (.error f, s) := by
  simp only [patch, h]
  by_cases hlength : entries.length > patchMaxEntries
  · exact ⟨_, if_pos hlength⟩
  · exact ⟨_, if_neg hlength⟩

theorem Call.mutations_checked (c : Call) (s : StoreState) :
    ∀ m ∈ c.mutations (c.exec s).1, m.Checked := by
  cases c with
  | put alloc key value =>
      rcases put_cases alloc key value s with ⟨f, h⟩ | ⟨k, v, hc, -, h⟩
      · simp [Call.exec, h, Except.map, Call.mutations]
      · obtain ⟨rfl, rfl⟩ := checkAssignment_eq_some hc
        simp only [Call.exec, h, Except.map, Call.mutations]
        exact List.forall_mem_singleton.mpr (checked_of_assignment hc)
  | patch alloc entries =>
      simp only [Call.exec]
      cases hr : (MemoryStore.patch alloc entries s).1 with
      | error f => exact List.forall_mem_nil _
      | ok revision =>
          cases hm : entries.mapM (fun e => checkAssignment e.key e.value) with
          | none =>
              obtain ⟨f, hf⟩ := patch_unchecked hm alloc s
              rw [hf] at hr
              cases hr
          | some assignments => exact checked_patchMutations hm
  | delete alloc key =>
      cases key with
      | none => exact List.forall_mem_nil _
      | some k =>
          simp only [Call.exec]
          cases hr : (MemoryStore.delete alloc (some k) s).1 with
          | error f => exact List.forall_mem_nil _
          | ok removal =>
              have hkey : validKey (some k) = true := by
                by_contra hkey
                rw [delete_unchecked hkey] at hr
                cases hr
              simp only [Call.mutations]
              split_ifs
              · exact List.forall_mem_singleton.mpr hkey
              · exact List.forall_mem_nil _
  | clear alloc =>
      cases hr : (Call.exec (.clear alloc) s).1 with
      | error f => exact List.forall_mem_nil _
      | ok removal =>
          simp only [Call.mutations]
          split_ifs
          · exact List.forall_mem_singleton.mpr trivial
          · exact List.forall_mem_nil _

theorem run_checked (calls : List Call) {s : StoreState} {log : List Mutation}
    (h : ∀ m ∈ log, m.Checked) : ∀ m ∈ (run calls s log).2, m.Checked := by
  induction calls generalizing s log with
  | nil => exact h
  | cons c calls ih =>
      refine ih fun m hm => ?_
      rcases List.mem_append.mp hm with hm | hm
      · exact h m hm
      · exact c.mutations_checked s m hm

/-! ## What is found -/

/-- A record as the Store keeps them. -/
structure Kept (r : OwnedRecord) : Prop where
  key : validKey (some r.key) = true
  type : validValueType r.value.type = true
  revision : r.revision ≤ revisionMax

theorem kept_record {log : List Mutation} {s : StoreState} (h : Represents log s)
    (hlog : ∀ m ∈ log, m.Checked) {p : Bytes × MemoryRecord} (hp : p ∈ s.records.toList) :
    Kept (ownRecord p) := by
  have hget : recordAfter log p.1 = some p.2 :=
    (h.records p.1).symm.trans (Std.ExtTreeMap.mem_toList_iff_getElem?_eq_some.mp hp)
  unfold recordAfter at hget
  split at hget
  · rename_i key value revision hlast
    have hrevision := lastMutation_revision_le hlast
    have hmem := List.mem_of_find?_eq_some hlast
    have htouches := List.find?_some hlast
    rw [List.mem_reverse] at hmem
    have hkey : key = p.1 := by simpa [Mutation.touches] using htouches
    obtain ⟨hvalid, htype⟩ := hlog _ (List.fst_mem_of_mem_zipIdx hmem)
    have hrecord := Option.some.inj hget
    refine ⟨?_, ?_, ?_⟩
    · rw [ownRecord, ← hkey]
      exact hvalid
    · rw [ownRecord, ← hrecord]
      exact htype
    · rw [ownRecord, ← hrecord]
      exact Nat.le_trans hrevision h.within
  · cases hget

theorem recordsFrom_sublist (after : Option Bytes) (s : StoreState) :
    (recordsFrom after s).Sublist s.records.toList := by
  cases after with
  | none => exact List.Sublist.refl _
  | some bound => exact List.dropWhile_sublist _

/-- What a scan delivers. -/
theorem scan_ok {alloc : ScanSite → Bool} {after : Option Bytes} {limit : ℕ}
    {callback : ℕ → Verdict} {s : StoreState} {records : List OwnedRecord}
    (h : scan alloc after limit callback s = .ok records) :
    limit ≤ scanLimitMax ∧ ∃ n,
      deliveredCount callback ((recordsFrom after s).take (scanLimit limit)).length 0 = some n ∧
        records = (((recordsFrom after s).take (scanLimit limit)).map ownRecord).take n := by
  unfold scan at h
  dsimp only at h
  split_ifs at h with hargs halloc
  · have hlimit : limit ≤ scanLimitMax := by
      rw [Bool.or_eq_true, not_or, decide_eq_true_eq] at hargs
      omega
    rw [List.length_map] at h
    cases hn : deliveredCount callback ((recordsFrom after s).take (scanLimit limit)).length 0 with
    | none =>
        rw [hn] at h
        cases h
    | some n =>
        rw [hn] at h
        exact ⟨hlimit, n, rfl, (Except.ok.inj h).symm⟩

theorem scan_length {alloc : ScanSite → Bool} {after : Option Bytes} {limit : ℕ}
    {callback : ℕ → Verdict} {s : StoreState} {records : List OwnedRecord}
    (h : scan alloc after limit callback s = .ok records) : records.length ≤ scanLimitMax := by
  obtain ⟨hlimit, n, -, rfl⟩ := scan_ok h
  have heffective : scanLimit limit ≤ scanLimitMax := by
    unfold scanLimit
    split_ifs
    · exact Nat.le_refl _
    · exact hlimit
  simp only [List.length_take, List.length_map]
  omega

theorem scan_kept {log : List Mutation} {s : StoreState} (hs : Represents log s)
    (hlog : ∀ m ∈ log, m.Checked) {alloc : ScanSite → Bool} {after : Option Bytes} {limit : ℕ}
    {callback : ℕ → Verdict} {records : List OwnedRecord}
    (h : scan alloc after limit callback s = .ok records) : ∀ r ∈ records, Kept r := by
  obtain ⟨-, n, -, rfl⟩ := scan_ok h
  intro r hr
  obtain ⟨p, hp, rfl⟩ := List.mem_map.mp (List.mem_of_mem_take hr)
  exact kept_record hs hlog ((recordsFrom_sublist after s).subset (List.mem_of_mem_take hp))

end Esdb.MemoryStore
