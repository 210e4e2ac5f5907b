import Esdb.ObjectStoreMutations

/-!
# What whole mutations keep

Between mutations the tables say one thing four times: the stored revision, the
sequence value and the last change agree, and the records are exactly the rows
written by puts that no later change of the same key has overtaken. A file is
either one the store was never used on or one of these.
-/
namespace Esdb.ObjectStore

open Transactional KeyedRows

def ChangeRow.primaryKey (c : ChangeRow) : ℤ × Bytes := (c.storeId, c.key)

/-- The change a put of this row is logged as. -/
def RecordRow.putRow (r : RecordRow) : ChangeRow := ⟨r.revision, r.storeId, r.key, changePut, r.type⟩

/-- The most recent change of a key. -/
def lastChange (log : List ChangeRow) (k : ℤ × Bytes) : Option ChangeRow :=
  (log.filter (·.primaryKey = k)).getLast?

/-- A change as the store makes them. -/
structure WellFormed (d : Tables) (c : ChangeRow) : Prop where
  store : ∃ s ∈ d.storeRows, s.id = c.storeId
  key : validStoreKey c.key = true
  operation : (c.operation = changePut ∧ validColumnType c.valueType = true) ∨
    (c.operation = changeDelete ∧ c.valueType = 0)

/-- The tables of a store in use, between mutations. -/
structure Filled (d : Tables) : Prop where
  complete : d.Complete
  journal : Journal d
  metadataKeys : Unique Prod.fst d.metadataRows
  version : (schemaVersionKey, Cell.text schemaVersionText) ∈ d.metadataRows
  revision : (storeRevisionKey, Cell.text (castText d.top)) ∈ d.metadataRows
  names : ∀ s ∈ d.storeRows, validStoreName s.name = true
  logged : ∀ c ∈ d.log, WellFormed d c
  written : d.written.map RecordRow.putRow = d.log.filter (·.operation = changePut)
  recordKeys : Unique RecordRow.primaryKey d.recordRows
  records : ∀ r, r ∈ d.recordRows ↔
    r ∈ d.written ∧ lastChange d.log r.primaryKey = some r.putRow

/-- A file the store was never used on, or a store between mutations. -/
def Sound (d : Tables) : Prop := d = Tables.empty ∨ Filled d

theorem sound_empty : Sound Tables.empty := .inl rfl

theorem Sound.journal {d : Tables} (h : Sound d) : Journal d := by
  rcases h with rfl | h
  · exact journal_empty
  · exact h.journal

theorem Sound.filled {d : Tables} (h : Sound d) (hm : d.metadata ≠ none) : Filled d := by
  rcases h with rfl | h
  · exact (hm rfl).elim
  · exact h

theorem lastChange_append (log : List ChangeRow) (c : ChangeRow) (k : ℤ × Bytes) :
    lastChange (log ++ [c]) k = if c.primaryKey = k then some c else lastChange log k := by
  unfold lastChange
  rw [List.filter_append]
  split_ifs with h <;> simp [h]

theorem lastChange_mem {log : List ChangeRow} {k : ℤ × Bytes} {c : ChangeRow}
    (h : lastChange log k = some c) : c ∈ log ∧ c.primaryKey = k := by
  have := List.mem_of_getLast? h
  simpa using this

theorem Filled.written_log {d : Tables} (h : Filled d) {r : RecordRow} (hr : r ∈ d.written) :
    r.putRow ∈ d.log := by
  have : r.putRow ∈ d.log.filter (·.operation = changePut) :=
    h.written ▸ List.mem_map_of_mem hr
  exact (List.mem_filter.mp this).1

/-! ## Creating -/

theorem filled_created : Filled Tables.empty.created where
  complete := by constructor <;> rfl
  journal := by
    constructor <;> simp [Tables.created, Tables.empty, Tables.changeRows, Tables.storeRows,
      Tables.top, Tables.lastRowid, unique_nil]
  metadataKeys := by
    simp [KeyedRows.Unique, Tables.metadataRows, Tables.created, schemaVersionKey, storeRevisionKey]
  version := by simp [Tables.metadataRows, Tables.created]
  revision := by
    have h : castText Tables.empty.created.top = [48] := by decide
    rw [h]
    simp [Tables.metadataRows, Tables.created]
  names := by simp [Tables.storeRows, Tables.created]
  logged := by simp [Tables.created, Tables.empty]
  written := rfl
  recordKeys := unique_nil
  records := by simp [Tables.recordRows, Tables.created, Tables.empty]

/-! ## Stores -/

theorem WellFormed.grows {d d' : Tables} {c : ChangeRow} (h : WellFormed d c)
    (hg : d.storeRows <+: d'.storeRows) : WellFormed d' c := by
  obtain ⟨s, hs, hid⟩ := h.store
  exact ⟨⟨s, hg.subset hs, hid⟩, h.key, h.operation⟩

theorem Filled.register {name : Bytes} {d d' : Tables} (h : Filled d)
    (hv : validStoreName name = true) (he : (Sql.registerStore name).eval d = .ok ((), d')) :
    Filled d' := by
  have hj := Sql.eval_journal he h.journal
  have hc := Sql.eval_complete he h.complete
  obtain ⟨rows, rows', hr, rfl, hrows⟩ := registerStore_eval he
  refine ⟨hc, hj.1, h.metadataKeys, h.version, h.revision, ?_,
    fun c hc => (h.logged c hc).grows hj.2.stores, h.written, h.recordKeys, h.records⟩
  intro s hs
  simp only [Tables.storeRows, Option.getD_some] at hs
  have hold : ∀ s ∈ rows, validStoreName s.name = true := fun s hs =>
    h.names s (by simpa [Tables.storeRows, hr] using hs)
  rcases hrows with rfl | rfl
  · exact hold s hs
  · rcases List.mem_append.mp hs with hs | hs
    · exact hold s hs
    · obtain rfl := List.mem_singleton.mp hs
      exact hv

/-! ## Logging a change -/

theorem Logs.journal {d d' : Tables} {row : ChangeRow} (h : Logs d d' row)
    (hs : d'.stores = d.stores) (hj : Journal d) : Journal d' := by
  obtain ⟨rows, hr, hn, hc⟩ := h.changes
  obtain ⟨metadata, hm, hm'⟩ := h.metadata
  have hi := hj.insertChange hr hn
  have hcr := hj.created
  rw [hm] at hcr
  constructor
  · exact h.log ▸ hi.ascending
  · exact h.log ▸ hi.range
  · rw [h.sequence, Tables.top, h.log]
    exact hi.sequence
  · rw [h.log, h.pruned, Tables.changeRows, hc]
    exact hi.changes
  · rw [h.pruned, Tables.top, h.log]
    exact hi.pruned
  · simp [hc]
  · rw [Tables.storeRows, hs]
    exact hj.storeIds
  · rw [Tables.storeRows, hs]
    exact hj.storeNames
  · rw [hm', h.creations]
    exact hcr

theorem Logs.top {d d' : Tables} {row : ChangeRow} (h : Logs d d' row) : d'.top = row.revision := by
  rw [Tables.top, h.log, lastRowid_append]

theorem Logs.revision {d d' : Tables} {row : ChangeRow} (h : Logs d d' row) (hj : Journal d) :
    row.revision = d.top + 1 := by
  obtain ⟨rows, hr, hn, -⟩ := h.changes
  exact (hj.nextRevision hr hn).1

theorem Logs.grows {d d' : Tables} {row : ChangeRow} (h : Logs d d' row)
    (hs : d'.stores = d.stores) (hw : d.written <+: d'.written) : Grows d d' := by
  refine ⟨?_, hw, ?_, ?_, ?_⟩
  · rw [h.log]
    exact List.prefix_append _ _
  · unfold Tables.storeRows
    exact hs ▸ List.prefix_rfl
  · exact Int.le_of_eq h.pruned.symm
  · exact Nat.le_of_eq h.creations.symm

/-- A change with the records it makes. -/
theorem Filled.logs {d d' : Tables} {row : ChangeRow} (h : Filled d) (hl : Logs d d' row)
    (hs : d'.stores = d.stores) (hrow : WellFormed d row) (hrecords : d'.records.isSome)
    (hw : d'.written.map RecordRow.putRow = d'.log.filter (·.operation = changePut))
    (hk : Unique RecordRow.primaryKey d'.recordRows)
    (hr : ∀ r, r ∈ d'.recordRows ↔
      r ∈ d'.written ∧ lastChange d'.log r.primaryKey = some r.putRow) : Filled d' := by
  have hj := hl.journal hs h.journal
  have hstores : d'.storeRows = d.storeRows := by rw [Tables.storeRows, hs, Tables.storeRows]
  obtain ⟨rows, hm, hm'⟩ := hl.metadata
  have hrows : d'.metadataRows =
      upsert Prod.fst (storeRevisionKey, Cell.text (castText row.revision)) d.metadataRows := by
    simp [Tables.metadataRows, hm, hm']
  refine ⟨⟨?_, ?_, hrecords, ?_⟩, hj, ?_, ?_, ?_, ?_, ?_, hw, hk, hr⟩
  · simp [hm']
  · rw [hs]
    exact h.complete.stores
  · obtain ⟨changes, -, -, hc⟩ := hl.changes
    simp [hc]
  · rw [hrows]
    exact h.metadataKeys.upsert _
  · rw [hrows, mem_upsert]
    have hne : schemaVersionKey ≠ storeRevisionKey := by decide
    exact .inr ⟨h.version, hne⟩
  · rw [hrows, hl.top, mem_upsert]
    exact .inl rfl
  · rw [hstores]
    exact h.names
  · intro c hc
    rw [hl.log] at hc
    have hpre : d.storeRows <+: d'.storeRows := hstores ▸ List.prefix_rfl
    rcases List.mem_append.mp hc with hc | hc
    · exact (h.logged c hc).grows hpre
    · obtain rfl := List.mem_singleton.mp hc
      exact hrow.grows hpre

theorem Filled.fresh {d d' : Tables} {row : ChangeRow} (h : Filled d) (hl : Logs d d' row)
    {r : RecordRow} (hr : r ∈ d.written) : r.putRow ≠ row := by
  intro he
  have hle := h.journal.le_top (h.written_log hr)
  have hrev := hl.revision h.journal
  rw [he] at hle
  omega

/-! ## Mutations -/

theorem validColumnType_of_value {type : ℕ} (h : validValueType type = true) :
    validColumnType (type : ℤ) = true := by
  simp only [validValueType, decide_eq_true_eq] at h
  simp only [validColumnType, Bool.and_eq_true, decide_eq_true_eq]
  omega

theorem Filled.put {name key : Bytes} {value : Value} {revision : ℤ} {d d' : Tables} (h : Filled d)
    (hm : (Mutation.put name key value revision).Applies d d') : Filled d' ∧ Grows d d' := by
  obtain ⟨⟨hname, hkey, htype⟩, hb⟩ := hm
  obtain ⟨d₁, storeId, rows, hreg, ⟨s, hs, hid, -⟩, hl, hst, hrec, hrec', hwr⟩ := putBody_denote hb
  have hg₁ := (Sql.eval_journal hreg h.journal).2
  have h₁ := h.register hname hreg
  have hrows : d₁.recordRows = rows := by simp [Tables.recordRows, hrec]
  have hrows' : d'.recordRows = upsert RecordRow.primaryKey
      ⟨storeId, key, value.type, .blob value.payload, revision⟩ d₁.recordRows := by
    simp [Tables.recordRows, hrec, hrec']
  refine ⟨h₁.logs hl hst ⟨⟨s, hs, hid⟩, hkey, .inl ⟨rfl, validColumnType_of_value htype⟩⟩
    (by simp [hrec']) ?_ (hrows' ▸ h₁.recordKeys.upsert _) ?_,
    hg₁.trans (hl.grows hst (hwr ▸ List.prefix_append _ _))⟩
  · rw [hwr, hl.log, List.map_append, List.filter_append, h₁.written]
    rfl
  · intro r
    rw [hrows', mem_upsert, hl.log, lastChange_append, hwr, List.mem_append, List.mem_singleton,
      h₁.records]
    by_cases hk : ChangeRow.primaryKey ⟨revision, storeId, key, changePut, value.type⟩ = r.primaryKey
    · rw [if_pos hk]
      constructor
      · rintro (rfl | ⟨-, hne⟩)
        · exact ⟨.inr rfl, rfl⟩
        · exact (hne hk.symm).elim
      · rintro ⟨hr | rfl, he⟩
        · exact (h₁.fresh hl hr (Option.some.inj he).symm).elim
        · exact .inl rfl
    · rw [if_neg hk]
      constructor
      · rintro (rfl | ⟨⟨hr, he⟩, -⟩)
        · exact (hk rfl).elim
        · exact ⟨.inl hr, he⟩
      · rintro ⟨hr | rfl, he⟩
        · exact .inr ⟨⟨hr, he⟩, fun hne => hk hne.symm⟩
        · exact (hk rfl).elim

theorem remove_of_lookup_none {k : ℤ × Bytes} {rows : List RecordRow}
    (h : lookup RecordRow.primaryKey k rows = none) : remove RecordRow.primaryKey k rows = rows := by
  unfold remove
  rw [List.filter_eq_self]
  intro r hr
  simpa using lookup_eq_none h r hr

/-- A delete that finds no record changes nothing at all. -/
theorem delete_none_eq {storeId : ℤ} {key : Bytes} {d d' : Tables}
    (hm : (Mutation.delete storeId key none).Applies d d') : d' = d := by
  obtain ⟨-, hb⟩ := hm
  obtain ⟨rows, hr, hl, rfl⟩ := deleteBody_denote hb
  rw [remove_of_lookup_none hl, ← hr]

theorem Filled.delete {storeId : ℤ} {key : Bytes} {revision : Option ℤ} {d d' : Tables}
    (h : Filled d) (hm : (Mutation.delete storeId key revision).Applies d d') :
    Filled d' ∧ Grows d d' := by
  cases revision with
  | none =>
      obtain rfl := delete_none_eq hm
      exact ⟨h, .refl _⟩
  | some revision =>
      obtain ⟨hkey, hb⟩ := hm
      obtain ⟨rows, hrec, ⟨r₀, hr₀⟩, hl, hst, hrec', hwr⟩ := deleteBody_denote hb
      have hrows : d.recordRows = rows := by simp [Tables.recordRows, hrec]
      have hrows' : d'.recordRows = remove RecordRow.primaryKey (storeId, key) d.recordRows := by
        simp [Tables.recordRows, hrec, hrec']
      obtain ⟨hmem, hpk⟩ := lookup_eq_some hr₀
      have hlast := (lastChange_mem ((h.records r₀).mp (hrows ▸ hmem)).2).1
      have hstore : ∃ s ∈ d.storeRows, s.id = storeId := by
        have := (h.logged _ hlast).store
        rwa [show r₀.putRow.storeId = storeId from congrArg Prod.fst hpk] at this
      refine ⟨h.logs hl hst ⟨hstore, hkey, .inr ⟨rfl, rfl⟩⟩ (by simp [hrec']) ?_
        (hrows' ▸ h.recordKeys.remove _) ?_, hl.grows hst (hwr ▸ List.prefix_rfl)⟩
      · rw [hwr, hl.log, List.filter_append, h.written]
        simp [changeDelete, changePut]
      · intro r
        rw [hrows', mem_remove, hl.log, lastChange_append, hwr, h.records]
        by_cases hk : ChangeRow.primaryKey ⟨revision, storeId, key, changeDelete, 0⟩ = r.primaryKey
        · rw [if_pos hk]
          constructor
          · rintro ⟨-, hne⟩
            exact (hne hk.symm).elim
          · rintro ⟨-, he⟩
            have := congrArg ChangeRow.operation (Option.some.inj he)
            simp [RecordRow.putRow, changeDelete, changePut] at this
        · rw [if_neg hk]
          exact ⟨fun hr => hr.1, fun hr => ⟨hr, fun hne => hk hne.symm⟩⟩

theorem Filled.prune {through rows : ℕ} {d d' : Tables} (h : Filled d)
    (hm : (Mutation.prune through rows).Applies d d') : Filled d' ∧ Grows d d' := by
  obtain ⟨revisions, he, -⟩ := hm
  have hj := Sql.eval_journal he h.journal
  have hc := Sql.eval_complete he h.complete
  obtain ⟨changes, hr, -, rfl⟩ := pruneChanges_eval he
  exact ⟨⟨hc, hj.1, h.metadataKeys, h.version, h.revision, h.names,
    fun c hm => (h.logged c hm).grows hj.2.stores, h.written, h.recordKeys, h.records⟩, hj.2⟩

/-- Every mutation but the first use needs the tables. -/
theorem Mutation.Applies.present {m : Mutation} {d d' : Tables} (h : m.Applies d d')
    (hm : m ≠ .firstUse) : d ≠ Tables.empty := by
  rintro rfl
  cases m with
  | firstUse => exact hm rfl
  | register name =>
      have h := denote_statement.mp h.2
      simp [Sql.eval, Tables.empty] at h
  | put name key value revision =>
      obtain ⟨d₁, id, rows, h, -⟩ := putBody_denote h.2
      simp [Sql.eval, Tables.empty] at h
  | delete storeId key revision =>
      obtain ⟨rows, h, -⟩ := deleteBody_denote h.2
      simp [Tables.empty] at h
  | prune through rows =>
      obtain ⟨revisions, h, -⟩ := h
      simp [Sql.eval, Tables.empty] at h
  | pruneRejected through =>
      obtain ⟨revisions, h, -⟩ := h
      simp [Sql.eval, Tables.empty] at h

theorem Sound.present {m : Mutation} {d d' : Tables} (h : Sound d) (hm : m.Applies d d')
    (hne : m ≠ .firstUse) : Filled d := by
  rcases h with rfl | h
  · exact (hm.present hne rfl).elim
  · exact h

/-- The row loop of a prune only meets revisions that were assigned. -/
theorem Journal.not_pruneRejected {through : ℕ} {d d' : Tables} (h : Journal d) :
    ¬ (Mutation.pruneRejected through).Applies d d' := by
  rintro ⟨revisions, he, hany⟩
  obtain ⟨rows, hr, rfl, -⟩ := pruneChanges_eval he
  simp only [List.any_map, List.any_filter, List.any_eq_true, Bool.and_eq_true,
    decide_eq_true_eq, Function.comp_apply] at hany
  obtain ⟨c, hc, -, hle⟩ := hany
  have hmem : c ∈ d.changeRows := by simpa [Tables.changeRows, hr] using hc
  have := (h.range c (h.mem_changes.mp hmem).1).1
  omega

/-- Each mutation takes a sound file to a store between mutations, and nothing
that was there before is lost. -/
theorem Sound.applies {m : Mutation} {d d' : Tables} (h : Sound d) (hm : m.Applies d d') :
    Filled d' ∧ Grows d d' := by
  cases m with
  | firstUse =>
      rcases initializeSchema_denote hm with ⟨hc, rfl⟩ | ⟨hz, rfl⟩
      · rcases h with rfl | h
        · exact absurd hc.metadata (by decide)
        · exact ⟨h, .refl d'⟩
      · rcases h with rfl | h
        · refine ⟨filled_created, ⟨List.prefix_rfl, List.prefix_rfl, List.prefix_rfl, ?_, ?_⟩⟩
          · exact Int.le_refl _
          · exact Nat.le_succ _
        · have := Tables.complete_iff_tableCount.mp h.complete
          omega
  | register name =>
      have hf := h.present hm (fun h => nomatch h)
      have he := denote_statement.mp hm.2
      exact ⟨hf.register hm.1 he, (Sql.eval_journal he h.journal).2⟩
  | put name key value revision => exact (h.present hm (fun h => nomatch h)).put hm
  | delete storeId key revision => exact (h.present hm (fun h => nomatch h)).delete hm
  | prune through rows => exact (h.present hm (fun h => nomatch h)).prune hm
  | pruneRejected through => exact (h.journal.not_pruneRejected hm).elim

end Esdb.ObjectStore
