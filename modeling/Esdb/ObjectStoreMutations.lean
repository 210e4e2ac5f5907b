import Esdb.ObjectStore
import Esdb.ObjectJournal
import Mathlib.Algebra.Group.Nat.Defs

/-!
# Mutations of the tables

The mutations of the store as relations on content, and what each of them comes
to in terms of the rows. The stored revision is text; it reads back as the number
it was written for.
-/
namespace Esdb.ObjectStore

open Transactional KeyedRows

inductive Mutation where
  | firstUse
  | register (name : Bytes)
  | put (name key : Bytes) (value : Value) (revision : ℤ)
  | delete (storeId : ℤ) (key : Bytes) (revision : Option ℤ)
  | prune (through rows : ℕ)
  | pruneRejected (through : ℕ)
  deriving DecidableEq, Repr

/-- The mutation, with arguments that passed its checks, takes the tables from `d`
to `d'`. A prune whose row loop meets an impossible revision has deleted its rows
all the same. -/
def Mutation.Applies : Mutation → Tables → Tables → Prop
  | .firstUse, d, d' => initializeSchema.denote d = .ok ((), d')
  | .register name, d, d' =>
      validStoreName name = true ∧ (statement (.registerStore name)).denote d = .ok ((), d')
  | .put name key value revision, d, d' =>
      (validStoreName name = true ∧ validStoreKey key = true ∧ validValueType value.type = true) ∧
        (putBody name key value).denote d = .ok (revision, d')
  | .delete storeId key revision, d, d' =>
      validStoreKey key = true ∧ (deleteBody storeId key).denote d = .ok (revision, d')
  | .prune through rows, d, d' =>
      ∃ revisions, (Sql.pruneChanges through).eval d = .ok (revisions, d') ∧
        revisions.length = rows
  | .pruneRejected through, d, d' =>
      ∃ revisions, (Sql.pruneChanges through).eval d = .ok (revisions, d') ∧
        revisions.any (· ≤ 0) = true

/-! ## The revision as text -/

theorem digit_spec : ∀ n < 10, ¬(digit n < 48 ∨ 57 < digit n) ∧ (digit n).toNat - 48 = n ∧
    (digit n = 48 → n = 0) := by decide

theorem parseDigits_digit {value n : ℕ} (hn : n < 10) (hv : value * 10 + n ≤ revisionMax)
    (rest : Bytes) : parseDigits value (digit n :: rest) = parseDigits (value * 10 + n) rest := by
  obtain ⟨hrange, hdigit, -⟩ := digit_spec n hn
  rw [parseDigits, if_neg hrange]
  simp only [hdigit]
  rw [if_neg (by omega)]

theorem parseDigits_decimalDigits {fuel n : ℕ} (hf : n < 10 ^ fuel) (hn : n ≤ revisionMax)
    (acc : Bytes) : parseDigits 0 (decimalDigits fuel n acc) = parseDigits n acc := by
  induction fuel generalizing n acc with
  | zero =>
      obtain rfl : n = 0 := by omega
      rfl
  | succ fuel ih =>
      unfold decimalDigits
      split_ifs with h
      · rw [parseDigits_digit (by omega) (by omega)]
        simp
      · rw [ih (by rw [Nat.pow_succ] at hf; omega) (by omega), parseDigits_digit (by omega) (by omega)]
        congr 1
        omega

theorem decimalDigits_head {fuel n : ℕ} (hf : n < 10 ^ fuel) (hn : 0 < n) (acc : Bytes) :
    ∃ c rest, decimalDigits fuel n acc = c :: rest ∧ c ≠ 48 := by
  induction fuel generalizing n acc with
  | zero => omega
  | succ fuel ih =>
      unfold decimalDigits
      split_ifs with h
      · refine ⟨digit n, acc, rfl, fun he => ?_⟩
        have := (digit_spec n (by omega)).2.2 he
        omega
      · exact ih (by rw [Nat.pow_succ] at hf; omega) (by omega) _

/-- The revision that was written is the revision that is read. -/
theorem parseRevisionText_castText {i : ℤ} (h₀ : 0 ≤ i) (h : i ≤ maxRowid) :
    parseRevisionText (castText i) = some i.toNat := by
  obtain ⟨n, rfl⟩ := Int.eq_ofNat_of_zero_le h₀
  have hn : n ≤ revisionMax := by
    unfold maxRowid at h
    unfold revisionMax
    omega
  have hf : n < 10 ^ 20 := by
    unfold revisionMax at hn
    omega
  have htext : castText (n : ℤ) = decimalDigits 20 n [] := by
    simp [castText]
  rw [htext]
  have hparse := parseDigits_decimalDigits hf hn []
  simp only [parseDigits] at hparse
  rcases Nat.eq_zero_or_pos n with rfl | hpos
  · rfl
  · obtain ⟨c, rest, he, hc⟩ := decimalDigits_head hf hpos []
    rw [he] at hparse ⊢
    cases rest with
    | nil => exact hparse
    | cons c' rest =>
        change (if c = 48 then none else parseDigits 0 (c :: c' :: rest)) = _
        rw [if_neg hc]
        exact hparse

/-! ## Statements in sequence -/

theorem denote_statement {s : Sql} {d d' : Tables} {r : s.Row} :
    (statement s).denote d = .ok (r, d') ↔ s.eval d = .ok (r, d') := Transactional.Query.denote_one _ _ _

/-- The tables as first use creates them. -/
def Tables.created (d : Tables) : Tables :=
  { d with
    metadata := some [(schemaVersionKey, .text schemaVersionText), (storeRevisionKey, .text [48])]
    stores := some []
    records := some []
    changes := some []
    creations := d.creations + 1 }

theorem createSchema_denote {d : Tables} (hm : d.metadata = none) (hs : d.stores = none)
    (hr : d.records = none) (hc : d.changes = none) :
    createSchema.denote d = .ok ((), d.created) := by
  simp only [createSchema, Transactional.Query.denote_bind]
  obtain ⟨m, s, r, c, q, l, w, p, n⟩ := d
  dsimp only at hm hs hr hc
  subst hm hs hr hc
  rfl

theorem inspectStoreTableCount_denote {d d' : Tables} {n : ℕ} :
    inspectStoreTableCount.denote d = .ok (n, d') ↔ n = d.tableCount ∧ d' = d := by
  have hle : ¬ 4 < d.tableCount := by
    unfold Tables.tableCount
    split_ifs <;> omega
  have hd : inspectStoreTableCount.denote d =
      (if 4 < d.tableCount then (.fail (corrupt "ESDB Store schema table count is invalid") : Query ℕ)
        else .ret d.tableCount).denote d := rfl
  rw [hd, if_neg hle]
  simp only [Transactional.Query.denote, Except.ok.injEq, Prod.mk.injEq]
  exact ⟨fun h => ⟨h.1.symm, h.2.symm⟩, fun h => ⟨h.1.symm, h.2.symm⟩⟩

/-- First use either finds the schema or creates it in full. -/
theorem initializeSchema_denote {d d' : Tables} (h : initializeSchema.denote d = .ok ((), d')) :
    (d.Complete ∧ d' = d) ∨ (d.tableCount = 0 ∧ d' = d.created) := by
  unfold initializeSchema at h
  obtain ⟨count, d₁, h₁, h⟩ := Transactional.Query.denote_bind_ok.mp h
  obtain ⟨rfl, rfl⟩ := inspectStoreTableCount_denote.mp h₁
  by_cases hpart : d₁.tableCount ≠ 0 ∧ d₁.tableCount ≠ 4
  · rw [if_pos hpart] at h
    cases h
  rw [if_neg hpart] at h
  by_cases hzero : d₁.tableCount = 0
  · rw [if_pos hzero, createSchema_denote] at h
    · simp only [Except.ok.injEq, Prod.mk.injEq] at h
      exact .inr ⟨hzero, h.2.symm⟩
    all_goals
      unfold Tables.tableCount at hzero
      split_ifs at hzero <;> simp_all
  · rw [if_neg hzero] at h
    cases h
    exact .inl ⟨Tables.complete_iff_tableCount.mpr (by omega), rfl⟩

theorem initializeSchema_complete {d d' : Tables} (h : initializeSchema.denote d = .ok ((), d')) :
    d'.Complete := by
  rcases initializeSchema_denote h with ⟨hd, rfl⟩ | ⟨-, rfl⟩
  · exact hd
  · constructor <;> rfl

/-! ## Registering and looking up -/

theorem registerStore_eval {name : Bytes} {d d' : Tables}
    (h : (Sql.registerStore name).eval d = .ok ((), d')) :
    ∃ rows rows', d.stores = some rows ∧ d' = { d with stores := some rows' } ∧
      (rows' = rows ∨ rows' = rows ++ [⟨Tables.nextStoreId rows, name⟩]) := by
  simp only [Sql.eval] at h
  cases hm : d.stores with
  | none => simp [hm] at h
  | some rows =>
      simp only [hm] at h
      split at h
      · simp only [Except.ok.injEq, Prod.mk.injEq, true_and] at h
        refine ⟨rows, rows, rfl, ?_, .inl rfl⟩
        rw [← h, ← hm]
      · split_ifs at h
        simp only [Except.ok.injEq, Prod.mk.injEq, true_and] at h
        exact ⟨rows, _, rfl, h.symm, .inr rfl⟩

theorem findStoreId_denote {name : Bytes} {d d' : Tables} {id : ℤ}
    (h : (findStoreId name).denote d = .ok (id, d')) :
    d' = d ∧ ∃ s ∈ d.storeRows, s.id = id ∧ s.name = name := by
  unfold findStoreId at h
  obtain ⟨row, d₁, h₁, h⟩ := Transactional.Query.denote_bind_ok.mp h
  rw [denote_statement] at h₁
  obtain rfl := Sql.eval_reads rfl h₁
  cases row with
  | none => cases h
  | some id' =>
      cases h
      refine ⟨rfl, ?_⟩
      simp only [Sql.eval] at h₁
      cases hm : d'.stores with
      | none => simp [hm] at h₁
      | some rows =>
          simp only [hm, Except.ok.injEq, Prod.mk.injEq, and_true, Option.map_eq_some_iff] at h₁
          obtain ⟨s, hs, rfl⟩ := h₁
          obtain ⟨hmem, hname⟩ := lookup_eq_some hs
          exact ⟨s, by simpa [Tables.storeRows, hm] using hmem, rfl, hname⟩

/-- `insert_change` appends one row above every revision there has been. -/
theorem insertChange_denote {storeId : ℤ} {key : Bytes} {operation valueType revision : ℤ}
    {d d' : Tables} (h : (insertChange storeId key operation valueType).denote d = .ok (revision, d')) :
    ∃ rows, d.changes = some rows ∧ d.nextRevision rows = some revision ∧
      d' = { d with
        changes := some (rows ++ [⟨revision, storeId, key, operation, valueType⟩])
        sequence := some (.integer revision)
        log := d.log ++ [⟨revision, storeId, key, operation, valueType⟩] } := by
  unfold insertChange at h
  obtain ⟨r, d₁, h₁, h⟩ := Transactional.Query.denote_bind_ok.mp h
  rw [denote_statement] at h₁
  by_cases hr : r ≤ 0
  · rw [if_pos hr] at h
    cases h
  rw [if_neg hr] at h
  cases h
  simp only [Sql.eval] at h₁
  cases hm : d.changes with
  | none => simp [hm] at h₁
  | some rows =>
      simp only [hm] at h₁
      cases hn : d.nextRevision rows with
      | none => simp [hn] at h₁
      | some next =>
          simp only [hn, Except.ok.injEq, Prod.mk.injEq] at h₁
          obtain ⟨rfl, rfl⟩ := h₁
          exact ⟨rows, rfl, hn, rfl⟩

theorem setStoreRevision_denote {revision : ℤ} {d d' : Tables}
    (h : (setStoreRevision revision).denote d = .ok ((), d')) :
    ∃ rows, d.metadata = some rows ∧ d' = { d with
      metadata := some (upsert Prod.fst (storeRevisionKey, .text (castText revision)) rows) } := by
  unfold setStoreRevision at h
  rw [denote_statement] at h
  simp only [Sql.eval] at h
  cases hm : d.metadata with
  | none => simp [hm] at h
  | some rows =>
      simp only [hm, Except.ok.injEq, Prod.mk.injEq, true_and] at h
      exact ⟨rows, rfl, h.symm⟩

/-! ## The mutations row by row -/

/-- A change with its bookkeeping: the row, the sequence and the revision. -/
structure Logs (d d' : Tables) (row : ChangeRow) : Prop where
  changes : ∃ rows, d.changes = some rows ∧ d.nextRevision rows = some row.revision ∧
    d'.changes = some (rows ++ [row])
  sequence : d'.sequence = some (.integer row.revision)
  log : d'.log = d.log ++ [row]
  metadata : ∃ rows, d.metadata = some rows ∧ d'.metadata =
    some (upsert Prod.fst (storeRevisionKey, .text (castText row.revision)) rows)
  pruned : d'.pruned = d.pruned
  creations : d'.creations = d.creations

theorem putBody_denote {name key : Bytes} {value : Value} {revision : ℤ} {d d' : Tables}
    (h : (putBody name key value).denote d = .ok (revision, d')) :
    ∃ d₁ storeId rows, (Sql.registerStore name).eval d = .ok ((), d₁) ∧
      (∃ s ∈ d₁.storeRows, s.id = storeId ∧ s.name = name) ∧
      Logs d₁ d' ⟨revision, storeId, key, changePut, value.type⟩ ∧ d'.stores = d₁.stores ∧
      d₁.records = some rows ∧
      d'.records = some (upsert RecordRow.primaryKey
        ⟨storeId, key, value.type, .blob value.payload, revision⟩ rows) ∧
      d'.written = d₁.written ++ [⟨storeId, key, value.type, .blob value.payload, revision⟩] := by
  unfold putBody getStoreId at h
  rw [if_pos rfl] at h
  obtain ⟨storeId, d₁', h₁, h⟩ := Transactional.Query.denote_bind_ok.mp h
  obtain ⟨_, d₁, h₀, h₁⟩ := Transactional.Query.denote_bind_ok.mp h₁
  rw [denote_statement] at h₀
  obtain ⟨rfl, hid⟩ := findStoreId_denote h₁
  obtain ⟨rev, d₂, h₂, h⟩ := Transactional.Query.denote_bind_ok.mp h
  obtain ⟨changes, hc, hn, rfl⟩ := insertChange_denote h₂
  obtain ⟨_, d₃, h₃, h⟩ := Transactional.Query.denote_bind_ok.mp h
  rw [denote_statement] at h₃
  obtain ⟨_, d₄, h₄, h⟩ := Transactional.Query.denote_bind_ok.mp h
  obtain ⟨metadata, hm, rfl⟩ := setStoreRevision_denote h₄
  cases h
  simp only [Sql.eval] at h₃
  cases hr : d₁'.records with
  | none => simp [hr] at h₃
  | some records =>
      simp only [hr, Except.ok.injEq, Prod.mk.injEq, true_and] at h₃
      subst h₃
      exact ⟨d₁', storeId, records, h₀, hid,
        ⟨⟨changes, hc, hn, rfl⟩, rfl, rfl, ⟨metadata, hm, rfl⟩, rfl, rfl⟩, rfl, hr, rfl, rfl⟩

theorem deleteBody_denote {storeId : ℤ} {key : Bytes} {revision : Option ℤ} {d d' : Tables}
    (h : (deleteBody storeId key).denote d = .ok (revision, d')) :
    ∃ rows, d.records = some rows ∧ match revision with
      | none => lookup RecordRow.primaryKey (storeId, key) rows = none ∧
          d' = { d with records := some (remove RecordRow.primaryKey (storeId, key) rows) }
      | some revision => (∃ r, lookup RecordRow.primaryKey (storeId, key) rows = some r) ∧
          Logs d d' ⟨revision, storeId, key, changeDelete, 0⟩ ∧ d'.stores = d.stores ∧
          d'.records = some (remove RecordRow.primaryKey (storeId, key) rows) ∧
          d'.written = d.written := by
  unfold deleteBody at h
  obtain ⟨deleted, d₁, h₁, h⟩ := Transactional.Query.denote_bind_ok.mp h
  rw [denote_statement] at h₁
  simp only [Sql.eval] at h₁
  cases hr : d.records with
  | none => simp [hr] at h₁
  | some rows =>
      simp only [hr, Except.ok.injEq, Prod.mk.injEq] at h₁
      obtain ⟨rfl, rfl⟩ := h₁
      refine ⟨rows, rfl, ?_⟩
      cases hl : lookup RecordRow.primaryKey (storeId, key) rows with
      | none =>
          rw [hl] at h
          cases h
          exact ⟨rfl, rfl⟩
      | some r =>
          rw [hl] at h
          simp only [Option.isSome_some, Bool.not_true, Bool.false_eq_true, if_false] at h
          obtain ⟨rev, d₂, h₂, h⟩ := Transactional.Query.denote_bind_ok.mp h
          obtain ⟨changes, hc, hn, rfl⟩ := insertChange_denote h₂
          obtain ⟨_, d₃, h₃, h⟩ := Transactional.Query.denote_bind_ok.mp h
          obtain ⟨metadata, hm, rfl⟩ := setStoreRevision_denote h₃
          cases h
          exact ⟨⟨r, rfl⟩, ⟨⟨changes, hc, hn, rfl⟩, rfl, rfl, ⟨metadata, hm, rfl⟩, rfl, rfl⟩,
            rfl, rfl, rfl⟩

theorem pruneChanges_eval {through : ℕ} {revisions : List ℤ} {d d' : Tables}
    (h : (Sql.pruneChanges through).eval d = .ok (revisions, d')) :
    ∃ rows, d.changes = some rows ∧
      revisions = (rows.filter fun c => c.revision ≤ (through : ℤ)).map ChangeRow.revision ∧
      d' = { d with
        changes := some (rows.filter fun c => (through : ℤ) < c.revision)
        pruned := max d.pruned (min (through : ℤ) d.sequenceValue) } := by
  simp only [Sql.eval] at h
  cases hm : d.changes with
  | none => simp [hm] at h
  | some rows =>
      simp only [hm, Except.ok.injEq, Prod.mk.injEq] at h
      exact ⟨rows, rfl, h.1.symm, h.2.symm⟩

end Esdb.ObjectStore
