import Esdb.KeyedRows
import Esdb.Runtime

/-!
# The four tables of the object store

Each statement the store issues is one constructor here, named for what it does,
with its effect on the tables as SQLite documents it. Rows of the change table
stand in rowid order, and `sequence` is that table's row in `sqlite_sequence`,
which exists once a table with `AUTOINCREMENT` does. Columns for times are left
out, and so is the index, which has no content of its own.

Four fields are not in the database: every change row ever inserted, every record
row ever written, the highest assigned revision that a prune has covered, and how
often the schema has been created. No statement reads them.
-/
namespace Esdb.ObjectStore

/-- A stored value by storage class. -/
inductive Cell where
  | null
  | integer (i : ℤ)
  | real
  | text (bytes : Bytes)
  | blob (bytes : Bytes)
  deriving DecidableEq, Repr

structure StoreRow where
  id : ℤ
  name : Bytes
  deriving DecidableEq, Repr

structure RecordRow where
  storeId : ℤ
  key : Bytes
  type : ℤ
  value : Cell
  revision : ℤ
  deriving DecidableEq, Repr

structure ChangeRow where
  revision : ℤ
  storeId : ℤ
  key : Bytes
  operation : ℤ
  valueType : ℤ
  deriving DecidableEq, Repr

structure Tables where
  metadata : Option (List (Bytes × Cell))
  stores : Option (List StoreRow)
  records : Option (List RecordRow)
  changes : Option (List ChangeRow)
  sequence : Option Cell
  log : List ChangeRow
  written : List RecordRow
  pruned : ℤ
  creations : ℕ
  deriving DecidableEq, Repr

namespace Tables

/-- A file the store has never been used on. -/
def empty : Tables := ⟨none, none, none, none, none, [], [], 0, 0⟩

/-- `SELECT COUNT(*) FROM sqlite_master` over the four names. -/
def tableCount (d : Tables) : ℕ :=
  (if d.metadata.isSome then 1 else 0) + (if d.stores.isSome then 1 else 0) +
    (if d.records.isSome then 1 else 0) + (if d.changes.isSome then 1 else 0)

end Tables

def RecordRow.primaryKey (r : RecordRow) : ℤ × Bytes := (r.storeId, r.key)

/-- `store_schema_version`. -/
def schemaVersionKey : Bytes :=
  [115, 116, 111, 114, 101, 95, 115, 99, 104, 101, 109, 97, 95, 118, 101, 114, 115, 105, 111, 110]

/-- `store_revision`. -/
def storeRevisionKey : Bytes :=
  [115, 116, 111, 114, 101, 95, 114, 101, 118, 105, 115, 105, 111, 110]

/-! ## Integers as text -/

def digit (n : ℕ) : UInt8 := UInt8.ofNat (48 + n)

/-- The decimal digits of `n` before `acc`; 64-bit integers have at most nineteen. -/
def decimalDigits : (fuel n : ℕ) → Bytes → Bytes
  | 0, _, acc => acc
  | fuel + 1, n, acc =>
      if n / 10 = 0 then digit n :: acc
      else decimalDigits fuel (n / 10) (digit (n % 10) :: acc)

/-- `CAST(?1 AS TEXT)` of a 64-bit integer. -/
def castText (i : ℤ) : Bytes :=
  if i < 0 then 45 :: decimalDigits 20 i.natAbs [] else decimalDigits 20 i.natAbs []

/-! ## Statements -/

inductive Sql where
  | tableCount
  | createMeta
  | createStores
  | createRecords
  | createChanges
  | createChangesIndex
  | insertMeta (key value : Bytes)
  | schemaVersion
  | revisionMetadata
  | setRevision (revision : ℤ)
  | registerStore (name : Bytes)
  | storeId (name : Bytes)
  | insertChange (storeId : ℤ) (key : Bytes) (operation valueType : ℤ)
  | upsertRecord (row : RecordRow)
  | deleteRecord (storeId : ℤ) (key : Bytes)
  | readRecord (name key : Bytes)
  | recordExists (name key : Bytes)
  | recordCount (name : Bytes)
  | scanRecords (name : Bytes) (after : Option Bytes) (limit : ℕ)
  | changesAfter (name : Option Bytes) (after limit : ℕ)
  | pruneChanges (through : ℕ)
  deriving DecidableEq, Repr

structure ChangeView where
  revision : ℤ
  operation : ℤ
  valueType : ℤ
  storeName : Bytes
  key : Bytes
  deriving DecidableEq, Repr

abbrev Sql.Row : Sql → Type
  | .tableCount => ℕ
  | .schemaVersion => Option Cell
  | .revisionMetadata => Option (Cell × Cell)
  | .storeId _ => Option ℤ
  | .insertChange .. => ℤ
  | .deleteRecord .. => Bool
  | .readRecord .. => Option (ℤ × Cell)
  | .recordExists .. => Bool
  | .recordCount _ => ℕ
  | .scanRecords .. => List RecordRow
  | .changesAfter .. => List ChangeView
  | .pruneChanges _ => List ℤ
  | _ => Unit

def Sql.writes : Sql → Bool
  | .tableCount | .schemaVersion | .revisionMetadata | .storeId _ | .readRecord .. |
    .recordExists .. | .recordCount _ | .scanRecords .. | .changesAfter .. => false
  | _ => true

/-- SQLite's answer to a statement on a table that does not exist, or to creating
one that does. -/
def schemaError : ℤ := Sqlite.error

def constraintError : ℤ := 19

def maxRowid : ℤ := 9223372036854775807

namespace Tables

def sequenceValue (d : Tables) : ℤ :=
  match d.sequence with
  | some (.integer i) => i
  | _ => 0

def lastRowid (rows : List ChangeRow) : ℤ :=
  match rows.getLast? with
  | none => 0
  | some row => row.revision

/-- The rowid `AUTOINCREMENT` assigns: above the last row and above every rowid
ever assigned, and none once the largest has been. -/
def nextRevision (d : Tables) (rows : List ChangeRow) : Option ℤ :=
  if d.sequenceValue = maxRowid ∨ maxRowid ≤ lastRowid rows then none
  else some (max (lastRowid rows + 1) (d.sequenceValue + 1))

/-- A rowid without `AUTOINCREMENT`: one more than the largest in the table. -/
def nextStoreId (rows : List StoreRow) : ℤ := rows.foldl (fun m row => max m row.id) 0 + 1

/-- `FROM __esdb_records r JOIN __esdb_stores s ON s.id=r.store_id WHERE s.name=?`. -/
def recordsOf (name : Bytes) (stores : List StoreRow) (records : List RecordRow) :
    List RecordRow :=
  records.filter fun r => stores.any fun s => s.id = r.storeId && s.name = name

/-- `FROM __esdb_object_changes c JOIN __esdb_stores s ON s.id=c.store_id`, one row. -/
def viewChange (stores : List StoreRow) (c : ChangeRow) : Option ChangeView :=
  (KeyedRows.lookup StoreRow.id c.storeId stores).map fun s =>
    ⟨c.revision, c.operation, c.valueType, s.name, c.key⟩

def viewChanges (name : Option Bytes) (after limit : ℕ) (stores : List StoreRow)
    (changes : List ChangeRow) : List ChangeView :=
  (((changes.filter fun c => (after : ℤ) < c.revision).filterMap (viewChange stores)).filter
    fun v => match name with
      | none => true
      | some name => v.storeName = name).take limit

end Tables

open KeyedRows

/-- The effect of one statement. -/
def Sql.eval : (s : Sql) → Tables → Except ℤ (s.Row × Tables)
  | .tableCount, d => .ok (d.tableCount, d)
  | .createMeta, d =>
      match d.metadata with
      | some _ => .error schemaError
      | none => .ok ((), { d with metadata := some [], creations := d.creations + 1 })
  | .createStores, d =>
      match d.stores with
      | some _ => .error schemaError
      | none => .ok ((), { d with stores := some [] })
  | .createRecords, d =>
      match d.records with
      | some _ => .error schemaError
      | none => .ok ((), { d with records := some [] })
  | .createChanges, d =>
      match d.changes with
      | some _ => .error schemaError
      | none => .ok ((), { d with changes := some [] })
  | .createChangesIndex, d =>
      match d.changes with
      | none => .error schemaError
      | some _ => .ok ((), d)
  | .insertMeta key value, d =>
      match d.metadata with
      | none => .error schemaError
      | some rows =>
          match lookup Prod.fst key rows with
          | some _ => .error constraintError
          | none => .ok ((), { d with metadata := some (rows ++ [(key, .text value)]) })
  | .schemaVersion, d =>
      match d.metadata with
      | none => .error schemaError
      | some rows => .ok ((lookup Prod.fst schemaVersionKey rows).map Prod.snd, d)
  | .revisionMetadata, d =>
      match d.metadata, d.changes with
      | some rows, some _ =>
          let sequence := match d.sequence with
            | none | some .null => Cell.integer 0
            | some c => c
          .ok ((lookup Prod.fst storeRevisionKey rows).map fun row => (row.2, sequence), d)
      | _, _ => .error schemaError
  | .setRevision revision, d =>
      match d.metadata with
      | none => .error schemaError
      | some rows =>
          .ok ((), { d with
            metadata := some (upsert Prod.fst (storeRevisionKey, .text (castText revision)) rows) })
  | .registerStore name, d =>
      match d.stores with
      | none => .error schemaError
      | some rows =>
          match lookup StoreRow.name name rows with
          | some _ => .ok ((), d)
          | none =>
              if maxRowid < Tables.nextStoreId rows then .error Sqlite.full
              else .ok ((), { d with stores := some (rows ++ [⟨Tables.nextStoreId rows, name⟩]) })
  | .storeId name, d =>
      match d.stores with
      | none => .error schemaError
      | some rows => .ok ((lookup StoreRow.name name rows).map StoreRow.id, d)
  | .insertChange store key operation valueType, d =>
      match d.changes with
      | none => .error schemaError
      | some rows =>
          match d.nextRevision rows with
          | none => .error Sqlite.full
          | some revision =>
              let row := ⟨revision, store, key, operation, valueType⟩
              .ok (revision, { d with
                changes := some (rows ++ [row])
                sequence := some (.integer revision)
                log := d.log ++ [row] })
  | .upsertRecord row, d =>
      match d.records with
      | none => .error schemaError
      | some rows =>
          .ok ((), { d with
            records := some (upsert RecordRow.primaryKey row rows)
            written := d.written ++ [row] })
  | .deleteRecord store key, d =>
      match d.records with
      | none => .error schemaError
      | some rows =>
          .ok ((lookup RecordRow.primaryKey (store, key) rows).isSome,
            { d with records := some (remove RecordRow.primaryKey (store, key) rows) })
  | .readRecord name key, d =>
      match d.stores, d.records with
      | some stores, some records =>
          .ok (((Tables.recordsOf name stores records).find? (·.key = key)).map
            fun r => (r.type, r.value), d)
      | _, _ => .error schemaError
  | .recordExists name key, d =>
      match d.stores, d.records with
      | some stores, some records =>
          .ok ((Tables.recordsOf name stores records).any (·.key = key), d)
      | _, _ => .error schemaError
  | .recordCount name, d =>
      match d.stores, d.records with
      | some stores, some records => .ok ((Tables.recordsOf name stores records).length, d)
      | _, _ => .error schemaError
  | .scanRecords name after limit, d =>
      match d.stores, d.records with
      | some stores, some records =>
          let rows := (Tables.recordsOf name stores records).filter fun r =>
            match after with
            | none => true
            | some after => byteLess after r.key
          .ok ((rows.mergeSort fun a b => !byteLess b.key a.key).take limit, d)
      | _, _ => .error schemaError
  | .changesAfter name after limit, d =>
      match d.stores, d.changes with
      | some stores, some changes =>
          .ok (Tables.viewChanges name after limit stores changes, d)
      | _, _ => .error schemaError
  | .pruneChanges through, d =>
      match d.changes with
      | none => .error schemaError
      | some rows =>
          .ok ((rows.filter fun c => c.revision ≤ (through : ℤ)).map ChangeRow.revision,
            { d with
              changes := some (rows.filter fun c => (through : ℤ) < c.revision)
              pruned := max d.pruned (min (through : ℤ) d.sequenceValue) })

/-! ## The four tables together -/

namespace Tables

/-- The four tables exist. -/
structure Complete (d : Tables) : Prop where
  metadata : d.metadata.isSome
  stores : d.stores.isSome
  records : d.records.isSome
  changes : d.changes.isSome

theorem complete_iff_tableCount {d : Tables} : d.Complete ↔ d.tableCount = 4 := by
  constructor
  · rintro ⟨h₁, h₂, h₃, h₄⟩
    simp [tableCount, h₁, h₂, h₃, h₄]
  · intro h
    unfold tableCount at h
    split_ifs at h with h₁ h₂ h₃ h₄ <;> first | exact ⟨h₁, h₂, h₃, h₄⟩ | omega

instance (d : Tables) : Decidable d.Complete := decidable_of_iff _ complete_iff_tableCount.symm

end Tables

def Sql.creates : Sql → Bool
  | .createMeta | .createStores | .createRecords | .createChanges => true
  | _ => false

/-- No statement drops a table. -/
theorem Sql.eval_complete {s : Sql} {d d' : Tables} {r : s.Row} (h : s.eval d = .ok (r, d'))
    (hd : d.Complete) : d'.Complete := by
  obtain ⟨h₁, h₂, h₃, h₄⟩ := hd
  obtain ⟨metadata, hm⟩ := Option.isSome_iff_exists.mp h₁
  obtain ⟨stores, hs⟩ := Option.isSome_iff_exists.mp h₂
  obtain ⟨records, hr⟩ := Option.isSome_iff_exists.mp h₃
  obtain ⟨changes, hc⟩ := Option.isSome_iff_exists.mp h₄
  cases s <;> simp only [Sql.eval, hm, hs, hr, hc, reduceCtorEq] at h <;> (try split at h) <;>
    (try split_ifs at h) <;>
    simp only [Except.ok.injEq, Prod.mk.injEq, reduceCtorEq] at h <;>
    obtain ⟨-, rfl⟩ := h <;> constructor <;> simp_all

/-- With the tables there, only creating them again meets a schema error. -/
theorem Sql.eval_ne_schemaError {s : Sql} {d : Tables} (hd : d.Complete) (hs : s.creates = false) :
    s.eval d ≠ .error schemaError := by
  obtain ⟨h₁, h₂, h₃, h₄⟩ := hd
  obtain ⟨metadata, hm⟩ := Option.isSome_iff_exists.mp h₁
  obtain ⟨stores, hst⟩ := Option.isSome_iff_exists.mp h₂
  obtain ⟨records, hr⟩ := Option.isSome_iff_exists.mp h₃
  obtain ⟨changes, hc⟩ := Option.isSome_iff_exists.mp h₄
  cases s <;> simp only [Sql.creates, Bool.true_eq_false] at hs <;>
    simp only [Sql.eval, hm, hst, hr, hc] <;> (try split) <;> (try split_ifs) <;>
    simp [schemaError, constraintError, Sqlite.error, Sqlite.full]

theorem Sql.eval_reads {s : Sql} {d d' : Tables} {r : s.Row} (hw : s.writes = false)
    (h : s.eval d = .ok (r, d')) : d' = d := by
  cases s <;> simp only [Sql.writes, Bool.true_eq_false] at hw <;> simp only [Sql.eval] at h <;>
    (try split at h) <;> simp_all

/-- The statements of the object store. -/
abbrev dialect : Dialect where
  Stmt := Sql
  Row := Sql.Row
  Content := Tables
  writes := Sql.writes
  eval := Sql.eval
  eval_reads := Sql.eval_reads
  decContent := inferInstance

end Esdb.ObjectStore
