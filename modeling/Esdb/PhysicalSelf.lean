import Esdb.PhysicalUnique
import Esdb.SchemaContained

/-!
# The snapshot of the IR's own schema

A database that was made of the IR's statements is compared with the IR itself. What SQLite
reports of it is assumed: the columns and defaults as declared, one index for each key of a
constraint, none for a rowid. The comparison agrees, unless a table's name is hidden by the
pattern for SQLite's own tables, or a unique key is only kept by the primary key's index.
-/
namespace Esdb.PhysicalSchema

open JsonText SqlText SqlTokens Schema

/-! ## What SQLite makes of a schema -/

/-- A single integer key is the rowid, and has no index. -/
def isRowid (table : Table) : Bool :=
  match table.primaryKey with
  | [name] => (columnByName table name).any fun column => column.type = .integer
  | _ => false

/-- The keys that SQLite makes indexes for. -/
def constraintKeys (table : Table) : List (List String) :=
  (if isRowid table then [] else [table.primaryKey]) ++ table.uniques

/-- The columns of an index, as they are reported. -/
def reportedKey (db : Catalogue) (indexName : String) : KeyNames :=
  ((db.indexColumns indexName).filter IndexColumnRow.key).map IndexColumnRow.name

def sqlKey (table : Table) (key : List String) : KeyNames :=
  key.map fun name => some (columnSqlName table name)

def primaryKeyOrdinal (table : Table) (column : Column) : ℕ :=
  ((table.primaryKey.idxOf? column.name).map (· + 1)).getD 0

def columnRow (table : Table) (column : Column) : ColumnRow :=
  ⟨column.sqlName, sqlType column.type, !column.nullable,
    (effectiveDefault table column).bind literalToSql, primaryKeyOrdinal table column⟩

/-- The index that a key of a constraint has. -/
structure IsAutomatic (db : Catalogue) (table : Table) (key : List String) (row : IndexRow) :
    Prop where
  unique : row.unique = true
  origin : row.origin = if isRowid table = false ∧ key = table.primaryKey then "pk" else "u"
  columns : reportedKey db row.name = sqlKey table key

structure IsDeclared (index : Index) (row : IndexRow) : Prop where
  name : row.name = index.name
  unique : row.unique = index.unique
  origin : row.origin = "c"

/-- The row of a table keeps the statement that made it, without its end. -/
structure IsTable (ir : Declarations) (table : TableDecl) (row : SchemaRow) : Prop where
  type : row.type = "table"
  name : row.name = table.sqlName
  sql : ∃ sql, row.sql = some sql ∧ emitCreateTableSql ir table = some (sql ++ ";")

structure RealizesTable (db : Catalogue) (table : TableDecl) : Prop where
  columns : db.columns table.sqlName = table.columns.map (columnRow table.toTable)
  automatic : ∀ key ∈ constraintKeys table.toTable,
    ∃ row ∈ db.indexes table.sqlName, IsAutomatic db table.toTable key row
  declared : ∀ index ∈ table.indexes.getD [],
    ∃ row ∈ db.indexes table.sqlName, IsDeclared index row
  only : ∀ row ∈ db.indexes table.sqlName,
    (∃ key ∈ constraintKeys table.toTable, IsAutomatic db table.toTable key row) ∨
      ∃ index ∈ table.indexes.getD [], IsDeclared index row

/-- What SQLite reports of a database in which the statements of the IR have run. Its own
table counts the automatic keys; the statements that it keeps have no open quotes. -/
structure Realizes (ir : Declarations) (db : Catalogue) : Prop where
  tables : ∀ table ∈ ir.tables, ∃ row ∈ db.schema, IsTable ir table row
  rows : ∀ row ∈ db.schema, row.type = "index" ∨
    row.type = "table" ∧ (row.name = "sqlite_sequence" ∨ ∃ table ∈ ir.tables, IsTable ir table row)
  statements : ∀ row ∈ db.schema, ∀ sql, row.sql = some sql →
    ∃ ts, canonicalSqlTokens sql.toList = .ok ts
  ordered : ∀ name, (db.indexColumns name).Pairwise fun a b => a.seqno ≤ b.seqno
  table : ∀ table ∈ ir.tables, RealizesTable db table

/-! ## The rows of the snapshot -/

theorem normalizeIdentifier_eq (value : String) : normalizeIdentifier value = value.toLower := by
  have hlower : value.toLower = value.map Char.toLower := rfl
  rw [← String.toList_inj, normalizeIdentifier, String.toList_ofList, asciiLower, hlower,
    String.toList_map]

section Snapshot

variable {db : Catalogue} {snapshot : Snapshot}

theorem mem_snapshot (h : snapshotDatabase db = .ok snapshot) :
    (∀ t, t ∈ snapshot.tables ↔ ∃ row ∈ schemaRows db, ∃ part,
      readRow db (schemaRows db) row = .ok part ∧ t ∈ part.tables) ∧
    ∀ index, index ∈ snapshot.indexes ↔ ∃ row ∈ schemaRows db, ∃ part,
      readRow db (schemaRows db) row = .ok part ∧ index ∈ part.indexes := by
  unfold snapshotDatabase at h
  dsimp only at h
  cases hparts : (schemaRows db).mapM (readRow db (schemaRows db)) with
  | error e =>
      rw [hparts] at h
      cases h
  | ok parts =>
      rw [hparts] at h
      obtain rfl := Except.ok.inj h
      obtain ⟨hinto, honto⟩ := mapM_ok hparts
      have hmem {α : Type} (f : Snapshot → List α) (a : α) : (∃ part ∈ parts, a ∈ f part) ↔
          ∃ row ∈ schemaRows db, ∃ part, readRow db (schemaRows db) row = .ok part ∧ a ∈ f part := by
        constructor
        · rintro ⟨part, hpart, ha⟩
          obtain ⟨row, hrow, hread⟩ := honto part hpart
          exact ⟨row, hrow, part, hread, ha⟩
        · rintro ⟨row, hrow, part, hread, ha⟩
          obtain ⟨part', hpart, hread'⟩ := hinto row hrow
          obtain rfl := Except.ok.inj (hread.symm.trans hread')
          exact ⟨part, hpart, ha⟩
      exact ⟨fun t => mem_sortNames.trans (List.mem_flatMap.trans (hmem _ t)),
        fun index => mem_sortNames.trans (List.mem_flatMap.trans (hmem _ index))⟩

/-- The table that a row adds. -/
structure TableOf (db : Catalogue) (row : SchemaRow) (t : PhysicalTable) : Prop where
  name : t.name = normalizeIdentifier row.name
  columns : tableColumns db row.name = .ok t.columns
  automatic : ∀ index, index ∈ t.automaticIndexes ↔
    ∃ listed ∈ db.indexes row.name, isExplicit listed = false ∧ index = indexBase db listed
  definition : definitionTokens row.sql = .ok t.definition

theorem readRow_table {rows : List SchemaRow} {row : SchemaRow} (htype : row.type = "table")
    {part : Snapshot} (h : readRow db rows row = .ok part) :
    (∃ t, part.tables = [t] ∧ TableOf db row t) ∧
      ∀ index, index ∈ part.indexes ↔ ∃ listed ∈ db.indexes row.name,
        isExplicit listed = true ∧ explicitIndex db rows row.name listed = .ok index := by
  have hlower : normalizeIdentifier "table" = "table" := by decide +kernel
  unfold readRow at h
  dsimp only at h
  rw [htype, hlower, if_pos rfl] at h
  unfold indexesForTable at h
  dsimp only at h
  cases hexplicit : ((db.indexes row.name).filter isExplicit).mapM
      (explicitIndex db rows row.name) with
  | error e =>
      rw [hexplicit] at h
      cases h
  | ok explicit =>
      rw [hexplicit, Except.map, Except.bind] at h
      cases hcolumns : tableColumns db row.name with
      | error e =>
          rw [hcolumns] at h
          cases h
      | ok columns =>
          rw [hcolumns, Except.bind] at h
          cases hdefinition : definitionTokens row.sql with
          | error e =>
              rw [hdefinition] at h
              cases h
          | ok definition =>
              rw [hdefinition] at h
              obtain rfl := Except.ok.inj h
              obtain ⟨hinto, honto⟩ := mapM_ok hexplicit
              refine ⟨⟨_, rfl, rfl, hcolumns, fun index => (mem_sortCanonical _).trans ?_, hdefinition⟩,
                fun index => mem_sortNames.trans ?_⟩
              · rw [List.mem_map]
                constructor
                · rintro ⟨listed, hlisted, rfl⟩
                  obtain ⟨hmem, hexp⟩ := List.mem_filter.mp hlisted
                  exact ⟨listed, hmem, by simpa using hexp, rfl⟩
                · rintro ⟨listed, hmem, hexp, rfl⟩
                  exact ⟨listed, List.mem_filter.mpr ⟨hmem, by rw [hexp]; rfl⟩, rfl⟩
              · constructor
                · intro hindex
                  obtain ⟨listed, hlisted, hread⟩ := honto index hindex
                  obtain ⟨hmem, hexp⟩ := List.mem_filter.mp hlisted
                  exact ⟨listed, hmem, hexp, hread⟩
                · rintro ⟨listed, hmem, hexp, hread⟩
                  obtain ⟨index', hindex, hread'⟩ := hinto listed (List.mem_filter.mpr ⟨hmem, hexp⟩)
                  obtain rfl := Except.ok.inj (hread.symm.trans hread')
                  exact hindex

end Snapshot

end Esdb.PhysicalSchema
