import Esdb.PhysicalSnapshot
import Esdb.SchemaTokens

/-!
# The IR against a snapshot

`diffIrAgainstPhysical` of the physical schema model. Every fact of the IR is looked up in
the snapshot; what is missing or different is a mismatch, what the snapshot has besides is
reported as not modelled. Foreign keys, checks and indexes are compared with those of the
snapshot that the IR's own statements make. SQLite is a parameter: what it reports of a
database in which the statements have run.
-/
namespace Esdb.PhysicalSchema

open JsonText SqlText SqlTokens Schema

/-! ## Facts and reports -/

/-- The columns of a key by their names; an expression has none. -/
abbrev KeyNames := List (Option String)

structure IndexSemantic where
  unique : Bool
  isPartial : Bool
  columns : List IndexColumn
  expressionTerms : List Token
  filter : List Token
  deriving DecidableEq, Repr

/-- What a mismatch shows of the expected and of the actual schema. -/
inductive Fact where
  | text (value : String)
  | flag (value : Bool)
  | default (tokens : Option (List Token))
  | key (columns : KeyNames)
  | keys (keys : List KeyNames)
  | foreignKeys (keys : List PhysicalForeignKey)
  | checks (checks : List PhysicalCheck)
  | index (semantic : Option IndexSemantic)
  deriving DecidableEq, Repr

inductive Mismatch where
  | missingObject (object : String)
  | irSemantic (object path : String) (expected actual : Fact)
  deriving DecidableEq, Repr

inductive Detail where
  | text (value : String)
  | foreignKeys (keys : List PhysicalForeignKey)
  | checks (checks : List PhysicalCheck)
  | index (index : PhysicalIndex)
  | view (view : PhysicalView)
  | trigger (trigger : PhysicalTrigger)
  deriving DecidableEq, Repr

structure Unmodeled where
  kind : String
  object : String
  detail : Detail
  deriving DecidableEq, Repr

structure IrDiff where
  compatible : Bool
  mismatches : List Mismatch
  unmodeled : List Unmodeled
  deriving DecidableEq, Repr

/-- A mismatch, unless the facts agree. -/
def compare (agree : Bool) (object path : String) (expected actual : Fact) : List Mismatch :=
  if agree then [] else [.irSemantic object path expected actual]

theorem compare_eq_nil {agree : Bool} {object path : String} {expected actual : Fact} :
    compare agree object path expected actual = [] ↔ agree = true := by
  unfold compare
  split_ifs with h <;> simp [h]

/-- Whether the canonical texts are the same. -/
def sameCanonical (left right : Json Empty) : Bool :=
  (CanonicalJson.canonicalize left).toOption = (CanonicalJson.canonicalize right).toOption

theorem sameCanonical_self (value : Json Empty) : sameCanonical value value = true :=
  decide_eq_true rfl

/-! ## Looking things up -/

def physicalTable (snapshot : Snapshot) (name : String) : Option PhysicalTable :=
  snapshot.tables.find? fun table => table.name = normalizeIdentifier name

def physicalColumn (table : PhysicalTable) (name : String) : Option PhysicalColumn :=
  table.columns.find? fun column => column.name = normalizeIdentifier name

def physicalIndex (snapshot : Snapshot) (name : String) : Option PhysicalIndex :=
  snapshot.indexes.find? fun index => index.name = name

def keyColumns (index : AutomaticIndex) : KeyNames :=
  (index.columns.insertionSort fun a b => a.ordinal ≤ b.ordinal).map IndexColumn.column

def physicalUniqueKeys (snapshot : Snapshot) (table : PhysicalTable) : List KeyNames :=
  (table.automaticIndexes.filter fun index => index.unique && decide (index.origin ≠ "pk")).map
      keyColumns ++
    (snapshot.indexes.filter fun index => decide (index.table = table.name) && index.unique).map
      fun index => keyColumns index.toAutomaticIndex

def irDefaultTokens (table : Table) (column : Column) : Except String (Option (List Token)) :=
  match effectiveDefault table column with
  | none => .ok none
  | some literal =>
      match literalToSql literal with
      | none => .error "unsupported literal type"
      | some sql => (canonicalSqlTokens sql.toList).map some

/-- The terms between the parentheses after `ON`, and the predicate after them. -/
def indexDefinitionParts (definition : List Token) : List Token × List Token :=
  let rest :=
    if .keyword "on" ∈ definition then (definition.dropWhile (· ≠ .keyword "on")).tail
    else definition
  match rest.dropWhile (· ≠ opening) with
  | [] => ([], [])
  | _ :: ts =>
      let read := readExpression 1 ts
      (read.1.filter (· ≠ .keyword "asc"), (read.2.dropWhile (· ≠ .keyword "where")).tail)

def indexSemantic (index : PhysicalIndex) : IndexSemantic :=
  let definition := indexDefinitionParts index.definition
  let hasExpression := index.columns.any fun column => column.column.isNone
  ⟨index.unique, index.isPartial, index.columns, if hasExpression then definition.1 else [],
    definition.2⟩

def IndexSemantic.json (semantic : IndexSemantic) : Json Empty :=
  jsonObject [("unique", .bool semantic.unique), ("partial", .bool semantic.isPartial),
    ("columns", .arr (semantic.columns.map IndexColumn.json)),
    ("expression_terms", jsonTokens semantic.expressionTerms),
    ("where", jsonTokens semantic.filter)]

/-! ## The comparison -/

def diffColumn (table : TableDecl) (actualTable : PhysicalTable) (object : String)
    (column : Column) : Except String (List Mismatch) :=
  let columnName := normalizeIdentifier column.sqlName
  let object := s!"{object}.column:{columnName}"
  match physicalColumn actualTable columnName with
  | none => .ok [.missingObject object]
  | some actual =>
      let ordinal := ((table.primaryKey.idxOf? column.name).map (· + 1)).getD 0
      (irDefaultTokens table.toTable column).map fun expected =>
        compare (actual.affinity = column.type.name) object "$.affinity"
            (.text column.type.name) (.text actual.affinity) ++
          compare (actual.notNull = !column.nullable) object "$.not_null"
            (.flag !column.nullable) (.flag actual.notNull) ++
          compare (actual.primaryKeyOrdinal = ordinal) object "$.primary_key_ordinal"
            (.text (toString ordinal)) (.text (toString actual.primaryKeyOrdinal)) ++
          compare (sameCanonical (jsonOption jsonTokens actual.default)
              (jsonOption jsonTokens expected)) object "$.default"
            (.default expected) (.default actual.default) ++
          compare (!(decide (column.name ∈ table.autoincrement) &&
              decide (.keyword "autoincrement" ∉ actualTable.definition))) object
            "$.autoincrement" (.flag true) (.flag false)

/-- The columns of a declared key, by their SQL names. -/
def expectedKey (table : Table) (key : List String) : List String :=
  key.map fun name => normalizeIdentifier (columnSqlName table name)

def diffUniques (table : TableDecl) (object : String) (uniqueKeys : List KeyNames) :
    List Mismatch :=
  table.uniques.flatMap fun key =>
    let expected := (expectedKey table.toTable key).map some
    compare (uniqueKeys.contains expected) object "$.unique" (.key expected) (.keys uniqueKeys)

def diffForeignKeys (table : TableDecl) (object : String) (expectedTable : Option PhysicalTable)
    (actualTable : PhysicalTable) : List Mismatch :=
  if table.foreignKeys.isSome then
    let expected := (expectedTable.map PhysicalTable.foreignKeys).getD []
    compare (sameCanonical (.arr (expected.map PhysicalForeignKey.json))
        (.arr (actualTable.foreignKeys.map PhysicalForeignKey.json))) object "$.foreign_keys"
      (.foreignKeys expected) (.foreignKeys actualTable.foreignKeys)
  else []

def diffChecks (table : TableDecl) (object : String) (expectedTable : Option PhysicalTable)
    (actualTable : PhysicalTable) : List Mismatch :=
  if table.checks.isSome then
    let expected := (expectedTable.map fun t => physicalChecks t.definition).getD []
    let actual := physicalChecks actualTable.definition
    compare (sameCanonical (.arr (expected.map PhysicalCheck.json))
        (.arr (actual.map PhysicalCheck.json))) object "$.checks" (.checks expected)
      (.checks actual)
  else []

def diffIndex (expectedModeled actual : Snapshot) (index : Index) : List Mismatch :=
  let name := normalizeIdentifier index.name
  let object := s!"index:{name}"
  match physicalIndex actual name with
  | none => [.missingObject object]
  | some actualIndex =>
      let expected := (physicalIndex expectedModeled name).map indexSemantic
      let semantic := indexSemantic actualIndex
      compare (sameCanonical (jsonOption IndexSemantic.json expected) semantic.json) object "$"
        (.index expected) (.index (some semantic))

/-- What a found table has besides the IR's facts. -/
def unmodeledOfTable (table : TableDecl) (object : String) (actualTable : PhysicalTable) :
    List Unmodeled :=
  let expectedColumns := table.columns.map fun column => normalizeIdentifier column.sqlName
  let actualChecks := physicalChecks actualTable.definition
  ((actualTable.columns.filter fun column => !expectedColumns.contains column.name).map
      fun column => ⟨"column", s!"{object}.column:{column.name}",
        .text "not represented by IR"⟩) ++
    (if table.foreignKeys.isNone && !actualTable.foreignKeys.isEmpty then
      [⟨"foreign_keys", object, .foreignKeys actualTable.foreignKeys⟩] else []) ++
    (if table.checks.isNone && !actualChecks.isEmpty then
      [⟨"checks", object, .checks actualChecks⟩] else [])

def diffTable (expectedModeled actual : Snapshot) (table : TableDecl) :
    Except String (List Mismatch × List Unmodeled) :=
  let tableName := normalizeIdentifier table.sqlName
  let object := s!"table:{tableName}"
  match physicalTable actual tableName with
  | none => .ok ([.missingObject object], [])
  | some actualTable =>
      let expectedTable := physicalTable expectedModeled tableName
      (table.columns.mapM (diffColumn table actualTable object)).map fun columns =>
        (columns.flatten ++ diffUniques table object (physicalUniqueKeys actual actualTable) ++
            diffForeignKeys table object expectedTable actualTable ++
            diffChecks table object expectedTable actualTable ++
            (table.indexes.getD []).flatMap (diffIndex expectedModeled actual),
          unmodeledOfTable table object actualTable)

/-- What the snapshot has besides the tables and indexes of the IR. -/
def unmodeledObjects (ir : Declarations) (actual : Snapshot) : List Unmodeled :=
  let tableNames := ir.tables.map fun table => normalizeIdentifier table.sqlName
  let found := ir.tables.filter fun table => (physicalTable actual table.sqlName).isSome
  let indexNames := found.flatMap fun table =>
    (table.indexes.getD []).map fun index => normalizeIdentifier index.name
  ((actual.tables.filter fun table => !tableNames.contains table.name).map fun table =>
      ⟨"table", s!"table:{table.name}", .text "not represented by IR"⟩) ++
    ((actual.indexes.filter fun index => !indexNames.contains index.name).map fun index =>
      ⟨"index", s!"index:{index.name}", .index index⟩) ++
    (actual.views.map fun view => ⟨"view", s!"view:{view.name}", .view view⟩) ++
    actual.triggers.map fun trigger =>
      ⟨"trigger", s!"trigger:{trigger.name}", .trigger trigger⟩

section Sqlite

variable (sqlite : List String → Except String Catalogue)

/-- `snapshotIr`: the snapshot of a new database in which the statements have run. -/
def snapshotIr (ir : Declarations) : Except String Snapshot :=
  match emitSchemaSql ir with
  | none => .error "the schema cannot be emitted"
  | some sql => (sqlite sql).bind snapshotDatabase

def diffIrAgainstPhysical (ir : Declarations) (actual : Snapshot) : Except String IrDiff :=
  (snapshotIr sqlite ir).bind fun expectedModeled =>
    (ir.tables.mapM (diffTable expectedModeled actual)).map fun parts =>
      let mismatches := parts.flatMap Prod.fst
      ⟨mismatches.isEmpty, mismatches, parts.flatMap Prod.snd ++ unmodeledObjects ir actual⟩

end Sqlite

end Esdb.PhysicalSchema
