import Esdb.PhysicalChecks
import Mathlib.Data.List.Infix

/-!
# Physical snapshots

`snapshotDatabase` of the physical schema model: the rows that SQLite reports about a
database, and the snapshot that is made of them. Names are taken in lower case, statements
and defaults as their tokens. The kinds of tables and the order of columns are left out;
nothing that compares a schema of the IR with a snapshot looks at them.
-/
namespace Esdb.PhysicalSchema

open JsonText SqlText SqlTokens

def normalizeIdentifier (value : String) : String := String.ofList (asciiLower value.toList)

/-! ## What SQLite reports -/

/-- A row of `sqlite_schema`. -/
structure SchemaRow where
  type : String
  name : String
  tableName : String
  sql : Option String

/-- A row of `pragma_table_xinfo`. -/
structure ColumnRow where
  name : String
  type : String
  notNull : Bool
  default : Option String
  pk : ℕ

/-- A row of `pragma_foreign_key_list`. -/
structure ForeignKeyRow where
  id : ℕ
  seq : ℕ
  table : String
  source : Option String
  target : Option String
  onUpdate : String
  onDelete : String
  matching : String

/-- A row of `pragma_index_list`. -/
structure IndexRow where
  name : String
  unique : Bool
  origin : String
  isPartial : Bool

/-- A row of `pragma_index_xinfo`. -/
structure IndexColumnRow where
  seqno : ℕ
  cid : ℤ
  name : Option String
  desc : Bool
  coll : Option String
  key : Bool

structure Catalogue where
  schema : List SchemaRow
  columns : String → List ColumnRow
  foreignKeys : String → List ForeignKeyRow
  indexes : String → List IndexRow
  indexColumns : String → List IndexColumnRow

/-! ## Snapshots -/

structure PhysicalColumn where
  name : String
  declaredType : List Token
  affinity : String
  notNull : Bool
  default : Option (List Token)
  primaryKeyOrdinal : ℕ
  deriving DecidableEq, Repr

structure ForeignKeyColumn where
  ordinal : ℕ
  source : Option String
  target : Option String
  deriving DecidableEq, Repr

structure PhysicalForeignKey where
  targetTable : String
  onUpdate : String
  onDelete : String
  matching : String
  columns : List ForeignKeyColumn
  deriving DecidableEq, Repr

/-- A column of an index; an expression has no name. -/
structure IndexColumn where
  ordinal : ℕ
  cid : ℤ
  column : Option String
  descending : Bool
  collation : Option String
  deriving DecidableEq, Repr

structure AutomaticIndex where
  unique : Bool
  isPartial : Bool
  origin : String
  columns : List IndexColumn
  deriving DecidableEq, Repr

structure PhysicalIndex extends AutomaticIndex where
  name : String
  table : String
  definition : List Token
  deriving DecidableEq, Repr

structure PhysicalTable where
  name : String
  columns : List PhysicalColumn
  foreignKeys : List PhysicalForeignKey
  automaticIndexes : List AutomaticIndex
  definition : List Token
  deriving DecidableEq, Repr

structure PhysicalView where
  name : String
  columns : List PhysicalColumn
  definition : List Token
  deriving DecidableEq, Repr

structure PhysicalTrigger where
  name : String
  table : String
  definition : List Token
  deriving DecidableEq, Repr

structure Snapshot where
  tables : List PhysicalTable
  indexes : List PhysicalIndex
  views : List PhysicalView
  triggers : List PhysicalTrigger
  deriving DecidableEq, Repr

/-! ## Their JSON -/

def jsonName (name : String) : Json Empty := jsonText name.toList

def jsonOption {α : Type} (json : α → Json Empty) (value : Option α) : Json Empty :=
  (value.map json).getD .null

def jsonObject (members : List (String × Json Empty)) : Json Empty :=
  .obj (members.map fun p => (utf16 p.1.toList, p.2))

def PhysicalForeignKey.json (key : PhysicalForeignKey) : Json Empty :=
  jsonObject [("target_table", jsonName key.targetTable), ("on_update", jsonName key.onUpdate),
    ("on_delete", jsonName key.onDelete), ("match", jsonName key.matching),
    ("columns", .arr (key.columns.map fun column => jsonObject [
      ("ordinal", jsonName (toString column.ordinal)),
      ("from", jsonOption jsonName column.source), ("to", jsonOption jsonName column.target)]))]

def IndexColumn.json (column : IndexColumn) : Json Empty :=
  jsonObject [("ordinal", jsonName (toString column.ordinal)),
    ("cid", jsonName (toString column.cid)), ("column", jsonOption jsonName column.column),
    ("descending", .bool column.descending), ("collation", jsonOption jsonName column.collation)]

def AutomaticIndex.json (index : AutomaticIndex) : Json Empty :=
  jsonObject [("unique", .bool index.unique), ("partial", .bool index.isPartial),
    ("origin", jsonName index.origin), ("columns", .arr (index.columns.map IndexColumn.json))]

/-! ## The snapshot of a database -/

/-- Whether `part` stands in the text, as `includes` says. -/
def includes (text : List Char) (part : String) : Bool := decide (part.toList <:+: text)

def sqliteAffinity (declaredType : String) : String :=
  let type := toUpperCase declaredType.toList
  if includes type "INT" then "integer"
  else if includes type "CHAR" || includes type "CLOB" || includes type "TEXT" then "text"
  else if type.isEmpty || includes type "BLOB" then "blob"
  else if includes type "REAL" || includes type "FLOA" || includes type "DOUB" then "real"
  else "numeric"

/-- `LIKE 'sqlite_%'`, where the underscore is any one character. -/
def likeSqlite (name : String) : Bool :=
  "sqlite".toList.isPrefixOf (asciiLower name.toList) && decide (7 ≤ name.toList.length)

def definitionTokens (sql : Option String) : Except String (List Token) :=
  match sql with
  | none => .ok []
  | some sql => canonicalSqlTokens sql.toList

def defaultTokens (sql : Option String) : Except String (Option (List Token)) :=
  match sql with
  | none => .ok none
  | some sql => (canonicalSqlTokens sql.toList).map some

def tableColumn (row : ColumnRow) : Except String PhysicalColumn :=
  (canonicalSqlTokens row.type.toList).bind fun declaredType =>
    (defaultTokens row.default).map fun default =>
      ⟨normalizeIdentifier row.name, declaredType, sqliteAffinity row.type, row.notNull, default,
        row.pk⟩

def tableColumns (db : Catalogue) (tableName : String) : Except String (List PhysicalColumn) :=
  (db.columns tableName).mapM tableColumn

def foreignKeyGroup (rows : List ForeignKeyRow) : Option PhysicalForeignKey :=
  rows.head?.map fun first =>
    ⟨normalizeIdentifier first.table, normalizeIdentifier first.onUpdate,
      normalizeIdentifier first.onDelete, normalizeIdentifier first.matching,
      rows.map fun row =>
        ⟨row.seq, row.source.map normalizeIdentifier, row.target.map normalizeIdentifier⟩⟩

/-- The rows of one id are one key. -/
def foreignKeys (db : Catalogue) (tableName : String) : List PhysicalForeignKey :=
  let rows := db.foreignKeys tableName
  sortCanonical PhysicalForeignKey.json ((rows.map ForeignKeyRow.id).eraseDups.filterMap fun id =>
    foreignKeyGroup (rows.filter fun row => row.id = id))

def indexKeyColumns (db : Catalogue) (indexName : String) : List IndexColumn :=
  ((db.indexColumns indexName).filter IndexColumnRow.key).map fun row =>
    ⟨row.seqno, row.cid, row.name.map normalizeIdentifier, row.desc,
      row.coll.map normalizeIdentifier⟩

def indexBase (db : Catalogue) (row : IndexRow) : AutomaticIndex :=
  ⟨row.unique, row.isPartial, normalizeIdentifier row.origin, indexKeyColumns db row.name⟩

/-- `schemaSqlByName`, in which the last row of a name stands. -/
def schemaSql (rows : List SchemaRow) (name : String) : Option String :=
  ((rows.filter fun row => normalizeIdentifier row.name = name).getLast?).bind SchemaRow.sql

def explicitIndex (db : Catalogue) (rows : List SchemaRow) (tableName : String) (row : IndexRow) :
    Except String PhysicalIndex :=
  (definitionTokens (schemaSql rows (normalizeIdentifier row.name))).map fun definition =>
    { indexBase db row with
      name := normalizeIdentifier row.name, table := normalizeIdentifier tableName
      definition := definition }

def isExplicit (row : IndexRow) : Bool := normalizeIdentifier row.origin = "c"

/-- The order of `a.name < b.name`. -/
def sortNames {α : Type} (name : α → String) (values : List α) : List α :=
  values.insertionSort fun a b => utf16 (name a).toList ≤ utf16 (name b).toList

theorem mem_sortNames {α : Type} {name : α → String} {values : List α} {a : α} :
    a ∈ sortNames name values ↔ a ∈ values := (List.perm_insertionSort _ _).mem_iff

/-- `indexesForTable`: the explicit indexes, then the automatic ones. -/
def indexesForTable (db : Catalogue) (rows : List SchemaRow) (tableName : String) :
    Except String (List PhysicalIndex × List AutomaticIndex) :=
  let listed := db.indexes tableName
  ((listed.filter isExplicit).mapM (explicitIndex db rows tableName)).map fun explicit =>
    (sortNames PhysicalIndex.name explicit, sortCanonical AutomaticIndex.json
      ((listed.filter fun row => !isExplicit row).map (indexBase db)))

/-- What one row of the schema adds. -/
def readRow (db : Catalogue) (rows : List SchemaRow) (row : SchemaRow) : Except String Snapshot :=
  let name := normalizeIdentifier row.name
  if normalizeIdentifier row.type = "table" then
    (indexesForTable db rows row.name).bind fun indexes =>
      (tableColumns db row.name).bind fun columns =>
        (definitionTokens row.sql).map fun definition =>
          ⟨[⟨name, columns, foreignKeys db row.name, indexes.2, definition⟩], indexes.1, [], []⟩
  else if normalizeIdentifier row.type = "view" then
    (tableColumns db row.name).bind fun columns =>
      (definitionTokens row.sql).map fun definition => ⟨[], [], [⟨name, columns, definition⟩], []⟩
  else if normalizeIdentifier row.type = "trigger" then
    (definitionTokens row.sql).map fun definition =>
      ⟨[], [], [], [⟨name, normalizeIdentifier row.tableName, definition⟩]⟩
  else .ok ⟨[], [], [], []⟩

/-- The rows of `schemaRows`. -/
def schemaRows (db : Catalogue) : List SchemaRow :=
  db.schema.filter fun row =>
    !likeSqlite row.name && ["table", "index", "view", "trigger"].contains row.type

def snapshotDatabase (db : Catalogue) : Except String Snapshot :=
  let rows := schemaRows db
  (rows.mapM (readRow db rows)).map fun parts =>
    ⟨sortNames PhysicalTable.name (parts.flatMap Snapshot.tables),
      sortNames PhysicalIndex.name (parts.flatMap Snapshot.indexes),
      sortNames PhysicalView.name (parts.flatMap Snapshot.views),
      sortNames PhysicalTrigger.name (parts.flatMap Snapshot.triggers)⟩

/-! ## What is in it -/

theorem mapM_ok {α β ε : Type} {f : α → Except ε β} {l : List α} {bs : List β}
    (h : l.mapM f = .ok bs) :
    (∀ a ∈ l, ∃ b ∈ bs, f a = .ok b) ∧ ∀ b ∈ bs, ∃ a ∈ l, f a = .ok b := by
  induction l generalizing bs with
  | nil =>
      obtain rfl := Except.ok.inj h
      exact ⟨fun a ha => absurd ha List.not_mem_nil, fun b hb => absurd hb List.not_mem_nil⟩
  | cons a l ih =>
      rw [List.mapM_cons] at h
      cases ha : f a with
      | error e =>
          rw [ha] at h
          cases h
      | ok b =>
          rw [ha] at h
          cases hl : l.mapM f with
          | error e =>
              rw [hl] at h
              cases h
          | ok bs' =>
              rw [hl] at h
              obtain rfl := Except.ok.inj h
              obtain ⟨hinto, honto⟩ := ih hl
              refine ⟨List.forall_mem_cons.mpr ⟨⟨b, List.mem_cons_self .., ha⟩, fun c hc => ?_⟩,
                List.forall_mem_cons.mpr ⟨⟨a, List.mem_cons_self .., ha⟩, fun d hd => ?_⟩⟩
              · obtain ⟨d, hd, hcd⟩ := hinto c hc
                exact ⟨d, List.mem_cons_of_mem _ hd, hcd⟩
              · obtain ⟨c, hc, hcd⟩ := honto d hd
                exact ⟨c, List.mem_cons_of_mem _ hc, hcd⟩

theorem mapM_of_ok {α β ε : Type} {f : α → Except ε β} {l : List α}
    (h : ∀ a ∈ l, ∃ b, f a = .ok b) : ∃ bs, l.mapM f = .ok bs := by
  induction l with
  | nil => exact ⟨[], rfl⟩
  | cons a l ih =>
      obtain ⟨⟨b, hb⟩, hl⟩ := List.forall_mem_cons.mp h
      obtain ⟨bs, hbs⟩ := ih hl
      exact ⟨b :: bs, by rw [List.mapM_cons, hb, hbs]; rfl⟩

end Esdb.PhysicalSchema
