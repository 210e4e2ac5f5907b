import Esdb.SchemaSql
import Esdb.SqlTokens
import Mathlib.Algebra.GroupWithZero.Nat
import Mathlib.Data.List.Infix

/-!
# Declarations and their DDL

What a table of the IR declares beyond its columns and keys, what the validation demands
of it, and the statements that create the tables and indexes. The diagnostics here are
those of the declarations; with the ones of the document they accept or refuse it. The
order of declarations and the finiteness of real defaults are not looked at.
-/
namespace Esdb.Schema

open SqlTokens (isReservedWord)

structure ForeignKey where
  name : String
  columns : List String
  refTable : String
  refColumns : List String
  onUpdate : String
  onDelete : String
  deriving DecidableEq, Repr

structure Check where
  name : String
  sql : String
  deriving DecidableEq, Repr

inductive IndexTerm where
  | column (column : String) (direction : Direction)
  | expression (sql : String)
  deriving DecidableEq, Repr

structure Index where
  name : String
  unique : Bool
  terms : List IndexTerm
  /-- The predicate of a partial index. -/
  filter : Option String
  deriving DecidableEq, Repr

/-- The columns with `autoincrement` are named. -/
structure TableDecl extends Table where
  autoincrement : List String
  foreignKeys : Option (List ForeignKey)
  checks : Option (List Check)
  indexes : Option (List Index)
  deriving DecidableEq, Repr

structure Declarations where
  tables : List TableDecl
  queries : List Query

def Declarations.document (doc : Declarations) : Document :=
  ⟨doc.tables.map TableDecl.toTable, doc.queries⟩

/-! ## Names and literals -/

def hasReservedPrefix (value : String) : Bool :=
  ["sqlite_", "__esdb_"].any fun start => start.toList.isPrefixOf value.toLower.toList

def checkSqlIdentifier (value path label : String) : List Diagnostic :=
  demand (!hasReservedPrefix value) "IR032" path
    s!"{label} \"{value}\" uses reserved sqlite_/__esdb_ prefix"

def checkReserved (value path label : String) : List Diagnostic :=
  demand (!isReservedWord value.toList) "IR028" path
    s!"{label} \"{value}\" is a reserved SQL word"

def isCanonicalInteger : List Char → Bool
  | ['0'] => true
  | c :: s => c.isDigit && c ≠ '0' && s.all Char.isDigit
  | [] => false

def withoutMinus : List Char → List Char
  | '-' :: s => s
  | s => s

def decimalValue (digits : List Char) : ℕ :=
  digits.foldl (fun n c => n * 10 + (c.toNat - '0'.toNat)) 0

/-- `INT64_RE` and `int64InRange`. -/
def isInt64 (value : List Char) : Bool :=
  isCanonicalInteger (withoutMinus value) && value ≠ ['-', '0'] &&
    decimalValue (withoutMinus value) ≤
      if value.head? = some '-' then 9223372036854775808 else 9223372036854775807

def isDigits (s : List Char) : Bool := !s.isEmpty && s.all Char.isDigit

/-- `([eE][+-]?[0-9]+)?` to the end. -/
def isExponent : List Char → Bool
  | [] => true
  | e :: s =>
      (e = 'e' || e = 'E') &&
        match s with
        | '+' :: digits => isDigits digits
        | '-' :: digits => isDigits digits
        | digits => isDigits digits

/-- `(\.[0-9]+)?` and an exponent. -/
def isFraction : List Char → Bool
  | '.' :: s => isDigits (s.takeWhile Char.isDigit) && isExponent (s.dropWhile Char.isDigit)
  | s => isExponent s

/-- `REAL_RE`. -/
def isReal (value : List Char) : Bool :=
  isCanonicalInteger ((withoutMinus value).takeWhile Char.isDigit) &&
    isFraction ((withoutMinus value).dropWhile Char.isDigit)

/-- `BLOB_RE`. -/
def isBlob : List Char → Bool
  | [] => true
  | a :: b :: s =>
      "0123456789ABCDEF".toList.contains a && "0123456789ABCDEF".toList.contains b && isBlob s
  | [_] => false

def checkLiteral (literal : Literal) (column : Column) (path : String) : List Diagnostic :=
  if literal.type ∉ ["integer", "text", "real", "blob", "null"] then
    [⟨"IR016", s!"{path}.type", "default type must be one of integer, text, real, blob, null"⟩]
  else if literal.type ≠ "null" ∧ literal.type ≠ column.type.name then
    [⟨"IR016", s!"{path}.type",
      s!"default type \"{literal.type}\" does not match column type \"{column.type.name}\""⟩]
  else if literal.type = "null" then
    demand column.nullable "IR016" path "NOT NULL columns may not declare DEFAULT NULL" ++
      demand (literal.value = "") "IR016" s!"{path}.value" "null default value must be \"\""
  else
    match column.type with
    | .integer =>
        demand (isInt64 literal.value.toList) "IR016" s!"{path}.value"
          "integer default must be a canonical signed 64-bit decimal"
    | .real =>
        demand (isReal literal.value.toList) "IR016" s!"{path}.value"
          "real default must be a finite canonical decimal token"
    | .blob =>
        demand (isBlob literal.value.toList) "IR016" s!"{path}.value"
          "blob default must be uppercase even-length hex"
    | .text =>
        demand (Char.ofNat 0 ∉ literal.value.toList) "IR016" s!"{path}.value"
          "text default may not contain NUL"

/-! ## Fragments -/

/-- The length of a text in UTF-16 units. -/
def utf16Length (value : List Char) : ℕ :=
  (value.map fun c => if c.toNat ≤ 0xFFFF then 1 else 2).sum

/-- No separator, NUL or placeholder, and none of the three comment marks. -/
def isStaticSql (value : List Char) : Bool :=
  value.all (fun c => c ≠ ';' && c ≠ Char.ofNat 0 && c ≠ '?') &&
    ["--", "/*", "*/"].all fun mark => !decide (mark.toList <:+: value)

def checkStaticSqlExpression (value path label : String) : List Diagnostic :=
  if value.toList = [] then
    [⟨"IR034", path, s!"{label} must be a non-empty SQL expression string"⟩]
  else
    demand (utf16Length value.toList ≤ 8192) "IR034" path
        s!"{label} exceeds the 8192-byte IR v1 expression limit" ++
      demand (isStaticSql value.toList) "IR034" path
        (label ++ " may not contain statement separators, comments, NULs, or bind placeholders")

/-! ## Columns and their defaults -/

def checkColumnDecl (table : TableDecl) (path : String) (column : Column) : List Diagnostic :=
  checkReserved column.sqlName s!"{path}.sql_name" "column sql_name" ++
    checkSqlIdentifier column.sqlName s!"{path}.sql_name" "column sql_name" ++
    (if column.name ∈ table.autoincrement then
      if !column.primaryKey || column.type ≠ .integer then
        [⟨"IR013", s!"{path}.autoincrement",
          "autoincrement is only valid on a single-column integer primary key"⟩]
      else
        demand (table.primaryKey = [column.name]) "IR013" s!"{path}.autoincrement"
          "autoincrement requires the table primary key to be exactly this column"
    else []) ++
    match column.default with
    | none => []
    | some literal => checkLiteral literal column s!"{path}.default"

def checkDefault (table : Table) (path : String) (entry : String × Literal) : List Diagnostic :=
  let path := s!"{path}.defaults.{entry.1}"
  match columnByName table entry.1 with
  | none => [⟨"IR016", path, s!"unknown column \"{entry.1}\" in defaults"⟩]
  | some column =>
      if column.default.isSome then
        [⟨"IR016", path,
          s!"column \"{entry.1}\" declares a default in both the column and the defaults map"⟩]
      else checkLiteral entry.2 column path

/-! ## Foreign keys, checks and indexes -/

def foreignKeyActions : List String :=
  ["no action", "restrict", "cascade", "set null", "set default"]

def checkForeignKey (table : TableDecl) (keys : List ForeignKey) (path : String) (i : ℕ)
    (key : ForeignKey) : List Diagnostic :=
  let path := s!"{path}.foreign_keys[{i}]"
  let action (field value : String) := demand (value ∈ foreignKeyActions) "IR035"
    s!"{path}.{field}"
    s!"{field} must be one of no action, restrict, cascade, set null, set default"
  demand (isIdentifier key.name) "IR035" s!"{path}.name"
      "foreign-key name must be an identifier" ++
    checkSqlIdentifier key.name s!"{path}.name" "foreign-key name" ++
    demand (!seenBefore (fun k => k.name.toLower) keys i key) "IR035" s!"{path}.name"
      s!"duplicate foreign-key name \"{key.name}\"" ++
    (if key.columns.isEmpty then
      [⟨"IR035", s!"{path}.columns", "foreign-key columns must be a non-empty array"⟩]
    else
      eachIdx key.columns fun j name =>
        demand (isIdentifier name && hasColumn table.columns name) "IR035"
            s!"{path}.columns[{j}]" s!"unknown foreign-key column \"{name}\"" ++
          demand (!seenBefore id key.columns j name) "IR035" s!"{path}.columns[{j}]"
            s!"duplicate foreign-key column \"{name}\"") ++
    demand (isIdentifier key.refTable) "IR035" s!"{path}.references.table"
      "referenced table must be a logical table identifier" ++
    (if key.refColumns.isEmpty then
      [⟨"IR035", s!"{path}.references.columns", "referenced columns must be a non-empty array"⟩]
    else
      demand (key.refColumns.length = key.columns.length) "IR035" s!"{path}.references.columns"
        "foreign-key local and referenced column counts must match") ++
    action "on_update" key.onUpdate ++ action "on_delete" key.onDelete

def checkCheck (checks : List Check) (path : String) (i : ℕ) (check : Check) : List Diagnostic :=
  let path := s!"{path}.checks[{i}]"
  demand (isIdentifier check.name) "IR036" s!"{path}.name" "check name must be an identifier" ++
    checkSqlIdentifier check.name s!"{path}.name" "check name" ++
    demand (!seenBefore (fun c => c.name.toLower) checks i check) "IR036" s!"{path}.name"
      s!"duplicate check name \"{check.name}\"" ++
    checkStaticSqlExpression check.sql s!"{path}.sql" "check expression"

def checkIndexTerm (table : TableDecl) (path : String) (term : IndexTerm) : List Diagnostic :=
  match term with
  | .column column _ =>
      demand (isIdentifier column && hasColumn table.columns column) "IR037" s!"{path}.column"
        s!"unknown index column \"{column}\""
  | .expression sql => checkStaticSqlExpression sql s!"{path}.sql" "index expression"

def checkIndex (table : TableDecl) (indexes : List Index) (path : String) (i : ℕ)
    (index : Index) : List Diagnostic :=
  let path := s!"{path}.indexes[{i}]"
  demand (isIdentifier index.name) "IR037" s!"{path}.name" "index name must be an identifier" ++
    checkSqlIdentifier index.name s!"{path}.name" "index name" ++
    checkReserved index.name s!"{path}.name" "index name" ++
    demand (!seenBefore (fun j => j.name.toLower) indexes i index) "IR037" s!"{path}.name"
      s!"duplicate index name \"{index.name}\"" ++
    (if index.terms.isEmpty then
      [⟨"IR037", s!"{path}.terms", "index terms must be a non-empty array"⟩]
    else eachIdx index.terms fun j term => checkIndexTerm table s!"{path}.terms[{j}]" term) ++
    match index.filter with
    | none => []
    | some filter => checkStaticSqlExpression filter s!"{path}.where" "partial-index predicate"

def checkTableDecl (i : ℕ) (table : TableDecl) : List Diagnostic :=
  let path := s!"$.tables[{i}]"
  checkReserved table.sqlName s!"{path}.sql_name" "table sql_name" ++
    checkSqlIdentifier table.sqlName s!"{path}.sql_name" "table sql_name" ++
    eachIdx table.columns (fun j column => checkColumnDecl table s!"{path}.columns[{j}]" column) ++
    table.defaults.flatMap (checkDefault table.toTable path) ++
    eachIdx (table.foreignKeys.getD []) (checkForeignKey table (table.foreignKeys.getD []) path) ++
    eachIdx (table.checks.getD []) (checkCheck (table.checks.getD []) path) ++
    eachIdx (table.indexes.getD []) (checkIndex table (table.indexes.getD []) path)

/-! ## The schema as a whole -/

/-- The names of indexes, `seen` being the names of tables and of the indexes before. -/
def checkIndexNames (seen : List (String × String)) : List (String × Index) → List Diagnostic
  | [] => []
  | (path, index) :: rest =>
      match seen.lookup index.name.toLower with
      | some prior =>
          ⟨"IR037", s!"{path}.name",
            s!"SQLite schema object name \"{index.name}\" collides with {prior}"⟩ ::
            checkIndexNames seen rest
      | none =>
          checkIndexNames ((index.name.toLower, s!"index:{index.name}") :: seen) rest

/-- The columns of an index all of whose terms are columns. -/
def Index.columnKey (index : Index) : Option (List String) :=
  index.terms.mapM fun term =>
    match term with
    | .column column _ => some column
    | .expression _ => none

def checkPlainUnique (table : TableDecl) (path : String) (index : Index) : List Diagnostic :=
  if index.unique ∧ index.filter = none then
    match index.columnKey with
    | none => []
    | some key =>
        let keyText := ", ".intercalate key
        demand (key ∈ table.uniques) "IR037" path
          s!"plain unique index [{keyText}] must also appear in table.uniques"
  else []

def checkReference (doc : Declarations) (table : TableDecl) (path : String) (key : ForeignKey) :
    List Diagnostic :=
  match tableByName doc.document key.refTable with
  | none =>
      [⟨"IR038", s!"{path}.references.table", s!"unknown referenced table \"{key.refTable}\""⟩]
  | some target =>
      eachIdx key.refColumns (fun j name =>
        demand (hasColumn target.columns name) "IR038" s!"{path}.references.columns[{j}]"
          s!"unknown referenced column \"{name}\"") ++
      demand (key.refColumns.isEmpty || (target.primaryKey :: target.uniques).any fun candidate =>
          candidate = key.refColumns) "IR038" s!"{path}.references.columns"
        "referenced columns must exactly match the target primary key or a declared unique key" ++
      if key.columns.length ≠ key.refColumns.length then [] else
      eachIdx (key.columns.zip key.refColumns) fun j names =>
        match columnByName table.toTable names.1 with
        | none => []
        | some column =>
            let path := s!"{path}.columns[{j}]"
            (match columnByName target names.2 with
            | none => []
            | some other =>
                demand (column.type = other.type) "IR038" path
                  s!"foreign-key type {column.type.name} does not match referenced {other.type.name}") ++
            demand ((key.onUpdate ≠ "set null" && key.onDelete ≠ "set null") || column.nullable)
              "IR038" path s!"SET NULL requires nullable child column \"{column.name}\"" ++
            demand ((key.onUpdate ≠ "set default" && key.onDelete ≠ "set default") ||
                (effectiveDefault table.toTable column).isSome) "IR038" path
              s!"SET DEFAULT requires a default on child column \"{column.name}\""

def checkRelationalSchema (doc : Declarations) : List Diagnostic :=
  let names := doc.tables.map fun table => (table.sqlName.toLower, s!"table:{table.name}")
  let indexes := doc.tables.zipIdx.flatMap fun p =>
    (p.1.indexes.getD []).zipIdx.map fun q => (s!"$.tables[{p.2}].indexes[{q.2}]", q.1)
  checkIndexNames names indexes ++
    eachIdx doc.tables fun i table =>
      eachIdx (table.indexes.getD []) (fun j index =>
        checkPlainUnique table s!"$.tables[{i}].indexes[{j}]" index) ++
      eachIdx (table.foreignKeys.getD []) fun j key =>
        checkReference doc table s!"$.tables[{i}].foreign_keys[{j}]" key

/-- `validateDocument` with the declarations. -/
def validateDeclarations (doc : Declarations) : List Diagnostic :=
  validateDocument doc.document ++ eachIdx doc.tables checkTableDecl ++ checkRelationalSchema doc

/-! ## Emission -/

def sqlType : ScalarType → String
  | .integer => "INTEGER"
  | .text => "TEXT"
  | .real => "REAL"
  | .blob => "BLOB"

def literalToSql (literal : Literal) : Option String :=
  if literal.type = "integer" ∨ literal.type = "real" then some literal.value
  else if literal.type = "text" then
    some ("'" ++ String.ofList (SqlText.escape '\'' literal.value.toList) ++ "'")
  else if literal.type = "blob" then some ("X'" ++ literal.value ++ "'")
  else if literal.type = "null" then some "NULL"
  else none

def defaultSql (table : Table) (column : Column) : Option String :=
  match effectiveDefault table column with
  | none => some ""
  | some literal => (literalToSql literal).map fun sql => " DEFAULT " ++ sql

def columnSql (table : TableDecl) (column : Column) : Option String :=
  (defaultSql table.toTable column).map fun default =>
    s!"  {quoteIdentifier column.sqlName} {sqlType column.type}" ++
      (if column.name ∈ table.autoincrement then " PRIMARY KEY AUTOINCREMENT" else "") ++
      (if column.nullable then "" else " NOT NULL") ++ default

def quotedNames (table : Table) (names : List String) : Option (List String) :=
  names.mapM fun name => (columnByName table name).map fun column =>
    quoteIdentifier column.sqlName

/-- The primary key is declared with its column where that is an autoincrement. -/
def singleAutoincrement (table : TableDecl) : Bool :=
  match table.primaryKey with
  | [name] => hasColumn table.columns name && decide (name ∈ table.autoincrement)
  | _ => false

def primaryKeySql (table : TableDecl) : Option (List String) :=
  if singleAutoincrement table then some []
  else (quotedNames table.toTable table.primaryKey).map fun columns =>
    let columns := ", ".intercalate columns
    [s!"  PRIMARY KEY ({columns})"]

def uniqueSql (table : TableDecl) (key : List String) : Option String :=
  (quotedNames table.toTable key).map fun columns =>
    let columns := ",".intercalate columns
    s!"  UNIQUE ({columns})"

def foreignKeySql (doc : Declarations) (table : TableDecl) (key : ForeignKey) : Option String :=
  (tableByName doc.document key.refTable).bind fun target =>
    (quotedNames table.toTable key.columns).bind fun columns =>
      (quotedNames target key.refColumns).map fun refColumns =>
        let columns := ",".intercalate columns
        let refColumns := ",".intercalate refColumns
        s!"  CONSTRAINT {quoteIdentifier key.name} FOREIGN KEY ({columns})" ++
          s!" REFERENCES {quoteIdentifier target.sqlName} ({refColumns})" ++
          s!" ON UPDATE {key.onUpdate.toUpper} ON DELETE {key.onDelete.toUpper}"

def checkSql (check : Check) : String :=
  s!"  CONSTRAINT {quoteIdentifier check.name} CHECK ({check.sql})"

/-- The parts between the parentheses; none where a name is not found. -/
def tableParts (doc : Declarations) (table : TableDecl) : Option (List String) :=
  (table.columns.mapM (columnSql table)).bind fun columns =>
    (primaryKeySql table).bind fun primaryKey =>
      (table.uniques.mapM (uniqueSql table)).bind fun uniques =>
        ((table.foreignKeys.getD []).mapM (foreignKeySql doc table)).map fun foreignKeys =>
          columns ++ primaryKey ++ uniques ++ foreignKeys ++ (table.checks.getD []).map checkSql

def emitCreateTableSql (doc : Declarations) (table : TableDecl) : Option String :=
  (tableParts doc table).map fun parts =>
    let parts := ",\n".intercalate parts
    s!"CREATE TABLE {quoteIdentifier table.sqlName} (\n{parts}\n);"

def indexTermSql (table : TableDecl) (term : IndexTerm) : Option String :=
  match term with
  | .column column direction => (columnByName table.toTable column).map fun c =>
      s!"{quoteIdentifier c.sqlName} {direction.text}"
  | .expression sql => some sql

def emitCreateIndexSql (table : TableDecl) (index : Index) : Option String :=
  (index.terms.mapM (indexTermSql table)).map fun terms =>
    let unique := if index.unique then "UNIQUE " else ""
    let terms := ", ".intercalate terms
    let filter := (index.filter.map fun filter => " WHERE " ++ filter).getD ""
    s!"CREATE {unique}INDEX {quoteIdentifier index.name} ON {quoteIdentifier table.sqlName}" ++
      s!" ({terms}){filter};"

/-- `emitSchemaSql`: the tables, then the indexes. -/
def emitSchemaSql (doc : Declarations) : Option (List String) :=
  (doc.tables.mapM (emitCreateTableSql doc)).bind fun tables =>
    (doc.tables.mapM fun (table : TableDecl) =>
      (table.indexes.getD []).mapM (emitCreateIndexSql table)).map fun indexes =>
        tables ++ indexes.flatten

end Esdb.Schema
