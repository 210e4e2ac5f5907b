import Esdb.SchemaIr

/-!
# The SQL of queries

A statement is kept as what it is made of, and `Statement.text` writes it out. The names
in it are the SQL names of tables and columns; every value is a placeholder.
-/
namespace Esdb.Schema

def quoteIdentifier (name : String) : String := s!"\"{name}\""

/-- A column, after its table where the statement has joins. -/
structure ColumnName where
  table : Option String
  column : String
  deriving DecidableEq, Repr

def ColumnName.text (name : ColumnName) : String :=
  match name.table with
  | some table => s!"{quoteIdentifier table}.{quoteIdentifier name.column}"
  | none => quoteIdentifier name.column

structure JoinClause where
  kind : JoinKind
  table : String
  on : List (ColumnName × ColumnName)
  deriving DecidableEq, Repr

/-- Each condition compares its column with a placeholder. -/
structure Select where
  projection : List ColumnName
  table : String
  joins : List JoinClause
  conditions : List ColumnName
  orderBy : List (ColumnName × Direction)
  limit : Bool
  offset : Bool
  deriving DecidableEq, Repr

structure Insert where
  table : String
  columns : List String
  /-- The target, and the columns to set where the conflict is not ignored. -/
  onConflict : Option (List String × Option (List String))
  deriving DecidableEq, Repr

inductive Statement where
  | select (s : Select)
  | insert (s : Insert)
  | update (table : String) (set conditions : List String)
  | delete (table : String) (conditions : List String)
  deriving DecidableEq, Repr

/-! ## Text -/

def columnList (columns : List String) : String := ",".intercalate (columns.map quoteIdentifier)

def assignmentText (column : String) : String := s!"{quoteIdentifier column} = ?"

def setText (columns : List String) : String := ", ".intercalate (columns.map assignmentText)

def whereText (columns : List String) : String := " AND ".intercalate (columns.map assignmentText)

def JoinClause.text (join : JoinClause) : String :=
  let keyword := if join.kind = .left then "LEFT JOIN" else "INNER JOIN"
  let on := " AND ".intercalate (join.on.map fun p => s!"{p.1.text} = {p.2.text}")
  s!" {keyword} {quoteIdentifier join.table} ON {on}"

def Direction.text : Direction → String
  | .asc => "ASC"
  | .desc => "DESC"

def Select.text (s : Select) : String :=
  let projection := ",".intercalate (s.projection.map ColumnName.text)
  let joins := String.join (s.joins.map JoinClause.text)
  let conditions := " AND ".intercalate (s.conditions.map fun c => s!"{c.text} = ?")
  let order := ", ".intercalate (s.orderBy.map fun p => s!"{p.1.text} {p.2.text}")
  s!"SELECT {projection} FROM {quoteIdentifier s.table}{joins}" ++
    (if s.conditions.isEmpty then "" else s!" WHERE {conditions}") ++
    (if s.orderBy.isEmpty then "" else s!" ORDER BY {order}") ++
    (if s.limit then " LIMIT ?" else "") ++ (if s.offset then " OFFSET ?" else "")

def Insert.text (s : Insert) : String :=
  let placeholders := ",".intercalate (s.columns.map fun _ => "?")
  s!"INSERT INTO {quoteIdentifier s.table} ({columnList s.columns}) VALUES ({placeholders})" ++
    match s.onConflict with
    | none => ""
    | some (target, none) =>
        s!" ON CONFLICT ({columnList target}) DO NOTHING"
    | some (target, some sets) =>
        s!" ON CONFLICT ({columnList target}) DO UPDATE SET {setText sets}"

def Statement.text : Statement → String
  | .select s => s.text
  | .insert s => s.text
  | .update table set conditions =>
      s!"UPDATE {quoteIdentifier table} SET {setText set} WHERE {whereText conditions}"
  | .delete table conditions =>
      s!"DELETE FROM {quoteIdentifier table} WHERE {whereText conditions}"

/-! ## Emission -/

/-- The SQL name of a column, after its table's where the statement has joins. -/
def emitColumn (qualified : Bool) (owner : Table) (column : String) : Option ColumnName :=
  (columnByName owner column).map fun c =>
    ⟨if qualified then some owner.sqlName else none, c.sqlName⟩

def emitCondition (ir : Document) (table : Table) (qualified : Bool) (condition : Condition) :
    Option ColumnName :=
  match condition.table with
  | none => emitColumn qualified table condition.column
  | some name => (tableByName ir name).bind fun owner => emitColumn qualified owner condition.column

def emitJoinCondition (ir : Document) (condition : JoinCondition) :
    Option (ColumnName × ColumnName) :=
  match tableByName ir condition.left.table, tableByName ir condition.right.table with
  | some left, some right =>
      match emitColumn true left condition.left.column,
        emitColumn true right condition.right.column with
      | some l, some r => some (l, r)
      | _, _ => none
  | _, _ => none

def emitJoin (ir : Document) (join : Join) : Option JoinClause :=
  (tableByName ir join.table).bind fun joined =>
    (join.on.mapM (emitJoinCondition ir)).map fun on => ⟨join.kind, joined.sqlName, on⟩

def emitOrderTerm (ir : Document) (table : Table) (term : OrderTerm) :
    Option (ColumnName × Direction) :=
  match term.table with
  | none => (emitColumn true table term.column).map fun c => (c, term.direction)
  | some name => (tableByName ir name).bind fun owner =>
      (emitColumn true owner term.column).map fun c => (c, term.direction)

def emitSelect (ir : Document) (table : Table) (query : Query) : Option Select := do
  let qualified := !(query.joins.getD []).isEmpty
  let conditions ← (query.filter.getD []).mapM (emitCondition ir table qualified)
  let joins ← (query.joins.getD []).mapM (emitJoin ir)
  let orderBy ← (query.orderBy.getD []).mapM (emitOrderTerm ir table)
  let projection := table.columns.map fun column =>
    ColumnName.mk (if qualified then some table.sqlName else none) column.sqlName
  some ⟨projection, table.sqlName, joins, conditions, orderBy, query.limit.isSome,
    query.offset.isSome⟩

def emitSqlNames (table : Table) (names : List String) : Option (List String) :=
  names.mapM fun name => (columnByName table name).map Column.sqlName

def emitAssigned (table : Table) (list : Option (List Assignment)) : Option (List String) :=
  list.bind fun entries => emitSqlNames table (entries.map Assignment.column)

def emitConditions (table : Table) (query : Query) : Option (List String) :=
  query.filter.bind fun conditions => emitSqlNames table (conditions.map Condition.column)

/-- The statement of `emitQuerySql`; none where it throws. -/
def emitStatement (ir : Document) (table : Table) (query : Query) : Option Statement :=
  match query.kind with
  | .select => (emitSelect ir table query).map .select
  | .insert => (emitAssigned table query.values).map fun columns =>
      .insert ⟨table.sqlName, columns, none⟩
  | .upsert => do
      let columns ← emitAssigned table query.values
      let policy ← query.onConflict
      let target ← emitSqlNames table policy.target
      match policy.action with
      | .nothing => some (.insert ⟨table.sqlName, columns, some (target, none)⟩)
      | .update =>
          (emitAssigned table policy.set).map fun set =>
            .insert ⟨table.sqlName, columns, some (target, some set)⟩
  | .update => do
      let set ← emitAssigned table query.set
      let conditions ← emitConditions table query
      some (.update table.sqlName set conditions)
  | .delete => (emitConditions table query).map fun conditions =>
      .delete table.sqlName conditions

/-- `emitQuerySql`: the text and the parameters of its placeholders, in order. -/
def emitQuerySql (ir : Document) (table : Table) (query : Query) :
    Option (String × List BindParam) :=
  (emitStatement ir table query).map fun statement =>
    (statement.text, deriveBindParams table query ir)

end Esdb.Schema
