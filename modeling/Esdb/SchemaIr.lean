import Mathlib.Data.List.Basic
import Mathlib.Data.List.Nodup

/-!
# The IR of the schema compiler and its validation

Documents are taken at the shape that the JSON of an accepted one has: a field that may
be missing is an option, and a field that JSON could give another type has its own type
here. Of the validation there is what it demands of the names, columns and keys of tables
and all that it demands of queries, save for names that the generators reserve. The
checks left out refuse further documents and change nothing for the others.
-/
namespace Esdb.Schema

inductive ScalarType where
  | integer | text | real | blob
  deriving DecidableEq, Repr

def ScalarType.name : ScalarType → String
  | .integer => "integer"
  | .text => "text"
  | .real => "real"
  | .blob => "blob"

structure Literal where
  type : String
  value : String
  deriving DecidableEq, Repr

structure Column where
  name : String
  sqlName : String
  type : ScalarType
  nullable : Bool
  primaryKey : Bool
  unique : Bool
  default : Option Literal
  deriving DecidableEq, Repr

structure Table where
  name : String
  sqlName : String
  columns : List Column
  primaryKey : List String
  uniques : List (List String)
  defaults : List (String × Literal)
  deriving DecidableEq, Repr

/-- `column op param`, on the base table where no other is named. -/
structure Condition where
  table : Option String
  column : String
  op : String
  param : String
  deriving DecidableEq, Repr

structure JoinRef where
  table : String
  column : String
  deriving DecidableEq, Repr

structure JoinCondition where
  left : JoinRef
  right : JoinRef
  deriving DecidableEq, Repr

inductive JoinKind where
  | inner | left
  deriving DecidableEq, Repr

structure Join where
  kind : JoinKind
  table : String
  on : List JoinCondition
  deriving DecidableEq, Repr

inductive Direction where
  | asc | desc
  deriving DecidableEq, Repr

structure OrderTerm where
  table : Option String
  column : String
  direction : Direction
  deriving DecidableEq, Repr

structure Assignment where
  column : String
  param : String
  deriving DecidableEq, Repr

inductive ConflictAction where
  | nothing | update
  deriving DecidableEq, Repr

structure Conflict where
  target : List String
  action : ConflictAction
  set : Option (List Assignment)
  deriving DecidableEq, Repr

inductive QueryKind where
  | select | insert | upsert | update | delete
  deriving DecidableEq, Repr

def QueryKind.name : QueryKind → String
  | .select => "select"
  | .insert => "insert"
  | .upsert => "upsert"
  | .update => "update"
  | .delete => "delete"

inductive Cardinality where
  | one | many | changes
  deriving DecidableEq, Repr

structure Query where
  name : String
  kind : QueryKind
  table : String
  cardinality : Cardinality
  filter : Option (List Condition)
  joins : Option (List Join)
  orderBy : Option (List OrderTerm)
  limit : Option String
  offset : Option String
  values : Option (List Assignment)
  set : Option (List Assignment)
  onConflict : Option Conflict
  deriving DecidableEq, Repr

structure Document where
  tables : List Table
  queries : List Query

structure Diagnostic where
  code : String
  path : String
  message : String
  deriving DecidableEq, Repr

/-! ## Names -/

def isIdentifierChars : List Char → Bool
  | [] => false
  | c :: rest =>
      (c.isAlpha || c == '_') && rest.all (fun d => d.isAlphanum || d == '_') &&
        rest.length ≤ 63

/-- `IDENTIFIER_RE`. -/
def isIdentifier (value : String) : Bool := isIdentifierChars value.toList

theorem isIdentifier_chars {name : String} (h : isIdentifier name = true) :
    ∀ c ∈ name.toList, c.isAlphanum = true ∨ c = '_' := by
  unfold isIdentifier at h
  generalize name.toList = s at h
  cases s with
  | nil => exact nomatch h
  | cons d s =>
      simp only [isIdentifierChars, Bool.and_eq_true, Bool.or_eq_true, List.all_eq_true,
        beq_iff_eq] at h
      intro c hc
      rcases List.mem_cons.mp hc with rfl | hc
      · exact h.1.1.imp (fun ha => by rw [Char.isAlphanum, ha, Bool.true_or]) id
      · exact h.1.2 c hc

/-- `QUERY_NAME_RE`: an identifier, or two with a dot between them. -/
def isQueryName (name : String) : Bool :=
  isIdentifierChars (name.toList.takeWhile fun c => c ≠ '.') &&
    match name.toList.dropWhile fun c => c ≠ '.' with
    | [] => true
    | _ :: rest => isIdentifierChars rest

def columnByName (table : Table) (name : String) : Option Column :=
  table.columns.find? fun column => column.name = name

def tableByName (ir : Document) (name : String) : Option Table :=
  ir.tables.find? fun table => table.name = name

def effectiveDefault (table : Table) (column : Column) : Option Literal :=
  match column.default with
  | some literal => some literal
  | none => (table.defaults.find? fun entry => entry.1 = column.name).map Prod.snd

/-! ## Checks over lists -/

def eachIdx {α : Type} (l : List α) (check : ℕ → α → List Diagnostic) : List Diagnostic :=
  l.zipIdx.flatMap fun p => check p.2 p.1

/-- What stands before position `i` has this key already. -/
def seenBefore {α κ : Type} [DecidableEq κ] (key : α → κ) (l : List α) (i : ℕ) (a : α) : Bool :=
  (l.take i).any fun b => key b = key a

def demand (ok : Bool) (code path message : String) : List Diagnostic :=
  if ok then [] else [⟨code, path, message⟩]

@[simp] theorem demand_eq_nil {ok : Bool} {code path message : String} :
    demand ok code path message = [] ↔ ok = true := by
  unfold demand
  cases ok <;> simp

theorem eachIdx_eq_nil {α : Type} {l : List α} {check : ℕ → α → List Diagnostic} :
    eachIdx l check = [] ↔ ∀ (i : ℕ) (h : i < l.length), check i l[i] = [] := by
  unfold eachIdx
  rw [List.flatMap_eq_nil_iff]
  constructor
  · intro h i hi
    exact h (l[i], i) (by rw [List.mem_zipIdx_iff_getElem?]; exact List.getElem?_eq_getElem hi)
  · rintro h ⟨a, i⟩ hmem
    rw [List.mem_zipIdx_iff_getElem?] at hmem
    obtain ⟨hi, he⟩ := List.getElem?_eq_some_iff.mp hmem
    have := h i hi
    rwa [he] at this

theorem eachIdx_mem {α : Type} {l : List α} {check : ℕ → α → List Diagnostic}
    (h : eachIdx l check = []) {a : α} (ha : a ∈ l) : ∃ i, check i a = [] := by
  obtain ⟨i, hi, rfl⟩ := List.getElem_of_mem ha
  exact ⟨i, eachIdx_eq_nil.mp h i hi⟩

/-- Where nothing was seen before, the keys are different. -/
theorem nodup_of_seenBefore {α κ : Type} [DecidableEq κ] {key : α → κ} {l : List α}
    (h : ∀ (i : ℕ) (hi : i < l.length), seenBefore key l i l[i] = false) :
    (l.map key).Nodup := by
  rw [List.Nodup, List.pairwise_iff_getElem]
  intro i j hi hj hij he
  rw [List.length_map] at hi hj
  rw [List.getElem_map, List.getElem_map] at he
  have hseen := h j hj
  unfold seenBefore at hseen
  rw [List.any_eq_false] at hseen
  have hmem : l[i] ∈ l.take j := by
    rw [List.mem_take_iff_getElem]
    exact ⟨i, by omega, rfl⟩
  exact hseen _ hmem (by simpa using he)

/-! ## Tables -/

def identifierText : String := "[A-Za-z_][A-Za-z0-9_]\x7b0,63\x7d"

def checkColumn (path : String) (column : Column) : List Diagnostic :=
  demand (isIdentifier column.name) "IR009" s!"{path}.name"
      s!"column name must match {identifierText}" ++
    demand (isIdentifier column.sqlName) "IR009" s!"{path}.sql_name"
      s!"column sql_name must match {identifierText}"

def checkColumns (path : String) (columns : List Column) : List Diagnostic :=
  eachIdx columns fun i column =>
    checkColumn s!"{path}.columns[{i}]" column ++
      demand (!seenBefore Column.name columns i column) "IR010" s!"{path}.columns[{i}].name"
        s!"duplicate column name \"{column.name}\"" ++
      demand (!seenBefore (fun c => c.sqlName.toLower) columns i column) "IR010"
        s!"{path}.columns[{i}].sql_name"
        s!"duplicate column sql_name \"{column.sqlName}\" (SQLite identifiers are case-insensitive)"

def hasColumn (columns : List Column) (name : String) : Bool :=
  columns.any fun column => column.name = name

def checkPrimaryKey (path : String) (table : Table) : List Diagnostic :=
  if table.primaryKey.isEmpty then
    [⟨"IR014", s!"{path}.primary_key",
      "primary_key must be a non-empty array of column names"⟩]
  else
    let flagged := (table.columns.filter Column.primaryKey).map Column.name
    let keyText := ", ".intercalate table.primaryKey
    let flaggedText := ", ".intercalate flagged
    eachIdx table.primaryKey (fun i name =>
      if !isIdentifier name then
        [⟨"IR014", s!"{path}.primary_key[{i}]", "primary_key entries must be column names"⟩]
      else
        demand (hasColumn table.columns name) "IR014" s!"{path}.primary_key[{i}]"
            s!"unknown primary key column \"{name}\"" ++
          demand (!seenBefore id table.primaryKey i name) "IR014" s!"{path}.primary_key[{i}]"
            s!"duplicate primary key column \"{name}\"") ++
      demand (flagged.length = table.primaryKey.length &&
          flagged.all fun name => name ∈ table.primaryKey) "IR014" s!"{path}.primary_key"
        s!"primary_key [{keyText}] does not match column primary_key flags [{flaggedText}]"

def checkUniques (path : String) (table : Table) : List Diagnostic :=
  eachIdx table.uniques (fun i key =>
    if key.isEmpty then
      [⟨"IR015", s!"{path}.uniques[{i}]", "unique key must be a non-empty array"⟩]
    else eachIdx key fun j name =>
      demand (isIdentifier name && hasColumn table.columns name) "IR015"
        s!"{path}.uniques[{i}][{j}]" s!"unknown unique column \"{name}\"") ++
    ((table.columns.filter Column.unique).map Column.name).flatMap fun name =>
      demand (table.uniques.any fun key => key = [name]) "IR015" s!"{path}.uniques"
        s!"column \"{name}\" is flagged unique but has no matching single-column unique key"

def checkTable (i : ℕ) (table : Table) : List Diagnostic :=
  let path := s!"$.tables[{i}]"
  demand (isIdentifier table.name) "IR007" s!"{path}.name"
      s!"table name must match {identifierText}" ++
    demand (isIdentifier table.sqlName) "IR007" s!"{path}.sql_name"
      s!"table sql_name must match {identifierText}" ++
    if table.columns.isEmpty then
      [⟨"IR009", s!"{path}.columns", "table must declare a non-empty columns array"⟩]
    else checkColumns path table.columns ++ checkPrimaryKey path table ++ checkUniques path table

def checkTables (tables : List Table) : List Diagnostic :=
  if tables.isEmpty then [⟨"IR006", "$.tables", "tables must be a non-empty array"⟩]
  else eachIdx tables fun i table =>
    checkTable i table ++
      demand (!seenBefore Table.name tables i table) "IR008" s!"$.tables[{i}].name"
        s!"duplicate table name \"{table.name}\"" ++
      demand (!seenBefore (fun t => t.sqlName.toLower) tables i table) "IR008"
        s!"$.tables[{i}].sql_name"
        s!"duplicate table sql_name \"{table.sqlName}\" (SQLite identifiers are case-insensitive)"

/-! ## Queries -/

/-- `scopedTableView`. -/
def scopedTable (scope : List Table) (base : Table) (requested : Option String) : Option Table :=
  scope.find? fun table => table.name = requested.getD base.name

def checkWhere (scope : List Table) (base : Table) (path : String)
    (filter : Option (List Condition)) (required : Bool) : List Diagnostic :=
  match filter with
  | none => demand (!required) "IR018" path "where is required for this query"
  | some conditions =>
      if conditions.isEmpty then
        [⟨"IR018", path, "where must be a non-empty array of conditions"⟩]
      else eachIdx conditions fun i condition =>
        let path := s!"{path}[{i}]"
        let table := condition.table.getD "undefined"
        demand (condition.op = "eq") "IR018" s!"{path}.op"
            s!"unsupported operator \"{condition.op}\" (v1 supports eq)" ++
          demand (condition.table.all isIdentifier) "IR018" s!"{path}.table"
            "condition table must be a logical table identifier" ++
          (match scopedTable scope base condition.table with
          | none =>
              [⟨"IR018", s!"{path}.table", s!"table \"{table}\" is not in this query scope"⟩]
          | some target =>
              demand (isIdentifier condition.column && hasColumn target.columns condition.column)
                "IR018" s!"{path}.column"
                s!"unknown column \"{condition.column}\" on table \"{target.name}\"") ++
          demand (isIdentifier condition.param) "IR019" s!"{path}.param"
            "param must be an identifier"

/-- `checkJoinRef`. The table and the column that were found, or none. -/
def checkJoinRef (scope : List Table) (path : String) (ref : JoinRef) :
    Option (Table × Column) × List Diagnostic :=
  if !isIdentifier ref.table then
    (none, [⟨"IR039", s!"{path}.table", "join reference table must be an identifier"⟩])
  else
    match scope.find? fun table => table.name = ref.table with
    | none =>
        (none, [⟨"IR039", s!"{path}.table",
          s!"table \"{ref.table}\" is not available at this join step"⟩])
    | some table =>
        match if isIdentifier ref.column then columnByName table ref.column else none with
        | none =>
            (none, [⟨"IR039", s!"{path}.column",
              s!"unknown column \"{ref.column}\" on table \"{ref.table}\""⟩])
        | some column => (some (table, column), [])

def checkJoinCondition (prior scope : List Table) (join : Join) (path : String)
    (condition : JoinCondition) : List Diagnostic :=
  let left := checkJoinRef scope s!"{path}.left" condition.left
  let right := checkJoinRef scope s!"{path}.right" condition.right
  left.2 ++ right.2 ++
    match left.1, right.1 with
    | some (_, leftColumn), some (_, rightColumn) =>
        let leftIsTarget := decide (condition.left.table = join.table)
        let rightIsTarget := decide (condition.right.table = join.table)
        (if leftIsTarget = rightIsTarget then
          [⟨"IR039", path,
            "each join predicate must connect the newly joined table to a previously available table"⟩]
        else
          let priorRef := if leftIsTarget then condition.right else condition.left
          demand (prior.any fun table => table.name = priorRef.table) "IR039" path
            "join predicate must connect to a table available before this join") ++
          demand (leftColumn.type = rightColumn.type) "IR039" path
            s!"join column types must match ({leftColumn.type.name} vs {rightColumn.type.name})"
    | _, _ => []

/-- One join: the scope after it, and what is wrong with it. -/
def checkJoin (ir : Document) (scope : List Table) (path : String) (join : Join) :
    List Table × List Diagnostic :=
  if !isIdentifier join.table then
    (scope, [⟨"IR039", s!"{path}.table", "join table must be a logical table identifier"⟩])
  else
    match tableByName ir join.table with
    | none => (scope, [⟨"IR039", s!"{path}.table", s!"unknown join table \"{join.table}\""⟩])
    | some target =>
        if scope.any fun table => table.name = join.table then
          (scope, [⟨"IR039", s!"{path}.table",
            s!"table \"{join.table}\" is already in query scope"⟩])
        else
          (scope ++ [target],
            if join.on.isEmpty then
              [⟨"IR039", s!"{path}.on", "join on must be a non-empty array"⟩]
            else eachIdx join.on fun i condition =>
              checkJoinCondition scope (scope ++ [target]) join s!"{path}.on[{i}]" condition)

def checkJoinList (ir : Document) (path : String) :
    ℕ → List Table → List Join → List Table × List Diagnostic
  | _, scope, [] => (scope, [])
  | i, scope, join :: joins =>
      let step := checkJoin ir scope s!"{path}.joins[{i}]" join
      let rest := checkJoinList ir path (i + 1) step.1 joins
      (rest.1, step.2 ++ rest.2)

def checkJoins (ir : Document) (base : Table) (path : String) (joins : Option (List Join)) :
    List Table × List Diagnostic :=
  match joins with
  | none => ([base], [])
  | some [] =>
      ([base], [⟨"IR039", s!"{path}.joins", "joins must be a non-empty array when present"⟩])
  | some (join :: joins) => checkJoinList ir path 0 [base] (join :: joins)

def checkOrderBy (scope : List Table) (base : Table) (path : String)
    (orderBy : Option (List OrderTerm)) : List Diagnostic :=
  eachIdx (orderBy.getD []) fun i term =>
    let path := s!"{path}.order_by[{i}]"
    let table := term.table.getD "undefined"
    match scopedTable scope base term.table with
    | none =>
        [⟨"IR018", s!"{path}.table", s!"table \"{table}\" is not in this query scope"⟩]
    | some view =>
        demand (isIdentifier term.column && hasColumn view.columns term.column) "IR018"
          s!"{path}.column" s!"unknown column \"{term.column}\" on table \"{view.name}\""

/-- `isKeyedWhere`. -/
def isKeyedWhere (table : Table) (columns : List String) : Bool :=
  (table.primaryKey :: table.uniques).any fun key =>
    !key.isEmpty && key.all fun column => column ∈ columns

/-- The columns of the base table that the where clause names. -/
def Query.whereColumns (query : Query) : List String :=
  ((query.filter.getD []).filter fun condition =>
    condition.table.all fun table => table = query.table).map Condition.column

def checkAssignments (table : Table) (path label : String) (list : Option (List Assignment)) :
    List Diagnostic :=
  match list with
  | none | some [] => [⟨"IR018", path, s!"{label} must be a non-empty array"⟩]
  | some (entry :: entries) =>
      eachIdx (entry :: entries) fun i item =>
        let path := s!"{path}[{i}]"
        if !(isIdentifier item.column && hasColumn table.columns item.column) then
          [⟨"IR018", s!"{path}.column", s!"unknown column \"{item.column}\""⟩]
        else
          demand (!seenBefore Assignment.column (entry :: entries) i item) "IR019"
              s!"{path}.column" s!"column \"{item.column}\" appears more than once" ++
            demand (isIdentifier item.param) "IR019" s!"{path}.param"
              "param must be an identifier"

def checkConflict (table : Table) (path : String) (onConflict : Option Conflict) :
    List Diagnostic :=
  match onConflict with
  | none => [⟨"IR040", s!"{path}.on_conflict", "upsert requires an on_conflict object"⟩]
  | some policy =>
      let path := s!"{path}.on_conflict"
      (if policy.target.isEmpty then
        [⟨"IR040", s!"{path}.target", "conflict target must be a non-empty array"⟩]
      else
        eachIdx policy.target (fun i name =>
          demand (isIdentifier name && hasColumn table.columns name) "IR040"
              s!"{path}.target[{i}]" s!"unknown conflict-target column \"{name}\"" ++
            demand (!seenBefore id policy.target i name) "IR040" s!"{path}.target[{i}]"
              s!"duplicate conflict-target column \"{name}\"") ++
          demand ((table.primaryKey :: table.uniques).any fun key => key = policy.target) "IR040"
            s!"{path}.target"
            "conflict target must exactly match the primary key or a declared unique key") ++
        match policy.action with
        | .nothing =>
            demand policy.set.isNone "IR040" s!"{path}.set"
              "DO NOTHING may not declare set assignments"
        | .update => checkAssignments table s!"{path}.set" "conflict set" policy.set

def checkKeyedMutation (table : Table) (query : Query) (path : String) : List Diagnostic :=
  demand (isKeyedWhere table ((query.filter.getD []).map Condition.column)) "IR020"
    s!"{path}.where"
    "update/delete requires a where clause covering a primary key or declared unique key"

def checkSelect (ir : Document) (table : Table) (query : Query) (path : String) :
    List Diagnostic :=
  let joins := checkJoins ir table path query.joins
  demand (query.values.isNone && query.set.isNone && query.onConflict.isNone) "IR029" path
      "select queries may not declare values/set/on_conflict" ++
    joins.2 ++
    checkWhere joins.1 table s!"{path}.where" query.filter (query.cardinality = .one) ++
    checkOrderBy joins.1 table path query.orderBy ++
    demand (query.limit.all isIdentifier) "IR026" s!"{path}.limit"
      "limit must be a parameter identifier" ++
    demand (query.offset.all isIdentifier) "IR026" s!"{path}.offset"
      "offset must be a parameter identifier" ++
    demand (query.cardinality ≠ .one || isKeyedWhere table query.whereColumns) "IR021"
      s!"{path}.where"
      "cardinality one requires the where clause to cover a primary key or declared unique key"

def checkInsert (table : Table) (query : Query) (path : String) : List Diagnostic :=
  let provided := (query.values.getD []).map Assignment.column
  demand (query.filter.isNone && query.set.isNone && query.joins.isNone && query.orderBy.isNone &&
      query.limit.isNone && query.offset.isNone) "IR029" path
      "insert/upsert queries may not declare where/set/joins/order_by/limit/offset" ++
    (if query.kind = .upsert then checkConflict table path query.onConflict
    else demand query.onConflict.isNone "IR029" s!"{path}.on_conflict"
      "insert queries may not declare on_conflict") ++
    checkAssignments table s!"{path}.values" "values" query.values ++
    table.columns.flatMap fun column =>
      demand (column.nullable || (effectiveDefault table column).isSome ||
          column.name ∈ provided) "IR019" s!"{path}.values"
        s!"required column \"{column.name}\" (not null, no default) is missing from insert values"

def checkUpdate (table : Table) (query : Query) (path : String) : List Diagnostic :=
  demand (query.values.isNone && query.joins.isNone && query.onConflict.isNone &&
      query.orderBy.isNone && query.limit.isNone && query.offset.isNone) "IR029" path
      "update queries may not declare values/joins/on_conflict/order_by/limit/offset" ++
    checkAssignments table s!"{path}.set" "set" query.set ++
    checkWhere [table] table s!"{path}.where" query.filter true ++
    checkKeyedMutation table query path

def checkDelete (table : Table) (query : Query) (path : String) : List Diagnostic :=
  demand (query.values.isNone && query.set.isNone && query.joins.isNone &&
      query.onConflict.isNone && query.orderBy.isNone && query.limit.isNone &&
      query.offset.isNone) "IR029" path
      "delete queries may not declare values/set/joins/on_conflict/order_by/limit/offset" ++
    checkWhere [table] table s!"{path}.where" query.filter true ++
    checkKeyedMutation table query path

/-- A parameter, with the column whose type it has; `limit` and `offset` have none. -/
structure BindParam where
  name : String
  table : Option String
  column : Option String
  type : ScalarType
  deriving DecidableEq, Repr

def columnParam (table : Table) (ir : Document) (owner column param : String) : BindParam :=
  let found := if owner = table.name then some table else tableByName ir owner
  ⟨param, some ((found.map Table.name).getD owner), some column,
    (((found.bind fun t => columnByName t column).map Column.type).getD .text)⟩

def integerParam (name : String) : BindParam := ⟨name, none, none, .integer⟩

/-- `deriveParamList`. -/
def deriveParamList (table : Table) (query : Query) (updateBindOrder : Bool) (ir : Document) :
    List BindParam :=
  let assigned (list : Option (List Assignment)) :=
    (list.getD []).map fun entry => columnParam table ir table.name entry.column entry.param
  let filtered := (query.filter.getD []).map fun condition =>
    columnParam table ir table.name condition.column condition.param
  match query.kind with
  | .select =>
      ((query.filter.getD []).map fun condition =>
        columnParam table ir (condition.table.getD table.name) condition.column condition.param) ++
      query.limit.toList.map integerParam ++ query.offset.toList.map integerParam
  | .insert => assigned query.values
  | .upsert =>
      assigned query.values ++
        match query.onConflict with
        | some ⟨_, .update, set⟩ => assigned set
        | _ => []
  | .update =>
      if updateBindOrder then assigned query.set ++ filtered else filtered ++ assigned query.set
  | .delete => filtered

def deriveApiParams (table : Table) (query : Query) (ir : Document) : List BindParam :=
  deriveParamList table query false ir

def deriveBindParams (table : Table) (query : Query) (ir : Document) : List BindParam :=
  deriveParamList table query true ir

def checkQuery (ir : Document) (index : ℕ) (query : Query) : List Diagnostic :=
  let path := s!"$.queries[{index}]"
  let expected := if query.kind = .select then [Cardinality.one, .many] else [.changes]
  let expectedText := if query.kind = .select then "one or many" else "changes"
  demand (isQueryName query.name) "IR017" s!"{path}.name"
      "query name must match identifier(.identifier)?" ++
    demand (query.cardinality ∈ expected) "IR029" s!"{path}.cardinality"
      s!"{query.kind.name} queries require cardinality {expectedText}" ++
    match tableByName ir query.table with
    | none => [⟨"IR018", s!"{path}.table", s!"unknown table \"{query.table}\""⟩]
    | some table =>
        (match query.kind with
        | .select => checkSelect ir table query path
        | .insert => checkInsert table query path
        | .upsert => checkInsert table query path
        | .update => checkUpdate table query path
        | .delete => checkDelete table query path) ++
        let params := deriveApiParams table query ir
        eachIdx params fun i param =>
          demand (!seenBefore BindParam.name params i param) "IR019" path
            s!"duplicate parameter \"{param.name}\""

def checkQueries (ir : Document) : List Diagnostic :=
  eachIdx ir.queries fun i query =>
    checkQuery ir i query ++
      demand (!seenBefore Query.name ir.queries i query) "IR017" s!"$.queries[{i}].name"
        s!"duplicate query name \"{query.name}\""

/-- `validateDocument`; the document is accepted when there are no diagnostics. -/
def validateDocument (doc : Document) : List Diagnostic :=
  checkTables doc.tables ++ checkQueries doc

end Esdb.Schema
