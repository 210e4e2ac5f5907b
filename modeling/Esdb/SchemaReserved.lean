import Esdb.JsonText
import Esdb.SchemaDdl
import Esdb.SchemaNaming

/-!
# Names that the generators reserve

What `validateDocument` demands of the names that the bindings are generated from, and of the
order that tables and queries stand in. Methods and bridge functions are named after queries,
their parameters after the parameters of these, and two names that become one are refused.
-/
namespace Esdb.Schema

/-- The document with the name of its schema. -/
structure NamedDocument extends Declarations where
  schemaName : String

def es3ReservedWords : List String := [
  "abstract", "boolean", "break", "byte", "case", "catch", "char", "class", "const", "continue",
  "debugger", "default", "delete", "do", "double", "else", "enum", "export", "extends", "false",
  "final", "finally", "float", "for", "function", "goto", "if", "implements", "import", "in",
  "instanceof", "int", "interface", "long", "native", "new", "null", "package", "private",
  "protected", "public", "return", "short", "static", "super", "switch", "synchronized", "this",
  "throw", "throws", "transient", "true", "try", "typeof", "var", "void", "volatile", "while",
  "with"]

def cxxReservedWords : List String := [
  "alignas", "alignof", "and", "and_eq", "asm", "auto", "bitand", "bitor", "bool", "break",
  "case", "catch", "char", "char16_t", "char32_t", "class", "compl", "const", "constexpr",
  "const_cast", "continue", "decltype", "default", "delete", "do", "double", "dynamic_cast",
  "else", "enum", "explicit", "export", "extern", "false", "float", "for", "friend", "goto",
  "if", "inline", "int", "long", "mutable", "namespace", "new", "noexcept", "not", "not_eq",
  "nullptr", "operator", "or", "or_eq", "private", "protected", "public", "register",
  "reinterpret_cast", "return", "short", "signed", "sizeof", "static", "static_assert",
  "static_cast", "struct", "switch", "template", "this", "thread_local", "throw", "true", "try",
  "typedef", "typeid", "typename", "union", "unsigned", "using", "virtual", "void", "volatile",
  "wchar_t", "while", "xor", "xor_eq"]

def generatedLifecycleNames : List String := [
  "constructor", "prototype", "__proto__", "valid", "lastError", "last_error", "lastErrorCode",
  "last_error_code", "open", "close", "load", "unload", "dispose", "repository", "handle",
  "invoke", "values", "esdbOptions"]

def hazardousLogicalNames : List String := ["__proto__", "prototype", "constructor"]

def isReservedForm (form : String) : Bool :=
  form ∈ es3ReservedWords || form ∈ cxxReservedWords

/-- `checkLogicalIdentifier`; only the first reserved form is reported. -/
def checkLogicalIdentifier (value path label : String) : List Diagnostic :=
  if !isIdentifier value then []
  else
    let forms := [toCamel value, toSnake value, toPascal value]
    demand (value ∉ hazardousLogicalNames) "IR032" path
        s!"{label} \"{value}\" is unsafe for generated language bindings" ++
      demand (forms.all fun form => form ≠ "") "IR032" path
        s!"{label} \"{value}\" normalizes to an empty generated identifier" ++
      match forms.find? isReservedForm with
      | none => []
      | some form =>
          [⟨"IR031", path, s!"{label} \"{value}\" normalizes to reserved identifier \"{form}\""⟩]

/-! ## Forms of tables and columns -/

/-- A `Map` from a form to the name that has it, the newest entry first. -/
abbrev FormMap := List (String × String)

/-- The form of a name that no other name may have. -/
def recordForm (kind form value path label : String) (map : FormMap) :
    FormMap × List Diagnostic :=
  match map.lookup form with
  | none => ((form, value) :: map, [])
  | some existing =>
      if existing ≠ value then
        (map, [⟨"IR032", path,
          s!"{label} \"{value}\" collides with \"{existing}\" after {kind} normalization (\"{form}\")"⟩])
      else ((form, value) :: map, [])

structure FormMaps where
  camel : FormMap
  snake : FormMap
  pascal : FormMap

/-- `recordGeneratedForms`. -/
def recordGeneratedForms (value path label : String) (maps : FormMaps) :
    FormMaps × List Diagnostic :=
  if !isIdentifier value then (maps, [])
  else
    let camel := recordForm "camel" (toCamel value) value path label maps.camel
    let snake := recordForm "snake" (toSnake value) value path label maps.snake
    let pascal := recordForm "pascal" (toPascal value) value path label maps.pascal
    (⟨camel.1, snake.1, pascal.1⟩, camel.2 ++ snake.2 ++ pascal.2)

/-- The names of a list in their order, each at a path of its own. -/
def checkForms (label : String) : FormMaps → List (String × String) → List Diagnostic
  | _, [] => []
  | maps, (path, value) :: rest =>
      let step := recordGeneratedForms value path label maps
      step.2 ++ checkForms label step.1 rest

/-- The UTF-16 units that the script compares names by. -/
def nameUnits (name : String) : JsonText.Text :=
  name.toList.flatMap fun c => JsonText.units c.toNat

/-- The names stand in order. -/
def checkOrder (message : String) : Option String → List (String × String) → List Diagnostic
  | _, [] => []
  | previous, (path, name) :: rest =>
      demand (previous.all fun p => nameUnits p ≤ nameUnits name) "IR033" path message ++
        checkOrder message (some name) rest

def tablePath (i : ℕ) : String := s!"$.tables[{i}].name"

/-- The names of a table's columns. -/
def checkColumnForms (i : ℕ) (table : TableDecl) : List Diagnostic :=
  let path (j : ℕ) := s!"$.tables[{i}].columns[{j}].name"
  eachIdx table.columns (fun j column => checkLogicalIdentifier column.name (path j) "column name") ++
    checkForms "column name" ⟨[], [], []⟩
      (table.columns.zipIdx.map fun p => (path p.2, p.1.name))

/-- What is demanded of the names of the schema, its tables and their columns. -/
def checkTableForms (doc : NamedDocument) : List Diagnostic :=
  demand (isIdentifier doc.schemaName) "IR004" "$.schema.name"
      s!"schema name must match {identifierText}" ++
    checkLogicalIdentifier doc.schemaName "$.schema.name" "schema name" ++
    eachIdx doc.tables (fun i table =>
      checkLogicalIdentifier table.name (tablePath i) "table name" ++ checkColumnForms i table) ++
    checkOrder "tables must be sorted by logical name for deterministic IR v1" none
      (doc.tables.zipIdx.map fun p => (tablePath p.2, p.1.name)) ++
    checkForms "table name" ⟨[], [], []⟩ (doc.tables.zipIdx.map fun p => (tablePath p.2, p.1.name))

/-! ## Names of queries -/

/-- `querySurfaceName`. -/
def querySurfaceName (schemaName queryName : String) : String :=
  if '.' ∉ queryName.toList then queryMethodName queryName
  else
    let owner := String.ofList (queryName.toList.takeWhile fun c => c ≠ '.')
    if toCamel owner = toCamel schemaName then queryMethodName queryName
    else toCamel owner ++ toPascal (queryMethodName queryName)

def bridgeFunctionName (schemaName queryName : String) : String :=
  toCamel schemaName ++ toPascal (querySurfaceName schemaName queryName)

def checkMethodName (query : Query) (path : String) : List Diagnostic :=
  if !isQueryName query.name then []
  else
    let method := queryMethodName query.name
    demand (method ≠ "" && method ∉ es3ReservedWords && method ∉ cxxReservedWords &&
        method ∉ generatedLifecycleNames) "IR031" s!"{path}.name"
      s!"query method name \"{method}\" collides with a reserved/generated binding identifier"

def checkParamName (path name : String) : List Diagnostic :=
  let camel := toCamel name
  let snake := toSnake name
  checkLogicalIdentifier name path "parameter name" ++
    demand (camel ∉ es3ReservedWords && snake ∉ cxxReservedWords &&
        camel ∉ generatedLifecycleNames && snake ∉ generatedLifecycleNames) "IR031" path
      s!"parameter name \"{name}\" collides with a reserved/generated binding identifier"

/-- The end of `checkQuery`: the names of the method and of its parameters. -/
def checkQueryNames (ir : Document) (index : ℕ) (query : Query) : List Diagnostic :=
  let path := s!"$.queries[{index}]"
  match tableByName ir query.table with
  | none => []
  | some table =>
      checkMethodName query path ++
        (deriveApiParams table query ir).flatMap fun param => checkParamName path param.name

/-- A generated name that an earlier query of another name has. -/
def recordName (message : String → String) (key name path : String) (map : FormMap) :
    FormMap × List Diagnostic :=
  match map.lookup key with
  | none => ((key, name) :: map, [])
  | some prior =>
      if prior ≠ name then (map, [⟨"IR032", path, message prior⟩])
      else ((key, name) :: map, [])

/-- `methodKey`. -/
def methodKey (query : Query) : String := query.table ++ "." ++ queryMethodName query.name

/-- The methods and bridge functions of the queries from the `i`th on. -/
def checkGenerated (schemaName : String) :
    ℕ → (methods bridges : FormMap) → List Query → List Diagnostic
  | _, _, _, [] => []
  | i, methods, bridges, query :: rest =>
      if !isQueryName query.name then checkGenerated schemaName (i + 1) methods bridges rest
      else
        let path := s!"$.queries[{i}].name"
        let method := queryMethodName query.name
        let bridge := bridgeFunctionName schemaName query.name
        let recorded := recordName (fun prior =>
          s!"query \"{query.name}\" collides with \"{prior}\" after method-name normalization (\"{method}\")")
          (methodKey query) query.name path methods
        let bridged := recordName (fun prior =>
          s!"query \"{query.name}\" collides with \"{prior}\" after bridge-name normalization (\"{bridge}\")")
          bridge query.name path bridges
        recorded.2 ++ bridged.2 ++
          checkGenerated schemaName (i + 1) recorded.1 bridged.1 rest

/-- What is demanded of the names of queries and of their order. -/
def checkQueryForms (doc : NamedDocument) : List Diagnostic :=
  eachIdx doc.queries (checkQueryNames doc.document) ++
    checkOrder "queries must be sorted by name for deterministic IR v1" none
      (doc.queries.zipIdx.map fun p => (s!"$.queries[{p.2}].name", p.1.name)) ++
    checkGenerated doc.schemaName 0 [] [] doc.queries

/-- `validateDocument` with the names. -/
def validateNamed (doc : NamedDocument) : List Diagnostic :=
  validateDeclarations doc.toDeclarations ++ checkTableForms doc ++ checkQueryForms doc

end Esdb.Schema
