import Esdb.SchemaBind
import Esdb.SchemaNaming

/-!
# Parameters of the generated methods

A repository method takes what it binds from its arguments and, for rows to insert and
for updates of nullable columns, from the fields of a struct. The calls that bind are
kept as what they read, and `BindCall.text` writes them out.
-/
namespace Esdb.Schema

/-- What `decorateParams` makes of a parameter. -/
structure MethodParam where
  name : String
  table : Option String
  column : Option String
  type : ScalarType
  nullable : Bool
  deriving DecidableEq, Repr

structure MethodPlan where
  method : String
  params : List MethodParam
  apiParams : List MethodParam
  structName : Option String
  structParams : List MethodParam
  argParams : List MethodParam
  deriving DecidableEq, Repr

/-- An argument, or a field of the argument `values`. -/
structure Reference where
  inStruct : Bool
  name : String
  deriving DecidableEq, Repr

def Reference.text (r : Reference) : String := if r.inStruct then s!"values.{r.name}" else r.name

/-- The place for a parameter, and the flag beside it that says it is NULL. -/
structure Declaration where
  param : String
  type : ScalarType
  reference : Reference
  isNull : Option Reference
  deriving DecidableEq, Repr

/-- A field of `emitStruct`. -/
def fieldDeclaration (name : String) (type : ScalarType) (nullable : Bool) : Declaration :=
  ⟨name, type, ⟨true, toSnake name⟩,
    if nullable then some ⟨true, s!"{toSnake name}_is_null"⟩ else none⟩

/-- An argument of `methodSignature`. -/
def argDeclaration (param : MethodParam) : Declaration :=
  ⟨param.name, param.type, ⟨false, toSnake param.name⟩, none⟩

/-- The struct that `emitTable` declares for an insert. -/
def insertFields (ir : Document) (table : Table) (query : Query) : List Declaration :=
  (deriveApiParams table query ir).map fun param =>
    fieldDeclaration param.name param.type
      ((param.column.bind (columnByName table)).any Column.nullable)

/-- The struct of a plan, where it has one. -/
def structFields (ir : Document) (table : Table) (query : Query) (plan : MethodPlan) :
    List Declaration :=
  match query.kind with
  | .insert | .upsert => insertFields ir table query
  | .update =>
      if plan.structName.isSome then
        plan.structParams.map fun param => fieldDeclaration param.name param.type param.nullable
      else []
  | .select | .delete => []

def declarations (ir : Document) (table : Table) (query : Query) (plan : MethodPlan) :
    List Declaration :=
  plan.argParams.map argDeclaration ++ structFields ir table query plan

/-! ## Binding -/

def MethodPlan.inStruct (plan : MethodPlan) (param : MethodParam) : Bool :=
  plan.structParams.any fun candidate => candidate.name = param.name

structure BindCall where
  type : ScalarType
  index : ℕ
  value : Reference
  isNull : Option Reference
  deriving DecidableEq, Repr

def BindCall.text (call : BindCall) : String :=
  let isNull := (call.isNull.map Reference.text).getD "false"
  s!"bind_{call.type.name}(statement, {call.index}, {call.value.text}, {isNull})"

variable {ir : Document} {base : Table} {q : Query}

section
variable (hnodup : ((deriveApiParams base q ir).map BindParam.name).Nodup)
  (hkind : q.kind = .update)
include hnodup hkind

end

end Esdb.Schema
