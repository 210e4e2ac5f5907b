import Esdb.EquiJoin
import Esdb.SchemaSql
import Mathlib.Data.Rat.Defs
import Mathlib.Data.List.Sort

/-!
# What a select statement returns

SQLite's reading of an emitted `SELECT`: names are looked up without regard to case,
comparisons take place between values of the storage classes up to numeric equality,
a parameter gets the affinity of the column it is compared with, and the result is
sorted and cut to the window of `LIMIT` and `OFFSET` at the end.
-/
namespace Esdb.Schema

/-- The values other than NULL, where an integer and the real of its size are one. -/
inductive Value where
  | number (q : ℚ)
  | infinity (negative : Bool)
  | text (s : List UInt8)
  | blob (b : List UInt8)
  deriving DecidableEq

/-- The conversion of a parameter that is compared with a column. How text is read as a
number and a number written as text is left open. -/
structure Affinity where
  convert : ScalarType → Value → Value
  integer_number : ∀ q, convert .integer (.number q) = .number q
  real_number : ∀ q, convert .real (.number q) = .number q
  text_text : ∀ s, convert .text (.text s) = .text s
  blob_any : ∀ v, convert .blob v = v

/-- The rows of each table, by the logical names of table and column. -/
abbrev Instance := String → List (EquiJoin.Row String Value)

inductive SqlError where
  | grammar | unknownName | datatypeMismatch
  deriving DecidableEq, Repr

/-! ## Order and window -/

def Value.rank : Value → ℕ
  | .number _ => 1
  | .infinity _ => 1
  | .text _ => 2
  | .blob _ => 3

def Value.le : Value → Value → Bool
  | .infinity true, _ => true
  | .number q, .number q' => q ≤ q'
  | .number _, .infinity negative => !negative
  | .infinity false, .infinity negative => !negative
  | .infinity false, .number _ => false
  | .text s, .text s' => s ≤ s'
  | .blob b, .blob b' => b ≤ b'
  | v, v' => v.rank ≤ v'.rank

/-- NULL comes first. -/
def nullableLe : Option Value → Option Value → Bool
  | none, _ => true
  | some _, none => false
  | some v, some v' => v.le v'

abbrev Ref := String × String

abbrev Result := EquiJoin.Combo String String Value

def orderedLe : List (Ref × Direction) → Result → Result → Bool
  | [], _, _ => true
  | (r, direction) :: terms, e, e' =>
      let before := match direction with
        | .asc => nullableLe (e.cell r) (e'.cell r)
        | .desc => nullableLe (e'.cell r) (e.cell r)
      if e.cell r = e'.cell r then orderedLe terms e e' else before

def Affinity.asInteger (affinity : Affinity) (v : Option Value) : Option ℤ :=
  match v.map (affinity.convert .integer) with
  | some (.number q) => if q.den = 1 then some q.num else none
  | _ => none

/-- `LIMIT` and `OFFSET`: a negative limit is none, a negative offset is zero. -/
def window {α : Type} (limit offset : Option ℤ) (l : List α) : List α :=
  let rest := l.drop (offset.getD 0).toNat
  match limit with
  | some n => if n < 0 then rest else rest.take n.toNat
  | none => rest

/-! ## Names -/

def resolveTable (ir : Document) (name : String) : Option Table :=
  ir.tables.find? fun table => table.sqlName.toLower = name.toLower

def resolveIn (table : Table) (column : String) : Option Ref :=
  (table.columns.find? fun c => c.sqlName.toLower = column.toLower).map fun c =>
    (table.name, c.name)

/-- A column without a table must be a column of exactly one. -/
def resolveColumn (sources : List Table) (name : ColumnName) : Option Ref :=
  match name.table with
  | some table =>
      (sources.find? fun t => t.sqlName.toLower = table.toLower).bind fun t =>
        resolveIn t name.column
  | none =>
      match sources.filterMap fun t => resolveIn t name.column with
      | [r] => some r
      | _ => none

def typeOf (ir : Document) (r : Ref) : ScalarType :=
  (((tableByName ir r.1).bind fun table => columnByName table r.2).map Column.type).getD .blob

/-- A select whose names are resolved. -/
structure Plan where
  base : String
  projection : List Ref
  joins : List (EquiJoin.Join String String)
  conditions : List Ref
  orderBy : List (Ref × Direction)

def resolvePair (sources : List Table) (p : ColumnName × ColumnName) : Option (Ref × Ref) :=
  match resolveColumn sources p.1, resolveColumn sources p.2 with
  | some l, some r => some (l, r)
  | _, _ => none

def resolveJoin (sources : List Table) (clause : JoinClause) (table : Table) :
    Option (EquiJoin.Join String String) :=
  (clause.on.mapM (resolvePair sources)).map fun on =>
    ⟨decide (clause.kind = .left), table.name, on⟩

def Select.plan (ir : Document) (s : Select) : Option Plan := do
  let base ← resolveTable ir s.table
  let joined ← s.joins.mapM fun clause => resolveTable ir clause.table
  let sources := base :: joined
  let projection ← s.projection.mapM (resolveColumn sources)
  let joins ← (s.joins.zip joined).mapM fun p => resolveJoin sources p.1 p.2
  let conditions ← s.conditions.mapM (resolveColumn sources)
  let orderBy ← s.orderBy.mapM fun p => (resolveColumn sources p.1).map fun r => (r, p.2)
  some ⟨base.name, projection, joins, conditions, orderBy⟩

/-! ## Running -/

/-- The value that parameter `i` has in a comparison with the column `r`. -/
def compared (ir : Document) (affinity : Affinity) (args : ℕ → Option Value) (i : ℕ) (r : Ref) :
    Option Value :=
  (args i).map (affinity.convert (typeOf ir r))

/-- The integer of a `LIMIT` or `OFFSET` that the statement has. -/
def bound (affinity : Affinity) (present : Bool) (v : Option Value) : Except SqlError (Option ℤ) :=
  if present then
    match affinity.asInteger v with
    | some n => .ok (some n)
    | none => .error .datatypeMismatch
  else .ok none

def Plan.results (ir : Document) (affinity : Affinity) (db : Instance) (args : ℕ → Option Value)
    (plan : Plan) : List Result :=
  EquiJoin.rows db plan.base plan.joins
    (plan.conditions.zipIdx.map fun p => (p.1, compared ir affinity args p.2 p.1))

/-- The rows of the statement. `args i` is bound to the placeholder number `i`. -/
def Select.run (ir : Document) (affinity : Affinity) (db : Instance) (args : ℕ → Option Value)
    (s : Select) : Except SqlError (List (List (Option Value))) := do
  -- the grammar has OFFSET after a LIMIT only
  if s.offset && !s.limit then throw .grammar
  match s.plan ir with
  | none => throw .unknownName
  | some plan =>
      let count := plan.conditions.length
      let limit ← bound affinity s.limit (args count)
      let offset ← bound affinity s.offset (args (count + 1))
      let sorted := (plan.results ir affinity db args).insertionSort fun e e' =>
        orderedLe plan.orderBy e e'
      return (window limit offset sorted).map fun e => plan.projection.map e.cell

/-- The database keeps the primary keys and the unique keys that are declared. -/
def keysOf (ir : Document) (table : String) : List (List String) :=
  match tableByName ir table with
  | some t => t.primaryKey :: t.uniques
  | none => []

def Instance.Keeps (ir : Document) (db : Instance) : Prop :=
  EquiJoin.Unique (keysOf ir) db

end Esdb.Schema
