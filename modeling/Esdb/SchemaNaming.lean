import Mathlib.Data.List.Basic

/-!
# Names in the generated code

The generators split a name into words, at what is no letter or digit and where a
capital follows a small letter or a digit, and join the words in the case that the
target asks for.
-/
namespace Esdb.Schema

def isLowerOrDigit (c : Char) : Bool := c.isLower || c.isDigit

/-- `replace(/([a-z0-9])([A-Z])/g, "$1_$2")`. -/
def markWords : List Char → List Char
  | a :: b :: s =>
      if isLowerOrDigit a && b.isUpper then a :: '_' :: markWords (b :: s)
      else a :: markWords (b :: s)
  | s => s

/-- `splitWords`. -/
def splitWords (name : String) : List (List Char) :=
  ((markWords name.toList).splitOnP fun c => !c.isAlphanum).filter fun word => !word.isEmpty

def capitalize : List Char → List Char
  | [] => []
  | c :: s => c.toUpper :: s

/-- `toPascal`. -/
def toPascal (name : String) : String := String.ofList ((splitWords name).flatMap capitalize)

/-- `toCamel`. -/
def toCamel (name : String) : String :=
  match (toPascal name).toList with
  | [] => ""
  | c :: s => String.ofList (c.toLower :: s)

/-- `toSnake`. -/
def toSnake (name : String) : String :=
  "_".intercalate ((splitWords name).map fun word => String.ofList (word.map Char.toLower))

/-- `queryMethodName`. -/
def queryMethodName (queryName : String) : String :=
  match queryName.toList.dropWhile fun c => c ≠ '.' with
  | [] => toCamel queryName
  | _ :: suffix => toCamel (String.ofList suffix)

example : toSnake "userID2Name" = "user_id2_name" := by decide +kernel

end Esdb.Schema
