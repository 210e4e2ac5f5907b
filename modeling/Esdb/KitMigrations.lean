import Esdb.JsonText
import Esdb.MigrationLint
import Esdb.MigrationRun
import Mathlib.Data.List.SplitBy

/-!
# Packaging of migrations

`kit-migrations.mjs`: the SQL files below a directory become the steps of one migration,
in the order of their paths, each over the version that the one before it leads to. The
generated `migrate` hands the steps to `esdb_migrate`. The directory is a tree, file names
and JSON values are texts of UTF-16 units, and the physical schema of a chain of SQL texts,
which SQLite computes, is a parameter.
-/
namespace Esdb.KitMigrations

open JsonText Migration

/-- An error's message. -/
def say (message : String) : Text := ascii message.toList

/-! ## The files -/

inductive Entry where
  | file (name : Text) (bytes : Bytes)
  | directory (name : Text) (entries : List Entry)
  | other (name : Text)

def Entry.name : Entry → Text
  | .file name _ => name
  | .directory name _ => name
  | .other name => name

/-- A file with its path below the root. -/
structure KitFile where
  source : Text
  bytes : Bytes
  deriving DecidableEq

def lexicalCompare (left right : Text) : ℤ :=
  if left < right then -1 else if right < left then 1 else 0

def sortBy {α : Type} (key : α → Text) (l : List α) : List α :=
  l.insertionSort fun a b => lexicalCompare (key a) (key b) ≤ 0

def pathBelow (dir name : Text) : Text := if dir = [] then name else dir ++ unit '/' :: name

/-- The files of each entry, under its name, in the order of the names. -/
def inOrder (found : List (Text × List KitFile)) : List KitFile :=
  (sortBy Prod.fst found).flatMap Prod.snd

mutual
def Entry.files (dir : Text) : Entry → List KitFile
  | .file name bytes => [⟨pathBelow dir name, bytes⟩]
  | .directory name entries => inOrder (walk (pathBelow dir name) entries)
  | .other _ => []

def walk (dir : Text) : List Entry → List (Text × List KitFile)
  | [] => []
  | entry :: entries => (entry.name, entry.files dir) :: walk dir entries
end

/-- `TextDecoder` with `fatal`. -/
def decodeUtf8 (bytes : Bytes) : Option (List Char) :=
  match Utf8.scan (fun a s => (Utf8.first a s).elim (Except.error ()) Except.ok) bytes with
  | .error _ => none
  | .ok codes => some (codes.map Char.ofNat)

/-- `\r\n?` becomes a line feed. -/
def lineFeeds : List Char → List Char
  | [] => []
  | '\r' :: '\n' :: s => '\n' :: lineFeeds s
  | '\r' :: s => '\n' :: lineFeeds s
  | c :: s => c :: lineFeeds s

def normalizeMigrationSql (input : Bytes) : Except Text (List Char) :=
  if input.take 3 = [0xEF, 0xBB, 0xBF] then
    .error (say "MIG008 migration SQL must not contain a UTF-8 BOM")
  else
    match decodeUtf8 input with
    | none => .error (say "MIG008 migration SQL is not valid UTF-8")
    | some text =>
        if Char.ofNat 0 ∈ text then .error (say "MIG008 migration SQL must not contain U+0000")
        else .ok (((lineFeeds text).reverse.dropWhile (· = '\n')).reverse ++ ['\n'])

/-! ## The acknowledgement of destructive steps -/

variable {N : Type}

structure PackagedStep where
  fromVersion : ℕ
  toVersion : ℕ
  source : Text
  sql : List Char
  destructive : Bool
  destructiveAck : Bool
  deriving DecidableEq

structure Package where
  baseline : ℕ
  steps : List PackagedStep
  targetVersion : ℕ
  physicalSchema : Option Text
  deriving DecidableEq

def utf8 (sql : List Char) : Bytes := sql.flatMap String.utf8EncodeChar

/-- `kMigrationSql` of a step, with the end that C++ gives a string. -/
def migrationSql (step : PackagedStep) : Bytes := utf8 step.sql ++ [0]

/-- The text that a C function sees in an array. -/
def cString (bytes : Bytes) : Bytes := bytes.takeWhile (· ≠ 0)

variable {P : Product} (script : Bytes → Callback P)

/-- `apply_migration_n`: `esdb_exec` of the step's text, whose statements `script` reads. -/
def applyMigration (step : PackagedStep) : ℕ → ℕ → Callback P :=
  fun _ _ => script (cString (migrationSql step))

def Package.migrations (package : Package) : List (Step P) :=
  package.steps.map fun step =>
    ⟨step.fromVersion, step.toVersion, some (applyMigration script step)⟩

/-- The generated `migrate`. -/
def Package.migrate (package : Package) (allocates : Bool) : Operation P Unit :=
  if package.steps = [] then pure ()
  else Migration.migrate (package.migrations script) package.targetVersion allocates

end Esdb.KitMigrations
