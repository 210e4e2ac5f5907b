import Esdb.SqlText
import Esdb.Utf8

/-!
# The policy for migration SQL

The scanner and the rules of `migration-lint.mjs`. Comments and the contents of string
literals produce no token; a quoted identifier is told apart from a word, and only words
are taken for keywords. A text is accepted when no rule objects to one of its tokens.
-/
namespace Esdb.MigrationLint

open SqlText

/-- `Q:` marks a quoted identifier in the source. -/
inductive Token where
  | word (upper : List Char)
  | quoted (upper : List Char)
  | symbol (c : Char)
  deriving DecidableEq, Repr

abbrev Token.named (word : String) : Token := .word word.toList

/-! ## The scanner -/

def isWordChar (c : Char) : Bool := c.isAlphanum || c = '_'

/-- The length of a string literal after its opening quote. -/
def skipString : List Char → Option ℕ
  | [] => none
  | '\'' :: '\'' :: s => (skipString s).map (· + 2)
  | '\'' :: _ => some 1
  | _ :: s => (skipString s).map (· + 1)

/-- One turn of the scanner's loop: how much of `s` it takes, and its token. -/
def turn (ch : Char) (s : List Char) : Except String (ℕ × Option Token) :=
  if ch = '-' ∧ s.head? = some '-' then
    .ok (1 + (s.tail.takeWhile (· ≠ '\n')).length, none)
  else if ch = '/' ∧ s.head? = some '*' then
    match skipBlock s.tail with
    | none => .error "MIG007 unterminated SQL block comment"
    | some n => .ok (1 + n, none)
  else if ch = '\'' then
    match skipString s with
    | none => .error "MIG007 unterminated SQL string literal"
    | some n => .ok (n, none)
  else if ch = '"' ∨ ch = '`' ∨ ch = '[' then
    match readQuoted (if ch = '[' then ']' else ch) s with
    | none => .error "MIG007 unterminated quoted SQL identifier"
    | some (word, n) => .ok (n, some (.quoted (toUpperCase word)))
  else if isWordChar ch then
    let word := ch :: s.takeWhile isWordChar
    .ok (word.length - 1, some (.word (toUpperCase word)))
  else if ch = '.' ∨ ch = ';' ∨ ch = '(' ∨ ch = ')' then .ok (0, some (.symbol ch))
  else .ok (0, none)

structure Violation where
  code : String
  message : String
  deriving DecidableEq, Repr

def transactionControl : List String :=
  ["BEGIN", "COMMIT", "END", "ROLLBACK", "SAVEPOINT", "RELEASE"]

def dangerousPragmas : List String :=
  ["USER_VERSION", "SCHEMA_VERSION", "JOURNAL_MODE", "LOCKING_MODE", "SYNCHRONOUS",
    "WAL_CHECKPOINT", "WRITABLE_SCHEMA", "FOREIGN_KEYS"]

def directlyForbidden : List String := ["ATTACH", "DETACH", "VACUUM"]

def internalSchemaNames : List String := ["SQLITE_SCHEMA", "SQLITE_MASTER"]

def Token.among (token : Token) (words : List String) : Bool :=
  words.any fun word => token = .named word

/-- The name after a `PRAGMA`, behind its schema. -/
def pragmaName (rest : List Token) : Option Token :=
  if rest[1]? = some (.symbol '.') then rest[2]? else rest[0]?

def Token.text : Token → String
  | .word upper => String.ofList upper
  | .quoted upper => "Q:" ++ String.ofList upper
  | .symbol c => String.singleton c

def Token.identifier : Token → String
  | .word upper => String.ofList upper
  | .quoted upper => String.ofList upper
  | .symbol c => String.singleton c

/-- What the rules say of a token and the ones after it. -/
def violationsAt (token : Token) (rest : List Token) : List Violation :=
  (if token.among transactionControl then
    [⟨"MIG001", s!"transaction control \"{token.text}\" is owned by esdb_migrate()"⟩] else []) ++
  (if token.among directlyForbidden then
    [⟨"MIG002", s!"statement \"{token.text}\" is forbidden in packaged migrations"⟩] else []) ++
  (if token = .named "PRAGMA" then
    match pragmaName rest with
    | none => []
    | some name =>
        if name.among dangerousPragmas then
          [⟨"MIG003", s!"PRAGMA {name.text.toLower} is owned by ESDB Runtime"⟩] else []
  else []) ++
  (if token.among ["TEMP", "TEMPORARY"] then
    [⟨"MIG004", "temporary-schema objects are forbidden in packaged migrations"⟩] else []) ++
  (if token.identifier ∈ internalSchemaNames then
    [⟨"MIG005", s!"direct access to {token.identifier.toLower} is forbidden in packaged migrations"⟩]
  else [])

/-- The violations at every token, each once. -/
def violations : List Token → List Violation → List Violation
  | [], found => found
  | token :: rest, found =>
      violations rest ((violationsAt token rest).foldl
        (fun found v => if v ∈ found then found else found ++ [v]) found)

structure LintResult where
  violations : List Violation
  destructive : Bool
  tokens : List Token
  deriving DecidableEq, Repr

def LintResult.ok (r : LintResult) : Bool := r.violations.isEmpty

end Esdb.MigrationLint
