import Esdb.Types
import Esdb.TransactionalProgram
import Mathlib.Data.Int.Notation

/-!
# The runtime wrapper around one SQLite connection

`esdb_database` mirrors SQLite's transaction stack from the outside: a flag, the
handle of the transaction in progress and the names of the open savepoints. The
wrapper changes the mirror after each call it makes itself and resynchronizes it
from the autocommit flag after SQL that came from the caller.

Some fields are not in the source: a handle carries the serial number of the
transaction its `esdb_begin` opened, the database those of all savepoints that
`esdb_savepoint_begin` opened, and a subscription where it started and what its
callbacks have accepted. No function reads them.
-/
namespace Esdb

open Transactional

/-! ## SQLite's side -/

namespace Sqlite

def error : ℤ := 1
def busy : ℤ := 5
def nomem : ℤ := 7
def readonly : ℤ := 8
def corrupt : ℤ := 11
def notFound : ℤ := 12
def full : ℤ := 13
def mismatch : ℤ := 20
def misuse : ℤ := 21
def range : ℤ := 25

end Sqlite

/-- `map_sqlite_status` on the codes that are not OK, ROW or DONE. -/
def mapSqliteStatus (code : ℤ) : Status :=
  match code % 256 with
  | 5 | 6 => .busy
  | 7 => .outOfMemory
  | 10 | 14 | 8 | 13 | 3 => .io
  | 19 => .constraint
  | 11 | 26 => .corrupt
  | 12 => .notFound
  | 21 => .invalidState
  | 25 => .invalidArgument
  | 20 => .typeMismatch
  | _ => .sqlite

/-- Statements over some content; names are savepoint identifiers in the case
SQLite compares them in, errors are result codes. -/
structure Dialect where
  Stmt : Type
  Row : Stmt → Type
  Content : Type
  writes : Stmt → Bool
  eval : (s : Stmt) → Content → Except ℤ (Row s × Content)
  eval_reads : ∀ {s d r d'}, writes s = false → eval s d = .ok (r, d') → d' = d
  decContent : DecidableEq Content

abbrev Dialect.language (D : Dialect) : Language where
  Stmt := D.Stmt
  Row := D.Row
  Content := D.Content
  Name := Bytes
  Error := ℤ
  writes := D.writes
  eval := D.eval
  eval_reads := D.eval_reads
  decContent := D.decContent
  decName := inferInstance

def refusalCode : Refusal ℤ → ℤ
  | .busy => Sqlite.busy
  | .alreadyOpen | .noTransaction | .noSavepoint => Sqlite.error
  | .failed e => e

/-- The failure recorded for a command SQLite refused, with SQLite's own text. -/
def sqliteFailure (phase : Phase) (r : Refusal ℤ) : Failure :=
  .recorded (mapSqliteStatus (refusalCode r)) phase (refusalCode r) none

/-- SQLite compares identifiers without regard to ASCII case. -/
def foldCase (name : Bytes) : Bytes :=
  name.map fun c => if 65 ≤ c && c ≤ 90 then c + 32 else c

namespace Runtime

/-! ## The wrapper's state -/

/-- `esdb_transaction`. A deleted handle stays in the list: a call on it is a use
after free, which no caller may make. -/
structure Transaction where
  active : Bool
  destroyed : Bool
  opened : ℕ
  deriving DecidableEq, Repr

/-- One change as a callback is shown it. -/
structure OwnedChange where
  revision : ℕ
  operation : ℕ
  valueType : ℕ
  storeName : Bytes
  key : Bytes
  deriving DecidableEq, Repr

/-- `esdb_object_subscription`; no filter means all stores. -/
structure ObjectSubscription where
  filter : Option Bytes
  revision : ℕ
  start : ℕ
  delivered : List OwnedChange
  deriving DecidableEq, Repr

/-- `esdb_database`. The shadow stack stands most recent first, so its length is
`savepoint_depth`. Handles are positions in the lists. `readOnly` is what
`sqlite3_db_readonly` answers for the main database. -/
structure Database where
  transactionActive : Bool
  activeTransaction : Option ℕ
  savepoints : List Bytes
  objectStoreSchemaReady : Bool
  transactions : List Transaction
  subscriptions : List ObjectSubscription
  readOnly : ℤ
  marks : List ℕ
  deriving DecidableEq, Repr

namespace Database

/-- The state after `esdb_open`. -/
def opened (readOnly : ℤ) : Database := ⟨false, none, [], false, [], [], readOnly, []⟩

def setActive (id : ℕ) (active : Bool) (db : Database) : Database :=
  { db with transactions := db.transactions.modify id fun tx => { tx with active := active } }

/-- `esdb_transaction_active`. -/
def active (id : ℕ) (db : Database) : Bool :=
  match db.transactions[id]? with
  | some tx => tx.active
  | none => false

/-- What both branches of `finish_transaction` do once the transaction is over. -/
def finished (id : ℕ) (db : Database) : Database :=
  { db.setActive id false with
    savepoints := []
    activeTransaction := if db.activeTransaction = some id then none else db.activeTransaction }

/-- The resynchronization after caller SQL, in `esdb_exec` and `esdb_query`. -/
def sync (autocommit : Bool) (db : Database) : Database :=
  let db := { db with transactionActive := !autocommit }
  if autocommit then
    match db.activeTransaction with
    | none => { db with savepoints := [] }
    | some id => { db.setActive id false with savepoints := [], activeTransaction := none }
  else db

end Database

variable {D : Dialect}

abbrev Operation (D : Dialect) (α : Type) : Type := Op D.language Database Failure α

/-- `exec_sql` on one statement. -/
def execSql (phase : Phase) (c : Cmd D.language) : Operation D c.Row :=
  Op.call (sqliteFailure phase) c

/-! ## Transactions -/

def beginSql : ℕ → Option Bool
  | 0 => some false
  | 1 => some true
  | 2 => some true
  | _ => none

/-- `esdb_begin`. `allocates` says whether the handle can be allocated. -/
def begin (mode : ℕ) (allocates : Bool) : Operation D ℕ := do
  let db ← Op.get
  if db.transactionActive then
    Op.fail (.recorded .invalidState .transaction Sqlite.misuse
      (some "an ESDB transaction is already active on this connection"))
  else
    match beginSql mode with
    | none =>
        Op.fail (.recorded .invalidArgument .transaction Sqlite.misuse
          (some "unknown transaction mode"))
    | some immediate => do
        let serial ← execSql .transaction (.begin immediate)
        Op.modify fun db => { db with transactionActive := true }
        if !allocates then do
          let _ ← Op.attempt (execSql (D := D) .transaction .rollback)
          Op.modify fun db => { db with transactionActive := false }
          Op.fail (.recorded .outOfMemory .transaction Sqlite.nomem
            (some "transaction allocation failed"))
        else do
          let id := db.transactions.length
          Op.modify fun db => { db with
            transactions := db.transactions ++ [⟨true, false, serial⟩]
            activeTransaction := some id }
          pure id

/-- `finish_transaction`. -/
def finishTransaction (id : ℕ) (commit : Bool) : Operation D Unit := do
  let db ← Op.get
  if !db.active id then
    Op.fail (.recorded .invalidState .transaction Sqlite.misuse
      (some "transaction is not active"))
  else do
    let status ← Op.attempt
      (if commit then execSql (D := D) .transaction .commit
        else execSql (D := D) .transaction .rollback)
    match status with
    | .ok _ => Op.modify fun db => { db.finished id with transactionActive := false }
    | .error e => do
        -- A refused COMMIT can leave the transaction open.
        let autocommit ← Op.autocommit
        Op.modify fun db =>
          if autocommit then { db.finished id with transactionActive := false }
          else { db with transactionActive := true }
        Op.fail e

/-- `esdb_transaction_destroy`. -/
def destroy (id : ℕ) : Operation D Unit := do
  let db ← Op.get
  if db.active id then do
    let _ ← Op.attempt (finishTransaction (D := D) id false)
    Op.modify fun db => { db with
      transactions := db.transactions.modify id fun tx => { tx with destroyed := true } }
  else
    Op.modify fun db => { db with
      transactions := db.transactions.modify id fun tx => { tx with destroyed := true } }

/-! ## Savepoints -/

def savepointNameMaxBytes : ℕ := 64

def savepointByte (c : UInt8) : Bool :=
  (65 ≤ c && c ≤ 90) || (97 ≤ c && c ≤ 122) || (48 ≤ c && c ≤ 57) || c == 95

/-- The bytes of `__esdb_`. -/
def reservedPrefix : Bytes := [95, 95, 101, 115, 100, 98, 95]

/-- `valid_savepoint_name`. -/
def validSavepointName (name : Bytes) : Bool :=
  name != [] && name.all savepointByte && name.length ≤ savepointNameMaxBytes &&
    !(reservedPrefix.isPrefixOf (foldCase name))

def maxSavepoints : ℕ := 64

def invalidSavepointName : Failure :=
  .recorded .invalidArgument .savepoint Sqlite.misuse
    (some "invalid savepoint name (expected [A-Za-z0-9_], 1..64 bytes)")

/-- `esdb_savepoint_begin`. -/
def savepointBegin (name : Bytes) : Operation D Unit := do
  if !validSavepointName name then Op.fail invalidSavepointName
  else do
    let db ← Op.get
    if !db.transactionActive then
      Op.fail (.recorded .invalidState .savepoint Sqlite.misuse
        (some "savepoints require an active transaction"))
    else if maxSavepoints ≤ db.savepoints.length then
      Op.fail (.recorded .invalidState .savepoint Sqlite.misuse
        (some "savepoint depth limit reached"))
    else do
      let serial ← execSql (D := D) .savepoint (.savepoint (foldCase name))
      Op.modify fun db => { db with
        savepoints := name :: db.savepoints
        marks := serial :: db.marks }

/-- `esdb_savepoint_release`. -/
def savepointRelease (name : Bytes) : Operation D Unit := do
  if !validSavepointName name then Op.fail invalidSavepointName
  else do
    let db ← Op.get
    if db.savepoints.head? ≠ some name then
      Op.fail (.recorded .invalidState .savepoint Sqlite.misuse
        (some "savepoint release must match the most recent active savepoint"))
    else do
      execSql (D := D) .savepoint (.release (foldCase name))
      Op.modify fun db => { db with savepoints := db.savepoints.tail }

/-- `esdb_savepoint_rollback`. -/
def savepointRollback (name : Bytes) : Operation D Unit := do
  if !validSavepointName name then Op.fail invalidSavepointName
  else do
    let db ← Op.get
    if db.savepoints.head? ≠ some name then
      Op.fail (.recorded .invalidState .savepoint Sqlite.misuse
        (some "savepoint rollback must match the most recent active savepoint"))
    else do
      execSql (D := D) .savepoint (.rollbackTo (foldCase name))
      execSql (D := D) .savepoint (.release (foldCase name))
      Op.modify fun db => { db with savepoints := db.savepoints.tail }

/-! ## SQL from the caller -/

/-- `sqlite3_exec`: the statements of one string, up to the first that fails. -/
def execStatements (phase : Phase) : List (Cmd D.language) → Operation D Unit
  | [] => pure ()
  | c :: rest => do
      let _ ← execSql phase c
      execStatements phase rest

def resync : Operation D Unit := do
  let autocommit ← Op.autocommit
  Op.modify (Database.sync autocommit)

def rethrow {α : Type} : Except Failure α → Operation D α
  | .ok a => pure a
  | .error e => Op.fail e

/-- `esdb_exec`. -/
def exec (sql : List (Cmd D.language)) : Operation D Unit := do
  let status ← Op.attempt (execStatements .exec sql)
  resync
  rethrow status

/-- `esdb_query`. `rejected` is the failure of a call that does not get as far as
stepping the statement: a null argument, a statement that does not prepare, a
parameter that does not bind. -/
def query (rejected : Option Failure) (sql : List (Cmd D.language)) : Operation D Unit :=
  match rejected, sql with
  | some e, _ => Op.fail e
  | none, [c] => do
      let status ← Op.attempt (execStatements .exec [c])
      resync
      rethrow status
  | none, _ =>
      Op.fail (.recorded .invalidArgument .exec Sqlite.misuse
        (some "esdb_query accepts exactly one SQL statement"))

end Runtime

end Esdb
