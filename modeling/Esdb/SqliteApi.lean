import Esdb.Dialogue
import Esdb.ErrorText
import Esdb.Runtime

/-!
# SQLite as the runtime calls it

The calls of SQLite and ZIPVFS the runtime makes to open, configure, read, check, back up and
close a database. Which of them are allowed where, and what their answers may be, is what the
documentation of SQLite says: a call takes a handle that is open, a connection is closed behind
its statements and backups, a pragma touches no setting but its own. Beyond that they may
answer as they like, and any of them may fail.
-/
namespace Esdb.SqliteApi

open ErrorText Dialogue

/-! ## Calls and answers -/

theorem notMem_cString (buffer : Bytes) : (0 : UInt8) ∉ cString buffer := fun h => by
  simpa using List.mem_takeWhile_imp h

/-- A text of the source, up to its terminator. -/
def literal (text : String) : CString :=
  ⟨cString (OrmWire.textBytes text.toList), notMem_cString _⟩

/-- A result code that says neither OK nor ROW nor DONE, whatever its extended part. -/
structure ErrorCode where
  code : ℤ
  error : code % 256 ≠ 0 ∧ code % 256 ≠ 100 ∧ code % 256 ≠ 101

/-- `CodecConfig`, the context of a registered ZIPVFS. -/
structure CodecConfig where
  codec : UInt32
  level : ℤ
  vfsName : String
  header : String
  deriving DecidableEq, Repr

inductive Call where
  /-- `new (std::nothrow) esdb_database()` -/
  | newDatabase
  | deleteDatabase
  /-- An allocation of the standard library, which gives its memory back by itself. -/
  | allocate
  | openV2 (path : CString) (flags : UInt32) (vfs : Option String)
  | closeV2 (db : ℕ)
  | extendedErrcode (db : ℕ)
  /-- `sqlite3_errcode` behind a call that has failed. -/
  | errcode (db : ℕ)
  | errmsg (db : ℕ)
  | extendedResultCodes (db : ℕ)
  | busyTimeout (db : ℕ) (ms : ℕ)
  | exec (db : ℕ) (sql : String)
  | free (message : Option CString)
  | prepareV3 (db : ℕ) (sql : String)
  | step (stmt : ℕ)
  | columnInt64 (stmt : ℕ)
  | columnText (stmt : ℕ)
  | finalize (stmt : ℕ)
  | fileControlStat (db : ℕ)
  | createVfs (config : CodecConfig)
  | zipvfsErrmsg (code : ErrorCode)
  | backupInit (target source : ℕ)
  | backupStep (backup : ℕ) (pages : ℤ)
  | backupFinish (backup : ℕ)
  | sleep (ms : ℕ)

inductive Opened where
  | ok (db : ℕ)
  | failed (e : ErrorCode) (db : Option ℕ)

inductive Executed where
  | ok (message : Option CString)
  | failed (e : ErrorCode) (message : Option CString)

def Executed.message : Executed → Option CString
  | .ok message => message
  | .failed _ message => message

inductive Stepped where
  | row | done
  | failed (e : ErrorCode)

/-- The answer to `sqlite3_backup_step`. -/
inductive Copied where
  | more | done
  | failed (e : ErrorCode)

def Call.Answer : Call → Type
  | newDatabase | allocate => Bool
  | openV2 .. => Opened
  | closeV2 _ | busyTimeout .. | fileControlStat _ | createVfs _ | backupFinish _ =>
      Except ErrorCode Unit
  | extendedErrcode _ | columnInt64 _ => ℤ
  | errcode _ => ErrorCode
  | errmsg _ => CString
  | exec .. => Executed
  | prepareV3 .. => Except ErrorCode ℕ
  | step _ => Stepped
  | columnText _ | zipvfsErrmsg _ => Option CString
  | backupInit .. => Option ℕ
  | backupStep .. => Copied
  | deleteDatabase | extendedResultCodes _ | free _ | finalize _ | sleep _ => Unit

/-! ## What is open -/

/-- What a pragma tells of a connection or of its file. -/
inductive Setting where
  | foreignKeys | journalMode | zipvfsJournalMode | synchronous | cacheSize | walAutocheckpoint
  | pageSize | pageCount | freelistCount | busyTimeout | userVersion
  deriving DecidableEq, Repr

def Setting.name : Setting → String
  | foreignKeys => "foreign_keys"
  | journalMode => "journal_mode"
  | zipvfsJournalMode => "zipvfs_journal_mode"
  | synchronous => "synchronous"
  | cacheSize => "cache_size"
  | walAutocheckpoint => "wal_autocheckpoint"
  | pageSize => "page_size"
  | pageCount => "page_count"
  | freelistCount => "freelist_count"
  | busyTimeout => "busy_timeout"
  | userVersion => "user_version"

def readSql (s : Setting) : String := "PRAGMA " ++ s.name ++ ";"

def writeSql (s : Setting) (value : String) : String := "PRAGMA " ++ s.name ++ "=" ++ value ++ ";"

/-- The settings that are told as a text. -/
def Setting.textual : Setting → Bool
  | journalMode | zipvfsJournalMode => true
  | _ => false

inductive Cell where
  | integer (n : ℤ)
  | text (t : CString)

/-- A connection. `problems` is what a check of its file finds, `content` what the file holds,
and `refused` says that SQLite was told to close it and did not. -/
structure Conn where
  path : CString
  flags : UInt32
  vfs : Option String
  zipvfs : Bool
  number : Setting → ℤ
  mode : Setting → CString
  problems : List CString
  content : Bytes
  refused : Bool

def Conn.cell (c : Conn) (s : Setting) : Cell :=
  if s.textual then .text (c.mode s) else .integer (c.number s)

structure Stmt where
  db : ℕ
  row : Option Cell
  rest : List Cell

structure Backup where
  target : ℕ
  source : ℕ
  complete : Bool

/-- What a process has got from SQLite and not given back; `closed` is what it closed. -/
structure Held where
  records : ℕ
  messages : ℕ
  conn : ℕ → Option Conn
  stmt : ℕ → Option Stmt
  backup : ℕ → Option Backup
  vfs : String → Option CodecConfig
  closed : List Conn

namespace Held

variable (w : Held)

def setConn (db : ℕ) (c : Option Conn) : Held := { w with conn := Function.update w.conn db c }

def setStmt (s : ℕ) (st : Option Stmt) : Held := { w with stmt := Function.update w.stmt s st }

def setBackup (b : ℕ) (bk : Option Backup) : Held :=
  { w with backup := Function.update w.backup b bk }

def addVfs (config : CodecConfig) : Held :=
  { w with vfs := Function.update w.vfs config.vfsName (some config) }

@[simp] theorem addVfs_vfs (config : CodecConfig) :
    (w.addVfs config).vfs = Function.update w.vfs config.vfsName (some config) := rfl

@[simp] theorem setConn_self (db : ℕ) (c : Option Conn) : (w.setConn db c).conn db = c :=
  Function.update_self ..

@[simp] theorem setConn_setConn (db : ℕ) (c c' : Option Conn) :
    (w.setConn db c).setConn db c' = w.setConn db c' := by
  simp [setConn]

@[simp] theorem setStmt_conn (s : ℕ) (st : Option Stmt) : (w.setStmt s st).conn = w.conn := rfl

@[simp] theorem setStmt_self (s : ℕ) (st : Option Stmt) : (w.setStmt s st).stmt s = st :=
  Function.update_self ..

@[simp] theorem setStmt_setStmt (s : ℕ) (st st' : Option Stmt) :
    (w.setStmt s st).setStmt s st' = w.setStmt s st' := by
  simp [setStmt]

/-- A connection with nothing on it. -/
def Idle (db : ℕ) : Prop :=
  (∀ s st, w.stmt s = some st → st.db ≠ db) ∧
    ∀ b bk, w.backup b = some bk → bk.target ≠ db ∧ bk.source ≠ db

/-- Statements and backups are on connections that are open. -/
structure Owned : Prop where
  stmt : ∀ s st, w.stmt s = some st → (w.conn st.db).isSome
  backup : ∀ b bk, w.backup b = some bk → (w.conn bk.target).isSome ∧ (w.conn bk.source).isSome

variable {w} in
theorem Owned.idle (h : w.Owned) {db : ℕ} (hdb : w.conn db = none) : w.Idle db := by
  have hne : ∀ {db' : ℕ}, (w.conn db').isSome → db' ≠ db := by
    rintro _ hsome rfl
    rw [hdb] at hsome
    cases hsome
  exact ⟨fun s st hst => hne (h.stmt s st hst),
    fun b bk hbk => ⟨hne (h.backup b bk hbk).1, hne (h.backup b bk hbk).2⟩⟩

end Held

/-! ## The documented behaviour -/

/-- The mode of an open is one of three. -/
def openMode (flags : UInt32) : Prop :=
  flags &&& 7 = 1 ∨ flags &&& 7 = 2 ∨ flags &&& 7 = 6

/-- What a caller owes SQLite. -/
def May (w : Held) : Call → Prop
  | .newDatabase | .allocate | .zipvfsErrmsg _ | .sleep _ => True
  | .deleteDatabase => 0 < w.records
  | .openV2 _ flags vfs => openMode flags ∧ ∀ name, vfs = some name → (w.vfs name).isSome
  | .closeV2 db => (w.conn db).isSome ∧ w.Idle db
  | .busyTimeout db ms => (w.conn db).isSome ∧ ms ≤ 2147483647
  | .extendedErrcode db | .errcode db | .errmsg db | .extendedResultCodes db | .exec db _
  | .prepareV3 db _ | .fileControlStat db => (w.conn db).isSome
  | .free message => message.isSome → 0 < w.messages
  | .step s | .finalize s => (w.stmt s).isSome
  | .columnInt64 s | .columnText s => ∃ st, w.stmt s = some st ∧ st.row.isSome
  | .createVfs config => w.vfs config.vfsName = none
  | .backupInit target source =>
      (w.conn target).isSome ∧ (w.conn source).isSome ∧ target ≠ source
  | .backupStep b _ | .backupFinish b => (w.backup b).isSome

/-- A statement that sets one thing leaves the others. -/
def Touches (sql : String) (c c' : Conn) : Prop :=
  c'.path = c.path ∧ c'.flags = c.flags ∧ c'.vfs = c.vfs ∧ c'.zipvfs = c.zipvfs ∧
    c'.refused = c.refused ∧
    ∀ s v, sql = writeSql s v → ∀ s', s' ≠ s →
      c'.number s' = c.number s' ∧ c'.mode s' = c.mode s'

/-- The rows of a statement that reads. A pragma of ZIPVFS has none elsewhere. -/
def Rows (sql : String) (c : Conn) (rows : List Cell) : Prop :=
  (∀ s, sql = readSql s →
    rows = [c.cell s] ∨ (s = .zipvfsJournalMode ∧ c.zipvfs = false) ∧ rows = []) ∧
    (sql = "PRAGMA quick_check;" ∨ sql = "PRAGMA integrity_check;" →
      literal "ok" ∉ c.problems ∧
        rows = if c.problems = [] then [.text (literal "ok")] else c.problems.map .text)

/-- What may come of a call. -/
def Replies (w : Held) : (c : Call) → c.Answer → Held → Prop
  | .newDatabase, true, w' => w' = { w with records := w.records + 1 }
  | .deleteDatabase, _, w' => w' = { w with records := w.records - 1 }
  | .openV2 path flags vfs, .ok db, w' =>
      w.conn db = none ∧ ∃ c : Conn, c.path = path ∧ c.flags = flags ∧ c.vfs = vfs ∧
        c.refused = false ∧ w' = w.setConn db (some c)
  | .openV2 .., .failed _ (some db), w' =>
      w.conn db = none ∧ ∃ c : Conn, w' = w.setConn db (some c)
  | .openV2 .., .failed _ none, w' => w' = w
  | .closeV2 db, .ok _, w' =>
      ∃ c, w.conn db = some c ∧ w' = { w.setConn db none with closed := w.closed ++ [c] }
  | .closeV2 db, .error _, w' =>
      ∃ c, w.conn db = some c ∧ w' = w.setConn db (some { c with refused := true })
  | .busyTimeout db ms, .ok _, w' =>
      ∃ c, w.conn db = some c ∧
        w' = w.setConn db
          (some { c with number := Function.update c.number .busyTimeout ms })
  | .exec db sql, r, w' =>
      ∃ c c', w.conn db = some c ∧ Touches sql c c' ∧
        w' = { w.setConn db (some c') with
          messages := w.messages + if r.message.isSome then 1 else 0 }
  | .free message, _, w' =>
      w' = { w with messages := w.messages - if message.isSome then 1 else 0 }
  | .prepareV3 db sql, .ok s, w' =>
      w.stmt s = none ∧ ∃ c rows, w.conn db = some c ∧ Rows sql c rows ∧
        w' = w.setStmt s (some ⟨db, none, rows⟩)
  | .step s, .row, w' =>
      ∃ st r rest, w.stmt s = some st ∧ st.rest = r :: rest ∧
        w' = w.setStmt s (some ⟨st.db, some r, rest⟩)
  | .step s, .done, w' =>
      ∃ st, w.stmt s = some st ∧ st.rest = [] ∧ w' = w.setStmt s (some ⟨st.db, none, []⟩)
  | .step s, .failed _, w' =>
      ∃ st, w.stmt s = some st ∧ w' = w.setStmt s (some { st with row := none })
  | .columnInt64 s, n, w' =>
      (∃ st r, w.stmt s = some st ∧ st.row = some r ∧ ∀ m, r = .integer m → n = m) ∧ w' = w
  | .columnText s, text, w' =>
      (∃ st r, w.stmt s = some st ∧ st.row = some r ∧
        ∀ t t', text = some t → r = .text t' → t = t') ∧ w' = w
  | .finalize s, _, w' => w' = w.setStmt s none
  | .fileControlStat db, .ok _, w' => (∃ c, w.conn db = some c ∧ c.zipvfs = true) ∧ w' = w
  | .createVfs config, .ok _, w' => w' = w.addVfs config
  | .backupInit target source, some b, w' =>
      w.backup b = none ∧ w' = w.setBackup b (some ⟨target, source, false⟩)
  | .backupStep b _, .done, w' =>
      ∃ bk t s, w.backup b = some bk ∧ w.conn bk.target = some t ∧ w.conn bk.source = some s ∧
        w' = (w.setConn bk.target (some { t with content := s.content })).setBackup b
          (some { bk with complete := true })
  | .backupStep b pages, .more, w' =>
      0 ≤ pages ∧ ∃ bk t content, w.backup b = some bk ∧ w.conn bk.target = some t ∧
        w' = w.setConn bk.target (some { t with content := content })
  | .backupStep b _, .failed _, w' =>
      ∃ bk t content, w.backup b = some bk ∧ w.conn bk.target = some t ∧
        w' = w.setConn bk.target (some { t with content := content })
  | .backupFinish b, r, w' =>
      ∃ bk t content, w.backup b = some bk ∧ w.conn bk.target = some t ∧
        (r = .ok () → bk.complete = true → content = t.content) ∧
        w' = (w.setConn bk.target (some { t with content := content })).setBackup b none
  | _, _, w' => w' = w

/-- SQLite, ZIPVFS and the allocator, as far as the runtime can rely on them. -/
abbrev sqlite : World Call.Answer := ⟨Held, May, Replies⟩

end Esdb.SqliteApi
