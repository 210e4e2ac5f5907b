import Esdb.StorageProvider

/-!
# Opening a database

`esdb_open` checks what it is asked for, selects the storage, opens a connection and applies
each setting, which it reads back. Where it succeeds the connection is set as the options have
it; where it fails it has given back what it took.
-/
namespace Esdb.RuntimeOpen

open ErrorText Dialogue SqliteApi RuntimeCalls StorageProvider

/-- `esdb_database`: its connection and the options it was opened with. -/
structure Database where
  handle : ℕ
  options : OpenOptions
  deriving DecidableEq, Repr

/-! ## Requests -/

def hasFlag (flags flag : UInt32) : Bool := flags &&& flag ≠ 0

def sqliteOpenFlags (flags : UInt32) : UInt32 :=
  (if hasFlag flags OpenFlag.readonly then 1 else 0) |||
    (if hasFlag flags OpenFlag.readwrite then 2 else 0) |||
    (if hasFlag flags OpenFlag.create then 4 else 0) |||
    (if hasFlag flags OpenFlag.uri then 0x40 else 0) |||
    (if hasFlag flags OpenFlag.fullmutex then 0x10000 else 0) |||
    (if hasFlag flags OpenFlag.nomutex then 0x8000 else 0) |||
    (if hasFlag flags OpenFlag.nofollow then 0x1000000 else 0)

def knownFlags : UInt32 :=
  OpenFlag.readonly ||| OpenFlag.readwrite ||| OpenFlag.create ||| OpenFlag.uri |||
    OpenFlag.fullmutex ||| OpenFlag.nomutex ||| OpenFlag.nofollow

def validOpenFlags (flags : UInt32) : Bool :=
  if flags &&& ~~~knownFlags ≠ 0 then false
  else if hasFlag flags OpenFlag.readonly = hasFlag flags OpenFlag.readwrite then false
  else if hasFlag flags OpenFlag.readonly && hasFlag flags OpenFlag.create then false
  else if hasFlag flags OpenFlag.fullmutex && hasFlag flags OpenFlag.nomutex then false
  else true

def validJournalRequest (mode : UInt32) : Bool :=
  mode = Journal.unchanged || mode = Journal.delete || mode = Journal.truncate ||
    mode = Journal.persist || mode = Journal.wal

def validSynchronousRequest (mode : UInt32) : Bool :=
  mode = Synchronous.unchanged || mode = Synchronous.normal || mode = Synchronous.full ||
    mode = Synchronous.extra

def parseJournalMode : Option CString → UInt32
  | none => Journal.unchanged
  | some text =>
      if text.bytes = (literal "delete").bytes then Journal.delete
      else if text.bytes = (literal "truncate").bytes then Journal.truncate
      else if text.bytes = (literal "persist").bytes then Journal.persist
      else if text.bytes = (literal "memory").bytes then Journal.memory
      else if text.bytes = (literal "wal").bytes then Journal.wal
      else if text.bytes = (literal "off").bytes then Journal.off
      else Journal.unchanged

def journalModeSql (mode : UInt32) : Option String :=
  if mode = Journal.delete then some "PRAGMA journal_mode=DELETE;"
  else if mode = Journal.truncate then some "PRAGMA journal_mode=TRUNCATE;"
  else if mode = Journal.persist then some "PRAGMA journal_mode=PERSIST;"
  else if mode = Journal.memory then some "PRAGMA journal_mode=MEMORY;"
  else if mode = Journal.wal then some "PRAGMA journal_mode=WAL;"
  else none

def synchronousSql (mode : UInt32) : Option String :=
  if mode = Synchronous.normal then some "PRAGMA synchronous=NORMAL;"
  else if mode = Synchronous.full then some "PRAGMA synchronous=FULL;"
  else if mode = Synchronous.extra then some "PRAGMA synchronous=EXTRA;"
  else none

section

variable (B : Build) (wanted : Bool)

/-- `set_error` before there is a connection, and the return of its status. -/
def rejectOpen {α : Type} (status : Status) (code : ℤ) (message : String) : Try α :=
  refuse B wanted status .open none code (some (literal message))

def validateStorageRequest (options : OpenOptions) : Try Unit :=
  if options.storageMode = Storage.default ∨ options.storageMode = Storage.plain then
    if options.storageProvider ≠ Provider.auto ∧ options.storageProvider ≠ Provider.sqlite then
      rejectOpen B wanted .invalidArgument Sqlite.misuse
        "plain storage cannot use a compressed storage provider"
    else if options.compressionCodec ≠ Codec.none ∨ options.compressionLevel ≠ 0 then
      rejectOpen B wanted .invalidArgument Sqlite.misuse
        "plain storage requires codec=NONE and compression_level=0"
    else pure ()
  else if options.storageMode = Storage.compressed then
    if options.storageProvider ≠ Provider.auto ∧ options.storageProvider ≠ Provider.zipvfs then
      rejectOpen B wanted .invalidArgument Sqlite.misuse
        "compressed storage requires ZIPVFS or AUTO provider selection"
    else if options.compressionCodec ≠ Codec.zstd ∧ options.compressionCodec ≠ Codec.deflate then
      rejectOpen B wanted .invalidArgument Sqlite.misuse
        "compressed storage requires ZSTD or DEFLATE codec selection"
    else if ¬ B.zipvfs then
      rejectOpen B wanted .unsupported Sqlite.notFound
        "this ESDB build does not contain licensed ZIPVFS support"
    else if options.compressionCodec = Codec.zstd ∧ ¬ zipvfsZstdCompiled B then
      rejectOpen B wanted .unsupported Sqlite.notFound
        "this ZIPVFS build does not contain the optional Zstd codec"
    else if options.journalMode ≠ Journal.unchanged ∧ options.journalMode ≠ Journal.wal then
      rejectOpen B wanted .unsupported Sqlite.misuse
        "ZIPVFS currently supports ESDB journal selection UNCHANGED or WAL"
    else if options.synchronous ≠ Synchronous.unchanged then
      rejectOpen B wanted .unsupported Sqlite.misuse
        ("ZIPVFS lower-pager synchronous tuning is provider-specific; " ++
          "leave ESDB synchronous UNCHANGED")
    else pure ()
  else rejectOpen B wanted .invalidArgument Sqlite.misuse "unknown storage mode"

/-! ## Configuration -/

def failConfigure {α : Type} (db : ℕ) (status : Status) (code : ℤ) (message : String) : Try α :=
  fail B wanted status .configure (some db) code (some (literal message))

/-- Sets a number by one pragma and reads it back by another. -/
def applyExactly (db : ℕ) (write read : String) (expected : ℤ) (message : String) : Try Unit := do
  execSql B wanted db write .configure
  let actual ← queryI64 B wanted db read .configure
  if actual ≠ expected then failConfigure B wanted db .unsupported Sqlite.mismatch message
  else pure ()

def configureBusyTimeout (db : ℕ) (options : OpenOptions) : Try Unit := do
  if 2147483647 < options.busyTimeoutMs.toNat then
    failConfigure B wanted db .invalidArgument Sqlite.range
      "busy timeout exceeds SQLite integer range"
  else
    match ← Attempt.lift (call (.busyTimeout db options.busyTimeoutMs.toNat)) with
    | .ok _ => pure ()
    | .error e => failSqlite B wanted .configure db e none

def configureForeignKeys (db : ℕ) (options : OpenOptions) : Try Unit :=
  applyExactly B wanted db
    (if options.foreignKeys ≠ 0 then "PRAGMA foreign_keys=ON;" else "PRAGMA foreign_keys=OFF;")
    "PRAGMA foreign_keys;" options.foreignKeys.toNat
    "requested foreign_keys mode could not be applied exactly"

/-- The text of the row a statement is at, if it got to one. -/
def readText (db s : ℕ) (phase : Phase) : Try (Option CString) := do
  if ← step B wanted db s phase then Attempt.lift (call (.columnText s)) else pure none

/-- The pragma that sets the journal mode; compressed storage has its own for WAL. -/
def journalSql (options : OpenOptions) : Option String :=
  if options.storageMode = Storage.compressed ∧ options.journalMode = Journal.wal then
    some "PRAGMA zipvfs_journal_mode=WAL;"
  else journalModeSql options.journalMode

def journalReadSql (options : OpenOptions) : String :=
  if options.storageMode = Storage.compressed then "PRAGMA zipvfs_journal_mode;"
  else "PRAGMA journal_mode;"

def configureJournal (db : ℕ) (options : OpenOptions) : Try Unit :=
  if options.journalMode = Journal.off ∨ options.journalMode = Journal.memory then
    failConfigure B wanted db .invalidArgument Sqlite.misuse
      "non-durable journal mode is not supported by the ESDB durability policy"
  else if options.journalMode = Journal.unchanged then pure ()
  else
    match journalSql options with
    | none => failConfigure B wanted db .invalidArgument Sqlite.misuse "unknown journal mode"
    | some journal => do
        execSql B wanted db journal .configure
        withStatement B wanted db (journalReadSql options) .configure fun s => do
          let actual ← readText B wanted db s .configure
          if parseJournalMode actual ≠ options.journalMode then
            failConfigure B wanted db .unsupported Sqlite.mismatch
              "requested journal mode could not be applied exactly"
          else pure ()

def configureSynchronous (db : ℕ) (options : OpenOptions) : Try Unit :=
  if options.synchronous = Synchronous.off then
    failConfigure B wanted db .invalidArgument Sqlite.misuse
      "synchronous=OFF is not supported by the ESDB durability policy"
  else if options.synchronous = Synchronous.unchanged then pure ()
  else
    match synchronousSql options.synchronous with
    | none => failConfigure B wanted db .invalidArgument Sqlite.misuse "unknown synchronous mode"
    | some synchronous =>
        applyExactly B wanted db synchronous "PRAGMA synchronous;"
          (if options.synchronous = Synchronous.normal then 1
            else if options.synchronous = Synchronous.full then 2 else 3)
          "requested synchronous mode could not be applied exactly"

def configureCache (db : ℕ) (options : OpenOptions) : Try Unit :=
  if 0 < options.cacheKib then
    applyExactly B wanted db ("PRAGMA cache_size=-" ++ toString options.cacheKib.toNat ++ ";")
      "PRAGMA cache_size;" (-options.cacheKib.toNat)
      "requested cache size could not be applied exactly"
  else pure ()

def configureWalAutocheckpoint (db : ℕ) (options : OpenOptions) : Try Unit :=
  if options.walAutocheckpointPages ≠ walAutocheckpointUnchanged then
    applyExactly B wanted db
      ("PRAGMA wal_autocheckpoint=" ++ toString options.walAutocheckpointPages.toNat ++ ";")
      "PRAGMA wal_autocheckpoint;" options.walAutocheckpointPages.toNat
      "requested WAL autocheckpoint could not be applied exactly"
  else pure ()

/-- `configure_database`, one setting after the other. -/
def configureDatabase (db : ℕ) (options : OpenOptions) : Try Unit := do
  Attempt.lift (call (.extendedResultCodes db))
  configureBusyTimeout B wanted db options
  configureForeignKeys B wanted db options
  configureJournal B wanted db options
  configureSynchronous B wanted db options
  configureCache B wanted db options
  configureWalAutocheckpoint B wanted db options

/-! ## Open and close -/

/-- Closes a connection and deletes the database it belongs to. -/
def discard (db : ℕ) : Asking Unit := do
  let _ ← call (.closeV2 db)
  call .deleteDatabase

/-- `esdb_close` on a database. -/
def close (database : Database) : Asking Unit := discard database.handle

/-- The checks of `esdb_open` up to the selection of the storage. -/
def validateRequest (options : OpenOptions) : Try Unit := do
  if ¬ validOpenFlags options.flags then
    rejectOpen B wanted .invalidArgument Sqlite.misuse "invalid or unknown open flags"
  else if ¬ validJournalRequest options.journalMode then
    rejectOpen B wanted .invalidArgument Sqlite.misuse
      "invalid, unknown, or non-durable journal mode"
  else if ¬ validSynchronousRequest options.synchronous then
    rejectOpen B wanted .invalidArgument Sqlite.misuse
      "invalid, unknown, or non-durable synchronous mode"
  else validateStorageRequest B wanted options

/-- The checks of `esdb_open` behind the selection of the storage. -/
def validateRest (options : OpenOptions) : Try Unit :=
  if 1 < options.foreignKeys then
    rejectOpen B wanted .invalidArgument Sqlite.misuse "foreign_keys must be 0 or 1"
  else if options.reserved.1 ≠ 0 ∨ options.reserved.2 ≠ 0 then
    rejectOpen B wanted .invalidArgument Sqlite.misuse "reserved open options must be zero"
  else pure ()

def madeDatabase : Asking Bool := call .newDatabase

/-- The connection of a database that has been allocated. -/
def connect (path : CString) (options : OpenOptions) (vfs : Option String) : Try Database := do
  match ← Attempt.lift (call (.openV2 path (sqliteOpenFlags options.flags) vfs)) with
  | .failed e db =>
      (fail B wanted (mapSqliteStatus e.code) .open db e.code none).andFinally
        (match db with
        | some db => discard db
        | none => call .deleteDatabase)
  | .ok db => do
      (storageVerifyOpen B wanted db options).onFailure (discard db)
      (configureDatabase B wanted db options).onFailure (discard db)
      pure ⟨db, options⟩

def openDatabase (path : CString) (options : OpenOptions) (vfs : Option String) : Try Database := do
  validateRest B wanted options
  if ← Attempt.lift madeDatabase then connect B wanted path options vfs
  else
    rejectOpen B wanted .outOfMemory Sqlite.nomem "database allocation failed"

/-- `esdb_open` with options that are given or the default ones. -/
def openWith (registry : Registry) (path : CString) (options : OpenOptions) :
    Asking (Except Failed Database × Registry) := do
  match ← (validateRequest B wanted options).run with
  | .error e => pure (.error e, registry)
  | .ok _ =>
      match ← storageVfsSelect B wanted registry options with
      | (.error e, registry) => pure (.error e, registry)
      | (.ok vfs, registry) => do
          let opened ← (openDatabase B wanted path options vfs).run
          pure (opened, registry)

/-- `esdb_open`; `out` says whether there is a place for the database. -/
def esdbOpen (registry : Registry) (path : Option CString) (options : Option OpenOptions)
    (out : Bool) : Asking (Except Failed Database × Registry) :=
  let rejected (message : String) : Asking (Except Failed Database × Registry) := do
    let failed ← (rejectOpen B wanted .invalidArgument Sqlite.misuse message).run
    pure (failed, registry)
  match path with
  | none => rejected "path and out_database are required"
  | some path =>
      if path.bytes = [] ∨ ¬ out then rejected "path and out_database are required"
      else
        match options with
        | none => openWith B wanted registry path openOptionsInit
        | some options =>
            if options.structSize ≠ openOptionsSize then
              rejected "open options struct_size mismatch"
            else openWith B wanted registry path options

end

/-! ## A connection as it was asked for -/

/-- `parse_synchronous`. -/
def parseSynchronous (raw : ℤ) : UInt32 :=
  match raw with
  | 0 => Synchronous.off
  | 1 => Synchronous.normal
  | 2 => Synchronous.full
  | 3 => Synchronous.extra
  | _ => Synchronous.unchanged

/-- The pragma that tells the journal mode. -/
def journalSetting (options : OpenOptions) : Setting :=
  if options.storageMode = Storage.compressed then .zipvfsJournalMode else .journalMode

/-- Every setting that was asked for is the connection's. -/
structure Configured (options : OpenOptions) (c : Conn) : Prop where
  busyTimeout : c.number .busyTimeout = options.busyTimeoutMs.toNat
  foreignKeys : c.number .foreignKeys = options.foreignKeys.toNat
  journal : options.journalMode ≠ Journal.unchanged →
    parseJournalMode (some (c.mode (journalSetting options))) = options.journalMode
  synchronous : options.synchronous ≠ Synchronous.unchanged →
    parseSynchronous (c.number .synchronous) = options.synchronous
  cache : 0 < options.cacheKib → c.number .cacheSize = -options.cacheKib.toNat
  walAutocheckpoint : options.walAutocheckpointPages ≠ walAutocheckpointUnchanged →
    c.number .walAutocheckpoint = options.walAutocheckpointPages.toNat

/-- The same connection to the same file. -/
structure Kept (c c' : Conn) : Prop where
  path : c'.path = c.path
  flags : c'.flags = c.flags
  vfs : c'.vfs = c.vfs
  zipvfs : c'.zipvfs = c.zipvfs
  refused : c'.refused = c.refused

theorem Kept.refl (c : Conn) : Kept c c := ⟨rfl, rfl, rfl, rfl, rfl⟩

theorem Kept.trans {c c' c'' : Conn} (h : Kept c c') (h' : Kept c' c'') : Kept c c'' where
  path := h'.path.trans h.path
  flags := h'.flags.trans h.flags
  vfs := h'.vfs.trans h.vfs
  zipvfs := h'.zipvfs.trans h.zipvfs
  refused := h'.refused.trans h.refused

/-- No setting but `s` is another. -/
def Sets (s : Setting) (c c' : Conn) : Prop :=
  ∀ s', s' ≠ s → c'.number s' = c.number s' ∧ c'.mode s' = c.mode s'

theorem kept_of_touches {sql : String} {c c' : Conn} (h : Touches sql c c') : Kept c c' :=
  ⟨h.1, h.2.1, h.2.2.1, h.2.2.2.1, h.2.2.2.2.1⟩

theorem sets_of_touches {s : Setting} {v : String} {c c' : Conn}
    (h : Touches (writeSql s v) c c') : Sets s c c' :=
  h.2.2.2.2.2 s v rfl

/-- A part of the configuration: it works on one connection, and makes `R` of it or fails. -/
def Stage (db : ℕ) (p : Try Unit) (R : Conn → Conn → Prop) : Prop :=
  ∀ w c, w.conn db = some c →
    Meets sqlite p (fun _ w' => ∃ c', R c c' ∧ Kept c c' ∧ w' = w.setConn db (some c'))
      (fun _ w' => ∃ c', Kept c c' ∧ w' = w.setConn db (some c')) w

section

variable {B : Build} {wanted : Bool} {db : ℕ} {p q : Try Unit} {R R' : Conn → Conn → Prop}
  {options : OpenOptions} {w : Held}

theorem Stage.andThen (hp : Stage db p R) (hq : Stage db q R') :
    Stage db (do p; q) fun c c'' => ∃ c', R c c' ∧ R' c' c'' := by
  intro w c hc
  refine Meets.bind ((hp w c hc).mono ?_ fun _ _ h => h)
  rintro _ _ ⟨c', hR, hkept, rfl⟩
  refine (hq _ c' (Held.setConn_self ..)).mono ?_ ?_
  · rintro _ _ ⟨c'', hR', hkept', rfl⟩
    exact ⟨c'', ⟨c', hR, hR'⟩, hkept.trans hkept', Held.setConn_setConn ..⟩
  · rintro _ _ ⟨c'', hkept', rfl⟩
    exact ⟨c'', hkept.trans hkept', Held.setConn_setConn ..⟩

theorem Stage.mono (hp : Stage db p R) (h : ∀ c c', R c c' → R' c c') : Stage db p R' := by
  intro w c hc
  refine (hp w c hc).mono ?_ fun _ _ h => h
  rintro _ _ ⟨c', hR, hrest⟩
  exact ⟨c', h c c' hR, hrest⟩

theorem stage_pure (h : ∀ c, R c c) : Stage db (pure ()) R := fun _ c hc =>
  meets_pure.mpr ⟨c, h c, .refl c, (setConn_same hc).symm⟩

theorem stage_fail {status : Status} {code : ℤ} {message : String} :
    Stage db (failConfigure B wanted db status code message) R := fun _ c hc =>
  meets_fail (open_some hc) fun _ => ⟨c, .refl c, (setConn_same hc).symm⟩

/-- What is read back is what the connection has. -/
theorem stage_applyExactly {write read message : String} {s : Setting} {v : String} {expected : ℤ}
    (hwrite : write = writeSql s v) (hread : read = readSql s) (hs : s.textual = false) :
    Stage db (applyExactly B wanted db write read expected message)
      fun c c' => Sets s c c' ∧ c'.number s = expected := by
  subst hwrite
  intro w c hc
  refine Meets.bind (meets_execSql hc ?_ ?_)
  · intro c' htouch
    have hc' : (w.setConn db (some c')).conn db = some c' := Held.setConn_self ..
    have hkept := kept_of_touches htouch
    refine Meets.bind (meets_queryI64 hc' (fun n hn => ?_) fun _ => ⟨c', hkept, rfl⟩)
    split
    · exact meets_fail (open_some hc') fun _ => ⟨c', hkept, rfl⟩
    · rename_i heq
      have hnumber : c'.number s = expected := (hn s hread hs).symm.trans (not_not.mp heq)
      exact ⟨c', ⟨sets_of_touches htouch, hnumber⟩, hkept, rfl⟩
  · exact fun _ c' htouch => ⟨c', kept_of_touches htouch, rfl⟩

theorem stage_configureBusyTimeout : Stage db (configureBusyTimeout B wanted db options)
    fun c c' => Sets .busyTimeout c c' ∧
      c'.number .busyTimeout = options.busyTimeoutMs.toNat := by
  unfold configureBusyTimeout
  split
  · exact stage_fail
  · rename_i hms
    intro w c hc
    refine Meets.bind (meets_lift.mpr ?_)
    refine keeps_call.mpr ⟨⟨by simp [hc], by omega⟩, fun r w' hreply => ?_⟩
    cases r with
    | ok u =>
        obtain ⟨c₁, hc₁, rfl⟩ := hreply
        cases hc.symm.trans hc₁
        refine meets_pure.mpr
          ⟨{ c with number := Function.update c.number .busyTimeout options.busyTimeoutMs.toNat },
            ⟨fun s hs => ⟨?_, rfl⟩, ?_⟩, ⟨rfl, rfl, rfl, rfl, rfl⟩, rfl⟩
        · exact Function.update_of_ne hs (options.busyTimeoutMs.toNat : ℤ) c.number
        · exact Function.update_self Setting.busyTimeout (options.busyTimeoutMs.toNat : ℤ) c.number
    | error e =>
        cases hreply
        exact meets_failSqlite hc fun _ => ⟨c, .refl c, (setConn_same hc).symm⟩

theorem stage_configureForeignKeys : Stage db (configureForeignKeys B wanted db options)
    fun c c' => Sets .foreignKeys c c' ∧
      c'.number .foreignKeys = options.foreignKeys.toNat := by
  unfold configureForeignKeys
  split
  · exact stage_applyExactly (v := "ON") rfl rfl rfl
  · exact stage_applyExactly (v := "OFF") rfl rfl rfl

/-- The text of the first row of a pragma is the mode. -/
theorem meets_readText {s : ℕ} {c : Conn} {rows : List Cell} {setting : Setting} {phase : Phase}
    (hc : w.conn db = some c) (hrows : Rows (readSql setting) c rows)
    (htext : setting.textual = true) :
    Meets sqlite (readText B wanted db s phase)
      (fun t w' => (∃ row rest, w' = w.setStmt s (some ⟨db, row, rest⟩)) ∧
        ∀ text, t = some text → text = c.mode setting)
      (fun _ w' => ∃ row rest, w' = w.setStmt s (some ⟨db, row, rest⟩))
      (w.setStmt s (some ⟨db, none, rows⟩)) := by
  refine Meets.bind (meets_step (at_setStmt hc s none rows) ?_ ?_ ?_)
  · rintro r rest rfl
    rw [Held.setStmt_setStmt, if_pos rfl]
    refine meets_lift.mpr ⟨⟨⟨db, some r, rest⟩, by simp, rfl⟩, ?_⟩
    rintro t _ ⟨⟨st, r', hst, hr', ht⟩, rfl⟩
    refine ⟨⟨_, _, rfl⟩, fun text htext' => ?_⟩
    rw [Held.setStmt_self, Option.some.injEq] at hst
    subst hst
    cases hr'
    have hcell : r = c.cell setting := by
      rcases hrows.1 setting rfl with h | ⟨-, h⟩
      · exact (List.cons.inj h).1
      · cases h
    exact ht text _ htext' (by rw [hcell, Conn.cell, htext]; rfl)
  · rintro rfl
    rw [Held.setStmt_setStmt, if_neg (by decide)]
    exact ⟨⟨_, _, rfl⟩, fun _ h => by cases h⟩
  · intro failure
    rw [Held.setStmt_setStmt]
    exact ⟨_, _, rfl⟩

/-- The pragma that is executed sets what is read back behind it. -/
theorem journalSql_writes {sql : String}
    (hstorage : options.storageMode = Storage.compressed →
      options.journalMode = Journal.unchanged ∨ options.journalMode = Journal.wal)
    (hmode : options.journalMode ≠ Journal.unchanged)
    (h : journalSql options = some sql) : ∃ v, sql = writeSql (journalSetting options) v := by
  unfold journalSql at h
  by_cases hc : options.storageMode = Storage.compressed
  · rw [if_pos ⟨hc, (hstorage hc).resolve_left hmode⟩, Option.some.injEq] at h
    rw [journalSetting, if_pos hc]
    exact ⟨"WAL", h.symm⟩
  · rw [if_neg fun h => hc h.1] at h
    rw [journalSetting, if_neg hc]
    unfold journalModeSql at h
    split at h
    · exact ⟨"DELETE", (Option.some.inj h).symm⟩
    split at h
    · exact ⟨"TRUNCATE", (Option.some.inj h).symm⟩
    split at h
    · exact ⟨"PERSIST", (Option.some.inj h).symm⟩
    split at h
    · exact ⟨"MEMORY", (Option.some.inj h).symm⟩
    split at h
    · exact ⟨"WAL", (Option.some.inj h).symm⟩
    · cases h

theorem journalReadSql_eq : journalReadSql options = readSql (journalSetting options) := by
  unfold journalReadSql journalSetting
  split <;> rfl

theorem textual_journalSetting : (journalSetting options).textual = true := by
  unfold journalSetting
  split <;> rfl

theorem stage_configureJournal
    (hstorage : options.storageMode = Storage.compressed →
      options.journalMode = Journal.unchanged ∨ options.journalMode = Journal.wal) :
    Stage db (configureJournal B wanted db options) fun c c' =>
      Sets (journalSetting options) c c' ∧ (options.journalMode ≠ Journal.unchanged →
        parseJournalMode (some (c'.mode (journalSetting options))) = options.journalMode) := by
  unfold configureJournal
  split
  · exact stage_fail
  split
  · rename_i hmode
    exact stage_pure fun c => ⟨fun _ _ => ⟨rfl, rfl⟩, fun h => absurd hmode h⟩
  rename_i hmode
  split
  · exact stage_fail
  rename_i sql hsql
  obtain ⟨v, rfl⟩ := journalSql_writes hstorage hmode hsql
  intro w c hc
  refine Meets.bind (meets_execSql hc ?_ fun _ c' htouch => ⟨c', kept_of_touches htouch, rfl⟩)
  intro c' htouch
  have hc' : (w.setConn db (some c')).conn db = some c' := Held.setConn_self ..
  have hkept := kept_of_touches htouch
  rw [journalReadSql_eq]
  refine meets_withStatement hc' (fun s rows hs hrows => ?_) fun _ => ⟨c', hkept, rfl⟩
  refine Meets.bind ((meets_readText hc' hrows textual_journalSetting).mono ?_ ?_)
  · rintro t _ ⟨⟨row, rest, rfl⟩, ht⟩
    dsimp only
    split
    · exact meets_fail (open_some (c := c') hc') fun _ => ⟨⟨_, _, rfl⟩, c', hkept, rfl⟩
    · rename_i heq
      rw [not_not] at heq
      refine ⟨⟨_, _, rfl⟩, c', ⟨sets_of_touches htouch, fun _ => ?_⟩, hkept, rfl⟩
      cases t with
      | none => exact absurd heq.symm hmode
      | some text => rw [← ht text rfl, heq]
  · rintro _ _ ⟨row, rest, rfl⟩
    exact ⟨⟨_, _, rfl⟩, c', hkept, rfl⟩

theorem stage_configureSynchronous :
    Stage db (configureSynchronous B wanted db options) fun c c' =>
      Sets .synchronous c c' ∧ (options.synchronous ≠ Synchronous.unchanged →
        parseSynchronous (c'.number .synchronous) = options.synchronous) := by
  unfold configureSynchronous
  split
  · exact stage_fail
  split
  · rename_i hmode
    exact stage_pure fun c => ⟨fun _ _ => ⟨rfl, rfl⟩, fun h => absurd hmode h⟩
  unfold synchronousSql
  split
  · rename_i h
    split at h
    · cases h
    split at h
    · cases h
    split at h
    · cases h
    · exact stage_fail
  rename_i sql h
  have happly : ∀ (v : String) (mode : UInt32) (expected : ℤ), options.synchronous = mode →
      parseSynchronous expected = mode → sql = writeSql .synchronous v →
      Stage db (applyExactly B wanted db sql "PRAGMA synchronous;" expected
        "requested synchronous mode could not be applied exactly") fun c c' =>
        Sets .synchronous c c' ∧ (options.synchronous ≠ Synchronous.unchanged →
          parseSynchronous (c'.number .synchronous) = options.synchronous) := by
    intro v mode expected hmode hparse hsql
    refine (stage_applyExactly hsql (s := .synchronous) rfl rfl).mono ?_
    exact fun c c' hc => ⟨hc.1, fun _ => by rw [hc.2, hparse, hmode]⟩
  split at h
  · rename_i hmode
    rw [if_pos hmode]
    exact happly "NORMAL" _ 1 hmode rfl (Option.some.inj h).symm
  split at h
  · rename_i hno hmode
    rw [if_neg hno, if_pos hmode]
    exact happly "FULL" _ 2 hmode rfl (Option.some.inj h).symm
  split at h
  · rename_i hno hno' hmode
    rw [if_neg hno, if_neg hno']
    exact happly "EXTRA" _ 3 hmode rfl (Option.some.inj h).symm
  · cases h

theorem stage_configureCache : Stage db (configureCache B wanted db options) fun c c' =>
    Sets .cacheSize c c' ∧
      (0 < options.cacheKib → c'.number .cacheSize = -options.cacheKib.toNat) := by
  unfold configureCache
  split
  · refine (stage_applyExactly (s := .cacheSize) (v := "-" ++ toString options.cacheKib.toNat)
      ?_ rfl rfl).mono fun c c' h => ⟨h.1, fun _ => h.2⟩
    simp only [writeSql, ← String.append_assoc]
    rfl
  · rename_i hno
    exact stage_pure fun c => ⟨fun _ _ => ⟨rfl, rfl⟩, fun h => absurd h hno⟩

theorem stage_configureWalAutocheckpoint :
    Stage db (configureWalAutocheckpoint B wanted db options) fun c c' =>
      Sets .walAutocheckpoint c c' ∧
        (options.walAutocheckpointPages ≠ walAutocheckpointUnchanged →
          c'.number .walAutocheckpoint = options.walAutocheckpointPages.toNat) := by
  unfold configureWalAutocheckpoint
  split
  · exact (stage_applyExactly (s := .walAutocheckpoint)
      (v := toString options.walAutocheckpointPages.toNat) rfl rfl rfl).mono
      fun c c' h => ⟨h.1, fun _ => h.2⟩
  · rename_i hno
    exact stage_pure fun c => ⟨fun _ _ => ⟨rfl, rfl⟩, fun h => absurd h hno⟩

/-- No setting touches another, so each one is as it was read back. -/
theorem stage_configureDatabase
    (hstorage : options.storageMode = Storage.compressed →
      options.journalMode = Journal.unchanged ∨ options.journalMode = Journal.wal) :
    Stage db (configureDatabase B wanted db options) fun _ c' => Configured options c' := by
  have hcodes : Stage db (Attempt.lift (call (.extendedResultCodes db))) fun _ _ => True := by
    intro w c hc
    refine meets_lift.mpr (keeps_call.mpr ⟨by simp [May, hc], ?_⟩)
    rintro _ _ rfl
    exact ⟨c, trivial, .refl c, (setConn_same hc).symm⟩
  refine (hcodes.andThen <| stage_configureBusyTimeout.andThen <|
    stage_configureForeignKeys.andThen <| (stage_configureJournal hstorage).andThen <|
    stage_configureSynchronous.andThen <| stage_configureCache.andThen
      stage_configureWalAutocheckpoint).mono ?_
  rintro c c₆ ⟨-, -, c₁, ⟨-, h₁⟩, c₂, ⟨s₂, h₂⟩, c₃, ⟨s₃, h₃⟩, c₄, ⟨s₄, h₄⟩, c₅, ⟨s₅, h₅⟩, s₆, h₆⟩
  have hj : journalSetting options = .journalMode ∨
      journalSetting options = .zipvfsJournalMode := by
    unfold journalSetting
    split
    · exact .inr rfl
    · exact .inl rfl
  have hnum : ∀ s, s ≠ journalSetting options → c₃.number s = c₂.number s := fun s hs => (s₃ s hs).1
  have hmode : ∀ s, s = .journalMode ∨ s = .zipvfsJournalMode → c₆.mode s = c₃.mode s := by
    rintro s hs
    have hne : ∀ {t : Setting}, t.textual = false → s ≠ t := by
      rintro t ht rfl
      rcases hs with rfl | rfl <;> cases ht
    rw [(s₆ s (hne rfl)).2, (s₅ s (hne rfl)).2, (s₄ s (hne rfl)).2]
  have hne : ∀ {t : Setting}, t.textual = false → t ≠ journalSetting options := by
    rintro t ht rfl
    rw [textual_journalSetting] at ht
    cases ht
  exact
    { busyTimeout := by
        rw [(s₆ _ (by decide)).1, (s₅ _ (by decide)).1, (s₄ _ (by decide)).1, hnum _ (hne rfl),
          (s₂ _ (by decide)).1, h₁]
      foreignKeys := by
        rw [(s₆ _ (by decide)).1, (s₅ _ (by decide)).1, (s₄ _ (by decide)).1, hnum _ (hne rfl), h₂]
      journal := fun h => by rw [hmode _ hj, h₃ h]
      synchronous := fun h => by rw [(s₆ _ (by decide)).1, (s₅ _ (by decide)).1, h₄ h]
      cache := fun h => by rw [(s₆ _ (by decide)).1, h₅ h]
      walAutocheckpoint := h₆ }

/-! ## What an open leaves -/

/-- A request that passes the checks. -/
structure Acceptable (B : Build) (options : OpenOptions) : Prop where
  flags : validOpenFlags options.flags = true
  journal : validJournalRequest options.journalMode = true
  synchronous : validSynchronousRequest options.synchronous = true
  storage : options.storageMode = Storage.compressed → B.zipvfs = true ∧
    options.synchronous = Synchronous.unchanged ∧
      (options.journalMode = Journal.unchanged ∨ options.journalMode = Journal.wal)

theorem sqliteOpenFlags_mode {flags : UInt32} (h : validOpenFlags flags = true) :
    openMode (sqliteOpenFlags flags) := by
  have hall : ∀ ro rw create uri full no nofollow : Bool, ro ≠ rw → (ro && create) = false →
      openMode ((if ro then 1 else 0) ||| (if rw then 2 else 0) ||| (if create then 4 else 0) |||
        (if uri then 0x40 else 0) ||| (if full then 0x10000 else 0) |||
        (if no then 0x8000 else 0) ||| (if nofollow then 0x1000000 else 0)) := by
    unfold openMode
    decide
  unfold validOpenFlags at h
  split at h
  · cases h
  split at h
  · cases h
  split at h
  · cases h
  rename_i hne hcreate
  exact hall _ _ _ _ _ _ _ hne (Bool.eq_false_iff.mpr hcreate)

theorem meets_reject {α : Type} {status : Status} {code : ℤ} {message : String}
    {ok : α → Held → Prop} {failed : Failed → Held → Prop} (h : ∀ e, failed e w) :
    Meets sqlite (rejectOpen B wanted status code message : Try α) ok failed w :=
  meets_refuse open_none fun _ => h _

theorem meets_validateStorageRequest {ok : Unit → Held → Prop} {failed : Failed → Held → Prop}
    (hok : (options.storageMode = Storage.compressed → B.zipvfs = true ∧
      options.synchronous = Synchronous.unchanged ∧
        (options.journalMode = Journal.unchanged ∨ options.journalMode = Journal.wal)) → ok () w)
    (hfailed : ∀ e, failed e w) :
    Meets sqlite (validateStorageRequest B wanted options) ok failed w := by
  unfold validateStorageRequest
  split
  · rename_i hmode
    split
    · exact meets_reject hfailed
    split
    · exact meets_reject hfailed
    · refine hok fun h => ?_
      rw [h] at hmode
      exact absurd hmode (by decide)
  split
  · split
    · exact meets_reject hfailed
    split
    · exact meets_reject hfailed
    split
    · exact meets_reject hfailed
    split
    · exact meets_reject hfailed
    split
    · exact meets_reject hfailed
    split
    · exact meets_reject hfailed
    · rename_i hzipvfs _ hjournal hsynchronous
      refine hok fun _ => ⟨not_not.mp hzipvfs, not_not.mp hsynchronous, ?_⟩
      by_contra hno
      exact hjournal (not_or.mp hno)
  · exact meets_reject hfailed

theorem meets_validateRequest {ok : Unit → Held → Prop} {failed : Failed → Held → Prop}
    (hok : Acceptable B options → ok () w) (hfailed : ∀ e, failed e w) :
    Meets sqlite (validateRequest B wanted options) ok failed w := by
  unfold validateRequest
  split
  · exact meets_reject hfailed
  split
  · exact meets_reject hfailed
  split
  · exact meets_reject hfailed
  · rename_i hflags hjournal hsynchronous
    refine meets_validateStorageRequest (fun hstorage => hok ?_) hfailed
    exact ⟨not_not.mp hflags, not_not.mp hjournal, not_not.mp hsynchronous, hstorage⟩

/-- A new connection is the one thing that is held more. -/
structure HandsOut (w : Held) (path : CString) (options : OpenOptions) (vfs : Option String)
    (database : Database) (w' : Held) : Prop where
  asked : database.options = options
  fresh : w.conn database.handle = none
  held : ∃ c, w' = { w.setConn database.handle (some c) with records := w.records + 1 } ∧
    c.path = path ∧ c.flags = sqliteOpenFlags options.flags ∧ c.vfs = vfs ∧ c.refused = false ∧
    (options.storageMode = Storage.compressed → c.zipvfs = true) ∧ Configured options c

/-- A connection that is discarded is closed, or refused. -/
theorem keeps_discard {c : Conn} (hfresh : w.conn db = none) (howned : w.Owned)
    {post : Held → Prop} (h : ∀ w', Released w w' → w'.vfs = w.vfs → post w') :
    Keeps sqlite (discard db) (fun _ => post)
      { w.setConn db (some c) with records := w.records + 1 } := by
  have howned' : Held.Owned { w with records := w.records + 1 } := ⟨howned.stmt, howned.backup⟩
  have hfresh' : Held.conn { w with records := w.records + 1 } db = none := hfresh
  refine keeps_bind.mpr (keeps_closeV2 (c := c) hfresh' howned' ?_ fun e => ?_)
  · refine keeps_call.mpr ⟨Nat.succ_pos _, ?_⟩
    rintro _ _ rfl
    exact h _ (released_closed w c) rfl
  · refine keeps_call.mpr ⟨Nat.succ_pos _, ?_⟩
    rintro _ _ rfl
    exact h _ (released_refused hfresh c) rfl

theorem meets_connect {path : CString} {vfs : Option String} (hacc : Acceptable B options)
    (howned : w.Owned) (hvfs : ∀ name, vfs = some name → (w.vfs name).isSome)
    {ok : Database → Held → Prop} {failed : Failed → Held → Prop}
    (hok : ∀ database w', HandsOut w path options vfs database w' → ok database w')
    (hfailed : ∀ e w', Released w w' → w'.vfs = w.vfs → failed e w') :
    Meets sqlite (connect B wanted path options vfs) ok failed
      { w with records := w.records + 1 } := by
  refine Meets.bind (meets_lift.mpr ?_)
  refine keeps_call.mpr ⟨⟨sqliteOpenFlags_mode hacc.flags, hvfs⟩, fun r w' hreply => ?_⟩
  cases r with
  | failed e d =>
      cases d with
      | none =>
          cases hreply
          refine Meets.andFinally (meets_fail open_none fun error => ?_)
          refine keeps_call.mpr ⟨Nat.succ_pos _, ?_⟩
          rintro _ _ rfl
          exact hfailed _ _ (.refl _) rfl
      | some db =>
          obtain ⟨hfresh, c, rfl⟩ := hreply
          refine Meets.andFinally (meets_fail (open_some (c := c) (Held.setConn_self ..)) ?_)
          intro error
          exact keeps_discard (w := w) hfresh howned fun w' => hfailed _ w'
  | ok db =>
      obtain ⟨hfresh, c, hpath, hflags, hcvfs, hrefused, rfl⟩ := hreply
      have hdb : Held.conn { w.setConn db (some c) with records := w.records + 1 } db = some c :=
        Held.setConn_self ..
      refine Meets.bind (Meets.onFailure
        (meets_storageVerifyOpen hdb (fun hzipvfs => ?_) fun e => ?_))
      · refine Meets.bind (Meets.onFailure
          ((stage_configureDatabase (fun h => (hacc.storage h).2.2) _ c hdb).mono ?_ ?_))
        · rintro _ _ ⟨c', hconf, hkept, rfl⟩
          refine meets_pure.mpr (hok _ _ ⟨rfl, hfresh, c', ?_, ?_⟩)
          · simp [Held.setConn]
          · exact ⟨hkept.path.trans hpath, hkept.flags.trans hflags, hkept.vfs.trans hcvfs,
              hkept.refused.trans hrefused, fun h => hkept.zipvfs.trans (hzipvfs h), hconf⟩
        · rintro e _ ⟨c', -, rfl⟩
          have hsame : Held.setConn { w.setConn db (some c) with records := w.records + 1 } db
              (some c') = { w.setConn db (some c') with records := w.records + 1 } := by
            simp [Held.setConn]
          rw [hsame]
          exact keeps_discard (w := w) hfresh howned fun w' => hfailed _ w'
      · exact keeps_discard (w := w) hfresh howned fun w' => hfailed _ w'

theorem meets_openDatabase {path : CString} {vfs : Option String} (hacc : Acceptable B options)
    (howned : w.Owned) (hvfs : ∀ name, vfs = some name → (w.vfs name).isSome)
    {ok : Database → Held → Prop} {failed : Failed → Held → Prop}
    (hok : ∀ database w', HandsOut w path options vfs database w' → ok database w')
    (hfailed : ∀ e w', Released w w' → w'.vfs = w.vfs → failed e w') :
    Meets sqlite (openDatabase B wanted path options vfs) ok failed w := by
  have hsame : ∀ e, failed e w := fun e => hfailed e w (.refl w) rfl
  have hrest : Meets sqlite (validateRest B wanted options) (fun _ w' => w' = w) failed w := by
    unfold validateRest
    split
    · exact meets_reject hsame
    split
    · exact meets_reject hsame
    · exact meets_pure.mpr rfl
  refine Meets.bind (hrest.mono ?_ fun _ _ h => h)
  rintro _ _ rfl
  refine Meets.bind (meets_lift.mpr (keeps_call.mpr ⟨trivial, ?_⟩))
  rintro (_ | _) w' hreply
  · cases hreply
    exact meets_reject hsame
  · cases hreply
    exact meets_connect hacc howned hvfs hok hfailed

/-- What comes of an open. -/
structure Opens (B : Build) (registry : Registry) (path : Option CString)
    (options : Option OpenOptions) (w : Held) (r : Except Failed Database × Registry) (w' : Held) :
    Prop where
  registered : Registered B r.2 w'
  grown : registry ⊆ r.2
  opened : ∀ database, r.1 = .ok database → ∃ p vfs w₁, path = some p ∧
    Acceptable B (options.getD openOptionsInit) ∧
    Selected B (options.getD openOptionsInit) r.2 vfs ∧ w₁ = { w with vfs := w₁.vfs } ∧
    HandsOut w₁ p (options.getD openOptionsInit) vfs database w'
  failed : ∀ e, r.1 = .error e → Released w w'

theorem opens_failed {registry : Registry} {path : Option CString} {options : Option OpenOptions}
    {w' : Held} {e : Failed} (h : Registered B registry w') (hreleased : Released w w') :
    Opens B registry path options w (.error e, registry) w' where
  registered := h
  grown := fun _ hmem => hmem
  opened := fun _ h => by cases h
  failed := fun _ _ => hreleased

theorem keeps_openWith {registry : Registry} {path : CString} {given : Option OpenOptions}
    (h : Registered B registry w) (howned : w.Owned)
    (hgiven : options = given.getD openOptionsInit) :
    Keeps sqlite (openWith B wanted registry path options)
      (Opens B registry (some path) given w) w := by
  refine keeps_bind.mpr (keeps_run.mpr (meets_validateRequest (fun hacc => ?_) fun e => ?_))
  · refine keeps_bind.mpr ((keeps_storageVfsSelect h).mono ?_)
    rintro ⟨r, registry'⟩ w₁ ⟨hregistered, hgrown, hothers, hprovided, hfailed⟩
    cases r with
    | error e =>
        obtain ⟨hsame, rfl⟩ := hfailed e rfl
        dsimp only at hsame
        subst hsame
        exact opens_failed h (.refl _)
    | ok vfs =>
        have hselected := hprovided vfs rfl
        have howned₁ : w₁.Owned := by
          rw [hothers]
          exact ⟨howned.stmt, howned.backup⟩
        refine keeps_bind.mpr (keeps_run.mpr (meets_openDatabase hacc howned₁
          (fun name hname => hregistered.vfs_isSome hselected hname) ?_ ?_))
        · intro database w' hout
          obtain ⟨c, hw', -⟩ := hout.held
          exact
            { registered := hregistered.of_vfs (by rw [hw']; rfl)
              grown := hgrown
              opened := fun database' hd => by
                cases hd
                exact ⟨path, vfs, w₁, rfl, hgiven ▸ hacc, hgiven ▸ hselected, hothers,
                  hgiven ▸ hout⟩
              failed := fun _ he => by cases he }
        · intro e w' hreleased hvfs
          have hreleased' : Released w w' := by
            rw [hothers] at hreleased
            exact ⟨hreleased.records, hreleased.messages, hreleased.stmt, hreleased.backup,
              hreleased.conn⟩
          exact
            { registered := hregistered.of_vfs hvfs
              grown := hgrown
              opened := fun _ h => by cases h
              failed := fun _ _ => hreleased' }
  · exact opens_failed h (.refl w)

theorem keeps_esdbOpen {registry : Registry} {path : Option CString} {given : Option OpenOptions}
    {out : Bool} (h : Registered B registry w) (howned : w.Owned) :
    Keeps sqlite (esdbOpen B wanted registry path given out) (Opens B registry path given w) w := by
  have hrejected : ∀ message : String, Keeps sqlite (do
      let failed ← (rejectOpen B wanted .invalidArgument Sqlite.misuse message : Try Database).run
      pure (failed, registry)) (Opens B registry path given w) w := fun message =>
    keeps_bind.mpr (keeps_run.mpr (meets_reject fun e => opens_failed h (.refl w)))
  unfold esdbOpen
  split
  · exact hrejected _
  split
  · exact hrejected _
  split
  · exact keeps_openWith h howned rfl
  split
  · exact hrejected _
  · exact keeps_openWith h howned rfl

end

end Esdb.RuntimeOpen
