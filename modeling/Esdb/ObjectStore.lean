import Esdb.ObjectTables

/-!
# The object store

The functions of the durable store over the statements on its tables. A
mutation runs in a transaction of its own when the connection is in autocommit
mode and in a savepoint otherwise; the schema is created on first use in the same
way, and a flag on the connection remembers that it has been seen.

Pointers passed by the caller are not null. A statement that is prepared, bound
and stepped is one command, which any of the three may fail.
-/
namespace Esdb.ObjectStore

open Transactional Esdb.Runtime

abbrev Operation (α : Type) : Type := Op dialect.language Database Failure α

abbrev Query (α : Type) : Type := Transactional.Query dialect.language Failure α

def storeNameMaxBytes : ℕ := 255
def storeKeyMaxBytes : ℕ := 4096

/-- `ESDB_OBJECT_CHANGE_LIMIT_MAX`. -/
def changeLimitMax : ℕ := 10000

/-- `ESDB_OBJECT_SCAN_LIMIT_MAX`. -/
def scanLimitMax : ℕ := 10000

def validStoreName (name : Bytes) : Bool := validCString (some name) storeNameMaxBytes
def validStoreKey (key : Bytes) : Bool := validCString (some key) storeKeyMaxBytes

/-- `ESDB_OBJECT_CHANGE_PUT`. -/
def changePut : ℤ := 1

/-- `ESDB_OBJECT_CHANGE_DELETE`. -/
def changeDelete : ℤ := 2

/-- `valid_value_type` on the integer a column holds. -/
def validColumnType (type : ℤ) : Bool := 0 ≤ type && type ≤ (Value.object : ℤ)

/-! ## Failures -/

def storeFail (status : Status) (code : ℤ) (message : String) : Failure :=
  .recorded status .objectStore code (some message)

def subscriptionFail (status : Status) (code : ℤ) (message : String) : Failure :=
  .recorded status .subscription code (some message)

def corrupt (message : String) : Failure := storeFail .corrupt Sqlite.corrupt message

def statementIn (phase : Phase) (s : Sql) : Query s.Row :=
  Transactional.Query.one (L := dialect.language) (sqliteFailure phase) s

def statement (s : Sql) : Query s.Row := statementIn .objectStore s

/-- A query outside any mutation, statement by statement. -/
def ask {α : Type} (q : Query α) : Operation α := q.toOp Database

/-! ## Revision metadata -/

/-- The loop of `parse_revision_text`. -/
def parseDigits (value : ℕ) : Bytes → Option ℕ
  | [] => some value
  | c :: rest =>
      if c < 48 ∨ 57 < c then none
      else
        let digit := c.toNat - 48
        if (revisionMax - digit) / 10 < value then none
        else parseDigits (value * 10 + digit) rest

/-- `parse_revision_text`. -/
def parseRevisionText (text : Bytes) : Option ℕ :=
  match text with
  | [] => none
  | [c] => parseDigits 0 [c]
  | c :: rest => if c = 48 then none else parseDigits 0 (c :: rest)

/-- `read_store_revision_metadata`. -/
def readStoreRevisionMetadata : Query ℕ := do
  let row ← statement .revisionMetadata
  match row with
  | none => .fail (corrupt "missing ESDB Store revision metadata")
  | some (.text text, .integer sequence) =>
      match parseRevisionText text with
      | none => .fail (corrupt "ESDB Store revision metadata is inconsistent")
      | some revision =>
          if sequence < 0 ∨ (revision : ℤ) ≠ sequence then
            .fail (corrupt "ESDB Store revision metadata is inconsistent")
          else pure revision
  | some _ => .fail (corrupt "ESDB Store revision metadata has an invalid storage type")

/-- `set_store_revision`. -/
def setStoreRevision (revision : ℤ) : Query Unit := statement (.setRevision revision)

/-! ## Mutation scopes -/

/-- `__esdb_mutation`. -/
def mutationName : Bytes :=
  [95, 95, 101, 115, 100, 98, 95, 109, 117, 116, 97, 116, 105, 111, 110]

/-- `sync_internal_transaction_state`. -/
def syncInternalTransactionState : Operation Unit := do
  let autocommit ← Op.autocommit
  Op.modify fun db => { db with
    transactionActive := !autocommit
    savepoints := if autocommit then [] else db.savepoints }

/-- `begin_store_mutation`: whether the scope owns its transaction. -/
def beginStoreMutation : Operation Bool := do
  let owns ← Op.autocommit
  if owns then do
    let _ ← execSql (D := dialect) .objectStore (.begin true)
    syncInternalTransactionState
    pure owns
  else do
    let _ ← execSql (D := dialect) .objectStore (.savepoint mutationName)
    pure owns

/-- `rollback_store_mutation`. -/
def rollbackStoreMutation (owns : Bool) : Operation Unit :=
  if owns then do
    let _ ← Op.attempt (execSql (D := dialect) .objectStore .rollback)
    syncInternalTransactionState
  else do
    let _ ← Op.attempt (do
      execSql (D := dialect) .objectStore (.rollbackTo mutationName)
      execSql (D := dialect) .objectStore (.release mutationName))
    pure ()

/-- `commit_store_mutation`. -/
def commitStoreMutation (owns : Bool) : Operation Unit := do
  let status ← Op.attempt
    (if owns then execSql (D := dialect) .objectStore .commit
      else execSql (D := dialect) .objectStore (.release mutationName))
  match status with
  | .error e => do
      rollbackStoreMutation owns
      Op.fail e
  | .ok _ => if owns then syncInternalTransactionState else pure ()

/-- The shape of every mutation: begin, the statements, and commit, with a
rollback at whichever statement fails. -/
def withStoreMutation {α : Type} (body : Query α) : Operation α := do
  let owns ← beginStoreMutation
  let status ← Op.attempt (ask body)
  match status with
  | .error e => do
      rollbackStoreMutation owns
      Op.fail e
  | .ok a => do
      commitStoreMutation owns
      pure a

/-! ## Schema -/

/-- `inspect_store_table_count`. -/
def inspectStoreTableCount : Query ℕ := do
  let count ← statement .tableCount
  if 4 < count then .fail (corrupt "ESDB Store schema table count is invalid") else pure count

def partialSchema : Failure := corrupt "ESDB Store schema is only partially present"

/-- The version `1` as text. -/
def schemaVersionText : Bytes := [49]

/-- The statements of `schema_sql`. -/
def createSchema : Query Unit := do
  statement .createMeta
  statement .createStores
  statement .createRecords
  statement .createChanges
  statement .createChangesIndex
  statement (.insertMeta schemaVersionKey schemaVersionText)
  statement (.insertMeta storeRevisionKey [48])

/-- What first use does under the write lock: another process may have
initialized the store since the optimistic inspection. -/
def initializeSchema : Query Unit := do
  let count ← inspectStoreTableCount
  if count ≠ 0 ∧ count ≠ 4 then .fail partialSchema
  else if count = 0 then createSchema
  else pure ()

/-- The check of `store_schema_version`. -/
def checkSchemaVersion : Query Unit := do
  let row ← statement .schemaVersion
  match row with
  | none => .fail (corrupt "missing ESDB Store schema version")
  | some (.text version) =>
      if version = schemaVersionText then pure ()
      else .fail (storeFail .unsupported Sqlite.mismatch "unsupported ESDB Store schema version")
  | some _ => .fail (corrupt "ESDB Store schema version has an invalid storage type")

/-- `ensure_object_store_schema`. -/
def ensureObjectStoreSchema : Operation Unit := do
  let db ← Op.get
  if db.objectStoreSchemaReady then pure ()
  else if db.readOnly < 0 then
    Op.fail (storeFail .internal Sqlite.error "SQLite main database was not found")
  else do
    let count ← ask inspectStoreTableCount
    if count ≠ 0 ∧ count ≠ 4 then Op.fail partialSchema
    else do
      if count = 0 then
        if db.readOnly ≠ 0 then
          Op.fail (storeFail .notFound Sqlite.notFound
            "ESDB Store schema is not present in the read-only database")
        else withStoreMutation initializeSchema
      else pure ()
      ask checkSchemaVersion
      let _ ← ask readStoreRevisionMetadata
      Op.modify fun db => { db with objectStoreSchemaReady := true }

/-- `require_store_writable`. -/
def requireStoreWritable : Operation Unit := do
  let db ← Op.get
  if db.readOnly < 0 then
    Op.fail (storeFail .internal Sqlite.error "SQLite main database was not found")
  else if db.readOnly ≠ 0 then
    Op.fail (storeFail .io Sqlite.readonly "ESDB Store mutation requires a writable database")
  else pure ()

/-! ## Stores and changes -/

/-- `get_store_id` with `create` unset. An unknown name is not an error record. -/
def findStoreId (name : Bytes) : Query ℤ := do
  let row ← statement (.storeId name)
  match row with
  | none => .fail (.quiet .notFound)
  | some id => pure id

/-- `get_store_id`. -/
def getStoreId (name : Bytes) (create : Bool) : Query ℤ :=
  if create then do
    statement (.registerStore name)
    findStoreId name
  else findStoreId name

/-- `insert_change`. -/
def insertChange (storeId : ℤ) (key : Bytes) (operation valueType : ℤ) : Query ℤ := do
  let revision ← statement (.insertChange storeId key operation valueType)
  if revision ≤ 0 then .fail (corrupt "change insert returned an invalid revision")
  else pure revision

/-! ## Mutations -/

/-- `esdb_object_store_ensure`. -/
def ensure (name : Bytes) : Operation Unit := do
  if !validStoreName name then
    Op.fail (storeFail .invalidArgument Sqlite.mismatch "invalid store ensure arguments")
  else do
    ensureObjectStoreSchema
    let status ← Op.attempt (ask (getStoreId name false))
    match status with
    | .ok _ => pure ()
    | .error e =>
        if e.status ≠ .notFound then Op.fail e
        else do
          requireStoreWritable
          let _ ← ask (getStoreId name true)
          pure ()

/-- The statements of a put. -/
def putBody (name key : Bytes) (value : Value) : Query ℤ := do
  let storeId ← getStoreId name true
  let revision ← insertChange storeId key changePut value.type
  statement (.upsertRecord ⟨storeId, key, value.type, .blob value.payload, revision⟩)
  setStoreRevision revision
  pure revision

/-- `esdb_object_store_put`: the revision assigned. -/
def put (name key : Bytes) (value : Value) : Operation ℤ := do
  if !validStoreName name || !validStoreKey key || !validValueType value.type then
    Op.fail (storeFail .invalidArgument Sqlite.misuse "invalid store put arguments")
  else do
    ensureObjectStoreSchema
    requireStoreWritable
    withStoreMutation (putBody name key value)

/-- The statements of a delete: the revision assigned, if there was a record. -/
def deleteBody (storeId : ℤ) (key : Bytes) : Query (Option ℤ) := do
  let deleted ← statement (.deleteRecord storeId key)
  if !deleted then pure none
  else do
    let revision ← insertChange storeId key changeDelete 0
    setStoreRevision revision
    pure (some revision)

/-- `esdb_object_store_delete`. -/
def delete (name key : Bytes) : Operation (Option ℤ) := do
  if !validStoreName name || !validStoreKey key then
    Op.fail (storeFail .invalidArgument Sqlite.misuse "invalid store delete arguments")
  else do
    ensureObjectStoreSchema
    let status ← Op.attempt (ask (getStoreId name false))
    match status with
    | .error e => if e.status = .notFound then pure none else Op.fail e
    | .ok storeId => do
        requireStoreWritable
        withStoreMutation (deleteBody storeId key)

/-- The statement of a prune and its row loop: how many rows were deleted. -/
def pruneBody (through : ℕ) : Query ℕ := do
  let revisions ← statement (.pruneChanges through)
  if revisions.any (· ≤ 0) then .fail (corrupt "change prune returned an invalid revision")
  else pure revisions.length

/-- `esdb_object_store_prune_changes`. -/
def pruneChanges (through : ℕ) : Operation ℕ := do
  if revisionMax < through then
    Op.fail (storeFail .invalidArgument Sqlite.range
      "through_revision exceeds the ESDB revision domain")
  else do
    ensureObjectStoreSchema
    requireStoreWritable
    ask (pruneBody through)

/-! ## Reads -/

/-- `sqlite3_column_int`. -/
def columnInt (i : ℤ) : ℤ := (i + 2147483648) % 4294967296 - 2147483648

/-- The payload check of `clone_sql_value`. -/
def payloadValid (type : ℕ) (payload : Bytes) : Bool :=
  if type = Value.null then payload.length == 0
  else if type = Value.bool then payload == [0] || payload == [1]
  else if type = Value.int32 then payload.length == 4
  else if type = Value.int64 ∨ type = Value.double then payload.length == 8
  else if type = Value.utf8 ∨ type = Value.array ∨ type = Value.object then validUtf8 payload
  else type == Value.bytes

/-- `clone_sql_value`. -/
def cloneSqlValue (allocates : Bool) (type : ℤ) (value : Cell) : Except Failure Value :=
  let rawType := columnInt type
  if !validColumnType rawType then
    .error (corrupt "record contains an unknown ESDB value type")
  else
    match value with
    | .blob payload =>
        if !payloadValid rawType.toNat payload then
          .error (corrupt "record payload violates its ESDB value type")
        else if !allocates then
          .error (storeFail .outOfMemory Sqlite.nomem "value allocation failed")
        else .ok ⟨rawType.toNat, payload⟩
    | _ => .error (corrupt "record payload is not a canonical BLOB")

def ofExcept {α : Type} : Except Failure α → Operation α
  | .ok a => pure a
  | .error e => Op.fail e

/-- `esdb_object_store_get`. -/
def get (allocates : Bool) (name key : Bytes) : Operation Value := do
  if !validStoreName name || !validStoreKey key then
    Op.fail (storeFail .invalidArgument Sqlite.misuse "invalid store get arguments")
  else do
    ensureObjectStoreSchema
    let row ← ask (statement (.readRecord name key))
    match row with
    | none => Op.fail (.quiet .notFound)
    | some (type, value) => ofExcept (cloneSqlValue allocates type value)

/-- `esdb_object_store_exists`. -/
def «exists» (name key : Bytes) : Operation Bool := do
  if !validStoreName name || !validStoreKey key then
    Op.fail (storeFail .invalidArgument Sqlite.misuse "invalid store exists arguments")
  else do
    ensureObjectStoreSchema
    ask (statement (.recordExists name key))

/-- `esdb_object_store_count`. -/
def count (name : Bytes) : Operation ℕ := do
  if !validStoreName name then
    Op.fail (storeFail .invalidArgument Sqlite.misuse "invalid store count arguments")
  else do
    ensureObjectStoreSchema
    ask (statement (.recordCount name))

/-- `esdb_object_store_revision`. -/
def revision : Operation ℕ := do
  ensureObjectStoreSchema
  ask readStoreRevisionMetadata

structure OwnedRecord where
  key : Bytes
  value : Value
  revision : ℕ
  deriving DecidableEq, Repr

/-- One row of a scan. -/
def ownRecord (allocates : Bool) (r : RecordRow) : Except Failure OwnedRecord :=
  if !validStoreKey r.key || r.revision ≤ 0 then
    .error (corrupt "Store scan encountered an invalid record")
  else
    match cloneSqlValue allocates r.type r.value with
    | .error e => .error e
    | .ok value => .ok ⟨r.key, value, r.revision.toNat⟩

/-- A snapshot vector cannot be allocated before or after its rows are read. -/
inductive SnapshotRoom where
  | enough | noneBefore | noneAfter
  deriving DecidableEq, Repr

/-- The number of callbacks a delivery loop makes, or nothing when one throws. -/
def deliveredCount (callback : ℕ → Verdict) : (rows delivered : ℕ) → Option ℕ
  | 0, delivered => some delivered
  | rows + 1, delivered =>
      match callback delivered with
      | .proceed => deliveredCount callback rows (delivered + 1)
      | .stop => some (delivered + 1)
      | .throw => none

/-- `esdb_object_store_scan`: the records delivered. -/
def scan (room : SnapshotRoom) (allocates : Bool) (name : Bytes) (after : Option Bytes) (limit : ℕ)
    (callback : ℕ → Verdict) : Operation (List OwnedRecord) := do
  if !validStoreName name || !(after.all validStoreKey) || scanLimitMax < limit then
    Op.fail (storeFail .invalidArgument Sqlite.misuse "invalid Store scan arguments")
  else if room = .noneBefore then
    Op.fail (storeFail .outOfMemory Sqlite.nomem "failed to allocate Store scan snapshot")
  else do
    ensureObjectStoreSchema
    let rows ← ask (statement
      (.scanRecords name after (if limit = 0 then scanLimitMax else limit)))
    let snapshot ← ofExcept (rows.mapM (ownRecord allocates))
    if room = .noneAfter then
      Op.fail (storeFail .outOfMemory Sqlite.nomem "failed to allocate Store scan snapshot")
    else
      match deliveredCount callback snapshot.length 0 with
      | none =>
          Op.fail (storeFail .internal 4 "Store scan callback threw an exception")
      | some n => pure (snapshot.take n)

/-! ## The change journal -/

/-- The checks on one journal row, and the row as the snapshot owns it. -/
def ownChange (v : ChangeView) : Except Failure OwnedChange :=
  let operation := columnInt v.operation
  let valueType := columnInt v.valueType
  if v.revision ≤ 0 ∨ !validStoreName v.storeName ∨ !validStoreKey v.key ∨
      !validColumnType valueType ∨ (operation ≠ changePut ∧ operation ≠ changeDelete) ∨
      (operation = changeDelete ∧ valueType ≠ 0) then
    .error (subscriptionFail .corrupt Sqlite.corrupt "invalid change journal row")
  else .ok ⟨v.revision.toNat, operation.toNat, valueType.toNat, v.storeName, v.key⟩

/-- `object_store_changes_since_impl`: the changes its callback accepted. -/
def changesSinceImpl (room : SnapshotRoom) (name : Option Bytes) (after limit : ℕ)
    (callback : ℕ → Verdict) : Operation (List OwnedChange) := do
  if changeLimitMax < limit then
    Op.fail (subscriptionFail .invalidArgument Sqlite.misuse "invalid change query arguments")
  else if revisionMax < after then
    Op.fail (subscriptionFail .invalidArgument Sqlite.range
      "after_revision exceeds the ESDB revision domain")
  else if !(name.all validStoreName) then
    Op.fail (subscriptionFail .invalidArgument Sqlite.mismatch "invalid store name")
  else if room = .noneBefore then
    Op.fail (subscriptionFail .outOfMemory Sqlite.nomem "failed to allocate change snapshot")
  else do
    ensureObjectStoreSchema
    let rows ← ask (statementIn .subscription
      (.changesAfter name after (if limit = 0 then changeLimitMax else limit)))
    let snapshot ← ofExcept (rows.mapM ownChange)
    if room = .noneAfter then
      Op.fail (subscriptionFail .outOfMemory Sqlite.nomem "failed to allocate change snapshot")
    else
      match deliveredCount callback snapshot.length 0 with
      | none =>
          Op.fail (subscriptionFail .internal 4 "change callback threw an exception")
      | some n => pure (snapshot.take n)

/-- `esdb_object_store_changes_since`. -/
def changesSince (room : SnapshotRoom) (name : Option Bytes) (after limit : ℕ)
    (callback : ℕ → Verdict) : Operation (List OwnedChange) :=
  changesSinceImpl room name after limit callback

/-- The highest revision delivered; `after` when nothing was. -/
def lastRevision (after : ℕ) (accepted : List OwnedChange) : ℕ :=
  match accepted.getLast? with
  | none => after
  | some c => c.revision

/-- `esdb_object_subscribe`: the handle. -/
def subscribe (allocates : Bool) (filter : Option Bytes) (after : ℕ) : Operation ℕ := do
  if !(filter.all validStoreName) then
    Op.fail (subscriptionFail .invalidArgument Sqlite.misuse "invalid subscription arguments")
  else if revisionMax < after then
    Op.fail (subscriptionFail .invalidArgument Sqlite.range
      "after_revision exceeds the ESDB revision domain")
  else do
    ensureObjectStoreSchema
    if !allocates then
      Op.fail (subscriptionFail .outOfMemory Sqlite.nomem "subscription allocation failed")
    else do
      let db ← Op.get
      Op.set { db with subscriptions := db.subscriptions ++ [⟨filter, after, after, []⟩] }
      pure db.subscriptions.length

/-- The subscription after a poll that succeeded. -/
def ObjectSubscription.accept (accepted : List OwnedChange) (sub : ObjectSubscription) :
    ObjectSubscription :=
  { sub with
    revision := lastRevision sub.revision accepted
    delivered := sub.delivered ++ accepted }

/-- `esdb_object_subscription_poll`. `polling` says that another poll of the same
subscription is still in its callbacks. -/
def poll (id : ℕ) (polling : Bool) (room : SnapshotRoom) (limit : ℕ) (callback : ℕ → Verdict) :
    Operation (List OwnedChange) := do
  let db ← Op.get
  match db.subscriptions[id]? with
  | none =>
      Op.fail (subscriptionFail .invalidArgument Sqlite.misuse "subscription is required")
  | some sub =>
      if polling then
        Op.fail (subscriptionFail .busy Sqlite.busy "subscription is already being polled")
      else do
        let accepted ← changesSinceImpl room sub.filter sub.revision limit callback
        Op.modify fun db => { db with
          subscriptions := db.subscriptions.modify id (ObjectSubscription.accept accepted) }
        pure accepted

end Esdb.ObjectStore
