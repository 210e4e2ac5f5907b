import Esdb.AdapterSlots
import Esdb.ObjectStoreCalls
import Esdb.RuntimeTransaction
import Esdb.TransactionalEmbedding
import Esdb.TransactionalGhost
import Esdb.TransactionalHistory

/-!
# The transaction of a script's database

A slot of the script adapter holds at most one transaction for its database. The
slot is filled when a transaction begins and emptied when a commit or a rollback
succeeds, or when SQL of the script's has ended the transaction. Nothing else looks
at it again: when SQLite answers a commit, a rollback or a store operation by
rolling the transaction back, the slot keeps a transaction that has ended.

SQL of the script's may be any command of a dialect that contains the statements of
the store, over whatever content. The handle is that of a slot in use.
-/
namespace Esdb.AdapterTransaction

open Transactional Esdb.Runtime
open Esdb.Adapter (ErrorCode AdapterError)

/-- The dialect of the script's SQL, with the store's own statements in it. -/
abbrev Host (D : Dialect) : Type := Embedding ObjectStore.dialect.language D.language

variable {D : Dialect} {α : Type}

/-- The second component is `slot->transaction`. -/
abbrev Slotted : Type := Database × Option ℕ

abbrev Session (D : Dialect) : Type := State D.language Slotted

/-- A call answers, or leaves what `set_last_error` was given. -/
abbrev Operation (D : Dialect) (α : Type) : Type := Op D.language Slotted AdapterError α

/-- A call of the runtime on `slot->database`. -/
def onDatabase (p : Runtime.Operation D α) : Operation D (Except Failure α) :=
  Op.observe (Prog.get fun w => Prog.beside w.2 p)

def refuse (code : ErrorCode) (message : String) : Operation D α :=
  Op.fail ⟨code, none, message⟩

def failed (e : Failure) (message : String) : Operation D α :=
  Op.fail ⟨.databaseError, some e, message⟩

/-! ## Transactions -/

/-- The refusal of a slot that holds a transaction. -/
def alreadyActive : AdapterError :=
  ⟨.databaseError, none, "a transaction is already active for this handle"⟩

/-- `transactionBegin`. -/
def transactionBegin (mode : ℤ) (allocates : Bool) : Operation D Unit := do
  if mode < 0 || 2 < mode then
    refuse .badArgument "transactionBegin expects handle and transaction mode"
  else do
    let w ← Op.get
    if w.2.isSome then Op.fail alreadyActive
    else do
      let status ← onDatabase (begin (D := D) mode.toNat allocates)
      match status with
      | .error e => failed e "ESDB failed to begin transaction"
      | .ok id => Op.modify fun w => (w.1, some id)

/-- `esdb_transaction_destroy` of the slot's transaction, which the slot then forgets. -/
def dropTransaction (id : ℕ) : Operation D Unit := do
  let _ ← onDatabase (destroy (D := D) id)
  Op.modify fun w => (w.1, none)

/-- `transactionCommit` and `transactionRollback`. -/
def transactionFinish (commit : Bool) (message : String) : Operation D Unit := do
  let w ← Op.get
  match w.2 with
  | none => refuse .databaseError "no transaction is active for this handle"
  | some id => do
      let status ← onDatabase (finishTransaction (D := D) id commit)
      match status with
      | .error e => failed e message
      | .ok _ => dropTransaction id

def transactionCommit : Operation D Unit :=
  transactionFinish true "ESDB failed to commit transaction"

def transactionRollback : Operation D Unit :=
  transactionFinish false "ESDB failed to roll back transaction"

def transactionActive : Operation D Bool := do
  let w ← Op.get
  match w.2 with
  | none => pure false
  | some id => pure (w.1.active id)

/-! ## SQL of the script's -/

/-- What a text and its parameters come to before the first step: a failure, or one
command to perform. -/
abbrev Prepared (D : Dialect) : Type := Except Failure (Cmd D.language)

/-- The rows of the reply. -/
abbrev Prepared.Row : Prepared D → Type
  | .error _ => Unit
  | .ok c => c.Row

/-- `esdb_query`, with the rows that `Runtime.query` leaves out. -/
def queryRows : (prepared : Prepared D) → Runtime.Operation D prepared.Row
  | .error e => Op.fail e
  | .ok c => do
      let status ← Op.attempt (execSql (D := D) .exec c)
      resync
      rethrow status

/-- What `querySql` does once `esdb_query` is over. -/
def forgetEnded : Operation D Unit := do
  let w ← Op.get
  match w.2 with
  | none => pure ()
  | some id => if w.1.active id then pure () else dropTransaction id

/-- The reply of `querySql`; `encodes` says whether it can be written. -/
def queryReply {β : Type} (encodes : Bool) : Except Failure β → Operation D β
  | .error e => failed e "ESDB typed SQL query failed"
  | .ok rows =>
      if encodes then pure rows
      else refuse .internal "failed to encode typed SQL query result"

/-- `querySql`. `refused` is the error of arguments that are rejected before the
handle is looked at. -/
def querySql (refused : Option AdapterError) (prepared : Prepared D) (encodes : Bool) :
    Operation D prepared.Row :=
  match refused with
  | some e => Op.fail e
  | none => do
      let status ← onDatabase (queryRows prepared)
      forgetEnded
      queryReply encodes status

/-! ## Store operations -/

/-- The arguments of the store calls once they are decoded. -/
inductive StoreCall where
  | ensure (name : Bytes)
  | put (name key : Bytes) (value : Value)
  | get (allocates : Bool) (name key : Bytes)
  | delete (name key : Bytes)
  | «exists» (name key : Bytes)
  | count (name : Bytes)
  | scan (room : ObjectStore.SnapshotRoom) (allocates : Bool) (name : Bytes) (after : Option Bytes)
      (limit : ℕ) (callback : ℕ → Verdict)
  | revision
  | changes (room : ObjectStore.SnapshotRoom) (name : Option Bytes) (after limit : ℕ)
      (callback : ℕ → Verdict)
  | prune (through : ℕ)

namespace StoreCall

def op : StoreCall → ObjectStore.StoreOp
  | .ensure name => .ensure name
  | .put name key value => .put name key value
  | .get allocates name key => .get allocates name key
  | .delete name key => .delete name key
  | .exists name key => .exists name key
  | .count name => .count name
  | .scan room allocates name after limit callback => .scan room allocates name after limit callback
  | .revision => .revision
  | .changes room name after limit callback => .changesSince room name after limit callback
  | .prune through => .pruneChanges through

/-- The text of the error when the operation fails. -/
def failure : StoreCall → String
  | .ensure _ => "ESDB failed to ensure Store"
  | .put _ _ _ => "ESDB Store put failed"
  | .get _ _ _ => "ESDB Store get failed"
  | .delete _ _ => "ESDB Store delete failed"
  | .exists _ _ => "ESDB Store exists failed"
  | .count _ => "ESDB Store count failed"
  | .scan _ _ _ _ _ _ => "ESDB ObjectStore scan failed"
  | .revision => "ESDB Store revision failed"
  | .changes _ _ _ _ _ => "ESDB Store changes query failed"
  | .prune _ => "ESDB Store prune failed"

/-- The error of a reply that cannot be written while the slot is locked. -/
def unencoded : StoreCall → Option (ErrorCode × String)
  | .get _ _ _ => some (.internal, "failed to encode ESDB Store value")
  | .scan _ _ _ _ _ _ => some (.outOfMemory, "failed to serialize ObjectStore scan window")
  | .changes _ _ _ _ _ => some (.outOfMemory, "failed to serialize Store change window")
  | _ => none

/-- `objectStoreGet` answers that there is no record. -/
def answersMissing : StoreCall → Bool
  | .get _ _ _ => true
  | _ => false

/-- The operation, over the dialect of the script's SQL. -/
def program (host : Host D) (call : StoreCall) : Runtime.Operation D ObjectStore.Reply :=
  Prog.embed host call.op.program

end StoreCall

/-- The reply of a store call; no reply is that there is no record. -/
def StoreCall.reply (call : StoreCall) (encodes : Bool) :
    Except Failure ObjectStore.Reply → Operation D (Option ObjectStore.Reply)
  | .error e =>
      if call.answersMissing && e.status == .notFound then pure none
      else failed e call.failure
  | .ok r =>
      match call.unencoded with
      | some (code, message) => if encodes then pure (some r) else refuse code message
      | none => pure (some r)

/-- `objectStoreEnsure`, `objectStorePutNumber` and the others. -/
def objectStore (host : Host D) (refused : Option AdapterError) (call : StoreCall)
    (encodes : Bool) : Operation D (Option ObjectStore.Reply) :=
  match refused with
  | some e => Op.fail e
  | none => do
      let status ← onDatabase (call.program host)
      call.reply encodes status

/-! ## Store operations inside a transaction -/

/-- What a store operation may change of the wrapper's state when a transaction is
open: not which transaction that is. -/
structure Leaves (db db' : Database) : Prop where
  transactions : db'.transactions = db.transactions
  current : db'.activeTransaction = db.activeTransaction
  flag : db.transactionActive = true → db'.transactionActive = true

theorem Leaves.refl (db : Database) : Leaves db db := ⟨rfl, rfl, id⟩

theorem Leaves.trans {a b c : Database} (h : Leaves a b) (h' : Leaves b c) : Leaves a c :=
  ⟨h'.transactions.trans h.transactions, h'.current.trans h.current, h'.flag ∘ h.flag⟩

theorem Leaves.handles {id : ℕ} {db db' : Database} (h : Leaves db db')
    (hh : Handles id db) : Handles id db' := by
  refine ⟨?_, h.current.trans hh.current, h.flag hh.flag⟩
  have hactive := hh.active
  unfold Database.active at hactive ⊢
  rw [h.transactions]
  exact hactive

/-- The operation only ever ends a transaction that it began itself. -/
def StaysInside (p : ObjectStore.Operation α) : Prop :=
  ∀ db, Prog.Inside Leaves p (fun _ _ => True) db

namespace StaysInside

variable {β : Type} {p : ObjectStore.Operation α} {f : α → ObjectStore.Operation β}

theorem bind (h : StaysInside p) (hf : ∀ a, StaysInside (f a)) : StaysInside (p >>= f) :=
  fun db => (h db).andThen fun a db' => hf a db'

theorem attempt (h : StaysInside p) : StaysInside (Op.attempt p) := fun db => (h db).attempt

theorem pure (a : α) : StaysInside (Pure.pure a) := fun _ => trivial

theorem fail (e : Failure) : StaysInside (Op.fail e : ObjectStore.Operation α) := fun _ => trivial

theorem get {f : Database → ObjectStore.Operation β} (h : ∀ db, StaysInside (f db)) :
    StaysInside (Op.get >>= f) := fun db => h db db

theorem ask (q : ObjectStore.Query α) : StaysInside (ObjectStore.ask q) := fun _ => Query.inside q

theorem ite {c : Prop} [Decidable c] {p q : ObjectStore.Operation α} (hp : StaysInside p)
    (hq : StaysInside q) : StaysInside (if c then p else q) := by
  split_ifs
  · exact hp
  · exact hq

end StaysInside

theorem begin_inside (db : Database) :
    Prog.Inside Leaves ObjectStore.beginStoreMutation
      (fun r _ => ∀ owns, r = .ok owns → owns = false) db := by
  -- Outside autocommit mode the scope is a savepoint.
  refine ⟨trivial, fun r => ?_⟩
  cases r with
  | error e =>
      intro owns h
      cases h
  | ok serial =>
      intro owns h
      exact (Except.ok.inj h).symm

theorem staysInside_execSql {phase : Phase} {c : Cmd ObjectStore.dialect.language}
    (hc : c.Nested) : StaysInside (execSql (D := ObjectStore.dialect) phase c) :=
  fun _ => Prog.inside_call hc

theorem staysInside_rollback : StaysInside (ObjectStore.rollbackStoreMutation false) := by
  unfold ObjectStore.rollbackStoreMutation
  rw [if_neg (by simp)]
  apply StaysInside.bind
  · apply StaysInside.attempt
    apply StaysInside.bind
    · apply staysInside_execSql
      trivial
    · intro _
      apply staysInside_execSql
      trivial
  · exact fun _ => StaysInside.pure ()

theorem staysInside_commit : StaysInside (ObjectStore.commitStoreMutation false) := by
  unfold ObjectStore.commitStoreMutation
  simp only [Bool.false_eq_true, if_false]
  apply StaysInside.bind
  · apply StaysInside.attempt
    apply staysInside_execSql
    trivial
  · intro status
    cases status with
    | error e => exact StaysInside.bind staysInside_rollback fun _ => StaysInside.fail e
    | ok _ => exact StaysInside.pure ()

theorem staysInside_scope (body : ObjectStore.Query α) :
    StaysInside (ObjectStore.withStoreMutation body) := by
  intro db
  unfold ObjectStore.withStoreMutation
  refine Prog.Inside.op_bind (begin_inside db) fun owns db' howns => ?_
  subst howns
  revert db'
  apply StaysInside.bind (StaysInside.attempt (StaysInside.ask body))
  intro status
  cases status with
  | error e => exact StaysInside.bind staysInside_rollback fun _ => StaysInside.fail e
  | ok a => exact StaysInside.bind staysInside_commit fun _ => StaysInside.pure a

theorem staysInside_schema : StaysInside ObjectStore.ensureObjectStoreSchema := by
  unfold ObjectStore.ensureObjectStoreSchema
  apply StaysInside.get
  intro db
  apply StaysInside.ite (StaysInside.pure ())
  apply StaysInside.ite (StaysInside.fail _)
  apply StaysInside.bind (StaysInside.ask _)
  intro count
  apply StaysInside.ite (StaysInside.fail _)
  have hready : StaysInside (do
      ObjectStore.ask ObjectStore.checkSchemaVersion
      let _ ← ObjectStore.ask ObjectStore.readStoreRevisionMetadata
      Op.modify fun db : Database => { db with objectStoreSchemaReady := true }) := by
    apply StaysInside.bind (StaysInside.ask _)
    intro _
    apply StaysInside.bind (StaysInside.ask _)
    intro _ db
    exact Prog.inside_modify fun db => ⟨rfl, rfl, id⟩
  apply StaysInside.ite
  · apply StaysInside.ite
    · exact StaysInside.bind (StaysInside.fail _) fun _ => hready
    · exact StaysInside.bind (staysInside_scope _) fun _ => hready
  · exact hready

theorem staysInside_writable : StaysInside ObjectStore.requireStoreWritable := by
  unfold ObjectStore.requireStoreWritable
  apply StaysInside.get
  intro db
  apply StaysInside.ite (StaysInside.fail _)
  exact StaysInside.ite (StaysInside.fail _) (StaysInside.pure ())

theorem staysInside_ofExcept (x : Except Failure α) : StaysInside (ObjectStore.ofExcept x) := by
  cases x with
  | error e => exact StaysInside.fail e
  | ok a => exact StaysInside.pure a

/-- What the callback of a window took, or the failure when it threw. -/
theorem staysInside_delivered {β : Type} (snapshot : List β) (callback : ℕ → Verdict) (e : Failure) :
    StaysInside (match ObjectStore.deliveredCount callback snapshot.length 0 with
      | none => Op.fail e
      | some n => pure (snapshot.take n)) := by
  cases ObjectStore.deliveredCount callback snapshot.length 0 with
  | none => exact StaysInside.fail e
  | some n => exact StaysInside.pure _

theorem staysInside_reply {f : α → ObjectStore.Reply} {p : ObjectStore.Operation α}
    (h : StaysInside p) : StaysInside (ObjectStore.reply f p) :=
  StaysInside.bind h fun _ => StaysInside.pure _

theorem staysInside_ensure (name : Bytes) : StaysInside (ObjectStore.ensure name) := by
  unfold ObjectStore.ensure
  apply StaysInside.ite (StaysInside.fail _)
  apply StaysInside.bind staysInside_schema
  intro _
  apply StaysInside.bind (StaysInside.attempt (StaysInside.ask _))
  intro status
  cases status with
  | ok _ => exact StaysInside.pure ()
  | error e =>
      apply StaysInside.ite (StaysInside.fail _)
      apply StaysInside.bind staysInside_writable
      intro _
      exact StaysInside.bind (StaysInside.ask _) fun _ => StaysInside.pure ()

theorem staysInside_put (name key : Bytes) (value : Value) :
    StaysInside (ObjectStore.put name key value) := by
  unfold ObjectStore.put
  apply StaysInside.ite (StaysInside.fail _)
  apply StaysInside.bind staysInside_schema
  intro _
  exact StaysInside.bind staysInside_writable fun _ => staysInside_scope _

theorem staysInside_delete (name key : Bytes) : StaysInside (ObjectStore.delete name key) := by
  unfold ObjectStore.delete
  apply StaysInside.ite (StaysInside.fail _)
  apply StaysInside.bind staysInside_schema
  intro _
  apply StaysInside.bind (StaysInside.attempt (StaysInside.ask _))
  intro status
  cases status with
  | error e => exact StaysInside.ite (StaysInside.pure none) (StaysInside.fail e)
  | ok storeId => exact StaysInside.bind staysInside_writable fun _ => staysInside_scope _

theorem staysInside_prune (through : ℕ) : StaysInside (ObjectStore.pruneChanges through) := by
  unfold ObjectStore.pruneChanges
  apply StaysInside.ite (StaysInside.fail _)
  apply StaysInside.bind staysInside_schema
  intro _
  exact StaysInside.bind staysInside_writable fun _ => StaysInside.ask _

theorem staysInside_get (allocates : Bool) (name key : Bytes) :
    StaysInside (ObjectStore.get allocates name key) := by
  unfold ObjectStore.get
  apply StaysInside.ite (StaysInside.fail _)
  apply StaysInside.bind staysInside_schema
  intro _
  apply StaysInside.bind (StaysInside.ask _)
  intro row
  cases row with
  | none => exact StaysInside.fail _
  | some found => exact staysInside_ofExcept _

theorem staysInside_scan (room : ObjectStore.SnapshotRoom) (allocates : Bool) (name : Bytes)
    (after : Option Bytes) (limit : ℕ) (callback : ℕ → Verdict) :
    StaysInside (ObjectStore.scan room allocates name after limit callback) := by
  unfold ObjectStore.scan
  apply StaysInside.ite (StaysInside.fail _)
  apply StaysInside.ite (StaysInside.fail _)
  apply StaysInside.bind staysInside_schema
  intro _
  apply StaysInside.bind (StaysInside.ask _)
  intro rows
  apply StaysInside.bind (staysInside_ofExcept _)
  intro snapshot
  exact StaysInside.ite (StaysInside.fail _) (staysInside_delivered _ _ _)

theorem staysInside_changes (room : ObjectStore.SnapshotRoom) (name : Option Bytes)
    (after limit : ℕ) (callback : ℕ → Verdict) :
    StaysInside (ObjectStore.changesSince room name after limit callback) := by
  unfold ObjectStore.changesSince ObjectStore.changesSinceImpl
  apply StaysInside.ite (StaysInside.fail _)
  apply StaysInside.ite (StaysInside.fail _)
  apply StaysInside.ite (StaysInside.fail _)
  apply StaysInside.ite (StaysInside.fail _)
  apply StaysInside.bind staysInside_schema
  intro _
  apply StaysInside.bind (StaysInside.ask _)
  intro rows
  apply StaysInside.bind (staysInside_ofExcept _)
  intro snapshot
  exact StaysInside.ite (StaysInside.fail _) (staysInside_delivered _ _ _)

/-- No store operation ends a transaction of its caller's. -/
theorem StoreCall.staysInside (call : StoreCall) : StaysInside call.op.program := by
  cases call with
  | ensure name => exact staysInside_reply (staysInside_ensure name)
  | put name key value => exact staysInside_reply (staysInside_put name key value)
  | get allocates name key => exact staysInside_reply (staysInside_get allocates name key)
  | delete name key => exact staysInside_reply (staysInside_delete name key)
  | «exists» name key =>
      apply staysInside_reply
      apply StaysInside.ite (StaysInside.fail _)
      exact StaysInside.bind staysInside_schema fun _ => StaysInside.ask _
  | count name =>
      apply staysInside_reply
      apply StaysInside.ite (StaysInside.fail _)
      exact StaysInside.bind staysInside_schema fun _ => StaysInside.ask _
  | scan room allocates name after limit callback =>
      exact staysInside_reply (staysInside_scan room allocates name after limit callback)
  | revision =>
      apply staysInside_reply
      exact StaysInside.bind staysInside_schema fun _ => StaysInside.ask _
  | changes room name after limit callback =>
      exact staysInside_reply (staysInside_changes room name after limit callback)
  | prune through => exact staysInside_reply (staysInside_prune through)

end Esdb.AdapterTransaction
