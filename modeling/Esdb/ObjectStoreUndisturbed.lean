import Esdb.ObjectStoreShared
import Esdb.ObjectStoreValues
import Esdb.TransactionalUndisturbed

/-!
# Operations that nothing disturbs

A connection outside a transaction, on a sound file that it may write, while nobody
else is there and nothing fails. Every operation then does what its statements denote,
and there are few reasons left for it to fail: no revision or no store number is left.
-/
namespace Esdb.ObjectStore

open Transactional KeyedRows Esdb.Runtime

structure Working (σ : Session) : Prop where
  txn : σ.conn.txn = none
  writable : σ.wrapper.readOnly = 0
  sound : Sound σ.file
  flag : σ.wrapper.objectStoreSchemaReady = true → Filled σ.file

variable {α : Type} {body : Query α} {x : α} {e : Failure} {σ σ' : Session} {d d' : Tables}

/-! ## A mutation scope -/

/-- Inside the scope: the transaction is its own, and nothing but the content and the
mirror has changed. -/
def begun (σ : Session) (d : Tables) : Session :=
  ⟨σ.file, σ.conn.openTxn (.writing d), { σ.wrapper with transactionActive := true }⟩

/-- After it. -/
def settledAt (σ : Session) (d : Tables) : Session :=
  ⟨d, (σ.conn.openTxn (.writing d)).abort,
    { σ.wrapper with transactionActive := false, savepoints := [] }⟩

/-- What the check of the schema leaves: the file as it was, or a new store in it. -/
structure Prepared (σ σ' : Session) : Prop where
  working : Working σ'
  ready : σ'.wrapper.objectStoreSchemaReady = true
  filled : Filled σ'.file
  file : σ'.file = σ.file ∨ σ.file = Tables.empty ∧ σ'.file = Tables.empty.created

/-- A store of that name is there, or there is a number left for one. -/
def Registrable (name : Bytes) (d : Tables) : Prop :=
  (∃ s ∈ d.storeRows, s.name = name) ∨ Tables.nextStoreId d.storeRows ≤ maxRowid

section Statements

variable {name key : Bytes} {value : Value} {storeId : ℤ}

end Statements

end Esdb.ObjectStore
