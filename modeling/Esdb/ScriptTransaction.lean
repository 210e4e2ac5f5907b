import Esdb.AdapterTransactionRuns

/-!
# Transactions of the script library

`Database.transaction` begins, calls the script's function and commits; when the
function throws or the commit fails it rolls back and throws. The script knows no
more of the transaction than what its calls into the adapter answer, and each of
these may fail.

Beside the adapter's state stands the kind of the call into the adapter that is
running, which is not in the source and which nothing reads. It lets a condition
speak about the faults of one call and not of another.
-/
namespace Esdb.Script

open Transactional Esdb.Runtime
open Esdb.Adapter (AdapterError)
open Esdb.AdapterTransaction (Host Slotted StoreCall Prepared Open Ready transactionBegin
  transactionCommit transactionRollback transactionActive querySql objectStore)

variable {D : Dialect} {α β : Type}

/-- The calls into the adapter. A final query is one that the function does not outlive
if it fails; the retry is the rollback that follows a refused commit. -/
inductive Site where
  | begin | store | query | finalQuery | active | commit | retry | rollback
  deriving DecidableEq, Repr

/-- An exception: the text, and the error that `lastErrorJSON` adds to it. -/
structure Thrown where
  message : String
  native : Option AdapterError
  deriving DecidableEq, Repr

abbrev Session (D : Dialect) : Type := State D.language (Slotted × Site)

abbrev Action (D : Dialect) (α : Type) : Type := Op D.language (Slotted × Site) Thrown α

/-- A call into the adapter, which answers nothing usable when it has failed. -/
def native (site : Site) (p : AdapterTransaction.Operation D α) :
    Action D (Except AdapterError α) :=
  Op.observe (Prog.noting site (Prog.beside site p))

def fail (message : String) : Action D α := Op.fail ⟨message, none⟩

def failNative (text : String) (e : AdapterError) : Action D α := Op.fail ⟨text, some e⟩

/-! ## `Database.transaction` -/

/-- What the `catch` does before it throws again. -/
def cleanUp : Action D Unit := do
  let active ← native .active (transactionActive (D := D))
  match active with
  | .ok true => do
      let _ ← native .rollback (transactionRollback (D := D))
      pure ()
  | _ => pure ()

/-- `Database.transaction`. -/
def transaction (callback : Action D α) (mode : ℤ) (allocates : Bool) : Action D α := do
  if mode ≠ 0 ∧ mode ≠ 1 ∧ mode ≠ 2 then fail "invalid transaction mode"
  else do
    let began ← native .begin (transactionBegin (D := D) mode allocates)
    match began with
    | .error e => failNative "transaction begin failed" e
    | .ok _ => do
        let result ← Op.attempt callback
        match result with
        | .error e => do
            cleanUp
            Op.fail e
        | .ok a => do
            let committed ← native .commit (transactionCommit (D := D))
            match committed with
            | .ok _ => pure a
            | .error e => do
                let _ ← native .retry (transactionRollback (D := D))
                cleanUp
                failNative "transaction commit failed" e

/-- What a function given to `Database.transaction` may be: it ends by returning or
throwing, or it makes a call, and goes on as it likes with the answer. -/
inductive Callback (host : Host D) : {α : Type} → Action D α → Prop
  | ends {α : Type} (r : Except Thrown α) : Callback host (Prog.ret r : Action D α)
  | store {α : Type} (refused : Option AdapterError) (call : StoreCall) (encodes : Bool)
      (k : Except AdapterError (Option ObjectStore.Reply) → Action D α)
      (h : ∀ r, Callback host (k r)) :
      Callback host (native .store (objectStore host refused call encodes) >>= k)
  | query {α : Type} (refused : Option AdapterError) (prepared : Prepared D) (encodes : Bool)
      (hs : prepared.IsStatement) (k : Except AdapterError prepared.Row → Action D α)
      (h : ∀ r, Callback host (k r)) :
      Callback host (native .query (querySql refused prepared encodes) >>= k)
  | finalQuery {α : Type} (refused : Option AdapterError) (prepared : Prepared D) (encodes : Bool)
      (hs : prepared.IsStatement) (k : Except AdapterError prepared.Row → Action D α)
      (hk : ∀ e, ∃ r, k (.error e) = Prog.ret r) (h : ∀ r, Callback host (k r)) :
      Callback host (native .finalQuery (querySql refused prepared encodes) >>= k)
  | active {α : Type} (k : Except AdapterError Bool → Action D α) (h : ∀ r, Callback host (k r)) :
      Callback host (native .active (transactionActive (D := D)) >>= k)
  | nested {α β : Type} (callback : Action D β) (hc : Callback host callback) (mode : ℤ)
      (allocates : Bool) (k : Except Thrown β → Action D α) (h : ∀ r, Callback host (k r)) :
      Callback host (Op.attempt (transaction callback mode allocates) >>= k)

/-! ## `ObjectStore.patch` -/

/-- One property of the object: an exception of the script's own, if its key is empty
or its value has no encoding, an error of the adapter's in decoding it, and what it is. -/
structure Property where
  rejected : Option Thrown
  refused : Option AdapterError
  key : Bytes
  value : Value

/-- `ObjectStore.set`. -/
def set (host : Host D) (name : Bytes) (p : Property) : Action D Unit :=
  match p.rejected with
  | some e => Op.fail e
  | none => do
      let result ← native .store (objectStore host p.refused (.put name p.key p.value) true)
      match result with
      | .error e => failNative "Store set failed" e
      | .ok _ => pure ()

/-- `ObjectStore.revision`. -/
def revision (host : Host D) : Action D (Option ObjectStore.Reply) := do
  let result ← native .store (objectStore host none .revision true)
  match result with
  | .error e => failNative "Store revision failed" e
  | .ok r => pure r

/-- The function that `patch` gives to `Database.transaction`. -/
def patchAll (host : Host D) (name : Bytes) : List Property → Action D (Option ObjectStore.Reply)
  | [] => revision host
  | p :: rest => do
      set host name p
      patchAll host name rest

/-- `ObjectStore.patch`; no properties is a value that is no object. -/
def patch (host : Host D) (name : Bytes) (values : Option (List Property)) (allocates : Bool) :
    Action D (Option ObjectStore.Reply) :=
  match values with
  | none => fail "patch expects an object of key/value pairs"
  | some properties => transaction (patchAll host name properties) 1 allocates

/-! ## What a function of the script's does -/

variable {C : Contract D.language (Slotted × Site)} {σ σ' : Session D}

/-- The adapter's part of a session. -/
def Session.adapter (σ : Session D) : AdapterTransaction.Session D :=
  ⟨σ.file, σ.conn, σ.wrapper.1⟩

/-- What a call came to, with the sessions before and after it. -/
structure Step (D : Dialect) where
  before : Session D
  succeeded : Bool
  after : Session D

/-- The calls of a function's run, one after the other. -/
inductive Performs (C : Contract D.language (Slotted × Site)) :
    {α : Type} → Action D α → Session D → List (Step D) → Except Thrown α → Session D → Prop
  | ends {α : Type} (r : Except Thrown α) (σ : Session D) :
      Performs C (Prog.ret r : Action D α) σ [] r σ
  | native {α β : Type} {site : Site} {p : AdapterTransaction.Operation D β}
      {k : Except AdapterError β → Action D α} {σ σ₁ σ' : Session D} {a : Except AdapterError β}
      {steps : List (Step D)} {r : Except Thrown α} (hr : Runs C (native site p) σ (.ok a) σ₁)
      (h : Performs C (k a) σ₁ steps r σ') :
      Performs C (native site p >>= k) σ (⟨σ, a.isOk, σ₁⟩ :: steps) r σ'
  | nested {α β : Type} {callback : Action D β} {mode : ℤ} {allocates : Bool}
      {k : Except Thrown β → Action D α} {σ σ₁ σ' : Session D} {a : Except Thrown β}
      {steps : List (Step D)} {r : Except Thrown α}
      (hr : Runs C (transaction callback mode allocates) σ a σ₁)
      (h : Performs C (k a) σ₁ steps r σ') :
      Performs C (Op.attempt (transaction callback mode allocates) >>= k) σ
        (⟨σ, a.isOk, σ₁⟩ :: steps) r σ'

/-- The call was made in the transaction `n`, and left it open. -/
structure Step.Inside (n : ℕ) (step : Step D) : Prop where
  before : step.before.conn.Begun n
  after : step.after.conn.Begun n

/-- The condition. SQLite rolls nothing back by itself, but for a final query, and the
rollback that has the last word is not refused. -/
def Spared (σ : Session D) (c : Cmd D.language) (fault : Fault ℤ) : Prop :=
  match σ.wrapper.2 with
  | .begin => c = .rollback → ∀ e, fault ≠ .fail e
  | .finalQuery => True
  | .rollback => Plain fault ∧ (c = .rollback → ∀ e, fault ≠ .fail e)
  | _ => Plain fault

/-- A contract that meets the condition. -/
structure Meets (C : Contract D.language (Slotted × Site)) : Prop where
  guar : ∀ d d', C.guar d d'
  allows : ∀ σ c f, C.allows σ c f → Spared σ c f

namespace Meets

end Meets

/-- What a function of the script's leaves in whose run the transaction `n` was open: it
is open still and every call was made in it, or SQLite has rolled it back in a final
query. -/
def Leaves (C : Contract D.language (Slotted × Site)) (id n : ℕ) (callback : Action D α)
    (σ : Session D) (r : Except Thrown α) (σ' : Session D) : Prop :=
  ∃ steps, Performs C callback σ steps r σ' ∧ C.rely σ.file σ'.file ∧
    ((Open id n σ'.adapter ∧ ∀ step ∈ steps, step.Inside n) ∨ Ready σ'.adapter)

/-- A call that leaves the transaction open, before the rest of the function. -/
theorem Leaves.after {id n : ℕ} {callback : Action D α} {rest : Action D β} {σ₁ : Session D}
    {succeeded : Bool} {r : Except Thrown α} {r' : Except Thrown β} (ho : Open id n σ.adapter)
    (ho₁ : Open id n σ₁.adapter) (hf : C.rely σ.file σ₁.file) (h : Leaves C id n rest σ₁ r' σ')
    (hcall : ∀ steps, Performs C rest σ₁ steps r' σ' →
      Performs C callback σ (⟨σ, succeeded, σ₁⟩ :: steps) r σ') :
    Leaves C id n callback σ r σ' := by
  obtain ⟨steps, hp, hfile, hfate⟩ := h
  refine ⟨_, hcall steps hp, C.rely_trans hf hfile, ?_⟩
  rcases hfate with ⟨ho', hin⟩ | hready
  · refine .inl ⟨ho', fun step hs => ?_⟩
    rcases List.mem_cons.mp hs with rfl | hs
    · exact ⟨ho.holds.begun, ho₁.holds.begun⟩
    · exact hin step hs
  · exact .inr hready

/-- A transaction is open and in the slot, or none is open and none is taken to be. -/
def Settled (σ : Session D) : Prop := (∃ id n, Open id n σ.adapter) ∨ Ready σ.adapter

/-- A transaction can begin in any mode, if nothing interferes. -/
def CanBegin (σ : Session D) : Prop :=
  ∀ mode : ℤ, mode = 0 ∨ mode = 1 ∨ mode = 2 →
    ((transactionBegin mode true).run [] σ.adapter).1 = .ok ()

/-- Every call of the function was made in one transaction, and what that transaction
had written when the function returned is in the file. -/
def Committed (C : Contract D.language (Slotted × Site)) (callback : Action D α) (a : α)
    (σ' : Session D) : Prop :=
  ∃ (n : ℕ) (σ₁ σ₂ : Session D) (steps : List (Step D)) (file : D.Content),
    Performs C callback σ₁ steps (.ok a) σ₂ ∧ (∀ step ∈ steps, step.Inside n) ∧
      σ₂.conn.Begun n ∧ C.Moves σ₂.conn σ₂.file file ∧ σ'.file = σ₂.conn.pending.getD file

/-- The claim about one transaction: it committed what its function did, or the file is
as other connections have left it; in either case the next transaction can begin. -/
structure AllOrNothing (C : Contract D.language (Slotted × Site)) (callback : Action D α)
    (σ : Session D) (r : Except Thrown α) (σ' : Session D) : Prop where
  outcome : match r with
    | .ok a => Committed C callback a σ'
    | .error _ => C.rely σ.file σ'.file
  closed : σ'.conn.txn = none
  ready : Ready σ'.adapter
  next : CanBegin σ'

/-- A script that is alone with its database. -/
def alone (allows : Session D → Cmd D.language → Fault ℤ → Prop) :
    Contract D.language (Slotted × Site) where
  rely := Eq
  guar := fun _ _ => True
  allows := allows
  rely_refl := fun _ => rfl
  rely_trans := fun h h' => h.trans h'
  guar_refl := fun _ => trivial

def freshHandle : Session ObjectStore.dialect :=
  ⟨ObjectStore.Tables.empty, Conn.closed, (Database.opened 0, none), .begin⟩

end Esdb.Script
