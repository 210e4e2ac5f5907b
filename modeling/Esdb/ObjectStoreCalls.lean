import Esdb.ObjectStoreOperations

/-!
# Calls on a connection

The operations of the store as one type, with their replies, beside the calls that
control transactions. Whatever an operation is, it makes the progress its reply
accounts for, and at its end it may change the connection's subscriptions.
-/
namespace Esdb.ObjectStore

open Transactional Esdb.Runtime

inductive StoreOp where
  | ensure (name : Bytes)
  | put (name key : Bytes) (value : Value)
  | delete (name key : Bytes)
  | pruneChanges (through : ℕ)
  | get (allocates : Bool) (name key : Bytes)
  | «exists» (name key : Bytes)
  | count (name : Bytes)
  | revision
  | scan (room : SnapshotRoom) (allocates : Bool) (name : Bytes) (after : Option Bytes) (limit : ℕ)
      (callback : ℕ → Verdict)
  | changesSince (room : SnapshotRoom) (name : Option Bytes) (after limit : ℕ)
      (callback : ℕ → Verdict)
  | subscribe (allocates : Bool) (filter : Option Bytes) (after : ℕ)
  | poll (id : ℕ) (polling : Bool) (room : SnapshotRoom) (limit : ℕ) (callback : ℕ → Verdict)

inductive Reply where
  | done
  | assigned (revision : ℤ)
  | deleted (revision : Option ℤ)
  | pruned (rows : ℕ)
  | value (v : Value)
  | answer (b : Bool)
  | number (n : ℕ)
  | records (rows : List OwnedRecord)
  | changes (accepted : List OwnedChange)
  | handle (id : ℕ)
  deriving DecidableEq, Repr

/-- The operation with its reply. -/
def reply {α : Type} (f : α → Reply) (p : Operation α) : Operation Reply := do
  let x ← p
  pure (f x)

def StoreOp.program : StoreOp → Operation Reply
  | .ensure name => reply (fun _ => .done) (ObjectStore.ensure name)
  | .put name key value => reply .assigned (ObjectStore.put name key value)
  | .delete name key => reply .deleted (ObjectStore.delete name key)
  | .pruneChanges through => reply .pruned (ObjectStore.pruneChanges through)
  | .get allocates name key => reply .value (ObjectStore.get allocates name key)
  | .exists name key => reply .answer (ObjectStore.exists name key)
  | .count name => reply .number (ObjectStore.count name)
  | .revision => reply .number ObjectStore.revision
  | .scan room allocates name after limit callback =>
      reply .records (ObjectStore.scan room allocates name after limit callback)
  | .changesSince room name after limit callback =>
      reply .changes (ObjectStore.changesSince room name after limit callback)
  | .subscribe allocates filter after => reply .handle (ObjectStore.subscribe allocates filter after)
  | .poll id polling room limit callback =>
      reply .changes (ObjectStore.poll id polling room limit callback)

/-- The mutations that the reply of an operation accounts for, beyond the creation
of the schema. `σ'` is the session it ends in. -/
def StoreOp.account (C : StoreContract) (σ' : Session) (op : StoreOp) (r : Except Failure Reply)
    (ms : List Mutation) : Prop :=
  match op with
  | .ensure name => (ms = [] ∨ ms = [.register name]) ∧
      (∀ e, r = .error e → ms = [] ∨ Unread C name σ')
  | .put name key value => match r with
      | .ok (.assigned number) => ms = [.put name key value number]
      | .ok _ => False
      | .error _ => ms = []
  | .delete _ key => match r with
      | .ok (.deleted (some number)) => ∃ storeId, ms = [.delete storeId key (some number)]
      | .ok _ => ms = [] ∨ ∃ storeId, ms = [.delete storeId key none]
      | .error _ => ms = []
  | .pruneChanges through => match r with
      | .ok (.pruned rows) => ms = [.prune through rows]
      | .ok _ => False
      | .error _ => ms = [] ∨ ms = [.pruneRejected through]
  | _ => ms = []

variable {C : StoreContract} {α : Type} {σ σ₁ σ' : Session} {ms : List Mutation}

/-- Only the two operations on subscriptions change them, as their last step. -/
def Resubscribed (op : StoreOp) (σ σ' : Session) : Prop :=
  match op with
  | .subscribe .. | .poll .. =>
      ∃ subs, σ' = { σ with wrapper := { σ.wrapper with subscriptions := subs } }
  | _ => σ' = σ

theorem Resubscribed.refl (op : StoreOp) (σ : Session) : Resubscribed op σ σ := by
  cases op with
  | subscribe allocates filter after => exact ⟨σ.wrapper.subscriptions, rfl⟩
  | poll id polling room limit callback => exact ⟨σ.wrapper.subscriptions, rfl⟩
  | _ => rfl

/-- How an operation may end. -/
def Ends (C : StoreContract) (op : StoreOp) (σ : Session) (r : Except Failure Reply)
    (σ' : Session) : Prop :=
  ∃ first rest σ₁, Progress C (first ++ rest) σ σ₁ ∧ Initial first ∧ op.account C σ' r rest ∧
    Resubscribed op σ₁ σ'

theorem wp_reply {f : α → Reply} {p : Operation α} {post : Except Failure Reply → Session → Prop}
    (h : wp C p (fun r σ' => post (r.map f) σ') σ) : wp C (reply f p) post σ := by
  unfold reply
  rw [wp_op_bind]
  apply wp_mono h
  intro r σ' hr
  cases r with
  | error e => exact hr
  | ok x => exact hr

theorem Accounts.ends {op : StoreOp} {f : α → Reply} {r : Except Failure α}
    {account : Except Failure α → List Mutation → Prop} (h : Accounts C σ account r σ')
    (ha : ∀ ms, account r ms → op.account C σ' (r.map f) ms) : Ends C op σ (r.map f) σ' := by
  obtain ⟨first, rest, hp, hf, hr⟩ := h
  exact ⟨first, rest, σ', hp, hf, ha _ hr, .refl op σ'⟩

theorem Accounts.ends_untouched {op : StoreOp} {f : α → Reply} {r : Except Failure α}
    (h : Accounts C σ untouched r σ') (ha : op.account C σ' (r.map f) []) :
    Ends C op σ (r.map f) σ' := by
  refine h.ends fun ms hms => ?_
  obtain rfl := hms
  exact ha

/-! ## Subscriptions -/

/-- A subscription begins at the end of a progress without mutations of its own. -/
theorem wp_subscribe (hC : Hosts C) (hroot : σ.conn.Rooted) (allocates : Bool)
    (filter : Option Bytes) (after : ℕ) :
    wp C (subscribe allocates filter after) (fun r σ' => ∃ ms σ₁, Progress C ms σ σ₁ ∧ Initial ms ∧
      match r with
      | .error _ => σ' = σ₁
      | .ok id => after ≤ revisionMax ∧ id = σ₁.wrapper.subscriptions.length ∧
          σ' = { σ₁ with wrapper := { σ₁.wrapper with
            subscriptions := σ₁.wrapper.subscriptions ++ [⟨filter, after, after, []⟩] } }) σ := by
  unfold subscribe
  by_cases hf : (!(filter.all validStoreName)) = true
  · rw [if_pos hf]
    exact ⟨[], σ, .refl σ, .nil, rfl⟩
  rw [if_neg hf]
  by_cases ha : revisionMax < after
  · rw [if_pos ha]
    exact ⟨[], σ, .refl σ, .nil, rfl⟩
  rw [if_neg ha]
  apply wp_after_schema hC hroot
  · exact fun ms e σ₁ hp hms => ⟨ms, σ₁, hp, hms, rfl⟩
  intro ms σ₁ hp hms _
  cases allocates with
  | false => exact ⟨ms, σ₁, hp, hms, rfl⟩
  | true => exact ⟨ms, σ₁, hp, hms, Nat.not_lt.mp ha, rfl, rfl⟩

/-- How a poll may end: without having touched the subscription, or with the
changes it accepted. -/
def Polled (C : StoreContract) (id limit : ℕ) (callback : ℕ → Verdict) (σ : Session)
    (r : Except Failure (List OwnedChange)) (σ' : Session) : Prop :=
  match r with
  | .error _ => ∃ ms, Progress C ms σ σ' ∧ Initial ms
  | .ok accepted => ∃ sub σ₁, σ.wrapper.subscriptions[id]? = some sub ∧
      Queried C sub.filter sub.revision limit callback σ (.ok accepted) σ₁ ∧
      σ' = { σ₁ with wrapper := { σ₁.wrapper with
        subscriptions := σ₁.wrapper.subscriptions.modify id (ObjectSubscription.accept accepted) } }

theorem wp_poll (hC : Hosts C) (hroot : σ.conn.Rooted) (id : ℕ) (polling : Bool)
    (room : SnapshotRoom) (limit : ℕ) (callback : ℕ → Verdict) :
    wp C (poll id polling room limit callback) (Polled C id limit callback σ) σ := by
  unfold poll
  rw [wp_op_bind, wp_get]
  dsimp only
  cases hsub : σ.wrapper.subscriptions[id]? with
  | none => exact ⟨[], .refl σ, .nil⟩
  | some sub =>
      dsimp only
      cases polling with
      | true => exact ⟨[], .refl σ, .nil⟩
      | false =>
          rw [if_neg (by simp), wp_op_bind]
          apply wp_mono (wp_changesSinceImpl hC hroot room sub.filter sub.revision limit callback)
          intro r σ₁ h
          cases r with
          | error e => exact h.accounts
          | ok accepted => exact ⟨sub, σ₁, hsub, h, rfl⟩

/-! ## Every operation -/

theorem wp_storeOp (hC : Hosts C) (hroot : σ.conn.Rooted) (op : StoreOp) :
    wp C op.program (Ends C op σ) σ := by
  cases op with
  | ensure name =>
      apply wp_reply
      apply wp_mono (wp_ensure hC hroot name)
      intro r σ' h
      refine Accounts.ends h fun ms hms => ⟨hms.1, fun e he => ?_⟩
      cases r with
      | error e' => exact hms.2 e' rfl
      | ok x => exact nomatch he
  | put name key value =>
      apply wp_reply
      apply wp_mono (wp_put hC hroot name key value)
      intro r σ' h
      refine h.ends fun ms hms => ?_
      cases r with
      | error e => exact hms
      | ok revision => exact hms
  | delete name key =>
      apply wp_reply
      apply wp_mono (wp_delete hC hroot name key)
      intro r σ' h
      refine h.ends fun ms hms => ?_
      cases r with
      | error e => exact hms
      | ok revision =>
          cases revision with
          | none => exact hms
          | some revision => exact hms
  | pruneChanges through =>
      apply wp_reply
      apply wp_mono (wp_pruneChanges hC hroot through)
      intro r σ' h
      refine h.ends fun ms hms => ?_
      cases r with
      | error e => exact hms
      | ok rows => exact hms
  | get allocates name key =>
      apply wp_reply
      apply wp_mono (wp_get_record hC hroot allocates name key)
      exact fun r σ' h => h.ends_untouched rfl
  | «exists» name key =>
      apply wp_reply
      apply wp_mono (wp_exists hC hroot name key)
      exact fun r σ' h => h.ends_untouched rfl
  | count name =>
      apply wp_reply
      apply wp_mono (wp_count hC hroot name)
      exact fun r σ' h => h.ends_untouched rfl
  | revision =>
      apply wp_reply
      apply wp_mono (wp_revision hC hroot)
      exact fun r σ' h => h.ends_untouched rfl
  | scan room allocates name after limit callback =>
      apply wp_reply
      apply wp_mono (wp_scan hC hroot room allocates name after limit callback)
      exact fun r σ' h => h.ends_untouched rfl
  | changesSince room name after limit callback =>
      apply wp_reply
      apply wp_mono (wp_changesSinceImpl hC hroot room name after limit callback)
      intro r σ' h
      obtain ⟨ms, hp, hms⟩ := h.accounts
      exact ⟨ms, [], σ', by simpa using hp, hms, rfl, .refl _ σ'⟩
  | subscribe allocates filter after =>
      apply wp_reply
      apply wp_mono (wp_subscribe hC hroot allocates filter after)
      rintro r σ' ⟨ms, σ₁, hp, hms, h⟩
      refine ⟨ms, [], σ₁, by simpa using hp, hms, rfl, ?_⟩
      cases r with
      | error e =>
          obtain rfl := h
          exact .refl _ _
      | ok id => exact ⟨_, h.2.2⟩
  | poll id polling room limit callback =>
      apply wp_reply
      apply wp_mono (wp_poll hC hroot id polling room limit callback)
      intro r σ' h
      cases r with
      | error e =>
          obtain ⟨ms, hp, hms⟩ := h
          exact ⟨ms, [], σ', by simpa using hp, hms, rfl, .refl _ σ'⟩
      | ok accepted =>
          obtain ⟨sub, σ₁, -, hq, rfl⟩ := h
          obtain ⟨ms, hp, hms⟩ := hq.accounts
          exact ⟨ms, [], σ₁, by simpa using hp, hms, rfl, ⟨_, rfl⟩⟩

/-! ## Calls -/

inductive Call where
  | begin (mode : ℕ) (allocates : Bool)
  | commit (id : ℕ)
  | rollback (id : ℕ)
  | destroy (id : ℕ)
  | savepointBegin (name : Bytes)
  | savepointRelease (name : Bytes)
  | savepointRollback (name : Bytes)
  | store (op : StoreOp)

def Call.program : Call → Operation Reply
  | .begin mode allocates => reply .handle (Runtime.begin mode allocates)
  | .commit id => reply (fun _ => .done) (finishTransaction id true)
  | .rollback id => reply (fun _ => .done) (finishTransaction id false)
  | .destroy id => reply (fun _ => .done) (Runtime.destroy id)
  | .savepointBegin name => reply (fun _ => .done) (Runtime.savepointBegin name)
  | .savepointRelease name => reply (fun _ => .done) (Runtime.savepointRelease name)
  | .savepointRollback name => reply (fun _ => .done) (Runtime.savepointRollback name)
  | .store op => op.program

/-- The transaction handle that a call is given. -/
def Call.handle : Call → Option ℕ
  | .commit id | .rollback id | .destroy id => some id
  | _ => none

/-- A caller uses no handle that it was not given or has destroyed. -/
def Call.Legal (call : Call) (db : Database) : Prop :=
  ∀ id, call.handle = some id → ∃ tx, db.transactions[id]? = some tx ∧ tx.destroyed = false

/-- The sessions between the calls of one connection among others: it was opened,
and every call since was legal and met `meets`. -/
inductive Reaches (C : StoreContract) (meets : Call → Session → Prop) : Session → Prop
  | opened (file : Tables) (readOnly : ℤ) :
      Reaches C meets ⟨file, Conn.closed, Database.opened readOnly⟩
  | call {σ σ' : Session} {r : Except Failure Reply} (call : Call) (h : Reaches C meets σ)
      (hl : call.Legal σ.wrapper) (hm : meets call σ) (hr : Runs C call.program σ r σ') :
      Reaches C meets σ'
  | others {σ : Session} (file : Tables) (h : Reaches C meets σ)
      (hm : C.Moves σ.conn σ.file file) : Reaches C meets { σ with file := file }

/-- The session after a call that nothing interferes with. -/
def Call.undisturbed (σ : Session) (call : Call) : Session := (call.program.run [] σ).2

theorem Reaches.undisturbed {meets : Call → Session → Prop} (h : Reaches C meets σ) (call : Call)
    (hl : call.Legal σ.wrapper) (hm : meets call σ)
    (hnone : ∀ σ c, C.allows σ c .none) : Reaches C meets (call.undisturbed σ) :=
  .call call h hl hm (runs_run (call.program.admits_nil hnone σ))

end Esdb.ObjectStore
