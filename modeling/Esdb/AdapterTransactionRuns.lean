import Esdb.AdapterTransaction
import Esdb.TransactionalHistory

/-!
# Runs on one handle of the script adapter

What each call does to a session whose slot holds the open transaction, and to one
in which no transaction is open. From these follows what holds between the calls of
a run: as long as SQLite ends no transaction by itself behind the slot's back, the
slot holds a transaction only while that transaction is open.
-/
namespace Esdb.AdapterTransaction

open Transactional Esdb.Runtime
open Esdb.Adapter (ErrorCode AdapterError)

variable {D : Dialect} {C : Contract D.language Slotted} {σ : Session D} {α : Type}

/-- The runtime's part of a session. -/
def Session.runtime (σ : Session D) : State D.language Database := ⟨σ.file, σ.conn, σ.wrapper.1⟩

/-- The slot holds the handle of the transaction `n`, which is open. -/
structure Open (id n : ℕ) (σ : Session D) : Prop where
  slot : σ.wrapper.2 = some id
  holds : Holds id n σ.runtime

/-- No transaction is open, and neither the slot nor the wrapper takes one to be. -/
structure Ready (σ : Session D) : Prop where
  slot : σ.wrapper.2 = none
  txn : σ.conn.txn = none
  flag : σ.wrapper.1.transactionActive = false

theorem wp_onDatabase {p : Runtime.Operation D α}
    {post : Except AdapterError (Except Failure α) → Session D → Prop} :
    wp C (onDatabase p) post σ ↔ wp (C.beside σ.wrapper.2) p
      (fun r σ' => post (.ok r) (σ'.beside σ.wrapper.2)) σ.runtime := by
  unfold onDatabase
  apply Iff.trans wp_observe
  exact wp_beside (σ := σ.runtime)

/-! ## Transactions -/

/-- A transaction that an empty slot is asked for is held by the slot once it is open. -/
theorem wp_transactionBegin (mode : ℤ) (allocates : Bool) (h : σ.wrapper.2 = none) :
    wp C (transactionBegin mode allocates) (fun r σ' => C.rely σ.file σ'.file ∧ match r with
      | .error e => e ≠ alreadyActive ∧ σ'.wrapper.2 = none ∧
          σ'.wrapper.1.transactionActive = σ.wrapper.1.transactionActive ∧
          (σ'.conn.txn = σ.conn.txn ∨ Refuses (C.beside none) .rollback)
      | .ok _ => ∃ id, Open id σ.conn.opened σ') σ := by
  unfold transactionBegin
  split_ifs with hmode
  · exact ⟨C.rely_refl _, by simp [alreadyActive], h, rfl, .inl rfl⟩
  rw [wp_op_bind, wp_get]
  dsimp only
  rw [h]
  simp only [Option.isSome_none, Bool.false_eq_true, if_false]
  rw [wp_op_bind, wp_onDatabase, h]
  apply wp_mono (wp_begin mode.toNat allocates)
  intro r σ' hr
  cases r with
  | error e => exact ⟨hr.1, by simp [alreadyActive], rfl, hr.2⟩
  | ok id => exact ⟨hr.1, id, rfl, hr.2⟩

/-- A slot that holds a transaction refuses another one. -/
theorem wp_transactionBegin_held (mode : ℤ) (allocates : Bool) (h : σ.wrapper.2.isSome) :
    wp C (transactionBegin mode allocates) (fun r σ' => (∃ e, r = .error e) ∧ σ' = σ) σ := by
  unfold transactionBegin
  split_ifs with hmode
  · exact ⟨⟨_, rfl⟩, rfl⟩
  rw [wp_op_bind, wp_get]
  dsimp only
  rw [if_pos h]
  exact ⟨⟨_, rfl⟩, rfl⟩

/-- Destroying a transaction that has ended empties the slot. -/
theorem wp_dropTransaction {id : ℕ} (h : σ.wrapper.1.active id = false) :
    wp C (dropTransaction id) (fun r σ' => r = .ok () ∧ σ'.wrapper.2 = none ∧
      σ'.file = σ.file ∧ σ'.conn = σ.conn ∧
      σ'.wrapper.1.transactionActive = σ.wrapper.1.transactionActive) σ := by
  unfold dropTransaction
  rw [wp_op_bind, wp_onDatabase]
  unfold destroy
  rw [wp_op_bind, wp_get]
  dsimp only
  rw [if_neg (by simpa [Session.runtime] using h)]
  exact ⟨rfl, rfl, rfl, rfl, rfl⟩

/-- What a commit or a rollback of the open transaction comes to where no fault rolls
back. -/
def Finished (C : Contract D.language Slotted) (id n : ℕ) (commit : Bool) (σ : Session D)
    (r : Except AdapterError Unit) (σ' : Session D) : Prop :=
  match r with
  | .ok _ => Ready σ' ∧ ∃ file, C.Moves σ.conn σ.file file ∧
      σ'.file = if commit then σ.conn.pending.getD file else file
  | .error _ => Open id n σ' ∧ σ'.conn = σ.conn ∧ C.Moves σ.conn σ.file σ'.file ∧
      Refuses (C.beside (some id)) (if commit then .commit else .rollback)

theorem wp_transactionFinish {id n : ℕ} (hC : (C.beside (some id)).Steady)
    (hg : ∀ d d', C.guar d d') (commit : Bool) (message : String) (h : Open id n σ) :
    wp C (transactionFinish commit message) (Finished C id n commit σ) σ := by
  unfold transactionFinish
  rw [wp_op_bind, wp_get]
  dsimp only
  rw [h.slot]
  dsimp only
  rw [wp_op_bind, wp_onDatabase, h.slot]
  apply wp_mono (wp_finish hC hg commit h.holds)
  intro r σ' hr
  cases hr with
  | refused hh hc hm href => exact ⟨⟨rfl, hh⟩, hc, hm, href⟩
  | done file hm hc hactive hflag hf =>
      apply wp_mono (wp_dropTransaction (σ := σ'.beside (some id)) hactive)
      rintro r σ₂ ⟨rfl, hslot, hfile, hconn, hflag₂⟩
      exact ⟨⟨hslot, hconn ▸ hc, hflag₂.trans hflag⟩, file, hm, hfile.trans hf⟩

theorem wp_transactionFinish_empty (commit : Bool) (message : String) (h : σ.wrapper.2 = none) :
    wp C (transactionFinish commit message) (fun r σ' => (∃ e, r = .error e) ∧ σ' = σ) σ := by
  unfold transactionFinish
  rw [wp_op_bind, wp_get]
  dsimp only
  rw [h]
  exact ⟨⟨_, rfl⟩, rfl⟩

theorem wp_transactionActive {post : Except AdapterError Bool → Session D → Prop}
    (h : post (.ok (σ.wrapper.2.any fun id => σ.wrapper.1.active id)) σ) :
    wp C transactionActive post σ := by
  unfold transactionActive
  rw [wp_op_bind, wp_get]
  dsimp only
  cases hslot : σ.wrapper.2 with
  | none =>
      rw [hslot] at h
      exact h
  | some id =>
      rw [hslot] at h
      exact h

/-! ## SQL of the script's -/

/-- The resynchronization tells the handle of an ended transaction. -/
theorem active_sync {id : ℕ} {db : Database} (h : db.activeTransaction = some id) :
    (db.sync true).active id = false := by
  simp only [Database.sync, h, if_true]
  simp only [Database.active, Database.setActive, List.getElem?_modify_eq]
  cases db.transactions[id]? <;> rfl

theorem sync_flag (autocommit : Bool) (db : Database) :
    (db.sync autocommit).transactionActive = !autocommit := by
  unfold Database.sync
  cases autocommit with
  | false => rfl
  | true => cases db.activeTransaction <;> rfl

theorem handles_sync {id : ℕ} {db : Database} (h : Handles id db) :
    Handles id (db.sync false) := ⟨h.active, h.current, rfl⟩

/-- The end of `esdb_query`. -/
theorem wp_resync {β : Type} {C : Contract D.language Database} {σ : State D.language Database}
    (status : Except Failure β) {post : Except Failure β → State D.language Database → Prop}
    (h : post status { σ with wrapper := σ.wrapper.sync σ.conn.autocommit }) :
    wp C (do
      resync (D := D)
      rethrow status : Runtime.Operation D β) post σ := by
  unfold resync
  rw [wp_op_bind, wp_op_bind, wp_autocommit]
  cases status with
  | error e => exact h
  | ok row => exact h

/-- No transaction control. -/
def Prepared.IsStatement : Prepared D → Prop
  | .error _ => True
  | .ok (.stmt _) => True
  | .ok _ => False

/-- The transaction `n` has ended, and its handle says so. -/
structure Gone (id : ℕ) (σ : State D.language Database) : Prop where
  txn : σ.conn.txn = none
  handle : σ.wrapper.active id = false
  flag : σ.wrapper.transactionActive = false

/-- After SQL of the script's in the transaction `n`. A statement ends it only where
SQLite answers it by rolling back, and is reported as failed then. -/
structure Queried (C : Contract D.language Database) (id n : ℕ) (prepared : Prepared D)
    (σ : State D.language Database) (r : Except Failure prepared.Row)
    (σ' : State D.language Database) : Prop where
  fate : Holds id n σ' ∨
    Gone id σ' ∧ (prepared.IsStatement → (∃ e, r = .error e) ∧ ¬ C.Steady)
  file : prepared.IsStatement → C.rely σ.file σ'.file

theorem holds_synced {σ : State D.language Database} {id n : ℕ} (h : Holds id n σ)
    {conn : Conn D.language} (hb : conn.Begun n) (file : D.Content) :
    Holds id n ⟨file, conn, σ.wrapper.sync conn.autocommit⟩ := by
  rw [hb.autocommit]
  exact ⟨handles_sync h.handle, hb⟩

theorem gone_synced {σ : State D.language Database} {id n : ℕ} (h : Holds id n σ)
    {conn : Conn D.language} (hc : conn.txn = none) (file : D.Content) :
    Gone id ⟨file, conn, σ.wrapper.sync conn.autocommit⟩ := by
  have hauto : conn.autocommit = true := by simp [Conn.autocommit, hc]
  rw [hauto]
  exact ⟨hc, active_sync h.handle.current, sync_flag true _⟩

theorem wp_queryRows {C : Contract D.language Database} {σ : State D.language Database}
    (hg : ∀ d d', C.guar d d') {id n : ℕ} (h : Holds id n σ) (prepared : Prepared D) :
    wp C (queryRows prepared) (Queried C id n prepared σ) σ := by
  cases prepared with
  | error e => exact ⟨.inl h, fun _ => C.rely_refl _⟩
  | ok c =>
      unfold queryRows
      rw [wp_op_bind, wp_attempt]
      apply wp_call
      · intro file e hm _
        apply wp_resync
        exact ⟨.inl (holds_synced h h.begun file), fun _ => hm.rely⟩
      · intro file e hm ha
        apply wp_resync
        rcases exec_begun h.begun true (.rollback e) file c with hb | hc
        · exact ⟨.inl (holds_synced h hb file), fun _ => hm.rely⟩
        · refine ⟨.inr ⟨gone_synced h hc file, fun _ => ⟨⟨_, rfl⟩, ?_⟩⟩, fun _ => hm.rely⟩
          exact fun hC => hC _ _ e ha
      · intro file free hm _
        refine ⟨hg _ _, ?_⟩
        apply wp_resync
        have hfile : Prepared.IsStatement (.ok c : Prepared D) →
            (perform free file σ.conn c).conn.Begun n ∧ (perform free file σ.conn c).file = file := by
          intro hs
          cases c with
          | stmt s =>
              apply perform_nested h.begun
              trivial
          | _ => exact hs.elim
        constructor
        · rcases exec_begun h.begun free .none file c with hb | hc
          · exact .inl (holds_synced h hb _)
          · refine .inr ⟨gone_synced h hc _, fun hs => ?_⟩
            obtain ⟨t, ht, -, -⟩ := (hfile hs).1
            exact absurd (ht.symm.trans hc) (by simp)
        · intro hs
          dsimp only
          rw [(hfile hs).2]
          exact hm.rely

/-- A transaction that is still open stays in the slot. -/
theorem wp_forgetEnded_open {id n : ℕ} (h : Open id n σ)
    {post : Except AdapterError Unit → Session D → Prop} (hpost : post (.ok ()) σ) :
    wp C forgetEnded post σ := by
  unfold forgetEnded
  rw [wp_op_bind, wp_get]
  dsimp only
  rw [h.slot]
  dsimp only
  rw [if_pos (show σ.wrapper.1.active id = true from h.holds.handle.active)]
  exact hpost

theorem wp_forgetEnded_gone {id : ℕ} (hslot : σ.wrapper.2 = some id) (h : Gone id σ.runtime) :
    wp C forgetEnded (fun r σ' => r = .ok () ∧ Ready σ' ∧ σ'.file = σ.file) σ := by
  have hactive : σ.wrapper.1.active id = false := h.handle
  unfold forgetEnded
  rw [wp_op_bind, wp_get]
  dsimp only
  rw [hslot]
  dsimp only
  rw [if_neg (by simp [hactive])]
  apply wp_mono (wp_dropTransaction hactive)
  rintro r σ' ⟨rfl, hempty, hfile, hconn, hflag⟩
  exact ⟨rfl, ⟨hempty, hconn ▸ h.txn, hflag.trans h.flag⟩, hfile⟩

/-- After `querySql` in the transaction `n`. -/
structure QueriedSql (C : Contract D.language Slotted) (id n : ℕ) (prepared : Prepared D)
    (σ : Session D) (r : Except AdapterError prepared.Row) (σ' : Session D) : Prop where
  fate : Open id n σ' ∨ Ready σ' ∧
    (prepared.IsStatement → (∃ e, r = .error e) ∧ ¬ (C.beside (some id)).Steady)
  file : prepared.IsStatement → C.rely σ.file σ'.file

theorem wp_queryReply {β : Type} {status : Except Failure β} {encodes : Bool}
    {post : Except AdapterError β → Session D → Prop}
    (h : ∀ r, (∀ e, status = .error e → ∃ e', r = .error e') → post r σ) :
    wp C (queryReply encodes status) post σ := by
  unfold queryReply
  cases status with
  | error e => exact h _ fun _ _ => ⟨_, rfl⟩
  | ok rows =>
      dsimp only
      split_ifs
      · exact h _ fun _ he => nomatch he
      · exact h _ fun _ he => nomatch he

theorem wp_querySql {id n : ℕ} (hg : ∀ d d', C.guar d d') (refused : Option AdapterError)
    (prepared : Prepared D) (encodes : Bool) (h : Open id n σ) :
    wp C (querySql refused prepared encodes) (QueriedSql C id n prepared σ) σ := by
  cases refused with
  | some e => exact ⟨.inl h, fun _ => C.rely_refl _⟩
  | none =>
      unfold querySql
      dsimp only
      rw [wp_op_bind, wp_onDatabase, h.slot]
      apply wp_mono (wp_queryRows (C := C.beside (some id)) hg h.holds prepared)
      intro status σ₁ hq
      dsimp only
      rw [wp_op_bind]
      rcases hq.fate with hh | ⟨hgone, hstmt⟩
      · apply wp_forgetEnded_open (σ := σ₁.beside (some id)) ⟨rfl, hh⟩
        refine wp_queryReply fun r _ => ?_
        exact ⟨.inl ⟨rfl, hh⟩, hq.file⟩
      · apply wp_mono (wp_forgetEnded_gone (σ := σ₁.beside (some id)) rfl hgone)
        rintro r σ₂ ⟨rfl, hready, hfile⟩
        refine wp_queryReply fun r hr => ?_
        refine ⟨.inr ⟨hready, fun hs => ?_⟩, fun hs => ?_⟩
        · obtain ⟨⟨e, he⟩, hC⟩ := hstmt hs
          exact ⟨hr e he, hC⟩
        · rw [hfile]
          exact hq.file hs

/-! ## Store operations -/

theorem wp_storeReply {call : StoreCall} {encodes : Bool} {status : Except Failure ObjectStore.Reply}
    {post : Except AdapterError (Option ObjectStore.Reply) → Session D → Prop}
    (h : ∀ r, post r σ) : wp C (call.reply encodes status) post σ := by
  unfold StoreCall.reply
  cases status with
  | error e =>
      dsimp only
      split_ifs
      · exact h _
      · exact h _
  | ok r =>
      dsimp only
      cases call.unencoded with
      | none => exact h _
      | some error =>
          dsimp only
          split_ifs
          · exact h _
          · exact h _

/-- Where no fault rolls back, a store operation leaves the transaction open. -/
theorem wp_objectStore (host : Host D) {id n : ℕ} (hC : (C.beside (some id)).Steady)
    (refused : Option AdapterError) (call : StoreCall) (encodes : Bool) (h : Open id n σ) :
    wp C (objectStore host refused call encodes)
      (fun _ σ' => Open id n σ' ∧ C.rely σ.file σ'.file) σ := by
  cases refused with
  | some e => exact ⟨h, C.rely_refl _⟩
  | none =>
      unfold objectStore
      dsimp only
      rw [wp_op_bind, wp_onDatabase, h.slot]
      have hin := (call.staysInside σ.wrapper.1).embed host
      apply wp_mono (wp_inside Leaves.refl Leaves.trans hC hin h.holds.begun)
      rintro status σ₁ ⟨hb, hrely, hleaves⟩
      refine wp_storeReply fun r => ⟨⟨rfl, hleaves.handles h.holds.handle, hb⟩, hrely⟩

/-- A store operation never fills the slot. -/
theorem wp_objectStore_empty (host : Host D) (hg : ∀ d d', C.guar d d')
    (refused : Option AdapterError) (call : StoreCall) (encodes : Bool) (h : σ.wrapper.2 = none) :
    wp C (objectStore host refused call encodes) (fun _ σ' => σ'.wrapper.2 = none) σ := by
  cases refused with
  | some e => exact h
  | none =>
      unfold objectStore
      dsimp only
      rw [wp_op_bind, wp_onDatabase, h]
      apply wp_mono (wp_true (C := C.beside none) hg (call.program host) σ.runtime)
      intro status σ₁ _
      exact wp_storeReply fun r => rfl

theorem wp_querySql_empty (hg : ∀ d d', C.guar d d') (refused : Option AdapterError)
    (prepared : Prepared D) (encodes : Bool) (h : σ.wrapper.2 = none) :
    wp C (querySql refused prepared encodes) (fun _ σ' => σ'.wrapper.2 = none) σ := by
  cases refused with
  | some e => exact h
  | none =>
      unfold querySql
      dsimp only
      rw [wp_op_bind, wp_onDatabase, h]
      apply wp_mono (wp_true (C := C.beside none) hg (queryRows prepared) σ.runtime)
      intro status σ₁ _
      exact wp_queryReply fun r _ => rfl

/-! ## Runs on one handle -/

inductive Call (D : Dialect) where
  | transactionBegin (mode : ℤ) (allocates : Bool)
  | transactionCommit
  | transactionRollback
  | transactionActive
  | querySql (refused : Option AdapterError) (prepared : Prepared D) (encodes : Bool)
  | objectStore (refused : Option AdapterError) (call : StoreCall) (encodes : Bool)

namespace Call

def program (host : Host D) : Call D → Operation D Unit
  | .transactionBegin mode allocates => AdapterTransaction.transactionBegin mode allocates
  | .transactionCommit => AdapterTransaction.transactionCommit
  | .transactionRollback => AdapterTransaction.transactionRollback
  | .transactionActive => do
      let _ ← AdapterTransaction.transactionActive (D := D)
      pure ()
  | .querySql refused prepared encodes => do
      let _ ← AdapterTransaction.querySql refused prepared encodes
      pure ()
  | .objectStore refused call encodes => do
      let _ ← AdapterTransaction.objectStore host refused call encodes
      pure ()

/-- The condition: while the slot holds a transaction, SQLite does not answer a
commit, a rollback or a store operation by rolling the transaction back. -/
def allows (call : Call D) (σ : Session D) (_ : Cmd D.language) (fault : Fault ℤ) : Prop :=
  match call with
  | .transactionCommit | .transactionRollback | .objectStore _ _ _ =>
      σ.wrapper.2.isSome → Plain fault
  | _ => True

end Call

/-- A call among other connections that do as they like. -/
def amidst (allows : Session D → Cmd D.language → Fault ℤ → Prop) :
    Contract D.language Slotted where
  rely := fun _ _ => True
  guar := fun _ _ => True
  allows := allows
  rely_refl := fun _ => trivial
  rely_trans := fun _ _ => trivial
  guar_refl := fun _ => trivial

def anyFault : Session D → Cmd D.language → Fault ℤ → Prop := fun _ _ _ => True

/-- The sessions between the calls on the handle of a database, of which each was
made under the faults of `allows`. -/
inductive Reaches (host : Host D) (allows : Call D → Session D → Cmd D.language → Fault ℤ → Prop) :
    Session D → Prop
  | openStaged (file : D.Content) (readOnly : ℤ) :
      Reaches host allows ⟨file, Conn.closed, Database.opened readOnly, none⟩
  | call {σ σ' : Session D} {r : Except AdapterError Unit} (call : Call D)
      (h : Reaches host allows σ) (hr : Runs (amidst (allows call)) (call.program host) σ r σ') :
      Reaches host allows σ'
  | others {σ : Session D} (file : D.Content) (h : Reaches host allows σ) :
      Reaches host allows { σ with file := file }

/-- A slot that holds a transaction holds the one that is open. -/
def SlotSound (σ : Session D) : Prop := ∀ id, σ.wrapper.2 = some id → ∃ n, Open id n σ

theorem sound_of_empty (h : σ.wrapper.2 = none) : SlotSound σ := by
  intro id hid
  rw [h] at hid
  cases hid

theorem Open.sound {id n : ℕ} (h : Open id n σ) : SlotSound σ := by
  intro id' hid
  obtain rfl := Option.some.inj (h.slot.symm.trans hid)
  exact ⟨n, h⟩

/-- The slot is empty, or it holds the open transaction. -/
theorem SlotSound.cases (h : SlotSound σ) : σ.wrapper.2 = none ∨ ∃ id n, Open id n σ := by
  cases hslot : σ.wrapper.2 with
  | none => exact .inl rfl
  | some id =>
      obtain ⟨n, ho⟩ := h id hslot
      exact .inr ⟨id, n, ho⟩

theorem steady_beside {allows : Session D → Cmd D.language → Fault ℤ → Prop}
    (h : ∀ σ c f, allows σ c f → σ.wrapper.2.isSome → Plain f) (id : ℕ) :
    ((amidst allows).beside (some id)).Steady := by
  intro σ c e ha
  exact h (σ.beside (some id)) c (.rollback e) ha rfl

theorem wp_transactionFinish_sound {allows : Session D → Cmd D.language → Fault ℤ → Prop}
    (hallows : ∀ σ c f, allows σ c f → σ.wrapper.2.isSome → Plain f) (commit : Bool)
    (message : String) (h : SlotSound σ) :
    wp (amidst allows) (transactionFinish commit message) (fun _ σ' => SlotSound σ') σ := by
  rcases h.cases with hempty | ⟨id, n, ho⟩
  · apply wp_mono (wp_transactionFinish_empty commit message hempty)
    rintro r σ' ⟨-, rfl⟩
    exact h
  · have hC := steady_beside hallows id
    apply wp_mono (wp_transactionFinish hC (fun _ _ => trivial) commit message ho)
    intro r σ' hr
    cases r with
    | ok x => exact sound_of_empty hr.1.slot
    | error e => exact hr.1.sound

/-- The answer of a call is left out. -/
theorem wp_unit {p : Operation D α} {post : Session D → Prop} (h : wp C p (fun _ σ' => post σ') σ) :
    wp C (do
      let _ ← p
      pure () : Operation D Unit) (fun _ σ' => post σ') σ := by
  rw [wp_op_bind]
  apply wp_mono h
  intro r σ' hpost
  cases r with
  | error e => exact hpost
  | ok a => exact hpost

/-- Every call that meets the condition keeps the slot sound. -/
theorem Call.sound {host : Host D} (call : Call D) {σ σ' : Session D}
    {r : Except AdapterError Unit} (h : SlotSound σ)
    (hr : Runs (amidst call.allows) (call.program host) σ r σ') : SlotSound σ' := by
  suffices hwp : wp (amidst call.allows) (call.program host) (fun _ σ' => SlotSound σ') σ from
    wp_sound hr hwp
  have hg : ∀ d d', (amidst call.allows).guar d d' := fun _ _ => trivial
  have hheld := h.cases
  cases call with
  | transactionBegin mode allocates =>
      unfold program
      rcases hheld with hempty | ⟨id, n, ho⟩
      · apply wp_mono (wp_transactionBegin mode allocates hempty)
        rintro r σ' ⟨-, hr⟩
        cases r with
        | error e => exact sound_of_empty hr.2.1
        | ok x =>
            obtain ⟨id, ho⟩ := hr
            exact ho.sound
      · apply wp_mono (wp_transactionBegin_held mode allocates (by simp [ho.slot]))
        rintro r σ' ⟨-, rfl⟩
        exact h
  | transactionCommit => exact wp_transactionFinish_sound (fun _ _ _ ha => ha) true _ h
  | transactionRollback => exact wp_transactionFinish_sound (fun _ _ _ ha => ha) false _ h
  | transactionActive =>
      apply wp_unit
      exact wp_transactionActive h
  | querySql refused prepared encodes =>
      apply wp_unit
      rcases hheld with hempty | ⟨id, n, ho⟩
      · apply wp_mono (wp_querySql_empty hg refused prepared encodes hempty)
        exact fun r σ' hslot => sound_of_empty hslot
      · apply wp_mono (wp_querySql hg refused prepared encodes ho)
        intro r σ' hq
        rcases hq.fate with ho' | ⟨hready, -⟩
        · exact ho'.sound
        · exact sound_of_empty hready.slot
  | objectStore refused call encodes =>
      apply wp_unit
      rcases hheld with hempty | ⟨id, n, ho⟩
      · apply wp_mono (wp_objectStore_empty host hg refused call encodes hempty)
        exact fun r σ' hslot => sound_of_empty hslot
      · have hC : ((amidst (objectStore refused call encodes : Call D).allows).beside
            (some id)).Steady := steady_beside (fun _ _ _ ha => ha) id
        apply wp_mono (wp_objectStore host hC refused call encodes ho)
        exact fun r σ' ho' => ho'.1.sound

theorem Reaches.sound {host : Host D} {σ : Session D} (h : Reaches host Call.allows σ) :
    SlotSound σ := by
  induction h with
  | openStaged file readOnly => exact sound_of_empty rfl
  | call call _ hr ih => exact call.sound ih hr
  | others file _ ih =>
      intro id hid
      obtain ⟨n, ho⟩ := ih id hid
      exact ⟨n, ho.slot, ho.holds.handle, ho.holds.begun⟩

/-- In every run whose calls meet the condition, a transaction can begin whenever none
is open. -/
theorem slot_never_wedged (host : Host D) {σ : Session D} (h : Reaches host Call.allows σ)
    (hc : σ.conn.txn = none) (mode : ℤ) (allocates : Bool) {r : Except AdapterError Unit}
    {σ' : Session D} (hr : Runs (amidst anyFault) (transactionBegin mode allocates) σ r σ') :
    r ≠ .error alreadyActive := by
  have hempty : σ.wrapper.2 = none := by
    cases hslot : σ.wrapper.2 with
    | none => rfl
    | some id =>
        obtain ⟨n, ho⟩ := h.sound id hslot
        obtain ⟨t, ht, -, -⟩ := ho.holds.begun
        exact absurd (hc.symm.trans ht) (by simp)
  obtain ⟨-, hbegun⟩ := wp_sound hr (wp_transactionBegin mode allocates hempty)
  cases r with
  | error e => exact fun he => hbegun.1 (Except.error.inj he)
  | ok x => exact fun he => nomatch he

/-! ## Runs without interference -/

/-- The store's dialect by itself. -/
def storeOnly : Host ObjectStore.dialect := ⟨id, fun _ r => r, id, id⟩

def freshHandle : Session ObjectStore.dialect :=
  ⟨ObjectStore.Tables.empty, Conn.closed, Database.opened 0, none⟩

/-- The session after a call whose commands meet these faults. -/
def Call.after (call : Call ObjectStore.dialect) (faults : List (Fault ℤ))
    (σ : Session ObjectStore.dialect) : Session ObjectStore.dialect :=
  ((call.program storeOnly).run faults σ).2

theorem Reaches.after {allows : Call ObjectStore.dialect → Session ObjectStore.dialect →
      Cmd ObjectStore.dialect.language → Fault ℤ → Prop} {σ : Session ObjectStore.dialect}
    (h : Reaches storeOnly allows σ) (call : Call ObjectStore.dialect) (faults : List (Fault ℤ))
    (ha : (call.program storeOnly).Admits (amidst (allows call)) faults σ) :
    Reaches storeOnly allows (call.after faults σ) := h.call call (runs_run ha)

/-- `transactionBegin` by itself. -/
theorem runs_transactionBegin (σ : Session ObjectStore.dialect) :
    Runs (amidst anyFault) (transactionBegin 1 true) σ ((transactionBegin 1 true).run [] σ).1
      ((transactionBegin 1 true).run [] σ).2 :=
  runs_run (Prog.admits_nil _ (fun _ _ => trivial) σ)

/-- A `transactionCommit` that finds the database busy leaves its transaction, and a
`transactionRollback` ends it: the next `transactionBegin` is not refused. -/
theorem slot_never_wedged_busy : ∃ σ : Session ObjectStore.dialect, σ.conn.txn = none ∧
    ((transactionBegin 1 true).run [] σ).1 ≠ .error alreadyActive := by
  have h₀ : Reaches storeOnly Call.allows freshHandle := .openStaged _ 0
  have h₁ := h₀.after (.transactionBegin 1 true) [] ⟨trivial, trivial⟩
  have h₂ := h₁.after .transactionCommit [.fail Sqlite.busy] ⟨fun _ => trivial, trivial⟩
  have h₃ := h₂.after .transactionRollback [] ⟨fun _ => trivial, trivial⟩
  have hbegin := slot_never_wedged storeOnly h₃ rfl 1 true (runs_transactionBegin _)
  exact ⟨_, rfl, hbegin⟩

/-- `transactionBegin`, and a `transactionCommit` for which the disk is full, so SQLite
rolls the transaction back: no transaction is open and none can begin. -/
theorem slot_wedged_by_commit : ∃ σ : Session ObjectStore.dialect,
    Reaches storeOnly (fun _ => anyFault) σ ∧ σ.conn.txn = none ∧
      ∃ σ', Runs (amidst anyFault) (transactionBegin 1 true) σ (.error alreadyActive) σ' := by
  have h₀ : Reaches storeOnly (fun _ => anyFault) freshHandle := .openStaged _ 0
  have h₁ := h₀.after (.transactionBegin 1 true) [] ⟨trivial, trivial⟩
  have h₂ := h₁.after .transactionCommit [.rollback Sqlite.full] ⟨trivial, trivial⟩
  exact ⟨_, h₂, rfl, _, runs_transactionBegin _⟩

end Esdb.AdapterTransaction
