import Esdb.Runtime
import Esdb.TransactionalEmbedding

/-!
# What a transaction of the wrapper's does to the connection

One specification for each of begin, commit, rollback and destroy, as a caller that
opens a transaction for itself relies on them: what is left of the connection, of the
file and of the handle, whichever command fails on the way.
-/
namespace Esdb.Runtime

open Transactional

variable {D : Dialect}

/-- The contract lets this command fail somewhere and leave the transaction open. -/
def Refuses (C : Contract D.language Database) (c : Cmd D.language) : Prop :=
  ∃ σ e, C.allows σ c (.fail e)

variable {C : Contract D.language Database} {σ : State D.language Database}

/-! ## Beginning -/

/-- The wrapper when the handle `id` stands for the transaction that was opened last. -/
structure Handles (id : ℕ) (db : Database) : Prop where
  active : db.active id = true
  current : db.activeTransaction = some id
  flag : db.transactionActive = true

/-- After `esdb_begin` in immediate mode. -/
def Begun (C : Contract D.language Database) (allocates : Bool) (σ : State D.language Database)
    (r : Except Failure ℕ) (σ' : State D.language Database) : Prop :=
  match r with
  | .error _ => C.rely σ.file σ'.file ∧ (σ'.conn.txn = none ∨ Refuses C .rollback)
  | .ok id => C.rely σ.file σ'.file ∧ C.allows { σ with file := σ'.file } (.begin true) .none ∧
      σ'.conn = σ.conn.openTxn (.writing σ'.file) ∧ Handles id σ'.wrapper ∧
      σ.wrapper.transactionActive = false ∧ allocates = true

theorem handles_new (db : Database) (serial : ℕ) :
    Handles db.transactions.length { db with
      transactionActive := true
      transactions := db.transactions ++ [⟨true, false, serial⟩]
      activeTransaction := some db.transactions.length } :=
  ⟨by simp [Database.active], rfl, rfl⟩

theorem wp_begin_immediate (hc : σ.conn.txn = none) (allocates : Bool) :
    wp C (begin 1 allocates) (Begun C allocates σ) σ := by
  unfold begin
  rw [wp_op_bind, wp_get]
  dsimp only
  by_cases hact : σ.wrapper.transactionActive = true
  · rw [if_pos hact]
    exact ⟨C.rely_refl _, .inl hc⟩
  rw [if_neg hact]
  simp only [beginSql]
  rw [wp_op_bind]
  apply wp_call
  · intro file e hm _
    exact ⟨hm.rely, .inl hc⟩
  · intro file e hm _
    exact ⟨hm.rely, .inl hc⟩
  · intro file free hm ha
    simp only [perform, performBegin, hc, Bool.not_true, Bool.false_eq_true, if_false]
    cases free with
    | false => exact ⟨C.guar_refl _, hm.rely, .inl hc⟩
    | true =>
        refine ⟨C.guar_refl _, ?_⟩
        simp only [if_true, Except.mapError, wp_op_bind, wp_modify]
        cases allocates with
        | true =>
            exact ⟨hm.rely, ha, rfl, handles_new _ _, by simpa using hact, rfl⟩
        | false =>
            simp only [Bool.not_false, if_true, wp_op_bind, wp_attempt]
            apply wp_call
            · intro file' e hm' ha'
              exact ⟨C.rely_trans hm.rely hm'.rely, .inr ⟨_, _, ha'⟩⟩
            · intro file' e hm' _
              exact ⟨C.rely_trans hm.rely hm'.rely, .inl rfl⟩
            · intro file' free' hm' _
              exact ⟨C.guar_refl _, C.rely_trans hm.rely hm'.rely, .inl rfl⟩

/-! ## Ending -/

/-- After a rollback: no transaction is open, or the rollback did not happen. -/
structure Undone (C : Contract D.language Database) (id : ℕ) (σ σ' : State D.language Database) :
    Prop where
  file : C.rely σ.file σ'.file
  txn : σ'.conn.txn = none ∨
    σ'.conn = σ.conn ∧ (σ.wrapper.active id = false ∨ Refuses C .rollback)

theorem wp_rollback (id : ℕ) :
    wp C (finishTransaction (D := D) id false) (fun _ σ' => Undone C id σ σ') σ := by
  unfold finishTransaction
  rw [wp_op_bind, wp_get]
  dsimp only
  by_cases hact : σ.wrapper.active id = true
  · rw [if_neg (by simp [hact]), wp_op_bind, wp_attempt]
    apply wp_call
    · intro file e hm ha
      exact ⟨hm.rely, .inr ⟨rfl, .inr ⟨_, _, ha⟩⟩⟩
    · intro file e hm _
      exact ⟨hm.rely, .inl rfl⟩
    · intro file free hm _
      simp only [perform, performRollback]
      cases ht : σ.conn.txn with
      | none => exact ⟨C.guar_refl _, hm.rely, .inl ht⟩
      | some t => exact ⟨C.guar_refl _, hm.rely, .inl rfl⟩
  · rw [if_pos (by simpa using hact)]
    exact ⟨C.rely_refl _, .inr ⟨rfl, .inl (by simpa using hact)⟩⟩

/-- After `esdb_transaction_destroy`, which rolls back if the handle is active. -/
theorem wp_destroy (id : ℕ) :
    wp C (destroy (D := D) id) (fun r σ' => r = .ok () ∧ Undone C id σ σ') σ := by
  unfold destroy
  rw [wp_op_bind, wp_get]
  dsimp only
  by_cases hact : σ.wrapper.active id = true
  · rw [if_pos hact, wp_op_bind, wp_attempt]
    apply wp_mono (wp_rollback id)
    intro r σ₁ h
    exact ⟨rfl, h.file, h.txn⟩
  · rw [if_neg hact]
    exact ⟨rfl, C.rely_refl _, .inr ⟨rfl, .inl (by simpa using hact)⟩⟩

/-- After a commit of what was written. A commit that fails may leave the transaction
open, with its handle active. -/
inductive Committed (C : Contract D.language Database) (id : ℕ) (σ : State D.language Database)
    (d : D.Content) : Except Failure Unit → State D.language Database → Prop
  | done {σ' : State D.language Database} (hc : σ'.conn.txn = none) (hf : σ'.file = d)
      (ha : σ'.wrapper.active id = false) : Committed C id σ d (.ok ()) σ'
  | ended {e : Failure} {σ' : State D.language Database} (hc : σ'.conn.txn = none)
      (hf : σ'.file = σ.file) : Committed C id σ d (.error e) σ'
  | stayed {e : Failure} {σ' : State D.language Database} (hc : σ'.conn = σ.conn)
      (hf : σ'.file = σ.file) (ha : σ'.wrapper.active id = true) : Committed C id σ d (.error e) σ'

theorem active_finished (id : ℕ) (db : Database) (b : Bool) :
    Database.active id { db.finished id with transactionActive := b } = false := by
  simp only [Database.active, Database.finished, Database.setActive, List.getElem?_modify_eq]
  cases db.transactions[id]? <;> rfl

theorem wp_commit {id : ℕ} {t : Txn D.language} {d : D.Content} (hc : σ.conn.txn = some t)
    (ha : t.access = .writing d) (hact : σ.wrapper.active id = true) (hg : C.guar σ.file d) :
    wp C (finishTransaction (D := D) id true) (Committed C id σ d) σ := by
  have hw : σ.conn.isWriting = true := by simp [Conn.isWriting, hc, ha, Access.isWriting]
  unfold finishTransaction
  rw [wp_op_bind, wp_get]
  dsimp only
  rw [if_neg (by simp [hact]), wp_op_bind, wp_attempt]
  apply wp_call
  · intro file e hm _
    simp only [wp_op_bind, wp_autocommit, wp_modify, wp_fail, Conn.autocommit, hc,
      Option.isNone_some, Bool.false_eq_true, if_false]
    exact .stayed rfl (hm.eq hw) hact
  · intro file e hm _
    exact .ended rfl (hm.eq hw)
  · intro file free hm _
    obtain rfl := hm.eq hw
    simp only [perform, performCommit, hc, ha, Access.written, Option.getD_some]
    exact ⟨hg, .done rfl rfl (active_finished id σ.wrapper false)⟩

/-! ## Where no fault rolls back -/

/-- The handle `id` stands for the transaction `n`, which is open. -/
structure Holds (id n : ℕ) (σ : State D.language Database) : Prop where
  handle : Handles id σ.wrapper
  begun : σ.conn.Begun n

/-- A `BEGIN` is refused, or it opens a transaction. -/
theorem performBegin_cases (free immediate : Bool) (file : D.Content) {conn : Conn D.language}
    (h : conn.txn = none) : performBegin free immediate file conn = refuse file conn .busy ∨
      ∃ a, performBegin free immediate file conn = ⟨file, conn.openTxn a, .ok conn.opened⟩ := by
  unfold performBegin
  rw [h]
  dsimp only
  split_ifs
  · exact .inr ⟨.idle, rfl⟩
  · exact .inr ⟨.writing file, rfl⟩
  · exact .inl rfl

/-- What `esdb_begin` comes to in any mode. -/
theorem wp_begin (mode : ℕ) (allocates : Bool) :
    wp C (begin mode allocates) (fun r σ' => C.rely σ.file σ'.file ∧ match r with
      | .error _ => σ'.wrapper.transactionActive = σ.wrapper.transactionActive ∧
          (σ'.conn.txn = σ.conn.txn ∨ Refuses C .rollback)
      | .ok id => Holds id σ.conn.opened σ') σ := by
  unfold begin
  rw [wp_op_bind, wp_get]
  dsimp only
  by_cases hact : σ.wrapper.transactionActive = true
  · rw [if_pos hact]
    exact ⟨C.rely_refl _, rfl, .inl rfl⟩
  rw [if_neg hact]
  have hflag : false = σ.wrapper.transactionActive := by simpa using hact
  cases beginSql mode with
  | none => exact ⟨C.rely_refl _, rfl, .inl rfl⟩
  | some immediate =>
      dsimp only
      rw [wp_op_bind]
      apply wp_call
      · intro file e hm _
        exact ⟨hm.rely, rfl, .inl rfl⟩
      · intro file e hm _
        exact ⟨hm.rely, rfl, .inl rfl⟩
      · intro file free hm _
        cases ht : σ.conn.txn with
        | some t =>
            simp only [perform, performBegin, ht]
            exact ⟨C.guar_refl _, hm.rely, trivial, .inl ht⟩
        | none =>
            rcases performBegin_cases free immediate file ht with hp | ⟨a, hp⟩
            · simp only [perform, hp]
              exact ⟨C.guar_refl _, hm.rely, trivial, .inl ht⟩
            · simp only [perform, hp]
              refine ⟨C.guar_refl _, ?_⟩
              simp only [Except.mapError, wp_op_bind, wp_modify]
              cases allocates with
              | true => exact ⟨hm.rely, handles_new _ _, ⟨_, rfl, rfl, rfl⟩⟩
              | false =>
                  simp only [Bool.not_false, if_true, wp_op_bind, wp_attempt]
                  apply wp_call
                  · intro file' e hm' ha'
                    exact ⟨C.rely_trans hm.rely hm'.rely, hflag, .inr ⟨_, _, ha'⟩⟩
                  · intro file' e hm' _
                    exact ⟨C.rely_trans hm.rely hm'.rely, hflag, .inl rfl⟩
                  · intro file' free' hm' _
                    exact ⟨C.guar_refl _, C.rely_trans hm.rely hm'.rely, hflag, .inl rfl⟩

/-- What `finish_transaction` comes to where no fault rolls back: it has ended the
transaction, or refused to and left everything as it was. -/
inductive Ended (C : Contract D.language Database) (id n : ℕ) (commit : Bool)
    (σ : State D.language Database) : Except Failure Unit → State D.language Database → Prop
  | done {σ' : State D.language Database} (file : D.Content) (hm : C.Moves σ.conn σ.file file)
      (hc : σ'.conn.txn = none) (hactive : σ'.wrapper.active id = false)
      (hflag : σ'.wrapper.transactionActive = false)
      (hf : σ'.file = if commit then σ.conn.pending.getD file else file) :
      Ended C id n commit σ (.ok ()) σ'
  | refused {e : Failure} {σ' : State D.language Database} (hh : Holds id n σ')
      (hc : σ'.conn = σ.conn) (hm : C.Moves σ.conn σ.file σ'.file)
      (hr : Refuses C (if commit then .commit else .rollback)) : Ended C id n commit σ (.error e) σ'

theorem wp_finish (hC : C.Steady) (hg : ∀ d d', C.guar d d') {id n : ℕ} (commit : Bool)
    (hh : Holds id n σ) :
    wp C (finishTransaction (D := D) id commit) (Ended C id n commit σ) σ := by
  obtain ⟨t, ht, -, -⟩ := hh.begun
  have hauto : σ.conn.autocommit = false := hh.begun.autocommit
  have hkept : Handles id { σ.wrapper with transactionActive := true } :=
    ⟨hh.handle.active, hh.handle.current, rfl⟩
  unfold finishTransaction
  rw [wp_op_bind, wp_get]
  dsimp only
  rw [if_neg (by simp [hh.handle.active]), wp_op_bind, wp_attempt]
  cases commit with
  | true =>
      simp only [if_true]
      apply wp_call
      · intro file e hm ha
        simp only [wp_op_bind, wp_autocommit, wp_modify, wp_fail, hauto, Bool.false_eq_true,
          if_false]
        exact .refused ⟨hkept, hh.begun⟩ rfl hm ⟨_, _, ha⟩
      · intro file e _ ha
        exact absurd ha (hC _ _ e)
      · intro file free hm _
        simp only [perform, performCommit, ht, Except.mapError, wp_modify]
        refine ⟨hg _ _, .done file hm rfl (active_finished id σ.wrapper false) rfl ?_⟩
        simp [Conn.pending, ht]
  | false =>
      simp only [Bool.false_eq_true, if_false]
      apply wp_call
      · intro file e hm ha
        simp only [wp_op_bind, wp_autocommit, wp_modify, wp_fail, hauto, Bool.false_eq_true,
          if_false]
        exact .refused ⟨hkept, hh.begun⟩ rfl hm ⟨_, _, ha⟩
      · intro file e _ ha
        exact absurd ha (hC _ _ e)
      · intro file free hm _
        simp only [perform, performRollback, ht, Except.mapError, wp_modify]
        exact ⟨hg _ _, .done file hm rfl (active_finished id σ.wrapper false) rfl rfl⟩


end Esdb.Runtime
