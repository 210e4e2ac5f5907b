import Esdb.ObjectStore
import Esdb.TransactionalAct

/-!
# What a mutation scope leaves behind

A mutation runs its statements in a transaction of its own or in a savepoint of
the caller's. Either way there are few outcomes. When it succeeds, its statements
have acted as one on the content they started from. When it fails, the content is
what it was, unless the transaction as a whole was rolled back or the undo itself
failed; then the transaction stays open over an unfinished mutation.
-/
namespace Esdb.ObjectStore

open Transactional Esdb.Runtime

abbrev Session : Type := State dialect.language Database

abbrev StoreContract : Type := Contract dialect.language Database

abbrev StoreSavepoint : Type := Savepoint dialect.language

abbrev StoreTxn : Type := Txn dialect.language

/-- Some statements on the tables. -/
abbrev Unfinished : Tables → Tables → Prop := Language.Unfinished dialect.language

/-- The mirror may have been resynchronized; handles, subscriptions and the
schema flag are untouched. -/
def SameHandles (db db' : Database) : Prop :=
  db' = { db with transactionActive := db'.transactionActive, savepoints := db'.savepoints }

theorem SameHandles.refl (db : Database) : SameHandles db db := rfl

theorem SameHandles.of_eq {a b : Database} (h : b = a) : SameHandles a b := h ▸ .refl a

theorem SameHandles.trans {a b c : Database} (h₁ : SameHandles a b) (h₂ : SameHandles b c) :
    SameHandles a c := by
  unfold SameHandles at *
  rw [h₂, h₁]

/-- The contract lets this command fail somewhere and leave the transaction open. -/
def MayFail (C : StoreContract) (c : Cmd dialect.language) : Prop :=
  ∃ σ e, C.allows σ c (.fail e)

/-- How a mutation that reports a failure may have left the session. -/
inductive Failed (C : StoreContract) (σ σ' : Session) : Prop
  | quiet (h : Acts C Eq [] σ σ')
  | aborted (h : Aborts C σ σ')
  | zombie (ht : σ.conn.txn = none) (t : StoreTxn) (d : Tables) (hc : σ'.conn.txn = some t)
      (ha : t.access = .writing d) (hs : t.savepoints = []) (hi : t.implicit = false)
      (hf : C.rely σ.file σ'.file) (hd : Unfinished σ'.file d) (hm : MayFail C .rollback)
  | stuck (t : StoreTxn) (sp : StoreSavepoint) (ht : σ.conn.txn = some t)
      (hs : sp.saved = t.access.written) (h : Acts C Unfinished [sp] σ σ')
      (hm : MayFail C (.rollbackTo mutationName))
  | leftover (t : StoreTxn) (sp : StoreSavepoint) (ht : σ.conn.txn = some t)
      (hs : sp.saved = t.access.written) (h : Acts C Eq [sp] σ σ')
      (hm : MayFail C (.release mutationName))

variable {C : StoreContract} {α : Type}

/-- The failure of an operation that has left the session so. -/
def FailedWith (C : StoreContract) (σ : Session) (e : Failure) : Except Failure α → Session → Prop :=
  fun r σ' => r = .error e ∧ SameHandles σ.wrapper σ'.wrapper ∧ Failed C σ σ'

theorem wp_sync {σ : Session} {post : Except Failure Unit → Session → Prop}
    (h : ∀ db, SameHandles σ.wrapper db → post (.ok ()) { σ with wrapper := db }) :
    wp C syncInternalTransactionState post σ := by
  unfold syncInternalTransactionState
  simp only [wp_op_bind, wp_autocommit, wp_modify]
  exact h _ rfl

/-! ## The transaction of the mutation's own -/

theorem wp_rollback_owned (σ : Session) :
    wp C (rollbackStoreMutation true) (fun r σ' => r = .ok () ∧
      SameHandles σ.wrapper σ'.wrapper ∧ C.Moves σ.conn σ.file σ'.file ∧
      (σ'.conn.txn = none ∨ σ'.conn = σ.conn ∧ MayFail C .rollback)) σ := by
  unfold rollbackStoreMutation
  rw [if_pos rfl, wp_op_bind, wp_attempt]
  apply wp_call
  · intro file e hm ha
    exact wp_sync fun db hdb => ⟨rfl, hdb, hm, .inr ⟨rfl, _, _, ha⟩⟩
  · intro file e hm _
    exact wp_sync fun db hdb => ⟨rfl, hdb, hm, .inl rfl⟩
  · intro file free hm _
    simp only [perform, performRollback]
    cases ht : σ.conn.txn with
    | none => exact ⟨C.guar_refl _, wp_sync fun db hdb => ⟨rfl, hdb, hm, .inl ht⟩⟩
    | some t => exact ⟨C.guar_refl _, wp_sync fun db hdb => ⟨rfl, hdb, hm, .inl rfl⟩⟩

/-- The session inside a mutation that began its own transaction at `σ₀`: the
transaction is gone, or it is writing over the file as it stands. -/
structure Owned (C : StoreContract) (P : Tables → Tables → Prop) (σ₀ σ : Session) : Prop where
  outer : σ₀.conn.txn = none
  wrapper : SameHandles σ₀.wrapper σ.wrapper
  file : C.rely σ₀.file σ.file
  txn : σ.conn.txn = none ∨ ∃ (t : StoreTxn) (d : Tables), σ.conn.txn = some t ∧
    t.access = .writing d ∧ t.savepoints = [] ∧ t.implicit = false ∧ P σ.file d

theorem wp_undo_owned {σ₀ σ : Session} {e : Failure} (h : Owned C Unfinished σ₀ σ) :
    wp C (do
      rollbackStoreMutation true
      Op.fail e : Operation α) (FailedWith C σ₀ e) σ := by
  rw [wp_op_bind]
  apply wp_mono (wp_rollback_owned σ)
  rintro r σ' ⟨rfl, hw', hm, hc'⟩
  refine ⟨rfl, h.wrapper.trans hw', ?_⟩
  have hrely := C.rely_trans h.file hm.rely
  have hquiet : σ'.conn.txn = none → Failed C σ₀ σ' := by
    intro hn
    apply Failed.quiet
    simp only [Acts, h.outer]
    exact ⟨trivial, hn, σ'.file, σ'.file, hrely, rfl, C.rely_refl _⟩
  rcases hc' with hn | ⟨he, hmay⟩
  · exact hquiet hn
  · rcases h.txn with hn | ⟨t, d, ht, ha, hs, hi, hd⟩
    · exact hquiet (he ▸ hn)
    · have hstill : σ'.file = σ.file := hm.eq (by simp [Conn.isWriting, ht, ha, Access.isWriting])
      exact .zombie h.outer t d (he ▸ ht) ha hs hi hrely (hstill ▸ hd) hmay

/-! ## The savepoint in a caller's transaction -/

/-- The mutation's savepoint is on top of transaction `t`, which has gone from
`t.access` to `a`. -/
structure InScope (C : StoreContract) (P : Tables → Tables → Prop) (σ₀ σ : Session) (t : StoreTxn)
    (a : Access dialect.language) (sp : StoreSavepoint) : Prop where
  outer : σ₀.conn.txn = some t
  txn : σ.conn.txn = some { t with access := a, savepoints := sp :: t.savepoints }
  name : sp.name = mutationName
  saved : sp.saved = t.access.written
  wrapper : σ.wrapper = σ₀.wrapper
  touched : Touched C t.access σ₀.file a σ.file
  acted : P (origin t.access a σ.file) (a.view σ.file)
  idle : a = .idle → ∀ d, P d d

variable {P Q : Tables → Tables → Prop} {σ₀ σ : Session} {t : StoreTxn}
  {a : Access dialect.language} {sp : StoreSavepoint}

theorem InScope.find (h : InScope C P σ₀ σ t a sp) :
    findSavepoint mutationName (sp :: t.savepoints) = some (sp, t.savepoints) := by
  simp [findSavepoint, h.name]

theorem InScope.mono (h : InScope C P σ₀ σ t a sp) (hpq : ∀ d d', P d d' → Q d d') :
    InScope C Q σ₀ σ t a sp :=
  ⟨h.outer, h.txn, h.name, h.saved, h.wrapper, h.touched, hpq _ _ h.acted,
    fun hi d => hpq _ _ (h.idle hi d)⟩

theorem InScope.settled (h : InScope C P σ₀ σ t a sp) {file : Tables}
    (hm : C.Moves σ.conn σ.file file) : InScope C P σ₀ { σ with file := file } t a sp := by
  obtain ⟨htt, hp⟩ := h.touched.carry h.txn rfl hm h.acted h.idle
  exact ⟨h.outer, h.txn, h.name, h.saved, h.wrapper, htt, hp, h.idle⟩

theorem InScope.isSome (h : InScope C P σ₀ σ t a sp) : σ₀.conn.txn.isSome := by
  simp [h.outer]

/-- The savepoint stays where it is. -/
theorem InScope.acts (h : InScope C P σ₀ σ t a sp) : Acts C P [sp] σ₀ σ := by
  simp only [Acts, h.outer]
  exact ⟨a, h.txn, h.touched, h.acted, h.idle⟩

/-- The savepoint is released. -/
theorem InScope.released (h : InScope C P σ₀ σ t a sp) :
    Acts C P [] σ₀ { σ with conn := { σ.conn with
      txn := some { t with access := a, savepoints := t.savepoints } } } := by
  simp only [Acts, h.outer]
  exact ⟨a, rfl, h.touched, h.acted, h.idle⟩

theorem InScope.aborts (h : InScope C P σ₀ σ t a sp) {c : Cmd dialect.language} {e : ℤ}
    (ha : C.allows σ c (.rollback e)) : Aborts C σ₀ { σ with conn := σ.conn.abort } := by
  refine ⟨h.isSome, rfl, { σ with conn := σ.conn.abort }, ⟨σ.conn, c, e, ?_, rfl, ha⟩, h.wrapper,
    h.touched.rely, C.rely_refl _⟩
  simp [h.txn]

/-- `ROLLBACK TO` the savepoint gives back what the transaction had. -/
theorem InScope.restored (h : InScope C P σ₀ σ t a sp) :
    InScope C Eq σ₀ { σ with conn := { σ.conn with txn := some { t with
      access := a.restore σ.file sp.saved, savepoints := sp :: t.savepoints } } } t
      (a.restore σ.file sp.saved) sp := by
  rw [h.saved]
  obtain ⟨htt, hv⟩ := h.touched.restore
  exact ⟨h.outer, rfl, h.name, h.saved, h.wrapper, htt, hv.symm, fun _ _ => rfl⟩

/-- A savepoint on top of one that opened the transaction never ends it. -/
theorem InScope.inner (h : InScope C P σ₀ σ t a sp) (hroot : σ₀.conn.Rooted) :
    (t.implicit && t.savepoints.isEmpty) = false := by
  cases hi : t.implicit with
  | false => rfl
  | true => simpa using hroot t h.outer hi

theorem InScope.performRelease (h : InScope C P σ₀ σ t a sp) (hroot : σ₀.conn.Rooted) :
    Transactional.performRelease mutationName σ.file σ.conn = ⟨σ.file, { σ.conn with
      txn := some { t with access := a, savepoints := t.savepoints } }, .ok ()⟩ := by
  simp [Transactional.performRelease, h.txn, h.find, h.inner hroot]

theorem InScope.performRollbackTo (h : InScope C P σ₀ σ t a sp) :
    Transactional.performRollbackTo mutationName σ.file σ.conn = ⟨σ.file, { σ.conn with
      txn := some { t with access := a.restore σ.file sp.saved, savepoints := sp :: t.savepoints } },
      .ok ()⟩ := by
  simp [Transactional.performRollbackTo, h.txn, h.find]

theorem wp_undo_savepoint {e : Failure} (h : InScope C Unfinished σ₀ σ t a sp)
    (hroot : σ₀.conn.Rooted) :
    wp C (do
      rollbackStoreMutation false
      Op.fail e : Operation α) (FailedWith C σ₀ e) σ := by
  unfold rollbackStoreMutation
  simp only [Bool.false_eq_true, if_false, wp_op_bind, wp_attempt]
  apply wp_call
  · intro file e hm ha
    have h := h.settled hm
    exact ⟨rfl, .of_eq h.wrapper, .stuck t sp h.outer h.saved h.acts ⟨_, _, ha⟩⟩
  · intro file e hm ha
    have h := h.settled hm
    exact ⟨rfl, .of_eq h.wrapper, .aborted (h.aborts ha)⟩
  · intro file free hm _
    have h := h.settled hm
    simp only [perform, h.performRollbackTo]
    refine ⟨C.guar_refl _, ?_⟩
    have h := h.restored
    apply wp_call
    · intro file e hm ha
      have h := h.settled hm
      exact ⟨rfl, .of_eq h.wrapper, .leftover t sp h.outer h.saved h.acts ⟨_, _, ha⟩⟩
    · intro file e hm ha
      have h := h.settled hm
      exact ⟨rfl, .of_eq h.wrapper, .aborted (h.aborts ha)⟩
    · intro file free hm _
      have h := h.settled hm
      simp only [perform, h.performRelease hroot]
      exact ⟨C.guar_refl _, rfl, .of_eq h.wrapper, .quiet h.released⟩

theorem Conn.struck_closed {conn : Conn dialect.language} (h : conn.txn = none)
    (c : Cmd dialect.language) : (conn.struck c).txn = none := by
  cases c <;> simp [Conn.struck, Conn.abort, h]

/-- The transaction is gone already; there is nothing left to undo. -/
theorem wp_undo_aborted {e : Failure} (h : Aborts C σ₀ σ) (hw : σ.wrapper = σ₀.wrapper) :
    wp C (do
      rollbackStoreMutation false
      Op.fail e : Operation α) (FailedWith C σ₀ e) σ := by
  unfold rollbackStoreMutation
  simp only [Bool.false_eq_true, if_false, wp_op_bind, wp_attempt]
  obtain ⟨ht, hn, σ₁, ha, hw₁, hr, hr'⟩ := h
  have hmoved : ∀ (file : Tables) (conn : Conn dialect.language), C.Moves σ.conn σ.file file →
      conn.txn = none → Failed C σ₀ { σ with file := file, conn := conn } := fun file conn hm hc =>
    .aborted ⟨ht, hc, σ₁, ha, hw₁, hr, C.rely_trans hr' hm.rely⟩
  apply wp_call
  · intro file e hm _
    exact ⟨rfl, .of_eq hw, hmoved _ _ hm hn⟩
  · intro file e hm _
    exact ⟨rfl, .of_eq hw, hmoved _ _ hm (Conn.struck_closed hn _)⟩
  · intro file free hm _
    simp only [perform, Transactional.performRollbackTo, hn]
    exact ⟨C.guar_refl _, rfl, .of_eq hw, hmoved _ _ hm hn⟩

/-! ## The whole scope -/

/-- How a mutation may end. -/
def Scoped (C : StoreContract) (body : Query α) (σ : Session) : Except Failure α → Session → Prop :=
  fun r σ' => SameHandles σ.wrapper σ'.wrapper ∧ match r with
    | .ok x => Acts C (fun d d' => body.denote d = .ok (x, d')) [] σ σ'
    | .error _ => Failed C σ σ'

theorem FailedWith.scoped {body : Query α} {e : Failure} {r : Except Failure α} {σ' : Session}
    (h : FailedWith C σ e r σ') : Scoped C body σ r σ' := by
  obtain ⟨rfl, hw, hf⟩ := h
  exact ⟨hw, hf⟩

theorem wp_owned_mutation {body : Query α}
    (hg : ∀ d x d', body.denote d = .ok (x, d') → C.guar d d') (ht : σ.conn.txn = none) :
    wp C (withStoreMutation body) (Scoped C body σ) σ := by
  have hquiet : ∀ (file : Tables) (db : Database), C.Moves σ.conn σ.file file →
      Acts C Eq [] σ { σ with file := file, wrapper := db } := fun file db hm => .moved hm
  unfold withStoreMutation beginStoreMutation
  simp only [wp_op_bind, wp_autocommit, Conn.autocommit, ht, Option.isNone_none, if_true]
  apply wp_call
  · intro file e hm _
    exact ⟨.refl _, .quiet (hquiet file _ hm)⟩
  · intro file e hm _
    exact ⟨.refl _, .quiet (hquiet file _ hm)⟩
  intro file free hm _
  simp only [perform, performBegin, ht, Bool.not_true, Bool.false_eq_true, if_false]
  cases free with
  | false => exact ⟨C.guar_refl _, .refl _, .quiet (hquiet file _ hm)⟩
  | true =>
      refine ⟨C.guar_refl _, wp_sync fun db hdb => ?_⟩
      simp only [wp_pure, wp_attempt, ask]
      apply wp_mono (wp_query (t := ⟨σ.conn.opened, .writing file, [], false⟩) rfl)
      intro r σ₁ hr
      cases hr with
      | aborted hw hc hf hab =>
          apply wp_mono (wp_undo_owned ⟨ht, hdb.trans (.of_eq hw), C.rely_trans hm.rely hf.rely,
            .inl (by rw [hc]; rfl)⟩)
          exact fun _ _ h => h.scoped
      | failed a hw hc htt hrr =>
          cases a with
          | idle => simp [Touched] at htt
          | reading s => simp [Touched] at htt
          | writing d =>
              obtain rfl : σ₁.file = file := htt
              apply wp_mono (wp_undo_owned ⟨ht, hdb.trans (.of_eq hw), hm.rely,
                .inr ⟨_, d, by rw [hc]; rfl, rfl, rfl, rfl, unfinished_of_reaches hrr⟩⟩)
              exact fun _ _ h => h.scoped
      | done a hw hc htt hrr hi =>
          cases a with
          | idle => simp [Touched] at htt
          | reading s => simp [Touched] at htt
          | writing d =>
              obtain rfl : σ₁.file = file := htt
              have hwriting : σ₁.conn.isWriting = true := by rw [hc]; rfl
              simp only [commitStoreMutation, if_true, wp_op_bind, wp_attempt]
              apply wp_call
              · intro file e hm₁ _
                obtain rfl := hm₁.eq hwriting
                have hown : Owned C Unfinished σ σ₁ := ⟨ht, hdb.trans (.of_eq hw), hm.rely,
                  .inr ⟨_, d, by rw [hc]; rfl, rfl, rfl, rfl,
                    unfinished_of_reaches (Query.Reaches.of_denote hrr)⟩⟩
                apply wp_mono (wp_undo_owned hown)
                rintro r σ' ⟨rfl, h⟩
                exact h
              · intro file e hm₁ _
                obtain rfl := hm₁.eq hwriting
                have hown : Owned C Unfinished σ { σ₁ with conn := σ₁.conn.abort } :=
                  ⟨ht, hdb.trans (.of_eq hw), hm.rely, .inl rfl⟩
                apply wp_mono (wp_undo_owned hown)
                rintro r σ' ⟨rfl, h⟩
                exact h
              · intro file free hm₁ _
                obtain rfl := hm₁.eq hwriting
                simp only [perform, performCommit, hc, Conn.withAccess, Access.written,
                  Option.getD_some]
                refine ⟨hg _ _ _ hrr, wp_sync fun db' hdb' => ?_⟩
                refine ⟨(hdb.trans (.of_eq hw)).trans hdb', ?_⟩
                simp only [Acts, ht]
                exact ⟨trivial, rfl, _, d, hm.rely, hrr, C.rely_refl _⟩

theorem performSavepoint_txn {conn : Conn dialect.language} (ht : conn.txn = some t)
    (file : dialect.language.Content) : performSavepoint mutationName file conn =
      ⟨file, ⟨some { t with
        savepoints := ⟨conn.opened, mutationName, t.access.written⟩ :: t.savepoints },
        conn.opened + 1⟩, .ok conn.opened⟩ := by
  simp [performSavepoint, Conn.push, ht]

theorem wp_nested_mutation {body : Query α} (hb : ∀ x, body ≠ .ret x) (ht : σ.conn.txn = some t)
    (hroot : σ.conn.Rooted) : wp C (withStoreMutation body) (Scoped C body σ) σ := by
  unfold withStoreMutation beginStoreMutation
  simp only [wp_op_bind, wp_autocommit, Conn.autocommit, ht, Option.isNone_some, Bool.false_eq_true,
    if_false]
  apply wp_call
  · intro file e hm _
    exact ⟨.refl _, .quiet (.moved hm)⟩
  · intro file e hm ha
    refine ⟨.refl _, .aborted ⟨by simp [ht], rfl, { σ with file := file, conn := σ.conn.abort },
      ⟨σ.conn, _, e, by simp [ht], rfl, ha⟩, rfl, hm.rely, C.rely_refl _⟩⟩
  intro file free hm _
  simp only [perform, performSavepoint_txn ht]
  refine ⟨C.guar_refl _, ?_⟩
  simp only [Except.mapError, wp_pure, wp_attempt, ask]
  apply wp_mono (wp_query rfl)
  intro r σ₁ hr
  have hpast : ∀ {a : Access dialect.language}, Touched C t.access file a σ₁.file →
      Touched C t.access σ.file a σ₁.file := fun h => touched_trans (touched_moves ht hm) h
  cases hr with
  | aborted hw hc hf hab =>
      have hgone : Aborts C σ σ₁ := ⟨by simp [ht], by rw [hc]; rfl, σ₁, hab, hw,
        C.rely_trans hm.rely hf.rely, C.rely_refl _⟩
      apply wp_mono (wp_undo_aborted hgone hw)
      exact fun _ _ h => h.scoped
  | failed a hw hc htt hrr =>
      have h : InScope C Unfinished σ σ₁ t a ⟨σ.conn.opened, mutationName, t.access.written⟩ :=
        ⟨ht, by rw [hc]; rfl, rfl, rfl, hw, hpast htt, unfinished_of_reaches hrr, fun _ _ => .refl⟩
      apply wp_mono (wp_undo_savepoint h hroot)
      exact fun _ _ h => h.scoped
  | @done x _ a hw hc htt hrr hi =>
      have h : InScope C (fun d d' => body.denote d = .ok (x, d')) σ σ₁ t a
          ⟨σ.conn.opened, mutationName, t.access.written⟩ :=
        ⟨ht, by rw [hc]; rfl, rfl, rfl, hw, hpast htt, hrr, fun hidle => (hb x (hi hidle)).elim⟩
      simp only [commitStoreMutation, Bool.false_eq_true, if_false, wp_op_bind, wp_attempt]
      apply wp_call
      · intro file e hm₁ _
        apply wp_mono (wp_undo_savepoint ((h.settled hm₁).mono fun _ _ hd =>
          unfinished_of_reaches (Query.Reaches.of_denote hd)) hroot)
        rintro r σ' ⟨rfl, h⟩
        exact h
      · intro file e hm₁ ha
        apply wp_mono (wp_undo_aborted ((h.settled hm₁).aborts ha) h.wrapper)
        rintro r σ' ⟨rfl, h⟩
        exact h
      · intro file free hm₁ _
        have h := h.settled hm₁
        simp only [perform, h.performRelease hroot]
        exact ⟨C.guar_refl _, .of_eq h.wrapper, h.released⟩

/-- A mutation in either mode. -/
theorem wp_withStoreMutation {body : Query α} (hb : ∀ x, body ≠ .ret x)
    (hg : ∀ d x d', body.denote d = .ok (x, d') → C.guar d d') (hroot : σ.conn.Rooted) :
    wp C (withStoreMutation body) (Scoped C body σ) σ := by
  cases ht : σ.conn.txn with
  | none => exact wp_owned_mutation hg ht
  | some t => exact wp_nested_mutation hb ht hroot

end Esdb.ObjectStore
