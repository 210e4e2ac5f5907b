import Esdb.Runtime

/-!
# Transaction handles and the savepoint shadow

A handle is truthful when it reports active exactly while the SQLite transaction
its `esdb_begin` opened is open, and the depth is truthful when it counts the
savepoints that `esdb_savepoint_begin` opened in that transaction and that are
still open. Both hold throughout as long as caller SQL that leaves a transaction
open leaves the one it found, with the wrapper's savepoints in it, no savepoint
of the caller's hides the wrapper's newest under the same name, and SQLite does
not answer a savepoint call by rolling the transaction back.

Resynchronization looks at the autocommit flag alone, so a string that ends a
transaction and opens another goes unnoticed.
-/
namespace Esdb.Runtime

open Transactional

variable {D : Dialect}

abbrev Session (D : Dialect) : Type := State D.language Database

/-! ## Calls -/

inductive Call (D : Dialect) where
  | begin (mode : ℕ) (allocates : Bool)
  | commit (id : ℕ)
  | rollback (id : ℕ)
  | destroy (id : ℕ)
  | savepointBegin (name : Bytes)
  | savepointRelease (name : Bytes)
  | savepointRollback (name : Bytes)
  | exec (sql : List (Cmd D.language))
  | query (rejected : Option Failure) (sql : List (Cmd D.language))

namespace Call

def program : Call D → Operation D Unit
  | .begin mode allocates => do
      let _ ← Runtime.begin (D := D) mode allocates
      pure ()
  | .commit id => finishTransaction id true
  | .rollback id => finishTransaction id false
  | .destroy id => Runtime.destroy id
  | .savepointBegin name => Runtime.savepointBegin name
  | .savepointRelease name => Runtime.savepointRelease name
  | .savepointRollback name => Runtime.savepointRollback name
  | .exec sql => Runtime.exec sql
  | .query rejected sql => Runtime.query rejected sql

def handle : Call D → Option ℕ
  | .commit id | .rollback id | .destroy id => some id
  | _ => none

/-- A handle passed to a call has not been destroyed. -/
def Legal (db : Database) (call : Call D) : Prop :=
  ∀ id, call.handle = some id → ∃ tx, db.transactions[id]? = some tx ∧ tx.destroyed = false

end Call

/-! ## What the mirror should show -/

def openSerial (conn : Conn D.language) : Option ℕ := conn.txn.map (·.serial)

/-- The wrapper's savepoints in the open transaction, most recent first. -/
def ownSavepoints (σ : Session D) : List (ℕ × Bytes) :=
  match σ.conn.txn with
  | none => []
  | some t => (t.savepoints.filter (·.serial ∈ σ.wrapper.marks)).map fun sp => (sp.serial, sp.name)

/-- The wrapper has something to lose: a handle reports active, or the shadow
stack is not empty. -/
def Exposed (db : Database) : Prop :=
  (∃ (id : ℕ) (tx : Transaction), db.transactions[id]? = some tx ∧ tx.destroyed = false ∧
    tx.active = true) ∨
    db.savepoints ≠ []

/-- The faults a call may meet. -/
def Call.allows (call : Call D) (σ : Session D) (_ : Cmd D.language) (fault : Fault ℤ) : Prop :=
  match call, fault with
  | .savepointBegin _, .rollback _
  | .savepointRelease _, .rollback _
  | .savepointRollback _, .rollback _ => ¬ Exposed σ.wrapper
  | _, _ => True

/-- Caller SQL leaves no transaction open, or the one it found with the wrapper's
savepoints in it. -/
def Kept (σ σ' : Session D) : Prop :=
  Exposed σ.wrapper → σ'.conn.txn = none ∨
    (openSerial σ'.conn = openSerial σ.conn ∧
      ownSavepoints { σ' with wrapper := σ.wrapper } = ownSavepoints σ)

/-- The savepoint SQLite finds under the name is the wrapper's. -/
def OwnNewest (σ : Session D) (name : Bytes) : Prop :=
  ∀ t sp below, σ.conn.txn = some t → findSavepoint (foldCase name) t.savepoints = some (sp, below) →
    sp.serial ∈ σ.wrapper.marks

/-- The condition one step has to meet, on the state it starts from and on what
caller SQL does to SQLite. -/
def Call.Meets (call : Call D) (σ σ' : Session D) : Prop :=
  match call with
  | .savepointRelease name | .savepointRollback name =>
      σ.wrapper.savepoints.head? = some name → OwnNewest σ name
  | .exec _ | .query _ _ => Kept σ σ'
  | _ => True

/-! ## Runs -/

/-- One connection among others: the file may be anything between its calls. -/
def amidst (allows : Session D → Cmd D.language → Fault ℤ → Prop) :
    Contract D.language Database where
  rely := fun _ _ => True
  guar := fun _ _ => True
  allows := allows
  rely_refl := fun _ => trivial
  rely_trans := fun _ _ => trivial
  guar_refl := fun _ => trivial

def anyFault : Session D → Cmd D.language → Fault ℤ → Prop := fun _ _ _ => True

/-- A call under any faults. -/
def Step (σ : Session D) (call : Call D) (σ' : Session D) : Prop :=
  call.Legal σ.wrapper ∧ ∃ r, Runs (amidst anyFault) call.program σ r σ'

/-- A call that meets the condition. -/
def MeetingStep (σ : Session D) (call : Call D) (σ' : Session D) : Prop :=
  call.Legal σ.wrapper ∧ (∃ r, Runs (amidst call.allows) call.program σ r σ') ∧ call.Meets σ σ'

inductive Reaches (step : Session D → Call D → Session D → Prop) : Session D → Prop
  | opened (file : D.Content) (readOnly : ℤ) :
      Reaches step ⟨file, Conn.closed, Database.opened readOnly⟩
  | step {σ σ' : Session D} {call : Call D} (h : Reaches step σ) (hs : step σ call σ') :
      Reaches step σ'

theorem Reaches.numbered {σ : Session D} (h : Reaches Step σ) : σ.conn.Numbered := by
  induction h with
  | opened => exact Conn.numbered_closed
  | step _ hs ih =>
      obtain ⟨-, r, hr⟩ := hs
      exact hr.numbered ih

/-! ## The invariant -/

structure Shadow (σ : Session D) : Prop where
  numbered : σ.conn.Numbered
  handle : ∀ (id : ℕ) tx, σ.wrapper.transactions[id]? = some tx → tx.destroyed = false →
    (tx.active = true ↔ openSerial σ.conn = some tx.opened)
  current : ∀ (id : ℕ) tx, σ.wrapper.transactions[id]? = some tx → tx.destroyed = false →
    tx.active = true → σ.wrapper.activeTransaction = some id
  past : ∀ (id : ℕ) tx, σ.wrapper.transactions[id]? = some tx → tx.opened < σ.conn.opened
  explicit : ∀ t, σ.conn.txn = some t → t.implicit = true →
    ∀ (id : ℕ) tx, σ.wrapper.transactions[id]? = some tx → tx.opened ≠ t.serial
  marks : ∀ m ∈ σ.wrapper.marks, m < σ.conn.opened
  names : σ.wrapper.savepoints.map foldCase = (ownSavepoints σ).map (·.2)

/-- Nothing in the invariant is about the file. -/
theorem Shadow.file {σ : Session D} (h : Shadow σ) (file : D.Content) :
    Shadow { σ with file := file } :=
  ⟨h.numbered, h.handle, h.current, h.past, h.explicit, h.marks, h.names⟩

theorem ownSavepoints_none {σ : Session D} (h : σ.conn.txn = none) : ownSavepoints σ = [] := by
  simp [ownSavepoints, h]

theorem getElem?_setActive {db : Database} {id j : ℕ} {b : Bool} {tx : Transaction}
    (h : (db.setActive id b).transactions[j]? = some tx) :
    ∃ tx₀, db.transactions[j]? = some tx₀ ∧ tx.destroyed = tx₀.destroyed ∧
      tx.opened = tx₀.opened ∧ tx.active = if j = id then b else tx₀.active := by
  simp only [Database.setActive, List.getElem?_modify] at h
  cases h₀ : db.transactions[j]? with
  | none => simp [h₀] at h
  | some tx₀ =>
      refine ⟨tx₀, rfl, ?_⟩
      by_cases hj : id = j
      · subst hj
        simp only [h₀, if_true, Option.map_eq_map, Option.map_some, Option.some.injEq] at h
        subst h
        simp
      · simp only [h₀, if_neg hj, Option.map_eq_map, Option.map_some, Option.some.injEq] at h
        subst h
        simp [Ne.symm hj]

/-- The transaction is over and so is every handle and savepoint of it. -/
theorem Shadow.closed {σ σ' : Session D} (h : Shadow σ) (hc : σ'.conn.txn = none)
    (ho : σ.conn.opened ≤ σ'.conn.opened)
    (ht : ∀ (id : ℕ) tx, σ'.wrapper.transactions[id]? = some tx → ∃ tx₀,
      σ.wrapper.transactions[id]? = some tx₀ ∧ tx.opened = tx₀.opened ∧
        (tx.destroyed = false → tx.active = false))
    (hm : σ'.wrapper.marks = σ.wrapper.marks) (hs : σ'.wrapper.savepoints = []) : Shadow σ' where
  numbered := ⟨fun t h => by simp [hc] at h, fun t h => by simp [hc] at h⟩
  handle := by
    intro id tx hid hd
    obtain ⟨tx₀, -, -, ha⟩ := ht id tx hid
    simp [ha hd, openSerial, hc]
  current := by
    intro id tx hid hd ha
    obtain ⟨tx₀, -, -, hf⟩ := ht id tx hid
    simp [hf hd] at ha
  past := by
    intro id tx hid
    obtain ⟨tx₀, h₀, he, -⟩ := ht id tx hid
    exact he ▸ Nat.lt_of_lt_of_le (h.past id tx₀ h₀) ho
  explicit := by simp [hc]
  marks := by
    intro m hmem
    exact Nat.lt_of_lt_of_le (h.marks m (hm ▸ hmem)) ho
  names := by
    rw [hs, ownSavepoints_none hc]
    rfl

theorem Shadow.active_eq {σ : Session D} (h : Shadow σ) {id j : ℕ} {tx tx' : Transaction}
    (hid : σ.wrapper.transactions[id]? = some tx) (hd : tx.destroyed = false)
    (ha : tx.active = true) (hj : σ.wrapper.transactions[j]? = some tx')
    (hd' : tx'.destroyed = false) (ha' : tx'.active = true) : j = id := by
  have h₁ := h.current id tx hid hd ha
  have h₂ := h.current j tx' hj hd' ha'
  exact Option.some.inj (h₂.symm.trans h₁)

/-- `finish_transaction` found its transaction over. -/
theorem Shadow.finished {σ : Session D} (h : Shadow σ) {id : ℕ} {tx : Transaction}
    (hid : σ.wrapper.transactions[id]? = some tx) (hd : tx.destroyed = false)
    (ha : tx.active = true) (file : D.Content) (b : Bool) :
    Shadow { file := file, conn := σ.conn.abort
             wrapper := { σ.wrapper.finished id with transactionActive := b } } := by
  refine h.closed rfl (Nat.le_refl _) ?_ rfl rfl
  intro j tx' hj
  obtain ⟨tx₀, h₀, hd₀, ho, hac⟩ := getElem?_setActive hj
  refine ⟨tx₀, h₀, ho, fun hdj => ?_⟩
  rw [hac]
  split_ifs with hji
  · rfl
  · cases hb : tx₀.active with
    | false => rfl
    | true => exact (hji (h.active_eq hid hd ha h₀ (hd₀ ▸ hdj) hb)).elim

theorem Shadow.unexposed {σ : Session D} (h : Shadow σ) (hx : ¬ Exposed σ.wrapper)
    (file : D.Content) : Shadow { σ with file := file, conn := σ.conn.abort } := by
  simp only [Exposed, not_or, not_exists, not_and, Bool.not_eq_true, ne_eq, not_not] at hx
  refine h.closed rfl (Nat.le_refl _) ?_ rfl hx.2
  intro id tx hid
  exact ⟨tx, hid, rfl, fun hd => hx.1 id tx hid hd⟩

/-- The same transaction is open, with the wrapper's savepoints as the shadow
now has them. -/
theorem Shadow.replace {σ σ' : Session D} (h : Shadow σ) {t : Txn D.language}
    (t' : Txn D.language) (ht : σ.conn.txn = some t) (ht' : σ'.conn.txn = some t') (hn : σ'.conn.Numbered)
    (hs : t'.serial = t.serial) (hi : t'.implicit = t.implicit)
    (ho : σ.conn.opened ≤ σ'.conn.opened)
    (hw : σ'.wrapper.transactions = σ.wrapper.transactions)
    (ha : σ'.wrapper.activeTransaction = σ.wrapper.activeTransaction)
    (hm : ∀ m ∈ σ'.wrapper.marks, m < σ'.conn.opened)
    (hnm : σ'.wrapper.savepoints.map foldCase = (ownSavepoints σ').map (·.2)) : Shadow σ' where
  numbered := hn
  handle := by
    intro id tx hid hd
    rw [hw] at hid
    rw [h.handle id tx hid hd]
    simp [openSerial, ht, ht', hs]
  current := by
    intro id tx hid hd hact
    rw [ha]
    exact h.current id tx (hw ▸ hid) hd hact
  past := by
    intro id tx hid
    exact Nat.lt_of_lt_of_le (h.past id tx (hw ▸ hid)) ho
  explicit := by
    intro u hu him id tx hid
    rw [ht'] at hu
    obtain rfl := Option.some.inj hu
    rw [hs]
    exact h.explicit t ht (hi ▸ him) id tx (hw ▸ hid)
  marks := hm
  names := hnm

/-! ## Caller SQL -/

/-- What a string of statements may do to the connection. -/
theorem wp_execStatements (C : Contract D.language Database) (hg : ∀ d d', C.guar d d')
    (phase : Phase) (sql : List (Cmd D.language)) (σ : Session D) (hn : σ.conn.Numbered) :
    wp C (execStatements phase sql) (fun _ σ' => σ'.wrapper = σ.wrapper ∧
      σ.conn.Later σ'.conn ∧ σ'.conn.Numbered) σ := by
  induction sql generalizing σ with
  | nil => exact ⟨rfl, .refl _, hn⟩
  | cons c rest ih =>
      unfold execStatements
      rw [wp_op_bind]
      refine wp_call ?_ ?_ ?_
      · intro file e _ _
        exact ⟨rfl, .refl _, hn⟩
      · intro file e _ _
        exact ⟨rfl, (struck_later _ _).1, (struck_later _ _).2 hn⟩
      · intro file free _ _
        refine ⟨hg _ _, ?_⟩
        obtain ⟨hl, hk⟩ := perform_later free file σ.conn c
        cases hr : (perform free file σ.conn c).reply with
        | error e => exact ⟨rfl, hl, hk hn⟩
        | ok row =>
            refine wp_mono (ih _ (hk hn)) ?_
            rintro r σ' ⟨hw, hl', hn'⟩
            exact ⟨hw, hl.trans hl', hn'⟩

/-- Resynchronization is right about whatever caller SQL left, as long as that
is not another transaction under the old handle or the old savepoints. -/
theorem Shadow.sync {σ σ₁ : Session D} (h : Shadow σ) (hw : σ₁.wrapper = σ.wrapper)
    (hl : σ.conn.Later σ₁.conn) (hn : σ₁.conn.Numbered) (hk : Kept σ σ₁) :
    Shadow { σ₁ with wrapper := σ₁.wrapper.sync σ₁.conn.autocommit } := by
  rw [hw]
  cases hc : σ₁.conn.txn with
  | none =>
      have hauto : σ₁.conn.autocommit = true := by simp [Conn.autocommit, hc]
      rw [hauto]
      unfold Database.sync
      simp only [if_true]
      cases hcur : σ.wrapper.activeTransaction with
      | none =>
          refine h.closed hc hl.opened_le ?_ rfl rfl
          intro id tx hid
          refine ⟨tx, hid, rfl, fun hd => ?_⟩
          cases ha : tx.active with
          | false => rfl
          | true => simp [h.current id tx hid hd ha] at hcur
      | some cur =>
          refine h.closed hc hl.opened_le ?_ rfl rfl
          intro id tx hid
          obtain ⟨tx₀, h₀, hd₀, ho, hac⟩ := getElem?_setActive hid
          refine ⟨tx₀, h₀, ho, fun hd => ?_⟩
          rw [hac]
          split_ifs with hi
          · rfl
          · cases ha : tx₀.active with
            | false => rfl
            | true =>
                have := h.current id tx₀ h₀ (hd₀ ▸ hd) ha
                rw [hcur] at this
                exact (hi (Option.some.inj this).symm).elim
  | some t₁ =>
      have hauto : σ₁.conn.autocommit = false := by simp [Conn.autocommit, hc]
      rw [hauto]
      have hmarks : ∀ m ∈ σ.wrapper.marks, m < σ₁.conn.opened := fun m hm =>
        Nat.lt_of_lt_of_le (h.marks m hm) hl.opened_le
      by_cases hx : Exposed σ.wrapper
      · rcases hk hx with hnone | ⟨hser, hown⟩
        · simp [hnone] at hc
        · cases ht : σ.conn.txn with
          | none => simp [openSerial, hc, ht] at hser
          | some t =>
              simp only [openSerial, hc, ht, Option.map_some, Option.some.injEq] at hser
              have himp : t₁.implicit = t.implicit := by
                rcases hl.txn t₁ hc with hge | ⟨t', ht', -, hi⟩
                · exact absurd (h.numbered.txn t ht) (by omega)
                · rw [ht] at ht'
                  obtain rfl := Option.some.inj ht'
                  exact hi
              refine h.replace t₁ ht hc hn hser himp hl.opened_le rfl rfl hmarks ?_
              change σ.wrapper.savepoints.map foldCase = _
              rw [h.names, ← hown]
              rfl
      · simp only [Exposed, not_or, not_exists, not_and, Bool.not_eq_true, ne_eq, not_not] at hx
        have hidle : ownSavepoints σ = [] := by
          have := h.names
          rw [hx.2] at this
          exact List.map_eq_nil_iff.mp this.symm
        refine ⟨hn, ?_, ?_, ?_, ?_, hmarks, ?_⟩
        · intro id tx hid hd
          have hina := hx.1 id tx hid hd
          rw [hina]
          refine ⟨fun hf => by simp at hf, fun hser => ?_⟩
          simp only [openSerial, hc, Option.map_some, Option.some.injEq] at hser
          rcases hl.txn t₁ hc with hge | ⟨t, ht, hs, -⟩
          · exact absurd (h.past id tx hid) (by omega)
          · have := (h.handle id tx hid hd).mpr (by simp [openSerial, ht, ← hs, hser])
            simp [hina] at this
        · intro id tx hid hd ha
          simp [hx.1 id tx hid hd] at ha
        · intro id tx hid
          exact Nat.lt_of_lt_of_le (h.past id tx hid) hl.opened_le
        · intro u hu himp id tx hid
          rw [hc] at hu
          obtain rfl := Option.some.inj hu
          rcases hl.txn t₁ hc with hge | ⟨t, ht, hs, hi⟩
          · exact fun he => absurd (h.past id tx hid) (by omega)
          · rw [hs]
            exact h.explicit t ht (hi ▸ himp) id tx hid
        · change σ.wrapper.savepoints.map foldCase = _
          rw [hx.2]
          symm
          simp only [List.map_nil, List.map_eq_nil_iff, ownSavepoints, hc, List.filter_eq_nil_iff,
            decide_eq_true_eq]
          intro sp hsp hmem
          rcases hl.savepoint t₁ hc sp hsp with hge | ⟨t, ht, hs⟩
          · exact absurd (h.marks _ hmem) (by omega)
          · have hin : (sp.serial, sp.name) ∈ ownSavepoints σ := by
              simp only [ownSavepoints, ht, List.mem_map, List.mem_filter, decide_eq_true_eq]
              exact ⟨sp, ⟨hs, hmem⟩, rfl⟩
            rw [hidle] at hin
            simp at hin

/-! ## The wrapper's own calls -/

/-- What `finish_transaction` may leave: the connection as it was, or the
transaction over and its handle inactive. -/
inductive Finished (σ : Session D) (id : ℕ) : Session D → Prop
  | stayed (file : D.Content) (b : Bool) :
      Finished σ id ⟨file, σ.conn, { σ.wrapper with transactionActive := b }⟩
  | ended (ha : σ.wrapper.active id = true) (file : D.Content) (b : Bool) :
      Finished σ id ⟨file, σ.conn.abort, { σ.wrapper.finished id with transactionActive := b }⟩

theorem wp_finishTransaction (C : Contract D.language Database) (hg : ∀ d d', C.guar d d')
    (id : ℕ) (commit : Bool) (σ : Session D) :
    wp C (finishTransaction id commit) (fun _ σ' => Finished σ id σ') σ := by
  unfold finishTransaction
  rw [wp_op_bind, wp_get]
  dsimp only
  by_cases ha : σ.wrapper.active id = true
  · rw [if_neg (by simp [ha]), wp_op_bind, wp_attempt]
    -- After a refusal the autocommit flag decides between the two outcomes.
    have hrefused : ∀ file, ∀ conn : Conn D.language, (conn = σ.conn ∨ conn = σ.conn.abort) →
        Finished σ id ⟨file, conn,
          if conn.autocommit then { σ.wrapper.finished id with transactionActive := false }
          else { σ.wrapper with transactionActive := true }⟩ := by
      intro file conn hconn
      split_ifs with hauto
      · have he : conn = σ.conn.abort := by
          rcases hconn with rfl | rfl
          · cases hc : σ.conn with
            | mk txn opened =>
                simp only [hc, Conn.autocommit, Option.isNone_iff_eq_none] at hauto
                simp [Conn.abort, hauto]
          · rfl
        rw [he]
        exact .ended ha file false
      · rcases hconn with rfl | rfl
        · exact .stayed file true
        · simp [Conn.autocommit, Conn.abort] at hauto
    cases commit with
    | true =>
      refine wp_call ?_ ?_ ?_
      · intro file e _ _
        exact hrefused file σ.conn (.inl rfl)
      · intro file e _ _
        exact hrefused file σ.conn.abort (.inr rfl)
      · intro file free _ _
        refine ⟨hg _ _, ?_⟩
        simp only [perform, performCommit]
        cases ht : σ.conn.txn with
        | none => exact hrefused file σ.conn (.inl rfl)
        | some t => exact .ended ha _ false
    | false =>
      refine wp_call ?_ ?_ ?_
      · intro file e _ _
        exact hrefused file σ.conn (.inl rfl)
      · intro file e _ _
        exact hrefused file σ.conn.abort (.inr rfl)
      · intro file free _ _
        refine ⟨hg _ _, ?_⟩
        simp only [perform, performRollback]
        cases ht : σ.conn.txn with
        | none => exact hrefused file σ.conn (.inl rfl)
        | some t => exact .ended ha _ false
  · rw [if_pos (by simpa using ha)]
    exact .stayed σ.file σ.wrapper.transactionActive

theorem Shadow.transactionActive {σ : Session D} (h : Shadow σ) (file : D.Content) (b : Bool) :
    Shadow ⟨file, σ.conn, { σ.wrapper with transactionActive := b }⟩ :=
  ⟨h.numbered, h.handle, h.current, h.past, h.explicit, h.marks, h.names⟩

theorem active_iff {db : Database} {id : ℕ} {tx : Transaction} (h : db.transactions[id]? = some tx) :
    db.active id = true ↔ tx.active = true := by
  simp [Database.active, h]

theorem Shadow.finish {σ σ' : Session D} {id : ℕ} (h : Shadow σ) {tx : Transaction}
    (hid : σ.wrapper.transactions[id]? = some tx) (hd : tx.destroyed = false)
    (hf : Finished σ id σ') : Shadow σ' := by
  cases hf with
  | stayed file b => exact h.transactionActive file b
  | ended ha file b => exact h.finished hid hd ((active_iff hid).mp ha) file b

/-- Forgetting a handle only takes an obligation away. -/
theorem Shadow.destroyed {σ : Session D} (h : Shadow σ) (id : ℕ) :
    Shadow { σ with wrapper := { σ.wrapper with
      transactions := σ.wrapper.transactions.modify id fun tx => { tx with destroyed := true } } } := by
  have hold : ∀ {j : ℕ} {tx : Transaction},
      (σ.wrapper.transactions.modify id fun tx => { tx with destroyed := true })[j]? = some tx →
      ∃ tx₀, σ.wrapper.transactions[j]? = some tx₀ ∧ tx.opened = tx₀.opened ∧
        (tx.destroyed = false → tx = tx₀) := by
    intro j tx hj
    rw [List.getElem?_modify] at hj
    cases h₀ : σ.wrapper.transactions[j]? with
    | none => simp [h₀] at hj
    | some tx₀ =>
        refine ⟨tx₀, rfl, ?_⟩
        by_cases hji : id = j
        · simp only [h₀, if_pos hji, Option.map_eq_map, Option.map_some, Option.some.injEq] at hj
          subst hj
          simp
        · simp only [h₀, if_neg hji, Option.map_eq_map, Option.map_some, Option.some.injEq] at hj
          subst hj
          simp
  refine ⟨h.numbered, ?_, ?_, ?_, ?_, h.marks, h.names⟩
  · intro j tx hj hd
    obtain ⟨tx₀, h₀, -, he⟩ := hold hj
    obtain rfl := he hd
    exact h.handle j tx h₀ hd
  · intro j tx hj hd ha
    obtain ⟨tx₀, h₀, -, he⟩ := hold hj
    obtain rfl := he hd
    exact h.current j tx h₀ hd ha
  · intro j tx hj
    obtain ⟨tx₀, h₀, ho, -⟩ := hold hj
    exact ho ▸ h.past j tx₀ h₀
  · intro t ht hi j tx hj
    obtain ⟨tx₀, h₀, ho, -⟩ := hold hj
    exact ho ▸ h.explicit t ht hi j tx₀ h₀

theorem Shadow.not_exposed {σ : Session D} (h : Shadow σ) (hc : σ.conn.txn = none) :
    ¬ Exposed σ.wrapper := by
  rintro (⟨id, tx, hid, hd, ha⟩ | hs)
  · have := (h.handle id tx hid hd).mp ha
    simp [openSerial, hc] at this
  · have hn := h.names
    rw [ownSavepoints_none hc] at hn
    exact hs (List.map_eq_nil_iff.mp hn)

/-- A transaction without a handle, as a failed handle allocation can leave it. -/
theorem Shadow.openTxn {σ : Session D} (h : Shadow σ) (hc : σ.conn.txn = none) (file : D.Content)
    (a : Access D.language) : Shadow { σ with file := file, conn := σ.conn.openTxn a } := by
  have hx := h.not_exposed hc
  simp only [Exposed, not_or, not_exists, not_and, Bool.not_eq_true, ne_eq, not_not] at hx
  refine ⟨Conn.numbered_openTxn _ _, ?_, ?_, ?_, ?_, ?_, ?_⟩
  · intro id tx hid hd
    have := h.past id tx hid
    simp only [hx.1 id tx hid hd, openSerial, Conn.openTxn, Option.map_some, Option.some.injEq,
      Bool.false_eq_true, false_iff]
    omega
  · intro id tx hid hd ha
    simp [hx.1 id tx hid hd] at ha
  · intro id tx hid
    exact Nat.lt_succ_of_lt (h.past id tx hid)
  · intro t ht hi
    obtain rfl := Option.some.inj ht
    simp at hi
  · intro m hm
    exact Nat.lt_succ_of_lt (h.marks m hm)
  · simp [hx.2, ownSavepoints, Conn.openTxn]

theorem Shadow.newHandle {σ : Session D} (h : Shadow σ) (hc : σ.conn.txn = none)
    (file : D.Content) (a : Access D.language) :
    Shadow { file := file, conn := σ.conn.openTxn a, wrapper := { σ.wrapper with
      transactionActive := true
      transactions := σ.wrapper.transactions ++ [⟨true, false, σ.conn.opened⟩]
      activeTransaction := some σ.wrapper.transactions.length } } := by
  have hx := h.not_exposed hc
  simp only [Exposed, not_or, not_exists, not_and, Bool.not_eq_true, ne_eq, not_not] at hx
  have ho := h.openTxn hc file a
  have hold : ∀ {id : ℕ} {tx : Transaction},
      (σ.wrapper.transactions ++ [⟨true, false, σ.conn.opened⟩])[id]? = some tx →
      σ.wrapper.transactions[id]? = some tx ∨
        (id = σ.wrapper.transactions.length ∧ tx = ⟨true, false, σ.conn.opened⟩) := by
    intro id tx hid
    rw [List.getElem?_append] at hid
    split_ifs at hid with hlt
    · exact .inl hid
    · have hz : id - σ.wrapper.transactions.length = 0 := by
        by_contra hne
        rw [List.getElem?_eq_none (by simp; omega)] at hid
        simp at hid
      rw [hz] at hid
      simp only [List.getElem?_cons_zero, Option.some.injEq] at hid
      exact .inr ⟨by omega, hid.symm⟩
  refine ⟨ho.numbered, ?_, ?_, ?_, ?_, ho.marks, ho.names⟩
  · intro id tx hid hd
    rcases hold hid with hid | ⟨-, rfl⟩
    · exact ho.handle id tx hid hd
    · simp [openSerial, Conn.openTxn]
  · intro id tx hid hd ha
    rcases hold hid with hid | ⟨rfl, -⟩
    · simp [hx.1 id tx hid hd] at ha
    · rfl
  · intro id tx hid
    rcases hold hid with hid | ⟨-, rfl⟩
    · exact ho.past id tx hid
    · exact Nat.lt_succ_self _
  · intro t ht hi
    obtain rfl := Option.some.inj ht
    simp at hi

theorem wp_begin_shadow {C : Contract D.language Database} (hg : ∀ d d', C.guar d d') (mode : ℕ)
    (allocates : Bool) {σ : Session D} (h : Shadow σ) :
    wp C (begin mode allocates) (fun _ σ' => Shadow σ') σ := by
  unfold begin
  rw [wp_op_bind, wp_get]
  dsimp only
  by_cases hact : σ.wrapper.transactionActive = true
  · rw [if_pos hact]
    exact h
  · rw [if_neg hact]
    cases hm : beginSql mode with
    | none => exact h
    | some immediate =>
        dsimp only
        rw [wp_op_bind]
        refine wp_call ?_ ?_ ?_
        · intro file e _ _
          exact h.file file
        · intro file e _ _
          exact h.file file
        · intro file free _ _
          refine ⟨hg _ _, ?_⟩
          have hopened : ∀ (hc : σ.conn.txn = none) (a : Access D.language),
              wp C (if !allocates then do
                  let _ ← Op.attempt (execSql (D := D) .transaction .rollback)
                  Op.modify fun db => { db with transactionActive := false }
                  Op.fail (.recorded .outOfMemory .transaction Sqlite.nomem
                    (some "transaction allocation failed"))
                else do
                  let id := σ.wrapper.transactions.length
                  Op.modify fun db => { db with
                    transactions := db.transactions ++ [⟨true, false, σ.conn.opened⟩]
                    activeTransaction := some id }
                  pure id : Operation D ℕ) (fun _ σ' => Shadow σ')
                ⟨file, σ.conn.openTxn a, { σ.wrapper with transactionActive := true }⟩ := by
            intro hc a
            have hx := h.not_exposed hc
            have hopen := h.openTxn hc file a
            cases allocates with
            | true => exact h.newHandle hc file a
            | false =>
                rw [if_pos (by rfl), wp_op_bind, wp_attempt]
                refine wp_call ?_ ?_ ?_
                · intro file' e _ _
                  exact hopen.transactionActive file' false
                · intro file' e _ _
                  exact (hopen.unexposed hx file').transactionActive file' false
                · intro file' free' _ _
                  exact ⟨hg _ _, (hopen.unexposed hx file').transactionActive file' false⟩
          simp only [perform, performBegin]
          cases hc : σ.conn.txn with
          | some t => exact h.file file
          | none =>
              dsimp only
              cases immediate with
              | false => exact hopened hc .idle
              | true =>
                  cases free with
                  | true => exact hopened hc (.writing file)
                  | false => exact h.file file

/-- `SAVEPOINT` and the entry `esdb_savepoint_begin` makes for it. -/
theorem Shadow.push {σ : Session D} (h : Shadow σ) (file : D.Content) (name : Bytes) {serial : ℕ}
    (hs : serial = if σ.conn.txn.isSome then σ.conn.opened else σ.conn.opened + 1) :
    Shadow { file := file, conn := σ.conn.push (foldCase name), wrapper := { σ.wrapper with
      savepoints := name :: σ.wrapper.savepoints, marks := serial :: σ.wrapper.marks } } := by
  have hmarks : ∀ {n : ℕ}, σ.conn.opened ≤ n → ∀ m ∈ σ.wrapper.marks, m < n := fun hn m hm =>
    Nat.lt_of_lt_of_le (h.marks m hm) hn
  cases ht : σ.conn.txn with
  | none =>
      have hser : serial = σ.conn.opened + 1 := by simpa [ht] using hs
      subst hser
      have hx := h.not_exposed ht
      simp only [Exposed, not_or, not_exists, not_and, Bool.not_eq_true, ne_eq, not_not] at hx
      refine ⟨h.numbered.push _, ?_, ?_, ?_, ?_, ?_, ?_⟩
      · intro id tx hid hd
        have := h.past id tx hid
        simp only [hx.1 id tx hid hd, openSerial, Conn.push, ht, Option.map_some,
          Option.some.injEq, Bool.false_eq_true, false_iff]
        omega
      · intro id tx hid hd ha
        simp [hx.1 id tx hid hd] at ha
      · intro id tx hid
        have := h.past id tx hid
        simp only [Conn.push, ht]
        omega
      · intro t hu _ id tx hid
        simp only [Conn.push, ht, Option.some.injEq] at hu
        subst hu
        exact Nat.ne_of_lt (h.past id tx hid)
      · intro m hm
        simp only [Conn.push, ht]
        rcases List.mem_cons.mp hm with rfl | hm
        · omega
        · exact hmarks (Nat.le_add_right _ 2) m hm
      · simp [hx.2, ownSavepoints, Conn.push, ht]
  | some t =>
      have hser : serial = σ.conn.opened := by simpa [ht] using hs
      subst hser
      have hopened : (σ.conn.push (foldCase name)).opened = σ.conn.opened + 1 := by
        simp [Conn.push, ht]
      refine h.replace { t with
        savepoints := ⟨σ.conn.opened, foldCase name, t.access.written⟩ :: t.savepoints } ht
        (by simp [Conn.push, ht]) (h.numbered.push _) rfl rfl (hopened ▸ Nat.le_succ _) rfl rfl ?_ ?_
      · intro m hm
        change m < (σ.conn.push (foldCase name)).opened
        rw [hopened]
        rcases List.mem_cons.mp hm with rfl | hm
        · exact Nat.lt_succ_self _
        · exact hmarks (Nat.le_succ _) m hm
      · have hfilter : t.savepoints.filter (·.serial ∈ σ.conn.opened :: σ.wrapper.marks) =
            t.savepoints.filter (·.serial ∈ σ.wrapper.marks) := by
          apply List.filter_congr
          intro sp hsp
          have hlt := h.numbered.savepoint t ht sp hsp
          simp only [List.mem_cons, decide_eq_decide]
          constructor
          · rintro (he | hm)
            · omega
            · exact hm
          · exact .inr
        have hnames := h.names
        simp only [ownSavepoints, ht] at hnames
        simp only [List.map_cons, ownSavepoints, Conn.push, ht, List.filter_cons, List.mem_cons_self,
          decide_true, if_true, hfilter, hnames]

theorem wp_savepointBegin_shadow (name : Bytes) {σ : Session D} (h : Shadow σ) :
    wp (amidst (Call.savepointBegin name).allows) (savepointBegin name)
      (fun _ σ' => Shadow σ') σ := by
  unfold savepointBegin
  split_ifs with hv
  · exact h
  · rw [wp_op_bind, wp_get]
    dsimp only
    split_ifs with hact hdepth
    · exact h
    · exact h
    · rw [wp_op_bind]
      refine wp_call ?_ ?_ ?_
      · intro file e _ _
        exact h.file file
      · intro file e _ ha
        exact h.unexposed ha file
      · intro file free _ _
        refine ⟨trivial, ?_⟩
        simp only [perform, performSavepoint]
        cases ht : σ.conn.txn with
        | none => exact h.push file name (by simp [ht])
        | some t => exact h.push file name (by simp [ht])

/-- If the savepoint found under the name at the top of the shadow is one of the
wrapper's, it is the wrapper's newest: whatever stands above it is not. -/
theorem findSavepoint_own {l below : List (Savepoint D.language)} {sp : Savepoint D.language}
    {marks : List ℕ} {n : Bytes} {rest : List Bytes}
    (hf : findSavepoint n l = some (sp, below)) (hm : sp.serial ∈ marks)
    (hn : (l.filter (·.serial ∈ marks)).map (·.name) = n :: rest) :
    sp.name = n ∧ (sp :: below).filter (·.serial ∈ marks) = l.filter (·.serial ∈ marks) := by
  induction l with
  | nil => simp [findSavepoint] at hf
  | cons a l ih =>
      unfold findSavepoint at hf
      split_ifs at hf with ha
      · simp only [Option.some.injEq, Prod.mk.injEq] at hf
        obtain ⟨rfl, rfl⟩ := hf
        exact ⟨ha, rfl⟩
      · have hcons := @List.filter_cons_of_neg _ (·.serial ∈ marks) a l
        by_cases hma : a.serial ∈ marks
        · simp only [List.filter_cons, hma, decide_true, if_true, List.map_cons,
            List.cons.injEq] at hn
          exact (ha hn.1).elim
        · rw [hcons (by simpa using hma)] at hn ⊢
          exact ih hf hn

section Release

variable {σ : Session D} {t : Txn D.language} {name : Bytes} {rest : List Bytes}
  {sp : Savepoint D.language} {below : List (Savepoint D.language)}

theorem Shadow.filtered (h : Shadow σ) (ht : σ.conn.txn = some t)
    (hs : σ.wrapper.savepoints = name :: rest) (hown : OwnNewest σ name)
    (hf : findSavepoint (foldCase name) t.savepoints = some (sp, below)) :
    sp.name = foldCase name ∧
      (sp :: below).filter (·.serial ∈ σ.wrapper.marks) =
        t.savepoints.filter (·.serial ∈ σ.wrapper.marks) ∧
      ((sp :: below).filter (·.serial ∈ σ.wrapper.marks)).map (·.name) =
        foldCase name :: rest.map foldCase := by
  have hnames := h.names
  simp only [hs, List.map_cons, ownSavepoints, ht, List.map_map] at hnames
  have hn : (t.savepoints.filter (·.serial ∈ σ.wrapper.marks)).map (·.name) =
      foldCase name :: rest.map foldCase := hnames.symm
  obtain ⟨h₁, h₂⟩ := findSavepoint_own hf (hown t sp below ht hf) hn
  exact ⟨h₁, h₂, h₂ ▸ hn⟩

theorem Shadow.released (h : Shadow σ) (ht : σ.conn.txn = some t)
    (hs : σ.wrapper.savepoints = name :: rest) (hown : OwnNewest σ name)
    (hf : findSavepoint (foldCase name) t.savepoints = some (sp, below)) (file : D.Content) :
    Shadow { file := file, conn := { σ.conn with txn := some { t with savepoints := below } }
             wrapper := { σ.wrapper with savepoints := rest } } := by
  obtain ⟨hsp, heq, hnames⟩ := h.filtered ht hs hown hf
  have hmem := (findSavepoint_mem hf).2
  refine h.replace { t with savepoints := below } ht rfl
    (h.numbered.replace ht rfl hmem) rfl rfl (Nat.le_refl _) rfl rfl h.marks ?_
  rw [List.filter_cons_of_pos (by simpa using hown t sp below ht hf), List.map_cons, hsp,
    List.cons.injEq] at hnames
  simp only [ownSavepoints, List.map_map]
  exact hnames.2.symm

theorem Shadow.rolledBackTo (h : Shadow σ) (ht : σ.conn.txn = some t)
    (hs : σ.wrapper.savepoints = name :: rest) (hown : OwnNewest σ name)
    (hf : findSavepoint (foldCase name) t.savepoints = some (sp, below)) (file : D.Content)
    (a : Access D.language) :
    Shadow { file := file
             conn := { σ.conn with txn := some { t with access := a, savepoints := sp :: below } }
             wrapper := σ.wrapper } := by
  obtain ⟨-, heq, -⟩ := h.filtered ht hs hown hf
  have hmem : ∀ x ∈ sp :: below, x ∈ t.savepoints := by
    intro x hx
    rcases List.mem_cons.mp hx with rfl | hx
    · exact (findSavepoint_mem hf).1
    · exact (findSavepoint_mem hf).2 x hx
  refine h.replace { t with access := a, savepoints := sp :: below } ht rfl
    (h.numbered.replace ht rfl hmem) rfl rfl (Nat.le_refl _) rfl rfl h.marks ?_
  rw [h.names]
  simp only [ownSavepoints, ht, heq]

/-- Releasing the outermost savepoint of an implicit transaction ends it; no
handle stands for an implicit transaction. -/
theorem Shadow.releasedOutermost (h : Shadow σ) (ht : σ.conn.txn = some t)
    (hs : σ.wrapper.savepoints = name :: rest) (hown : OwnNewest σ name)
    (hf : findSavepoint (foldCase name) t.savepoints = some (sp, [])) (hi : t.implicit = true)
    (file : D.Content) :
    Shadow { file := file, conn := σ.conn.abort
             wrapper := { σ.wrapper with savepoints := rest } } := by
  obtain ⟨hsp, -, hnames⟩ := h.filtered ht hs hown hf
  rw [List.filter_cons_of_pos (by simpa using hown t sp [] ht hf), List.map_cons, hsp,
    List.cons.injEq] at hnames
  refine h.closed rfl (Nat.le_refl _) ?_ rfl (List.map_eq_nil_iff.mp hnames.2.symm)
  intro id tx hid
  refine ⟨tx, hid, rfl, fun hd => ?_⟩
  cases ha : tx.active with
  | false => rfl
  | true =>
      have := (h.handle id tx hid hd).mp ha
      simp only [openSerial, ht, Option.map_some, Option.some.injEq] at this
      exact (h.explicit t ht hi id tx hid this.symm).elim

theorem wp_release_shadow {C : Contract D.language Database} (hg : ∀ d d', C.guar d d')
    (hC : ∀ σ c e, C.allows σ c (.rollback e) → ¬ Exposed σ.wrapper) (h : Shadow σ)
    (hs : σ.wrapper.savepoints = name :: rest) (hown : OwnNewest σ name) :
    wp C (do
      execSql (D := D) .savepoint (.release (foldCase name))
      Op.modify fun db => { db with savepoints := db.savepoints.tail } : Operation D Unit)
      (fun _ σ' => Shadow σ') σ := by
  rw [wp_op_bind]
  refine wp_call ?_ ?_ ?_
  · intro file e _ _
    exact h.file file
  · intro file e _ ha
    exact (hC _ _ _ ha (.inr (by simp [hs]))).elim
  · intro file free _ _
    refine ⟨hg _ _, ?_⟩
    have htail : ∀ db : Database, db.savepoints = name :: rest →
        { db with savepoints := db.savepoints.tail } = { db with savepoints := rest } := by
      intro db hdb
      rw [hdb]
      rfl
    simp only [perform, performRelease]
    cases ht : σ.conn.txn with
    | none => exact h.file file
    | some t =>
        dsimp only
        cases hf : findSavepoint (foldCase name) t.savepoints with
        | none => exact h.file file
        | some p =>
            obtain ⟨sp, below⟩ := p
            dsimp only
            by_cases hi : (t.implicit && below.isEmpty) = true
            · rw [if_pos hi]
              simp only [Bool.and_eq_true, List.isEmpty_iff] at hi
              obtain ⟨hi, rfl⟩ := hi
              simp only [Except.mapError, wp_modify, htail σ.wrapper hs]
              exact h.releasedOutermost ht hs hown hf hi _
            · rw [if_neg hi]
              simp only [Except.mapError, wp_modify, htail σ.wrapper hs]
              exact h.released ht hs hown hf _

end Release

theorem wp_savepointRelease_shadow (name : Bytes) {σ : Session D} (h : Shadow σ)
    (hm : σ.wrapper.savepoints.head? = some name → OwnNewest σ name) :
    wp (amidst (Call.savepointRelease name).allows) (savepointRelease name)
      (fun _ σ' => Shadow σ') σ := by
  unfold savepointRelease
  split_ifs with hv
  · exact h
  · rw [wp_op_bind, wp_get]
    dsimp only
    split_ifs with hhead
    · exact h
    · have hown := hm (not_not.mp hhead)
      obtain ⟨rest, hs⟩ := List.head?_eq_some_iff.mp (not_not.mp hhead)
      exact wp_release_shadow (fun _ _ => trivial) (fun _ _ _ ha => ha) h hs hown

theorem wp_savepointRollback_shadow (name : Bytes) {σ : Session D} (h : Shadow σ)
    (hm : σ.wrapper.savepoints.head? = some name → OwnNewest σ name) :
    wp (amidst (Call.savepointRollback name).allows) (savepointRollback name)
      (fun _ σ' => Shadow σ') σ := by
  unfold savepointRollback
  split_ifs with hv
  · exact h
  · rw [wp_op_bind, wp_get]
    dsimp only
    split_ifs with hhead
    · exact h
    · have hown := hm (not_not.mp hhead)
      obtain ⟨rest, hs⟩ := List.head?_eq_some_iff.mp (not_not.mp hhead)
      rw [wp_op_bind]
      refine wp_call ?_ ?_ ?_
      · intro file e _ _
        exact h.file file
      · intro file e _ ha
        exact (ha (.inr (by simp [hs]))).elim
      · intro file free _ _
        refine ⟨trivial, ?_⟩
        simp only [perform, performRollbackTo]
        cases ht : σ.conn.txn with
        | none => exact h.file file
        | some t =>
            dsimp only
            cases hf : findSavepoint (foldCase name) t.savepoints with
            | none => exact h.file file
            | some p =>
                obtain ⟨sp, below⟩ := p
                -- The savepoint just found is on top now, so RELEASE finds it again.
                have hname := (h.filtered ht hs hown hf).1
                refine wp_release_shadow (fun _ _ => trivial) (fun _ _ _ ha => ha)
                  (h.rolledBackTo ht hs hown hf file _) hs ?_
                intro t' sp' below' ht' hf'
                obtain rfl := Option.some.inj ht'
                simp only [findSavepoint, hname, if_true, Option.some.injEq, Prod.mk.injEq] at hf'
                obtain ⟨rfl, -⟩ := hf'
                exact hown t sp below ht hf

theorem wp_destroy_shadow {C : Contract D.language Database} (hg : ∀ d d', C.guar d d') {id : ℕ}
    {tx : Transaction} {σ : Session D} (h : Shadow σ)
    (hid : σ.wrapper.transactions[id]? = some tx) (hd : tx.destroyed = false) :
    wp C (destroy id) (fun _ σ' => Shadow σ' ∧ ∃ σ₁, Finished σ id σ₁ ∧ σ'.conn = σ₁.conn) σ := by
  unfold destroy
  rw [wp_op_bind, wp_get]
  dsimp only
  split_ifs with ha
  · rw [wp_op_bind, wp_attempt]
    refine wp_mono (wp_finishTransaction C hg id false σ) ?_
    intro r σ₁ hf
    exact ⟨(h.finish hid hd hf).destroyed id, σ₁, hf, rfl⟩
  · exact ⟨h.destroyed id, σ, .stayed σ.file σ.wrapper.transactionActive, rfl⟩

theorem wp_rethrow {C : Contract D.language Database} {status : Except Failure Unit}
    {post : Session D → Prop} {σ : Session D} :
    wp C (rethrow status) (fun _ σ' => post σ') σ ↔ post σ := by
  cases status <;> rfl

theorem wp_callerSql_shadow {C : Contract D.language Database} (hg : ∀ d d', C.guar d d')
    (phase : Phase) (sql : List (Cmd D.language)) {σ : Session D} (h : Shadow σ) :
    wp C (do
      let status ← Op.attempt (execStatements phase sql)
      resync
      rethrow status : Operation D Unit) (fun _ σ' => Kept σ σ' → Shadow σ') σ := by
  rw [wp_op_bind, wp_attempt]
  refine wp_mono (wp_execStatements C hg phase sql σ h.numbered) ?_
  rintro r σ₁ ⟨hw, hl, hn⟩
  unfold resync
  simp only [wp_op_bind, wp_autocommit, wp_modify, wp_rethrow]
  exact fun hk => h.sync hw hl hn hk

/-! ## Every run -/

theorem Shadow.step {σ σ' : Session D} {call : Call D} (h : Shadow σ)
    (hs : MeetingStep σ call σ') : Shadow σ' := by
  obtain ⟨hlegal, ⟨r, hr⟩, hm⟩ := hs
  have hg : ∀ d d', (amidst call.allows).guar d d' := fun _ _ => trivial
  cases call with
  | begin mode allocates =>
      have hwp : wp (amidst (Call.begin mode allocates).allows)
          (Call.begin mode allocates : Call D).program (fun _ σ' => Shadow σ') σ := by
        unfold Call.program
        rw [wp_op_bind]
        refine wp_mono (wp_begin_shadow hg mode allocates h) ?_
        intro r σ' hs
        cases r with
        | error e => exact hs
        | ok id => exact hs
      exact wp_sound hr hwp
  | commit id =>
      obtain ⟨tx, hid, hd⟩ := hlegal id rfl
      exact h.finish hid hd (wp_sound hr (wp_finishTransaction _ hg id true σ))
  | rollback id =>
      obtain ⟨tx, hid, hd⟩ := hlegal id rfl
      exact h.finish hid hd (wp_sound hr (wp_finishTransaction _ hg id false σ))
  | destroy id =>
      obtain ⟨tx, hid, hd⟩ := hlegal id rfl
      exact (wp_sound hr (wp_destroy_shadow hg h hid hd)).1
  | savepointBegin name => exact wp_sound hr (wp_savepointBegin_shadow name h)
  | savepointRelease name => exact wp_sound hr (wp_savepointRelease_shadow name h hm)
  | savepointRollback name => exact wp_sound hr (wp_savepointRollback_shadow name h hm)
  | exec sql => exact wp_sound hr (wp_callerSql_shadow hg .exec sql h) hm
  | query rejected sql =>
      have hwp : wp (amidst (Call.query rejected sql).allows)
          (query rejected sql) (fun _ σ' => Kept σ σ' → Shadow σ') σ := by
        match rejected, sql with
        | some e, sql => exact fun _ => h
        | none, [] => exact fun _ => h
        | none, [c] => exact wp_callerSql_shadow hg .exec [c] h
        | none, _ :: _ :: _ => exact fun _ => h
      exact wp_sound hr hwp hm

/-- A dialect of transaction control alone. -/
def controlOnly : Dialect where
  Stmt := Empty
  Row := fun _ => Unit
  Content := Unit
  writes := fun _ => false
  eval := fun s _ => nomatch s
  eval_reads := fun {s} => nomatch s
  decContent := inferInstance

def freshControlOnly : Session controlOnly := ⟨(), Conn.closed, Database.opened 0⟩

def Call.faultFree (σ : Session D) (call : Call D) : Session D := (call.program.run [] σ).2

theorem step_faultFree (σ : Session D) (call : Call D) (hl : call.Legal σ.wrapper)
    (ha : call.program.Admits (amidst anyFault) [] σ) : Step σ call (call.faultFree σ) :=
  ⟨hl, _, runs_run ha⟩

end Esdb.Runtime
