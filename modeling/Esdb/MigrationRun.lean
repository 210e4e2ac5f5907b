import Esdb.Migration
import Esdb.RuntimeTransaction
import Mathlib.Logic.Basic

/-!
# One call of `esdb_migrate`

The steps of a migration, as statements one after the other, take the content of a
database from its version to the target. A call either commits exactly that, in the
one transaction it opens, or leaves the database as it was. Where the target is no
signed 32-bit integer, SQLite stores another version than the one asked for.
-/
namespace Esdb.Migration

open Transactional Esdb.Runtime

variable {P : Product}

abbrev Session (P : Product) : Type := State (dialect P).language Database

abbrev MigrationContract (P : Product) : Type := Contract (dialect P).language Database

/-- The steps from `current` on: the callback of each, and its version. -/
def upgrade (migrations : List (Step P)) :
    (remaining current : ℕ) → Query (dialect P).language CallbackFailure Unit
  | 0, _ => pure ()
  | remaining + 1, current =>
      match findStep migrations current with
      | none => .fail (.returned missingStep)
      | some callback => do
          statements callback
          Query.one (L := (dialect P).language) (fun r => .returned (sqliteFailure .migration r))
            (Sql.setUserVersion (current + 1))
          upgrade migrations remaining (current + 1)

/-- All the steps from the version that `d` has to the target succeed, and end in `d'`. -/
def Upgrades (migrations : List (Step P)) (target : ℕ) (d d' : Content P) : Prop :=
  ∃ current : ℕ, d.userVersion = current ∧ current < target ∧
    (upgrade migrations (target - current) current).denote d = .ok ((), d')

/-! ## The transaction of the call -/

variable {C : MigrationContract P} {σ σ' : Session P} {id : ℕ} {f d : Content P}

/-- The call's transaction is open and has written `d` over the file `f`. -/
structure Inside (id : ℕ) (f d : Content P) (σ : Session P) : Prop where
  txn : ∃ t, σ.conn.txn = some t ∧ t.access = .writing d
  handles : Handles id σ.wrapper
  file : σ.file = f

/-- Nothing of the call is left, unless SQLite refuses to roll back. -/
def GivenUp (C : MigrationContract P) (f : Content P) (σ : Session P) : Prop :=
  C.rely f σ.file ∧ (σ.conn.txn = none ∨ Refuses C .rollback)

theorem Undone.givenUp (h : Undone C id σ σ') (hr : C.rely f σ.file)
    (hc : σ.conn.txn = none ∨ σ.wrapper.active id = true ∨ Refuses C .rollback) :
    GivenUp C f σ' := by
  refine ⟨C.rely_trans hr h.file, ?_⟩
  rcases h.txn with hn | ⟨he, hwhy⟩
  · exact .inl hn
  · rcases hc with hn | ha | hr
    · exact .inl (he ▸ hn)
    · rcases hwhy with hi | hr
      · simp [ha] at hi
      · exact .inr hr
    · exact .inr hr

theorem wp_abandon (hr : C.rely f σ.file)
    (hc : σ.conn.txn = none ∨ σ.wrapper.active id = true) :
    wp C (abandon (P := P) id) (fun _ σ' => GivenUp C f σ') σ := by
  unfold abandon
  rw [wp_op_bind, wp_attempt]
  apply wp_mono (Runtime.wp_rollback id)
  intro r σ₁ h₁
  have h := Undone.givenUp h₁ hr (hc.imp_right .inl)
  apply wp_mono (Runtime.wp_destroy id)
  rintro r σ₂ ⟨-, h₂⟩
  exact Undone.givenUp h₂ h.1 (h.2.imp_right .inr)

theorem Inside.active (h : Inside id f d σ) : σ.wrapper.active id = true := h.handles.active

theorem Inside.withAccess {t : Txn (dialect P).language} (h : Inside id f d σ)
    (hw : σ'.wrapper = σ.wrapper) (hf : σ'.file = f) {d' : Content P}
    (hc : σ'.conn = σ.conn.withAccess t (.writing d')) : Inside id f d' σ' :=
  ⟨⟨_, by rw [hc]; rfl, rfl⟩, hw ▸ h.handles, hf⟩

/-- Looking at the autocommit flag changes nothing in the middle of the call. -/
theorem Inside.sync (h : Inside id f d σ) :
    Inside id f d { σ with wrapper := σ.wrapper.sync σ.conn.autocommit } := by
  obtain ⟨t, hc, ha⟩ := h.txn
  refine ⟨h.txn, ?_, h.file⟩
  have hauto : σ.conn.autocommit = false := by simp [Conn.autocommit, hc]
  obtain ⟨hact, hcur, -⟩ := h.handles
  simp only [hauto, Database.sync]
  exact ⟨hact, hcur, rfl⟩

/-- What a query of the writing transaction may come to. -/
theorem Inside.query (h : Inside id f d σ) {F α : Type} (q : Query (dialect P).language F α) :
    wp C (q.toOp Database) (fun r σ' => match r with
      | .ok x => ∃ d', Inside id f d' σ' ∧ q.denote d = .ok (x, d')
      | .error _ => (σ'.conn.txn = none ∧ σ'.file = f) ∨ ∃ d', Inside id f d' σ') σ := by
  obtain ⟨t, hc, ha⟩ := h.txn
  have hw : σ.conn.isWriting = true := by simp [Conn.isWriting, hc, ha, Access.isWriting]
  apply wp_mono (wp_query hc)
  intro r σ' hr
  cases hr with
  | aborted _ hc' hf _ => exact .inl ⟨by rw [hc']; rfl, (hf.eq hw).trans h.file⟩
  | failed a hw' hc' htt _ =>
      rw [ha] at htt
      cases a with
      | writing d' => exact .inr ⟨d', h.withAccess hw' (htt.trans h.file) hc'⟩
      | _ => simp [Touched] at htt
  | done a hw' hc' htt hrr _ =>
      rw [ha] at htt hrr
      cases a with
      | writing d' => exact ⟨d', h.withAccess hw' (htt.trans h.file) hc', hrr⟩
      | _ => simp [Touched] at htt

theorem Inside.runCallback (h : Inside id f d σ) (callback : Callback P) :
    wp C (runCallback callback) (fun r σ' => match r with
      | .ok (.ok _) => ∃ d', Inside id f d' σ' ∧ (statements callback).denote d = .ok ((), d')
      | .ok (.error _) => (σ'.conn.txn = none ∧ σ'.file = f) ∨ ∃ d', Inside id f d' σ'
      | .error _ => False) σ := by
  unfold Migration.runCallback
  rw [wp_op_bind, wp_observe]
  apply wp_mono (h.query (statements callback))
  intro r σ₁ h₁
  dsimp only
  unfold resync
  simp only [wp_op_bind, wp_autocommit, wp_modify]
  cases r with
  | ok x =>
      obtain ⟨d', hin, hd⟩ := h₁
      exact ⟨d', hin.sync, hd⟩
  | error e =>
      rcases h₁ with ⟨hn, hf⟩ | ⟨d', hin⟩
      · exact .inl ⟨hn, hf⟩
      · exact .inr ⟨d', hin.sync⟩

theorem userVersionSet_eq (version : ℕ) : (userVersionSet version : Operation P Unit) =
    (Query.one (L := (dialect P).language) (sqliteFailure .migration)
      (Sql.setUserVersion version)).toOp Database := by
  unfold userVersionSet execSql Op.call Query.one Query.toOp
  congr 1
  funext r
  cases r with
  | error e => rfl
  | ok row => rfl

/-- The loop ends with all its steps done, or with the call given up. -/
theorem Inside.runSteps {migrations : List (Step P)} (h : Inside id f d σ)
    (remaining current : ℕ) :
    wp C (runSteps migrations id remaining current) (fun r σ' => match r with
      | .ok _ => ∃ d', Inside id f d' σ' ∧
          (upgrade migrations remaining current).denote d = .ok ((), d')
      | .error _ => GivenUp C f σ') σ := by
  induction remaining generalizing current d σ with
  | zero => exact ⟨d, h, rfl⟩
  | succ remaining ih =>
      have hgive : ∀ {σ₁ : Session P} {e : Failure},
          ((σ₁.conn.txn = none ∧ σ₁.file = f) ∨ ∃ d', Inside id f d' σ₁) →
          wp C (do
            abandon (P := P) id
            Op.fail e : Operation P Unit) (fun r σ' => match r with
              | .ok _ => ∃ d', Inside id f d' σ' ∧
                  (upgrade migrations (remaining + 1) current).denote d = .ok ((), d')
              | .error _ => GivenUp C f σ') σ₁ := by
        intro σ₁ e h₁
        rw [wp_op_bind]
        have hgo : C.rely f σ₁.file ∧ (σ₁.conn.txn = none ∨ σ₁.wrapper.active id = true) := by
          rcases h₁ with ⟨hn, hf⟩ | ⟨d', hin⟩
          · exact ⟨hf ▸ C.rely_refl _, .inl hn⟩
          · exact ⟨hin.file ▸ C.rely_refl _, .inr hin.active⟩
        apply wp_mono (wp_abandon hgo.1 hgo.2)
        intro r σ₂ h₂
        cases r with
        | error e' => exact h₂
        | ok x => exact h₂
      unfold Migration.runSteps
      cases hstep : findStep migrations current with
      | none => exact hgive (.inr ⟨d, h⟩)
      | some callback =>
          dsimp only
          rw [wp_op_bind]
          apply wp_mono (h.runCallback callback)
          intro r σ₁ h₁
          rcases r with e | (e | x)
          · exact h₁.elim
          · exact hgive h₁
          · obtain ⟨d₁, hin₁, hd₁⟩ := h₁
            dsimp only
            rw [wp_op_bind, wp_attempt, userVersionSet_eq]
            apply wp_mono (hin₁.query _)
            intro r σ₂ h₂
            cases r with
            | error e => exact hgive h₂
            | ok y =>
                obtain ⟨d₂, hin₂, hd₂⟩ := h₂
                apply wp_mono (ih hin₂ (current + 1))
                intro r σ₃ h₃
                cases r with
                | error e => exact h₃
                | ok z =>
                    obtain ⟨d₃, hin₃, hd₃⟩ := h₃
                    refine ⟨d₃, hin₃, ?_⟩
                    unfold upgrade
                    rw [hstep]
                    refine Query.denote_bind_ok.mpr ⟨(), d₁, hd₁, ?_⟩
                    refine Query.denote_bind_ok.mpr ⟨(), d₂, ?_, hd₃⟩
                    rw [Query.denote_one] at hd₂ ⊢
                    exact hd₂

/-! ## The call -/

/-- The reading of the version. -/
theorem wp_userVersionGet (hc : σ.conn.txn = none) :
    wp C (userVersionGet (P := P)) (fun r σ' => C.rely σ.file σ'.file ∧ σ'.conn.txn = none ∧
      σ'.wrapper = σ.wrapper ∧ match r with
        | .ok current => ∃ file, C.rely σ.file file ∧ C.rely file σ'.file ∧
            file.userVersion = (current : ℤ)
        | .error _ => True) σ := by
  unfold userVersionGet
  rw [wp_op_bind]
  apply wp_call
  · intro file e hm _
    exact ⟨hm.rely, hc, rfl, trivial⟩
  · intro file e hm _
    exact ⟨hm.rely, rfl, rfl, trivial⟩
  · intro file free hm _
    simp only [perform, performStmt, hc, dialect, Dialect.language, Sql.writes, Bool.false_and,
      Bool.false_eq_true, if_false, Sql.eval, Except.mapError]
    refine ⟨C.guar_refl _, ?_⟩
    by_cases hneg : file.userVersion < 0
    · rw [if_pos hneg]
      exact ⟨hm.rely, hc, rfl, trivial⟩
    rw [if_neg hneg]
    by_cases hbig : 4294967295 < file.userVersion
    · rw [if_pos hbig]
      exact ⟨hm.rely, hc, rfl, trivial⟩
    rw [if_neg hbig]
    exact ⟨hm.rely, hc, rfl, file, hm.rely, C.rely_refl _, by omega⟩

/-- How a call may end that has read the version `current`. -/
def Migrated (C : MigrationContract P) (migrations : List (Step P)) (target : ℕ) (allocates : Bool)
    (current : ℕ) (σ : Session P) (r : Except Failure Unit) (σ' : Session P) : Prop :=
  match r with
  | .error _ => GivenUp C σ.file σ'
  | .ok _ => σ'.conn.txn = none ∧ ((current = target ∧ σ'.file = σ.file) ∨
      ∃ file d', current < target ∧ C.rely σ.file file ∧
        C.allows { σ with file := file } (.begin true) .none ∧
        σ.wrapper.transactionActive = false ∧ allocates = true ∧
        (upgrade migrations (target - current) current).denote file = .ok ((), d') ∧
        C.rely d' σ'.file)

theorem Committed.undone {r : Except Failure Unit} (h : Committed C id σ d r σ') :
    (σ'.conn.txn = none ∨ σ'.wrapper.active id = true) ∧ match r with
      | .ok _ => σ'.conn.txn = none ∧ σ'.file = d
      | .error _ => σ'.file = σ.file := by
  cases h with
  | done hc hf ha => exact ⟨.inl hc, hc, hf⟩
  | ended hc hf => exact ⟨.inl hc, hf⟩
  | stayed hc hf ha => exact ⟨.inr ha, hf⟩

theorem wp_migrateFrom {migrations : List (Step P)} {target : ℕ} {allocates : Bool} {current : ℕ}
    (hc : σ.conn.txn = none)
    (hg : ∀ file d', C.allows { σ with file := file } (.begin true) .none → current < target →
      (upgrade migrations (target - current) current).denote file = .ok ((), d') →
      C.guar file d') :
    wp C (migrateFrom migrations target allocates current)
      (Migrated C migrations target allocates current σ) σ := by
  unfold migrateFrom
  by_cases heq : current = target
  · rw [if_pos heq]
    exact ⟨hc, .inl ⟨heq, rfl⟩⟩
  rw [if_neg heq]
  by_cases hlt : target < current
  · rw [if_pos hlt]
    exact ⟨C.rely_refl _, .inl hc⟩
  have hless : current < target := by omega
  rw [if_neg hlt, wp_op_bind]
  apply wp_mono (wp_begin_immediate hc allocates)
  intro r σ₁ h₁
  cases r with
  | error e => exact h₁
  | ok id =>
      obtain ⟨hrely, hbegin, hconn, hhandles, hactive, halloc⟩ := h₁
      have hin : Inside id σ₁.file σ₁.file σ₁ := ⟨⟨_, by rw [hconn]; rfl, rfl⟩, hhandles, rfl⟩
      dsimp only
      rw [wp_op_bind]
      apply wp_mono (hin.runSteps (target - current) current)
      intro r σ₂ h₂
      cases r with
      | error e => exact ⟨C.rely_trans hrely h₂.1, h₂.2⟩
      | ok x =>
          obtain ⟨d', hin₂, hd⟩ := h₂
          obtain ⟨t, ht, ha⟩ := hin₂.txn
          have hguar := hin₂.file ▸ hg _ _ hbegin hless hd
          dsimp only
          rw [wp_op_bind, wp_attempt]
          apply wp_mono (Runtime.wp_commit ht ha hin₂.active hguar)
          intro r σ₃ h₃
          obtain ⟨hopen, hresult⟩ := Committed.undone h₃
          dsimp only
          rw [wp_op_bind]
          apply wp_mono (Runtime.wp_destroy id)
          rintro _ σ₄ ⟨rfl, h₄⟩
          cases r with
          | error e =>
              have hback : C.rely σ.file σ₃.file := by
                rw [hresult, hin₂.file]
                exact hrely
              exact Undone.givenUp h₄ hback (hopen.imp_right .inl)
          | ok z =>
              have hnone : σ₄.conn.txn = none := by
                rcases h₄.txn with hn | ⟨he, -⟩
                · exact hn
                · exact he ▸ hresult.1
              exact ⟨hnone, .inr ⟨σ₁.file, d', hless, hrely, hbegin, hactive, halloc, hd,
                hresult.2 ▸ h₄.file⟩⟩

theorem wp_migrate {migrations : List (Step P)} {target : ℕ} {allocates : Bool}
    (hc : σ.conn.txn = none)
    (hg : ∀ current file d', current < target →
      (upgrade migrations (target - current) current).denote file = .ok ((), d') →
      C.guar file d') :
    wp C (migrate migrations target allocates) (fun r σ' => match r with
      | .error _ => GivenUp C σ.file σ'
      | .ok _ => ∃ (current : ℕ) (seen : Content P) (σ₁ : Session P), C.rely σ.file seen ∧ seen.userVersion = (current : ℤ) ∧
          C.rely seen σ₁.file ∧ σ₁.wrapper = σ.wrapper ∧
          Migrated C migrations target allocates current σ₁ (.ok ()) σ') σ := by
  unfold migrate
  rw [wp_op_bind]
  apply wp_mono (wp_userVersionGet hc)
  rintro r σ₁ ⟨hrely, hc₁, hw₁, h₁⟩
  cases r with
  | error e => exact ⟨hrely, .inl hc₁⟩
  | ok current =>
      obtain ⟨seen, hr, hr', hv⟩ := h₁
      apply wp_mono (wp_migrateFrom hc₁ fun file d' _ hlt hd => hg current file d' hlt hd)
      intro r σ₂ h₂
      cases r with
      | error e => exact ⟨C.rely_trans hrely h₂.1, h₂.2⟩
      | ok x => exact ⟨current, seen, σ₁, hr, hv, hr', hw₁, h₂⟩

/-! ## Exact and atomic -/

/-- What a call must come to when nobody else is at the database. -/
def Exact (migrations : List (Step P)) (target : ℕ) (σ : Session P) (r : Except Failure Unit)
    (σ' : Session P) : Prop :=
  σ'.conn.txn = none ∧ match r with
    | .ok _ => σ'.file.userVersion = (target : ℤ) ∧
        (σ'.file = σ.file ∨ Upgrades migrations target σ.file σ'.file)
    | .error _ => σ'.file = σ.file

/-- A callback leaves the record of steps alone. -/
theorem statements_steps {F α : Type} {q : Query P.language F α} {d d' : Content P} {x : α}
    (h : (statements q).denote d = .ok (x, d')) : d'.steps = d.steps := by
  induction q generalizing d with
  | ret a =>
      cases h
      rfl
  | fail e => cases h
  | stmt g s k ih =>
      simp only [statements, Query.denote] at h
      cases he : P.eval s (d.userVersion, d.data) with
      | error e =>
          simp only [Sql.eval, he] at h
          cases h
      | ok p =>
          obtain ⟨r, version, data⟩ := p
          simp only [dialect, Dialect.language, Sql.eval, he] at h
          exact ih r (d := ⟨version, data, d.steps⟩) h

/-- The versions set are exactly those of the steps, and the last of them is what is
stored. -/
theorem upgrade_steps {migrations : List (Step P)} {remaining current : ℕ} {d d' : Content P}
    (h : (upgrade migrations remaining current).denote d = .ok ((), d')) :
    d'.steps = d.steps ++ List.range' (current + 1) remaining ∧
      (remaining ≠ 0 → d'.userVersion = pragmaInteger (current + remaining)) := by
  induction remaining generalizing current d with
  | zero =>
      cases h
      exact ⟨by simp, fun hn => (hn rfl).elim⟩
  | succ remaining ih =>
      unfold upgrade at h
      cases hstep : findStep migrations current with
      | none =>
          rw [hstep] at h
          cases h
      | some callback =>
          rw [hstep] at h
          obtain ⟨_, d₁, h₁, h⟩ := Query.denote_bind_ok.mp h
          obtain ⟨_, d₂, h₂, h⟩ := Query.denote_bind_ok.mp h
          rw [Query.denote_one] at h₂
          cases h₂
          obtain ⟨hs, hv⟩ := ih h
          have hkept := statements_steps h₁
          refine ⟨?_, fun _ => ?_⟩
          · rw [hs, hkept, List.append_assoc]
            rfl
          · cases remaining with
            | zero =>
                cases h
                rfl
            | succ remaining =>
                rw [hv (by omega)]
                congr 1
                omega

/-! ### The run without faults -/

theorem run_userVersionGet {current : ℕ} (hc : σ.conn.txn = none)
    (hv : σ.file.userVersion = (current : ℤ)) (hmax : current ≤ 4294967295) :
    (userVersionGet (P := P)).run [] σ = (.ok current, σ) := by
  have hp : performStmt true (L := (dialect P).language) Sql.userVersion σ.file σ.conn =
      ⟨σ.file, σ.conn, .ok σ.file.userVersion⟩ := by
    simp [performStmt, hc, dialect, Dialect.language, Sql.writes, Sql.eval]
  have hread : (execSql (D := dialect P) .migration (.stmt Sql.userVersion)).run [] σ =
      (.ok σ.file.userVersion, σ) := by
    simp only [execSql, Op.call, Prog.run, List.headD_nil, Transactional.exec, perform, hp]
  have hneg : ¬ (current : ℤ) < 0 := by omega
  have hbig : ¬ 4294967295 < (current : ℤ) := by omega
  unfold userVersionGet
  rw [Op.run_bind hread, hv, if_neg hneg, if_neg hbig]
  rfl

theorem run_begin (hc : σ.conn.txn = none) (hact : σ.wrapper.transactionActive = false) :
    ∃ id σ', (begin (D := dialect P) 1 true).run [] σ = (.ok id, σ') ∧
      Inside id σ.file σ.file σ' := by
  have hexec : (execSql (D := dialect P) .transaction (.begin true)).run [] σ =
      (.ok σ.conn.opened, { σ with conn := σ.conn.openTxn (.writing σ.file) }) := by
    simp only [execSql, Op.call, Prog.run, List.headD_nil, Transactional.exec, perform,
      performBegin, hc, Bool.not_true, Bool.false_eq_true, if_false, if_true]
  refine ⟨σ.wrapper.transactions.length, { σ with
    conn := σ.conn.openTxn (.writing σ.file)
    wrapper := { σ.wrapper with
      transactionActive := true
      transactions := σ.wrapper.transactions ++ [⟨true, false, σ.conn.opened⟩]
      activeTransaction := some σ.wrapper.transactions.length } }, ?_, ?_⟩
  · unfold begin
    rw [Op.run_get_bind, if_neg (by simp [hact])]
    simp only [beginSql]
    rw [Op.run_bind hexec]
    rfl
  · exact ⟨⟨_, rfl, rfl⟩, handles_new _ _, rfl⟩

theorem Inside.run_query (h : Inside id f d σ) {F α : Type} {q : Query (dialect P).language F α}
    {x : α} {d' : Content P} (hd : q.denote d = .ok (x, d')) :
    ∃ σ', (q.toOp Database).run [] σ = (.ok x, σ') ∧ Inside id f d' σ' := by
  obtain ⟨t, hc, ha⟩ := h.txn
  refine ⟨{ σ with conn := σ.conn.withAccess t (.writing d') }, Query.run_toOp hc ha hd, ?_⟩
  refine h.withAccess (t := t) ?_ ?_ ?_
  · rfl
  · exact h.file
  · rfl

theorem Inside.run_steps {migrations : List (Step P)} (h : Inside id f d σ)
    {remaining current : ℕ} {d' : Content P}
    (hd : (upgrade migrations remaining current).denote d = .ok ((), d')) :
    ∃ σ', (Migration.runSteps migrations id remaining current).run [] σ = (.ok (), σ') ∧
      Inside id f d' σ' := by
  induction remaining generalizing current d σ with
  | zero =>
      cases hd
      exact ⟨σ, rfl, h⟩
  | succ remaining ih =>
      unfold upgrade at hd
      unfold Migration.runSteps
      cases hstep : findStep migrations current with
      | none =>
          rw [hstep] at hd
          cases hd
      | some callback =>
          rw [hstep] at hd
          obtain ⟨_, d₁, h₁, hd⟩ := Query.denote_bind_ok.mp hd
          obtain ⟨_, d₂, h₂, hd⟩ := Query.denote_bind_ok.mp hd
          obtain ⟨σ₁, hrun₁, hin₁⟩ := h.run_query h₁
          have hcall : (Migration.runCallback callback).run [] σ = (.ok (.ok ()),
              { σ₁ with wrapper := σ₁.wrapper.sync σ₁.conn.autocommit }) := by
            unfold Migration.runCallback
            rw [Op.run_bind (Op.run_observe hrun₁)]
            rfl
          rw [Query.denote_one] at h₂
          have hset := (Query.denote_one (L := (dialect P).language) (sqliteFailure .migration)
            (Sql.setUserVersion (current + 1)) d₁).mpr h₂
          obtain ⟨σ₂, hrun₂, hin₂⟩ := hin₁.sync.run_query hset
          rw [← userVersionSet_eq] at hrun₂
          obtain ⟨σ₃, hrun₃, hin₃⟩ := ih hin₂ hd
          refine ⟨σ₃, ?_, hin₃⟩
          dsimp only
          rw [Op.run_bind hcall]
          dsimp only
          rw [Op.run_bind (Op.run_attempt hrun₂)]
          exact hrun₃

theorem run_commit (h : Inside id f d σ) : ∃ σ', (finishTransaction (D := dialect P) id true).run [] σ =
    (.ok (), σ') ∧ σ'.file = d ∧ σ'.wrapper.active id = false := by
  obtain ⟨t, hc, ha⟩ := h.txn
  have hexec : (execSql (D := dialect P) .transaction .commit).run [] σ =
      (.ok (), { σ with file := d, conn := σ.conn.abort }) := by
    simp only [execSql, Op.call, Prog.run, List.headD_nil, Transactional.exec, perform,
      performCommit, hc, ha, Access.written, Option.getD_some]
  refine ⟨{ σ with
    file := d
    conn := σ.conn.abort
    wrapper := { σ.wrapper.finished id with transactionActive := false } }, ?_, rfl, ?_⟩
  · unfold finishTransaction
    rw [Op.run_get_bind, if_neg (by simp [h.active])]
    rw [if_pos rfl, Op.run_bind (Op.run_attempt hexec)]
    rfl
  · exact active_finished id σ.wrapper false

/-- Without faults the call goes through with every step. -/
theorem run_migrate {migrations : List (Step P)} {target : ℕ} {d' : Content P}
    (hc : σ.conn.txn = none) (hact : σ.wrapper.transactionActive = false)
    (hmax : target ≤ 4294967295) (h : Upgrades migrations target σ.file d') :
    ∃ σ', (migrate migrations target true).run [] σ = (.ok (), σ') ∧ σ'.file = d' := by
  obtain ⟨current, hv, hlt, hd⟩ := h
  obtain ⟨id, σ₁, hrun₁, hin₁⟩ := run_begin hc hact
  obtain ⟨σ₂, hrun₂, hin₂⟩ := hin₁.run_steps hd
  obtain ⟨σ₃, hrun₃, hf, hinactive⟩ := run_commit hin₂
  have hdestroy : ∃ σ₄, (destroy (D := dialect P) id).run [] σ₃ = (.ok (), σ₄) ∧
      σ₄.file = σ₃.file := by
    unfold destroy
    rw [Op.run_get_bind, if_neg (by simp [hinactive])]
    exact ⟨_, rfl, rfl⟩
  obtain ⟨σ₄, hrun₄, hf₄⟩ := hdestroy
  refine ⟨σ₄, ?_, hf₄.trans hf⟩
  unfold migrate
  rw [Op.run_bind (run_userVersionGet hc hv (by omega))]
  unfold migrateFrom
  rw [if_neg (by omega), if_neg (by omega), Op.run_bind hrun₁, Op.run_bind hrun₂,
    Op.run_bind (Op.run_attempt hrun₃), Op.run_bind hrun₄]
  rfl

/-! ### When the call is exact -/

theorem Upgrades.userVersion {migrations : List (Step P)} {target : ℕ}
    (h : Upgrades migrations target d f) : f.userVersion = pragmaInteger target := by
  obtain ⟨current, -, hlt, hd⟩ := h
  have hstored := (upgrade_steps hd).2 (by omega)
  rw [show current + (target - current) = target by omega] at hstored
  exact hstored

/-- How a call ends on a connection without a transaction that is alone at its database. -/
theorem migrate_alone {migrations : List (Step P)} {target : ℕ} {allocates : Bool}
    {allows : Session P → Cmd (dialect P).language → Fault ℤ → Prop} {r : Except Failure Unit}
    (hc : σ.conn.txn = none) (hroll : ∀ σ e, ¬ allows σ .rollback (.fail e))
    (hr : Runs (alone allows) (migrate migrations target allocates) σ r σ') :
    σ'.conn.txn = none ∧ match r with
      | .error _ => σ'.file = σ.file
      | .ok _ => (σ.file.userVersion = target ∧ σ'.file = σ.file) ∨
          (σ.wrapper.transactionActive = false ∧ allocates = true ∧
            Upgrades migrations target σ.file σ'.file) := by
  have hpost := wp_sound hr (wp_migrate hc fun _ _ _ _ _ => trivial)
  cases r with
  | error e =>
      obtain ⟨hf, hn | ⟨σ₁, e', ha⟩⟩ := hpost
      · exact ⟨hn, hf.symm⟩
      · exact (hroll _ _ ha).elim
  | ok x =>
      obtain ⟨current, seen, σ₁, rfl, hv, hf₁, hw₁, hn, h⟩ := hpost
      have hf₁ : σ.file = σ₁.file := hf₁
      rcases h with ⟨rfl, hf⟩ | ⟨file, d', hlt, hf, -, hact, halloc, hd, hf'⟩
      · exact ⟨hn, .inl ⟨hv, by rw [hf, hf₁]⟩⟩
      · have hf : σ₁.file = file := hf
        have hf' : d' = σ'.file := hf'
        subst hf' hf
        exact ⟨hn, .inr ⟨hw₁ ▸ hact, halloc, current, hv, hlt, hf₁ ▸ hd⟩⟩

/-- A call on a connection without a transaction, alone at a database whose `ROLLBACK`
is not refused, is exact and atomic, whatever else fails, unless its steps all go
through to a target that is no signed 32-bit integer. -/
theorem migrate_exact_iff (migrations : List (Step P)) (target : ℕ) (allocates : Bool)
    (allows : Session P → Cmd (dialect P).language → Fault ℤ → Prop) (σ : Session P)
    (hmax : target ≤ 4294967295) (hc : σ.conn.txn = none) (hnone : ∀ σ c, allows σ c .none)
    (hroll : ∀ σ e, ¬ allows σ .rollback (.fail e)) :
    (∀ r σ', Runs (alone allows) (migrate migrations target allocates) σ r σ' →
      Exact migrations target σ r σ') ↔
    (target ≤ 2147483647 ∨ ¬ (σ.wrapper.transactionActive = false ∧ allocates = true ∧
      ∃ d', Upgrades migrations target σ.file d')) := by
  constructor
  · intro h
    by_contra hcond
    simp only [not_or, not_not] at hcond
    obtain ⟨hbig, hact, rfl, d', hup⟩ := hcond
    obtain ⟨σ', hrun, hf⟩ := run_migrate hc hact hmax hup
    have hruns := runs_run (C := alone allows)
      ((migrate migrations target true).admits_nil hnone σ)
    rw [hrun] at hruns
    obtain ⟨-, hversion, -⟩ := h _ _ hruns
    obtain ⟨current, -, hlt, -⟩ := id hup
    rw [hf, hup.userVersion, pragmaInteger, if_neg hbig] at hversion
    omega
  · intro hcond r σ' hr
    obtain ⟨hn, h⟩ := migrate_alone hc hroll hr
    cases r with
    | error e => exact ⟨hn, h⟩
    | ok x =>
        rcases h with ⟨hv, hf⟩ | ⟨hact, halloc, hup⟩
        · exact ⟨hn, by rw [hf, hv], .inl hf⟩
        · have hsmall : target ≤ 2147483647 := by
            rcases hcond with h | h
            · exact h
            · exact (h ⟨hact, halloc, _, hup⟩).elim
          have hstored := hup.userVersion
          rw [pragmaInteger, if_pos hsmall] at hstored
          exact ⟨hn, hstored, .inr hup⟩

/-- Any fault but a refused `ROLLBACK`. -/
def rollsBack (_ : Session P) (c : Cmd (dialect P).language) (fault : Fault ℤ) : Prop :=
  match c, fault with
  | .rollback, .fail _ => False
  | _, _ => True

/-- A product with one table, whose only statement adds a row. -/
abbrev rowsOnly : Product where
  Stmt := ℕ
  Row := fun _ => Unit
  Data := List ℕ
  writes := fun _ => true
  eval := fun n d => .ok ((), (d.1, d.2 ++ [n]))
  eval_reads := fun hw => nomatch hw
  decData := inferInstance

/-- The step between two versions, which adds `row`. -/
def addRow (fromVersion row : ℕ) : Step rowsOnly :=
  ⟨fromVersion, fromVersion + 1, some fun _ _ => .stmt (fun _ => .threw) row .ret⟩

def atVersion (version : ℤ) : Session rowsOnly :=
  ⟨⟨version, [], []⟩, Conn.closed, Database.opened 0⟩

/-- Two steps from a new database. -/
theorem migrate_exact_two_steps :
    ∃ σ', Runs (alone rollsBack) (migrate [addRow 1 20, addRow 0 10] 2 true) (atVersion 0)
        (.ok ()) σ' ∧
      Exact [addRow 1 20, addRow 0 10] 2 (atVersion 0) (.ok ()) σ' := by
  have hnone : ∀ σ c, (alone (L := (dialect rowsOnly).language) rollsBack).allows σ c .none :=
    fun _ c => by cases c <;> trivial
  have hruns := runs_run ((migrate [addRow 1 20, addRow 0 10] 2 true).admits_nil hnone
    (atVersion 0))
  have hok : ((migrate [addRow 1 20, addRow 0 10] 2 true).run [] (atVersion 0)).1 = .ok () := by
    decide +kernel
  rw [hok] at hruns
  exact ⟨_, hruns, (migrate_exact_iff _ 2 true rollsBack (atVersion 0) (by decide) rfl
    (fun _ c => by cases c <;> trivial) (fun _ _ h => h)).mpr (.inl (by decide)) _ _ hruns⟩

/-- From the largest version SQLite can store to the next: the call succeeds and the
version is zero. -/
theorem migrate_wraps_version :
    ∃ σ', Runs (alone rollsBack) (migrate [addRow 2147483647 10] 2147483648 true)
        (atVersion 2147483647) (.ok ()) σ' ∧
      σ'.file.userVersion = 0 ∧
      ¬ Exact [addRow 2147483647 10] 2147483648 (atVersion 2147483647) (.ok ()) σ' := by
  have hnone : ∀ σ c, (alone (L := (dialect rowsOnly).language) rollsBack).allows σ c .none :=
    fun _ c => by cases c <;> trivial
  have hruns := runs_run ((migrate [addRow 2147483647 10] 2147483648 true).admits_nil hnone
    (atVersion 2147483647))
  have hok : ((migrate [addRow 2147483647 10] 2147483648 true).run [] (atVersion 2147483647)).1 =
      .ok () := by decide +kernel
  rw [hok] at hruns
  refine ⟨_, hruns, by decide +kernel, ?_⟩
  rintro ⟨-, hversion, -⟩
  exact absurd hversion (by decide +kernel)

end Esdb.Migration
