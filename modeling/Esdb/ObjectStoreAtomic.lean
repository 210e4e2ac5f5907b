import Esdb.ObjectStoreLives
import Esdb.TransactionalHistory

/-!
# Failed operations of the store

Each mutator of the store is several statements, in a scope that it opens and, when
one of them fails, takes back. What a failed call leaves depends on which commands
failed: as long as nothing fails that was to take something back, the content and
what is open on the connection are as before, up to the creation of the schema.

Registering a name is the exception. It is two statements outside any scope, so the
name stays registered when only the second of them fails.
-/
namespace Esdb.ObjectStore

open Transactional Esdb.Runtime

variable {α β : Type} {σ σ₁ σ' : Session} {h h' : List (Event dialect.language)}

/-- One connection by itself, where any command may fail and leave its transaction. -/
abbrev solo : StoreContract := alone fun _ _ fault => Plain fault

theorem hosts_solo : Hosts solo := ⟨fun _ _ he hd => he ▸ hd, fun _ _ _ _ => trivial⟩

theorem behaves_solo {p : Operation α} {post : Except Failure α → Session → Prop}
    (h : wp solo p post σ) : Behaves Plain p (fun r _ σ' => post r σ') σ :=
  behaves_of_wp trivial (fun _ _ _ hf => hf) h

/-- A command fails and changes nothing, or the engine performs it. -/
theorem behaves_execSql {phase : Phase} {c : Cmd dialect.language}
    {post : Except Failure c.Row → List (Event dialect.language) → Session → Prop}
    (hfail : ∀ e, post (.error (sqliteFailure phase (.failed e))) [(c, .fail e)] σ)
    (hnone : post ((perform true σ.file σ.conn c).reply.mapError (sqliteFailure phase))
      [(c, .none)] { σ with
        file := (perform true σ.file σ.conn c).file
        conn := (perform true σ.file σ.conn c).conn }) :
    Behaves Plain (execSql (D := dialect) phase c) post σ := by
  refine behaves_call trivial fun fault hf => ?_
  cases fault with
  | none => exact hnone
  | fail e => exact hfail e
  | rollback e => exact hf.elim

/-! ## Nesting of a scope -/

/-- What is open is as before, or something failed to be taken back and what is open
is not. -/
def Nested (σ : Session) (h : List (Event dialect.language)) (σ' : Session) : Prop :=
  (σ'.conn.nest = σ.conn.nest ∧ Undone h) ∨ (σ'.conn.nest ≠ σ.conn.nest ∧ Stuck h)

theorem behaves_sync {post : Except Failure Unit → List (Event dialect.language) → Session → Prop}
    (hpost : ∀ db, post (.ok ()) [] { σ with wrapper := db }) :
    Behaves Plain syncInternalTransactionState post σ := fun _ _ => hpost _

/-- `ROLLBACK` of the scope's own transaction. -/
theorem behaves_rollback_owned (hn : σ.conn.nest ≠ none) :
    Behaves Plain (rollbackStoreMutation true) (fun r h σ' => r = .ok () ∧
      ((σ'.conn.nest = none ∧ Undone h) ∨ (σ'.conn.nest ≠ none ∧ Stuck h))) σ := by
  unfold rollbackStoreMutation
  rw [if_pos rfl]
  apply behaves_op_bind
  apply behaves_attempt
  apply behaves_execSql
  · intro e
    exact behaves_sync fun db => ⟨rfl, .inr ⟨hn, fun _ => rfl⟩⟩
  · refine behaves_sync fun db => ⟨rfl, .inl ⟨?_, fun _ => rfl⟩⟩
    simp only [perform, performRollback]
    split
    · next ht => exact Conn.nest_eq_none.mpr ht
    · rfl

/-- `ROLLBACK TO` and `RELEASE` of the scope's savepoint. -/
theorem behaves_rollback_savepoint {n : ℕ} {i : Bool} {sp : StoreSavepoint}
    {below : List StoreSavepoint} (hn : σ.conn.nest = some (n, i, sp :: below))
    (hname : sp.name = mutationName) (hi : i = true → below ≠ []) :
    Behaves Plain (rollbackStoreMutation false) (fun r h σ' => r = .ok () ∧
      ((σ'.conn.nest = some (n, i, below) ∧ Undone h) ∨
        (σ'.conn.nest = some (n, i, sp :: below) ∧ Stuck h))) σ := by
  unfold rollbackStoreMutation
  rw [if_neg (by simp)]
  apply behaves_op_bind
  apply behaves_attempt
  apply behaves_op_bind
  apply behaves_execSql
  · intro e
    exact behaves_pure ⟨rfl, .inr ⟨hn, fun _ => rfl⟩⟩
  · obtain ⟨hto, hok⟩ := performRollbackTo_nest hn σ.file
    rw [hname] at hto hok
    simp only [perform, hok, Except.mapError]
    apply behaves_execSql
    · intro e
      exact behaves_pure ⟨rfl, .inr ⟨hto.trans hn, fun _ => rfl⟩⟩
    · obtain ⟨hrel, -⟩ := performRelease_nest (hto.trans hn) hi
        (performRollbackTo mutationName σ.file σ.conn).file
      rw [hname] at hrel
      simp only [perform]
      exact behaves_pure ⟨rfl, .inl ⟨hrel, fun _ => rfl⟩⟩

/-- The statements of a scope's body. -/
theorem behaves_body (body : Query α) (σ : Session) :
    Behaves Plain (ask body) (fun _ h σ' => σ'.conn.nest = σ.conn.nest ∧
      ∀ ev ∈ h, ∃ s, True ∧ ev.1 = .stmt s) σ :=
  (behaves_nest body σ).and (behaves_issues body.issues_all σ)

theorem behaves_owned_scope (body : Query α) (ht : σ.conn.txn = none) :
    Behaves Plain (withStoreMutation body) (fun r h σ' => Nested σ h σ' ∧
      ∀ x, r = .ok x → Undone h) σ := by
  have hnone : σ.conn.nest = none := Conn.nest_eq_none.mpr ht
  have hbegin : ∀ previous, undoes previous (.begin true : Cmd dialect.language) = false :=
    fun _ => rfl
  have hcommit : ∀ previous, undoes previous (.commit : Cmd dialect.language) = false := fun _ => rfl
  have hstart : ∀ fault, Undone [((.begin true : Cmd dialect.language), fault)] := fun fault =>
    undone_cons hbegin fault undone_nil
  unfold withStoreMutation beginStoreMutation
  apply behaves_op_bind
  apply behaves_op_bind
  apply behaves_autocommit
  simp only [Conn.autocommit, ht, Option.isNone_none, if_true]
  apply behaves_op_bind
  apply behaves_execSql
  · intro e
    exact ⟨.inl ⟨rfl, hstart _⟩, fun _ he => by cases he⟩
  simp only [perform, performBegin, ht, Bool.not_true, Bool.false_eq_true, if_false, if_true,
    Except.mapError]
  apply behaves_op_bind
  apply behaves_sync
  intro db
  apply behaves_pure
  simp only [List.nil_append, List.append_nil]
  apply behaves_op_bind
  apply behaves_attempt
  refine (behaves_body body _).mono fun r hb σ₁ h => ?_
  obtain ⟨hn, hs⟩ := h
  have hopen : σ₁.conn.nest ≠ none := by
    rw [hn]
    simp [Conn.nest, Conn.openTxn]
  have hbody := undone_of_statements hs
  have hundo : ∀ {f : Fault ℤ} {hc hu : List (Event dialect.language)} {σ₂ : Session}, Undone hc →
      (σ₂.conn.nest = none ∧ Undone hu) ∨ (σ₂.conn.nest ≠ none ∧ Stuck hu) →
      Nested σ ((.begin true, f) :: (hb ++ (hc ++ hu))) σ₂ := by
    intro f hc hu σ₂ hdone hfate
    rcases hfate with ⟨hn₂, hu⟩ | ⟨hn₂, hu⟩
    · exact .inl ⟨hn₂.trans hnone.symm, undone_cons hbegin f (hbody.append (hdone.append hu))⟩
    · refine .inr ⟨hnone ▸ hn₂, stuck_cons hbegin f ?_⟩
      exact hbody.append_stuck (hdone.append_stuck hu)
  cases r with
  | error e =>
      apply behaves_op_bind
      refine (behaves_rollback_owned hopen).mono fun r hu σ₂ h => ?_
      obtain ⟨rfl, hfate⟩ := h
      apply behaves_fail
      refine ⟨?_, fun _ he => by cases he⟩
      simpa using hundo undone_nil hfate
  | ok x =>
      unfold commitStoreMutation
      apply behaves_op_bind
      apply behaves_op_bind
      apply behaves_attempt
      simp only [if_true]
      apply behaves_execSql
      · intro e
        apply behaves_op_bind
        refine (behaves_rollback_owned hopen).mono fun r hu σ₂ h => ?_
        obtain ⟨rfl, hfate⟩ := h
        apply behaves_fail
        refine ⟨?_, fun _ he => by cases he⟩
        simpa using hundo (undone_cons hcommit (.fail e) undone_nil) hfate
      · obtain ⟨t, ht₁⟩ : ∃ t, σ₁.conn.txn = some t := by
          rw [← Option.isSome_iff_exists, ← Option.ne_none_iff_isSome]
          exact mt Conn.nest_eq_none.mpr hopen
        simp only [perform, performCommit, ht₁, Except.mapError]
        apply behaves_sync
        intro db
        apply behaves_pure
        have hdone : Undone ((.begin true, .none) :: (hb ++ [(.commit, .none)]) :
            List (Event dialect.language)) :=
          undone_cons hbegin _ (hbody.append (undone_cons hcommit _ undone_nil))
        refine ⟨.inl ⟨hnone.symm ▸ rfl, ?_⟩, fun _ _ => ?_⟩
        · simpa using hdone
        · simpa using hdone

/-- Where a scope in a caller's transaction ends, given what its undo came to. -/
theorem nested_of_undo {n : ℕ} {i : Bool} {sp : StoreSavepoint} {below : List StoreSavepoint}
    (hn : σ.conn.nest = some (n, i, below)) {hb hu : List (Event dialect.language)}
    (hdone : Undone hb) (hfate : (σ'.conn.nest = some (n, i, below) ∧ Undone hu) ∨
      (σ'.conn.nest = some (n, i, sp :: below) ∧ Stuck hu)) : Nested σ (hb ++ hu) σ' := by
  rcases hfate with ⟨hn', hu⟩ | ⟨hn', hu⟩
  · exact .inl ⟨hn'.trans hn.symm, hdone.append hu⟩
  · refine .inr ⟨?_, hdone.append_stuck hu⟩
    rw [hn', hn]
    simp

theorem behaves_nested_scope (body : Query α) {t : StoreTxn} (ht : σ.conn.txn = some t)
    (hroot : σ.conn.Rooted) :
    Behaves Plain (withStoreMutation body) (fun r h σ' => Nested σ h σ' ∧
      ∀ x, r = .ok x → Undone h) σ := by
  have hnest : σ.conn.nest = some (t.serial, t.implicit, t.savepoints) := by
    unfold Conn.nest
    rw [ht]
    rfl
  have hsave : ∀ previous, undoes previous (.savepoint mutationName : Cmd dialect.language) = false :=
    fun _ => rfl
  unfold withStoreMutation beginStoreMutation
  apply behaves_op_bind
  apply behaves_op_bind
  apply behaves_autocommit
  simp only [Conn.autocommit, ht, Option.isNone_some, Bool.false_eq_true, if_false]
  apply behaves_op_bind
  apply behaves_execSql
  · intro e
    exact ⟨.inl ⟨rfl, undone_cons hsave _ undone_nil⟩, fun _ he => by cases he⟩
  simp only [perform, performSavepoint_txn ht, Except.mapError]
  apply behaves_pure
  simp only [List.nil_append, List.append_nil]
  apply behaves_op_bind
  apply behaves_attempt
  refine (behaves_body body _).mono fun r hb σ₁ h => ?_
  obtain ⟨hn, hs⟩ := h
  have hopen : σ₁.conn.nest = some (t.serial, t.implicit,
      ⟨σ.conn.opened, mutationName, t.access.written⟩ :: t.savepoints) := by
    rw [hn]
    rfl
  have hinner : t.implicit = true → t.savepoints ≠ [] := hroot t ht
  have hbody : Undone ((.savepoint mutationName, .none) :: hb) :=
    undone_cons hsave _ (undone_of_statements hs)
  have hreleased : ∀ fault, Undone ((.savepoint mutationName, .none) ::
      (hb ++ [(.release mutationName, fault)])) :=
    undone_scope hs mutationName .none
  cases r with
  | error e =>
      apply behaves_op_bind
      refine (behaves_rollback_savepoint hopen rfl hinner).mono fun r hu σ₂ h => ?_
      obtain ⟨rfl, hfate⟩ := h
      apply behaves_fail
      refine ⟨?_, fun _ he => by cases he⟩
      simpa using nested_of_undo hnest hbody hfate
  | ok x =>
      unfold commitStoreMutation
      apply behaves_op_bind
      apply behaves_op_bind
      apply behaves_attempt
      simp only [Bool.false_eq_true, if_false]
      apply behaves_execSql
      · intro e
        apply behaves_op_bind
        refine (behaves_rollback_savepoint hopen rfl hinner).mono fun r hu σ₂ h => ?_
        obtain ⟨rfl, hfate⟩ := h
        apply behaves_fail
        refine ⟨?_, fun _ he => by cases he⟩
        simpa using nested_of_undo hnest (hreleased (.fail e)) hfate
      · obtain ⟨hrel, hok⟩ := performRelease_nest hopen hinner σ₁.file
        simp only [perform, hok, Except.mapError]
        apply behaves_pure
        apply behaves_pure
        refine ⟨.inl ⟨hrel.trans hnest.symm, ?_⟩, fun _ _ => ?_⟩
        · simpa using hreleased .none
        · simpa using hreleased .none

/-- A scope in either mode: what is open afterwards shows whether it was undone. -/
theorem behaves_scope_nested (body : Query α) (hroot : σ.conn.Rooted) :
    Behaves Plain (withStoreMutation body) (fun r h σ' => Nested σ h σ' ∧
      ∀ x, r = .ok x → Undone h) σ := by
  cases ht : σ.conn.txn with
  | none => exact behaves_owned_scope body ht
  | some t => exact behaves_nested_scope body ht hroot

/-! ## What a failed call leaves -/

/-- Content and nesting are as before, up to the creation of the schema. -/
structure Intact (σ σ' : Session) : Prop where
  nest : σ'.conn.nest = σ.conn.nest
  content : σ'.view = σ.view ∨ Mutation.firstUse.Applies σ.view σ'.view
  file : σ.conn.txn.isSome → σ'.file = σ.file

/-- What an operation that is not an `ensure` leaves when it fails. -/
def Fate (σ : Session) (h : List (Event dialect.language)) (σ' : Session) : Prop :=
  (Intact σ σ' ∧ Undone h) ∨ (σ'.conn.nest ≠ σ.conn.nest ∧ Stuck h)

theorem acts_nest {P : Tables → Tables → Prop} (ha : Acts solo P [] σ σ') :
    σ'.conn.nest = σ.conn.nest := by
  unfold Acts at ha
  cases ht : σ.conn.txn with
  | none =>
      simp only [ht] at ha
      rw [Conn.nest_eq_none.mpr ha.2.1, Conn.nest_eq_none.mpr ht]
  | some t =>
      simp only [ht] at ha
      obtain ⟨a, hc, -⟩ := ha
      unfold Conn.nest
      rw [hc, ht]
      rfl

theorem Intact.refl (σ : Session) : Intact σ σ := ⟨rfl, .inl rfl, fun _ => rfl⟩

theorem intact_of_acts {P : Tables → Tables → Prop} (ha : Acts solo P [] σ σ')
    (hp : ∀ d', P σ.view d' → d' = σ.view ∨ Mutation.firstUse.Applies σ.view d') :
    Intact σ σ' :=
  ⟨acts_nest ha, hp _ (acts_alone ha),
    fun hs => (show σ.file = σ'.file from ha.rely_of_txn hs).symm⟩

theorem intact_quiet (ha : Acts solo Eq [] σ σ') : Intact σ σ' :=
  intact_of_acts ha fun _ he => .inl he.symm

theorem intact_firstUse (ha : Acts solo Mutation.firstUse.Applies [] σ σ') : Intact σ σ' :=
  intact_of_acts ha fun _ hd => .inr hd

/-- The tables that first use creates are not created again. -/
theorem firstUse_again {d d₁ d₂ : Tables} (h₁ : Mutation.firstUse.Applies d d₁)
    (h₂ : Mutation.firstUse.Applies d₁ d₂) : d₂ = d₁ := by
  rcases initializeSchema_denote h₂ with ⟨-, he⟩ | ⟨hz, -⟩
  · exact he
  · have := Tables.complete_iff_tableCount.mp (initializeSchema_complete h₁)
    omega

theorem Intact.trans (h₁ : Intact σ σ₁) (h₂ : Intact σ₁ σ') : Intact σ σ' := by
  refine ⟨h₂.nest.trans h₁.nest, ?_, fun hs => ?_⟩
  · rcases h₂.content with he | hd
    · rw [he]
      exact h₁.content
    · rcases h₁.content with he | hd₁
      · exact .inr (he ▸ hd)
      · rw [firstUse_again hd₁ hd]
        exact .inr hd₁
  · have hsome : σ₁.conn.txn.isSome := by
      rw [← Option.ne_none_iff_isSome] at hs ⊢
      exact fun hn => hs (Conn.nest_eq_none.mp (h₁.nest ▸ Conn.nest_eq_none.mpr hn))
    exact (h₂.file hsome).trans (h₁.file hs)

theorem Intact.rooted (hi : Intact σ σ₁) (hroot : σ.conn.Rooted) : σ₁.conn.Rooted := by
  intro t ht himp
  have hn : σ.conn.nest = some (t.serial, t.implicit, t.savepoints) := by
    rw [← hi.nest]
    unfold Conn.nest
    rw [ht]
    rfl
  obtain ⟨t₀, ht₀, -, hi₀, hs₀⟩ := Conn.nest_eq_some hn
  exact hs₀ ▸ hroot t₀ ht₀ (hi₀.trans himp)

theorem not_aborts : ¬ Aborts solo σ σ' := by
  rintro ⟨-, -, σ₀, ⟨conn, c, e, -, -, hallows⟩, -⟩
  exact hallows

theorem acts_nest_above {P : Tables → Tables → Prop} {sp : StoreSavepoint}
    (hs : σ.conn.txn.isSome) (ha : Acts solo P [sp] σ σ') : σ'.conn.nest ≠ σ.conn.nest := by
  obtain ⟨t, ht⟩ := Option.isSome_iff_exists.mp hs
  unfold Acts at ha
  simp only [ht] at ha
  obtain ⟨a, hc, -⟩ := ha
  unfold Conn.nest
  rw [hc, ht]
  simp

/-- A failed scope has been taken back as a whole, or it could not be. -/
theorem fate_of_failed (hf : Failed solo σ σ') (hn : Nested σ h σ') : Fate σ h σ' := by
  rcases hn with ⟨hn, hu⟩ | hn
  · refine .inl ⟨?_, hu⟩
    cases hf with
    | quiet ha => exact intact_quiet ha
    | aborted ha => exact (not_aborts ha).elim
    | zombie ht t d hc =>
        rw [Conn.nest_eq_none.mpr ht, Conn.nest_eq_none, hc] at hn
        cases hn
    | stuck t sp ht hs ha hm => exact absurd hn (acts_nest_above (by simp [ht]) ha)
    | leftover t sp ht hs ha hm => exact absurd hn (acts_nest_above (by simp [ht]) ha)
  · exact .inr hn

theorem Fate.after (hi : Intact σ σ₁) (hu : Undone h) (hf : Fate σ₁ h' σ') :
    Fate σ (h ++ h') σ' := by
  rcases hf with ⟨hi', hu'⟩ | ⟨hn, hs⟩
  · exact .inl ⟨hi.trans hi', hu.append hu'⟩
  · exact .inr ⟨hi.nest ▸ hn, hu.append_stuck hs⟩

/-! ## The schema -/

/-- Statements other than the registration of a name. -/
def NoRegister : Sql → Prop
  | .registerStore _ => False
  | _ => True

theorem issues_statement (s : Sql) (hs : NoRegister s) : (statement s).Issues NoRegister :=
  ⟨hs, fun _ => trivial⟩

theorem issues_inspectStoreTableCount : inspectStoreTableCount.Issues NoRegister := by
  refine (issues_statement .tableCount trivial).bind fun count => ?_
  split_ifs <;> trivial

theorem issues_checkSchemaVersion : checkSchemaVersion.Issues NoRegister := by
  refine (issues_statement .schemaVersion trivial).bind fun row => ?_
  split
  · trivial
  · split_ifs <;> trivial
  · trivial

theorem issues_readStoreRevisionMetadata : readStoreRevisionMetadata.Issues NoRegister := by
  refine (issues_statement .revisionMetadata trivial).bind fun row => ?_
  split
  · trivial
  · split
    · trivial
    · split_ifs <;> trivial
  · trivial

theorem issues_createSchema : createSchema.Issues NoRegister := by
  refine (issues_statement .createMeta trivial).bind fun _ => ?_
  refine (issues_statement .createStores trivial).bind fun _ => ?_
  refine (issues_statement .createRecords trivial).bind fun _ => ?_
  refine (issues_statement .createChanges trivial).bind fun _ => ?_
  refine (issues_statement .createChangesIndex trivial).bind fun _ => ?_
  refine (issues_statement (.insertMeta _ _) trivial).bind fun _ => ?_
  exact issues_statement (.insertMeta _ _) trivial

theorem issues_initializeSchema : initializeSchema.Issues NoRegister := by
  refine issues_inspectStoreTableCount.bind fun count => ?_
  split_ifs
  · trivial
  · exact issues_createSchema
  · trivial

theorem issues_control (c : Cmd dialect.language) (hc : ∀ s, c ≠ .stmt s) :
    Prog.Issues NoRegister (execSql (D := dialect) .objectStore c) :=
  Prog.issues_call fun s hs => absurd hs (hc s)

theorem issues_sync : Prog.Issues NoRegister syncInternalTransactionState :=
  fun _ _ => trivial

theorem issues_beginStoreMutation : Prog.Issues NoRegister beginStoreMutation := by
  refine Prog.Issues.op_bind (fun _ => trivial) fun owns => ?_
  cases owns with
  | true =>
      refine Prog.Issues.op_bind (issues_control (.begin true) fun _ h => nomatch h) fun _ => ?_
      exact Prog.Issues.op_bind issues_sync fun _ => trivial
  | false =>
      refine Prog.Issues.op_bind (issues_control (.savepoint mutationName) fun _ h => nomatch h) ?_
      exact fun _ => trivial

theorem issues_rollbackStoreMutation (owns : Bool) :
    Prog.Issues NoRegister (rollbackStoreMutation owns) := by
  cases owns with
  | true =>
      refine Prog.Issues.op_bind ?_ fun _ => issues_sync
      exact (issues_control .rollback fun _ h => nomatch h).attempt
  | false =>
      refine Prog.Issues.op_bind (Prog.Issues.attempt ?_) fun _ => trivial
      refine Prog.Issues.op_bind (issues_control (.rollbackTo mutationName) fun _ h => nomatch h) ?_
      exact fun _ => issues_control (.release mutationName) fun _ h => nomatch h

theorem issues_commitStoreMutation (owns : Bool) :
    Prog.Issues NoRegister (commitStoreMutation owns) := by
  refine Prog.Issues.op_bind (Prog.Issues.attempt ?_) fun status => ?_
  · cases owns with
    | true => exact issues_control .commit fun _ h => nomatch h
    | false => exact issues_control (.release mutationName) fun _ h => nomatch h
  · cases status with
    | error e => exact (issues_rollbackStoreMutation owns).op_bind fun _ => trivial
    | ok a =>
        cases owns with
        | true => exact issues_sync
        | false => trivial

theorem issues_withStoreMutation {body : Query α} (hb : body.Issues NoRegister) :
    Prog.Issues NoRegister (withStoreMutation body) := by
  refine issues_beginStoreMutation.op_bind fun owns => ?_
  refine hb.toOp.attempt.op_bind fun status => ?_
  cases status with
  | error e => exact (issues_rollbackStoreMutation owns).op_bind fun _ => trivial
  | ok a => exact (issues_commitStoreMutation owns).op_bind fun _ => trivial

theorem issues_ensureObjectStoreSchema : Prog.Issues NoRegister ensureObjectStoreSchema := by
  have hcheck : Prog.Issues NoRegister (do
      ask checkSchemaVersion
      let _ ← ask readStoreRevisionMetadata
      Op.modify fun db => { db with objectStoreSchemaReady := true } : Operation Unit) := by
    refine issues_checkSchemaVersion.toOp.op_bind fun _ => ?_
    exact issues_readStoreRevisionMetadata.toOp.op_bind fun _ _ => trivial
  refine Prog.Issues.op_bind (fun _ => trivial) fun db => ?_
  split
  · trivial
  split
  · trivial
  refine issues_inspectStoreTableCount.toOp.op_bind fun count => ?_
  split
  · trivial
  dsimp only
  split
  · split
    · trivial
    · exact (issues_withStoreMutation issues_initializeSchema).op_bind fun _ => hcheck
  · exact hcheck

/-- What an operation has come to so far without failing. -/
structure Smooth (σ : Session) (h : List (Event dialect.language)) (σ' : Session) : Prop where
  intact : Intact σ σ'
  undone : Undone h

theorem Smooth.trans (h₁ : Smooth σ h σ₁) (h₂ : Smooth σ₁ h' σ') : Smooth σ (h ++ h') σ' :=
  ⟨h₁.intact.trans h₂.intact, h₁.undone.append h₂.undone⟩

theorem Smooth.refl (σ : Session) : Smooth σ [] σ := ⟨.refl σ, undone_nil⟩

theorem Smooth.fate (hs : Smooth σ h σ') : Fate σ h σ' := .inl ⟨hs.intact, hs.undone⟩

theorem Smooth.then_fate (hs : Smooth σ h σ₁) (hf : Fate σ₁ h' σ') : Fate σ (h ++ h') σ' :=
  hf.after hs.intact hs.undone

theorem behaves_read {q : Query α} {s : Sql} (hq : q.Reading s) (σ : Session) :
    Behaves Plain (ask q) (fun _ h σ' => Smooth σ h σ') σ := by
  have hread : Behaves Plain (ask q) (fun _ _ σ' => Intact σ σ') σ := by
    refine behaves_solo (wp_mono (wp_reading hq σ) ?_)
    rintro r σ' ⟨-, h⟩
    cases r with
    | ok x => exact intact_quiet (h.mono fun d d' hd => hd.1)
    | error e =>
        rcases h with h | ⟨h, -⟩
        · exact (not_aborts h).elim
        · exact intact_quiet h
  exact (hread.and (behaves_issues q.issues_all σ)).mono fun _ _ _ h =>
    ⟨h.1, undone_of_statements h.2⟩

/-- A scope that ends well has acted as one; one that fails has been taken back, or
could not be. -/
theorem behaves_scope {body : Query α} (hb : ∀ x, body ≠ .ret x) (hroot : σ.conn.Rooted) :
    Behaves Plain (withStoreMutation body) (fun r h σ' => match r with
      | .ok x => Acts solo (fun d d' => body.denote d = .ok (x, d')) [] σ σ' ∧ Undone h
      | .error _ => Fate σ h σ') σ := by
  have hscoped := behaves_solo (wp_withStoreMutation (C := solo) hb (fun _ _ _ _ => trivial) hroot)
  refine (hscoped.and (behaves_scope_nested body hroot)).mono fun r h σ' ⟨hs, hn, hok⟩ => ?_
  cases r with
  | ok x => exact ⟨hs.2, hok x rfl⟩
  | error e => exact fate_of_failed hs.2 hn

theorem behaves_ready (σ : Session) : Behaves Plain (do
    ask checkSchemaVersion
    let _ ← ask readStoreRevisionMetadata
    Op.modify fun db => { db with objectStoreSchemaReady := true } : Operation Unit)
    (fun _ h σ' => Smooth σ h σ') σ := by
  apply behaves_op_bind
  refine (behaves_read reading_checkSchemaVersion σ).mono fun r h₁ σ₁ hs₁ => ?_
  cases r with
  | error e => exact hs₁
  | ok x =>
      apply behaves_op_bind
      refine (behaves_read reading_readStoreRevisionMetadata σ₁).mono fun r h₂ σ₂ hs₂ => ?_
      cases r with
      | error e => exact hs₁.trans hs₂
      | ok x =>
          apply behaves_modify
          rw [List.append_nil]
          exact hs₁.trans ⟨⟨hs₂.intact.nest, hs₂.intact.content, hs₂.intact.file⟩, hs₂.undone⟩

/-- Seeing to the schema goes well or fails, and then as any scope does. -/
theorem behaves_ensureObjectStoreSchema (hroot : σ.conn.Rooted) :
    Behaves Plain ensureObjectStoreSchema (fun r h σ' => Fate σ h σ' ∧
      ∀ x, r = .ok x → Smooth σ h σ') σ := by
  have hsmooth : ∀ {r : Except Failure Unit} {h : List (Event dialect.language)} {σ' : Session},
      Smooth σ h σ' → Fate σ h σ' ∧ ∀ x, r = .ok x → Smooth σ h σ' :=
    fun hs => ⟨hs.fate, fun _ _ => hs⟩
  unfold ensureObjectStoreSchema
  apply behaves_op_bind
  apply behaves_get
  dsimp only
  split
  · exact behaves_pure (hsmooth (.refl σ))
  split
  · exact behaves_fail (hsmooth (.refl σ))
  apply behaves_op_bind
  refine (behaves_read reading_inspectStoreTableCount σ).mono fun r h₁ σ₁ hs₁ => ?_
  cases r with
  | error e => exact hsmooth hs₁
  | ok count =>
      dsimp only
      split
      · apply behaves_fail
        simp only [List.nil_append, List.append_nil]
        exact hsmooth hs₁
      split
      · split
        · apply behaves_fail
          simp only [List.nil_append, List.append_nil]
          exact hsmooth hs₁
        · apply behaves_op_bind
          refine (behaves_scope initializeSchema_ne_ret (hs₁.intact.rooted hroot)).mono
            fun r h₂ σ₂ hs₂ => ?_
          cases r with
          | error e => exact ⟨hs₁.then_fate hs₂, fun _ he => nomatch he⟩
          | ok x =>
              have hs₂ : Smooth σ₁ h₂ σ₂ := ⟨intact_firstUse hs₂.1, hs₂.2⟩
              refine (behaves_ready σ₂).mono fun r h₃ σ₃ hs₃ => ?_
              simpa using hsmooth (hs₁.trans (hs₂.trans hs₃))
      · refine (behaves_ready σ₁).mono fun r h₃ σ₃ hs₃ => ?_
        simpa using hsmooth (hs₁.trans hs₃)

/-! ## The mutators -/

/-- A failure leaves what `Fate` says. -/
def FailsWell {α : Type} (σ : Session) (r : Except Failure α) (h : List (Event dialect.language))
    (σ' : Session) : Prop := ∀ e, r = .error e → Fate σ h σ'

theorem behaves_after_schema {p : Operation α}
    {post : Except Failure α → List (Event dialect.language) → Session → Prop}
    (hroot : σ.conn.Rooted)
    (hfail : ∀ e h σ₁, Fate σ h σ₁ → (∀ ev ∈ h, ∀ s, ev.1 = .stmt s → NoRegister s) →
      post (.error e) h σ₁)
    (hok : ∀ h σ₁, Smooth σ h σ₁ → (∀ ev ∈ h, ∀ s, ev.1 = .stmt s → NoRegister s) →
      Behaves Plain p (fun r h' σ' => post r (h ++ h') σ') σ₁) :
    Behaves Plain (do
      ensureObjectStoreSchema
      p : Operation α) post σ := by
  apply behaves_op_bind
  have hissues : Behaves Plain ensureObjectStoreSchema (fun _ h _ =>
      ∀ ev ∈ h, ∀ s, ev.1 = .stmt s → NoRegister s) σ :=
    fun fs _ => issues_ensureObjectStoreSchema.history fs σ
  refine ((behaves_ensureObjectStoreSchema hroot).and hissues).mono
    fun r h σ₁ ⟨⟨hf, hs⟩, hi⟩ => ?_
  cases r with
  | error e => exact hfail e h σ₁ hf hi
  | ok x => exact hok h σ₁ (hs x rfl) hi

theorem behaves_requireStoreWritable
    {post : Except Failure Unit → List (Event dialect.language) → Session → Prop}
    (hp : ∀ r, post r [] σ) : Behaves Plain requireStoreWritable post σ := by
  unfold requireStoreWritable
  apply behaves_op_bind
  apply behaves_get
  dsimp only
  split
  · exact behaves_fail (hp _)
  split
  · exact behaves_fail (hp _)
  · exact behaves_pure (hp _)

theorem failsWell_of_fate {r : Except Failure α} (hf : Fate σ h σ') : FailsWell σ r h σ' :=
  fun _ _ => hf

theorem behaves_put (hroot : σ.conn.Rooted) (name key : Bytes) (value : Value) :
    Behaves Plain (put name key value) (FailsWell σ) σ := by
  unfold put
  split
  · exact behaves_fail (failsWell_of_fate (Smooth.refl σ).fate)
  refine behaves_after_schema hroot ?_ ?_
  · exact fun e h σ₁ hf _ => failsWell_of_fate hf
  intro h σ₁ hs _
  apply behaves_op_bind
  apply behaves_requireStoreWritable
  intro r
  cases r with
  | error e =>
      rw [List.append_nil]
      exact failsWell_of_fate hs.fate
  | ok x =>
      refine (behaves_scope (putBody_ne_ret name key value) (hs.intact.rooted hroot)).mono
        fun r h₂ σ₂ h₂s => ?_
      rintro e rfl
      exact hs.then_fate h₂s

theorem behaves_delete (hroot : σ.conn.Rooted) (name key : Bytes) :
    Behaves Plain (delete name key) (FailsWell σ) σ := by
  unfold delete
  split
  · exact behaves_fail (failsWell_of_fate (Smooth.refl σ).fate)
  refine behaves_after_schema hroot ?_ ?_
  · exact fun e h σ₁ hf _ => failsWell_of_fate hf
  intro h σ₁ hs _
  apply behaves_op_bind
  apply behaves_attempt
  refine (behaves_read (reading_findStoreId name) σ₁).mono fun r h₂ σ₂ hs₂ => ?_
  have hs₂ := hs.trans hs₂
  cases r with
  | error e =>
      dsimp only
      split
      · exact behaves_pure fun e he => nomatch he
      · apply behaves_fail
        rw [List.append_nil]
        exact failsWell_of_fate hs₂.fate
  | ok storeId =>
      apply behaves_op_bind
      apply behaves_requireStoreWritable
      intro r
      cases r with
      | error e =>
          rw [List.append_nil]
          exact failsWell_of_fate hs₂.fate
      | ok x =>
          refine (behaves_scope (deleteBody_ne_ret storeId key) (hs₂.intact.rooted hroot)).mono
            fun r h₃ σ₃ h₃s => ?_
          rintro e rfl
          have hf := hs₂.then_fate h₃s
          simpa using hf

theorem intact_journal (hi : Intact σ σ') (hj : Journal σ.view) : Journal σ'.view := by
  rcases hi.content with he | hd
  · exact he ▸ hj
  · exact hd.unfinished.preserves (P := Journal) (fun he hd => (Sql.eval_journal he hd).1) hj

theorem behaves_pruneChanges (hroot : σ.conn.Rooted) (hj : Journal σ.view) (through : ℕ) :
    Behaves Plain (pruneChanges through) (FailsWell σ) σ := by
  unfold pruneChanges
  split
  · exact behaves_fail (failsWell_of_fate (Smooth.refl σ).fate)
  refine behaves_after_schema hroot ?_ ?_
  · exact fun e h σ₁ hf _ => failsWell_of_fate hf
  intro h σ₁ hs _
  apply behaves_op_bind
  apply behaves_requireStoreWritable
  intro r
  cases r with
  | error e =>
      rw [List.append_nil]
      exact failsWell_of_fate hs.fate
  | ok x =>
      have hj₁ := intact_journal hs.intact hj
      have hprune : Behaves Plain (ask (pruneBody through))
          (fun r _ σ' => ∀ e, r = .error e → Intact σ₁ σ') σ₁ := by
        refine behaves_solo (wp_mono (wp_single (single_pruneBody through)
          (fun _ _ _ => trivial) σ₁) ?_)
        rintro r σ₂ ha e rfl
        cases ha with
        | rejected hw ha hd =>
            refine intact_of_acts ha fun d' hd => ?_
            rcases pruneBody_rejected hd.1 hd.2 with he | hrej
            · exact .inl he.symm
            · exact (hj₁.not_pruneRejected hrej).elim
        | denied hw ha hd => exact intact_quiet ha
        | busy hw ha hs => exact intact_quiet ha
        | faulted e' hw ha hf => exact intact_quiet ha
        | aborted hw ha => exact (not_aborts ha).elim
      refine (hprune.and (behaves_issues (pruneBody through).issues_all σ₁)).mono
        fun r h₂ σ₂ ⟨hi, hstmts⟩ => ?_
      rintro e rfl
      exact (hs.trans ⟨hi e rfl, undone_of_statements hstmts⟩).fate

/-! ## Registering a name -/

/-- A registration that went well and a look-up after it that did not. -/
def readBackFails (name : Bytes) (h : List (Event dialect.language)) : Prop :=
  ∃ before e, h = before ++
    [(.stmt (.registerStore name), .none), (.stmt (.storeId name), .fail e)]

theorem not_readBackFails_of_last {name : Bytes} {before : List (Event dialect.language)}
    {fault : Fault ℤ} :
    ¬ readBackFails name (before ++ [(.stmt (.registerStore name), fault)]) := by
  rintro ⟨before', e, he⟩
  have hlast := congrArg List.getLast? he
  rw [List.getLast?_concat, List.getLast?_append] at hlast
  simp at hlast

theorem not_readBackFails {name : Bytes}
    (hi : ∀ ev ∈ h, ∀ s, ev.1 = .stmt s → NoRegister s) : ¬ readBackFails name h := by
  rintro ⟨before, e, rfl⟩
  exact hi (.stmt (.registerStore name), .none) (by simp) _ rfl

/-- The name is in the table once it has been registered. -/
theorem registerStore_mem {name : Bytes} {d d' : Tables}
    (he : (Sql.registerStore name).eval d = .ok ((), d')) : ∃ s ∈ d'.storeRows, s.name = name := by
  simp only [Sql.eval] at he
  cases hm : d.stores with
  | none => simp [hm] at he
  | some rows =>
      simp only [hm] at he
      cases hl : KeyedRows.lookup StoreRow.name name rows with
      | some row =>
          simp only [hl, Except.ok.injEq, Prod.mk.injEq, true_and] at he
          obtain ⟨hmem, hname⟩ := KeyedRows.lookup_eq_some hl
          exact ⟨row, by simpa [Tables.storeRows, ← he, hm] using hmem, hname⟩
      | none =>
          simp only [hl] at he
          split_ifs at he
          simp only [Except.ok.injEq, Prod.mk.injEq, true_and] at he
          refine ⟨⟨Tables.nextStoreId rows, name⟩, ?_, rfl⟩
          rw [← he]
          simp [Tables.storeRows]

/-- A name that is there already is registered again without a change. -/
theorem registerStore_present {name : Bytes} {d d' : Tables}
    (he : (Sql.registerStore name).eval d = .ok ((), d'))
    (hmem : ∃ s ∈ d.storeRows, s.name = name) : d' = d := by
  obtain ⟨s, hs, hname⟩ := hmem
  simp only [Sql.eval] at he
  cases hm : d.stores with
  | none => simp [hm] at he
  | some rows =>
      simp only [hm] at he
      cases hl : KeyedRows.lookup StoreRow.name name rows with
      | some row =>
          simp only [hl, Except.ok.injEq, Prod.mk.injEq, true_and] at he
          exact he.symm
      | none =>
          have hs : s ∈ rows := by simpa [Tables.storeRows, hm] using hs
          exact absurd hname (KeyedRows.lookup_eq_none hl s hs)

/-- A name that is there is found. -/
theorem storeId_present {name : Bytes} {d : Tables} (hmem : ∃ s ∈ d.storeRows, s.name = name) :
    ∃ id, (Sql.storeId name).eval d = .ok (some id, d) := by
  obtain ⟨s, hs, hname⟩ := hmem
  simp only [Sql.eval]
  cases hm : d.stores with
  | none => simp [Tables.storeRows, hm] at hs
  | some rows =>
      have hs : s ∈ rows := by simpa [Tables.storeRows, hm] using hs
      cases hl : KeyedRows.lookup StoreRow.name name rows with
      | some row => exact ⟨row.id, by simp only [hl, Option.map_some]⟩
      | none => exact absurd hname (KeyedRows.lookup_eq_none hl s hs)

/-- How an `ensure` may have registered a name and failed all the same. -/
structure Registered (name : Bytes) (σ : Session) (h : List (Event dialect.language))
    (σ' : Session) : Prop where
  nest : σ'.conn.nest = σ.conn.nest
  file : σ.conn.txn.isSome → σ'.file = σ.file
  undone : Undone h
  unread : readBackFails name h
  eval : (Sql.registerStore name).eval σ.view = .ok ((), σ'.view)

/-- One statement is refused and nothing has changed, or it has its effect. -/
theorem behaves_one (s : Sql)
    {post : Except Failure s.Row → List (Event dialect.language) → Session → Prop}
    (hfail : ∀ e fault, Plain fault →
      (fault = .none → s.writes = false → ∃ e', s.eval σ.view = .error e') →
      post (.error e) [(.stmt s, fault)] σ)
    (hok : ∀ r σ', s.eval σ.view = .ok (r, σ'.view) → σ'.conn.nest = σ.conn.nest →
      (σ.conn.txn.isSome → σ'.file = σ.file) → post (.ok r) [(.stmt s, .none)] σ') :
    Behaves Plain (ask (statement s)) post σ := by
  unfold ask statement statementIn
  rw [Transactional.Query.toOp_one]
  apply behaves_execSql
  · exact fun e => hfail _ _ trivial fun hf => nomatch hf
  · rcases performStmt_view true s σ.file σ.conn with ⟨r, hp, hw⟩ | ⟨r, d, he, hr, hv⟩
    · simp only [perform, hp]
      exact hfail _ _ trivial fun _ => hw
    · simp only [perform, hr, Except.mapError]
      refine hok r _ ?_ (performStmt_nest true s σ.file σ.conn) fun hs => ?_
      · subst hv
        exact he
      · exact performStmt_file hs true s σ.file

theorem issues_findStoreId (name : Bytes) : (findStoreId name).Issues NoRegister := by
  refine (issues_statement (.storeId name) trivial).bind fun row => ?_
  cases row with
  | none => trivial
  | some id => trivial

theorem behaves_register (name : Bytes) (σ : Session) :
    Behaves Plain (ask (getStoreId name true)) (fun r h σ' => ∀ e, r = .error e →
      (Smooth σ h σ' ∧ ∃ fault, h = [(.stmt (.registerStore name), fault)]) ∨
        Registered name σ h σ') σ := by
  have hone : ∀ fault, Undone [((.stmt (.registerStore name) : Cmd dialect.language), fault)] :=
    fun fault => undone_cons (fun _ => rfl) fault undone_nil
  unfold getStoreId
  rw [if_pos rfl, ask, Transactional.Query.toOp_bind]
  apply behaves_op_bind
  refine behaves_one (.registerStore name) ?_ ?_
  · intro e fault _ _ e' _
    exact .inl ⟨⟨.refl σ, hone fault⟩, fault, rfl⟩
  · intro r σ₁ heval hnest hfile
    dsimp only
    unfold findStoreId
    rw [Transactional.Query.toOp_bind]
    apply behaves_op_bind
    have hmem := registerStore_mem heval
    refine behaves_one (.storeId name) ?_ ?_
    · intro e fault hplain hwhy e' _
      have hfound : ∀ e', (Sql.storeId name).eval σ₁.view ≠ .error e' := by
        intro e' he'
        obtain ⟨id, hid⟩ := storeId_present hmem
        rw [hid] at he'
        cases he'
      cases fault with
      | none =>
          obtain ⟨e', he'⟩ := hwhy rfl rfl
          exact (hfound e' he').elim
      | fail e =>
          refine .inr ⟨hnest, hfile, ?_, ⟨[], e, rfl⟩, heval⟩
          exact (hone _).append (undone_cons (fun _ => rfl) _ undone_nil)
      | rollback e => exact hplain.elim
    · intro r σ₂ heval₂ _ _
      obtain ⟨id, hid⟩ := storeId_present hmem
      obtain ⟨rfl, -⟩ := Prod.mk.inj (Except.ok.inj (hid.symm.trans heval₂))
      exact fun _ _ e he => by cases he

/-- How an `ensure` fails: as any operation, or with its name registered. -/
theorem behaves_ensure (hroot : σ.conn.Rooted) (name : Bytes) :
    Behaves Plain (ensure name) (fun r h σ' => ∀ e, r = .error e →
      (Fate σ h σ' ∧ ¬ readBackFails name h) ∨
        ∃ h₁ σ₁ h₂, h = h₁ ++ h₂ ∧ Smooth σ h₁ σ₁ ∧ Registered name σ₁ h₂ σ') σ := by
  have hquiet : ∀ {h : List (Event dialect.language)} {σ' : Session}, Fate σ h σ' →
      (∀ ev ∈ h, ∀ s, ev.1 = .stmt s → NoRegister s) →
      (Fate σ h σ' ∧ ¬ readBackFails name h) ∨
        ∃ h₁ σ₁ h₂, h = h₁ ++ h₂ ∧ Smooth σ h₁ σ₁ ∧ Registered name σ₁ h₂ σ' :=
    fun hf hi => .inl ⟨hf, not_readBackFails hi⟩
  unfold ensure
  split
  · exact behaves_fail fun e _ => hquiet (Smooth.refl σ).fate (by simp)
  refine behaves_after_schema hroot ?_ ?_
  · exact fun e h σ₁ hf hi e' _ => hquiet hf hi
  intro h σ₁ hs hi
  apply behaves_op_bind
  apply behaves_attempt
  have hissues : Behaves Plain (ask (findStoreId name)) (fun _ h _ =>
      ∀ ev ∈ h, ∀ s, ev.1 = .stmt s → NoRegister s) σ₁ :=
    fun fs _ => (issues_findStoreId name).toOp.history fs σ₁
  refine ((behaves_read (reading_findStoreId name) σ₁).and hissues).mono
    fun r h₂ σ₂ ⟨hs₂, hi₂⟩ => ?_
  have hs₂ := hs.trans hs₂
  have hi₂ : ∀ ev ∈ h ++ h₂, ∀ s, ev.1 = .stmt s → NoRegister s := by
    intro ev hev
    rcases List.mem_append.mp hev with hev | hev
    · exact hi ev hev
    · exact hi₂ ev hev
  cases r with
  | ok x => exact behaves_pure fun e he => nomatch he
  | error e =>
      dsimp only
      split
      · apply behaves_fail
        rw [List.append_nil]
        exact fun e _ => hquiet hs₂.fate hi₂
      apply behaves_op_bind
      apply behaves_requireStoreWritable
      intro r
      cases r with
      | error e =>
          rw [List.append_nil]
          exact fun e _ => hquiet hs₂.fate hi₂
      | ok x =>
          apply behaves_op_bind
          refine (behaves_register name σ₂).mono fun r h₃ σ₃ hr => ?_
          cases r with
          | ok id => exact behaves_pure fun e he => nomatch he
          | error e =>
              intro e' _
              simp only [List.nil_append, ← List.append_assoc]
              rcases hr e rfl with ⟨hs₃, fault, rfl⟩ | hreg
              · exact .inl ⟨(hs₂.trans hs₃).fate, not_readBackFails_of_last⟩
              · exact .inr ⟨h ++ h₂, σ₂, h₃, rfl, hs₂, hreg⟩

/-! ## Every mutator -/

def StoreOp.mutates : StoreOp → Bool
  | .ensure _ | .put .. | .delete .. | .pruneChanges _ => true
  | _ => false

/-- An `ensure` of a new name whose registration went well, but not the look-up after
it. -/
def ReadBackFails (op : StoreOp) (σ : Session) (h : List (Event dialect.language)) : Prop :=
  match op with
  | .ensure name => (∀ s ∈ σ.view.storeRows, s.name ≠ name) ∧ readBackFails name h
  | _ => False

theorem intact_iff_of_fate (hf : Fate σ h σ') : Intact σ σ' ↔ undoFails none h = false := by
  rcases hf with ⟨hi, hu⟩ | ⟨hn, hs⟩
  · exact ⟨fun _ => hu none, fun _ => hi⟩
  · exact ⟨fun hi => absurd hi.nest hn, fun hu => absurd (hs none) (by simp [hu])⟩

theorem storeRows_of_unused {d : Tables} (hz : d.tableCount = 0) : d.storeRows = [] := by
  unfold Tables.tableCount at hz
  cases hs : d.stores with
  | none => simp [Tables.storeRows, hs]
  | some rows =>
      simp only [hs, Option.isSome_some, if_true] at hz
      omega

theorem intact_iff_of_registered {name : Bytes} (hs : Smooth σ h σ₁)
    (hr : Registered name σ₁ h' σ') :
    Intact σ σ' ↔ ¬ ∀ s ∈ σ.view.storeRows, s.name ≠ name := by
  push Not
  constructor
  · intro hi
    have hmem := registerStore_mem hr.eval
    rcases hi.content with he | hd
    · exact he ▸ hmem
    · rcases initializeSchema_denote hd with ⟨-, he⟩ | ⟨-, he⟩
      · exact he ▸ hmem
      · obtain ⟨s, hs, -⟩ := hmem
        rw [he] at hs
        simp [Tables.storeRows, Tables.created] at hs
  · intro hmem
    have hmem₁ : ∃ s ∈ σ₁.view.storeRows, s.name = name := by
      rcases hs.intact.content with he | hd
      · exact he ▸ hmem
      · rcases initializeSchema_denote hd with ⟨-, he⟩ | ⟨hz, -⟩
        · exact he ▸ hmem
        · obtain ⟨s, hs, -⟩ := hmem
          rw [storeRows_of_unused hz] at hs
          simp at hs
    have he := registerStore_present hr.eval hmem₁
    exact hs.intact.trans ⟨hr.nest, .inl he, hr.file⟩

theorem behaves_reply {f : α → Reply} {p : Operation α}
    {post : Failure → List (Event dialect.language) → Session → Prop}
    (hp : Behaves Plain p (fun r h σ' => ∀ e, r = .error e → post e h σ') σ) :
    Behaves Plain (reply f p) (fun r h σ' => ∀ e, r = .error e → post e h σ') σ := by
  unfold reply
  apply behaves_op_bind
  refine hp.mono fun r h σ' hr => ?_
  cases r with
  | error e =>
      intro e' he
      obtain rfl := Except.error.inj he
      exact hr e rfl
  | ok x => exact behaves_pure fun e he => nomatch he

/-- Every failure of a mutator. -/
theorem behaves_mutator (hroot : σ.conn.Rooted) (hj : Journal σ.view) (op : StoreOp)
    (hop : op.mutates = true) : Behaves Plain op.program (fun r h σ' => ∀ e, r = .error e →
      (Intact σ σ' ↔ undoFails none h = false ∧ ¬ ReadBackFails op σ h)) σ := by
  have hplain : ∀ {h : List (Event dialect.language)} {σ' : Session}, Fate σ h σ' →
      (Intact σ σ' ↔ undoFails none h = false ∧ ¬ False) :=
    fun hf => (intact_iff_of_fate hf).trans (by simp)
  cases op with
  | ensure name =>
      apply behaves_reply
      refine (behaves_ensure hroot name).mono fun r h σ' hr e he => ?_
      rcases hr e he with ⟨hf, hread⟩ | ⟨h₁, σ₁, h₂, rfl, hs, hreg⟩
      · rw [intact_iff_of_fate hf]
        exact ⟨fun hu => ⟨hu, fun hrb => hread hrb.2⟩, fun hu => hu.1⟩
      · have hread : readBackFails name (h₁ ++ h₂) := by
          obtain ⟨before, e', rfl⟩ := hreg.unread
          exact ⟨h₁ ++ before, e', (List.append_assoc _ _ _).symm⟩
        rw [intact_iff_of_registered hs hreg]
        constructor
        · exact fun hnew => ⟨hs.undone.append hreg.undone none, fun hrb => hnew hrb.1⟩
        · exact fun hu hnew => hu.2 ⟨hnew, hread⟩
  | put name key value =>
      apply behaves_reply
      exact (behaves_put hroot name key value).mono fun r h σ' hr e he => hplain (hr e he)
  | delete name key =>
      apply behaves_reply
      exact (behaves_delete hroot name key).mono fun r h σ' hr e he => hplain (hr e he)
  | pruneChanges through =>
      apply behaves_reply
      exact (behaves_pruneChanges hroot hj through).mono fun r h σ' hr e he => hplain (hr e he)
  | _ => cases hop

/-- A failed call of a mutator leaves content and nesting as they were exactly when
none of its commands failed that were to take something back, and it is not an
`ensure` that registered a new name and could not look it up. -/
theorem mutator_atomic_iff {σ : Session} (hl : Lives σ) (op : StoreOp) (hop : op.mutates = true)
    (fs : List (Fault ℤ)) (hfs : ∀ f ∈ fs, Plain f) {e : Failure}
    (he : (op.program.run fs σ).1 = .error e) :
    Intact σ (op.program.run fs σ).2 ↔
      undoFails none (op.program.history fs σ) = false ∧
        ¬ ReadBackFails op σ (op.program.history fs σ) :=
  behaves_mutator hl.rooted hl.journal op hop fs hfs e he

/-- The session after a first put. -/
def usedSession : Session := samplePut.undisturbed freshSession

theorem lives_usedSession : Lives usedSession := by
  have hnone : ∀ σ c, anyFaults.allows σ c .none := fun _ _ => trivial
  apply Lives.call samplePut (.opened Tables.empty 0 .refl) (fun _ h => nomatch h)
  exact runs_run (samplePut.program.admits_nil hnone freshSession)

/-- A put whose COMMIT fails and whose ROLLBACK does not. -/
theorem mutator_atomic_full_disk :
    Intact usedSession ((StoreOp.put sampleStore [98] ⟨Value.null, []⟩).program.run
      [.none, .none, .none, .none, .none, .none, .fail Sqlite.full] usedSession).2 := by
  have he : ((StoreOp.put sampleStore [98] ⟨Value.null, []⟩).program.run
      [.none, .none, .none, .none, .none, .none, .fail Sqlite.full] usedSession).1 =
        .error (sqliteFailure .objectStore (.failed Sqlite.full)) := by decide +kernel
  apply (mutator_atomic_iff lives_usedSession _ rfl _ (by simp [Plain]) he).mpr
  exact ⟨by decide +kernel, id⟩

/-- `esdb_object_store_ensure` of `users`, where the look-up after the registration
fails: the name stays registered. -/
theorem ensure_registers_and_fails : ∃ (σ : Session) (fs : List (Fault ℤ)) (e : Failure),
    Lives σ ∧ (∀ f ∈ fs, Plain f) ∧
      ((StoreOp.ensure [117, 115, 101, 114, 115]).program.run fs σ).1 = .error e ∧
      ¬ Intact σ ((StoreOp.ensure [117, 115, 101, 114, 115]).program.run fs σ).2 := by
  refine ⟨usedSession, [.none, .none, .fail 10], sqliteFailure .objectStore (.failed 10),
    lives_usedSession, by simp [Plain], by decide +kernel, fun hi => ?_⟩
  have hne : ((StoreOp.ensure [117, 115, 101, 114, 115]).program.run [.none, .none, .fail 10]
      usedSession).2.view ≠ usedSession.view := by decide +kernel
  rcases hi.content with he | hd
  · exact hne he
  · rcases initializeSchema_denote hd with ⟨-, he⟩ | ⟨hz, -⟩
    · exact hne he
    · exact absurd hz (by decide +kernel)

end Esdb.ObjectStore
