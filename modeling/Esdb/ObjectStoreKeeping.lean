import Esdb.ObjectStoreCalls
import Esdb.TransactionalLink

/-!
# What survives every call

Take any property of a connection's content, possibly about its schema flag and
its subscriptions, that single statements on the tables respect. Every call on the
connection keeps it, whatever fails and whatever other connections execute, with
three exceptions: rolling back, rolling back to a savepoint of the caller's, and
an error that SQLite answers by rolling back, each of which may go back to content
that lacks the property.
-/
namespace Esdb.ObjectStore

open Transactional Esdb.Runtime

/-- A property that the statements of the store respect, of a connection's schema
flag and subscriptions and of the content it sees. -/
structure Keepable (K : Database → Tables → Prop) : Prop where
  wrapper : ∀ {db db' d}, db'.objectStoreSchemaReady = db.objectStoreSchemaReady →
    db'.subscriptions = db.subscriptions → K db d → K db' d
  ready : ∀ {db d}, d.Complete → K db d → K { db with objectStoreSchemaReady := true } d
  statement : ∀ {db d d'}, Unfinished d d' → K db d → K db d'

theorem Keepable.move {K : Database → Tables → Prop} (hK : Keepable K) (db : Database)
    {db' : Database} {d : Tables} (hr : db'.objectStoreSchemaReady = db.objectStoreSchemaReady)
    (hs : db'.subscriptions = db.subscriptions) (h : K db d) : K db' d := hK.wrapper hr hs h

/-- SQLite answers an error by rolling back only where the file has the property. -/
def rollsBackOnto (K : Database → Tables → Prop) (σ : Session) (_ : Cmd dialect.language)
    (fault : Fault ℤ) : Prop :=
  match fault with
  | .rollback _ => σ.conn.txn.isSome → K σ.wrapper σ.file
  | _ => True

theorem unfinished_refl (d : Tables) : Unfinished d d := .refl

theorem unfinished_trans {d d₁ d₂ : Tables} (h₁ : Unfinished d d₁) (h₂ : Unfinished d₁ d₂) :
    Unfinished d d₂ := h₁.trans h₂

/-- One connection among others that execute statements of the store. -/
def keeping (K : Database → Tables → Prop) : StoreContract where
  rely := Unfinished
  guar := Unfinished
  allows := rollsBackOnto K
  rely_refl := unfinished_refl
  rely_trans := unfinished_trans
  guar_refl := unfinished_refl

/-- The condition on the session before the call: a call that goes back to earlier
content goes back to content with the property. -/
def Call.Meets (K : Database → Tables → Prop) (call : Call) (σ : Session) : Prop :=
  match call with
  | .rollback id | .destroy id =>
      σ.wrapper.active id = true → σ.conn.txn.isSome → K σ.wrapper σ.file
  | .savepointRollback name => σ.wrapper.savepoints.head? = some name →
      ∀ t sp below, σ.conn.txn = some t →
        findSavepoint (foldCase name) t.savepoints = some (sp, below) →
        K σ.wrapper ((t.access.restore σ.file sp.saved).view σ.file)
  | _ => True

structure Keeps (K : Database → Tables → Prop) (σ : Session) : Prop where
  rooted : σ.conn.Rooted
  linked : Linked Unfinished σ.file σ.conn
  kept : K σ.wrapper σ.view

variable {K : Database → Tables → Prop} {σ σ' : Session} {ms : List Mutation}

theorem preorders_unfinished : Preorders (L := dialect.language) Unfinished :=
  ⟨fun _ => .refl, fun h₁ h₂ => h₁.trans h₂⟩

theorem unfinished_of_eq {d d' : Tables} (h : d = d') : Unfinished d d' := h ▸ .refl

theorem hosts_keeping (K : Database → Tables → Prop) : Hosts (keeping K) where
  tables := fun _ _ h hd => unfinished_complete h hd
  mutation := fun _ _ _ h => h.unfinished

theorem Keeps.wrapper (hK : Keepable K) (h : Keeps K σ) {db : Database}
    (hr : db.objectStoreSchemaReady = σ.wrapper.objectStoreSchemaReady)
    (hs : db.subscriptions = σ.wrapper.subscriptions) : Keeps K { σ with wrapper := db } :=
  ⟨h.rooted, h.linked, hK.wrapper hr hs h.kept⟩

theorem Keeps.same (hK : Keepable K) (h : Keeps K σ) {db : Database}
    (hw : SameHandles σ.wrapper db) : Keeps K { σ with wrapper := db } :=
  h.wrapper hK (by rw [hw]) (by rw [hw])

/-! ## Operations of the store -/

/-- An act on the content keeps the property. -/
theorem Keeps.acts (hK : Keepable K) (h : Keeps K σ) {P : Tables → Tables → Prop}
    {above : List StoreSavepoint} (hp : ∀ d d', P d d' → Unfinished d d')
    (ha : Acts (keeping K) P above σ σ')
    (hs : ∀ t, σ.conn.txn = some t → ∀ sp ∈ above, sp.saved = t.access.written)
    (hw : SameHandles σ.wrapper σ'.wrapper) : Keeps K σ' where
  rooted := ha.rooted h.rooted
  linked := h.linked.acts preorders_unfinished (fun _ _ hr => hr) hp ha hs
  kept := by
    refine hK.move σ.wrapper (by rw [hw]) (by rw [hw]) <|
      ha.view (K := K σ.wrapper) (fun _ _ hr hd => hK.statement hr hd)
        (fun _ _ hpd hd => hK.statement (hp _ _ hpd) hd) h.kept

theorem Keeps.aborts (hK : Keepable K) (ha : Aborts (keeping K) σ σ')
    (hw : SameHandles σ.wrapper σ'.wrapper) : Keeps K σ' where
  rooted := ha.rooted
  linked := linked_closed ha.2.1
  kept := by
    refine hK.move σ.wrapper (by rw [hw]) (by rw [hw]) ?_
    refine ha.view (K := K σ.wrapper) (fun _ _ hr hd => hK.statement hr hd) ?_
    rintro σ₀ ⟨conn, c, e, hsome, -, hallows⟩ hw₀
    exact hw₀ ▸ hallows hsome

theorem Keeps.failed (hK : Keepable K) (h : Keeps K σ) (hf : Failed (keeping K) σ σ')
    (hw : SameHandles σ.wrapper σ'.wrapper) : Keeps K σ' := by
  cases hf with
  | quiet ha => exact h.acts hK (fun _ _ => unfinished_of_eq) ha (fun _ _ _ hm => by simp at hm) hw
  | aborted ha => exact .aborts hK ha hw
  | stuck t sp ht hs ha hm =>
      refine h.acts hK (fun _ _ hd => hd) ha ?_ hw
      intro t' ht' sp' hsp'
      obtain rfl := List.mem_singleton.mp hsp'
      rw [ht] at ht'
      exact Option.some.inj ht' ▸ hs
  | leftover t sp ht hs ha hm =>
      refine h.acts hK (fun _ _ => unfinished_of_eq) ha ?_ hw
      intro t' ht' sp' hsp'
      obtain rfl := List.mem_singleton.mp hsp'
      rw [ht] at ht'
      exact Option.some.inj ht' ▸ hs
  | zombie ht t d hc ha hs hi hf hd hm =>
      have hview : σ.view = σ.file := by simp [State.view, Conn.view, ht]
      have hview' : σ'.view = d := by simp [State.view, Conn.view, hc, ha, Access.view]
      refine ⟨?_, ⟨?_, ?_, ?_⟩, ?_⟩
      · intro t' ht' hi'
        rw [hc] at ht'
        obtain rfl := Option.some.inj ht'
        simp [hi] at hi'
      · intro t' s ht' ha'
        rw [hc] at ht'
        obtain rfl := Option.some.inj ht'
        simp [ha] at ha'
      · intro t' d' ht' ha'
        rw [hc] at ht'
        obtain rfl := Option.some.inj ht'
        rw [ha] at ha'
        obtain rfl := Access.writing.inj ha'
        exact hd
      · intro t' ht' sp hsp
        rw [hc] at ht'
        obtain rfl := Option.some.inj ht'
        simp [hs] at hsp
      · refine hK.move σ.wrapper (by rw [hw]) (by rw [hw]) ?_
        rw [hview']
        exact hK.statement (hf.trans hd) (hview ▸ h.kept)

theorem Keeps.progress (hK : Keepable K) (h : Keeps K σ) (hp : Progress (keeping K) ms σ σ') :
    Keeps K σ' := by
  induction hp with
  | refl => exact h
  | quiet ha hw _ ih =>
      exact ih (h.acts hK (fun _ _ => unfinished_of_eq) ha (fun _ _ _ hm => by simp at hm) (.of_eq hw))
  | mutated ha hw _ ih =>
      exact ih (h.acts hK (fun _ _ hm => hm.unfinished) ha (fun _ _ _ hm => by simp at hm) hw)
  | failed hf hw _ ih => exact ih (h.failed hK hf hw)
  | ready hc _ ih => exact ih ⟨h.rooted, h.linked, hK.ready hc h.kept⟩

theorem Keeps.ends (hK : Keepable K) (h : Keeps K σ) {op : StoreOp} {r : Except Failure Reply}
    (he : Ends (keeping K) op σ r σ') : ∃ σ₁, Keeps K σ₁ ∧ Resubscribed op σ₁ σ' := by
  obtain ⟨first, rest, σ₁, hp, -, -, hs⟩ := he
  exact ⟨σ₁, h.progress hK hp, hs⟩

/-! ## Transaction control -/

theorem Keeps.moved (hK : Keepable K) (h : Keeps K σ) {file : Tables}
    (hm : (keeping K).Moves σ.conn σ.file file) : Keeps K { σ with file := file } :=
  h.acts hK (fun _ _ => unfinished_of_eq) (Acts.moved (w := σ.wrapper) hm)
    (fun _ _ _ hm => by simp at hm) (.refl _)

/-- What `ROLLBACK TO` would give back, as others move the file. -/
theorem restored_moved (hK : Keepable K) {db : Database} {conn : Conn dialect.language}
    {t : StoreTxn} (ht : conn.txn = some t) {f f' : Tables} (hm : (keeping K).Moves conn f f')
    {saved : Option Tables} (hk : K db ((t.access.restore f saved).view f)) :
    K db ((t.access.restore f' saved).view f') := by
  cases ha : t.access with
  | idle =>
      rw [ha] at hk
      exact hK.statement hm.rely hk
  | reading s =>
      rw [ha] at hk
      exact hk
  | writing d =>
      have hstill := hm.eq (by simp [Conn.isWriting, ht, ha, Access.isWriting])
      rw [ha] at hk
      exact hstill ▸ hk

/-- A command that is no statement. -/
theorem wp_control (hK : Keepable K) (h : Keeps K σ) {phase : Phase} {c : Cmd dialect.language}
    (hc : ∀ s, c ≠ .stmt s) (hroll : c = .rollback → σ.conn.txn.isSome → K σ.wrapper σ.file)
    (hto : ∀ n, c = .rollbackTo n → ∀ t sp below, σ.conn.txn = some t →
      findSavepoint n t.savepoints = some (sp, below) →
      K σ.wrapper ((t.access.restore σ.file sp.saved).view σ.file))
    {post : Except Failure c.Row → Session → Prop}
    (hpost : ∀ r σ', Keeps K σ' → σ'.wrapper = σ.wrapper →
      ((∃ row, r = .ok row) → c = .begin true ∨ c = .begin false → σ'.view = σ'.file) → post r σ') :
    wp (keeping K) (execSql (D := dialect) phase c) post σ := by
  have hexec : ∀ file free fault, (keeping K).Moves σ.conn σ.file file →
      (keeping K).allows { σ with file := file } c fault →
      Unfinished file (exec free fault file σ.conn c).file ∧
        Keeps K { σ with
          file := (exec free fault file σ.conn c).file
          conn := (exec free fault file σ.conn c).conn } := by
    intro file free fault hm ha
    have hmoved := h.moved hK hm
    have hl := hmoved.linked.exec preorders_unfinished free fault c fun s hs => (hc s hs).elim
    refine ⟨hl.1, hmoved.rooted.exec free fault file c, hl.2, ?_⟩
    refine hmoved.linked.exec_keeps (K := K σ.wrapper) (fun _ _ hr hd => hK.statement hr hd)
      hmoved.kept free fault c (fun s hs => (hc s hs).elim) ?_ ?_ ?_
    · rintro e rfl hsome
      exact ha hsome
    · exact fun hr hsome => hK.statement hm.rely (hroll hr hsome)
    · exact fun n hn t sp below ht hf => restored_moved hK ht hm (hto n hn t sp below ht hf)
  apply wp_call
  · intro file e hm ha
    exact hpost _ _ (hexec file true (.fail e) hm ha).2 rfl fun h => by simp at h
  · intro file e hm ha
    exact hpost _ _ (hexec file true (.rollback e) hm ha).2 rfl fun h => by simp at h
  · intro file free hm ha
    refine ⟨(hexec file free .none hm ha).1, ?_⟩
    refine hpost _ _ (hexec file free .none hm ha).2 rfl ?_
    rintro ⟨row, hrow⟩ hb
    have hbegin : ∀ immediate, c = .begin immediate →
        (perform free file σ.conn c).conn.view (perform free file σ.conn c).file =
          (perform free file σ.conn c).file := by
      rintro immediate rfl
      simp only [perform, performBegin] at hrow ⊢
      cases ht : σ.conn.txn with
      | some t => simp [ht, refuse, Except.mapError] at hrow
      | none =>
          simp only [ht] at hrow ⊢
          split_ifs at hrow ⊢
          · rfl
          · rfl
          · simp [refuse, Except.mapError] at hrow
    rcases hb with hb | hb
    · exact hbegin true hb
    · exact hbegin false hb

/-- The commands that never go back to earlier content. -/
def Harmless : Cmd dialect.language → Prop
  | .begin _ | .commit | .savepoint _ | .release _ => True
  | _ => False

theorem wp_harmless (hK : Keepable K) (h : Keeps K σ) {phase : Phase} {c : Cmd dialect.language}
    {post : Except Failure c.Row → Session → Prop} (hc : Harmless c)
    (hpost : ∀ r σ', Keeps K σ' → σ'.wrapper = σ.wrapper →
      ((∃ row, r = .ok row) → c = .begin true ∨ c = .begin false → σ'.view = σ'.file) → post r σ') :
    wp (keeping K) (execSql (D := dialect) phase c) post σ := by
  refine wp_control hK h ?_ ?_ ?_ hpost
  · rintro s rfl
    exact hc
  · rintro rfl
    exact hc.elim
  · rintro n rfl
    exact hc.elim

theorem wp_begin_keeps (hK : Keepable K) (h : Keeps K σ) (mode : ℕ) (allocates : Bool) :
    wp (keeping K) (Runtime.begin (D := dialect) mode allocates) (fun _ σ' => Keeps K σ') σ := by
  unfold Runtime.begin
  rw [wp_op_bind, wp_get]
  dsimp only
  by_cases hact : σ.wrapper.transactionActive = true
  · rw [if_pos hact]
    exact h
  rw [if_neg hact]
  cases hmode : beginSql mode with
  | none => exact h
  | some immediate =>
      dsimp only
      rw [wp_op_bind]
      refine wp_harmless hK h trivial fun r σ₁ h₁ hw hview => ?_
      cases r with
      | error e => exact h₁
      | ok serial =>
          have hfile : σ₁.view = σ₁.file := hview ⟨serial, rfl⟩ (by cases immediate <;> simp)
          dsimp only
          rw [wp_op_bind, wp_modify]
          dsimp only
          have h₂ : Keeps K { σ₁ with
              wrapper := { σ₁.wrapper with transactionActive := true } } :=
            h₁.wrapper hK rfl rfl
          cases allocates with
          | true => exact h₂.wrapper hK rfl rfl
          | false =>
              rw [if_pos (by rfl), wp_op_bind, wp_attempt]
              -- Nothing has happened in the transaction that is rolled back.
              refine wp_control hK h₂ ?_ ?_ ?_ fun r σ₂ h₃ _ _ => h₃.wrapper hK rfl rfl
              · exact fun _ h => nomatch h
              · exact fun _ _ => hK.move σ₁.wrapper rfl rfl (hfile ▸ h₁.kept)
              · exact fun _ h => nomatch h

/-- After a failed COMMIT or ROLLBACK. -/
theorem wp_finish_error_keeps (hK : Keepable K) (h : Keeps K σ) (id : ℕ) (e : Failure) :
    wp (keeping K) (do
      let autocommit ← Op.autocommit
      Op.modify fun db =>
        if autocommit then { db.finished id with transactionActive := false }
        else { db with transactionActive := true }
      Op.fail e : Operation Unit) (fun _ σ' => Keeps K σ') σ := by
  simp only [wp_op_bind, wp_autocommit, wp_modify, wp_fail]
  split_ifs
  · exact h.wrapper hK rfl rfl
  · exact h.wrapper hK rfl rfl

theorem wp_finish_keeps (hK : Keepable K) (h : Keeps K σ) (id : ℕ) (commit : Bool)
    (hroll : commit = false → σ.wrapper.active id = true → σ.conn.txn.isSome →
      K σ.wrapper σ.file) :
    wp (keeping K) (finishTransaction (D := dialect) id commit) (fun _ σ' => Keeps K σ') σ := by
  unfold finishTransaction
  rw [wp_op_bind, wp_get]
  dsimp only
  by_cases ha : σ.wrapper.active id = true
  · rw [if_neg (by simp [ha]), wp_op_bind, wp_attempt]
    cases commit with
    | true =>
        refine wp_harmless hK h trivial fun r σ₁ h₁ _ _ => ?_
        cases r with
        | ok x => exact h₁.wrapper hK rfl rfl
        | error e => exact wp_finish_error_keeps hK h₁ id e
    | false =>
        refine wp_control hK h ?_ ?_ ?_ fun r σ₁ h₁ _ _ => ?_
        · exact fun _ h => nomatch h
        · exact fun _ => hroll rfl ha
        · exact fun _ h => nomatch h
        · cases r with
          | ok x => exact h₁.wrapper hK rfl rfl
          | error e => exact wp_finish_error_keeps hK h₁ id e
  · rw [if_pos (by simpa using ha)]
    exact h

theorem wp_destroy_keeps (hK : Keepable K) (h : Keeps K σ) (id : ℕ)
    (hroll : σ.wrapper.active id = true → σ.conn.txn.isSome → K σ.wrapper σ.file) :
    wp (keeping K) (Runtime.destroy (D := dialect) id) (fun _ σ' => Keeps K σ') σ := by
  unfold Runtime.destroy
  rw [wp_op_bind, wp_get]
  dsimp only
  split_ifs
  · rw [wp_op_bind, wp_attempt]
    apply wp_mono (wp_finish_keeps hK h id false fun _ => hroll)
    intro r σ₁ h₁
    exact h₁.wrapper hK rfl rfl
  · exact h.wrapper hK rfl rfl

theorem wp_savepointBegin_keeps (hK : Keepable K) (h : Keeps K σ) (name : Bytes) :
    wp (keeping K) (Runtime.savepointBegin (D := dialect) name) (fun _ σ' => Keeps K σ') σ := by
  unfold Runtime.savepointBegin
  split_ifs
  · exact h
  rw [wp_op_bind, wp_get]
  dsimp only
  split_ifs
  · exact h
  · exact h
  rw [wp_op_bind]
  refine wp_harmless hK h trivial fun r σ₁ h₁ _ _ => ?_
  cases r with
  | error e => exact h₁
  | ok serial => exact h₁.wrapper hK rfl rfl

theorem wp_release_keeps (hK : Keepable K) (h : Keeps K σ) (name : Bytes) :
    wp (keeping K) (do
      execSql (D := dialect) .savepoint (.release (foldCase name))
      Op.modify fun db => { db with savepoints := db.savepoints.tail } : Operation Unit)
      (fun _ σ' => Keeps K σ') σ := by
  rw [wp_op_bind]
  refine wp_harmless hK h trivial fun r σ₁ h₁ _ _ => ?_
  cases r with
  | error e => exact h₁
  | ok x => exact h₁.wrapper hK rfl rfl

theorem wp_savepointRelease_keeps (hK : Keepable K) (h : Keeps K σ) (name : Bytes) :
    wp (keeping K) (Runtime.savepointRelease (D := dialect) name) (fun _ σ' => Keeps K σ') σ := by
  unfold Runtime.savepointRelease
  split_ifs
  · exact h
  rw [wp_op_bind, wp_get]
  dsimp only
  split_ifs
  · exact h
  exact wp_release_keeps hK h name

theorem wp_savepointRollback_keeps (hK : Keepable K) (h : Keeps K σ) (name : Bytes)
    (hm : (Call.savepointRollback name).Meets K σ) :
    wp (keeping K) (Runtime.savepointRollback (D := dialect) name) (fun _ σ' => Keeps K σ') σ := by
  unfold Runtime.savepointRollback
  split_ifs
  · exact h
  rw [wp_op_bind, wp_get]
  dsimp only
  split_ifs with hhead
  · exact h
  rw [wp_op_bind]
  refine wp_control hK h ?_ ?_ ?_ fun r σ₁ h₁ _ _ => ?_
  · exact fun _ h => nomatch h
  · exact fun h => nomatch h
  · intro n hn
    cases hn
    exact hm (not_not.mp hhead)
  · cases r with
    | error e => exact h₁
    | ok x => exact wp_release_keeps hK h₁ name

/-- What a call leaves, with the property. Only the two operations on subscriptions
change more afterwards. -/
def Call.Leaves (K : Database → Tables → Prop) (call : Call) (σ' : Session) : Prop :=
  match call with
  | .store op => ∃ σ₁, Keeps K σ₁ ∧ Resubscribed op σ₁ σ'
  | _ => Keeps K σ'

/-- Every call that meets the condition keeps the property. -/
theorem wp_call_keeps (hK : Keepable K) (h : Keeps K σ) (call : Call) (hm : call.Meets K σ) :
    wp (keeping K) call.program (fun _ σ' => call.Leaves K σ') σ := by
  cases call with
  | begin mode allocates => exact wp_reply (wp_begin_keeps hK h mode allocates)
  | commit id => exact wp_reply (wp_finish_keeps hK h id true fun h => nomatch h)
  | rollback id => exact wp_reply (wp_finish_keeps hK h id false fun _ => hm)
  | destroy id => exact wp_reply (wp_destroy_keeps hK h id hm)
  | savepointBegin name => exact wp_reply (wp_savepointBegin_keeps hK h name)
  | savepointRelease name => exact wp_reply (wp_savepointRelease_keeps hK h name)
  | savepointRollback name => exact wp_reply (wp_savepointRollback_keeps hK h name hm)
  | store op =>
      apply wp_mono (wp_storeOp (hosts_keeping K) h.rooted op)
      exact fun r σ' he => h.ends hK he

end Esdb.ObjectStore
