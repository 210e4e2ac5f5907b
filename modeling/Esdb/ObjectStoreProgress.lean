import Esdb.ObjectStoreMutations
import Esdb.ObjectStoreScope

/-!
# What an operation of the store does

Every operation is a sequence of a few kinds of moves: it reads, it applies a
mutation as a whole, a mutation fails, or it raises the schema flag over content
that has the tables. The mutations an operation has applied are accounted for by
its result.
-/
namespace Esdb.ObjectStore

open Transactional Esdb.Runtime

theorem Mutation.Applies.unfinished {m : Mutation} {d d' : Tables} (h : m.Applies d d') :
    Unfinished d d' := by
  cases m with
  | firstUse => exact unfinished_of_reaches (.of_denote h)
  | prune through rows =>
      obtain ⟨revisions, h, -⟩ := h
      exact .single ⟨Sql.pruneChanges through, revisions, h⟩
  | pruneRejected through =>
      obtain ⟨revisions, h, -⟩ := h
      exact .single ⟨Sql.pruneChanges through, revisions, h⟩
  | _ => exact unfinished_of_reaches (.of_denote h.2)

theorem unfinished_complete {d d' : Tables} (h : Unfinished d d') (hd : d.Complete) :
    d'.Complete := by
  refine h.preserves (P := Tables.Complete) ?_ hd
  intro s r d d' he
  exact Sql.eval_complete he

/-! ## Progress -/

/-- A contract under which the operations run: others keep the tables, and what
others are promised admits every mutation. -/
structure Hosts (C : StoreContract) : Prop where
  tables : ∀ d d', C.rely d d' → Tables.Complete d → Tables.Complete d'
  mutation : ∀ (m : Mutation) d d', m.Applies d d' → C.guar d d'

/-- The session with the schema flag raised. -/
def raised (σ : Session) : Session :=
  { σ with wrapper := { σ.wrapper with objectStoreSchemaReady := true } }

/-- The moves from one session to another, with the mutations applied in order. -/
inductive Progress (C : StoreContract) : List Mutation → Session → Session → Prop
  | refl (σ : Session) : Progress C [] σ σ
  | quiet {ms : List Mutation} {σ σ₁ σ' : Session} (h : Acts C Eq [] σ σ₁)
      (hw : σ₁.wrapper = σ.wrapper) (hp : Progress C ms σ₁ σ') : Progress C ms σ σ'
  | mutated {m : Mutation} {ms : List Mutation} {σ σ₁ σ' : Session} (h : Acts C m.Applies [] σ σ₁)
      (hw : SameHandles σ.wrapper σ₁.wrapper) (hp : Progress C ms σ₁ σ') : Progress C (m :: ms) σ σ'
  | failed {ms : List Mutation} {σ σ₁ σ' : Session} (h : Failed C σ σ₁)
      (hw : SameHandles σ.wrapper σ₁.wrapper) (hp : Progress C ms σ₁ σ') : Progress C ms σ σ'
  | ready {ms : List Mutation} {σ σ' : Session} (h : σ.view.Complete)
      (hp : Progress C ms (raised σ) σ') : Progress C ms σ σ'

variable {C : StoreContract} {α : Type} {σ σ₁ σ' : Session} {ms ms' : List Mutation}

theorem Progress.trans (h₁ : Progress C ms σ σ₁) (h₂ : Progress C ms' σ₁ σ') :
    Progress C (ms ++ ms') σ σ' := by
  induction h₁ with
  | refl => exact h₂
  | quiet h hw _ ih => exact .quiet h hw (ih h₂)
  | mutated h hw _ ih => exact .mutated h hw (ih h₂)
  | failed h hw _ ih => exact .failed h hw (ih h₂)
  | ready h _ ih => exact .ready h (ih h₂)

theorem Progress.of_quiet (h : Acts C Eq [] σ σ') (hw : σ'.wrapper = σ.wrapper) :
    Progress C [] σ σ' := .quiet h hw (.refl _)

theorem Progress.of_mutated {m : Mutation} (h : Acts C m.Applies [] σ σ')
    (hw : SameHandles σ.wrapper σ'.wrapper) : Progress C [m] σ σ' := .mutated h hw (.refl _)

theorem Progress.of_failed (h : Failed C σ σ') (hw : SameHandles σ.wrapper σ'.wrapper) :
    Progress C [] σ σ' := .failed h hw (.refl _)

theorem Failed.rooted (h : Failed C σ σ') (hroot : σ.conn.Rooted) : σ'.conn.Rooted := by
  cases h with
  | quiet h => exact h.rooted hroot
  | aborted h => exact h.rooted
  | zombie ht t d hc ha hs hi hf hd hm =>
      intro t' ht' hi'
      rw [hc] at ht'
      obtain rfl := Option.some.inj ht'
      simp [hi] at hi'
  | stuck t sp ht hs h hm => exact h.rooted hroot
  | leftover t sp ht hs h hm => exact h.rooted hroot

theorem Progress.rooted (h : Progress C ms σ σ') (hroot : σ.conn.Rooted) : σ'.conn.Rooted := by
  induction h with
  | refl => exact hroot
  | quiet h _ _ ih => exact ih (h.rooted hroot)
  | mutated h _ _ ih => exact ih (h.rooted hroot)
  | failed h _ _ ih => exact ih (h.rooted hroot)
  | ready _ _ ih => exact ih hroot

/-- Operations keep to the schema flag and the mirror; handles and subscriptions
are none of their business. -/
def SameSubscriptions (db db' : Database) : Prop :=
  db' = { db with
    transactionActive := db'.transactionActive
    savepoints := db'.savepoints
    objectStoreSchemaReady := db'.objectStoreSchemaReady }

theorem SameSubscriptions.refl (db : Database) : SameSubscriptions db db := rfl

theorem SameSubscriptions.trans {a b c : Database} (h₁ : SameSubscriptions a b)
    (h₂ : SameSubscriptions b c) : SameSubscriptions a c := by
  unfold SameSubscriptions at *
  rw [h₂, h₁]

theorem SameHandles.subscriptions {a b : Database} (h : SameHandles a b) :
    SameSubscriptions a b := by
  unfold SameHandles SameSubscriptions at *
  rw [h]

theorem Progress.subscriptions (h : Progress C ms σ σ') :
    SameSubscriptions σ.wrapper σ'.wrapper := by
  induction h with
  | refl => exact .refl _
  | quiet _ hw _ ih => exact hw ▸ ih
  | mutated _ hw _ ih => exact hw.subscriptions.trans ih
  | failed _ hw _ ih => exact hw.subscriptions.trans ih
  | @ready _ σ _ _ _ ih =>
      have hr : SameSubscriptions σ.wrapper (raised σ).wrapper := rfl
      exact hr.trans ih

/-! ## Reads and single statements -/

/-- What a read of the statement `s` may come back with. -/
def Read (C : StoreContract) (q : Query α) (s : Sql) (σ : Session) (r : Except Failure α)
    (σ' : Session) : Prop :=
  Progress C [] σ σ' ∧ match r with
    | .ok x => σ'.wrapper = σ.wrapper ∧ Acts C (fun d d' => d = d' ∧ q.denote d = .ok (x, d)) [] σ σ'
    | .error e => q.denote σ'.view = .error e ∨ σ'.conn.txn = none ∨
        ∃ e', C.allows σ' (.stmt s) (.fail e')

theorem wp_read {q : Query α} {s : Sql} (hq : q.Reading s) (σ : Session) :
    wp C (ask q) (Read C q s σ) σ := by
  apply wp_mono (wp_reading hq σ)
  rintro r σ' ⟨hw, h⟩
  cases r with
  | ok x => exact ⟨.of_quiet (h.mono fun d d' hd => hd.1) hw, hw, h⟩
  | error e =>
      rcases h with h | ⟨h, hwhy⟩
      · exact ⟨.of_failed (.aborted h) (.of_eq hw), .inr (.inl h.2.1)⟩
      · exact ⟨.of_quiet h hw, hwhy⟩

theorem single_intro (h : Refusal ℤ → Failure) (s : Sql) (k : s.Row → Query α)
    (hk : ∀ r, (∃ x, k r = .ret x) ∨ ∃ e, k r = .fail e) :
    (Transactional.Query.stmt h s k : Query α).Single s :=
  Transactional.Query.Single.intro (L := dialect.language) h s k hk

theorem reading_statementIn (phase : Phase) {s : Sql} (hs : s.writes = false) :
    (statementIn phase s).Reading s :=
  ⟨single_intro _ s _ fun r => .inl ⟨r, rfl⟩, hs⟩

theorem reading_statement {s : Sql} (hs : s.writes = false) : (statement s).Reading s :=
  reading_statementIn .objectStore hs

theorem reading_inspectStoreTableCount : inspectStoreTableCount.Reading Sql.tableCount := by
  refine ⟨single_intro _ Sql.tableCount _ fun r => ?_, rfl⟩
  by_cases hr : 4 < r
  · exact .inr ⟨_, if_pos hr⟩
  · exact .inl ⟨_, if_neg hr⟩

theorem reading_checkSchemaVersion : checkSchemaVersion.Reading Sql.schemaVersion := by
  refine ⟨single_intro _ Sql.schemaVersion _ fun r => ?_, rfl⟩
  match r with
  | none => exact .inr ⟨_, rfl⟩
  | some (.text version) =>
      by_cases hv : version = schemaVersionText
      · exact .inl ⟨_, if_pos hv⟩
      · exact .inr ⟨_, if_neg hv⟩
  | some .null => exact .inr ⟨_, rfl⟩
  | some (.integer _) => exact .inr ⟨_, rfl⟩
  | some .real => exact .inr ⟨_, rfl⟩
  | some (.blob _) => exact .inr ⟨_, rfl⟩

/-- The continuation of `readStoreRevisionMetadata`. -/
def checkRevision : Option (Cell × Cell) → Query ℕ
  | none => .fail (corrupt "missing ESDB Store revision metadata")
  | some (.text text, .integer sequence) =>
      match parseRevisionText text with
      | none => .fail (corrupt "ESDB Store revision metadata is inconsistent")
      | some revision =>
          if sequence < 0 ∨ (revision : ℤ) ≠ sequence then
            .fail (corrupt "ESDB Store revision metadata is inconsistent")
          else pure revision
  | some _ => .fail (corrupt "ESDB Store revision metadata has an invalid storage type")

theorem readStoreRevisionMetadata_eq :
    readStoreRevisionMetadata = statement .revisionMetadata >>= checkRevision := rfl

theorem reading_readStoreRevisionMetadata :
    readStoreRevisionMetadata.Reading Sql.revisionMetadata := by
  rw [readStoreRevisionMetadata_eq]
  refine ⟨single_intro _ Sql.revisionMetadata _ fun r => ?_, rfl⟩
  change (∃ x, checkRevision r = .ret x) ∨ ∃ e, checkRevision r = .fail e
  unfold checkRevision
  split
  · exact .inr ⟨_, rfl⟩
  · split
    · exact .inr ⟨_, rfl⟩
    · split_ifs
      · exact .inr ⟨_, rfl⟩
      · exact .inl ⟨_, rfl⟩
  · exact .inr ⟨_, rfl⟩

theorem reading_findStoreId (name : Bytes) : (findStoreId name).Reading (Sql.storeId name) := by
  refine ⟨single_intro _ (Sql.storeId name) _ fun r => ?_, rfl⟩
  cases r with
  | none => exact .inr ⟨_, rfl⟩
  | some id => exact .inl ⟨_, rfl⟩

/-- What a write of one statement may come back with. -/
theorem wp_write {q : Query α} {s : Sql} (hq : q.Single s) (hg : ∀ d d', q.Reaches d d' → C.guar d d')
    (σ : Session) : wp C (ask q) (fun r σ' => match r with
      | .ok x => σ'.wrapper = σ.wrapper ∧ Acts C (fun d d' => q.denote d = .ok (x, d')) [] σ σ'
      | .error e => Progress C [] σ σ' ∨ (σ'.wrapper = σ.wrapper ∧
          Acts C (fun d d' => q.denote d = .error e ∧ q.Reaches d d') [] σ σ')) σ := by
  apply wp_mono (wp_single hq hg σ)
  intro r σ' h
  cases h with
  | done hw h => exact ⟨hw, h⟩
  | rejected hw h hd => exact .inr ⟨hw, h⟩
  | denied hw h hd => exact .inl (.of_quiet h hw)
  | busy hw h hs => exact .inl (.of_quiet h hw)
  | faulted e' hw h ha => exact .inl (.of_quiet h hw)
  | aborted hw h => exact .inl (.of_failed (.aborted h) (.of_eq hw))

end Esdb.ObjectStore
