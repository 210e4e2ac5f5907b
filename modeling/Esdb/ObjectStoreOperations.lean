import Esdb.ObjectStoreProgress

/-!
# Each operation, accounted for

For each operation of the store, which mutations its progress may consist of,
given its result. An operation that is the first to use the store may have
created the schema before it does anything of its own, also when it then fails.
-/
namespace Esdb.ObjectStore

open Transactional Esdb.Runtime

variable {C : StoreContract} {α β : Type} {σ σ₁ σ' : Session} {ms ms' : List Mutation}

/-- Nothing, or the creation of the schema on first use. -/
def Initial (ms : List Mutation) : Prop := ms = [] ∨ ms = [.firstUse]

theorem Initial.nil : Initial [] := .inl rfl

/-! ## The schema -/

theorem initializeSchema_ne_ret (x : Unit) : initializeSchema ≠ .ret x :=
  fun h => nomatch h

/-- Others keep the tables, and so does doing nothing. -/
theorem Acts.complete (hC : Hosts C) {above : List StoreSavepoint} (h : Acts C Eq above σ σ')
    (hc : σ.view.Complete) : σ'.view.Complete :=
  h.view hC.tables (fun _ _ he hd => he ▸ hd) hc

/-- How the schema check may end. -/
def Ensured (C : StoreContract) (σ : Session) (r : Except Failure Unit) (σ' : Session) : Prop :=
  ∃ ms, Progress C ms σ σ' ∧ Initial ms ∧
    (r = .ok () → σ'.wrapper.objectStoreSchemaReady = true)

theorem wp_ready (hC : Hosts C) (hp : Progress C ms σ σ₁) (hms : Initial ms)
    (hc : σ₁.view.Complete) :
    wp C (do
      ask checkSchemaVersion
      let _ ← ask readStoreRevisionMetadata
      Op.modify fun db => { db with objectStoreSchemaReady := true } : Operation Unit)
      (Ensured C σ) σ₁ := by
  have hfail : ∀ {r : Failure} {σ₂ : Session}, Progress C [] σ₁ σ₂ →
      Ensured C σ (.error r) σ₂ := by
    intro r σ₂ h
    exact ⟨ms, by simpa using hp.trans h, hms, fun h => nomatch h⟩
  rw [wp_op_bind]
  apply wp_mono (wp_read reading_checkSchemaVersion σ₁)
  rintro r σ₂ ⟨h₁, hr⟩
  cases r with
  | error e => exact hfail h₁
  | ok x =>
      have hc₂ := Acts.complete hC (hr.2.mono fun _ _ hd => hd.1) hc
      dsimp only
      rw [wp_op_bind]
      apply wp_mono (wp_read reading_readStoreRevisionMetadata σ₂)
      rintro r σ₃ ⟨h₂, hr⟩
      cases r with
      | error e => exact hfail (h₁.trans h₂)
      | ok x =>
          have hc₃ := Acts.complete hC (hr.2.mono fun _ _ hd => hd.1) hc₂
          rw [wp_modify]
          have hlast : Progress C [] σ₃ (raised σ₃) := .ready hc₃ (.refl _)
          have hall : Progress C ms σ (raised σ₃) := by
            simpa using hp.trans ((h₁.trans h₂).trans hlast)
          exact ⟨ms, hall, hms, fun _ => rfl⟩

theorem wp_ensureObjectStoreSchema (hC : Hosts C) (hroot : σ.conn.Rooted) :
    wp C ensureObjectStoreSchema (Ensured C σ) σ := by
  have hrefuse : ∀ {e : Failure} {σ₁ : Session}, Progress C [] σ σ₁ → Ensured C σ (.error e) σ₁ :=
    fun h => ⟨_, h, .nil, fun h => nomatch h⟩
  unfold ensureObjectStoreSchema
  rw [wp_op_bind, wp_get]
  dsimp only
  by_cases hready : σ.wrapper.objectStoreSchemaReady = true
  · rw [if_pos hready]
    exact ⟨_, .refl σ, .nil, fun _ => hready⟩
  rw [if_neg hready]
  by_cases hmissing : σ.wrapper.readOnly < 0
  · rw [if_pos hmissing]
    exact hrefuse (.refl σ)
  rw [if_neg hmissing, wp_op_bind]
  apply wp_mono (wp_read reading_inspectStoreTableCount σ)
  rintro r σ₁ ⟨h₁, hr⟩
  cases r with
  | error e => exact hrefuse h₁
  | ok count =>
      dsimp only
      by_cases hpart : count ≠ 0 ∧ count ≠ 4
      · rw [if_pos hpart]
        exact hrefuse h₁
      rw [if_neg hpart]
      by_cases hzero : count = 0
      · rw [if_pos hzero]
        by_cases hro : σ.wrapper.readOnly ≠ 0
        · rw [if_pos hro]
          exact hrefuse h₁
        rw [if_neg hro, wp_op_bind]
        apply wp_mono (wp_withStoreMutation initializeSchema_ne_ret
          (fun d x d' h => hC.mutation .firstUse d d' h) (h₁.rooted hroot))
        rintro r σ₂ ⟨hw, hr⟩
        cases r with
        | error e => exact hrefuse (h₁.trans (.of_failed hr hw))
        | ok x =>
            have hp₂ : Progress C [.firstUse] σ σ₂ := h₁.trans (.of_mutated hr hw)
            exact wp_ready hC hp₂ (.inr rfl)
              (hr.establishes hC.tables fun d d' h => initializeSchema_complete h)
      · rw [if_neg hzero]
        obtain rfl : count = 4 := by omega
        apply wp_ready hC h₁ .nil
        refine hr.2.establishes hC.tables fun d d' h => ?_
        obtain ⟨rfl, h⟩ := h
        exact Tables.complete_iff_tableCount.mpr (inspectStoreTableCount_denote.mp h).1.symm

/-- What an operation does once its arguments have been checked. -/
theorem wp_after_schema (hC : Hosts C) (hroot : σ.conn.Rooted) {p : Operation α}
    {post : Except Failure α → Session → Prop}
    (hfail : ∀ ms e σ₁, Progress C ms σ σ₁ → Initial ms → post (.error e) σ₁)
    (hok : ∀ ms σ₁, Progress C ms σ σ₁ → Initial ms → σ₁.conn.Rooted → wp C p post σ₁) :
    wp C (do
      ensureObjectStoreSchema
      p : Operation α) post σ := by
  rw [wp_op_bind]
  apply wp_mono (wp_ensureObjectStoreSchema hC hroot)
  rintro r σ₁ ⟨ms, hp, hms, -⟩
  cases r with
  | error e => exact hfail ms e σ₁ hp hms
  | ok x => exact hok ms σ₁ hp hms (hp.rooted hroot)

/-! ## Accounts -/

/-- The schema was seen to, and then the mutations `account` allows were applied. -/
def Accounts (C : StoreContract) (σ : Session) (account : Except Failure α → List Mutation → Prop)
    (r : Except Failure α) (σ' : Session) : Prop :=
  ∃ first rest, Progress C (first ++ rest) σ σ' ∧ Initial first ∧ account r rest

variable {account account' : Except Failure α → List Mutation → Prop} {r : Except Failure α}

theorem Accounts.mono (h : Accounts C σ account r σ') (ha : ∀ ms, account r ms → account' r ms) :
    Accounts C σ account' r σ' := by
  obtain ⟨first, rest, hp, hf, hr⟩ := h
  exact ⟨first, rest, hp, hf, ha _ hr⟩

theorem Accounts.refl (h : account r []) : Accounts C σ account r σ :=
  ⟨[], [], .refl σ, .nil, h⟩

theorem Accounts.of_initial (hp : Progress C ms σ σ') (hms : Initial ms) (h : account r []) :
    Accounts C σ account r σ' := ⟨ms, [], by simpa using hp, hms, h⟩

theorem Accounts.of_rest {rest : List Mutation} (hp : Progress C ms σ σ₁) (hms : Initial ms)
    (hrest : Progress C rest σ₁ σ') (h : account r rest) : Accounts C σ account r σ' :=
  ⟨ms, rest, hp.trans hrest, hms, h⟩

def untouched (_ : Except Failure α) (ms : List Mutation) : Prop := ms = []

def ensureAccount (name : Bytes) (_ : Except Failure Unit) (ms : List Mutation) : Prop :=
  ms = [] ∨ ms = [.register name]

def putAccount (name key : Bytes) (value : Value) : Except Failure ℤ → List Mutation → Prop
  | .ok revision, ms => ms = [.put name key value revision]
  | .error _, ms => ms = []

def deleteAccount (key : Bytes) : Except Failure (Option ℤ) → List Mutation → Prop
  | .ok (some revision), ms => ∃ storeId, ms = [.delete storeId key (some revision)]
  | .ok none, ms => ms = [] ∨ ∃ storeId, ms = [.delete storeId key none]
  | .error _, ms => ms = []

def pruneAccount (through : ℕ) : Except Failure ℕ → List Mutation → Prop
  | .ok rows, ms => ms = [.prune through rows]
  | .error _, ms => ms = [] ∨ ms = [.pruneRejected through]

/-! ## Mutating operations -/

theorem wp_requireStoreWritable {post : Except Failure Unit → Session → Prop}
    (h : ∀ r, post r σ) : wp C requireStoreWritable post σ := by
  unfold requireStoreWritable
  rw [wp_op_bind, wp_get]
  dsimp only
  split_ifs
  · exact h _
  · exact h _
  · exact h _

/-- The last read of an `ensure` found its store missing or failed. -/
def Unread (C : StoreContract) (name : Bytes) (σ : Session) : Prop :=
  (∃ e, (findStoreId name).denote σ.view = .error e) ∨ σ.conn.txn = none ∨
    ∃ e, C.allows σ (.stmt (.storeId name)) (.fail e)

/-- An `ensure`, and what is known when it fails with its store registered. -/
def EnsureEnds (C : StoreContract) (name : Bytes) (σ : Session) (r : Except Failure Unit)
    (σ' : Session) : Prop :=
  Accounts C σ (fun r ms => ensureAccount name r ms ∧
    (∀ e, r = .error e → ms = [] ∨ Unread C name σ')) r σ'

theorem wp_register (hC : Hosts C) {name : Bytes} (hv : validStoreName name = true) (σ : Session) :
    wp C (ask (getStoreId name true)) (fun r σ' => ∃ ms, Progress C ms σ σ' ∧
      (ms = [] ∨ ms = [.register name]) ∧ (∀ e, r = .error e → ms = [] ∨ Unread C name σ')) σ := by
  unfold getStoreId
  rw [if_pos rfl, ask, Transactional.Query.toOp_bind, wp_op_bind]
  have hsingle : (statement (.registerStore name)).Single (Sql.registerStore name) :=
    single_intro _ _ _ fun r => .inl ⟨r, rfl⟩
  have happlies : ∀ d d', (statement (.registerStore name)).denote d = .ok ((), d') →
      (Mutation.register name).Applies d d' := fun d d' h => ⟨hv, h⟩
  have hno : ∀ d e, (statement (.registerStore name)).denote d = .error e →
      ∀ d', (statement (.registerStore name)).Reaches d d' → d' = d := by
    intro d e he d' hr
    cases hr with
    | start => rfl
    | @next _ _ _ x _ _ _ hs hk =>
        cases hk
        have hs : (Sql.registerStore name).eval d = .ok (x, d') := hs
        rw [denote_statement.mpr hs] at he
        cases he
  apply wp_mono (wp_write hsingle ?_ σ)
  · intro r σ₁ h
    cases r with
    | error e =>
        refine ⟨[], ?_, .inl rfl, fun _ _ => .inl rfl⟩
        rcases h with h | ⟨hw, h⟩
        · exact h
        · exact .of_quiet (h.mono fun d d' hd => (hno d e hd.1 d' hd.2).symm) hw
    | ok x =>
        have hp : Progress C [.register name] σ σ₁ :=
          .of_mutated (h.2.mono happlies) (.of_eq h.1)
        apply wp_mono (wp_read (reading_findStoreId name) σ₁)
        rintro r σ₂ ⟨h₂, hr⟩
        refine ⟨[.register name], hp.trans h₂, .inr rfl, ?_⟩
        rintro e rfl
        exact .inr (hr.imp (fun h => ⟨e, h⟩) id)
  · intro d d' hr
    cases hr with
    | start => exact C.guar_refl d
    | @next _ _ _ x _ _ _ hs hk =>
        cases hk
        exact hC.mutation (.register name) d d' ⟨hv, denote_statement.mpr hs⟩

theorem wp_ensure (hC : Hosts C) (hroot : σ.conn.Rooted) (name : Bytes) :
    wp C (ensure name) (EnsureEnds C name σ) σ := by
  have hnone : ∀ {r : Except Failure Unit} {σ' : Session} {ms : List Mutation},
      Progress C ms σ σ' → Initial ms → EnsureEnds C name σ r σ' := fun hp hms =>
    .of_initial hp hms ⟨.inl rfl, fun _ _ => .inl rfl⟩
  unfold ensure
  by_cases hv : (!validStoreName name) = true
  · rw [if_pos hv]
    exact hnone (.refl σ) .nil
  rw [if_neg hv]
  apply wp_after_schema hC hroot
  · exact fun ms e σ₁ hp hms => hnone hp hms
  intro ms σ₁ hp hms hroot₁
  rw [wp_op_bind, wp_attempt]
  apply wp_mono (wp_read (reading_findStoreId name) σ₁)
  rintro r σ₂ ⟨h₂, -⟩
  have hp₂ : Progress C ms σ σ₂ := by simpa using hp.trans h₂
  cases r with
  | ok x => exact hnone hp₂ hms
  | error e =>
      dsimp only
      by_cases he : e.status ≠ .notFound
      · rw [if_pos he]
        exact hnone hp₂ hms
      rw [if_neg he, wp_op_bind]
      apply wp_requireStoreWritable
      intro r
      cases r with
      | error e => exact hnone hp₂ hms
      | ok x =>
          dsimp only
          rw [wp_op_bind]
          apply wp_mono (wp_register hC (by simpa using hv) σ₂)
          rintro r σ₃ ⟨rest, h₃, hrest, hwhy⟩
          cases r with
          | error e => exact .of_rest hp₂ hms h₃ ⟨hrest, fun _ _ => hwhy e rfl⟩
          | ok x =>
              rw [wp_pure]
              exact .of_rest hp₂ hms h₃ ⟨hrest, fun e he => nomatch he⟩

theorem putBody_ne_ret (name key : Bytes) (value : Value) (x : ℤ) :
    putBody name key value ≠ .ret x := by
  unfold putBody getStoreId
  rw [if_pos rfl]
  exact fun h => nomatch h

theorem deleteBody_ne_ret (storeId : ℤ) (key : Bytes) (x : Option ℤ) :
    deleteBody storeId key ≠ .ret x :=
  fun h => nomatch h

theorem wp_put (hC : Hosts C) (hroot : σ.conn.Rooted) (name key : Bytes) (value : Value) :
    wp C (put name key value) (Accounts C σ (putAccount name key value)) σ := by
  unfold put
  by_cases hv : (!validStoreName name || !validStoreKey key || !validValueType value.type) = true
  · rw [if_pos hv]
    exact .refl rfl
  rw [if_neg hv]
  simp only [Bool.or_eq_true, Bool.not_eq_true', not_or, Bool.not_eq_false] at hv
  apply wp_after_schema hC hroot
  · exact fun ms e σ₁ hp hms => .of_initial hp hms rfl
  intro ms σ₁ hp hms hroot₁
  rw [wp_op_bind]
  apply wp_requireStoreWritable
  intro r
  cases r with
  | error e => exact .of_initial hp hms rfl
  | ok x =>
      have happlies : ∀ revision d d', (putBody name key value).denote d = .ok (revision, d') →
          (Mutation.put name key value revision).Applies d d' := fun _ _ _ h =>
        ⟨⟨hv.1.1, hv.1.2, hv.2⟩, h⟩
      apply wp_mono (wp_withStoreMutation (putBody_ne_ret name key value)
        (fun d x d' h => hC.mutation _ d d' (happlies x d d' h)) hroot₁)
      rintro r σ₂ ⟨hw, h⟩
      cases r with
      | error e => exact .of_rest hp hms (.of_failed h hw) rfl
      | ok revision => exact .of_rest hp hms (.of_mutated (h.mono (happlies revision)) hw) rfl

theorem wp_delete (hC : Hosts C) (hroot : σ.conn.Rooted) (name key : Bytes) :
    wp C (delete name key) (Accounts C σ (deleteAccount key)) σ := by
  unfold delete
  by_cases hv : (!validStoreName name || !validStoreKey key) = true
  · rw [if_pos hv]
    exact .refl rfl
  rw [if_neg hv]
  simp only [Bool.or_eq_true, Bool.not_eq_true', not_or, Bool.not_eq_false] at hv
  apply wp_after_schema hC hroot
  · exact fun ms e σ₁ hp hms => .of_initial hp hms rfl
  intro ms σ₁ hp hms hroot₁
  rw [wp_op_bind, wp_attempt]
  apply wp_mono (wp_read (reading_findStoreId name) σ₁)
  rintro r σ₂ ⟨h₂, -⟩
  have hp₂ : Progress C ms σ σ₂ := by simpa using hp.trans h₂
  cases r with
  | error e =>
      dsimp only
      split_ifs
      · exact .of_initial hp₂ hms (.inl rfl)
      · exact .of_initial hp₂ hms rfl
  | ok storeId =>
      dsimp only
      rw [wp_op_bind]
      apply wp_requireStoreWritable
      intro r
      cases r with
      | error e => exact .of_initial hp₂ hms rfl
      | ok x =>
          have happlies : ∀ revision d d',
              (deleteBody storeId key).denote d = .ok (revision, d') →
              (Mutation.delete storeId key revision).Applies d d' := fun _ _ _ h => ⟨hv.2, h⟩
          apply wp_mono (wp_withStoreMutation (deleteBody_ne_ret storeId key)
            (fun d x d' h => hC.mutation _ d d' (happlies x d d' h)) (h₂.rooted hroot₁))
          rintro r σ₃ ⟨hw, h⟩
          cases r with
          | error e => exact .of_rest hp₂ hms (.of_failed h hw) rfl
          | ok revision =>
              have hdone : Progress C [.delete storeId key revision] σ₂ σ₃ :=
                .of_mutated (h.mono (happlies revision)) hw
              refine .of_rest hp₂ hms hdone ?_
              cases revision with
              | none => exact .inr ⟨storeId, rfl⟩
              | some revision => exact ⟨storeId, rfl⟩

/-- The row loop of a prune. -/
def pruneRows (revisions : List ℤ) : Query ℕ :=
  if revisions.any (· ≤ 0) then .fail (corrupt "change prune returned an invalid revision")
  else pure revisions.length

theorem pruneBody_eq (through : ℕ) :
    pruneBody through = statement (.pruneChanges through) >>= pruneRows := rfl

theorem single_pruneBody (through : ℕ) : (pruneBody through).Single (Sql.pruneChanges through) := by
  refine single_intro _ (Sql.pruneChanges through) pruneRows fun r => ?_
  unfold pruneRows
  split_ifs
  · exact .inr ⟨_, rfl⟩
  · exact .inl ⟨_, rfl⟩

/-- A prune deletes its rows, whatever its row loop then says. -/
theorem pruneBody_denote {through : ℕ} {revisions : List ℤ} {d d' : Tables}
    (h : (Sql.pruneChanges through).eval d = .ok (revisions, d')) :
    (pruneBody through).denote d =
      if revisions.any (· ≤ 0) = true then
        .error (corrupt "change prune returned an invalid revision")
      else .ok (revisions.length, d') := by
  rw [pruneBody_eq, Transactional.Query.denote_bind, denote_statement.mpr h]
  simp only [pruneRows]
  split_ifs <;> rfl

theorem pruneBody_applies {through rows : ℕ} {d d' : Tables}
    (h : (pruneBody through).denote d = .ok (rows, d')) :
    (Mutation.prune through rows).Applies d d' := by
  rw [pruneBody_eq] at h
  obtain ⟨revisions, d₁, h₁, h⟩ := Transactional.Query.denote_bind_ok.mp h
  rw [denote_statement] at h₁
  unfold pruneRows at h
  split_ifs at h
  · cases h
  · cases h
    exact ⟨revisions, h₁, rfl⟩

theorem pruneBody_rejected {through : ℕ} {e : Failure} {d d' : Tables}
    (h : (pruneBody through).denote d = .error e) (hr : (pruneBody through).Reaches d d') :
    d = d' ∨ (Mutation.pruneRejected through).Applies d d' := by
  rcases (single_pruneBody through).reaches hr with rfl | ⟨revisions, he⟩
  · exact .inl rfl
  · refine .inr ⟨revisions, he, ?_⟩
    rw [pruneBody_denote he] at h
    by_contra hany
    rw [if_neg hany] at h
    cases h

theorem wp_pruneChanges (hC : Hosts C) (hroot : σ.conn.Rooted) (through : ℕ) :
    wp C (pruneChanges through) (Accounts C σ (pruneAccount through)) σ := by
  unfold pruneChanges
  by_cases hv : revisionMax < through
  · rw [if_pos hv]
    exact .refl (.inl rfl)
  rw [if_neg hv]
  apply wp_after_schema hC hroot
  · exact fun ms e σ₁ hp hms => .of_initial hp hms (.inl rfl)
  intro ms σ₁ hp hms hroot₁
  rw [wp_op_bind]
  apply wp_requireStoreWritable
  intro r
  cases r with
  | error e => exact .of_initial hp hms (.inl rfl)
  | ok x =>
      apply wp_mono (wp_single (single_pruneBody through) ?_ σ₁)
      · intro r σ₂ h
        cases h with
        | done hw h =>
            exact .of_rest hp hms
              (.of_mutated (h.mono fun _ _ hd => pruneBody_applies hd) (.of_eq hw)) rfl
        | rejected hw h hd =>
            have h := h.mono fun d d' hd => pruneBody_rejected hd.1 hd.2
            rcases h.eq_or with h | h
            · exact .of_rest hp hms (.of_quiet h hw) (.inl rfl)
            · exact .of_rest hp hms (.of_mutated h (.of_eq hw)) (.inr rfl)
        | denied hw h hd => exact .of_rest hp hms (.of_quiet h hw) (.inl rfl)
        | busy hw h hs => exact .of_rest hp hms (.of_quiet h hw) (.inl rfl)
        | faulted e' hw h ha => exact .of_rest hp hms (.of_quiet h hw) (.inl rfl)
        | aborted hw h => exact .of_rest hp hms (.of_failed (.aborted h) (.of_eq hw)) (.inl rfl)
      · intro d d' hr
        rcases (single_pruneBody through).reaches hr with rfl | ⟨revisions, he⟩
        · exact C.guar_refl _
        · by_cases hany : revisions.any (· ≤ 0) = true
          · exact hC.mutation (.pruneRejected through) d d' ⟨revisions, he, hany⟩
          · exact hC.mutation (.prune through revisions.length) d d' ⟨revisions, he, rfl⟩

/-! ## Reading operations -/

theorem wp_ofExcept {x : Except Failure α} {post : Except Failure α → Session → Prop}
    (h : post x σ) : wp C (ofExcept x) post σ := by
  cases x with
  | error e => exact h
  | ok a => exact h

theorem wp_get_record (hC : Hosts C) (hroot : σ.conn.Rooted) (allocates : Bool)
    (name key : Bytes) : wp C (get allocates name key) (Accounts C σ untouched) σ := by
  unfold get
  split_ifs
  · exact .refl rfl
  apply wp_after_schema hC hroot
  · exact fun ms e σ₁ hp hms => .of_initial hp hms rfl
  intro ms σ₁ hp hms _
  rw [wp_op_bind]
  apply wp_mono (wp_read (reading_statement (s := .readRecord name key) rfl) σ₁)
  rintro r σ₂ ⟨h₂, -⟩
  have hp₂ : Progress C ms σ σ₂ := by simpa using hp.trans h₂
  cases r with
  | error e => exact .of_initial hp₂ hms rfl
  | ok row =>
      cases row with
      | none => exact .of_initial hp₂ hms rfl
      | some x => exact wp_ofExcept (.of_initial hp₂ hms rfl)

theorem wp_exists (hC : Hosts C) (hroot : σ.conn.Rooted) (name key : Bytes) :
    wp C («exists» name key) (Accounts C σ untouched) σ := by
  unfold «exists»
  split_ifs
  · exact .refl rfl
  apply wp_after_schema hC hroot
  · exact fun ms e σ₁ hp hms => .of_initial hp hms rfl
  intro ms σ₁ hp hms _
  apply wp_mono (wp_read (reading_statement (s := .recordExists name key) rfl) σ₁)
  rintro r σ₂ ⟨h₂, -⟩
  have hprogress : Progress C ms σ σ₂ := by simpa using hp.trans h₂
  exact .of_initial hprogress hms rfl

theorem wp_count (hC : Hosts C) (hroot : σ.conn.Rooted) (name : Bytes) :
    wp C (count name) (Accounts C σ untouched) σ := by
  unfold count
  split_ifs
  · exact .refl rfl
  apply wp_after_schema hC hroot
  · exact fun ms e σ₁ hp hms => .of_initial hp hms rfl
  intro ms σ₁ hp hms _
  apply wp_mono (wp_read (reading_statement (s := .recordCount name) rfl) σ₁)
  rintro r σ₂ ⟨h₂, -⟩
  have hprogress : Progress C ms σ σ₂ := by simpa using hp.trans h₂
  exact .of_initial hprogress hms rfl

theorem wp_revision (hC : Hosts C) (hroot : σ.conn.Rooted) :
    wp C revision (Accounts C σ untouched) σ := by
  unfold revision
  apply wp_after_schema hC hroot
  · exact fun ms e σ₁ hp hms => .of_initial hp hms rfl
  intro ms σ₁ hp hms _
  apply wp_mono (wp_read reading_readStoreRevisionMetadata σ₁)
  rintro r σ₂ ⟨h₂, -⟩
  have hprogress : Progress C ms σ σ₂ := by simpa using hp.trans h₂
  exact .of_initial hprogress hms rfl

theorem wp_scan (hC : Hosts C) (hroot : σ.conn.Rooted) (room : SnapshotRoom) (allocates : Bool)
    (name : Bytes) (after : Option Bytes) (limit : ℕ) (callback : ℕ → Verdict) :
    wp C (scan room allocates name after limit callback) (Accounts C σ untouched) σ := by
  have hquiet : ∀ {r : Except Failure (List OwnedRecord)} {ms : List Mutation} {σ' : Session},
      Progress C ms σ σ' → Initial ms → Accounts C σ untouched r σ' := fun hp hms =>
    .of_initial hp hms rfl
  unfold scan
  by_cases hv : (!validStoreName name || !(after.all validStoreKey) || scanLimitMax < limit) = true
  · rw [if_pos hv]
    exact .refl rfl
  rw [if_neg hv]
  by_cases hb : room = .noneBefore
  · rw [if_pos hb]
    exact .refl rfl
  rw [if_neg hb]
  apply wp_after_schema hC hroot
  · exact fun ms e σ₁ hp hms => hquiet hp hms
  intro ms σ₁ hp hms _
  rw [wp_op_bind]
  apply wp_mono (wp_read (reading_statement rfl) σ₁)
  rintro r σ₂ ⟨h₂, -⟩
  have hp₂ : Progress C ms σ σ₂ := by simpa using hp.trans h₂
  cases r with
  | error e => exact hquiet hp₂ hms
  | ok rows =>
      dsimp only
      rw [wp_op_bind]
      apply wp_ofExcept
      cases rows.mapM (ownRecord allocates) with
      | error e => exact hquiet hp₂ hms
      | ok snapshot =>
          dsimp only
          by_cases ha : room = .noneAfter
          · rw [if_pos ha]
            exact hquiet hp₂ hms
          rw [if_neg ha]
          cases deliveredCount callback snapshot.length 0 with
          | none => exact hquiet hp₂ hms
          | some n => exact hquiet hp₂ hms

/-- How many rows a change query asks for. -/
def changeLimit (limit : ℕ) : ℕ := if limit = 0 then changeLimitMax else limit

/-- The changes that a query of `d` delivers to its callback and the callback
accepts. -/
def Delivers (name : Option Bytes) (after limit : ℕ) (callback : ℕ → Verdict) (d : Tables)
    (accepted : List OwnedChange) : Prop :=
  ∃ stores changes snapshot n, d.stores = some stores ∧ d.changes = some changes ∧
    (Tables.viewChanges name after (changeLimit limit) stores changes).mapM ownChange =
      .ok snapshot ∧
    deliveredCount callback snapshot.length 0 = some n ∧ accepted = snapshot.take n

/-- How a change query may end. -/
def Queried (C : StoreContract) (name : Option Bytes) (after limit : ℕ) (callback : ℕ → Verdict)
    (σ : Session) (r : Except Failure (List OwnedChange)) (σ' : Session) : Prop :=
  ∃ ms σ₁, Progress C ms σ σ₁ ∧ Initial ms ∧ match r with
    | .error _ => σ' = σ₁
    | .ok accepted => limit ≤ changeLimitMax ∧ after ≤ revisionMax ∧ σ'.wrapper = σ₁.wrapper ∧
        Acts C (fun d d' => d = d' ∧ Delivers name after limit callback d accepted) [] σ₁ σ'

theorem Queried.accounts {name : Option Bytes} {after limit : ℕ} {callback : ℕ → Verdict}
    {r : Except Failure (List OwnedChange)} (h : Queried C name after limit callback σ r σ') :
    ∃ ms, Progress C ms σ σ' ∧ Initial ms := by
  obtain ⟨ms, σ₁, hp, hms, hr⟩ := h
  cases r with
  | error e => exact ⟨ms, hr ▸ hp, hms⟩
  | ok accepted =>
      have hquiet : Progress C [] σ₁ σ' := .of_quiet (hr.2.2.2.mono fun _ _ hd => hd.1) hr.2.2.1
      exact ⟨ms, by simpa using hp.trans hquiet, hms⟩

theorem changesAfter_eval {name : Option Bytes} {after limit : ℕ} {d : Tables}
    {rows : List ChangeView} (h : (Sql.changesAfter name after limit).eval d = .ok (rows, d)) :
    ∃ stores changes, d.stores = some stores ∧ d.changes = some changes ∧
      rows = Tables.viewChanges name after limit stores changes := by
  simp only [Sql.eval] at h
  cases hs : d.stores with
  | none => simp [hs] at h
  | some stores =>
      cases hc : d.changes with
      | none => simp [hs, hc] at h
      | some changes =>
          simp only [hs, hc, Except.ok.injEq, Prod.mk.injEq, and_true] at h
          exact ⟨stores, changes, rfl, rfl, h.symm⟩

theorem wp_changesSinceImpl (hC : Hosts C) (hroot : σ.conn.Rooted) (room : SnapshotRoom)
    (name : Option Bytes) (after limit : ℕ) (callback : ℕ → Verdict) :
    wp C (changesSinceImpl room name after limit callback)
      (Queried C name after limit callback σ) σ := by
  have hfail : ∀ {e : Failure} {ms : List Mutation} {σ' : Session},
      Progress C ms σ σ' → Initial ms → Queried C name after limit callback σ (.error e) σ' :=
    fun hp hms => ⟨_, _, hp, hms, rfl⟩
  unfold changesSinceImpl
  by_cases hl : changeLimitMax < limit
  · rw [if_pos hl]
    exact hfail (.refl σ) .nil
  rw [if_neg hl]
  by_cases ha : revisionMax < after
  · rw [if_pos ha]
    exact hfail (.refl σ) .nil
  rw [if_neg ha]
  by_cases hn : (!(name.all validStoreName)) = true
  · rw [if_pos hn]
    exact hfail (.refl σ) .nil
  rw [if_neg hn]
  by_cases hb : room = .noneBefore
  · rw [if_pos hb]
    exact hfail (.refl σ) .nil
  rw [if_neg hb]
  apply wp_after_schema hC hroot
  · exact fun ms e σ₁ hp hms => hfail hp hms
  intro ms σ₁ hp hms _
  rw [wp_op_bind]
  apply wp_mono (wp_read (reading_statementIn _ rfl) σ₁)
  rintro r σ₂ ⟨h₂, hr⟩
  have hp₂ : Progress C ms σ σ₂ := by simpa using hp.trans h₂
  cases r with
  | error e => exact hfail hp₂ hms
  | ok rows =>
      dsimp only
      rw [wp_op_bind]
      apply wp_ofExcept
      cases hsnap : rows.mapM ownChange with
      | error e => exact hfail hp₂ hms
      | ok snapshot =>
          dsimp only
          by_cases hroom : room = .noneAfter
          · rw [if_pos hroom]
            exact hfail hp₂ hms
          rw [if_neg hroom]
          cases hcount : deliveredCount callback snapshot.length 0 with
          | none => exact hfail hp₂ hms
          | some n =>
              refine ⟨ms, σ₁, hp, hms, Nat.not_lt.mp hl, Nat.not_lt.mp ha, hr.1, ?_⟩
              refine hr.2.mono fun d d' hd => ⟨hd.1, ?_⟩
              have he := (Transactional.Query.denote_one _ _ _).mp hd.2
              obtain ⟨stores, changes, hs, hc, rfl⟩ := changesAfter_eval he
              exact ⟨stores, changes, snapshot, n, hs, hc, hsnap, hcount, rfl⟩

end Esdb.ObjectStore
