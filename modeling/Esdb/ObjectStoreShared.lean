import Esdb.ObjectStoreSound
import Esdb.ObjectSubscription
import Esdb.TransactionalKept

/-!
# Operations on a shared file

Connections that use the store without transactions of their own. Every operation
takes effect at once, at a moment between its call and its return: it moves the file
by the mutations that its reply accounts for, each of them whole, from whatever the
file had become by then. What a reply says was done is in the file from then on.
-/
namespace Esdb.ObjectStore

open Transactional Esdb.Runtime

/-- A whole mutation. -/
def Mutates (d d' : Tables) : Prop := ∃ m : Mutation, m.Applies d d'

/-- The mutations of one connection, with what others do along `R` in between. -/
inductive Interleaved (R : Tables → Tables → Prop) : List Mutation → Tables → Tables → Prop
  | others {d d' : Tables} (h : R d d') : Interleaved R [] d d'
  | own {m : Mutation} {ms : List Mutation} {d d₁ d₂ d' : Tables} (h : R d d₁)
      (hm : m.Applies d₁ d₂) (hrest : Interleaved R ms d₂ d') : Interleaved R (m :: ms) d d'

/-- Any fault, but for a `ROLLBACK` that fails and leaves the transaction open. -/
def RollsBack (c : Cmd dialect.language) (fault : Fault ℤ) : Prop :=
  match c, fault with
  | .rollback, .fail _ => False
  | _, _ => True

/-- One connection among others that move the file along `R`. -/
def among {R : Tables → Tables → Prop} (hR : Preorders (L := dialect.language) R) :
    StoreContract where
  rely := R
  guar d d' := d' = d ∨ Mutates d d'
  allows _ := RollsBack
  rely_refl := hR.refl
  rely_trans := hR.trans
  guar_refl _ := .inl rfl

section Among

variable {R : Tables → Tables → Prop} {hR : Preorders (L := dialect.language) R}
  {σ σ₁ σ' : Session} {ms : List Mutation} {d d₁ d' : Tables}

theorem Interleaved.after (hR : Preorders (L := dialect.language) R) (h : R d d₁)
    (hi : Interleaved R ms d₁ d') : Interleaved R ms d d' := by
  cases hi with
  | others h' => exact .others (hR.trans h h')
  | own h' hm hrest => exact .own (hR.trans h h') hm hrest

theorem hosts_among (hkeep : ∀ d d', R d d' → Tables.Complete d → Tables.Complete d') :
    Hosts (among hR) where
  tables := hkeep
  mutation := fun m _ _ h => .inr ⟨m, h⟩

/-- Outside a transaction, what an operation comes to is its mutations one by one. -/
theorem Progress.interleaved (hp : Progress (among hR) ms σ σ') (ht : σ.conn.txn = none) :
    σ'.conn.txn = none ∧ Interleaved R ms σ.file σ'.file := by
  induction hp with
  | refl σ => exact ⟨ht, .others (hR.refl _)⟩
  | quiet h _ _ ih =>
      obtain ⟨hn, hi⟩ := ih (h.autocommit.mpr ht)
      exact ⟨hn, .after hR h.rely hi⟩
  | mutated h _ _ ih =>
      obtain ⟨hn, hi⟩ := ih (h.autocommit.mpr ht)
      unfold Acts at h
      simp only [ht] at h
      obtain ⟨-, -, d, d', h₁, hm, h₂⟩ := h
      exact ⟨hn, .own h₁ hm (.after hR h₂ hi)⟩
  | failed h _ _ ih =>
      cases h with
      | quiet h =>
          obtain ⟨hn, hi⟩ := ih (h.autocommit.mpr ht)
          exact ⟨hn, .after hR h.rely hi⟩
      | aborted h =>
          have hopen := h.1
          simp [ht] at hopen
      | zombie _ t d hc ha hs hi hf hd hm =>
          obtain ⟨_, _, hm⟩ := hm
          exact hm.elim
      | stuck t sp hs => simp [ht] at hs
      | leftover t sp hs => simp [ht] at hs
  | ready _ _ ih => exact ih ht

/-- The call has moved the file by the mutations that the reply accounts for. -/
def Linearized (R : Tables → Tables → Prop) (C : StoreContract) (op : StoreOp) (σ : Session)
    (r : Except Failure Reply) (σ' : Session) : Prop :=
  ∃ first rest, Initial first ∧ op.account C σ' r rest ∧
    Interleaved R (first ++ rest) σ.file σ'.file

theorem resubscribed_same {op : StoreOp} (h : Resubscribed op σ σ') :
    σ'.file = σ.file ∧ σ'.conn = σ.conn := by
  cases op with
  | subscribe allocates filter after =>
      obtain ⟨subs, rfl⟩ := h
      exact ⟨rfl, rfl⟩
  | poll id polling room limit callback =>
      obtain ⟨subs, rfl⟩ := h
      exact ⟨rfl, rfl⟩
  | _ =>
      obtain rfl := h
      exact ⟨rfl, rfl⟩

theorem Ends.linearized {op : StoreOp} {r : Except Failure Reply}
    (he : Ends (among hR) op σ r σ') (ht : σ.conn.txn = none) :
    σ'.conn.txn = none ∧ Linearized R (among hR) op σ r σ' := by
  obtain ⟨first, rest, σ₁, hp, hf, ha, hs⟩ := he
  obtain ⟨hn, hi⟩ := hp.interleaved ht
  obtain ⟨hfile, hconn⟩ := resubscribed_same hs
  exact ⟨hconn ▸ hn, first, rest, hf, ha, hfile ▸ hi⟩

end Among

/-- A row of the table of stores, by number and name. -/
def Named (storeId : ℤ) (name : Bytes) (d : Tables) : Prop :=
  ∃ s ∈ d.storeRows, s.id = storeId ∧ s.name = name

theorem eval_storeRows {s : Sql} {r : s.Row} {d d' : Tables} (he : s.eval d = .ok (r, d')) :
    d.storeRows ⊆ d'.storeRows := by
  cases hw : s.writes with
  | false =>
      obtain rfl := Sql.eval_reads hw he
      exact List.Subset.refl _
  | true =>
      cases s <;> simp only [Sql.writes, Bool.false_eq_true] at hw
      case registerStore n =>
        obtain ⟨rows, rows', hr, rfl, hrows⟩ := registerStore_eval he
        intro x hx
        simp only [Tables.storeRows, hr, Option.getD_some] at hx ⊢
        rcases hrows with rfl | rfl
        · exact hx
        · exact List.mem_append_left _ hx
      all_goals
        simp only [Sql.eval] at he
        repeat' split at he
        all_goals cases he
        all_goals simp_all [Tables.storeRows]

theorem named_statement {storeId : ℤ} {name : Bytes} {s : Sql} {r : s.Row} {d d' : Tables}
    (he : s.eval d = .ok (r, d')) (h : Named storeId name d) : Named storeId name d' := by
  obtain ⟨x, hx, hid⟩ := h
  exact ⟨x, eval_storeRows he hx, hid⟩

theorem findStoreId_named {name : Bytes} {d d' : Tables} {id : ℤ}
    (h : (findStoreId name).denote d = .ok (id, d')) : Named id name d := (findStoreId_denote h).2

/-- A delete that found a record is about the store of that name. -/
def deleteNamed (name key : Bytes) (d : Tables) (r : Except Failure (Option ℤ))
    (ms : List Mutation) : Prop :=
  match r with
  | .ok (some revision) =>
      ∃ storeId, ms = [.delete storeId key (some revision)] ∧ Named storeId name d
  | _ => deleteAccount key r ms

theorem wp_delete_named {C : StoreContract} {σ : Session} (hC : Hosts C)
    (hstores : ∀ d d', C.rely d d' → d.storeRows ⊆ d'.storeRows) (hroot : σ.conn.Rooted)
    (name key : Bytes) :
    wp C (delete name key)
      (fun r σ' => Accounts C σ (deleteNamed name key σ'.view) r σ') σ := by
  have hrely : ∀ {storeId : ℤ} d d', C.rely d d' → Named storeId name d → Named storeId name d' := by
    rintro storeId d d' hr ⟨x, hx, hid⟩
    exact ⟨x, hstores _ _ hr hx, hid⟩
  unfold delete
  by_cases hv : (!validStoreName name || !validStoreKey key) = true
  · rw [if_pos hv]
    exact .refl rfl
  rw [if_neg hv]
  simp only [Bool.or_eq_true, Bool.not_eq_true', not_or, Bool.not_eq_false] at hv
  apply wp_after_schema hC hroot
  · exact fun ms e σ₁ hp hms => .of_initial hp hms rfl
  intro ms σ₁ hp hms hroot₁
  rw [wp_op_bind, wp_attempt]
  apply wp_mono (wp_read (reading_findStoreId name) σ₁)
  rintro r σ₂ ⟨h₂, hr⟩
  have hp₂ : Progress C ms σ σ₂ := by simpa using hp.trans h₂
  cases r with
  | error e =>
      dsimp only
      split_ifs
      · exact .of_initial hp₂ hms (.inl rfl)
      · exact .of_initial hp₂ hms rfl
  | ok storeId =>
      have hnamed : Named storeId name σ₂.view := by
        refine hr.2.establishes hrely fun d d' h => ?_
        obtain ⟨rfl, h⟩ := h
        exact findStoreId_named h
      dsimp only
      rw [wp_op_bind]
      apply wp_requireStoreWritable
      intro r
      cases r with
      | error e => exact .of_initial hp₂ hms rfl
      | ok x =>
          have happlies : ∀ revision d d',
              (deleteBody storeId key).denote d = .ok (revision, d') →
              (Mutation.delete storeId key revision).Applies d d' := fun _ _ _ h => ⟨hv.2, h⟩
          apply wp_mono (wp_withStoreMutation (deleteBody_ne_ret storeId key)
            (fun d x d' h => hC.mutation _ d d' (happlies x d d' h)) (h₂.rooted hroot₁))
          rintro r σ₃ ⟨hw, h⟩
          cases r with
          | error e => exact .of_rest hp₂ hms (.of_failed h hw) rfl
          | ok revision =>
              have hacts := h.mono (happlies revision)
              have hdone : Progress C [.delete storeId key revision] σ₂ σ₃ :=
                .of_mutated hacts hw
              refine .of_rest hp₂ hms hdone ?_
              cases revision with
              | none => exact .inr ⟨storeId, rfl⟩
              | some revision =>
                  refine ⟨storeId, rfl, hacts.view hrely (fun d d' hm hd => ?_) hnamed⟩
                  exact hm.unfinished.preserves (P := Named storeId name) named_statement hd

end Esdb.ObjectStore
