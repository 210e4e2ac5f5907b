import Esdb.ObjectStoreSchemaFlag
import Esdb.ObjectStoreSound

/-!
# Files that only the store has written

A connection's life: it is opened on a file that no one but the store has ever
written, and then any calls are made on it and any faults met, while other
connections write the file in the same way. The file stays such a file throughout,
and so does what the connection sees of it.
-/
namespace Esdb.ObjectStore

open Transactional Esdb.Runtime

/-- The sessions of a connection to such a file, between its calls. -/
inductive Lives : Session → Prop
  | opened (file : Tables) (readOnly : ℤ) (hf : Unfinished Tables.empty file) :
      Lives ⟨file, Conn.closed, Database.opened readOnly⟩
  | call {σ σ' : Session} {r : Except Failure Reply} (call : Call) (h : Lives σ)
      (hl : call.Legal σ.wrapper) (hr : Runs anyFaults call.program σ r σ') : Lives σ'
  | others {σ : Session} (file : Tables) (h : Lives σ)
      (hm : anyFaults.Moves σ.conn σ.file file) : Lives { σ with file := file }

variable {P : Tables → Prop} {σ σ' : Session}

theorem keeping_true : keeping (fun _ _ => True) = anyFaults := by
  unfold keeping anyFaults
  congr 1
  funext σ c fault
  cases fault with
  | rollback e => simp [rollsBackOnto]
  | _ => rfl

/-- A property of content that statements keep. -/
theorem keepable_content (hP : ∀ {s : Sql} {r : s.Row} {d d' : Tables},
    s.eval d = .ok (r, d') → P d → P d') : Keepable fun _ d => P d where
  wrapper := fun _ _ h => h
  ready := fun _ h => h
  statement := fun hu h => hu.preserves (P := P) hP h

theorem Call.Leaves.keeps {call : Call} (h : call.Leaves (fun _ d => P d) σ) :
    Keeps (fun _ d => P d) σ := by
  cases call with
  | store op =>
      obtain ⟨σ₁, hk, hs⟩ := h
      cases op with
      | subscribe allocates filter after =>
          obtain ⟨subs, rfl⟩ := hs
          exact ⟨hk.rooted, hk.linked, hk.kept⟩
      | poll id polling room limit callback =>
          obtain ⟨subs, rfl⟩ := hs
          exact ⟨hk.rooted, hk.linked, hk.kept⟩
      | _ =>
          obtain rfl := hs
          exact hk
  | _ => exact h

/-- Going back, by whatever call, gives back content of which the file's property
holds. -/
theorem Keeps.meets (hk : Keeps (fun _ d => P d) σ)
    (hP : ∀ {s : Sql} {r : s.Row} {d d' : Tables}, s.eval d = .ok (r, d') → P d → P d')
    (hf : P σ.file) (call : Call) : call.Meets (fun _ d => P d) σ := by
  cases call with
  | rollback id => exact fun _ _ => hf
  | destroy id => exact fun _ _ => hf
  | savepointRollback name =>
      intro _ t sp below ht hfind
      have hview := hk.kept
      simp only [State.view, Conn.view, ht] at hview
      cases ha : t.access with
      | idle => exact hf
      | reading s =>
          rw [ha] at hview
          exact hview
      | writing d =>
          cases hs : sp.saved with
          | none => exact hf
          | some d' =>
              have hlink := hk.linked.saved t ht sp (findSavepoint_mem hfind).1 d' hs
              exact hlink.2.preserves (P := P) hP hf
  | _ => trivial

/-- What statements keep holds of the file and of what the connection sees. -/
theorem Lives.keeps (hP : ∀ {s : Sql} {r : s.Row} {d d' : Tables},
      s.eval d = .ok (r, d') → P d → P d')
    (h₀ : P Tables.empty) (h : Lives σ) : P σ.file ∧ Keeps (fun _ d => P d) σ := by
  have hsteps : ∀ d d', Unfinished d d' → P d → P d' := fun d d' hu hd =>
    hu.preserves (P := P) hP hd
  induction h with
  | opened file readOnly hf =>
      have hfile := hsteps _ _ hf h₀
      exact ⟨hfile, Conn.rooted_closed rfl, linked_closed rfl, hfile⟩
  | call call h hl hr ih =>
      obtain ⟨hfile, hk⟩ := ih
      have htrue : Keeps (fun _ _ => True) _ := ⟨hk.rooted, hk.linked, trivial⟩
      have hany := wp_call_keeps (keepable_content fun _ _ => trivial) htrue call
        (htrue.meets (fun _ _ => trivial) trivial call)
      rw [keeping_true] at hany
      have hallows : ∀ (σ : Session) c f, P σ.file → anyFaults.allows σ c f →
          (keeping fun _ d => P d).allows σ c f := by
        intro σ c f hd _
        cases f with
        | rollback e => exact fun _ => hd
        | _ => trivial
      have hrely : ∀ d d', anyFaults.rely d d' → (keeping fun _ d => P d).rely d d' :=
        fun _ _ hu => hu
      obtain ⟨hrun, hfile'⟩ := hr.under hany hfile hsteps hsteps hrely hallows
      have hleaves := wp_sound hrun
        (wp_call_keeps (keepable_content hP) hk call (hk.meets hP hfile call))
      exact ⟨hfile', hleaves.keeps⟩
  | others file h hm ih =>
      obtain ⟨hfile, hk⟩ := ih
      refine ⟨hsteps _ _ hm.rely hfile, ?_⟩
      exact hk.moved (keepable_content hP) hm

theorem Lives.rooted (h : Lives σ) : σ.conn.Rooted :=
  (h.keeps (P := fun _ => True) (fun _ _ => trivial) trivial).2.rooted

/-- The journal a connection sees is one that the store has written. -/
theorem Lives.journal (h : Lives σ) : Journal σ.view :=
  (h.keeps (P := Journal) (fun he hd => (Sql.eval_journal he hd).1) journal_empty).2.kept

end Esdb.ObjectStore
