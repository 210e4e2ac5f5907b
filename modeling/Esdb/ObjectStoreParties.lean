import Esdb.ObjectStoreFollows

/-!
# Connections that use the store

Any number of connections to one file, none of which opens a transaction of its own.
Whatever their operations, however their commands interleave and whatever faults they
meet, the file goes from one whole mutation to the next; every reply of a success is
on record in the file from then on; and every subscription has followed the journal.
-/
namespace Esdb.ObjectStore

open Transactional Esdb.Runtime

/-- What connections do to the file between them. -/
abbrev Mutating : Tables → Tables → Prop := Relation.ReflTransGen Mutates

theorem preorders_mutating : Preorders (L := dialect.language) Mutating :=
  ⟨fun _ => .refl, fun h₁ h₂ => h₁.trans h₂⟩

/-- One connection among others that use the store. -/
abbrev shared : StoreContract := among preorders_mutating

variable {d d' : Tables} {σ σ₁ σ' : Session} {ms : List Mutation}

theorem mutating_sound (h : Mutating d d') (hd : Sound d) : Sound d' ∧ Grows d d' := by
  induction h with
  | refl => exact ⟨hd, .refl d⟩
  | tail _ hm ih =>
      obtain ⟨m, hm⟩ := hm
      obtain ⟨hs, hg⟩ := ih.1.applies hm
      exact ⟨.inr hs, ih.2.trans hg⟩

theorem mutating_unfinished (h : Mutating d d') : Unfinished d d' := by
  induction h with
  | refl => exact .refl
  | tail _ hm ih =>
      obtain ⟨m, hm⟩ := hm
      exact ih.trans hm.unfinished

theorem mutating_storeRows (h : Mutating d d') : d.storeRows ⊆ d'.storeRows := by
  refine (mutating_unfinished h).preserves (P := fun x => d.storeRows ⊆ x.storeRows) ?_
    (List.Subset.refl _)
  exact fun he hsub => List.Subset.trans hsub (eval_storeRows he)

theorem hosts_shared : Hosts shared :=
  hosts_among fun _ _ h hd => unfinished_complete (mutating_unfinished h) hd

theorem Interleaved.mutating (h : Interleaved Mutating ms d d') : Mutating d d' := by
  induction h with
  | others h => exact h
  | own h hm _ ih => exact (h.tail ⟨_, hm⟩).trans ih

/-- A connection between two operations. -/
structure Resting (σ : Session) : Prop where
  txn : σ.conn.txn = none
  follows : ∀ sub ∈ σ.wrapper.subscriptions, Follows σ.file sub

theorem Resting.grown (h : Resting σ) (hs : Sound σ.file) (σ' : Session)
    (ht : σ'.conn.txn = none) (hsub : σ'.wrapper.subscriptions = σ.wrapper.subscriptions)
    (hm : Mutating σ.file σ'.file) : Sound σ'.file ∧ Resting σ' := by
  obtain ⟨hs', hg⟩ := mutating_sound hm hs
  refine ⟨hs', ht, ?_⟩
  intro sub hmem
  exact (h.follows sub (hsub ▸ hmem)).grows hs hg hs'.journal

theorem Resting.progress (h : Resting σ) (hs : Sound σ.file) (hp : Progress shared ms σ σ') :
    Sound σ'.file ∧ Resting σ' := by
  obtain ⟨ht, hi⟩ := hp.interleaved h.txn
  exact h.grown hs σ' ht (by rw [hp.subscriptions]) hi.mutating

theorem Resting.subscribe (h : Resting σ) (filter : Option Bytes) (start : ℕ) :
    Resting { σ with wrapper := { σ.wrapper with
      subscriptions := σ.wrapper.subscriptions ++ [⟨filter, start, start, []⟩] } } where
  txn := h.txn
  follows := by
    intro sub hmem
    rcases List.mem_append.mp hmem with hmem | hmem
    · exact h.follows sub hmem
    · obtain rfl := List.mem_singleton.mp hmem
      exact follows_new _ _ _

/-- A poll leaves every subscription following, the one it moved included. -/
theorem Resting.poll (h : Resting σ) (hs : Sound σ.file) {id limit : ℕ}
    {callback : ℕ → Verdict} {r : Except Failure (List OwnedChange)}
    (hp : Polled shared id limit callback σ r σ') : Resting σ' := by
  cases r with
  | error e =>
      obtain ⟨ms, hp, -⟩ := hp
      exact (h.progress hs hp).2
  | ok accepted =>
      obtain ⟨sub, σ₂, hsub, ⟨ms, σ₁, hp, -, -, -, hw, ha⟩, rfl⟩ := hp
      obtain ⟨hs₁, h₁⟩ := h.progress hs hp
      unfold Acts at ha
      simp only [h₁.txn] at ha
      obtain ⟨-, ht, d, d', hr, ⟨rfl, hd⟩, hr'⟩ := ha
      -- Over the content that the query read, the subscription accepts what it is shown.
      have hold : σ₂.wrapper.subscriptions = σ.wrapper.subscriptions := by
        rw [hw, hp.subscriptions]
      have hread := h₁.grown hs₁ { σ₂ with file := d } ht (by rw [hw]) hr
      have hmid : Resting { σ₂ with
          file := d
          wrapper := { σ₂.wrapper with
            subscriptions :=
              σ₂.wrapper.subscriptions.modify id (ObjectSubscription.accept accepted) } } := by
        refine ⟨ht, fun x hx => ?_⟩
        obtain ⟨n, hn⟩ := List.mem_iff_getElem?.mp hx
        simp only [List.getElem?_modify] at hn
        obtain ⟨y, hy, hx⟩ := Option.map_eq_some_iff.mp hn
        have hfollows := hread.2.follows y (List.mem_of_getElem? hy)
        by_cases hid : id = n
        · subst hid
          rw [hold, hsub] at hy
          obtain rfl := Option.some.inj hy
          rw [if_pos rfl] at hx
          subst hx
          exact hfollows.accept hread.1.journal (delivers_offered hread.1.journal hd)
        · rw [if_neg hid] at hx
          subst hx
          exact hfollows
      exact (hmid.grown hread.1 ⟨σ₂.file, σ₂.conn, _⟩ (by exact ht) rfl hr').2

theorem wp_resting (h : Resting σ) (hs : Sound σ.file) (op : StoreOp) :
    wp shared op.program (fun _ σ' => Resting σ') σ := by
  have hroot : σ.conn.Rooted := Conn.rooted_closed h.txn
  cases op with
  | subscribe allocates filter start =>
      apply wp_reply
      apply wp_mono (wp_subscribe hosts_shared hroot allocates filter start)
      intro r σ' hr
      obtain ⟨ms, σ₁, hp, -, hend⟩ := hr
      have h₁ := (h.progress hs hp).2
      cases r with
      | error e =>
          obtain rfl := hend
          exact h₁
      | ok id =>
          obtain ⟨-, -, rfl⟩ := hend
          exact h₁.subscribe filter start
  | poll id polling room limit callback =>
      apply wp_reply
      apply wp_mono (wp_poll hosts_shared hroot id polling room limit callback)
      exact fun r σ' hp => h.poll hs hp
  | _ =>
      apply wp_mono (wp_storeOp hosts_shared hroot _)
      intro r σ' he
      obtain ⟨first, rest, σ₁, hp, -, -, hsame⟩ := he
      obtain rfl : σ' = σ₁ := hsame
      exact (h.progress hs hp).2

/-! ## Replies on record -/

/-- What a success has left in the file, given the file its call found. The revision
is above every one there was at the call. -/
def Recorded (op : StoreOp) (d₀ : Tables) (r : Except Failure Reply) (d : Tables) : Prop :=
  match op, r with
  | .put name key value, .ok (.assigned revision) => d₀.top < revision ∧
      ∃ storeId, Named storeId name d ∧
        ⟨revision, storeId, key, changePut, value.type⟩ ∈ d.log ∧
        ⟨storeId, key, value.type, .blob value.payload, revision⟩ ∈ d.written
  | .delete name key, .ok (.deleted (some revision)) => d₀.top < revision ∧
      ∃ storeId, Named storeId name d ∧ ⟨revision, storeId, key, changeDelete, 0⟩ ∈ d.log
  | .pruneChanges through, .ok (.pruned _) => min (through : ℤ) d₀.top ≤ d.pruned
  | _, _ => True

theorem Recorded.grows {op : StoreOp} {d₀ : Tables} {r : Except Failure Reply}
    (h : Recorded op d₀ r d) (hg : Grows d d') : Recorded op d₀ r d' := by
  have hnamed : ∀ {storeId : ℤ} {name : Bytes}, Named storeId name d → Named storeId name d' :=
    fun h => h.imp fun s hs => ⟨hg.stores.subset hs.1, hs.2⟩
  unfold Recorded at h ⊢
  split at h
  · obtain ⟨htop, storeId, hn, hlog, hwritten⟩ := h
    exact ⟨htop, storeId, hnamed hn, hg.log.subset hlog, hg.written.subset hwritten⟩
  · obtain ⟨htop, storeId, hn, hlog⟩ := h
    exact ⟨htop, storeId, hnamed hn, hg.log.subset hlog⟩
  · exact Int.le_trans h hg.pruned
  · trivial

/-- The last of a connection's mutations, with what the file was on either side. -/
theorem Interleaved.last {m : Mutation} (h : Interleaved Mutating (ms ++ [m]) d d') :
    ∃ d₁ d₂, Mutating d d₁ ∧ m.Applies d₁ d₂ ∧ Mutating d₂ d' := by
  induction ms generalizing d with
  | nil =>
      cases h with
      | own h hm hrest => exact ⟨_, _, h, hm, hrest.mutating⟩
  | cons n ms ih =>
      cases h with
      | own h hm hrest =>
          obtain ⟨d₁, d₂, h₁, hm', h₂⟩ := ih hrest
          exact ⟨d₁, d₂, (h.tail ⟨_, hm⟩).trans h₁, hm', h₂⟩

theorem recorded_put {name key : Bytes} {value : Value} {revision : ℤ} (hs : Sound d)
    (h : Interleaved Mutating (ms ++ [.put name key value revision]) d d') :
    Recorded (.put name key value) d (.ok (.assigned revision)) d' := by
  obtain ⟨d₁, d₂, h₁, hm, h₂⟩ := h.last
  obtain ⟨hs₁, hg₁⟩ := mutating_sound h₁ hs
  obtain ⟨hs₂, -⟩ := hs₁.applies hm
  obtain ⟨e, storeId, rows, hreg, ⟨s, hmem, hid, hname⟩, hl, hst, -, -, hwr⟩ :=
    putBody_denote hm.2
  obtain ⟨hj, hg⟩ := Sql.eval_journal hreg hs₁.journal
  have hrev : revision = e.top + 1 := hl.revision hj
  have htop := (hg₁.trans hg).top hj
  refine Recorded.grows (d := d₂) ⟨?_, storeId, ?_, ?_, ?_⟩ (mutating_sound h₂ (.inr hs₂)).2
  · exact Int.lt_of_le_of_lt htop (by omega)
  · exact ⟨s, by rw [Tables.storeRows, hst]; exact hmem, hid, hname⟩
  · rw [hl.log]
    exact List.mem_append_right _ List.mem_cons_self
  · rw [hwr]
    exact List.mem_append_right _ List.mem_cons_self

theorem recorded_delete {name key : Bytes} {storeId revision : ℤ} (hs : Sound d)
    (hn : Named storeId name d')
    (h : Interleaved Mutating (ms ++ [.delete storeId key (some revision)]) d d') :
    Recorded (.delete name key) d (.ok (.deleted (some revision))) d' := by
  obtain ⟨d₁, d₂, h₁, hm, h₂⟩ := h.last
  obtain ⟨hs₁, hg₁⟩ := mutating_sound h₁ hs
  obtain ⟨hs₂, -⟩ := hs₁.applies hm
  obtain ⟨rows, -, -, hl, -⟩ := deleteBody_denote hm.2
  have hrev : revision = d₁.top + 1 := hl.revision hs₁.journal
  have htop := hg₁.top hs₁.journal
  have hg₂ := (mutating_sound h₂ (.inr hs₂)).2
  refine ⟨Int.lt_of_le_of_lt htop (by omega), storeId, hn, hg₂.log.subset ?_⟩
  rw [hl.log]
  exact List.mem_append_right _ List.mem_cons_self

theorem recorded_prune {through rows : ℕ} (hs : Sound d)
    (h : Interleaved Mutating (ms ++ [.prune through rows]) d d') :
    Recorded (.pruneChanges through) d (.ok (.pruned rows)) d' := by
  obtain ⟨d₁, d₂, h₁, hm, h₂⟩ := h.last
  obtain ⟨hs₁, hg₁⟩ := mutating_sound h₁ hs
  obtain ⟨hs₂, -⟩ := hs₁.applies hm
  obtain ⟨revisions, he, -⟩ := hm
  obtain ⟨changes, -, -, rfl⟩ := pruneChanges_eval he
  have htop := hg₁.top hs₁.journal
  have hseq := hs₁.journal.sequenceValue
  refine Int.le_trans ?_ (mutating_sound h₂ (.inr hs₂)).2.pruned
  dsimp only
  omega

theorem wp_recorded (ht : σ.conn.txn = none) (hs : Sound σ.file) (op : StoreOp) :
    wp shared op.program (fun r σ' => Recorded op σ.file r σ'.file) σ := by
  have hroot : σ.conn.Rooted := Conn.rooted_closed ht
  cases op with
  | put name key value =>
      apply wp_mono (wp_storeOp hosts_shared hroot _)
      intro r σ' he
      obtain ⟨-, first, rest, -, ha, hi⟩ := he.linearized ht
      cases r with
      | error e => trivial
      | ok reply =>
          cases reply with
          | assigned revision =>
              obtain rfl : rest = [.put name key value revision] := ha
              exact recorded_put hs hi
          | _ => trivial
  | delete name key =>
      apply wp_reply
      apply wp_mono (wp_delete_named hosts_shared (fun _ _ => mutating_storeRows) hroot name key)
      intro r σ' he
      obtain ⟨first, rest, hp, -, ha⟩ := he
      obtain ⟨hn, hi⟩ := hp.interleaved ht
      cases r with
      | error e => trivial
      | ok deleted =>
          cases deleted with
          | none => trivial
          | some revision =>
              obtain ⟨storeId, rfl, hnamed⟩ := ha
              have hview : σ'.view = σ'.file := by simp [State.view, Conn.view, hn]
              exact recorded_delete hs (hview ▸ hnamed) hi
  | pruneChanges through =>
      apply wp_mono (wp_storeOp hosts_shared hroot _)
      intro r σ' he
      obtain ⟨-, first, rest, -, ha, hi⟩ := he.linearized ht
      cases r with
      | error e => trivial
      | ok reply =>
          cases reply with
          | pruned rows =>
              obtain rfl : rest = [.prune through rows] := ha
              exact recorded_prune hs hi
          | _ => trivial
  | _ => exact wp_mono (wp_storeOp hosts_shared hroot _) fun r σ' _ => trivial

/-! ## Connections side by side -/

/-- Connections that make any operations. -/
def operations : System dialect.language Database StoreOp (Except Failure Reply) where
  program := StoreOp.program
  legal _ _ := True
  fresh db := ∃ readOnly, db = Database.opened readOnly
  allows _ := RollsBack

theorem correct_operations : CorrectUnder operations shared Sound Resting
    (fun op σ₀ r σ => Resting σ ∧ Recorded op σ₀.file r σ.file) where
  kept := fun d d' h hd => (mutating_sound h hd).1
  guar := by
    intro d d' h
    rcases h with rfl | h
    · exact .refl
    · exact .single h
  allows := fun σ c f _ h => h
  fresh := by
    intro file wrapper _ hf
    obtain ⟨readOnly, rfl⟩ := hf
    exact ⟨rfl, fun sub hsub => (List.not_mem_nil hsub).elim⟩
  moved := fun σ file hs h hm => (h.grown hs { σ with file := file } h.txn rfl hm.rely).2
  issue := fun op σ hs h _ => wp_and (wp_resting h hs op) (wp_recorded h.txn hs op)
  finish := fun op σ₀ r σ _ h => h.1

variable {ι : Type} [DecidableEq ι] {file : Tables}
  {w w' : World ι dialect.language Database StoreOp (Except Failure Reply)}

theorem operations_unfailing (σ : Session) (c : Cmd dialect.language) :
    (alone (L := dialect.language) (W := Database) operations.allows).allows σ c .none := by
  cases c <;> trivial

/-- While every connection rests, one of them gets through an operation. -/
theorem reaches_operation (hs : Sound file) (h : World.Reaches operations file w)
    (hidle : ∀ i, (w.party i).running = none) (i : ι) (op : StoreOp) :
    World.Reaches operations file (w.update i (op.program.run [] (w.state i)).2 none) ∧
      ∀ j, ((w.update i (op.program.run [] (w.state i)).2 none).party j).running = none := by
  have havailable : w.Available i := by
    intro j _
    have ht : (w.party j).conn.txn = none := (h.idle correct_operations hs (hidle j)).txn
    simp [Conn.isWriting, ht]
  refine ⟨h.job op (hidle i) trivial havailable (Prog.admits_nil _ operations_unfailing _), ?_⟩
  intro j
  by_cases hj : j = i
  · subst hj
    rw [World.update_party_self]
  · rw [World.update_party_other _ hj]
    exact hidle j

/-- The file is a store between mutations throughout: its records are the last puts
of their keys, its revisions ascend, it only grows, and each command of each connection
leaves it alone or brings one whole mutation. -/
theorem operations_atomic (hs : Sound file) (h : World.Reaches operations file w) :
    Sound w.file ∧ Grows file w.file ∧
      ∀ w', World.Step operations w w' → w'.file = w.file ∨ Mutates w.file w'.file := by
  have hC := correct_operations
  exact ⟨h.kept hC hs, (mutating_sound (h.rely hC hs) hs).2, fun w' hstep => h.guar hC hs hstep⟩

/-- Two connections to a new file. -/
def twoUsers : World Bool dialect.language Database StoreOp (Except Failure Reply) :=
  ⟨Tables.empty, fun _ => ⟨Conn.closed, Database.opened 0, none⟩⟩

theorem reaches_twoUsers : World.Reaches operations Tables.empty twoUsers :=
  .opened rfl fun _ => ⟨Database.opened 0, ⟨0, rfl⟩, rfl⟩

/-- A null under the key `a`. -/
def putNull : StoreOp := .put sampleStore [97] ⟨Value.null, []⟩

/-- One connection puts a record, then the other. -/
theorem operations_atomic_two_puts :
    ∃ w : World Bool dialect.language Database StoreOp (Except Failure Reply),
      w.file.log.length = 2 ∧ w.file.creations = 1 ∧ Sound w.file := by
  obtain ⟨h₁, hidle⟩ := reaches_operation sound_empty reaches_twoUsers (fun _ => rfl) true putNull
  obtain ⟨h₂, -⟩ := reaches_operation sound_empty h₁ hidle false putNull
  exact ⟨_, by decide +kernel, by decide +kernel, (operations_atomic sound_empty h₂).1⟩

/-- What an operation has replied is on record when it ends and from then on. -/
theorem reply_recorded (hs : Sound file) (h : World.Reaches operations file w) {i : ι}
    {op : StoreOp} {σ₀ : Session} {r : Except Failure Reply}
    (hr : (w.party i).running = some ⟨op, σ₀, .ret r⟩)
    (hlater : Relation.ReflTransGen (World.Step operations) w w') :
    Recorded op σ₀.file r w'.file := by
  have hC := correct_operations
  obtain ⟨f, hf, ⟨-, hrec⟩, hm⟩ := h.finished hC hs hr
  have hnow : Recorded op σ₀.file r w.file := hrec.grows (mutating_sound hm.rely hf).2
  have hgrown : World.Reaches operations file w' ∧ Grows w.file w'.file := by
    induction hlater with
    | refl => exact ⟨h, .refl _⟩
    | tail _ hstep ih =>
        have hmoved := correct_operations.guar _ _ (ih.1.guar hC hs hstep)
        exact ⟨ih.1.step hstep, ih.2.trans (mutating_sound hmoved (ih.1.kept hC hs)).2⟩
  exact hnow.grows hgrown.2

/-- The first put of a new file, as it ends. -/
theorem reply_recorded_first_put :
    ∃ w : World Bool dialect.language Database StoreOp (Except Failure Reply),
      Recorded putNull Tables.empty (.ok (.assigned 1)) w.file := by
  have h₁ := reaches_twoUsers.runs (i := true) putNull rfl trivial (fun _ _ => rfl)
    (Prog.admits_nil _ operations_unfailing _)
  have hreply : (putNull.program.run [] (twoUsers.state true)).1 = .ok (.assigned 1) := by
    decide +kernel
  have hr : ((twoUsers.update true (putNull.program.run [] (twoUsers.state true)).2
      (some ⟨putNull, twoUsers.state true, .ret (putNull.program.run [] (twoUsers.state true)).1⟩)).party
        true).running = some ⟨putNull, twoUsers.state true, .ret (.ok (.assigned 1))⟩ := by
    rw [World.update_party_self, hreply]
  exact ⟨_, reply_recorded sound_empty h₁ hr .refl⟩

end Esdb.ObjectStore
