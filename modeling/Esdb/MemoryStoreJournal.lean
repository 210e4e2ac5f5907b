import Esdb.MemoryStoreLog

/-!
# The journal representation invariant

`Represents log s` relates a Store state to the sequence of effective mutations
that led to it. The records are the last effects, the deque is a window over the
history, and the revision counts the log. A call publishes exactly the mutations
its reply reports, so the relation holds along every sequence of calls.
-/
namespace Esdb.MemoryStore

structure Represents (log : List Mutation) (s : StoreState) : Prop where
  revision_eq : s.revision = log.length
  within : log.length ≤ revisionMax
  window : BoundedLog.IsWindow changeCapacity (history log) s.retainedFloor s.changes
  records : ∀ key : Bytes, s.records[key]? = recordAfter log key

theorem represents_initial : Represents [] initial :=
  ⟨rfl, Nat.zero_le _, BoundedLog.isWindow_nil _, fun _ => rfl⟩

theorem recordAfter_push (log : List Mutation) (m : Mutation) (records : ByteMap MemoryRecord)
    (h : ∀ key : Bytes, records[key]? = recordAfter log key) (key : Bytes) :
    (m.update (log.length + 1) records)[key]? = recordAfter (log ++ [m]) key := by
  unfold recordAfter
  rw [lastMutation_push]
  cases m with
  | put k v =>
      simp only [Mutation.update, Mutation.touches, beq_iff_eq, ByteMap.get_insert]
      split_ifs
      · rfl
      · exact h key
  | delete k =>
      simp only [Mutation.update, Mutation.touches, beq_iff_eq, ByteMap.get_erase]
      split_ifs
      · rfl
      · exact h key
  | clear => simp [Mutation.update, Mutation.touches]

theorem Represents.publish {log : List Mutation} {s : StoreState} (h : Represents log s)
    (m : Mutation) (hr : s.revision < revisionMax) : Represents (log ++ [m]) (s.publish m) := by
  have hrev := h.revision_eq
  constructor
  · simp [hrev]
  · simp only [List.length_append, List.length_singleton]
    omega
  · have hn := numbered_history (log ++ [m])
    rw [history_push] at hn ⊢
    simp only [StoreState.publish, hrev]
    exact h.window.push hn
  · intro key
    simp only [StoreState.publish, hrev]
    exact recordAfter_push log m s.records h.records key

theorem Represents.publishAll {log ms : List Mutation} {s : StoreState} (h : Represents log s)
    (hr : s.revision + ms.length ≤ revisionMax) : Represents (log ++ ms) (s.publishAll ms) := by
  induction ms generalizing log s with
  | nil => simpa [StoreState.publishAll] using h
  | cons m ms ih =>
      simp only [List.length_cons] at hr
      have hstep := h.publish m (by omega)
      have := ih hstep (by rw [publish_revision]; omega)
      simpa [StoreState.publishAll] using this

/-! ## Calls -/

/-- The effective mutations a call reports through its arguments and reply. -/
def Call.mutations (c : Call) (reply : Except Failure Removal) : List Mutation :=
  match reply, c with
  | .error _, _ => []
  | .ok _, .put _ (some key) (some value) => [.put key value]
  | .ok _, .patch _ entries => patchMutations entries
  | .ok r, .delete _ (some key) => if r.changed then [.delete key] else []
  | .ok r, .clear _ => if r.changed then [.clear] else []
  | .ok _, _ => []

/-- A call publishes the mutations its reply reports, and nothing else. -/
theorem Call.exec_spec (c : Call) (s : StoreState) :
    (c.exec s).2 = s.publishAll (c.mutations (c.exec s).1) ∧
      (s.revision ≤ revisionMax →
        s.revision + (c.mutations (c.exec s).1).length ≤ revisionMax) ∧
      ∀ r, (c.exec s).1 = .ok r → r.revision = (c.exec s).2.revision := by
  cases c with
  | put alloc key value =>
      rcases put_cases alloc key value s with ⟨f, h⟩ | ⟨k, v, hc, hr, h⟩
      · simp [Call.exec, h, Except.map, Call.mutations, StoreState.publishAll]
      · obtain ⟨rfl, rfl⟩ := checkAssignment_eq_some hc
        simp only [Call.exec, h, Except.map, Call.mutations, StoreState.publishAll,
          List.foldl_cons, List.foldl_nil, List.length_singleton, Except.ok.injEq]
        exact ⟨trivial, fun _ => by omega, by rintro r rfl; rfl⟩
  | patch alloc entries =>
      rcases patch_cases alloc entries s with ⟨f, h⟩ | ⟨hr, hlen, h⟩
      · simp [Call.exec, h, Except.map, Call.mutations, StoreState.publishAll]
      · simp only [Call.exec, h, Except.map, Call.mutations, hlen, Except.ok.injEq]
        refine ⟨trivial, fun hs => ?_, ?_⟩
        · rcases hr with hr | rfl
          · have : entries.length ≤ revisionMax ∨ revisionMax < entries.length := by omega
            rcases this with _ | hbig
            · omega
            · -- a list longer than the revision domain is never accepted
              have hmax : ¬ entries.length > patchMaxEntries := by
                intro hgt
                simp [MemoryStore.patch, hgt] at h
              simp only [revisionMax, patchMaxEntries] at hbig hmax
              omega
          · simpa using hs
        · rintro r rfl
          rw [publishAll_revision, hlen]
  | delete alloc key =>
      rcases delete_cases alloc key s with ⟨f, h⟩ | h | ⟨k, rfl, hr, h⟩
      · simp [Call.exec, h, Call.mutations, StoreState.publishAll]
      · cases key <;> simp [Call.exec, h, Call.mutations, StoreState.publishAll]
      · simp only [Call.exec, h, Call.mutations, if_true, StoreState.publishAll,
          List.foldl_cons, List.foldl_nil, List.length_singleton, Except.ok.injEq]
        exact ⟨trivial, fun _ => by omega, by rintro r rfl; rfl⟩
  | clear alloc =>
      rcases clear_cases alloc s with ⟨f, h⟩ | h | ⟨hr, h⟩
      · simp [Call.exec, h, Call.mutations, StoreState.publishAll]
      · simp [Call.exec, h, Call.mutations, StoreState.publishAll]
      · simp only [Call.exec, h, Call.mutations, if_true, StoreState.publishAll,
          List.foldl_cons, List.foldl_nil, List.length_singleton, Except.ok.injEq]
        exact ⟨trivial, fun _ => by omega, by rintro r rfl; rfl⟩

theorem Represents.exec {log : List Mutation} {s : StoreState} (h : Represents log s) (c : Call) :
    Represents (log ++ c.mutations (c.exec s).1) (c.exec s).2 := by
  obtain ⟨hs, hr, -⟩ := c.exec_spec s
  rw [hs]
  exact h.publishAll (hr (by rw [h.revision_eq]; exact h.within))

/-- The Store after a sequence of calls, with the mutations they reported. -/
def run : List Call → StoreState → List Mutation → StoreState × List Mutation
  | [], s, log => (s, log)
  | c :: calls, s, log => run calls (c.exec s).2 (log ++ c.mutations (c.exec s).1)

theorem Represents.run {log : List Mutation} {s : StoreState} (h : Represents log s)
    (calls : List Call) : Represents (run calls s log).2 (run calls s log).1 := by
  induction calls generalizing s log with
  | nil => exact h
  | cons c calls ih => exact ih (h.exec c)

/-- The journal, the floor, the revision and the records agree with one another
after any calls, whichever of them failed and wherever allocation failed inside
them. A key is present exactly when its last mutation was a put, under the
revision that put was assigned, and no revision exceeds the domain. The last
conjunct ties the numbering to what callers see: a further call that succeeds is
told the number of mutations reported so far. -/
theorem journal_invariant (calls : List Call) :
    let s := (run calls initial []).1
    let log := (run calls initial []).2
    s.changes.map MemoryChange.revision =
        List.range' (s.retainedFloor + 1) (s.revision - s.retainedFloor) ∧
      s.changes = (history log).drop s.retainedFloor ∧
      s.retainedFloor ≤ s.revision ∧
      s.changes.length = s.revision - s.retainedFloor ∧
      s.changes.length ≤ 4096 ∧
      (∀ (key : Bytes) (record : MemoryRecord), s.records[key]? = some record →
        record.revision ≤ s.revision) ∧
      (∀ key : Bytes, s.records[key]? = match lastMutation log key with
        | some (.put _ value, revision) => some ⟨value, revision⟩
        | _ => none) ∧
      s.revision = log.length ∧
      s.revision ≤ revisionMax ∧
      ∀ (c : Call), s.revision ≤ (c.exec s).2.revision ∧ (c.exec s).2.revision ≤ revisionMax ∧
        ∀ reply, (c.exec s).1 = .ok reply →
          reply.revision = (log ++ c.mutations (c.exec s).1).length := by
  intro s log
  have h : Represents log s := represents_initial.run calls
  have hlen := h.window.length_eq
  have hfloor := h.window.floor_le
  rw [history_length, ← h.revision_eq] at hlen hfloor
  refine ⟨?_, h.window.suffix, hfloor, hlen, h.window.bounded, ?_, h.records, h.revision_eq,
    h.revision_eq ▸ h.within, ?_⟩
  · rw [h.window.suffix, (numbered_history log).seq_drop, history_length, h.revision_eq]
  · intro key record hk
    rw [h.records key, recordAfter] at hk
    split at hk
    · rename_i value revision hl
      cases hk
      rw [h.revision_eq]
      exact lastMutation_revision_le hl
    · cases hk
  · intro c
    obtain ⟨hexec, -, hreply⟩ := c.exec_spec s
    have hnext := h.exec c
    refine ⟨?_, hnext.revision_eq ▸ hnext.within, ?_⟩
    · rw [hexec, publishAll_revision]
      omega
    · intro reply hok
      rw [hreply reply hok]
      exact hnext.revision_eq

/-- A call that fails leaves the Store as it was, whatever it was given and wherever
in it an allocation failed: what `put` had staged by then it takes back, `patch` has
worked on copies, and `delete` and `clear` append to the journal first. -/
theorem failed_call_unchanged (c : Call) (s : StoreState) (f : Failure)
    (h : (c.exec s).1 = .error f) : (c.exec s).2 = s := by
  obtain ⟨hexec, -, -⟩ := c.exec_spec s
  have hnone : c.mutations (c.exec s).1 = [] := by
    rw [h]
    cases c <;> rfl
  rw [hexec, hnone]
  rfl

/-- The journal cannot grow while a key is overwritten. -/
theorem failed_call_unchanged_overwrite :
    let s := (Call.exec (.put (fun _ => true) (some [97]) (some ⟨Value.null, []⟩)) initial).2
    let c := Call.put (fun site => site ≠ .journalNode) (some [97]) (some ⟨Value.bool, [1]⟩)
    (c.exec s).1 = .error putOutOfMemory ∧ (c.exec s).2 = s := by
  intro s c
  have h : (c.exec s).1 = .error putOutOfMemory := by decide +kernel
  exact ⟨h, failed_call_unchanged c s putOutOfMemory h⟩

end Esdb.MemoryStore
