import Esdb.MemoryStore

/-!
# The memory Store as a log of effective mutations

What the Store is for: a sequence of mutations, numbered from one, of which the
current records are the last effect on each key and the journal is a bounded
window. `publish` is one entry of that sequence. Every mutator either leaves the
Store alone or publishes the mutations it reports, and everything else in this
module follows from that.
-/
namespace Esdb.MemoryStore

inductive Mutation where
  | put (key : Bytes) (value : Value)
  | delete (key : Bytes)
  | clear
  deriving DecidableEq, Repr

/-- The journal entry of a mutation. -/
def Mutation.change (m : Mutation) (revision : ℕ) : MemoryChange :=
  match m with
  | .put key value => ⟨revision, .put, value.type, key⟩
  | .delete key => ⟨revision, .delete, Value.null, key⟩
  | .clear => ⟨revision, .clear, Value.null, []⟩

def Mutation.update (m : Mutation) (revision : ℕ) (records : ByteMap MemoryRecord) :
    ByteMap MemoryRecord :=
  match m with
  | .put key value => records.insert key ⟨value, revision⟩
  | .delete key => records.erase key
  | .clear => ∅

def Mutation.touches (m : Mutation) (key : Bytes) : Bool :=
  match m with
  | .put k _ => k == key
  | .delete k => k == key
  | .clear => true

@[simp] theorem change_revision (m : Mutation) (revision : ℕ) :
    (m.change revision).revision = revision := by
  cases m <;> rfl

/-- The journal that would exist if nothing were ever given up. -/
def history (log : List Mutation) : List MemoryChange :=
  log.mapIdx fun i m => m.change (i + 1)

@[simp] theorem history_length (log : List Mutation) : (history log).length = log.length := by
  simp [history]

theorem history_push (log : List Mutation) (m : Mutation) :
    history (log ++ [m]) = history log ++ [m.change (log.length + 1)] := by
  simp [history, List.mapIdx_append]

theorem numbered_history (log : List Mutation) :
    BoundedLog.Numbered MemoryChange.revision (history log) := by
  intro i h
  simp [history]

/-- The last mutation of a key, with its revision. -/
def lastMutation (log : List Mutation) (key : Bytes) : Option (Mutation × ℕ) :=
  (log.zipIdx 1).reverse.find? fun p => p.1.touches key

theorem lastMutation_push (log : List Mutation) (m : Mutation) (key : Bytes) :
    lastMutation (log ++ [m]) key =
      if m.touches key then some (m, log.length + 1) else lastMutation log key := by
  have hz : (log ++ [m]).zipIdx 1 = log.zipIdx 1 ++ [(m, log.length + 1)] := by
    rw [List.zipIdx_append]
    simp [Nat.add_comm]
  unfold lastMutation
  rw [hz, List.reverse_append, List.reverse_singleton, List.singleton_append, List.find?_cons]
  cases m.touches key <;> rfl

theorem lastMutation_revision_le {log : List Mutation} {key : Bytes} {p : Mutation × ℕ}
    (h : lastMutation log key = some p) : p.2 ≤ log.length := by
  have hm := List.mem_of_find?_eq_some h
  rw [List.mem_reverse] at hm
  have := List.snd_lt_add_of_mem_zipIdx hm
  omega

/-- A key is present exactly when its last mutation put it there. -/
def recordAfter (log : List Mutation) (key : Bytes) : Option MemoryRecord :=
  match lastMutation log key with
  | some (.put _ value, revision) => some ⟨value, revision⟩
  | _ => none

/-- The effect of one more entry of the log on the whole Store. -/
def StoreState.publish (s : StoreState) (m : Mutation) : StoreState :=
  let kept := BoundedLog.evict MemoryChange.revision changeCapacity
    (s.changes ++ [m.change (s.revision + 1)]) s.retainedFloor
  ⟨m.update (s.revision + 1) s.records, kept.1, s.revision + 1, kept.2⟩

@[simp] theorem publish_revision (s : StoreState) (m : Mutation) :
    (s.publish m).revision = s.revision + 1 := rfl

def StoreState.publishAll (s : StoreState) (ms : List Mutation) : StoreState :=
  ms.foldl StoreState.publish s

theorem publishAll_revision (s : StoreState) (ms : List Mutation) :
    (s.publishAll ms).revision = s.revision + ms.length := by
  induction ms generalizing s with
  | nil => rfl
  | cons m ms ih =>
      change ((s.publish m).publishAll ms).revision = _
      rw [ih, publish_revision, List.length_cons]
      omega

/-! ## What each mutator can do -/

theorem retainChange_room {room : Bool} {change : MemoryChange} {s kept : StoreState}
    (h : retainChange room change s = some kept) :
    room = true ∧ kept = { s with
      changes := (BoundedLog.evict MemoryChange.revision changeCapacity
        (s.changes ++ [change]) s.retainedFloor).1
      retainedFloor := (BoundedLog.evict MemoryChange.revision changeCapacity
        (s.changes ++ [change]) s.retainedFloor).2 } := by
  cases room with
  | false => simp [retainChange] at h
  | true => exact ⟨rfl, by simpa [retainChange] using h.symm⟩

theorem retainChange_none {room : Bool} {change : MemoryChange} {s : StoreState}
    (h : retainChange room change s = none) : room = false := by
  cases room with
  | false => rfl
  | true => simp [retainChange] at h

/-- Undoing an overwrite by putting the previous record back. -/
theorem insert_insert_previous {records : ByteMap MemoryRecord} {key : Bytes}
    {candidate previous : MemoryRecord} (h : records[key]? = some previous) :
    (records.insert key candidate).insert key previous = records := by
  apply ByteMap.ext
  intro k
  rw [ByteMap.get_insert, ByteMap.get_insert]
  split_ifs with hk
  · rw [← hk, h]
  · rfl

/-- Undoing an insertion by erasing the new node. -/
theorem erase_insert_absent {records : ByteMap MemoryRecord} {key : Bytes}
    {candidate : MemoryRecord} (h : records[key]? = none) :
    (records.insert key candidate).erase key = records := by
  apply ByteMap.ext
  intro k
  rw [ByteMap.get_erase, ByteMap.get_insert]
  split_ifs with hk
  · rw [← hk, h]
  · rfl

theorem put_cases (alloc : PutSite → Bool) (key : Option Bytes) (value : Option Value)
    (s : StoreState) :
    (∃ f, put alloc key value s = (.error f, s)) ∨
      ∃ k v, checkAssignment key value = some (k, v) ∧ s.revision < revisionMax ∧
        put alloc key value s = (.ok (s.revision + 1), s.publish (.put k v)) := by
  cases hc : checkAssignment key value with
  | none => exact .inl ⟨_, by simp only [put, hc]; rfl⟩
  | some kv =>
      obtain ⟨k, v⟩ := kv
      by_cases ha : (alloc .mapKey && alloc .payload && alloc .changeKey) = true
      · by_cases hr : s.revision ≥ revisionMax
        · exact .inl ⟨revisionExhausted, by simp [put, hc, ha, hr]⟩
        · -- the two branches differ only in how a failed journal append is undone
          cases hk : s.records[k]? with
          | some previous =>
              cases hj : retainChange (alloc .journalNode) ⟨s.revision + 1, .put, v.type, k⟩
                  { s with records := s.records.insert k ⟨v, s.revision + 1⟩ } with
              | none =>
                  refine .inl ⟨putOutOfMemory, ?_⟩
                  simp [put, hc, ha, hr, hk, hj, insert_insert_previous hk]
              | some kept =>
                  obtain ⟨-, rfl⟩ := retainChange_room hj
                  refine .inr ⟨k, v, rfl, by omega, ?_⟩
                  simp [put, hc, ha, hr, hk, hj, StoreState.publish, Mutation.change,
                    Mutation.update]
          | none =>
              by_cases hn : alloc .recordNode = true
              · cases hj : retainChange (alloc .journalNode) ⟨s.revision + 1, .put, v.type, k⟩
                    { s with records := s.records.insert k ⟨v, s.revision + 1⟩ } with
                | none =>
                    refine .inl ⟨putOutOfMemory, ?_⟩
                    simp [put, hc, ha, hr, hk, hn, hj, erase_insert_absent hk]
                | some kept =>
                    obtain ⟨-, rfl⟩ := retainChange_room hj
                    refine .inr ⟨k, v, rfl, by omega, ?_⟩
                    simp [put, hc, ha, hr, hk, hn, hj, StoreState.publish, Mutation.change,
                      Mutation.update]
              · exact .inl ⟨putOutOfMemory, by simp [put, hc, ha, hr, hk, hn]⟩
      · exact .inl ⟨putOutOfMemory, by simp only [put, hc]; simp [ha]⟩

/-- The staged loop publishes one put after the other on the copies. -/
theorem patchLoop_cases (alloc : PatchSite → Bool) (i : ℕ) (assignments : List (Bytes × Value))
    (s : StoreState) :
    patchLoop alloc i assignments s = none ∨
      patchLoop alloc i assignments s =
        some (s.publishAll (assignments.map fun a => .put a.1 a.2)) := by
  induction assignments generalizing i s with
  | nil => exact .inr rfl
  | cons a rest ih =>
      obtain ⟨key, value⟩ := a
      simp only [patchLoop]
      split_ifs
      · exact .inl rfl
      · exact .inl rfl
      · exact .inl rfl
      · exact ih (i + 1) (s.publish (.put key value))

/-- The puts a successful patch stands for. -/
def patchMutations (entries : List PatchEntry) : List Mutation :=
  entries.filterMap fun e =>
    match e.key, e.value with
    | some key, some value => some (.put key value)
    | _, _ => none

theorem checkAssignment_eq_some {key : Option Bytes} {value : Option Value} {k : Bytes} {v : Value}
    (h : checkAssignment key value = some (k, v)) : key = some k ∧ value = some v := by
  cases key with
  | none => simp [checkAssignment] at h
  | some k' =>
      cases value with
      | none => simp [checkAssignment] at h
      | some v' =>
          simp only [checkAssignment] at h
          split_ifs at h
          simpa using h

theorem patchMutations_eq {entries : List PatchEntry} {assignments : List (Bytes × Value)}
    (h : entries.mapM (fun e => checkAssignment e.key e.value) = some assignments) :
    patchMutations entries = assignments.map (fun a => .put a.1 a.2) ∧
      (patchMutations entries).length = entries.length := by
  induction entries generalizing assignments with
  | nil =>
      simp only [List.mapM_nil, Option.pure_def, Option.some.injEq] at h
      subst h
      exact ⟨rfl, rfl⟩
  | cons e rest ih =>
      simp only [List.mapM_cons, Option.bind_eq_bind, Option.bind_eq_some_iff, Option.pure_def,
        Option.some.injEq] at h
      obtain ⟨⟨k, v⟩, hc, as, hr, rfl⟩ := h
      obtain ⟨hk, hv⟩ := checkAssignment_eq_some hc
      obtain ⟨heq, hlen⟩ := ih hr
      have hcons : patchMutations (e :: rest) = .put k v :: patchMutations rest := by
        simp only [patchMutations, List.filterMap_cons, hk, hv]
      rw [hcons]
      exact ⟨by rw [heq, List.map_cons], by rw [List.length_cons, List.length_cons, hlen]⟩

theorem patch_cases (alloc : PatchSite → Bool) (entries : List PatchEntry) (s : StoreState) :
    (∃ f, patch alloc entries s = (.error f, s)) ∨
      (s.revision ≤ revisionMax - entries.length ∨ entries = []) ∧
        (patchMutations entries).length = entries.length ∧
        patch alloc entries s =
          (.ok (s.revision + entries.length), s.publishAll (patchMutations entries)) := by
  by_cases hl : entries.length > patchMaxEntries
  · exact .inl ⟨_, by simp only [patch, if_pos hl]; rfl⟩
  cases hm : entries.mapM (fun e => checkAssignment e.key e.value) with
  | none => exact .inl ⟨_, by simp only [patch, if_neg hl, hm]; rfl⟩
  | some assignments =>
      obtain ⟨heq, hlen⟩ := patchMutations_eq hm
      by_cases hz : entries.length = 0
      · have he : entries = [] := List.eq_nil_of_length_eq_zero hz
        subst he
        exact .inr ⟨.inr rfl, hlen, by simp [patch, patchMutations, StoreState.publishAll]⟩
      by_cases hr : s.revision > revisionMax - entries.length
      · exact .inl ⟨_, by simp only [patch, if_neg hl, hm, if_neg hz, if_pos hr]; rfl⟩
      by_cases ha : (alloc .copyRecords && alloc .copyChanges) = true
      · rcases patchLoop_cases alloc 0 assignments s with hp | hp
        · exact .inl ⟨_, by simp only [patch, if_neg hl, hm, if_neg hz, if_neg hr, ha, hp]; rfl⟩
        · refine .inr ⟨.inl (by omega), hlen, ?_⟩
          rw [← heq] at hp
          simp only [patch, if_neg hl, hm, if_neg hz, if_neg hr, ha, hp, publishAll_revision, hlen]
          rfl
      · exact .inl ⟨_, by simp only [patch, if_neg hl, hm, if_neg hz, if_neg hr, ha]; rfl⟩

theorem delete_cases (alloc : DeleteSite → Bool) (key : Option Bytes) (s : StoreState) :
    (∃ f, delete alloc key s = (.error f, s)) ∨
      delete alloc key s = (.ok ⟨false, s.revision⟩, s) ∨
      ∃ k, key = some k ∧ s.revision < revisionMax ∧
        delete alloc key s = (.ok ⟨true, s.revision + 1⟩, s.publish (.delete k)) := by
  cases key with
  | none => exact .inl ⟨_, rfl⟩
  | some k =>
      simp only [delete]
      split_ifs with hv ha hk hr
      · exact .inl ⟨_, rfl⟩
      · exact .inl ⟨_, rfl⟩
      · exact .inr (.inl rfl)
      · exact .inl ⟨_, rfl⟩
      · cases hj : retainChange (alloc .journalNode) ⟨s.revision + 1, .delete, Value.null, k⟩ s with
        | none => exact .inl ⟨_, rfl⟩
        | some kept =>
            obtain ⟨-, rfl⟩ := retainChange_room hj
            exact .inr (.inr ⟨k, rfl, by omega, rfl⟩)

theorem clear_cases (alloc : ClearSite → Bool) (s : StoreState) :
    (∃ f, clear alloc s = (.error f, s)) ∨
      clear alloc s = (.ok ⟨false, s.revision⟩, s) ∨
      s.revision < revisionMax ∧
        clear alloc s = (.ok ⟨true, s.revision + 1⟩, s.publish .clear) := by
  simp only [clear]
  split_ifs with he hr
  · exact .inr (.inl rfl)
  · exact .inl ⟨_, rfl⟩
  · cases hj : retainChange (alloc .journalNode) ⟨s.revision + 1, .clear, Value.null, []⟩ s with
    | none => exact .inl ⟨_, rfl⟩
    | some kept =>
        obtain ⟨-, rfl⟩ := retainChange_room hj
        exact .inr (.inr ⟨by omega, rfl⟩)

end Esdb.MemoryStore
