import Esdb.MemorySubscription

/-!
# Exactly-once delivery, or a reported gap

The accepted changes of a subscription are a contiguous stretch of the history,
and replaying them turns the keys present at the start cursor into the keys
present at the cursor reached. When a revision the subscription still owes has
left the window, a poll says so and changes nothing.
-/
namespace Esdb.MemoryStore

/-- The keys present after the first `n` mutations. -/
def keysAfter (log : List Mutation) (n : ℕ) (key : Bytes) : Bool :=
  (recordAfter (log.take n) key).isSome

/-- How a consumer keeps a key set up to date from the changes it is shown. -/
def StoreChange.replay (present : Bytes → Bool) (c : StoreChange) : Bytes → Bool :=
  match c.operation, c.key with
  | .put, some k => fun key => k == key || present key
  | .delete, some k => fun key => k != key && present key
  | .clear, _ => fun _ => false
  | _, none => present

theorem replay_change (log : List Mutation) (m : Mutation) (revision : ℕ) :
    (m.change revision).shown.replay (fun key => (recordAfter log key).isSome) =
      fun key => (recordAfter (log ++ [m]) key).isSome := by
  funext key
  unfold recordAfter
  rw [lastMutation_push]
  cases m with
  | put k v =>
      by_cases hk : k = key <;>
        simp [StoreChange.replay, Mutation.change, MemoryChange.shown, Mutation.touches, hk]
  | delete k =>
      by_cases hk : k = key <;>
        simp [StoreChange.replay, Mutation.change, MemoryChange.shown, Mutation.touches, hk]
  | clear =>
      simp [StoreChange.replay, Mutation.change, MemoryChange.shown, Mutation.touches]

theorem keysAfter_succ (log : List Mutation) (n : ℕ) (h : n < log.length) :
    (log[n].change (n + 1)).shown.replay (keysAfter log n) = keysAfter log (n + 1) := by
  have ht : log.take (n + 1) = log.take n ++ [log[n]] := by
    rw [List.take_succ_eq_append_getElem h]
  change StoreChange.replay (fun key => (recordAfter (log.take n) key).isSome) _ =
    fun key => (recordAfter (log.take (n + 1)) key).isSome
  rw [replay_change, ht]

/-- Replaying a stretch of the history moves the key set along it. -/
theorem replay_history (log : List Mutation) (a n : ℕ) (h : a + n ≤ log.length) :
    ((((history log).drop a).take n).map MemoryChange.shown).foldl StoreChange.replay
      (keysAfter log a) = keysAfter log (a + n) := by
  induction n with
  | zero => simp
  | succ n ih =>
      have hlt : n < ((history log).drop a).length := by
        rw [List.length_drop, history_length]
        omega
      rw [List.take_succ_eq_append_getElem hlt, List.map_append, List.foldl_append, ih (by omega)]
      have hbound : a + n < log.length := by omega
      have he : ((history log).drop a)[n] = log[a + n].change (a + n + 1) := by
        simp [history]
      simp only [he, List.map_cons, List.map_nil, List.foldl_cons, List.foldl_nil]
      exact keysAfter_succ log (a + n) (by omega)

/-- The failure a poll reports when the journal no longer reaches its cursor. -/
def gapFailure : Failure :=
  storeFail .gap .subscription "requested Store history is older than the retained change floor"

theorem System.Inv.lost_iff {start : ℕ} {y : System} (h : y.Inv start) :
    (∃ r, y.subscription.revision < r ∧ r ≤ y.store.revision ∧
        r ∉ y.store.changes.map MemoryChange.revision) ↔
      y.subscription.revision < y.store.retainedFloor := by
  have hmem := h.store.window.mem_seq_iff (numbered_history y.log)
  have hfloor := h.store.window.floor_le
  have hrev := h.store.revision_eq
  rw [history_length] at hmem hfloor
  constructor
  · rintro ⟨r, hlo, hhi, hr⟩
    rw [hmem] at hr
    omega
  · intro hlt
    refine ⟨y.subscription.revision + 1, by omega, by omega, ?_⟩
    rw [hmem]
    omega

/-- A poll with an admissible limit either starts delivering the next stretch of
the history or, if part of it has left the window, reports the gap. -/
theorem System.Inv.beginPoll_eq {start : ℕ} {y : System} (h : y.Inv start)
    (hfree : y.subscription.inFlight = none) {alloc : SnapshotSite → Bool} {limit : ℕ}
    (hlimit : limit ≤ changeLimitMax) (hreserve : alloc .reserve = true) :
    y.subscription.beginPoll alloc true limit y.store =
      if y.subscription.revision < y.store.retainedFloor then .error gapFailure
      else
        let snapshot := ((history y.log).drop y.subscription.revision).take (effectiveLimit limit)
        if (List.range snapshot.length).all fun i => alloc (.copyChange i) then
          .ok { y.subscription with inFlight := some ⟨y.subscription.revision, snapshot⟩ }
        else .error snapshotOutOfMemory := by
  have hle := h.le_length
  have hrev := h.store.revision_eq
  have hwithin := h.store.within
  have hargs : (decide (limit > changeLimitMax) ||
      decide (y.subscription.revision > revisionMax)) = false := by
    simp only [Bool.or_eq_false_iff, decide_eq_false_iff_not]
    omega
  have hnew : ¬ y.subscription.revision > y.store.revision := by omega
  simp only [Subscription.beginPoll, hfree, takeSnapshot, hargs, hreserve, hnew]
  by_cases hgap : y.subscription.revision < y.store.retainedFloor
  · simp [hgap, gapFailure]
  · have hsnap : snapshotLoop y.subscription.revision (effectiveLimit limit) y.store.changes [] =
        ((history y.log).drop y.subscription.revision).take (effectiveLimit limit) := by
      rw [snapshotLoop_eq _ _ _ _ (by simp), List.nil_append,
        h.store.window.since (numbered_history y.log) (by omega)]
      simp
    rw [effectiveLimit] at hsnap ⊢
    rw [hsnap]
    simp only [hgap, if_false]
    split_ifs <;> simp_all

theorem System.Inv.subscribe (calls : List Call) (room : Bool) {after : ℕ} {sub : Subscription}
    (h : subscribe room after (MemoryStore.run calls initial []).1 = .ok sub) :
    System.Inv after ⟨(MemoryStore.run calls initial []).1, sub,
      (MemoryStore.run calls initial []).2, []⟩ := by
  have hr : Represents (MemoryStore.run calls initial []).2 (MemoryStore.run calls initial []).1 :=
    represents_initial.run calls
  have hrev := hr.revision_eq
  simp only [MemoryStore.subscribe] at h
  split_ifs at h
  cases h
  refine ⟨hr, Nat.le_refl _, ?_, ?_, by simp⟩
  · simp only
    omega
  · simp

/-- Whatever mutations and polls are interleaved, the changes a subscription has
accepted are the history from its start cursor to its cursor, each once and in
order, and replaying them gives the keys present at the cursor. A poll with an
admissible limit that would have to deliver a revision no longer retained
reports the gap, and a poll that is refused for any reason leaves everything as
it was. -/
theorem delivery_exact_or_gap (calls : List Call) (room : Bool) (after : ℕ) (sub : Subscription)
    (hsub : subscribe room after (run calls initial []).1 = .ok sub) (events : List Event) :
    let y := System.run events ⟨(run calls initial []).1, sub, (run calls initial []).2, []⟩
    let cursor := y.subscription.revision
    after ≤ cursor ∧ cursor ≤ y.store.revision ∧
      y.accepted = (((history y.log).drop after).take (cursor - after)).map MemoryChange.shown ∧
      y.accepted.map StoreChange.revision = List.range' (after + 1) (cursor - after) ∧
      y.accepted.foldl StoreChange.replay (keysAfter y.log after) = keysAfter y.log cursor ∧
      (∀ key : Bytes, y.store.records[key]?.isSome = keysAfter y.log y.store.revision key) ∧
      (∀ (alloc : SnapshotSite → Bool) (limit : ℕ), y.subscription.inFlight = none →
        limit ≤ 10000 → alloc .reserve = true →
        (∃ r, cursor < r ∧ r ≤ y.store.revision ∧
          r ∉ y.store.changes.map MemoryChange.revision) →
        y.subscription.beginPoll alloc true limit y.store = .error gapFailure) ∧
      (∀ (alloc : SnapshotSite → Bool) (limit : ℕ), y.subscription.inFlight = none →
        limit ≤ 10000 → (∀ site, alloc site = true) →
        (∀ r, cursor < r → r ≤ y.store.revision →
          r ∈ y.store.changes.map MemoryChange.revision) →
        y.subscription.beginPoll alloc true limit y.store =
          .ok ⟨cursor, some ⟨cursor,
            ((history y.log).drop cursor).take (effectiveLimit limit)⟩⟩) ∧
      ∀ (alloc : SnapshotSite → Bool) (hasCallback : Bool) (limit : ℕ) (f : Failure),
        y.subscription.beginPoll alloc hasCallback limit y.store = .error f →
        (Event.beginPoll alloc hasCallback limit).step y = y := by
  intro y cursor
  have h : y.Inv after := (System.Inv.subscribe _ _ hsub).run events
  have hle := h.le_length
  have hstart := h.start_le
  have hrev := h.store.revision_eq
  refine ⟨hstart, by omega, h.accepted, ?_, ?_, ?_, ?_, ?_, ?_⟩
  · have hmap : ∀ cs : List MemoryChange,
        (cs.map MemoryChange.shown).map StoreChange.revision = cs.map MemoryChange.revision := by
      intro cs
      simp [MemoryChange.shown]
    rw [h.accepted, hmap, (numbered_history y.log).seq_stretch _ _ (by rw [history_length]; omega)]
  · rw [h.accepted, replay_history y.log after _ (by omega)]
    congr 1
    omega
  · intro key
    rw [h.store.records key, keysAfter, hrev, List.take_length]
  · intro alloc limit hfree hlimit hreserve hlost
    rw [h.beginPoll_eq hfree hlimit hreserve, if_pos (h.lost_iff.mp hlost)]
  · intro alloc limit hfree hlimit halloc hkept
    have hfloor : ¬ y.subscription.revision < y.store.retainedFloor := by
      intro hlt
      obtain ⟨r, hlo, hhi, hr⟩ := h.lost_iff.mpr hlt
      exact hr (hkept r hlo hhi)
    rw [h.beginPoll_eq hfree hlimit (halloc _), if_neg hfloor]
    simp only [halloc, List.all_eq_true, implies_true, if_true]
    rfl
  · intro alloc hasCallback limit f hf
    simp only [Event.step, hf]

/-- One put, one poll and a second put, from a fresh Store. -/
theorem delivery_exact_or_gap_one_poll :
    let put : Call := .put always (some [107]) (some ⟨Value.null, []⟩)
    let y := System.run [.call put, .beginPoll always true 0, .call put, .endPoll fun _ => .proceed]
      ⟨initial, ⟨0, none⟩, [], []⟩
    subscribe true 0 initial = .ok ⟨0, none⟩ ∧ y.subscription.revision ≤ y.store.revision := by
  intro put y
  exact ⟨by rfl, (delivery_exact_or_gap [] true 0 ⟨0, none⟩ rfl _).2.1⟩

/-! ## A limit beyond the maximum -/

theorem run_replicate_put (n : ℕ) (y : System) (h : y.store.revision + n ≤ revisionMax) :
    let put : Event := .call (.put always (some [107]) (some ⟨Value.null, []⟩))
    (y.run (List.replicate n put)).store.revision = y.store.revision + n ∧
      (y.run (List.replicate n put)).subscription = y.subscription := by
  intro put
  induction n generalizing y with
  | zero => exact ⟨rfl, rfl⟩
  | succ n ih =>
      have hcheck : checkAssignment (some [107]) (some ⟨Value.null, []⟩) =
          some ([107], ⟨Value.null, []⟩) := by decide
      have hput := put_always_ok hcheck (s := y.store) (by omega)
      have hstep : (put.step y).store.revision = y.store.revision + 1 := by
        simp only [put, Event.step, Call.exec, hput, publish_revision]
      have := ih (put.step y) (by omega)
      rw [hstep] at this
      rw [List.replicate_succ]
      exact ⟨this.1.trans (by omega), this.2⟩

theorem poll_limit_refused (n : ℕ) (hn : 4096 < n) (hmax : n ≤ revisionMax) :
    let y := System.run (List.replicate n (.call (.put always (some [107])
      (some ⟨Value.null, []⟩)))) ⟨initial, ⟨0, none⟩, [], []⟩
    subscribe true 0 initial = .ok ⟨0, none⟩ ∧
      (∃ r, y.subscription.revision < r ∧ r ≤ y.store.revision ∧
        r ∉ y.store.changes.map MemoryChange.revision) ∧
      y.subscription.beginPoll always true 10001 y.store =
        .error (storeFail .invalidArgument .subscription
          "invalid Store change query arguments") ∧
      y.subscription.beginPoll always true 10001 y.store ≠ .error gapFailure := by
  intro y
  obtain ⟨hrev, hsub⟩ := run_replicate_put n ⟨initial, ⟨0, none⟩, [], []⟩
    (by simpa [initial] using hmax)
  have hinv : y.Inv 0 := (System.Inv.subscribe [] true rfl).run _
  have hlen := hinv.store.window.length_eq
  have hbound := hinv.store.window.bounded
  have hlog := hinv.store.revision_eq
  have hpoll : y.subscription.beginPoll always true 10001 y.store =
      .error (storeFail .invalidArgument .subscription
        "invalid Store change query arguments") := by
    rw [hsub]
    simp [Subscription.beginPoll, takeSnapshot, changeLimitMax]
  refine ⟨rfl, ?_, hpoll, by rw [hpoll]; decide⟩
  rw [hinv.lost_iff, hsub]
  rw [history_length] at hlen
  simp only [changeCapacity, initial] at hbound hrev
  change y.store.revision = 0 + n at hrev
  simp only
  omega

/-- After 4097 puts the first revision has left the window of a subscription that
starts at zero, and a poll asking for 10001 changes is refused as an invalid
argument instead of reporting the gap. -/
theorem poll_limit_refused_before_gap :
    let y := System.run (List.replicate 4097 (.call (.put always (some [107])
      (some ⟨Value.null, []⟩)))) ⟨initial, ⟨0, none⟩, [], []⟩
    subscribe true 0 initial = .ok ⟨0, none⟩ ∧
      (∃ r, y.subscription.revision < r ∧ r ≤ y.store.revision ∧
        r ∉ y.store.changes.map MemoryChange.revision) ∧
      y.subscription.beginPoll always true 10001 y.store =
        .error (storeFail .invalidArgument .subscription
          "invalid Store change query arguments") ∧
      y.subscription.beginPoll always true 10001 y.store ≠ .error gapFailure :=
  poll_limit_refused 4097 (by decide) (by decide)

end Esdb.MemoryStore
