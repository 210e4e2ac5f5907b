import Esdb.MemoryStorePatch

/-!
# Polling the memory Store

A poll copies a bounded part of the journal under the Store mutex, releases it
and only then calls back, so mutations by other clients, or by the callback
itself, may happen between the two halves. They are separate events here. The
subscription's own mutex admits one poll at a time.
-/
namespace Esdb.MemoryStore

/-- `ESDB_STORE_CHANGE_LIMIT_MAX`. -/
def changeLimitMax : ℕ := 10000

/-- What a change callback is shown: a clear carries no key. -/
structure StoreChange where
  revision : ℕ
  operation : ChangeOperation
  valueType : ℕ
  key : Option Bytes
  deriving DecidableEq, Repr

def MemoryChange.shown (c : MemoryChange) : StoreChange :=
  ⟨c.revision, c.operation, c.valueType, if c.operation = .clear then none else some c.key⟩

inductive SnapshotSite where
  | reserve | copyChange (i : ℕ)
  deriving DecidableEq, Repr

/-- The copying loop over the retained changes. -/
def snapshotLoop (after limit : ℕ) : List MemoryChange → List MemoryChange → List MemoryChange
  | [], snapshot => snapshot
  | c :: rest, snapshot =>
      if c.revision ≤ after then snapshotLoop after limit rest snapshot
      else if snapshot.length ≥ limit then snapshot
      else snapshotLoop after limit rest (snapshot ++ [c])

def snapshotOutOfMemory : Failure :=
  storeFail .outOfMemory .subscription "failed to allocate Store change snapshot"

/-- `changes_since_impl` up to the release of the Store mutex. -/
def takeSnapshot (alloc : SnapshotSite → Bool) (after limit : ℕ) (s : StoreState) :
    Except Failure (List MemoryChange) :=
  if limit > changeLimitMax || after > revisionMax then
    .error (storeFail .invalidArgument .subscription "invalid Store change query arguments")
  else
    let limit := if limit = 0 then changeLimitMax else limit
    if !alloc .reserve then .error snapshotOutOfMemory
    else if after > s.revision then
      .error (storeFail .invalidArgument .subscription "after_revision is newer than the Store")
    else if after < s.retainedFloor then
      .error (storeFail .gap .subscription
        "requested Store history is older than the retained change floor")
    else
      let snapshot := snapshotLoop after limit s.changes []
      if (List.range snapshot.length).all fun i => alloc (.copyChange i) then .ok snapshot
      else .error snapshotOutOfMemory

/-- The delivery loop: the last revision and the number of changes delivered. -/
def deliver (callback : ℕ → Verdict) :
    List MemoryChange → (last delivered : ℕ) → Except Failure (ℕ × ℕ)
  | [], last, delivered => .ok (last, delivered)
  | c :: rest, _, delivered =>
      match callback delivered with
      | .proceed => deliver callback rest c.revision (delivered + 1)
      | .stop => .ok (c.revision, delivered + 1)
      | .throw =>
          .error (storeFail .internal .subscription "Store change callback threw an exception")

/-! ## Subscriptions -/

structure InFlight where
  start : ℕ
  snapshot : List MemoryChange
  deriving DecidableEq, Repr

/-- `esdb_store_subscription`; holding `poll_mutex` is having a poll in flight. -/
structure Subscription where
  revision : ℕ
  inFlight : Option InFlight
  deriving DecidableEq, Repr

/-- `esdb_store_subscribe`. -/
def subscribe (room : Bool) (after : ℕ) (s : StoreState) : Except Failure Subscription :=
  if after > revisionMax then
    .error (storeFail .invalidArgument .subscription "invalid Store subscription arguments")
  else if after > s.revision then
    .error (storeFail .invalidArgument .subscription
      "subscription revision is newer than the Store")
  else if after < s.retainedFloor then
    .error (storeFail .gap .subscription
      "subscription revision is older than retained Store history")
  else if !room then
    .error (storeFail .outOfMemory .subscription "failed to allocate Store subscription")
  else .ok ⟨after, none⟩

/-- `esdb_store_subscription_poll` up to its first callback. -/
def Subscription.beginPoll (alloc : SnapshotSite → Bool) (hasCallback : Bool) (limit : ℕ)
    (s : StoreState) (sub : Subscription) : Except Failure Subscription :=
  if !hasCallback then
    .error (storeFail .invalidArgument .subscription "invalid Store subscription poll arguments")
  else if sub.inFlight.isSome then
    .error (storeFail .busy .subscription "Store subscription is already being polled")
  else
    match takeSnapshot alloc sub.revision limit s with
    | .error f => .error f
    | .ok snapshot => .ok { sub with inFlight := some ⟨sub.revision, snapshot⟩ }

/-- The callbacks of a poll and its return; only a success moves the cursor. The
reply lists the changes accepted. -/
def Subscription.endPoll (callback : ℕ → Verdict) (poll : InFlight) (sub : Subscription) :
    Except Failure (List StoreChange) × Subscription :=
  match deliver callback poll.snapshot poll.start 0 with
  | .error f => (.error f, { sub with inFlight := none })
  | .ok (last, delivered) =>
      (.ok ((poll.snapshot.take delivered).map MemoryChange.shown), ⟨last, none⟩)

/-! ## A Store and one subscription in any order of events -/

inductive Event where
  | call (c : Call)
  | beginPoll (alloc : SnapshotSite → Bool) (hasCallback : Bool) (limit : ℕ)
  | endPoll (callback : ℕ → Verdict)

/-- `log` and `accepted` record what has happened and are never read. -/
structure System where
  store : StoreState
  subscription : Subscription
  log : List Mutation
  accepted : List StoreChange

def Event.step (e : Event) (y : System) : System :=
  match e with
  | .call c =>
      { y with store := (c.exec y.store).2, log := y.log ++ c.mutations (c.exec y.store).1 }
  | .beginPoll alloc hasCallback limit =>
      match y.subscription.beginPoll alloc hasCallback limit y.store with
      | .error _ => y
      | .ok subscription => { y with subscription := subscription }
  | .endPoll callback =>
      match y.subscription.inFlight with
      | none => y
      | some poll =>
          match y.subscription.endPoll callback poll with
          | (.error _, subscription) => { y with subscription := subscription }
          | (.ok changes, subscription) =>
              { y with subscription := subscription, accepted := y.accepted ++ changes }

def System.run (events : List Event) (y : System) : System :=
  events.foldl (fun y e => e.step y) y

/-! ## Reading the window -/

theorem snapshotLoop_eq (after limit : ℕ) (changes snapshot : List MemoryChange)
    (h : snapshot.length ≤ limit) :
    snapshotLoop after limit changes snapshot = snapshot ++
      (changes.filter fun c => decide (after < c.revision)).take (limit - snapshot.length) := by
  induction changes generalizing snapshot with
  | nil => simp [snapshotLoop]
  | cons c rest ih =>
      simp only [snapshotLoop]
      split_ifs with hold hfull
      · have hc : ¬ after < c.revision := by omega
        rw [ih snapshot h, List.filter_cons_of_neg (by simpa using hc)]
      · have hz : limit - snapshot.length = 0 := by omega
        rw [hz, List.take_zero, List.append_nil]
      · have hc : after < c.revision := by omega
        have hroom : limit - snapshot.length = (limit - (snapshot ++ [c]).length) + 1 := by
          simp only [List.length_append, List.length_singleton]
          omega
        rw [ih (snapshot ++ [c]) (by simp only [List.length_append, List.length_singleton]; omega),
          List.filter_cons_of_pos (by simpa using hc), hroom, List.take_succ_cons,
          List.append_assoc, List.singleton_append]

/-- The limit a poll works with. -/
def effectiveLimit (limit : ℕ) : ℕ := if limit = 0 then changeLimitMax else limit

/-- A snapshot is the next part of the log after the cursor. -/
theorem takeSnapshot_eq {log : List Mutation} {s : StoreState} (h : Represents log s)
    {alloc : SnapshotSite → Bool} {after limit : ℕ} {snapshot : List MemoryChange}
    (ht : takeSnapshot alloc after limit s = .ok snapshot) :
    snapshot = ((history log).drop after).take (effectiveLimit limit) := by
  simp only [takeSnapshot] at ht
  split_ifs at ht with h₁ h₂ h₃ h₄ h₅ h₆ <;> cases ht
  all_goals
    rw [snapshotLoop_eq _ _ _ _ (by simp), List.nil_append,
      h.window.since (numbered_history log) (by omega)]
    simp [effectiveLimit, h₅]

/-- Deliveries advance through the snapshot one revision at a time. -/
theorem deliver_eq {callback : ℕ → Verdict} {log : List MemoryChange}
    (hn : BoundedLog.Numbered MemoryChange.revision log) (n : ℕ) (snapshot : List MemoryChange)
    {at₀ delivered last count : ℕ} (hs : snapshot = (log.drop at₀).take n)
    (hd : deliver callback snapshot at₀ delivered = .ok (last, count)) :
    delivered ≤ count ∧ count - delivered ≤ snapshot.length ∧
      last = at₀ + (count - delivered) := by
  induction snapshot generalizing at₀ delivered n with
  | nil =>
      simp only [deliver, Except.ok.injEq, Prod.mk.injEq] at hd
      omega
  | cons c rest ih =>
      have hlt : at₀ < log.length := by
        by_contra hge
        rw [List.drop_eq_nil_of_le (by omega), List.take_nil] at hs
        cases hs
      obtain ⟨k, rfl⟩ : ∃ k, n = k + 1 := by
        cases n with
        | zero => cases hs
        | succ k => exact ⟨k, rfl⟩
      rw [List.drop_eq_getElem_cons hlt, List.take_succ_cons, List.cons.injEq] at hs
      obtain ⟨rfl, hrest⟩ := hs
      have hrev : log[at₀].revision = at₀ + 1 := hn at₀ hlt
      rw [deliver, hrev] at hd
      cases hv : callback delivered with
      | proceed =>
          simp only [hv] at hd
          have := ih k hrest hd
          simp only [List.length_cons]
          omega
      | stop =>
          simp only [hv, Except.ok.injEq, Prod.mk.injEq] at hd
          simp only [List.length_cons]
          omega
      | throw => simp [hv] at hd

/-! ## The cursor -/

/-- The Store represents its log, and what has been accepted is the log from the
start cursor to the cursor. A poll in flight holds the next part of it. -/
structure System.Inv (start : ℕ) (y : System) : Prop where
  store : Represents y.log y.store
  start_le : start ≤ y.subscription.revision
  le_length : y.subscription.revision ≤ y.log.length
  accepted : y.accepted = (((history y.log).drop start).take
    (y.subscription.revision - start)).map MemoryChange.shown
  inFlight : ∀ poll, y.subscription.inFlight = some poll →
    poll.start = y.subscription.revision ∧
      ∃ n, poll.snapshot = ((history y.log).drop poll.start).take n ∧
        poll.start + poll.snapshot.length ≤ y.log.length

theorem history_append (log ms : List Mutation) : ∃ tail, history (log ++ ms) = history log ++ tail := by
  exact ⟨_, List.mapIdx_append⟩

/-- More log after position `b` does not change what lies between `a` and `b`. -/
theorem drop_take_append_left {α : Type} (log tail : List α) {a n : ℕ} (h : a + n ≤ log.length) :
    ((log ++ tail).drop a).take n = (log.drop a).take n := by
  rw [List.drop_append_of_le_length (by omega), List.take_append_of_le_length]
  rw [List.length_drop]
  omega

theorem System.Inv.call {start : ℕ} {y : System} (h : y.Inv start) (c : Call) :
    ((Event.call c).step y).Inv start := by
  obtain ⟨tail, htail⟩ := history_append y.log (c.mutations (c.exec y.store).1)
  have hlen := history_length y.log
  have hle := h.le_length
  have hstart := h.start_le
  constructor
  · exact h.store.exec c
  · exact hstart
  · simp only [Event.step, List.length_append]
    omega
  · simp only [Event.step, htail]
    rw [drop_take_append_left _ _ (by omega)]
    exact h.accepted
  · intro poll hp
    obtain ⟨hrev, n, hsnap, hfit⟩ := h.inFlight poll hp
    refine ⟨hrev, poll.snapshot.length, ?_, ?_⟩
    · simp only [Event.step, htail]
      rw [drop_take_append_left _ _ (by omega)]
      conv_lhs => rw [hsnap]
      rw [hsnap, List.length_take, List.take_eq_take_min]
    · simp only [Event.step, List.length_append]
      omega

theorem Subscription.beginPoll_ok {alloc : SnapshotSite → Bool} {hasCallback : Bool} {limit : ℕ}
    {s : StoreState} {sub sub' : Subscription}
    (h : sub.beginPoll alloc hasCallback limit s = .ok sub') :
    ∃ snapshot, takeSnapshot alloc sub.revision limit s = .ok snapshot ∧
      sub' = { sub with inFlight := some ⟨sub.revision, snapshot⟩ } := by
  simp only [Subscription.beginPoll] at h
  split_ifs at h
  cases ht : takeSnapshot alloc sub.revision limit s with
  | error f => simp [ht] at h
  | ok snapshot =>
      simp only [ht, Except.ok.injEq] at h
      exact ⟨snapshot, rfl, h.symm⟩

theorem System.Inv.beginPoll {start : ℕ} {y : System} (h : y.Inv start)
    (alloc : SnapshotSite → Bool) (hasCallback : Bool) (limit : ℕ) :
    ((Event.beginPoll alloc hasCallback limit).step y).Inv start := by
  simp only [Event.step]
  cases hb : y.subscription.beginPoll alloc hasCallback limit y.store with
  | error f => exact h
  | ok sub =>
      obtain ⟨snapshot, ht, rfl⟩ := Subscription.beginPoll_ok hb
      have hsnap := takeSnapshot_eq h.store ht
      have hle := h.le_length
      refine ⟨h.store, h.start_le, h.le_length, h.accepted, ?_⟩
      rintro poll hp
      cases hp
      refine ⟨rfl, _, hsnap, ?_⟩
      simp only [hsnap, List.length_take, List.length_drop, history_length]
      omega

theorem System.Inv.endPoll {start : ℕ} {y : System} (h : y.Inv start) (callback : ℕ → Verdict) :
    ((Event.endPoll callback).step y).Inv start := by
  simp only [Event.step]
  cases hf : y.subscription.inFlight with
  | none => exact h
  | some poll =>
      obtain ⟨hrev, n, hsnap, hfit⟩ := h.inFlight poll hf
      have hle := h.le_length
      have hstart := h.start_le
      cases hd : deliver callback poll.snapshot poll.start 0 with
      | error f =>
          simp only [Subscription.endPoll, hd]
          exact ⟨h.store, h.start_le, h.le_length, h.accepted, by simp⟩
      | ok reply =>
          obtain ⟨last, count⟩ := reply
          obtain ⟨-, hcount, hlast⟩ := deliver_eq (numbered_history y.log) n poll.snapshot hsnap hd
          rw [Nat.sub_zero] at hcount hlast
          simp only [Subscription.endPoll, hd]
          refine ⟨h.store, ?_, ?_, ?_, by simp⟩
          · simp only [hlast]
            omega
          · simp only [hlast]
            omega
          · -- the accepted part of the snapshot continues the log at the cursor
            have htake : poll.snapshot.take count =
                ((history y.log).drop y.subscription.revision).take count := by
              rw [hsnap, hrev, List.take_take, Nat.min_eq_left]
              rw [hsnap, List.length_take] at hcount
              omega
            have hsum : last - start = (y.subscription.revision - start) + count := by omega
            have hpos : start + (y.subscription.revision - start) = y.subscription.revision := by
              omega
            simp only [h.accepted, htake, hsum, List.take_add, List.drop_drop, hpos,
              List.map_append]

theorem System.Inv.run {start : ℕ} {y : System} (h : y.Inv start) (events : List Event) :
    (y.run events).Inv start := by
  induction events generalizing y with
  | nil => exact h
  | cons e events ih =>
      apply ih
      cases e with
      | call c => exact h.call c
      | beginPoll alloc hasCallback limit => exact h.beginPoll alloc hasCallback limit
      | endPoll callback => exact h.endPoll callback

end Esdb.MemoryStore
