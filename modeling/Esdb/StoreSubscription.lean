import Esdb.MemoryRegistry
import Esdb.ScriptSubscription

/-!
# Subscriptions to the memory Store

A `Store` of the script library is a name. Every call opens the Store of that name,
which makes it if there is none, and closes it again, so nothing in the script keeps the
Store from being destroyed and made anew by another script, and the cursor of a
subscription is a number that is not tied to either.
-/
namespace Esdb.ScriptSubscription

open AscendingLog Esdb.MemoryStore
open Esdb.Adapter (AdapterError)
open Esdb.Script (Thrown)

/-- `StoreSubscription`: a clear is for every key. -/
def storeFeed : Feed StoreChange where
  revision := StoreChange.revision
  wanted key change := change.operation == .clear || key.isNone || change.key == key

/-- `Store`. -/
structure Store where
  name : Bytes
  destroyed : Bool
  deriving DecidableEq, Repr

/-- Where a query of the adapter's allocates: the handle, the snapshot, the text of its rows
and the whole text. -/
structure QuerySites where
  opens : OpenSite → Bool
  snapshot : SnapshotSite → Bool
  rows : Bool
  wire : Bool

def QuerySites.all : QuerySites := ⟨fun _ => true, fun _ => true, true, true⟩

/-- `esdb_store_changes_since` with a callback that takes every change. -/
def changesSince (alloc : SnapshotSite → Bool) (after limit : ℕ) (s : StoreState) :
    Except Failure (Window StoreChange) :=
  match takeSnapshot alloc after limit s with
  | .error f => .error f
  | .ok snapshot =>
      match deliver (fun _ => .proceed) snapshot after 0 with
      | .error f => .error f
      | .ok (last, delivered) => .ok ⟨last, (snapshot.take delivered).map MemoryChange.shown⟩

/-- `storeChanges` of the adapter. -/
def storeChanges (sites : QuerySites) (name : Bytes) (after limit : ℕ) (r : Registry) :
    Except AdapterError (Window StoreChange) × Registry :=
  match storeOpen sites.opens name r with
  | (.error f, r) => (.error ⟨.databaseError, some f, "failed to open memory Store"⟩, r)
  | (.ok id, r) =>
      match changesSince sites.snapshot after limit (r.state id) with
      | .error f =>
          (.error ⟨.databaseError, some f, "memory Store changes query failed"⟩, storeClose id r)
      | .ok window =>
          if !sites.rows then
            (.error ⟨.outOfMemory, none, "failed to serialize memory Store change window"⟩,
              storeClose id r)
          else if !sites.wire then
            (.error ⟨.outOfMemory, none, "failed to serialize memory Store changes"⟩,
              storeClose id r)
          else (.ok window, storeClose id r)

/-- `Store.changesSince` from the check that the Store is live. -/
def Store.changesSince (sites : QuerySites) (after limit : ℕ) (store : Store) (r : Registry) :
    Except Thrown (Window StoreChange) × Registry :=
  if store.destroyed then (.error ⟨"Store has been destroyed", none⟩, r)
  else
    match storeChanges sites store.name after limit r with
    | (.error e, r) => (.error ⟨"memory Store changes query failed", some e⟩, r)
    | (.ok window, r) => (.ok window, r)

/-- `Store.destroy`. -/
def Store.destroy (store : Store) (r : Registry) : Store × Registry :=
  if store.destroyed then (store, r)
  else
    match storeDestroy store.name r with
    | (.error _, r) => (store, r)
    | (.ok (), r) => ({ store with destroyed := true }, r)

/-! ## Runs -/

/-- One life of a Store, with its mutations as far as they have been read. -/
structure Incarnation where
  id : ℕ
  log : List Mutation

def Incarnation.journal : Option Incarnation → List StoreChange
  | none => []
  | some i => (history i.log).map MemoryChange.shown

/-- The Store of that name as it is. -/
def incarnation (name : Bytes) (r : Registry) : Option Incarnation :=
  r.stores[name]?.map fun id => ⟨id, r.log id⟩

/-- The revision of the Store of that name; a Store that is not there is made with none. -/
def currentRevision (name : Bytes) (r : Registry) : ℕ :=
  match r.stores[name]? with
  | none => 0
  | some id => (r.state id).revision

/-- The Stores of the process and one subscription. -/
structure StoreWorld where
  registry : Registry
  store : Store
  reader : Reader (Option Incarnation) StoreChange

/-- `subscribe` with a revision of the caller's. -/
def StoreWorld.subscribe (r : Registry) (name : Bytes) (key : Option Bytes) (handler : Bool)
    (start : ℕ) : StoreWorld :=
  ⟨r, ⟨name, false⟩, ⟨⟨key, handler, false, start⟩, [], [], [], incarnation name r⟩⟩

inductive StoreEvent where
  | traffic (t : Traffic)
  | destroy
  | poll (sites : QuerySites) (limit : Option ℤ)
  | handlerReturns
  | handlerThrows
  | close

def StoreEvent.step (e : StoreEvent) (w : StoreWorld) : StoreWorld :=
  match e with
  | .traffic t => { w with registry := t.step w.registry }
  | .destroy =>
      let r := w.store.destroy w.registry
      { w with store := r.1, registry := r.2 }
  | .poll sites limit =>
      match w.reader.sub.request limit with
      | .error _ => w
      | .ok (after, bounded) =>
          match w.store.changesSince sites after bounded w.registry with
          | (.error _, r) => { w with registry := r }
          | (.ok window, r) =>
              { w with
                registry := r
                reader := w.reader.answered storeFeed (incarnation w.store.name r) window }
  | .handlerReturns => { w with reader := w.reader.handlerReturns storeFeed }
  | .handlerThrows => { w with reader := w.reader.handlerThrows }
  | .close => { w with reader := w.reader.close }

/-- The Store is the one that the cursor is a position in, or it has not got that far, or
nothing can have been passed, or the script knows that it has destroyed the Store. -/
def StoreWorld.SameStore (w : StoreWorld) : Prop :=
  w.store.destroyed = true ∨ w.reader.sub.revision = 0 ∨
    currentRevision w.store.name w.registry < w.reader.sub.revision ∨
    ∀ i ∈ w.reader.source, w.registry.stores[w.store.name]? = some i.id

/-- The condition on a step. -/
def StoreEvent.Meets (w : StoreWorld) : StoreEvent → Prop
  | .poll _ _ => w.SameStore
  | .handlerReturns => w.reader.Undisturbed
  | _ => True

/-! ## A query -/

theorem ascending_history (log : List Mutation) :
    Ascending StoreChange.revision ((history log).map MemoryChange.shown) := by
  unfold Ascending
  rw [List.pairwise_map, List.pairwise_iff_getElem]
  intro i j hi hj hij
  have hn := numbered_history log
  change (history log)[i].revision < (history log)[j].revision
  rw [hn i hi, hn j hj]
  omega

theorem after_history (log : List Mutation) (a : ℕ) :
    after StoreChange.revision ((history log).map MemoryChange.shown) a =
      ((history log).drop a).map MemoryChange.shown := by
  have hwindow : BoundedLog.IsWindow (history log).length (history log) 0 (history log) :=
    ⟨rfl, Nat.zero_le _, Nat.le_refl _⟩
  rw [← hwindow.since (numbered_history log) (Nat.zero_le a), after, List.filter_map]
  rfl

theorem deliver_proceed (snapshot : List MemoryChange) (at₀ delivered : ℕ) :
    ∃ last, deliver (fun _ => .proceed) snapshot at₀ delivered =
      .ok (last, delivered + snapshot.length) ∧ (snapshot = [] → last = at₀) := by
  induction snapshot generalizing at₀ delivered with
  | nil => exact ⟨at₀, rfl, fun _ => rfl⟩
  | cons c rest ih =>
      obtain ⟨last, hd, -⟩ := ih c.revision (delivered + 1)
      refine ⟨last, ?_, fun h => nomatch h⟩
      simp only [deliver, hd, List.length_cons]
      congr 2
      omega

/-- The answer is the next part of the history. -/
theorem changesSince_ok {alloc : SnapshotSite → Bool} {a limit : ℕ} {log : List Mutation}
    {s : StoreState} {window : Window StoreChange} (hr : Represents log s)
    (h : changesSince alloc a limit s = .ok window) :
    a ≤ s.revision ∧ window.changes = (((history log).drop a).take (effectiveLimit limit)).map
        MemoryChange.shown ∧ (window.changes = [] → window.lastRevision = a) := by
  unfold changesSince at h
  cases ht : takeSnapshot alloc a limit s with
  | error f => rw [ht] at h; cases h
  | ok snapshot =>
      obtain ⟨last, hd, hlast⟩ := deliver_proceed snapshot a 0
      simp only [ht, hd] at h
      simp only [Nat.zero_add, List.take_length, Except.ok.injEq] at h
      subst h
      refine ⟨?_, ?_, fun hempty => hlast (List.map_eq_nil_iff.mp hempty)⟩
      · simp only [takeSnapshot] at ht
        split_ifs at ht
        all_goals omega
      · rw [takeSnapshot_eq hr ht]

/-! ## What every step keeps -/

/-- The life is one of the registry's, and what has been read of it still stands. -/
def Incarnation.Within (i : Incarnation) (r : Registry) : Prop :=
  i.id < r.states.length ∧ i.log <+: r.log i.id

theorem Incarnation.Within.grows {i : Incarnation} {r r' : Registry} (h : i.Within r)
    (hg : Registry.Grows r r') : i.Within r' :=
  ⟨Nat.lt_of_lt_of_le h.1 hg.length, h.2.trans (hg.log i.id h.1)⟩

theorem journal_grown {log log' : List Mutation} (h : log <+: log') :
    (history log).map MemoryChange.shown <+: (history log').map MemoryChange.shown := by
  obtain ⟨ms, rfl⟩ := h
  obtain ⟨tail, htail⟩ := history_append log ms
  rw [htail, List.map_append]
  exact List.prefix_append _ _

theorem ascending_journal (source : Option Incarnation) :
    Ascending storeFeed.revision (Incarnation.journal source) := by
  cases source with
  | none => exact List.Pairwise.nil
  | some i => exact ascending_history i.log

structure StoreWorld.Inv (start : ℕ) (w : StoreWorld) : Prop where
  registry : w.registry.Sound
  follows : w.reader.Follows storeFeed Incarnation.journal start
  source : ∀ i ∈ w.reader.source, i.Within w.registry
  running : ∀ r ∈ w.reader.running, ∀ i ∈ r.source, i.Within w.registry

variable {start : ℕ} {w : StoreWorld}

/-- A later state of the same life agrees with what the subscription has read of it. -/
theorem agree_grown {y : Reader (Option Incarnation) StoreChange}
    (h : y.Follows storeFeed Incarnation.journal start) {i j : Incarnation} (hs : y.source = some i)
    (hp : i.log <+: j.log) :
    Reader.Agree storeFeed Incarnation.journal start y.sub.revision (some j) y.source := by
  rcases h.position with he | ⟨x, hx, he⟩
  · exact Reader.agree_unread (Nat.le_of_eq he)
  · unfold Reader.Agree
    rw [hs] at hx ⊢
    exact (ascending_journal (some j)).between_grown (journal_grown hp) hx (Nat.le_of_eq he.symm)

theorem StoreWorld.Inv.registry_keeps (h : w.Inv start) {r : Registry}
    (hk : Registry.Keeps w.registry r) : StoreWorld.Inv start { w with registry := r } :=
  ⟨hk.sound h.registry, h.follows, fun i hi => (h.source i hi).grows hk.grows,
    fun r' hr i hi => (h.running r' hr i hi).grows hk.grows⟩

theorem Store.keeps_destroy (store : Store) (r : Registry) :
    Registry.Keeps r (store.destroy r).2 := by
  unfold Store.destroy
  split_ifs
  · exact .refl r
  · have hk := keeps_storeDestroy store.name r
    split
    · next heq => rw [heq] at hk; exact hk
    · next heq => rw [heq] at hk; exact hk

/-- What an answered query was answered from. -/
structure Asked (name : Bytes) (a : ℕ) (r r' : Registry) (window : Window StoreChange)
    (id : ℕ) : Prop where
  now : r'.stores[name]? = some id
  before : r.stores[name]? = none ∨ r.stores[name]? = some id
  reached : a ≤ currentRevision name r
  changes : ∃ n, 0 < n ∧ window.changes =
    (((history (r'.log id)).drop a).take n).map MemoryChange.shown
  empty : window.changes = [] → window.lastRevision = a

theorem storeChanges_keeps (sites : QuerySites) (name : Bytes) (a limit : ℕ) (r : Registry) :
    Registry.Keeps r (storeChanges sites name a limit r).2 := by
  have hopen := keeps_storeOpen sites.opens name r
  unfold storeChanges
  split
  · next f r₁ heq =>
      rw [heq] at hopen
      exact hopen
  · next id r₁ heq =>
      rw [heq] at hopen
      have hclose := hopen.trans (keeps_storeClose id r₁)
      split
      · exact hclose
      · split_ifs <;> exact hclose

theorem storeChanges_ok {sites : QuerySites} {name : Bytes} {a limit : ℕ} {r r' : Registry}
    {window : Window StoreChange} (hr : r.Sound)
    (h : storeChanges sites name a limit r = (.ok window, r')) :
    ∃ id, Asked name a r r' window id := by
  unfold storeChanges at h
  split at h
  · cases h
  · next id r₁ heq =>
      have hsound := (keeps_storeOpen sites.opens name r).sound hr
      rw [heq] at hsound
      obtain ⟨hnow, hbefore⟩ := storeOpen_ok heq
      cases hc : changesSince sites.snapshot a limit (r₁.state id) with
      | error f => rw [hc] at h; cases h
      | ok window' =>
          simp only [hc] at h
          have hclosed : window' = window ∧ storeClose id r₁ = r' := by
            split_ifs at h <;> cases h
            exact ⟨rfl, rfl⟩
          obtain ⟨rfl, rfl⟩ := hclosed
          obtain ⟨hle, hchanges, hempty⟩ := changesSince_ok (hsound.represents id) hc
          have hpos : 0 < effectiveLimit limit := by
            unfold effectiveLimit changeLimitMax
            split_ifs <;> omega
          refine ⟨id, hnow, ?_, ?_, ⟨_, hpos, by rw [log_storeClose]; exact hchanges⟩, hempty⟩
          · rcases hbefore with ⟨hb, -⟩ | ⟨hb, -⟩
            · exact .inr hb
            · exact .inl hb
          · have hreached : a ≤ (r₁.state id).revision := hle
            unfold currentRevision
            rcases hbefore with ⟨hb, hs⟩ | ⟨hb, hs⟩
            · rw [hs] at hreached
              rw [hb]
              exact hreached
            · rw [hs] at hreached
              rw [hb]
              exact hreached


/-- Under the condition an answer is the first changes after the cursor, in the life that the
cursor is a position in. -/
theorem StoreWorld.Inv.serves (h : w.Inv start) (hm : w.SameStore) {sites : QuerySites}
    {limit : ℕ} {window : Window StoreChange} {r' : Registry}
    (hq : w.store.changesSince sites w.reader.sub.revision limit w.registry = (.ok window, r')) :
    Registry.Keeps w.registry r' ∧ ∃ id, r'.stores[w.store.name]? = some id ∧
      id < r'.states.length ∧ Reader.Serves storeFeed Incarnation.journal start w.reader
        (incarnation w.store.name r') window := by
  unfold Store.changesSince at hq
  by_cases hdestroyed : w.store.destroyed = true
  · rw [if_pos hdestroyed] at hq
    cases hq
  rw [if_neg hdestroyed] at hq
  split at hq
  · cases hq
  next window' r₁ heq =>
  cases hq
  have hk := storeChanges_keeps sites w.store.name w.reader.sub.revision limit w.registry
  rw [heq] at hk
  obtain ⟨id, hasked⟩ := storeChanges_ok h.registry heq
  have hsource : incarnation w.store.name r' = some ⟨id, r'.log id⟩ := by
    simp [incarnation, hasked.now]
  refine ⟨hk, id, hasked.now, (hk.sound h.registry).names _ _ hasked.now, ?_⟩
  rw [hsource]
  refine ⟨ascending_history _, ?_, ?_, hasked.empty⟩
  · rcases hm with hd | hzero | hshort | hsame
    · exact absurd hd hdestroyed
    · exact Reader.agree_unread (by rw [hzero]; exact Nat.zero_le _)
    · exact absurd hasked.reached (Nat.not_le.mpr hshort)
    · cases hs : w.reader.source with
      | none =>
          have hposition := h.follows.position
          rw [hs] at hposition
          rcases hposition with he | ⟨x, hx, -⟩
          · rw [← hs]
            exact Reader.agree_unread (Nat.le_of_eq he)
          · cases hx
      | some i =>
          have hid : i.id = id := by
            have hold := hsame i (by rw [hs]; rfl)
            rcases hasked.before with hnone | hsome
            · rw [hnone] at hold
              cases hold
            · rw [hsome] at hold
              exact (Option.some.inj hold).symm
          have hwithin := (h.source i (by rw [hs]; rfl)).grows hk.grows
          rw [← hs]
          exact agree_grown h.follows hs (hid ▸ hwithin.2)
  · obtain ⟨n, hpos, hn⟩ := hasked.changes
    refine ⟨n, hpos, ?_⟩
    rw [hn, List.map_take]
    change _ = (after StoreChange.revision ((history (r'.log id)).map MemoryChange.shown) _).take n
    rw [after_history]

theorem StoreWorld.Inv.reader (h : w.Inv start) {y : Reader (Option Incarnation) StoreChange}
    (hf : y.Follows storeFeed Incarnation.journal start)
    (hs : ∀ i ∈ y.source, i.Within w.registry)
    (hr : ∀ r ∈ y.running, ∀ i ∈ r.source, i.Within w.registry) :
    StoreWorld.Inv start { w with reader := y } := ⟨h.registry, hf, hs, hr⟩

/-- A poll either throws and leaves the subscription alone, or goes on from an answer that
serves it. -/
theorem StoreWorld.Inv.poll (h : w.Inv start) (hm : w.SameStore) (sites : QuerySites)
    (limit : Option ℤ) :
    ((StoreEvent.poll sites limit).step w).Inv start ∧
      (((StoreEvent.poll sites limit).step w).reader = w.reader ∨
        ∃ source window, Reader.Serves storeFeed Incarnation.journal start w.reader source window ∧
          source = incarnation w.store.name ((StoreEvent.poll sites limit).step w).registry ∧
          ((StoreEvent.poll sites limit).step w).reader =
            w.reader.answered storeFeed source window) := by
  simp only [StoreEvent.step]
  cases hrequest : w.reader.sub.request limit with
  | error e => exact ⟨h, .inl rfl⟩
  | ok request =>
      obtain ⟨a, bounded⟩ := request
      obtain ⟨rfl, -⟩ := Subscription.request_ok hrequest
      have hkeeps : Registry.Keeps w.registry
          (w.store.changesSince sites w.reader.sub.revision bounded w.registry).2 := by
        have hk := storeChanges_keeps sites w.store.name w.reader.sub.revision bounded w.registry
        unfold Store.changesSince
        split_ifs
        · exact .refl _
        · split
          · next heq => rw [heq] at hk; exact hk
          · next heq => rw [heq] at hk; exact hk
      rcases hq : w.store.changesSince sites w.reader.sub.revision bounded w.registry with
        ⟨_ | window, r'⟩
      · rw [hq] at hkeeps
        simp only [hq]
        exact ⟨h.registry_keeps hkeeps, .inl trivial⟩
      · obtain ⟨hk, id, hnow, hlt, hs⟩ := h.serves hm hq
        simp only [hq]
        have hgrown := h.registry_keeps hk
        have hwithin : ∀ i ∈ incarnation w.store.name r', i.Within r' := by
          intro i hi
          simp only [incarnation, hnow, Option.map_some, Option.mem_def, Option.some.injEq] at hi
          subst hi
          exact ⟨hlt, List.prefix_rfl⟩
        refine ⟨hgrown.reader (h.follows.answered hs).1 hwithin fun r hr => ?_,
          .inr ⟨_, window, hs, rfl, rfl⟩⟩
        rcases Reader.mem_advance hr with hr | hr
        · exact hgrown.running r hr
        · exact hr ▸ hwithin

theorem StoreWorld.Inv.step (h : w.Inv start) {e : StoreEvent} (hm : e.Meets w) :
    (e.step w).Inv start ∧ w.reader.sub.revision ≤ (e.step w).reader.sub.revision := by
  cases e with
  | traffic t => exact ⟨h.registry_keeps (t.keeps w.registry), Nat.le_refl _⟩
  | destroy =>
      have hgrown := h.registry_keeps (w.store.keeps_destroy w.registry)
      exact ⟨⟨hgrown.registry, hgrown.follows, hgrown.source, hgrown.running⟩, Nat.le_refl _⟩
  | poll sites limit =>
      obtain ⟨hinv, hend⟩ := h.poll hm sites limit
      refine ⟨hinv, ?_⟩
      rcases hend with hsame | ⟨source, window, hs, -, hanswered⟩
      · rw [hsame]
      · rw [hanswered]
        exact (h.follows.answered hs).2
  | handlerReturns =>
      obtain ⟨hfollows, hle⟩ := h.follows.handlerReturns hm
      obtain ⟨hs, hr⟩ := Reader.handlerReturns_source storeFeed
        (fun source => ∀ i ∈ source, Incarnation.Within i w.registry) h.source h.running
      exact ⟨h.reader hfollows hs hr, hle⟩
  | handlerThrows =>
      exact ⟨h.reader h.follows.handlerThrows h.source fun r hr =>
        h.running r (List.mem_of_mem_tail hr), Nat.le_refl _⟩
  | close => exact ⟨h.reader h.follows.close h.source h.running, Nat.le_refl _⟩

/-- The runs of a subscription that starts at `start`, whose steps all meet the condition. -/
inductive StoreWorld.Reaches (start : ℕ) : StoreWorld → Prop
  | subscribed (before : List Traffic) (name : Bytes) (key : Option Bytes) (handler : Bool) :
      Reaches start (StoreWorld.subscribe
        (before.foldl (fun r t => t.step r) Registry.empty) name key handler start)
  | step {w : StoreWorld} (e : StoreEvent) (h : Reaches start w) (hm : e.Meets w) :
      Reaches start (e.step w)

theorem sound_traffic (ts : List Traffic) {r : Registry} (h : r.Sound) :
    (ts.foldl (fun r t => t.step r) r).Sound := by
  induction ts generalizing r with
  | nil => exact h
  | cons t ts ih => exact ih ((t.keeps r).sound h)

theorem StoreWorld.Reaches.inv (h : StoreWorld.Reaches start w) : w.Inv start := by
  induction h with
  | subscribed before name key handler =>
      have hsound := sound_traffic before Registry.sound_empty
      refine ⟨hsound, Reader.follows_new (ascending_journal _), fun i hi => ?_, fun _ hr => nomatch hr⟩
      obtain ⟨id, hid, rfl⟩ := Option.map_eq_some_iff.mp hi
      exact ⟨hsound.names _ _ hid, List.prefix_rfl⟩
  | step e _ hm ih => exact (ih.step hm).1

/-- As long as the Store is the one the cursor is a position in, everything of it that is
wanted and lies between the start and the cursor has been accepted. -/
theorem StoreWorld.Inv.complete (h : w.Inv start)
    (hsame : ∀ i ∈ w.reader.source, w.registry.stores[w.store.name]? = some i.id) :
    w.reader.accepted = (between storeFeed.revision
      (Incarnation.journal (incarnation w.store.name w.registry)) start
        w.reader.sub.revision).filter (storeFeed.wanted w.reader.sub.key) := by
  rw [h.follows.accepted]
  cases hs : w.reader.source with
  | none =>
      have hposition := h.follows.position
      rw [hs] at hposition
      rcases hposition with he | ⟨x, hx, -⟩
      · rw [he, between_eq_nil (Nat.le_refl _), between_eq_nil (Nat.le_refl _)]
      · cases hx
  | some i =>
      have hid := hsame i (by rw [hs]; rfl)
      have hwithin := h.source i (by rw [hs]; rfl)
      have hnow : incarnation w.store.name w.registry = some ⟨i.id, w.registry.log i.id⟩ := by
        simp [incarnation, hid]
      have hagree := agree_grown h.follows hs (j := ⟨i.id, w.registry.log i.id⟩) hwithin.2
      unfold Reader.Agree at hagree
      rw [hnow, hagree, hs]


end Esdb.ScriptSubscription

