import Esdb.ObjectStoreLives
import Esdb.StoreSubscription

/-!
# Subscriptions to the object store

The journal of the object store is part of the database: it is pruned when a script
asks for it, changes made in a transaction are in it before they are committed, and a
rollback takes them out again and gives their revisions to the next changes. The cursor
of a subscription is a number in the script that none of this touches.
-/
namespace Esdb.ScriptSubscription

open AscendingLog Transactional Esdb.Runtime Esdb.ObjectStore
open Esdb.Script (Thrown)

/-- `ObjectSubscription`. -/
def objectFeed : Feed OwnedChange where
  revision := OwnedChange.revision
  wanted key change := key.isNone || some change.key == key

/-- What `changesSince` makes of the reply to its query. The adapter may fail to allocate the
text that it hands over. -/
def objectWindow (serializes : Bool) (after : ℕ) (reply : Except Failure Reply) :
    Except Thrown (Window OwnedChange) :=
  match reply with
  | .error f =>
      .error ⟨"Store changes query failed",
        some ⟨.databaseError, some f, "ESDB Store changes query failed"⟩⟩
  | .ok (.changes accepted) =>
      if !serializes then
        .error ⟨"Store changes query failed",
          some ⟨.outOfMemory, none, "failed to serialize Store change window"⟩⟩
      else .ok ⟨lastRevision after accepted, accepted⟩
  | .ok _ => .error ⟨"Store changes query failed", none⟩

/-- The query of a poll. -/
def changesCall (room : SnapshotRoom) (name : Bytes) (after limit : ℕ) : Call :=
  .store (.changesSince room (some name) after limit fun _ => .proceed)

/-- A row of the journal as the script is shown it. -/
def shownChange (v : ChangeView) : OwnedChange :=
  ⟨v.revision.toNat, (columnInt v.operation).toNat, (columnInt v.valueType).toNat, v.storeName,
    v.key⟩

/-- The changes of a store ever made, as far as the content has them. -/
def published (name : Bytes) (d : Tables) : List OwnedChange :=
  ((d.log.filterMap (Tables.viewChange d.storeRows)).filter fun v => v.storeName = name).map
    shownChange

/-! ## Runs -/

/-- A connection and one subscription on it. -/
structure ObjectWorld where
  session : Session
  reader : Reader (List OwnedChange) OwnedChange

/-- `subscribe` with a revision of the caller's. -/
def ObjectWorld.subscribe (σ : Session) (name : Bytes) (key : Option Bytes) (handler : Bool)
    (start : ℕ) : ObjectWorld :=
  ⟨σ, ⟨⟨key, handler, false, start⟩, [], [], [], published name σ.view⟩⟩

/-- What happens, with the reply of a query. A poll is `unreachable` when the database is
closed or its handle stale. -/
inductive ObjectEvent where
  | call (c : Call)
  | others
  | unreachable
  | poll (room : SnapshotRoom) (serializes : Bool) (limit : Option ℤ)
      (reply : Except Failure Reply)
  | handlerReturns
  | handlerThrows
  | close

/-- The steps: any call on the connection, a commit of another connection's, and what the
subscription does. -/
inductive ObjectEvent.Step (name : Bytes) : ObjectEvent → ObjectWorld → ObjectWorld → Prop
  | call {w : ObjectWorld} {σ' : Session} {r : Except Failure Reply} (c : Call)
      (hl : c.Legal w.session.wrapper) (hr : Runs anyFaults c.program w.session r σ') :
      Step name (.call c) w { w with session := σ' }
  | others {w : ObjectWorld} (file : Tables)
      (hm : anyFaults.Moves w.session.conn w.session.file file) :
      Step name .others w { w with session := { w.session with file := file } }
  | unreachable (w : ObjectWorld) : Step name .unreachable w w
  | refused {w : ObjectWorld} {room : SnapshotRoom} {serializes : Bool} {limit : Option ℤ}
      {reply : Except Failure Reply} {e : Thrown} (h : w.reader.sub.request limit = .error e) :
      Step name (.poll room serializes limit reply) w w
  | failed {w : ObjectWorld} {room : SnapshotRoom} {serializes : Bool} {limit : Option ℤ}
      {reply : Except Failure Reply} {σ' : Session} {after bounded : ℕ} {e : Thrown}
      (h : w.reader.sub.request limit = .ok (after, bounded))
      (hr : Runs anyFaults (changesCall room name after bounded).program w.session reply σ')
      (he : objectWindow serializes after reply = .error e) :
      Step name (.poll room serializes limit reply) w { w with session := σ' }
  | answered {w : ObjectWorld} {room : SnapshotRoom} {serializes : Bool} {limit : Option ℤ}
      {reply : Except Failure Reply} {σ' : Session} {after bounded : ℕ}
      {window : Window OwnedChange} (h : w.reader.sub.request limit = .ok (after, bounded))
      (hr : Runs anyFaults (changesCall room name after bounded).program w.session reply σ')
      (hw : objectWindow serializes after reply = .ok window) :
      Step name (.poll room serializes limit reply) w
        ⟨σ', w.reader.answered objectFeed (published name σ'.view) window⟩
  | handlerReturns (w : ObjectWorld) :
      Step name .handlerReturns w { w with reader := w.reader.handlerReturns objectFeed }
  | handlerThrows (w : ObjectWorld) :
      Step name .handlerThrows w { w with reader := w.reader.handlerThrows }
  | close (w : ObjectWorld) : Step name .close w { w with reader := w.reader.close }

/-- The changes that the cursor has passed have not been rolled back, and of those after it
none has been pruned. -/
structure SameJournal (name : Bytes) (start : ℕ) (d : Tables)
    (y : Reader (List OwnedChange) OwnedChange) : Prop where
  passed : Reader.Agree objectFeed id start y.sub.revision (published name d) y.source
  retained : ∀ x ∈ after OwnedChange.revision (published name d) y.sub.revision,
    d.pruned < x.revision

/-- The condition on a step, which for a poll is about the journal that its query reads. -/
def ObjectEvent.Meets (name : Bytes) (start : ℕ) (e : ObjectEvent) (w w' : ObjectWorld) : Prop :=
  match e with
  | .poll _ true _ (.ok _) => SameJournal name start w'.session.view w.reader
  | .handlerReturns => w.reader.Undisturbed
  | _ => True

/-! ## A query -/

variable {σ σ' : Session} {C : StoreContract}

theorem runs_ask {α : Type} {q : ObjectStore.Query α} {s : Sql} (hq : q.Reading s) {x : α}
    (h : Runs C (ask q) σ (.ok x) σ') : q.denote σ'.view = .ok (x, σ'.view) :=
  wp_sound h (wp_reading_view hq σ) x rfl

/-- An answer is about the journal that the connection sees at the end. -/
theorem runs_changesSinceImpl {room : SnapshotRoom} {name : Option Bytes} {after limit : ℕ}
    {callback : ℕ → Verdict} {accepted : List OwnedChange}
    (h : Runs C (changesSinceImpl room name after limit callback) σ (.ok accepted) σ') :
    Delivers name after limit callback σ'.view accepted := by
  unfold changesSinceImpl at h
  by_cases hl : ObjectStore.changeLimitMax < limit
  · rw [if_pos hl] at h
    cases h
  rw [if_neg hl] at h
  by_cases ha : revisionMax < after
  · rw [if_pos ha] at h
    cases h
  rw [if_neg ha] at h
  by_cases hn : (!(name.all validStoreName)) = true
  · rw [if_pos hn] at h
    cases h
  rw [if_neg hn] at h
  by_cases hb : room = .noneBefore
  · rw [if_pos hb] at h
    cases h
  rw [if_neg hb] at h
  rcases runs_op_bind h with ⟨e, -, he⟩ | ⟨-, σ₁, -, h₁⟩
  · cases he
  rcases runs_op_bind h₁ with ⟨e, -, he⟩ | ⟨rows, σ₂, hread, h₂⟩
  · cases he
  have hdenote := runs_ask (reading_statementIn .subscription rfl) hread
  have hrows := changesAfter_eval ((Transactional.Query.denote_one _ _ _).mp hdenote)
  obtain ⟨stores, changes, hs, hc, rfl⟩ := hrows
  rcases runs_op_bind h₂ with ⟨e, -, he⟩ | ⟨snapshot, σ₃, hsnap, h₃⟩
  · cases he
  cases hown : ((Tables.viewChanges name after
      (if limit = 0 then ObjectStore.changeLimitMax else limit) stores changes).mapM ownChange) with
  | error e =>
      rw [hown] at hsnap
      cases hsnap
  | ok owned =>
      rw [hown] at hsnap
      cases hsnap
      by_cases hroom : room = .noneAfter
      · rw [if_pos hroom] at h₃
        cases h₃
      rw [if_neg hroom] at h₃
      cases hcount : deliveredCount callback snapshot.length 0 with
      | none =>
          rw [hcount] at h₃
          cases h₃
      | some n =>
          rw [hcount] at h₃
          cases h₃
          exact ⟨stores, changes, snapshot, n, hs, hc, hown, hcount, rfl⟩


theorem deliveredCount_proceed (rows delivered : ℕ) :
    deliveredCount (fun _ => .proceed) rows delivered = some (delivered + rows) := by
  induction rows generalizing delivered with
  | zero => rfl
  | succ rows ih =>
      simp only [deliveredCount, ih]
      rw [Nat.add_assoc, Nat.add_comm 1]

/-- The snapshot holds the rows as the script is shown them. -/
theorem own_changes {rows : List ChangeView} {snapshot : List OwnedChange}
    (h : rows.mapM ownChange = .ok snapshot) : snapshot = rows.map shownChange := by
  induction rows generalizing snapshot with
  | nil =>
      cases h
      rfl
  | cons v rows ih =>
      rw [List.mapM_cons] at h
      cases hv : ownChange v with
      | error e =>
          rw [hv] at h
          cases h
      | ok c =>
          rw [hv] at h
          cases hrest : rows.mapM ownChange with
          | error e =>
              rw [hrest] at h
              cases h
          | ok rest =>
              rw [hrest] at h
              cases h
              have hc : c = shownChange v := by
                simp only [ownChange] at hv
                split_ifs at hv
                cases hv
                rfl
              rw [List.map_cons, ← hc, ih hrest]

/-- Selecting rows before they are joined and shown, or afterwards. -/
theorem shown_filter {f : ChangeRow → Option ChangeView} {q : ChangeView → Bool}
    {p : ChangeRow → Bool} {p' : OwnedChange → Bool} (log : List ChangeRow)
    (h : ∀ c ∈ log, ∀ v, f c = some v → q v = true → p c = p' (shownChange v)) :
    (((log.filter p).filterMap f).filter q).map shownChange =
      (((log.filterMap f).filter q).map shownChange).filter p' := by
  induction log with
  | nil => rfl
  | cons c log ih =>
      have hrest := ih fun c' hc' => h c' (List.mem_cons_of_mem _ hc')
      have hhead := h c List.mem_cons_self
      cases hf : f c with
      | none =>
          by_cases hp : p c = true
          · rw [List.filter_cons_of_pos hp, List.filterMap_cons_none hf,
              List.filterMap_cons_none hf, hrest]
          · rw [List.filter_cons_of_neg hp, List.filterMap_cons_none hf, hrest]
      | some v =>
          by_cases hq : q v = true
          · have hpv := hhead v hf hq
            by_cases hp : p c = true
            · rw [List.filter_cons_of_pos hp, List.filterMap_cons_some hf,
                List.filterMap_cons_some hf, List.filter_cons_of_pos hq, List.filter_cons_of_pos hq,
                List.map_cons, List.map_cons, List.filter_cons_of_pos (hpv ▸ hp), hrest]
            · rw [List.filter_cons_of_neg hp, List.filterMap_cons_some hf,
                List.filter_cons_of_pos hq, List.map_cons,
                List.filter_cons_of_neg (by rw [← hpv]; exact hp), hrest]
          · by_cases hp : p c = true
            · rw [List.filter_cons_of_pos hp, List.filterMap_cons_some hf,
                List.filterMap_cons_some hf, List.filter_cons_of_neg hq, List.filter_cons_of_neg hq,
                hrest]
            · rw [List.filter_cons_of_neg hp, List.filterMap_cons_some hf,
                List.filter_cons_of_neg hq, hrest]

theorem viewChange_revision {stores : List StoreRow} {c : ChangeRow} {v : ChangeView}
    (h : Tables.viewChange stores c = some v) : v.revision = c.revision := by
  obtain ⟨s, -, rfl⟩ := Option.map_eq_some_iff.mp h
  rfl

theorem ascending_published {d : Tables} (h : Journal d) (name : Bytes) :
    Ascending OwnedChange.revision (published name d) := by
  unfold Ascending published
  rw [List.pairwise_map]
  apply List.Pairwise.filter
  rw [List.pairwise_filterMap]
  apply List.Pairwise.imp_of_mem _ h.ascending
  intro c c' hc hc' hlt v hv v' hv'
  have hpos := (h.range c hc).1
  simp only [shownChange, viewChange_revision hv, viewChange_revision hv']
  omega

/-- With nothing lost, a query delivers the first changes after the cursor. -/
theorem delivers_published {d : Tables} (h : Journal d) {name : Bytes} {a limit : ℕ}
    {accepted : List OwnedChange}
    (hd : Delivers (some name) a limit (fun _ => .proceed) d accepted)
    (hretained : ∀ x ∈ after OwnedChange.revision (published name d) a, d.pruned < x.revision) :
    accepted = (after OwnedChange.revision (published name d) a).take (changeLimit limit) := by
  obtain ⟨stores, changes, snapshot, n, hs, hc, hown, hcount, rfl⟩ := hd
  rw [deliveredCount_proceed, Nat.zero_add, Option.some.injEq] at hcount
  subst hcount
  rw [List.take_length, own_changes hown]
  have hrows : changes = d.log.filter (d.pruned < ·.revision) := by
    rw [← h.changes, Tables.changeRows, hc]
    rfl
  have hstores : d.storeRows = stores := by rw [Tables.storeRows, hs]; rfl
  simp only [Tables.viewChanges, List.map_take, hrows, List.filter_filter]
  congr 1
  rw [after, published, hstores]
  apply shown_filter
  intro c hmem v hv hname
  have hpos := (h.range c hmem).1
  have hrev := viewChange_revision hv
  have hiff : a < (shownChange v).revision ↔ (a : ℤ) < c.revision := by
    simp only [shownChange, hrev]
    omega
  by_cases hlt : (a : ℤ) < c.revision
  · have hx : shownChange v ∈ after OwnedChange.revision (published name d) a := by
      refine mem_after.mpr ⟨?_, hiff.mpr hlt⟩
      unfold published
      refine List.mem_map.mpr ⟨v, List.mem_filter.mpr ⟨?_, hname⟩, rfl⟩
      exact List.mem_filterMap.mpr ⟨c, hmem, hstores ▸ hv⟩
    have hkept := hretained _ hx
    have hkept' : d.pruned < c.revision := by
      simp only [shownChange, hrev] at hkept
      omega
    simp [hlt, hkept', hiff]
  · simp [hlt, hiff]

theorem objectWindow_ok {serializes : Bool} {a : ℕ} {reply : Except Failure Reply}
    {window : Window OwnedChange} (h : objectWindow serializes a reply = .ok window) :
    serializes = true ∧ ∃ accepted, reply = .ok (.changes accepted) ∧
      window = ⟨lastRevision a accepted, accepted⟩ := by
  unfold objectWindow at h
  split at h
  · cases h
  · next accepted =>
      cases serializes with
      | false => cases h
      | true =>
          cases h
          exact ⟨rfl, accepted, rfl, rfl⟩
  · cases h

theorem runs_changesCall {room : SnapshotRoom} {name : Bytes} {a limit : ℕ}
    {accepted : List OwnedChange}
    (h : Runs C (changesCall room name a limit).program σ (.ok (.changes accepted)) σ') :
    Delivers (some name) a limit (fun _ => .proceed) σ'.view accepted := by
  have hreply : Runs C (reply Reply.changes (ObjectStore.changesSince room (some name) a limit
    fun _ => .proceed)) σ (.ok (.changes accepted)) σ' := h
  unfold reply at hreply
  rcases runs_op_bind hreply with ⟨e, -, he⟩ | ⟨rows, σ₁, hrows, hret⟩
  · cases he
  · cases hret
    exact runs_changesSinceImpl hrows

/-! ## What every step keeps -/

structure ObjectWorld.Inv (start : ℕ) (w : ObjectWorld) : Prop where
  lives : Lives w.session
  follows : w.reader.Follows objectFeed id start

variable {start : ℕ} {w w' : ObjectWorld} {name : Bytes}

theorem legal_changesCall (room : SnapshotRoom) (name : Bytes) (a limit : ℕ) (db : Database) :
    (changesCall room name a limit).Legal db := fun _ h => nomatch h

/-- An answered poll goes on from an answer that serves it. -/
theorem ObjectWorld.Inv.answered (h : w.Inv start) {room : SnapshotRoom} {serializes : Bool}
    {limit : Option ℤ} {reply : Except Failure Reply} {a bounded : ℕ} {window : Window OwnedChange}
    (hq : w.reader.sub.request limit = .ok (a, bounded))
    (hr : Runs anyFaults (changesCall room name a bounded).program w.session reply σ')
    (hw : objectWindow serializes a reply = .ok window)
    (hm : SameJournal name start σ'.view w.reader) :
    Lives σ' ∧ Reader.Serves objectFeed id start w.reader (published name σ'.view) window := by
  obtain ⟨rfl, -⟩ := Subscription.request_ok hq
  obtain ⟨-, accepted, rfl, rfl⟩ := objectWindow_ok hw
  have hlives : Lives σ' := .call _ h.lives (legal_changesCall _ _ _ _ _) hr
  have hchanges := delivers_published hlives.journal (runs_changesCall hr) hm.retained
  have hpos : 0 < changeLimit bounded := by
    unfold changeLimit ObjectStore.changeLimitMax
    split_ifs <;> omega
  refine ⟨hlives, ascending_published hlives.journal name, hm.passed, ⟨_, hpos, hchanges⟩, ?_⟩
  intro hempty
  change accepted = [] at hempty
  rw [hempty]
  rfl

/-- A poll either throws and leaves the subscription alone, or goes on from an answer that
serves it. -/
theorem ObjectWorld.Inv.poll (h : w.Inv start) {room : SnapshotRoom} {serializes : Bool}
    {limit : Option ℤ} {reply : Except Failure Reply}
    (hs : ObjectEvent.Step name (.poll room serializes limit reply) w w')
    (hm : ObjectEvent.Meets name start (.poll room serializes limit reply) w w') :
    w'.reader = w.reader ∨ ∃ window,
      Reader.Serves objectFeed id start w.reader (published name w'.session.view) window ∧
        w'.reader = w.reader.answered objectFeed (published name w'.session.view) window := by
  cases hs with
  | refused _ => exact .inl rfl
  | failed _ _ _ => exact .inl rfl
  | answered hq hr hw =>
      obtain ⟨rfl, accepted, rfl, -⟩ := objectWindow_ok hw
      exact .inr ⟨_, (h.answered hq hr hw hm).2, rfl⟩

theorem ObjectWorld.Inv.step (h : w.Inv start) {e : ObjectEvent} (hs : e.Step name w w')
    (hm : e.Meets name start w w') :
    w'.Inv start ∧ w.reader.sub.revision ≤ w'.reader.sub.revision := by
  cases hs with
  | call c hl hr => exact ⟨⟨.call c h.lives hl hr, h.follows⟩, Nat.le_refl _⟩
  | others file hmoves => exact ⟨⟨.others file h.lives hmoves, h.follows⟩, Nat.le_refl _⟩
  | unreachable => exact ⟨h, Nat.le_refl _⟩
  | refused _ => exact ⟨h, Nat.le_refl _⟩
  | failed _ hr _ =>
      exact ⟨⟨.call _ h.lives (legal_changesCall _ _ _ _ _) hr, h.follows⟩, Nat.le_refl _⟩
  | answered hq hr hw =>
      obtain ⟨rfl, accepted, rfl, -⟩ := objectWindow_ok hw
      obtain ⟨hlives, hserves⟩ := h.answered hq hr hw hm
      obtain ⟨hfollows, hle⟩ := h.follows.answered hserves
      exact ⟨⟨hlives, hfollows⟩, hle⟩
  | handlerReturns =>
      obtain ⟨hfollows, hle⟩ := h.follows.handlerReturns hm
      exact ⟨⟨h.lives, hfollows⟩, hle⟩
  | handlerThrows => exact ⟨⟨h.lives, h.follows.handlerThrows⟩, Nat.le_refl _⟩
  | close => exact ⟨⟨h.lives, h.follows.close⟩, Nat.le_refl _⟩

/-- The runs of a subscription that starts at `start`, whose steps all meet the condition. -/
inductive ObjectWorld.Reaches (name : Bytes) (start : ℕ) : ObjectWorld → Prop
  | subscribed {σ : Session} (h : Lives σ) (key : Option Bytes) (handler : Bool) :
      Reaches name start (ObjectWorld.subscribe σ name key handler start)
  | step {w w' : ObjectWorld} (e : ObjectEvent) (h : Reaches name start w) (hs : e.Step name w w')
      (hm : e.Meets name start w w') : Reaches name start w'

theorem ObjectWorld.Reaches.inv (h : ObjectWorld.Reaches name start w) : w.Inv start := by
  induction h with
  | subscribed hl key handler =>
      exact ⟨hl, Reader.follows_new (ascending_published hl.journal name)⟩
  | step e _ hs hm ih => exact (ih.step hs hm).1

/-- As long as the journal has what the cursor has passed, everything in it that is wanted and
lies between the start and the cursor has been accepted. -/
theorem ObjectWorld.Inv.complete (h : w.Inv start)
    (hagree : Reader.Agree objectFeed id start w.reader.sub.revision
      (published name w.session.view) w.reader.source) :
    w.reader.accepted = (between objectFeed.revision (published name w.session.view) start
      w.reader.sub.revision).filter (objectFeed.wanted w.reader.sub.key) := by
  rw [h.follows.accepted]
  exact congrArg (List.filter _) hagree.symm


/-! ## Neither skipped nor repeated -/

/-- The claim about a run on a memory Store, in one of its states: what has been accepted was
accepted once and in order; it is all there is to accept while the Store is the one the
cursor is a position in; and the next step leaves the cursor where it is or moves it on,
where a poll that does not throw goes on with the next changes of the Store. -/
structure StoreWorld.Delivers (start : ℕ) (w : StoreWorld) : Prop where
  exact : w.reader.Exact storeFeed start
  complete : (∀ i ∈ w.reader.source, w.registry.stores[w.store.name]? = some i.id) →
    w.reader.accepted = (between storeFeed.revision
      (Incarnation.journal (incarnation w.store.name w.registry)) start
        w.reader.sub.revision).filter (storeFeed.wanted w.reader.sub.key)
  forward : ∀ e : StoreEvent, e.Meets w → w.reader.sub.revision ≤ (e.step w).reader.sub.revision
  polls : w.SameStore → ∀ sites limit, let w' := (StoreEvent.poll sites limit).step w
    w'.reader = w.reader ∨ ∃ source window,
      Reader.Serves storeFeed Incarnation.journal start w.reader source window ∧
        source = incarnation w.store.name w'.registry ∧
          w'.reader = w.reader.answered storeFeed source window

/-- The same about a run on an object store. -/
structure ObjectWorld.Delivers (name : Bytes) (start : ℕ) (w : ObjectWorld) : Prop where
  exact : w.reader.Exact objectFeed start
  complete : Reader.Agree objectFeed id start w.reader.sub.revision
      (published name w.session.view) w.reader.source →
    w.reader.accepted = (between objectFeed.revision (published name w.session.view) start
      w.reader.sub.revision).filter (objectFeed.wanted w.reader.sub.key)
  forward : ∀ (e : ObjectEvent) (w' : ObjectWorld), e.Step name w w' → e.Meets name start w w' →
    w.reader.sub.revision ≤ w'.reader.sub.revision
  polls : ∀ room serializes limit reply (w' : ObjectWorld),
    ObjectEvent.Step name (.poll room serializes limit reply) w w' →
    ObjectEvent.Meets name start (.poll room serializes limit reply) w w' →
    w'.reader = w.reader ∨ ∃ window,
      Reader.Serves objectFeed id start w.reader (published name w'.session.view) window ∧
        w'.reader = w.reader.answered objectFeed (published name w'.session.view) window

theorem subscriptions_neither_skip_nor_repeat (start : ℕ) :
    (∀ w, StoreWorld.Reaches start w → w.Delivers start) ∧
      ∀ name w, ObjectWorld.Reaches name start w → w.Delivers name start := by
  constructor
  · intro w h
    have hinv := h.inv
    exact ⟨hinv.follows.exact, hinv.complete, fun e hm => (hinv.step hm).2,
      fun hm sites limit => (hinv.poll hm sites limit).2⟩
  · intro name w h
    have hinv := h.inv
    exact ⟨hinv.follows.exact, hinv.complete, fun e w' hs hm => (hinv.step hs hm).2,
      fun room serializes limit reply w' hs hm => hinv.poll hs hm⟩

/-! ## Runs by themselves -/

def StoreWorld.run (events : List StoreEvent) (w : StoreWorld) : StoreWorld :=
  events.foldl (fun w e => e.step w) w

/-- A put of the key `k` in the Store `s`. -/
def keyPut : MemoryStore.Traffic :=
  .adapterCall (fun _ => true) [115] (.put (fun _ => true) (some [107]) (some ⟨Value.null, []⟩))

def pollAll : StoreEvent := .poll .all (some 0)

/-- A subscription to the Store `s` from the beginning, after two puts. -/
def subscribedStore : StoreWorld :=
  .subscribe ([keyPut, keyPut].foldl (fun r t => t.step r) MemoryStore.Registry.empty) [115] none
    true 0

/-- A subscription to the object store `s` from the beginning, after a put. -/
def subscribedObjects : ObjectWorld :=
  .subscribe (Call.undisturbed ⟨Tables.empty, Conn.closed, Database.opened 0⟩
    (.store (.put [115] [107] ⟨Value.null, []⟩))) [115] none true 0

theorem lives_subscribedObjects : Lives subscribedObjects.session := by
  apply Lives.call (.store (.put [115] [107] ⟨Value.null, []⟩)) (.opened Tables.empty 0 .refl)
    (fun _ h => nomatch h)
  exact runs_run (Prog.admits_all _ [] (fun _ _ _ => trivial) _)

theorem undisturbed_of_head {S α : Type} {y : Reader S α} {r : Running S α}
    {running : List (Running S α)} (h : y.running = r :: running) (he : y.sub.revision = r.entered) :
    y.Undisturbed := by
  intro r' hr'
  rw [h] at hr'
  obtain rfl := Option.some.inj hr'
  exact he

theorem subscriptions_deliver_sample :
    (subscribedStore.run [pollAll, .handlerReturns]).Delivers 0 ∧
      ∃ w, ObjectEvent.Step [115] (.poll .enough true (some 0)
          (.ok (.changes [⟨1, 1, 0, [115], [107]⟩]))) subscribedObjects w ∧
        w.Delivers [115] 0 := by
  constructor
  · apply (subscriptions_neither_skip_nor_repeat 0).1
    apply StoreWorld.Reaches.step .handlerReturns (.step pollAll (.subscribed [keyPut, keyPut] _ _ _)
      (.inr (.inl rfl)))
    exact undisturbed_of_head rfl rfl
  · have hreply : ((changesCall .enough [115] 0 0).program.run [] subscribedObjects.session).1 =
        .ok (.changes [⟨1, 1, 0, [115], [107]⟩]) := by decide +kernel
    have hruns := runs_run (Prog.admits_all (C := anyFaults)
      (changesCall .enough [115] 0 0).program [] (fun _ _ _ => trivial) subscribedObjects.session)
    rw [hreply] at hruns
    have hwindow : objectWindow true 0 (.ok (.changes [⟨1, 1, 0, [115], [107]⟩])) =
        .ok ⟨1, _⟩ := rfl
    have hasked : subscribedObjects.reader.sub.request (some 0) = .ok (0, 0) := rfl
    have hstep := ObjectEvent.Step.answered hasked hruns hwindow
    refine ⟨_, hstep, ?_⟩
    apply (subscriptions_neither_skip_nor_repeat 0).2
    apply ObjectWorld.Reaches.step _ (.subscribed lives_subscribedObjects none true) hstep
    have hpruned : ((changesCall .enough [115] 0 0).program.run [] subscribedObjects.session).2.view.pruned
        = 0 := by decide +kernel
    refine ⟨Reader.agree_unread (Nat.le_refl _), fun x hx => ?_⟩
    have hlt := (mem_after.mp hx).2
    rw [hpruned]
    omega

/-- A handler that polls its own subscription moves the cursor, and after it has returned the
poll that called it moves the cursor back and repeats. A Store that is made again under its
name is polled from where the cursor stood in the one before. -/
theorem reentrant_poll_repeats :
    (let w := subscribedStore.run [pollAll, pollAll, .handlerReturns, .handlerReturns];
      (StoreEvent.handlerReturns.step w).reader.sub.revision < w.reader.sub.revision ∧
        ¬ (StoreEvent.handlerReturns.step w).reader.Exact storeFeed 0) ∧
      (let w := subscribedStore.run [pollAll, .handlerReturns, .handlerReturns,
        .traffic (.destroy [115]), .traffic keyPut, .traffic keyPut, .traffic keyPut, pollAll];
      w.reader.running.map (·.frame.change.revision) = [3] ∧
        (Incarnation.journal (incarnation [115] w.registry)).map (·.revision) = [1, 2, 3]) := by
  refine ⟨⟨by decide +kernel, fun h => ?_⟩, by decide +kernel, by decide +kernel⟩
  have hrepeats : ¬ (((StoreEvent.handlerReturns.step (subscribedStore.run
      [pollAll, pollAll, .handlerReturns, .handlerReturns])).reader.accepted.map
        storeFeed.revision).Pairwise (· < ·)) := by decide +kernel
  exact hrepeats h.ascending


end Esdb.ScriptSubscription
