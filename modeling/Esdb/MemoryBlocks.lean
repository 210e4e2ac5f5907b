import Esdb.MemoryLifecycle
import Esdb.MemoryStoreReads
import Esdb.Throwing

/-!
# The bodies of the memory Store's functions

The functions again, statement by statement, with the exceptions that their statements may
throw and the handlers around them. A string is made of the key or the name wherever a map is
searched for it, and memory is asked for when the text does not fit into the string itself.
What the bodies return and leave is what the functions return and leave where nothing is said
of exceptions.
-/
namespace Esdb.MemoryStore

open Throwing (Thrown Block)
open Throwing.Block
open ObjectStore (OwnedRecord deliveredCount)

/-- What the C++ library does: the longest text that a `std::string` holds without memory of
its own, and whether a `std::unordered_map` asks for memory when it is made. -/
structure Library where
  inPlace : ℕ
  emptyMap : Bool

/-- Whether there is room for a string of a text. -/
def Library.room (lib : Library) (text : Bytes) (room : Bool) : Bool :=
  text.length ≤ lib.inPlace || room

/-! ## put and patch -/

section Mutators

variable (lib : Library)

/-- `retain_change`. -/
def retainBlock (room : Bool) (change : MemoryChange) : Block StoreState Unit := do
  allocate room
  Block.change fun s =>
    let kept := BoundedLog.evict MemoryChange.revision changeCapacity
      (s.changes ++ [change]) s.retainedFloor
    { s with changes := kept.1, retainedFloor := kept.2 }

def putUnexpected : Failure :=
  storeFail .internal .store "unexpected exception during Store put"

def putBlock (alloc : PutSite → Bool) (key : Option Bytes) (value : Option Value) :
    Block StoreState (Except Failure ℕ) :=
  match checkAssignment key value with
  | none => pure (.error (storeFail .invalidArgument .store "invalid Store put arguments"))
  | some (key, value) =>
      guarded (.error putOutOfMemory) (.error putUnexpected) do
        allocate (lib.room key (alloc .mapKey))
        allocate (alloc .payload)
        allocate (lib.room key (alloc .changeKey))
        let s ← state
        if s.revision ≥ revisionMax then pure (.error revisionExhausted)
        else do
          let revision := s.revision + 1
          let stage : StoreState → StoreState := fun s =>
            { s with records := s.records.insert key ⟨value, revision⟩ }
          let retain := retainBlock (alloc .journalNode) ⟨revision, .put, value.type, key⟩
          match s.records[key]? with
          | some previous => do
              change stage
              undoing (fun s => { s with records := s.records.insert key previous }) retain
              change fun s => { s with revision := revision }
              pure (.ok revision)
          | none => do
              allocate (alloc .recordNode)
              change stage
              undoing (fun s => { s with records := s.records.erase key }) retain
              change fun s => { s with revision := revision }
              pure (.ok revision)

def patchUnexpected : Failure :=
  storeFail .internal .store "unexpected exception during Store patch"

/-- The loop over the entries, on copies. -/
def patchEntries (alloc : PatchSite → Bool) (i : ℕ) :
    List (Bytes × Value) → StoreState → Block StoreState StoreState
  | [], candidate => pure candidate
  | (key, value) :: rest, candidate => do
      let revision := candidate.revision + 1
      allocate (alloc (.payload i))
      allocate (lib.room key (alloc (.mapKey i)))
      allocate (candidate.records[key]?.isSome || alloc (.recordNode i))
      allocate (lib.room key (alloc (.changeKey i)))
      allocate (alloc (.journalNode i))
      let kept := BoundedLog.evict MemoryChange.revision changeCapacity
        (candidate.changes ++ [⟨revision, .put, value.type, key⟩]) candidate.retainedFloor
      patchEntries alloc (i + 1) rest
        ⟨candidate.records.insert key ⟨value, revision⟩, kept.1, revision, kept.2⟩

def patchBlock (alloc : PatchSite → Bool) (entries : List PatchEntry) :
    Block StoreState (Except Failure ℕ) :=
  if entries.length > patchMaxEntries then
    pure (.error (storeFail .invalidArgument .store "invalid Store patch arguments"))
  else
    match entries.mapM (fun e => checkAssignment e.key e.value) with
    | none =>
        pure (.error (storeFail .invalidArgument .store
          "Store patch contains an invalid key or value"))
    | some assignments => do
        let s ← state
        if entries.length = 0 then pure (.ok s.revision)
        else if s.revision > revisionMax - entries.length then pure (.error revisionExhausted)
        else
          guarded (.error patchOutOfMemory) (.error patchUnexpected) do
            allocate (alloc .copyRecords)
            allocate (alloc .copyChanges)
            let candidate ← patchEntries lib alloc 0 assignments s
            change fun _ => candidate
            pure (.ok candidate.revision)

/-! ## delete and clear -/

def deleteUnexpected : Failure :=
  storeFail .internal .store "unexpected exception during Store delete"

def deleteBlock (alloc : DeleteSite → Bool) (key : Option Bytes) :
    Block StoreState (Except Failure Removal) :=
  match key with
  | none => pure (.error (storeFail .invalidArgument .store "invalid Store delete arguments"))
  | some key =>
      if !validKey (some key) then
        pure (.error (storeFail .invalidArgument .store "invalid Store delete arguments"))
      else
        guarded (.error deleteOutOfMemory) (.error deleteUnexpected) do
          allocate (lib.room key (alloc .changeKey))
          allocate (lib.room key (alloc .lookupKey))
          let s ← state
          if s.records[key]?.isNone then pure (.ok ⟨false, s.revision⟩)
          else if s.revision ≥ revisionMax then pure (.error revisionExhausted)
          else do
            let revision := s.revision + 1
            retainBlock (alloc .journalNode) ⟨revision, .delete, Value.null, key⟩
            change fun s => { s with records := s.records.erase key, revision := revision }
            pure (.ok ⟨true, revision⟩)

def clearBlock (alloc : ClearSite → Bool) : Block StoreState (Except Failure Removal) :=
  guarded (.error (storeFail .outOfMemory .store "failed to allocate Store clear change"))
    (.error (storeFail .internal .store "unexpected exception during Store clear")) do
      let s ← state
      if s.records.isEmpty then pure (.ok ⟨false, s.revision⟩)
      else if s.revision ≥ revisionMax then pure (.error revisionExhausted)
      else do
        let revision := s.revision + 1
        retainBlock (alloc .journalNode) ⟨revision, .clear, Value.null, []⟩
        change fun s => { s with records := ∅, revision := revision }
        pure (.ok ⟨true, revision⟩)

end Mutators

/-! ## Reads -/

section Reads

variable (lib : Library)

/-- `clone_value`; its first allocation does not throw. -/
def cloneBlock (alloc : CloneSite → Bool) (source : Value) :
    Block StoreState (Except Failure Value) :=
  if !validValueType source.type then
    pure (.error (storeFail .invalidArgument .store "invalid Store value clone arguments"))
  else if !alloc .value then
    pure (.error (storeFail .outOfMemory .store "failed to allocate Store value"))
  else
    catching
      (do
        allocate (alloc .payload)
        pure (.ok source))
      fun _ => pure (.error (storeFail .outOfMemory .store "failed to copy Store value payload"))

inductive GetSite where
  | lookupKey | clone (site : CloneSite)
  deriving DecidableEq, Repr

/-- `esdb_store_get`; `out` is whether there is an `out_value`. -/
def getBlock (alloc : GetSite → Bool) (out : Bool) (key : Option Bytes) :
    Block StoreState (Except Failure Value) :=
  if !out || !validKey key then
    pure (.error (storeFail .invalidArgument .store "invalid Store get arguments"))
  else do
    -- The string that `find` takes is made outside of any `try`.
    allocate (lib.room (key.getD []) (alloc .lookupKey))
    let s ← state
    match s.records[key.getD []]? with
    | none => pure (.error (.quiet .notFound))
    | some record => cloneBlock (fun site => alloc (.clone site)) record.value

/-- `esdb_store_exists`; `room` is for the string that `find` takes. -/
def existsBlock (room : Bool) (out : Bool) (key : Option Bytes) :
    Block StoreState (Except Failure Bool) :=
  if !out || !validKey key then
    pure (.error (storeFail .invalidArgument .store "invalid Store exists arguments"))
  else do
    allocate (lib.room (key.getD []) room)
    let s ← state
    pure (.ok s.records[key.getD []]?.isSome)

def countBlock (out : Bool) : Block StoreState (Except Failure ℕ) :=
  if !out then
    pure (.error (storeFail .invalidArgument .store "Store and out_count are required"))
  else do
    let s ← state
    pure (.ok (count s))

/-- What a callback says, if it does not throw. -/
def askCallback (verdict : Verdict) : Block StoreState Bool :=
  match verdict with
  | .proceed => pure true
  | .stop => pure false
  | .throw => throws .other

/-- A callback in its own `try`: nothing when it threw. -/
def tryCallback (verdict : Verdict) : Block StoreState (Option Bool) :=
  catching
    (do
      let more ← askCallback verdict
      pure (some more))
    fun _ => pure none

def scanThrew : Failure :=
  storeFail .internal .store "Store scan callback threw an exception"

/-- The delivery loop of a scan, over that many records. -/
def scanDeliver (callback : ℕ → Verdict) :
    (rows delivered : ℕ) → Block StoreState (Except Failure ℕ)
  | 0, delivered => pure (.ok delivered)
  | rows + 1, delivered => do
      match ← tryCallback (callback delivered) with
      | none => pure (.error scanThrew)
      | some false => pure (.ok (delivered + 1))
      | some true => scanDeliver callback rows (delivered + 1)

inductive ScanPoint where
  | lookupKey | site (site : ScanSite)
  deriving DecidableEq, Repr

/-- The copies of what a list has from its `i`th on. -/
def copyAll {α : Type} (room : ℕ → Bool) : (i : ℕ) → List α → Block StoreState (List α)
  | _, [] => pure []
  | i, a :: rest => do
      allocate (room i)
      let copies ← copyAll room (i + 1) rest
      pure (a :: copies)

def scanOutOfMemory : Failure :=
  storeFail .outOfMemory .store "failed to allocate Store scan snapshot"

def scanUnexpected : Failure :=
  storeFail .internal .store "unexpected exception while snapshotting Store"

/-- The records that a scan delivers, copied under the mutex. -/
def scanSnapshot (alloc : ScanPoint → Bool) (after : Option Bytes) (limit : ℕ) :
    Block StoreState (Except Failure (List OwnedRecord)) :=
  guarded (.error scanOutOfMemory) (.error scanUnexpected) do
    allocate (alloc (.site .reserve))
    allocate (lib.room (after.getD []) (alloc .lookupKey))
    let s ← state
    let copies ← copyAll (fun i => alloc (.site (.copyRecord i))) 0
      (((recordsFrom after s).take (scanLimit limit)).map ownRecord)
    pure (.ok copies)

/-- `esdb_store_scan`. -/
def scanBlock (alloc : ScanPoint → Bool) (after : Option Bytes) (limit : ℕ)
    (callback : Option (ℕ → Verdict)) : Block StoreState (Except Failure (List OwnedRecord)) :=
  match callback with
  | none => pure (.error (storeFail .invalidArgument .store "invalid Store scan arguments"))
  | some callback =>
      if !(after.all fun key => validKey (some key)) || scanLimitMax < limit then
        pure (.error (storeFail .invalidArgument .store "invalid Store scan arguments"))
      else do
        match ← scanSnapshot lib alloc after limit with
        | .error f => pure (.error f)
        | .ok snapshot => do
            let delivered ← scanDeliver callback snapshot.length 0
            pure (delivered.map fun n => snapshot.take n)

end Reads

/-! ## Changes -/

def changesThrew : Failure :=
  storeFail .internal .subscription "Store change callback threw an exception"

/-- The delivery loop of the changes: the last revision and their number. -/
def changesDeliver (callback : ℕ → Verdict) :
    List MemoryChange → (last delivered : ℕ) → Block StoreState (Except Failure (ℕ × ℕ))
  | [], last, delivered => pure (.ok (last, delivered))
  | c :: rest, _, delivered => do
      match ← tryCallback (callback delivered) with
      | none => pure (.error changesThrew)
      | some false => pure (.ok (c.revision, delivered + 1))
      | some true => changesDeliver callback rest c.revision (delivered + 1)

def snapshotUnexpected : Failure :=
  storeFail .internal .subscription "unexpected exception while snapshotting Store changes"

/-- The changes that are delivered, copied under the mutex. -/
def changesSnapshot (alloc : SnapshotSite → Bool) (after limit : ℕ) :
    Block StoreState (Except Failure (List MemoryChange)) :=
  guarded (.error snapshotOutOfMemory) (.error snapshotUnexpected) do
    allocate (alloc .reserve)
    let s ← state
    if after > s.revision then
      pure (.error (storeFail .invalidArgument .subscription
        "after_revision is newer than the Store"))
    else if after < s.retainedFloor then
      pure (.error (storeFail .gap .subscription
        "requested Store history is older than the retained change floor"))
    else do
      let copies ← copyAll (fun i => alloc (.copyChange i)) 0
        (snapshotLoop after limit s.changes [])
      pure (.ok copies)

/-- `changes_since_impl`. -/
def changesBlock (alloc : SnapshotSite → Bool) (after limit : ℕ)
    (callback : Option (ℕ → Verdict)) : Block StoreState (Except Failure (ℕ × ℕ)) :=
  match callback with
  | none =>
      pure (.error (storeFail .invalidArgument .subscription
        "invalid Store change query arguments"))
  | some callback =>
      if limit > changeLimitMax || after > revisionMax then
        pure (.error (storeFail .invalidArgument .subscription
          "invalid Store change query arguments"))
      else do
        match ← changesSnapshot alloc after (if limit = 0 then changeLimitMax else limit) with
        | .error f => pure (.error f)
        | .ok snapshot => changesDeliver callback snapshot after 0

/-! ## The process -/

/-- The memory of a process: the registry, whether its map was made yet, and the
subscriptions with the numbers of their states. -/
structure ProcessMemory where
  registry : Registry
  made : Bool
  subscriptions : List (ℕ × Subscription)

section Names

variable (lib : Library)

/-- `registry()`: the map is made at its first use. -/
def useRegistry (room : Bool) : Block ProcessMemory Unit := do
  let m ← state
  if m.made then pure ()
  else do
    allocate (!lib.emptyMap || room)
    change fun m => { m with made := true }

/-- The map is searched with a string of the name. -/
def searchRegistry (registry lookup : Bool) (name : Bytes) : Block ProcessMemory Unit := do
  useRegistry lib registry
  allocate (lib.room name lookup)

inductive OpenPoint where
  | registry | lookupName | state | node | handle
  deriving DecidableEq, Repr

def openOutOfMemory : Failure :=
  storeFail .outOfMemory .store "failed to allocate named Store"

def openUnexpected : Failure :=
  storeFail .internal .store "unexpected exception while opening Store"

/-- The state under a name; a new one is in the registry when all of it is allocated. -/
def findBlock (alloc : OpenPoint → Bool) (name : Bytes) : Block ProcessMemory ℕ := do
  let m ← state
  match m.registry.stores[name]? with
  | some id => pure id
  | none => do
      allocate (alloc .state)
      allocate (alloc .node)
      change fun m =>
        { m with
          registry := ⟨m.registry.stores.insert name m.registry.states.length,
            m.registry.states ++ [⟨name, initial, 0, 0, []⟩]⟩ }
      pure m.registry.states.length

/-- `esdb_store_open`; `out` is whether there is an `out_store`. -/
def openBlock (alloc : OpenPoint → Bool) (out : Bool) (name : Option Bytes) :
    Block ProcessMemory (Except Failure ℕ) :=
  if !out || !(name.any validName) then
    pure (.error (storeFail .invalidArgument .store "Store name and out_store are required"))
  else
    guarded (.error openOutOfMemory) (.error openUnexpected) do
      searchRegistry lib (alloc .registry) (alloc .lookupName) (name.getD [])
      let id ← findBlock alloc (name.getD [])
      change fun m => { m with registry := addHandle id m.registry }
      if alloc .handle then pure (.ok id)
      else do
        change fun m => { m with registry := storeClose id m.registry }
        pure (.error (storeFail .outOfMemory .store "failed to allocate Store handle"))

inductive DestroyPoint where
  | registry | lookupName
  deriving DecidableEq, Repr

/-- `esdb_store_destroy`, all of it outside of any `try`. -/
def destroyBlock (alloc : DestroyPoint → Bool) (name : Option Bytes) :
    Block ProcessMemory (Except Failure Unit) :=
  if !(name.any validName) then
    pure (.error (storeFail .invalidArgument .store "valid Store name is required"))
  else do
    searchRegistry lib (alloc .registry) (alloc .lookupName) (name.getD [])
    let m ← state
    let reply := storeDestroy (name.getD []) m.registry
    change fun m => { m with registry := reply.2 }
    pure reply.1

end Names

/-- The body of a function on the state of a handle. -/
def onState {α : Type} (id : ℕ) (body : Block StoreState α) : Block ProcessMemory α := ⟨fun m =>
  let reply := body.run (m.registry.state id)
  (reply.1, { m with registry := m.registry.modify id fun s => { s with state := reply.2 } })⟩

/-- `esdb_store_subscribe`: its one allocation does not throw. -/
def subscribeBlock (room : Bool) (out : Bool) (id after : ℕ) :
    Block ProcessMemory (Except Failure Unit) :=
  if !out then
    pure (.error (storeFail .invalidArgument .subscription
      "invalid Store subscription arguments"))
  else do
    let m ← state
    match subscribe room after (m.registry.state id) with
    | .error f => pure (.error f)
    | .ok subscription => do
        change fun m =>
          { m with
            registry := storeSubscribed id m.registry
            subscriptions := m.subscriptions ++ [(id, subscription)] }
        pure (.ok ())

/-- `esdb_store_subscription_poll` of the `i`th subscription. -/
def pollBlock (alloc : SnapshotSite → Bool) (i : Option ℕ) (limit : ℕ)
    (callback : Option (ℕ → Verdict)) : Block ProcessMemory (Except Failure ℕ) := do
  let m ← state
  match i.bind fun i => m.subscriptions[i]?, callback with
  | some (id, subscription), some callback =>
      if subscription.inFlight.isSome then
        pure (.error (storeFail .busy .subscription
          "Store subscription is already being polled"))
      else do
        match ← onState id (changesBlock alloc subscription.revision limit (some callback)) with
        | .error f => pure (.error f)
        | .ok (last, delivered) => do
            change fun m =>
              { m with
                subscriptions := m.subscriptions.modify (i.getD 0) fun p => (p.1, ⟨last, none⟩) }
            pure (.ok delivered)
  | _, _ =>
      pure (.error (storeFail .invalidArgument .subscription
        "invalid Store subscription poll arguments"))

/-! ## What the bodies of the mutators return and leave -/

section MutatorRuns

variable (lib : Library)

theorem retainBlock_run (room : Bool) (change : MemoryChange) (s : StoreState) :
    (retainBlock room change).run s =
      match retainChange room change s with
      | some kept => (.ok (), kept)
      | none => (.error .badAlloc, s) := by
  rw [retainBlock, allocate_bind]
  cases room <;> rfl

/-- A change that is retained is followed by the revision; else nothing follows it. -/
theorem commit_run {α : Type} (room : Bool) (change : MemoryChange)
    (undo f : StoreState → StoreState) (a : α) (s : StoreState) :
    (do
        undoing undo (retainBlock room change)
        Block.change f
        pure a : Block StoreState α).run s =
      match retainChange room change s with
      | some kept => (.ok a, f kept)
      | none => (.error .badAlloc, undo s) := by
  rw [bind_run, undoing_run, retainBlock_run]
  cases retainChange room change s <;> rfl

/-- The allocations of a put whose strings have room. -/
def Library.putSites (alloc : PutSite → Bool) (key : Bytes) : PutSite → Bool
  | .mapKey => lib.room key (alloc .mapKey)
  | .changeKey => lib.room key (alloc .changeKey)
  | site => alloc site

theorem putBlock_run (alloc : PutSite → Bool) (key : Option Bytes) (value : Option Value)
    (s : StoreState) :
    (putBlock lib alloc key value).run s =
      (.ok (put (lib.putSites alloc (key.getD [])) key value s).1,
        (put (lib.putSites alloc (key.getD [])) key value s).2) := by
  unfold putBlock put
  cases hc : checkAssignment key value with
  | none => rfl
  | some kv =>
      obtain ⟨k, v⟩ := kv
      obtain ⟨rfl, rfl⟩ := checkAssignment_eq_some hc
      by_cases hmap : lib.room k (alloc .mapKey) = true
      swap
      · simp [guarded_run, Library.putSites, hmap]
      by_cases hpayload : alloc .payload = true
      swap
      · simp [guarded_run, Library.putSites, hmap, hpayload]
      by_cases hchange : lib.room k (alloc .changeKey) = true
      swap
      · simp [guarded_run, Library.putSites, hmap, hpayload, hchange]
      by_cases hr : s.revision ≥ revisionMax
      · simp [guarded_run, Library.putSites, hmap, hpayload, hchange, hr]
      cases hfound : s.records[k]? with
      | some previous =>
          simp only [guarded_run, allocate_bind, state_bind, change_bind, hmap, hpayload, hchange,
            if_true, hr, if_false, hfound, commit_run, Option.getD_some, Library.putSites,
            Bool.and_self, Bool.not_true, Bool.false_eq_true]
          cases retainChange _ _ _ <;> rfl
      | none =>
          by_cases hnode : alloc .recordNode = true
          swap
          · simp [guarded_run, Library.putSites, hmap, hpayload, hchange, hr, hfound, hnode]
          simp only [guarded_run, allocate_bind, state_bind, change_bind, hmap, hpayload, hchange,
            if_true, hr, if_false, hfound, commit_run, Option.getD_some, Library.putSites,
            Bool.and_self, Bool.not_true, Bool.false_eq_true, hnode]
          cases retainChange _ _ _ <;> rfl

/-- The allocations of a patch whose strings have room. -/
def Library.patchSites (alloc : PatchSite → Bool) (assignments : List (Bytes × Value)) :
    PatchSite → Bool
  | .mapKey i => lib.room ((assignments[i]?.map Prod.fst).getD []) (alloc (.mapKey i))
  | .changeKey i => lib.room ((assignments[i]?.map Prod.fst).getD []) (alloc (.changeKey i))
  | site => alloc site

/-- The loop on the entries that are left; `all` are the entries of the call. -/
theorem patchEntries_run (alloc : PatchSite → Bool) (all : List (Bytes × Value)) (t : StoreState)
    (rest : List (Bytes × Value)) (i : ℕ) (hrest : all.drop i = rest) (candidate : StoreState) :
    (patchEntries lib alloc i rest candidate).run t =
      match patchLoop (lib.patchSites alloc all) i rest candidate with
      | some candidate => (.ok candidate, t)
      | none => (.error .badAlloc, t) := by
  induction rest generalizing i candidate with
  | nil => rfl
  | cons entry rest ih =>
      obtain ⟨key, value⟩ := entry
      have hentry : all[i]? = some (key, value) := by
        rw [← Nat.add_zero i, ← List.getElem?_drop, hrest]
        rfl
      have hnext : all.drop (i + 1) = rest := by
        rw [← List.drop_drop, hrest]
        rfl
      have hkey : (all[i]?.map Prod.fst).getD [] = key := by rw [hentry]; rfl
      simp only [patchEntries, patchLoop, allocate_bind, ih (i + 1) hnext, Library.patchSites, hkey]
      by_cases hpayload : alloc (.payload i) = true
      swap
      · simp [hpayload]
      by_cases hmap : lib.room key (alloc (.mapKey i)) = true
      swap
      · simp [hpayload, hmap]
      by_cases hnode : (candidate.records[key]?.isSome || alloc (.recordNode i)) = true
      swap
      · rw [Bool.or_eq_true, not_or, Option.not_isSome_iff_eq_none] at hnode
        simp [hpayload, hmap, hnode.1, hnode.2]
      have hnew : (candidate.records[key]?.isNone && !alloc (.recordNode i)) = false := by
        rw [← Option.not_isSome, ← Bool.not_or, hnode]
        rfl
      by_cases hchange : lib.room key (alloc (.changeKey i)) = true
      swap
      · simp [hpayload, hmap, hnew, hchange]
      by_cases hjournal : alloc (.journalNode i) = true
      swap
      · simp [hpayload, hmap, hnew, hchange, hjournal]
      simp only [hpayload, hmap, hnode, hnew, hchange, hjournal, if_true, if_false, Bool.and_self,
        Bool.not_true, Bool.false_eq_true]

theorem patchBlock_run (alloc : PatchSite → Bool) (entries : List PatchEntry) (s : StoreState) :
    ∃ sites : PatchSite → Bool,
      (patchBlock lib alloc entries).run s =
        (.ok (patch sites entries s).1, (patch sites entries s).2) := by
  unfold patchBlock patch
  by_cases hlength : entries.length > patchMaxEntries
  · exact ⟨alloc, by simp [hlength]⟩
  cases hc : entries.mapM (fun e => checkAssignment e.key e.value) with
  | none => exact ⟨alloc, by simp [hlength]⟩
  | some assignments =>
      refine ⟨lib.patchSites alloc assignments, ?_⟩
      by_cases hempty : entries.length = 0
      · simp [hempty]
      by_cases hr : s.revision > revisionMax - entries.length
      · simp [hlength, hempty, hr]
      by_cases hrecords : alloc .copyRecords = true
      swap
      · simp [hlength, hempty, hr, guarded_run, hrecords, Library.patchSites]
      by_cases hchanges : alloc .copyChanges = true
      swap
      · simp [hlength, hempty, hr, guarded_run, hrecords, hchanges, Library.patchSites]
      have hsites : (lib.patchSites alloc assignments .copyRecords &&
          lib.patchSites alloc assignments .copyChanges) = true :=
        Bool.and_eq_true_iff.mpr ⟨hrecords, hchanges⟩
      simp only [hlength, hempty, hr, if_false, state_bind, guarded_run, allocate_bind, hrecords,
        hchanges, if_true, hsites, Bool.not_true, Bool.false_eq_true,
        bind_run (patchEntries _ _ _ _ _), patchEntries_run lib alloc assignments s assignments 0 rfl]
      cases patchLoop (lib.patchSites alloc assignments) 0 assignments s <;> rfl

def Library.deleteSites (alloc : DeleteSite → Bool) (key : Bytes) : DeleteSite → Bool
  | .changeKey => lib.room key (alloc .changeKey)
  | .lookupKey => lib.room key (alloc .lookupKey)
  | .journalNode => alloc .journalNode

theorem deleteBlock_run (alloc : DeleteSite → Bool) (key : Option Bytes) (s : StoreState) :
    (deleteBlock lib alloc key).run s =
      (.ok (delete (lib.deleteSites alloc (key.getD [])) key s).1,
        (delete (lib.deleteSites alloc (key.getD [])) key s).2) := by
  cases key with
  | none => rfl
  | some k =>
      simp only [deleteBlock, delete, Option.getD_some]
      by_cases hvalid : validKey (some k) = true
      swap
      · simp [hvalid]
      by_cases hchange : lib.room k (alloc .changeKey) = true
      swap
      · simp [hvalid, guarded_run, hchange, Library.deleteSites]
      by_cases hlookup : lib.room k (alloc .lookupKey) = true
      swap
      · simp [hvalid, guarded_run, hchange, hlookup, Library.deleteSites]
      simp only [hvalid, guarded_run, allocate_bind, hchange, hlookup, Library.deleteSites,
        if_true, if_false, state_bind, Bool.not_true, Bool.false_eq_true, Bool.and_self]
      by_cases hfound : s.records[k]?.isNone = true
      · rw [if_pos hfound, if_pos hfound, pure_run]
      by_cases hr : s.revision ≥ revisionMax
      · rw [if_neg hfound, if_neg hfound, if_pos hr, if_pos hr, pure_run]
      rw [if_neg hfound, if_neg hfound, if_neg hr, if_neg hr, bind_run, retainBlock_run]
      cases retainChange _ _ _ <;> rfl

theorem clearBlock_run (alloc : ClearSite → Bool) (s : StoreState) :
    (clearBlock alloc).run s = (.ok (clear alloc s).1, (clear alloc s).2) := by
  rw [clearBlock, clear, guarded_run, state_bind]
  by_cases hempty : s.records.isEmpty = true
  · rw [if_pos hempty, if_pos hempty, pure_run]
  by_cases hr : s.revision ≥ revisionMax
  · rw [if_neg hempty, if_neg hempty, if_pos hr, if_pos hr, pure_run]
  rw [if_neg hempty, if_neg hempty, if_neg hr, if_neg hr, bind_run, retainBlock_run]
  dsimp only
  cases retainChange _ _ _ <;> rfl

end MutatorRuns

/-! ## What the bodies of the reads return -/

section ReadRuns

variable (lib : Library)

theorem cloneBlock_run (alloc : CloneSite → Bool) (source : Value) (s : StoreState) :
    (cloneBlock alloc source).run s = (.ok (cloneValue alloc source), s) := by
  unfold cloneBlock cloneValue
  by_cases htype : validValueType source.type = true
  swap
  · simp [htype]
  by_cases hvalue : alloc .value = true
  swap
  · simp [htype, hvalue]
  by_cases hpayload : alloc .payload = true
  · simp [htype, hvalue, hpayload, catching_run]
  · simp [htype, hvalue, hpayload, catching_run]

/-- A get whose string has room returns what it returns. -/
theorem getBlock_run (alloc : GetSite → Bool) (key : Option Bytes) (s : StoreState)
    (hroom : validKey key = true → lib.room (key.getD []) (alloc .lookupKey) = true) :
    (getBlock lib alloc true key).run s =
      (.ok (get (fun site => alloc (.clone site)) key s), s) := by
  unfold getBlock get
  by_cases hvalid : validKey key = true
  swap
  · simp [hvalid]
  simp only [hvalid, hroom hvalid, allocate_bind, state_bind, if_true, Bool.not_true,
    Bool.or_self, Bool.false_eq_true, if_false]
  cases s.records[key.getD []]? with
  | none => rfl
  | some record => exact cloneBlock_run _ _ _

theorem existsBlock_run (room : Bool) (key : Option Bytes) (s : StoreState)
    (hroom : validKey key = true → lib.room (key.getD []) room = true) :
    (existsBlock lib room true key).run s = (.ok («exists» key s), s) := by
  unfold existsBlock «exists»
  by_cases hvalid : validKey key = true
  · simp [hvalid, hroom hvalid]
  · simp [hvalid]

theorem countBlock_run (s : StoreState) : (countBlock true).run s = (.ok (.ok (count s)), s) := rfl

/-- A callback that is tried ends with what it says, or with nothing. -/
theorem tryCallback_run (verdict : Verdict) (s : StoreState) :
    (tryCallback verdict).run s =
      (.ok (match verdict with
        | .proceed => some true
        | .stop => some false
        | .throw => none), s) := by
  cases verdict <;> rfl

theorem scanDeliver_run (callback : ℕ → Verdict) (rows delivered : ℕ) (s : StoreState) :
    (scanDeliver callback rows delivered).run s =
      (.ok (match deliveredCount callback rows delivered with
        | none => .error scanThrew
        | some n => .ok n), s) := by
  induction rows generalizing delivered with
  | zero => rfl
  | succ rows ih =>
      rw [scanDeliver, bind_run, tryCallback_run, deliveredCount]
      cases callback delivered with
      | proceed => exact ih (delivered + 1)
      | stop => rfl
      | throw => rfl

theorem copyAll_run {α : Type} (room : ℕ → Bool) (i : ℕ) (list : List α) (s : StoreState) :
    (copyAll room i list).run s =
      if (List.range' i list.length).all room then (.ok list, s) else (.error .badAlloc, s) := by
  induction list generalizing i with
  | nil => rfl
  | cons a rest ih =>
      rw [copyAll, allocate_bind, bind_run, ih (i + 1), List.length_cons, List.range'_succ,
        List.all_cons]
      by_cases hroom : room i = true
      swap
      · simp [hroom]
      rw [if_pos hroom, hroom, Bool.true_and]
      split_ifs with hrest
      · rfl
      · rfl

/-- The allocations of a scan: the string for the map is one more in front of the copies. -/
def Library.scanSites (alloc : ScanPoint → Bool) (after : Option Bytes) : ScanSite → Bool
  | .reserve => alloc (.site .reserve) && lib.room (after.getD []) (alloc .lookupKey)
  | site => alloc (.site site)

theorem scanSnapshot_run (alloc : ScanPoint → Bool) (after : Option Bytes) (limit : ℕ)
    (s : StoreState) :
    (scanSnapshot lib alloc after limit).run s =
      (.ok (let snapshot := ((recordsFrom after s).take (scanLimit limit)).map ownRecord
        if lib.scanSites alloc after .reserve && (List.range snapshot.length).all fun i =>
            lib.scanSites alloc after (.copyRecord i) then .ok snapshot
        else .error scanOutOfMemory), s) := by
  rw [scanSnapshot, guarded_run, allocate_bind, allocate_bind, state_bind, bind_run, copyAll_run]
  dsimp only
  rw [List.range_eq_range']
  by_cases hreserve : alloc (.site .reserve) = true
  swap
  · simp [hreserve, Library.scanSites]
  by_cases hlookup : lib.room (after.getD []) (alloc .lookupKey) = true
  swap
  · simp [hreserve, hlookup, Library.scanSites]
  simp only [hreserve, hlookup, Library.scanSites, if_true, Bool.and_self, Bool.true_and]
  split_ifs with hcopies
  · rfl
  · rfl

/-- A scan delivers what it delivers, and an exception is a failure of it. -/
theorem scanBlock_run (alloc : ScanPoint → Bool) (after : Option Bytes) (limit : ℕ)
    (callback : ℕ → Verdict) (s : StoreState) :
    (scanBlock lib alloc after limit (some callback)).run s =
      (.ok (scan (lib.scanSites alloc after) after limit callback s), s) := by
  unfold scanBlock scan
  dsimp only
  by_cases hcheck : (!(after.all fun key => validKey (some key)) || scanLimitMax < limit) = true
  · rw [if_pos hcheck, if_pos hcheck, pure_run]
  rw [if_neg hcheck, if_neg hcheck, bind_run, scanSnapshot_run]
  dsimp only
  generalize (lib.scanSites alloc after .reserve && (List.range
      (((recordsFrom after s).take (scanLimit limit)).map ownRecord).length).all fun i =>
        lib.scanSites alloc after (.copyRecord i)) = room
  cases room with
  | false => rfl
  | true =>
      rw [if_pos rfl, Bool.not_true, if_neg Bool.false_ne_true]
      dsimp only
      rw [bind_run, scanDeliver_run]
      cases deliveredCount callback _ 0 <;> rfl

/-! ## What the changes are -/

theorem changesDeliver_run (callback : ℕ → Verdict) (snapshot : List MemoryChange)
    (last delivered : ℕ) (s : StoreState) :
    (changesDeliver callback snapshot last delivered).run s =
      (.ok (deliver callback snapshot last delivered), s) := by
  induction snapshot generalizing last delivered with
  | nil => rfl
  | cons c rest ih =>
      rw [changesDeliver, bind_run, tryCallback_run, deliver]
      cases callback delivered with
      | proceed => exact ih c.revision (delivered + 1)
      | stop => rfl
      | throw => rfl

/-- The changes that are asked for, or what the snapshot of them fails with. -/
theorem changesBlock_run (alloc : SnapshotSite → Bool) (after limit : ℕ)
    (callback : ℕ → Verdict) (s : StoreState) :
    (changesBlock alloc after limit (some callback)).run s =
      (.ok (match takeSnapshot alloc after limit s with
        | .error f => .error f
        | .ok snapshot => deliver callback snapshot after 0), s) := by
  unfold changesBlock takeSnapshot
  dsimp only
  by_cases hcheck : (limit > changeLimitMax || after > revisionMax) = true
  · rw [if_pos hcheck, if_pos hcheck, pure_run]
  rw [if_neg hcheck, if_neg hcheck, bind_run, changesSnapshot, guarded_run, allocate_bind]
  by_cases hreserve : alloc .reserve = true
  swap
  · simp [hreserve]
  rw [if_pos hreserve, state_bind, hreserve, Bool.not_true, if_neg Bool.false_ne_true]
  by_cases hnew : after > s.revision
  · rw [if_pos hnew, if_pos hnew]
    rfl
  by_cases hgap : after < s.retainedFloor
  · rw [if_neg hnew, if_neg hnew, if_pos hgap, if_pos hgap]
    rfl
  rw [if_neg hnew, if_neg hnew, if_neg hgap, if_neg hgap, bind_run, copyAll_run,
    List.range_eq_range']
  generalize snapshotLoop after _ s.changes [] = snapshot
  split_ifs with hcopies
  · exact changesDeliver_run callback snapshot after 0 s
  · rfl

/-! ## What the process does with names -/

/-- Whether the map of the registry is there when it has been asked for. -/
def Library.makes (made registry : Bool) : Bool := made || !lib.emptyMap || registry

theorem searchRegistry_run (registry lookup : Bool) (name : Bytes) (m : ProcessMemory) :
    (searchRegistry lib registry lookup name).run m =
      (if lib.makes m.made registry && lib.room name lookup then .ok () else .error .badAlloc,
        { m with made := lib.makes m.made registry }) := by
  obtain ⟨stores, made, subscriptions⟩ := m
  rw [searchRegistry, bind_run, useRegistry, state_bind, Library.makes]
  cases made with
  | true => cases hname : lib.room name lookup <;> rfl
  | false =>
      rw [if_neg Bool.false_ne_true, allocate_bind, Bool.false_or]
      cases hmap : !lib.emptyMap || registry with
      | false => rfl
      | true => cases hname : lib.room name lookup <;> rfl

/-- A destroy whose search has room returns what it returns. -/
theorem destroyBlock_run (alloc : DestroyPoint → Bool) (name : Bytes) (m : ProcessMemory)
    (hvalid : validName name = true) :
    (destroyBlock lib alloc (some name)).run m =
      if lib.makes m.made (alloc .registry) && lib.room name (alloc .lookupName) then
        (.ok (storeDestroy name m.registry).1,
          { m with
            registry := (storeDestroy name m.registry).2
            made := lib.makes m.made (alloc .registry) })
      else (.error .badAlloc, { m with made := lib.makes m.made (alloc .registry) }) := by
  rw [destroyBlock, Option.any_some, hvalid, Bool.not_true, if_neg Bool.false_ne_true,
    Option.getD_some, bind_run, searchRegistry_run]
  split_ifs
  · rfl
  · rfl

/-- The allocations of an open: a new state has the one for its name and one for its node. -/
def openSites (alloc : OpenPoint → Bool) : OpenSite → Bool
  | .state => alloc .state && alloc .node
  | .handle => alloc .handle

theorem findBlock_run (alloc : OpenPoint → Bool) (name : Bytes) (m : ProcessMemory) :
    (findBlock alloc name).run m =
      match findState (openSites alloc .state) name m.registry with
      | some (id, r) => (.ok id, { m with registry := r })
      | none => (.error .badAlloc, m) := by
  rw [findBlock, state_bind, findState, openSites]
  cases m.registry.stores[name]? with
  | some id => rfl
  | none =>
      dsimp only
      rw [allocate_bind, allocate_bind]
      cases alloc .state with
      | false => rfl
      | true =>
          cases alloc .node with
          | false => rfl
          | true => rfl

/-- An open returns what it returns; one whose search has no room fails as one that has none
for a new state. -/
theorem openBlock_run (alloc : OpenPoint → Bool) (name : Bytes) (m : ProcessMemory)
    (hvalid : validName name = true) :
    (openBlock lib alloc true (some name)).run m =
      if lib.makes m.made (alloc .registry) && lib.room name (alloc .lookupName) then
        (.ok (storeOpen (openSites alloc) name m.registry).1,
          { m with
            registry := (storeOpen (openSites alloc) name m.registry).2
            made := lib.makes m.made (alloc .registry) })
      else
        (.ok (.error openOutOfMemory), { m with made := lib.makes m.made (alloc .registry) }) := by
  rw [openBlock, Option.any_some, hvalid, Bool.not_true, Bool.or_self, if_neg Bool.false_ne_true,
    Option.getD_some, guarded_run, bind_run, searchRegistry_run]
  by_cases hroom : (lib.makes m.made (alloc .registry) && lib.room name (alloc .lookupName)) = true
  swap
  · rw [if_neg hroom, if_neg hroom]
  rw [if_pos hroom, if_pos hroom]
  dsimp only
  rw [bind_run, findBlock_run, storeOpen, hvalid, Bool.not_true, if_neg Bool.false_ne_true]
  dsimp only
  cases findState (openSites alloc .state) name m.registry with
  | none => rfl
  | some found =>
      obtain ⟨id, r⟩ := found
      dsimp only
      rw [change_bind]
      have hhandle : openSites alloc .handle = alloc .handle := rfl
      by_cases h : alloc .handle = true
      · rw [if_pos h, hhandle, if_pos h]
        rfl
      · rw [if_neg h, hhandle, if_neg h]
        rfl

end ReadRuns

end Esdb.MemoryStore
