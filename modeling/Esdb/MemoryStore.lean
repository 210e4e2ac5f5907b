import Esdb.BoundedLog
import Esdb.Types

/-!
# The process-memory Store and its four mutators

Every place where the native code allocates is a named site, and an operation
takes the set of sites at which allocation succeeds. A failing site throws
`std::bad_alloc`; what the operation had changed by then is exactly what the
definitions below have put into the state they return.

The mutex makes each operation one step. Null Store handles are rejected before
any state is touched and are not represented.
-/
namespace Esdb.MemoryStore

/-- `ESDB_STORE_KEY_MAX_BYTES`. -/
def keyMaxBytes : ℕ := 4096

/-- `ESDB_STORE_CHANGE_CAPACITY`. -/
def changeCapacity : ℕ := 4096

/-- `ESDB_STORE_PATCH_MAX_ENTRIES`. -/
def patchMaxEntries : ℕ := 1024

structure MemoryRecord where
  value : Value
  revision : ℕ
  deriving DecidableEq, Repr

inductive ChangeOperation where
  | put | delete | clear
  deriving DecidableEq, Repr

structure MemoryChange where
  revision : ℕ
  operation : ChangeOperation
  valueType : ℕ
  key : Bytes
  deriving DecidableEq, Repr

/-- `MemoryStoreState`: the deque is a list with the oldest change first. -/
@[ext] structure StoreState where
  records : ByteMap MemoryRecord
  changes : List MemoryChange
  revision : ℕ
  retainedFloor : ℕ

/-- A Store that has just been created. -/
def initial : StoreState := ⟨∅, [], 0, 0⟩

def validKey (key : Option Bytes) : Bool :=
  validCString key keyMaxBytes && validUtf8 (key.getD [])

/-- `store_fail`: no SQLite handle and no SQLite code are involved. -/
def storeFail (status : Status) (phase : Phase) (message : String) : Failure :=
  .recorded status phase 0 (some message)

def revisionExhausted : Failure :=
  storeFail .invalidState .store "Store revision domain is exhausted"

/-- `retain_change`. Nothing has changed when `emplace_back` throws. -/
def retainChange (room : Bool) (change : MemoryChange) (s : StoreState) : Option StoreState :=
  if room then
    let kept := BoundedLog.evict MemoryChange.revision changeCapacity
      (s.changes ++ [change]) s.retainedFloor
    some { s with changes := kept.1, retainedFloor := kept.2 }
  else none

/-- The argument check that `put` and each entry of `patch` make. -/
def checkAssignment (key : Option Bytes) (value : Option Value) : Option (Bytes × Value) :=
  match key, value with
  | some k, some v => if validKey (some k) && validValueType v.type then some (k, v) else none
  | _, _ => none

/-! ## put -/

inductive PutSite where
  | mapKey | payload | changeKey | recordNode | journalNode
  deriving DecidableEq, Repr

def putOutOfMemory : Failure :=
  storeFail .outOfMemory .store "failed to allocate Store mutation"

/-- `esdb_store_put`; a success returns the assigned revision. -/
def put (alloc : PutSite → Bool) (key : Option Bytes) (value : Option Value) (s : StoreState) :
    Except Failure ℕ × StoreState :=
  match checkAssignment key value with
  | none => (.error (storeFail .invalidArgument .store "invalid Store put arguments"), s)
  | some (key, value) =>
      if !(alloc .mapKey && alloc .payload && alloc .changeKey) then (.error putOutOfMemory, s)
      else if s.revision ≥ revisionMax then (.error revisionExhausted, s)
      else
        let revision := s.revision + 1
        let change : MemoryChange := ⟨revision, .put, value.type, key⟩
        match s.records[key]? with
        | some previous =>
            let staged := { s with records := s.records.insert key ⟨value, revision⟩ }
            match retainChange (alloc .journalNode) change staged with
            | some kept => (.ok revision, { kept with revision := revision })
            | none =>
                (.error putOutOfMemory,
                  { staged with records := staged.records.insert key previous })
        | none =>
            if !alloc .recordNode then (.error putOutOfMemory, s)
            else
              let staged := { s with records := s.records.insert key ⟨value, revision⟩ }
              match retainChange (alloc .journalNode) change staged with
              | some kept => (.ok revision, { kept with revision := revision })
              | none =>
                  (.error putOutOfMemory, { staged with records := staged.records.erase key })

/-! ## patch -/

structure PatchEntry where
  key : Option Bytes
  value : Option Value
  deriving DecidableEq, Repr

inductive PatchSite where
  | copyRecords | copyChanges
  | payload (i : ℕ) | mapKey (i : ℕ) | recordNode (i : ℕ) | changeKey (i : ℕ) | journalNode (i : ℕ)
  deriving DecidableEq, Repr

def patchOutOfMemory : Failure :=
  storeFail .outOfMemory .store "failed to allocate atomic Store patch"

/-- The loop over the entries. It works on copies, so an exception loses only
the copies; `none` is that exception. -/
def patchLoop (alloc : PatchSite → Bool) (i : ℕ) :
    List (Bytes × Value) → StoreState → Option StoreState
  | [], candidate => some candidate
  | (key, value) :: rest, candidate =>
      let revision := candidate.revision + 1
      if !(alloc (.payload i) && alloc (.mapKey i)) then none
      else if candidate.records[key]?.isNone && !alloc (.recordNode i) then none
      else if !(alloc (.changeKey i) && alloc (.journalNode i)) then none
      else
        let kept := BoundedLog.evict MemoryChange.revision changeCapacity
          (candidate.changes ++ [⟨revision, .put, value.type, key⟩]) candidate.retainedFloor
        patchLoop alloc (i + 1) rest
          ⟨candidate.records.insert key ⟨value, revision⟩, kept.1, revision, kept.2⟩

/-- `esdb_store_patch`; a success returns the final revision. -/
def patch (alloc : PatchSite → Bool) (entries : List PatchEntry) (s : StoreState) :
    Except Failure ℕ × StoreState :=
  if entries.length > patchMaxEntries then
    (.error (storeFail .invalidArgument .store "invalid Store patch arguments"), s)
  else
    match entries.mapM (fun e => checkAssignment e.key e.value) with
    | none =>
        (.error (storeFail .invalidArgument .store
          "Store patch contains an invalid key or value"), s)
    | some assignments =>
        if entries.length = 0 then (.ok s.revision, s)
        else if s.revision > revisionMax - entries.length then (.error revisionExhausted, s)
        else if !(alloc .copyRecords && alloc .copyChanges) then (.error patchOutOfMemory, s)
        else
          match patchLoop alloc 0 assignments s with
          | some candidate => (.ok candidate.revision, candidate)
          | none => (.error patchOutOfMemory, s)

/-! ## delete and clear -/

/-- The outputs `out_deleted` or `out_cleared`, and `out_revision`. -/
structure Removal where
  changed : Bool
  revision : ℕ
  deriving DecidableEq, Repr

inductive DeleteSite where
  | changeKey | lookupKey | journalNode
  deriving DecidableEq, Repr

def deleteOutOfMemory : Failure :=
  storeFail .outOfMemory .store "failed to allocate Store delete change"

/-- `esdb_store_delete`. -/
def delete (alloc : DeleteSite → Bool) (key : Option Bytes) (s : StoreState) :
    Except Failure Removal × StoreState :=
  match key with
  | none => (.error (storeFail .invalidArgument .store "invalid Store delete arguments"), s)
  | some key =>
      if !validKey (some key) then
        (.error (storeFail .invalidArgument .store "invalid Store delete arguments"), s)
      else if !(alloc .changeKey && alloc .lookupKey) then (.error deleteOutOfMemory, s)
      else if s.records[key]?.isNone then (.ok ⟨false, s.revision⟩, s)
      else if s.revision ≥ revisionMax then (.error revisionExhausted, s)
      else
        let revision := s.revision + 1
        match retainChange (alloc .journalNode) ⟨revision, .delete, Value.null, key⟩ s with
        | some kept =>
            (.ok ⟨true, revision⟩,
              { kept with records := kept.records.erase key, revision := revision })
        | none => (.error deleteOutOfMemory, s)

inductive ClearSite where
  | journalNode
  deriving DecidableEq, Repr

/-- `esdb_store_clear`. -/
def clear (alloc : ClearSite → Bool) (s : StoreState) : Except Failure Removal × StoreState :=
  if s.records.isEmpty then (.ok ⟨false, s.revision⟩, s)
  else if s.revision ≥ revisionMax then (.error revisionExhausted, s)
  else
    let revision := s.revision + 1
    match retainChange (alloc .journalNode) ⟨revision, .clear, Value.null, []⟩ s with
    | some kept => (.ok ⟨true, revision⟩, { kept with records := ∅, revision := revision })
    | none =>
        (.error (storeFail .outOfMemory .store "failed to allocate Store clear change"), s)

/-! ## Calls in sequence -/

/-- One call of a mutator, with the allocations that succeed inside it. -/
inductive Call where
  | put (alloc : PutSite → Bool) (key : Option Bytes) (value : Option Value)
  | patch (alloc : PatchSite → Bool) (entries : List PatchEntry)
  | delete (alloc : DeleteSite → Bool) (key : Option Bytes)
  | clear (alloc : ClearSite → Bool)

/-- The reply of any mutator; put always changes the Store when it succeeds, and
patch does so when it has entries. -/
def Call.exec : Call → StoreState → Except Failure Removal × StoreState
  | .put alloc key value, s =>
      let r := MemoryStore.put alloc key value s
      (r.1.map fun revision => ⟨true, revision⟩, r.2)
  | .patch alloc entries, s =>
      let r := MemoryStore.patch alloc entries s
      (r.1.map fun revision => ⟨!entries.isEmpty, revision⟩, r.2)
  | .delete alloc key, s => MemoryStore.delete alloc key s
  | .clear alloc, s => MemoryStore.clear alloc s

end Esdb.MemoryStore
