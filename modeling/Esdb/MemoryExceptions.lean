import Esdb.MemoryBlocks

/-!
# Exceptions at the boundary of the memory Store

The exported functions with every argument that they can be given, in every state of the
process. Whatever fails inside of them, they return a status, but for three of them: a get, an
exists and a destroy search a map with a string that is made outside of any `try`. An exception
gets out of these when there is no memory for the string.
-/
namespace Esdb.MemoryStore

open Throwing (Thrown Block)
open Throwing.Block

/-- The calls of the exported functions. A null pointer is `none`, or `false` where only its
presence is looked at; a Store is the number of its state. -/
inductive StoreCall where
  | «open» (out : Bool) (name : Option Bytes)
  | destroy (name : Option Bytes)
  | put (store : Option ℕ) (key : Option Bytes) (value : Option Value)
  | patch (store : Option ℕ) (entries : Option (List PatchEntry))
  | get (store : Option ℕ) (out : Bool) (key : Option Bytes)
  | delete (store : Option ℕ) (key : Option Bytes)
  | «exists» (store : Option ℕ) (out : Bool) (key : Option Bytes)
  | count (store : Option ℕ) (out : Bool)
  | clear (store : Option ℕ)
  | scan (store : Option ℕ) (after : Option Bytes) (limit : ℕ) (callback : Bool)
  | changes (store : Option ℕ) (after limit : ℕ) (callback : Bool)
  | subscribe (store : Option ℕ) (out : Bool) (after : ℕ)
  | poll (subscription : Option ℕ) (limit : ℕ) (callback : Bool)

/-- Where there is memory inside of a call, and what the callbacks do. -/
structure Faults where
  «open» : OpenPoint → Bool
  destroy : DestroyPoint → Bool
  put : PutSite → Bool
  patch : PatchSite → Bool
  get : GetSite → Bool
  delete : DeleteSite → Bool
  «exists» : Bool
  clear : ClearSite → Bool
  scan : ScanPoint → Bool
  changes : SnapshotSite → Bool
  subscribe : Bool
  callback : ℕ → Verdict

/-- The status of a reply: `ESDB_OK` is `none`. -/
def statusOf {α : Type} : Except Failure α → Option Failure
  | .ok _ => none
  | .error f => some f

/-- A body behind `validate_store`. -/
def withStore {α : Type} (store : Option ℕ) (failure : Failure)
    (body : Block StoreState (Except Failure α)) : Block ProcessMemory (Option Failure) :=
  match store with
  | none => pure (some failure)
  | some id => do
      let reply ← onState id body
      pure (statusOf reply)

def Faults.callbackOf (faults : Faults) (callback : Bool) : Option (ℕ → Verdict) :=
  if callback then some faults.callback else none

/-- The function that is called. -/
def StoreCall.body (lib : Library) (faults : Faults) :
    StoreCall → Block ProcessMemory (Option Failure)
  | .open out name => do
      let reply ← openBlock lib faults.open out name
      pure (statusOf reply)
  | .destroy name => do
      let reply ← destroyBlock lib faults.destroy name
      pure (statusOf reply)
  | .put store key value =>
      withStore store (storeFail .invalidArgument .store "invalid Store put arguments")
        (putBlock lib faults.put key value)
  | .patch store none =>
      withStore store (storeFail .invalidArgument .store "invalid Store patch arguments")
        (pure (.error (storeFail .invalidArgument .store "invalid Store patch arguments")) :
          Block StoreState (Except Failure ℕ))
  | .patch store (some entries) =>
      withStore store (storeFail .invalidArgument .store "invalid Store patch arguments")
        (patchBlock lib faults.patch entries)
  | .get store out key =>
      withStore store (storeFail .invalidArgument .store "invalid Store get arguments")
        (getBlock lib faults.get out key)
  | .delete store key =>
      withStore store (storeFail .invalidArgument .store "invalid Store delete arguments")
        (deleteBlock lib faults.delete key)
  | .exists store out key =>
      withStore store (storeFail .invalidArgument .store "invalid Store exists arguments")
        (existsBlock lib faults.exists out key)
  | .count store out =>
      withStore store (storeFail .invalidArgument .store "Store and out_count are required")
        (countBlock out)
  | .clear store =>
      withStore store (storeFail .invalidArgument .store "Store handle is required")
        (clearBlock faults.clear)
  | .scan store after limit callback =>
      withStore store (storeFail .invalidArgument .store "invalid Store scan arguments")
        (scanBlock lib faults.scan after limit (faults.callbackOf callback))
  | .changes store after limit callback =>
      withStore store (storeFail .invalidArgument .subscription "Store handle is required")
        (changesBlock faults.changes after limit (faults.callbackOf callback))
  | .subscribe none _ _ =>
      pure (some (storeFail .invalidArgument .subscription
        "invalid Store subscription arguments"))
  | .subscribe (some id) out after => do
      let reply ← subscribeBlock faults.subscribe out id after
      pure (statusOf reply)
  | .poll subscription limit callback => do
      let reply ← pollBlock faults.changes subscription limit (faults.callbackOf callback)
      pure (statusOf reply)

/-- A call that searches a map, outside of any `try`, with a text too long for a string to hold
it in place, or that makes the map of the registry there. -/
def StoreCall.Exposed (lib : Library) (m : ProcessMemory) : StoreCall → Prop
  | .get (some _) true (some key) => validKey (some key) = true ∧ lib.inPlace < key.length
  | .exists (some _) true (some key) => validKey (some key) = true ∧ lib.inPlace < key.length
  | .destroy (some name) =>
      validName name = true ∧
        ((m.made = false ∧ lib.emptyMap = true) ∨ lib.inPlace < name.length)
  | _ => False

/-! ## What returns whatever fails -/

section Contained

variable {lib : Library}

/-- A status is had from what returns. -/
theorem contained_status {σ α : Type} {x : Block σ (Except Failure α)} (h : x.Contained) :
    (do
      let reply ← x
      pure (statusOf reply)).Contained :=
  h.bind fun _ => contained_pure _

theorem contained_onState {α : Type} (id : ℕ) {body : Block StoreState α}
    (h : body.Contained) : (onState id body).Contained := by
  intro m
  obtain ⟨a, s, hrun⟩ := h (m.registry.state id)
  refine ⟨a, { m with registry := m.registry.modify id fun t => { t with state := s } }, ?_⟩
  simp only [onState, hrun]

theorem contained_withStore {α : Type} (store : Option ℕ) (failure : Failure)
    {body : Block StoreState (Except Failure α)} (h : body.Contained) :
    (withStore store failure body).Contained := by
  cases store with
  | none => exact contained_pure _
  | some id => exact contained_status (contained_onState id h)

theorem contained_put (alloc : PutSite → Bool) (key : Option Bytes) (value : Option Value) :
    (putBlock lib alloc key value).Contained :=
  fun s => ⟨_, _, putBlock_run lib alloc key value s⟩

theorem contained_patch (alloc : PatchSite → Bool) (entries : List PatchEntry) :
    (patchBlock lib alloc entries).Contained := by
  intro s
  obtain ⟨sites, hrun⟩ := patchBlock_run lib alloc entries s
  exact ⟨_, _, hrun⟩

theorem contained_delete (alloc : DeleteSite → Bool) (key : Option Bytes) :
    (deleteBlock lib alloc key).Contained :=
  fun s => ⟨_, _, deleteBlock_run lib alloc key s⟩

theorem contained_clear (alloc : ClearSite → Bool) : (clearBlock alloc).Contained :=
  fun s => ⟨_, _, clearBlock_run alloc s⟩

theorem contained_count (out : Bool) : (countBlock out).Contained := by
  cases out with
  | false => exact contained_pure _
  | true => exact fun s => ⟨_, _, countBlock_run s⟩

theorem contained_scan (alloc : ScanPoint → Bool) (after : Option Bytes) (limit : ℕ)
    (callback : Option (ℕ → Verdict)) : (scanBlock lib alloc after limit callback).Contained := by
  cases callback with
  | none => exact contained_pure _
  | some callback => exact fun s => ⟨_, _, scanBlock_run lib alloc after limit callback s⟩

theorem contained_changes (alloc : SnapshotSite → Bool) (after limit : ℕ)
    (callback : Option (ℕ → Verdict)) : (changesBlock alloc after limit callback).Contained := by
  cases callback with
  | none => exact contained_pure _
  | some callback => exact fun s => ⟨_, _, changesBlock_run alloc after limit callback s⟩

theorem contained_open (alloc : OpenPoint → Bool) (out : Bool) (name : Option Bytes) :
    (openBlock lib alloc out name).Contained := by
  unfold openBlock
  split
  · exact contained_pure _
  · exact contained_guarded _ _ _

theorem contained_subscribe (room out : Bool) (id after : ℕ) :
    (subscribeBlock room out id after).Contained := by
  unfold subscribeBlock
  split_ifs
  · exact contained_pure _
  · refine contained_state.bind fun m => ?_
    split
    · exact contained_pure _
    · exact (contained_change _).bind fun _ => contained_pure _

theorem contained_poll (alloc : SnapshotSite → Bool) (i : Option ℕ) (limit : ℕ)
    (callback : Option (ℕ → Verdict)) : (pollBlock alloc i limit callback).Contained := by
  refine contained_state.bind fun m => ?_
  split
  · split_ifs
    · exact contained_pure _
    · refine (contained_onState _ (contained_changes _ _ _ _)).bind fun reply => ?_
      cases reply with
      | error f => exact contained_pure _
      | ok p => exact (contained_change _).bind fun _ => contained_pure _
  · exact contained_pure _

end Contained

/-! ## What a search outside of a `try` throws -/

section Exposed

variable (lib : Library)

theorem room_short {text : Bytes} (h : ¬lib.inPlace < text.length) (room : Bool) :
    lib.room text room = true := by
  rw [Library.room, decide_eq_true (Nat.not_lt.mp h), Bool.true_or]

theorem room_long {text : Bytes} (h : lib.inPlace < text.length) :
    lib.room text false = false := by
  rw [Library.room, decide_eq_false (Nat.not_le.mpr h), Bool.or_false]

/-- A get whose string has no room ends with the exception. -/
theorem getBlock_thrown {alloc : GetSite → Bool} {key : Bytes} (hvalid : validKey (some key) = true)
    (hroom : lib.room key (alloc .lookupKey) = false) (s : StoreState) :
    (getBlock lib alloc true (some key)).run s = (.error .badAlloc, s) := by
  rw [getBlock, hvalid, Option.getD_some]
  simp only [allocate_bind, hroom, Bool.not_true, Bool.or_self, Bool.false_eq_true, if_false]

theorem existsBlock_thrown {room : Bool} {key : Bytes} (hvalid : validKey (some key) = true)
    (hroom : lib.room key room = false) (s : StoreState) :
    (existsBlock lib room true (some key)).run s = (.error .badAlloc, s) := by
  rw [existsBlock, hvalid, Option.getD_some]
  simp only [allocate_bind, hroom, Bool.not_true, Bool.or_self, Bool.false_eq_true, if_false]

/-- What is thrown on a state is thrown by the call. -/
theorem withStore_thrown {α : Type} {failure : Failure} {id : ℕ} {e : Thrown}
    {body : Block StoreState (Except Failure α)} (m : ProcessMemory)
    (h : (body.run (m.registry.state id)).1 = .error e) :
    ((withStore (some id) failure body).run m).1 = .error e := by
  rw [withStore, bind_run]
  simp only [onState, h]

end Exposed

/-! ## The boundary -/

/-- The call returns a status; no exception gets out of it. -/
def StoreCall.Returns (lib : Library) (faults : Faults) (m : ProcessMemory) (call : StoreCall) :
    Prop :=
  ∃ status, ((call.body lib faults).run m).1 = .ok status

theorem returns_of_contained {lib : Library} {faults : Faults} {call : StoreCall}
    (h : (call.body lib faults).Contained) (m : ProcessMemory) : call.Returns lib faults m := by
  obtain ⟨status, t, hrun⟩ := h m
  exact ⟨status, congrArg Prod.fst hrun⟩

/-- No memory anywhere. -/
def exhausted : Faults where
  «open» := fun _ => false
  destroy := fun _ => false
  put := fun _ => false
  patch := fun _ => false
  get := fun _ => false
  delete := fun _ => false
  «exists» := false
  clear := fun _ => false
  scan := fun _ => false
  changes := fun _ => false
  subscribe := false
  callback := fun _ => .proceed

section Boundary

variable {lib : Library}

/-- A get that is not exposed has room for its string. -/
theorem returns_get {m : ProcessMemory} (faults : Faults) (id : ℕ) (out : Bool)
    (key : Option Bytes) (h : ¬(StoreCall.get (some id) out key).Exposed lib m) :
    (StoreCall.get (some id) out key).Returns lib faults m := by
  refine returns_of_contained ?_ m
  rw [StoreCall.body]
  refine contained_withStore _ _ fun s => ?_
  cases out with
  | false => exact ⟨_, _, rfl⟩
  | true =>
      refine ⟨_, _, getBlock_run lib faults.get key s fun hvalid => ?_⟩
      cases key with
      | none => exact nomatch hvalid
      | some key => exact room_short lib (fun hlong => h ⟨hvalid, hlong⟩) _

theorem returns_exists {m : ProcessMemory} (faults : Faults) (id : ℕ) (out : Bool)
    (key : Option Bytes) (h : ¬(StoreCall.exists (some id) out key).Exposed lib m) :
    (StoreCall.exists (some id) out key).Returns lib faults m := by
  refine returns_of_contained ?_ m
  rw [StoreCall.body]
  refine contained_withStore _ _ fun s => ?_
  cases out with
  | false => exact ⟨_, _, rfl⟩
  | true =>
      refine ⟨_, _, existsBlock_run lib faults.exists key s fun hvalid => ?_⟩
      cases key with
      | none => exact nomatch hvalid
      | some key => exact room_short lib (fun hlong => h ⟨hvalid, hlong⟩) _

theorem returns_destroy {m : ProcessMemory} (faults : Faults) (name : Option Bytes)
    (h : ¬(StoreCall.destroy name).Exposed lib m) :
    (StoreCall.destroy name).Returns lib faults m := by
  cases name with
  | none => exact ⟨_, rfl⟩
  | some name =>
      by_cases hvalid : validName name = true
      swap
      · refine ⟨some (storeFail .invalidArgument .store "valid Store name is required"), ?_⟩
        rw [StoreCall.body, destroyBlock, Option.any_some, Bool.not_eq_true _ |>.mp hvalid]
        rfl
      have hmade : lib.makes m.made (faults.destroy .registry) = true := by
        rw [Library.makes]
        by_contra hnot
        simp only [Bool.or_eq_true, Bool.not_eq_true', not_or, Bool.not_eq_true,
          Bool.not_eq_false] at hnot
        exact h ⟨hvalid, .inl hnot.1⟩
      have hroom := room_short lib (fun hlong => h ⟨hvalid, .inr hlong⟩)
        (faults.destroy .lookupName)
      refine ⟨statusOf (storeDestroy name m.registry).1, ?_⟩
      rw [StoreCall.body, bind_run, destroyBlock_run lib _ name m hvalid, hmade, hroom]
      rfl

/-- An exposed call throws when there is no memory. -/
theorem thrown_of_exposed {m : ProcessMemory} {call : StoreCall} (h : call.Exposed lib m) :
    ((call.body lib exhausted).run m).1 = .error .badAlloc := by
  unfold StoreCall.Exposed at h
  split at h
  · next id key =>
      have hthrown := @getBlock_thrown lib exhausted.get key h.1 (room_long lib h.2)
      rw [StoreCall.body]
      exact withStore_thrown m (congrArg Prod.fst (hthrown _))
  · next id key =>
      have hthrown := existsBlock_thrown lib h.1 (room_long lib h.2)
      rw [StoreCall.body]
      exact withStore_thrown m (congrArg Prod.fst (hthrown _))
  · next name =>
      obtain ⟨hvalid, hfault⟩ := h
      have hroom : (lib.makes m.made (exhausted.destroy .registry) &&
          lib.room name (exhausted.destroy .lookupName)) = false := by
        rcases hfault with ⟨hmade, hmap⟩ | hlong
        · rw [Library.makes, hmade, hmap]
          rfl
        · rw [show exhausted.destroy .lookupName = false from rfl, room_long lib hlong,
            Bool.and_false]
      rw [StoreCall.body, bind_run, destroyBlock_run lib _ name m hvalid, hroom]
      rfl
  · exact h.elim

/-- A call returns, whatever fails in it, if and only if it is not exposed. -/
theorem returns_iff (m : ProcessMemory) (call : StoreCall) :
    (∀ faults, call.Returns lib faults m) ↔ ¬call.Exposed lib m := by
  constructor
  · intro h hexposed
    obtain ⟨status, hstatus⟩ := h exhausted
    rw [thrown_of_exposed hexposed] at hstatus
    cases hstatus
  · intro h faults
    cases call with
    | «open» out name =>
        refine returns_of_contained ?_ m
        exact contained_status (contained_open _ _ _)
    | destroy name => exact returns_destroy faults name h
    | put store key value =>
        refine returns_of_contained ?_ m
        exact contained_withStore _ _ (contained_put _ _ _)
    | patch store entries =>
        cases entries with
        | none =>
            refine returns_of_contained ?_ m
            exact contained_withStore _ _ (contained_pure _)
        | some entries =>
            refine returns_of_contained ?_ m
            exact contained_withStore _ _ (contained_patch _ _)
    | get store out key =>
        cases store with
        | none => exact ⟨_, rfl⟩
        | some id => exact returns_get faults id out key h
    | delete store key =>
        refine returns_of_contained ?_ m
        exact contained_withStore _ _ (contained_delete _ _)
    | «exists» store out key =>
        cases store with
        | none => exact ⟨_, rfl⟩
        | some id => exact returns_exists faults id out key h
    | count store out =>
        refine returns_of_contained ?_ m
        exact contained_withStore _ _ (contained_count _)
    | clear store =>
        refine returns_of_contained ?_ m
        exact contained_withStore _ _ (contained_clear _)
    | scan store after limit callback =>
        refine returns_of_contained ?_ m
        exact contained_withStore _ _ (contained_scan _ _ _ _)
    | changes store after limit callback =>
        refine returns_of_contained ?_ m
        exact contained_withStore _ _ (contained_changes _ _ _ _)
    | subscribe store out after =>
        cases store with
        | none => exact ⟨_, rfl⟩
        | some id =>
            refine returns_of_contained ?_ m
            exact contained_status (contained_subscribe _ _ _ _)
    | poll subscription limit callback =>
        refine returns_of_contained ?_ m
        exact contained_status (contained_poll _ _ _ _)

end Boundary

/-! ## Runs -/

/-- What the calls of a run end with, each with the faults that it meets. -/
def replies (lib : Library) :
    List (StoreCall × Faults) → ProcessMemory → List (Except Thrown (Option Failure))
  | [], _ => []
  | (call, faults) :: rest, m =>
      let reply := (call.body lib faults).run m
      reply.1 :: replies lib rest reply.2

/-- No call of the run is exposed in the state that it finds. -/
def Sheltered (lib : Library) : List (StoreCall × Faults) → ProcessMemory → Prop
  | [], _ => True
  | (call, faults) :: rest, m =>
      ¬call.Exposed lib m ∧ Sheltered lib rest ((call.body lib faults).run m).2

theorem replies_returned {lib : Library} {calls : List (StoreCall × Faults)} {m : ProcessMemory}
    (h : Sheltered lib calls m) : ∀ reply ∈ replies lib calls m, ∃ status, reply = .ok status := by
  induction calls generalizing m with
  | nil => exact List.forall_mem_nil _
  | cons entry rest ih =>
      obtain ⟨call, faults⟩ := entry
      exact List.forall_mem_cons.mpr ⟨(returns_iff m call).mpr h.1 faults, ih h.2⟩

/-- No exception gets out of a call whatever fails in it, in any state, if and only if the call
is not exposed there; and none gets out of a run without exposed calls. -/
theorem exceptions_contained_iff (lib : Library) :
    (∀ (m : ProcessMemory) (call : StoreCall),
      (∀ faults, call.Returns lib faults m) ↔ ¬call.Exposed lib m) ∧
    ∀ (calls : List (StoreCall × Faults)) (m : ProcessMemory), Sheltered lib calls m →
      ∀ reply ∈ replies lib calls m, ∃ status, reply = .ok status :=
  ⟨returns_iff, fun _ _ h => replies_returned h⟩

/-- A string that holds 15 bytes in place. -/
def shortStrings : Library := ⟨15, false⟩

/-- A process that has opened one Store. -/
def opened : ProcessMemory :=
  ((openBlock shortStrings (fun _ => true) true (some [115])).run ⟨.empty, false, []⟩).2

/-- A get of a key of 16 bytes throws when there is no memory. -/
theorem exceptions_contained_escape :
    ¬(StoreCall.get (some 0) true (some (List.replicate 16 97))).Returns shortStrings exhausted
      opened := by
  rintro ⟨status, hstatus⟩
  have hexposed : (StoreCall.get (some 0) true (some (List.replicate 16 97))).Exposed shortStrings
      opened := ⟨by decide, by decide⟩
  rw [thrown_of_exposed hexposed] at hstatus
  cases hstatus

end Esdb.MemoryStore
