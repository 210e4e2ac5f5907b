import Esdb.MemorySubscription
import Mathlib.Algebra.Group.Nat.Defs

/-!
# The named Stores of a process

The registry takes a name to a shared state, and a handle is a reference to such a
state. A state is known here by when it was made: a Store that is destroyed and
created again under its name has a new number. Handles and subscriptions keep a state
alive and keep the registry from giving it up.
-/
namespace Esdb.MemoryStore

/-- `ESDB_STORE_NAME_MAX_BYTES`. -/
def nameMaxBytes : ℕ := 511

/-- `valid_name`. -/
def validName (name : Bytes) : Bool := validCString (some name) nameMaxBytes && validUtf8 name

/-- `fetch_add` and `fetch_sub` of one on a `std::atomic<std::uint32_t>`. -/
def fetchAdd (count : ℕ) : ℕ := (count + 1) % 2 ^ 32

def fetchSub (count : ℕ) : ℕ := (count + (2 ^ 32 - 1)) % 2 ^ 32

/-- `MemoryStoreState` with its counts. The mutations so far are not in the source and
nothing reads them. -/
structure SharedState where
  name : Bytes
  state : StoreState
  handleCount : ℕ
  subscriptionCount : ℕ
  log : List Mutation

/-- The states ever made, and which of them have a name. -/
structure Registry where
  stores : ByteMap ℕ
  states : List SharedState

namespace Registry

def empty : Registry := ⟨∅, []⟩

/-- The state that a handle refers to. -/
def state (r : Registry) (id : ℕ) : StoreState := (r.states[id]?.map (·.state)).getD initial

def log (r : Registry) (id : ℕ) : List Mutation := (r.states[id]?.map (·.log)).getD []

def modify (id : ℕ) (f : SharedState → SharedState) (r : Registry) : Registry :=
  { r with states := r.states.modify id f }

end Registry

inductive OpenSite where
  | state | handle
  deriving DecidableEq, Repr

/-- The state under a name, made when the name is new. -/
def findState (room : Bool) (name : Bytes) (r : Registry) : Option (ℕ × Registry) :=
  match r.stores[name]? with
  | some id => some (id, r)
  | none =>
      if room then
        some (r.states.length,
          ⟨r.stores.insert name r.states.length, r.states ++ [⟨name, initial, 0, 0, []⟩]⟩)
      else none

def addHandle (id : ℕ) (r : Registry) : Registry :=
  r.modify id fun s => { s with handleCount := fetchAdd s.handleCount }

/-- `esdb_store_close`. -/
def storeClose (id : ℕ) (r : Registry) : Registry :=
  r.modify id fun s => { s with handleCount := fetchSub s.handleCount }

/-- `esdb_store_open`. The state stays in the registry when there is no room for the
handle. -/
def storeOpen (alloc : OpenSite → Bool) (name : Bytes) (r : Registry) :
    Except Failure ℕ × Registry :=
  if !validName name then
    (.error (storeFail .invalidArgument .store "Store name and out_store are required"), r)
  else
    match findState (alloc .state) name r with
    | none => (.error (storeFail .outOfMemory .store "failed to allocate named Store"), r)
    | some (id, r) =>
        if alloc .handle then (.ok id, addHandle id r)
        else
          (.error (storeFail .outOfMemory .store "failed to allocate Store handle"),
            storeClose id (addHandle id r))

/-- `esdb_store_destroy`. -/
def storeDestroy (name : Bytes) (r : Registry) : Except Failure Unit × Registry :=
  if !validName name then
    (.error (storeFail .invalidArgument .store "valid Store name is required"), r)
  else
    match r.stores[name]? with
    | none => (.error (storeFail .notFound .store "named Store does not exist"), r)
    | some id =>
        match r.states[id]? with
        | none => (.error (storeFail .notFound .store "named Store does not exist"), r)
        | some s =>
            if s.handleCount ≠ 0 ∨ s.subscriptionCount ≠ 0 then
              (.error (storeFail .busy .store
                "named Store still has active handles or subscriptions"), r)
            else (.ok (), { r with stores := r.stores.erase name })

/-- The count that `esdb_store_subscribe` takes. -/
def storeSubscribed (id : ℕ) (r : Registry) : Registry :=
  r.modify id fun s => { s with subscriptionCount := fetchAdd s.subscriptionCount }

/-- `esdb_store_subscription_destroy`. -/
def storeUnsubscribed (id : ℕ) (r : Registry) : Registry :=
  r.modify id fun s => { s with subscriptionCount := fetchSub s.subscriptionCount }

/-- A mutation through a handle. -/
def storeCall (id : ℕ) (c : Call) (r : Registry) : Except Failure Removal × Registry :=
  let reply := c.exec (r.state id)
  (reply.1, r.modify id fun s =>
    { s with state := reply.2, log := s.log ++ c.mutations reply.1 })

/-- A mutation of the adapter's: it opens the Store, makes the call and closes the Store. -/
def adapterCall (alloc : OpenSite → Bool) (name : Bytes) (c : Call) (r : Registry) :
    Except Failure Removal × Registry :=
  match storeOpen alloc name r with
  | (.error f, r) => (.error f, r)
  | (.ok id, r) =>
      let reply := storeCall id c r
      (reply.1, storeClose id reply.2)

/-- What the programs of the process do with Stores, besides reading them. -/
inductive Traffic where
  | adapterCall (alloc : OpenSite → Bool) (name : Bytes) (c : Call)
  | «open» (alloc : OpenSite → Bool) (name : Bytes)
  | close (id : ℕ)
  | call (id : ℕ) (c : Call)
  | subscribed (id : ℕ)
  | unsubscribed (id : ℕ)
  | destroy (name : Bytes)

def Traffic.step (t : Traffic) (r : Registry) : Registry :=
  match t with
  | .adapterCall alloc name c => (MemoryStore.adapterCall alloc name c r).2
  | .open alloc name => (storeOpen alloc name r).2
  | .close id => storeClose id r
  | .call id c => (storeCall id c r).2
  | .subscribed id => storeSubscribed id r
  | .unsubscribed id => storeUnsubscribed id r
  | .destroy name => (storeDestroy name r).2

/-! ## What every step keeps -/

namespace Registry

/-- The states are Stores after their mutations, and names refer to states. -/
structure Sound (r : Registry) : Prop where
  states : ∀ s ∈ r.states, Represents s.log s.state
  names : ∀ (name : Bytes) (id : ℕ), r.stores[name]? = some id → id < r.states.length

/-- The same states are there, with at least the mutations they had. -/
structure Grows (r r' : Registry) : Prop where
  length : r.states.length ≤ r'.states.length
  log : ∀ id < r.states.length, r.log id <+: r'.log id

theorem Grows.refl (r : Registry) : Grows r r := ⟨Nat.le_refl _, fun _ _ => List.prefix_rfl⟩

theorem Grows.trans {a b c : Registry} (h₁ : Grows a b) (h₂ : Grows b c) : Grows a c :=
  ⟨Nat.le_trans h₁.length h₂.length, fun id hid =>
    (h₁.log id hid).trans (h₂.log id (Nat.lt_of_lt_of_le hid h₁.length))⟩

/-- The step keeps the registry sound and takes no mutation back. -/
structure Keeps (r r' : Registry) : Prop where
  sound : r.Sound → r'.Sound
  grows : Grows r r'

theorem Keeps.refl (r : Registry) : Keeps r r := ⟨id, .refl r⟩

theorem Keeps.trans {a b c : Registry} (h₁ : Keeps a b) (h₂ : Keeps b c) : Keeps a c :=
  ⟨fun h => h₂.sound (h₁.sound h), h₁.grows.trans h₂.grows⟩

theorem sound_empty : empty.Sound := by
  constructor
  · intro s hs
    cases hs
  · intro name id h
    simp [empty] at h

theorem Sound.represents {r : Registry} (h : r.Sound) (id : ℕ) :
    Represents (r.log id) (r.state id) := by
  unfold log state
  cases hs : r.states[id]? with
  | none => exact represents_initial
  | some s => exact h.states s (List.mem_of_getElem? hs)

theorem log_modify {r : Registry} {id : ℕ} {f : SharedState → SharedState}
    (hlog : ∀ s, r.states[id]? = some s → s.log <+: (f s).log) (i : ℕ) :
    r.log i <+: (r.modify id f).log i := by
  unfold log modify
  simp only [List.getElem?_modify]
  by_cases hi : id = i
  · subst hi
    cases hs : r.states[id]? with
    | none => exact List.prefix_rfl
    | some s => simpa using hlog s hs
  · simp [hi]

/-- Changing one state, along mutations of it. -/
theorem Keeps.modify {r : Registry} {id : ℕ} {f : SharedState → SharedState}
    (h : ∀ s, r.states[id]? = some s → s.log <+: (f s).log ∧
      (Represents s.log s.state → Represents (f s).log (f s).state)) : Keeps r (r.modify id f) := by
  refine ⟨fun hr => ⟨fun s hs => ?_, fun name i hi => ?_⟩, ⟨?_, fun i _ => ?_⟩⟩
  · obtain ⟨i, hget⟩ := List.mem_iff_getElem?.mp hs
    simp only [Registry.modify, List.getElem?_modify] at hget
    obtain ⟨s, hsome, rfl⟩ := Option.map_eq_some_iff.mp hget
    have hrep := hr.states s (List.mem_of_getElem? hsome)
    split_ifs with heq
    · subst heq
      exact (h s hsome).2 hrep
    · exact hrep
  · simpa [Registry.modify] using hr.names name i hi
  · simp [Registry.modify]
  · exact log_modify (fun s hs => (h s hs).1) i

/-- Counting handles or subscriptions. -/
theorem Keeps.count {r : Registry} {id : ℕ} {f : SharedState → SharedState}
    (h : ∀ s, (f s).log = s.log ∧ (f s).state = s.state) : Keeps r (r.modify id f) :=
  .modify fun s _ => by
    rw [(h s).1, (h s).2]
    exact ⟨List.prefix_rfl, fun hr => hr⟩

theorem Keeps.create {r : Registry} (name : Bytes) :
    Keeps r ⟨r.stores.insert name r.states.length, r.states ++ [⟨name, initial, 0, 0, []⟩]⟩ := by
  refine ⟨fun hr => ⟨fun s hs => ?_, fun name' id h => ?_⟩, ⟨?_, fun id hid => ?_⟩⟩
  · rcases List.mem_append.mp hs with hs | hs
    · exact hr.states s hs
    · obtain rfl := List.mem_singleton.mp hs
      exact represents_initial
  · simp only [ByteMap.get_insert, List.length_append, List.length_singleton] at h ⊢
    split_ifs at h
    · cases h
      omega
    · have := hr.names name' id h
      omega
  · simp
  · simp only [log, List.getElem?_append_left hid]
    exact List.prefix_rfl

theorem Keeps.erase {r : Registry} (name : Bytes) :
    Keeps r { r with stores := r.stores.erase name } := by
  refine ⟨fun hr => ⟨hr.states, fun name' id h => ?_⟩, ⟨Nat.le_refl _, fun _ _ => List.prefix_rfl⟩⟩
  simp only [ByteMap.get_erase] at h
  split_ifs at h
  exact hr.names name' id h

end Registry

theorem findState_some {room : Bool} {name : Bytes} {r r' : Registry} {id : ℕ}
    (h : findState room name r = some (id, r')) :
    r.stores[name]? = some id ∧ r' = r ∨
      r.stores[name]? = none ∧ id = r.states.length ∧
        r' = ⟨r.stores.insert name id, r.states ++ [⟨name, initial, 0, 0, []⟩]⟩ := by
  unfold findState at h
  cases hn : r.stores[name]? with
  | some i =>
      simp only [hn] at h
      cases h
      exact .inl ⟨rfl, rfl⟩
  | none =>
      simp only [hn] at h
      split_ifs at h
      cases h
      exact .inr ⟨rfl, rfl, rfl⟩

open Registry in
theorem keeps_findState {room : Bool} {name : Bytes} {r r' : Registry} {id : ℕ}
    (h : findState room name r = some (id, r')) : Keeps r r' := by
  obtain ⟨-, rfl⟩ | ⟨-, rfl, rfl⟩ := findState_some h
  · exact .refl r'
  · exact .create name

open Registry in
theorem keeps_storeOpen (alloc : OpenSite → Bool) (name : Bytes) (r : Registry) :
    Keeps r (storeOpen alloc name r).2 := by
  unfold storeOpen
  by_cases hname : (!validName name) = true
  · rw [if_pos hname]
    exact .refl r
  rw [if_neg hname]
  cases hf : findState (alloc .state) name r with
  | none => exact .refl r
  | some found =>
      have hfound := keeps_findState hf
      have hadd : Keeps r (addHandle found.1 found.2) := hfound.trans (.count fun _ => ⟨rfl, rfl⟩)
      dsimp only
      split_ifs
      · exact hadd
      · exact hadd.trans (.count fun _ => ⟨rfl, rfl⟩)

/-- Counting does nothing to the Stores. -/
theorem Registry.state_modify {f : SharedState → SharedState} (hf : ∀ s, (f s).state = s.state)
    (id i : ℕ) (r : Registry) : (r.modify id f).state i = r.state i := by
  simp only [Registry.state, Registry.modify, List.getElem?_modify]
  cases r.states[i]? with
  | none => rfl
  | some s => by_cases hi : id = i <;> simp [hi, hf]

@[simp] theorem state_addHandle (id i : ℕ) (r : Registry) :
    (addHandle id r).state i = r.state i := by
  unfold addHandle
  exact Registry.state_modify (by intro s; rfl) id i r

/-- A handle is on the state that the name has, with nothing done to it. -/
theorem storeOpen_ok {alloc : OpenSite → Bool} {name : Bytes} {r r' : Registry} {id : ℕ}
    (h : storeOpen alloc name r = (.ok id, r')) :
    r'.stores[name]? = some id ∧
      (r.stores[name]? = some id ∧ r'.state id = r.state id ∨
        r.stores[name]? = none ∧ r'.state id = initial) := by
  unfold storeOpen at h
  by_cases hname : (!validName name) = true
  · rw [if_pos hname] at h
    cases h
  rw [if_neg hname] at h
  cases hf : findState (alloc .state) name r with
  | none =>
      simp only [hf] at h
      cases h
  | some found =>
      obtain ⟨i, r₁⟩ := found
      simp only [hf] at h
      split_ifs at h
      · cases h
        obtain ⟨hn, rfl⟩ | ⟨hn, rfl, rfl⟩ := findState_some hf
        · exact ⟨hn, .inl ⟨hn, state_addHandle ..⟩⟩
        · refine ⟨by simp [addHandle, Registry.modify], .inr ⟨hn, ?_⟩⟩
          rw [state_addHandle]
          simp [Registry.state]
      · cases h

@[simp] theorem stores_storeClose (id : ℕ) (r : Registry) : (storeClose id r).stores = r.stores := rfl

@[simp] theorem log_storeClose (id i : ℕ) (r : Registry) : (storeClose id r).log i = r.log i := by
  simp only [Registry.log, storeClose, Registry.modify, List.getElem?_modify]
  cases r.states[i]? with
  | none => rfl
  | some s => by_cases hi : id = i <;> simp [hi]

open Registry in
theorem keeps_storeClose (id : ℕ) (r : Registry) : Keeps r (storeClose id r) :=
  .count fun _ => ⟨rfl, rfl⟩

open Registry in
theorem keeps_storeDestroy (name : Bytes) (r : Registry) : Keeps r (storeDestroy name r).2 := by
  unfold storeDestroy
  by_cases hname : (!validName name) = true
  · rw [if_pos hname]
    exact .refl r
  rw [if_neg hname]
  cases hn : r.stores[name]? with
  | none => exact .refl r
  | some id =>
      dsimp only
      cases r.states[id]? with
      | none => exact .refl r
      | some s =>
          dsimp only
          split_ifs
          · exact .refl r
          · exact .erase name

open Registry in
theorem keeps_storeCall (id : ℕ) (c : Call) (r : Registry) : Keeps r (storeCall id c r).2 := by
  apply Keeps.modify
  intro s hs
  have hstate : r.state id = s.state := by simp [Registry.state, hs]
  rw [hstate]
  exact ⟨List.prefix_append _ _, fun hr => hr.exec c⟩

open Registry in
theorem keeps_adapterCall (alloc : OpenSite → Bool) (name : Bytes) (c : Call) (r : Registry) :
    Keeps r (adapterCall alloc name c r).2 := by
  unfold adapterCall
  have hopen := keeps_storeOpen alloc name r
  split
  · next f r₁ heq =>
      rw [heq] at hopen
      exact hopen
  · next id r₁ heq =>
      rw [heq] at hopen
      exact (hopen.trans (keeps_storeCall id c r₁)).trans (keeps_storeClose id _)

open Registry in
theorem Traffic.keeps (t : Traffic) (r : Registry) : Keeps r (t.step r) := by
  cases t with
  | adapterCall alloc name c => exact keeps_adapterCall alloc name c r
  | «open» alloc name => exact keeps_storeOpen alloc name r
  | close id => exact keeps_storeClose id r
  | call id c => exact keeps_storeCall id c r
  | subscribed id => exact .count fun _ => ⟨rfl, rfl⟩
  | unsubscribed id => exact .count fun _ => ⟨rfl, rfl⟩
  | destroy name => exact keeps_storeDestroy name r

end Esdb.MemoryStore
