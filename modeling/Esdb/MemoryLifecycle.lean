import Esdb.MemoryRegistry
import Mathlib.Data.List.Perm.Basic

/-!
# Handles and subscriptions over the registry

A handle and a subscription are references to a shared state, and the state counts them
in 32 bits. Their owners give back what they hold, once; a call through a reference that
is not held any more is outside of the interface and does nothing here. Which of the
Stores of one name a reference was made for is written beside it, where no call reads it.

The counts are the numbers of the references as long as these fit. After that a count
starts again at zero, and the registry gives up a Store that is in use.
-/
namespace Esdb.MemoryStore

/-- An `esdb_store` or an `esdb_store_subscription`. Only the state is in the source. -/
structure Holder where
  id : ℕ
  name : Bytes
  incarnation : ℕ
  deriving DecidableEq, Repr

/-- The registry with the handles and subscriptions in use, in the order they were made,
and how often each name was destroyed. -/
structure Process where
  registry : Registry
  handles : List Holder
  subscriptions : List Holder
  destroyed : Bytes → ℕ

inductive ProcessCall where
  | «open» (alloc : OpenSite → Bool) (name : Bytes)
  | close (handle : ℕ)
  | call (handle : ℕ) (c : Call)
  | subscribe (handle : ℕ) (room : Bool) (after : ℕ)
  | unsubscribe (subscription : ℕ)
  | destroy (name : Bytes)

namespace Process

def start : Process := ⟨.empty, [], [], fun _ => 0⟩

def «open» (alloc : OpenSite → Bool) (name : Bytes) (p : Process) : Process :=
  match storeOpen alloc name p.registry with
  | (.error _, r) => { p with registry := r }
  | (.ok id, r) =>
      { p with registry := r, handles := p.handles ++ [⟨id, name, p.destroyed name⟩] }

def subscribe (h : Holder) (room : Bool) (after : ℕ) (p : Process) : Process :=
  match MemoryStore.subscribe room after (p.registry.state h.id) with
  | .error _ => p
  | .ok _ =>
      { p with
        registry := storeSubscribed h.id p.registry, subscriptions := p.subscriptions ++ [h] }

def destroy (name : Bytes) (p : Process) : Process :=
  match storeDestroy name p.registry with
  | (.error _, r) => { p with registry := r }
  | (.ok _, r) =>
      { p with
        registry := r
        destroyed := fun n => if n = name then p.destroyed n + 1 else p.destroyed n }

end Process

def ProcessCall.step (call : ProcessCall) (p : Process) : Process :=
  match call with
  | .open alloc name => p.open alloc name
  | .close i =>
      match p.handles[i]? with
      | none => p
      | some h =>
          { p with registry := storeClose h.id p.registry, handles := p.handles.eraseIdx i }
  | .call i c =>
      match p.handles[i]? with
      | none => p
      | some h => { p with registry := (storeCall h.id c p.registry).2 }
  | .subscribe i room after =>
      match p.handles[i]? with
      | none => p
      | some h => p.subscribe h room after
  | .unsubscribe i =>
      match p.subscriptions[i]? with
      | none => p
      | some h =>
          { p with
            registry := storeUnsubscribed h.id p.registry
            subscriptions := p.subscriptions.eraseIdx i }
  | .destroy name => p.destroy name

def Process.run (calls : List ProcessCall) (p : Process) : Process :=
  calls.foldl (fun p call => call.step p) p

/-- Every call of the run is one of these in the state it finds. -/
def Throughout (allowed : Process → ProcessCall → Prop) : List ProcessCall → Process → Prop
  | [], _ => True
  | call :: rest, p => allowed p call ∧ Throughout allowed rest (call.step p)

namespace Process

def liveHandles (name : Bytes) (p : Process) : ℕ := p.handles.countP fun h => h.name == name

def liveSubscriptions (name : Bytes) (p : Process) : ℕ :=
  p.subscriptions.countP fun h => h.name == name

/-- One more reference to the Store can be counted. -/
def Room (p : Process) : ProcessCall → Prop
  | .open alloc name => alloc .handle = true → p.liveHandles name + 1 < 2 ^ 32
  | .subscribe i room _ =>
      ∀ h, p.handles[i]? = some h → room = true → p.liveSubscriptions h.name + 1 < 2 ^ 32
  | _ => True

/-- The call gives no handle on a Store of that name. -/
def Unopened (name : Bytes) (p : Process) : ProcessCall → Prop
  | .open alloc n => n = name → ∀ id, (storeOpen alloc n p.registry).1 ≠ .ok id
  | _ => True

end Process

/-! ## The counts -/

theorem fetchAdd_of_lt {n : ℕ} (h : n + 1 < 2 ^ 32) : fetchAdd n = n + 1 := Nat.mod_eq_of_lt h

theorem fetchSub_succ {n : ℕ} (h : n < 2 ^ 32) : fetchSub (n + 1) = n := by
  unfold fetchSub
  omega

theorem fetchSub_fetchAdd {n : ℕ} (h : n < 2 ^ 32) : fetchSub (fetchAdd n) = n := by
  unfold fetchSub fetchAdd
  omega

/-- How many of the references are to one state. -/
def referring (id : ℕ) (holders : List Holder) : ℕ := holders.countP fun h => h.id == id

@[simp] theorem referring_append (id : ℕ) (holders : List Holder) (h : Holder) :
    referring id (holders ++ [h]) = referring id holders + if h.id = id then 1 else 0 := by
  simp [referring, List.countP_append, List.countP_singleton]

theorem referring_eraseIdx (id : ℕ) {holders : List Holder} {i : ℕ} {h : Holder}
    (hi : holders[i]? = some h) :
    referring id holders = referring id (holders.eraseIdx i) + if h.id = id then 1 else 0 := by
  obtain ⟨hlt, rfl⟩ := List.getElem?_eq_some_iff.mp hi
  have hperm := (List.getElem_cons_eraseIdx_perm hlt).countP_eq fun h => h.id == id
  rw [referring, ← hperm, List.countP_cons]
  simp [referring]

/-- The counts of a state are right, and fit. -/
structure Counted (handles subscriptions : List Holder) (id : ℕ) (s : SharedState) : Prop where
  handles : s.handleCount = referring id handles
  subscriptions : s.subscriptionCount = referring id subscriptions
  handles_lt : s.handleCount < 2 ^ 32
  subscriptions_lt : s.subscriptionCount < 2 ^ 32

/-! ## What every call keeps -/

namespace Process

/-- The reference is to the state that its name has now. -/
def Holds (p : Process) (h : Holder) : Prop :=
  p.registry.stores[h.name]? = some h.id ∧ h.incarnation = p.destroyed h.name

/-- A new name takes no other reference over. -/
theorem Holds.insert {p : Process} {h : Holder} {name : Bytes} {id : ℕ} {states : List SharedState}
    (hold : p.Holds h) (hn : p.registry.stores[name]? = none) :
    ({ p with registry := ⟨p.registry.stores.insert name id, states⟩ } : Process).Holds h := by
  refine ⟨?_, hold.2⟩
  have hne : name ≠ h.name := by
    rintro rfl
    rw [hold.1] at hn
    cases hn
  simp only [ByteMap.get_insert, if_neg hne]
  exact hold.1

structure Consistent (p : Process) : Prop where
  handles : ∀ h ∈ p.handles, p.Holds h
  subscriptions : ∀ h ∈ p.subscriptions, p.Holds h
  named : ∀ (name : Bytes) (id : ℕ), p.registry.stores[name]? = some id →
    validName name = true ∧ ∃ s, p.registry.states[id]? = some s ∧ s.name = name
  counted : ∀ (id : ℕ) (s : SharedState), p.registry.states[id]? = some s →
    Counted p.handles p.subscriptions id s

theorem consistent_start : start.Consistent := by
  refine ⟨fun h hh => ?_, fun h hh => ?_, fun name id h => ?_, fun id s h => ?_⟩
  · cases hh
  · cases hh
  · simp [start, Registry.empty] at h
  · simp [start, Registry.empty] at h

namespace Consistent

variable {p : Process}

/-- Two names have two states. -/
theorem injective (hp : p.Consistent) {a b : Bytes} {id : ℕ}
    (ha : p.registry.stores[a]? = some id) (hb : p.registry.stores[b]? = some id) : a = b := by
  obtain ⟨-, s, hs, rfl⟩ := hp.named a id ha
  obtain ⟨-, s', hs', rfl⟩ := hp.named b id hb
  rw [hs] at hs'
  cases hs'
  rfl

theorem lt_length (hp : p.Consistent) {name : Bytes} {id : ℕ}
    (h : p.registry.stores[name]? = some id) : id < p.registry.states.length := by
  obtain ⟨-, s, hs, -⟩ := hp.named name id h
  exact (List.getElem?_eq_some_iff.mp hs).choose

/-- References counted by their state and by their name are the same. -/
theorem countP_name (hp : p.Consistent) {holders : List Holder} (hh : ∀ h ∈ holders, p.Holds h)
    {name : Bytes} {id : ℕ} (h : p.registry.stores[name]? = some id) :
    holders.countP (fun x => x.name == name) = referring id holders := by
  unfold referring
  apply List.countP_congr
  intro x hx
  have hold := (hh x hx).1
  simp only [beq_iff_eq]
  constructor
  · rintro rfl
    rw [hold] at h
    exact Option.some.inj h
  · rintro rfl
    exact hp.injective hold h

theorem liveHandles_eq (hp : p.Consistent) {name : Bytes} {id : ℕ}
    (h : p.registry.stores[name]? = some id) : p.liveHandles name = referring id p.handles :=
  hp.countP_name hp.handles h

theorem liveSubscriptions_eq (hp : p.Consistent) {name : Bytes} {id : ℕ}
    (h : p.registry.stores[name]? = some id) :
    p.liveSubscriptions name = referring id p.subscriptions :=
  hp.countP_name hp.subscriptions h

/-- Changing one state and the references to it. -/
theorem modify (hp : p.Consistent) {id : ℕ} {f : SharedState → SharedState}
    {handles subscriptions : List Holder} (hname : ∀ s, (f s).name = s.name)
    (hhandles : ∀ h ∈ handles, p.Holds h) (hsubs : ∀ h ∈ subscriptions, p.Holds h)
    (hcount : ∀ s, Counted p.handles p.subscriptions id s → Counted handles subscriptions id (f s))
    (hother : ∀ i, i ≠ id → referring i handles = referring i p.handles ∧
      referring i subscriptions = referring i p.subscriptions) :
    ({ p with registry := p.registry.modify id f, handles := handles,
              subscriptions := subscriptions } : Process).Consistent := by
  refine ⟨hhandles, hsubs, fun name i hi => ?_, fun i s hi => ?_⟩
  · obtain ⟨hvalid, s, hs, hsname⟩ := hp.named name i hi
    refine ⟨hvalid, if id = i then f s else s, ?_, ?_⟩
    · simp [Registry.modify, List.getElem?_modify, hs]
    · split_ifs
      · exact (hname s).trans hsname
      · exact hsname
  · simp only [Registry.modify, List.getElem?_modify] at hi
    obtain ⟨s₀, hs₀, rfl⟩ := Option.map_eq_some_iff.mp hi
    have hc := hp.counted i s₀ hs₀
    by_cases heq : id = i
    · subst heq
      rw [if_pos rfl]
      exact hcount s₀ hc
    · obtain ⟨h₁, h₂⟩ := hother i fun h => heq h.symm
      rw [if_neg heq]
      exact ⟨hc.handles.trans h₁.symm, hc.subscriptions.trans h₂.symm, hc.handles_lt,
        hc.subscriptions_lt⟩

/-- No reference is to a state that has not been made yet. -/
theorem referring_length (hp : p.Consistent) {holders : List Holder}
    (hh : ∀ h ∈ holders, p.Holds h) : referring p.registry.states.length holders = 0 := by
  unfold referring
  rw [List.countP_eq_zero]
  intro h hmem
  have := hp.lt_length (hh h hmem).1
  simp only [beq_iff_eq]
  omega

theorem findState (hp : p.Consistent) {room : Bool} {name : Bytes} {id : ℕ} {r : Registry}
    (hname : validName name = true) (h : findState room name p.registry = some (id, r)) :
    ({ p with registry := r } : Process).Consistent ∧ r.stores[name]? = some id := by
  obtain ⟨hn, rfl⟩ | ⟨hn, rfl, rfl⟩ := findState_some h
  · exact ⟨hp, hn⟩
  refine ⟨⟨fun h hh => ?_, fun h hh => ?_, fun name' i hi => ?_, fun i s hi => ?_⟩, by simp⟩
  · exact Holds.insert (hp.handles h hh) hn
  · exact Holds.insert (hp.subscriptions h hh) hn
  · simp only [ByteMap.get_insert] at hi
    split_ifs at hi with heq
    · cases hi
      exact ⟨heq ▸ hname, ⟨name, initial, 0, 0, []⟩, by simp, heq⟩
    · obtain ⟨hvalid, s, hs, hsname⟩ := hp.named name' i hi
      refine ⟨hvalid, s, ?_, hsname⟩
      rw [List.getElem?_append_left (hp.lt_length hi)]
      exact hs
  · rcases Nat.lt_or_ge i p.registry.states.length with hlt | hge
    · rw [List.getElem?_append_left hlt] at hi
      exact hp.counted i s hi
    · rw [List.getElem?_append_right hge, List.getElem?_singleton] at hi
      split_ifs at hi with hzero
      obtain rfl : i = p.registry.states.length := by omega
      cases hi
      exact ⟨(hp.referring_length hp.handles).symm, (hp.referring_length hp.subscriptions).symm,
        Nat.two_pow_pos 32, Nat.two_pow_pos 32⟩
theorem addHandle (hp : p.Consistent) {name : Bytes} {id : ℕ}
    (hn : p.registry.stores[name]? = some id) (hroom : p.liveHandles name + 1 < 2 ^ 32) :
    ({ p with registry := addHandle id p.registry,
              handles := p.handles ++ [⟨id, name, p.destroyed name⟩] } : Process).Consistent := by
  rw [hp.liveHandles_eq hn] at hroom
  refine hp.modify (fun _ => rfl) (fun h hh => ?_) hp.subscriptions (fun s hs => ?_) fun i hi => ?_
  · rcases List.mem_append.mp hh with hh | hh
    · exact hp.handles h hh
    · obtain rfl := List.mem_singleton.mp hh
      exact ⟨hn, rfl⟩
  · have hadd : fetchAdd s.handleCount = referring id p.handles + 1 := by
      rw [hs.handles]
      exact fetchAdd_of_lt hroom
    exact ⟨by simp [hadd], hs.subscriptions, by simpa [hadd] using hroom, hs.subscriptions_lt⟩
  · simp [Ne.symm hi]

theorem storeClose (hp : p.Consistent) {i : ℕ} {h : Holder} (hi : p.handles[i]? = some h) :
    ({ p with registry := storeClose h.id p.registry,
              handles := p.handles.eraseIdx i } : Process).Consistent := by
  refine hp.modify (fun _ => rfl) (fun x hx => hp.handles x (List.mem_of_mem_eraseIdx hx))
    hp.subscriptions (fun s hs => ?_) fun j hj => ⟨?_, rfl⟩
  · have herase := referring_eraseIdx h.id hi
    rw [if_pos rfl, ← hs.handles] at herase
    have hlt := hs.handles_lt
    have hsub : fetchSub s.handleCount = referring h.id (p.handles.eraseIdx i) := by
      rw [herase]
      exact fetchSub_succ (by omega)
    exact ⟨hsub, hs.subscriptions, by dsimp only; omega, hs.subscriptions_lt⟩
  · have herase := referring_eraseIdx j hi
    rw [if_neg (Ne.symm hj)] at herase
    omega

theorem storeSubscribed (hp : p.Consistent) {h : Holder} (hh : h ∈ p.handles)
    (hroom : p.liveSubscriptions h.name + 1 < 2 ^ 32) :
    ({ p with registry := storeSubscribed h.id p.registry,
              subscriptions := p.subscriptions ++ [h] } : Process).Consistent := by
  have hold := hp.handles h hh
  rw [hp.liveSubscriptions_eq hold.1] at hroom
  refine hp.modify (fun _ => rfl) hp.handles (fun x hx => ?_) (fun s hs => ?_) fun i hi => ?_
  · rcases List.mem_append.mp hx with hx | hx
    · exact hp.subscriptions x hx
    · obtain rfl := List.mem_singleton.mp hx
      exact hold
  · have hadd : fetchAdd s.subscriptionCount = referring h.id p.subscriptions + 1 := by
      rw [hs.subscriptions]
      exact fetchAdd_of_lt hroom
    exact ⟨hs.handles, by simp [hadd], hs.handles_lt, by simpa [hadd] using hroom⟩
  · simp [Ne.symm hi]

theorem storeUnsubscribed (hp : p.Consistent) {i : ℕ} {h : Holder}
    (hi : p.subscriptions[i]? = some h) :
    ({ p with registry := storeUnsubscribed h.id p.registry,
              subscriptions := p.subscriptions.eraseIdx i } : Process).Consistent := by
  refine hp.modify (fun _ => rfl) hp.handles
    (fun x hx => hp.subscriptions x (List.mem_of_mem_eraseIdx hx))
    (fun s hs => ?_) fun j hj => ⟨rfl, ?_⟩
  · have herase := referring_eraseIdx h.id hi
    rw [if_pos rfl, ← hs.subscriptions] at herase
    have hlt := hs.subscriptions_lt
    have hsub : fetchSub s.subscriptionCount =
        referring h.id (p.subscriptions.eraseIdx i) := by
      rw [herase]
      exact fetchSub_succ (by omega)
    exact ⟨hs.handles, hsub, hs.handles_lt, by dsimp only; omega⟩
  · have herase := referring_eraseIdx j hi
    rw [if_neg (Ne.symm hj)] at herase
    omega

theorem storeCall (hp : p.Consistent) (id : ℕ) (c : Call) :
    ({ p with registry := (storeCall id c p.registry).2 } : Process).Consistent :=
  hp.modify (fun _ => rfl) hp.handles hp.subscriptions
    (fun _ hs => ⟨hs.handles, hs.subscriptions, hs.handles_lt, hs.subscriptions_lt⟩)
    fun _ _ => ⟨rfl, rfl⟩

end Consistent

/-- A handle that finds no room is counted and counted back. -/
theorem storeClose_addHandle {r : Registry} {id : ℕ}
    (h : ∀ s, r.states[id]? = some s → s.handleCount < 2 ^ 32) :
    storeClose id (addHandle id r) = r := by
  have hstates : (storeClose id (addHandle id r)).states = r.states := by
    apply List.ext_getElem?
    intro i
    simp only [storeClose, addHandle, Registry.modify, List.getElem?_modify]
    by_cases hi : id = i
    · subst hi
      cases hs : r.states[id]? with
      | none => rfl
      | some s => simp [fetchSub_fetchAdd (h s hs)]
    · simp [hi]
  exact congrArg (Registry.mk r.stores) hstates

namespace Consistent

variable {p : Process}

theorem «open» (hp : p.Consistent) {alloc : OpenSite → Bool} {name : Bytes}
    (hroom : p.Room (.open alloc name)) : (p.open alloc name).Consistent := by
  unfold Process.open storeOpen
  by_cases hname : (!validName name) = true
  · rw [if_pos hname]
    exact hp
  rw [if_neg hname]
  cases hf : MemoryStore.findState (alloc .state) name p.registry with
  | none => exact hp
  | some found =>
      obtain ⟨id, r⟩ := found
      obtain ⟨hfound, hn⟩ := hp.findState (by simpa using hname) hf
      by_cases hhandle : alloc .handle = true
      · simp only [hhandle, if_true]
        exact hfound.addHandle hn (hroom hhandle)
      · simp only [hhandle]
        rw [if_neg (by decide), storeClose_addHandle fun s hs => (hfound.counted id s hs).handles_lt]
        exact hfound

theorem subscribe (hp : p.Consistent) {h : Holder} {room : Bool} {after : ℕ} (hh : h ∈ p.handles)
    (hroom : room = true → p.liveSubscriptions h.name + 1 < 2 ^ 32) :
    (p.subscribe h room after).Consistent := by
  unfold Process.subscribe
  cases hs : MemoryStore.subscribe room after (p.registry.state h.id) with
  | error f => exact hp
  | ok subscription =>
      refine hp.storeSubscribed hh (hroom ?_)
      simp only [MemoryStore.subscribe] at hs
      split_ifs at hs with _ _ _ hno
      simpa using hno

/-- `esdb_store_destroy` gives up the names that nobody refers to. -/
theorem storeDestroy_eq (hp : p.Consistent) (name : Bytes) :
    (∃ f, storeDestroy name p.registry = (.error f, p.registry)) ∧
        ¬ (p.registry.stores[name]?.isSome = true ∧ p.liveHandles name = 0 ∧
          p.liveSubscriptions name = 0) ∨
      storeDestroy name p.registry =
          (.ok (), { p.registry with stores := p.registry.stores.erase name }) ∧
        p.registry.stores[name]?.isSome = true ∧ p.liveHandles name = 0 ∧
          p.liveSubscriptions name = 0 := by
  unfold storeDestroy
  cases hn : p.registry.stores[name]? with
  | none =>
      refine .inl ⟨?_, by simp⟩
      split_ifs
      · exact ⟨_, rfl⟩
      · exact ⟨_, rfl⟩
  | some id =>
      obtain ⟨hvalid, s, hs, -⟩ := hp.named name id hn
      have hc := hp.counted id s hs
      rw [hvalid, if_neg (by decide)]
      simp only [hs]
      rw [hp.liveHandles_eq hn, hp.liveSubscriptions_eq hn, ← hc.handles, ← hc.subscriptions]
      by_cases hlive : s.handleCount ≠ 0 ∨ s.subscriptionCount ≠ 0
      · rw [if_pos hlive]
        exact .inl ⟨⟨_, rfl⟩, by simp only [Option.isSome_some, true_and]; omega⟩
      · rw [if_neg hlive]
        exact .inr ⟨rfl, rfl, by omega, by omega⟩

/-- Giving up a name that no reference has. -/
theorem erase (hp : p.Consistent) {name : Bytes} (hhandles : p.liveHandles name = 0)
    (hsubs : p.liveSubscriptions name = 0) (destroyed : Bytes → ℕ)
    (hd : ∀ n, n ≠ name → destroyed n = p.destroyed n) :
    (⟨{ p.registry with stores := p.registry.stores.erase name }, p.handles, p.subscriptions,
      destroyed⟩ : Process).Consistent := by
  have hkeep : ∀ h, p.Holds h → h.name ≠ name →
      (⟨{ p.registry with stores := p.registry.stores.erase name }, p.handles, p.subscriptions,
        destroyed⟩ : Process).Holds h := by
    rintro h ⟨hold, hinc⟩ hne
    refine ⟨?_, hinc.trans (hd h.name hne).symm⟩
    simp only [ByteMap.get_erase, if_neg (Ne.symm hne)]
    exact hold
  have hlive : ∀ {holders : List Holder}, holders.countP (fun h => h.name == name) = 0 →
      ∀ h ∈ holders, h.name ≠ name := by
    intro holders hz h hh
    simpa using List.countP_eq_zero.mp hz h hh
  refine ⟨fun h hh => hkeep h (hp.handles h hh) (hlive hhandles h hh),
    fun h hh => hkeep h (hp.subscriptions h hh) (hlive hsubs h hh), fun n id hn => ?_, hp.counted⟩
  simp only [ByteMap.get_erase] at hn
  split_ifs at hn
  exact hp.named n id hn

theorem destroy (hp : p.Consistent) (name : Bytes) : (p.destroy name).Consistent := by
  unfold Process.destroy
  obtain ⟨⟨f, heq⟩, -⟩ | ⟨heq, -, hhandles, hsubs⟩ := hp.storeDestroy_eq name
  · rw [heq]
    exact hp
  · rw [heq]
    exact hp.erase hhandles hsubs _ fun n hn => if_neg hn

theorem step (hp : p.Consistent) {call : ProcessCall} (hroom : p.Room call) :
    (call.step p).Consistent := by
  cases call with
  | «open» alloc name => exact hp.open hroom
  | close i =>
      simp only [ProcessCall.step]
      cases hi : p.handles[i]? with
      | none => exact hp
      | some h => exact hp.storeClose hi
  | call i c =>
      simp only [ProcessCall.step]
      cases p.handles[i]? with
      | none => exact hp
      | some h => exact hp.storeCall h.id c
  | subscribe i room after =>
      simp only [ProcessCall.step]
      cases hi : p.handles[i]? with
      | none => exact hp
      | some h => exact hp.subscribe (List.mem_of_getElem? hi) (hroom h hi)
  | unsubscribe i =>
      simp only [ProcessCall.step]
      cases hi : p.subscriptions[i]? with
      | none => exact hp
      | some h => exact hp.storeUnsubscribed hi
  | destroy name => exact hp.destroy name

theorem run (hp : p.Consistent) {calls : List ProcessCall} (hroom : Throughout Room calls p) :
    (p.run calls).Consistent := by
  induction calls generalizing p with
  | nil => exact hp
  | cons call rest ih => exact ih (hp.step hroom.1) hroom.2

end Consistent

/-! ## A name given up and taken again -/

/-- What the registry has under the name, if anything, is an empty Store without handles. -/
structure Fresh (name : Bytes) (p : Process) : Prop where
  state : ∀ id, p.registry.stores[name]? = some id → p.registry.state id = initial
  handles : ∀ h ∈ p.handles, h.name ≠ name

/-- The registry still has an old state under the name, or has an empty one. -/
theorem Fresh.of_state {name : Bytes} {p q : Process} (hf : p.Fresh name)
    (hstate : ∀ id, q.registry.stores[name]? = some id →
      p.registry.stores[name]? = some id ∧ q.registry.state id = p.registry.state id ∨
        q.registry.state id = initial)
    (hhandles : ∀ h ∈ q.handles, h ∈ p.handles ∨ h.name ≠ name) : q.Fresh name := by
  constructor
  · intro id hid
    obtain ⟨hold, hsame⟩ | hempty := hstate id hid
    · exact hsame.trans (hf.state id hold)
    · exact hempty
  · intro h hh
    exact (hhandles h hh).elim (hf.handles h) id

/-- Counts and references aside, nothing happens. -/
theorem Fresh.count {name : Bytes} {p : Process} (hf : p.Fresh name) {id : ℕ}
    {f : SharedState → SharedState} (hs : ∀ s, (f s).state = s.state) {handles : List Holder}
    (hh : ∀ h ∈ handles, h ∈ p.handles) (subscriptions : List Holder) :
    Fresh name { p with registry := p.registry.modify id f, handles := handles,
                        subscriptions := subscriptions } :=
  hf.of_state (fun i hi => .inl ⟨hi, Registry.state_modify hs id i p.registry⟩)
    fun h hmem => .inl (hh h hmem)

/-- Making the state of a name. -/
theorem Fresh.findState {name n : Bytes} {p : Process} (hf : p.Fresh name) (hp : p.Consistent)
    {room : Bool} {id : ℕ} {r : Registry} (h : findState room n p.registry = some (id, r)) :
    Fresh name { p with registry := r } := by
  obtain ⟨-, rfl⟩ | ⟨-, rfl, rfl⟩ := findState_some h
  · exact hf
  refine hf.of_state (fun i hi => ?_) fun h hh => .inl hh
  simp only [ByteMap.get_insert] at hi
  split_ifs at hi
  · cases hi
    exact .inr (by simp [Registry.state])
  · refine .inl ⟨hi, ?_⟩
    simp only [Registry.state]
    rw [List.getElem?_append_left (hp.lt_length hi)]

theorem Fresh.open {name : Bytes} {p : Process} (hf : p.Fresh name) (hp : p.Consistent)
    {alloc : OpenSite → Bool} {n : Bytes} (hno : p.Unopened name (.open alloc n)) :
    (p.open alloc n).Fresh name := by
  simp only [Unopened] at hno
  unfold Process.open storeOpen
  unfold storeOpen at hno
  by_cases hname : (!validName n) = true
  · rw [if_pos hname]
    exact hf
  rw [if_neg hname] at hno ⊢
  cases hfound : MemoryStore.findState (alloc .state) n p.registry with
  | none => exact hf
  | some found =>
      obtain ⟨id, r⟩ := found
      have hfresh := hf.findState hp hfound
      simp only [hfound] at hno
      by_cases hhandle : alloc .handle = true
      · simp only [hhandle, if_true] at hno ⊢
        have hne : n ≠ name := fun h => hno h id rfl
        refine hfresh.of_state (fun i hi => .inl ⟨hi, state_addHandle ..⟩) fun h hh => ?_
        rcases List.mem_append.mp hh with hh | hh
        · exact .inl hh
        · obtain rfl := List.mem_singleton.mp hh
          exact .inr hne
      · simp only [hhandle]
        rw [if_neg (by decide)]
        exact hfresh.of_state
          (fun i hi => .inl ⟨hi, (Registry.state_modify (by intro s; rfl) ..).trans
            (state_addHandle ..)⟩) fun h hh => .inl hh

theorem Fresh.step {name : Bytes} {p : Process} (hf : p.Fresh name) (hp : p.Consistent)
    {call : ProcessCall} (hno : p.Unopened name call) : (call.step p).Fresh name := by
  cases call with
  | «open» alloc n => exact hf.open hp hno
  | close i =>
      simp only [ProcessCall.step]
      cases p.handles[i]? with
      | none => exact hf
      | some h => exact hf.count (by intro s; rfl) (fun h => List.mem_of_mem_eraseIdx) _
  | call i c =>
      simp only [ProcessCall.step]
      cases hi : p.handles[i]? with
      | none => exact hf
      | some h =>
          -- the handle is on a Store of another name
          have hmem := List.mem_of_getElem? hi
          refine hf.of_state (fun j hj => .inl ⟨hj, ?_⟩) fun h hh => .inl hh
          have hne : h.id ≠ j := by
            rintro rfl
            exact hf.handles h hmem (hp.injective (hp.handles h hmem).1 hj)
          simp only [storeCall, Registry.state, Registry.modify, List.getElem?_modify, if_neg hne]
          cases p.registry.states[j]? with
          | none => rfl
          | some s => rfl
  | subscribe i room after =>
      simp only [ProcessCall.step]
      cases p.handles[i]? with
      | none => exact hf
      | some h =>
          simp only [Process.subscribe]
          cases MemoryStore.subscribe room after (p.registry.state h.id) with
          | error f => exact hf
          | ok subscription => exact hf.count (by intro s; rfl) (fun _ => id) _
  | unsubscribe i =>
      simp only [ProcessCall.step]
      cases p.subscriptions[i]? with
      | none => exact hf
      | some h => exact hf.count (by intro s; rfl) (fun _ => id) _
  | destroy n =>
      simp only [ProcessCall.step, Process.destroy]
      obtain ⟨⟨f, heq⟩, -⟩ | ⟨heq, -⟩ := hp.storeDestroy_eq n
      · rw [heq]
        exact hf
      · rw [heq]
        refine hf.of_state (fun i hi => .inl ⟨?_, rfl⟩) fun h hh => .inl hh
        simp only [ByteMap.get_erase] at hi
        split_ifs at hi
        exact hi

theorem Fresh.run {name : Bytes} {p : Process} (hf : p.Fresh name) (hp : p.Consistent)
    {calls : List ProcessCall} (hroom : Throughout Room calls p)
    (hno : Throughout (Unopened name) calls p) : (p.run calls).Fresh name := by
  induction calls generalizing p with
  | nil => exact hf
  | cons call rest ih =>
      exact ih (hf.step hp hno.1) (hp.step hroom.1) hroom.2 hno.2

/-- A name that was just given up is fresh. -/
theorem fresh_destroy {name : Bytes} {p : Process} (hp : p.Consistent)
    (hok : (storeDestroy name p.registry).1 = .ok ()) : (p.destroy name).Fresh name := by
  unfold Process.destroy
  obtain ⟨⟨f, heq⟩, -⟩ | ⟨heq, -, hhandles, -⟩ := hp.storeDestroy_eq name
  · rw [heq] at hok
    cases hok
  · rw [heq]
    refine ⟨fun id hid => ?_, fun h hh => ?_⟩
    · simp at hid
    · simpa using List.countP_eq_zero.mp hhandles h hh

/-- A handle on a fresh name is on an empty Store. -/
theorem Fresh.storeOpen {name : Bytes} {p : Process} (hf : p.Fresh name)
    {alloc : OpenSite → Bool} {id : ℕ} {r : Registry}
    (h : storeOpen alloc name p.registry = (.ok id, r)) : r.state id = initial := by
  obtain ⟨-, ⟨hn, hsame⟩ | ⟨-, hempty⟩⟩ := storeOpen_ok h
  · exact hsame.trans (hf.state id hn)
  · exact hempty

end Process

theorem throughout_append {allowed : Process → ProcessCall → Prop} {a b : List ProcessCall}
    {p : Process} :
    Throughout allowed (a ++ b) p ↔ Throughout allowed a p ∧ Throughout allowed b (p.run a) := by
  induction a generalizing p with
  | nil => simp [Throughout, Process.run]
  | cons call rest ih =>
      simp only [List.cons_append, Throughout, ih, and_assoc]
      rfl

theorem Process.run_append (a b : List ProcessCall) (p : Process) :
    p.run (a ++ b) = (p.run a).run b := List.foldl_append

/-! ## The registry in every run -/

/-- What the registry promises about the references in use. -/
structure Process.Accounted (p : Process) : Prop where
  shared : ∀ a ∈ p.handles ++ p.subscriptions, ∀ b ∈ p.handles ++ p.subscriptions,
    a.name = b.name → a.incarnation = b.incarnation → a.id = b.id
  counted : ∀ (id : ℕ) (s : SharedState), p.registry.states[id]? = some s →
    s.handleCount = referring id p.handles ∧ s.subscriptionCount = referring id p.subscriptions
  destroyed : ∀ name, (storeDestroy name p.registry).1 = .ok () ↔
    p.registry.stores[name]?.isSome = true ∧ p.liveHandles name = 0 ∧
      p.liveSubscriptions name = 0

theorem Process.Consistent.accounted {p : Process} (hp : p.Consistent) : p.Accounted := by
  refine ⟨fun a ha b hb hname _ => ?_, fun id s hs => ?_, fun name => ?_⟩
  · have hholds : ∀ h ∈ p.handles ++ p.subscriptions, p.Holds h := fun h hh =>
      (List.mem_append.mp hh).elim (hp.handles h) (hp.subscriptions h)
    have haid := (hholds a ha).1
    rw [hname, (hholds b hb).1] at haid
    exact (Option.some.inj haid).symm
  · exact ⟨(hp.counted id s hs).handles, (hp.counted id s hs).subscriptions⟩
  · obtain ⟨⟨f, heq⟩, hno⟩ | ⟨heq, hyes⟩ := hp.storeDestroy_eq name
    · rw [heq]
      exact ⟨fun h => (nomatch h), fun h => absurd h hno⟩
    · rw [heq]
      exact ⟨fun _ => hyes, fun _ => rfl⟩

/-- While the references can be counted, the registry accounts for all of them, and a name
given up starts again with an empty Store. -/
theorem registry_accounts (calls : List ProcessCall)
    (hroom : Throughout Process.Room calls .start) :
    (Process.start.run calls).Accounted ∧
      ∀ before name after, calls = before ++ .destroy name :: after →
        (storeDestroy name (Process.start.run before).registry).1 = .ok () →
        Throughout (Process.Unopened name) after ((Process.start.run before).destroy name) →
        ∀ alloc id r,
          storeOpen alloc name (Process.start.run calls).registry = (.ok id, r) →
            r.state id = initial := by
  refine ⟨(Process.consistent_start.run hroom).accounted, ?_⟩
  rintro before name after rfl hok hno alloc id r hopen
  obtain ⟨hbefore, hcall, hafter⟩ := throughout_append.mp hroom
  have hp := Process.consistent_start.run hbefore
  have hfresh := (Process.fresh_destroy hp hok).run (hp.destroy name) hafter hno
  rw [Process.run_append] at hopen
  exact hfresh.storeOpen hopen

theorem registry_accounts_one : ∃ id r,
    storeOpen (fun _ => true) [97] (Process.start.run
      [.open (fun _ => true) [97], .call 0 (.put (fun _ => true) (some [98]) (some ⟨0, []⟩)),
        .close 0, .destroy [97]]).registry = (.ok id, r) ∧ r.state id = initial := by
  refine ⟨_, _, rfl, (registry_accounts _ ?_).2
    [.open (fun _ => true) [97], .call 0 (.put (fun _ => true) (some [98]) (some ⟨0, []⟩)),
      .close 0] [97] [] rfl rfl trivial (fun _ => true) _ _ rfl⟩
  exact ⟨fun _ => by decide, trivial, trivial, trivial, trivial⟩

/-- A process after opening one Store often. -/
theorem run_opens (n : ℕ) :
    Process.start.run (List.replicate (n + 1) (.open (fun _ => true) [97])) =
      ⟨⟨(∅ : ByteMap ℕ).insert [97] 0, [⟨[97], initial, (n + 1) % 2 ^ 32, 0, []⟩]⟩,
        List.replicate (n + 1) ⟨0, [97], 0⟩, [], fun _ => 0⟩ := by
  induction n with
  | zero => rfl
  | succ n ih =>
      have hcount : fetchAdd ((n + 1) % 2 ^ 32) = (n + 1 + 1) % 2 ^ 32 := Nat.mod_add_mod ..
      have hname : validName [97] = true := by decide
      have hhandles : List.replicate (n + 1 + 1) (⟨0, [97], 0⟩ : Holder) =
          List.replicate (n + 1) ⟨0, [97], 0⟩ ++ [⟨0, [97], 0⟩] := List.replicate_succ'
      rw [List.replicate_succ', Process.run_append, ih, hhandles]
      simp only [Process.run, List.foldl_cons, List.foldl_nil, ProcessCall.step, Process.open,
        storeOpen, findState, hname, Std.ExtTreeMap.getElem?_insert_self, addHandle,
        Registry.modify, List.modify_cons, hcount]
      rfl

/-- The count of 2^32 handles is zero, and the Store they are on is given up. -/
theorem registry_loses_count :
    ¬ ∀ calls : List ProcessCall, (Process.start.run calls).Accounted := by
  intro h
  have hall := h (List.replicate (2 ^ 32 - 1 + 1) (.open (fun _ => true) [97]))
  rw [run_opens] at hall
  have hnone := ((hall.destroyed [97]).mp rfl).2.1
  simp only [Process.liveHandles, List.countP_replicate, BEq.rfl, if_true] at hnone
  omega

end Esdb.MemoryStore
