import Esdb.Types
import Mathlib.Data.Fin.Basic
import Mathlib.Data.List.FinRange
import Mathlib.Logic.Function.Basic

/-!
# Database handles of the script adapter

A script holds a database by a token: a positive 32-bit integer that packs the index
of a slot and the slot's generation. A slot's generation goes up whenever its database
is closed, and at its limit the slot is retired, so a token is never given out twice
and one whose database is closed names nothing for ever after.

Two fields are not in the source: the tokens that have been returned, with the
databases they were returned for, and the tokens whose database has been closed.
-/
namespace Esdb.Adapter

/-- `k_slot_count`. -/
def slotCount : ℕ := 255

/-- `k_slot_bits`. -/
def slotBits : UInt32 := 8

/-- `k_generation_max`. -/
def generationMax : UInt32 := (2147483647 : UInt32) >>> slotBits

/-- A database is named by its pointer. -/
structure Slot where
  database : Option ℕ
  generation : UInt32
  retired : Bool
  deriving DecidableEq, Repr

inductive ErrorCode where
  | ok | badArgument | noStagedPath | openFailed | handleExhausted | invalidHandle
  | databaseError | outOfMemory | «internal»
  deriving DecidableEq, Repr

/-- `AdapterError`. -/
structure AdapterError where
  code : ErrorCode
  databaseError : Option Failure
  message : String
  deriving DecidableEq, Repr

structure Handles where
  slots : Fin slotCount → Slot
  stagedPath : Bytes
  lastError : AdapterError
  opened : List (Int32 × ℕ)
  closed : List Int32

def noError : AdapterError := ⟨.ok, none, ""⟩

/-- The adapter when it is loaded. -/
def Handles.loaded : Handles := ⟨fun _ => ⟨none, 1, false⟩, [], noError, [], []⟩

/-- `set_last_error`. -/
def Handles.fail (code : ErrorCode) (message : String) (a : Handles) : Handles :=
  { a with lastError := ⟨code, none, message⟩ }

/-! ## Tokens -/

def encodeHandle (slotIndex generation : UInt32) : Int32 :=
  ((generation <<< slotBits) ||| (slotIndex + 1)).toInt32

def decodeHandle (token : Int32) : Option (Fin slotCount × UInt32) :=
  if token ≤ 0 then none
  else
    let raw := token.toUInt32
    let encodedSlot := raw &&& 0xff
    if h : encodedSlot = 0 ∨ slotCount < encodedSlot.toNat then none
    else
      let generation := raw >>> slotBits
      if generation = 0 ∨ generationMax < generation then none
      else some (⟨encodedSlot.toNat - 1, by
        simp only [not_or, not_lt] at h
        have hpos : encodedSlot.toNat ≠ 0 := fun he => h.1 (UInt32.toNat_inj.mp he)
        omega⟩, generation)

/-- The token of the slot `i` as it stands. -/
def Handles.token (a : Handles) (i : Fin slotCount) : Int32 :=
  encodeHandle (UInt32.ofNat i) (a.slots i).generation

/-- `lookup_slot_unlocked`. -/
def Handles.lookupSlot (a : Handles) (token : Int32) : Option (Fin slotCount) :=
  match decodeHandle token with
  | none => none
  | some (i, generation) =>
      let slot := a.slots i
      if slot.retired || slot.database.isNone || slot.generation ≠ generation then none
      else some i

/-- `advance_generation`. -/
def Slot.advanceGeneration (slot : Slot) : Slot :=
  if generationMax ≤ slot.generation then { slot with retired := true }
  else { slot with generation := slot.generation + 1 }

/-- A slot after `esdb_close` of its database. -/
def Slot.closed (slot : Slot) : Slot := { slot with database := none }.advanceGeneration

/-! ## The calls -/

/-- `stage`. No argument is one that is missing, empty or no string. -/
def stage (path : Option Bytes) (allocates : Bool) (a : Handles) : Bool × Handles :=
  match path with
  | none => (false, a.fail .badArgument "stage expects one non-empty string path")
  | some path =>
      if path = [] then (false, a.fail .badArgument "stage expects one non-empty string path")
      else if !allocates then (false, a.fail .outOfMemory "failed to stage database path")
      else (true, { a with stagedPath := path, lastError := noError })

/-- The search of `openStaged`. -/
def Handles.freeSlot (a : Handles) : Option (Fin slotCount) :=
  (List.finRange slotCount).find? fun i => (a.slots i).database.isNone && !(a.slots i).retired

/-- `openStaged`. `result` is what `esdb_open` of the staged path comes to. -/
def openStaged (dummy allocates : Bool) (result : Except Failure ℕ) (a : Handles) :
    Int32 × Handles :=
  if !dummy then (0, a.fail .badArgument "openStaged expects one dummy double argument")
  else if a.stagedPath = [] then (0, a.fail .noStagedPath "no database path has been staged")
  else if !allocates then (0, a.fail .outOfMemory "failed to allocate while opening database")
  else
    match result with
    | .error e =>
        (0, { a with lastError :=
          ⟨.openFailed, some e, "ESDB failed to open the staged database"⟩ })
    | .ok database =>
        match a.freeSlot with
        | none =>
            (0, a.fail .handleExhausted "all ExternalObject database handle slots are in use")
        | some i =>
            (a.token i, { a with
              slots := Function.update a.slots i { a.slots i with database := some database }
              lastError := noError
              opened := a.opened ++ [(a.token i, database)] })

/-- `close`. No handle is an argument that is no positive integer. -/
def close (handle : Option Int32) (a : Handles) : Bool × Handles :=
  match handle with
  | none => (false, a.fail .badArgument "close expects one positive integer handle")
  | some token =>
      if token ≤ 0 then (false, a.fail .badArgument "close expects one positive integer handle")
      else
        match a.lookupSlot token with
        | none => (false, a.fail .invalidHandle "database handle is stale or invalid")
        | some i =>
            (true, { a with
              slots := Function.update a.slots i (a.slots i).closed
              lastError := noError
              closed := a.closed ++ [token] })

/-- `ESTerminate`. -/
def terminate (a : Handles) : Handles :=
  { a with
    slots := fun i => if (a.slots i).database.isSome then (a.slots i).closed else a.slots i
    stagedPath := []
    lastError := noError
    closed := a.closed ++ (List.finRange slotCount).filterMap fun i =>
      if (a.slots i).database.isSome then some (a.token i) else none }

inductive Call where
  | stage (path : Option Bytes) (allocates : Bool)
  | openStaged (dummy allocates : Bool) (result : Except Failure ℕ)
  | close (handle : Option Int32)
  | terminate

def Call.step : Call → Handles → Handles
  | .stage path allocates, a => (Adapter.stage path allocates a).2
  | .openStaged dummy allocates result, a => (Adapter.openStaged dummy allocates result a).2
  | .close handle, a => (Adapter.close handle a).2
  | .terminate, a => Adapter.terminate a

/-- The states of the adapter after any calls. -/
inductive Reachable : Handles → Prop
  | loaded : Reachable .loaded
  | step {a : Handles} (call : Call) (h : Reachable a) : Reachable (call.step a)

/-- The states after some more calls. -/
def Handles.run (calls : List Call) (a : Handles) : Handles :=
  calls.foldl (fun a call => call.step a) a

/-! ## What tokens name -/

theorem generationMax_toNat : generationMax.toNat = 8388607 := by decide

theorem encode_toNat {i generation : UInt32} (hi : i.toNat < slotCount)
    (hg : generation ≤ generationMax) :
    ((generation <<< slotBits) ||| (i + 1)).toNat = generation.toNat * 256 + (i.toNat + 1) := by
  have hg : generation.toNat ≤ 8388607 := generationMax_toNat ▸ UInt32.le_iff_toNat_le.mp hg
  unfold slotCount at hi
  have hshift : (generation <<< slotBits).toNat = generation.toNat <<< 8 := by
    have hb : slotBits.toNat % 32 = 8 := by decide
    rw [UInt32.toNat_shiftLeft, hb, Nat.shiftLeft_eq]
    omega
  have hadd : (i + 1).toNat = i.toNat + 1 := by
    rw [UInt32.toNat_add]
    change (i.toNat + 1) % 2 ^ 32 = _
    omega
  rw [UInt32.toNat_or, hshift, hadd, ← Nat.shiftLeft_add_eq_or_of_lt (by omega), Nat.shiftLeft_eq]

theorem encode_pos {i generation : UInt32} (hi : i.toNat < slotCount)
    (hg : generation ≤ generationMax) : 0 < encodeHandle i generation := by
  have hn := encode_toNat hi hg
  have hg : generation.toNat ≤ 8388607 := generationMax_toNat ▸ UInt32.le_iff_toNat_le.mp hg
  unfold slotCount at hi
  rw [Int32.lt_iff_toInt_lt]
  have hint : (encodeHandle i generation).toInt = (generation.toNat * 256 + (i.toNat + 1) : ℕ) := by
    have hsmall : 2 * ((generation <<< slotBits) ||| (i + 1)).toBitVec.toNat < 2 ^ 32 := by
      rw [UInt32.toNat_toBitVec, hn]
      omega
    have := BitVec.toInt_eq_toNat_of_lt hsmall
    rw [UInt32.toNat_toBitVec, hn] at this
    exact this
  rw [hint]
  change (0 : ℤ) < _
  omega

/-- A token gives back what was packed into it. -/
theorem decode_encode (i : Fin slotCount) {generation : UInt32} (hpos : generation ≠ 0)
    (hg : generation ≤ generationMax) :
    decodeHandle (encodeHandle (UInt32.ofNat i) generation) = some (i, generation) := by
  have hi : (UInt32.ofNat i).toNat = i := by
    have := i.isLt
    unfold slotCount at this
    rw [UInt32.toNat_ofNat']
    omega
  have hlt : (UInt32.ofNat i).toNat < slotCount := by
    rw [hi]
    exact i.isLt
  have hraw := encode_toNat hlt hg
  rw [hi] at hraw
  have hle := i.isLt
  have hgn : generation.toNat ≤ 8388607 := generationMax_toNat ▸ UInt32.le_iff_toNat_le.mp hg
  unfold slotCount at hle
  unfold decodeHandle
  rw [if_neg (by simpa using encode_pos hlt hg)]
  dsimp only
  have huint : (encodeHandle (UInt32.ofNat i) generation).toUInt32 =
      (generation <<< slotBits) ||| (UInt32.ofNat i + 1) := rfl
  have hslot : ((encodeHandle (UInt32.ofNat i) generation).toUInt32 &&& 0xff).toNat = i + 1 := by
    rw [huint, UInt32.toNat_and, hraw]
    have hmask : (0xff : UInt32).toNat = 2 ^ 8 - 1 := by decide
    rw [hmask, Nat.and_two_pow_sub_one_eq_mod]
    omega
  have hgen : (encodeHandle (UInt32.ofNat i) generation).toUInt32 >>> slotBits = generation := by
    apply UInt32.toNat_inj.mp
    have hb : slotBits.toNat % 32 = 8 := by decide
    rw [huint, UInt32.toNat_shiftRight, hraw, hb, Nat.shiftRight_eq_div_pow]
    omega
  rw [dif_neg, hgen, if_neg]
  · simp [hslot]
  · rw [not_or]
    exact ⟨hpos, UInt32.not_lt.mpr hg⟩
  · rw [not_or]
    refine ⟨fun h => ?_, ?_⟩
    · rw [h] at hslot
      exact absurd hslot (by simp)
    · unfold slotCount
      omega

/-- And what is packed in it gives back the token. -/
theorem encode_decode {token : Int32} {i : Fin slotCount} {generation : UInt32}
    (h : decodeHandle token = some (i, generation)) :
    token = encodeHandle (UInt32.ofNat i) generation ∧ generation ≠ 0 ∧
      generation ≤ generationMax := by
  unfold decodeHandle at h
  by_cases hpos : token ≤ 0
  · rw [if_pos hpos] at h
    exact nomatch h
  rw [if_neg hpos] at h
  dsimp only at h
  by_cases hslot : token.toUInt32 &&& 0xff = 0 ∨ slotCount < (token.toUInt32 &&& 0xff).toNat
  · rw [dif_pos hslot] at h
    exact nomatch h
  rw [dif_neg hslot] at h
  by_cases hgen : token.toUInt32 >>> slotBits = 0 ∨ generationMax < token.toUInt32 >>> slotBits
  · rw [if_pos hgen] at h
    exact nomatch h
  rw [if_neg hgen] at h
  simp only [Option.some.injEq, Prod.mk.injEq] at h
  obtain ⟨hi, hg⟩ := h
  rw [not_or, UInt32.not_lt] at hgen
  rw [hg] at hgen
  refine ⟨?_, hgen.1, hgen.2⟩
  rw [not_or] at hslot
  have hi : (i : ℕ) = (token.toUInt32 &&& 0xff).toNat - 1 := by rw [← hi]
  have hmask : (0xff : UInt32).toNat = 2 ^ 8 - 1 := by decide
  have hlow : (token.toUInt32 &&& 0xff).toNat = token.toUInt32.toNat % 256 := by
    rw [UInt32.toNat_and, hmask, Nat.and_two_pow_sub_one_eq_mod]
  have hlow₀ : (token.toUInt32 &&& 0xff).toNat ≠ 0 := fun he => hslot.1 (UInt32.toNat_inj.mp he)
  have hb : slotBits.toNat % 32 = 8 := by decide
  have hhigh : generation.toNat = token.toUInt32.toNat / 256 := by
    rw [← hg, UInt32.toNat_shiftRight, hb, Nat.shiftRight_eq_div_pow]
  have hin : (UInt32.ofNat i).toNat = i := by
    have := i.isLt
    unfold slotCount at this
    rw [UInt32.toNat_ofNat']
    omega
  have hlt : (UInt32.ofNat i).toNat < slotCount := by
    rw [hin]
    exact i.isLt
  have hraw := encode_toNat hlt hgen.2
  rw [hin] at hraw
  have heq : token.toUInt32 = (generation <<< slotBits) ||| (UInt32.ofNat i + 1) := by
    apply UInt32.toNat_inj.mp
    omega
  rw [← Int32.toInt32_toUInt32 token, heq]
  rfl

/-! ## Freshness -/

/-- Every token that was returned names its database until that is closed, and is
older than the slot's generation, or the slot retired, ever after. -/
structure Fresh (a : Handles) : Prop where
  generation : ∀ i, (a.slots i).generation ≠ 0 ∧ (a.slots i).generation ≤ generationMax
  retired : ∀ i, (a.slots i).retired = true → (a.slots i).database = none
  opened : ∀ t database, (t, database) ∈ a.opened → ∃ (i : Fin slotCount) (g : UInt32),
    t = encodeHandle (UInt32.ofNat i) g ∧ g ≠ 0 ∧ g ≤ (a.slots i).generation ∧
      (t ∈ a.closed ↔ g < (a.slots i).generation ∨ (a.slots i).retired = true) ∧
      (t ∉ a.closed → (a.slots i).database = some database)
  live : ∀ i database, (a.slots i).database = some database → (a.token i, database) ∈ a.opened
  closed : ∀ t ∈ a.closed, t ∈ a.opened.map Prod.fst
  nodup : (a.opened.map Prod.fst).Nodup

theorem fresh_loaded : Fresh .loaded where
  generation := fun _ =>
    ⟨by change (1 : UInt32) ≠ 0; decide, by change (1 : UInt32) ≤ generationMax; decide⟩
  retired := fun _ h => nomatch h
  opened := fun _ _ h => nomatch h
  live := fun _ _ h => nomatch h
  closed := fun _ h => nomatch h
  nodup := List.nodup_nil

variable {a a' : Handles}

theorem Fresh.decode_token (h : Fresh a) (i : Fin slotCount) :
    decodeHandle (a.token i) = some (i, (a.slots i).generation) :=
  decode_encode i (h.generation i).1 (h.generation i).2

theorem Fresh.token_inj (h : Fresh a) {i j : Fin slotCount} {g : UInt32}
    (he : a.token i = encodeHandle (UInt32.ofNat j) g) (hg : g ≠ 0)
    (hle : g ≤ (a.slots j).generation) : i = j ∧ (a.slots i).generation = g := by
  have hi := h.decode_token i
  rw [he, decode_encode j hg (UInt32.le_trans hle (h.generation j).2)] at hi
  simp only [Option.some.injEq, Prod.mk.injEq] at hi
  exact ⟨hi.1.symm, hi.2.symm⟩

/-- Where a slot is free, its next token has never been returned. -/
theorem Fresh.unused (h : Fresh a) {i : Fin slotCount} (hd : (a.slots i).database = none)
    (hr : (a.slots i).retired = false) : a.token i ∉ a.opened.map Prod.fst := by
  intro hmem
  obtain ⟨⟨t, database⟩, hmem, ht⟩ := List.mem_map.mp hmem
  obtain rfl : t = a.token i := ht
  obtain ⟨j, g, he, hg, hle, hclosed, hopen⟩ := h.opened _ database hmem
  obtain ⟨rfl, rfl⟩ := h.token_inj he hg hle
  have hnot : a.token i ∉ a.closed := by
    rw [hclosed]
    simp [hr]
  simp [hd] at hopen
  exact hnot hopen

theorem Fresh.same (h : Fresh a) (hs : a'.slots = a.slots) (ho : a'.opened = a.opened)
    (hc : a'.closed = a.closed) : Fresh a' := by
  obtain ⟨slots, path, error, opened, closed⟩ := a'
  dsimp only at hs ho hc
  subst hs ho hc
  exact ⟨h.generation, h.retired, h.opened, h.live, h.closed, h.nodup⟩

theorem fresh_stage (h : Fresh a) (path : Option Bytes) (allocates : Bool) :
    Fresh (stage path allocates a).2 := by
  unfold stage
  split
  · exact h.same rfl rfl rfl
  · split_ifs
    · exact h.same rfl rfl rfl
    · exact h.same rfl rfl rfl
    · exact h.same rfl rfl rfl

theorem freeSlot_spec {i : Fin slotCount} (h : a.freeSlot = some i) :
    (a.slots i).database = none ∧ (a.slots i).retired = false := by
  have := List.find?_some h
  simpa using this

theorem fresh_open (h : Fresh a) {i : Fin slotCount} (database : ℕ)
    (hd : (a.slots i).database = none) (hr : (a.slots i).retired = false)
    (hi : a'.slots i = { a.slots i with database := some database })
    (hne : ∀ j, j ≠ i → a'.slots j = a.slots j)
    (ho : a'.opened = a.opened ++ [(a.token i, database)]) (hc : a'.closed = a.closed) :
    Fresh a' := by
  have hslot : ∀ j, (a'.slots j).generation = (a.slots j).generation ∧
      (a'.slots j).retired = (a.slots j).retired := by
    intro j
    by_cases hj : j = i
    · rw [hj, hi]
      exact ⟨rfl, rfl⟩
    · rw [hne j hj]
      exact ⟨rfl, rfl⟩
  have hunused := h.unused hd hr
  have hnot : a.token i ∉ a.closed := fun hmem => hunused (h.closed _ hmem)
  constructor
  · intro j
    rw [(hslot j).1]
    exact h.generation j
  · intro j hj
    rw [(hslot j).2] at hj
    have hji : j ≠ i := by
      rintro rfl
      rw [hr] at hj
      exact nomatch hj
    rw [hne j hji]
    exact h.retired j hj
  · intro t database' hmem
    rw [ho] at hmem
    rw [hc]
    rcases List.mem_append.mp hmem with hmem | hmem
    · obtain ⟨j, g, he, hg, hle, hclosed, hopen⟩ := h.opened t database' hmem
      refine ⟨j, g, he, hg, ?_⟩
      rw [(hslot j).1, (hslot j).2]
      refine ⟨hle, hclosed, fun ht => ?_⟩
      have hji : j ≠ i := by
        rintro rfl
        rw [hopen ht] at hd
        exact nomatch hd
      rw [hne j hji]
      exact hopen ht
    · rw [List.mem_singleton, Prod.mk.injEq] at hmem
      obtain ⟨rfl, rfl⟩ := hmem
      refine ⟨i, (a.slots i).generation, rfl, (h.generation i).1, ?_⟩
      rw [(hslot i).1, (hslot i).2, hi]
      refine ⟨UInt32.le_refl _, ?_, fun _ => rfl⟩
      simp [hnot, hr]
  · intro j database' hj
    have htoken : a'.token j = a.token j := by
      unfold Handles.token
      rw [(hslot j).1]
    rw [htoken, ho]
    by_cases hji : j = i
    · subst hji
      rw [hi] at hj
      obtain rfl : database = database' := by simpa using hj
      exact List.mem_append_right _ (List.mem_singleton.mpr rfl)
    · rw [hne j hji] at hj
      exact List.mem_append_left _ (h.live j database' hj)
  · intro t ht
    rw [hc] at ht
    rw [ho, List.map_append]
    exact List.mem_append_left _ (h.closed t ht)
  · rw [ho, List.map_append]
    exact h.nodup.append (List.nodup_singleton _) (by simpa using hunused)

theorem fresh_openStaged (h : Fresh a) (dummy allocates : Bool) (result : Except Failure ℕ) :
    Fresh (openStaged dummy allocates result a).2 := by
  unfold openStaged
  split_ifs
  · exact h.same rfl rfl rfl
  · exact h.same rfl rfl rfl
  · exact h.same rfl rfl rfl
  · split
    · exact h.same rfl rfl rfl
    · split
      · exact h.same rfl rfl rfl
      · rename_i i hfree
        obtain ⟨hd, hr⟩ := freeSlot_spec hfree
        exact fresh_open h _ hd hr (Function.update_self ..)
          (fun j hj => Function.update_of_ne hj ..) rfl rfl

theorem advanceGeneration_spec (slot : Slot) (h : slot.generation ≠ 0)
    (hle : slot.generation ≤ generationMax) :
    slot.advanceGeneration.database = slot.database ∧
      slot.advanceGeneration.generation ≠ 0 ∧
      slot.advanceGeneration.generation ≤ generationMax ∧
      ∀ g ≤ slot.generation,
        g < slot.advanceGeneration.generation ∨ slot.advanceGeneration.retired = true := by
  unfold Slot.advanceGeneration
  split_ifs with hmax
  · exact ⟨rfl, h, hle, fun g _ => Or.inr rfl⟩
  · have hgm := generationMax_toNat
    have hlt : slot.generation.toNat < 8388607 := by
      rw [← hgm]
      exact UInt32.lt_iff_toNat_lt.mp (UInt32.not_le.mp hmax)
    have hadd : (slot.generation + 1).toNat = slot.generation.toNat + 1 := by
      rw [UInt32.toNat_add]
      change (slot.generation.toNat + 1) % 2 ^ 32 = _
      omega
    refine ⟨rfl, ?_, ?_, fun g hg => Or.inl ?_⟩
    · intro he
      have : (slot.generation + 1).toNat = 0 := by
        change slot.generation + 1 = 0 at he
        rw [he]
        rfl
      omega
    · rw [UInt32.le_iff_toNat_le, hgm]
      change (slot.generation + 1).toNat ≤ _
      omega
    · rw [UInt32.lt_iff_toNat_lt]
      have := UInt32.le_iff_toNat_le.mp hg
      change _ < (slot.generation + 1).toNat
      omega

/-- Closing the databases of some slots. -/
theorem fresh_close (h : Fresh a) (which : Fin slotCount → Prop) [DecidablePred which]
    (hopen : ∀ i, which i → (a.slots i).database.isSome)
    (hs : ∀ i, a'.slots i = if which i then (a.slots i).closed else a.slots i)
    (ho : a'.opened = a.opened)
    (hc : ∀ t, t ∈ a'.closed ↔ t ∈ a.closed ∨ ∃ i, which i ∧ t = a.token i) : Fresh a' := by
  have hout : ∀ i, ¬ which i → a'.slots i = a.slots i := fun i hi => by rw [hs, if_neg hi]
  have hin : ∀ i, which i → (a'.slots i).database = none ∧ (a'.slots i).generation ≠ 0 ∧
      (a'.slots i).generation ≤ generationMax ∧
      ∀ g ≤ (a.slots i).generation,
        g < (a'.slots i).generation ∨ (a'.slots i).retired = true := by
    intro i hi
    rw [hs, if_pos hi]
    exact advanceGeneration_spec { a.slots i with database := none } (h.generation i).1
      (h.generation i).2
  have hactive : ∀ i, which i → (a.slots i).retired = false := by
    intro i hi
    by_contra hr
    have := hopen i hi
    rw [h.retired i (by simpa using hr)] at this
    exact nomatch this
  constructor
  · intro i
    by_cases hi : which i
    · exact ⟨(hin i hi).2.1, (hin i hi).2.2.1⟩
    · rw [hout i hi]
      exact h.generation i
  · intro i hr
    by_cases hi : which i
    · exact (hin i hi).1
    · rw [hout i hi] at hr ⊢
      exact h.retired i hr
  · intro t database hmem
    rw [ho] at hmem
    obtain ⟨i, g, he, hg, hle, hclosed, hdata⟩ := h.opened t database hmem
    by_cases hi : which i
    · have hold := (hin i hi).2.2.2 g hle
      have hgen : g ≤ (a'.slots i).generation := by
        rw [hs, if_pos hi]
        unfold Slot.closed Slot.advanceGeneration
        split_ifs with hmax
        · exact hle
        · have := hin i hi
          rw [hs, if_pos hi] at this
          rcases hold with hlt | hr
          · rw [hs, if_pos hi, Slot.closed, Slot.advanceGeneration, if_neg hmax] at hlt
            exact UInt32.le_of_lt hlt
          · rw [hs, if_pos hi, Slot.closed, Slot.advanceGeneration, if_neg hmax] at hr
            exact absurd hr (by simpa using hactive i hi)
      have hmem : t ∈ a'.closed := by
        rw [hc]
        by_cases heq : g = (a.slots i).generation
        · exact Or.inr ⟨i, hi, by rw [he, heq]; rfl⟩
        · exact Or.inl (hclosed.mpr (Or.inl (UInt32.lt_of_le_of_ne hle heq)))
      exact ⟨i, g, he, hg, hgen, ⟨fun _ => hold, fun _ => hmem⟩, fun hn => absurd hmem hn⟩
    · have hsame : t ∈ a'.closed ↔ t ∈ a.closed := by
        rw [hc]
        constructor
        · rintro (ht | ⟨j, hj, ht⟩)
          · exact ht
          · obtain ⟨rfl, -⟩ := h.token_inj (ht.symm.trans he) hg hle
            exact absurd hj hi
        · exact Or.inl
      refine ⟨i, g, he, hg, ?_⟩
      rw [hout i hi, hsame]
      exact ⟨hle, hclosed, hdata⟩
  · intro i database hdata
    by_cases hi : which i
    · rw [(hin i hi).1] at hdata
      exact nomatch hdata
    · rw [hout i hi] at hdata
      rw [ho]
      unfold Handles.token
      rw [hout i hi]
      exact h.live i database hdata
  · intro t ht
    rw [ho]
    rcases (hc t).mp ht with ht | ⟨i, hi, rfl⟩
    · exact h.closed t ht
    · obtain ⟨database, hdata⟩ := Option.isSome_iff_exists.mp (hopen i hi)
      exact List.mem_map.mpr ⟨_, h.live i database hdata, rfl⟩
  · rw [ho]
    exact h.nodup

theorem lookupSlot_spec {t : Int32} {i : Fin slotCount} (h : a.lookupSlot t = some i) :
    t = a.token i ∧ (a.slots i).retired = false ∧ (a.slots i).database.isSome := by
  unfold Handles.lookupSlot at h
  split at h
  · exact nomatch h
  · rename_i j g hdecode
    dsimp only at h
    split_ifs at h with hslot
    simp only [Option.some.injEq] at h
    subst h
    simp only [ne_eq, Bool.or_eq_true, decide_eq_true_eq, not_or, Bool.not_eq_true,
      not_not, Option.isNone_eq_false_iff] at hslot
    refine ⟨?_, hslot.1.1, hslot.1.2⟩
    unfold Handles.token
    rw [hslot.2]
    exact (encode_decode hdecode).1

theorem fresh_close_call (h : Fresh a) (handle : Option Int32) : Fresh (close handle a).2 := by
  unfold close
  split
  · exact h.same rfl rfl rfl
  · split_ifs
    · exact h.same rfl rfl rfl
    · split
      · exact h.same rfl rfl rfl
      · rename_i token _ _ i hlookup
        obtain ⟨ht, -, hopen⟩ := lookupSlot_spec hlookup
        apply fresh_close h (fun j => j = i)
        · rintro j rfl
          exact hopen
        · intro j
          by_cases hj : j = i
          · rw [if_pos hj, hj]
            exact Function.update_self ..
          · rw [if_neg hj]
            exact Function.update_of_ne hj ..
        · rfl
        · intro t
          simp [ht]

theorem fresh_terminate (h : Fresh a) : Fresh (terminate a) := by
  apply fresh_close h (fun i => (a.slots i).database.isSome)
  · exact fun i hi => hi
  · exact fun i => rfl
  · rfl
  · intro t
    change t ∈ a.closed ++ _ ↔ _
    rw [List.mem_append, List.mem_filterMap]
    apply or_congr Iff.rfl
    constructor
    · rintro ⟨i, -, hi⟩
      split_ifs at hi with hopen
      exact ⟨i, hopen, (Option.some.inj hi).symm⟩
    · rintro ⟨i, hopen, rfl⟩
      exact ⟨i, List.mem_finRange i, if_pos hopen⟩

theorem Fresh.step (h : Fresh a) (call : Call) : Fresh (call.step a) := by
  cases call with
  | stage path allocates => exact fresh_stage h path allocates
  | openStaged dummy allocates result => exact fresh_openStaged h dummy allocates result
  | close handle => exact fresh_close_call h handle
  | terminate => exact fresh_terminate h

theorem Reachable.fresh (h : Reachable a) : Fresh a := by
  induction h with
  | loaded => exact fresh_loaded
  | step call _ ih => exact ih.step call

theorem Reachable.run (h : Reachable a) (calls : List Call) : Reachable (a.run calls) := by
  induction calls generalizing a with
  | nil => exact h
  | cons call calls ih => exact ih (.step call h)

/-! ## What later calls keep -/

theorem advanceGeneration_retired {slot : Slot} (h : slot.retired = true) :
    slot.advanceGeneration.retired = true := by
  unfold Slot.advanceGeneration
  split_ifs
  · rfl
  · exact h

/-- A token stays closed, and a slot stays retired. -/
theorem step_keeps (call : Call) (a : Handles) :
    (∀ t ∈ a.closed, t ∈ (call.step a).closed) ∧
      ∀ i, (a.slots i).retired = true → ((call.step a).slots i).retired = true := by
  cases call with
  | stage path allocates =>
    change (∀ t ∈ a.closed, t ∈ (stage path allocates a).2.closed) ∧ _
    have hs : (stage path allocates a).2.slots = a.slots ∧
        (stage path allocates a).2.closed = a.closed := by
      unfold stage
      split
      · exact ⟨rfl, rfl⟩
      · split_ifs <;> exact ⟨rfl, rfl⟩
    rw [hs.2]
    refine ⟨fun t ht => ht, fun i hi => ?_⟩
    change ((stage path allocates a).2.slots i).retired = true
    rw [hs.1]
    exact hi
  | openStaged dummy allocates result =>
    change (∀ t ∈ a.closed, t ∈ (openStaged dummy allocates result a).2.closed) ∧
      ∀ i, _ → ((openStaged dummy allocates result a).2.slots i).retired = true
    unfold openStaged
    split_ifs
    · exact ⟨fun t ht => ht, fun i hi => hi⟩
    · exact ⟨fun t ht => ht, fun i hi => hi⟩
    · exact ⟨fun t ht => ht, fun i hi => hi⟩
    · split
      · exact ⟨fun t ht => ht, fun i hi => hi⟩
      · split
        · exact ⟨fun t ht => ht, fun i hi => hi⟩
        · rename_i j _
          refine ⟨fun t ht => ht, fun i hi => ?_⟩
          change (Function.update a.slots j _ i).retired = true
          by_cases hij : i = j
          · subst hij
            rw [Function.update_self]
            exact hi
          · rw [Function.update_of_ne hij]
            exact hi
  | close handle =>
    change (∀ t ∈ a.closed, t ∈ (close handle a).2.closed) ∧
      ∀ i, _ → ((close handle a).2.slots i).retired = true
    unfold close
    split
    · exact ⟨fun t ht => ht, fun i hi => hi⟩
    · split_ifs
      · exact ⟨fun t ht => ht, fun i hi => hi⟩
      · split
        · exact ⟨fun t ht => ht, fun i hi => hi⟩
        · rename_i j _
          refine ⟨fun t ht => List.mem_append_left _ ht, fun i hi => ?_⟩
          change (Function.update a.slots j _ i).retired = true
          by_cases hij : i = j
          · subst hij
            rw [Function.update_self]
            exact advanceGeneration_retired hi
          · rw [Function.update_of_ne hij]
            exact hi
  | terminate =>
    refine ⟨fun t ht => List.mem_append_left _ ht, fun i hi => ?_⟩
    change (if (a.slots i).database.isSome then (a.slots i).closed else a.slots i).retired = true
    split_ifs
    · exact advanceGeneration_retired hi
    · exact hi

theorem run_keeps (calls : List Call) (a : Handles) :
    (∀ t ∈ a.closed, t ∈ (a.run calls).closed) ∧
      ∀ i, (a.slots i).retired = true → ((a.run calls).slots i).retired = true := by
  induction calls generalizing a with
  | nil => exact ⟨fun t ht => ht, fun i hi => hi⟩
  | cons call calls ih =>
    have hstep := step_keeps call a
    have hrest := ih (call.step a)
    exact ⟨fun t ht => hrest.1 t (hstep.1 t ht), fun i hi => hrest.2 i (hstep.2 i hi)⟩

/-! ## What tokens resolve to -/

/-- A token resolves to its own open slot. -/
theorem Fresh.lookupSlot (h : Fresh a) {t : Int32} {database : ℕ} (ho : (t, database) ∈ a.opened)
    (hc : t ∉ a.closed) :
    ∃ i, a.lookupSlot t = some i ∧ (a.slots i).database = some database := by
  obtain ⟨i, g, rfl, hg, hle, hclosed, hdata⟩ := h.opened t database ho
  rw [hclosed, not_or] at hc
  have heq : (a.slots i).generation = g := (UInt32.le_antisymm hle (UInt32.not_lt.mp hc.1)).symm
  have hdata := hdata (by rw [hclosed, not_or]; exact hc)
  refine ⟨i, ?_, hdata⟩
  unfold Handles.lookupSlot
  rw [decode_encode i hg (UInt32.le_trans hle (h.generation i).2)]
  simp [hc.2, hdata, heq]

theorem Fresh.lookupSlot_closed (h : Fresh a) {t : Int32} (hc : t ∈ a.closed) :
    a.lookupSlot t = none := by
  by_contra hsome
  obtain ⟨i, hi⟩ := Option.ne_none_iff_exists'.mp hsome
  obtain ⟨rfl, hr, hopen⟩ := lookupSlot_spec hi
  obtain ⟨database, hdata⟩ := Option.isSome_iff_exists.mp hopen
  obtain ⟨j, g, he, hg, hle, hclosed, -⟩ := h.opened _ database (h.live i database hdata)
  obtain ⟨rfl, rfl⟩ := h.token_inj he hg hle
  rw [hclosed, hr] at hc
  simp at hc

theorem Fresh.positive (h : Fresh a) {t : Int32} {database : ℕ} (ho : (t, database) ∈ a.opened) :
    0 < t := by
  obtain ⟨i, g, rfl, hg, hle, -⟩ := h.opened t database ho
  apply encode_pos
  · have := i.isLt
    unfold slotCount at this ⊢
    rw [UInt32.toNat_ofNat']
    omega
  · exact UInt32.le_trans hle (h.generation i).2

/-- What `openStaged` returns: nothing, or the token of a slot that is not in use. -/
theorem openStaged_spec (dummy allocates : Bool) (result : Except Failure ℕ) (a : Handles) :
    ((openStaged dummy allocates result a).1 = 0 ∧
        (openStaged dummy allocates result a).2.opened = a.opened) ∨
      ∃ i database, result = .ok database ∧ (a.slots i).database = none ∧
        (a.slots i).retired = false ∧ (openStaged dummy allocates result a).1 = a.token i ∧
        (openStaged dummy allocates result a).2.opened = a.opened ++ [(a.token i, database)] := by
  unfold openStaged
  split_ifs
  · exact Or.inl ⟨rfl, rfl⟩
  · exact Or.inl ⟨rfl, rfl⟩
  · exact Or.inl ⟨rfl, rfl⟩
  · split
    · exact Or.inl ⟨rfl, rfl⟩
    · split
      · exact Or.inl ⟨rfl, rfl⟩
      · rename_i i hfree
        obtain ⟨hd, hr⟩ := freeSlot_spec hfree
        exact Or.inr ⟨i, _, rfl, hd, hr, rfl, rfl⟩

/-- In every state that calls lead to: what `openStaged` returns is no token, or one that
is positive and was never returned; a token whose database is open resolves to the slot
of that database; one whose database is closed resolves to nothing, whatever calls
follow; and a retired slot is not in use and not handed out, whatever calls follow. -/
theorem handles_never_reused (h : Reachable a) :
    (∀ dummy allocates result,
      (let r := openStaged dummy allocates result a
       (r.1 = 0 ∧ r.2.opened = a.opened) ∨
         (0 < r.1 ∧ r.1 ∉ a.opened.map Prod.fst ∧
           ∃ database, result = .ok database ∧ r.2.opened = a.opened ++ [(r.1, database)]))) ∧
    (∀ t database, (t, database) ∈ a.opened → t ∉ a.closed →
      ∃ i, a.lookupSlot t = some i ∧ (a.slots i).database = some database) ∧
    (∀ t ∈ a.closed, ∀ calls, (a.run calls).lookupSlot t = none) ∧
    (∀ i, (a.slots i).retired = true → ∀ calls,
      ((a.run calls).slots i).database = none ∧
        ∀ dummy allocates result g,
          decodeHandle (openStaged dummy allocates result (a.run calls)).1 ≠ some (i, g)) := by
  have hfresh := h.fresh
  refine ⟨?_, ?_, ?_, ?_⟩
  · intro dummy allocates result
    rcases openStaged_spec dummy allocates result a with hnone | ⟨i, database, hres, hd, hr, ht, ho⟩
    · exact Or.inl hnone
    · right
      have hmem : (a.token i, database) ∈
          (openStaged dummy allocates result a).2.opened := by
        rw [ho]
        exact List.mem_append_right _ (List.mem_singleton.mpr rfl)
      rw [ht, ho]
      exact ⟨(fresh_openStaged hfresh dummy allocates result).positive hmem,
        hfresh.unused hd hr, database, hres, rfl⟩
  · exact fun t database ho hc => hfresh.lookupSlot ho hc
  · intro t ht calls
    exact (h.run calls).fresh.lookupSlot_closed ((run_keeps calls a).1 t ht)
  · intro i hi calls
    have hlater := (h.run calls).fresh
    have hretired := (run_keeps calls a).2 i hi
    refine ⟨hlater.retired i hretired, fun dummy allocates result g hdecode => ?_⟩
    rcases openStaged_spec dummy allocates result (a.run calls) with
      ⟨hnone, -⟩ | ⟨j, database, -, -, hr, ht, -⟩
    · rw [hnone] at hdecode
      have hzero : decodeHandle 0 = none := by decide
      rw [hzero] at hdecode
      exact nomatch hdecode
    · rw [ht, hlater.decode_token j, Option.some.injEq, Prod.mk.injEq] at hdecode
      rw [hdecode.1, hretired] at hr
      exact nomatch hr

/-- A slot that is closed and used again. -/
theorem handles_never_reused_second_open :
    let a := (Handles.loaded).run [.stage (some [100]) true, .openStaged true true (.ok 7),
      .close (some 257), .openStaged true true (.ok 8)]
    a.opened = [(257, 7), (513, 8)] ∧ a.closed = [257] ∧
      (∃ i, a.lookupSlot 513 = some i ∧ (a.slots i).database = some 8) ∧
      ∀ calls, (a.run calls).lookupSlot 257 = none := by
  have hreach : Reachable ((Handles.loaded).run [.stage (some [100]) true,
      .openStaged true true (.ok 7), .close (some 257), .openStaged true true (.ok 8)]) :=
    Reachable.loaded.run _
  have h := handles_never_reused hreach
  exact ⟨by decide, by decide, h.2.1 513 8 (by decide) (by decide), h.2.2.1 257 (by decide)⟩

end Esdb.Adapter
