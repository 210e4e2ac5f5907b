import Esdb.AdapterText
import Esdb.ObjectStoreLives
import Esdb.ObjectStoreOperations

/-!
# Values in the rows of the store

A value is stored as its type tag and its payload, and read back through checks of both.
The checks let the payloads of each type pass that a constructor makes. The tag is read as
an `int`, which keeps the low half of a wider integer.
-/
namespace Esdb.ObjectStore

open Transactional Esdb.Runtime KeyedRows Wire

/-! ## The values of the constructors -/

/-- What some `esdb_value_create_*` builds. -/
inductive Creatable : Value → Prop
  | null : Creatable createNull
  | bool (input : Bool) : Creatable (createBool input)
  | int32 (input : ℤ) (h : isInt32 input) : Creatable (createInt32 input)
  | int64 (input : ℤ) (h : isInt64 input) : Creatable (createInt64 input)
  | double (bits : BitVec 64) : Creatable (createDouble bits)
  | text (type : ℕ) (utf8 : Bytes) (value : Value) (h : createText type utf8 = some value) :
      Creatable value
  | bytes (bytes : Bytes) : Creatable (createBytes bytes)

theorem readLe_lt (s : Bytes) : Query.readLe s < 256 ^ s.length := by
  induction s with
  | nil => exact Nat.one_pos
  | cons b s ih =>
      have hb := b.toNat_lt
      rw [Query.readLe, List.length_cons, pow_succ]
      omega

theorem appendLe_readLe (s : Bytes) : appendLe s.length (Query.readLe s) = s := by
  induction s with
  | nil => rfl
  | cons b s ih =>
      have hb := b.toNat_lt
      have hdiv : (b.toNat + 256 * Query.readLe s) / 256 = Query.readLe s := by omega
      have hmod : UInt8.ofNat (b.toNat + 256 * Query.readLe s) = b := by
        rw [← UInt8.toNat_inj, UInt8.toNat_ofNat']
        omega
      rw [Query.readLe, List.length_cons, appendLe_succ, hdiv, hmod, ih]

theorem toUnsigned_toSigned {w n : ℕ} (hw : 0 < w) (h : n < 2 ^ w) :
    toUnsigned w (toSigned w n) = n ∧
      -2 ^ (w - 1) ≤ toSigned w n ∧ toSigned w n < 2 ^ (w - 1) := by
  obtain ⟨w, rfl⟩ : ∃ w', w = w' + 1 := ⟨w - 1, by omega⟩
  have hdouble : (2 : ℤ) ^ (w + 1) = 2 * 2 ^ w := by rw [pow_succ, mul_comm]
  have hcast : ((2 ^ w : ℕ) : ℤ) = 2 ^ w := by push_cast; rfl
  have hpos : (0 : ℤ) < 2 ^ w := Int.pow_pos (by decide)
  rw [pow_succ] at h
  unfold toUnsigned toSigned
  simp only [Nat.add_sub_cancel]
  rw [hdouble]
  by_cases hn : n < 2 ^ w
  · rw [if_pos hn, Int.emod_eq_of_lt (by omega) (by omega)]
    omega
  · rw [if_neg hn, ← Int.add_emod_right, Int.emod_eq_of_lt (by omega) (by omega)]
    omega

/-- A payload of that many bytes is that of an integer. -/
theorem payload_signed {k : ℕ} (hk : 0 < k) {payload : Bytes} (h : payload.length = k) :
    ∃ v : ℤ, (-2 ^ (8 * k - 1) ≤ v ∧ v < 2 ^ (8 * k - 1)) ∧
      appendLe k (toUnsigned (8 * k) v) = payload := by
  subst h
  have hlt : Query.readLe payload < 2 ^ (8 * payload.length) := by
    rw [Nat.pow_mul]
    exact readLe_lt payload
  obtain ⟨heq, hrange⟩ := toUnsigned_toSigned (by omega) hlt
  exact ⟨_, hrange, by rw [heq, appendLe_readLe]⟩

theorem payload_double {payload : Bytes} (h : payload.length = 8) :
    ∃ bits, createDouble bits = ⟨Value.double, payload⟩ := by
  refine ⟨BitVec.ofNat 64 (Query.readLe payload), ?_⟩
  have hlt : Query.readLe payload < 2 ^ 64 := by
    have := readLe_lt payload
    rw [h] at this
    exact this
  rw [createDouble, appendLe64_eq, BitVec.toNat_ofNat, Nat.mod_eq_of_lt hlt]
  congr 1
  exact h ▸ appendLe_readLe payload

theorem createText_eq_some {type : ℕ} {utf8 : Bytes} {value : Value} :
    createText type utf8 = some value ↔
      (type = Value.utf8 ∨ type = Value.array ∨ type = Value.object) ∧
        validUtf8 utf8 = true ∧ value = ⟨type, utf8⟩ := by
  unfold createText
  by_cases htype : type = Value.utf8 ∨ type = Value.array ∨ type = Value.object
  · have hok : ¬(type ≠ Value.utf8 ∧ type ≠ Value.array ∧ type ≠ Value.object) := by
      rintro ⟨h₁, h₂, h₃⟩
      rcases htype with h | h | h
      · exact h₁ h
      · exact h₂ h
      · exact h₃ h
    rw [if_neg hok]
    by_cases hutf : validUtf8 utf8 = true
    · simp [htype, hutf, eq_comm]
    · simp [hutf]
  · have hbad : type ≠ Value.utf8 ∧ type ≠ Value.array ∧ type ≠ Value.object := by
      refine ⟨fun h => htype (.inl h), fun h => htype (.inr (.inl h)),
        fun h => htype (.inr (.inr h))⟩
    rw [if_pos hbad]
    simp [htype]

/-- The payload check knows the payloads that the constructors make. -/
theorem payloadValid_iff {type : ℕ} {payload : Bytes} :
    payloadValid type payload = true ↔ Creatable ⟨type, payload⟩ := by
  constructor
  · intro h
    unfold payloadValid at h
    by_cases h₀ : type = Value.null
    · rw [if_pos h₀, beq_iff_eq, List.length_eq_zero_iff] at h
      subst h₀ h
      exact .null
    rw [if_neg h₀] at h
    by_cases h₁ : type = Value.bool
    · rw [if_pos h₁, Bool.or_eq_true, beq_iff_eq, beq_iff_eq] at h
      subst h₁
      rcases h with rfl | rfl
      · exact .bool false
      · exact .bool true
    rw [if_neg h₁] at h
    by_cases h₂ : type = Value.int32
    · rw [if_pos h₂, beq_iff_eq] at h
      obtain ⟨v, hv, rfl⟩ := payload_signed (by decide) h
      subst h₂
      exact .int32 v hv
    rw [if_neg h₂] at h
    by_cases h₃ : type = Value.int64 ∨ type = Value.double
    · rw [if_pos h₃, beq_iff_eq] at h
      rcases h₃ with rfl | rfl
      · obtain ⟨v, hv, rfl⟩ := payload_signed (by decide) h
        exact .int64 v hv
      · obtain ⟨bits, hbits⟩ := payload_double h
        exact hbits ▸ .double bits
    rw [if_neg h₃] at h
    by_cases h₄ : type = Value.utf8 ∨ type = Value.array ∨ type = Value.object
    · rw [if_pos h₄] at h
      exact .text type payload _ (createText_eq_some.mpr ⟨h₄, h, rfl⟩)
    · rw [if_neg h₄, beq_iff_eq] at h
      subst h
      exact .bytes payload
  · generalize hv : (⟨type, payload⟩ : Value) = value
    intro h
    cases h with
    | null => cases hv; rfl
    | bool input => cases hv; cases input <;> rfl
    | int32 input _ => cases hv; rfl
    | int64 input _ => cases hv; rfl
    | double bits => cases hv; rfl
    | text type' utf8 _ hcreate =>
        obtain ⟨htype, hutf, rfl⟩ := createText_eq_some.mp hcreate
        cases hv
        rcases htype with rfl | rfl | rfl
        · exact hutf
        · exact hutf
        · exact hutf
    | bytes payload' => cases hv; rfl

theorem Creatable.type_le {value : Value} (h : Creatable value) : value.type ≤ Value.object := by
  have hall : ∀ type ∈ [Value.null, Value.bool, Value.int32, Value.int64, Value.double, Value.utf8,
      Value.array, Value.object, Value.bytes], type ≤ Value.object := by decide
  apply hall
  cases h with
  | text type utf8 _ hcreate =>
      obtain ⟨rfl | rfl | rfl, -, rfl⟩ := createText_eq_some.mp hcreate <;> simp
  | _ => simp [createNull, createBool, createInt32, createInt64, createDouble, createBytes]

/-! ## The decoder of a row -/

/-- The pair of cells that a put stores for a value. -/
def StoredAs (value : Value) (type : ℤ) (cell : Cell) : Prop :=
  type = value.type ∧ cell = .blob value.payload

theorem columnInt_range (type : ℤ) :
    -2147483648 ≤ columnInt type ∧ columnInt type < 2147483648 := by
  unfold columnInt
  omega

theorem columnInt_self {type : ℤ} (h : -2147483648 ≤ type ∧ type < 2147483648) :
    columnInt type = type := by
  unfold columnInt
  omega

/-- The decoder accepts what is the image of a value under the tag as it reads it. -/
theorem cloneSqlValue_eq_ok {type : ℤ} {cell : Cell} {value : Value} :
    cloneSqlValue true type cell = .ok value ↔
      Creatable value ∧ StoredAs value (columnInt type) cell := by
  unfold cloneSqlValue
  by_cases hvalid : validColumnType (columnInt type) = true
  · have hrange : 0 ≤ columnInt type := by
      rw [validColumnType, Bool.and_eq_true, decide_eq_true_eq] at hvalid
      exact hvalid.1
    simp only [hvalid]
    cases cell with
    | blob payload =>
        by_cases hpayload : payloadValid (columnInt type).toNat payload = true
        · simp only [hpayload, Bool.not_true, Bool.false_eq_true, if_false, Except.ok.injEq]
          constructor
          · rintro rfl
            exact ⟨payloadValid_iff.mp hpayload, (Int.toNat_of_nonneg hrange).symm, rfl⟩
          · rintro ⟨-, htype, hcell⟩
            obtain ⟨type', payload'⟩ := value
            cases hcell
            simp only [htype, Int.toNat_natCast]
        · simp only [hpayload, Bool.not_true, Bool.not_false, Bool.false_eq_true, if_false, if_true,
            reduceCtorEq, false_iff]
          rintro ⟨hcreate, htype, hcell⟩
          obtain ⟨type', payload'⟩ := value
          cases hcell
          rw [htype, Int.toNat_natCast] at hpayload
          exact hpayload (payloadValid_iff.mpr hcreate)
    | _ =>
        simp only [Bool.not_true, Bool.false_eq_true, if_false, reduceCtorEq, false_iff]
        rintro ⟨-, -, hcell⟩
        cases hcell
  · rw [Bool.not_eq_true] at hvalid
    simp only [hvalid, Bool.not_false, if_true, reduceCtorEq, false_iff]
    rintro ⟨hcreate, htype, -⟩
    rw [validColumnType, htype, Bool.and_eq_false_iff, decide_eq_false_iff_not,
      decide_eq_false_iff_not] at hvalid
    have := hcreate.type_le
    omega

/-- One connection by itself, where any command may meet any fault. -/
abbrev lone : StoreContract := alone fun _ _ _ => True

theorem hosts_lone : Hosts lone := ⟨fun _ _ he hd => he ▸ hd, fun _ _ _ _ => trivial⟩

variable {σ σ₁ σ₂ : Session} {name key : Bytes} {value : Value} {revision : ℤ}

/-- A read without a fault gives what the content has. -/
theorem run_ask_statement {s : Sql} (hs : s.writes = false) {r : s.Row} {d : Tables}
    (h : s.eval σ.view = .ok (r, d)) : ((ask (statement s)).run [] σ).1 = .ok r :=
  Query.run_one hs h

theorem ensure_ready (h : σ.wrapper.objectStoreSchemaReady = true) :
    ensureObjectStoreSchema.run [] σ = (.ok (), σ) := by
  unfold ensureObjectStoreSchema
  change (Prog.run (if σ.wrapper.objectStoreSchemaReady then _ else _) [] σ) = _
  rw [h]
  rfl

/-- A get on a connection that has seen the schema answers the decoded row. -/
theorem run_get (hnames : validStoreName name = true ∧ validStoreKey key = true)
    (hready : σ.wrapper.objectStoreSchemaReady = true) {type : ℤ} {cell : Cell}
    (h : (Sql.readRecord name key).eval σ.view = .ok (some (type, cell), σ.view)) :
    ((get true name key).run [] σ).1 = cloneSqlValue true type cell := by
  unfold get
  rw [hnames.1, hnames.2, if_neg (by decide), Op.run_bind (ensure_ready hready)]
  have hread := run_ask_statement (s := .readRecord name key) rfl h
  rw [Op.run_bind (Prod.ext hread rfl)]
  change (Prog.run (ofExcept (cloneSqlValue true type cell)) [] _).1 = _
  cases cloneSqlValue true type cell with
  | error e => rfl
  | ok v => rfl

/-- A run by itself is one among others. -/
theorem Lives.lone {op : StoreOp} {r : Except Failure Reply} (h : Lives σ)
    (hr : Runs lone op.program σ r σ₁) : Lives σ₁ := by
  have hrun : Runs anyFaults op.program σ r σ₁ ∧ True := hr.under (I := fun _ => True)
    (wp_storeOp hosts_lone h.rooted op) trivial (fun _ _ _ _ => trivial) (fun _ _ _ _ => trivial)
    (fun d d' he => unfinished_of_eq he) (fun _ _ _ _ _ => trivial)
  exact .call (.store op) h (fun _ he => nomatch he) hrun.1

end Esdb.ObjectStore
