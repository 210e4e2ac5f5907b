import Esdb.ParameterWire

/-!
# Values between the adapter and the script

The adapter writes a value as its type and a payload of digits; the script reads the
payload back by the type. What the script then holds shows the value: the same integer
in decimal, the same bytes in hex, the same characters.
-/
namespace Esdb.Wire

open Decimal Utf8Readers Delimited

/-! ## The adapter's side -/

def getDouble (value : Value) : Option (BitVec 64) :=
  if value.type = Value.double ∧ value.payload.length = 8 then
    some (BitVec.ofNat 64 (Query.readLe value.payload))
  else none

section Adapter

variable (stream : BitVec 64 → List Char)

/-- `double_decimal`; `stream` is what an output stream writes with all digits. -/
def doubleDecimal (bits : BitVec 64) : List Char :=
  if Query.isNan bits then "NaN".toList
  else if bits = 0x7ff0000000000000 then "Infinity".toList
  else if bits = 0xfff0000000000000 then "-Infinity".toList
  else if bits = 0x8000000000000000 then "-0".toList
  else stream bits

/-- The payload in `value_wire`. -/
def valuePayload (value : Value) : Option (List Char) :=
  if value.type = Value.null then some []
  else if value.type = Value.bool then (getBool value).map fun b => [if b then '1' else '0']
  else if value.type = Value.int32 then (getInt32 value).map intText
  else if value.type = Value.int64 then (getInt64 value).map intText
  else if value.type = Value.double then (getDouble value).map (doubleDecimal stream)
  else if value.type ≤ Value.object then (getData value).map upperHex
  else none

def valueWire (value : Value) : Option (List Char) :=
  (valuePayload stream value).map (valueLine value.type)

end Adapter

/-! ## The script's side -/

/-- A value in the script; `S` are the arrays and objects of the structured codec. -/
inductive StoreValue (D S : Type) where
  | undefined
  | null
  | boolean (b : Bool)
  | number (value : Number D)
  | int64 (value : Int64Value)
  | string (units : List ℕ)
  | bytes (value : BytesValue)
  | structured (value : S)

/-- What the script leaves to its host: `Number(text)` where that is no canonical integer,
and the codec. -/
structure Host (D S : Type) where
  number : List Char → Number D
  parse : ℕ → List ℕ → Except String S

/-- The integer of a canonical text. -/
def intValue : List Char → ℤ
  | '-' :: digits => -(value digits : ℤ)
  | digits => value digits

def newInt64Value (text : List Char) : Except String Int64Value :=
  match h : canonicalInt64 text with
  | .error e => .error e
  | .ok out => .ok ⟨out, text, h⟩

def newBytesValue (text : List Char) : Except String BytesValue :=
  match h : normalizeHex text with
  | .error e => .error e
  | .ok hex => .ok ⟨hex, text, h⟩

section Script

variable {D S : Type} (host : Host D S)

/-- `Number(text)`. -/
def scriptNumber (text : List Char) : Number D :=
  if canonicalDecimalSyntax text true ∧ (intValue text).natAbs ≤ maxSafeInteger then
    if text = ['-', '0'] then .negativeZero else .whole (intValue text)
  else host.number text

/-- A whole number of the range, as `Math.floor` and comparisons test for it. -/
def Number.within (low high : ℤ) : Number D → Option ℤ
  | .whole v => if low ≤ v ∧ v ≤ high then some v else none
  | .negativeZero => if low ≤ 0 ∧ 0 ≤ high then some 0 else none
  | _ => none

structure RawValue where
  found : Bool
  type : ℤ
  payload : List Char

def parseValueWire (wire : List Char) : Except String RawValue :=
  if wire.take 3 ≠ "V1:".toList then .error "invalid Store value wire version"
  else if ':' ∉ wire.drop 3 then .error "malformed Store value wire"
  else
    match (scriptNumber host (field ':' (wire.drop 3))).within (-1) Value.object with
    | none => .error "invalid Store value type in wire payload"
    | some type => .ok ⟨type ≠ -1, type, behind ':' (wire.drop 3)⟩

/-- The decimal digits of an INT32 as a number. Rounding keeps them outside the range when
they are, so they are compared as they stand. -/
def decodeInt32 (payload : List Char) : Except String (Number D) :=
  if !canonicalDecimalSyntax payload true then .error "invalid INT32 payload from native adapter"
  else if payload = ['-', '0'] then .ok .negativeZero
  else if intValue payload < -2147483648 ∨ 2147483647 < intValue payload then
    .error "INT32 payload is out of range"
  else .ok (.whole (intValue payload))

def decodeDouble (payload : List Char) : Except String (Number D) :=
  if payload = "NaN".toList then .ok .nan
  else if payload = "Infinity".toList then .ok (.infinity false)
  else if payload = "-Infinity".toList then .ok (.infinity true)
  else
    match scriptNumber host payload with
    | .nan => .error "invalid DOUBLE payload from native adapter"
    | value => .ok value

def decodeStoreValue (raw : RawValue) : Except String (StoreValue D S) :=
  if !raw.found then .ok .undefined
  else if raw.type = Value.null then .ok .null
  else if raw.type = Value.bool then
    if raw.payload = ['0'] then .ok (.boolean false)
    else if raw.payload = ['1'] then .ok (.boolean true)
    else .error "invalid BOOL payload from native adapter"
  else if raw.type = Value.int32 then (decodeInt32 raw.payload).map .number
  else if raw.type = Value.int64 then (newInt64Value raw.payload).map .int64
  else if raw.type = Value.double then (decodeDouble host raw.payload).map .number
  else if raw.type = Value.utf8 then (utf8FromHex raw.payload).map .string
  else if raw.type = Value.bytes then (newBytesValue raw.payload).map .bytes
  else if raw.type = Value.array ∨ raw.type = Value.object then do
    let text ← utf8FromHex raw.payload
    let parsed ← host.parse raw.type.toNat text
    .ok (.structured parsed)
  else .error "unsupported Store value type"

end Script

/-! ## What is shown -/

/-- The script's value shows the value of the store. -/
inductive Shown {D S : Type} : Value → StoreValue D S → Prop
  | null : Shown createNull .null
  | bool (b : Bool) : Shown (createBool b) (.boolean b)
  | int32 {v : ℤ} (h : isInt32 v) : Shown (createInt32 v) (.number (.whole v))
  | int64 {v : ℤ} {value : Int64Value} (h : isInt64 v) (htext : value.text = intText v) :
      Shown (createInt64 v) (.int64 value)
  | bytes {bytes : Bytes} {value : BytesValue} (h : value.hex = upperHex bytes) :
      Shown (createBytes bytes) (.bytes value)
  | text (cs : List Char) : Shown ⟨Value.utf8, cs.flatMap String.utf8EncodeChar⟩
      (.string (cs.flatMap fun c => units c.toNat))

/-- The values of the types that are neither doubles nor structured, as the store makes them. -/
def Simple (value : Value) : Prop :=
  value = createNull ∨ (∃ b, value = createBool b) ∨ (∃ v, isInt32 v ∧ value = createInt32 v) ∨
    (∃ v, isInt64 v ∧ value = createInt64 v) ∨ (∃ bytes, value = createBytes bytes) ∨
    ∃ bytes, Utf8.WellFormed bytes ∧ value = ⟨Value.utf8, bytes⟩

theorem value_intValue (v : ℤ) : intValue (intText v) = v := by
  by_cases hv : v < 0
  · have htext : intText v = '-' :: natText v.natAbs := if_pos hv
    rw [htext, intValue, value_natText]
    omega
  · rw [intText_nonneg (by omega)]
    unfold intValue
    split
    · next heq => exact absurd (heq ▸ List.mem_cons_self) minus_notMem_natText
    · rw [value_natText]
      omega

theorem newInt64Value_intText {v : ℤ} (h : isInt64 v) :
    ∃ value, newInt64Value (intText v) = .ok value ∧ value.text = intText v := by
  unfold newInt64Value
  split
  · next heq =>
      rw [canonicalInt64_intText h] at heq
      cases heq
  · next out heq =>
      refine ⟨_, rfl, ?_⟩
      rw [canonicalInt64_intText h] at heq
      exact (Except.ok.inj heq).symm

theorem newBytesValue_upperHex (bytes : Bytes) :
    ∃ value, newBytesValue (upperHex bytes) = .ok value ∧ value.hex = upperHex bytes := by
  unfold newBytesValue
  split
  · next heq =>
      rw [normalizeHex_upperHex] at heq
      cases heq
  · next out heq =>
      refine ⟨_, rfl, ?_⟩
      rw [normalizeHex_upperHex] at heq
      exact (Except.ok.inj heq).symm

variable {D S : Type} {host : Host D S}

theorem decodeInt32_intText {v : ℤ} (h : isInt32 v) :
    decodeInt32 (D := D) (intText v) = .ok (.whole v) := by
  have hgrammar := canonicalDecimalSyntax_true.mpr (.inr ⟨v, rfl⟩)
  have hrange : ¬(v < -2147483648 ∨ 2147483647 < v) := by
    have hlow := h.1
    have hhigh := h.2
    omega
  rw [decodeInt32, hgrammar, Bool.not_true, if_neg Bool.false_ne_true,
    if_neg (intText_ne_minus_zero v), value_intValue, if_neg hrange]

/-- The characters of payloads; no separator is one. -/
def PayloadChar (c : Char) : Prop := (nibble c).isSome = true ∨ c = '-'

instance (c : Char) : Decidable (PayloadChar c) := inferInstanceAs (Decidable (_ ∨ _))

theorem payloadChar_digit {c : Char} (h : c.isDigit = true) : PayloadChar c := by
  left
  rw [Char.isDigit, Bool.and_eq_true, decide_eq_true_eq, decide_eq_true_eq] at h
  have hrange : 48 ≤ c.toNat ∧ c.toNat ≤ 57 := h
  simp only [nibble, if_pos hrange, Option.isSome_some]

theorem payloadChar_intText {v : ℤ} : ∀ c ∈ intText v, PayloadChar c := by
  intro c hc
  unfold intText at hc
  split_ifs at hc
  · rcases List.mem_cons.mp hc with rfl | hc
    · exact .inr rfl
    · exact payloadChar_digit (isDigit_natText hc)
  · exact payloadChar_digit (isDigit_natText hc)

theorem payloadChar_upperHex {bytes : Bytes} : ∀ c ∈ upperHex bytes, PayloadChar c :=
  fun _ hc => .inl (nibble_upperHex hc)

/-- What the adapter writes of a simple value, the script reads as what shows it. -/
theorem decodeStoreValue_payload (stream : BitVec 64 → List Char) {value : Value}
    (h : Simple value) : ∃ (payload : List Char) (shown : StoreValue D S),
      valuePayload stream value = some payload ∧ (∀ c ∈ payload, PayloadChar c) ∧
        decodeStoreValue host ⟨true, value.type, payload⟩ = .ok shown ∧ Shown value shown := by
  rcases h with rfl | ⟨b, rfl⟩ | ⟨v, hv, rfl⟩ | ⟨v, hv, rfl⟩ | ⟨bytes, rfl⟩ | ⟨_, ⟨cs, rfl⟩, rfl⟩
  · exact ⟨[], .null, rfl, List.forall_mem_nil _, rfl, .null⟩
  · refine ⟨[if b then '1' else '0'], .boolean b, ?_, ?_, ?_, .bool b⟩
    · cases b <;> rfl
    · refine List.forall_mem_singleton.mpr (payloadChar_digit ?_)
      cases b <;> rfl
    · cases b <;> rfl
  · refine ⟨intText v, .number (.whole v), ?_, payloadChar_intText, ?_, .int32 hv⟩
    · exact congrArg (Option.map intText) (getInt32_createInt32 hv)
    · exact congrArg (Except.map StoreValue.number) (decodeInt32_intText hv)
  · obtain ⟨text, hnew, htext⟩ := newInt64Value_intText hv
    refine ⟨intText v, .int64 text, ?_, payloadChar_intText, ?_, .int64 hv htext⟩
    · exact congrArg (Option.map intText) (getInt64_createInt64 hv)
    · exact congrArg (Except.map StoreValue.int64) hnew
  · obtain ⟨made, hnew, hhex⟩ := newBytesValue_upperHex bytes
    refine ⟨upperHex bytes, .bytes made, rfl, payloadChar_upperHex, ?_, .bytes hhex⟩
    exact congrArg (Except.map StoreValue.bytes) hnew
  · refine ⟨upperHex (cs.flatMap String.utf8EncodeChar), _, rfl, payloadChar_upperHex, ?_,
      .text cs⟩
    exact congrArg (Except.map StoreValue.string) (utf8FromHex_text cs)

theorem Simple.type_le {value : Value} (h : Simple value) : value.type ≤ Value.object := by
  rcases h with rfl | ⟨b, rfl⟩ | ⟨v, -, rfl⟩ | ⟨v, -, rfl⟩ | ⟨bytes, rfl⟩ | ⟨bytes, -, rfl⟩
  · exact (by decide : Value.null ≤ Value.object)
  · exact (by decide : Value.bool ≤ Value.object)
  · exact (by decide : Value.int32 ≤ Value.object)
  · exact (by decide : Value.int64 ≤ Value.object)
  · exact (by decide : Value.bytes ≤ Value.object)
  · exact (by decide : Value.utf8 ≤ Value.object)

/-- `Number` of a small canonical decimal. -/
theorem scriptNumber_natText {n : ℕ} (h : n ≤ maxSafeInteger) :
    scriptNumber host (natText n) = .whole n := by
  have htext : intText (n : ℤ) = natText n := intText_nonneg (Int.natCast_nonneg n)
  have hgrammar : canonicalDecimalSyntax (natText n) true = true :=
    canonicalDecimalSyntax_true.mpr (.inr ⟨n, htext.symm⟩)
  have hvalue : intValue (natText n) = n := by rw [← htext, value_intValue]
  have hne : natText n ≠ ['-', '0'] := by
    rw [← htext]
    exact intText_ne_minus_zero n
  unfold scriptNumber
  rw [hvalue, if_pos ⟨hgrammar, h⟩, if_neg hne]

end Esdb.Wire
